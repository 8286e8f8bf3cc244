import Mathlib.Tactic
import Harlan.VirtioBlk

/-!
Runs of the block driver against a device that may be slow.

A request that was published is in flight until the device has returned its chain: `Flight` is
every state it may be in meanwhile, and what the frame and the disk hold in each. The driver's
own steps up to publishing happen with nothing in flight, unless a request was given up before
and its chain is still with the device.

* `Flight.step`: what a step of the device does to a request in flight.
* `Sound.step`: every step keeps the invariant.
* `virtioBlk_answers`: the answers are right in every run in which no request is made while the
  chain of one that was given up is still out.
* `virtioBlk_mixesUp`: otherwise a sector may be written with another's bytes.
-/

namespace Harlan.VirtioBlk

variable {m m' : Machine} {request : Request}

/-! ### Sectors in memory -/

lemma getSector_putSector (mem : ByteMemory) (addr : ℕ) (bytes : Sector) :
    getSector (putSector mem addr bytes) addr = bytes := by
  funext i
  have hi := i.isLt
  rw [getSector, putSector, dif_pos ⟨by omega, by omega⟩]
  congr 1
  exact Fin.ext (Nat.add_sub_cancel_left addr i)

lemma putSector_of_outside {mem : ByteMemory} {addr a : ℕ} {bytes : Sector}
    (h : a < addr ∨ addr + 512 ≤ a) : putSector mem addr bytes a = mem a := dif_neg (by omega)

lemma getSector_congr {mem mem' : ByteMemory} {addr : ℕ}
    (h : ∀ a, addr ≤ a → a < addr + 512 → mem' a = mem a) :
    getSector mem' addr = getSector mem addr := by
  funext i
  have hi := i.isLt
  exact h _ (by omega) (by omega)

/-! ### A request in the frame -/

/-- The header of a request is in the frame. -/
structure HasHeader (mem : ByteMemory) (frame : ℕ) (request : Request) : Prop where
  kind : getWord mem (frame + headerAt) 4 = request.kind
  sector : getWord mem (frame + headerAt + 8) 8 = request.sector.toNat

/-- So are the bytes to be written, if it is a write. -/
def HasBytes (mem : ByteMemory) (frame : ℕ) (request : Request) : Prop :=
  ∀ sector bytes, request = .write sector bytes → getSector mem (frame + dataAt) = bytes

/-- The data has been moved. -/
def Moved (mem : ByteMemory) (frame : ℕ) (disk : ℕ → Sector) : Request → Prop
  | .read sector => getSector mem (frame + dataAt) = disk sector.toNat
  | .write sector bytes => disk sector.toNat = bytes

/-- The chain of a request, once the device has fetched it. -/
def chainOf (frame : ℕ) (request : Request) (stage : Stage) : Fetched :=
  ⟨head, request.kind, request.sector.toNat, dataDescriptor frame request.writing,
    statusDescriptor frame, stage⟩

lemma hasHeader_putBytes (mem : ByteMemory) (frame : ℕ) (request : Request) :
    HasHeader (putBytes mem (frame + headerAt) (header request.kind request.sector)) frame
      request := by
  have hlength : (header request.kind request.sector).length = 16 := by simp [header]
  have hkind : request.kind < 256 ^ 4 := by
    cases request <;> norm_num [Request.kind, typeIn, typeOut]
  have hsector : request.sector.toNat < 256 ^ 8 := by
    have := request.sector.toNat_lt
    norm_num
    omega
  constructor
  · refine (getWord_leBytes fun i hi => ?_).trans (Nat.mod_eq_of_lt hkind)
    rw [putBytes_add (by omega), header, List.append_assoc, getD_append_here (by simpa using hi)]
  · refine (getWord_leBytes fun i hi => ?_).trans (Nat.mod_eq_of_lt hsector)
    rw [Nat.add_assoc, putBytes_add (by omega), header, List.append_assoc,
      show 8 + i = 4 + (4 + i) by omega, getD_append_skip (length_leBytes _ _),
      getD_append_skip (length_leBytes _ _)]

/-- The header depends on its own bytes. -/
lemma HasHeader.congr {mem mem' : ByteMemory} {frame : ℕ} (h : HasHeader mem frame request)
    (hmem : ∀ a, a < frame + dataAt → mem' a = mem a) : HasHeader mem' frame request := by
  have hdata : dataAt = 512 := rfl
  have hheader : headerAt = 0 := rfl
  refine ⟨?_, ?_⟩
  · rw [← h.kind]
    exact getWord_congr fun a hlow hhigh => hmem a (by omega)
  · rw [← h.sector]
    exact getWord_congr fun a hlow hhigh => hmem a (by omega)

/-! ### In flight -/

/-- Nothing is with the device. -/
structure Quiet (m : Machine) : Prop where
  active : m.active = []
  taken : m.taken = m.queue.availableIndex
  used : m.queue.usedIndex = m.queue.availableIndex

/-- The chain of a request is written. -/
structure Armed (queue : Queue) (frame : ℕ) (request : Request) : Prop where
  head : queue.descriptors head = headDescriptor frame
  data : queue.descriptors data = dataDescriptor frame request.writing
  status : queue.descriptors status = statusDescriptor frame

/-- The device has returned the chain of a request. -/
structure Returned (m : Machine) (request : Request) (status : UInt8) : Prop where
  quiet : Quiet m
  completion : m.queue.completion (m.queue.availableIndex - 1)
    = ⟨head, (chainOf m.frame request .fetched).written status⟩
  found : m.mem (m.frame + statusAt) = status
  moved : status = statusOk → Moved m.mem m.frame m.disk request

/-- Every state a published request may be in. -/
inductive Flight (m : Machine) (request : Request) : Prop
  | published (active : m.active = []) (taken : m.taken + 1 = m.queue.availableIndex)
      (used : m.queue.usedIndex + 1 = m.queue.availableIndex)
      (slot : m.queue.available (slotOf m.taken) = head) (armed : Armed m.queue m.frame request)
      (hasHeader : HasHeader m.mem m.frame request) (bytes : HasBytes m.mem m.frame request)
  | fetched (active : m.active = [chainOf m.frame request .fetched])
      (taken : m.taken = m.queue.availableIndex)
      (used : m.queue.usedIndex + 1 = m.queue.availableIndex)
        (bytes : HasBytes m.mem m.frame request)
  | moved (status : UInt8) (active : m.active = [chainOf m.frame request (.moved status)])
      (taken : m.taken = m.queue.availableIndex)
      (used : m.queue.usedIndex + 1 = m.queue.availableIndex)
      (done : status = statusOk → Moved m.mem m.frame m.disk request)
  | answered (status : UInt8) (active : m.active = [chainOf m.frame request (.answered status)])
      (taken : m.taken = m.queue.availableIndex)
      (used : m.queue.usedIndex + 1 = m.queue.availableIndex)
      (found : m.mem (m.frame + statusAt) = status)
      (done : status = statusOk → Moved m.mem m.frame m.disk request)
  | returned (status : UInt8) (h : Returned m request status)

/-- What a step of the device leaves alone, and what it may write to the disk. -/
structure DeviceStep (m m' : Machine) (request : Request) : Prop where
  frame : m'.frame = m.frame
  driver : m'.driver = m.driver
  calls : m'.calls = m.calls
  ended : m'.ended = m.ended
  available : m'.queue.availableIndex = m.queue.availableIndex
  writes : m'.diskWrites = m.diskWrites ∨ ∃ sector bytes, request = .write sector bytes
    ∧ m'.diskWrites = (sector.toNat, bytes) :: m.diskWrites

/-- The step is the device's. -/
def Action.OfDevice : Action → Prop
  | .call _ => False
  | .driver => False
  | _ => True

/-- With nothing in flight the device has nothing to do. -/
lemma Quiet.step_none (h : Quiet m) {action : Action} (haction : action.OfDevice) :
    m.step action = none := by
  cases action with
  | call request => exact absurd haction id
  | driver => exact absurd haction id
  | fetch => rw [Machine.step, Machine.fetch, if_pos h.taken]
  | transfer which => simp [Machine.step, Machine.transfer, h.active]
  | refuse which => simp [Machine.step, Machine.refuse, h.active]
  | answer which => simp [Machine.step, Machine.answer, h.active]
  | complete which => simp [Machine.step, Machine.complete, h.active]

lemma step_fetch (hactive : m.active = []) (htaken : m.taken + 1 = m.queue.availableIndex)
    (hused : m.queue.usedIndex + 1 = m.queue.availableIndex)
    (hslot : m.queue.available (slotOf m.taken) = head) (harmed : Armed m.queue m.frame request)
    (hheader : HasHeader m.mem m.frame request) (hbytes : HasBytes m.mem m.frame request)
    (h : m.fetch = some m') : Flight m' request ∧ DeviceStep m m' request := by
  rw [Machine.fetch] at h
  split at h
  · cases h
  · obtain rfl := Option.some.inj h
    refine ⟨.fetched ?_ htaken hused hbytes, ⟨rfl, rfl, rfl, rfl, rfl, .inl rfl⟩⟩
    simp only [hactive, List.nil_append, hslot, harmed.head, headDescriptor, harmed.data,
      dataDescriptor, harmed.status, hheader.kind, hheader.sector, chainOf]

lemma step_transfer (hactive : m.active = [chainOf m.frame request .fetched])
    (htaken : m.taken = m.queue.availableIndex)
    (hused : m.queue.usedIndex + 1 = m.queue.availableIndex)
    (hbytes : HasBytes m.mem m.frame request) {which : ℕ} (h : m.transfer which = some m') :
    Flight m' request ∧ DeviceStep m m' request := by
  rw [Machine.transfer, hactive] at h
  obtain _ | which := which
  · cases request with
    | read sector =>
        obtain rfl : _ = m' := by
          simpa [chainOf, Request.kind, dataDescriptor, Request.writing, descNext,
          descWrite, typeIn, typeOut] using h
        refine ⟨.moved statusOk rfl htaken hused fun _ => ?_, ⟨rfl, rfl, rfl, rfl, rfl, .inl rfl⟩⟩
        exact getSector_putSector _ _ _
    | write sector bytes =>
        obtain rfl : _ = m' := by
          simpa [chainOf, Request.kind, dataDescriptor, Request.writing, descNext,
          descWrite, typeIn, typeOut] using h
        have hsector := hbytes sector bytes rfl
        refine ⟨.moved statusOk rfl htaken hused fun _ => ?_,
          ⟨rfl, rfl, rfl, rfl, rfl, .inr ⟨sector, bytes, rfl, ?_⟩⟩⟩
        · simp only [Moved, Request.sector, Function.update_self]
          exact hsector
        · simp only [Request.sector, hsector]
  · simp at h

lemma step_refuse (hactive : m.active = [chainOf m.frame request .fetched])
    (htaken : m.taken = m.queue.availableIndex)
    (hused : m.queue.usedIndex + 1 = m.queue.availableIndex)
    {which : ℕ} (h : m.refuse which = some m') : Flight m' request ∧ DeviceStep m m' request := by
  rw [Machine.refuse, hactive] at h
  obtain _ | which := which
  · obtain rfl : _ = m' := by simpa [chainOf] using h
    refine ⟨.moved statusIoError rfl htaken hused fun hok => ?_,
      ⟨rfl, rfl, rfl, rfl, rfl, .inl rfl⟩⟩
    exact absurd hok (by decide)
  · simp at h

/-- Writing the status changes no other byte of the frame. -/
lemma moved_status {mem : ByteMemory} {frame : ℕ} {disk : ℕ → Sector} {status : UInt8}
    (h : Moved mem frame disk request) :
    Moved (putBytes mem (frame + statusAt) [status]) frame disk request := by
  cases request with
  | write sector bytes => exact h
  | read sector =>
      refine (getSector_congr fun a hlow hhigh => putBytes_of_outside (.inl ?_)).trans h
      have hdata : dataAt = 0x200 := rfl
      have hstatus : statusAt = 0xE00 := rfl
      omega

lemma step_answer {status : UInt8}
    (hactive : m.active = [chainOf m.frame request (.moved status)])
    (htaken : m.taken = m.queue.availableIndex)
    (hused : m.queue.usedIndex + 1 = m.queue.availableIndex)
    (hmoved : status = statusOk → Moved m.mem m.frame m.disk request) {which : ℕ}
    (h : m.answer which = some m') : Flight m' request ∧ DeviceStep m m' request := by
  rw [Machine.answer, hactive] at h
  obtain _ | which := which
  · obtain rfl : _ = m' := by simpa [chainOf] using h
    refine ⟨.answered status rfl htaken hused ?_ fun hok => moved_status (hmoved hok),
      ⟨rfl, rfl, rfl, rfl, rfl, .inl rfl⟩⟩
    simp only [statusDescriptor, putBytes_single]
  · simp at h

lemma step_complete {status : UInt8}
    (hactive : m.active = [chainOf m.frame request (.answered status)])
    (htaken : m.taken = m.queue.availableIndex)
    (hused : m.queue.usedIndex + 1 = m.queue.availableIndex)
    (hfound : m.mem (m.frame + statusAt) = status)
    (hmoved : status = statusOk → Moved m.mem m.frame m.disk request) {which : ℕ}
    (h : m.complete which = some m') : Flight m' request ∧ DeviceStep m m' request := by
  rw [Machine.complete, hactive] at h
  obtain _ | which := which
  · obtain rfl : _ = m' := by simpa [chainOf] using h
    have hindex : m.queue.availableIndex - 1 = m.queue.usedIndex := by
      rw [← hused]
      exact UInt16.add_sub_cancel _ _
    refine ⟨.returned status ⟨⟨rfl, htaken, hused⟩, ?_, hfound, hmoved⟩,
      ⟨rfl, rfl, rfl, rfl, rfl, .inl rfl⟩⟩
    simp only [Queue.completion, hindex, Function.update_self]
    rfl
  · simp at h

/-- **A step of the device** brings a request in flight one stage further. -/
theorem Flight.step (h : Flight m request) {action : Action} (haction : action.OfDevice)
    (hstep : m.step action = some m') : Flight m' request ∧ DeviceStep m m' request := by
  cases h with
  | returned status h =>
      rw [h.quiet.step_none haction] at hstep
      cases hstep
  -- the device has not seen the chain: it can only fetch it
  | published hactive htaken hused hslot harmed hheader hbytes =>
      cases action with
      | call request => exact absurd haction id
      | driver => exact absurd haction id
      | fetch => exact step_fetch hactive htaken hused hslot harmed hheader hbytes hstep
      | transfer which => simp [Machine.step, Machine.transfer, hactive] at hstep
      | refuse which => simp [Machine.step, Machine.refuse, hactive] at hstep
      | answer which => simp [Machine.step, Machine.answer, hactive] at hstep
      | complete which => simp [Machine.step, Machine.complete, hactive] at hstep
  -- the chain is fetched: its data may move, or be refused
  | fetched hactive htaken hused hbytes =>
      cases action with
      | call request => exact absurd haction id
      | driver => exact absurd haction id
      | fetch => simp [Machine.step, Machine.fetch, htaken] at hstep
      | transfer which => exact step_transfer hactive htaken hused hbytes hstep
      | refuse which => exact step_refuse hactive htaken hused hstep
      | answer which =>
          rw [Machine.step, Machine.answer, hactive] at hstep
          obtain _ | which := which <;> simp [chainOf] at hstep
      | complete which =>
          rw [Machine.step, Machine.complete, hactive] at hstep
          obtain _ | which := which <;> simp [chainOf] at hstep
  -- the data moved: the status is next
  | moved status hactive htaken hused hmoved =>
      cases action with
      | call request => exact absurd haction id
      | driver => exact absurd haction id
      | fetch => simp [Machine.step, Machine.fetch, htaken] at hstep
      | transfer which =>
          rw [Machine.step, Machine.transfer, hactive] at hstep
          obtain _ | which := which <;> simp [chainOf] at hstep
      | refuse which =>
          rw [Machine.step, Machine.refuse, hactive] at hstep
          obtain _ | which := which <;> simp [chainOf] at hstep
      | answer which => exact step_answer hactive htaken hused hmoved hstep
      | complete which =>
          rw [Machine.step, Machine.complete, hactive] at hstep
          obtain _ | which := which <;> simp [chainOf] at hstep
  -- the status is written: the chain is to be completed
  | answered status hactive htaken hused hfound hmoved =>
      cases action with
      | call request => exact absurd haction id
      | driver => exact absurd haction id
      | fetch => simp [Machine.step, Machine.fetch, htaken] at hstep
      | transfer which =>
          rw [Machine.step, Machine.transfer, hactive] at hstep
          obtain _ | which := which <;> simp [chainOf] at hstep
      | refuse which =>
          rw [Machine.step, Machine.refuse, hactive] at hstep
          obtain _ | which := which <;> simp [chainOf] at hstep
      | answer which =>
          rw [Machine.step, Machine.answer, hactive] at hstep
          obtain _ | which := which <;> simp [chainOf] at hstep
      | complete which => exact step_complete hactive htaken hused hfound hmoved hstep

lemma succ_ne (index : UInt16) : index + 1 ≠ index := by
  intro h
  have := congrArg UInt16.toNat h
  rw [UInt16.toNat_add] at this
  have hone : UInt16.toNat 1 = 1 := rfl
  omega

/-- Once the used index is the one published, the chain has been returned. -/
lemma Flight.returned_of_used (h : Flight m request)
    (hused : m.queue.usedIndex = m.queue.availableIndex) :
    ∃ status, Returned m request status := by
  cases h with
  | returned status h => exact ⟨status, h⟩
  | published _ _ hbehind => exact absurd (hbehind.trans hused.symm) (succ_ne _)
  | fetched _ _ hbehind => exact absurd (hbehind.trans hused.symm) (succ_ne _)
  | moved _ _ _ hbehind => exact absurd (hbehind.trans hused.symm) (succ_ne _)
  | answered _ _ _ hbehind => exact absurd (hbehind.trans hused.symm) (succ_ne _)

/-- A chain that is not with the device any more has been returned. -/
lemma Flight.quiet (h : Flight m request) (hnone : ¬m.Outstanding) : Quiet m := by
  rw [Machine.Outstanding, not_or, not_not, not_not] at hnone
  obtain ⟨hactive, htaken⟩ := hnone
  cases h with
  | returned status h => exact h.quiet
  | published _ hbehind => exact absurd (hbehind.trans htaken.symm) (succ_ne _)
  | fetched hchain =>
      rw [hactive] at hchain
      cases hchain
  | moved _ hchain =>
      rw [hactive] at hchain
      cases hchain
  | answered _ hchain =>
      rw [hactive] at hchain
      cases hchain

/-- What the driver and the logs say has no part in it. -/
lemma Flight.besides (h : Flight m request) (driver : Driver) (calls : List Request)
    (ended : List Ended) :
    Flight { m with driver := driver, calls := calls, ended := ended } request := by
  cases h with
  | published hactive htaken hused hslot harmed hheader hbytes =>
      exact .published hactive htaken hused hslot harmed hheader hbytes
  | fetched hactive htaken hused hbytes => exact .fetched hactive htaken hused hbytes
  | moved status hactive htaken hused hmoved => exact .moved status hactive htaken hused hmoved
  | answered status hactive htaken hused hfound hmoved =>
      exact .answered status hactive htaken hused hfound hmoved
  | returned status h =>
      exact .returned status ⟨⟨h.quiet.1, h.quiet.2, h.quiet.3⟩, h.completion, h.found, h.moved⟩

/-! ### The driver -/

/-- The phases that write to the frame, the descriptors or the ring. -/
def Phase.Rewrites : Phase → Prop
  | .writeHeader => True
  | .writeStatus => True
  | .fillData => True
  | .setHead => True
  | .setData => True
  | .setStatus => True
  | .writeSlot => True
  | .writeIndex _ => True
  | _ => False

/-- What is in its place when a request gets to a phase. -/
def Preparing (m : Machine) (request : Request) : Phase → Prop
  | .writeHeader => True
  | .writeStatus => HasHeader m.mem m.frame request
  | .fillData => HasHeader m.mem m.frame request
  | .setHead => HasHeader m.mem m.frame request ∧ HasBytes m.mem m.frame request
  | .setData => HasHeader m.mem m.frame request ∧ HasBytes m.mem m.frame request
      ∧ m.queue.descriptors head = headDescriptor m.frame
  | .setStatus => HasHeader m.mem m.frame request ∧ HasBytes m.mem m.frame request
      ∧ m.queue.descriptors head = headDescriptor m.frame
      ∧ m.queue.descriptors data = dataDescriptor m.frame request.writing
  | .writeSlot => HasHeader m.mem m.frame request ∧ HasBytes m.mem m.frame request
      ∧ Armed m.queue m.frame request
  | .writeIndex index => HasHeader m.mem m.frame request ∧ HasBytes m.mem m.frame request
      ∧ Armed m.queue m.frame request ∧ index = m.queue.availableIndex
      ∧ m.queue.available (slotOf index) = head
  | _ => False

/-- Where the driver is, and what that says of the device. -/
def Busy (m : Machine) (request : Request) : Phase → Prop
  | .ring published => published = m.queue.availableIndex ∧ Flight m request
  | .poll published _ => published = m.queue.availableIndex ∧ Flight m request
  | .readCompletion published =>
      published = m.queue.availableIndex ∧ ∃ status, Returned m request status
  | .readStatus done => ∃ status, Returned m request status
      ∧ done = ⟨head, (chainOf m.frame request .fetched).written status⟩
  | .copyOut => Returned m request statusOk ∧ request.writing = false
  | phase => Quiet m ∧ Preparing m request phase

/-- A call that ended gave the right answer, if it gave one. -/
def Ended.Right (e : Ended) : Prop :=
  match e.request, e.outcome with
  | .read sector, .read bytes => bytes = e.disk sector.toNat
  | .write sector bytes, .written => e.disk sector.toNat = bytes
  | _, .failed _ => True
  | _, _ => False

/-- What every step keeps. -/
structure Sound (m : Machine) : Prop where
  idle : m.driver = .idle → Quiet m ∨ m.GaveUp ∧ ∃ request ∈ m.calls, Flight m request
  busy : ∀ request phase, m.driver = .busy request phase →
    request ∈ m.calls ∧ Busy m request phase
  ended : ∀ e ∈ m.ended, e.Right
  /-- Whatever was written to the disk somebody asked for. -/
  writes : ∀ write ∈ m.diskWrites, ∃ sector bytes, .write sector bytes ∈ m.calls
    ∧ write = (sector.toNat, bytes)

lemma sound_start (frame : ℕ) (mem : ByteMemory) (disk : ℕ → Sector) :
    Sound (Machine.start frame mem disk) :=
  ⟨fun _ => .inl ⟨rfl, rfl, rfl⟩, fun _ _ h => (nomatch h), nofun, nofun⟩

/-- A machine whose driver went on to a phase. -/
lemma Sound.goOn (h : Sound m) {phase phase' : Phase} (hdriver : m.driver = .busy request phase)
    (hcalls : m'.calls = m.calls) (hended : m'.ended = m.ended)
    (hwrites : m'.diskWrites = m.diskWrites) (hnext : m'.driver = .busy request phase')
    (hbusy : Busy m' request phase') : Sound m' := by
  obtain ⟨hrequest, -⟩ := h.busy request phase hdriver
  refine ⟨fun hidle => ?_, fun other phase'' hother => ?_, ?_, ?_⟩
  · rw [hnext] at hidle
    cases hidle
  · rw [hnext] at hother
    cases hother
    exact ⟨hcalls ▸ hrequest, hbusy⟩
  · rw [hended]
    exact h.ended
  · rw [hwrites, hcalls]
    exact h.writes

/-- A machine whose driver ended a request. -/
lemma Sound.finish (h : Sound m) {outcome : Outcome} (hquiet : Quiet m)
    (hright : Ended.Right ⟨request, outcome, m.disk⟩) : Sound (m.finish request outcome) := by
  refine ⟨fun _ => .inl ⟨hquiet.1, hquiet.2, hquiet.3⟩, fun _ _ hbusy => (nomatch hbusy),
    ?_, h.writes⟩
  intro e he
  rcases List.mem_cons.mp he with rfl | he
  · exact hright
  · exact h.ended e he

/-- The phases up to publishing: nothing is in flight, and one more thing is in its place. -/
lemma sound_prepare (h : Sound m) {phase : Phase} (hdriver : m.driver = .busy request phase)
    (hrewrites : phase.Rewrites) : Sound (m.driverStep request phase) := by
  have hdata : dataAt = 0x200 := rfl
  have hstatus : statusAt = 0xE00 := rfl
  obtain ⟨-, hbusy⟩ := h.busy request phase hdriver
  cases phase with
  -- the frame is filled, the header first
  | writeHeader =>
      refine h.goOn hdriver rfl rfl rfl rfl ⟨⟨hbusy.1.1, hbusy.1.2, hbusy.1.3⟩, ?_⟩
      exact hasHeader_putBytes _ _ _
  | writeStatus =>
      obtain ⟨hquiet, hheader⟩ := hbusy
      refine h.goOn hdriver rfl rfl rfl rfl ⟨⟨hquiet.1, hquiet.2, hquiet.3⟩, ?_⟩
      refine HasHeader.congr hheader fun a ha => putBytes_of_outside (.inl ?_)
      have hbelow : a < m.frame + dataAt := ha
      omega
  | fillData =>
      obtain ⟨hquiet, hheader⟩ := hbusy
      cases request with
      | read sector =>
          exact h.goOn hdriver rfl rfl rfl rfl
            ⟨⟨hquiet.1, hquiet.2, hquiet.3⟩, hheader, fun _ _ hwrite => (nomatch hwrite)⟩
      | write sector bytes =>
          refine h.goOn hdriver rfl rfl rfl rfl ⟨⟨hquiet.1, hquiet.2, hquiet.3⟩, ?_, ?_⟩
          · exact HasHeader.congr hheader fun a ha => putSector_of_outside (.inl ha)
          · rintro _ _ ⟨⟩
            exact getSector_putSector _ _ _
  -- the chain is set up, descriptor by descriptor
  | setHead =>
      obtain ⟨hquiet, hheader, hbytes⟩ := hbusy
      exact h.goOn hdriver rfl rfl rfl rfl ⟨⟨hquiet.1, hquiet.2, hquiet.3⟩, hheader, hbytes, rfl⟩
  | setData =>
      obtain ⟨hquiet, hheader, hbytes, hhead⟩ := hbusy
      exact h.goOn hdriver rfl rfl rfl rfl ⟨⟨hquiet.1, hquiet.2, hquiet.3⟩, hheader,
        hbytes, hhead, rfl⟩
  | setStatus =>
      obtain ⟨hquiet, hheader, hbytes, hhead, hdesc⟩ := hbusy
      exact h.goOn hdriver rfl rfl rfl rfl
        ⟨⟨hquiet.1, hquiet.2, hquiet.3⟩, hheader, hbytes, hhead, hdesc, rfl⟩
  | writeSlot =>
      obtain ⟨hquiet, hheader, hbytes, harmed⟩ := hbusy
      refine h.goOn hdriver rfl rfl rfl rfl ⟨⟨hquiet.1, hquiet.2, hquiet.3⟩, hheader, hbytes,
        ⟨harmed.1, harmed.2, harmed.3⟩, rfl, ?_⟩
      exact Function.update_self _ _ _
  -- now the device may see it
  | writeIndex index =>
      obtain ⟨hquiet, hheader, hbytes, harmed, rfl, hslot⟩ := hbusy
      refine h.goOn hdriver rfl rfl rfl rfl ⟨rfl, .published hquiet.active ?_ ?_ ?_
        ⟨harmed.1, harmed.2, harmed.3⟩ hheader hbytes⟩
      · exact congrArg (· + 1) hquiet.taken
      · exact congrArg (· + 1) hquiet.used
      · change m.queue.available (slotOf m.taken) = head
        rw [hquiet.taken, hslot]
  | ring published => exact absurd hrewrites id
  | poll published looks => exact absurd hrewrites id
  | readCompletion published => exact absurd hrewrites id
  | readStatus done => exact absurd hrewrites id
  | copyOut => exact absurd hrewrites id

/-- **A step of the driver** keeps the invariant. -/
theorem sound_driverStep (h : Sound m) {phase : Phase}
    (hdriver : m.driver = .busy request phase) :
    Sound (m.driverStep request phase) := by
  by_cases hrewrites : phase.Rewrites
  · exact sound_prepare h hdriver hrewrites
  · obtain ⟨hrequest, hbusy⟩ := h.busy request phase hdriver
    cases phase with
    | ring published =>
        exact h.goOn hdriver rfl rfl rfl rfl ⟨hbusy.1, hbusy.2.besides _ _ _⟩
    | poll published looks =>
        obtain ⟨rfl, hflight⟩ := hbusy
        rw [Machine.driverStep]
        -- the device has answered, or the driver looks once more, or it gives up
        by_cases hused : m.queue.usedIndex = m.queue.availableIndex
        · rw [if_neg (not_not.mpr hused)]
          obtain ⟨status, hreturned⟩ := hflight.returned_of_used hused
          refine h.goOn hdriver rfl rfl rfl rfl ⟨rfl, status, ⟨?_, ?_, ?_, ?_⟩⟩
          · exact ⟨hreturned.quiet.1, hreturned.quiet.2, hreturned.quiet.3⟩
          · exact hreturned.completion
          · exact hreturned.found
          · exact hreturned.moved
        · rw [if_pos hused]
          split_ifs with hlimit
          · refine ⟨fun _ => .inr ⟨⟨_, _, rfl, rfl⟩, request, hrequest, hflight.besides _ _ _⟩,
              fun _ _ hother => (nomatch hother), ?_, h.writes⟩
            intro e he
            rcases List.mem_cons.mp he with rfl | he
            · simp [Ended.Right]
            · exact h.ended e he
          · exact h.goOn hdriver rfl rfl rfl rfl ⟨rfl, hflight.besides _ _ _⟩
    | readCompletion published =>
        obtain ⟨rfl, status, hreturned⟩ := hbusy
        rw [Machine.driverStep, hreturned.completion]
        dsimp only
        rw [if_neg (by simp)]
        exact h.goOn hdriver rfl rfl rfl rfl ⟨status, ⟨⟨hreturned.quiet.1, hreturned.quiet.2,
          hreturned.quiet.3⟩, hreturned.completion, hreturned.found, hreturned.moved⟩, rfl⟩
    | readStatus done =>
        obtain ⟨status, hreturned, rfl⟩ := hbusy
        rw [Machine.driverStep, hreturned.found]
        dsimp only
        by_cases hok : status = statusOk
        · subst hok
          have hmoved := hreturned.moved rfl
          cases request with
          | read sector =>
              simp only [Request.writing, chainOf, Fetched.written, Request.kind]
              exact h.goOn hdriver rfl rfl rfl rfl ⟨⟨⟨hreturned.quiet.1, hreturned.quiet.2,
                hreturned.quiet.3⟩, hreturned.completion, hreturned.found, hreturned.moved⟩, rfl⟩
          | write sector bytes =>
              simp only [Request.writing, chainOf, Fetched.written, Request.kind]
              exact h.finish hreturned.quiet hmoved
        · rw [if_pos hok]
          exact h.finish hreturned.quiet (by simp [Ended.Right])
    | copyOut =>
        obtain ⟨hreturned, hreading⟩ := hbusy
        cases request with
        | read sector => exact h.finish hreturned.quiet (hreturned.moved rfl)
        | write sector bytes => cases hreading
    | writeHeader => exact absurd trivial hrewrites
    | writeStatus => exact absurd trivial hrewrites
    | fillData => exact absurd trivial hrewrites
    | setHead => exact absurd trivial hrewrites
    | setData => exact absurd trivial hrewrites
    | setStatus => exact absurd trivial hrewrites
    | writeSlot => exact absurd trivial hrewrites
    | writeIndex index => exact absurd trivial hrewrites

/-! ### Runs -/

/-- A request is called when the last one was given up only once its chain is back. -/
def Action.Safe (m : Machine) : Action → Prop
  | .call _ => m.GaveUp → ¬m.Outstanding
  | _ => True

/-- Every call of the run meets the condition where it is made. -/
def Machine.SafeRun (m : Machine) : List Action → Prop
  | [] => True
  | action :: rest => action.Safe m ∧ ∀ m', m.step action = some m' → m'.SafeRun rest

lemma sound_device (h : Sound m) {action : Action} (haction : action.OfDevice)
    (hstep : m.step action = some m') : Sound m' := by
  -- a request is with the device: whatever the device does, it stays that request
  have hflies : ∀ r, Flight m r → r ∈ m.calls →
      (m.driver = .idle → m.GaveUp) →
      (∀ request phase, m.driver = .busy request phase → request = r
        ∧ ((∃ published, phase = .ring published ∧ published = m.queue.availableIndex)
          ∨ ∃ published looks, phase = .poll published looks
            ∧ published = m.queue.availableIndex)) →
      Sound m' := by
    intro r hflight hcall hidle hbusy
    obtain ⟨hflight', hdevice⟩ := hflight.step haction hstep
    refine ⟨fun hdriver => .inr ⟨?_, r, hdevice.calls ▸ hcall, hflight'⟩,
      fun request phase hdriver => ?_, ?_, ?_⟩
    · rw [Machine.GaveUp, hdevice.ended]
      exact hidle (hdevice.driver ▸ hdriver)
    · obtain ⟨rfl, hphase⟩ := hbusy request phase (hdevice.driver ▸ hdriver)
      refine ⟨hdevice.calls ▸ hcall, ?_⟩
      rcases hphase with ⟨published, rfl, rfl⟩ | ⟨published, looks, rfl, rfl⟩
      · exact ⟨hdevice.available.symm, hflight'⟩
      · exact ⟨hdevice.available.symm, hflight'⟩
    · rw [hdevice.ended]
      exact h.ended
    · rw [hdevice.calls]
      rcases hdevice.writes with hsame | ⟨sector, bytes, rfl, hmore⟩
      · rw [hsame]
        exact h.writes
      · rw [hmore]
        intro write hwrite
        rcases List.mem_cons.mp hwrite with rfl | hwrite
        · exact ⟨sector, bytes, hcall, rfl⟩
        · exact h.writes write hwrite
  -- nothing is with the device: it has no step
  have hnone : Quiet m → Sound m' := by
    intro hquiet
    rw [hquiet.step_none haction] at hstep
    cases hstep
  rcases hdriver : m.driver with _ | ⟨request, phase⟩
  · rcases h.idle hdriver with hquiet | ⟨hgave, r, hcall, hflight⟩
    · exact hnone hquiet
    · exact hflies r hflight hcall (fun _ => hgave) fun _ _ hbusy => by
        rw [hdriver] at hbusy
        cases hbusy
  · obtain ⟨hcall, hbusy⟩ := h.busy request phase hdriver
    have hidle : m.driver = .idle → m.GaveUp := by
      intro hidle
      rw [hdriver] at hidle
      cases hidle
    cases phase with
    | ring published =>
        refine hflies request hbusy.2 hcall hidle fun _ _ hother => ?_
        rw [hdriver] at hother
        cases hother
        exact ⟨rfl, .inl ⟨published, rfl, hbusy.1⟩⟩
    | poll published looks =>
        refine hflies request hbusy.2 hcall hidle fun _ _ hother => ?_
        rw [hdriver] at hother
        cases hother
        exact ⟨rfl, .inr ⟨published, looks, rfl, hbusy.1⟩⟩
    | readCompletion published =>
        obtain ⟨-, status, hreturned⟩ := hbusy
        exact hnone hreturned.quiet
    | readStatus done =>
        obtain ⟨status, hreturned, -⟩ := hbusy
        exact hnone hreturned.quiet
    | copyOut => exact hnone hbusy.1.quiet
    | writeHeader => exact hnone hbusy.1
    | writeStatus => exact hnone hbusy.1
    | fillData => exact hnone hbusy.1
    | setHead => exact hnone hbusy.1
    | setData => exact hnone hbusy.1
    | setStatus => exact hnone hbusy.1
    | writeSlot => exact hnone hbusy.1
    | writeIndex index => exact hnone hbusy.1

lemma sound_call (h : Sound m) (hsafe : Action.Safe m (.call request))
    (hstep : m.step (.call request) = some m') : Sound m' := by
  rw [Machine.step] at hstep
  rcases hdriver : m.driver with _ | ⟨other, phase⟩
  · rw [hdriver] at hstep
    obtain rfl := Option.some.inj hstep
    have hquiet : Quiet m := by
      rcases h.idle hdriver with hquiet | ⟨hgave, r, -, hflight⟩
      · exact hquiet
      · exact hflight.quiet (hsafe hgave)
    refine ⟨fun hidle => (nomatch hidle), ?_, h.ended, fun write hwrite => ?_⟩
    · rintro _ _ ⟨⟩
      exact ⟨List.mem_cons_self, ⟨hquiet.1, hquiet.2, hquiet.3⟩, trivial⟩
    · obtain ⟨sector, bytes, hcall, rfl⟩ := h.writes write hwrite
      exact ⟨sector, bytes, List.mem_cons_of_mem _ hcall, rfl⟩
  · rw [hdriver] at hstep
    cases hstep

/-- **Every step keeps the invariant.** -/
theorem Sound.step (h : Sound m) {action : Action} (hsafe : action.Safe m)
    (hstep : m.step action = some m') : Sound m' := by
  cases action with
  | call request => exact sound_call h hsafe hstep
  | driver =>
      rw [Machine.step] at hstep
      rcases hdriver : m.driver with _ | ⟨request, phase⟩
      · rw [hdriver] at hstep
        cases hstep
      · rw [hdriver] at hstep
        obtain rfl := Option.some.inj hstep
        exact sound_driverStep h hdriver
  | fetch => exact @sound_device m m' h .fetch trivial hstep
  | transfer which => exact @sound_device m m' h (.transfer which) trivial hstep
  | refuse which => exact @sound_device m m' h (.refuse which) trivial hstep
  | answer which => exact @sound_device m m' h (.answer which) trivial hstep
  | complete which => exact @sound_device m m' h (.complete which) trivial hstep

lemma Sound.after (h : Sound m) {actions : List Action} (hsafe : m.SafeRun actions)
    (hrun : m.after actions = some m') : Sound m' := by
  induction actions generalizing m with
  | nil =>
      obtain rfl := Option.some.inj hrun
      exact h
  | cons action rest ih =>
      rw [Machine.after, List.foldlM_cons, Option.bind_eq_bind, Option.bind_eq_some_iff] at hrun
      obtain ⟨next, hstep, hrest⟩ := hrun
      exact ih (h.step hsafe.1 hstep) (hsafe.2 next hstep) hrest

/-- **An answer belongs to its request**, in every run in which a request is made after one that
was given up only when the device has returned its chain: a read that works gives what the disk
has for its sector, a write that works has put its bytes there, nothing is ever written that was
not asked for, and nothing is with the device while a request is being written. -/
theorem virtioBlk_answers {frame : ℕ} {mem : ByteMemory} {disk : ℕ → Sector}
    {actions : List Action} (hrun : (Machine.start frame mem disk).after actions = some m)
    (hsafe : (Machine.start frame mem disk).SafeRun actions) :
    (∀ e ∈ m.ended, e.Right)
      ∧ (∀ write ∈ m.diskWrites, ∃ sector bytes, .write sector bytes ∈ m.calls
        ∧ write = (sector.toNat, bytes))
      ∧ ∀ request phase, m.driver = .busy request phase → phase.Rewrites → ¬m.Outstanding := by
  have h := (sound_start frame mem disk).after hsafe hrun
  refine ⟨h.ended, h.writes, fun request phase hdriver hrewrites => ?_⟩
  have hquiet : Quiet m := by
    have hbusy := (h.busy request phase hdriver).2
    cases phase with
    | ring published => exact absurd hrewrites id
    | poll published looks => exact absurd hrewrites id
    | readCompletion published => exact absurd hrewrites id
    | readStatus done => exact absurd hrewrites id
    | copyOut => exact absurd hrewrites id
    | writeHeader => exact hbusy.1
    | writeStatus => exact hbusy.1
    | fillData => exact hbusy.1
    | setHead => exact hbusy.1
    | setData => exact hbusy.1
    | setStatus => exact hbusy.1
    | writeSlot => exact hbusy.1
    | writeIndex index => exact hbusy.1
  rintro (hactive | htaken)
  · exact hactive hquiet.active
  · exact htaken hquiet.taken

lemma safeRun_of_noCall (actions : List Action) :
    (∀ request, .call request ∉ actions) → ∀ m : Machine, m.SafeRun actions := by
  induction actions with
  | nil => exact fun _ _ => trivial
  | cons action rest ih =>
      intro hnone m
      refine ⟨?_, fun m' _ => ih (fun request h => hnone request (List.mem_cons_of_mem _ h)) m'⟩
      cases action with
      | call request => exact absurd List.mem_cons_self (hnone request)
      | _ => trivial

/-- A disk whose sectors are told apart by their bytes. -/
def numbered : ℕ → Sector := fun sector _ => UInt8.ofNat sector

/-- A request, up to where the driver waits for the device. -/
def publish (request : Request) : List Action := .call request :: List.replicate 9 .driver

/-- What the device does with the chain it has. -/
def serve : List Action := [.transfer 0, .answer 0, .complete 0]

theorem virtioBlk_answers_promptRead : ∃ m : Machine,
    ((Machine.start 0 (fun _ => 0) numbered).after
        (publish (.read 5) ++ .fetch :: serve ++ List.replicate 4 .driver) = some m
      ∧ m.ended.length = 1)
      ∧ (∀ e ∈ m.ended, e.Right)
      ∧ (∀ write ∈ m.diskWrites, ∃ sector bytes, .write sector bytes ∈ m.calls
        ∧ write = (sector.toNat, bytes))
      ∧ ∀ request phase, m.driver = .busy request phase → phase.Rewrites → ¬m.Outstanding := by
  have hrun : (((Machine.start 0 (fun _ => 0) numbered).after
      (publish (.read 5) ++ .fetch :: serve ++ List.replicate 4 .driver)).map
        fun m => m.ended.length) = some 1 := by
    decide +kernel
  obtain ⟨m, hm, hlength⟩ := Option.map_eq_some_iff.mp hrun
  refine ⟨m, ⟨hm, hlength⟩, virtioBlk_answers hm ⟨?_, fun m' _ => safeRun_of_noCall _ ?_ m'⟩⟩
  · rintro ⟨last, rest, hended, -⟩
    cases hended
  · intro request
    simp [serve]

/-! ### A late answer -/

lemma after_append (first second : List Action) :
    m.after (first ++ second) = (m.after first).bind fun m' => m'.after second := by
  simp only [Machine.after, List.foldlM_append, Option.bind_eq_bind]

/-- Looking again, up to the limit. -/
lemma after_looks {published : UInt16} (hused : m.queue.usedIndex ≠ published) (n : ℕ) :
    ∀ looks, m.driver = .busy request (.poll published looks) → looks + n ≤ pollLimit →
      m.after (List.replicate n .driver)
        = some (m.goOn request (.poll published (looks + n))) := by
  induction n generalizing m with
  | zero =>
      intro looks hdriver _
      rw [Machine.goOn, Nat.add_zero, ← hdriver]
      rfl
  | succ n ih =>
      intro looks hdriver hlimit
      have hstep : m.step .driver = some (m.goOn request (.poll published (looks + 1))) := by
        rw [Machine.step, hdriver]
        dsimp only
        rw [Machine.driverStep, if_pos hused, if_neg (by omega)]
      rw [List.replicate_succ, Machine.after, List.foldlM_cons, hstep]
      have hrest := @ih (m.goOn request (.poll published (looks + 1))) hused
        (looks + 1) rfl (by omega)
      rw [show looks + (n + 1) = looks + 1 + n by omega]
      exact hrest

/-- One look more than the limit, and the request is given up. -/
lemma after_givesUp {published : UInt16} (hused : m.queue.usedIndex ≠ published)
    (hdriver : m.driver = .busy request (.poll published 0)) :
    m.after (List.replicate (pollLimit + 1) .driver)
      = some (m.finish request (.failed .noAnswer)) := by
  rw [List.replicate_succ', after_append,
    after_looks hused pollLimit 0 hdriver (Nat.zero_add _).le, Option.bind_some, Machine.after,
    List.foldlM_cons, Machine.step]
  dsimp only [Machine.goOn]
  rw [Machine.driverStep, if_pos hused, if_pos (by omega)]
  rfl

/-- A sector of nines. -/
def nines : Sector := fun _ => 9

/-- The device has fetched a read of sector 5 and does not go on. -/
def slowRead : List Action := publish (.read 5) ++ [.fetch]

/-- The read has been given up and sector 7 is to be written: now the device goes on. -/
def lateAnswer : List Action :=
  publish (.write 7 nines) ++ serve ++ .fetch :: serve ++ List.replicate 3 .driver

/-- Whether a call says that it wrote something else than the sector begins with. -/
def Ended.misses (e : Ended) : Bool :=
  match e.request, e.outcome with
  | .write sector bytes, .written => e.disk sector.toNat 0 != bytes 0
  | _, _ => false

/-- The first byte a request would write. -/
def Request.first : Request → Option UInt8
  | .read _ => none
  | .write _ bytes => some (bytes 0)

lemma not_right_of_misses {e : Ended} (h : e.misses = true) : ¬e.Right := by
  obtain ⟨request, outcome, disk⟩ := e
  cases request with
  | read sector => cases h
  | write sector bytes =>
      cases outcome with
      | written =>
          intro hright
          refine absurd (congrFun hright 0) ?_
          simpa [Ended.misses] using h
      | read found => cases h
      | failed err => cases h

/-- **A late answer goes to the next request**: the bytes of the sector that was read are in the
frame when the device takes those to be written from it. -/
theorem virtioBlk_mixesUp : ∃ m : Machine,
    (Machine.start 0 (fun _ => 0) numbered).after
        (slowRead ++ List.replicate (pollLimit + 1) .driver ++ lateAnswer) = some m
      ∧ (∃ e ∈ m.ended, ¬e.Right)
      ∧ ∃ write ∈ m.diskWrites, ¬∃ sector bytes, .write sector bytes ∈ m.calls
        ∧ write = (sector.toNat, bytes) := by
  have hslow : (((Machine.start 0 (fun _ => 0) numbered).after slowRead).bind fun m =>
      if m.queue.usedIndex = 0 then
        match m.driver with
        | .busy (.read 5) (.poll 1 0) =>
            ((m.finish (.read 5) (.failed .noAnswer)).after lateAnswer).map
            fun m => (m.ended.any Ended.misses, m.diskWrites.any fun write => write.2 0 = 5,
              m.calls.map Request.first)
        | _ => none
      else none) = some (true, true, [some 9, none]) := by
    decide +kernel
  obtain ⟨waiting, hwaiting, hrest⟩ := Option.bind_eq_some_iff.mp hslow
  split at hrest
  · rename_i hused
    split at hrest
    · rename_i hdriver
      obtain ⟨m, hm, hprobe⟩ := Option.map_eq_some_iff.mp hrest
      simp only [Prod.mk.injEq, List.any_eq_true, decide_eq_true_eq] at hprobe
      obtain ⟨⟨e, he, hmisses⟩, ⟨write, hwrite, hfive⟩, hcalls⟩ := hprobe
      refine ⟨m, ?_, ⟨e, he, not_right_of_misses hmisses⟩, write, hwrite, ?_⟩
      · rw [after_append, after_append, hwaiting, Option.bind_some,
          after_givesUp (by rw [hused]; decide) hdriver, Option.bind_some]
        exact hm
      · rintro ⟨sector, bytes, hcall, rfl⟩
        have hfirst : some (bytes 0) ∈ m.calls.map Request.first :=
          List.mem_map.mpr ⟨_, hcall, rfl⟩
        rw [hcalls, show bytes 0 = 5 from hfive] at hfirst
        revert hfirst
        decide
    · cases hrest
  · cases hrest

end Harlan.VirtioBlk
