import Mathlib.Tactic
import Harlan.Hal
import Harlan.Lib.Words

/-!
The virtio block driver (`kernel/src/devices/virtio_blk.rs`, `hal/src/virtio.rs`) beside its
device: one request frame and one chain of descriptors, which every request uses again.

The driver's `request` is cut at every access to memory that the device may see, and the device
answers a chain in four steps: it fetches the chain, moves the data, writes the status and
publishes the used entry. Steps of the two may come in any order, so a device may be slow at any
point and a driver may give up on it.

* `Machine.step`: one step of either side, or the call of a request.
* `Machine.after`: a run.
-/

namespace Harlan.VirtioBlk

/-- The 512 bytes of a sector. -/
abbrev Sector := Fin 512 → UInt8

/-- The sector that stands at `addr`. -/
def getSector (mem : ByteMemory) (addr : ℕ) : Sector := fun i => mem (addr + i)

/-- Writes a sector to `addr`. -/
def putSector (mem : ByteMemory) (addr : ℕ) (bytes : Sector) : ByteMemory := fun a =>
  if h : addr ≤ a ∧ a < addr + 512 then bytes ⟨a - addr, by omega⟩ else mem a

/-! ### The queue (`hal/src/virtio.rs`) -/

/-- A request that reads. -/
def typeIn : ℕ := 0
/-- A request that writes. -/
def typeOut : ℕ := 1
/-- The device did as it was told. -/
def statusOk : UInt8 := 0
/-- The device failed. -/
def statusIoError : UInt8 := 1
/-- The device does not know such a request. -/
def statusUnsupported : UInt8 := 2
/-- The chain goes on. -/
def descNext : ℕ := 1
/-- The device writes to the buffer. -/
def descWrite : ℕ := 2

/-- A buffer that is handed to the device. -/
structure Descriptor where
  /-- Physical, because the device does not walk page tables. -/
  address : ℕ
  length : ℕ
  flags : ℕ
  next : ℕ
deriving DecidableEq

/-- What the device returned: which chain, and how much it wrote. -/
structure Completion where
  head : ℕ
  written : ℕ
deriving DecidableEq

/-- The rings, as driver and device share them. -/
structure Queue where
  descriptors : ℕ → Descriptor
  available : ℕ → ℕ
  availableIndex : UInt16
  used : ℕ → Completion
  usedIndex : UInt16

/-- The descriptors of a queue. -/
def queueSize : ℕ := 4

/-- The slot of a ring that an index stands for. -/
def slotOf (index : UInt16) : ℕ := index.toNat % queueSize

/-- Writes a descriptor, if the table has one of this number. -/
def Queue.setDescriptor (queue : Queue) (index : ℕ) (descriptor : Descriptor) : Queue :=
  if queueSize ≤ index then queue
  else { queue with descriptors := Function.update queue.descriptors index descriptor }

/-- What the device put into the used ring. -/
def Queue.completion (queue : Queue) (index : UInt16) : Completion := queue.used (slotOf index)

/-! ### The driver -/

/-- How often the driver looks before it gives the request up. -/
def pollLimit : ℕ := 20000000

/-- The descriptor of the header. -/
def head : ℕ := 0
/-- The descriptor of the sector. -/
def data : ℕ := 1
/-- The descriptor of the status. -/
def status : ℕ := 2

/-- Where the header stands in the frame of a request. -/
def headerAt : ℕ := 0
/-- Where the sector stands. -/
def dataAt : ℕ := 0x200
/-- Where the status stands. -/
def statusAt : ℕ := 0xE00

/-- Why a request came to nothing. -/
inductive ReadError where
  | noAnswer
  | wrongChain (head : ℕ)
  | failed (status : UInt8)
  | shortRead (written : ℕ)
deriving DecidableEq

/-- What the driver is asked for. -/
inductive Request where
  | read (sector : UInt64)
  | write (sector : UInt64) (bytes : Sector)

/-- The sector that the request is about. -/
def Request.sector : Request → UInt64
  | .read sector => sector
  | .write sector _ => sector

/-- The type that the header names. -/
def Request.kind : Request → ℕ
  | .read _ => typeIn
  | .write _ _ => typeOut

/-- Whether the request writes to the disk. -/
def Request.writing : Request → Bool
  | .read _ => false
  | .write _ _ => true

/-- The header for one request. -/
def header (kind : ℕ) (sector : UInt64) : List UInt8 :=
  leBytes 4 kind ++ leBytes 4 0 ++ leBytes 8 sector.toNat

/-- The three descriptors of a request, for a frame at `frame`. -/
def headDescriptor (frame : ℕ) : Descriptor := ⟨frame + headerAt, 16, descNext, data⟩

/-- The sector: for the device to read, or to write. -/
def dataDescriptor (frame : ℕ) (writing : Bool) : Descriptor :=
  ⟨frame + dataAt, 512, if writing then descNext else descNext ||| descWrite, status⟩

/-- The status: the device writes it. -/
def statusDescriptor (frame : ℕ) : Descriptor := ⟨frame + statusAt, 1, descWrite, 0⟩

/-- Where a request has got to: what it does next. -/
inductive Phase where
  | writeHeader
  | writeStatus
  | fillData
  | setHead
  | setData
  | setStatus
  | writeSlot
  | writeIndex (index : UInt16)
  | ring (published : UInt16)
  | poll (published : UInt16) (looks : ℕ)
  | readCompletion (published : UInt16)
  | readStatus (done : Completion)
  | copyOut
deriving DecidableEq

/-- Where the driver is. -/
inductive Driver where
  | idle
  | busy (request : Request) (phase : Phase)

/-! ### The device -/

/-- How far the device is with a chain. -/
inductive Stage where
  | fetched
  | moved (status : UInt8)
  | answered (status : UInt8)
deriving DecidableEq

/-- A chain the device has fetched. -/
structure Fetched where
  head : ℕ
  kind : ℕ
  sector : ℕ
  data : Descriptor
  status : Descriptor
  stage : Stage

/-- How much the device says it wrote. -/
def Fetched.written (chain : Fetched) (status : UInt8) : ℕ :=
  if chain.kind = typeIn ∧ status = statusOk then 513 else 1

/-! ### Both together -/

/-- How a call ended: a read that worked gives the bytes. -/
inductive Outcome where
  | read (bytes : Sector)
  | written
  | failed (err : ReadError)

/-- A call that ended, with the disk as it was then. -/
structure Ended where
  request : Request
  outcome : Outcome
  disk : ℕ → Sector

/-- Driver, device, and the memory between them. -/
structure Machine where
  /-- Where the request frame is. -/
  frame : ℕ
  mem : ByteMemory
  queue : Queue
  driver : Driver
  /-- How many entries of the available ring the device has fetched. -/
  taken : UInt16
  active : List Fetched
  disk : ℕ → Sector
  /-- Every call so far. -/
  calls : List Request
  /-- Those that ended, the last one first. -/
  ended : List Ended
  /-- What the device wrote to the disk. -/
  diskWrites : List (ℕ × Sector)

/-- A reader that was just started. -/
def Machine.start (frame : ℕ) (mem : ByteMemory) (disk : ℕ → Sector) : Machine :=
  ⟨frame, mem, ⟨fun _ => ⟨0, 0, 0, 0⟩, fun _ => 0, 0, fun _ => ⟨0, 0⟩, 0⟩, .idle, 0, [],
    disk, [], [], []⟩

/-- The driver goes on with its request. -/
def Machine.goOn (m : Machine) (request : Request) (phase : Phase) : Machine :=
  { m with driver := .busy request phase }

/-- The driver is done with its request. -/
def Machine.finish (m : Machine) (request : Request) (outcome : Outcome) : Machine :=
  { m with driver := .idle, ended := ⟨request, outcome, m.disk⟩ :: m.ended }

/-- One step of `request`, up to its next access to shared memory. -/
def Machine.driverStep (m : Machine) (request : Request) : Phase → Machine
  | .writeHeader =>
      { m with mem := putBytes m.mem (m.frame + headerAt) (header request.kind request.sector) }.goOn
        request .writeStatus
  | .writeStatus =>
      { m with mem := putBytes m.mem (m.frame + statusAt) [0xFF] }.goOn request .fillData
  | .fillData =>
      match request with
      | .read _ => m.goOn request .setHead
      | .write _ bytes =>
          { m with mem := putSector m.mem (m.frame + dataAt) bytes }.goOn request .setHead
  | .setHead =>
      { m with queue := m.queue.setDescriptor head (headDescriptor m.frame) }.goOn
        request .setData
  | .setData =>
      { m with queue := m.queue.setDescriptor data (dataDescriptor m.frame request.writing) }.goOn
        request .setStatus
  | .setStatus =>
      { m with queue := m.queue.setDescriptor status (statusDescriptor m.frame) }.goOn
        request .writeSlot
  | .writeSlot =>
      let index := m.queue.availableIndex
      { m with queue := { m.queue with
          available := Function.update m.queue.available (slotOf index) head } }.goOn
        request (.writeIndex index)
  | .writeIndex index =>
      { m with queue := { m.queue with availableIndex := index + 1 } }.goOn request
        (.ring (index + 1))
  | .ring published => m.goOn request (.poll published 0)
  | .poll published looks =>
      if m.queue.usedIndex ≠ published then
        if pollLimit < looks + 1 then m.finish request (.failed .noAnswer)
        else m.goOn request (.poll published (looks + 1))
      else m.goOn request (.readCompletion published)
  | .readCompletion published =>
      let done := m.queue.completion (published - 1)
      if done.head ≠ head then m.finish request (.failed (.wrongChain done.head))
      else m.goOn request (.readStatus done)
  | .readStatus done =>
      let found := m.mem (m.frame + statusAt)
      let expected := if request.writing then 1 else 512 + 1
      if found ≠ statusOk then m.finish request (.failed (.failed found))
      else if done.written ≠ expected then m.finish request (.failed (.shortRead done.written))
      else if request.writing then m.finish request .written
      else m.goOn request .copyOut
  | .copyOut => m.finish request (.read (getSector m.mem (m.frame + dataAt)))

/-- The device fetches the next chain of the available ring. -/
def Machine.fetch (m : Machine) : Option Machine :=
  if m.taken = m.queue.availableIndex then none
  else
    let first := m.queue.available (slotOf m.taken)
    let headerAddr := (m.queue.descriptors first).address
    let second := m.queue.descriptors (m.queue.descriptors first).next
    some { m with
      taken := m.taken + 1
      active := m.active
        ++ [⟨first, getWord m.mem headerAddr 4, getWord m.mem (headerAddr + 8) 8, second,
        m.queue.descriptors second.next, .fetched⟩] }

/-- The device does what a chain asks for, as far as its descriptors let it. -/
def Machine.transfer (m : Machine) (which : ℕ) : Option Machine := do
  let chain ← m.active[which]?
  guard (chain.stage = .fetched)
  let moved := fun status => m.active.set which { chain with stage := .moved status }
  if chain.kind = typeIn ∧ chain.data.flags &&& descWrite ≠ 0 then
    some { m with
      mem := putSector m.mem chain.data.address (m.disk chain.sector), active := moved statusOk }
  else if chain.kind = typeOut ∧ chain.data.flags &&& descWrite = 0 then
    let bytes := getSector m.mem chain.data.address
    some { m with
      disk := Function.update m.disk chain.sector bytes
      diskWrites := (chain.sector, bytes) :: m.diskWrites
      active := moved statusOk }
  else some { m with active := moved statusUnsupported }

/-- The device cannot do what a chain asks for. -/
def Machine.refuse (m : Machine) (which : ℕ) : Option Machine := do
  let chain ← m.active[which]?
  guard (chain.stage = .fetched)
  some { m with active := m.active.set which { chain with stage := .moved statusIoError } }

/-- The device writes the status of a chain. -/
def Machine.answer (m : Machine) (which : ℕ) : Option Machine := do
  let chain ← m.active[which]?
  match chain.stage with
  | .moved status => some { m with
      mem := putBytes m.mem chain.status.address [status]
      active := m.active.set which { chain with stage := .answered status } }
  | _ => none

/-- The device gives a chain back. -/
def Machine.complete (m : Machine) (which : ℕ) : Option Machine := do
  let chain ← m.active[which]?
  match chain.stage with
  | .answered status => some { m with
      queue := { m.queue with
        used := Function.update m.queue.used (slotOf m.queue.usedIndex)
          ⟨chain.head, chain.written status⟩
        usedIndex := m.queue.usedIndex + 1 }
      active := m.active.eraseIdx which }
  | _ => none

/-- A step of the driver or of the device. -/
inductive Action where
  | call (request : Request)
  | driver
  | fetch
  | transfer (which : ℕ)
  | refuse (which : ℕ)
  | answer (which : ℕ)
  | complete (which : ℕ)

/-- One step, if it can be taken. -/
def Machine.step (m : Machine) : Action → Option Machine
  | .call request =>
      match m.driver with
      | .idle => some { m.goOn request .writeHeader with calls := request :: m.calls }
      | .busy _ _ => none
  | .driver =>
      match m.driver with
      | .idle => none
      | .busy request phase => some (m.driverStep request phase)
  | .fetch => m.fetch
  | .transfer which => m.transfer which
  | .refuse which => m.refuse which
  | .answer which => m.answer which
  | .complete which => m.complete which

/-- The machine after the actions, if it allows them all. -/
def Machine.after (m : Machine) (actions : List Action) : Option Machine :=
  actions.foldlM Machine.step m

/-- The device has a chain it was given and has not returned. -/
def Machine.Outstanding (m : Machine) : Prop := m.active ≠ [] ∨ m.taken ≠ m.queue.availableIndex

/-- The request that ended last was given up. -/
def Machine.GaveUp (m : Machine) : Prop :=
  ∃ last rest, m.ended = last :: rest ∧ last.outcome = .failed .noAnswer

end Harlan.VirtioBlk
