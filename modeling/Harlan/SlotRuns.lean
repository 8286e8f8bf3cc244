import Mathlib.Tactic
import Harlan.SchedulerRuns

/-!
What a step does to the slots: who is gone stays gone, and whose turn it is is never wrong.

* `OnlyIn`: a stack was left, and nothing has changed but the slot it belongs to.
* `Effect`, `step_effect`: everything a step can do to the slots and the disk.
* `Calm`, `Effect.calm_or`: a step leaves the mailboxes and who is gone as they are, or puts a
  message in a mailbox, or takes one out, or fills a slot that was empty.
* `owner_eq`: the process on a kernel stack is the one in the current slot.
* `scheduler_holds`: what holds in every state of every run.
-/

namespace Harlan.Turns

open Fs

/-- A call that moved a message came back. -/
def Note.Carries : Note → Prop
  | .answer _ call frame _ =>
      (Call.ofNumber call.rax = some .send ∨ Call.ofNumber call.rax = some .recv)
        ∧ ¬isError frame.rax
  | _ => False

/-- What is noted when no call on messages or files comes back, and no memory is touched. -/
def Note.Plain : Note → Prop
  | .answer _ call _ _ => Call.ofNumber call.rax = some .yield
  | .switch _ _ => True
  | _ => False

lemma Note.Plain.not_carries {note : Note} (h : note.Plain) : ¬note.Carries := by
  cases note with
  | answer who call frame memory =>
      rintro ⟨hsend | hrecv, -⟩
      · exact nomatch h.symm.trans hsend
      · exact nomatch h.symm.trans hrecv
  | switch | reads | writes => exact id

/-- Only one slot may have changed: its mailbox has not, and its files have not either unless its
process is gone. -/
structure SlotsOnlyIn (c : Fin maxProcesses)
    (slots slots' : Fin maxProcesses → Option Slot) : Prop where
  others : ∀ i, i ≠ c → slots' i = slots i
  mailbox : (slots' c).map Slot.mailbox = (slots c).map Slot.mailbox
  files : ∀ slot, slots c = some slot → ∃ slot', slots' c = some slot'
    ∧ (slot'.state = .dead ∨ slot'.process.openFiles = slot.process.openFiles)

section Slots

variable {s : Scheduler} {slots : Fin maxProcesses → Option Slot} {c : Fin maxProcesses}

lemma SlotsOnlyIn.refl : SlotsOnlyIn c slots slots :=
  ⟨fun _ _ => rfl, rfl, fun slot hslot => ⟨slot, hslot, .inr rfl⟩⟩

lemma change_mailbox {f : Slot → Slot} (hf : ∀ slot, (f slot).mailbox = slot.mailbox) :
    ((s.change c f).slots c).map Slot.mailbox = (s.slots c).map Slot.mailbox := by
  simp only [Scheduler.change, Function.update_self, Option.map_map]
  exact congrArg (fun g => (s.slots c).map g) (funext hf)

lemma SlotsOnlyIn.change {f : Slot → Slot} (hmailbox : ∀ slot, (f slot).mailbox = slot.mailbox)
    (hfiles : ∀ slot, (f slot).state = .dead
      ∨ (f slot).process.openFiles = slot.process.openFiles) :
    SlotsOnlyIn c s.slots (s.change c f).slots :=
  ⟨fun _ hi => Scheduler.change_of_ne hi, change_mailbox hmailbox,
    fun slot hslot => ⟨f slot, Scheduler.change_self hslot, hfiles slot⟩⟩

/-- Leaving a stack changes nothing else. -/
lemma SlotsOnlyIn.left (h : SlotsOnlyIn c slots s.slots) (here : Saved) :
    SlotsOnlyIn c slots (s.change c fun slot => { slot with kernelRsp := here }).slots := by
  refine ⟨fun i hi => (Scheduler.change_of_ne hi).trans (h.others i hi), ?_, fun slot hslot => ?_⟩
  · have hsame := @change_mailbox s c (fun slot => { slot with kernelRsp := here }) fun _ => rfl
    exact hsame.trans h.mailbox
  · obtain ⟨slot', hslot', hfiles⟩ := h.files slot hslot
    exact ⟨_, Scheduler.change_self hslot', hfiles⟩

end Slots

namespace Machine

variable {m m' m₀ : Machine} {c : Fin maxProcesses}

/-! ### Leaving a stack -/

/-- Only one slot may have changed, memory and disk are as they were, and no call on messages or
files came back. -/
structure OnlyIn (c : Fin maxProcesses) (m m' : Machine) : Prop where
  slots : SlotsOnlyIn c m.scheduler.slots m'.scheduler.slots
  memory : m'.memory = m.memory
  disk : m'.disk = m.disk
  trace : ∃ notes, m'.trace = m.trace ++ notes ∧ ∀ note ∈ notes, note.Plain

lemma OnlyIn.silent (hslots : SlotsOnlyIn c m.scheduler.slots m'.scheduler.slots)
    (hmemory : m'.memory = m.memory) (hdisk : m'.disk = m.disk) (htrace : m'.trace = m.trace) :
    OnlyIn c m m' :=
  ⟨hslots, hmemory, hdisk, [], by rw [htrace, List.append_nil], nofun⟩

lemma OnlyIn.refl : OnlyIn c m m := .silent .refl rfl rfl rfl

/-- Something else happened, that was noted or not. -/
lemma OnlyIn.noting {note : Note} (h : OnlyIn c m₀ m)
    (hslots : SlotsOnlyIn c m₀.scheduler.slots m'.scheduler.slots)
    (hmemory : m'.memory = m.memory) (hdisk : m'.disk = m.disk)
    (htrace : m'.trace = m.trace ++ [note]) (hnote : note.Plain) : OnlyIn c m₀ m' := by
  obtain ⟨notes, hnotes, hplain⟩ := h.trace
  refine ⟨hslots, hmemory.trans h.memory, hdisk.trans h.disk, notes ++ [note], ?_,
    fun other hother => ?_⟩
  · rw [htrace, hnotes, List.append_assoc]
  · rcases List.mem_append.mp hother with hmem | hmem
    · exact hplain other hmem
    · rwa [List.mem_singleton.mp hmem]

lemma OnlyIn.on (h : OnlyIn c m₀ m) (hslots : SlotsOnlyIn c m₀.scheduler.slots m'.scheduler.slots)
    (hmemory : m'.memory = m.memory) (hdisk : m'.disk = m.disk) (htrace : m'.trace = m.trace) :
    OnlyIn c m₀ m' := ⟨hslots, hmemory.trans h.memory, hdisk.trans h.disk, htrace ▸ h.trace⟩

variable {target : Fin maxProcesses} {here switched left : Saved} {back : Machine → Machine}
  {stack : ℕ} {call : SyscallFrame} {running : Running} {medium : Medium} {rax : UInt64}

lemma OnlyIn.switchTo (h : OnlyIn c m₀ m) : OnlyIn c m₀ (m.switchTo c target here) := by
  rw [Machine.switchTo]
  dsimp only
  split
  · exact h.on h.slots rfl rfl rfl
  next next hnext =>
    obtain ⟨top, hprepared⟩ := prepareCpuFor_eq
      { m with scheduler := { m.scheduler with switching := true, current := target } } target
    rw [hprepared]
    split
    · exact h.on h.slots rfl rfl rfl
    · exact h.noting (h.slots.left here) rfl rfl rfl trivial

lemma OnlyIn.leaveForTheKernel (h : OnlyIn c m₀ m) (hc : m.scheduler.current = c)
    (hback : OnlyIn c m₀ (back m)) : OnlyIn c m₀ (m.leaveForTheKernel here back) := by
  rw [Machine.leaveForTheKernel, hc]
  split
  · exact hback
  · exact h.on (h.slots.left here) rfl rfl rfl

lemma switchToNext_onlyIn (hback : OnlyIn m.scheduler.current m (back m)) :
    OnlyIn m.scheduler.current m (m.switchToNext switched left back) := by
  rw [switchToNext]
  split_ifs
  · exact hback
  · split
    · exact OnlyIn.refl.leaveForTheKernel rfl hback
    · split_ifs
      · exact hback
      · exact OnlyIn.refl.switchTo

lemma endCurrent_onlyIn : OnlyIn m.scheduler.current m (m.endCurrent stack) := by
  have hkill : OnlyIn m.scheduler.current m
      { m with scheduler := m.scheduler.kill m.scheduler.current } :=
    .silent (.change (fun _ => rfl) fun _ => .inl rfl) rfl rfl rfl
  have hleave : OnlyIn m.scheduler.current m
      ({ m with scheduler := m.scheduler.kill m.scheduler.current }.leaveForTheKernel
        (.ended stack) stop) :=
    hkill.leaveForTheKernel rfl (hkill.on hkill.slots rfl rfl rfl)
  rw [endCurrent]
  dsimp only
  split
  · split_ifs
    · exact hkill.switchTo
    · exact hleave
  · exact hleave

lemma onTick_onlyIn : OnlyIn m.scheduler.current m (m.onTick switched left id) := by
  rw [onTick]
  split_ifs
  · exact switchToNext_onlyIn .refl
  · exact .refl

lemma serveYield_onlyIn (hcall : Call.ofNumber call.rax = some .yield) :
    OnlyIn m.scheduler.current m (m.serveYield stack call) :=
  switchToNext_onlyIn (OnlyIn.refl.noting .refl rfl rfl rfl hcall)

lemma Waited.onlyIn (h : Waited stack call running m m') : OnlyIn m.scheduler.current m m' := by
  obtain ⟨-, next, -, -, -, -, -, rfl⟩ := h
  have hblocked : OnlyIn m.scheduler.current m { m with
      scheduler := m.scheduler.change m.scheduler.current fun slot =>
        { slot with state := .blocked } } :=
    .silent (.change (fun _ => rfl) fun _ => .inr rfl) rfl rfl rfl
  exact hblocked.switchTo

/-! ### What a step does -/

/-- What a step comes to. -/
inductive Effect (m : Machine) (event : Event) (m' : Machine) : Prop
  /-- Only the slot of the process that has the CPU has changed. -/
  | left (hlive : ∀ slot, m.scheduler.slots m.scheduler.current = some slot → slot.state ≠ .dead)
      (h : OnlyIn m.scheduler.current m m')
  /-- No slot has changed, nor the disk. -/
  | idle (hslots : m'.scheduler.slots = m.scheduler.slots) (hdisk : m'.disk = m.disk)
      (htrace : ∃ notes, m'.trace = m.trace ++ notes ∧ ∀ note ∈ notes, note.Plain)
  /-- The kernel's own flow wrote a file. -/
  | wrote (name contents : List UInt8) (medium : Medium)
      (hevent : event = .write name contents medium)
      (h : m' = { m with
        disk := (Fs.writeFile m.disk medium m.scheduler.anyoneHasOpen name contents).2 })
  /-- A call came back, at once or, where it is a `recv`, after it waited. -/
  | answered {stack : ℕ} {call : SyscallFrame} {rax : UInt64} (switching : Bool)
      (hserving : Serving { m with scheduler := { m.scheduler with switching } } stack)
      (hquiet : Quiet stack call rax { m with scheduler := { m.scheduler with switching } } m')
      (herror : Call.ofNumber call.rax = some .send ∨ Call.ofNumber call.rax = some .recv →
        isError rax)
      (hserve : Call.ofNumber call.rax ≠ some .recv → ∃ running medium,
        event = .syscall call medium
        ∧ m' = m.serve stack call running medium)
  /-- A process sends a message. -/
  | sent {stack : ℕ} {call : SyscallFrame} (hserving : Serving m stack)
      (hcall : Call.ofNumber call.rax = some .send) (h : Sent stack call m.scheduler.current m m')
  /-- A process takes a message, at once or after it waited. -/
  | took {stack : ℕ} {call : SyscallFrame} (switching : Bool)
      (hserving : Serving { m with scheduler := { m.scheduler with switching } } stack)
      (hcall : Call.ofNumber call.rax = some .recv)
      (h : Took stack call { m with scheduler := { m.scheduler with switching } } m')
  /-- A slot that was empty is filled. -/
  | added (free : Fin maxProcesses) (slot : Slot) (hfree : m.scheduler.slots free = none)
      (hmailbox : slot.mailbox = Mailbox.new)
      (hslots : m'.scheduler.slots = Function.update m.scheduler.slots free (some slot))
      (hdisk : m'.disk = m.disk) (htrace : m'.trace = m.trace)
  /-- Whoever waited was given up. -/
  | gaveUp (h : m' = m.returned)

/-- Whoever is served is alive. -/
lemma Serving.live (h : Serving m stack) {slot : Slot}
    (hslot : m.scheduler.slots m.scheduler.current = some slot) : slot.state ≠ .dead := by
  obtain ⟨here, hhere, hstate, -⟩ := h.placed.1.here
  obtain rfl := Option.some.inj (hhere.symm.trans hslot)
  rw [hstate]
  nofun

variable {event : Event}

/-- A round of `recv` of a process that was woken. -/
lemma recvTurn_effect {switching : Bool}
    (h : Serving { m with scheduler := { m.scheduler with switching } } stack)
    (hcall : Call.ofNumber call.rax = some .recv) :
    Effect m event ({ m with scheduler := { m.scheduler with switching } }.recvTurn stack call
      running) := by
  rcases @recvTurn_cases { m with scheduler := { m.scheduler with switching } } stack call running
    with ⟨rax, herror, hquiet⟩ | htook | hwaited
  · exact .answered switching h hquiet (fun _ => herror) (absurd hcall)
  · exact .took switching h hcall htook
  · have honly := hwaited.onlyIn
    exact .left (fun _ hslot => h.live hslot) ⟨honly.slots, honly.memory, honly.disk, honly.trace⟩

/-- A syscall. -/
lemma handle_effect (h : Serving m stack) :
    Effect m (.syscall call medium) (m.handle stack call medium) := by
  have hleft : ∀ {m'}, OnlyIn m.scheduler.current m m' → Effect m (.syscall call medium) m' :=
    .left fun _ hslot => h.live hslot
  obtain ⟨slot, -, -, hrunning⟩ := h.runningSlot
  have hsome : m.scheduler.running
      = some ⟨m.scheduler.current, slot.process.owned, slot.process.writable⟩ := by
    rw [Scheduler.running, hrunning, Option.map_some]
  rw [handle, hsome]
  dsimp only
  rcases @serve_cases m stack call ⟨m.scheduler.current, slot.process.owned,
    slot.process.writable⟩ medium
    with ⟨rax, hquiet, herror⟩ | ⟨hcall, hsent⟩ | ⟨hcall,
      htook | hwaited⟩ | hexit | ⟨hcall, hyield⟩
  · exact .answered m.scheduler.switching h hquiet herror fun _ => ⟨_, medium, rfl, rfl⟩
  · exact .sent h hcall hsent
  · exact .took m.scheduler.switching h hcall htook
  · exact hleft hwaited.onlyIn
  · rw [hexit]
    exact hleft endCurrent_onlyIn
  · rw [hyield]
    exact hleft (serveYield_onlyIn hcall)

/-- A process that has not run begins. -/
lemma runFirst_effect {slot : Slot} (hslot : m.scheduler.slots m.scheduler.current = some slot)
    (hstate : slot.state = .new) (stack : ℕ) : Effect m event (m.runFirst stack) := by
  rw [runFirst]
  simp only [hslot]
  refine .left (fun other hother hdead => ?_)
    (.silent (.change (fun _ => rfl) fun _ => .inr rfl) rfl rfl rfl)
  obtain rfl := Option.some.inj (hslot.symm.trans hother)
  rw [hdead] at hstate
  cases hstate

/-- The stack that was taken up goes on. -/
lemma resume_effect {saved : Saved} (h : Invariant m) (hcontrol : m.control = .resuming saved) :
    Effect m event (m.resume saved) := by
  have hplaced := h.placed
  rw [hcontrol] at hplaced
  obtain ⟨hbusy, hwaits⟩ := hplaced
  obtain ⟨slot, hslot, hrun, hfits, hcr3⟩ := hbusy.here
  rw [Fits] at hfits
  cases hstate : slot.state with
  | new =>
      rw [hstate] at hfits
      rcases hfits with rfl | rfl | rfl
      · exact runFirst_effect hslot hstate _
      · exact .idle rfl rfl ⟨[], (List.append_nil _).symm, List.forall_mem_nil _⟩
      · exact .idle rfl rfl ⟨[], (List.append_nil _).symm, List.forall_mem_nil _⟩
  | runnable =>
      rw [hstate] at hfits
      rcases hfits with rfl | ⟨call, hcall, rfl⟩ | ⟨call, running, hcall, rfl⟩
      · exact .idle rfl rfl ⟨[], (List.append_nil _).symm, List.forall_mem_nil _⟩
      · refine .idle rfl rfl ⟨[_], rfl, fun note hnote => ?_⟩
        rw [List.mem_singleton.mp hnote]
        exact hcall
      · exact recvTurn_effect
          ⟨h.kept, h.switches, ⟨hbusy.handedOver, ⟨slot, hslot, hstate, rfl, hcr3⟩,
          hbusy.parked⟩, rfl, hwaits.resolve_right id⟩ hcall
  | blocked =>
      rw [hstate] at hrun
      cases hrun
  | dead =>
      rw [hstate] at hrun
      cases hrun

lemma tick_effect (h : Invariant m) (htick : m.tick = some m') : Effect m event m' := by
  rw [tick] at htick
  have hplaced := h.placed
  split at htick
  next hcontrol =>
    rw [hcontrol] at hplaced
    obtain rfl := Option.some.inj htick
    rw [Scheduler.shouldSwitchOnTick, hplaced.1]
    exact .idle rfl rfl ⟨[], (List.append_nil _).symm, List.forall_mem_nil _⟩
  next hcontrol =>
    rw [hcontrol] at hplaced
    obtain rfl := Option.some.inj htick
    refine .left (fun other hother hdead => ?_) onTick_onlyIn
    obtain ⟨slot, hslot, hstate, -⟩ := hplaced.1.here
    obtain rfl := Option.some.inj (hslot.symm.trans hother)
    rw [hdead] at hstate
    cases hstate
  next hcontrol =>
    rw [hcontrol] at hplaced
    obtain rfl := Option.some.inj htick
    refine .left (fun other hother hdead => ?_) onTick_onlyIn
    obtain ⟨slot, hslot, hstate, -⟩ := hplaced.1.here
    obtain rfl := Option.some.inj (hslot.symm.trans hother)
    rw [hdead] at hstate
    cases hstate
  next hcontrol =>
    obtain rfl := Option.some.inj htick
    exact .left (fun _ hslot => (h.serving hcontrol).live hslot) onTick_onlyIn
  · cases htick

lemma runUntilEmpty_slots (kernelCr3 : ℕ) :
    (m.runUntilEmpty kernelCr3).scheduler.slots = m.scheduler.slots
      ∧ (m.runUntilEmpty kernelCr3).disk = m.disk ∧ (m.runUntilEmpty kernelCr3).trace
        = m.trace := by
  rw [runUntilEmpty]
  split
  · exact ⟨rfl, rfl, rfl⟩
  next first hfirst =>
    dsimp only
    split
    · exact ⟨rfl, rfl, rfl⟩
    · obtain ⟨top, hprepared⟩ := prepareCpuFor_eq
        { m with scheduler := { m.scheduler with current := first }, kernelCr3 := kernelCr3 }
          first
      rw [hprepared]
      exact ⟨rfl, rfl, rfl⟩

/-- **What a step does to the slots and the disk.** -/
lemma step_effect (h : Invariant m) (hstep : m.step event = some m') : Effect m event m' := by
  -- the steps that touch no slot, no disk and no file
  have hidle : ∀ {m'}, m'.scheduler.slots = m.scheduler.slots → m'.disk = m.disk →
      m'.trace = m.trace →
      Effect m event m' :=
    fun hslots hdisk htrace => .idle hslots hdisk ⟨[], by rw [htrace, List.append_nil], nofun⟩
  cases event with
  | add process =>
      rw [step] at hstep
      split at hstep
      next hcontrol =>
        split_ifs at hstep with hfresh
        obtain rfl := Option.some.inj hstep
        rcases m.add_cases process with hadd | ⟨free, hfree, hadd⟩
        · rw [hadd]
          exact hidle rfl rfl rfl
        · rw [hadd]
          exact .added free _ hfree rfl rfl rfl rfl
      · cases hstep
  | runUntilEmpty kernelCr3 =>
      rw [step] at hstep
      split at hstep
      · obtain rfl := Option.some.inj hstep
        obtain ⟨hslots, hdisk, htrace⟩ := runUntilEmpty_slots kernelCr3
        exact hidle hslots hdisk htrace
      · cases hstep
  | handOver =>
      rw [step] at hstep
      split at hstep
      · obtain rfl := Option.some.inj hstep
        refine .idle rfl rfl ⟨[_], rfl, fun note hnote => ?_⟩
        rw [List.mem_singleton.mp hnote]
        trivial
      · cases hstep
  | resume =>
      rw [step] at hstep
      split at hstep
      next hcontrol =>
        obtain rfl := Option.some.inj hstep
        -- back in the call or the tick that was left
        exact resume_effect h hcontrol
      next stack hcontrol =>
        have hplaced := h.placed
        rw [hcontrol] at hplaced
        obtain ⟨slot, hslot, hstate, -⟩ := hplaced.1.here
        obtain rfl := Option.some.inj hstep
        exact runFirst_effect hslot hstate stack
      · cases hstep
  | returned =>
      rw [step] at hstep
      split at hstep
      · exact .gaveUp (Option.some.inj hstep).symm
      · cases hstep
  | tick => exact tick_effect h hstep
  | key key =>
      obtain rfl := Option.some.inj hstep
      exact hidle rfl rfl rfl
  | write name contents medium =>
      rw [step] at hstep
      split at hstep
      · exact .wrote name contents medium rfl (Option.some.inj hstep).symm
      · cases hstep
  | compute memory =>
      rw [step] at hstep
      split at hstep
      · obtain rfl := Option.some.inj hstep
        exact hidle rfl rfl rfl
      · cases hstep
  | syscall call medium =>
      rw [step] at hstep
      split at hstep
      next hcontrol =>
        obtain rfl := Option.some.inj hstep
        exact handle_effect (h.serving hcontrol)
      · cases hstep
  | fault =>
      rw [step] at hstep
      split at hstep
      next stack hcontrol =>
        obtain rfl := Option.some.inj hstep
        have hserving := h.serving hcontrol
        obtain ⟨slot, -, -, hrunning⟩ := hserving.runningSlot
        rw [onFault, Scheduler.running, hrunning]
        exact .left (fun _ hslot => hserving.live hslot) endCurrent_onlyIn
      · cases hstep

/-! ### Steps that move no message -/

/-- Nothing a dead process left has changed, and no mailbox, and no message was moved. -/
structure Calm (m m' : Machine) : Prop where
  dead : ∀ {i slot}, m.scheduler.slots i = some slot → slot.state = .dead →
    m'.scheduler.slots i = some slot
  mailboxes : ∀ i, (m'.scheduler.slots i).map Slot.mailbox
    = (m.scheduler.slots i).map Slot.mailbox
  trace : ∃ notes, m'.trace = m.trace ++ notes ∧ ∀ note ∈ notes, ¬note.Carries

/-- What changes only the slot of a live process is calm. -/
lemma calm_of_only {notes : List Note}
    (hothers : ∀ i, i ≠ c → m'.scheduler.slots i = m.scheduler.slots i)
    (hmailbox : (m'.scheduler.slots c).map Slot.mailbox = (m.scheduler.slots c).map Slot.mailbox)
    (hlive : ∀ slot, m.scheduler.slots c = some slot → slot.state ≠ .dead)
    (htrace : m'.trace = m.trace ++ notes) (hnotes : ∀ note ∈ notes, ¬note.Carries) :
    Calm m m' := by
  refine ⟨fun {i slot} hslot hdead => ?_, fun i => ?_, notes, htrace, hnotes⟩
  · have hi : i ≠ c := by
      rintro rfl
      exact hlive slot hslot hdead
    rw [hothers i hi, hslot]
  · by_cases hi : i = c
    · rw [hi, hmailbox]
    · rw [hothers i hi]

/-- What leaves the slots alone is calm. -/
lemma calm_of_slots {notes : List Note} (hslots : m'.scheduler.slots = m.scheduler.slots)
    (htrace : m'.trace = m.trace ++ notes) (hnotes : ∀ note ∈ notes, ¬note.Carries) : Calm m m' :=
  ⟨fun hslot _ => by rw [hslots, hslot], fun i => by rw [hslots], notes, htrace, hnotes⟩

lemma Quiet.calm (h : Quiet stack call rax m m') (hserving : Serving m stack)
    (hcall : Call.ofNumber call.rax = some .send ∨ Call.ofNumber call.rax = some .recv →
      isError rax) :
    Calm m m' := by
  obtain ⟨f, -, hscheduler⟩ := h.scheduler
  obtain ⟨accesses, haccesses, htrace⟩ := h.trace
  refine calm_of_only (fun i hi => ?_) ?_ (fun _ hslot => hserving.live hslot)
    (htrace.trans (List.append_assoc _ _ _)) fun note hnote => ?_
  · rw [hscheduler]
    exact Scheduler.change_of_ne hi
  · rw [hscheduler]
    exact change_mailbox fun _ => rfl
  · rcases List.mem_append.mp hnote with hmem | hmem
    · have haccess := haccesses note hmem
      cases note with
      | answer => exact haccess.elim
      | switch | reads | writes => exact id
    · rw [List.mem_singleton.mp hmem]
      exact fun hcarries => hcarries.2 (hcall hcarries.1)

lemma returned_calm : Calm m m.returned := by
  refine ⟨fun {i slot} hslot hdead => ?_, fun i => ?_, [], (List.append_nil _).symm, nofun⟩
  · refine returned_slots.mpr ⟨slot, hslot, if_neg ?_⟩
    rw [hdead]
    nofun
  · cases hslot : m.scheduler.slots i with
    | none =>
        rw [Option.map_none, Option.map_eq_none_iff, Option.eq_none_iff_forall_ne_some]
        intro slot hafter
        obtain ⟨old, hold, -⟩ := returned_slots.mp hafter
        rw [hslot] at hold
        cases hold
    | some slot =>
        rw [returned_slots.mpr ⟨slot, hslot, rfl⟩]
        split_ifs <;> rfl

/-- A step moves no message, or puts one in a mailbox, or takes one out, or fills a slot. -/
lemma Effect.calm_or (h : Effect m event m') :
    Calm m m'
      ∨ (∃ stack call, Serving m stack ∧ Call.ofNumber call.rax = some .send
          ∧ Sent stack call m.scheduler.current m m')
      ∨ (∃ switching stack call,
        Serving { m with scheduler := { m.scheduler with switching } } stack
          ∧ Call.ofNumber call.rax = some .recv
          ∧ Took stack call { m with scheduler := { m.scheduler with switching } } m')
      ∨ ∃ free slot, m.scheduler.slots free = none ∧ slot.mailbox = Mailbox.new
          ∧ m'.scheduler.slots = Function.update m.scheduler.slots free (some slot)
          ∧ m'.trace = m.trace := by
  cases h with
  | left hlive h =>
      obtain ⟨notes, htrace, hplain⟩ := h.trace
      exact .inl (calm_of_only h.slots.others h.slots.mailbox hlive htrace
        fun note hnote => (hplain note hnote).not_carries)
  | idle hslots hdisk htrace =>
      obtain ⟨notes, htrace, hplain⟩ := htrace
      exact .inl (calm_of_slots hslots htrace fun note hnote => (hplain note hnote).not_carries)
  | wrote name contents medium hevent h =>
      rw [h]
      exact .inl (@calm_of_slots _ _ [] rfl (List.append_nil _).symm nofun)
  | answered switching hserving hquiet herror hserve =>
      have hcalm := hquiet.calm hserving herror
      exact .inl ⟨hcalm.dead, hcalm.mailboxes, hcalm.trace⟩
  | sent hserving hcall h => exact .inr (.inl ⟨_, _, hserving, hcall, h⟩)
  | took switching hserving hcall h =>
      exact .inr (.inr (.inl ⟨switching, _, _, hserving, hcall, h⟩))
  | added free slot hfree hmailbox hslots hdisk htrace =>
      exact .inr (.inr (.inr ⟨free, slot, hfree, hmailbox, hslots, htrace⟩))
  | gaveUp h =>
      rw [h]
      exact .inl returned_calm

/-! ### Who is gone, and whose turn it is -/

variable {i : Fin maxProcesses} {slot : Slot} {events : List Event}

/-- Who is gone stays gone, and as it was. -/
lemma Effect.dead (h : Effect m event m') (hslot : m.scheduler.slots i = some slot)
    (hdead : slot.state = .dead) : m'.scheduler.slots i = some slot := by
  rcases h.calm_or with hcalm | ⟨stack, call, -, -, hsent⟩
    | ⟨switching, stack, call, hserving, -, htook⟩
    | ⟨free, other, hfree, -, hslots, -⟩
  · exact hcalm.dead hslot hdead
  · obtain ⟨j, other, -, -, -, -, hother, hlive, -, rfl⟩ := hsent
    have hi : i ≠ j := by
      rintro rfl
      obtain rfl := Option.some.inj (hslot.symm.trans hother)
      exact hlive hdead
    exact (Scheduler.change_of_ne hi).trans hslot
  · obtain ⟨-, -, -, -, -, -, rfl⟩ := htook
    have hi : i ≠ m.scheduler.current := by
      rintro rfl
      exact hserving.live hslot hdead
    exact (Scheduler.change_of_ne hi).trans hslot
  · have hi : i ≠ free := by
      rintro rfl
      rw [hslot] at hfree
      cases hfree
    rw [hslots, Function.update_of_ne hi, hslot]

lemma run_dead (h : Invariant m) (hslot : m.scheduler.slots i = some slot)
    (hdead : slot.state = .dead) (hrun : m.run events = some m') :
    m'.scheduler.slots i = some slot := by
  refine (@run_keeps (fun m => Invariant m ∧ m.scheduler.slots i = some slot) ?_ _ _ _
    ⟨h, hslot⟩ hrun).2
  rintro m event m' ⟨h, hslot⟩ hstep
  exact ⟨step_invariant h hstep, (step_effect h hstep).dead hslot hdead⟩

/-- The process on the stack of whoever is served is the one in the current slot. -/
lemma Serving.owner (h : Serving m stack) :
    m.scheduler.owner stack = some m.scheduler.current := by
  obtain ⟨slot, hslot, hstate, htop, -⟩ := h.placed.1.here
  rw [Scheduler.owner]
  cases hfind : (List.finRange maxProcesses).find? fun i =>
      (m.scheduler.slots i).any fun slot => slot.state ≠ .dead && slot.kernelStackTop
      == stack with
  | none =>
      have hnone := List.find?_eq_none.mp hfind m.scheduler.current (List.mem_finRange _)
      rw [hslot, Option.any_some, hstate, htop] at hnone
      simp at hnone
  | some i =>
      have hfound := List.find?_some hfind
      cases hother : m.scheduler.slots i with
      | none =>
          rw [hother] at hfound
          cases hfound
      | some other =>
          simp only [hother, Option.any_some, ne_eq, decide_not, Bool.and_eq_true,
            Bool.not_eq_true', decide_eq_false_iff_not, beq_iff_eq] at hfound
          rw [h.kept.ownStack hother hslot hfound.1 (h.live hslot) (hfound.2.trans htop.symm)]

/-- `run_until_empty` comes back once everybody is gone. -/
lemma returns_empty (h : Invariant m)
    (hevent : event = .returned ∨ ∃ kernelCr3, event = .runUntilEmpty kernelCr3)
    (hstep : m.step event = some m') (hkernel : m'.control = .kernel)
    (hslot : m'.scheduler.slots i = some slot) : slot.state = .dead := by
  rcases hevent with rfl | ⟨kernelCr3, rfl⟩
  · rw [step] at hstep
    split at hstep
    next hcontrol =>
      obtain rfl := Option.some.inj hstep
      exact returned_dead h hcontrol hslot
    · cases hstep
  · rw [step] at hstep
    split at hstep
    next hcontrol =>
      obtain rfl := Option.some.inj hstep
      have hplaced := h.placed
      rw [hcontrol] at hplaced
      rw [runUntilEmpty] at hkernel hslot
      cases hnext : m.scheduler.nextAfter (Fin.last 15) with
      | none =>
          rw [hnext] at hslot
          have hrun := Scheduler.nextAfter_none hnext hslot
          refine (hplaced.2.2 i slot hslot).resolve_left fun hnew => ?_
          rw [hnew.1] at hrun
          cases hrun
      | some first =>
          -- a process is found, so the CPU is on its way to it
          rw [hnext] at hkernel
          dsimp only at hkernel
          split at hkernel <;> cases hkernel
    · cases hstep

/-- **No wake-up is lost and never the wrong process runs.** In every state of every run: whoever
waits for a message has none; process code executes only as the live process of the current slot,
which is runnable, with the CPU handed over and no switch in flight; no switch ever went to a slot
that was empty, waiting or dead, and the kernel lost no stack; who is gone has nothing open and
stays as it is, in its slot, for ever; and `run_until_empty` comes back only once nobody can run
and nobody waits. -/
theorem scheduler_holds {memory : ℕ → ByteMemory} {disk : Option Mounted}
    {console : Option Console} {cr3 : ℕ}
    (hrun : (boot memory disk console cr3).run events = some m) :
    (∀ i slot, m.scheduler.slots i = some slot → slot.state = .blocked →
      slot.mailbox.isEmpty = true)
      ∧ (∀ stack, m.control = .ring3 stack → m.scheduler.handedOver = true
          ∧ m.scheduler.switching = false ∧ m.scheduler.owner stack = some m.scheduler.current
          ∧ ∃ slot, m.scheduler.slots m.scheduler.current = some slot ∧ slot.state = .runnable
            ∧ m.cr3 = slot.process.space.root)
      ∧ (∀ i state, Note.switch i state ∈ m.trace → state = some .new ∨ state = some .runnable)
      ∧ m.control ≠ .stopped
      ∧ (∀ i slot, m.scheduler.slots i = some slot → slot.state = .dead →
          slot.process.openFiles = OpenFiles.new
            ∧ ∀ later m', m.run later = some m' → m'.scheduler.slots i = some slot)
      ∧ ∀ event m', (event = .returned ∨ ∃ kernelCr3, event = .runUntilEmpty kernelCr3) →
          m.step event = some m' → m'.control = .kernel →
          ∀ i slot, m'.scheduler.slots i = some slot →
            slot.state.canRun = false ∧ slot.state ≠ .blocked := by
  have h := run_invariant (boot_invariant memory disk console cr3) hrun
  refine ⟨fun i slot => h.kept.blocked, fun stack hcontrol => ?_, fun i state hswitch => ?_,
    fun hstopped => ?_,
    fun i slot hslot hdead => ⟨h.kept.dead hslot hdead, fun later m' hlater => ?_⟩,
    fun event m' hevent hstep hkernel i slot hslot => ?_⟩
  · have hserving := h.serving hcontrol
    obtain ⟨hbusy, hswitching, -⟩ := hserving.placed
    obtain ⟨slot, hslot, hstate, -, hcr3⟩ := hbusy.here
    exact ⟨hbusy.handedOver, hswitching, hserving.owner, slot, hslot, hstate, hcr3⟩
  · obtain ⟨state, rfl, hcan⟩ := h.switches i state hswitch
    cases state with
    | new => exact .inl rfl
    | runnable => exact .inr rfl
    | blocked => cases hcan
    | dead => cases hcan
  · have hplaced := h.placed
    rw [hstopped] at hplaced
    exact hplaced
  · exact run_dead h hslot hdead hlater
  · rw [returns_empty h hevent hstep hkernel hslot]
    exact ⟨rfl, nofun⟩

/-- A process with a page it may read and a page it may write. -/
def demo (root top : ℕ) : Process :=
  ⟨⟨root, 0⟩, [⟨0x1000, 0x1000⟩, ⟨0x2000, 0x1000⟩], [⟨0x2000, 0x1000⟩], [], 0x1000,
    ⟨top - 0x1000, top⟩, OpenFiles.new⟩

/-- Two processes, the first of which waits for a message while the second runs. -/
def waitingRun : List Event :=
  [.add (demo 1 0x10000), .add (demo 2 0x20000), .runUntilEmpty 0, .handOver, .resume,
    .syscall ⟨4, 0x2000, 64, 0, 0⟩ ⟨0, false, []⟩, .resume]

/-- The same two, with a tick before `run_until_empty` makes its switch, so that the second runs
and waits first, and another before the first one's `run_first` begins. -/
def windowRun : List Event :=
  [.add (demo 1 0x10000), .add (demo 2 0x20000), .runUntilEmpty 0, .tick, .resume,
    .syscall ⟨4, 0x2000, 64, 0, 0⟩ ⟨0, false, []⟩, .resume, .handOver, .tick, .resume]

theorem scheduler_holds_windowRun :
    ∃ m, (boot (fun _ _ => 0) none none 0).run windowRun = some m
    ∧ m.control = .ring3 0x10000 ∧ m.scheduler.state 1 = some .blocked
    ∧ m.scheduler.owner 0x10000 = some m.scheduler.current := by
  have hsome : ((boot (fun _ _ => 0) none none 0).run windowRun).isSome = true := rfl
  refine ⟨_, (Option.some_get hsome).symm, rfl, rfl, ?_⟩
  exact ((scheduler_holds (Option.some_get hsome).symm).2.1 _ rfl).2.2.1

end Machine

end Harlan.Turns
