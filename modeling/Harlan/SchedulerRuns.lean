import Mathlib.Tactic
import Harlan.Answers

/-!
What holds of the scheduler in every state of every run.

* `Fits`: what a stack that was left may go on with, in each state of its slot.
* `Invariant`: the slots, the flags and the stacks agree with what the CPU is doing.
* `switchTo_invariant`, `leave_invariant`: a switch keeps it.
* `step_invariant`, `run_invariant`: so does every step, and every run.
-/

namespace Harlan.Turns

open Fs

/-- What a stack that was left goes on with, as the state of its slot has it. -/
def Fits (i : Fin maxProcesses) (slot : Slot) (saved : Saved) : Prop :=
  match slot.state with
  | .new => saved = .first slot.kernelStackTop
      ∨ saved = .handing i (.first slot.kernelStackTop) slot.process.space.root
      ∨ saved = .starting slot.kernelStackTop true
  | .runnable => saved = .tick slot.kernelStackTop true
      ∨ (∃ call, Call.ofNumber call.rax = some .yield
        ∧ saved = .yield slot.kernelStackTop true call)
      ∨ ∃ call running, Call.ofNumber call.rax = some .recv
          ∧ saved = .wait slot.kernelStackTop call running
  | .blocked => ∃ call running, Call.ofNumber call.rax = some .recv
      ∧ saved = .wait slot.kernelStackTop call running
  | .dead => True

/-- The kernel's own flow, interrupted before it handed the CPU over. -/
def Saved.IsHanding : Saved → Prop
  | .handing _ _ _ => True
  | _ => False

/-- What the slots keep whatever the CPU does. -/
structure Kept (slots : Fin maxProcesses → Option Slot) : Prop where
  /-- A kernel stack is one live process's. -/
  ownStack : ∀ {i j a b}, slots i = some a → slots j = some b → a.state ≠ .dead →
    b.state ≠ .dead →
    a.kernelStackTop = b.kernelStackTop → i = j
  /-- Whoever waits for a message has none. -/
  blocked : ∀ {i slot}, slots i = some slot → slot.state = .blocked → slot.mailbox.isEmpty = true
  /-- Whoever is gone has no open file. -/
  dead : ∀ {i slot}, slots i = some slot → slot.state = .dead →
    slot.process.openFiles = OpenFiles.new

/-- Every switch went to a slot that could run. -/
def GoodSwitches (trace : List Note) : Prop :=
  ∀ i state, Note.switch i state ∈ trace → ∃ s, state = some s ∧ s.canRun = true

/-- A process has the CPU, and every other is where its state says. -/
structure Busy (s : Scheduler) (P : Slot → Prop) : Prop where
  handedOver : s.handedOver = true
  here : ∃ slot, s.slots s.current = some slot ∧ P slot
  parked : ∀ {i slot}, i ≠ s.current → s.slots i = some slot → Fits i slot slot.kernelRsp

namespace Machine

/-- There is a stack for the last process to hand control back to, or one that will leave it. -/
def KernelWaits (m : Machine) : Prop :=
  m.kernelRsp = true ∨ ∃ i slot, i ≠ m.scheduler.current ∧ m.scheduler.slots i = some slot
    ∧ slot.state = .new ∧ slot.kernelRsp.IsHanding

/-- The slots and the flags, for each thing the CPU may be doing. -/
def Placed (m : Machine) : Control → Prop
  | .kernel => m.scheduler.handedOver = false ∧ m.scheduler.switching = false
      ∧ ∀ i slot, m.scheduler.slots i = some slot →
        slot.state = .new ∧ slot.kernelRsp = .first slot.kernelStackTop ∨ slot.state = .dead
  | .handing i rsp cr3 =>
      Busy m.scheduler (fun slot => slot.state = .new ∧ rsp = .first slot.kernelStackTop
        ∧ cr3 = slot.process.space.root)
      ∧ m.scheduler.switching = false ∧ m.scheduler.current = i
  | .starting stack =>
      Busy m.scheduler (fun slot => slot.state = .new ∧ slot.kernelStackTop = stack
        ∧ m.cr3 = slot.process.space.root)
      ∧ m.scheduler.switching = false ∧ m.KernelWaits
  | .ring3 stack =>
      Busy m.scheduler (fun slot => slot.state = .runnable ∧ slot.kernelStackTop = stack
        ∧ m.cr3 = slot.process.space.root)
      ∧ m.scheduler.switching = false ∧ m.KernelWaits
  | .resuming saved =>
      Busy m.scheduler (fun slot => slot.state.canRun = true ∧ Fits m.scheduler.current slot saved
        ∧ m.cr3 = slot.process.space.root)
      ∧ (m.KernelWaits ∨ saved.IsHanding)
  | .returning => m.scheduler.switching = false
      ∧ ∀ i slot, m.scheduler.slots i = some slot → slot.state.canRun = false
  | .stopped => False

/-- The slots, the flags and the stacks agree with what the CPU is doing. -/
structure Invariant (m : Machine) : Prop where
  kept : Kept m.scheduler.slots
  switches : GoodSwitches m.trace
  placed : m.Placed m.control

end Machine

/-! ### Changing a slot -/

section Change

variable {s : Scheduler} {i : Fin maxProcesses} {f : Slot → Slot} {P Q : Slot → Prop}

/-- A change of one slot that keeps its stack keeps the slots, if it brings nobody back, lets no
message wait for a receiver that waits and leaves nothing open in a slot that is dead. -/
lemma Kept.change (h : Kept s.slots)
    (hstack : ∀ slot, (f slot).kernelStackTop = slot.kernelStackTop)
    (hslot : ∀ slot, s.slots i = some slot → ((f slot).state ≠ .dead → slot.state ≠ .dead)
      ∧ ((f slot).state = .blocked → (f slot).mailbox.isEmpty = true)
      ∧ ((f slot).state = .dead → (f slot).process.openFiles = OpenFiles.new)) :
    Kept (s.change i f).slots := by
  have htop : ∀ {j slot}, (s.change i f).slots j = some slot → ∃ old, s.slots j = some old
      ∧ slot.kernelStackTop = old.kernelStackTop ∧ (slot.state ≠ .dead → old.state ≠ .dead) := by
    intro j slot hj
    obtain ⟨old, hold, ⟨rfl, rfl⟩ | ⟨-, rfl⟩⟩ := Scheduler.change_some hj
    · exact ⟨old, hold, hstack old, (hslot old hold).1⟩
    · exact ⟨slot, hold, rfl, id⟩
  refine ⟨fun ha hb halive hblive hsame => ?_, fun hj hstate => ?_, fun hj hstate => ?_⟩
  · obtain ⟨a, ha, hatop, hawas⟩ := htop ha
    obtain ⟨b, hb, hbtop, hbwas⟩ := htop hb
    exact h.ownStack ha hb (hawas halive) (hbwas hblive) (by rw [← hatop, ← hbtop, hsame])
  · obtain ⟨old, hold, ⟨rfl, rfl⟩ | ⟨-, rfl⟩⟩ := Scheduler.change_some hj
    · exact (hslot old hold).2.1 hstate
    · exact h.blocked hold hstate
  · obtain ⟨old, hold, ⟨rfl, rfl⟩ | ⟨-, rfl⟩⟩ := Scheduler.change_some hj
    · exact (hslot old hold).2.2 hstate
    · exact h.dead hold hstate

/-- What a slot keeps does not depend on the stack it was left with. -/
lemma Kept.left (h : Kept s.slots) (i : Fin maxProcesses) (here : Saved) :
    Kept (s.change i fun slot => { slot with kernelRsp := here }).slots := by
  refine h.change (fun _ => rfl) fun slot hslot => ?_
  have hblocked := h.blocked hslot
  have hdead := h.dead hslot
  exact ⟨id, hblocked, hdead⟩

/-- A change of the slot that has the CPU. -/
lemma Busy.change (h : Busy s P)
    (hslot : ∀ slot, s.slots s.current = some slot → P slot → Q (f slot)) :
    Busy (s.change s.current f) Q := by
  obtain ⟨slot, hhere, hP⟩ := h.here
  refine ⟨h.handedOver, ⟨f slot, Scheduler.change_self hhere, hslot slot hhere hP⟩,
    fun hne hj => ?_⟩
  have hj : s.slots _ = some _ := (Scheduler.change_of_ne hne).symm.trans hj
  exact h.parked hne hj

end Change

lemma GoodSwitches.append {trace notes : List Note} (h : GoodSwitches trace)
    (hnotes : GoodSwitches notes) : GoodSwitches (trace ++ notes) := by
  intro i state hmem
  rcases List.mem_append.mp hmem with hold | hnew
  · exact h i state hold
  · exact hnotes i state hnew

namespace Machine

variable {m m' : Machine} {P : Slot → Prop} {here : Saved} {target : Fin maxProcesses}

/-! ### Switching -/

lemma switchTo_eq {source : Fin maxProcesses} {a b : Slot}
    (ha : m.scheduler.slots source = some a) (hb : m.scheduler.slots target = some b) :
    m.switchTo source target here = { m with
      scheduler := { m.scheduler.change source fun slot => { slot with kernelRsp := here } with
        switching := true, current := target }
      cpuStack := b.kernelStackTop
      cr3 := b.process.space.root
      control := .resuming b.kernelRsp
      trace := m.trace ++ [.switch target (some b.state)] } := by
  simp only [switchTo, prepareCpuFor, hb, ha, Scheduler.change]

/-- A slot with another stack to go on with is the same slot for what it may go on with. -/
lemma fits_of_eq {i : Fin maxProcesses} {slot other : Slot} {saved : Saved}
    (h : Fits i slot saved) (hstate : other.state = slot.state)
    (htop : other.kernelStackTop = slot.kernelStackTop)
    (hroot : other.process.space.root = slot.process.space.root) : Fits i other saved := by
  rw [Fits] at h ⊢
  rw [hstate, htop, hroot]
  exact h

/-- Leaving the CPU to whoever is next. -/
lemma switchTo_invariant (hkept : Kept m.scheduler.slots) (hswitches : GoodSwitches m.trace)
    (hbusy : Busy m.scheduler P) (hhere : ∀ slot, P slot → Fits m.scheduler.current slot here)
    {b : Slot} (hb : m.scheduler.slots target = some b) (hrun : b.state.canRun = true)
    (hne : target ≠ m.scheduler.current)
    (hwaits : m.KernelWaits ∨ here.IsHanding ∧ ∀ slot, P slot → slot.state = .new) :
    Invariant (m.switchTo m.scheduler.current target here) := by
  obtain ⟨a, ha, hP⟩ := hbusy.here
  have hb' : (m.scheduler.change m.scheduler.current fun slot =>
      { slot with kernelRsp := here }).slots
      target = some b := by rw [Scheduler.change_of_ne hne, hb]
  rw [switchTo_eq ha hb]
  refine ⟨?_, hswitches.append ?_,
    ⟨⟨hbusy.handedOver, ⟨b, hb', hrun, hbusy.parked hne hb, rfl⟩, ?_⟩, ?_⟩⟩
  · exact hkept.left _ _
  · intro i state hmem
    obtain ⟨rfl, rfl⟩ := Note.switch.inj (List.mem_singleton.mp hmem)
    exact ⟨b.state, rfl, hrun⟩
  · intro i slot hi hslot
    obtain ⟨old, hold, ⟨rfl, rfl⟩ | ⟨hother, rfl⟩⟩ := Scheduler.change_some hslot
    · rw [ha] at hold
      obtain rfl := Option.some.inj hold
      exact fits_of_eq (hhere a hP) rfl rfl rfl
    · exact hbusy.parked hother hold
  · -- the kernel's own stack is where it was, or is the one just left, or the one just taken up
    rcases hwaits with (hkernel | ⟨i, slot, hi, hslot, hnew, hhanding⟩) | ⟨hhanding, hnew⟩
    · exact .inl (.inl hkernel)
    · by_cases hi' : i = target
      · subst hi'
        rw [hb] at hslot
        obtain rfl := Option.some.inj hslot
        exact .inr hhanding
      · refine .inl (.inr ⟨i, slot, hi', ?_, hnew, hhanding⟩)
        rw [← hslot]
        exact Scheduler.change_of_ne hi
    · exact .inl (.inr ⟨m.scheduler.current, _, hne.symm, Scheduler.change_self ha,
        hnew a hP, hhanding⟩)

/-- Leaving it to the kernel, when nobody can run. -/
lemma leave_invariant {back : Machine → Machine} (hkept : Kept m.scheduler.slots)
    (hswitches : GoodSwitches m.trace) (hbusy : Busy m.scheduler P)
    (hswitching : m.scheduler.switching = false) (hwaits : m.KernelWaits)
    (hnone : ∀ i slot, m.scheduler.slots i = some slot → slot.state.canRun = false) :
    Invariant (m.leaveForTheKernel here back) := by
  obtain ⟨a, ha, -⟩ := hbusy.here
  have hkernel : m.kernelRsp = true := by
    rcases hwaits with hkernel | ⟨i, slot, -, hslot, hnew, -⟩
    · exact hkernel
    · have := hnone i slot hslot
      rw [hnew] at this
      cases this
  rw [leaveForTheKernel, ha]
  simp only [hkernel, if_true]
  refine ⟨?_, hswitches, hswitching, fun i slot hslot => ?_⟩
  · exact hkept.left _ _
  · obtain ⟨old, hold, ⟨-, rfl⟩ | ⟨-, rfl⟩⟩ := Scheduler.change_some hslot
    · exact hnone i old hold
    · exact hnone i slot hold

/-- Giving the turn away. -/
lemma switchToNext_invariant {switched left : Saved} {back : Machine → Machine}
    (hkept : Kept m.scheduler.slots) (hswitches : GoodSwitches m.trace)
    (hbusy : Busy m.scheduler P) (hswitching : m.scheduler.switching = false)
    (hrun : ∀ slot, P slot → slot.state.canRun = true)
    (hswitched : ∀ slot, P slot → Fits m.scheduler.current slot switched)
    (hwaits : m.KernelWaits ∨ switched.IsHanding ∧ ∀ slot, P slot → slot.state = .new)
    (hback : Invariant (back m)) : Invariant (m.switchToNext switched left back) := by
  rw [switchToNext, hswitching, if_neg Bool.false_ne_true]
  cases hnext : m.scheduler.nextAfter m.scheduler.current with
  | none =>
      -- whoever gives the turn away can run itself
      obtain ⟨a, ha, hP⟩ := hbusy.here
      have hnone := Scheduler.nextAfter_none hnext ha
      rw [hrun a hP] at hnone
      cases hnone
  | some next =>
      dsimp only
      split_ifs with hsame
      · exact hback
      · obtain ⟨b, hb, hcan⟩ := Scheduler.nextAfter_some hnext
        exact switchTo_invariant hkept hswitches hbusy hswitched hb hcan hsame hwaits

/-- The end of whoever has the CPU. -/
lemma endCurrent_invariant {stack : ℕ} (hkept : Kept m.scheduler.slots)
    (hswitches : GoodSwitches m.trace) (hbusy : Busy m.scheduler P)
    (hswitching : m.scheduler.switching = false) (hwaits : m.KernelWaits) :
    Invariant (m.endCurrent stack) := by
  have hkept' : Kept (m.scheduler.kill m.scheduler.current).slots :=
    hkept.change (fun _ => rfl) fun _ _ => ⟨fun hlive => absurd rfl hlive, nofun, fun _ => rfl⟩
  have hbusy' : Busy (m.scheduler.kill m.scheduler.current) (fun slot => slot.state = .dead) :=
    hbusy.change fun _ _ _ => rfl
  have hwaits' : KernelWaits { m with scheduler := m.scheduler.kill m.scheduler.current } := by
    rcases hwaits with hkernel | ⟨i, slot, hi, hslot, hnew⟩
    · exact .inl hkernel
    · exact .inr ⟨i, slot, hi, by rw [← hslot]; exact Scheduler.change_of_ne hi, hnew⟩
  rw [endCurrent]
  cases hnext : (m.scheduler.kill m.scheduler.current).nextAfter m.scheduler.current with
  | none =>
      exact leave_invariant hkept' hswitches hbusy' hswitching hwaits' fun i slot hslot =>
        Scheduler.nextAfter_none hnext hslot
  | some next =>
      obtain ⟨slot, hslot, hrun⟩ := Scheduler.nextAfter_some hnext
      have hne : next ≠ m.scheduler.current := by
        rintro rfl
        obtain ⟨slot', hslot', hdead⟩ := hbusy'.here
        obtain rfl := Option.some.inj (hslot'.symm.trans hslot)
        rw [hdead] at hrun
        cases hrun
      dsimp only
      rw [if_pos hne]
      refine switchTo_invariant hkept' hswitches hbusy' (fun slot hdead => ?_) hslot hrun hne
        (.inl hwaits')
      rw [Fits, hdead]
      trivial

/-! ### Serving a call -/

/-- A handler runs for the process on a stack. -/
structure Serving (m : Machine) (stack : ℕ) : Prop where
  kept : Kept m.scheduler.slots
  switches : GoodSwitches m.trace
  placed : m.Placed (.ring3 stack)

section Serving

variable {stack : ℕ} {call : SyscallFrame} {running : Running} {medium : Medium} {rax : UInt64}

lemma Invariant.serving (h : Invariant m) (hcontrol : m.control = .ring3 stack) :
    Serving m stack :=
  ⟨h.kept, h.switches, hcontrol ▸ h.placed⟩

lemma Serving.invariant (h : Serving m stack) (hcontrol : m.control = .ring3 stack) :
    Invariant m :=
  ⟨h.kept, h.switches, hcontrol.symm ▸ h.placed⟩

/-- The stack the kernel waits on does not depend on the slot that has the CPU. -/
lemma KernelWaits.change {f : Slot → Slot} (h : m.KernelWaits)
    (hslots : m'.scheduler.slots = (m.scheduler.change m.scheduler.current f).slots)
    (hcurrent : m'.scheduler.current = m.scheduler.current)
    (hkernel : m'.kernelRsp = m.kernelRsp) :
    m'.KernelWaits := by
  rw [KernelWaits, hslots, hcurrent, hkernel]
  rcases h with hrsp | ⟨i, slot, hi, hslot, hrest⟩
  · exact .inl hrsp
  · refine .inr ⟨i, slot, hi, ?_, hrest⟩
    rw [Scheduler.change_of_ne hi, hslot]

/-- A change of the slot that is served, which stays runnable. -/
lemma Serving.change {f : Slot → Slot} {notes : List Note} (h : Serving m stack)
    (hscheduler : m'.scheduler = m.scheduler.change m.scheduler.current f)
    (hf : ∀ slot, (f slot).state = slot.state ∧ (f slot).kernelStackTop = slot.kernelStackTop
      ∧ (f slot).process.space.root = slot.process.space.root)
    (hkernel : m'.kernelRsp = m.kernelRsp) (hcr3 : m'.cr3 = m.cr3)
    (htrace : m'.trace = m.trace ++ notes) (hnotes : ∀ i state, Note.switch i state ∉ notes) :
    Serving m' stack := by
  obtain ⟨hbusy, hswitching, hwaits⟩ := h.placed
  obtain ⟨here, hhere, hstate, -⟩ := hbusy.here
  refine ⟨?_, ?_, ?_, ?_, hwaits.change (by rw [hscheduler]) (by rw [hscheduler]; rfl) hkernel⟩
  · rw [hscheduler]
    refine h.kept.change (fun slot => (hf slot).2.1) fun slot hslot => ?_
    obtain rfl := Option.some.inj (hhere.symm.trans hslot)
    rw [(hf here).1, hstate]
    exact ⟨id, nofun, nofun⟩
  · rw [htrace]
    exact h.switches.append fun i state hmem => absurd hmem (hnotes i state)
  · rw [hscheduler, hcr3]
    refine hbusy.change fun slot _ ⟨hrunnable, htop, hroot⟩ => ?_
    rw [(hf slot).1, (hf slot).2.1, (hf slot).2.2]
    exact ⟨hrunnable, htop, hroot⟩
  · rw [hscheduler]
    exact hswitching

lemma Quiet.invariant (h : Serving m stack) (hquiet : Quiet stack call rax m m') :
    Invariant m' := by
  obtain ⟨f, -, hscheduler⟩ := hquiet.scheduler
  obtain ⟨accesses, haccesses, htrace⟩ := hquiet.trace
  rw [List.append_assoc] at htrace
  refine (h.change hscheduler (fun _ => ⟨rfl, rfl, rfl⟩) hquiet.kernelRsp hquiet.cr3 htrace
    fun i state hmem => ?_).invariant hquiet.control
  rcases List.mem_append.mp hmem with haccess | hanswer
  · exact haccesses _ haccess
  · cases List.mem_singleton.mp hanswer

lemma Took.invariant (h : Serving m stack) (htook : Took stack call m m') : Invariant m' := by
  obtain ⟨slot, delivery, bytes, mailbox, -, -, rfl⟩ := htook
  refine Serving.invariant (?_ : Serving _ stack) rfl
  refine @Serving.change m _ stack _ [.writes _ _, .answer _ _ _ _] h rfl
    (fun _ => ⟨rfl, rfl, rfl⟩)
    rfl rfl (List.append_assoc _ _ _) fun i state hmem => ?_
  rcases List.mem_pair.mp hmem with hwrites | hanswer
  · cases hwrites
  · cases hanswer

/-- Being written to wakes whoever waits, and changes nothing else for it. -/
lemma fits_written {i : Fin maxProcesses} {slot : Slot} {mailbox : Mailbox}
    (h : Fits i slot slot.kernelRsp) :
    Fits i (Scheduler.written mailbox slot) (Scheduler.written mailbox slot).kernelRsp := by
  rw [Fits] at h ⊢
  simp only [Scheduler.written]
  cases hstate : slot.state with
  | new =>
      rw [hstate] at h
      exact h
  | runnable =>
      rw [hstate] at h
      exact h
  | blocked =>
      rw [hstate] at h
      exact .inr (.inr h)
  | dead => trivial

lemma written_state {slot : Slot} {mailbox : Mailbox} (h : slot.state ≠ .dead) :
    (Scheduler.written mailbox slot).state ≠ .blocked ∧
    (Scheduler.written mailbox slot).state ≠ .dead
      ∧ (slot.state.canRun = true → (Scheduler.written mailbox slot).state = slot.state) := by
  simp only [Scheduler.written]
  cases hstate : slot.state with
  | new | runnable =>
      refine ⟨?_, ?_, fun _ => rfl⟩
      · intro hsame
        cases hsame
      · intro hsame
        cases hsame
  | blocked =>
      refine ⟨?_, ?_, fun hrun => absurd hrun (by decide)⟩
      · intro hsame
        cases hsame
      · intro hsame
        cases hsame
  | dead => exact absurd hstate h

lemma Sent.invariant {sender : Fin maxProcesses} (h : Serving m stack)
    (hsent : Sent stack call sender m m') : Invariant m' := by
  obtain ⟨i, slot, delivery, mailbox, -, -, hslot, hdead, -, rfl⟩ := hsent
  obtain ⟨hbusy, hswitching, hwaits⟩ := h.placed
  obtain ⟨hblocked, halive, hsame⟩ := @written_state slot mailbox hdead
  refine ⟨?_, ?_, ⟨hbusy.handedOver, ?_, ?_⟩, hswitching, ?_⟩
  · refine h.kept.change (fun _ => rfl) fun other hother => ?_
    obtain rfl := Option.some.inj (hslot.symm.trans hother)
    exact ⟨fun _ => hdead, fun hstate => absurd hstate hblocked,
      fun hstate => absurd hstate halive⟩
  · rw [reply, answer, note, List.append_assoc]
    refine h.switches.append fun _ _ hmem => ?_
    rcases List.mem_pair.mp hmem with hreads | hanswer
    · cases hreads
    · cases hanswer
  · obtain ⟨here, hhere, hstate, hrest⟩ := hbusy.here
    by_cases hi : i = m.scheduler.current
    · subst hi
      obtain rfl := Option.some.inj (hslot.symm.trans hhere)
      refine ⟨Scheduler.written mailbox slot, Scheduler.change_self hhere, ?_, hrest⟩
      rw [hsame (by rw [hstate]; rfl), hstate]
    · exact ⟨here, (Scheduler.change_of_ne (Ne.symm hi)).trans hhere, hstate, hrest⟩
  · intro j other hj hother
    obtain ⟨old, hold, ⟨rfl, rfl⟩ | ⟨-, rfl⟩⟩ := Scheduler.change_some hother
    · exact fits_written (hbusy.parked hj hold)
    · exact hbusy.parked hj hold
  · rcases hwaits with hkernel | ⟨j, other, hj, hother, hnew, hhanding⟩
    · exact .inl hkernel
    · refine .inr ?_
      by_cases hi : j = i
      · subst hi
        obtain rfl := Option.some.inj (hslot.symm.trans hother)
        refine ⟨j, Scheduler.written mailbox slot, hj, Scheduler.change_self hslot, ?_, hhanding⟩
        rw [hsame (by rw [hnew]; rfl), hnew]
      · exact ⟨j, other, hj, (Scheduler.change_of_ne hi).trans hother, hnew, hhanding⟩

lemma Waited.invariant (h : Serving m stack) (hcall : Call.ofNumber call.rax = some .recv)
    (hwaited : Waited stack call running m m') : Invariant m' := by
  obtain ⟨slot, next, hslot, hempty, hrun, hnext, hne, rfl⟩ := hwaited
  obtain ⟨hbusy, -, hwaits⟩ := h.placed
  have hkept : Kept (m.scheduler.change m.scheduler.current fun slot =>
      { slot with state := .blocked }).slots := by
    refine h.kept.change (fun _ => rfl) fun other hother => ?_
    obtain rfl := Option.some.inj (hslot.symm.trans hother)
    refine ⟨fun _ hstate => ?_, fun _ => hempty, nofun⟩
    rw [hstate] at hrun
    cases hrun
  have hbusy' : Busy
      (m.scheduler.change m.scheduler.current fun slot => { slot with state := .blocked })
      (fun slot => slot.state = .blocked ∧ slot.kernelStackTop = stack) :=
    hbusy.change fun _ _ h => ⟨rfl, h.2.1⟩
  obtain ⟨b, hb, hcan⟩ := Scheduler.nextAfter_some hnext
  refine @switchTo_invariant
    { m with scheduler := m.scheduler.change m.scheduler.current fun slot =>
    { slot with state := .blocked } } _ _ _ hkept h.switches hbusy' ?_ b
    ((Scheduler.change_of_ne hne).trans hb) hcan hne (.inl (hwaits.change rfl rfl rfl))
  rintro other ⟨hstate, htop⟩
  rw [Fits, hstate, htop]
  exact ⟨call, running, hcall, rfl⟩

lemma Serving.runningSlot (h : Serving m stack) :
    ∃ slot, m.scheduler.slots m.scheduler.current = some slot ∧ slot.state = .runnable
      ∧ m.scheduler.runningSlot = some slot := by
  obtain ⟨hbusy, -, -⟩ := h.placed
  obtain ⟨slot, hslot, hstate, -⟩ := hbusy.here
  refine ⟨slot, hslot, hstate, ?_⟩
  rw [Scheduler.runningSlot, hbusy.handedOver, if_pos rfl, hslot, Option.filter_some, hstate]
  rfl

lemma serveYield_invariant (h : Serving m stack) (hcall : Call.ofNumber call.rax = some .yield) :
    Invariant (m.serveYield stack call) := by
  obtain ⟨hbusy, hswitching, hwaits⟩ := h.placed
  refine switchToNext_invariant h.kept h.switches hbusy hswitching ?_ ?_ (.inl hwaits)
    (quiet_refused.invariant h)
  · rintro slot ⟨hstate, -⟩
    rw [hstate]
    rfl
  · rintro slot ⟨hstate, htop, -⟩
    rw [Fits, hstate, htop]
    exact .inr (.inl ⟨call, hcall, rfl⟩)

lemma Serving.endCurrent (h : Serving m stack) : Invariant (m.endCurrent stack) :=
  endCurrent_invariant h.kept h.switches h.placed.1 h.placed.2.1 h.placed.2.2

lemma recvTurn_invariant (h : Serving m stack) (hcall : Call.ofNumber call.rax = some .recv) :
    Invariant (m.recvTurn stack call running) := by
  rcases @recvTurn_cases m stack call running with ⟨rax, -, hquiet⟩ | htook | hwaited
  · exact hquiet.invariant h
  · exact htook.invariant h
  · exact hwaited.invariant h hcall

/-- A syscall keeps the invariant. -/
lemma handle_invariant (h : Serving m stack) : Invariant (m.handle stack call medium) := by
  rw [handle]
  cases m.scheduler.running with
  | none => exact quiet_refused.invariant h
  | some running =>
      dsimp only
      rcases @serve_cases m stack call running medium with ⟨rax, hquiet, -⟩ | ⟨-, hsent⟩
        | ⟨hcall, htook | hwaited⟩ | hexit | ⟨hcall, hyield⟩
      · exact hquiet.invariant h
      · exact hsent.invariant h
      · exact htook.invariant h
      · exact hwaited.invariant h hcall
      · rw [hexit]
        exact h.endCurrent
      · rw [hyield]
        exact serveYield_invariant h hcall

end Serving

/-! ### Every step -/

/-- A process that has not run begins. -/
lemma runFirst_invariant {slot : Slot} (h : Invariant m)
    (hbusy : Busy m.scheduler P) (hslot : m.scheduler.slots m.scheduler.current = some slot)
    (hstate : slot.state = .new) (hwaits : m.KernelWaits) :
    Invariant (m.runFirst slot.kernelStackTop) := by
  rw [runFirst]
  simp only [hslot]
  refine ⟨?_, h.switches, ⟨hbusy.handedOver, ⟨_, Scheduler.change_self hslot, rfl, rfl, rfl⟩, ?_⟩,
    rfl, hwaits.change (f := fun slot => { slot with state := .runnable }) rfl rfl rfl⟩
  · refine h.kept.change (fun _ => rfl) fun other hother => ⟨fun _ hdead => ?_, nofun, nofun⟩
    obtain rfl := Option.some.inj (hslot.symm.trans hother)
    rw [hdead] at hstate
    cases hstate
  · intro i other hi hother
    exact hbusy.parked hi ((Scheduler.change_of_ne hi).symm.trans hother)

/-- A stack that is taken up goes on as its slot. -/
lemma resume_invariant {saved : Saved} (h : Invariant m)
    (hcontrol : m.control = .resuming saved) :
    Invariant (m.resume saved) := by
  have hplaced := h.placed
  rw [hcontrol] at hplaced
  obtain ⟨hbusy, hwaits⟩ := hplaced
  obtain ⟨slot, hslot, hrun, hfits, hcr3⟩ := hbusy.here
  -- the slot is runnable, so what goes on is a handler it left
  have hserving : slot.state = .runnable → m.KernelWaits →
      Serving { m with scheduler := { m.scheduler with switching := false } }
        slot.kernelStackTop :=
    fun hstate hwaits => ⟨h.kept, h.switches,
      ⟨hbusy.handedOver, ⟨slot, hslot, hstate, rfl, hcr3⟩, hbusy.parked⟩, rfl, hwaits⟩
  rw [Fits] at hfits
  cases hstate : slot.state with
  | new =>
      rw [hstate] at hfits
      rcases hfits with rfl | rfl | rfl
      · exact runFirst_invariant h hbusy hslot hstate (hwaits.resolve_right id)
      · exact ⟨h.kept, h.switches,
          ⟨hbusy.handedOver, ⟨slot, hslot, hstate, rfl, rfl⟩, hbusy.parked⟩, rfl,
          rfl⟩
      · exact ⟨h.kept, h.switches,
          ⟨hbusy.handedOver, ⟨slot, hslot, hstate, rfl, hcr3⟩, hbusy.parked⟩, rfl,
          hwaits.resolve_right id⟩
  | runnable =>
      rw [hstate] at hfits
      rcases hfits with rfl | ⟨frame, -, rfl⟩ | ⟨frame, running, hcall, rfl⟩
      · have hserved := hserving hstate (hwaits.resolve_right id)
        exact ⟨hserved.kept, hserved.switches, hserved.placed⟩
      · exact quiet_refused.invariant (hserving hstate (hwaits.resolve_right id))
      · exact recvTurn_invariant (hserving hstate (hwaits.resolve_right id)) hcall
  | blocked =>
      rw [hstate] at hrun
      cases hrun
  | dead =>
      rw [hstate] at hrun
      cases hrun

lemma handOver_invariant {i : Fin maxProcesses} {rsp : Saved} {cr3 : ℕ} (h : Invariant m)
    (hcontrol : m.control = .handing i rsp cr3) : Invariant (m.handOver i rsp cr3) := by
  have hplaced := h.placed
  rw [hcontrol] at hplaced
  obtain ⟨hbusy, hswitching, rfl⟩ := hplaced
  obtain ⟨slot, hslot, hstate, rfl, rfl⟩ := hbusy.here
  have hrun : slot.state.canRun = true := by rw [hstate]; rfl
  refine ⟨h.kept, h.switches.append ?_,
    ⟨hbusy.handedOver, ⟨slot, hslot, hstate, rfl, rfl⟩, hbusy.parked⟩, hswitching, .inl rfl⟩
  intro j state hmem
  obtain ⟨rfl, rfl⟩ := Note.switch.inj (List.mem_singleton.mp hmem)
  rw [Scheduler.state, hslot]
  exact ⟨slot.state, rfl, hrun⟩

lemma tick_invariant (h : Invariant m) (htick : m.tick = some m') : Invariant m' := by
  rw [tick] at htick
  have hplaced := h.placed
  split at htick
  -- the kernel's own flow, before anything was handed over
  next hcontrol =>
    rw [hcontrol] at hplaced
    obtain rfl := Option.some.inj htick
    rw [Scheduler.shouldSwitchOnTick, hplaced.1]
    exact h
  -- `run_until_empty` between the handing over and its switch: the slot keeps the kernel's flow
  next i rsp cr3 hcontrol =>
    rw [hcontrol] at hplaced
    obtain ⟨hbusy, hswitching, rfl⟩ := hplaced
    obtain rfl := Option.some.inj htick
    rw [onTick, Scheduler.shouldSwitchOnTick, hbusy.handedOver, hswitching,
      if_pos (show (true && !false) = true from rfl)]
    refine switchToNext_invariant h.kept h.switches hbusy hswitching ?_ ?_
      (.inr ⟨trivial, fun slot hslot => hslot.1⟩) h
    · rintro slot ⟨hstate, -⟩
      rw [hstate]
      rfl
    · rintro slot ⟨hstate, rfl, rfl⟩
      rw [Fits, hstate]
      exact .inr (.inl rfl)
  next stack hcontrol =>
    rw [hcontrol] at hplaced
    obtain ⟨hbusy, hswitching, hwaits⟩ := hplaced
    obtain rfl := Option.some.inj htick
    rw [onTick, Scheduler.shouldSwitchOnTick, hbusy.handedOver, hswitching,
      if_pos (show (true && !false) = true from rfl)]
    refine switchToNext_invariant h.kept h.switches hbusy hswitching ?_ ?_ (.inl hwaits) h
    · rintro slot ⟨hstate, -⟩
      rw [hstate]
      rfl
    · rintro slot ⟨hstate, rfl, -⟩
      rw [Fits, hstate]
      exact .inr (.inr rfl)
  next stack hcontrol =>
    rw [hcontrol] at hplaced
    obtain ⟨hbusy, hswitching, hwaits⟩ := hplaced
    obtain rfl := Option.some.inj htick
    rw [onTick, Scheduler.shouldSwitchOnTick, hbusy.handedOver, hswitching,
      if_pos (show (true && !false) = true from rfl)]
    refine switchToNext_invariant h.kept h.switches hbusy hswitching ?_ ?_ (.inl hwaits) h
    · rintro slot ⟨hstate, -⟩
      rw [hstate]
      rfl
    · rintro slot ⟨hstate, rfl, -⟩
      rw [Fits, hstate]
      exact .inl rfl
  · cases htick

lemma runUntilEmpty_invariant {kernelCr3 : ℕ} (h : Invariant m) (hcontrol : m.control = .kernel) :
    Invariant (m.runUntilEmpty kernelCr3) := by
  have hplaced := h.placed
  rw [hcontrol] at hplaced
  obtain ⟨-, hswitching, hslots⟩ := hplaced
  rw [runUntilEmpty]
  cases hnext : m.scheduler.nextAfter (Fin.last 15) with
  | none => exact h
  | some first =>
      obtain ⟨slot, hslot, hrun⟩ := Scheduler.nextAfter_some hnext
      have hnew : slot.state = .new ∧ slot.kernelRsp = .first slot.kernelStackTop := by
        refine (hslots first slot hslot).resolve_right fun hdead => ?_
        rw [hdead] at hrun
        cases hrun
      simp only [hslot, prepareCpuFor]
      refine ⟨h.kept, h.switches, ⟨rfl, ⟨slot, hslot, hnew.1, hnew.2, rfl⟩, fun hi hother => ?_⟩,
        hswitching, rfl⟩
      rw [Fits]
      rcases hslots _ _ hother with ⟨hstate, hrsp⟩ | hstate
      · rw [hstate]
        exact .inl hrsp
      · rw [hstate]
        trivial

/-- A process that is given up. -/
def gone (slot : Slot) : Slot :=
  { slot with state := .dead, process := slot.process.closeEverything }

/-- Giving up on whoever waits changes the slots gone through that hold a process that waits. -/
lemma giveUp_slots (s : Scheduler) (slots : List (Fin maxProcesses)) (i : Fin maxProcesses) :
    (giveUp s slots).slots i
      = (s.slots i).map fun slot => if i ∈ slots ∧ slot.state = .blocked then gone slot
        else slot := by
  induction slots generalizing s with
  | nil => simp [giveUp]
  | cons first rest ih =>
      have hstep : giveUp s (first :: rest)
          = giveUp (if s.state first = some .blocked then s.kill first else s) rest := rfl
      rw [hstep, ih]
      cases hslot : s.slots i with
      | none =>
          have hnone : (if s.state first = some .blocked then s.kill first else s).slots i
              = none := by
            rw [Option.eq_none_iff_forall_ne_some]
            intro slot hafter
            split_ifs at hafter
            · obtain ⟨old, hold, -⟩ := Scheduler.change_some hafter
              exact nomatch hold.symm.trans hslot
            · exact nomatch hafter.symm.trans hslot
          rw [hnone]
          rfl
      | some slot =>
          by_cases hi : i = first
          · subst hi
            by_cases hblocked : slot.state = .blocked
            · have hstate : s.state i = some .blocked := by
                rw [Scheduler.state, hslot, Option.map_some, hblocked]
              rw [if_pos hstate, Scheduler.kill, Scheduler.change_self hslot]
              simp [hblocked, gone]
            · have hstate : s.state i ≠ some .blocked := by
                rw [Scheduler.state, hslot, Option.map_some]
                exact fun h => hblocked (Option.some.inj h)
              rw [if_neg hstate, hslot]
              simp [hblocked]
          · have hsame : (if s.state first = some .blocked then s.kill first else s).slots i
                = some slot := by
              split_ifs
              · rw [Scheduler.kill, Scheduler.change_of_ne hi, hslot]
              · exact hslot
            rw [hsame]
            simp [hi]

lemma giveUp_flags (s : Scheduler) (slots : List (Fin maxProcesses)) :
    (giveUp s slots).handedOver = s.handedOver ∧ (giveUp s slots).switching = s.switching := by
  induction slots generalizing s with
  | nil => exact ⟨rfl, rfl⟩
  | cons first rest ih =>
      have hrest := ih (if s.state first = some .blocked then s.kill first else s)
      refine ⟨hrest.1.trans ?_, hrest.2.trans ?_⟩
      · split_ifs <;> rfl
      · split_ifs <;> rfl

/-- Whoever waited when the kernel had the CPU back was given up. -/
lemma returned_slots {i : Fin maxProcesses} {slot : Slot} :
    m.returned.scheduler.slots i = some slot
      ↔ ∃ old, m.scheduler.slots i = some old
          ∧ (if old.state = .blocked then gone old else old) = slot := by
  have hslots := giveUp_slots { m.scheduler with handedOver := false }
    (List.finRange maxProcesses) i
  simp only [List.mem_finRange, true_and] at hslots
  rw [returned, hslots, Option.map_eq_some_iff]

/-- What is left once nobody can run and whoever waited was given up. -/
lemma returned_dead (h : Invariant m) (hcontrol : m.control = .returning) {i : Fin maxProcesses}
    {slot : Slot} (hslot : m.returned.scheduler.slots i = some slot) : slot.state = .dead := by
  have hplaced := h.placed
  rw [hcontrol] at hplaced
  obtain ⟨old, hold, rfl⟩ := returned_slots.mp hslot
  have hrun := hplaced.2 i old hold
  split_ifs with hblocked
  · rfl
  · cases hcase : old.state with
    | new => rw [hcase] at hrun; cases hrun
    | runnable => rw [hcase] at hrun; cases hrun
    | blocked => exact absurd hcase hblocked
    | dead => rfl

lemma returned_invariant (h : Invariant m) (hcontrol : m.control = .returning) :
    Invariant m.returned := by
  have hflags := giveUp_flags { m.scheduler with handedOver := false }
    (List.finRange maxProcesses)
  have hplaced := h.placed
  rw [hcontrol] at hplaced
  refine ⟨⟨fun ha _ halive => ?_, fun hslot hstate => ?_, fun hslot hstate => ?_⟩, h.switches,
    hflags.1, hflags.2.trans hplaced.1, fun i slot hslot => .inr (returned_dead h hcontrol hslot)⟩
  · exact absurd (returned_dead h hcontrol ha) halive
  · rw [returned_dead h hcontrol hslot] at hstate
    cases hstate
  · obtain ⟨old, hold, rfl⟩ := returned_slots.mp hslot
    split_ifs at hstate ⊢
    · rfl
    · exact h.kept.dead hold hstate

/-- A process takes a slot that was empty. -/
lemma add_cases (process : Process) :
    (m.add process).2 = m ∨ ∃ free, m.scheduler.slots free = none ∧ (m.add process).2 = { m with
      scheduler := { m.scheduler with
        slots := Function.update m.scheduler.slots free (some ⟨process, .new,
          .first process.kernelStack.top, process.kernelStack.top, Mailbox.new⟩) } } := by
  have hadd : (m.add process).2 = { m with scheduler := (m.scheduler.add ⟨process, .new,
      .first process.kernelStack.top, process.kernelStack.top, Mailbox.new⟩).2 } := rfl
  rw [hadd, Scheduler.add]
  split
  · exact .inl rfl
  next free hfree =>
    have hnone := List.find?_some hfree
    exact .inr ⟨free, Option.isNone_iff_eq_none.mp hnone, rfl⟩

lemma add_invariant {process : Process} (h : Invariant m) (hcontrol : m.control = .kernel)
    (hfresh : m.Fresh process) : Invariant (m.add process).2 := by
  have hplaced := h.placed
  rw [hcontrol] at hplaced
  rcases m.add_cases process with hsame | ⟨free, hfree, hadd⟩
  · rw [hsame]
    exact h
  · rw [hadd]
    -- a slot is the new one, or one that was there
    have hslots : ∀ {i slot}, Function.update m.scheduler.slots free (some ⟨process, .new,
        .first process.kernelStack.top, process.kernelStack.top, Mailbox.new⟩) i = some slot →
        i = free ∧ slot = ⟨process, .new, .first process.kernelStack.top, process.kernelStack.top,
          Mailbox.new⟩ ∨ i ≠ free ∧ m.scheduler.slots i = some slot := by
      intro i slot hslot
      by_cases hi : i = free
      · rw [hi, Function.update_self] at hslot
        exact .inl ⟨hi, (Option.some.inj hslot).symm⟩
      · rw [Function.update_of_ne hi] at hslot
        exact .inr ⟨hi, hslot⟩
    refine ⟨⟨fun {i j a b} ha hb halive hblive hsame => ?_, fun hslot hstate => ?_,
      fun hslot hstate => ?_⟩, h.switches, ?_⟩
    · rcases hslots ha with ⟨rfl, rfl⟩ | ⟨-, hold⟩
      · rcases hslots hb with ⟨rfl, rfl⟩ | ⟨-, hold'⟩
        · rfl
        · exact absurd hsame.symm (hfresh.1 j b hold' hblive)
      · rcases hslots hb with ⟨rfl, rfl⟩ | ⟨-, hold'⟩
        · exact absurd hsame (hfresh.1 i a hold halive)
        · exact h.kept.ownStack hold hold' halive hblive hsame
    · rcases hslots hslot with ⟨-, rfl⟩ | ⟨-, hslot⟩
      · cases hstate
      · exact h.kept.blocked hslot hstate
    · rcases hslots hslot with ⟨-, rfl⟩ | ⟨-, hslot⟩
      · cases hstate
      · exact h.kept.dead hslot hstate
    · rw [hcontrol]
      refine ⟨hplaced.1, hplaced.2.1, fun i slot hslot => ?_⟩
      rcases hslots hslot with ⟨-, rfl⟩ | ⟨-, hslot⟩
      · exact .inl ⟨rfl, rfl⟩
      · exact hplaced.2.2 i slot hslot

/-- What is not the scheduler's does not matter to it. -/
lemma Invariant.congr (h : Invariant m) (hscheduler : m'.scheduler = m.scheduler)
    (hcontrol : m'.control = m.control) (hkernel : m'.kernelRsp = m.kernelRsp)
    (hcr3 : m'.cr3 = m.cr3) (htrace : m'.trace = m.trace) : Invariant m' := by
  refine ⟨hscheduler ▸ h.kept, htrace ▸ h.switches, ?_⟩
  have hplaced := h.placed
  rw [hcontrol]
  cases hcase : m.control with
  | stopped =>
      rw [hcase] at hplaced
      exact hplaced
  | kernel | handing | starting | ring3 | resuming | returning =>
      rw [hcase] at hplaced
      simpa only [Placed, KernelWaits, hscheduler, hkernel, hcr3] using hplaced

/-- **Every step keeps the invariant.** -/
lemma step_invariant {event : Event} (h : Invariant m) (hstep : m.step event = some m') :
    Invariant m' := by
  cases event with
  | add process =>
      rw [step] at hstep
      split at hstep
      next hcontrol =>
        split_ifs at hstep with hfresh
        obtain rfl := Option.some.inj hstep
        exact add_invariant h hcontrol hfresh
      · cases hstep
  | runUntilEmpty kernelCr3 =>
      rw [step] at hstep
      split at hstep
      next hcontrol =>
        obtain rfl := Option.some.inj hstep
        exact runUntilEmpty_invariant h hcontrol
      · cases hstep
  | handOver =>
      rw [step] at hstep
      split at hstep
      next hcontrol =>
        obtain rfl := Option.some.inj hstep
        exact handOver_invariant h hcontrol
      · cases hstep
  | resume =>
      rw [step] at hstep
      split at hstep
      next hcontrol =>
        obtain rfl := Option.some.inj hstep
        exact resume_invariant h hcontrol
      -- the first run of a prepared slot: its kernel stack is still as it was prepared
      next stack hcontrol =>
        have hplaced := h.placed
        rw [hcontrol] at hplaced
        obtain ⟨hbusy, -, hwaits⟩ := hplaced
        obtain ⟨slot, hslot, hstate, rfl, -⟩ := hbusy.here
        obtain rfl := Option.some.inj hstep
        exact runFirst_invariant h hbusy hslot hstate hwaits
      · cases hstep
  | returned =>
      rw [step] at hstep
      split at hstep
      next hcontrol =>
        obtain rfl := Option.some.inj hstep
        exact returned_invariant h hcontrol
      · cases hstep
  | tick => exact tick_invariant h hstep
  | key key =>
      obtain rfl := Option.some.inj hstep
      exact h.congr rfl rfl rfl rfl rfl
  | write name contents medium =>
      rw [step] at hstep
      split at hstep
      · obtain rfl := Option.some.inj hstep
        exact h.congr rfl rfl rfl rfl rfl
      · cases hstep
  | compute memory =>
      rw [step] at hstep
      split at hstep
      · obtain rfl := Option.some.inj hstep
        exact h.congr rfl rfl rfl rfl rfl
      · cases hstep
  | syscall call medium =>
      rw [step] at hstep
      split at hstep
      next hcontrol =>
        obtain rfl := Option.some.inj hstep
        exact handle_invariant (h.serving hcontrol)
      · cases hstep
  | fault =>
      rw [step] at hstep
      split at hstep
      next stack hcontrol =>
        obtain rfl := Option.some.inj hstep
        have hserving := h.serving hcontrol
        obtain ⟨slot, -, -, hrunning⟩ := hserving.runningSlot
        rw [onFault, Scheduler.running, hrunning]
        exact hserving.endCurrent
      · cases hstep

lemma boot_invariant (memory : ℕ → ByteMemory) (disk : Option Mounted) (console : Option Console)
    (cr3 : ℕ) : Invariant (boot memory disk console cr3) :=
  ⟨⟨nofun, nofun, nofun⟩, nofun, rfl, rfl, nofun⟩

lemma run_invariant {events : List Event} (h : Invariant m) (hrun : m.run events = some m') :
    Invariant m' :=
  run_keeps (fun _ _ _ h hstep => step_invariant h hstep) h hrun

end Machine

end Harlan.Turns
