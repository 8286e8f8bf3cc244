import Mathlib.Tactic
import Harlan.Ipc
import Harlan.Lib.Cyclic
import Harlan.Process

/-!
Whose turn it is (`kernel/src/scheduler.rs`): the slots, their states, and what the operations
on them do. The switching itself is in `Harlan.Machine`.

A stack that was left in the middle of a switch is what it goes on with once it is taken up
again: `kernel_rsp` is such a stack, so it is a `Saved` here, and not a number.

* `nextRunnable`: the whole of the policy.
* `nextAfter_some`, `nextAfter_none`: whoever is next can run, and there is a next while one can.
* `deliver_cases`, `takeMessage_cases`: what becomes of a message.
-/

namespace Harlan.Turns

/-! ### States -/

/-- How many processes there can be at once. -/
def maxProcesses : ℕ := 16

instance : NeZero maxProcesses := ⟨by decide⟩

/-- Where a process is between two switches. -/
inductive State where
  /-- Never run: its stack is prepared for a first switch. -/
  | new
  | runnable
  /-- Waiting for a message. -/
  | blocked
  /-- Left through `exit` or a fault. -/
  | dead
deriving DecidableEq

namespace State

/-- Whether a process in this state can be handed the CPU. -/
def canRun : State → Bool
  | new | runnable => true
  | blocked | dead => false

/-- What waiting for a message turns this state into. -/
def waiting (state : State) : Option State := if state.canRun then some blocked else none

/-- What a message arriving turns it into. -/
def woken (state : State) : Option State := if state = blocked then some runnable else none

end State

/-- Who runs after `start`, skipping whoever cannot run and wrapping round. -/
def nextRunnable {n : ℕ} [NeZero n] (states : Fin n → Option State) (start : Fin n) :
    Option (Fin n) :=
  ((List.range' 1 n).map fun step => Fin.ofNat n (start + step)).find? fun i =>
    (states i).any State.canRun

/-! ### Slots -/

/-- The registers of a call that its handler reads or writes. -/
structure SyscallFrame where
  rax : UInt64
  rdi : UInt64
  rsi : UInt64
  rdx : UInt64
  r10 : UInt64
deriving DecidableEq

/-- What the syscall handler knows about the process it is serving. -/
structure Running where
  slot : Fin maxProcesses
  ranges : List PhysRange
  /-- The ones it may write. -/
  writable : List PhysRange

namespace Running

/-- Whether `[ptr, ptr + len)` is memory this process owns. -/
def owns (running : Running) (ptr len : ℕ) : Bool := ownedBy running.ranges ptr len

/-- Whether `[ptr, ptr + len)` is memory this process owns and may write. -/
def ownsWritable (running : Running) (ptr len : ℕ) : Bool := ownedBy running.writable ptr len

end Running

/-- What a kernel stack that was left goes on with. `stack` is the top of the stack, which is
what tells one process's from another's. -/
inductive Saved where
  /-- Prepared by `add`: `run_first`. -/
  | first (stack : ℕ)
  /-- In the timer handler, over ring 3; `switched` is whether it left through `switch_to`,
  which has a flag to clear. -/
  | tick (stack : ℕ) (switched : Bool)
  /-- In the handler of `yield`, the same way. -/
  | yield (stack : ℕ) (switched : Bool) (frame : SyscallFrame)
  /-- In the handler of `recv`, waiting. -/
  | wait (stack : ℕ) (frame : SyscallFrame) (running : Running)
  /-- In `end_current`, which nothing comes back to. -/
  | ended (stack : ℕ)
  /-- In the timer handler, over `run_first`, which had not begun. -/
  | starting (stack : ℕ) (switched : Bool)
  /-- In the timer handler, over `run_until_empty`, which was about to switch to `rsp`. -/
  | handing (slot : Fin maxProcesses) (rsp : Saved) (cr3 : ℕ)

/-- What the scheduler keeps about each process. -/
structure Slot where
  process : Process
  state : State
  /-- Its kernel stack while it is not running. -/
  kernelRsp : Saved
  /-- The top of that stack. -/
  kernelStackTop : ℕ
  mailbox : Mailbox

end Turns

/-- Closes every file of a process. -/
def Process.closeEverything (process : Process) : Process :=
  { process with openFiles := OpenFiles.new }

namespace Turns

/-! ### The scheduler -/

/-- The whole scheduler: who exists, and who is running. -/
structure Scheduler where
  slots : Fin maxProcesses → Option Slot
  current : Fin maxProcesses
  /-- Set while a switch is in flight. -/
  switching : Bool
  /-- Whether a process has the CPU. -/
  handedOver : Bool

/-- Why a message is not sent. -/
inductive SendError where
  | noSuchProcess
  | busy
  | rejected (err : DeliverError)
deriving DecidableEq

namespace Scheduler

/-- A table without processes. -/
def new : Scheduler := ⟨fun _ => none, 0, false, false⟩

/-- Adds a process, and answers which slot it took. -/
def add (s : Scheduler) (slot : Slot) : Option (Fin maxProcesses) × Scheduler :=
  match (List.finRange maxProcesses).find? fun i => (s.slots i).isNone with
  | none => (none, s)
  | some free => (some free, { s with slots := Function.update s.slots free (some slot) })

/-- Changes what is in a slot, if there is something. -/
def change (s : Scheduler) (i : Fin maxProcesses) (f : Slot → Slot) : Scheduler :=
  { s with slots := Function.update s.slots i ((s.slots i).map f) }

/-- Marks one process as gone, wherever it is. -/
def kill (s : Scheduler) (i : Fin maxProcesses) : Scheduler :=
  s.change i fun slot => { slot with state := .dead, process := slot.process.closeEverything }

/-- Moves the process in a slot to wherever `transition` says, and answers whether there was one
and it went. -/
def moveTo (s : Scheduler) (i : Fin maxProcesses) (transition : State → Option State) :
    Bool × Scheduler :=
  match s.slots i with
  | none => (false, s)
  | some slot =>
      match transition slot.state with
      | none => (false, s)
      | some state => (true, s.change i fun slot => { slot with state })

/-- Stops giving turns to a process, which is waiting for a message. -/
def block (s : Scheduler) (i : Fin maxProcesses) : Bool × Scheduler := s.moveTo i State.waiting

/-- Gives it turns again, a message having arrived. -/
def unblock (s : Scheduler) (i : Fin maxProcesses) : Bool × Scheduler := s.moveTo i State.woken

/-- The state of the process in a slot. -/
def state (s : Scheduler) (i : Fin maxProcesses) : Option State := (s.slots i).map Slot.state

/-- Who runs after `start`, skipping those that cannot. -/
def nextAfter (s : Scheduler) (start : Fin maxProcesses) : Option (Fin maxProcesses) :=
  nextRunnable s.state start

/-- Whether a timer tick should hand the CPU on. -/
def shouldSwitchOnTick (s : Scheduler) : Bool := s.handedOver && !s.switching

/-- Whether any process, running or not, has `name` open. -/
def anyoneHasOpen (s : Scheduler) (name : List UInt8) : Bool :=
  (List.finRange maxProcesses).any fun i => (s.slots i).any fun slot =>
  slot.process.openFiles.holds name

/-- The slot of whoever has the CPU, if anyone has. -/
def runningSlot (s : Scheduler) : Option Slot :=
  if s.handedOver then (s.slots s.current).filter fun slot => slot.state ≠ .dead else none

/-- Who has the CPU, if anyone. -/
def running (s : Scheduler) : Option Running :=
  s.runningSlot.map fun slot => ⟨s.current, slot.process.owned, slot.process.writable⟩

/-- The slot of the live process a kernel stack belongs to. -/
def owner (s : Scheduler) (stack : ℕ) : Option (Fin maxProcesses) :=
  (List.finRange maxProcesses).find? fun i =>
    (s.slots i).any fun slot => slot.state ≠ .dead && slot.kernelStackTop == stack

/-- Runs `operation` over the open files of the process that has the CPU. -/
def withRunning {α : Type} (s : Scheduler) (operation : OpenFiles → α × OpenFiles) :
    Option α × Scheduler :=
  match s.runningSlot with
  | none => (none, s)
  | some slot =>
      (some (operation slot.process.openFiles).1,
        s.change s.current fun slot =>
          { slot with process :=
            { slot.process with openFiles := (operation slot.process.openFiles).2 } })

/-- Puts `message` in the mailbox of the process in `to'`, and gives it turns again if it was
waiting for one. -/
def deliver (s : Scheduler) (to' sender : ℕ) (message : List UInt8) :
    Except SendError Delivery × Scheduler :=
  if h : to' < maxProcesses then
    match s.slots ⟨to', h⟩ with
    | none => (.error .noSuchProcess, s)
    | some slot =>
        if slot.state = .dead then (.error .noSuchProcess, s)
        else
          match slot.mailbox.deliver sender message with
          | (.error .busy, _) => (.error .busy, s)
          | (.error err, _) => (.error (.rejected err), s)
          | (.ok delivery, mailbox) =>
              (.ok delivery, ((s.change ⟨to', h⟩ fun slot => { slot with mailbox }).unblock
                ⟨to', h⟩).2)
  else (.error .noSuchProcess, s)

/-- Takes the message waiting for whoever is running, into a buffer with `room` bytes. -/
def takeMessage (s : Scheduler) (room : ℕ) :
    Except TakeError (Delivery × List UInt8) × Scheduler :=
  match s.slots s.current with
  | none => (.error .nothing, s)
  | some slot =>
      let (taken, mailbox) := slot.mailbox.takeInto room
      (taken, s.change s.current fun slot => { slot with mailbox })

/-! ### What they do -/

variable {s : Scheduler} {i j : Fin maxProcesses} {slot : Slot} {f : Slot → Slot}

lemma change_self (h : s.slots i = some slot) : (s.change i f).slots i = some (f slot) := by
  rw [change]
  simp only [Function.update_self, h, Option.map_some]

lemma change_of_ne (h : j ≠ i) : (s.change i f).slots j = s.slots j := by
  rw [change]
  exact Function.update_of_ne h _ _

/-- What is in a slot after a change was there before it, but for the change. -/
lemma change_some (h : (s.change i f).slots j = some slot) :
    ∃ old, s.slots j = some old ∧ (j = i ∧ slot = f old ∨ j ≠ i ∧ slot = old) := by
  by_cases hj : j = i
  · subst hj
    simp only [change, Function.update_self, Option.map_eq_some_iff] at h
    obtain ⟨old, hold, rfl⟩ := h
    exact ⟨old, hold, .inl ⟨rfl, rfl⟩⟩
  · rw [change_of_ne hj] at h
    exact ⟨slot, h, .inr ⟨hj, rfl⟩⟩

/-- Whoever is next can run. -/
lemma nextAfter_some {start next : Fin maxProcesses} (h : s.nextAfter start = some next) :
    ∃ slot, s.slots next = some slot ∧ slot.state.canRun = true := by
  have hfound := List.find?_some h
  rw [state] at hfound
  cases hslot : s.slots next with
  | none => rw [hslot] at hfound; cases hfound
  | some slot =>
      rw [hslot] at hfound
      exact ⟨slot, rfl, hfound⟩

/-- Nobody is next only when nobody can run. -/
lemma nextAfter_none {start : Fin maxProcesses} (h : s.nextAfter start = none)
    (hslot : s.slots i = some slot) : slot.state.canRun = false := by
  have hnone := List.find?_eq_none.mp h i (Cyclic.mem_round start i)
  rw [state, hslot] at hnone
  exact Bool.eq_false_iff.mpr hnone

lemma moveTo_true {transition : State → Option State} {s' : Scheduler}
    (h : s.moveTo i transition = (true, s')) :
    ∃ slot state, s.slots i = some slot ∧ transition slot.state = some state
      ∧ s' = s.change i fun slot => { slot with state } := by
  rw [moveTo] at h
  split at h
  · cases h
  next slot hslot =>
    split at h
    · cases h
    next state hstate => exact ⟨slot, state, hslot, hstate, (Prod.mk.inj h).2.symm⟩

/-- A slot that was written to: the message waits there, and it can run if it was waiting. -/
def written (mailbox : Mailbox) (slot : Slot) : Slot :=
  { slot with mailbox, state := slot.state.woken.getD slot.state }

lemma unblock_written (mailbox : Mailbox) :
    ((s.change i fun slot => { slot with mailbox }).unblock i).2 = s.change i
    (written mailbox) := by
  rw [unblock, moveTo]
  cases hslot : s.slots i with
  | none =>
      have hnone : (s.change i fun slot => { slot with mailbox }).slots i = none := by
        simp [change, hslot]
      rw [hnone]
      simp [change, hslot]
  | some slot =>
      rw [change_self hslot]
      cases hstate : slot.state.woken with
      | none => simp [change, hslot, hstate, written]
      | some state => simp [change, hslot, hstate, written]

/-- What becomes of a message: it is refused and nothing changes, or it waits in a mailbox that
was empty. -/
lemma deliver_cases (to' sender : ℕ) (message : List UInt8) :
    (∃ err, s.deliver to' sender message = (.error err, s))
      ∨ ∃ (i : Fin maxProcesses) (slot : Slot) (delivery : Delivery) (mailbox : Mailbox),
          i.val = to' ∧ s.slots i = some slot ∧ slot.state ≠ .dead
            ∧ slot.mailbox.deliver sender message = (.ok delivery, mailbox)
            ∧ s.deliver to' sender message = (.ok delivery, s.change i (written mailbox)) := by
  rw [deliver]
  by_cases h : to' < maxProcesses
  · rw [dif_pos h]
    cases hslot : s.slots ⟨to', h⟩ with
    | none => exact .inl ⟨_, rfl⟩
    | some slot =>
        dsimp only
        by_cases hdead : slot.state = .dead
        · rw [if_pos hdead]
          exact .inl ⟨_, rfl⟩
        · rw [if_neg hdead]
          rcases hdeliver : slot.mailbox.deliver sender message with ⟨err | delivery, mailbox⟩
          · refine .inl ?_
            cases err <;> exact ⟨_, rfl⟩
          · refine .inr ⟨⟨to', h⟩, slot, delivery, mailbox, rfl, hslot, hdead, hdeliver, ?_⟩
            dsimp only
            rw [unblock_written]
  · rw [dif_neg h]
    exact .inl ⟨_, rfl⟩

/-- A slot that is changed into what it was. -/
lemma change_id (h : ∀ slot, s.slots i = some slot → f slot = slot) : s.change i f = s := by
  cases hslot : s.slots i with
  | none =>
      rw [change, hslot, Option.map_none, ← hslot, Function.update_eq_self]
  | some slot =>
      rw [change, hslot, Option.map_some, h slot hslot, ← hslot, Function.update_eq_self]

/-- What becomes of a message that waits: nothing changes, or it is taken. -/
lemma takeMessage_cases (room : ℕ) :
    (∃ err, s.takeMessage room = (.error err, s)
        ∧ (err = .nothing → ∀ slot, s.slots s.current = some slot → slot.mailbox.isEmpty = true))
      ∨ ∃ slot delivery bytes mailbox, s.slots s.current = some slot
          ∧ slot.mailbox.takeInto room = (.ok (delivery, bytes), mailbox)
          ∧ s.takeMessage room
              = (.ok (delivery, bytes),
                s.change s.current fun slot => { slot with mailbox }) := by
  rw [takeMessage]
  cases hslot : s.slots s.current with
  | none => exact .inl ⟨_, rfl, fun _ _ h => absurd h (by simp)⟩
  | some slot =>
      dsimp only
      rcases htake : slot.mailbox.takeInto room with ⟨err | ⟨delivery, bytes⟩, mailbox⟩
      · obtain rfl := Mailbox.takeInto_error htake
        refine .inl ⟨err, ?_, ?_⟩
        · dsimp only
          rw [change_id]
          intro slot' hslot'
          rw [hslot] at hslot'
          obtain rfl := Option.some.inj hslot'
          rfl
        · rintro rfl slot' hslot'
          obtain rfl := Option.some.inj hslot'
          exact Mailbox.takeInto_nothing htake
      · exact .inr ⟨slot, delivery, bytes, mailbox, rfl, htake, rfl⟩

/-- A message is refused for its length only when one waits that is too long. -/
lemma takeMessage_tooLong {room : ℕ} :
    (∃ len, s.takeMessage room = (.error (.tooLong len), s))
      ↔ ∃ slot delivery, s.slots s.current = some slot ∧ slot.mailbox.waiting = some delivery
          ∧ room < delivery.len := by
  constructor
  · rintro ⟨len, h⟩
    rw [takeMessage] at h
    split at h
    · cases h
    next slot hslot =>
      rw [Mailbox.takeInto] at h
      dsimp only at h
      split at h
      · cases h
      next delivery hwaiting =>
        split_ifs at h with hroom
        · exact ⟨slot, delivery, hslot, hwaiting, hroom⟩
        · cases h
  · rintro ⟨slot, delivery, hslot, hwaiting, hroom⟩
    have htake : slot.mailbox.takeInto room = (.error (.tooLong delivery.len), slot.mailbox) := by
      rw [Mailbox.takeInto, hwaiting]
      exact if_pos hroom
    refine ⟨delivery.len, ?_⟩
    rw [takeMessage, hslot]
    dsimp only
    rw [htake]
    dsimp only
    rw [change_id]
    intro other hother
    obtain rfl := Option.some.inj (hslot.symm.trans hother)
    rfl

end Scheduler

end Harlan.Turns
