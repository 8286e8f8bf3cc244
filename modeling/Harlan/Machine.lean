import Mathlib.Tactic
import Harlan.Syscall

/-!
The machine, step by step: what the kernel's own flow, the processes and the devices may do next.

A syscall, the timer handler and a switch run with interrupts off, so each is one step up to where
it comes back or leaves its stack. Between steps ring 3 may do anything with its memory, ask for
anything, fault, or be interrupted. The kernel's own flow has interrupts on, also in
`run_until_empty` after it has set `handed_over` and before it has switched, and leaves them on
for `run_first`, on the stack it switches to.

* `Event`, `step`: what may come next, and the machine after it.
* `run`: a run from a machine.
* `boot`: the machine before the first process.
-/

namespace Harlan.Turns

open Fs

/-- What happens to the machine from outside, or what its running program does. -/
inductive Event where
  /-- The kernel adds a process. -/
  | add (process : Process)
  | runUntilEmpty (kernelCr3 : ℕ)
  /-- `run_until_empty` makes its switch. -/
  | handOver
  /-- The stack that was taken up goes on. -/
  | resume
  /-- `run_until_empty` goes on after its switch. -/
  | returned
  | tick
  /-- A key is pressed. -/
  | key (key : ConsoleKey)
  /-- The kernel's own flow writes a file. -/
  | write (name contents : List UInt8) (medium : Medium)
  /-- Process code changes its memory. -/
  | compute (memory : ByteMemory)
  | syscall (call : SyscallFrame) (medium : Medium)
  | fault

namespace Machine

/-- What `add` asks of a process: `spawn` built it, with a kernel stack nothing else uses. The
stack of a process that is gone may be used again. -/
def Fresh (m : Machine) (process : Process) : Prop :=
  (∀ i, ∀ slot ∈ m.scheduler.slots i, slot.state ≠ .dead →
      slot.kernelStackTop ≠ process.kernelStack.top)
    ∧ process.openFiles = OpenFiles.new

instance (m : Machine) (process : Process) : Decidable (m.Fresh process) := instDecidableAnd

/-- What a stack that was taken up goes on with. -/
def resume (m : Machine) : Saved → Machine
  | .first stack => m.runFirst stack
  | .tick stack switched =>
      { m with
        scheduler := { m.scheduler with switching := !switched && m.scheduler.switching }
        control := .ring3 stack }
  | .yield stack switched frame =>
      { m with
        scheduler := { m.scheduler with switching := !switched && m.scheduler.switching } }.reply
          stack frame 0
  | .wait stack frame running =>
      { m with scheduler := { m.scheduler with switching := false } }.recvTurn stack frame running
  | .ended _ => m.stop
  | .starting stack switched =>
      { m with
        scheduler := { m.scheduler with switching := !switched && m.scheduler.switching }
        control := .starting stack }
  | .handing slot rsp cr3 =>
      { m with
        scheduler := { m.scheduler with switching := false }
        control := .handing slot rsp cr3 }

/-- The timer interrupts what the CPU is doing, where interrupts are on. -/
def tick (m : Machine) : Option Machine :=
  match m.control with
  -- a switch here would save the kernel's own stack pointer in a slot and lose it
  | .kernel => some (if m.scheduler.shouldSwitchOnTick then m.stop else m)
  | .handing slot rsp cr3 =>
      some (m.onTick (.handing slot rsp cr3) (.handing slot rsp cr3) id)
  | .starting stack => some (m.onTick (.starting stack true) (.starting stack false) id)
  | .ring3 stack => some (m.onTick (.tick stack true) (.tick stack false) id)
  | _ => none

/-- What the kernel does with a fault a process caused. -/
def onFault (m : Machine) (stack : ℕ) : Machine :=
  match m.scheduler.running with
  | none => m.stop
  | some _ => m.endCurrent stack

/-- A key goes to the console's queue. Without a console it is lost. -/
def press (m : Machine) (key : ConsoleKey) : Machine :=
  { m with console := m.console.map fun console => { console with
    keys := console.keys ++ [key] } }

/-- One step, if it can be taken. -/
def step (m : Machine) : Event → Option Machine
  | .add process =>
      match m.control with
      | .kernel => if m.Fresh process then some (m.add process).2 else none
      | _ => none
  | .runUntilEmpty kernelCr3 =>
      match m.control with
      | .kernel => some (m.runUntilEmpty kernelCr3)
      | _ => none
  | .handOver =>
      match m.control with
      | .handing slot rsp cr3 => some (m.handOver slot rsp cr3)
      | _ => none
  | .resume =>
      match m.control with
      | .resuming saved => some (m.resume saved)
      | .starting stack => some (m.runFirst stack)
      | _ => none
  | .returned =>
      match m.control with
      | .returning => some m.returned
      | _ => none
  | .tick => m.tick
  | .key key => some (m.press key)
  | .write name contents medium =>
      match m.control with
      | .kernel =>
          some { m with
            disk := (Fs.writeFile m.disk medium m.scheduler.anyoneHasOpen name contents).2 }
      | _ => none
  | .compute memory =>
      match m.control with
      | .ring3 _ => some { m with memory := Function.update m.memory m.cr3 memory }
      | _ => none
  | .syscall call medium =>
      match m.control with
      | .ring3 stack => some (m.handle stack call medium)
      | _ => none
  | .fault =>
      match m.control with
      | .ring3 stack => some (m.onFault stack)
      | _ => none

/-- A run, if all its steps can be taken. -/
def run (m : Machine) (events : List Event) : Option Machine := events.foldlM step m

/-- The machine before the first process. -/
def boot (memory : ℕ → ByteMemory) (disk : Option Mounted) (console : Option Console)
    (cr3 : ℕ) : Machine :=
  ⟨Scheduler.new, .kernel, false, 0, cr3, 0, memory, disk, console, []⟩

/-- What every step keeps, every run keeps. -/
lemma run_keeps {P : Machine → Prop} (hstep : ∀ m event m', P m → m.step event = some m' → P m')
    {m m' : Machine} {events : List Event} (h : P m) (hrun : m.run events = some m') : P m' := by
  induction events generalizing m with
  | nil =>
      obtain rfl := Option.some.inj hrun
      exact h
  | cons event rest ih =>
      rw [run, List.foldlM_cons, Option.bind_eq_bind, Option.bind_eq_some_iff] at hrun
      obtain ⟨next, hnext, hrest⟩ := hrun
      exact ih (hstep m event next h hnext) hrest

end Machine

end Harlan.Turns
