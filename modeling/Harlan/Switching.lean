import Mathlib.Tactic
import Harlan.Lib.Words
import Harlan.FileSystem
import Harlan.Scheduler

/-!
One stack left and another taken up (`kernel/src/scheduler.rs`, the part that switches).

A `Machine` is the kernel with its one CPU. `Control` says what the CPU is doing, so who
executes is told apart from who the scheduler thinks does: ring 3 code runs over the kernel
stack its process was given, whatever `current` says. A switch ends where the other stack is
taken up, and what that stack goes on with is a step of its own.

A function that may come back at once takes what its caller does then, `back`.

* `switchTo`, `switchToNext`, `endCurrent`, `leaveForTheKernel`, `onTick`: the ways to switch.
* `runUntilEmpty`, `handOver`, `returned`: `run_until_empty`, cut where it switches.
* `answer`: a call comes back, and the machine notes what the process then sees.
-/

namespace Harlan.Turns

/-- A key the console gives. -/
inductive ConsoleKey where
  | enter
  | backspace
  | char (c : Char)
  | unknown
deriving DecidableEq

/-- The console: what was written to it, and the keys that wait. -/
structure Console where
  written : List UInt8
  keys : List ConsoleKey

/-- What the CPU is doing. -/
inductive Control where
  /-- The kernel's own flow. -/
  | kernel
  /-- `run_until_empty`, about to switch to `rsp`, with `handed_over` already set. -/
  | handing (slot : Fin maxProcesses) (rsp : Saved) (cr3 : ℕ)
  /-- Process code, over the kernel stack with that top. -/
  | ring3 (stack : ℕ)
  /-- `run_first`, taken up from `run_until_empty`, with interrupts on as they were there. -/
  | starting (stack : ℕ)
  /-- A stack that was just taken up. -/
  | resuming (saved : Saved)
  /-- `run_until_empty`, whose switch came back. -/
  | returning
  /-- The kernel panicked, or lost its stack. -/
  | stopped

/-- What happened, for whoever watches. -/
inductive Note where
  /-- A switch to a slot, in the state it was in. -/
  | switch (slot : Fin maxProcesses) (state : Option State)
  /-- The kernel reads bytes of the process it serves. -/
  | reads (ptr len : ℕ)
  /-- The kernel writes bytes of the process it serves. -/
  | writes (ptr len : ℕ)
  /-- A call comes back: whose it was, what was asked, the registers, and the memory of the
  process. -/
  | answer (who : Option (Fin maxProcesses)) (call frame : SyscallFrame) (memory : ByteMemory)

/-- The kernel, its processes and its one CPU. -/
structure Machine where
  scheduler : Scheduler
  control : Control
  /-- Whether `KERNEL_RSP` is a stack `run_until_empty` waits on. -/
  kernelRsp : Bool
  kernelCr3 : ℕ
  /-- The page tables in use, by their root. -/
  cr3 : ℕ
  /-- Where the next entry from ring 3 puts its frame. -/
  cpuStack : ℕ
  /-- What ring 3 sees through each set of tables. -/
  memory : ℕ → ByteMemory
  disk : Option Fs.Mounted
  console : Option Console
  trace : List Note

namespace Machine

/-- The machine with one note more. -/
def note (m : Machine) (what : Note) : Machine := { m with trace := m.trace ++ [what] }

/-- Nothing runs any more. -/
def stop (m : Machine) : Machine := { m with control := .stopped }

/-- A call comes back to ring 3. -/
def answer (m : Machine) (stack : ℕ) (call frame : SyscallFrame) : Machine :=
  { m with
    control := .ring3 stack
    trace := m.trace ++ [.answer (m.scheduler.owner stack) call frame (m.memory m.cr3)] }

/-- Tells the CPU where the process in a slot enters the kernel. -/
def prepareCpuFor (m : Machine) (i : Fin maxProcesses) : Machine :=
  match m.scheduler.slots i with
  | none => m
  | some slot => { m with cpuStack := slot.kernelStackTop }

/-- The switch itself, from the process in `source` to the one in `target`. `here` is what the
stack that is left goes on with. -/
def switchTo (m : Machine) (source target : Fin maxProcesses) (here : Saved) : Machine :=
  let m := { m with scheduler := { m.scheduler with switching := true, current := target } }
  match m.scheduler.slots target with
  | none => m.stop
  | some next =>
      let m := m.prepareCpuFor target
      match m.scheduler.slots source with
      | none => m.stop
      | some _ =>
          { m with
            scheduler := m.scheduler.change source fun slot => { slot with kernelRsp := here }
            cr3 := next.process.space.root
            control := .resuming next.kernelRsp
            trace := m.trace ++ [.switch target (some next.state)] }

/-- Hands the CPU back to the kernel's own flow. -/
def leaveForTheKernel (m : Machine) (here : Saved) (back : Machine → Machine) : Machine :=
  match m.scheduler.slots m.scheduler.current with
  | none => back m
  | some _ =>
      { m with
        scheduler := m.scheduler.change m.scheduler.current fun slot =>
          { slot with kernelRsp := here }
        cr3 := m.kernelCr3
        control := if m.kernelRsp then .returning else .stopped }

/-- Gives the CPU to whoever is next. `switched` and `left` are what this stack goes on with when
its turn comes round again, by way of either switch. -/
def switchToNext (m : Machine) (switched left : Saved) (back : Machine → Machine) : Machine :=
  if m.scheduler.switching then back m
  else
    match m.scheduler.nextAfter m.scheduler.current with
    | none => m.leaveForTheKernel left back
    | some next =>
        if next = m.scheduler.current then back m
        else m.switchTo m.scheduler.current next switched

/-- The end of the running process. Nothing comes back to it. -/
def endCurrent (m : Machine) (stack : ℕ) : Machine :=
  let current := m.scheduler.current
  let m := { m with scheduler := m.scheduler.kill current }
  match m.scheduler.nextAfter current with
  | some next =>
      if next ≠ current then m.switchTo current next (.ended stack)
      else m.leaveForTheKernel (.ended stack) stop
  | none => m.leaveForTheKernel (.ended stack) stop

/-- What the timer calls. -/
def onTick (m : Machine) (switched left : Saved) (back : Machine → Machine) : Machine :=
  if m.scheduler.shouldSwitchOnTick then m.switchToNext switched left back else back m

/-- Where a process runs for the first time: straight into ring 3. -/
def runFirst (m : Machine) (stack : ℕ) : Machine :=
  let m := { m with scheduler := { m.scheduler with switching := false } }
  match m.scheduler.slots m.scheduler.current with
  | none => m.stop
  | some slot =>
      { m with
        scheduler := m.scheduler.change m.scheduler.current fun slot =>
          { slot with state := .runnable }
        cr3 := slot.process.space.root
        control := .ring3 stack }

/-- Adds a process, prepares its stack for a first run, and answers its slot. -/
def add (m : Machine) (process : Process) : Option (Fin maxProcesses) × Machine :=
  let top := process.kernelStack.top
  let (slot, scheduler) := m.scheduler.add ⟨process, .new, .first top, top, Mailbox.new⟩
  (slot, { m with scheduler })

/-- `run_until_empty`, up to its switch. -/
def runUntilEmpty (m : Machine) (kernelCr3 : ℕ) : Machine :=
  match m.scheduler.nextAfter (Fin.last 15) with
  | none => m
  | some first =>
      let m := { m with scheduler := { m.scheduler with current := first } }
      match m.scheduler.slots first with
      | none => m.stop
      | some slot =>
          let m := { m with kernelCr3 := kernelCr3 }.prepareCpuFor first
          { m with
            scheduler := { m.scheduler with handedOver := true }
            control := .handing first slot.kernelRsp slot.process.space.root }

/-- What a stack that is taken up from `run_until_empty` goes on with. Nobody has turned
interrupts off. -/
def takenUp : Saved → Control
  | .first stack => .starting stack
  | saved => .resuming saved

/-- Its switch, off the kernel's own stack. -/
def handOver (m : Machine) (slot : Fin maxProcesses) (rsp : Saved) (cr3 : ℕ) : Machine :=
  { m with
    kernelRsp := true
    cr3
    control := takenUp rsp
    trace := m.trace ++ [.switch slot (m.scheduler.state slot)] }

/-- Gives up whoever is still waiting for a message in one of some slots. -/
def giveUp (s : Scheduler) (slots : List (Fin maxProcesses)) : Scheduler :=
  slots.foldl (fun s i => if s.state i = some .blocked then s.kill i else s) s

/-- And what is left of it once the kernel has the CPU back. -/
def returned (m : Machine) : Machine :=
  { m with
    scheduler := giveUp { m.scheduler with handedOver := false } (List.finRange maxProcesses)
    kernelRsp := false
    control := .kernel }

/-- Where a process enters the kernel is all that is told to the CPU. -/
lemma prepareCpuFor_eq (m : Machine) (i : Fin maxProcesses) :
    ∃ top, m.prepareCpuFor i = { m with cpuStack := top } := by
  rw [prepareCpuFor]
  split
  · exact ⟨m.cpuStack, rfl⟩
  next slot hslot => exact ⟨slot.kernelStackTop, rfl⟩

end Machine

end Harlan.Turns
