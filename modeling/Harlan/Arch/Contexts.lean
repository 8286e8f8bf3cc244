import Harlan.Arch.Entries

/-!
One CPU and many kernel stacks: what the machine code of `arch/x86_64/src` keeps of each process
while the others run (`switch.rs`, `syscall.rs`, `interrupts.rs`, `user.rs`; who calls them is
`kernel/src/scheduler.rs`).

A `World` is the CPU and what each task is doing. The compiled functions of the kernel are not
modelled here, only what they promise: they write neither over what another task left on its stack
nor over what the stubs keep of their own, they come back as compiled functions do, and they call
`switch` as its contract asks, whichever of the scheduler's words they keep the pointers in.

* `Place`: a kernel stack.
* `Switching`: what the caller of `switch` promises.
* `Phase.Holds`: the bytes that are kept of a task, whoever runs.
* `Kernel.Held`: what those bytes say.
* `Happens`: every way the machine goes on.
-/

namespace Harlan.Contexts

open Amd64 Descriptors Stubs

/-! ### Where things are -/

/-- The kernel's machine code, and its tables. -/
structure Kernel extends Image where
  idtr : ℕ
  tr : ℕ
  scratch_apart : scratch.toNat + 8 ≤ kernelTop.toNat ∨ kernelTop.toNat + 8 ≤ scratch.toNat
  scratch_idt : scratch.toNat + 8 ≤ idtr ∨ idtr + 4096 ≤ scratch.toNat
  scratch_tss : scratch.toNat + 8 ≤ tr ∨ tr + 104 ≤ scratch.toNat
  kernelTop_idt : kernelTop.toNat + 8 ≤ idtr ∨ idtr + 4096 ≤ kernelTop.toNat
  kernelTop_tss : kernelTop.toNat + 8 ≤ tr ∨ tr + 104 ≤ kernelTop.toNat
  idt_tss : idtr + 4096 ≤ tr ∨ tr + 104 ≤ idtr

/-- A kernel stack, and whether it is a process that runs on it. -/
structure Place where
  bottom : ℕ
  top : ℕ
  process : Bool

/-- No byte of the stack is among some others. -/
def Place.Clear (p : Place) (start len : ℕ) : Prop := start + len ≤ p.bottom ∨ p.top ≤ start

/-- The bytes of the stack. -/
def Place.Has (p : Place) (a : ℕ) : Prop := p.bottom ≤ a ∧ a < p.top

/-- Two places have no byte in common. -/
def Place.Apart (p q : Place) : Prop := ∀ a, p.Has a → ¬ q.Has a

/-- A stack the kernel can run on: aligned, with room for the frames of the stubs, and clear of
everything they use. -/
structure Kernel.Fits (k : Kernel) (p : Place) : Prop where
  room : p.bottom + 352 ≤ p.top
  aligned : p.top % 16 = 0
  top_lt : p.top < 2 ^ 64
  scratch : p.Clear k.scratch.toNat 8
  kernelTop : p.Clear k.kernelTop.toNat 8
  idt : p.Clear k.idtr 4096
  tss : p.Clear k.tr 104

lemma Place.Clear.apart {p : Place} {start len a : ℕ} (h : p.Clear start len) (ha : p.Has a) :
    a < start ∨ start + len ≤ a := by
  obtain ⟨hlow, hhigh⟩ := ha
  rw [Place.Clear] at h
  omega

/-! ### What a task is doing -/

/-- Why the kernel runs on a stack. -/
inductive Entered where
  /-- Nothing of ring 3 waits: the kernel's own flow, or a process that has not started. -/
  | own
  /-- A call of the program that ran as `user`. -/
  | call (user : Cpu)
  /-- An interrupt of the program that ran as `user`. -/
  | interrupt (user : Cpu)

/-- What a task is doing. `entry` is the machine as it was when the compiled function that the
stub called began, and `left` as it was when `switch` was called. -/
inductive Phase where
  | absent
  | ring3
  | kernel (why : Entered) (entry : Cpu)
  | parked (why : Entered) (entry left : Cpu)
  | prepared (entry argument : UInt64)

/-- The stack pointer to hand to `switch` for a task: the one `switch` left in the word it was
given, or the one `prepare_first_run` answered. -/
def Phase.pointer (p : Place) : Phase → Option UInt64
  | .parked _ _ left => some (left.regs .rsp - 64)
  | .prepared _ _ => some (UInt64.ofNat (p.top - 80))
  | _ => none

/-- The task that has the CPU. -/
def Phase.Running : Phase → Prop
  | .ring3 => True
  | .kernel _ _ => True
  | _ => False

/-- The bytes of its own stack that compiled code leaves alone: where it comes back to, and the
frame under it, except for the two registers that a call answers in (`rax` and `rdx`). -/
def Entered.Holds (p : Place) (entry : Cpu) : Entered → ℕ → Prop
  | .own, _ => False
  | .call _, a => (entry.sp ≤ a ∧ a < entry.sp + 8) ∨ (p.top - 72 ≤ a ∧ a < p.top - 56)
      ∨ (p.top - 48 ≤ a ∧ a < p.top)
  | .interrupt _, a => (entry.sp ≤ a ∧ a < entry.sp + 8) ∨ (p.top - 304 ≤ a ∧ a < p.top)

/-- The bytes that are kept of a task, whoever runs. -/
def Phase.Holds (p : Place) : Phase → ℕ → Prop
  | .absent, _ => False
  | .ring3, _ => False
  | .kernel why entry, a => why.Holds p entry a
  | .parked _ _ left, a => left.sp - 64 ≤ a ∧ a < p.top
  | .prepared _ _, a => p.top - 80 ≤ a ∧ a < p.top

/-- What the stack of an activation has. -/
def Kernel.HeldEntry (k : Kernel) (p : Place) (mem : ByteMemory) (entry : Cpu) : Entered → Prop
  | .own => entry.sp ≤ p.top
  | .call user => entry.sp + 120 = p.top ∧ load mem entry.sp = k.dispatched ∧
      (∀ r ∈ calleeSaved, entry.regs r = user.regs r) ∧
      Stacked mem (p.top - 72) [user.regs .rdi, user.regs .rsi] ∧
      Stacked mem (p.top - 48)
        [user.regs .r10, user.regs .r8, user.regs .r9, user.rip, user.rflags, user.regs .rsp]
  | .interrupt user => entry.sp + 344 = p.top ∧ load mem entry.sp = k.handled ∧
      (entry.regs .rbx).toNat + 304 = p.top ∧
      Stacked mem (p.top - 304) (interruptSaved.reverse.map user.regs) ∧
      Stacked mem (p.top - 40) user.context.frame ∧
      user.cs = userCodeSelector.toUInt64 ∧ user.ss = userDataSelector.toUInt64

/-- What the bytes that are kept of a task say. -/
def Kernel.Held (k : Kernel) (p : Place) (mem : ByteMemory) : Phase → Prop
  | .absent => True
  | .ring3 => True
  | .kernel why entry => k.HeldEntry p mem entry why
  | .parked why entry left => k.HeldEntry p mem entry why ∧
      p.bottom + 64 ≤ left.sp ∧ left.sp + 8 ≤ entry.sp ∧
      Stacked mem (left.sp - 64) (switchSaved.reverse.map left.regs) ∧
      ∀ a, left.sp ≤ a → a < p.top → mem a = left.mem a
  | .prepared entry argument =>
      Stacked mem (p.top - 80) (firstRunWords k.trampolineAt entry argument)

/-! ### How the machine goes on -/

variable {ι : Type*} [DecidableEq ι]

/-- The CPU, and what each task is doing. -/
structure World (ι : Type*) where
  cpu : Cpu
  current : ι
  places : ι → Place
  phases : ι → Phase

/-- The bytes that compiled code leaves alone. -/
def World.Kept (k : Kernel) (w : World ι) (a : ℕ) : Prop :=
  (∃ t, (w.phases t).Holds (w.places t) a) ∨ (k.kernelTop.toNat ≤ a ∧ a < k.kernelTop.toNat + 8) ∨
    (k.idtr ≤ a ∧ a < k.idtr + 4096) ∨ (k.tr ≤ a ∧ a < k.tr + 104)

/-- A word that no stack in use and no table of the kernel's has a byte of. -/
structure World.Spare (k : Kernel) (w : World ι) (a : ℕ) : Prop where
  apart : ∀ t, w.phases t ≠ .absent → (w.places t).Clear a 8
  kernelTop : a + 8 ≤ k.kernelTop.toNat ∨ k.kernelTop.toNat + 8 ≤ a
  idt : a + 8 ≤ k.idtr ∨ k.idtr + 4096 ≤ a
  tss : a + 8 ≤ k.tr ∨ k.tr + 104 ≤ a

namespace Kernel

variable (k : Kernel)

/-- The machine once `dispatch` is called, from a `syscall` of ring 3. -/
def called (user : Cpu) : Cpu :=
  (syscallEntry k.scratch k.kernelTop k.dispatchAt).run k.alu k.dispatched user.syscall

/-- The machine once `dispatch` has come back and the stub has ended. -/
def answered (cpu : Cpu) : Cpu := syscallEntryRest.run k.alu 0 cpu

/-- The machine once `switch` has returned, on the other stack. -/
def swapped (cpu : Cpu) : Cpu := switch.run k.alu 0 cpu

/-- The machine once `switch` has returned to the trampoline of a prepared stack, and that has
ended. -/
def began (cpu : Cpu) : Cpu := firstRunTrampoline.run k.alu 0 (k.swapped cpu)

/-- The machine once `enter` has ended. -/
def started (cpu : Cpu) : Cpu := enter.run k.alu 0 cpu

/-- `prepare_cpu_for`: the CPU is told of the stack on which programs enter the kernel, if the
kernel tells it of one. -/
def tell (told : Option ℕ) (mem : ByteMemory) : ByteMemory :=
  match told with
  | some top =>
      store (setKernelStack mem k.tr (UInt64.ofNat top)) k.kernelTop.toNat (UInt64.ofNat top)
  | none => mem

/-- Both words say where that stack ends. -/
def Told (mem : ByteMemory) (top : ℕ) : Prop :=
  load mem k.kernelTop.toNat = UInt64.ofNat top ∧ load mem (k.tr + 4) = UInt64.ofNat top

/-- The machine with the CPU told. -/
def telling (told : Option ℕ) (cpu : Cpu) : Cpu := { cpu with mem := k.tell told cpu.mem }

end Kernel

namespace World

variable (w : World ι) (k : Kernel)

/-- The program that runs makes a call. -/
def call : World ι :=
  { w with
    cpu := k.called w.cpu
    phases := Function.update w.phases w.current (.kernel (.call w.cpu) (k.called w.cpu)) }

/-- The program that runs is interrupted. -/
def interrupt (vector : UInt8) (code : Option UInt64) (delivered : Cpu) : World ι :=
  { w with
    cpu := k.raised vector code.isSome delivered
    phases := Function.update w.phases w.current
      (.kernel (.interrupt w.cpu) (k.raised vector code.isSome delivered)) }

/-- The call of the program that waits is answered. -/
def answer : World ι :=
  { w with
    cpu := k.answered w.cpu
    phases := Function.update w.phases w.current .ring3 }

/-- The program that was interrupted goes on. -/
def resume : World ι :=
  { w with
    cpu := k.resumed w.cpu
    phases := Function.update w.phases w.current .ring3 }

/-- The task that runs in the kernel is left, once the CPU is told. -/
def park (told : Option ℕ) (why : Entered) (entry : Cpu) : ι → Phase :=
  Function.update w.phases w.current (.parked why entry (k.telling told w.cpu))

/-- `switch` to a task that was left. -/
def switchTo (told : Option ℕ) (t : ι) (why : Entered) (entry : Cpu) (why' : Entered)
    (entry' : Cpu) : World ι :=
  { w with
    cpu := k.swapped (k.telling told w.cpu)
    current := t
    phases := Function.update (w.park k told why entry) t (.kernel why' entry') }

/-- `switch` to a process that was prepared. -/
def beginOn (told : Option ℕ) (t : ι) (why : Entered) (entry : Cpu) : World ι :=
  { w with
    cpu := k.began (k.telling told w.cpu)
    current := t
    phases := Function.update (w.park k told why entry) t
      (.kernel .own (k.began (k.telling told w.cpu))) }

/-- A process goes to ring 3 for the first time. -/
def start : World ι :=
  { w with
    cpu := k.started w.cpu
    phases := Function.update w.phases w.current .ring3 }

/-- A stack is prepared for a process, and its pointer answered. -/
def prepare (t : ι) (p : Place) (function argument : UInt64) : World ι :=
  let prepared := prepareFirstRun k.trampolineAt (UInt64.ofNat p.top) function argument w.cpu.mem
  { w with
    cpu := { w.cpu.set .rax prepared.2 with mem := prepared.1 }
    places := Function.update w.places t p
    phases := Function.update w.phases t (.prepared function argument) }

end World

/-- `cpu` is where a compiled function that began as `entry` comes back to. -/
structure CameBack (entry cpu : Cpu) : Prop where
  rip : cpu.rip = load cpu.mem entry.sp
  sp : cpu.sp = entry.sp + 8
  kept : ∀ r ∈ calleeSaved, cpu.regs r = entry.regs r

/-- A program that the kernel can answer with `sysretq`: neither `TF` nor `NT` is set, which
`FMASK` leaves as they are, and it goes on in the lower half. -/
structure Calls (cpu : Cpu) : Prop where
  calm : cpu.Calm
  lower : cpu.rip.toNat < 2 ^ 47

/-- The machine is about to run `switch` to the task `t`, once the CPU is told: it saves into a
spare word, takes up the pointer of that task, and by then the CPU is told of its stack if it is a
process. -/
structure Switching (k : Kernel) (w : World ι) (told : Option ℕ) (t : ι)
    (entry : Cpu) : Prop where
  rip : w.cpu.rip = k.switchAt
  room : (w.places w.current).bottom + 64 ≤ w.cpu.sp
  below : w.cpu.sp + 8 ≤ entry.sp
  saveTo : w.Spare k (w.cpu.regs .rcx).toNat
  resume : (w.phases t).pointer (w.places t) = some (w.cpu.regs .rdx)
  told : (w.places t).process = true → k.Told (k.tell told w.cpu.mem) (w.places t).top

/-- Every way the machine goes on. -/
inductive Happens (k : Kernel) : World ι → World ι → Prop where
  /-- A program computes. -/
  | computes (w : World ι) (cpu : Cpu) (h : w.phases w.current = .ring3)
      (hsystem : cpu.toSystem = w.cpu.toSystem)
      (hmem : ∀ a, w.Kept k a → cpu.mem a = w.cpu.mem a) : Happens k w { w with cpu := cpu }
  /-- A program executes `syscall`. -/
  | calls (w : World ι) (h : w.phases w.current = .ring3)
      (hcalls : Calls w.cpu) : Happens k w (w.call k)
  /-- A program is interrupted, by a vector that has a stub. -/
  | interrupts (w : World ι) (vector : UInt8) (code : Option UInt64) (delivered : Cpu)
      (hvector : vector ≤ 0x21 ∧ vector ≠ 8) (hcode : code.isSome = pushesErrorCode vector)
      (hdelivered : w.cpu.deliver vector code = some delivered)
      (h : w.phases w.current = .ring3) :
      Happens k w (w.interrupt k vector code delivered)
  /-- A program is interrupted, by a vector that has none. -/
  | ignores (w : World ι) (vector : UInt8) (delivered : Cpu) (hvector : 0x21 < vector)
      (hdelivered : w.cpu.deliver vector none = some delivered)
      (h : w.phases w.current = .ring3) :
      Happens k w { w with cpu := delivered.iretq }
  /-- Compiled code of the kernel runs. -/
  | works (w : World ι) (why : Entered) (entry cpu : Cpu)
      (h : w.phases w.current = .kernel why entry)
      (hsystem : cpu.toSystem = { w.cpu.toSystem with cr3 := cpu.cr3 }) (hcalm : cpu.Calm)
      (hmem : ∀ a, w.Kept k a → cpu.mem a = w.cpu.mem a) : Happens k w { w with cpu := cpu }
  /-- The kernel's own flow tells the CPU of the stack of a process, some time before it switches
  to it. -/
  | tells (w : World ι) (top : ℕ) (why : Entered) (entry : Cpu)
      (h : w.phases w.current = .kernel why entry)
      (hkernel : (w.places w.current).process = false) : Happens k w
      { w with cpu := k.telling (some top) w.cpu }
  /-- `switch` to a task that was left. -/
  | switches (w : World ι) (told : Option ℕ) (t : ι) (why why' : Entered)
      (entry entry' left : Cpu)
      (h : w.phases w.current = .kernel why entry) (ht : w.phases t = .parked why' entry' left)
      (hswitch : Switching k w told t entry) : Happens k w
      (w.switchTo k told t why entry why' entry')
  /-- `switch` to a process that was prepared. -/
  | begins (w : World ι) (told : Option ℕ) (t : ι) (why : Entered) (entry : Cpu)
      (function argument : UInt64)
      (h : w.phases w.current = .kernel why entry) (ht : w.phases t = .prepared function argument)
      (hswitch : Switching k w told t entry) : Happens k w (w.beginOn k told t why entry)
  /-- `dispatch` comes back, and the stub goes back to ring 3. -/
  | answers (w : World ι) (user entry : Cpu) (h : w.phases w.current = .kernel (.call user) entry)
      (hback : CameBack entry w.cpu) : Happens k w (w.answer k)
  /-- The handler of interrupts comes back, and the trampoline goes back to ring 3. -/
  | resumes (w : World ι) (user entry : Cpu)
      (h : w.phases w.current = .kernel (.interrupt user) entry)
      (hback : CameBack entry w.cpu) : Happens k w (w.resume k)
  /-- A process goes to ring 3 for the first time. -/
  | enters (w : World ι) (entry : Cpu) (h : w.phases w.current = .kernel .own entry)
      (hprocess : (w.places w.current).process = true)
      (hrip : w.cpu.rip = k.enterAt) : Happens k w (w.start k)
  /-- The kernel prepares a stack that nobody uses. -/
  | prepares (w : World ι) (t : ι) (p : Place) (why : Entered) (entry : Cpu)
      (function argument : UInt64)
      (h : w.phases w.current = .kernel why entry) (ht : w.phases t = .absent) (hp : k.Fits p)
      (hprocess : p.process = true)
      (hfree : ∀ t', w.phases t' ≠ .absent → (w.places t').Apart p) :
      Happens k w (w.prepare k t p function argument)
  /-- The kernel gives up a task that does not run. -/
  | reaps (w : World ι) (t : ι) (why : Entered) (entry : Cpu)
      (h : w.phases w.current = .kernel why entry)
      (ht : t ≠ w.current) : Happens k w { w with phases := Function.update w.phases t .absent }

end Harlan.Contexts
