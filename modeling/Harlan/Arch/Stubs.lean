import Harlan.Lib.Amd64

/-!
The kernel's machine code: the naked functions of `arch/x86_64/src`, instruction for
instruction (`switch.rs`, `syscall.rs`, `interrupts.rs`, `user.rs`).

* `Block` definitions carry the names of the source; a function with a `call` in it is two.
* `SyscallFrame`, `InterruptStackFrame`: what the compiled functions read where the stubs point.
* `syscallEntry_enters`, `syscallEntry_leaves`: the two halves of a call.
* `trampoline_enters`, `trampoline_leaves`: the two halves of an interrupt.
* `switch_swaps`, `prepareFirstRun_spec`: a stack left and taken up, and one that was prepared.
-/

namespace Harlan.Stubs

open Amd64

/-! ### The listings -/

/-- What `switch` pushes, in order. -/
def switchSaved : List Reg := [.rbp, .rbx, .rdi, .rsi, .r12, .r13, .r14, .r15]

/-- `switch`: `rcx` is where the stack pointer is left, `rdx` the one to take up, `r8` the
page tables. -/
def switch : Block where
  ops :=
    [.push .rbp, .push .rbx, .push .rdi, .push .rsi, .push .r12, .push .r13,
      .push .r14, .push .r15, .storeAt .rcx .rsp, .mov .rsp .rdx, .movCr3 .r8,
      .pop .r15, .pop .r14, .pop .r13, .pop .r12, .pop .rsi, .pop .rdi, .pop .rbx, .pop .rbp]
  exit := .ret

/-- `FIRST_RUN_FRAME`. -/
def firstRunFrame : ℕ := 10 * 8

/-- `prepare_first_run`: the memory with the ten words, and the stack pointer for `switch`. -/
def prepareFirstRun (firstRunTrampoline stackTop entry argument : UInt64) (mem : ByteMemory) :
    ByteMemory × UInt64 :=
  let base := stackTop.toNat
  let mem := store mem (base - 1 * 8) entry
  let mem := store mem (base - 2 * 8) firstRunTrampoline
  let mem := store mem (base - 3 * 8) 0
  let mem := store mem (base - 4 * 8) 0
  let mem := store mem (base - 5 * 8) argument
  let mem := store mem (base - 6 * 8) 0
  let mem := store mem (base - 7 * 8) 0
  let mem := store mem (base - 8 * 8) 0
  let mem := store mem (base - 9 * 8) 0
  let mem := store mem (base - 10 * 8) 0
  (mem, stackTop - UInt64.ofNat firstRunFrame)

/-- `first_run_trampoline`. -/
def firstRunTrampoline : Block where
  ops := [.mov .rcx .rdi, .pop .rax, .pushImm 0]
  exit := .jmpReg .rax

/-- `syscall_entry`, to the call of `dispatch`. -/
def syscallEntry (scratch kernelTop dispatch : UInt64) : Block where
  ops :=
    [.store scratch .rsp, .load .rsp kernelTop, .pushAt scratch,
      .push .r11, .push .rcx, .push .r9, .push .r8, .push .r10, .push .rdx,
      .push .rsi, .push .rdi, .push .rax,
      .mov .rcx .rsp, .sub .rsp 32]
  exit := .call dispatch

/-- `syscall_entry`, from where `dispatch` comes back. -/
def syscallEntryRest : Block where
  ops :=
    [.add .rsp 32,
      .pop .rax, .pop .rdi, .pop .rsi, .pop .rdx, .pop .r10, .pop .r8, .pop .r9,
      .pop .rcx, .pop .r11, .pop .rsp]
  exit := .sysretq

/-- `stub_no_error_code!`. -/
def stubNoErrorCode (vector : UInt8) (common : UInt64) : Block where
  ops := [.pushImm 0, .pushImm vector.toUInt64]
  exit := .jmp common

/-- `stub_with_error_code!`. -/
def stubWithErrorCode (vector : UInt8) (common : UInt64) : Block where
  ops := [.pushImm vector.toUInt64]
  exit := .jmp common

/-- `spurious_interrupt_stub`. -/
def spuriousInterruptStub : Block where
  ops := []
  exit := .iretq

/-- `common_trampoline`, to the call of the handler. -/
def commonTrampoline (handler : UInt64) : Block where
  ops :=
    [.sub .rsp 128,
      .push .rax, .push .rbx, .push .rcx, .push .rdx, .push .rsi, .push .rdi, .push .rbp,
      .push .r8, .push .r9, .push .r10, .push .r11, .push .r12, .push .r13,
      .push .r14, .push .r15, .mov .rcx .rsp, .mov .rbx .rsp, .and .rsp (-16), .sub .rsp 32]
  exit := .call handler

/-- `common_trampoline`, from where the handler comes back. -/
def commonTrampolineRest : Block where
  ops :=
    [.mov .rsp .rbx,
      .pop .r15, .pop .r14, .pop .r13, .pop .r12, .pop .r11, .pop .r10, .pop .r9, .pop .r8,
      .pop .rbp, .pop .rdi, .pop .rsi, .pop .rdx, .pop .rcx, .pop .rbx, .pop .rax,
      .add .rsp 128, .add .rsp 16]
  exit := .iretq

/-- `USER_RFLAGS`. -/
def userRflags : UInt64 := 0x202

/-- `enter`: `rcx` is the entry point, `rdx` the stack. -/
def enter : Block where
  ops :=
    [.mov .rsp .rdx, .movImm .r11 userRflags,
      .xor32 .rax, .xor32 .rbx, .xor32 .rdx, .xor32 .rsi, .xor32 .rdi, .xor32 .rbp,
      .xor32 .r8, .xor32 .r9, .xor32 .r10, .xor32 .r12, .xor32 .r13, .xor32 .r14, .xor32 .r15]
  exit := .sysretq

/-! ### What the compiled functions read -/

/-- `SyscallFrame`. -/
structure SyscallFrame where
  rax : UInt64
  rdi : UInt64
  rsi : UInt64
  rdx : UInt64
  r10 : UInt64
  r8 : UInt64
  r9 : UInt64
  userRip : UInt64
  userRflags : UInt64
deriving DecidableEq

/-- The frame at an address, each field at its offset. -/
def SyscallFrame.read (mem : ByteMemory) (a : ℕ) : SyscallFrame where
  rax := load mem a
  rdi := load mem (a + 8)
  rsi := load mem (a + 16)
  rdx := load mem (a + 24)
  r10 := load mem (a + 32)
  r8 := load mem (a + 40)
  r9 := load mem (a + 48)
  userRip := load mem (a + 56)
  userRflags := load mem (a + 64)

/-- The fields of a frame, in order. -/
def SyscallFrame.words (f : SyscallFrame) : List UInt64 :=
  [f.rax, f.rdi, f.rsi, f.rdx, f.r10, f.r8, f.r9, f.userRip, f.userRflags]

lemma SyscallFrame.stacked_read (mem : ByteMemory) (a : ℕ) : Stacked mem a (read mem a).words :=
  ⟨rfl, rfl, rfl, rfl, rfl, rfl, rfl, rfl, rfl, trivial⟩

/-- What a register of ring 3 is after a call, for the registers the frame has. -/
def SyscallFrame.reg (f : SyscallFrame) : Reg → Option UInt64
  | .rax => some f.rax
  | .rdi => some f.rdi
  | .rsi => some f.rsi
  | .rdx => some f.rdx
  | .r10 => some f.r10
  | .r8 => some f.r8
  | .r9 => some f.r9
  | .rcx => some f.userRip
  | .r11 => some f.userRflags
  | _ => none

lemma SyscallFrame.given_words (f : SyscallFrame) (g : Reg → UInt64) (r : Reg) :
    given [.rax, .rdi, .rsi, .rdx, .r10, .r8, .r9, .rcx, .r11] f.words g r
      = (f.reg r).getD (g r) := by
  cases r <;> rfl

/-- `InterruptStackFrame`, its guard over the red zone apart. -/
structure InterruptStackFrame where
  r15 : UInt64
  r14 : UInt64
  r13 : UInt64
  r12 : UInt64
  r11 : UInt64
  r10 : UInt64
  r9 : UInt64
  r8 : UInt64
  rbp : UInt64
  rdi : UInt64
  rsi : UInt64
  rdx : UInt64
  rcx : UInt64
  rbx : UInt64
  rax : UInt64
  vector : UInt64
  errorCode : UInt64
  rip : UInt64
  cs : UInt64
  rflags : UInt64
deriving DecidableEq

/-- The frame at an address, each field at its offset: `_red_zone_guard` is from 120 to 248. -/
def InterruptStackFrame.read (mem : ByteMemory) (a : ℕ) : InterruptStackFrame where
  r15 := load mem a
  r14 := load mem (a + 8)
  r13 := load mem (a + 16)
  r12 := load mem (a + 24)
  r11 := load mem (a + 32)
  r10 := load mem (a + 40)
  r9 := load mem (a + 48)
  r8 := load mem (a + 56)
  rbp := load mem (a + 64)
  rdi := load mem (a + 72)
  rsi := load mem (a + 80)
  rdx := load mem (a + 88)
  rcx := load mem (a + 96)
  rbx := load mem (a + 104)
  rax := load mem (a + 112)
  vector := load mem (a + 248)
  errorCode := load mem (a + 256)
  rip := load mem (a + 264)
  cs := load mem (a + 272)
  rflags := load mem (a + 280)

/-! ### A call and its return -/

/-- What `syscall_entry` pushes over the stack pointer of ring 3, in order. -/
def syscallSaved : List Reg := [.r11, .rcx, .r9, .r8, .r10, .rdx, .rsi, .rdi, .rax]

/-- `dispatch` about to run over the kernel stack that ends at `top`. -/
structure Dispatching (cpu : Cpu) (scratch dispatch next : UInt64) (top : ℕ)
    (cpu' : Cpu) : Prop where
  rip : cpu'.rip = dispatch
  sp : cpu'.sp + 120 = top
  frame : (cpu'.regs .rcx).toNat + 80 = top
  regs : ∀ r, r ≠ .rsp → r ≠ .rcx → cpu'.regs r = cpu.regs r
  system : cpu'.toSystem = cpu.toSystem
  back : load cpu'.mem (top - 120) = next
  stacked : Stacked cpu'.mem (top - 80) (syscallSaved.reverse.map cpu.regs ++ [cpu.regs .rsp])
  outside : ∀ a, a < top - 120 ∨ top ≤ a → a < scratch.toNat ∨ scratch.toNat + 8 ≤ a →
    cpu'.mem a = cpu.mem a

section SyscallEntry

variable {alu : Alu} {cpu : Cpu} {scratch kernelTop dispatch next : UInt64} {top : ℕ}

/-- The machine once `syscall_entry` is on the kernel's stack. -/
def onKernelStack (cpu : Cpu) (scratch : UInt64) (top : UInt64) : Cpu :=
  { cpu with
    regs := Function.update cpu.regs .rsp top
    mem := store cpu.mem scratch.toNat (cpu.regs .rsp) }

lemma onKernelStack_regs {r : Reg} (hr : r ≠ .rsp) (top : UInt64) :
    (onKernelStack cpu scratch top).regs r = cpu.regs r := Function.update_of_ne hr _ _

/-- `syscall_entry`, once the stack is changed, is pushes and a call. -/
lemma syscallEntry_run (alu : Alu) (cpu : Cpu) (dispatch next : UInt64)
    (hapart : scratch.toNat + 8 ≤ kernelTop.toNat ∨ kernelTop.toNat + 8 ≤ scratch.toNat) :
    (syscallEntry scratch kernelTop dispatch).run alu next cpu
      = Exit.exec next (execAll alu [.mov .rcx .rsp, .sub .rsp 32]
          ((onKernelStack cpu scratch (load cpu.mem kernelTop.toNat)).pushAll
            (cpu.regs .rsp :: syscallSaved.map cpu.regs))) (.call dispatch) := by
  have hread : load (store cpu.mem scratch.toNat (cpu.regs .rsp)) kernelTop.toNat
      = load cpu.mem kernelTop.toNat := load_store_apart (by omega)
  have hback : load (store cpu.mem scratch.toNat (cpu.regs .rsp)) scratch.toNat = cpu.regs .rsp :=
    load_store _ _ _
  have hfirst : execAll alu [.store scratch .rsp, .load .rsp kernelTop, .pushAt scratch] cpu
      = (onKernelStack cpu scratch (load cpu.mem kernelTop.toNat)).push (cpu.regs .rsp) := by
    simp only [execAll, List.foldl, Op.exec, Cpu.set, onKernelStack, hread, hback]
  have hcut : (syscallEntry scratch kernelTop dispatch).ops
      = ([.store scratch .rsp, .load .rsp kernelTop, .pushAt scratch] : List Op)
        ++ syscallSaved.map Op.push
        ++ ([.mov .rcx .rsp, .sub .rsp 32] : List Op) := rfl
  have hsame : syscallSaved.map ((onKernelStack cpu scratch (load cpu.mem kernelTop.toNat)).push
      (cpu.regs .rsp)).regs = syscallSaved.map cpu.regs := by
    refine List.map_congr_left fun r hr => ?_
    have hne : r ≠ .rsp := by
      rintro rfl
      exact absurd hr (by decide)
    exact (Function.update_of_ne hne _ _).trans (onKernelStack_regs hne _)
  rw [Block.run, hcut, execAll_append, execAll_append, hfirst,
    execAll_push alu (by decide), hsame, Cpu.pushAll_cons]
  rfl

/-- `syscall_entry` builds its frame on the kernel's stack and calls `dispatch`. -/
lemma syscallEntry_enters (htop : (load cpu.mem kernelTop.toNat).toNat = top) (hroom : 120 ≤ top)
    (hapart : scratch.toNat + 8 ≤ kernelTop.toNat ∨ kernelTop.toNat + 8 ≤ scratch.toNat) :
    Dispatching cpu scratch dispatch next top
      ((syscallEntry scratch kernelTop dispatch).run alu next cpu) := by
  have hbase : (onKernelStack cpu scratch (load cpu.mem kernelTop.toNat)).sp = top := by
    rw [← htop]
    simp [onKernelStack, Cpu.sp]
  have hpushed := pushAll_spec (onKernelStack cpu scratch (load cpu.mem kernelTop.toNat))
    (cpu.regs .rsp :: syscallSaved.map cpu.regs)
    (by rw [hbase]; exact (by decide : 80 ≤ 120).trans hroom)
  have hrun := syscallEntry_run alu cpu dispatch next hapart
  have hsystem := pushAll_system (onKernelStack cpu scratch (load cpu.mem kernelTop.toNat))
    (cpu.regs .rsp :: syscallSaved.map cpu.regs)
  generalize (onKernelStack cpu scratch (load cpu.mem kernelTop.toNat)).pushAll
    (cpu.regs .rsp :: syscallSaved.map cpu.regs) = pushed at hrun hpushed hsystem
  have hsp : pushed.sp + 80 = top := hbase ▸ hpushed.sp
  have hset : (pushed.set .rcx (pushed.regs .rsp)).sp = pushed.sp := by simp [Cpu.sp, Cpu.set]
  have hcalled := called_spec alu (pushed.set .rcx (pushed.regs .rsp)) (by omega) next dispatch
  rw [execAll_cons, execAll_cons, execAll_nil, Op.exec] at hrun
  rw [← hrun] at hcalled
  clear hrun
  generalize (syscallEntry scratch kernelTop dispatch).run alu next cpu = called at hcalled ⊢
  have hdown := hcalled.sp
  have hmem : ∀ a, a < top - 120 ∨ top - 112 ≤ a → called.mem a = pushed.mem a := fun a ha =>
    hcalled.outside a (by omega)
  refine ⟨hcalled.rip, by omega, ?_, fun r hsp' hrcx => ?_, ?_, ?_, ?_, fun a ha hs => ?_⟩
  · rw [hcalled.regs .rcx (by decide)]
    simpa [Cpu.set, Cpu.sp] using hsp
  · rw [hcalled.regs r hsp']
    refine (Function.update_of_ne hrcx _ _).trans ((hpushed.regs r hsp').trans ?_)
    exact Function.update_of_ne hsp' _ _
  · rw [hcalled.system]
    exact hsystem
  · rw [← hcalled.back, show top - 120 = called.sp by omega]
  · have hstacked := hpushed.stacked
    rw [List.reverse_cons, ← List.map_reverse, show pushed.sp = top - 80 by omega] at hstacked
    exact hstacked.congr fun a hlow _ => hmem a (by omega)
  · rw [hmem a (by omega), hpushed.outside a (by omega)]
    exact store_of_outside hs

/-- Ring 3 after a call: what the frame has, the stack pointer it came with, and the rest as the
kernel had it. -/
structure Resumed (f : SyscallFrame) (rsp : UInt64) (cpu cpu' : Cpu) : Prop where
  rip : cpu'.rip = f.userRip
  rflags : cpu'.rflags = Cpu.sysretFlags f.userRflags
  regs : ∀ r, cpu'.regs r = (f.reg r).getD (if r = .rsp then rsp else cpu.regs r)
  cs : cpu'.cs = ((cpu.star >>> 48) + 16) ||| 3
  ss : cpu'.ss = ((cpu.star >>> 48) + 8) ||| 3
  cr3 : cpu'.cr3 = cpu.cr3
  fixed : cpu'.fixed = cpu.fixed
  mem : cpu'.mem = cpu.mem

/-- The rest of `syscall_entry` takes what the frame has to ring 3. -/
lemma syscallEntry_leaves (alu : Alu) (next : UInt64) (hsp : cpu.sp + 112 = top)
    (htop : top < 2 ^ 64) :
    Resumed (.read cpu.mem (top - 80)) (load cpu.mem (top - 8)) cpu
      (syscallEntryRest.run alu next cpu) := by
  have hup : (Op.exec alu (.add .rsp 32) cpu).sp = top - 80 :=
    (sp_add alu (n := 32) (by omega)).trans (by omega)
  have hcut : syscallEntryRest.ops
      = ([.add .rsp 32] : List Op) ++ syscallSaved.reverse.map Op.pop
        ++ ([.pop .rsp] : List Op) := rfl
  have hpops := popAll_spec alu syscallSaved.reverse (SyscallFrame.read cpu.mem (top - 80)).words
    (Op.exec alu (.add .rsp 32) cpu) (by decide) rfl
    (by rw [hup]; exact SyscallFrame.stacked_read cpu.mem (top - 80))
    (by rw [hup]; exact (show top - 80 + 72 < 2 ^ 64 by omega))
  simp only [Block.run, hcut, execAll_append, execAll_cons, execAll_nil]
  generalize execAll alu (syscallSaved.reverse.map .pop) (Op.exec alu (.add .rsp 32) cpu)
    = popped at hpops ⊢
  have hlast : load popped.mem popped.sp = load cpu.mem (top - 8) := by
    rw [hpops.mem, hpops.sp, hup]
    exact congrArg (load cpu.mem) (show top - 80 + 72 = top - 8 by omega)
  have hrsp : (Op.exec alu (.pop .rsp) popped).regs .rsp = load popped.mem popped.sp := by
    simp [Op.exec, Cpu.set, Cpu.pop, Cpu.sp]
  have hregs : ∀ r ≠ .rsp, (Op.exec alu (.pop .rsp) popped).regs r
      = ((SyscallFrame.read cpu.mem (top - 80)).reg r).getD (cpu.regs r) := by
    intro r hr
    have hsub : r ∉ [Reg.rsp] := List.not_mem_cons_of_ne_of_not_mem hr List.not_mem_nil
    have hadd : (Op.exec alu (.add .rsp 32) cpu).regs r = cpu.regs r := Op.exec_regs alu hsub cpu
    rw [Op.exec_regs alu (List.not_mem_cons_of_ne_of_not_mem hr hsub), hpops.regs r hr, ← hadd]
    exact SyscallFrame.given_words _ _ r
  have hsystem : (Op.exec alu (.pop .rsp) popped).toSystem = cpu.toSystem := hpops.system
  have hmem : (Op.exec alu (.pop .rsp) popped).mem = cpu.mem := hpops.mem
  rw [hlast] at hrsp
  generalize Op.exec alu (.pop .rsp) popped = done at hrsp hregs hsystem hmem ⊢
  generalize SyscallFrame.read cpu.mem (top - 80) = f at hregs ⊢
  simp only [syscallEntryRest, Exit.exec, Cpu.sysretq]
  refine ⟨hregs .rcx (by decide), ?_, fun r => ?_, ?_, ?_, ?_, ?_, hmem⟩
  · exact congrArg Cpu.sysretFlags (hregs .r11 (by decide))
  · by_cases hr : r = .rsp
    · subst hr
      exact hrsp
    · rw [if_neg hr]
      exact hregs r hr
  all_goals simp only [hsystem]
  rfl

end SyscallEntry

/-! ### An interrupt and its return -/

/-- What `common_trampoline` pushes, in order. -/
def interruptSaved : List Reg :=
  [.rax, .rbx, .rcx, .rdx, .rsi, .rdi, .rbp, .r8, .r9, .r10, .r11, .r12, .r13, .r14, .r15]

/-- The handler about to run, from a stub that left the machine as `cpu`. -/
structure Handling (cpu : Cpu) (handler next : UInt64) (cpu' : Cpu) : Prop where
  rip : cpu'.rip = handler
  sp : cpu'.sp + 40 = (cpu.sp - 248) / 16 * 16
  frame : (cpu'.regs .rcx).toNat = cpu.sp - 248
  rbx : cpu'.regs .rbx = cpu'.regs .rcx
  system : cpu'.toSystem = cpu.toSystem
  back : load cpu'.mem cpu'.sp = next
  stacked : Stacked cpu'.mem (cpu.sp - 248) (interruptSaved.reverse.map cpu.regs)
  outside : ∀ a, a < cpu'.sp ∨ cpu.sp - 128 ≤ a → cpu'.mem a = cpu.mem a

section Trampoline

variable {alu : Alu} {cpu : Cpu} {common handler next : UInt64}

/-- A stub leaves its vector and an error code on the stack, whether the processor pushed one or
the stub did. -/
lemma stub_pushes (alu : Alu) (common next : UInt64) {vector : UInt8} {interrupted : Cpu}
    {ws : List UInt64} {code : Option UInt64} {stub : Block}
    (hstub : stub = if code.isSome then stubWithErrorCode vector common
      else stubNoErrorCode vector common)
    (hcpu : Pushed interrupted (ws ++ code.toList) cpu) (hroom : 16 ≤ cpu.sp) :
    Pushed interrupted (ws ++ [code.getD 0, vector.toUInt64]) (stub.run alu next cpu) ∧
      (stub.run alu next cpu).toSystem = cpu.toSystem ∧ (stub.run alu next cpu).rip = common := by
  cases code with
  | none =>
      subst hstub
      have hpushed := pushAll_spec cpu [0, vector.toUInt64] hroom
      rw [Option.toList_none, List.append_nil] at hcpu
      exact ⟨(hcpu.append hpushed).congr rfl rfl, rfl, rfl⟩
  | some code =>
      subst hstub
      have hpushed := pushAll_spec cpu [vector.toUInt64] (show 8 ≤ cpu.sp by omega)
      have hboth := hcpu.append hpushed
      rw [List.append_assoc] at hboth
      exact ⟨hboth.congr rfl rfl, rfl, rfl⟩

/-- `common_trampoline`, down to the call, is pushes under the red zone and an aligned call. -/
lemma commonTrampoline_run :
    (commonTrampoline handler).run alu next cpu
      = Exit.exec next (execAll alu [.mov .rcx .rsp, .mov .rbx .rsp, .and .rsp (-16),
        .sub .rsp 32]
          ((Op.exec alu (.sub .rsp 128) cpu).pushAll
            (interruptSaved.map (Op.exec alu (.sub .rsp 128) cpu).regs))) (.call handler) := by
  have hcut : (commonTrampoline handler).ops
      = ([.sub .rsp 128] : List Op) ++ interruptSaved.map Op.push
      ++ ([.mov .rcx .rsp, .mov .rbx .rsp, .and .rsp (-16), .sub .rsp 32] : List Op) := rfl
  rw [Block.run, hcut, execAll_append, execAll_append, execAll_cons alu (.sub .rsp 128),
    execAll_nil, execAll_push alu (by decide)]
  rfl

/-- The stack pointer and the two copies of it that the trampoline makes. -/
lemma copies_spec (alu : Alu) (pushed : Cpu) :
    let copied := execAll alu [.mov .rcx .rsp, .mov .rbx .rsp, .and .rsp (-16)] pushed
    copied.sp = pushed.sp / 16 * 16 ∧ copied.regs .rcx = pushed.regs .rsp ∧
      copied.regs .rbx = pushed.regs .rsp ∧ copied.toSystem = pushed.toSystem
        ∧ copied.mem = pushed.mem := by
  refine ⟨?_, ?_, ?_, rfl, rfl⟩
  · rw [Cpu.sp, Cpu.sp, ← toNat_align]
    simp [execAll, Op.exec, Cpu.set]
    rfl
  · simp [execAll, Op.exec, Cpu.set]
  · simp [execAll, Op.exec, Cpu.set]

/-- `common_trampoline` saves every register and calls the handler. -/
lemma trampoline_enters (alu : Alu) (cpu : Cpu) (handler next : UInt64) (hroom : 296 ≤ cpu.sp) :
    Handling cpu handler next ((commonTrampoline handler).run alu next cpu) := by
  have hsub : (Op.exec alu (.sub .rsp 128) cpu).sp = cpu.sp - 128 :=
    sp_sub alu (n := 128) (by omega)
  have hsaved : interruptSaved.map (Op.exec alu (.sub .rsp 128) cpu).regs
      = interruptSaved.map cpu.regs := by
    refine List.map_congr_left fun r hr => Function.update_of_ne ?_ _ _
    rintro rfl
    exact absurd hr (by decide)
  have hpushed := pushAll_spec (Op.exec alu (.sub .rsp 128) cpu)
    (interruptSaved.map (Op.exec alu (.sub .rsp 128) cpu).regs)
    (by rw [hsub]; exact (show 120 ≤ cpu.sp - 128 by omega))
  have hsystem := pushAll_system (Op.exec alu (.sub .rsp 128) cpu)
    (interruptSaved.map (Op.exec alu (.sub .rsp 128) cpu).regs)
  rw [commonTrampoline_run]
  generalize (Op.exec alu (.sub .rsp 128) cpu).pushAll
    (interruptSaved.map (Op.exec alu (.sub .rsp 128) cpu).regs) = pushed at hpushed hsystem ⊢
  obtain ⟨hsp, hrcx, hrbx, hcopies, hmem⟩ := copies_spec alu pushed
  have hdown : pushed.sp + 120 = cpu.sp - 128 := hsub ▸ hpushed.sp
  have hcut : ([.mov .rcx .rsp, .mov .rbx .rsp, .and .rsp (-16), .sub .rsp 32] : List Op)
      = ([.mov .rcx .rsp, .mov .rbx .rsp, .and .rsp (-16)] : List Op)
        ++ ([.sub .rsp 32] : List Op) := rfl
  rw [hcut, execAll_append, execAll_cons alu (.sub .rsp 32), execAll_nil]
  generalize execAll alu [.mov .rcx .rsp, .mov .rbx .rsp, .and .rsp (-16)] pushed = copied at *
  have hcalled := called_spec alu copied (by omega) next handler
  generalize Exit.exec next (Op.exec alu (.sub .rsp 32) copied) (.call handler)
    = called at hcalled ⊢
  have hlow := hcalled.sp
  refine ⟨hcalled.rip, by omega, ?_, ?_, ?_, hcalled.back, ?_, fun a ha => ?_⟩
  · rw [hcalled.regs .rcx (by decide), hrcx]
    exact (show pushed.sp = cpu.sp - 248 by omega)
  · rw [hcalled.regs .rcx (by decide), hcalled.regs .rbx (by decide), hrcx, hrbx]
  · rw [hcalled.system, hcopies, hsystem]
    rfl
  · have hstacked := hpushed.stacked
    rw [hsaved, ← List.map_reverse, show pushed.sp = cpu.sp - 248 by omega] at hstacked
    refine hstacked.congr fun a hfrom _ => ?_
    rw [hcalled.outside a (by omega), hmem]
  · rw [hcalled.outside a (by omega), hmem, hpushed.outside a (by omega)]
    rfl

/-- The rest of `common_trampoline` goes on with what was interrupted, if the registers and the
frame of it are still where `rbx` points. -/
lemma trampoline_leaves (alu : Alu) (next : UInt64) {c : Context} {f : ℕ}
    (hf : (cpu.regs .rbx).toNat = f) (hroom : f + 264 < 2 ^ 64)
    (hsaved : Stacked cpu.mem f (interruptSaved.reverse.map c.regs))
    (hframe : Stacked cpu.mem (f + 264) c.frame) :
    (commonTrampolineRest.run alu next cpu).context = c ∧
      (commonTrampolineRest.run alu next cpu).mem = cpu.mem ∧
      (commonTrampolineRest.run alu next cpu).toSystem
        = { cpu.toSystem with cs := c.cs, ss := c.ss } := by
  have hcut : commonTrampolineRest.ops
      = ([.mov .rsp .rbx] : List Op) ++ interruptSaved.reverse.map Op.pop
        ++ ([.add .rsp 128, .add .rsp 16] : List Op) := rfl
  have hsp : (Op.exec alu (.mov .rsp .rbx) cpu).sp = f := by
    rw [← hf]
    exact Cpu.sp_set _ _
  have hpopped := popAll_spec alu interruptSaved.reverse (interruptSaved.reverse.map c.regs)
    (Op.exec alu (.mov .rsp .rbx) cpu) (by decide) rfl
    (by rw [hsp]; exact hsaved) (by rw [hsp]; exact (show f + 120 < 2 ^ 64 by omega))
  have hmem : (Op.exec alu (.mov .rsp .rbx) cpu).mem = cpu.mem := rfl
  have hsystem : (Op.exec alu (.mov .rsp .rbx) cpu).toSystem = cpu.toSystem := rfl
  rw [Block.run, hcut, execAll_append, execAll_append, execAll_cons alu (.mov .rsp .rbx),
    execAll_nil]
  generalize execAll alu (interruptSaved.reverse.map .pop)
    (Op.exec alu (.mov .rsp .rbx) cpu) = popped
    at hpopped ⊢
  have hup : popped.sp = f + 120 := hpopped.sp.trans (by rw [hsp]; rfl)
  rw [execAll_cons, execAll_cons, execAll_nil]
  have hadd : (Op.exec alu (.add .rsp 128) popped).sp = f + 248 :=
    (sp_add alu (n := 128) (by omega)).trans (by omega)
  have hadd' : (Op.exec alu (.add .rsp 16) (Op.exec alu (.add .rsp 128) popped)).sp = f + 264 :=
    (sp_add alu (n := 16) (by omega)).trans (by omega)
  have hregs : ∀ r ≠ .rsp,
      (Op.exec alu (.add .rsp 16) (Op.exec alu (.add .rsp 128) popped)).regs r = c.regs r := by
    intro r hr
    have hsub : r ∉ [Reg.rsp] := List.not_mem_cons_of_ne_of_not_mem hr List.not_mem_nil
    rw [Op.exec_regs alu hsub, Op.exec_regs alu hsub, hpopped.regs r hr, given_map, if_pos]
    revert hr
    cases r <;> decide
  have hmem' : (Op.exec alu (.add .rsp 16) (Op.exec alu (.add .rsp 128) popped)).mem = cpu.mem :=
    hpopped.mem.trans hmem
  have hsystem' : (Op.exec alu (.add .rsp 16) (Op.exec alu (.add .rsp 128) popped)).toSystem
      = cpu.toSystem := hpopped.system.trans hsystem
  generalize Op.exec alu (.add .rsp 16) (Op.exec alu (.add .rsp 128) popped) = done at *
  have hcontext := iretq_context hregs (by rw [hmem', hadd']; exact hframe)
  rw [show commonTrampolineRest.exit = .iretq from rfl, Exit.exec]
  refine ⟨hcontext, hmem', ?_⟩
  rw [← congrArg Context.cs hcontext, ← congrArg Context.ss hcontext, ← hsystem']
  rfl

end Trampoline

/-! ### A stack for another -/

/-- `switch` left the stack of `cpu` and took up the one where the words `ws` were. -/
structure Swapped (cpu : Cpu) (ws : List UInt64) (cpu' : Cpu) : Prop where
  left : load cpu'.mem (cpu.regs .rcx).toNat = cpu.regs .rsp - 64
  stacked : Stacked cpu'.mem (cpu.sp - 64) (switchSaved.reverse.map cpu.regs)
  outside : ∀ a, a < cpu.sp - 64 ∨ cpu.sp ≤ a → a < (cpu.regs .rcx).toNat
    ∨ (cpu.regs .rcx).toNat + 8 ≤ a →
    cpu'.mem a = cpu.mem a
  regs : ∀ r ≠ .rsp, cpu'.regs r = given switchSaved.reverse ws cpu.regs r
  sp : cpu'.sp = (cpu.regs .rdx).toNat + 72
  rip : cpu'.rip = load cpu.mem ((cpu.regs .rdx).toNat + 64)
  rflags : cpu'.rflags = cpu.rflags
  system : cpu'.toSystem = { cpu.toSystem with cr3 := cpu.regs .r8 }

section Switch

variable {alu : Alu} {cpu : Cpu} {next : UInt64}

/-- The machine between the two stacks. -/
def betweenStacks (alu : Alu) (cpu : Cpu) : Cpu :=
  execAll alu [.storeAt .rcx .rsp, .mov .rsp .rdx, .movCr3 .r8]
    (cpu.pushAll (switchSaved.map cpu.regs))

lemma switch_run :
    switch.run alu next cpu
      = Exit.exec next (execAll alu (switchSaved.reverse.map Op.pop)
        (betweenStacks alu cpu)) .ret := by
  have hcut : switch.ops = switchSaved.map Op.push
      ++ ([.storeAt .rcx .rsp, .mov .rsp .rdx, .movCr3 .r8] : List Op)
        ++ switchSaved.reverse.map Op.pop := rfl
  rw [Block.run, hcut, execAll_append, execAll_append, execAll_push alu (by decide),
    betweenStacks]
  rfl

/-- What the eight pushes and the write of the stack pointer leave. -/
lemma betweenStacks_spec (alu : Alu) (hroom : 64 ≤ cpu.sp)
    (hkeep : (cpu.regs .rcx).toNat + 8 ≤ cpu.sp - 64 ∨ cpu.sp ≤ (cpu.regs .rcx).toNat) :
    load (betweenStacks alu cpu).mem (cpu.regs .rcx).toNat = cpu.regs .rsp - 64 ∧
      Stacked (betweenStacks alu cpu).mem (cpu.sp - 64) (switchSaved.reverse.map cpu.regs) ∧
      (∀ a, a < cpu.sp - 64 ∨ cpu.sp ≤ a → a < (cpu.regs .rcx).toNat
        ∨ (cpu.regs .rcx).toNat + 8 ≤ a →
        (betweenStacks alu cpu).mem a = cpu.mem a) ∧
      (∀ r ≠ .rsp, (betweenStacks alu cpu).regs r = cpu.regs r) ∧
      (betweenStacks alu cpu).sp = (cpu.regs .rdx).toNat ∧
      (betweenStacks alu cpu).rflags = cpu.rflags ∧
      (betweenStacks alu cpu).toSystem = { cpu.toSystem with cr3 := cpu.regs .r8 } := by
  have hsystem := pushAll_system cpu (switchSaved.map cpu.regs)
  have hrflags := pushAll_rflags cpu (switchSaved.map cpu.regs)
  have hpushed := pushAll_spec cpu (switchSaved.map cpu.regs) hroom
  rw [betweenStacks]
  generalize cpu.pushAll (switchSaved.map cpu.regs) = pushed at hpushed hsystem hrflags ⊢
  have hsp : pushed.sp = cpu.sp - 64 := Nat.eq_sub_of_add_eq hpushed.sp
  have hrcx := hpushed.regs .rcx (by decide)
  have hrdx := hpushed.regs .rdx (by decide)
  have hmem : (execAll alu [.storeAt .rcx .rsp, .mov .rsp .rdx, .movCr3 .r8] pushed).mem
      = store pushed.mem (cpu.regs .rcx).toNat (pushed.regs .rsp) := by
    rw [← hrcx]
    rfl
  have hword : pushed.regs .rsp = cpu.regs .rsp - 64 := by
    have hle : (64 : UInt64) ≤ cpu.regs .rsp := UInt64.le_iff_toNat_le.mpr hroom
    refine UInt64.toNat_inj.mp ?_
    rw [UInt64.toNat_sub_of_le _ _ hle]
    exact hsp
  refine ⟨?_, ?_, fun a ha hk => ?_, fun r hr => ?_, ?_, hrflags, ?_⟩
  · rw [hmem, load_store, hword]
  · have hstacked := hpushed.stacked
    rw [← List.map_reverse, hsp] at hstacked
    refine hstacked.congr fun a hlow hhigh => ?_
    rw [hmem, store_of_outside (by simp only [List.length_map, List.length_reverse, switchSaved,
      List.length_cons, List.length_nil] at hhigh; omega)]
  · rw [hmem, store_of_outside hk, hpushed.outside a (by omega)]
  · exact (Function.update_of_ne hr _ _).trans (hpushed.regs r hr)
  · rw [← hrdx]
    exact Cpu.sp_set (Op.exec alu (.storeAt .rcx .rsp) pushed) _
  · rw [← hsystem, ← hpushed.regs .r8 (by decide)]
    rfl

/-- `switch` leaves one stack as `switch` expects to find it, and takes up another. -/
lemma switch_swaps {ws : List UInt64} (hroom : 64 ≤ cpu.sp)
    (hkeep : (cpu.regs .rcx).toNat + 8 ≤ cpu.sp - 64 ∨ cpu.sp ≤ (cpu.regs .rcx).toNat)
    (hlen : ws.length = 8) (hthere : Stacked cpu.mem (cpu.regs .rdx).toNat ws)
    (hend : (cpu.regs .rdx).toNat + 72 < 2 ^ 64)
    (hapart : (cpu.regs .rdx).toNat + 72 ≤ cpu.sp - 64 ∨ cpu.sp ≤ (cpu.regs .rdx).toNat)
    (hkeep' : (cpu.regs .rcx).toNat + 8 ≤ (cpu.regs .rdx).toNat ∨
      (cpu.regs .rdx).toNat + 72 ≤ (cpu.regs .rcx).toNat) :
    Swapped cpu ws (switch.run alu next cpu) := by
  obtain ⟨hleft, hstacked, houtside, hregs, hsp, hrflags, hsystem⟩ :=
    betweenStacks_spec alu hroom hkeep
  rw [switch_run]
  generalize betweenStacks alu cpu = between at *
  have hsame : ∀ a, (cpu.regs .rdx).toNat ≤ a → a < (cpu.regs .rdx).toNat + 72 →
      between.mem a = cpu.mem a := fun a hlow hhigh => houtside a (by omega) (by omega)
  have hpopped := popAll_spec alu switchSaved.reverse ws between (by decide) hlen
    (by
      rw [hsp]
      exact hthere.congr fun a hlow hhigh => hsame a hlow (by omega))
    (by rw [hsp]; exact (show (cpu.regs .rdx).toNat + 64 < 2 ^ 64 by omega))
  generalize execAll alu (switchSaved.reverse.map Op.pop) between = popped at hpopped ⊢
  have hup : popped.sp = (cpu.regs .rdx).toNat + 64 := by rw [hpopped.sp, hsp]; rfl
  have hret : load popped.mem popped.sp = load cpu.mem ((cpu.regs .rdx).toNat + 64) := by
    rw [hup, hpopped.mem]
    exact load_congr fun a hlow hhigh => hsame a (by omega) (by omega)
  have hmem : (Exit.exec next popped .ret).mem = between.mem := hpopped.mem
  refine ⟨?_, ?_, fun a ha hk => ?_, fun r hr => ?_, ?_, hret, ?_, ?_⟩
  · rw [hmem, hleft]
  · rw [hmem]
    exact hstacked
  · rw [hmem, houtside a ha hk]
  · exact (Function.update_of_ne hr _ _).trans
      ((hpopped.regs r hr).trans (given_congr (hregs r hr)))
  · have hadd : (Exit.exec next popped .ret).sp = popped.sp + 8 := by
      refine (Cpu.sp_set popped _).trans ?_
      exact toNat_add_of_lt (n := 8) (show popped.sp + 8 < 2 ^ 64 by omega)
    rw [hadd, hup]
  · exact hpopped.rflags.trans hrflags
  · exact hpopped.system.trans hsystem

end Switch

/-! ### A stack that was prepared -/

/-- The words `prepare_first_run` lays out, from the lowest up. -/
def firstRunWords (trampoline entry argument : UInt64) : List UInt64 :=
  [0, 0, 0, 0, 0, argument, 0, 0, trampoline, entry]

section FirstRun

variable {alu : Alu} {cpu : Cpu} {next trampoline stackTop entry argument : UInt64}
  {mem : ByteMemory}

/-- A prepared stack has the words that `switch` and the trampoline take off it, and nothing else
changed. -/
lemma prepareFirstRun_spec (trampoline entry argument : UInt64) (mem : ByteMemory)
    (hroom : firstRunFrame ≤ stackTop.toNat) :
    (prepareFirstRun trampoline stackTop entry argument mem).2.toNat + 80 = stackTop.toNat ∧
      Stacked (prepareFirstRun trampoline stackTop entry argument mem).1 (stackTop.toNat - 80)
        (firstRunWords trampoline entry argument) ∧
      ∀ a, a < stackTop.toNat - 80 ∨ stackTop.toNat ≤ a →
        (prepareFirstRun trampoline stackTop entry argument mem).1 a = mem a := by
  have hroom' : 80 ≤ stackTop.toNat := hroom
  have hle : UInt64.ofNat firstRunFrame ≤ stackTop := UInt64.le_iff_toNat_le.mpr hroom
  refine ⟨?_, ?_, fun a ha => ?_⟩
  · rw [prepareFirstRun, UInt64.toNat_sub_of_le _ _ hle]
    exact Nat.sub_add_cancel hroom
  · simp only [prepareFirstRun]
    -- The stores go down from the top, so each word goes under the ones before it.
    refine Stacked.under (a := stackTop.toNat - 9 * 8) (by omega) ?_
    refine Stacked.under (a := stackTop.toNat - 8 * 8) (by omega) ?_
    refine Stacked.under (a := stackTop.toNat - 7 * 8) (by omega) ?_
    refine Stacked.under (a := stackTop.toNat - 6 * 8) (by omega) ?_
    refine Stacked.under (a := stackTop.toNat - 5 * 8) (by omega) ?_
    refine Stacked.under (a := stackTop.toNat - 4 * 8) (by omega) ?_
    refine Stacked.under (a := stackTop.toNat - 3 * 8) (by omega) ?_
    refine Stacked.under (a := stackTop.toNat - 2 * 8) (by omega) ?_
    refine Stacked.under (a := stackTop.toNat - 1 * 8) (by omega) ?_
    exact Stacked.under (a := stackTop.toNat) (by omega) trivial
  · simp only [prepareFirstRun]
    repeat rw [store_of_outside (by omega)]

/-- The trampoline goes on at the entry point, with the argument where a called function looks for
it, and a word that cannot be returned to on top of the stack. -/
lemma firstRunTrampoline_run (alu : Alu) (cpu : Cpu) (next : UInt64) :
    let cpu' := firstRunTrampoline.run alu next cpu
    cpu'.rip = load cpu.mem cpu.sp ∧ cpu'.regs .rcx = cpu.regs .rdi ∧ cpu'.sp = cpu.sp ∧
      load cpu'.mem cpu'.sp = 0 ∧ cpu'.toSystem = cpu.toSystem ∧ cpu'.rflags = cpu.rflags ∧
      (∀ a, a < cpu.sp ∨ cpu.sp + 8 ≤ a → cpu'.mem a = cpu.mem a) := by
  have hmem : (firstRunTrampoline.run alu next cpu).mem = store cpu.mem cpu.sp 0 := by
    simp [firstRunTrampoline, Block.run, execAll, Op.exec, Exit.exec, Cpu.push, Cpu.pop,
      Cpu.set, Cpu.sp]
  have hsp : (firstRunTrampoline.run alu next cpu).sp = cpu.sp := by
    simp [firstRunTrampoline, Block.run, execAll, Op.exec, Exit.exec, Cpu.push, Cpu.pop,
      Cpu.set, Cpu.sp]
  refine ⟨?_, ?_, hsp, ?_, rfl, rfl, fun a ha => ?_⟩
  · simp [firstRunTrampoline, Block.run, execAll, Op.exec, Exit.exec, Cpu.push, Cpu.pop,
      Cpu.set, Cpu.sp]
  · simp [firstRunTrampoline, Block.run, execAll, Op.exec, Exit.exec, Cpu.push, Cpu.pop, Cpu.set]
  · rw [hsp, hmem, load_store]
  · rw [hmem, store_of_outside ha]

end FirstRun

/-! ### Ring 3 for the first time, and the kernel's own stack -/

section Enter

variable {alu : Alu} {cpu : Cpu} {next : UInt64}

/-- What a program finds when it starts: its entry point, its stack and the flags it starts with,
where `sysretq` leaves them, and nothing else. -/
def startingRegs (entry stackTop : UInt64) : Reg → UInt64
  | .rcx => entry
  | .rsp => stackTop
  | .r11 => userRflags
  | _ => 0

/-- `enter` starts a program, whatever the kernel's registers held. -/
lemma enter_run (alu : Alu) (cpu : Cpu) (next : UInt64) :
    (enter.run alu next cpu).context =
        { regs := startingRegs (cpu.regs .rcx) (cpu.regs .rdx)
          rip := cpu.regs .rcx
          rflags := userRflags
          cs := ((cpu.star >>> 48) + 16) ||| 3
          ss := ((cpu.star >>> 48) + 8) ||| 3 } ∧
      (enter.run alu next cpu).mem = cpu.mem ∧
      (enter.run alu next cpu).toSystem = { cpu.toSystem with
        cs := ((cpu.star >>> 48) + 16) ||| 3
        ss := ((cpu.star >>> 48) + 8) ||| 3 } := by
  have hcut : enter.ops = ([.mov .rsp .rdx, .movImm .r11 userRflags] : List Op)
      ++ [Reg.rax, .rbx, .rdx, .rsi, .rdi, .rbp, .r8, .r9, .r10, .r12, .r13, .r14,
        .r15].map Op.xor32 := rfl
  have hclear := clearAll_spec alu
    [.rax, .rbx, .rdx, .rsi, .rdi, .rbp, .r8, .r9, .r10, .r12, .r13, .r14, .r15]
    (execAll alu [.mov .rsp .rdx, .movImm .r11 userRflags] cpu)
  rw [Block.run, hcut, execAll_append]
  generalize execAll alu
    ([Reg.rax, .rbx, .rdx, .rsi, .rdi, .rbp, .r8, .r9, .r10, .r12, .r13, .r14, .r15].map
    Op.xor32) (execAll alu [.mov .rsp .rdx, .movImm .r11 userRflags] cpu) = cleared at hclear ⊢
  obtain ⟨hregs, hsystem, hmem⟩ := hclear
  have hall : cleared.regs = startingRegs (cpu.regs .rcx) (cpu.regs .rdx) := by
    funext r
    rw [hregs r]
    cases r <;> simp [startingRegs, execAll, Op.exec, Cpu.set]
  have hstar : cleared.star = cpu.star := congrArg System.star hsystem
  have hflags : Cpu.sysretFlags userRflags = userRflags := by decide
  rw [show enter.exit = .sysretq from rfl, Exit.exec, Cpu.sysretq, hstar, hsystem, hall]
  refine ⟨?_, hmem, rfl⟩
  rw [Cpu.context]
  exact congrArg (fun v =>
    ({ regs := _, rip := _, rflags := v, cs := _, ss := _ } : Context)) hflags

end Enter

end Harlan.Stubs
