import Mathlib.Tactic
import Mathlib.Logic.Relation
import Harlan.Lib.Words

/-!
The part of the AMD64 machine that code at a kernel's boundary uses: the general registers, a
stack of words in memory, straight-line operations, the ways out of a block of them, and what
the hardware does by itself at `syscall`, `sysretq`, an interrupt and `iretq`.

* `load_store`, `load_store_apart`: a word of memory is read back.
* `Stacked`, `pushAll_spec`, `popAll_spec`: words pushed on a stack and taken off it.
* `Block.Stands`, `Block.reaches`: a block that stands in the code runs to its end.
* `Cpu.syscall`, `Cpu.sysretq`, `Cpu.deliver`, `Cpu.iretq`: the changes of ring.

Data segments, vector, debug and control registers other than `cr3` are left out. The status flags
an arithmetic operation leaves are a parameter, and addresses are taken to be canonical. A machine
with `TF` or `NT` set takes no step here, and `Cpu.Calm` says of a machine that it has neither.
-/

namespace Amd64

/-! ### Words of memory -/

/-- The word at an address. -/
@[irreducible] def load (mem : ByteMemory) (a : ℕ) : UInt64 := UInt64.ofNat (getWord mem a 8)

/-- The memory with a word at an address. -/
@[irreducible] def store (mem : ByteMemory) (a : ℕ) (v : UInt64) : ByteMemory :=
  setWord mem a v.toNat 8

@[simp] lemma load_store (mem : ByteMemory) (a : ℕ) (v : UInt64) :
    load (store mem a v) a = v := by
  refine UInt64.toNat_inj.mp ?_
  have hv := v.toNat_lt
  rw [load, store, getWord_setWord, UInt64.toNat_ofNat']
  omega

lemma load_congr {mem mem' : ByteMemory} {a : ℕ} (h : ∀ b, a ≤ b → b < a + 8 → mem' b = mem b) :
    load mem' a = load mem a := by
  rw [load, load, getWord_congr h]

lemma store_of_outside {mem : ByteMemory} {a b : ℕ} {v : UInt64} (h : b < a ∨ a + 8 ≤ b) :
    store mem a v b = mem b := by
  rw [store, setWord_of_outside h]

lemma load_store_apart {mem : ByteMemory} {a b : ℕ} {v : UInt64} (h : a + 8 ≤ b ∨ b + 8 ≤ a) :
    load (store mem b v) a = load mem a :=
  load_congr fun _ hlow hhigh => store_of_outside (by omega)

/-- `ws` are the words from `a` up. -/
def Stacked (mem : ByteMemory) : ℕ → List UInt64 → Prop
  | _, [] => True
  | a, w :: ws => load mem a = w ∧ Stacked mem (a + 8) ws

lemma Stacked.congr {mem mem' : ByteMemory} {a : ℕ} {ws : List UInt64} (h : Stacked mem a ws)
    (hsame : ∀ b, a ≤ b → b < a + 8 * ws.length → mem' b = mem b) : Stacked mem' a ws := by
  induction ws generalizing a with
  | nil => trivial
  | cons w ws ih =>
      rw [List.length_cons] at hsame
      refine ⟨?_, ih h.2 fun b hlow hhigh => hsame b (by omega) (by omega)⟩
      rw [load_congr fun b hlow hhigh => hsame b hlow (by omega), h.1]

/-- A word written under others. -/
lemma Stacked.under {mem : ByteMemory} {a b : ℕ} {w : UInt64} {ws : List UInt64} (hb : b + 8 = a)
    (h : Stacked mem a ws) : Stacked (store mem b w) b (w :: ws) := by
  subst hb
  exact ⟨load_store _ _ _, h.congr fun c hlow _ => store_of_outside (Or.inr hlow)⟩

lemma stacked_append {mem : ByteMemory} {a : ℕ} {ws vs : List UInt64} :
    Stacked mem a (ws ++ vs) ↔ Stacked mem a ws ∧ Stacked mem (a + 8 * ws.length) vs := by
  induction ws generalizing a with
  | nil => simp [Stacked]
  | cons w ws ih =>
      have hsum : a + 8 + 8 * ws.length = a + 8 * (ws.length + 1) := by omega
      rw [List.cons_append, Stacked, ih, Stacked, List.length_cons, hsum, and_assoc]

/-! ### The machine -/

/-- The general registers. -/
inductive Reg where
  | rax | rbx | rcx | rdx | rsi | rdi | rbp | rsp
  | r8 | r9 | r10 | r11 | r12 | r13 | r14 | r15
deriving DecidableEq

/-- The registers a function keeps for its caller, besides the stack pointer (Microsoft x64). -/
def calleeSaved : List Reg := [.rbp, .rbx, .rdi, .rsi, .r12, .r13, .r14, .r15]

/-- The registers that ordinary code leaves alone. -/
structure System where
  cs : UInt64
  ss : UInt64
  cr3 : UInt64
  /-- `IA32_STAR`, `IA32_LSTAR`, `IA32_FMASK`. -/
  star : UInt64
  lstar : UInt64
  fmask : UInt64
  /-- Where the interrupt table and the task state segment are. -/
  idtr : ℕ
  tr : ℕ

/-- What neither a change of ring nor one of address space changes. -/
def System.fixed (s : System) : UInt64 × UInt64 × UInt64 × ℕ × ℕ :=
  (s.star, s.lstar, s.fmask, s.idtr, s.tr)

/-- The processor as its running program sees it. -/
structure Cpu extends System where
  regs : Reg → UInt64
  rip : UInt64
  rflags : UInt64
  mem : ByteMemory

namespace Cpu

/-- A general register set. -/
def set (cpu : Cpu) (r : Reg) (v : UInt64) : Cpu :=
  { cpu with regs := Function.update cpu.regs r v }

/-- A word pushed on the stack. -/
def push (cpu : Cpu) (v : UInt64) : Cpu :=
  { cpu with
    regs := Function.update cpu.regs .rsp (cpu.regs .rsp - 8)
    mem := store cpu.mem (cpu.regs .rsp - 8).toNat v }

@[simp] lemma push_rsp (cpu : Cpu) (v : UInt64) : (cpu.push v).regs .rsp = cpu.regs .rsp - 8 := by
  simp [push]

/-- The word on top of the stack, and the machine without it. -/
def pop (cpu : Cpu) : UInt64 × Cpu :=
  (load cpu.mem (cpu.regs .rsp).toNat, cpu.set .rsp (cpu.regs .rsp + 8))

/-- The ring the machine runs in. -/
def ring (cpu : Cpu) : UInt64 := cpu.cs &&& 3

/-- The stack pointer, as a number. -/
def sp (cpu : Cpu) : ℕ := (cpu.regs .rsp).toNat

@[simp] lemma sp_set (cpu : Cpu) (v : UInt64) : (cpu.set .rsp v).sp = v.toNat := by simp [sp, set]

/-- Words pushed one after the other. -/
def pushAll (cpu : Cpu) (ws : List UInt64) : Cpu := ws.foldl push cpu

lemma pushAll_cons (cpu : Cpu) (w : UInt64) (ws : List UInt64) :
    cpu.pushAll (w :: ws) = (cpu.push w).pushAll ws := rfl

end Cpu

/-! ### Straight-line code -/

/-- An operation that goes on with the next one. -/
inductive Op where
  | push (r : Reg)
  | pushImm (v : UInt64)
  /-- `push [addr]`. -/
  | pushAt (addr : UInt64)
  | pop (r : Reg)
  | mov (dst src : Reg)
  | movImm (dst : Reg) (v : UInt64)
  /-- `mov dst, [addr]`. -/
  | load (dst : Reg) (addr : UInt64)
  /-- `mov [addr], src`. -/
  | store (addr : UInt64) (src : Reg)
  /-- `mov [base], src`. -/
  | storeAt (base src : Reg)
  /-- `mov cr3, src`. -/
  | movCr3 (src : Reg)
  | add (dst : Reg) (v : UInt64)
  | sub (dst : Reg) (v : UInt64)
  | and (dst : Reg) (v : UInt64)
  /-- `xor` of the low half of a register with itself, which clears the whole. -/
  | xor32 (dst : Reg)

/-- The status flags an arithmetic operation leaves, from the registers and the flags before. -/
abbrev Alu := Op → (Reg → UInt64) → UInt64 → UInt64

/-- `CF`, `PF`, `AF`, `ZF`, `SF` and `OF`. -/
def statusFlags : UInt64 := 0x8D5

/-- The flags after an arithmetic operation: the status flags are new, the others as they were. -/
def Alu.flags (alu : Alu) (op : Op) (cpu : Cpu) : UInt64 :=
  (cpu.rflags &&& ~~~statusFlags) ||| (alu op cpu.regs cpu.rflags &&& statusFlags)

/-- What an operation does, where the machine is in the code apart. -/
def Op.exec (alu : Alu) (op : Op) (cpu : Cpu) : Cpu :=
  match op with
  | .push r => cpu.push (cpu.regs r)
  | .pushImm v => cpu.push v
  | .pushAt addr => cpu.push (Amd64.load cpu.mem addr.toNat)
  | .pop r => cpu.pop.2.set r cpu.pop.1
  | .mov dst src => cpu.set dst (cpu.regs src)
  | .movImm dst v => cpu.set dst v
  | .load dst addr => cpu.set dst (Amd64.load cpu.mem addr.toNat)
  | .store addr src => { cpu with mem := Amd64.store cpu.mem addr.toNat (cpu.regs src) }
  | .storeAt base src =>
      { cpu with mem := Amd64.store cpu.mem (cpu.regs base).toNat (cpu.regs src) }
  | .movCr3 src => { cpu with cr3 := cpu.regs src }
  | .add dst v => { cpu.set dst (cpu.regs dst + v) with rflags := alu.flags op cpu }
  | .sub dst v => { cpu.set dst (cpu.regs dst - v) with rflags := alu.flags op cpu }
  | .and dst v => { cpu.set dst (cpu.regs dst &&& v) with rflags := alu.flags op cpu }
  | .xor32 dst => { cpu.set dst 0 with rflags := alu.flags op cpu }

/-- The registers an operation may change. -/
def Op.changes : Op → List Reg
  | .push _ | .pushImm _ | .pushAt _ => [.rsp]
  | .pop r => [.rsp, r]
  | .mov dst _ | .movImm dst _ | .load dst _ => [dst]
  | .store _ _ | .storeAt _ _ | .movCr3 _ => []
  | .add dst _ | .sub dst _ | .and dst _ | .xor32 dst => [dst]

/-- An operation leaves the other registers. -/
lemma Op.exec_regs (alu : Alu) {op : Op} {r : Reg} (h : r ∉ op.changes) (cpu : Cpu) :
    (op.exec alu cpu).regs r = cpu.regs r := by
  cases op <;> simp only [changes, List.mem_cons, List.not_mem_nil, or_false, not_or] at h <;>
    simp [exec, Cpu.push, Cpu.pop, Cpu.set, h]

/-- `TF`, with which a machine traps after its next instruction, and `NT`, with which `iretq`
faults. -/
def trapFlags : UInt64 := 0x4100

/-- The machine goes on with its next instruction, whichever it is. -/
def Cpu.Calm (cpu : Cpu) : Prop := cpu.rflags &&& trapFlags = 0

instance (cpu : Cpu) : Decidable cpu.Calm := inferInstanceAs (Decidable (_ = _))

lemma and_trap_of_mask {flags mask : UInt64} (h : ~~~mask &&& trapFlags = 0) :
    (flags &&& ~~~mask) &&& trapFlags = 0 := by
  rw [UInt64.and_assoc, h, UInt64.and_zero]

/-- Fewer flags stop no machine. -/
lemma and_trap {flags : UInt64} (h : flags &&& trapFlags = 0) (mask : UInt64) :
    (flags &&& mask) &&& trapFlags = 0 := by
  rw [UInt64.and_assoc, UInt64.and_comm mask, ← UInt64.and_assoc, h, UInt64.zero_and]

lemma or_and_distrib (a b c : UInt64) : (a ||| b) &&& c = (a &&& c) ||| (b &&& c) :=
  UInt64.toBitVec_inj.1 BitVec.and_or_distrib_right

/-- No operation of straight-line code stops the machine. -/
lemma Op.exec_calm (alu : Alu) (op : Op) {cpu : Cpu} (h : cpu.Calm) : (op.exec alu cpu).Calm := by
  have harith : alu.flags op cpu &&& trapFlags = 0 := by
    rw [Alu.flags, or_and_distrib, and_trap h, UInt64.and_assoc,
      show statusFlags &&& trapFlags = 0 from rfl, UInt64.and_zero, UInt64.or_zero]
  cases op with
  | add dst v => exact harith
  | sub dst v => exact harith
  | and dst v => exact harith
  | xor32 dst => exact harith
  | _ => exact h

/-- Instructions executed one after the other. -/
def execAll (alu : Alu) (ops : List Op) (cpu : Cpu) : Cpu :=
  ops.foldl (fun cpu op => op.exec alu cpu) cpu

/-! ### Changes of ring -/

namespace Cpu

/-- `syscall`, in a machine whose `rip` is past it. -/
def syscall (cpu : Cpu) : Cpu :=
  { cpu with
    regs := Function.update (Function.update cpu.regs .rcx cpu.rip) .r11 cpu.rflags
    rip := cpu.lstar
    rflags := cpu.rflags &&& ~~~cpu.fmask
    cs := (cpu.star >>> 32) &&& 0xFFFC
    ss := ((cpu.star >>> 32) &&& 0xFFFF) + 8 }

/-- The flags `sysretq` takes from `r11`. -/
def sysretFlags (v : UInt64) : UInt64 := (v &&& 0x3C7FD7) ||| 2

/-- `sysretq`: the address and the flags come from the registers, the segments from the selectors
set for it. -/
def sysretq (cpu : Cpu) : Cpu :=
  { cpu with
    rip := cpu.regs .rcx
    rflags := sysretFlags (cpu.regs .r11)
    cs := ((cpu.star >>> 48) + 16) ||| 3
    ss := ((cpu.star >>> 48) + 8) ||| 3 }

/-- A gate of the interrupt table. -/
structure Gate where
  offset : UInt64
  selector : UInt64
  ist : ℕ
  type : ℕ
  dpl : ℕ
  present : Bool
deriving DecidableEq

/-- A gate, from the two words that hold it. -/
def gateOf (low high : ℕ) : Gate where
  offset := UInt64.ofNat (low % 2 ^ 16 + low / 2 ^ 48 % 2 ^ 16 * 2 ^ 16 + high % 2 ^ 32 * 2 ^ 32)
  selector := UInt64.ofNat (low / 2 ^ 16 % 2 ^ 16)
  ist := low / 2 ^ 32 % 8
  type := low / 2 ^ 40 % 16
  dpl := low / 2 ^ 45 % 4
  present := low / 2 ^ 47 % 2 = 1

/-- The gate of a vector, as the table in memory has it. -/
def gate (cpu : Cpu) (vector : UInt8) : Gate :=
  gateOf (getWord cpu.mem (cpu.idtr + 16 * vector.toNat) 8)
    (getWord cpu.mem (cpu.idtr + 16 * vector.toNat + 8) 8)

/-- The stack pointer of ring 0, and the `n`-th of the interrupt stacks, in the task state
segment. -/
def rsp0 (cpu : Cpu) : UInt64 := load cpu.mem (cpu.tr + 4)

/-- The stack that entry `n` of the interrupt stack table points at. -/
def istStack (cpu : Cpu) (n : ℕ) : UInt64 := load cpu.mem (cpu.tr + 36 + 8 * (n - 1))

/-- Where the frame of an interrupt goes: on the stack the gate names, on the one of ring 0 if
the machine comes from ring 3, or on the one in use; from there down to a multiple of sixteen. -/
def frameTop (cpu : Cpu) (gate : Gate) : UInt64 :=
  (if gate.ist ≠ 0 then cpu.istStack gate.ist
    else if cpu.ring = 0 then cpu.regs .rsp
    else cpu.rsp0) &&& ~~~15

/-- The flags a gate clears: `TF`, `NT`, `RF` and `VM`, and `IF` if it is an interrupt gate. -/
def Gate.mask (gate : Gate) : UInt64 := if gate.type = 0b1110 then 0x34300 else 0x34100

/-- An interrupt, with the error code the processor pushes for it if it does. Nothing if its
gate is absent. -/
def deliver (cpu : Cpu) (vector : UInt8) (code : Option UInt64) : Option Cpu :=
  let gate := cpu.gate vector
  if gate.present then
    let framed := (cpu.set .rsp (cpu.frameTop gate)).pushAll
      ([cpu.ss, cpu.regs .rsp, cpu.rflags, cpu.cs, cpu.rip] ++ code.toList)
    some
      { framed with
        rip := gate.offset
        cs := gate.selector
        ss := if cpu.ring = 0 then cpu.ss else 0
        rflags := cpu.rflags &&& ~~~gate.mask }
  else none

/-- `iretq`: what an interrupt pushed comes back. -/
def iretq (cpu : Cpu) : Cpu :=
  { cpu with
    rip := load cpu.mem cpu.sp
    cs := load cpu.mem (cpu.sp + 8)
    rflags := load cpu.mem (cpu.sp + 16)
    regs := Function.update cpu.regs .rsp (load cpu.mem (cpu.sp + 24))
    ss := load cpu.mem (cpu.sp + 32) }

end Cpu

/-! ### Blocks -/

/-- How a block of operations ends. -/
inductive Exit where
  | call (target : UInt64)
  | jmp (target : UInt64)
  | jmpReg (r : Reg)
  | ret
  | sysretq
  | iretq

/-- What the end of a block does, where `next` is what stands after it. -/
def Exit.exec (next : UInt64) (cpu : Cpu) : Exit → Cpu
  | .call target => { cpu.push next with rip := target }
  | .jmp target => { cpu with rip := target }
  | .jmpReg r => { cpu with rip := cpu.regs r }
  | .ret => { cpu.pop.2 with rip := cpu.pop.1 }
  | .sysretq => cpu.sysretq
  | .iretq => cpu.iretq

/-- An instruction that goes on to the next one, or one that leaves. -/
inductive Instr where
  | op (op : Op)
  | exit (exit : Exit)

/-- The instruction at an address, and the address of the one after it. -/
abbrev Code := UInt64 → Option (Instr × UInt64)

/-- One instruction, of a machine that goes on with it. -/
def step (alu : Alu) (code : Code) (cpu : Cpu) : Option Cpu :=
  if cpu.Calm then
    match code cpu.rip with
    | none => none
    | some (.op op, next) => some { op.exec alu cpu with rip := next }
    | some (.exit exit, next) => some (exit.exec next cpu)
  else none

/-- The machine gets from one state to another by instructions alone. -/
def Reaches (alu : Alu) (code : Code) : Cpu → Cpu → Prop :=
  Relation.ReflTransGen fun cpu cpu' => step alu code cpu = some cpu'

/-- The operations stand one after another from an address to another. -/
def Placed (code : Code) : UInt64 → List Op → UInt64 → Prop
  | a, [], b => a = b
  | a, op :: ops, b => ∃ next, code a = some (.op op, next) ∧ Placed code next ops b

/-- Operations in a row, and a way out. -/
structure Block where
  ops : List Op
  exit : Exit

/-- A block stands in the code from `a`, and `next` is what comes after it. -/
def Block.Stands (code : Code) (block : Block) (a next : UInt64) : Prop :=
  ∃ b, Placed code a block.ops b ∧ code b = some (.exit block.exit, next)

/-- The machine at the end of a block. -/
def Block.run (alu : Alu) (block : Block) (next : UInt64) (cpu : Cpu) : Cpu :=
  block.exit.exec next (execAll alu block.ops cpu)

/-- The machine at another place of the code. -/
def Cpu.goto (cpu : Cpu) (a : UInt64) : Cpu := { cpu with rip := a }

/-- An operation does the same wherever it stands. -/
lemma Op.exec_goto (alu : Alu) (op : Op) (cpu : Cpu) (a : UInt64) :
    op.exec alu (cpu.goto a) = (op.exec alu cpu).goto a := by
  cases op <;> rfl

lemma execAll_goto (alu : Alu) (ops : List Op) (cpu : Cpu) (a : UInt64) :
    execAll alu ops (cpu.goto a) = (execAll alu ops cpu).goto a := by
  induction ops generalizing cpu with
  | nil => rfl
  | cons op ops ih =>
      have hgo := ih (op.exec alu cpu)
      rw [← op.exec_goto] at hgo
      exact hgo

lemma execAll_append (alu : Alu) (ops ops' : List Op) (cpu : Cpu) :
    execAll alu (ops ++ ops') cpu = execAll alu ops' (execAll alu ops cpu) := List.foldl_append

lemma execAll_cons (alu : Alu) (op : Op) (ops : List Op) (cpu : Cpu) :
    execAll alu (op :: ops) cpu = execAll alu ops (op.exec alu cpu) := rfl

@[simp] lemma execAll_nil (alu : Alu) (cpu : Cpu) : execAll alu [] cpu = cpu := rfl

/-- Operations that stand in a row run in a row. -/
lemma reaches_placed {alu : Alu} {code : Code} {ops : List Op} {b : UInt64} {cpu : Cpu}
    (hcalm : cpu.Calm) (h : Placed code cpu.rip ops b) :
    Reaches alu code cpu ((execAll alu ops cpu).goto b) := by
  induction ops generalizing cpu with
  | nil =>
      have hb : cpu.rip = b := h
      subst hb
      exact .refl
  | cons op ops ih =>
      obtain ⟨next, hat, hrest⟩ := h
      have hfirst : step alu code cpu = some ((op.exec alu cpu).goto next) := by
        rw [step, if_pos hcalm, hat]
        rfl
      have hgo := @ih ((op.exec alu cpu).goto next) (op.exec_calm alu hcalm) hrest
      rw [execAll_goto] at hgo
      exact .head hfirst hgo

lemma execAll_calm (alu : Alu) (ops : List Op) {cpu : Cpu} (h : cpu.Calm) :
    (execAll alu ops cpu).Calm := by
  induction ops generalizing cpu with
  | nil => exact h
  | cons op ops ih => exact ih (op.exec_calm alu h)

/-- A block that stands where the machine is runs to its end. -/
lemma Block.reaches (alu : Alu) {code : Code} {block : Block} {next : UInt64} {cpu : Cpu}
    (hcalm : cpu.Calm) (h : block.Stands code cpu.rip next) :
    Reaches alu code cpu (block.run alu next cpu) := by
  obtain ⟨b, hops, hexit⟩ := h
  refine (reaches_placed hcalm hops).tail ?_
  have hops : ((execAll alu block.ops cpu).goto b).Calm := execAll_calm alu block.ops hcalm
  rw [step, if_pos hops, show ((execAll alu block.ops cpu).goto b).rip = b from rfl, hexit]
  cases hblock : block.exit <;> simp only [Block.run, hblock, Option.some.injEq] <;> rfl

/-- Nor does a way out that stays in the kernel. -/
lemma Block.run_calm (alu : Alu) {block : Block} (next : UInt64) {cpu : Cpu} (hcalm : cpu.Calm)
    (hexit : block.exit ≠ .sysretq ∧ block.exit ≠ .iretq) : (block.run alu next cpu).Calm := by
  have hops := execAll_calm alu block.ops hcalm
  rw [Block.run]
  cases hblock : block.exit with
  | sysretq => exact absurd hblock hexit.1
  | iretq => exact absurd hblock hexit.2
  | _ => exact hops

/-! ### Code a page apiece -/

/-- The instructions of a block. -/
def Block.instrs (block : Block) : List Instr := block.ops.map .op ++ [.exit block.exit]

/-- Code whose `n`-th page of 256 addresses holds the `n`-th list, an instruction an address. -/
def paged (pages : ℕ → List Instr) : Code := fun a =>
  ((pages (a.toNat / 256))[a.toNat % 256]?).map fun instr => (instr, a + 1)

/-- What a page holds from some place on is in the code there. -/
lemma paged_at {pages : ℕ → List Instr} {n i : ℕ} {instr : Instr} {rest : List Instr}
    (hn : n < 2 ^ 32) (hlen : (pages n).length ≤ 256) (h : (pages n).drop i = instr :: rest) :
    paged pages (UInt64.ofNat (256 * n + i))
      = some (instr, UInt64.ofNat (256 * n + (i + 1))) := by
  have hin : (pages n)[i]? = some instr := by
    have hhead := congrArg List.head? h
    rwa [List.head?_drop, List.head?_cons] at hhead
  have hi : i < 256 := lt_of_lt_of_le (List.getElem?_eq_some_iff.mp hin).1 hlen
  have haddr : (UInt64.ofNat (256 * n + i)).toNat = 256 * n + i := by
    rw [UInt64.toNat_ofNat']
    omega
  have hnext : UInt64.ofNat (256 * n + i) + 1 = UInt64.ofNat (256 * n + (i + 1)) := by
    rw [← Nat.add_assoc, UInt64.ofNat_add (256 * n + i) 1]
    rfl
  rw [paged, haddr, show (256 * n + i) / 256 = n by omega,
    show (256 * n + i) % 256 = i by omega, hin, hnext]
  rfl

/-- A block stands where it is in its page. -/
lemma paged_stands {pages : ℕ → List Instr} (n i : ℕ) {block : Block} (rest : List Instr)
    (hn : n < 2 ^ 32) (hlen : (pages n).length ≤ 256)
    (h : (pages n).drop i = block.instrs ++ rest) :
    block.Stands (paged pages) (UInt64.ofNat (256 * n + i))
      (UInt64.ofNat (256 * n + (i + block.ops.length + 1))) := by
  obtain ⟨ops, exit⟩ := block
  rw [Block.instrs, List.append_assoc] at h
  simp only at h ⊢
  refine ⟨UInt64.ofNat (256 * n + (i + ops.length)), ?_, ?_⟩
  · induction ops generalizing i with
    | nil => rfl
    | cons op ops ih =>
        refine ⟨_, paged_at hn hlen h, ?_⟩
        have htail : (pages n).drop (i + 1) = ops.map .op ++ ([.exit exit] ++ rest) := by
          rw [← List.tail_drop, h]
          rfl
        have hgo := ih (i + 1) htail
        rwa [show i + 1 + ops.length = i + (ops.length + 1) by omega] at hgo
  · refine @paged_at pages n (i + ops.length) _ rest hn hlen ?_
    rw [← List.drop_drop, h, List.drop_left' (by rw [List.length_map])]
    rfl

/-! ### Words pushed and popped -/

/-- `cpu'` is `cpu` with words pushed, the last on top. -/
structure Pushed (cpu : Cpu) (ws : List UInt64) (cpu' : Cpu) : Prop where
  regs : ∀ r ≠ .rsp, cpu'.regs r = cpu.regs r
  sp : cpu'.sp + 8 * ws.length = cpu.sp
  stacked : Stacked cpu'.mem cpu'.sp ws.reverse
  outside : ∀ a, a < cpu'.sp ∨ cpu.sp ≤ a → cpu'.mem a = cpu.mem a

lemma sp_push (cpu : Cpu) (h : 8 ≤ cpu.sp) (v : UInt64) : (cpu.push v).sp + 8 = cpu.sp := by
  have hle : (8 : UInt64) ≤ cpu.regs .rsp := UInt64.le_iff_toNat_le.mpr h
  rw [Cpu.sp, Cpu.push_rsp, UInt64.toNat_sub_of_le _ _ hle]
  exact Nat.sub_add_cancel h

lemma pushed_nil (cpu : Cpu) : Pushed cpu [] cpu where
  regs _ _ := rfl
  sp := rfl
  stacked := trivial
  outside _ _ := rfl

/-- The last word goes on top of what was pushed before it. -/
lemma Pushed.cons {cpu cpu' : Cpu} {w : UInt64} {ws : List UInt64} (hroom : 8 ≤ cpu.sp)
    (h : Pushed (cpu.push w) ws cpu') : Pushed cpu (w :: ws) cpu' where
  regs r hr := (h.regs r hr).trans (Function.update_of_ne hr _ _)
  sp := by
    have hsp := h.sp
    have htop := sp_push cpu hroom w
    rw [List.length_cons]
    omega
  stacked := by
    rw [List.reverse_cons, stacked_append, List.length_reverse, h.sp]
    refine ⟨h.stacked, ?_, trivial⟩
    rw [load_congr fun a hlow _ => h.outside a (Or.inr hlow)]
    exact load_store _ _ _
  outside a ha := by
    have htop := sp_push cpu hroom w
    have hsp := h.sp
    have hdown : (cpu.push w).sp = (cpu.regs .rsp - 8).toNat := by rw [Cpu.sp, Cpu.push_rsp]
    rw [h.outside a (by omega)]
    exact store_of_outside (by omega)

/-- Words pushed on a stack with room for them. -/
lemma pushAll_spec (cpu : Cpu) (ws : List UInt64) (hroom : 8 * ws.length ≤ cpu.sp) :
    Pushed cpu ws (cpu.pushAll ws) := by
  induction ws generalizing cpu with
  | nil => exact pushed_nil cpu
  | cons w ws ih =>
      rw [List.length_cons] at hroom
      have htop := sp_push cpu (by omega) w
      exact Pushed.cons (by omega) (ih _ (by omega))

/-- More words go over the ones that were pushed. -/
lemma Pushed.append {cpu cpu' cpu'' : Cpu} {ws vs : List UInt64} (h : Pushed cpu ws cpu')
    (h' : Pushed cpu' vs cpu'') : Pushed cpu (ws ++ vs) cpu'' where
  regs r hr := (h'.regs r hr).trans (h.regs r hr)
  sp := by
    have hsp := h.sp
    have hsp' := h'.sp
    rw [List.length_append]
    omega
  stacked := by
    rw [List.reverse_append, stacked_append, List.length_reverse, h'.sp]
    exact ⟨h'.stacked, h.stacked.congr fun a hlow _ => h'.outside a (Or.inr hlow)⟩
  outside a ha := by
    have hsp := h.sp
    have hsp' := h'.sp
    rw [h'.outside a (by omega), h.outside a (by omega)]

/-- What is on a stack is a matter of its registers and its memory. -/
lemma Pushed.congr {cpu cpu' cpu'' : Cpu} {ws : List UInt64} (h : Pushed cpu ws cpu')
    (hregs : cpu''.regs = cpu'.regs) (hmem : cpu''.mem = cpu'.mem) : Pushed cpu ws cpu'' where
  regs r hr := by rw [hregs, h.regs r hr]
  sp := by rw [← h.sp, Cpu.sp, hregs, Cpu.sp]
  stacked := by
    rw [hmem, Cpu.sp, hregs]
    exact h.stacked
  outside a ha := by
    rw [hmem]
    rw [Cpu.sp, hregs] at ha
    exact h.outside a ha

lemma pushAll_system (cpu : Cpu) (ws : List UInt64) :
    (cpu.pushAll ws).toSystem = cpu.toSystem := by
  induction ws generalizing cpu with
  | nil => rfl
  | cons w ws ih => exact ih (cpu.push w)

lemma pushAll_rflags (cpu : Cpu) (ws : List UInt64) : (cpu.pushAll ws).rflags = cpu.rflags := by
  induction ws generalizing cpu with
  | nil => rfl
  | cons w ws ih => exact ih (cpu.push w)

/-- Pushes of registers push what the registers hold. -/
lemma execAll_push (alu : Alu) {rs : List Reg} (hrs : Reg.rsp ∉ rs) (cpu : Cpu) :
    execAll alu (rs.map .push) cpu = cpu.pushAll (rs.map cpu.regs) := by
  induction rs generalizing cpu with
  | nil => rfl
  | cons r rs ih =>
      rw [List.mem_cons, not_or] at hrs
      have hsame : rs.map (cpu.push (cpu.regs r)).regs = rs.map cpu.regs := by
        refine List.map_congr_left fun r' hr' => Function.update_of_ne ?_ _ _
        rintro rfl
        exact hrs.2 hr'
      exact (ih hrs.2 (cpu.push (cpu.regs r))).trans (by rw [hsame]; rfl)

/-- Registers with words put into some of them, in order. -/
def given : List Reg → List UInt64 → (Reg → UInt64) → Reg → UInt64
  | [], _, f => f
  | _ :: _, [], f => f
  | r :: rs, w :: ws, f => given rs ws (Function.update f r w)

lemma given_update {rs : List Reg} {ws : List UInt64} {f : Reg → UInt64} {r : Reg} (hr : r ∉ rs)
    (v : UInt64) :
    given rs ws (Function.update f r v) = Function.update (given rs ws f) r v := by
  induction rs generalizing ws f with
  | nil => rfl
  | cons r' rs ih =>
      rw [List.mem_cons, not_or] at hr
      cases ws with
      | nil => rfl
      | cons w ws => rw [given, given, Function.update_comm hr.1, ih hr.2]

/-- What a register is given does not depend on the others. -/
lemma given_congr {rs : List Reg} {ws : List UInt64} {f g : Reg → UInt64} {r : Reg}
    (h : f r = g r) :
    given rs ws f r = given rs ws g r := by
  induction rs generalizing ws f g with
  | nil => exact h
  | cons r' rs ih =>
      cases ws with
      | nil => exact h
      | cons w ws =>
          refine ih ?_
          by_cases heq : r = r'
          · rw [heq, Function.update_self, Function.update_self]
          · rw [Function.update_of_ne heq, Function.update_of_ne heq, h]

/-- Registers given what a function has for them have it, and the others what they had. -/
lemma given_map (rs : List Reg) (g f : Reg → UInt64) (r : Reg) :
    given rs (rs.map g) f r = if r ∈ rs then g r else f r := by
  induction rs generalizing f with
  | nil => rfl
  | cons r' rs ih =>
      rw [List.map_cons, given, ih]
      by_cases hin : r ∈ rs
      · simp [hin]
      · by_cases heq : r = r'
        · simp [heq]
        · simp [hin, heq]

/-- `cpu'` is `cpu` with registers popped that took the words `ws`. -/
structure Popped (rs : List Reg) (ws : List UInt64) (cpu cpu' : Cpu) : Prop where
  regs : ∀ r ≠ .rsp, cpu'.regs r = given rs ws cpu.regs r
  sp : cpu'.sp = cpu.sp + 8 * rs.length
  rip : cpu'.rip = cpu.rip
  rflags : cpu'.rflags = cpu.rflags
  system : cpu'.toSystem = cpu.toSystem
  mem : cpu'.mem = cpu.mem

/-- The stack pointer, some bytes up. -/
lemma toNat_add_of_lt {x : UInt64} {n : ℕ} (h : x.toNat + n < 2 ^ 64) :
    (x + UInt64.ofNat n).toNat = x.toNat + n := by
  rw [UInt64.toNat_add, UInt64.toNat_ofNat', Nat.mod_eq_of_lt (by omega : n < 2 ^ 64),
    Nat.mod_eq_of_lt h]

/-- Pops of registers take the words on the stack, in order. -/
lemma popAll_spec (alu : Alu) (rs : List Reg) (ws : List UInt64) (cpu : Cpu) (hrs : Reg.rsp ∉ rs)
    (hlen : ws.length = rs.length) (hstack : Stacked cpu.mem cpu.sp ws)
    (hroom : cpu.sp + 8 * rs.length < 2 ^ 64) :
    Popped rs ws cpu (execAll alu (rs.map .pop) cpu) := by
  induction rs generalizing ws cpu with
  | nil => exact ⟨fun _ _ => rfl, rfl, rfl, rfl, rfl, rfl⟩
  | cons r rs ih =>
      rw [List.mem_cons, not_or] at hrs
      cases ws with
      | nil => cases hlen
      | cons w ws =>
          rw [List.length_cons, List.length_cons, Nat.add_right_cancel_iff] at hlen
          rw [List.length_cons] at hroom
          obtain ⟨hword, hstack⟩ := hstack
          have htop : (Op.exec alu (.pop r) cpu).regs .rsp = cpu.regs .rsp + UInt64.ofNat 8 := by
            simp [Op.exec, Cpu.set, Cpu.pop, Function.update_of_ne hrs.1]
          have hsp : (Op.exec alu (.pop r) cpu).sp = cpu.sp + 8 := by
            rw [Cpu.sp, htop, toNat_add_of_lt (show cpu.sp + 8 < 2 ^ 64 by omega), Cpu.sp]
          have hregs : (Op.exec alu (.pop r) cpu).regs
              = Function.update (Function.update cpu.regs .rsp (cpu.regs .rsp + 8)) r w := by
            rw [← hword]
            rfl
          have hgo := ih _ (Op.exec alu (.pop r) cpu) hrs.2 hlen (by rw [hsp]; exact hstack)
            (by rw [hsp]; omega)
          refine ⟨fun r' hr' => ?_, ?_, hgo.rip, hgo.rflags, hgo.system, hgo.mem⟩
          · refine (hgo.regs r' hr').trans ?_
            rw [hregs, given, Function.update_comm hrs.1, given_update hrs.2,
              Function.update_of_ne hr']
          · refine hgo.sp.trans ?_
            rw [hsp, List.length_cons]
            omega

/-- The stack pointer moved up by an operation. -/
lemma sp_add (alu : Alu) {cpu : Cpu} {n : ℕ} (h : cpu.sp + n < 2 ^ 64) :
    (Op.exec alu (.add .rsp (UInt64.ofNat n)) cpu).sp = cpu.sp + n := by
  have hrsp : (Op.exec alu (.add .rsp (UInt64.ofNat n)) cpu).regs .rsp
      = cpu.regs .rsp + UInt64.ofNat n := by
    simp [Op.exec, Cpu.set]
  rw [Cpu.sp, hrsp, toNat_add_of_lt h, Cpu.sp]

/-- The stack pointer moved down by an operation. -/
lemma sp_sub (alu : Alu) {cpu : Cpu} {n : ℕ} (h : n ≤ cpu.sp) :
    (Op.exec alu (.sub .rsp (UInt64.ofNat n)) cpu).sp = cpu.sp - n := by
  have hn : (UInt64.ofNat n).toNat = n := by
    have hlt := (cpu.regs .rsp).toNat_lt
    exact Nat.mod_eq_of_lt (lt_of_le_of_lt h hlt)
  have hrsp : (Op.exec alu (.sub .rsp (UInt64.ofNat n)) cpu).regs .rsp
      = cpu.regs .rsp - UInt64.ofNat n := by
    simp [Op.exec, Cpu.set]
  rw [Cpu.sp, hrsp, UInt64.toNat_sub_of_le _ _ (UInt64.le_iff_toNat_le.mpr (by rw [hn]; exact h)),
    hn, Cpu.sp]

/-- Registers cleared one after another. -/
lemma clearAll_spec (alu : Alu) (rs : List Reg) (cpu : Cpu) :
    (∀ r, (execAll alu (rs.map .xor32) cpu).regs r = if r ∈ rs then 0 else cpu.regs r) ∧
      (execAll alu (rs.map .xor32) cpu).toSystem = cpu.toSystem ∧
      (execAll alu (rs.map .xor32) cpu).mem = cpu.mem := by
  induction rs generalizing cpu with
  | nil => simp
  | cons r rs ih =>
      obtain ⟨hregs, hsystem, hmem⟩ := ih (Op.exec alu (.xor32 r) cpu)
      rw [List.map_cons, execAll_cons]
      refine ⟨fun r' => ?_, hsystem, hmem⟩
      rw [hregs r']
      by_cases heq : r' = r
      · simp [heq, Op.exec, Cpu.set]
      · rw [Op.exec_regs alu (List.not_mem_cons_of_ne_of_not_mem heq List.not_mem_nil)]
        simp [heq]

/-! ### Calls -/

/-- Clearing the low four bits goes down to a multiple of sixteen. -/
lemma toNat_align (x : UInt64) : (x &&& ~~~15).toNat = x.toNat / 16 * 16 := by
  have hmask : (~~~15 : UInt64).toNat = (2 ^ 60 - 1) <<< 4 := rfl
  have hdiv : x.toNat / 16 * 16 = x.toNat >>> 4 <<< 4 := by
    rw [Nat.shiftRight_eq_div_pow, Nat.shiftLeft_eq]
  rw [UInt64.toNat_and, hmask, hdiv]
  refine Nat.eq_of_testBit_eq fun i => ?_
  rw [Nat.testBit_and, Nat.testBit_shiftLeft, Nat.testBit_shiftLeft, Nat.testBit_two_pow_sub_one,
    Nat.testBit_shiftRight]
  by_cases hlow : 4 ≤ i
  · have hback : 4 + (i - 4) = i := by omega
    by_cases hhigh : i < 64
    · simp [hback, hlow, show i - 4 < 60 by omega]
    · have hzero : x.toNat.testBit i = false :=
        Nat.testBit_lt_two_pow
          (lt_of_lt_of_le x.toNat_lt (Nat.pow_le_pow_right (by omega) (by omega)))
      simp [hback, hzero]
  · simp [hlow]

/-- `cpu'` is about to run a function that `cpu` called with thirty-two bytes of shadow space. -/
structure Called (cpu : Cpu) (next target : UInt64) (cpu' : Cpu) : Prop where
  rip : cpu'.rip = target
  sp : cpu'.sp + 40 = cpu.sp
  regs : ∀ r ≠ .rsp, cpu'.regs r = cpu.regs r
  system : cpu'.toSystem = cpu.toSystem
  back : load cpu'.mem cpu'.sp = next
  outside : ∀ a, a < cpu'.sp ∨ cpu'.sp + 8 ≤ a → cpu'.mem a = cpu.mem a

lemma called_spec (alu : Alu) (cpu : Cpu) (hroom : 40 ≤ cpu.sp) (next target : UInt64) :
    Called cpu next target (Exit.exec next (Op.exec alu (.sub .rsp 32) cpu) (.call target)) := by
  have hsub : (Op.exec alu (.sub .rsp 32) cpu).sp = cpu.sp - 32 := sp_sub alu (n := 32) (by omega)
  have hpush := sp_push (Op.exec alu (.sub .rsp 32) cpu) (by omega) next
  have hsp : (Exit.exec next (Op.exec alu (.sub .rsp 32) cpu) (.call target)).sp
      = ((Op.exec alu (.sub .rsp 32) cpu).push next).sp := rfl
  have hmem : (Exit.exec next (Op.exec alu (.sub .rsp 32) cpu) (.call target)).mem
      = store cpu.mem ((Op.exec alu (.sub .rsp 32) cpu).push next).sp next := by
    rw [Cpu.sp, Cpu.push_rsp]
    rfl
  refine ⟨rfl, by omega, fun r hr => ?_, rfl, ?_, fun a ha => ?_⟩
  · exact (Function.update_of_ne hr _ _).trans (Function.update_of_ne hr _ _)
  · rw [hmem, hsp, load_store]
  · rw [hmem, store_of_outside (by omega)]

/-! ### Interrupts -/

/-- `cpu'` is at the first instruction of a gate that took an interrupt of `cpu`, over a frame
that ends at `base`. -/
structure Delivered (cpu : Cpu) (vector : UInt8) (code : Option UInt64) (base : ℕ)
    (cpu' : Cpu) : Prop where
  pushed : Pushed (cpu.set .rsp (UInt64.ofNat base))
    ([cpu.ss, cpu.regs .rsp, cpu.rflags, cpu.cs, cpu.rip] ++ code.toList) cpu'
  rip : cpu'.rip = (cpu.gate vector).offset
  system : cpu'.toSystem = { cpu.toSystem with
    cs := (cpu.gate vector).selector
    ss := if cpu.ring = 0 then cpu.ss else 0 }
  rflags : cpu'.rflags = cpu.rflags &&& ~~~(cpu.gate vector).mask

/-- Whatever was interrupted, the gate goes on. -/
lemma Delivered.calm {cpu cpu' : Cpu} {vector : UInt8} {code : Option UInt64} {base : ℕ}
    (h : Delivered cpu vector code base cpu') : cpu'.Calm := by
  rw [Cpu.Calm, h.rflags]
  refine and_trap_of_mask ?_
  rw [Cpu.Gate.mask]
  split <;> rfl

/-- A present gate takes an interrupt, given room for its frame. -/
lemma deliver_spec {cpu : Cpu} {vector : UInt8} (code : Option UInt64) {base : ℕ}
    (hpresent : (cpu.gate vector).present = true)
    (hbase : (cpu.frameTop (cpu.gate vector)).toNat = base) (hroom : 48 ≤ base) :
    ∃ cpu', cpu.deliver vector code = some cpu' ∧ Delivered cpu vector code base cpu' := by
  have hword : cpu.frameTop (cpu.gate vector) = UInt64.ofNat base := by
    rw [← hbase, UInt64.ofNat_toNat]
  have hlen : ([cpu.ss, cpu.regs .rsp, cpu.rflags, cpu.cs, cpu.rip] ++ code.toList).length
      ≤ 6 := by
    cases code <;> simp
  have hsp : (cpu.set .rsp (UInt64.ofNat base)).sp = base := by
    rw [← hword, Cpu.sp_set, hbase]
  have hpushed := pushAll_spec (cpu.set .rsp (UInt64.ofNat base))
    ([cpu.ss, cpu.regs .rsp, cpu.rflags, cpu.cs, cpu.rip] ++ code.toList) (by omega)
  have hsystem := pushAll_system (cpu.set .rsp (UInt64.ofNat base))
    ([cpu.ss, cpu.regs .rsp, cpu.rflags, cpu.cs, cpu.rip] ++ code.toList)
  rw [Cpu.deliver, if_pos hpresent, hword]
  generalize (cpu.set .rsp (UInt64.ofNat base)).pushAll
    ([cpu.ss, cpu.regs .rsp, cpu.rflags, cpu.cs, cpu.rip] ++ code.toList)
    = framed at hpushed hsystem ⊢
  refine ⟨_, rfl, hpushed.congr rfl rfl, rfl, ?_, rfl⟩
  rw [hsystem]
  rfl

/-- What a program sees of the machine it runs on. -/
structure Context where
  regs : Reg → UInt64
  rip : UInt64
  rflags : UInt64
  cs : UInt64
  ss : UInt64

/-- What of the processor a task takes with it. -/
def Cpu.context (cpu : Cpu) : Context where
  regs := cpu.regs
  rip := cpu.rip
  rflags := cpu.rflags
  cs := cpu.cs
  ss := cpu.ss

/-- What an interrupt leaves on the stack for `iretq`, from the lowest address up. -/
def Context.frame (c : Context) : List UInt64 := [c.rip, c.cs, c.rflags, c.regs .rsp, c.ss]

/-- `iretq` over the frame of a context, with its registers back, goes on with it. -/
lemma iretq_context {cpu : Cpu} {c : Context} (hregs : ∀ r ≠ .rsp, cpu.regs r = c.regs r)
    (hframe : Stacked cpu.mem cpu.sp c.frame) : cpu.iretq.context = c := by
  obtain ⟨hrip, hcs, hflags, hrsp, hss, -⟩ := hframe
  have hall : cpu.iretq.regs = c.regs := by
    funext r
    by_cases hr : r = .rsp
    · subst hr
      simpa [Cpu.iretq] using hrsp
    · exact (Function.update_of_ne hr _ _).trans (hregs r hr)
  cases c
  simp only [Cpu.context, Context.mk.injEq]
  exact ⟨hall, hrip, hflags, hcs, hss⟩

/-- What a compiled function leaves for its caller: where it goes on, its stack, the registers a
function keeps, and the words a region of memory holds. -/
structure Returned (cpu cpu' : Cpu) (region : ℕ → Prop) : Prop where
  rip : cpu'.rip = load cpu.mem cpu.sp
  sp : cpu'.sp = cpu.sp + 8
  kept : ∀ r ∈ calleeSaved, cpu'.regs r = cpu.regs r
  system : cpu'.toSystem = cpu.toSystem
  calm : cpu.Calm → cpu'.Calm
  region : ∀ a, region a → cpu'.mem a = cpu.mem a

end Amd64
