import Harlan.Arch.Stubs

/-! The tables the processor reads for itself: the selectors, the task state segment and the gates
(`arch/x86_64/src/gdt.rs`, `idt.rs`, and the tables of `interrupts.rs`). The descriptors behind
the selectors are not modelled.

* `installGates`: every gate the kernel fills in, in the order it does.
* `installGates_apply`: which stub a vector ends up with, and on which stack.
* `gate_eq`: what the processor reads back from a gate in memory.
* `star_sysret`: the selectors `sysretq` takes.
-/

namespace Harlan.Descriptors

open Amd64

/-! ### Segments -/

/-- The kernel's code segment: the first descriptor of the table after the null one. -/
def kernelCodeSelector : UInt16 := 0x08

/-- The kernel's data segment. -/
def kernelDataSelector : UInt16 := 0x10

/-- The data segment of ring 3. It stands before the code segment, as `sysretq` wants it. -/
def userDataSelector : UInt16 := 0x18 ||| 3

/-- The code segment of ring 3. -/
def userCodeSelector : UInt16 := 0x20 ||| 3

/-- What `sysretq` adds 8 and 16 to for its data and code segments. -/
def sysretSelectorBase : UInt16 := 0x10

/-- The entry of the interrupt stack table that a double fault runs on. -/
def doubleFaultIstIndex : UInt8 := 1

/-- What `syscall::init` puts in `IA32_STAR` and `IA32_FMASK`. -/
def star : UInt64 := (sysretSelectorBase.toUInt64 <<< 48) ||| (kernelCodeSelector.toUInt64 <<< 32)

/-- The flags that `syscall` clears: the interrupt flag, the direction flag and the alignment
check. -/
def fmask : UInt64 := ((1 : UInt64) <<< 9) ||| ((1 : UInt64) <<< 10) ||| ((1 : UInt64) <<< 18)

/-- `sysretq` returns with those of ring 3. -/
lemma star_sysret : ((star >>> 48) + 16) ||| 3 = userCodeSelector.toUInt64 ∧
    ((star >>> 48) + 8) ||| 3 = userDataSelector.toUInt64 := by decide

/-! ### Gates -/

/-- The type of a gate that clears the interrupt flag. -/
def gateTypeInterrupt : UInt8 := 0b1110

/-- `IdtEntry`. -/
structure IdtEntry where
  offsetLow : UInt16
  selector : UInt16
  ist : UInt8
  typeAttr : UInt8
  offsetMid : UInt16
  offsetHigh : UInt32
  reserved : UInt32
deriving DecidableEq

/-- `IdtEntry::missing`. -/
def IdtEntry.missing : IdtEntry := ⟨0, 0, 0, 0, 0, 0, 0⟩

/-- `IdtEntry::new`. -/
def IdtEntry.new (handler : UInt64) (selector : UInt16) (ist gateType : UInt8) : IdtEntry where
  offsetLow := (handler &&& 0xFFFF).toUInt16
  selector := selector
  ist := ist &&& 0b111
  typeAttr := ((1 : UInt8) <<< 7) ||| ((0 : UInt8) <<< 5) ||| (gateType &&& 0b1111)
  offsetMid := ((handler >>> 16) &&& 0xFFFF).toUInt16
  offsetHigh := ((handler >>> 32) &&& 0xFFFFFFFF).toUInt32
  reserved := 0

/-- `Idt`. -/
abbrev Idt := UInt8 → IdtEntry

/-- `Idt::new`. -/
def Idt.new : Idt := fun _ => .missing

/-- An entry in memory, field by field. -/
structure EntryAt (mem : ByteMemory) (a : ℕ) (entry : IdtEntry) : Prop where
  offsetLow : getWord mem a 2 = entry.offsetLow.toNat
  selector : getWord mem (a + 2) 2 = entry.selector.toNat
  ist : getWord mem (a + 4) 1 = entry.ist.toNat
  typeAttr : getWord mem (a + 5) 1 = entry.typeAttr.toNat
  offsetMid : getWord mem (a + 6) 2 = entry.offsetMid.toNat
  offsetHigh : getWord mem (a + 8) 4 = entry.offsetHigh.toNat
  reserved : getWord mem (a + 12) 4 = entry.reserved.toNat

/-- The fields of an entry, as bytes, in order. -/
def IdtEntry.fields (e : IdtEntry) : List (List UInt8) :=
  [leBytes 2 e.offsetLow.toNat, leBytes 2 e.selector.toNat, leBytes 1 e.ist.toNat,
    leBytes 1 e.typeAttr.toNat, leBytes 2 e.offsetMid.toNat, leBytes 4 e.offsetHigh.toNat,
    leBytes 4 e.reserved.toNat]

/-- A field of an entry whose bytes are in memory. -/
lemma getWord_field {mem : ByteMemory} {a : ℕ} {e : IdtEntry}
    (h : ∀ i < 16, mem (a + i) = e.fields.flatten.getD i 0) (k offset : ℕ) {width value : ℕ}
    (hk : e.fields[k]? = some (leBytes width value))
    (hoffset : ((e.fields.take k).map List.length).sum = offset) (hin : offset + width ≤ 16)
    (hvalue : value < 256 ^ width) : getWord mem (a + offset) width = value := by
  refine (getWord_leBytes fun i hi => ?_).trans (Nat.mod_eq_of_lt hvalue)
  rw [add_assoc, h (offset + i) (by omega)]
  exact flatten_getD hk hoffset (by rwa [length_leBytes])

/-- An entry is in memory where its bytes are. -/
lemma entryAt_of_bytes {mem : ByteMemory} {a : ℕ} {e : IdtEntry}
    (h : ∀ i < 16, mem (a + i) = e.fields.flatten.getD i 0) : EntryAt mem a e where
  offsetLow := getWord_field h 0 0 rfl rfl (by decide) e.offsetLow.toNat_lt
  selector := getWord_field h 1 2 rfl rfl (by decide) e.selector.toNat_lt
  ist := getWord_field h 2 4 rfl rfl (by decide) e.ist.toNat_lt
  typeAttr := getWord_field h 3 5 rfl rfl (by decide) e.typeAttr.toNat_lt
  offsetMid := getWord_field h 4 6 rfl rfl (by decide) e.offsetMid.toNat_lt
  offsetHigh := getWord_field h 5 8 rfl rfl (by decide) e.offsetHigh.toNat_lt
  reserved := getWord_field h 6 12 rfl rfl (by decide) e.reserved.toNat_lt

/-- The low word of an entry, and the high one. -/
lemma EntryAt.words {mem : ByteMemory} {a : ℕ} {e : IdtEntry} (h : EntryAt mem a e) :
    getWord mem a 8 = e.offsetLow.toNat + 2 ^ 16 * e.selector.toNat + 2 ^ 32 * e.ist.toNat
        + 2 ^ 40 * e.typeAttr.toNat + 2 ^ 48 * e.offsetMid.toNat ∧
      getWord mem (a + 8) 8 = e.offsetHigh.toNat + 2 ^ 32 * e.reserved.toNat := by
  have hlow : getWord mem a 8 = getWord mem a 2 + 256 ^ 2 * getWord mem (a + 2) 2
      + 256 ^ 4 * getWord mem (a + 4) 1 + 256 ^ 5 * getWord mem (a + 5) 1 + 256 ^ 6 * getWord mem
        (a + 6) 2 := by
    rw [show 8 = 2 + (2 + (1 + (1 + 2))) from rfl, getWord_add, getWord_add, getWord_add,
      getWord_add]
    ring
  have hhigh : getWord mem (a + 8) 8 = getWord mem (a + 8) 4 + 256 ^ 4 * getWord mem (a + 12) 4 :=
    getWord_add mem (a + 8) 4 4
  rw [hlow, hhigh, h.offsetLow, h.selector, h.ist, h.typeAttr, h.offsetMid,
    h.offsetHigh, h.reserved]
  exact ⟨by ring, by ring⟩

/-- The fields of an entry, as numbers. -/
lemma IdtEntry.new_fields (handler : UInt64) (selector : UInt16) (ist : UInt8) :
    (new handler selector ist gateTypeInterrupt).offsetLow.toNat = handler.toNat % 2 ^ 16 ∧
      (new handler selector ist gateTypeInterrupt).offsetMid.toNat
        = handler.toNat / 2 ^ 16 % 2 ^ 16 ∧
      (new handler selector ist gateTypeInterrupt).offsetHigh.toNat
        = handler.toNat / 2 ^ 32 % 2 ^ 32 ∧
      (new handler selector ist gateTypeInterrupt).ist.toNat = ist.toNat % 8 := by
  refine ⟨?_, ?_, ?_, ?_⟩
  · rw [new, UInt64.toNat_toUInt16, UInt64.toNat_and]
    exact (congrArg (· % 2 ^ 16) (Nat.and_two_pow_sub_one_eq_mod _ 16)).trans (Nat.mod_mod _ _)
  · rw [new, UInt64.toNat_toUInt16, UInt64.toNat_and, UInt64.toNat_shiftRight]
    refine (congrArg (· % 2 ^ 16) (Nat.and_two_pow_sub_one_eq_mod _ 16)).trans
      ((Nat.mod_mod _ _).trans ?_)
    exact congrArg (· % 2 ^ 16) (Nat.shiftRight_eq_div_pow _ 16)
  · rw [new, UInt64.toNat_toUInt32, UInt64.toNat_and, UInt64.toNat_shiftRight]
    refine (congrArg (· % 2 ^ 32) (Nat.and_two_pow_sub_one_eq_mod _ 32)).trans
      ((Nat.mod_mod _ _).trans ?_)
    exact congrArg (· % 2 ^ 32) (Nat.shiftRight_eq_div_pow _ 32)
  · rw [new, UInt8.toNat_and]
    exact Nat.and_two_pow_sub_one_eq_mod _ 3

/-- The fields of a word, each above the ones before it. -/
lemma fields_of_word {low mid sel ist attr first : ℕ}
    (h : low = first + 2 ^ 16 * sel + 2 ^ 32 * ist + 2 ^ 40 * attr + 2 ^ 48 * mid)
    (hfirst : first < 2 ^ 16) (hsel : sel < 2 ^ 16) (hist : ist < 8) (hattr : attr < 2 ^ 8)
    (hmid : mid < 2 ^ 16) :
    low % 2 ^ 16 = first ∧ low / 2 ^ 16 % 2 ^ 16 = sel ∧ low / 2 ^ 32 % 8 = ist
      ∧ low / 2 ^ 40 % 2 ^ 8 = attr ∧
      low / 2 ^ 48 % 2 ^ 16 = mid := by
  subst h
  refine ⟨by omega, by omega, by omega, by omega, by omega⟩

/-- What the processor reads from an entry in memory. -/
lemma gateOf_entry {mem : ByteMemory} {a : ℕ} {handler : UInt64} {selector : UInt16} {ist : UInt8}
    (h : EntryAt mem a (.new handler selector ist gateTypeInterrupt)) :
    Cpu.gateOf (getWord mem a 8) (getWord mem (a + 8) 8) =
      { offset := handler, selector := selector.toUInt64, ist := ist.toNat % 8
        type := 0b1110, dpl := 0, present := true } := by
  obtain ⟨hlow, hhigh⟩ := h.words
  obtain ⟨hfirst, hmid, hlast, hist⟩ := IdtEntry.new_fields handler selector ist
  have hselector := selector.toNat_lt
  have hhandler := handler.toNat_lt
  have hword : (IdtEntry.new handler selector ist gateTypeInterrupt).selector.toNat
      = selector.toNat := rfl
  have hattr : (IdtEntry.new handler selector ist gateTypeInterrupt).typeAttr.toNat
      = 0b10001110 := rfl
  have hzero : (IdtEntry.new handler selector ist gateTypeInterrupt).reserved.toNat = 0 := rfl
  rw [hfirst, hmid, hist, hattr, hword] at hlow
  rw [hlast, hzero] at hhigh
  obtain ⟨hlow1, hsel, hnum, htype, hlow2⟩ :=
    fields_of_word hlow (Nat.mod_lt _ (by decide)) hselector
    (Nat.mod_lt _ (by decide)) (by decide) (Nat.mod_lt _ (by decide))
  have hhigh' : getWord mem (a + 8) 8 % 2 ^ 32 = handler.toNat / 2 ^ 32 % 2 ^ 32 := by
    rw [hhigh, Nat.mul_zero, Nat.add_zero, Nat.mod_mod]
  have hoffset : getWord mem a 8 % 2 ^ 16 + getWord mem a 8 / 2 ^ 48 % 2 ^ 16 * 2 ^ 16
      + getWord mem (a + 8) 8 % 2 ^ 32 * 2 ^ 32 = handler.toNat := by
    rw [hlow1, hlow2, hhigh']
    clear hlow hhigh hlow1 hlow2 hhigh' hsel hnum htype hfirst hmid hlast hist
    omega
  clear hlow hhigh hlow1 hlow2 hhigh' hfirst hmid hlast hist
  have hkind : getWord mem a 8 / 2 ^ 40 % 16 = 0b1110 := by omega
  have hdpl : getWord mem a 8 / 2 ^ 45 % 4 = 0 := by omega
  have hpresent : getWord mem a 8 / 2 ^ 47 % 2 = 1 := by omega
  simp only [Cpu.gateOf, Cpu.Gate.mk.injEq]
  refine ⟨?_, ?_, hnum, hkind, hdpl, ?_⟩
  · rw [hoffset, UInt64.ofNat_toNat]
  · rw [hsel]
    exact UInt64.toNat_inj.mp (Nat.mod_eq_of_lt (by omega))
  · rw [hpresent, decide_eq_true rfl]

/-! ### The table -/

/-- The vectors with a name of their own in `install_gates`, each with whether its stub is one for
an error code. -/
def namedGates : List (UInt8 × Bool) :=
  [(0, false), (2, false), (3, false), (13, true), (14, true)]

/-- `OTHER_EXCEPTION_GATES`. -/
def otherExceptionGates : List (UInt8 × Bool) :=
  [(1, false), (4, false), (5, false), (6, false), (7, false), (9, false), (10, true),
    (11, true), (12, true), (15, false), (16, false), (17, true), (18, false), (19, false),
    (20, false), (21, true), (22, false), (23, false), (24, false), (25, false), (26, false),
    (27, false), (28, false), (29, true), (30, true), (31, false)]

/-- The two lines of the interrupt controller that have a stub. -/
def lineGates : List (UInt8 × Bool) := [(0x20, false), (0x21, false)]

/-- `pushes_error_code`. -/
def pushesErrorCode (vector : UInt8) : Bool := vector ∈ [8, 10, 11, 12, 13, 14, 17, 21, 29, 30]

/-- The stub a gate goes to. -/
inductive Wired where
  /-- `spurious_interrupt_stub`. -/
  | spurious
  /-- `double_fault_stub`, on its own stack. -/
  | doubleFault
  /-- A stub of the vector's own, with an error code or without. -/
  | named (withErrorCode : Bool)
deriving DecidableEq

/-- Where the stubs are. -/
structure StubAddresses where
  spurious : UInt64
  doubleFault : UInt64
  named : UInt8 → UInt64

/-- The entry of a vector that goes to a stub. -/
def StubAddresses.entry (stubs : StubAddresses) (vector : UInt8) : Wired → IdtEntry
  | .spurious => .new stubs.spurious kernelCodeSelector 0 gateTypeInterrupt
  | .doubleFault =>
      .new stubs.doubleFault kernelCodeSelector doubleFaultIstIndex gateTypeInterrupt
  | .named _ => .new (stubs.named vector) kernelCodeSelector 0 gateTypeInterrupt

/-- What `install_gates` writes, in order. -/
def gateWrites : List (UInt8 × Wired) :=
  (List.range' 32 224).map (fun vector => (UInt8.ofNat vector, .spurious))
    ++ (namedGates.map (fun gate => (gate.1, .named gate.2))
      ++ [(8, .doubleFault)]
      ++ otherExceptionGates.map (fun gate => (gate.1, .named gate.2))
      ++ lineGates.map (fun gate => (gate.1, .named gate.2)))

/-- `install_gates`. -/
def installGates (stubs : StubAddresses) (idt : Idt) : Idt :=
  gateWrites.foldl (fun idt write =>
    Function.update idt write.1 (stubs.entry write.1 write.2)) idt

/-- The last of the writes to a vector. -/
def lastWrite (writes : List (UInt8 × Wired)) (vector : UInt8) : Option Wired :=
  (writes.reverse.find? fun write => write.1 == vector).map Prod.snd

/-- A vector holds the last entry written to it. -/
lemma foldl_update_apply (stubs : StubAddresses) (idt : Idt) (vector : UInt8)
    (writes : List (UInt8 × Wired)) :
    writes.foldl (fun idt write =>
      Function.update idt write.1 (stubs.entry write.1 write.2)) idt vector
      = ((lastWrite writes vector).map (stubs.entry vector)).getD (idt vector) := by
  induction writes using List.reverseRecOn with
  | nil => rfl
  | append_singleton writes write ih =>
      rw [List.foldl_append, List.foldl_cons, List.foldl_nil, lastWrite, List.reverse_append,
        List.reverse_singleton, List.singleton_append]
      by_cases hv : write.1 = vector
      · subst hv
        rw [Function.update_self, List.find?_cons_of_pos (by simp)]
        rfl
      · rw [Function.update_of_ne (Ne.symm hv), List.find?_cons_of_neg (by simpa using hv),
          ih, lastWrite]

/-- The vectors with an error code are exceptions. -/
lemma le_of_pushesErrorCode {vector : UInt8} (h : pushesErrorCode vector = true) :
    vector ≤ 0x21 := by
  simp only [pushesErrorCode, List.mem_cons, List.not_mem_nil, or_false, decide_eq_true_eq] at h
  obtain rfl | rfl | rfl | rfl | rfl | rfl | rfl | rfl | rfl | rfl := h <;> decide

/-- The stub a vector ends up with. -/
def wired (vector : UInt8) : Wired :=
  if vector = 8 then .doubleFault
  else if vector ≤ 0x21 then .named (pushesErrorCode vector)
  else .spurious

lemma lastWrite_append (writes writes' : List (UInt8 × Wired)) (vector : UInt8) :
    lastWrite (writes ++ writes') vector
      = (lastWrite writes' vector).or (lastWrite writes vector) := by
  rw [lastWrite, lastWrite, lastWrite, List.reverse_append, List.find?_append, Option.map_or]

/-- Writes of one kind leave that kind wherever they write. -/
lemma lastWrite_of_all {writes : List (UInt8 × Wired)} {kind : Wired} {vector : UInt8}
    (hall : ∀ write ∈ writes, write.2 = kind) (hmem : vector ∈ writes.map Prod.fst) :
    lastWrite writes vector = some kind := by
  obtain ⟨write, hwrite, rfl⟩ := List.mem_map.mp hmem
  rw [lastWrite]
  cases hfind : writes.reverse.find? fun other => other.1 == write.1 with
  | none =>
      have hnone := List.find?_eq_none.mp hfind write (List.mem_reverse.mpr hwrite)
      simp at hnone
  | some other =>
      have hother := hall other (List.mem_reverse.mp (List.mem_of_find?_eq_some hfind))
      rw [Option.map_some, hother]

lemma lastWrite_gateWrites (vector : UInt8) :
    lastWrite gateWrites vector = some (wired vector) := by
  have hlast : ∀ n : Fin 256,
      lastWrite (namedGates.map (fun gate => (gate.1, .named gate.2)) ++ [(8, .doubleFault)]
        ++ otherExceptionGates.map (fun gate => (gate.1, .named gate.2))
        ++ lineGates.map (fun gate => (gate.1, .named gate.2))) (UInt8.ofNat n)
      = if n.val ≤ 0x21 then some (wired (UInt8.ofNat n)) else none := by
    decide +kernel
  have hvector := hlast ⟨vector.toNat, vector.toNat_lt⟩
  rw [UInt8.ofNat_toNat] at hvector
  rw [gateWrites, lastWrite_append, hvector]
  by_cases hle : vector.toNat ≤ 0x21
  · rw [if_pos hle, Option.some_or]
  · have hlt := vector.toNat_lt
    have hwired : wired vector = .spurious := by
      rw [wired, if_neg (by rintro rfl; exact hle (by decide)),
        if_neg (fun h => hle (UInt8.le_iff_toNat_le.mp h))]
    rw [if_neg hle, Option.none_or, hwired]
    refine lastWrite_of_all (fun write hwrite => ?_) ?_
    · obtain ⟨n, -, rfl⟩ := List.mem_map.mp hwrite
      rfl
    · rw [List.map_map]
      exact List.mem_map.mpr ⟨vector.toNat, List.mem_range'_1.mpr ⟨by omega, by omega⟩,
        UInt8.ofNat_toNat⟩

/-- Every vector has a gate, and its stub is one for an error code exactly if the processor pushes
one for it. -/
lemma installGates_apply (stubs : StubAddresses) (idt : Idt) (vector : UInt8) :
    installGates stubs idt vector = stubs.entry vector (wired vector) := by
  rw [installGates, foldl_update_apply, lastWrite_gateWrites]
  rfl

/-- A table in memory. -/
def TableAt (mem : ByteMemory) (base : ℕ) (idt : Idt) : Prop :=
  ∀ vector : UInt8, EntryAt mem (base + 16 * vector.toNat) (idt vector)

/-- The memory with a table at `base`. -/
def putTable (mem : ByteMemory) (base : ℕ) (idt : Idt) : ByteMemory := fun a =>
  if base ≤ a ∧ a < base + 4096 then
    (idt (UInt8.ofNat ((a - base) / 16))).fields.flatten.getD ((a - base) % 16) 0
  else mem a

lemma tableAt_putTable (mem : ByteMemory) (base : ℕ) (idt : Idt) :
    TableAt (putTable mem base idt) base idt := by
  intro vector
  refine entryAt_of_bytes fun i hi => ?_
  have hvector := vector.toNat_lt
  rw [putTable, if_pos ⟨by omega, by omega⟩, show (base + 16 * vector.toNat + i - base) / 16
    = vector.toNat by omega, show (base + 16 * vector.toNat + i - base) % 16 = i by omega,
      UInt8.ofNat_toNat]

lemma TableAt.congr {mem mem' : ByteMemory} {base : ℕ} {idt : Idt} (h : TableAt mem base idt)
    (hsame : ∀ a, base ≤ a → a < base + 4096 → mem' a = mem a) : TableAt mem' base idt := by
  intro vector
  have hvector := vector.toNat_lt
  have hfield : ∀ offset width, offset + width ≤ 16 →
      getWord mem' (base + 16 * vector.toNat + offset) width
        = getWord mem (base + 16 * vector.toNat + offset) width :=
    fun offset width hin => getWord_congr fun a hlow hhigh => hsame a (by omega) (by omega)
  obtain ⟨h1, h2, h3, h4, h5, h6, h7⟩ := h vector
  exact ⟨(hfield 0 2 (by decide)).trans h1, (hfield 2 2 (by decide)).trans h2,
    (hfield 4 1 (by decide)).trans h3, (hfield 5 1 (by decide)).trans h4,
    (hfield 6 2 (by decide)).trans h5, (hfield 8 4 (by decide)).trans h6,
    (hfield 12 4 (by decide)).trans h7⟩

/-- The address a gate goes to. -/
def StubAddresses.of (stubs : StubAddresses) (vector : UInt8) : UInt64 :=
  match wired vector with
  | .spurious => stubs.spurious
  | .doubleFault => stubs.doubleFault
  | .named _ => stubs.named vector

/-- What the processor reads for any vector, once the gates are installed: its stub, in the
kernel's segment, closed to ring 3, on the stack in use unless it is a double fault. -/
lemma gate_eq {stubs : StubAddresses} {idt : Idt} {cpu : Cpu}
    (h : TableAt cpu.mem cpu.idtr (installGates stubs idt)) (vector : UInt8) :
    cpu.gate vector =
      { offset := stubs.of vector, selector := kernelCodeSelector.toUInt64,
        ist := if vector = 8 then 1 else 0
        type := 0b1110, dpl := 0, present := true } := by
  have hentry := h vector
  rw [installGates_apply] at hentry
  rw [Cpu.gate, StubAddresses.of]
  by_cases hfault : vector = 8
  · subst hfault
    exact gateOf_entry hentry
  · rw [if_neg hfault]
    by_cases hnamed : vector ≤ 0x21
    · have hwired : wired vector = .named (pushesErrorCode vector) := by
        rw [wired, if_neg hfault, if_pos hnamed]
      rw [hwired] at hentry ⊢
      exact gateOf_entry hentry
    · have hwired : wired vector = .spurious := by
        rw [wired, if_neg hfault, if_neg hnamed]
      rw [hwired] at hentry ⊢
      exact gateOf_entry hentry

/-! ### The task state segment -/

/-- `RSP0_OFFSET`. -/
def rsp0Offset : ℕ := 4

/-- `gdt::set_kernel_stack`, in memory. -/
def setKernelStack (mem : ByteMemory) (tss : ℕ) (top : UInt64) : ByteMemory :=
  store mem (tss + rsp0Offset) top

end Harlan.Descriptors
