import Mathlib.Tactic

/-!
The plain data the kernel's subsystems pass to one another (`hal/src/addr.rs`,
`hal/src/frame.rs`, `hal/src/memory_map.rs`, `hal/src/paging.rs`).

A 64-bit address is a natural number; where an operation of the source saturates or wraps,
the definition that models it says so (`satAdd`, `satMul`, `wrap64`). What carries an
invariant carries it as a field: a `PhysFrame` is aligned because no other can be built.
-/

namespace Harlan

/-- The largest 64-bit value, where the saturating operations stop. -/
def u64Max : ℕ := 2 ^ 64 - 1

/-- `u64::saturating_add`. -/
def satAdd (a b : ℕ) : ℕ := min (a + b) u64Max

/-- `u64::saturating_mul`. -/
def satMul (a b : ℕ) : ℕ := min (a * b) u64Max

/-- What is left of a sum or a product in a 64-bit register. -/
def wrap64 (a : ℕ) : ℕ := a % 2 ^ 64

/-- `u64::div_ceil`. -/
def divCeil (a b : ℕ) : ℕ := (a + b - 1) / b

lemma le_divCeil_mul {n k : ℕ} (hk : 0 < k) : n ≤ divCeil n k * k := by
  have hmod := Nat.div_add_mod (n + k - 1) k
  have hlt := Nat.mod_lt (n + k - 1) hk
  rw [divCeil, Nat.mul_comm]
  omega

/-- There is a first entry of a table, and a first byte of a sector. -/
instance entries_ne_zero : NeZero 512 := ⟨by decide⟩

/-- A check that did not fail was passed. -/
lemma ite_error_eq_ok {ε α : Type*} {p : Prop} [Decidable p] {err : ε} {x : Except ε α} {a : α} :
    (if p then .error err else x) = .ok a ↔ ¬p ∧ x = .ok a := by
  by_cases hp : p <;> simp [hp]

/-! ### Frames and ranges (`hal/src/frame.rs`) -/

/-- Size of one physical frame, and of a page. -/
def frameSize : ℕ := 4096

/-- A block of physical memory named by its start, which is a multiple of `frameSize`. -/
structure PhysFrame where
  start : ℕ
  aligned : start % frameSize = 0
deriving DecidableEq

namespace PhysFrame

/-- The frame that contains `addr` (rounds down). -/
def containingAddress (addr : ℕ) : PhysFrame :=
  ⟨addr - addr % frameSize, by
    rw [frameSize]
    omega⟩

/-- Index of a frame, counting from physical address 0. -/
def number (frame : PhysFrame) : ℕ := frame.start / frameSize

/-- A frame is its start. -/
lemma ext_start {a b : PhysFrame} (h : a.start = b.start) : a = b := by
  obtain ⟨a, ha⟩ := a
  obtain ⟨b, hb⟩ := b
  congr

/-- A frame is its number. -/
lemma ext_number {a b : PhysFrame} (h : a.number = b.number) : a = b := by
  obtain ⟨a, ha⟩ := a
  obtain ⟨b, hb⟩ := b
  simp only [number, frameSize] at h ha hb
  congr
  omega

lemma start_eq (frame : PhysFrame) : frame.start = frame.number * 4096 := by
  have h := frame.aligned
  rw [number]
  rw [frameSize] at h ⊢
  omega

/-- The frame at a multiple of the frame size, below the top of the address space. -/
lemma number_containingAddress {n : ℕ} (h : n < 2 ^ 52) :
    (containingAddress (wrap64 (n * frameSize))).number = n := by
  simp only [number, containingAddress, wrap64, frameSize]
  omega

end PhysFrame

/-- A range of addresses, as plain data. -/
structure PhysRange where
  start : ℕ
  len : ℕ
deriving DecidableEq

/-- First address past the range, saturating. -/
def PhysRange.endAddr (range : PhysRange) : ℕ :=
  if range.start + range.len < 2 ^ 64 then range.start + range.len else u64Max

/-- The address lies in the range. -/
def PhysRange.contains (range : PhysRange) (addr : ℕ) : Bool :=
  decide (range.start ≤ addr) && decide (addr < range.endAddr)

/-- Whether any part of `[first, past)` is inside the range. -/
def PhysRange.overlaps (range : PhysRange) (first past : ℕ) : Bool :=
  decide (first < range.endAddr) && decide (range.start < past)

/-! ### The firmware's memory map (`hal/src/memory_map.rs`) -/

/-- Coarse classification of a memory region. -/
inductive MemoryRegionKind where
  | usable
  | bootServices
  | runtimeCode
  | runtimeData
  | reserved
deriving DecidableEq

/-- How a range may be cached. -/
inductive CachePolicy where
  | unspecified
  | writeBack
  | writeThrough
  | writeCombining
  | uncacheable
deriving DecidableEq

/-- One region of the map: where it starts, how many pages, and what it is. -/
structure MemoryRegion where
  startPhysAddr : ℕ
  pageCount : ℕ
  kind : MemoryRegionKind
deriving DecidableEq

/-! ### Pages (`hal/src/paging.rs`) -/

/-- Access rights of a mapping. -/
structure PageFlags where
  writable : Bool
  executable : Bool
  user : Bool
  cache : CachePolicy
deriving DecidableEq

/-- The kernel's own memory: never reachable from ring 3. -/
def PageFlags.kernel (writable executable : Bool) : PageFlags :=
  ⟨writable, executable, false, .writeBack⟩

/-- A process's memory. -/
def PageFlags.ofUser (writable executable : Bool) : PageFlags :=
  ⟨writable, executable, true, .writeBack⟩

/-- A range and how it is to be mapped. -/
structure MappedRange where
  range : PhysRange
  writable : Bool
  executable : Bool
  cache : CachePolicy
deriving DecidableEq

/-- Some byte of the range is in the page. -/
def MappedRange.Touches (code : MappedRange) (page : ℕ) : Prop :=
  page < code.range.start + code.range.len ∧ code.range.start < page + frameSize

/-- The page lies wholly inside the range. -/
def MappedRange.Covers (code : MappedRange) (page : ℕ) : Prop :=
  code.range.start ≤ page ∧ page + frameSize ≤ code.range.start + code.range.len

/-- Why a page is not mapped. -/
inductive MapError where
  | outsideKernelSpace
  | alreadyMapped
  | outOfFrames
  | tableFrameNotWritable
  | hugePageInTheWay
deriving DecidableEq

/-- Why a page is not unmapped. -/
inductive UnmapError where
  | outsideKernelSpace
  | notMapped
  | hugePageInTheWay
deriving DecidableEq

/-- The page that contains `addr` (rounds down), named by its start address. -/
def pageContaining (addr : ℕ) : ℕ := addr - addr % frameSize

end Harlan
