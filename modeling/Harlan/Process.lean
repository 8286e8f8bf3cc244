import Mathlib.Tactic
import Harlan.Arch.PageTables
import Harlan.Memory.FrameAllocator
import Harlan.Fat.Format

/-!
What the kernel knows about a running program (`kernel/src/process.rs`): its address space,
the memory it owns and may write, the frames behind that memory, its kernel stack and the
files it has open.

The fixed arrays of the source are lists here, with the bound where the source checks it; an
empty slot of `owned` or `writable` can match no pointer, so it is left out.

* `ownedBy_iff`: what the check every pointer from ring 3 goes through accepts.
-/

namespace Harlan

/-! ### Memory a process owns -/

/-- Whether `[ptr, ptr + len)` falls inside one of `ranges`. -/
def ownedBy (ranges : List PhysRange) (ptr len : ℕ) : Bool :=
  if len = 0 then false
  else if 2 ^ 64 ≤ ptr + len then false
  else ranges.any fun range => decide (range.start ≤ ptr) && decide (ptr + len ≤ range.endAddr)

/-- A byte lies inside a range. -/
def PhysRange.Has (range : PhysRange) (addr : ℕ) : Prop :=
  range.start ≤ addr ∧ addr < range.endAddr

/-- What `ownedBy` accepts is not empty, does not wrap, and lies wholly inside one range. -/
lemma ownedBy_iff {ranges : List PhysRange} {ptr len : ℕ} :
    ownedBy ranges ptr len = true
      ↔ 0 < len ∧ ptr + len < 2 ^ 64
        ∧ ∃ range ∈ ranges, ∀ addr, ptr ≤ addr → addr < ptr + len → range.Has addr := by
  have hpoint : ∀ range : PhysRange, 0 < len →
      ((range.start ≤ ptr ∧ ptr + len ≤ range.endAddr)
        ↔ ∀ addr, ptr ≤ addr → addr < ptr + len → range.Has addr) := by
    intro range hlen
    refine ⟨fun h addr hlow hhigh => ⟨by omega, by omega⟩, fun h => ?_⟩
    have hfirst := (h ptr (le_refl _) (by omega)).1
    have hlast := (h (ptr + len - 1) (by omega) (by omega)).2
    omega
  rw [ownedBy]
  split_ifs with hzero hwrap
  · simp [hzero]
  · simp only [false_iff, not_and]
    intro _ hlt
    omega
  · have hlen : 0 < len := Nat.pos_of_ne_zero hzero
    simp only [List.any_eq_true, Bool.and_eq_true, decide_eq_true_eq]
    refine ⟨fun ⟨range, hmem, h⟩ => ⟨hlen, by omega, range, hmem, (hpoint range hlen).mp h⟩, ?_⟩
    rintro ⟨-, -, range, hmem, h⟩
    exact ⟨range, hmem, (hpoint range hlen).mpr h⟩

/-- The front of what is accepted is accepted, unless it is empty. -/
lemma ownedBy_le {ranges : List PhysRange} {ptr n len : ℕ} (h : ownedBy ranges ptr len = true)
    (hpos : 0 < n) (hle : n ≤ len) : ownedBy ranges ptr n = true := by
  obtain ⟨-, hwrap, range, hmem, hinside⟩ := ownedBy_iff.mp h
  exact ownedBy_iff.mpr
    ⟨hpos, by omega, range, hmem, fun addr hlow hhigh => hinside addr hlow (by omega)⟩

/-! ### Open files -/

/-- How many files one process may hold open at a time. -/
def maxOpen : ℕ := 4

/-- A file a process has open, and how far through it that process is. -/
structure OpenFile where
  /-- The directory entry as it was when the file was opened. -/
  entry : Fat.DirectoryEntry
  /-- Where the next `read` starts. -/
  position : ℕ
deriving DecidableEq

/-- What one process has open: a fixed table, where a descriptor is an index. -/
abbrev OpenFiles := Fin maxOpen → Option OpenFile

namespace OpenFiles

/-- A process without open files. -/
def new : OpenFiles := fun _ => none

/-- Puts `file` in the first free slot and answers its descriptor. -/
def open' (files : OpenFiles) (file : OpenFile) : Option (Fin maxOpen) × OpenFiles :=
  match Fin.find? fun i => (files i).isNone with
  | some i => (some i, Function.update files i (some file))
  | none => (none, files)

/-- The file a descriptor names, if it is open. -/
def at' (files : OpenFiles) (descriptor : ℕ) : Option OpenFile :=
  if h : descriptor < maxOpen then files ⟨descriptor, h⟩ else none

/-- The file a descriptor names, moved to another position. -/
def moveTo (files : OpenFiles) (descriptor position : ℕ) : OpenFiles := fun i =>
  if i.val = descriptor then (files i).map fun file => { file with position } else files i

/-- Closes a descriptor, answering whether it was open. -/
def close (files : OpenFiles) (descriptor : ℕ) : Bool × OpenFiles :=
  if h : descriptor < maxOpen then
    ((files ⟨descriptor, h⟩).isSome, Function.update files ⟨descriptor, h⟩ none)
  else (false, files)

/-- Whether a file of that name is open. -/
def holds (files : OpenFiles) (name : List UInt8) : Bool :=
  (List.finRange maxOpen).any fun i => (files i).any fun file => file.entry.isNamed name

end OpenFiles

/-! ### The process -/

/-- A mapped stack: `bottom` is its lowest byte, `top` the first address past it. -/
structure Stack where
  bottom : ℕ
  top : ℕ
deriving DecidableEq

/-- The bytes of the stack. -/
def Stack.size (stack : Stack) : ℕ := stack.top - stack.bottom

/-- What the kernel knows about a running program. -/
structure Process where
  space : Paging.PageTables
  owned : List PhysRange
  /-- Which of `owned` the program may write. -/
  writable : List PhysRange
  /-- The frames behind that memory, and what each was taken for. -/
  frames : List (PhysFrame × FramePurpose)
  entry : ℕ
  kernelStack : Stack
  openFiles : OpenFiles

end Harlan
