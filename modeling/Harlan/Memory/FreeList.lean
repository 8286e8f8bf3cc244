import Mathlib.Tactic
import Harlan.Lib.Eff
import Harlan.Lib.Words
import Harlan.Lib.Extents

/-!
The kernel's heap (`kernel/src/memory/heap/free_list.rs`): an address-ordered list of holes, kept
in the holes themselves.

The memory is bytes, and a hole's size and the address of the next are read from and written to
its first sixteen. Whatever stops the kernel is an error: the assertions of the source, and sums
and differences that leave a machine word. A walk along the list that does not end within the
number of granules of the heap stops with `endless`, where the source would go on.
-/

namespace Harlan.Heap

/-- Every block and every hole is a whole number of granules. -/
def granule : ℕ := 16

/-- What stops the kernel. -/
inductive Panic where
  | initializedTwice
  | regionWraps
  | neverAllocated
  | notABlock
  | doubleFree
  | outsideTheHeap
  | overflow
  | endless
deriving DecidableEq

/-- How large a block must be and where it may start (`core::alloc::Layout`). -/
structure Layout where
  size : ℕ
  align : ℕ
  isPowerOfTwo : ∃ k, align = 2 ^ k
  fits : size + align ≤ 2 ^ 63

/-- What a hole keeps in its first bytes. -/
structure Hole where
  size : ℕ
  /-- Address of the next hole, 0 for none. -/
  next : ℕ

/-- The heap: a list of holes, written into the memory that it hands out. -/
structure FreeListHeap where
  /-- The memory the heap is in. -/
  mem : ByteMemory
  /-- Where the region given to `init` starts, 0 before. -/
  base : ℕ
  start : ℕ
  endAddr : ℕ
  /-- Address of the first hole, 0 for none. -/
  head : ℕ
  free : ℕ

/-- A heap before `init`. -/
def FreeListHeap.empty (mem : ByteMemory) : FreeListHeap := ⟨mem, 0, 0, 0, 0, 0⟩

/-! ### Machine words -/

/-- `checked_add` of two addresses. -/
def checkedAdd (a b : ℕ) : Option ℕ := if a + b < 2 ^ 64 then some (a + b) else none

/-- `checked_next_multiple_of`. -/
def checkedNextMultipleOf (a b : ℕ) : Option ℕ :=
  if a % b = 0 then some a else checkedAdd a (b - a % b)

/-- A step of the heap, which may panic. -/
abbrev HeapM := Eff FreeListHeap Panic

/-- The value, or a panic if there is none. -/
def expect {α : Type} (panic : Panic) : Option α → HeapM α
  | some a => pure a
  | none => Eff.fail panic

/-- A panic unless `p` holds. -/
def assert (panic : Panic) (p : Prop) [Decidable p] : HeapM Unit :=
  if p then pure () else Eff.fail panic

/-- `a + b`, checked. -/
def plus (a b : ℕ) : HeapM ℕ := expect .overflow (checkedAdd a b)

/-- `a - b`, checked. -/
def minus (a b : ℕ) : HeapM ℕ := if b ≤ a then pure (a - b) else Eff.fail .overflow

/-- Changes the heap. -/
def modify (f : FreeListHeap → FreeListHeap) : HeapM Unit := Eff.step fun heap => ((), f heap)

/-! ### Holes -/

/-- The sixteen bytes at an address lie inside the heap. -/
def FreeListHeap.HoleFits (heap : FreeListHeap) (addr : ℕ) : Prop :=
  addr % granule = 0 ∧ heap.start ≤ addr
    ∧ ∃ end' ∈ checkedAdd addr granule, end' ≤ heap.endAddr

instance (heap : FreeListHeap) : DecidablePred heap.HoleFits := fun _ =>
  inferInstanceAs (Decidable (_ ∧ _ ∧ _))

/-- The hole whose two words stand at `addr`. -/
def holeAt (mem : ByteMemory) (addr : ℕ) : Hole := ⟨getWord mem addr 8, getWord mem (addr + 8) 8⟩

/-- Writes the two words of a hole. -/
def putHole (mem : ByteMemory) (addr : ℕ) (hole : Hole) : ByteMemory :=
  setWord (setWord mem addr hole.size 8) (addr + 8) hole.next 8

/-- The check every access to a hole goes through. -/
def holePtr (addr : ℕ) : HeapM Unit := do
  let heap ← Eff.get
  assert .outsideTheHeap (heap.HoleFits addr)

/-- Reads the hole at `addr`. -/
def readHole (addr : ℕ) : HeapM Hole := do
  holePtr addr
  let heap ← Eff.get
  return holeAt heap.mem addr

/-- Writes a hole at `addr`. -/
def writeHole (addr : ℕ) (hole : Hole) : HeapM Unit := do
  holePtr addr
  modify fun heap => { heap with mem := putHole heap.mem addr hole }

/-- Makes `next` follow `prev`, or lead the list if `prev` is 0. -/
def link (prev next : ℕ) : HeapM Unit :=
  if prev = 0 then modify fun heap => { heap with head := next }
  else do
    let hole ← readHole prev
    writeHole prev { hole with next := next }

/-- Size of the block that serves a layout. -/
def blockSize (layout : Layout) : Option ℕ := checkedNextMultipleOf (max layout.size 1) granule

/-! ### The operations -/

/-- Hands `[start, start + size)` to the heap, trimmed inwards to granules. -/
def init (start size : ℕ) : HeapM Unit := do
  let heap ← Eff.get
  assert .initializedTwice (heap.base = 0)
  let first ← expect .regionWraps (checkedNextMultipleOf start granule)
  let last ← expect .regionWraps (checkedAdd start size)
  let endAddr := max (last / granule * granule) first
  modify fun heap => { heap with base := start, start := first, endAddr := endAddr }
  if granule ≤ endAddr - first then
    writeHole first ⟨endAddr - first, 0⟩
    modify fun heap => { heap with head := first, free := endAddr - first }

/-- How long a walk along the holes may be. -/
def FreeListHeap.granules (heap : FreeListHeap) : ℕ := (heap.endAddr - heap.start) / granule

/-- Where a block would lie in a hole, and where it would end. -/
def placeIn (size align current holeEnd : ℕ) : Option (ℕ × ℕ) := do
  let block ← checkedNextMultipleOf current align
  let blockEnd ← checkedAdd block size
  if blockEnd ≤ holeEnd then some (block, blockEnd) else none

/-- What is left over of a hole, if anything, is a hole in front of the `rest`. -/
def keepFree (left : Prop) [Decidable left] (addr size rest : ℕ) : HeapM ℕ :=
  if left then do
    writeHole addr ⟨size, rest⟩
    return addr
  else return rest

/-- Cuts a block out of the hole at `current`; what is behind and in front of it stays free. -/
def cutOut (size prev current next holeEnd block blockEnd : ℕ) : HeapM (Option ℕ) := do
  let rest ← keepFree (blockEnd < holeEnd) blockEnd (holeEnd - blockEnd) next
  let rest ← keepFree (current < block) current (block - current) rest
  link prev rest
  let heap ← Eff.get
  let free ← minus heap.free size
  modify fun heap => { heap with free := free }
  return if block = 0 then none else some block

/-- The loop of `allocate`: the first hole with room. -/
def allocateFrom (size align : ℕ) : ℕ → ℕ → ℕ → HeapM (Option ℕ)
  | 0, _, _ => Eff.fail .endless
  | fuel + 1, prev, current =>
      if current = 0 then return none
      else do
        let hole ← readHole current
        let holeEnd ← plus current hole.size
        match placeIn size align current holeEnd with
        | some (block, blockEnd) => cutOut size prev current hole.next holeEnd block blockEnd
        | none => allocateFrom size align fuel current hole.next

/-- The first hole that has room, cut to size. -/
def allocate (layout : Layout) : HeapM (Option ℕ) :=
  match blockSize layout with
  | none => return none
  | some size => do
      let heap ← Eff.get
      allocateFrom size (max layout.align granule) (heap.granules + 1) 0 heap.head

/-- The loop of `deallocate`: the holes on either side of a block. -/
def findPlace (block : ℕ) : ℕ → ℕ → ℕ → HeapM (ℕ × ℕ)
  | 0, _, _ => Eff.fail .endless
  | fuel + 1, prev, current =>
      if current ≠ 0 ∧ current < block then do
        let hole ← readHole current
        findPlace block fuel current hole.next
      else return (prev, current)

/-- The hole before a block, if there is one, and where it ends. -/
def holeBefore (prev : ℕ) : HeapM (Option (Hole × ℕ)) :=
  if prev = 0 then return none
  else do
    let hole ← readHole prev
    let holeEnd ← plus prev hole.size
    return some (hole, holeEnd)

/-- The block together with the hole that starts where it ends, if one does. -/
def mergeNext (size blockEnd current : ℕ) : HeapM Hole :=
  if current ≠ 0 ∧ blockEnd = current then do
    let nextHole ← readHole current
    let size ← plus size nextHole.size
    return ⟨size, nextHole.next⟩
  else return ⟨size, current⟩

/-- Makes the block part of the hole that ends where it starts, or a hole of its own. -/
def putBack (prev block : ℕ) (prevHole : Option (Hole × ℕ)) (merged : Hole) : HeapM Unit :=
  match prevHole with
  | some (hole, holeEnd) =>
      if holeEnd = block then do
        let size ← plus hole.size merged.size
        writeHole prev ⟨size, merged.next⟩
      else do
        writeHole block merged
        link prev block
  | none => do
      writeHole block merged
      link prev block

/-- Returns a block to the heap, merging it with the holes it touches. -/
def deallocate (block : ℕ) (layout : Layout) : HeapM Unit := do
  let size ← expect .neverAllocated (blockSize layout)
  let heap ← Eff.get
  let blockEnd ← expect .notABlock ((checkedAdd block size).filter fun end' =>
    heap.start ≤ block ∧ end' ≤ heap.endAddr ∧ block % granule = 0)
  let (prev, current) ← findPlace block (heap.granules + 1) 0 heap.head
  let prevHole ← holeBefore prev
  assert .doubleFree
    (¬(∃ before ∈ prevHole, block < before.2) ∧ ¬(current ≠ 0 ∧ current < blockEnd))
  let merged ← mergeNext size blockEnd current
  putBack prev block prevHole merged
  let heap ← Eff.get
  let free ← plus heap.free size
  modify fun heap => { heap with free := free }

/-! ### Checking the list -/

/-- What the check found wrong. -/
inductive HeapCorruption where
  | tooLong (addr : ℕ)
  | outsideOrMisaligned (addr : ℕ)
  | outOfOrder (addr : ℕ)
  | impossibleSize (addr : ℕ)
  | wrongFreeCount
deriving DecidableEq

/-- What `stats` counts. -/
structure HeapStats where
  size : ℕ
  free : ℕ
  holes : ℕ
  largestHole : ℕ
deriving DecidableEq

/-- The loop of `check`, with `left` holes still to come at the most. -/
def checkFrom : ℕ → ℕ → ℕ → ℕ → Option ℕ → ℕ → HeapM (Except HeapCorruption (ℕ × ℕ × ℕ))
  | 0, free, holes, largestHole, _, current =>
      if current = 0 then return .ok (free, holes, largestHole)
      else return .error (.tooLong current)
  | left + 1, free, holes, largestHole, previousEnd, current =>
      if current = 0 then return .ok (free, holes, largestHole)
      else do
        let heap ← Eff.get
        if current % granule ≠ 0 ∨ current < heap.start ∨ heap.endAddr ≤ current then
          return .error (.outsideOrMisaligned current)
        else if ∃ end' ∈ previousEnd, current ≤ end' then
          return .error (.outOfOrder current)
        else
          let hole ← readHole current
          if hole.size < granule ∨ hole.size % granule ≠ 0
            ∨ heap.endAddr - current < hole.size then
            return .error (.impossibleSize current)
          else
            let free ← plus free hole.size
            let holeEnd ← plus current hole.size
            checkFrom left free (holes + 1) (max largestHole hole.size) (some holeEnd) hole.next

/-- Walks the free list and verifies every invariant. -/
def check : HeapM (Except HeapCorruption HeapStats) := do
  let heap ← Eff.get
  match ← checkFrom heap.granules 0 0 0 none heap.head with
  | .error corruption => return .error corruption
  | .ok (free, holes, largestHole) =>
      if free ≠ heap.free then return .error .wrongFreeCount
      else return .ok ⟨heap.endAddr - heap.start, free, holes, largestHole⟩

end Harlan.Heap
