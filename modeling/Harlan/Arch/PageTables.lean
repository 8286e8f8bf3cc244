import Mathlib.Tactic
import Harlan.Hal
import Harlan.Lib.Radix

/-!
The walker and the mapper of `arch/x86_64/src/paging.rs`: four levels of tables in physical
memory, read and edited through their physical addresses.

Table memory is a function of a table's physical address and an index, and every operation
of `PageTables` takes it and returns it. The cached translations the source drops after an
edit (`flush`, `flush_all`) are not part of it. A frame source is whatever implements the
`FrameAllocator` trait: a state and what it hands out next, with a flag for the source that
zeroes each frame on its way out.

* `tableIndices_inj`: two canonical addresses with the same indices lie in the same page.
* `next`: the table an entry leads to, which makes the tables a radix tree in the sense of
  `Harlan.Lib.Radix`; `walk_congr`, `walk_of_follow` and `walk_eq_none` say what of it a
  walk sees.
-/

namespace Harlan.Paging

open Radix (follow)

/-- First address of kernel space: PML4 slot 256. -/
def kernelSpaceBase : ℕ := 0xFFFF800000000000

/-! ### The bits of an entry -/

/-- The entry maps something. Without it the other bits mean nothing. -/
def present : ℕ := 2 ^ 0
/-- Writes are allowed. Every level of the walk has to have it. -/
def writable : ℕ := 2 ^ 1
/-- Reachable from ring 3. Every level of the walk has to have it. -/
def user : ℕ := 2 ^ 2
/-- Writes go through the cache. -/
def writeThrough : ℕ := 2 ^ 3
/-- The page is not cached. -/
def cacheDisable : ℕ := 2 ^ 4
/-- In a PDPT or PD entry: this entry maps a 1 GiB or 2 MiB page itself. -/
def huge : ℕ := 2 ^ 7
/-- No instruction is fetched from below this entry. -/
def noExecute : ℕ := 2 ^ 63
/-- Bits 12-51: the physical address of the next table or of the page. -/
def addressMask : ℕ := 0x000FFFFFFFFFF000

/-- Whether an entry has any of the given bits. -/
def has (entry bits : ℕ) : Bool := entry &&& bits != 0

/-- PML4, PDPT, PD or PT index of `va`, by the shift of its level. -/
def tableIndex (va shift : ℕ) : Fin 512 :=
  ⟨(va >>> shift) &&& 0x1FF, Nat.lt_of_le_of_lt Nat.and_le_right (by decide)⟩

/-- PML4, PDPT, PD and PT indices of `va`, in walk order. -/
def tableIndices (va : ℕ) : List (Fin 512) := [39, 30, 21, 12].map (tableIndex va)

/-- Bits 48-63 must repeat bit 47. -/
def isCanonical (va : ℕ) : Bool := va >>> 47 == 0 || va >>> 47 == 0x1FFFF

/-- The bits that reproduce a cache policy. -/
def cacheBits : CachePolicy → ℕ
  | .writeBack | .unspecified => 0
  | .writeThrough => writeThrough
  | .writeCombining | .uncacheable => cacheDisable ||| writeThrough

/-! ### Walking -/

/-- Table memory: the entry at an index of the table at a physical address. -/
abbrev Memory := ℕ → Fin 512 → ℕ

/-- What a walk found for an address. -/
structure Translation where
  phys : ℕ
  writable : Bool
  /-- Size of the page that resolved the walk (4 KiB, 2 MiB or 1 GiB). -/
  pageSize : ℕ
deriving DecidableEq

/-- The page tables below a root, reached at `window` plus their physical address. -/
structure PageTables where
  root : ℕ
  window : ℕ
deriving DecidableEq

/-- The loop of `translate`, from a table at a level on. -/
def walk (mem : Memory) (va : ℕ) : List (Fin 512) → ℕ → ℕ → Bool → Option Translation
  | [], _, _, _ => none
  | index :: rest, level, table, w =>
      let entry := mem table index
      if !has entry present || (level == 0 && has entry huge) then none
      else
        let w := w && has entry writable
        if level == 3 || has entry huge then
          -- masking with the page size also drops the PAT bit of large-page entries
          let size := 2 ^ (39 - 9 * level)
          let base := entry &&& addressMask &&& (u64Max - (size - 1))
          some ⟨base + (va &&& (size - 1)), w, size⟩
        else walk mem va rest (level + 1) (entry &&& addressMask) w

namespace PageTables

/-- Where `va` leads: nowhere for an address that is not canonical. -/
def translate (tables : PageTables) (mem : Memory) (va : ℕ) : Option Translation :=
  if isCanonical va then walk mem va (tableIndices va) 0 tables.root true else none

end PageTables

/-! ### Frame sources and new tables -/

/-- What implements `FrameAllocator`: the next frame, if any, and the state after. `zeroes`
says whether a frame is cleared before it leaves, as `ZeroedFrames` does. -/
structure FrameSource (σ : Type*) where
  take : σ → Option PhysFrame × σ
  zeroes : Bool

variable {σ : Type*}

/-- `FrameAllocator::allocate_frame`, with its effect on memory. -/
def FrameSource.allocateFrame (src : FrameSource σ) (mem : Memory) (s : σ) :
    Option PhysFrame × Memory × σ :=
  match src.take s with
  | (none, s) => (none, mem, s)
  | (some frame, s) =>
      (some frame, if src.zeroes then Radix.fill mem frame.start fun _ => 0 else mem, s)

namespace PageTables

/-- A zeroed page table in a fresh frame, refused where the window does not reach the frame
writably. -/
def newTable (tables : PageTables) (src : FrameSource σ) (mem : Memory) (s : σ) :
    Except MapError ℕ × Memory × σ :=
  match src.allocateFrame mem s with
  | (none, mem, s) => (.error .outOfFrames, mem, s)
  | (some frame, mem, s) =>
      match tables.translate mem (wrap64 (tables.window + frame.start)) with
      | some t =>
          if t.phys == frame.start && t.writable then
            (.ok frame.start, Radix.fill mem frame.start fun _ => 0, s)
          else (.error .tableFrameNotWritable, mem, s)
      | none => (.error .tableFrameNotWritable, mem, s)

/-! ### Mapping -/

/-- The bits of an entry that links a table. -/
def reachable (isUser : Bool) : ℕ :=
  if isUser then present ||| writable ||| user else present ||| writable

/-- The loop of `map` over the upper indices, from `table` on. -/
def descend (tables : PageTables) (src : FrameSource σ) (isUser : Bool) :
    List (Fin 512) → ℕ → Memory → σ → Except MapError ℕ × Memory × σ
  | [], table, mem, s => (.ok table, mem, s)
  | index :: rest, table, mem, s =>
      let entry := mem table index
      if !has entry present then
        match tables.newTable src mem s with
        | (.error err, mem, s) => (.error err, mem, s)
        | (.ok new, mem, s) =>
            descend tables src isUser rest new
              (Radix.write mem table index (new ||| reachable isUser)) s
      else if has entry huge then (.error .hugePageInTheWay, mem, s)
      else
        let mem :=
          if isUser && !has entry user then Radix.write mem table index (entry ||| user) else mem
        descend tables src isUser rest (entry &&& addressMask) mem s

/-- The leaf entry `map` writes. -/
def leafEntry (frame : PhysFrame) (flags : PageFlags) : ℕ :=
  frame.start ||| present ||| cacheBits flags.cache ||| (if flags.writable then writable else 0)
    ||| (if flags.executable then 0 else noExecute) ||| (if flags.user then user else 0)

/-- Maps `page` onto `frame`, with the missing tables on the way. Refuses a page on the wrong side
of the user boundary. -/
def map (tables : PageTables) (src : FrameSource σ) (page : ℕ) (frame : PhysFrame)
    (flags : PageFlags) (mem : Memory) (s : σ) : Except MapError Unit × Memory × σ :=
  if flags.user != decide (page < kernelSpaceBase) then (.error .outsideKernelSpace, mem, s)
  else
    match tables.descend src flags.user ((tableIndices page).take 3) tables.root mem s with
    | (.error err, mem, s) => (.error err, mem, s)
    | (.ok table, mem, s) =>
        if has (mem table (tableIndex page 12)) present then (.error .alreadyMapped, mem, s)
        else (.ok (), Radix.write mem table (tableIndex page 12) (leafEntry frame flags), s)

/-- The loop of `unmap` over the upper indices, from `table` on. -/
def find (mem : Memory) : List (Fin 512) → ℕ → Except UnmapError ℕ
  | [], table => .ok table
  | index :: rest, table =>
      let entry := mem table index
      if !has entry present then .error .notMapped
      else if has entry huge then .error .hugePageInTheWay
      else find mem rest (entry &&& addressMask)

/-- Takes the mapping of a kernel page out and answers with its frame. The tables stay. -/
def unmap (tables : PageTables) (page : ℕ) (mem : Memory) :
    Except UnmapError PhysFrame × Memory :=
  if page < kernelSpaceBase then (.error .outsideKernelSpace, mem)
  else
    match find mem ((tableIndices page).take 3) tables.root with
    | .error err => (.error err, mem)
    | .ok table =>
        let leaf := mem table (tableIndex page 12)
        if !has leaf present then (.error .notMapped, mem)
        else
          (.ok (PhysFrame.containingAddress (leaf &&& addressMask)),
            Radix.write mem table (tableIndex page 12) 0)

/-! ### Making a root -/

/-- Why the kernel's own address space could not be built. -/
inductive PagingError where
  | kernelSpaceInUse
  | outOfFrames
  | tableFrameNotWritable
  /-- The identity limit must be a whole number of GiB, at most 512. -/
  | badIdentityLimit
  /-- A range falls outside the new map. -/
  | requiredRangeOutsideIdentityMap
deriving DecidableEq

/-- How a new table that was refused is reported. -/
def PagingError.ofMapError : MapError → PagingError
  | .outOfFrames => .outOfFrames
  | _ => .tableFrameNotWritable

/-- The first PML4 slot of kernel space. -/
def kernelSlot : ℕ := tableIndex kernelSpaceBase 39

/-- Page tables whose root is a fresh copy of `oldRoot`, with the lower-level tables shared. -/
def adopt (window oldRoot : ℕ) (src : FrameSource σ) (mem : Memory) (s : σ) :
    Except PagingError PageTables × Memory × σ :=
  if ∃ slot : Fin 512, kernelSlot ≤ slot ∧ has (mem oldRoot slot) present then
    (.error .kernelSpaceInUse, mem, s)
  else
    match newTable ⟨oldRoot, window⟩ src mem s with
    | (.error err, mem, s) => (.error (PagingError.ofMapError err), mem, s)
    | (.ok newRoot, mem, s) => (.ok ⟨newRoot, window⟩, Radix.fill mem newRoot (mem oldRoot), s)

/-- A new tree of tables for a process: an empty lower half and this one's higher half. -/
def newProcessSpace (tables : PageTables) (src : FrameSource σ) (mem : Memory) (s : σ) :
    Except MapError PageTables × Memory × σ :=
  match tables.newTable src mem s with
  | (.error err, mem, s) => (.error err, mem, s)
  | (.ok root, mem, s) =>
      (.ok ⟨root, tables.window⟩,
        Radix.fill mem root fun slot =>
          if kernelSlot ≤ slot then mem tables.root slot else mem root slot, s)

/-! ### Giving a space back -/

/-- The tables below a page-directory-pointer table, each after the ones below it: what
`free_lower_half` gives back of one slot, but for that table itself. A large page is a leaf. -/
def tablesBelow (mem : Memory) (directoryPointers : ℕ) : List ℕ :=
  (List.finRange 512).flatMap fun index =>
    let entry := mem directoryPointers index
    if !has entry present || has entry huge then []
    else
      let directory := entry &&& addressMask
      ((List.finRange 512).flatMap fun index =>
        let entry := mem directory index
        if !has entry present || has entry huge then [] else [entry &&& addressMask])
        ++ [directory]

section FreeLowerHalf

variable {τ : Type*} (giveBack : PhysFrame → τ → Bool × τ)

/-- Offers one table back, counting it if it was taken. -/
def handBack (state : ℕ × τ) (addr : ℕ) : ℕ × τ :=
  match giveBack (.containingAddress addr) state.2 with
  | (true, t) => (state.1 + 1, t)
  | (false, t) => (state.1, t)

/-- One slot of the lower half: its tables given back, and the slot cleared. -/
def freeSlot (tables : PageTables) (state : ℕ × Memory × τ) (slot : Fin 512) : ℕ × Memory × τ :=
  let (freed, mem, t) := state
  let entry := mem tables.root slot
  if !has entry present then state
  else
    let directoryPointers := entry &&& addressMask
    let (freed, t) :=
      (tablesBelow mem directoryPointers ++ [directoryPointers]).foldl
      (handBack giveBack) (freed, t)
    (freed, Radix.write mem tables.root slot 0, t)

/-- Gives back the table frames of the lower half, and the root; how many were taken. -/
def freeLowerHalf (tables : PageTables) (mem : Memory) (t : τ) : ℕ × Memory × τ :=
  let lower := (List.finRange 512).filter fun slot => decide (slot.val < kernelSlot)
  let (freed, mem, t) := lower.foldl (tables.freeSlot giveBack) (0, mem, t)
  let (freed, t) := handBack giveBack (freed, t) tables.root
  (freed, mem, t)

end FreeLowerHalf

end PageTables

/-! ### Facts about words -/

lemma has_two_pow (entry k : ℕ) : has entry (2 ^ k) = entry.testBit k := by
  cases hk : entry.testBit k with
  | false =>
      have hzero : entry &&& 2 ^ k = 0 := by
        refine Nat.eq_of_testBit_eq fun i => ?_
        rw [Nat.testBit_and, Nat.testBit_two_pow, Nat.zero_testBit]
        by_cases hi : k = i
        · simp [← hi, hk]
        · simp [hi]
      simp [has, hzero]
  | true =>
      have hbit : (entry &&& 2 ^ k).testBit k = true := by
        simp [Nat.testBit_and, hk]
      have hne : entry &&& 2 ^ k ≠ 0 := by
        intro hzero
        simp [hzero] at hbit
      simpa [has] using hne

lemma has_present (entry : ℕ) : has entry present = entry.testBit 0 := has_two_pow entry 0

lemma has_writable (entry : ℕ) : has entry writable = entry.testBit 1 := has_two_pow entry 1

lemma has_user (entry : ℕ) : has entry user = entry.testBit 2 := has_two_pow entry 2

lemma has_huge (entry : ℕ) : has entry huge = entry.testBit 7 := has_two_pow entry 7

lemma has_noExecute (entry : ℕ) : has entry noExecute = entry.testBit 63 := has_two_pow entry 63

lemma testBit_addressMask (i : ℕ) :
    addressMask.testBit i = (decide (12 ≤ i) && decide (i < 52)) := by
  have h : addressMask = (2 ^ 40 - 1) <<< 12 := by decide
  rw [h, Nat.testBit_shiftLeft, Nat.testBit_two_pow_sub_one]
  by_cases hi : 12 ≤ i
  · have : i - 12 < 40 ↔ i < 52 := by omega
    simp [hi, this]
  · simp [hi]

/-- A frame's address has no bit below 12. -/
lemma testBit_frame_low {f i : ℕ} (h : f % frameSize = 0) (hi : i < 12) :
    f.testBit i = false := by
  obtain ⟨k, rfl⟩ := Nat.dvd_of_mod_eq_zero h
  rw [show frameSize = 2 ^ 12 from rfl, Nat.testBit_two_pow_mul]
  simp [hi]

/-- The address of an entry made of a frame below `2^52` and bits outside the address. -/
lemma or_and_addressMask {f bits : ℕ} (halign : f % frameSize = 0) (hlt : f < 2 ^ 52)
    (hbits : bits &&& addressMask = 0) : (f ||| bits) &&& addressMask = f := by
  rw [Nat.and_or_distrib_right, hbits, Nat.or_zero]
  refine Nat.eq_of_testBit_eq fun i => ?_
  rw [Nat.testBit_and, testBit_addressMask]
  by_cases hlow : i < 12
  · simp [testBit_frame_low halign hlow]
  · by_cases hhigh : i < 52
    · simp [hhigh, Nat.le_of_not_lt hlow]
    · have := Nat.testBit_lt_two_pow (Nat.lt_of_lt_of_le hlt
        (Nat.pow_le_pow_right (by decide) (Nat.le_of_not_lt hhigh)))
      simp [this]

/-- Masking off the offset in a 4 KiB page changes no address. -/
lemma and_pageMask (entry : ℕ) :
    entry &&& addressMask &&& (u64Max - (2 ^ (39 - 9 * 3) - 1)) = entry &&& addressMask := by
  rw [Nat.and_assoc]
  congr 1

lemma and_offset (va : ℕ) : va &&& (2 ^ (39 - 9 * 3) - 1) = va % frameSize :=
  Nat.and_two_pow_sub_one_eq_mod va 12

lemma tableIndex_eq (va shift : ℕ) : (tableIndex va shift).val = va / 2 ^ shift % 512 := by
  show va >>> shift &&& (2 ^ 9 - 1) = _
  rw [Nat.and_two_pow_sub_one_eq_mod, Nat.shiftRight_eq_div_pow]

lemma isCanonical_iff {va : ℕ} :
    isCanonical va = true ↔ va < 2 ^ 47 ∨ (2 ^ 64 - 2 ^ 47 ≤ va ∧ va < 2 ^ 64) := by
  simp only [isCanonical, Bool.or_eq_true, beq_iff_eq, Nat.shiftRight_eq_div_pow]
  omega

/-- Canonical addresses with the same indices lie in the same page. -/
lemma tableIndices_inj {a b : ℕ} (ha : isCanonical a = true) (hb : isCanonical b = true)
    (h : tableIndices a = tableIndices b) : pageContaining a = pageContaining b := by
  rw [isCanonical_iff] at ha hb
  simp only [tableIndices, List.map_cons, List.map_nil, List.cons.injEq, Fin.ext_iff,
    tableIndex_eq, and_true] at h
  obtain ⟨h39, h30, h21, h12⟩ := h
  simp only [pageContaining, frameSize]
  omega

lemma tableIndices_eq_of_page {a b : ℕ} (h : pageContaining a = pageContaining b) :
    tableIndices a = tableIndices b := by
  simp only [pageContaining, frameSize] at h
  simp only [tableIndices, List.map_cons, List.map_nil, List.cons.injEq, Fin.ext_iff,
    tableIndex_eq, and_true]
  omega

lemma isCanonical_of_page {a b : ℕ} (h : pageContaining a = pageContaining b) :
    isCanonical a = isCanonical b := by
  rw [Bool.eq_iff_iff, isCanonical_iff, isCanonical_iff]
  simp only [pageContaining, frameSize] at h
  omega

/-! ### The tables as a radix tree -/

/-- The table an entry leads to, if it is present and not a page of its own. -/
def next (entry : ℕ) : Option ℕ :=
  if has entry present && !has entry huge then some (entry &&& addressMask) else none

/-- Two entries a walk cannot tell apart: they differ in the user bit at most. -/
def AgreeButUser (e e' : ℕ) : Prop := ∀ k, k ≠ 2 → e'.testBit k = e.testBit k

lemma AgreeButUser.refl (e : ℕ) : AgreeButUser e e := fun _ _ => rfl

lemma agreeButUser_or_user (e : ℕ) : AgreeButUser e (e ||| user) := by
  intro k hk
  have : (2 : ℕ) ≠ k := fun h => hk h.symm
  rw [user, Nat.testBit_or, Nat.testBit_two_pow]
  simp [this]

namespace AgreeButUser

variable {e e' : ℕ}

lemma present_eq (h : AgreeButUser e e') : has e' present = has e present := by
  rw [has_present, has_present, h 0 (by decide)]

lemma writable_eq (h : AgreeButUser e e') : has e' writable = has e writable := by
  rw [has_writable, has_writable, h 1 (by decide)]

lemma huge_eq (h : AgreeButUser e e') : has e' huge = has e huge := by
  rw [has_huge, has_huge, h 7 (by decide)]

lemma address_eq (h : AgreeButUser e e') : e' &&& addressMask = e &&& addressMask := by
  refine Nat.eq_of_testBit_eq fun i => ?_
  rw [Nat.testBit_and, Nat.testBit_and, testBit_addressMask]
  by_cases hi : i = 2
  · simp [hi]
  · rw [h i hi]

lemma next_eq (h : AgreeButUser e e') : next e' = next e := by
  rw [next, next, h.present_eq, h.huge_eq, h.address_eq]

end AgreeButUser

lemma next_eq_some {e n : ℕ} (h : next e = some n) :
    has e present = true ∧ has e huge = false ∧ e &&& addressMask = n := by
  rw [next] at h
  split_ifs at h with hif
  simp only [Bool.and_eq_true, Bool.not_eq_true'] at hif
  exact ⟨hif.1, hif.2, Option.some.inj h⟩

lemma next_of_present {e : ℕ} (hp : has e present = true) (hh : has e huge = false) :
    next e = some (e &&& addressMask) := by
  simp [next, hp, hh]

lemma next_of_not_present {e : ℕ} (hp : has e present = false) : next e = none := by
  simp [next, hp]

/-- A walk sees only the entries on its path, and of them everything but the user bit. -/
lemma walk_congr {mem mem' : Memory} {va : ℕ} {path : List (Fin 512)} {level table : ℕ} {w : Bool}
    (h : ∀ p j, p ++ [j] <+: path → ∀ n, follow next mem table p = some n →
      AgreeButUser (mem n j) (mem' n j)) :
    walk mem' va path level table w = walk mem va path level table w := by
  induction path generalizing level table w with
  | nil => rfl
  | cons index rest ih =>
      have hentry : AgreeButUser (mem table index) (mem' table index) :=
        h [] index ⟨rest, rfl⟩ table rfl
      rw [walk, walk, hentry.present_eq, hentry.huge_eq, hentry.writable_eq, hentry.address_eq]
      simp only
      split_ifs with hstop hleaf
      · rfl
      · rfl
      · refine ih fun p j hp n hn => h (index :: p) j ?_ n ?_
        · exact List.cons_prefix_cons.mpr ⟨rfl, hp⟩
        · have hnext : next (mem table index) = some (mem table index &&& addressMask) := by
            refine next_of_present ?_ ?_ <;> simp_all
          rw [Radix.follow, hnext]
          exact hn

/-- A walk that comes to an entry that is not present finds nothing. -/
lemma walk_eq_none {mem : Memory} {va : ℕ} {path p : List (Fin 512)} {j : Fin 512}
    {level table n : ℕ} {w : Bool} (hlevel : level + path.length ≤ 4) (hp : p ++ [j] <+: path)
    (hn : follow next mem table p = some n) (hj : has (mem n j) present = false) :
    walk mem va path level table w = none := by
  induction p generalizing path level table w with
  | nil =>
      obtain ⟨rest, rfl⟩ := hp
      obtain rfl : table = n := by simpa [Radix.follow] using hn
      simp [walk, hj]
  | cons i p ih =>
      obtain ⟨rest, rfl⟩ := hp
      obtain ⟨n', hn', hrest⟩ := Option.bind_eq_some_iff.mp hn
      obtain ⟨hpres, hhuge, haddr⟩ := next_eq_some hn'
      simp only [List.cons_append, List.append_assoc, List.length_cons, List.length_append,
        List.length_nil] at hlevel ⊢
      have h3 : level ≠ 3 := by omega
      rw [walk, haddr]
      simp only [hpres, hhuge, h3, Bool.not_true, Bool.and_false, Bool.or_false, beq_iff_eq,
        Bool.false_eq_true, if_false]
      refine ih ?_ ⟨rest, by simp⟩ hrest
      simp only [List.length_append, List.length_cons, List.length_nil]
      omega

/-- A walk down writable tables to a present leaf gives the leaf's frame and rights. -/
lemma walk_of_follow {mem : Memory} {va : ℕ} {p : List (Fin 512)} {j : Fin 512}
    {level table n : ℕ} {w : Bool} (hlevel : level + p.length = 3)
    (hn : follow next mem table p = some n)
    (hw : ∀ q i, q ++ [i] <+: p → ∀ m, follow next mem table q = some m →
      has (mem m i) writable = true)
    (hj : has (mem n j) present = true) :
    walk mem va (p ++ [j]) level table w
      = some ⟨(mem n j &&& addressMask) + va % frameSize, w && has (mem n j) writable,
        frameSize⟩ := by
  induction p generalizing level table w with
  | nil =>
      obtain rfl : level = 3 := by simpa using hlevel
      obtain rfl : table = n := by simpa [Radix.follow] using hn
      simp only [List.nil_append, walk, hj, Bool.not_true, Bool.false_or]
      rw [and_pageMask, and_offset]
      rfl
  | cons i p ih =>
      obtain ⟨n', hn', hrest⟩ := Option.bind_eq_some_iff.mp hn
      obtain ⟨hpres, hhuge, haddr⟩ := next_eq_some hn'
      rw [List.length_cons] at hlevel
      have h3 : level ≠ 3 := by omega
      have hwi : has (mem table i) writable = true := hw [] i ⟨p, rfl⟩ table rfl
      rw [List.cons_append, walk, haddr]
      simp only [hpres, hhuge, h3, hwi, Bool.not_true, Bool.and_false, Bool.or_false, beq_iff_eq,
        Bool.false_eq_true, if_false, Bool.and_true]
      refine ih (by omega) hrest fun q i' hq m hm => ?_
      refine hw (i :: q) i' (List.cons_prefix_cons.mpr ⟨rfl, hq⟩) m ?_
      rw [Radix.follow, hn']
      exact hm

end Harlan.Paging
