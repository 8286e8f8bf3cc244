import Harlan.Hal
import Harlan.Lib.Bitmap

/-!
The physical frame allocator (`kernel/src/memory/frame_allocator.rs`): one bit per frame,
set for a frame that is withheld or handed out and clear for a free one, over a memory map
that says which frames can ever be handed out.

* `BitmapFrameAllocator` with `new`, `adopt`, `withPurposes`, `allocate`, `allocateFor`,
  `allocateFrame`, `deallocateAs`, `label` and `reclaimBootServices`, as the source has
  them; the bitmap is the library's (`Bitmap.bit`, `Bitmap.nextFit`).
* `bit_new`: after `new` a bit is clear exactly for a frame the allocator manages.
* `allocate_spec`, `deallocateAs_cases`, `reclaim_spec`: what one operation can do, said
  once; everything about runs is derived from these.
* `inside_of_manages`, `untouched_of_manages`: what the rounding of region bounds means for
  the bytes of a frame.
-/

namespace Harlan

/-! ### Regions, rounded to whole frames -/

/-- End address of a region, saturating. -/
def regionEnd (region : MemoryRegion) : ℕ :=
  satAdd region.startPhysAddr (satMul region.pageCount frameSize)

/-- `[first, end)` frame numbers lying wholly inside `region`. -/
def inwardFrames (region : MemoryRegion) : ℕ × ℕ :=
  (divCeil region.startPhysAddr frameSize, regionEnd region / frameSize)

/-- `[first, end)` frame numbers `region` touches at all. -/
def outwardFrames (region : MemoryRegion) : ℕ × ℕ :=
  (region.startPhysAddr / frameSize, divCeil (regionEnd region) frameSize)

/-- The frame numbers `first..end`. -/
def framesFrom (first stop : ℕ) : List ℕ := List.range' first (stop - first)

lemma mem_framesFrom {first stop n : ℕ} : n ∈ framesFrom first stop ↔ first ≤ n ∧ n < stop := by
  rw [framesFrom, List.mem_range'_1]
  omega

/-! ### What a frame is used for -/

/-- What a frame the kernel holds is being used for. -/
inductive FramePurpose where
  | boot
  | pageTable
  | heap
  | stack
  | kernel
  | dma
deriving DecidableEq

namespace FramePurpose

/-- The discriminant, as the purpose table stores it. -/
def toByte : FramePurpose → UInt8
  | boot => 1
  | pageTable => 2
  | heap => 3
  | stack => 4
  | kernel => 5
  | dma => 6

/-- The purpose that a byte of the table stands for. -/
def fromByte (byte : UInt8) : Option FramePurpose :=
  if byte = 1 then some boot
  else if byte = 2 then some pageTable
  else if byte = 3 then some heap
  else if byte = 4 then some stack
  else if byte = 5 then some kernel
  else if byte = 6 then some dma
  else none

@[simp] lemma fromByte_toByte (purpose : FramePurpose) :
    fromByte purpose.toByte = some purpose := by
  cases purpose <;> rfl

end FramePurpose

/-- Why a frame is not taken back. -/
inductive DeallocError where
  | notManaged
  | notAllocated
  | wrongPurpose (expected : FramePurpose) (actual : Option FramePurpose)
deriving DecidableEq

/-! ### The allocator -/

/-- The allocator: a bit for every frame, and what is counted beside it. -/
structure BitmapFrameAllocator where
  bitmap : List (BitVec 64)
  map : List MemoryRegion
  bootServicesReclaimed : Bool
  /-- One byte per frame, 0 for a frame nobody holds; `none` until `withPurposes`. -/
  purposes : Option (List UInt8)
  free : ℕ
  nextWord : ℕ
  uncovered : ℕ
deriving DecidableEq

namespace BitmapFrameAllocator

open Bitmap (bit setBit setBits clearBits countZeros firstClear nextFit)

/-- The frames that the bitmap has a bit for. -/
def coveredFrames (a : BitmapFrameAllocator) : ℕ := wrap64 (a.bitmap.length * 64)

/-- Whether memory of this kind may be handed out, given whether the boot services' has
been reclaimed. -/
def allocatable (reclaimed : Bool) (kind : MemoryRegionKind) : Bool :=
  kind == .usable || (reclaimed && kind == .bootServices)

/-- Whether `frame` is one this allocator can ever hand out, free or not. -/
def manages (a : BitmapFrameAllocator) (frame : PhysFrame) : Bool :=
  let number := frame.number
  let contains := fun (bounds : ℕ × ℕ) => decide (bounds.1 ≤ number ∧ number < bounds.2)
  decide (number ≠ 0)
    && decide (number < a.coveredFrames)
    && (a.map.any fun r => allocatable a.bootServicesReclaimed r.kind && contains
      (inwardFrames r))
    && !(a.map.any fun r =>
          !allocatable a.bootServicesReclaimed r.kind && contains (outwardFrames r))

/-- Builds the allocator over `storage`, whose contents are overwritten. -/
def new (storage : List (BitVec 64)) (map : List MemoryRegion) : BitmapFrameAllocator :=
  let full := List.replicate storage.length (BitVec.allOnes 64)
  let covered := wrap64 (full.length * 64)
  let usable := map.filter fun r => r.kind = .usable
  let cleared := usable.foldl (fun words r =>
    setBits words (framesFrom (inwardFrames r).1 (min (inwardFrames r).2 covered)) false) full
  -- a second pass, so that withholding wins over any overlap
  let withheld := (map.filter fun r => r.kind ≠ .usable).foldl (fun words r =>
    setBits words (framesFrom (outwardFrames r).1 (min (outwardFrames r).2 covered)) true) cleared
  let bitmap := if 0 < covered then setBit withheld 0 true else withheld
  { bitmap
    map
    bootServicesReclaimed := false
    purposes := none
    free := (bitmap.map countZeros).sum
    nextWord := 0
    uncovered := (usable.map fun r =>
      (inwardFrames r).2 - max (inwardFrames r).1 covered).sum }

/-- Takes over `storage`, a copy of another allocator's bitmap over the same `map`. -/
def adopt (storage : List (BitVec 64)) (map : List MemoryRegion) (reclaimed : Bool) :
    BitmapFrameAllocator :=
  { bitmap := storage
    map
    bootServicesReclaimed := reclaimed
    purposes := none
    free := (storage.map countZeros).sum
    nextWord := 0
    uncovered := 0 }

/-- The frame of a given number, as the source computes it. -/
def frameOf (number : ℕ) : PhysFrame := .containingAddress (wrap64 (number * frameSize))

/-- Starts recording what each frame is used for; `none` is the source's `assert!` on a
table shorter than the bitmap covers. -/
def withPurposes (a : BitmapFrameAllocator) (table : List UInt8) : Option BitmapFrameAllocator :=
  if table.length < a.coveredFrames then none
  else
    let held := fun number => a.manages (frameOf number) && bit a.bitmap number
    some { a with
      purposes := some (table.mapIdx fun number byte =>
        if number < a.coveredFrames then
          if held number then FramePurpose.boot.toByte else 0
        else byte) }

/-- What `frame` is being used for, if purposes are being recorded. -/
def purposeOf (a : BitmapFrameAllocator) (frame : PhysFrame) : Option FramePurpose :=
  a.purposes.bind fun table => table[frame.number]?.bind FramePurpose.fromByte

/-- How many frames are held for `purpose`. -/
def framesFor (a : BitmapFrameAllocator) (purpose : FramePurpose) : ℕ :=
  (a.purposes.map fun table => table.countP (· == purpose.toByte)).getD 0

/-- Writes a frame's purpose into the table, if there is one. -/
def setPurpose (a : BitmapFrameAllocator) (frame : PhysFrame) (purpose : Option FramePurpose) :
    BitmapFrameAllocator :=
  { a with
    purposes := a.purposes.map fun table =>
      table.set frame.number ((purpose.map FramePurpose.toByte).getD 0) }

/-- Records what a frame the kernel already holds is for; whether anything was recorded. -/
def label (a : BitmapFrameAllocator) (frame : PhysFrame) (purpose : FramePurpose) :
    Bool × BitmapFrameAllocator :=
  let held := a.manages frame && bit a.bitmap frame.number
  if held then (true, a.setPurpose frame (some purpose)) else (false, a)

/-- The first free frame from where the last search ended. -/
def allocate (a : BitmapFrameAllocator) : Option PhysFrame × BitmapFrameAllocator :=
  if a.free = 0 then (none, a)
  else
    match nextFit a.bitmap a.nextWord with
    | some index =>
        let word := a.bitmap.getD index (BitVec.allOnes 64)
        let number := index * 64 + firstClear word
        (some (frameOf number),
          { a with
            bitmap := a.bitmap.set index (word ||| (1#64 <<< firstClear word))
            free := a.free - 1
            nextWord := index })
    | none => (none, a)

/-- Hands out a frame and records what it is for. -/
def allocateFor (a : BitmapFrameAllocator) (purpose : FramePurpose) :
    Option PhysFrame × BitmapFrameAllocator :=
  match a.allocate with
  | (some frame, a') => (some frame, a'.setPurpose frame (some purpose))
  | (none, a') => (none, a')

/-- How architecture code draws frames: they are recorded as page tables. -/
def allocateFrame (a : BitmapFrameAllocator) : Option PhysFrame × BitmapFrameAllocator :=
  a.allocateFor .pageTable

/-- Gives a frame back, whatever it was handed out for. -/
def deallocateUnchecked (a : BitmapFrameAllocator) (frame : PhysFrame) :
    Except DeallocError Unit × BitmapFrameAllocator :=
  if !a.manages frame then (.error .notManaged, a)
  else if !bit a.bitmap frame.number then (.error .notAllocated, a)
  else
    let cleared := { a with bitmap := setBit a.bitmap frame.number false }
    let forgotten := cleared.setPurpose frame none
    (.ok (), { forgotten with free := a.free + 1 })

/-- Gives a frame back, checking it is what the caller thinks it is. -/
def deallocateAs (a : BitmapFrameAllocator) (frame : PhysFrame) (purpose : FramePurpose) :
    Except DeallocError Unit × BitmapFrameAllocator :=
  let actual := a.purposeOf frame
  if a.purposes.isSome && actual != some purpose then (.error (.wrongPurpose purpose actual), a)
  else a.deallocateUnchecked frame

/-- Frees one frame of boot-services memory, counting it, unless it is not to be had. -/
def reclaimFrame (state : BitmapFrameAllocator × ℕ) (number : ℕ) : BitmapFrameAllocator × ℕ :=
  if state.1.manages (frameOf number) && bit state.1.bitmap number then
    ({ state.1 with bitmap := setBit state.1.bitmap number false }, state.2 + 1)
  else state

/-- Adds the map's boot-services memory to the pool; how many frames that added. -/
def reclaimBootServices (a : BitmapFrameAllocator) : ℕ × BitmapFrameAllocator :=
  if a.bootServicesReclaimed then (0, a)
  else
    let reclaimed := { a with bootServicesReclaimed := true }
    let covered := reclaimed.coveredFrames
    let numbers := (a.map.filter fun r => r.kind = .bootServices).flatMap fun r =>
      framesFrom (inwardFrames r).1 (min (inwardFrames r).2 covered)
    let (cleared, added) := numbers.foldl reclaimFrame (reclaimed, 0)
    (added, { cleared with free := cleared.free + added })

/-! ### Which frames are managed -/

/-- Frame number `n` is one the allocator can hand out: not 0, covered, inside an
allocatable region and touched by no other. -/
def Managed (a : BitmapFrameAllocator) (n : ℕ) : Prop :=
  n ≠ 0 ∧ n < a.coveredFrames
    ∧ (∃ r ∈ a.map, allocatable a.bootServicesReclaimed r.kind = true
        ∧ (inwardFrames r).1 ≤ n ∧ n < (inwardFrames r).2)
    ∧ ∀ r ∈ a.map, allocatable a.bootServicesReclaimed r.kind = false →
        ¬((outwardFrames r).1 ≤ n ∧ n < (outwardFrames r).2)

lemma manages_iff (a : BitmapFrameAllocator) (frame : PhysFrame) :
    a.manages frame = true ↔ a.Managed frame.number := by
  simp only [manages, Managed, Bool.and_eq_true, decide_eq_true_eq, List.any_eq_true,
    Bool.not_eq_true', List.any_eq_false, and_assoc]
  refine and_congr_right fun _ => and_congr_right fun _ => and_congr_right fun _ => ?_
  refine forall₂_congr fun r _ => ?_
  cases allocatable a.bootServicesReclaimed r.kind <;> simp

lemma inwardFrames_lt (r : MemoryRegion) : (inwardFrames r).2 < 2 ^ 52 := by
  have h : regionEnd r ≤ u64Max := min_le_right _ _
  simp only [u64Max, inwardFrames, frameSize] at h ⊢
  omega

/-- What lies wholly inside a region also touches it. -/
lemma inward_subset_outward (r : MemoryRegion) {n : ℕ}
    (h : (inwardFrames r).1 ≤ n ∧ n < (inwardFrames r).2) :
    (outwardFrames r).1 ≤ n ∧ n < (outwardFrames r).2 := by
  simp only [inwardFrames, outwardFrames, divCeil, frameSize] at h ⊢
  omega

lemma Managed.lt {a : BitmapFrameAllocator} {n : ℕ} (h : a.Managed n) : n < 2 ^ 52 := by
  obtain ⟨-, -, ⟨r, -, -, -, hn⟩, -⟩ := h
  exact hn.trans (inwardFrames_lt r)

lemma coveredFrames_le (a : BitmapFrameAllocator) : a.coveredFrames ≤ a.bitmap.length * 64 :=
  Nat.mod_le _ _

lemma Managed.lt_length {a : BitmapFrameAllocator} {n : ℕ} (h : a.Managed n) :
    n < a.bitmap.length * 64 :=
  h.2.1.trans_le a.coveredFrames_le

lemma number_frameOf {n : ℕ} (h : n < 2 ^ 52) : (frameOf n).number = n :=
  PhysFrame.number_containingAddress h

/-- Being managed depends on the map, the flag and the size of the bitmap only. -/
lemma Managed.congr {a b : BitmapFrameAllocator} (hmap : b.map = a.map)
    (hflag : b.bootServicesReclaimed = a.bootServicesReclaimed)
    (hlen : b.bitmap.length = a.bitmap.length) {n : ℕ} : b.Managed n ↔ a.Managed n := by
  simp only [Managed, coveredFrames, hmap, hflag, hlen]

/-- Reclaiming only ever adds to what is managed. -/
lemma Managed.of_reclaim {a : BitmapFrameAllocator} {n : ℕ} (h : a.Managed n) :
    ({ a with bootServicesReclaimed := true } : BitmapFrameAllocator).Managed n := by
  obtain ⟨h0, hcov, ⟨r, hr, hkind, hin⟩, hout⟩ := h
  have hmono : ∀ kind, allocatable a.bootServicesReclaimed kind = true →
      allocatable true kind = true := by
    intro kind
    cases a.bootServicesReclaimed <;> cases kind <;> simp [allocatable]
  refine ⟨h0, hcov, ⟨r, hr, hmono _ hkind, hin⟩, fun r' hr' hkind' => hout r' hr' ?_⟩
  by_contra hne
  rw [Bool.not_eq_false] at hne
  rw [hmono _ hne] at hkind'
  exact Bool.noConfusion hkind'

/-- Before the reclaim, nothing inside boot-services memory is managed. -/
lemma Managed.not_bootServices {a : BitmapFrameAllocator} {n : ℕ} (h : a.Managed n)
    (hflag : a.bootServicesReclaimed = false) {r : MemoryRegion} (hr : r ∈ a.map)
    (hkind : r.kind = .bootServices) : ¬((inwardFrames r).1 ≤ n ∧ n < (inwardFrames r).2) := by
  intro hin
  refine h.2.2.2 r hr ?_ (inward_subset_outward r hin)
  rw [hflag, hkind]
  rfl

end BitmapFrameAllocator

/-- The bytes of a frame lie wholly inside a region. -/
def MemoryRegion.Holds (r : MemoryRegion) (frame : PhysFrame) : Prop :=
  r.startPhysAddr ≤ frame.start
    ∧ frame.start + frameSize ≤ r.startPhysAddr + r.pageCount * frameSize

/-- Some byte of a frame lies inside a region. -/
def MemoryRegion.Touches (r : MemoryRegion) (frame : PhysFrame) : Prop :=
  r.startPhysAddr < frame.start + frameSize
    ∧ frame.start < r.startPhysAddr + r.pageCount * frameSize

namespace BitmapFrameAllocator

open Bitmap (bit setBit setBits clearBits countZeros firstClear nextFit)

/-- A managed frame lies wholly inside an allocatable region. -/
lemma inside_of_managed {a : BitmapFrameAllocator} {frame : PhysFrame}
    (h : a.Managed frame.number) :
    ∃ r ∈ a.map, allocatable a.bootServicesReclaimed r.kind = true ∧ r.Holds frame := by
  obtain ⟨-, -, ⟨r, hr, hkind, hfirst, hend⟩, -⟩ := h
  refine ⟨r, hr, hkind, ?_⟩
  have hstart := frame.start_eq
  simp only [inwardFrames, regionEnd, satAdd, satMul, divCeil, frameSize, u64Max] at hfirst hend
  simp only [MemoryRegion.Holds, frameSize]
  omega

/-- No region that may not be handed out reaches into a managed frame. -/
lemma untouched_of_managed {a : BitmapFrameAllocator} {frame : PhysFrame}
    (h : a.Managed frame.number) {r : MemoryRegion} (hr : r ∈ a.map)
    (hkind : allocatable a.bootServicesReclaimed r.kind = false) : ¬r.Touches frame := by
  have hlt := h.lt
  have hstart := frame.start_eq
  rintro ⟨hbelow, habove⟩
  refine h.2.2.2 r hr hkind ?_
  simp only [frameSize] at hbelow habove
  simp only [outwardFrames, regionEnd, satAdd, satMul, divCeil, frameSize, u64Max]
  omega

/-! ### What each operation does -/

/-- What holds of an allocator between operations: the counter counts the clear bits, and
only managed frames have one. -/
structure Sound (a : BitmapFrameAllocator) : Prop where
  free_eq : a.free = clearBits a.bitmap
  clear_managed : ∀ n, bit a.bitmap n = false → a.Managed n

lemma foldl_setBits (regions : List MemoryRegion) (bounds : MemoryRegion → ℕ × ℕ) (covered : ℕ)
    (value : Bool) (words : List (BitVec 64)) :
    regions.foldl (fun words r =>
        setBits words (framesFrom (bounds r).1 (min (bounds r).2 covered)) value) words
      = setBits words (regions.flatMap fun r =>
          framesFrom (bounds r).1 (min (bounds r).2 covered)) value := by
  simp only [setBits, List.foldl_flatMap]

lemma mem_regionFrames {regions : List MemoryRegion} {bounds : MemoryRegion → ℕ × ℕ}
    {covered n : ℕ} :
    (n ∈ regions.flatMap fun r => framesFrom (bounds r).1 (min (bounds r).2 covered))
      ↔ (∃ r ∈ regions, (bounds r).1 ≤ n ∧ n < (bounds r).2) ∧ n < covered := by
  simp only [List.mem_flatMap, mem_framesFrom, lt_min_iff]
  constructor
  · rintro ⟨r, hr, hfirst, hend, hcov⟩
    exact ⟨⟨r, hr, hfirst, hend⟩, hcov⟩
  · rintro ⟨⟨r, hr, hfirst, hend⟩, hcov⟩
    exact ⟨r, hr, hfirst, hend, hcov⟩

@[simp] lemma length_new (storage : List (BitVec 64)) (map : List MemoryRegion) :
    (new storage map).bitmap.length = storage.length := by
  simp only [new, foldl_setBits]
  split <;> simp

/-- After `new` a bit is clear exactly for a managed frame. -/
lemma bit_new (storage : List (BitVec 64)) (map : List MemoryRegion) (n : ℕ) :
    bit (new storage map).bitmap n = false ↔ (new storage map).Managed n := by
  have hcov : wrap64 (storage.length * 64) ≤ storage.length * 64 := Nat.mod_le _ _
  have hkind : ∀ r : MemoryRegion, allocatable false r.kind = decide (r.kind = .usable) := by
    intro r
    cases h : r.kind <;> simp [allocatable]
  simp only [Managed, coveredFrames, length_new]
  simp only [new, foldl_setBits, List.length_replicate, hkind, decide_eq_true_eq,
    decide_eq_false_iff_not]
  generalize wrap64 (storage.length * 64) = covered at hcov
  -- the bits after the two passes, before frame 0 is withheld
  have hbits : ∀ m, bit (setBits (setBits (List.replicate storage.length (BitVec.allOnes 64))
      ((map.filter fun r => r.kind = .usable).flatMap fun r =>
        framesFrom (inwardFrames r).1 (min (inwardFrames r).2 covered)) false)
      ((map.filter fun r => r.kind ≠ .usable).flatMap fun r =>
        framesFrom (outwardFrames r).1 (min (outwardFrames r).2 covered)) true) m = false
      ↔ m < covered ∧ (∃ r ∈ map, r.kind = .usable
          ∧ (inwardFrames r).1 ≤ m ∧ m < (inwardFrames r).2)
        ∧ ∀ r ∈ map, ¬r.kind = .usable →
          ¬((outwardFrames r).1 ≤ m ∧ m < (outwardFrames r).2) := by
    intro m
    rw [Bitmap.bit_setBits (by norm_num), Bitmap.bit_setBits (by norm_num),
      Bitmap.bit_replicate_allOnes (by norm_num)]
    · split_ifs with hout hin
      · obtain ⟨⟨r, hr, hb⟩, -⟩ := mem_regionFrames.mp hout
        obtain ⟨hr, hk⟩ := List.mem_filter.mp hr
        refine iff_of_false (by simp) ?_
        rintro ⟨-, -, hall⟩
        exact hall r hr (by simpa using hk) hb
      · obtain ⟨⟨r, hr, hb⟩, hm⟩ := mem_regionFrames.mp hin
        obtain ⟨hr, hk⟩ := List.mem_filter.mp hr
        simp only [true_iff]
        refine ⟨hm, ⟨r, hr, by simpa using hk, hb⟩, fun r' hr' hk' hb' => hout ?_⟩
        exact mem_regionFrames.mpr ⟨⟨r', List.mem_filter.mpr ⟨hr', by simpa using hk'⟩, hb'⟩, hm⟩
      · refine iff_of_false (by simp) ?_
        rintro ⟨hm, ⟨r, hr, hk, hb⟩, -⟩
        exact absurd (mem_regionFrames.mpr
          ⟨⟨r, List.mem_filter.mpr ⟨hr, by simpa using hk⟩, hb⟩, hm⟩) hin
    · intro k hk
      rw [List.length_replicate]
      exact (mem_regionFrames.mp hk).2.trans_le hcov
    · intro k hk
      rw [Bitmap.length_setBits, List.length_replicate]
      exact (mem_regionFrames.mp hk).2.trans_le hcov
  split_ifs with hpos
  · rw [Bitmap.bit_setBit (by norm_num) (by simpa using hpos.trans_le hcov)]
    by_cases hn : n = 0
    · simp [hn]
    · rw [if_neg hn, hbits]
      simp [hn]
  · rw [hbits]
    constructor
    · rintro ⟨hm, -⟩
      omega
    · rintro ⟨-, hm, -⟩
      omega

lemma sound_new (storage : List (BitVec 64)) (map : List MemoryRegion) :
    Sound (new storage map) where
  free_eq := Bitmap.sum_countZeros (by norm_num) _
  clear_managed n h := (bit_new storage map n).mp h

lemma sound_adopt {a : BitmapFrameAllocator} (h : Sound a) :
    Sound (adopt a.bitmap a.map a.bootServicesReclaimed) where
  free_eq := Bitmap.sum_countZeros (by norm_num) _
  clear_managed n hn := (Managed.congr (a := a) rfl rfl rfl).mpr (h.clear_managed n hn)

/-- `allocate` hands out a frame whose bit was clear, or there is none. -/
lemma allocate_spec {a : BitmapFrameAllocator} (h : Sound a) :
    (a.free = 0 ∧ a.allocate = (none, a))
      ∨ ∃ n, bit a.bitmap n = false ∧ 0 < a.free
          ∧ a.allocate = (some (frameOf n),
              { a with bitmap := setBit a.bitmap n true, free := a.free - 1, nextWord := n / 64 })
                := by
  rw [allocate]
  by_cases hfree : a.free = 0
  · exact Or.inl ⟨hfree, if_pos hfree⟩
  · right
    have hclear : 0 < clearBits a.bitmap := by
      rw [← h.free_eq]
      omega
    obtain ⟨index, hindex⟩ := Bitmap.nextFit_isSome (by norm_num) a.nextWord hclear
    obtain ⟨hlt, hne⟩ := Bitmap.nextFit_some hindex
    have hbit := Bitmap.bit_nextFit (by norm_num) hindex
    obtain ⟨hfirst, -⟩ := Bitmap.firstClear_spec hne
    refine ⟨_, hbit, Nat.pos_of_ne_zero hfree, ?_⟩
    rw [if_neg hfree, hindex]
    simp only
    generalize hword : a.bitmap.getD index (BitVec.allOnes 64) = word at *
    have hdiv : (index * 64 + firstClear word) / 64 = index := by omega
    have hmod : (index * 64 + firstClear word) % 64 = firstClear word := by omega
    have hset : a.bitmap.set index (word ||| (1#64 <<< firstClear word))
        = setBit a.bitmap (index * 64 + firstClear word) true := by
      rw [setBit, hdiv, hmod, List.modify_eq_set, ← hword, List.getD_eq_getElem?_getD,
        List.getElem?_eq_getElem hlt]
      rfl
    simp only [hset, hdiv]

/-- What `deallocateAs` can do: refuse and change nothing, or clear the bit of a held
frame. -/
lemma deallocateAs_cases (a : BitmapFrameAllocator) (frame : PhysFrame) (purpose : FramePurpose) :
    (∃ e, a.deallocateAs frame purpose = (.error e, a))
      ∨ (a.Managed frame.number ∧ bit a.bitmap frame.number = true
          ∧ (a.purposes = none ∨ a.purposeOf frame = some purpose)
          ∧ a.deallocateAs frame purpose = (.ok (),
              { a with
                bitmap := setBit a.bitmap frame.number false
                purposes := a.purposes.map fun table => table.set frame.number 0
                free := a.free + 1 })) := by
  rw [deallocateAs]
  by_cases hpurpose : (a.purposes.isSome && a.purposeOf frame != some purpose) = true
  · exact Or.inl ⟨_, if_pos hpurpose⟩
  · simp only [hpurpose]
    rw [deallocateUnchecked]
    by_cases hman : a.manages frame = true
    · by_cases hbit : bit a.bitmap frame.number = true
      · right
        refine ⟨(manages_iff a frame).mp hman, hbit, ?_, ?_⟩
        · cases hp : a.purposes with
          | none => exact Or.inl rfl
          | some table =>
              right
              simpa [hp] using hpurpose
        · simp [hman, hbit, setPurpose]
      · left
        exact ⟨.notAllocated, by simp [hman, hbit]⟩
    · left
      exact ⟨.notManaged, by simp [hman]⟩

/-- A refused deallocation changes nothing. -/
lemma deallocateAs_error {a a' : BitmapFrameAllocator} {frame : PhysFrame}
    {purpose : FramePurpose} {e : DeallocError}
    (h : a.deallocateAs frame purpose = (.error e, a')) : a' = a := by
  rcases deallocateAs_cases a frame purpose with ⟨e', he⟩ | ⟨-, -, -, hok⟩
  · rw [he] at h
    exact (Prod.mk.inj h).2.symm
  · rw [hok] at h
    exact absurd (Prod.mk.inj h).1 (by simp)

/-- Going through a list of boot-services frames: each managed one ends with its bit clear,
the count is of those that were not clear before, and nothing else moves. -/
lemma foldl_reclaimFrame (numbers : List ℕ) (hsmall : ∀ n ∈ numbers, n < 2 ^ 52)
    (state : BitmapFrameAllocator × ℕ) :
    ∃ words added, numbers.foldl reclaimFrame state
        = ({ state.1 with bitmap := words }, state.2 + added)
      ∧ words.length = state.1.bitmap.length
      ∧ clearBits words = clearBits state.1.bitmap + added
      ∧ ∀ n, bit words n = false
          ↔ bit state.1.bitmap n = false ∨ (n ∈ numbers ∧ state.1.Managed n) := by
  induction numbers generalizing state with
  | nil => exact ⟨state.1.bitmap, 0, rfl, rfl, rfl, by simp⟩
  | cons k numbers ih =>
      have hk := number_frameOf (hsmall k List.mem_cons_self)
      have hrest : ∀ n ∈ numbers, n < 2 ^ 52 := fun n hn => hsmall n (List.mem_cons_of_mem k hn)
      rw [List.foldl_cons]
      by_cases hc : (state.1.manages (frameOf k) && bit state.1.bitmap k) = true
      · obtain ⟨hman, hbit⟩ := Bool.and_eq_true_iff.mp hc
        rw [manages_iff, hk] at hman
        rw [reclaimFrame, if_pos hc]
        obtain ⟨words, added, heq, hlen, hclear, hall⟩ := ih hrest
          ({ state.1 with bitmap := setBit state.1.bitmap k false }, state.2 + 1)
        -- the frame is managed and in use: its bit is cleared, and counted
        have hset := Bitmap.bit_setBit (w := 64) (by norm_num) hman.lt_length
        refine ⟨words, added + 1, ?_, ?_, ?_, fun n => ?_⟩
        · rw [heq]
          simp only [Nat.add_assoc, Nat.add_comm 1 added]
        · simpa using hlen
        · rw [hclear, Bitmap.clearBits_setBit_false (by norm_num) hman.lt_length hbit]
          ring
        · have hcongr : ({ state.1 with bitmap := setBit state.1.bitmap k false } :
              BitmapFrameAllocator).Managed n ↔ state.1.Managed n :=
            Managed.congr (a := state.1)
              (b := { state.1 with bitmap := setBit state.1.bitmap k false })
              rfl rfl (Bitmap.length_setBit _ _ _)
          rw [hall, hset, hcongr]
          by_cases hn : n = k <;> simp [hn, hman]
      · rw [reclaimFrame, if_neg hc]
        obtain ⟨words, added, heq, hlen, hclear, hall⟩ := ih hrest state
        refine ⟨words, added, heq, hlen, hclear, fun n => ?_⟩
        rw [hall, List.mem_cons]
        constructor
        · rintro (h | ⟨hmem, hman⟩)
          · exact Or.inl h
          · exact Or.inr ⟨Or.inr hmem, hman⟩
        · rintro (h | ⟨rfl | hmem, hman⟩)
          · exact Or.inl h
          · left
            by_contra hbit
            rw [Bool.not_eq_false] at hbit
            refine hc (Bool.and_eq_true_iff.mpr ⟨?_, hbit⟩)
            rw [manages_iff, hk]
            exact hman
          · exact Or.inr ⟨hmem, hman⟩

/-- The reclaim clears exactly the bits of the boot-services frames it finds managed. -/
lemma reclaim_spec (a : BitmapFrameAllocator) (hflag : a.bootServicesReclaimed = false) :
    ∃ words added, a.reclaimBootServices
        = (added, { a with
            bitmap := words, bootServicesReclaimed := true, free := a.free + added })
      ∧ words.length = a.bitmap.length
      ∧ clearBits words = clearBits a.bitmap + added
      ∧ ∀ n, bit words n = false ↔ bit a.bitmap n = false
          ∨ ((∃ r ∈ a.map, r.kind = .bootServices
                ∧ (inwardFrames r).1 ≤ n ∧ n < (inwardFrames r).2)
              ∧ ({ a with bootServicesReclaimed := true } : BitmapFrameAllocator).Managed n) := by
  rw [reclaimBootServices, hflag, if_neg (by simp)]
  obtain ⟨words, added, heq, hlen, hclear, hall⟩ := foldl_reclaimFrame
    ((a.map.filter fun r => r.kind = .bootServices).flatMap fun r => framesFrom (inwardFrames r).1
      (min (inwardFrames r).2 ({ a with bootServicesReclaimed := true } :
        BitmapFrameAllocator).coveredFrames))
    (fun n hn => by
      obtain ⟨⟨r, -, -, hend⟩, -⟩ := mem_regionFrames.mp hn
      exact hend.trans (inwardFrames_lt r))
    ({ a with bootServicesReclaimed := true }, 0)
  refine ⟨words, added, ?_, hlen, hclear, fun n => ?_⟩
  · simp only [heq, Nat.zero_add]
  · rw [hall, mem_regionFrames]
    refine or_congr_right (and_congr_left fun hman => ?_)
    constructor
    · rintro ⟨⟨r, hr, hb⟩, -⟩
      obtain ⟨hr, hk⟩ := List.mem_filter.mp hr
      exact ⟨r, hr, by simpa using hk, hb⟩
    · rintro ⟨r, hr, hk, hb⟩
      exact ⟨⟨r, List.mem_filter.mpr ⟨hr, by simpa using hk⟩, hb⟩, hman.2.1⟩

/-- What is managed after a reclaim depends on the length of the bitmap only. -/
lemma managed_reclaimed {a : BitmapFrameAllocator} {words : List (BitVec 64)} {added n : ℕ}
    (hlen : words.length = a.bitmap.length) :
    ({ a with
        bitmap := words, bootServicesReclaimed := true, free :=
  a.free + added } : BitmapFrameAllocator).Managed n
      ↔ ({ a with bootServicesReclaimed := true } : BitmapFrameAllocator).Managed n := by
  simp only [Managed, coveredFrames, hlen]

lemma Sound.reclaim {a : BitmapFrameAllocator} (h : a.Sound)
    (hflag : a.bootServicesReclaimed = false) :
    a.reclaimBootServices.2.Sound := by
  obtain ⟨words, added, heq, hlen, hclear, hall⟩ := reclaim_spec a hflag
  rw [heq]
  refine ⟨?_, fun n hn => ?_⟩
  · simp only [hclear, h.free_eq]
  · rw [managed_reclaimed hlen]
    rcases (hall n).mp hn with hold | ⟨-, hman⟩
    · exact (h.clear_managed n hold).of_reclaim
    · exact hman

end BitmapFrameAllocator

end Harlan
