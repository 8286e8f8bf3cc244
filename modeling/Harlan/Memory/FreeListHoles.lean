import Mathlib.Tactic
import Harlan.Memory.FreeList

/-!
The list of holes inside the heap's memory, as a list of extents.

* `LinkedTo mem first holes last`: from `first` on, the headers in memory name these holes, and
  the last of them names `last`.
* `Holds heap holes`: what the heap's list of holes is to be like.
* `link_spec`, `writeHole_spec`: what writing one header does to it.
-/

namespace Harlan.Heap

variable {mem mem' : ByteMemory} {heap : FreeListHeap} {holes before after : List Extent}
  {hole : Extent}
  {first last middle : ℕ}

/-! ### Headers -/

lemma putHole_of_outside {addr a : ℕ} {hole : Hole} (h : a < addr ∨ addr + granule ≤ a) :
    putHole mem addr hole a = mem a := by
  have hgranule : granule = 16 := rfl
  rw [putHole, setWord_of_outside (by omega), setWord_of_outside (by omega)]

lemma holeAt_putHole {addr size next : ℕ} (hsize : size < 2 ^ 64) (hnext : next < 2 ^ 64) :
    holeAt (putHole mem addr ⟨size, next⟩) addr = ⟨size, next⟩ := by
  have hfirst : getWord (putHole mem addr ⟨size, next⟩) addr 8 = size := by
    rw [putHole, @getWord_congr (setWord mem addr size 8) _ _ _ fun a hlow hhigh => ?_,
      getWord_setWord, Nat.mod_eq_of_lt (by norm_num; omega)]
    exact setWord_of_outside (by omega)
  have hsecond : getWord (putHole mem addr ⟨size, next⟩) (addr + 8) 8 = next := by
    rw [putHole, getWord_setWord, Nat.mod_eq_of_lt (by norm_num; omega)]
  rw [holeAt, hfirst, hsecond]

lemma holeAt_congr {addr : ℕ} (h : ∀ a, addr ≤ a → a < addr + granule → mem' a = mem a) :
    holeAt mem' addr = holeAt mem addr := by
  have hgranule : granule = 16 := rfl
  rw [holeAt, holeAt, getWord_congr fun a hlow hhigh => h a hlow (by omega),
    getWord_congr fun a hlow hhigh => h a (by omega) (by omega)]

/-! ### Lists of holes -/

/-- From `first` on the headers name these holes, and then `last`. -/
def LinkedTo (mem : ByteMemory) : ℕ → List Extent → ℕ → Prop
  | first, [], last => first = last
  | first, hole :: rest, last =>
      first = hole.addr ∧ (holeAt mem first).size = hole.size
        ∧ LinkedTo mem (holeAt mem first).next rest last

lemma linkedTo_append :
    LinkedTo mem first (before ++ after) last
      ↔ ∃ middle, LinkedTo mem first before middle ∧ LinkedTo mem middle after last := by
  induction before generalizing first with
  | nil => simp [LinkedTo]
  | cons hole rest ih => simp [LinkedTo, ih, and_assoc]

/-- The list depends on the headers of its own holes. -/
lemma LinkedTo.congr (h : LinkedTo mem first holes last)
    (hsize : ∀ hole ∈ holes, granule ≤ hole.size)
    (hmem : ∀ hole ∈ holes, ∀ a, hole.Has a → mem' a = mem a) :
    LinkedTo mem' first holes last := by
  induction holes generalizing first with
  | nil => exact h
  | cons hole rest ih =>
      obtain ⟨rfl, hfirst, hrest⟩ := h
      have hlarge := hsize hole (by simp)
      have hsame : holeAt mem' hole.addr = holeAt mem hole.addr := by
        refine holeAt_congr fun a hlow hhigh => hmem hole (by simp) a ⟨hlow, ?_⟩
        rw [Extent.endAddr]
        omega
      rw [LinkedTo, hsame]
      refine ⟨rfl, hfirst, ih hrest (fun other hother => ?_) fun other hother => ?_⟩
      · exact hsize other (List.mem_cons_of_mem _ hother)
      · exact hmem other (List.mem_cons_of_mem _ hother)

/-- A hole of the heap: whole granules, inside. -/
structure FreeListHeap.Fits (heap : FreeListHeap) (hole : Extent) : Prop where
  aligned : hole.addr % granule = 0
  whole : hole.size % granule = 0
  pos : 0 < hole.size
  low : heap.start ≤ hole.addr
  high : hole.endAddr ≤ heap.endAddr

/-- What `init` made of the region. -/
structure FreeListHeap.Region (heap : FreeListHeap) : Prop where
  base : heap.base ≠ 0
  start_pos : 0 < heap.start
  start_whole : heap.start % granule = 0
  end_whole : heap.endAddr % granule = 0
  start_le : heap.start ≤ heap.endAddr
  end_lt : heap.endAddr < 2 ^ 64

/-- The holes in memory are these, in order, apart, and their sizes add up to what is free. -/
structure FreeListHeap.Holds (heap : FreeListHeap) (holes : List Extent) : Prop where
  linked : LinkedTo heap.mem heap.head holes 0
  fits : ∀ hole ∈ holes, heap.Fits hole
  apart : holes.Pairwise fun hole next => hole.endAddr < next.addr
  free : heap.free = (holes.map (·.size)).sum

/-- Only the memory, the first hole and what is free may differ. -/
structure SameRegion (heap heap' : FreeListHeap) : Prop where
  base : heap'.base = heap.base
  start : heap'.start = heap.start
  endAddr : heap'.endAddr = heap.endAddr

lemma SameRegion.trans {heap' heap'' : FreeListHeap} (h : SameRegion heap heap')
    (h' : SameRegion heap' heap'') : SameRegion heap heap'' :=
  ⟨h'.base.trans h.base, h'.start.trans h.start, h'.endAddr.trans h.endAddr⟩

lemma FreeListHeap.Region.of_same {heap' : FreeListHeap} (h : heap.Region)
    (hsame : SameRegion heap heap') : heap'.Region := by
  obtain ⟨hbase, hstart, hend⟩ := hsame
  exact ⟨hbase ▸ h.base, hstart ▸ h.start_pos, hstart ▸ h.start_whole, hend ▸ h.end_whole,
    by rw [hstart, hend]; exact h.start_le, hend ▸ h.end_lt⟩

lemma FreeListHeap.Fits.of_same {heap' : FreeListHeap} (h : heap.Fits hole)
    (hsame : SameRegion heap heap') : heap'.Fits hole :=
  ⟨h.aligned, h.whole, h.pos, hsame.start ▸ h.low, hsame.endAddr ▸ h.high⟩

/-- The numbers of a hole, for arithmetic. -/
lemma FreeListHeap.Fits.bounds (h : heap.Fits hole) (hregion : heap.Region) :
    16 ≤ hole.size ∧ 0 < hole.addr ∧ hole.addr % 16 = 0 ∧ hole.size % 16 = 0
      ∧ hole.addr + hole.size < 2 ^ 64 := by
  obtain ⟨haligned, hwhole, hpos, hlow, hhigh⟩ := h
  have hstart := hregion.start_pos
  have hend := hregion.end_lt
  rw [granule] at haligned hwhole
  rw [Extent.endAddr] at hhigh
  omega

/-! ### One header -/

lemma holeFits {addr : ℕ} (hregion : heap.Region) (haligned : addr % granule = 0)
    (hlow : heap.start ≤ addr) (hhigh : addr + granule ≤ heap.endAddr) : heap.HoleFits addr := by
  refine ⟨haligned, hlow, addr + granule, ?_, hhigh⟩
  have hend := hregion.end_lt
  rw [checkedAdd, if_pos (by omega)]
  rfl

lemma holePtr_ok {addr : ℕ} (h : heap.HoleFits addr) : holePtr addr heap = (.ok (), heap) := by
  rw [holePtr, Eff.get_bind, assert, if_pos h]
  rfl

lemma readHole_ok {addr : ℕ} (h : heap.HoleFits addr) :
    readHole addr heap = (.ok (holeAt heap.mem addr), heap) := by
  rw [readHole, Eff.bind_ok (holePtr_ok h)]
  rfl

lemma writeHole_ok {addr : ℕ} {hole : Hole} (h : heap.HoleFits addr) :
    writeHole addr hole heap = (.ok (), { heap with mem := putHole heap.mem addr hole }) := by
  rw [writeHole, Eff.bind_ok (holePtr_ok h)]
  rfl

lemma modify_bind {α : Type} (f : FreeListHeap → FreeListHeap) (g : Unit → HeapM α) :
    (modify f >>= g) heap = g () (f heap) := rfl

lemma plus_ok {a b : ℕ} (h : a + b < 2 ^ 64) : plus a b heap = (.ok (a + b), heap) := by
  rw [plus, checkedAdd, if_pos h]
  rfl

lemma minus_ok {a b : ℕ} (h : b ≤ a) : minus a b heap = (.ok (a - b), heap) := by
  rw [minus, if_pos h]
  rfl

lemma FreeListHeap.Fits.holeFits (h : heap.Fits hole) (hregion : heap.Region) :
    heap.HoleFits hole.addr := by
  obtain ⟨hlarge, -⟩ := h.bounds hregion
  have hhigh := h.high
  rw [Extent.endAddr] at hhigh
  exact Heap.holeFits hregion h.aligned h.low (by rw [granule]; omega)

/-- The address of the last of the holes, 0 if there is none. -/
def lastAddr (holes : List Extent) : ℕ := (holes.getLast?.map (·.addr)).getD 0

/-- **Linking** makes a list of holes end in another address, and writes nowhere else. -/
theorem link_spec {next : ℕ} (hregion : heap.Region)
    (hlinked : LinkedTo heap.mem heap.head before middle)
    (hfits : ∀ hole ∈ before, heap.Fits hole)
    (hapart : before.Pairwise fun hole next => hole.endAddr < next.addr) (hnext : next < 2 ^ 64) :
    ∃ heap', link (lastAddr before) next heap = (.ok (), heap')
      ∧ LinkedTo heap'.mem heap'.head before next
      ∧ SameRegion heap heap' ∧ heap'.free = heap.free
      ∧ ∀ a, (∀ hole ∈ before, ¬hole.Has a) → heap'.mem a = heap.mem a := by
  rcases List.eq_nil_or_concat' before with rfl | ⟨before, hole, rfl⟩
  · exact ⟨{ heap with head := next }, rfl, rfl, ⟨rfl, rfl, rfl⟩, rfl, fun a _ => rfl⟩
  · have hhole := hfits hole (by simp)
    obtain ⟨hlarge, hpos, -, -, htop⟩ := hhole.bounds hregion
    have hlast : lastAddr (before ++ [hole]) = hole.addr := by simp [lastAddr]
    obtain ⟨mid, hfront, rfl, hsize, -⟩ := linkedTo_append.mp hlinked
    rw [hlast, link, if_neg (by omega), Eff.bind_ok (readHole_ok (hhole.holeFits hregion)),
      writeHole_ok (hhole.holeFits hregion)]
    have hout : ∀ a, ¬hole.Has a → putHole heap.mem hole.addr
        ⟨(holeAt heap.mem hole.addr).size, next⟩ a = heap.mem a := by
      intro a ha
      refine putHole_of_outside ?_
      rw [Extent.Has, Extent.endAddr] at ha
      rw [granule]
      omega
    refine ⟨_, rfl, linkedTo_append.mpr ⟨hole.addr, ?_, ?_⟩, ⟨rfl, rfl, rfl⟩, rfl, fun a ha => ?_⟩
    · refine hfront.congr (fun other hother => ?_) fun other hother a ha => ?_
      · exact (hfits other (by simp [hother])).bounds hregion |>.1
      · refine hout a fun hboth => ?_
        have hsep := (List.pairwise_append.mp hapart).2.2 other hother hole (by simp)
        have hlow := hboth.1
        have hhigh := ha.2
        omega
    · rw [hsize, LinkedTo, holeAt_putHole (by omega) hnext]
      exact ⟨rfl, rfl, rfl⟩
    · exact hout a (ha hole (by simp))

/-- Writing a header makes the hole at its address, and writes nowhere else. -/
theorem writeHole_spec {next : ℕ} (hregion : heap.Region) (hfits : heap.Fits hole)
    (hnext : next < 2 ^ 64) (hafter : LinkedTo heap.mem next after last)
    (hsize : ∀ other ∈ after, granule ≤ other.size)
    (hdisjoint : ∀ other ∈ after, hole.endAddr ≤ other.addr) :
    ∃ heap', writeHole hole.addr ⟨hole.size, next⟩ heap = (.ok (), heap')
      ∧ LinkedTo heap'.mem hole.addr (hole :: after) last
      ∧ SameRegion heap heap' ∧ heap'.free = heap.free ∧ heap'.head = heap.head
      ∧ ∀ a, ¬hole.Has a → heap'.mem a = heap.mem a := by
  obtain ⟨hlarge, hpos, -, -, htop⟩ := hfits.bounds hregion
  have hout : ∀ a, ¬hole.Has a → putHole heap.mem hole.addr ⟨hole.size, next⟩ a = heap.mem a := by
    intro a ha
    refine putHole_of_outside ?_
    rw [Extent.Has, Extent.endAddr] at ha
    rw [granule]
    omega
  refine ⟨_, writeHole_ok (hfits.holeFits hregion), ?_, ⟨rfl, rfl, rfl⟩, rfl, rfl, hout⟩
  rw [LinkedTo, holeAt_putHole (by omega) hnext]
  refine ⟨rfl, rfl, hafter.congr hsize fun other hother a ha => hout a fun hboth => ?_⟩
  have hsep := hdisjoint other hother
  have hlow := ha.1
  have hhigh := hboth.2
  omega

end Harlan.Heap
