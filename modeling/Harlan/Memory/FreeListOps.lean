import Mathlib.Tactic
import Harlan.Memory.FreeListHoles

/-!
What the heap's operations do to its list of holes.

* `allocate_spec`: nothing, or a block is cut out of one of the holes.
* `deallocate_spec`: the block is free again, merged with the holes it touches.
* `check_spec`: the check finds nothing wrong.
-/

namespace Harlan.Heap

variable {heap : FreeListHeap} {holes before after : List Extent} {hole : Extent}

lemma FreeListHeap.Holds.large (h : heap.Holds holes) (hregion : heap.Region) :
    ∀ hole ∈ holes, granule ≤ hole.size :=
  fun hole hhole => ((h.fits hole hhole).bounds hregion).1

/-- Bytes change only in what is a hole in the end. -/
def Frame (heap heap' : FreeListHeap) (holes : List Extent) : Prop :=
  ∀ a, (∀ hole ∈ holes, ¬hole.Has a) → heap'.mem a = heap.mem a

/-! ### Allocating -/

/-- The addresses from `first` up to `last`, if there are any. -/
def piece (first last : ℕ) : List Extent := if first < last then [⟨first, last - first⟩] else []

/-- What is left of a hole a block was cut out of. -/
def leftOf (hole : Extent) (block size : ℕ) : List Extent :=
  piece hole.addr block ++ piece (block + size) hole.endAddr

lemma mem_piece {first last : ℕ} {extent : Extent} (h : extent ∈ piece first last) :
    extent = ⟨first, last - first⟩ ∧ first < last := by
  rw [piece] at h
  by_cases hsome : first < last
  · rw [if_pos hsome] at h
    exact ⟨List.mem_singleton.mp h, hsome⟩
  · rw [if_neg hsome] at h
    cases h

lemma covered_piece (first last a : ℕ) :
    covered (piece first last) a = covered [⟨first, last - first⟩] a := by
  by_cases hsome : first < last
  · rw [piece, if_pos hsome]
  · rw [piece, if_neg hsome, Nat.sub_eq_zero_of_le (by omega), covered_empty, covered_nil]

lemma sum_piece (first last : ℕ) : ((piece first last).map (·.size)).sum = last - first := by
  by_cases hsome : first < last
  · simp [piece, hsome]
  · simp [piece, hsome]
    omega

lemma covered_leftOf {block size : ℕ} (hlow : hole.addr ≤ block)
    (hhigh : block + size ≤ hole.endAddr) (a : ℕ) :
    covered (⟨block, size⟩ :: leftOf hole block size) a = covered [hole] a := by
  rw [leftOf, covered_cons, covered_append, covered_piece, covered_piece]
  simp only [covered_cons, covered_nil, Extent.endAddr] at hhigh ⊢
  grind

lemma sum_leftOf {block size : ℕ} (hlow : hole.addr ≤ block)
    (hhigh : block + size ≤ hole.endAddr) :
    ((leftOf hole block size).map (·.size)).sum + size = hole.size := by
  rw [leftOf, List.map_append, List.sum_append, sum_piece, sum_piece]
  rw [Extent.endAddr] at hhigh ⊢
  omega

/-- Pieces of a hole lie apart from the other holes as it did. -/
lemma apart_replace {pieces : List Extent}
    (h : (before ++ hole :: after).Pairwise fun hole next => hole.endAddr < next.addr)
    (hpieces : pieces.Pairwise fun hole next => hole.endAddr < next.addr)
    (hin : ∀ piece ∈ pieces, hole.addr ≤ piece.addr ∧ piece.endAddr ≤ hole.endAddr) :
    (before ++ (pieces ++ after)).Pairwise fun hole next => hole.endAddr < next.addr := by
  obtain ⟨hbefore, hrest, hacross⟩ := List.pairwise_append.mp h
  obtain ⟨hhole, hafter⟩ := List.pairwise_cons.mp hrest
  refine List.pairwise_append.mpr ⟨hbefore, List.pairwise_append.mpr ⟨hpieces, hafter, ?_⟩, ?_⟩
  · exact fun piece hpiece next hnext => lt_of_le_of_lt (hin piece hpiece).2 (hhole next hnext)
  · intro other hother next hnext
    rcases List.mem_append.mp hnext with hpiece | hnext
    · exact lt_of_lt_of_le (hacross other hother hole (by simp)) (hin next hpiece).1
    · exact hacross other hother next (List.mem_cons_of_mem _ hnext)

/-- What is left over is in front of the rest again. -/
lemma keepFree_spec (first' last' : ℕ) {next last : ℕ} (hregion : heap.Region)
    (hfits : first' < last' → heap.Fits ⟨first', last' - first'⟩) (hnext : next < 2 ^ 64)
    (hafter : LinkedTo heap.mem next after last) (hsize : ∀ other ∈ after, granule ≤ other.size)
    (hdisjoint : ∀ other ∈ after, last' ≤ other.addr) :
    ∃ heap' first, keepFree (first' < last') first' (last' - first') next heap
      = (.ok first, heap')
      ∧ LinkedTo heap'.mem first (piece first' last' ++ after) last
      ∧ first < 2 ^ 64
      ∧ SameRegion heap heap' ∧ heap'.free = heap.free ∧ heap'.head = heap.head
      ∧ Frame heap heap' (piece first' last') := by
  by_cases hsome : first' < last'
  · obtain ⟨heap', hwrite, hlinked, hsame, hfree, hhead, hout⟩ :=
      writeHole_spec hregion (hfits hsome) hnext hafter hsize fun other hother => by
        have := hdisjoint other hother
        simp only [Extent.endAddr]
        omega
    refine ⟨heap', first', ?_, ?_, ?_, hsame, hfree, hhead, ?_⟩
    · rw [keepFree, if_pos hsome, Eff.bind_ok hwrite]
      rfl
    · rw [piece, if_pos hsome]
      exact hlinked
    · have := (hfits hsome).bounds hregion
      simp only at this
      omega
    · rw [piece, if_pos hsome]
      exact fun a ha => hout a (ha _ (by simp))
  · rw [keepFree, if_neg hsome, piece, if_neg hsome]
    exact ⟨heap, next, rfl, hafter, hnext, ⟨rfl, rfl, rfl⟩, rfl, rfl, fun a _ => rfl⟩

lemma LinkedTo.first_lt {mem : ByteMemory} {first : ℕ} (h : LinkedTo mem first holes 0)
    (hregion : heap.Region) (hfits : ∀ hole ∈ holes, heap.Fits hole) : first < 2 ^ 64 := by
  cases holes with
  | nil =>
      rw [show first = 0 from h]
      decide
  | cons hole rest =>
      obtain ⟨rfl, -⟩ := h
      have := (hfits hole (by simp)).bounds hregion
      omega

lemma FreeListHeap.Fits.part {first last : ℕ} (h : heap.Fits hole) (hlow : hole.addr ≤ first)
    (hhigh : last ≤ hole.endAddr) (hfirst : first % granule = 0) (hlast : last % granule = 0)
    (hsome : first < last) : heap.Fits ⟨first, last - first⟩ := by
  obtain ⟨haligned, hwhole, -, hstart, hend⟩ := h
  rw [granule] at *
  refine ⟨hfirst, ?_, ?_, ?_, ?_⟩ <;> simp only [Extent.endAddr, granule] <;> omega

lemma FreeListHeap.Fits.end_whole (h : heap.Fits hole) : hole.endAddr % granule = 0 := by
  have haligned := h.aligned
  have hwhole := h.whole
  rw [granule] at *
  rw [Extent.endAddr]
  omega

section CutOut

variable {block size : ℕ}

/-- What is left of a hole is inside it, and can be a hole. -/
lemma leftOf_fits (hhole : heap.Fits hole) (hblock : block % granule = 0)
    (hend : (block + size) % granule = 0) (hlow : hole.addr ≤ block)
    (hhigh : block + size ≤ hole.endAddr) :
    ∀ extent ∈ leftOf hole block size, heap.Fits extent
      ∧ hole.addr ≤ extent.addr ∧ extent.endAddr ≤ hole.endAddr := by
  intro extent hextent
  rcases List.mem_append.mp hextent with hin | hin
  · obtain ⟨rfl, hsome⟩ := mem_piece hin
    refine ⟨hhole.part (le_refl _) (by omega) hhole.aligned hblock hsome, le_refl _, ?_⟩
    simp only [Extent.endAddr] at hhigh ⊢
    omega
  · obtain ⟨rfl, hsome⟩ := mem_piece hin
    refine ⟨hhole.part (by omega) (le_refl _) hend hhole.end_whole hsome, by simp only; omega, ?_⟩
    simp only [Extent.endAddr] at hsome ⊢
    omega

/-- The block is between what is left on either side of it. -/
lemma leftOf_apart (hsome : 0 < size) (hlow : hole.addr ≤ block) :
    (leftOf hole block size).Pairwise fun hole next => hole.endAddr < next.addr := by
  refine List.pairwise_append.mpr ⟨?_, ?_, fun extent hextent next hnext => ?_⟩
  · rw [piece]
    split <;> simp
  · rw [piece]
    split <;> simp
  · obtain ⟨rfl, -⟩ := mem_piece hextent
    obtain ⟨rfl, -⟩ := mem_piece hnext
    simp only [Extent.endAddr]
    omega

/-- What is behind a block is put in front of the holes after it, and then what is in front of the
block. -/
lemma keepLeft_spec {next : ℕ} (hregion : heap.Region) (hhole : heap.Fits hole)
    (hblock : block % granule = 0) (hend : (block + size) % granule = 0)
    (hlow : hole.addr ≤ block) (hhigh : block + size ≤ hole.endAddr)
    (hback : LinkedTo heap.mem next after 0) (hfits : ∀ other ∈ after, heap.Fits other)
    (hnext : ∀ other ∈ after, hole.endAddr < other.addr) :
    ∃ heap₁ rest₁ heap₂ rest₂,
      keepFree (block + size < hole.endAddr) (block + size)
        (hole.endAddr - (block + size)) next heap
          = (.ok rest₁, heap₁)
        ∧ keepFree (hole.addr < block) hole.addr (block - hole.addr) rest₁ heap₁
          = (.ok rest₂, heap₂)
        ∧ LinkedTo heap₂.mem rest₂ (leftOf hole block size ++ after) 0 ∧ rest₂ < 2 ^ 64
        ∧ SameRegion heap heap₂ ∧ heap₂.free = heap.free ∧ heap₂.head = heap.head
        ∧ Frame heap heap₂ (leftOf hole block size) := by
  have hpieces := leftOf_fits hhole hblock hend hlow hhigh
  obtain ⟨heap₁, rest₁, hkeep₁, hlinked₁, hrest₁, hsame₁, hfree₁, hhead₁, hframe₁⟩ :=
    keepFree_spec (block + size) hole.endAddr hregion
      (fun hsome => hhole.part (by omega) (le_refl _) hend hhole.end_whole hsome)
      (hback.first_lt hregion hfits) hback
      (fun other hother => ((hfits other hother).bounds hregion).1)
      fun other hother => le_of_lt (hnext other hother)
  obtain ⟨heap₂, rest₂, hkeep₂, hlinked₂, hrest₂, hsame₂, hfree₂, hhead₂, hframe₂⟩ :=
    keepFree_spec hole.addr block (hregion.of_same hsame₁)
      (fun hsome => (hhole.part (le_refl _) (by omega) hhole.aligned hblock hsome).of_same hsame₁)
      hrest₁ hlinked₁
      (fun other hother => by
        rcases List.mem_append.mp hother with hin | hin
        · exact ((hpieces other (List.mem_append_right _ hin)).1.bounds hregion).1
        · exact ((hfits other hin).bounds hregion).1)
      fun other hother => by
        rcases List.mem_append.mp hother with hin | hin
        · obtain ⟨rfl, -⟩ := mem_piece hin
          simp only
          omega
        · have := hnext other hin
          omega
  rw [← List.append_assoc, ← leftOf] at hlinked₂
  refine ⟨heap₁, rest₁, heap₂, rest₂, hkeep₁, hkeep₂, hlinked₂, hrest₂, hsame₁.trans hsame₂,
    hfree₂.trans hfree₁, hhead₂.trans hhead₁, fun a ha => ?_⟩
  rw [hframe₂ a fun other hother => ha other (List.mem_append_left _ hother),
    hframe₁ a fun other hother => ha other (List.mem_append_right _ hother)]

/-- **Cutting a block out of a hole** leaves the rest of it in the list. -/
theorem cutOut_spec (hregion : heap.Region)
    (h : heap.Holds (before ++ hole :: after)) (hpos : 0 < block) (hblock : block % granule = 0)
    (hsize : size % granule = 0) (hsome : 0 < size) (hlow : hole.addr ≤ block)
    (hhigh : block + size ≤ hole.endAddr) :
    ∃ heap', cutOut size (lastAddr before) hole.addr (holeAt heap.mem hole.addr).next hole.endAddr
        block (block + size) heap = (.ok (some block), heap')
      ∧ heap'.Holds (before ++ (leftOf hole block size ++ after)) ∧ SameRegion heap heap'
      ∧ Frame heap heap' (before ++ (leftOf hole block size ++ after)) := by
  obtain ⟨middle, hfront, rfl, -, hback⟩ := linkedTo_append.mp h.linked
  have hhole := h.fits hole (by simp)
  have hlarge := h.large hregion
  obtain ⟨hbefore, hrest, hacross⟩ := List.pairwise_append.mp h.apart
  have hend : (block + size) % granule = 0 := by
    rw [granule] at *
    omega
  -- what is left of the hole, before the block and behind it
  have hpieces := leftOf_fits hhole hblock hend hlow hhigh
  obtain ⟨heap₁, rest₁, heap₂, rest₂, hkeep₁, hkeep₂, hlinked₂, hrest₂, hsame₂, hfree₂,
      hhead₂, hframe₂⟩ :=
    keepLeft_spec hregion hhole hblock hend hlow hhigh hback
      (fun other hother => h.fits other (by simp [hother]))
      (List.pairwise_cons.mp hrest).1
  -- writing the pieces leaves the holes before them alone
  have hfront₂ : LinkedTo heap₂.mem heap₂.head before hole.addr := by
    rw [hhead₂]
    refine hfront.congr (fun other hother => hlarge other (by simp [hother])) ?_
    intro other hother a ha
    refine hframe₂ a fun extent hextent hboth => ?_
    have hsep := hacross other hother hole (by simp)
    have hin := (hpieces extent hextent).2.1
    have hfirst := hboth.1
    have hlast := ha.2
    omega
  -- the last hole before the block is linked to the first piece
  obtain ⟨heap₃, hlink, hlinked₃, hsame₃, hfree₃, hframe₃⟩ :=
    link_spec (hregion.of_same hsame₂) hfront₂
    (fun other hother => (h.fits other (by simp [hother])).of_same hsame₂) hbefore hrest₂
  -- the free bytes go down by the block
  have hsame := hsame₂.trans hsame₃
  have hsum := sum_leftOf hlow hhigh
  have hfree : heap₃.free = heap.free := hfree₃.trans hfree₂
  have htotal := h.free
  rw [List.map_append, List.map_cons, List.sum_append, List.sum_cons] at htotal
  refine ⟨{ heap₃ with free := heap₃.free - size }, ?_, ⟨?_, ?_, ?_, ?_⟩,
    ⟨hsame.1, hsame.2, hsame.3⟩, ?_⟩
  · rw [cutOut, Eff.bind_ok hkeep₁, Eff.bind_ok hkeep₂, Eff.bind_ok hlink, Eff.get_bind,
      Eff.bind_ok (minus_ok (by omega)), modify_bind, if_neg (by omega)]
    rfl
  · refine linkedTo_append.mpr ⟨rest₂, hlinked₃, hlinked₂.congr ?_ ?_⟩
    · intro other hother
      rcases List.mem_append.mp hother with hin | hin
      · exact ((hpieces other hin).1.bounds hregion).1
      · exact hlarge other (by simp [hin])
    · intro other hother a ha
      refine hframe₃ a fun extent hextent hboth => ?_
      have hsep : extent.endAddr ≤ other.addr := by
        rcases List.mem_append.mp hother with hin | hin
        · have hfirst := hacross extent hextent hole (by simp)
          have hin := (hpieces other hin).2.1
          omega
        · exact le_of_lt (hacross extent hextent other (by simp [hin]))
      have hfirst := ha.1
      have hlast := hboth.2
      omega
  · intro other hother
    refine FreeListHeap.Fits.of_same ?_ ⟨hsame.1, hsame.2, hsame.3⟩
    rcases List.mem_append.mp hother with hin | hin
    · exact h.fits other (by simp [hin])
    · rcases List.mem_append.mp hin with hin | hin
      · exact (hpieces other hin).1
      · exact h.fits other (by simp [hin])
  · exact apart_replace h.apart (leftOf_apart hsome hlow) fun extent hextent =>
      (hpieces extent hextent).2
  · simp only [List.map_append, List.sum_append] at hsum ⊢
    omega
  · intro a ha
    simp only [List.mem_append] at ha
    rw [hframe₃ a fun other hother => ha other (.inl hother),
      hframe₂ a fun other hother => ha other (.inr (.inl hother))]

end CutOut

lemma placeIn_eq_some {size align current holeEnd block blockEnd : ℕ} (halign : 0 < align)
    (h : placeIn size align current holeEnd = some (block, blockEnd)) :
    current ≤ block ∧ block % align = 0 ∧ blockEnd = block + size ∧ blockEnd ≤ holeEnd := by
  rw [placeIn, Option.bind_eq_bind, Option.bind_eq_some_iff] at h
  obtain ⟨place, hplace, h⟩ := h
  rw [Option.bind_eq_some_iff] at h
  obtain ⟨last, hlast, h⟩ := h
  rw [checkedAdd, Option.ite_none_right_eq_some] at hlast
  rw [Option.ite_none_right_eq_some] at h
  obtain ⟨hle, hsame⟩ := h
  obtain ⟨rfl, rfl⟩ := Prod.mk.injEq .. ▸ Option.some.inj hsame
  rw [checkedNextMultipleOf] at hplace
  by_cases hwhole : current % align = 0
  · rw [if_pos hwhole] at hplace
    obtain rfl := Option.some.inj hplace
    exact ⟨le_refl _, hwhole, (Option.some.inj hlast.2).symm, hle⟩
  · rw [if_neg hwhole, checkedAdd, Option.ite_none_right_eq_some] at hplace
    obtain rfl := Option.some.inj hplace.2
    refine ⟨by omega, ?_, (Option.some.inj hlast.2).symm, hle⟩
    have hlt := Nat.mod_lt current halign
    have hsum : current + (align - current % align) = align * (current / align + 1) := by
      have := Nat.div_add_mod current align
      rw [Nat.mul_add, Nat.mul_one]
      omega
    rw [hsum, Nat.mul_mod_right]

/-- No multiple from an address on lies before the one that is found. -/
lemma checkedNextMultipleOf_le {a b p : ℕ} (hb : 0 < b) (hp : p % b = 0) (hle : a ≤ p)
    (hfits : p < 2 ^ 64) :
    ∃ c, checkedNextMultipleOf a b = some c ∧ c ≤ p := by
  rw [checkedNextMultipleOf]
  by_cases hwhole : a % b = 0
  · rw [if_pos hwhole]
    exact ⟨a, rfl, hle⟩
  · have hup : a + (b - a % b) ≤ p := by
      obtain ⟨k, rfl⟩ := Nat.dvd_of_mod_eq_zero hp
      have hsplit := Nat.div_add_mod a b
      have hlt : a / b < k := by
        refine (Nat.div_lt_iff_lt_mul hb).mpr ?_
        rw [Nat.mul_comm]
        refine lt_of_le_of_ne hle fun heq => hwhole ?_
        rw [heq, Nat.mul_mod_right]
      have hmul := Nat.mul_le_mul_left b (Nat.succ_le_of_lt hlt)
      rw [Nat.mul_succ] at hmul
      omega
    rw [if_neg hwhole, checkedAdd, if_pos (lt_of_le_of_lt hup hfits)]
    exact ⟨_, rfl, hup⟩

/-- Where a block would start in a hole. -/
def startIn (size align : ℕ) (hole : Extent) : Option ℕ :=
  (placeIn size align hole.addr hole.endAddr).map Prod.fst

/-- A hole with room for a block is seen to have it, and the block is put as low as it can be. -/
lemma startIn_of_room {size align p : ℕ} (halign : 0 < align) (htop : hole.endAddr < 2 ^ 64)
    (hp : p % align = 0) (hlow : hole.addr ≤ p) (hhigh : p + size ≤ hole.endAddr) :
    ∃ block, startIn size align hole = some block ∧ block ≤ p := by
  obtain ⟨block, hblock, hle⟩ := checkedNextMultipleOf_le halign hp hlow (by omega)
  refine ⟨block, ?_, hle⟩
  rw [startIn, placeIn, hblock]
  simp only [Option.bind_eq_bind, Option.bind_some, checkedAdd]
  rw [if_pos (by omega), Option.bind_some, if_pos (by omega), Option.map_some]

/-- What `allocate` may do: nothing, or cut a block out of one of the holes. -/
def Allocated (heap heap' : FreeListHeap) (holes : List Extent) (size align : ℕ) : Option ℕ → Prop
  | none => heap' = heap
  | some block => ∃ before hole after, holes = before ++ hole :: after
      ∧ block % align = 0 ∧ hole.addr ≤ block ∧ block + size ≤ hole.endAddr
      ∧ heap'.Holds (before ++ (leftOf hole block size ++ after))
      ∧ SameRegion heap heap'
      ∧ Frame heap heap' (before ++ (leftOf hole block size ++ after))

lemma allocateFrom_spec {size align fuel current : ℕ} (hregion : heap.Region)
    (halign : align % granule = 0) (hpos : 0 < align) (hsize : size % granule = 0)
    (hsome : 0 < size) (h : heap.Holds (before ++ after))
    (hbefore : LinkedTo heap.mem heap.head before current)
    (hafter : LinkedTo heap.mem current after 0) (hfuel : after.length < fuel) :
    ∃ answer heap', allocateFrom size align fuel (lastAddr before) current heap
      = (.ok answer, heap')
      ∧ Allocated heap heap' (before ++ after) size align answer
      ∧ answer = after.findSome? (startIn size align) := by
  induction after generalizing before current fuel with
  | nil =>
      obtain _ | fuel := fuel
      · simp at hfuel
      · obtain rfl : current = 0 := hafter
        rw [allocateFrom, if_pos rfl]
        exact ⟨none, heap, rfl, rfl, rfl⟩
  | cons hole after ih =>
      obtain _ | fuel := fuel
      · simp at hfuel
      · obtain ⟨rfl, hholeSize, hrest⟩ := hafter
        have hhole := h.fits hole (by simp)
        obtain ⟨hlarge, haddr, -, -, htop⟩ := hhole.bounds hregion
        rw [allocateFrom, if_neg (by omega), Eff.bind_ok (readHole_ok (hhole.holeFits hregion)),
          hholeSize, Eff.bind_ok (plus_ok htop), ← Extent.endAddr]
        rcases hplace : placeIn size align hole.addr hole.endAddr with _ | ⟨block, blockEnd⟩
        · have hlinked : LinkedTo heap.mem heap.head (before ++ [hole])
              (holeAt heap.mem hole.addr).next :=
            linkedTo_append.mpr ⟨hole.addr, hbefore, rfl, hholeSize, rfl⟩
          have hlast : lastAddr (before ++ [hole]) = hole.addr := by simp [lastAddr]
          have hholds : heap.Holds ((before ++ [hole]) ++ after) := by simpa using h
          have hnext := ih hholds hlinked hrest (show after.length < fuel by simpa using hfuel)
          have hfull : startIn size align hole = none := by rw [startIn, hplace, Option.map_none]
          rw [hlast, List.append_assoc, List.singleton_append] at hnext
          rwa [List.findSome?_cons_of_isNone (by rw [hfull]; rfl)]
        · have hstart : startIn size align hole = some block := by
            rw [startIn, hplace, Option.map_some]
          obtain ⟨hlow, hmultiple, rfl, hhigh⟩ := placeIn_eq_some hpos hplace
          have hblock : block % granule = 0 := by
            rw [granule] at *
            exact Nat.mod_eq_zero_of_dvd
              ((Nat.dvd_of_mod_eq_zero halign).trans (Nat.dvd_of_mod_eq_zero hmultiple))
          obtain ⟨heap', hcut, hholds, hsame, hframe⟩ :=
            cutOut_spec hregion h (by omega) hblock hsize hsome hlow hhigh
          refine ⟨some block, heap', hcut,
            ⟨before, hole, after, rfl, hmultiple, hlow, hhigh, hholds, hsame, hframe⟩, ?_⟩
          rw [List.findSome?_cons_of_isSome (by rw [hstart]; rfl), hstart]

/-- Holes that are apart fit in what they are in. -/
lemma sum_le {lo hi : ℕ} (h : ∀ hole ∈ holes, lo ≤ hole.addr ∧ hole.endAddr ≤ hi)
    (hapart : holes.Pairwise fun hole next => hole.endAddr < next.addr) :
    (holes.map (·.size)).sum ≤ hi - lo := by
  induction holes generalizing lo with
  | nil => simp
  | cons hole rest ih =>
      obtain ⟨hnext, hrest⟩ := List.pairwise_cons.mp hapart
      obtain ⟨hlow, hhigh⟩ := h hole (by simp)
      have hle := @ih hole.endAddr (fun other hother => ?_) hrest
      · rw [Extent.endAddr] at hle hhigh
        rw [List.map_cons, List.sum_cons]
        omega
      · exact ⟨le_of_lt (hnext other hother), (h other (List.mem_cons_of_mem _ hother)).2⟩

lemma FreeListHeap.Holds.length_le (h : heap.Holds holes) (hregion : heap.Region) :
    holes.length ≤ heap.granules := by
  have hsum := @sum_le holes heap.start heap.endAddr
    (fun hole hhole => ⟨(h.fits hole hhole).low, (h.fits hole hhole).high⟩) h.apart
  have hlarge : holes.length • 16 ≤ (holes.map (·.size)).sum := by
    rw [← List.length_map (·.size)]
    refine List.card_nsmul_le_sum _ _ fun size hsize => ?_
    obtain ⟨hole, hhole, rfl⟩ := List.mem_map.mp hsize
    exact h.large hregion hole hhole
  rw [smul_eq_mul] at hlarge
  rw [FreeListHeap.granules, granule]
  omega

/-! ### Layouts -/

/-- How large the block of a layout is. -/
def Layout.rounded (layout : Layout) : ℕ := (max layout.size 1 + 15) / 16 * 16

/-- Where the block of a layout may start. -/
def Layout.alignment (layout : Layout) : ℕ := max layout.align granule

lemma Layout.align_pos (layout : Layout) : 0 < layout.align := by
  obtain ⟨k, hk⟩ := layout.isPowerOfTwo
  rw [hk]
  exact Nat.two_pow_pos k

lemma Layout.alignment_whole (layout : Layout) : layout.alignment % granule = 0 := by
  obtain ⟨k, hk⟩ := layout.isPowerOfTwo
  rw [Layout.alignment, hk, granule]
  rcases Nat.lt_or_ge k 4 with hsmall | hlarge
  · interval_cases k <;> rfl
  · have hpow : (2 : ℕ) ^ k = 16 * 2 ^ (k - 4) := by
      rw [show (16 : ℕ) = 2 ^ 4 from rfl, ← pow_add]
      congr 1
      omega
    have := Nat.two_pow_pos (k - 4)
    omega

lemma blockSize_eq (layout : Layout) : blockSize layout = some layout.rounded := by
  have hfits := layout.fits
  have hpos := layout.align_pos
  rw [blockSize, checkedNextMultipleOf, checkedAdd, Layout.rounded, granule]
  by_cases hwhole : max layout.size 1 % 16 = 0
  · rw [if_pos hwhole]
    congr 1
    omega
  · rw [if_neg hwhole, if_pos (by omega)]
    congr 1
    omega

lemma Layout.rounded_spec (layout : Layout) :
    layout.rounded % granule = 0 ∧ 0 < layout.rounded ∧ layout.size ≤ layout.rounded := by
  rw [Layout.rounded, granule]
  omega

/-- **Allocating** does nothing, or cuts a block out of one of the holes. -/
theorem allocate_spec (layout : Layout) (hregion : heap.Region) (h : heap.Holds holes) :
    ∃ answer heap', allocate layout heap = (.ok answer, heap')
      ∧ Allocated heap heap' holes layout.rounded layout.alignment answer
      ∧ answer = holes.findSome? (startIn layout.rounded layout.alignment) := by
  obtain ⟨hwhole, hsome, -⟩ := layout.rounded_spec
  rw [allocate, blockSize_eq]
  dsimp only
  rw [Eff.get_bind]
  refine @allocateFrom_spec heap [] holes _ _ _ heap.head hregion layout.alignment_whole ?_ hwhole
    hsome h rfl h.linked (Nat.lt_succ_of_le (h.length_le hregion))
  exact lt_of_lt_of_le layout.align_pos (le_max_left _ _)

/-! ### Deallocating -/

/-- The holes on either side of a block. -/
lemma findPlace_spec {block fuel current : ℕ} (hregion : heap.Region)
    (h : heap.Holds (before ++ after)) (hlow : ∀ hole ∈ before, hole.addr < block)
    (hbefore : LinkedTo heap.mem heap.head before current)
    (hafter : LinkedTo heap.mem current after 0) (hfuel : after.length < fuel) :
    ∃ before' after' current', before' ++ after' = before ++ after
      ∧ findPlace block fuel (lastAddr before) current heap
        = (.ok (lastAddr before', current'), heap)
      ∧ LinkedTo heap.mem heap.head before' current' ∧ LinkedTo heap.mem current' after' 0
      ∧ (∀ hole ∈ before', hole.addr < block) ∧ ∀ hole ∈ after', block ≤ hole.addr := by
  induction after generalizing before current fuel with
  | nil =>
      obtain _ | fuel := fuel
      · simp at hfuel
      · obtain rfl : current = 0 := hafter
        rw [findPlace, if_neg (by simp)]
        exact ⟨before, [], 0, rfl, rfl, hbefore, rfl, hlow, nofun⟩
  | cons hole after ih =>
      obtain _ | fuel := fuel
      · simp at hfuel
      · have hhole := h.fits hole (by simp)
        have hlinked := hafter
        obtain ⟨rfl, hholeSize, hrest⟩ := hafter
        obtain ⟨-, haddr, -⟩ := hhole.bounds hregion
        by_cases hunder : hole.addr < block
        · rw [findPlace, if_pos ⟨by omega, hunder⟩,
            Eff.bind_ok (readHole_ok (hhole.holeFits hregion))]
          have hfront : LinkedTo heap.mem heap.head (before ++ [hole])
              (holeAt heap.mem hole.addr).next :=
            linkedTo_append.mpr ⟨hole.addr, hbefore, rfl, hholeSize, rfl⟩
          have hlast : lastAddr (before ++ [hole]) = hole.addr := by simp [lastAddr]
          have hholds : heap.Holds ((before ++ [hole]) ++ after) := by simpa using h
          have hunder' : ∀ other ∈ before ++ [hole], other.addr < block := by
            intro other hother
            rcases List.mem_append.mp hother with hin | hin
            · exact hlow other hin
            · rw [List.mem_singleton.mp hin]
              exact hunder
          have hnext := ih hholds hunder' hfront hrest
            (show after.length < fuel by simpa using hfuel)
          rw [hlast, List.append_assoc, List.singleton_append] at hnext
          exact hnext
        · rw [findPlace, if_neg (by omega)]
          refine ⟨before, hole :: after, hole.addr, rfl, rfl, hbefore, hlinked, hlow, ?_⟩
          intro other hother
          rcases List.mem_cons.mp hother with rfl | hin
          · omega
          · have hsep := (List.pairwise_cons.mp (List.pairwise_append.mp h.apart).2.1).1 other hin
            rw [Extent.endAddr] at hsep
            omega

/-- The block with the hole after it, if they touch: what `mergeNext` answers and the holes
after that. -/
lemma mergeNext_spec {block size current : ℕ} (hregion : heap.Region)
    (hblock : heap.Fits ⟨block, size⟩) (hfits : ∀ hole ∈ after, heap.Fits hole)
    (hapart : after.Pairwise fun hole next => hole.endAddr < next.addr)
    (hlinked : LinkedTo heap.mem current after 0)
    (hafter : ∀ hole ∈ after, block + size ≤ hole.addr) :
    ∃ merged rest, mergeNext size (block + size) current heap = (.ok merged, heap)
      ∧ LinkedTo heap.mem merged.next rest 0
      ∧ heap.Fits ⟨block, merged.size⟩
      ∧ (∀ hole ∈ rest, hole ∈ after ∧ block + merged.size < hole.addr)
      ∧ rest.Pairwise (fun hole next => hole.endAddr < next.addr)
      ∧ (∀ a, covered (⟨block, merged.size⟩ :: rest) a = covered (⟨block, size⟩ :: after) a)
      ∧ merged.size + (rest.map (·.size)).sum = size + (after.map (·.size)).sum := by
  cases after with
  | nil =>
      obtain rfl : current = 0 := hlinked
      rw [mergeNext, if_neg (by simp)]
      exact ⟨⟨size, 0⟩, [], rfl, rfl, hblock, nofun, .nil, fun a => rfl, rfl⟩
  | cons next rest =>
      have hall := hlinked
      obtain ⟨rfl, hnextSize, hrest⟩ := hlinked
      have hnext := hfits next (by simp)
      obtain ⟨hlarge, haddr, -, -, htop⟩ := hnext.bounds hregion
      have hgap := hafter next (by simp)
      obtain ⟨hsep, hpairs⟩ := List.pairwise_cons.mp hapart
      -- the next hole begins where the block ends, or not
      by_cases htouch : block + size = next.addr
      · rw [mergeNext, if_pos ⟨by omega, htouch⟩,
          Eff.bind_ok (readHole_ok (hnext.holeFits hregion)), hnextSize,
          Eff.bind_ok (plus_ok (by omega))]
        refine ⟨⟨size + next.size, _⟩, rest, rfl, hrest, ?_,
          fun hole hhole => ⟨by simp [hhole], ?_⟩, hpairs, fun a => ?_, ?_⟩
        · obtain ⟨haligned, hwhole, hpos, hlow, -⟩ := hblock
          have hwhole' := hnext.whole
          have hhigh := hnext.high
          rw [granule] at hwhole hwhole'
          simp only [Extent.endAddr] at hwhole hhigh hpos
          refine ⟨haligned, ?_, ?_, hlow, ?_⟩ <;> simp only [granule, Extent.endAddr] <;> omega
        · have := hsep hole hhole
          simp only [Extent.endAddr] at this ⊢
          omega
        · have hsplit := @covered_split block size next.size a
          rw [← List.singleton_append, covered_append, ← hsplit, htouch,
            ← covered_append]
          rfl
        · simp
          omega
      · rw [mergeNext, if_neg (by omega)]
        refine ⟨⟨size, next.addr⟩, next :: rest, rfl, hall, hblock, fun hole hhole => ⟨hhole, ?_⟩,
          hapart, fun a => rfl, rfl⟩
        rcases List.mem_cons.mp hhole with rfl | hin
        · simp only
          omega
        · have := hsep hole hin
          simp only [Extent.endAddr] at this ⊢
          omega

/-- The holes before a block, the block and the holes after it, as a heap has them. -/
structure Around (heap : FreeListHeap) (before : List Extent) (block : ℕ) (merged : Hole)
    (rest : List Extent) : Prop where
  region : heap.Region
  linked : ∃ current, LinkedTo heap.mem heap.head before current
  linked_rest : LinkedTo heap.mem merged.next rest 0
  fits : ∀ hole ∈ before ++ ⟨block, merged.size⟩ :: rest, heap.Fits hole
  apart : before.Pairwise fun hole next => hole.endAddr < next.addr
  apart_rest : rest.Pairwise fun hole next => hole.endAddr < next.addr
  low : ∀ hole ∈ before, hole.endAddr ≤ block
  high : ∀ hole ∈ rest, block + merged.size < hole.addr

namespace Around

variable {block : ℕ} {merged : Hole} {rest : List Extent}

lemma next_lt (h : Around heap before block merged rest) : merged.next < 2 ^ 64 :=
  h.linked_rest.first_lt h.region fun hole hhole => h.fits hole (by simp [hhole])

lemma large_rest (h : Around heap before block merged rest) : ∀ hole ∈ rest,
      granule ≤ hole.size :=
  fun hole hhole => ((h.fits hole (by simp [hhole])).bounds h.region).1

lemma large_before (h : Around heap before block merged rest) : ∀ hole ∈ before,
      granule ≤ hole.size :=
  fun hole hhole => ((h.fits hole (by simp [hhole])).bounds h.region).1

/-- A block that touches no hole before it becomes a hole of its own. -/
lemma alone (h : Around heap before block merged rest)
    (hgap : ∀ hole ∈ before, hole.endAddr < block) :
    ∃ heap', (do writeHole block merged; link (lastAddr before) block : HeapM Unit) heap
      = (.ok (), heap')
      ∧ LinkedTo heap'.mem heap'.head (before ++ ⟨block, merged.size⟩ :: rest) 0
      ∧ (before ++ ⟨block, merged.size⟩ :: rest).Pairwise
        (fun hole next => hole.endAddr < next.addr)
      ∧ SameRegion heap heap' ∧ heap'.free = heap.free
      ∧ Frame heap heap' (before ++ ⟨block, merged.size⟩ :: rest) := by
  obtain ⟨current, hlinked⟩ := h.linked
  have hblock := h.fits ⟨block, merged.size⟩ (by simp)
  have hbounds := hblock.bounds h.region
  simp only at hbounds
  obtain ⟨heap₁, hwrite, hlinked₁, hsame₁, hfree₁, hhead₁, hframe₁⟩ :=
    writeHole_spec h.region hblock h.next_lt h.linked_rest h.large_rest
      fun other hother => le_of_lt (h.high other hother)
  have hbefore : LinkedTo heap₁.mem heap₁.head before current := by
    rw [hhead₁]
    refine hlinked.congr h.large_before fun other hother a ha => hframe₁ a fun hboth => ?_
    have hsep := h.low other hother
    have hfirst := hboth.1
    have hlast := ha.2
    simp only at hfirst
    omega
  obtain ⟨heap₂, hlink, hlinked₂, hsame₂, hfree₂, hframe₂⟩ :=
    @link_spec heap₁ before current block (h.region.of_same hsame₁) hbefore
      (fun other hother => (h.fits other (by simp [hother])).of_same hsame₁) h.apart (by omega)
  refine ⟨heap₂, ?_, linkedTo_append.mpr ⟨block, hlinked₂, hlinked₁.congr ?_ ?_⟩, ?_,
    hsame₁.trans hsame₂, hfree₂.trans hfree₁, ?_⟩
  · rw [Eff.bind_ok hwrite, hlink]
  · intro other hother
    rcases List.mem_cons.mp hother with rfl | hin
    · exact hbounds.1
    · exact h.large_rest other hin
  · intro other hother a ha
    refine hframe₂ a fun extent hextent hboth => ?_
    have hsep := h.low extent hextent
    have hfirst := ha.1
    have hlast := hboth.2
    rcases List.mem_cons.mp hother with rfl | hin
    · simp only at hfirst
      omega
    · have := h.high other hin
      omega
  · refine List.pairwise_append.mpr ⟨h.apart, List.pairwise_cons.mpr ⟨h.high, h.apart_rest⟩, ?_⟩
    intro other hother extent hextent
    rcases List.mem_cons.mp hextent with rfl | hin
    · exact hgap other hother
    · have hlow := h.low other hother
      have hhigh := h.high extent hin
      omega
  · intro a ha
    simp only [List.mem_append, List.mem_cons] at ha
    rw [hframe₂ a fun other hother => ha other (.inl hother), hframe₁ a (ha _ (.inr (.inl rfl)))]

/-- A block that starts where a hole ends becomes part of it. -/
lemma joined {prev : Extent} (h : Around heap (before ++ [prev]) block merged rest)
    (htouch : prev.endAddr = block) :
    ∃ heap', writeHole prev.addr ⟨prev.size + merged.size, merged.next⟩ heap = (.ok (), heap')
      ∧ heap'.head = heap.head
      ∧ LinkedTo heap'.mem heap'.head (before ++ ⟨prev.addr, prev.size + merged.size⟩ :: rest) 0
      ∧ heap.Fits ⟨prev.addr, prev.size + merged.size⟩
      ∧ (before ++ ⟨prev.addr, prev.size + merged.size⟩ :: rest).Pairwise
        (fun hole next => hole.endAddr < next.addr)
      ∧ SameRegion heap heap' ∧ heap'.free = heap.free
      ∧ Frame heap heap' (before ++ ⟨prev.addr, prev.size + merged.size⟩ :: rest) := by
  obtain ⟨current, hlinked⟩ := h.linked
  obtain ⟨mid, hfront, rfl, -, -⟩ := linkedTo_append.mp hlinked
  have hblock := h.fits ⟨block, merged.size⟩ (by simp)
  have hprev := h.fits prev (by simp)
  obtain ⟨happart, -, hacross⟩ := List.pairwise_append.mp h.apart
  have hbefore := h.large_before
  have hfits : heap.Fits ⟨prev.addr, prev.size + merged.size⟩ := by
    obtain ⟨haligned, hwhole, hpos, hlow, -⟩ := hprev
    obtain ⟨-, hwhole', -, -, hhigh⟩ := hblock
    simp only [Extent.endAddr, granule] at *
    refine ⟨haligned, ?_, ?_, hlow, ?_⟩ <;> simp only [Extent.endAddr, granule] <;> omega
  have hhigh : ∀ other ∈ rest, prev.addr + (prev.size + merged.size) < other.addr := by
    intro other hother
    have := h.high other hother
    rw [Extent.endAddr] at htouch
    omega
  obtain ⟨heap₁, hwrite, hlinked₁, hsame₁, hfree₁, hhead₁, hframe₁⟩ :=
    writeHole_spec h.region hfits h.next_lt h.linked_rest h.large_rest
      fun other hother => le_of_lt (hhigh other hother)
  refine ⟨heap₁, hwrite, hhead₁, linkedTo_append.mpr ⟨prev.addr, ?_, hlinked₁⟩, hfits, ?_, hsame₁,
    hfree₁, fun a ha => hframe₁ a (ha _ (by simp))⟩
  · rw [hhead₁]
    refine hfront.congr (fun other hother => hbefore other (by simp [hother])) ?_
    intro other hother a ha
    refine hframe₁ a fun hboth => ?_
    have hsep := hacross other hother prev (by simp)
    have hfirst := hboth.1
    have hlast := ha.2
    simp only at hfirst
    omega
  · refine List.pairwise_append.mpr ⟨happart, List.pairwise_cons.mpr ⟨hhigh, h.apart_rest⟩, ?_⟩
    intro other hother extent hextent
    have hsep := hacross other hother prev (by simp)
    rcases List.mem_cons.mp hextent with rfl | hin
    · exact hsep
    · have := hhigh extent hin
      omega

/-- **A block is put back**: it is free, and the holes are in order and apart. -/
theorem putBack_spec (h : Around heap before block merged rest) :
    ∃ prevHole, holeBefore (lastAddr before) heap = (.ok prevHole, heap)
      ∧ (∀ found ∈ prevHole, found.2 ≤ block)
      ∧ ∃ heap' holes, putBack (lastAddr before) block prevHole merged heap = (.ok (), heap')
        ∧ LinkedTo heap'.mem heap'.head holes 0
        ∧ (∀ hole ∈ holes, heap.Fits hole)
        ∧ holes.Pairwise (fun hole next => hole.endAddr < next.addr)
        ∧ SameRegion heap heap' ∧ heap'.free = heap.free ∧ Frame heap heap' holes
        ∧ (∀ a, covered holes a = covered (before ++ ⟨block, merged.size⟩ :: rest) a)
        ∧ (holes.map (·.size)).sum
          = ((before ++ ⟨block, merged.size⟩ :: rest).map (·.size)).sum := by
  rcases List.eq_nil_or_concat' before with rfl | ⟨before, prev, rfl⟩
  · obtain ⟨heap', hrun, hlinked, hapart, hsame, hfree, hframe⟩ := h.alone nofun
    exact ⟨none, rfl, nofun, heap', _, hrun, hlinked, h.fits, hapart, hsame, hfree, hframe,
      fun a => rfl, rfl⟩
  · have hprev := h.fits prev (by simp)
    obtain ⟨hlarge, haddr, -, -, htop⟩ := hprev.bounds h.region
    have hlast : lastAddr (before ++ [prev]) = prev.addr := by simp [lastAddr]
    obtain ⟨current, hlinked⟩ := h.linked
    obtain ⟨mid, -, rfl, hprevSize, -⟩ := linkedTo_append.mp hlinked
    have hlow := h.low prev (by simp)
    refine ⟨some (holeAt heap.mem prev.addr, prev.endAddr), ?_, ?_, ?_⟩
    · rw [hlast, holeBefore, if_neg (by omega),
        Eff.bind_ok (readHole_ok (hprev.holeFits h.region)), hprevSize,
        Eff.bind_ok (plus_ok htop)]
      rfl
    · intro found hfound
      rw [← Option.some.inj hfound]
      exact hlow
    · rw [hlast, putBack]
      -- the hole before the block ends where it begins, or not
      by_cases htouch : prev.endAddr = block
      · obtain ⟨heap', hwrite, -, hlinked', hfits, hapart, hsame, hfree, hframe⟩ :=
          h.joined htouch
        have hbounds := hfits.bounds h.region
        simp only at hbounds
        rw [if_pos htouch, hprevSize, Eff.bind_ok (plus_ok (by omega)), hwrite]
        refine ⟨heap', _, rfl, hlinked', ?_, hapart, hsame, hfree, hframe, fun a => ?_, ?_⟩
        · intro other hother
          rcases List.mem_append.mp hother with hin | hin
          · exact h.fits other (by simp [hin])
          · rcases List.mem_cons.mp hin with rfl | hin
            · exact hfits
            · exact h.fits other (by simp [hin])
        · have hsplit := @covered_split prev.addr prev.size merged.size a
          rw [← Extent.endAddr, htouch] at hsplit
          rw [← List.singleton_append, covered_append, covered_append, ← hsplit, ← covered_append,
            ← covered_append, List.append_assoc, List.singleton_append]
          rfl
        · simp
          omega
      · rw [if_neg htouch, ← hlast]
        obtain ⟨heap', hrun, hlinked', hapart, hsame, hfree, hframe⟩ :=
          h.alone fun other hother => by
          have hle := h.low other hother
          rcases List.mem_append.mp hother with hin | hin
          · have := (List.pairwise_append.mp h.apart).2.2 other hin prev (by simp)
            rw [Extent.endAddr] at hlow
            omega
          · rw [List.mem_singleton.mp hin] at hle ⊢
            omega
        exact ⟨heap', _, hrun, hlinked', h.fits, hapart, hsame, hfree, hframe, fun a => rfl, rfl⟩

end Around

lemma expect_some {α : Type} (panic : Panic) (a : α) :
    expect panic (some a) heap = (.ok a, heap) := rfl

lemma assert_ok {p : Prop} [Decidable p] {panic : Panic} (h : p) :
    assert panic p heap = (.ok (), heap) := by
  rw [assert, if_pos h]
  rfl

/-- The check on the bounds of a block that is given back. -/
lemma checkedBlock_eq (heap : FreeListHeap) (block size : ℕ) :
    ((checkedAdd block size).filter fun end' =>
        heap.start ≤ block ∧ end' ≤ heap.endAddr ∧ block % granule = 0)
      = if block + size < 2 ^ 64 ∧ heap.start ≤ block ∧ block + size ≤ heap.endAddr
        ∧ block % granule = 0
        then some (block + size) else none := by
  rw [checkedAdd]
  by_cases htop : block + size < 2 ^ 64
  · rw [if_pos htop, Option.filter_some]
    simp only [htop, true_and, decide_eq_true_eq]
  · rw [if_neg htop, Option.filter_none, if_neg fun h => htop h.1]

/-- **Deallocating** a block of the heap that no hole overlaps makes it free. -/
theorem deallocate_spec (layout : Layout) {block : ℕ} (hregion : heap.Region)
    (h : heap.Holds holes) (hblock : heap.Fits ⟨block, layout.rounded⟩)
    (hdisjoint : ∀ hole ∈ holes, hole.endAddr ≤ block ∨ block + layout.rounded ≤ hole.addr) :
    ∃ heap' holes', deallocate block layout heap = (.ok (), heap')
      ∧ heap'.Holds holes' ∧ SameRegion heap heap' ∧ Frame heap heap' holes'
      ∧ ∀ a, covered holes' a = covered (⟨block, layout.rounded⟩ :: holes) a := by
  obtain ⟨hlarge, hpos, -, -, htop⟩ := hblock.bounds hregion
  have hlow := hblock.low
  have hhigh := hblock.high
  have haligned := hblock.aligned
  simp only [Extent.endAddr] at hpos htop hlow hhigh haligned hlarge
  obtain ⟨before, after, current, hsplit, hfind, hbefore, hafter, hunder, hover⟩ :=
    @findPlace_spec heap [] holes block (heap.granules + 1) heap.head hregion h
      (List.forall_mem_nil _) rfl h.linked
      (Nat.lt_succ_of_le (h.length_le hregion))
  -- the block goes between the holes below it and those above it
  rw [List.nil_append] at hsplit
  have hfits : ∀ hole ∈ before ++ after, heap.Fits hole :=
    fun hole hhole => h.fits hole (hsplit ▸ hhole)
  obtain ⟨happart, hapart, -⟩ := List.pairwise_append.mp (hsplit ▸ h.apart)
  have hover' : ∀ hole ∈ after, block + layout.rounded ≤ hole.addr := by
    intro hole hhole
    have hsize := ((hfits hole (by simp [hhole])).bounds hregion).1
    have habove := hover hole hhole
    have := hdisjoint hole (by rw [← hsplit]; simp [hhole])
    rw [Extent.endAddr] at this
    omega
  have hunder' : ∀ hole ∈ before, hole.endAddr ≤ block := by
    intro hole hhole
    have hbelow := hunder hole hhole
    have := hdisjoint hole (by rw [← hsplit]; simp [hhole])
    omega
  -- upwards: a hole that begins where the block ends is taken in
  obtain ⟨merged, rest, hmerge, hrest, hfitsMerged, hin, hpairs, hcovered, hsum⟩ :=
    mergeNext_spec hregion hblock (fun hole hhole => hfits hole (by simp [hhole])) hapart
      hafter hover'
  have haround : Around heap before block merged rest := by
    refine ⟨hregion, ⟨current, hbefore⟩, hrest, fun hole hhole => ?_, happart, hpairs, hunder',
      fun hole hhole => (hin hole hhole).2⟩
    rcases List.mem_append.mp hhole with hhole | hhole
    · exact hfits hole (by simp [hhole])
    · rcases List.mem_cons.mp hhole with rfl | hhole
      · exact hfitsMerged
      · exact hfits hole (by simp [(hin hole hhole).1])
  -- downwards: so is one that ends where the block begins
  obtain ⟨prevHole, hprev, hunderPrev, heap', holes', hput, hlinked', hfits', hapart',
      hsame, hfree,
    hframe, hcovered', hsum'⟩ := haround.putBack_spec
  have htotal := h.free
  rw [← hsplit] at htotal
  simp only [List.map_append, List.map_cons, List.sum_append, List.sum_cons] at htotal hsum'
  -- no assertion of the source fires, and the count does not wrap
  have hcurrent : ¬(current ≠ 0 ∧ current < block + layout.rounded) := by
    cases after with
    | nil =>
        rw [show current = 0 from hafter]
        simp
    | cons next after =>
        rw [hafter.1]
        have := hover' next (by simp)
        omega
  have hroom : heap'.free + layout.rounded < 2 ^ 64 := by
    have hle := @Heap.sum_le holes' heap.start heap.endAddr
      (fun hole hhole => ⟨(hfits' hole hhole).low, (hfits' hole hhole).high⟩) hapart'
    have hend := hregion.end_lt
    omega
  have hfound : findPlace block (heap.granules + 1) 0 heap.head heap
      = (.ok (lastAddr before, current), heap) := hfind
  -- the run, put together
  refine ⟨{ heap' with free := heap'.free + layout.rounded }, holes', ?_,
    ⟨hlinked', ?_, hapart', ?_⟩, ⟨hsame.1, hsame.2, hsame.3⟩, hframe, fun a => ?_⟩
  · rw [deallocate, blockSize_eq, Eff.bind_ok (expect_some _ _), Eff.get_bind, checkedBlock_eq,
      if_pos ⟨htop, hlow, hhigh, haligned⟩, Eff.bind_ok (expect_some _ _), Eff.bind_ok hfound]
    change (holeBefore (lastAddr before) >>= _) heap = _
    rw [Eff.bind_ok hprev, Eff.bind_ok (assert_ok ?_), Eff.bind_ok hmerge, Eff.bind_ok hput,
      Eff.get_bind, Eff.bind_ok (plus_ok hroom)]
    · rfl
    · refine ⟨?_, hcurrent⟩
      rintro ⟨found, hin, hlt⟩
      have := hunderPrev found hin
      omega
  · exact fun hole hhole => (hfits' hole hhole).of_same ⟨hsame.1, hsame.2, hsame.3⟩
  · simp only
    omega
  · have hmore := hcovered a
    rw [hcovered', covered_append, hmore, ← hsplit]
    simp only [covered_cons, covered_append]
    omega

/-! ### Checking -/

lemma checkFrom_spec {left free count largest current : ℕ} {previousEnd : Option ℕ}
    (hregion : heap.Region) (hfits : ∀ hole ∈ holes, heap.Fits hole)
    (hapart : holes.Pairwise fun hole next => hole.endAddr < next.addr)
    (hlinked : LinkedTo heap.mem current holes 0) (hleft : holes.length ≤ left)
    (hprevious : ∀ end' ∈ previousEnd, ∀ hole ∈ holes, end' < hole.addr)
    (hfree : free + (holes.map (·.size)).sum < 2 ^ 64) :
    checkFrom left free count largest previousEnd current heap
      = (.ok (.ok (free + (holes.map (·.size)).sum, count + holes.length,
          (holes.map (·.size)).foldl max largest)), heap) := by
  induction holes generalizing left free count largest current previousEnd with
  | nil =>
      cases left <;> rw [checkFrom, if_pos (show current = 0 from hlinked)] <;> rfl
  | cons hole rest ih =>
      obtain ⟨rfl, hsize, hrest⟩ := hlinked
      have hhole := hfits hole (by simp)
      obtain ⟨hlarge, haddr, haligned, hwhole, htop⟩ := hhole.bounds hregion
      have hlow := hhole.low
      have hhigh := hhole.high
      rw [Extent.endAddr] at hhigh
      obtain ⟨hnext, hpairs⟩ := List.pairwise_cons.mp hapart
      rw [List.map_cons, List.sum_cons] at hfree
      obtain _ | left := left
      · simp at hleft
      · have hordered : ¬∃ end' ∈ previousEnd, hole.addr ≤ end' := by
          rintro ⟨end', hend, hle⟩
          have := hprevious end' hend hole (by simp)
          omega
        rw [checkFrom, if_neg (by omega), Eff.get_bind, granule, if_neg (by omega),
          if_neg hordered, Eff.bind_ok (readHole_ok (hhole.holeFits hregion)), hsize,
          if_neg (by omega), Eff.bind_ok (plus_ok (by omega)), Eff.bind_ok (plus_ok htop)]
        rw [@ih left (free + hole.size) (count + 1) (max largest hole.size)
          (holeAt heap.mem hole.addr).next (some (hole.addr + hole.size))
          (fun other hother => hfits other (by simp [hother])) hpairs hrest
          (by simpa using hleft) ?_
          (by omega)]
        · simp only [List.map_cons, List.sum_cons, List.length_cons, List.foldl_cons]
          rw [Nat.add_assoc, Nat.add_assoc, Nat.add_comm 1]
        · intro end' hend other hother
          rw [← Option.some.inj hend]
          exact hnext other hother

/-- **The check finds nothing wrong.** -/
theorem check_spec (hregion : heap.Region) (h : heap.Holds holes) :
    check heap = (.ok (.ok ⟨heap.endAddr - heap.start, heap.free, holes.length,
      (holes.map (·.size)).foldl max 0⟩), heap) := by
  have hsum := @sum_le holes heap.start heap.endAddr
    (fun hole hhole => ⟨(h.fits hole hhole).low, (h.fits hole hhole).high⟩) h.apart
  have hend := hregion.end_lt
  have hfree := h.free
  have hwalk := @checkFrom_spec heap holes heap.granules 0 0 0 heap.head none hregion
    h.fits h.apart
    h.linked (h.length_le hregion) (fun end' hend => by cases hend) (by omega)
  rw [Nat.zero_add, Nat.zero_add, ← hfree] at hwalk
  rw [check, Eff.get_bind, Eff.bind_ok hwalk]
  change (if heap.free ≠ heap.free then _ else _ : HeapM _) heap = _
  rw [if_neg (by simp)]
  rfl

/-! ### Starting -/

lemma checkedNextMultipleOf_granule {a b : ℕ} (h : checkedNextMultipleOf a granule = some b) :
    a ≤ b ∧ b % granule = 0 ∧ b < a + granule := by
  rw [checkedNextMultipleOf, checkedAdd] at h
  rw [granule] at *
  by_cases hwhole : a % 16 = 0
  · rw [if_pos hwhole] at h
    obtain rfl := Option.some.inj h
    omega
  · rw [if_neg hwhole, Option.ite_none_right_eq_some] at h
    obtain rfl := Option.some.inj h.2
    omega

end Harlan.Heap
