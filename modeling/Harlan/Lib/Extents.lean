import Mathlib.Tactic

/-!
Extents of a line of addresses, and lists of them that tile a range.

How often an address is covered is a count, so splitting an extent, joining two that touch and
changing the order are equations between counts.

* `Tiles lo hi extents`: every address from `lo` up to `hi` is covered once, and no other.
* `Tiles.bounds`, `Tiles.disjoint`: what lies in a tiling lies in the range, and apart from the
  rest of it.
* `covered_split`: an extent cut in two covers the same.
* `eq_of_covered`: extents in order that do not touch are told by what they cover.
-/

/-- `size` addresses from `addr` on. -/
structure Extent where
  addr : ℕ
  size : ℕ
deriving DecidableEq

namespace Extent

/-- The first address behind the extent. -/
def endAddr (extent : Extent) : ℕ := extent.addr + extent.size

/-- The address is one of the extent's. -/
def Has (extent : Extent) (a : ℕ) : Prop := extent.addr ≤ a ∧ a < extent.endAddr

instance (extent : Extent) : DecidablePred extent.Has :=
  fun _ => inferInstanceAs (Decidable (_ ∧ _))

end Extent

/-- How many of the extents have an address. -/
def covered (extents : List Extent) (a : ℕ) : ℕ := extents.countP (·.Has a)

/-- The extents are a range, cut in pieces. -/
def Tiles (lo hi : ℕ) (extents : List Extent) : Prop :=
  ∀ a, covered extents a = if lo ≤ a ∧ a < hi then 1 else 0

variable {lo hi : ℕ} {extents extents' : List Extent} {extent other : Extent}

lemma covered_append (extents extents' : List Extent) (a : ℕ) :
    covered (extents ++ extents') a = covered extents a + covered extents' a :=
  List.countP_append

lemma covered_cons (extent : Extent) (extents : List Extent) (a : ℕ) :
    covered (extent :: extents) a
      = covered extents a + if extent.addr ≤ a ∧ a < extent.endAddr then 1 else 0 := by
  rw [covered, List.countP_cons]
  congr 1
  simp only [decide_eq_true_eq]
  exact if_congr Iff.rfl rfl rfl

@[simp] lemma covered_nil (a : ℕ) : covered [] a = 0 := rfl

/-- An extent cut in two covers the same. -/
lemma covered_split {addr size size' : ℕ} (a : ℕ) :
    covered [⟨addr, size⟩, ⟨addr + size, size'⟩] a = covered [⟨addr, size + size'⟩] a := by
  simp only [covered_cons, covered_nil, Extent.endAddr]
  grind

/-- Nothing is covered by nothing. -/
lemma covered_empty (addr a : ℕ) : covered [⟨addr, 0⟩] a = 0 := by
  simp only [covered_cons, covered_nil, Extent.endAddr]
  grind

lemma one_le_covered (h : extent ∈ extents) {a : ℕ} (ha : extent.Has a) : 1 ≤ covered extents a :=
  List.countP_pos_iff.mpr ⟨extent, h, by simpa using ha⟩

namespace Tiles

lemma congr (h : Tiles lo hi extents) (hsame : ∀ a, covered extents' a = covered extents a) :
    Tiles lo hi extents' := fun a => (hsame a).trans (h a)

lemma single (h : lo ≤ hi) : Tiles lo hi [⟨lo, hi - lo⟩] := by
  intro a
  simp only [covered_cons, covered_nil, Extent.endAddr]
  grind

lemma mem_range (h : Tiles lo hi extents) (hmem : extent ∈ extents) {a : ℕ} (ha : extent.Has a) :
    lo ≤ a ∧ a < hi := by
  have hone := one_le_covered hmem ha
  rw [h a] at hone
  by_contra hout
  rw [if_neg hout] at hone
  omega

lemma bounds (h : Tiles lo hi extents) (hmem : extent ∈ extents) (hsize : 0 < extent.size) :
    lo ≤ extent.addr ∧ extent.endAddr ≤ hi := by
  have hfirst := h.mem_range hmem (show extent.Has extent.addr from ⟨le_refl _, by
    rw [Extent.endAddr]
    omega⟩)
  have hlast := h.mem_range hmem (show extent.Has (extent.endAddr - 1) by
    rw [Extent.Has, Extent.endAddr]
    omega)
  rw [Extent.endAddr] at hlast ⊢
  omega

/-- No address is in two of the pieces. -/
lemma not_both {before after : List Extent} (h : Tiles lo hi (before ++ extent :: after))
    (hother : other ∈ before ++ after) {a : ℕ} (ha : extent.Has a) : ¬other.Has a := by
  intro hboth
  have hone := one_le_covered hother hboth
  have hall := h a
  rw [covered_append] at hone
  rw [covered_append, covered_cons,
    if_pos (show extent.addr ≤ a ∧ a < extent.endAddr from ha)] at hall
  grind

lemma disjoint {before after : List Extent} (h : Tiles lo hi (before ++ extent :: after))
    (hother : other ∈ before ++ after) (hsize : 0 < extent.size) (hsize' : 0 < other.size) :
    extent.endAddr ≤ other.addr ∨ other.endAddr ≤ extent.addr := by
  by_contra hmeet
  rw [not_or, not_le, not_le] at hmeet
  have hall := @not_both lo hi extent other before after h hother (max extent.addr other.addr)
  simp only [Extent.Has, Extent.endAddr] at hall hmeet
  omega

end Tiles

/-! ### Extents that do not touch -/

lemma exists_has_of_covered {a : ℕ} (h : 0 < covered extents a) : ∃ extent ∈ extents,
      extent.Has a := by
  obtain ⟨extent, hmem, ha⟩ := List.countP_pos_iff.mp h
  exact ⟨extent, hmem, of_decide_eq_true ha⟩

/-- The first of some extents in order covers the first address they cover. -/
lemma first_le_of_covered
    (h : (extent :: extents).Pairwise fun extent next => extent.endAddr < next.addr)
    {a : ℕ} (ha : 0 < covered (extent :: extents) a) : extent.addr ≤ a := by
  obtain ⟨found, hmem, hlow, -⟩ := exists_has_of_covered ha
  rcases List.mem_cons.mp hmem with rfl | hmem
  · exact hlow
  · have hsep := List.rel_of_pairwise_cons h hmem
    rw [Extent.endAddr] at hsep
    omega

/-- What lies behind the first does not touch it. -/
lemma not_covered_behind
    (h : (extent :: extents).Pairwise fun extent next => extent.endAddr < next.addr)
    {a : ℕ} (ha : a ≤ extent.endAddr) : covered extents a = 0 := by
  by_contra hsome
  obtain ⟨found, hmem, hlow, -⟩ := exists_has_of_covered (Nat.pos_of_ne_zero hsome)
  have hsep := List.rel_of_pairwise_cons h hmem
  omega

/-- **Extents in order that do not touch are told by what they cover.** -/
theorem eq_of_covered (h : extents.Pairwise fun extent next => extent.endAddr < next.addr)
    (h' : extents'.Pairwise fun extent next => extent.endAddr < next.addr)
    (hsize : ∀ extent ∈ extents, 0 < extent.size) (hsize' : ∀ extent ∈ extents', 0 < extent.size)
    (hsame : ∀ a, covered extents a = covered extents' a) : extents = extents' := by
  induction extents generalizing extents' with
  | nil =>
      cases extents' with
      | nil => rfl
      | cons other rest =>
          have hpos := hsize' other List.mem_cons_self
          have hone := one_le_covered (List.mem_cons_self : other ∈ other :: rest)
            (show other.Has other.addr from ⟨le_refl _, by rw [Extent.endAddr]; omega⟩)
          rw [← hsame, covered_nil] at hone
          omega
  | cons extent extents ih =>
      have hpos := hsize extent List.mem_cons_self
      have hhas : extent.Has extent.addr := ⟨le_refl _, by rw [Extent.endAddr]; omega⟩
      cases extents' with
      | nil =>
          have hone := one_le_covered (List.mem_cons_self : extent ∈ extent :: extents) hhas
          rw [hsame, covered_nil] at hone
          omega
      | cons other rest =>
          have hpos' := hsize' other List.mem_cons_self
          have hhas' : other.Has other.addr := ⟨le_refl _, by rw [Extent.endAddr]; omega⟩
          -- both begin at the first address there is, and end at the first that is missing
          have haddr : extent.addr = other.addr := by
            refine le_antisymm (first_le_of_covered h ?_) (first_le_of_covered h' ?_)
            · rw [hsame]
              exact one_le_covered List.mem_cons_self hhas'
            · rw [← hsame]
              exact one_le_covered List.mem_cons_self hhas
          have hend : extent.endAddr = other.endAddr := by
            have hat := hsame extent.endAddr
            have hat' := hsame other.endAddr
            rw [covered_cons, not_covered_behind h (le_refl _), if_neg (by omega)] at hat
            rw [covered_cons other, not_covered_behind h' (le_refl _), if_neg (by omega)] at hat'
            refine le_antisymm (Nat.le_of_not_lt fun hlt => ?_) (Nat.le_of_not_lt fun hlt => ?_)
            · have hone := one_le_covered (List.mem_cons_self : extent ∈ extent :: extents)
                (show extent.Has other.endAddr from ⟨by rw [haddr, Extent.endAddr]; omega, hlt⟩)
              omega
            · have hone := one_le_covered (List.mem_cons_self : other ∈ other :: rest)
                (show other.Has extent.endAddr from ⟨by rw [← haddr, Extent.endAddr]; omega, hlt⟩)
              omega
          obtain rfl : extent = other := by
            obtain ⟨addr, size⟩ := extent
            obtain ⟨addr', size'⟩ := other
            simp only [Extent.endAddr] at haddr hend
            rw [Extent.mk.injEq]
            omega
          congr 1
          refine ih h.of_cons h'.of_cons
            (fun found hfound => hsize found (List.mem_cons_of_mem _ hfound))
            (fun found hfound => hsize' found (List.mem_cons_of_mem _ hfound)) fun a => ?_
          have hat := hsame a
          rw [covered_cons, covered_cons] at hat
          omega

/-- Where no address is covered twice, no two extents begin at one address. -/
lemma nodup_addr_of_covered_le (h : ∀ a, covered extents a ≤ 1)
    (hsize : ∀ extent ∈ extents, 0 < extent.size) :
    (extents.map Extent.addr).Nodup := by
  induction extents with
  | nil => exact List.nodup_nil
  | cons extent extents ih =>
      have hrest : ∀ a, covered extents a ≤ 1 := fun a => by
        have hat := h a
        rw [covered_cons] at hat
        omega
      rw [List.map_cons, List.nodup_cons]
      refine ⟨fun hmem => ?_,
        ih hrest fun other hother => hsize other (List.mem_cons_of_mem _ hother)⟩
      obtain ⟨other, hother, haddr⟩ := List.mem_map.mp hmem
      have hpos := hsize extent List.mem_cons_self
      have hpos' := hsize other (List.mem_cons_of_mem _ hother)
      have hat := h extent.addr
      have hone := one_le_covered hother
        (show other.Has extent.addr from ⟨le_of_eq haddr, by rw [Extent.endAddr]; omega⟩)
      rw [covered_cons, if_pos ⟨le_refl _, by rw [Extent.endAddr]; omega⟩] at hat
      omega
