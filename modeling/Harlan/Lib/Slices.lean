import Mathlib.Tactic

/-!
Parts of a run of elements that are asked for by where they begin and end.

* `getRange_append`: a part between two others is where their lengths say.
* `take_append_take`: what was cut to a length, and has grown, may be cut to it again.
* `getElem?_concat_some`: an element of a list that has grown by one was there before, or is the
  new one. -/

/-- The elements from `first` up to `last`, if there are that many (`slice::get` of a range). -/
def getRange {α : Type*} (elements : List α) (first last : ℕ) : Option (List α) :=
  if first ≤ last ∧ last ≤ elements.length then some ((elements.take last).drop first) else none

lemma getRange_append {α : Type*} (before part after : List α) {first last : ℕ}
    (hfirst : first = before.length) (hlast : last = before.length + part.length) :
    getRange (before ++ part ++ after) first last = some part := by
  subst hfirst hlast
  rw [getRange, if_pos ⟨by omega, by simp only [List.length_append]; omega⟩]
  rw [← List.length_append, List.take_left, List.drop_left]

lemma take_append_take {α : Type*} (n : ℕ) (elements more : List α) :
    (elements.take n ++ more).take n = (elements ++ more).take n := by
  rcases Nat.le_total elements.length n with hle | hle
  · rw [List.take_of_length_le hle]
  · rw [List.take_append_of_le_length hle, List.take_append_of_le_length (by simp [hle]),
      List.take_take, Nat.min_self]

lemma getElem?_concat_some {α : Type*} {elements : List α} {last element : α} {n : ℕ} :
    (elements ++ [last])[n]? = some element ↔ elements[n]? = some element ∨ n = elements.length
      ∧ last = element := by
  obtain hlt | rfl | hgt := Nat.lt_trichotomy n elements.length
  · rw [List.getElem?_append_left hlt]
    exact ⟨.inl, fun h => h.elim id fun h => absurd h.1 (by omega)⟩
  · rw [List.getElem?_concat_length, List.getElem?_eq_none (le_refl _)]
    simp
  · rw [List.getElem?_eq_none (by rw [List.length_append, List.length_singleton]; omega),
      List.getElem?_eq_none (by omega)]
    simp
    omega
