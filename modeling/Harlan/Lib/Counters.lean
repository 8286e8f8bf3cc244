import Mathlib.Tactic

/-! Counters that run freely: they are kept modulo some `span`, and what they count has its place
modulo a `size` that divides it.

* `place_eq`: the place of a count does not depend on how often its counter has wrapped.
* `place_inj`: fewer than `size` counts in a row have places of their own.
* `distance_eq`: the difference of two counters is that of the counts.
-/

namespace Harlan.Counters

variable {size span : ℕ}

lemma place_eq (h : size ∣ span) (count : ℕ) : count % span % size = count % size :=
  Nat.mod_mod_of_dvd count h

lemma place_inj {first i j : ℕ} (hi : i < size) (hj : j < size)
    (h : (first + i) % size = (first + j) % size) : i = j := by
  have hmod : i ≡ j [MOD size] := Nat.ModEq.add_left_cancel' first h
  rwa [Nat.ModEq, Nat.mod_eq_of_lt hi, Nat.mod_eq_of_lt hj] at hmod

/-- One counter less another, as fixed-width subtraction has it. -/
lemma distance_eq {behind ahead : ℕ} (hle : behind ≤ ahead) (hlt : ahead - behind < span) :
    (span - behind % span + ahead % span) % span = ahead - behind := by
  obtain ⟨gap, rfl⟩ := Nat.exists_eq_add_of_le hle
  rw [Nat.add_sub_cancel_left] at hlt ⊢
  have hbehind : behind % span < span := Nat.mod_lt _ (by omega)
  calc (span - behind % span + (behind + gap) % span) % span
      = (span - behind % span + (behind % span + gap)) % span := by
        rw [← Nat.mod_add_mod behind, Nat.add_mod_mod]
    _ = (gap + span) % span := by
        rw [show span - behind % span + (behind % span + gap) = gap + span by omega]
    _ = gap := by
        rw [Nat.add_mod_right, Nat.mod_eq_of_lt hlt]

end Harlan.Counters
