import Mathlib.Tactic
import Harlan.Fat.Names

/-!
Text cut into pieces of a fixed number of bytes, each of which is taken or refused as a whole.

A character of more than one byte may be cut, and then neither piece is text.

* `validUtf8_char`: a text is a character and a text.
* `validUtf8_cut`, `validUtf8_rest`: a cut between two characters leaves text on both sides.
* `keptPieces`, `keptPieces_eq_iff`: what is taken is the whole text where no cut is inside a
  character. -/

namespace Harlan.Fat

/-! ### Characters -/

/-- A text begins with a character, and whether it goes on as text is up to what is after that. -/
lemma validUtf8_char {a : UInt8} {rest : List UInt8} (h : validUtf8 (a :: rest) = true) :
    ∃ more text, rest = more ++ text ∧ isContinuation a = false
      ∧ (∀ b ∈ more, isContinuation b = true)
      ∧ ∀ after, validUtf8 (a :: (more ++ after)) = validUtf8 after := by
  have hlead : a.toNat < 0x80 ∨ 0xC0 ≤ a.toNat → isContinuation a = false := by
    intro ha
    rw [isContinuation, Bool.and_eq_false_iff, decide_eq_false_iff_not, decide_eq_false_iff_not]
    omega
  rw [validUtf8.eq_def] at h
  dsimp only at h
  split_ifs at h with hone htwo hthree hfour
  · refine ⟨[], rest, rfl, hlead (.inl hone), List.forall_mem_nil _, fun after => ?_⟩
    rw [List.nil_append, validUtf8.eq_def]
    exact if_pos hone
  · rcases rest with _ | ⟨b, text⟩
    · cases h
    · simp only [Bool.and_eq_true] at h
      refine ⟨[b], text, rfl, hlead (.inr (by omega)), by simp [h.1], fun after => ?_⟩
      rw [List.singleton_append, validUtf8.eq_def]
      dsimp only
      rw [if_neg hone, if_pos htwo, h.1, Bool.true_and]
  · rcases rest with _ | ⟨b, _ | ⟨c, text⟩⟩
    · cases h
    · cases h
    · dsimp only at h
      rw [Bool.and_eq_true] at h
      obtain ⟨hform, -⟩ := h
      have hmore := hform
      simp only [Bool.and_eq_true] at hmore
      refine ⟨[b, c], text, rfl, hlead (.inr (by omega)), by simp [hmore.1.1.1, hmore.1.1.2],
        fun after => ?_⟩
      rw [validUtf8.eq_def]
      dsimp only [List.cons_append, List.nil_append]
      rw [if_neg hone, if_neg htwo, if_pos hthree, hform, Bool.true_and]
  · rcases rest with _ | ⟨b, _ | ⟨c, _ | ⟨d, text⟩⟩⟩
    · cases h
    · cases h
    · cases h
    · dsimp only at h
      rw [Bool.and_eq_true] at h
      obtain ⟨hform, -⟩ := h
      have hmore := hform
      simp only [Bool.and_eq_true] at hmore
      refine ⟨[b, c, d], text, rfl, hlead (.inr (by omega)),
        by simp [hmore.1.1.1.1, hmore.1.1.1.2, hmore.1.1.2], fun after => ?_⟩
      rw [validUtf8.eq_def]
      dsimp only [List.cons_append, List.nil_append]
      rw [if_neg hone, if_neg htwo, if_neg hthree, if_pos hfour, hform, Bool.true_and]

/-- What comes after a text in a text is text. -/
lemma validUtf8_rest {before after : List UInt8} (h : validUtf8 (before ++ after) = true)
    (hbefore : validUtf8 before = true) : validUtf8 after = true := by
  induction hlength : before.length using Nat.strong_induction_on generalizing before with
  | _ length ih =>
      rcases before with _ | ⟨a, rest⟩
      · exact h
      · obtain ⟨more, text, rfl, -, -, hmore⟩ := validUtf8_char hbefore
        rw [hmore] at hbefore
        rw [List.cons_append, List.append_assoc, hmore] at h
        rw [List.length_cons, List.length_append] at hlength
        exact ih text.length (by omega) h hbefore rfl

/-- Where the byte after a cut goes on with no character, there is text on both sides. -/
lemma validUtf8_cut {before after : List UInt8} (h : validUtf8 (before ++ after) = true)
    (hcut : ∀ b ∈ after.head?, isContinuation b = false) :
    validUtf8 before = true ∧ validUtf8 after = true := by
  induction hlength : before.length using Nat.strong_induction_on generalizing before with
  | _ length ih =>
      rcases before with _ | ⟨a, rest⟩
      · exact ⟨rfl, h⟩
      · obtain ⟨more, text, hsplit, -, hall, hmore⟩ := validUtf8_char h
        -- a character that went past the cut would have the byte after it
        obtain ⟨others, rfl⟩ | ⟨past, hpast, rfl⟩ : (∃ others, rest = more ++ others)
            ∨ ∃ past, past ≠ [] ∧ more = rest ++ past := by
          obtain hlt | hle := Nat.lt_or_ge rest.length more.length
          · obtain ⟨past, hpast⟩ :=
              List.prefix_of_prefix_length_le ⟨after, rfl⟩ ⟨text, hsplit.symm⟩ hlt.le
            refine .inr ⟨past, ?_, hpast.symm⟩
            rintro rfl
            rw [← hpast, List.append_nil] at hlt
            exact lt_irrefl _ hlt
          · obtain ⟨others, hothers⟩ :=
              List.prefix_of_prefix_length_le ⟨text, hsplit.symm⟩ ⟨after, rfl⟩ hle
            exact .inl ⟨others, hothers.symm⟩
        · rw [List.cons_append, List.append_assoc, hmore] at h
          rw [List.length_cons, List.length_append] at hlength
          obtain ⟨hothers, hafter⟩ := ih others.length (by omega) h rfl
          exact ⟨(hmore others).trans hothers, hafter⟩
        · rw [List.append_assoc] at hsplit
          obtain rfl := List.append_cancel_left hsplit
          rcases past with _ | ⟨b, past⟩
          · exact absurd rfl hpast
          · have hb := hall b (by simp)
            rw [hcut b rfl] at hb
            cases hb

/-! ### Pieces -/

/-- The pieces of `size` bytes that are text, one after another. -/
def keptPieces (size : ℕ) (contents : List UInt8) : List UInt8 :=
  if _h : contents = [] ∨ size = 0 then []
  else
    (if validUtf8 (contents.take size) then contents.take size else []) ++ keptPieces size
    (contents.drop size)
termination_by contents.length
decreasing_by
  have hpos := List.length_pos_of_ne_nil (not_or.mp _h).1
  rw [List.length_drop]
  omega

@[simp] lemma keptPieces_nil (size : ℕ) : keptPieces size [] = [] := by
  rw [keptPieces, dif_pos (.inl rfl)]

/-- The first piece, if it is text, and then the others. -/
lemma keptPieces_of_ne {size : ℕ} {contents : List UInt8} (hsize : 0 < size) (h : contents ≠ []) :
    keptPieces size contents = (if validUtf8 (contents.take size) then contents.take size else [])
      ++ keptPieces size (contents.drop size) := by
  rw [keptPieces, dif_neg (not_or.mpr ⟨h, by omega⟩)]

lemma length_keptPieces_le (size : ℕ) (contents : List UInt8) :
    (keptPieces size contents).length ≤ contents.length := by
  fun_induction keptPieces size contents with
  | case1 => exact Nat.zero_le _
  | case2 contents _ ih =>
      rw [List.length_drop] at ih
      split
      · rw [List.length_append, List.length_take]
        omega
      · rw [List.nil_append]
        omega

/-- **What is kept of a text is all of it exactly where no cut is inside a character.** -/
theorem keptPieces_eq_iff {size : ℕ} (hsize : 0 < size) {contents : List UInt8}
    (h : validUtf8 contents = true) :
    keptPieces size contents = contents
      ↔ ∀ k, 0 < k → ∀ b ∈ contents[size * k]?, isContinuation b = false := by
  fun_induction keptPieces size contents with
  | case1 contents hnone =>
      obtain rfl : contents = [] := hnone.resolve_right (by omega)
      simp
  | case2 contents hsome ih =>
      have hpos := List.length_pos_of_ne_nil (not_or.mp hsome).1
      have hwhole : contents.take size ++ contents.drop size = contents :=
        List.take_append_drop _ _
      have hshift : ∀ k, (contents.drop size)[size * k]? = contents[size * (k + 1)]? := by
        intro k
        rw [List.getElem?_drop, Nat.mul_succ, Nat.add_comm]
      have hhead : (contents.drop size).head? = contents[size * 1]? := by
        rw [List.head?_eq_getElem?, List.getElem?_drop, Nat.add_zero, Nat.mul_one]
      constructor
      · intro hall
        have hfirst : validUtf8 (contents.take size) = true := by
          by_contra hrefused
          have hle := length_keptPieces_le size (contents.drop size)
          rw [if_neg hrefused, List.nil_append] at hall
          rw [hall, List.length_drop] at hle
          omega
        rw [if_pos hfirst] at hall
        have hrest := validUtf8_rest (hwhole.symm ▸ h) hfirst
        have hkept : keptPieces size (contents.drop size) = contents.drop size :=
          List.append_cancel_left (hall.trans hwhole.symm)
        intro k hk b hb
        obtain ⟨k, rfl⟩ : ∃ k', k = k' + 1 := ⟨k - 1, by omega⟩
        rcases Nat.eq_zero_or_pos k with rfl | hk
        · rw [Nat.zero_add, ← hhead] at hb
          rcases hdrop : contents.drop size with _ | ⟨b', text⟩
          · rw [hdrop] at hb
            cases hb
          · rw [hdrop] at hb hrest
            obtain rfl : b' = b := Option.some.inj hb
            obtain ⟨-, -, -, hlead, -⟩ := validUtf8_char hrest
            exact hlead
        · rw [← hshift] at hb
          exact (ih hrest).mp hkept k hk b hb
      · intro hcuts
        have hcut : ∀ b ∈ (contents.drop size).head?, isContinuation b = false := by
          rw [hhead]
          exact hcuts 1 (by omega)
        obtain ⟨hfirst, hrest⟩ := validUtf8_cut (hwhole.symm ▸ h) hcut
        have hkept := (ih hrest).mpr fun k hk b hb =>
          hcuts (k + 1) (by omega) b (by rwa [← hshift])
        rw [if_pos hfirst, hkept, hwhole]

end Harlan.Fat
