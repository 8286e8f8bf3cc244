import Mathlib.Tactic
import Mathlib.Data.Nat.Count

/-!
Bitmaps kept as a list of machine words, for words of any positive width `w`.

* `bit`, `setBit`: bit `n` lives in word `n / w` at position `n % w`; reading past the
  last word answers "set", so that a clear bit is always one the bitmap covers
  (`lt_of_bit_eq_false`).
* `bit_setBit`: a written bit reads back, and every other one is left alone.
* `clearBits`: the number of clear bits, which is the sum of the words' own counts
  (`sum_countZeros`) and moves by exactly one with each write that changes something
  (`clearBits_setBit_true`, `clearBits_setBit_false`).
* `firstClear`, `nextFit`: the lowest clear bit of a word, and the search for a word with
  a clear bit that starts at a given word and wraps round; the search misses nothing
  (`nextFit_isSome`).
-/

namespace Bitmap

variable {w : ℕ}

/-- Bit `n` of a bitmap of `w`-bit words; set past the last word. -/
def bit (words : List (BitVec w)) (n : ℕ) : Bool :=
  (words.getD (n / w) (BitVec.allOnes w)).getLsbD (n % w)

/-- Writes bit `n`, with the two masks a machine uses. -/
def setBit (words : List (BitVec w)) (n : ℕ) (value : Bool) : List (BitVec w) :=
  words.modify (n / w) fun word =>
    if value then word ||| (1#w <<< (n % w)) else word &&& ~~~(1#w <<< (n % w))

/-- How many bits of a word are clear. -/
def countZeros (word : BitVec w) : ℕ :=
  Nat.count (fun i => word.getLsbD i = false) w

/-- How many bits a bitmap has clear. -/
def clearBits (words : List (BitVec w)) : ℕ :=
  Nat.count (fun n => bit words n = false) (words.length * w)

/-- The lowest clear bit of a word, `w` when it has none. -/
def firstClear (word : BitVec w) : ℕ :=
  ((List.range w).find? fun i => !word.getLsbD i).getD w

/-- The first word with a clear bit, searching from word `start` and wrapping round. -/
def nextFit (words : List (BitVec w)) (start : ℕ) : Option ℕ :=
  ((List.range words.length).map fun offset => (start + offset) % words.length).find?
    fun index => words.getD index (BitVec.allOnes w) != BitVec.allOnes w

/-! ### Reading and writing one bit -/

@[simp] lemma length_setBit (words : List (BitVec w)) (n : ℕ) (value : Bool) :
    (setBit words n value).length = words.length := by
  simp [setBit]

/-- A clear bit is one the bitmap covers. -/
lemma lt_of_bit_eq_false (hw : 0 < w) {words : List (BitVec w)} {n : ℕ}
    (h : bit words n = false) : n < words.length * w := by
  by_contra hn
  have hdiv : words.length ≤ n / w := (Nat.le_div_iff_mul_le hw).mpr (by omega)
  rw [bit, List.getD_eq_getElem?_getD, List.getElem?_eq_none hdiv, Option.getD_none,
    BitVec.getLsbD_allOnes] at h
  simp [Nat.mod_lt n hw] at h

lemma getLsbD_setWord (word : BitVec w) {i j : ℕ} (hi : i < w) (hj : j < w) (value : Bool) :
    (if value then word ||| (1#w <<< i) else word &&& ~~~(1#w <<< i)).getLsbD j
      = if j = i then value else word.getLsbD j := by
  rw [← BitVec.twoPow_eq]
  by_cases hji : j = i
  · subst hji
    cases value <;> simp [hj]
  · cases value <;> simp [hj, hji]

/-- A written bit reads back, and every other one is as it was. -/
lemma bit_setBit (hw : 0 < w) {words : List (BitVec w)} {n : ℕ} (hn : n < words.length * w)
    (m : ℕ) (value : Bool) :
    bit (setBit words n value) m = if m = n then value else bit words m := by
  have hnw : n / w < words.length := (Nat.div_lt_iff_lt_mul hw).mpr hn
  have hmod := Nat.mod_lt m hw
  rw [bit, bit, setBit]
  simp only [List.getD_eq_getElem?_getD, List.getElem?_modify]
  by_cases hdiv : n / w = m / w
  · have hmw : m / w < words.length := hdiv ▸ hnw
    simp only [hdiv, if_true, List.getElem?_eq_getElem hmw, Option.map_eq_map, Option.map_some,
      Option.getD_some]
    rw [getLsbD_setWord _ (Nat.mod_lt n hw) hmod]
    have hiff : m % w = n % w ↔ m = n := by
      constructor
      · intro h
        rw [← Nat.div_add_mod m w, ← Nat.div_add_mod n w, h, hdiv]
      · rintro rfl
        rfl
    simp only [hiff]
  · have hne : m ≠ n := by
      rintro rfl
      exact hdiv rfl
    simp only [hdiv, hne, if_false, Option.map_eq_map, Option.map_id']

/-- Writes the same value to every bit of a list of numbers, in order. -/
def setBits (words : List (BitVec w)) (ns : List ℕ) (value : Bool) : List (BitVec w) :=
  ns.foldl (fun words n => setBit words n value) words

@[simp] lemma length_setBits (words : List (BitVec w)) (ns : List ℕ) (value : Bool) :
    (setBits words ns value).length = words.length := by
  induction ns generalizing words with
  | nil => rfl
  | cons n ns ih =>
      rw [setBits, List.foldl_cons, ← setBits, ih, length_setBit]

lemma bit_setBits (hw : 0 < w) {words : List (BitVec w)} {ns : List ℕ}
    (hns : ∀ n ∈ ns, n < words.length * w) (m : ℕ) (value : Bool) :
    bit (setBits words ns value) m = if m ∈ ns then value else bit words m := by
  induction ns generalizing words with
  | nil => simp [setBits]
  | cons n ns ih =>
      have hn := hns n List.mem_cons_self
      rw [setBits, List.foldl_cons, ← setBits, ih, bit_setBit hw hn]
      · by_cases hm : m = n <;> simp [hm]
      · intro k hk
        rw [length_setBit]
        exact hns k (List.mem_cons_of_mem n hk)

@[simp] lemma bit_replicate_allOnes (hw : 0 < w) (k n : ℕ) :
    bit (List.replicate k (BitVec.allOnes w)) n = true := by
  have hmod := Nat.mod_lt n hw
  rw [bit]
  by_cases h : n / w < k
  · simp [List.getD_eq_getElem?_getD, h, hmod]
  · simp [List.getD_eq_getElem?_getD, Nat.le_of_not_lt h, hmod]

/-! ### Counting the clear bits -/

lemma bit_cons (hw : 0 < w) (word : BitVec w) (words : List (BitVec w)) (n : ℕ) :
    bit (word :: words) n = if n < w then word.getLsbD n else bit words (n - w) := by
  by_cases h : n < w
  · simp [bit, h, Nat.div_eq_of_lt h, Nat.mod_eq_of_lt h]
  · have hdiv : n / w = (n - w) / w + 1 := Nat.div_eq_sub_div hw (Nat.le_of_not_lt h)
    have hmod : n % w = (n - w) % w := Nat.mod_eq_sub_mod (Nat.le_of_not_lt h)
    rw [if_neg h, bit, bit, hdiv, hmod, List.getD_cons_succ]

/-- The words' own counts add up to the bitmap's. -/
lemma sum_countZeros (hw : 0 < w) (words : List (BitVec w)) :
    (words.map countZeros).sum = clearBits words := by
  induction words with
  | nil => simp [clearBits]
  | cons word words ih =>
      have hlen : (word :: words).length * w = w + words.length * w := by
        simp only [List.length_cons]
        ring
      rw [List.map_cons, List.sum_cons, ih, clearBits, clearBits, hlen, Nat.count_add, countZeros]
      have hrest : (fun k => bit (word :: words) (w + k) = false)
          = fun k => bit words k = false := by
        funext k
        rw [bit_cons hw, if_neg (by omega), Nat.add_sub_cancel_left]
      have hword : Nat.count (fun n => bit (word :: words) n = false) w
          = Nat.count (fun n => word.getLsbD n = false) w := by
        refine le_antisymm (Nat.count_mono_left ?_) (Nat.count_mono_left ?_) <;>
          · intro k hk h
            simpa [bit_cons hw, hk] using h
      rw [hword]
      simp only [hrest]

lemma clearBits_eq_card (words : List (BitVec w)) :
    clearBits words
      = ((Finset.range (words.length * w)).filter fun n => bit words n = false).card :=
  Nat.count_eq_card_filter_range _ _

/-- Setting a clear bit costs one. -/
lemma clearBits_setBit_true (hw : 0 < w) {words : List (BitVec w)} {n : ℕ}
    (h : bit words n = false) : clearBits (setBit words n true) + 1 = clearBits words := by
  have hn := lt_of_bit_eq_false hw h
  rw [clearBits_eq_card, clearBits_eq_card, length_setBit]
  have hmem : n ∈ (Finset.range (words.length * w)).filter fun n => bit words n = false := by
    simp [hn, h]
  rw [← Finset.card_erase_add_one hmem]
  congr 2
  ext m
  simp only [Finset.mem_filter, Finset.mem_range, Finset.mem_erase, bit_setBit hw hn]
  by_cases hm : m = n <;> simp [hm]

/-- Clearing a set bit gains one. -/
lemma clearBits_setBit_false (hw : 0 < w) {words : List (BitVec w)} {n : ℕ}
    (hn : n < words.length * w) (h : bit words n = true) :
    clearBits (setBit words n false) = clearBits words + 1 := by
  rw [clearBits_eq_card, clearBits_eq_card, length_setBit]
  have hmem : n ∉ (Finset.range (words.length * w)).filter fun n => bit words n = false := by
    simp [h]
  rw [← Finset.card_insert_of_notMem hmem]
  congr 1
  ext m
  simp only [Finset.mem_filter, Finset.mem_range, Finset.mem_insert, bit_setBit hw hn]
  by_cases hm : m = n
  · simp [hm, hn]
  · simp [hm]

lemma clearBits_pos_iff {words : List (BitVec w)} :
    0 < clearBits words ↔ ∃ n < words.length * w, bit words n = false := by
  rw [clearBits_eq_card, Finset.card_pos]
  constructor
  · rintro ⟨n, hn⟩
    exact ⟨n, by simpa using hn⟩
  · rintro ⟨n, hn, h⟩
    exact ⟨n, by simp [hn, h]⟩

/-! ### Searching -/

lemma exists_clear_of_ne_allOnes {word : BitVec w} (h : word ≠ BitVec.allOnes w) :
    ∃ i < w, word.getLsbD i = false := by
  by_contra hall
  push Not at hall
  refine h (BitVec.eq_of_getLsbD_eq fun i hi => ?_)
  rw [BitVec.getLsbD_allOnes]
  simpa [hi] using hall i hi

/-- A word that is not all ones has its lowest clear bit where `firstClear` says. -/
lemma firstClear_spec {word : BitVec w} (h : word ≠ BitVec.allOnes w) :
    firstClear word < w ∧ word.getLsbD (firstClear word) = false := by
  obtain ⟨i, hi, hclear⟩ := exists_clear_of_ne_allOnes h
  have hsome : ((List.range w).find? fun i => !word.getLsbD i).isSome := by
    rw [List.find?_isSome]
    exact ⟨i, List.mem_range.mpr hi, by simp [hclear]⟩
  obtain ⟨j, hj⟩ := Option.isSome_iff_exists.mp hsome
  rw [firstClear, hj, Option.getD_some]
  refine ⟨List.mem_range.mp (List.mem_of_find?_eq_some hj), ?_⟩
  simpa using List.find?_some hj

/-- What the search finds is a word of the bitmap with a clear bit. -/
lemma nextFit_some {words : List (BitVec w)} {start index : ℕ}
    (h : nextFit words start = some index) :
    index < words.length ∧ words.getD index (BitVec.allOnes w) ≠ BitVec.allOnes w := by
  have hmem := List.mem_of_find?_eq_some h
  obtain ⟨offset, hoffset, rfl⟩ := List.mem_map.mp hmem
  have hpos : 0 < words.length := Nat.zero_lt_of_lt (List.mem_range.mp hoffset)
  exact ⟨Nat.mod_lt _ hpos, by simpa using List.find?_some h⟩

/-- The search goes over every word, wherever it starts. -/
lemma nextFit_isSome (hw : 0 < w) {words : List (BitVec w)} (start : ℕ)
    (h : 0 < clearBits words) : ∃ index, nextFit words start = some index := by
  obtain ⟨n, hn, hclear⟩ := clearBits_pos_iff.mp h
  have hword : n / w < words.length := (Nat.div_lt_iff_lt_mul hw).mpr hn
  have hpos : 0 < words.length := Nat.zero_lt_of_lt hword
  have hne : words.getD (n / w) (BitVec.allOnes w) ≠ BitVec.allOnes w := by
    intro hones
    rw [bit, hones, BitVec.getLsbD_allOnes] at hclear
    simp [Nat.mod_lt n hw] at hclear
  generalize n / w = index at hword hne
  refine Option.isSome_iff_exists.mp ?_
  rw [nextFit, List.find?_isSome]
  -- the offset that reaches `index`, whichever side of `start` it is on
  refine ⟨index, List.mem_map.mpr ⟨(index + words.length - start % words.length) % words.length,
    List.mem_range.mpr (Nat.mod_lt _ hpos), ?_⟩, bne_iff_ne.mpr hne⟩
  have hstart := Nat.mod_lt start hpos
  rw [Nat.add_mod_mod, ← Nat.mod_add_mod,
    show start % words.length + (index + words.length - start % words.length)
      = index + words.length by omega, Nat.add_mod_right, Nat.mod_eq_of_lt hword]

/-- The bit a search ends at: its number, and that it is clear. -/
lemma bit_nextFit (hw : 0 < w) {words : List (BitVec w)} {start index : ℕ}
    (h : nextFit words start = some index) :
    bit words (index * w + firstClear (words.getD index (BitVec.allOnes w))) = false := by
  obtain ⟨-, hne⟩ := nextFit_some h
  obtain ⟨hlt, hclear⟩ := firstClear_spec hne
  rw [bit, Nat.mul_comm, Nat.mul_add_div hw, Nat.div_eq_of_lt hlt, Nat.add_zero, Nat.mul_add_mod,
    Nat.mod_eq_of_lt hlt]
  exact hclear

end Bitmap
