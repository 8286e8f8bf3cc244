import Mathlib.Tactic

/-!
Going round a ring of places, from each to the next one that will do.

The places that will do, in the order they come after some start, are a list that the search
follows: from each of them it finds the next, and from the last the first. Starting at another of
the places turns the list round (`List.rotate`), which is what everything else here comes down to.

* `round_getElem`: a round from one of the places of a round is that round, turned.
* `order_turn`: the same of the places that will do.
* `visit_succ`: where the search is after any number of steps.
-/

namespace Harlan.Cyclic

variable {n : ℕ} [NeZero n]

/-- Every place of the ring, in the order they come after `start`, which is the last of them. -/
def round (start : Fin n) : List (Fin n) :=
  (List.range' 1 n).map fun step => Fin.ofNat n (start + step)

/-- The first place after `start` that will do. -/
def next (p : Fin n → Bool) (start : Fin n) : Option (Fin n) := (round start).find? p

/-- How many places lie between `start` and `i`, going round. -/
def between (start i : Fin n) : ℕ := (i + n - start - 1) % n

/-- Where the search is after so many steps. -/
def visit (step : Fin n → Option (Fin n)) (start : Fin n) : ℕ → Option (Fin n)
  | 0 => some start
  | count + 1 => (visit step start count).bind step

/-! ### A round -/

lemma length_round (start : Fin n) : (round start).length = n := by
  rw [round, List.length_map, List.length_range']

lemma getElem_round (start : Fin n) {j : ℕ} (h : j < (round start).length) :
    (round start)[j] = Fin.ofNat n (start + (1 + j)) := by
  simp [round]

/-- The place `j` of a round has `j` places before it. -/
lemma between_getElem (start : Fin n) {j : ℕ} (h : j < (round start).length) :
    between start (round start)[j] = j := by
  have hstart := start.isLt
  have hj : j < n := by rwa [length_round] at h
  rw [getElem_round, between]
  simp only [Fin.ofNat]
  by_cases hwrap : start.val + (1 + j) < n
  · rw [Nat.mod_eq_of_lt hwrap, show start.val + (1 + j) + n - start - 1 = j + n by omega,
      Nat.add_mod_right, Nat.mod_eq_of_lt hj]
  · rw [Nat.mod_eq_sub_mod (show start.val + (1 + j) ≥ n by omega),
      Nat.mod_eq_of_lt (show start.val + (1 + j) - n < n by omega),
      show start.val + (1 + j) - n + n - start - 1 = j by omega, Nat.mod_eq_of_lt hj]

/-- A place is where the number of places before it puts it. -/
lemma getElem?_between (start i : Fin n) : (round start)[between start i]? = some i := by
  have hlt : between start i < n := Nat.mod_lt _ (NeZero.pos n)
  have hi := i.isLt
  have hstart := start.isLt
  rw [List.getElem?_eq_getElem (by rwa [length_round]), getElem_round]
  refine congrArg some (Fin.ext ?_)
  simp only [Fin.ofNat, between]
  by_cases h : start.val < i.val
  · rw [show i.val + n - start - 1 = i - start - 1 + n by omega, Nat.add_mod_right,
      Nat.mod_eq_of_lt (show i.val - start - 1 < n by omega),
      show start.val + (1 + (i - start - 1)) = i by omega, Nat.mod_eq_of_lt hi]
  · rw [Nat.mod_eq_of_lt (show i.val + n - start - 1 < n by omega),
      show start.val + (1 + (i + n - start - 1)) = i + n by omega, Nat.add_mod_right,
        Nat.mod_eq_of_lt hi]

lemma mem_round (start i : Fin n) : i ∈ round start :=
  List.mem_of_getElem? (getElem?_between start i)

/-- A round goes from place to place, ever further from its start. -/
lemma round_pairwise (start : Fin n) :
    (round start).Pairwise fun i j => between start i < between start j := by
  rw [List.pairwise_iff_getElem]
  intro i j hi hj hlt
  rwa [between_getElem, between_getElem]

/-- A round from one of the places of a round is that round, turned. -/
lemma round_getElem (start : Fin n) {j : ℕ} (h : j < (round start).length) :
    round (round start)[j] = (round start).rotate (j + 1) := by
  refine List.ext_getElem (by rw [List.length_rotate, length_round, length_round]) fun k
    hk hk' => ?_
  rw [List.getElem_rotate, getElem_round, getElem_round, getElem_round, length_round]
  refine Fin.ext ?_
  simp only [Fin.ofNat]
  calc
    ((start + (1 + j)) % n + (1 + k)) % n = (start + (1 + j) + (1 + k)) % n :=
    Nat.mod_add_mod _ _ _
    _ = (start + 1 + (k + (j + 1))) % n := by
      congr 1
      omega
    _ = (start + 1 + (k + (j + 1)) % n) % n := (Nat.add_mod_mod _ _ _).symm
    _ = (start + (1 + (k + (j + 1)) % n)) % n := by rw [Nat.add_assoc start.val]

/-! ### The places that will do -/

variable {p : Fin n → Bool}

/-- The places that will do, in the order they come after `start`. -/
def order (p : Fin n → Bool) (start : Fin n) : List (Fin n) := (round start).filter p

lemma mem_order {start i : Fin n} : i ∈ order p start ↔ p i = true := by
  rw [order, List.mem_filter, and_iff_right (mem_round start i)]

lemma order_pairwise (p : Fin n → Bool) (start : Fin n) :
    (order p start).Pairwise fun i j => between start i < between start j :=
  (round_pairwise start).filter p

lemma order_nodup (p : Fin n → Bool) (start : Fin n) : (order p start).Nodup :=
  (order_pairwise p start).imp fun h => fun heq => absurd h (by rw [heq]; exact lt_irrefl _)

lemma next_eq_head? (p : Fin n → Bool) (start : Fin n) : next p start = (order p start).head? :=
  List.head?_filter.symm

/-- From one of the places that will do, they come in the same order, turned. -/
lemma order_turn {start i : Fin n} {before after : List (Fin n)}
    (h : order p start = before ++ i :: after) : order p i = after ++ before ++ [i] := by
  have hdoes : p i = true := mem_order.mp (by rw [h]; simp)
  obtain ⟨places, others, hround, hbefore, hothers⟩ := List.filter_eq_append_iff.mp h
  obtain ⟨skipped, rest, rfl, hskipped, -, hafter⟩ := List.filter_eq_cons_iff.mp hothers
  have hlt : (places ++ skipped).length < (round start).length := by
    rw [hround]
    simp
  have hi : (round start)[(places ++ skipped).length] = i := by
    simp only [hround, ← List.append_assoc]
    simp
  have hturned := round_getElem start hlt
  rw [hi, hround, show places ++ (skipped ++ i :: rest)
    = (places ++ skipped ++ [i]) ++ rest by simp, show (places ++ skipped).length + 1
      = (places ++ skipped ++ [i]).length by
      simp only [List.length_append, List.length_singleton],
    List.rotate_append_length_eq] at hturned
  have hnone : skipped.filter p = [] := List.filter_eq_nil_iff.mpr hskipped
  rw [order, hturned]
  simp [hbefore, hafter, hnone, hdoes]

/-- From one of the places that will do the search finds the next of them, and from the last the
first. -/
lemma next_getElem (start : Fin n) {j : ℕ} (h : j < (order p start).length) :
    next p (order p start)[j] = (order p start)[(j + 1) % (order p start).length]? := by
  have hsplit : order p start
      = (order p start).take j ++ (order p start)[j] :: (order p start).drop (j + 1) := by
    rw [List.getElem_cons_drop, List.take_append_drop]
  have hturned := order_turn hsplit
  rw [next_eq_head?, hturned]
  by_cases hlast : j + 1 < (order p start).length
  · rw [Nat.mod_eq_of_lt hlast, List.drop_eq_getElem_cons hlast]
    simp [List.getElem?_eq_getElem hlast]
  · have hend : j + 1 = (order p start).length := by omega
    rw [hend, Nat.mod_self, List.drop_length]
    rw [List.nil_append, List.head?_append, List.head?_take, List.head?_eq_getElem?]
    cases j with
    | zero => simp [List.getElem?_eq_getElem h]
    | succ j => simp [List.getElem?_eq_getElem (show 0 < (order p start).length by omega)]

/-- Where the search is after any number of steps. -/
lemma visit_succ {start : Fin n} (hne : order p start ≠ []) (count : ℕ) :
    visit (next p) start (count + 1) = (order p start)[count % (order p start).length]? := by
  have hpos := List.length_pos_iff.mpr hne
  induction count with
  | zero =>
      rw [Nat.zero_mod, visit, visit, Option.bind_some, next_eq_head?, List.head?_eq_getElem?]
  | succ count ih =>
      have hlt := Nat.mod_lt count hpos
      rw [visit, ih, List.getElem?_eq_getElem hlt, Option.bind_some, next_getElem start hlt,
        Nat.mod_add_mod]

end Harlan.Cyclic
