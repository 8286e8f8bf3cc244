import Mathlib.Tactic
import Mathlib.Data.List.Sort

/-!
Maps as lists of keys and values, in the order of the keys.

What is looked up does not depend on the order; what is gone through does.

* `insert`: a key with a new value, in its place.
* `Keyed`: no key is there twice; `keyed_insert` keeps it, `mem_insert` says what is there then.
* `lookup_eq_some`: looking up finds what is there.
-/

namespace SortedMap

variable {κ ν : Type*} [DecidableEq κ] [LE κ] [DecidableLE κ]

/-- Gives a key a value, whether or not it had one. -/
def insert (key : κ) (value : ν) (map : List (κ × ν)) : List (κ × ν) :=
  if key ∈ map.map Prod.fst then map.map fun item => if item.1 = key then (key, value) else item
  else map.orderedInsert (fun a b => a.1 ≤ b.1) (key, value)

/-- No key is there twice. -/
def Keyed (map : List (κ × ν)) : Prop := (map.map Prod.fst).Nodup

variable {key k : κ} {value v : ν} {map : List (κ × ν)}

lemma keys_insert : ((insert key value map).map Prod.fst).Perm
    (if key ∈ map.map Prod.fst then map.map Prod.fst else key :: map.map Prod.fst) := by
  rw [insert]
  split
  · refine List.Perm.of_eq ?_
    rw [List.map_map]
    refine List.map_congr_left fun item _ => ?_
    rw [Function.comp_apply]
    split
    · rename_i hkey
      exact hkey.symm
    · rfl
  · exact (List.perm_orderedInsert _ _ _).map Prod.fst

lemma keyed_insert (h : Keyed map) : Keyed (insert key value map) := by
  rw [Keyed, keys_insert.nodup_iff]
  split
  · exact h
  · rename_i hnew
    exact List.nodup_cons.mpr ⟨hnew, h⟩

lemma mem_keys_insert : k ∈ (insert key value map).map Prod.fst
      ↔ k = key ∨ k ∈ map.map Prod.fst := by
  rw [keys_insert.mem_iff]
  split
  · rename_i hold
    refine ⟨.inr, ?_⟩
    rintro (rfl | h)
    · exact hold
    · exact h
  · exact List.mem_cons

/-- What is there after an insertion. -/
lemma mem_insert : (k, v) ∈ insert key value map ↔ (k = key ∧ v = value)
      ∨ (k ≠ key ∧ (k, v) ∈ map) := by
  rw [insert]
  split
  · rename_i hold
    simp only [List.mem_map, Prod.exists]
    constructor
    · rintro ⟨k', v', hmem, heq⟩
      split at heq
      · obtain ⟨rfl, rfl⟩ := Prod.mk.inj heq
        exact .inl ⟨rfl, rfl⟩
      · rename_i hne
        obtain ⟨rfl, rfl⟩ := Prod.mk.inj heq
        exact .inr ⟨hne, hmem⟩
    · rintro (⟨rfl, rfl⟩ | ⟨hne, hmem⟩)
      · obtain ⟨⟨k', v'⟩, hmem, rfl⟩ := List.mem_map.mp hold
        exact ⟨k', v', hmem, if_pos rfl⟩
      · exact ⟨k, v, hmem, if_neg hne⟩
  · rename_i hnew
    rw [List.mem_orderedInsert, Prod.mk.injEq]
    refine or_congr_right ⟨fun hmem => ⟨?_, hmem⟩, And.right⟩
    rintro rfl
    exact hnew (List.mem_map_of_mem hmem)

omit [DecidableEq κ] [LE κ] [DecidableLE κ] in
lemma lookup_eq_some [BEq κ] [LawfulBEq κ] (h : Keyed map) (hmem : (k, v) ∈ map) :
    map.lookup k = some v := by
  induction map with
  | nil => cases hmem
  | cons item rest ih =>
      obtain ⟨k', v'⟩ := item
      rw [List.lookup_cons]
      rcases List.mem_cons.mp hmem with heq | hrest
      · obtain ⟨rfl, rfl⟩ := Prod.mk.inj heq
        simp
      · have hnodup := List.nodup_cons.mp h
        have hne : k ≠ k' := by
          rintro rfl
          exact hnodup.1 (List.mem_map.mpr ⟨(k, v), hrest, rfl⟩)
        rw [beq_eq_false_iff_ne.mpr hne]
        exact ih hnodup.2 hrest

omit [DecidableEq κ] [LE κ] [DecidableLE κ] in
lemma mem_of_lookup [BEq κ] [LawfulBEq κ] (h : map.lookup k = some v) : (k, v) ∈ map := by
  induction map with
  | nil => cases h
  | cons item rest ih =>
      obtain ⟨k', v'⟩ := item
      rw [List.lookup_cons] at h
      split at h
      · rename_i hkey
        obtain rfl := eq_of_beq hkey
        obtain rfl := Option.some.inj h
        exact List.mem_cons_self
      · exact List.mem_cons_of_mem _ (ih h)

omit [DecidableEq κ] [LE κ] [DecidableLE κ] in
lemma exists_of_mem_keys (h : k ∈ map.map Prod.fst) : ∃ v, (k, v) ∈ map := by
  obtain ⟨⟨k', v⟩, hmem, rfl⟩ := List.mem_map.mp h
  exact ⟨v, hmem⟩

/-- Entering several pairs keeps one value for each key, -/
lemma keyed_foldl_insert (pairs : List (κ × ν)) (h : Keyed map) :
    Keyed (pairs.foldl (fun map pair => insert pair.1 pair.2 map) map) := by
  induction pairs generalizing map with
  | nil => exact h
  | cons pair rest ih => exact ih (keyed_insert h)

/-- and every pair is there where no two have one key. -/
lemma mem_foldl_insert {pairs : List (κ × ν)} (hkeys : Keyed pairs) (hmem : (k, v) ∈ pairs) :
    (k, v) ∈ pairs.foldl (fun map pair => insert pair.1 pair.2 map) map := by
  have hkeep : ∀ (rest : List (κ × ν)) (map : List (κ × ν)), k ∉ rest.map Prod.fst →
      (k, v) ∈ map →
      (k, v) ∈ rest.foldl (fun map pair => insert pair.1 pair.2 map) map := by
    intro rest
    induction rest with
    | nil => exact fun _ _ hin => hin
    | cons pair rest ih =>
        intro map hnew hin
        rw [List.map_cons, List.mem_cons, not_or] at hnew
        exact ih _ hnew.2 (mem_insert.mpr (.inr ⟨hnew.1, hin⟩))
  induction pairs generalizing map with
  | nil => cases hmem
  | cons pair rest ih =>
      rw [Keyed, List.map_cons, List.nodup_cons] at hkeys
      rcases List.mem_cons.mp hmem with rfl | hmem
      · exact hkeep rest _ hkeys.1 (mem_insert.mpr (.inl ⟨rfl, rfl⟩))
      · exact ih hkeys.2 hmem

end SortedMap
