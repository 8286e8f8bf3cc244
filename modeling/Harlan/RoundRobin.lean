import Mathlib.Tactic
import Harlan.Lib.Cyclic
import Harlan.Scheduler

/-! Turns go round (`kernel/src/scheduler.rs`): what `next_runnable` does when it is asked over
and over, each time from the slot it answered with.

* `turn`: the slot whose turn it is after so many of them.
* `nextRunnable_fair`: everyone that can run has a turn before anyone has a second one.
-/

namespace Harlan.Turns

variable {n : ℕ} [NeZero n]

/-- Whether there is someone in a slot, and they can be handed the CPU. -/
def canRunAt (states : Fin n → Option State) (i : Fin n) : Bool := (states i).any State.canRun

/-- The slot whose turn it is after so many of them, whoever `start` is. -/
def turn (states : Fin n → Option State) (start : Fin n) : ℕ → Option (Fin n) :=
  Cyclic.visit (nextRunnable states) start

/-- The policy is a search of the ring of slots. -/
lemma nextRunnable_eq (states : Fin n → Option State) :
    nextRunnable states = Cyclic.next (canRunAt states) :=
  rfl

lemma nextRunnable_none_iff {states : Fin n → Option State} {start : Fin n} :
    nextRunnable states start = none ↔ ∀ i, canRunAt states i = false := by
  rw [nextRunnable_eq, Cyclic.next_eq_head?, List.head?_eq_none_iff,
    List.eq_nil_iff_forall_not_mem]
  refine forall_congr' fun i => ?_
  rw [Cyclic.mem_order, Bool.not_eq_true]

/-- Whoever has a turn can run. -/
lemma canRunAt_of_turn {states : Fin n → Option State} {start i : Fin n} {count : ℕ}
    (h : turn states start (count + 1) = some i) : canRunAt states i = true := by
  rw [turn, Cyclic.visit] at h
  obtain ⟨last, -, hnext⟩ := Option.bind_eq_some_iff.mp h
  exact List.find?_some hnext

/-- **Round robin is fair**: in a table where `k` slots can run, the first `k` turns after any
slot are those of each of them, once and in the order they come after it, and the next turn is
again that of the first; nobody else ever has a turn, and there is no turn to have only when
nobody can run. -/
theorem nextRunnable_fair (states : Fin n → Option State) (start : Fin n) :
    (∃ order : List (Fin n),
      order.length = (Finset.univ.filter fun i => canRunAt states i = true).card
        ∧ (∀ i, i ∈ order ↔ canRunAt states i = true)
        ∧ order.Nodup
        ∧ order.Pairwise (fun i j => Cyclic.between start i < Cyclic.between start j)
        ∧ (∀ count < order.length, turn states start (count + 1) = order[count]?)
        ∧ (0 < order.length → turn states start (order.length + 1) = order[0]?))
      ∧ (∀ count i, turn states start (count + 1) = some i → canRunAt states i = true)
      ∧ ∀ i, nextRunnable states i = none ↔ ∀ j, canRunAt states j = false := by
  refine ⟨⟨Cyclic.order (canRunAt states) start, ?_, fun i => Cyclic.mem_order,
    Cyclic.order_nodup _ _, Cyclic.order_pairwise _ _, fun count hcount => ?_, fun hpos => ?_⟩,
    fun count i => canRunAt_of_turn, fun i => nextRunnable_none_iff⟩
  · rw [← List.toFinset_card_of_nodup (Cyclic.order_nodup _ _)]
    refine congrArg Finset.card (Finset.ext fun i => ?_)
    rw [List.mem_toFinset, Cyclic.mem_order, Finset.mem_filter, and_iff_right (Finset.mem_univ i)]
  · have hne := List.ne_nil_of_length_pos (Nat.zero_lt_of_lt hcount)
    rw [turn, nextRunnable_eq, Cyclic.visit_succ hne, Nat.mod_eq_of_lt hcount]
  · rw [turn, nextRunnable_eq, Cyclic.visit_succ (List.ne_nil_of_length_pos hpos), Nat.mod_self]

/-- From a slot that is waiting, with two of five that can run. -/
theorem nextRunnable_fair_parked :
    turn ![some .runnable, none, some .blocked, some .new, some .dead] (2 : Fin 5) 1 = some 3
      ∧ ∃ order : List (Fin 5), order.length = 2
          ∧ turn ![some .runnable, none, some .blocked, some .new, some .dead] (2 : Fin 5) 3
            = order[0]? := by
  obtain ⟨⟨order, hlength, -, -, -, -, hround⟩, -, -⟩ :=
    nextRunnable_fair ![some .runnable, none, some .blocked, some .new, some .dead] (2 : Fin 5)
  have htwo : order.length = 2 := hlength.trans (by decide)
  refine ⟨by decide, order, htwo, ?_⟩
  rw [htwo] at hround
  exact hround (by decide)

end Harlan.Turns
