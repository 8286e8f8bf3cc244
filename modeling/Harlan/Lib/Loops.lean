import Mathlib.Tactic
import Harlan.Lib.Eff

/-! Loops with no bound of their own: a turn goes round again or leaves, and nothing says in
advance that some turn will leave.

* `Leaves turn n s b`: from `s` the loop leaves in its `n`-th turn, with `b`.
* `Leaves.value_eq`: with one value only.
* `leaves_of_rank`: a rank that every turn lowers makes it leave; what it leaves with is what
  stays the same from turn to turn.
* `inEff`, `inEff_leaves`: the same for a loop whose body is a computation that may fail.
* `inEff_triple`: the rule for its conditions, with a rank that goes down while the body says
  again. -/

namespace Harlan.Loops

/-- What one turn of a loop comes to. -/
inductive Turn (σ β : Type*) where
  | again (s : σ)
  | leave (b : β)
deriving DecidableEq

/-- What holds where a turn goes round again, and where it leaves. -/
def Turn.Post {σ β : Type*} (again : σ → Prop) (leave : β → Prop) : Turn σ β → Prop
  | .again s => again s
  | .leave b => leave b

/-- From `s` the loop leaves in its `n`-th turn, with `b`. -/
inductive Leaves {σ β : Type*} (turn : σ → Turn σ β) : ℕ → σ → β → Prop
  | now {s : σ} {b : β} (h : turn s = .leave b) : Leaves turn 1 s b
  | later {n : ℕ} {s s' : σ} {b : β} (h : turn s = .again s') (hrest : Leaves turn n s' b) :
      Leaves turn (n + 1) s b

variable {σ β : Type*} {turn : σ → Turn σ β}

/-- A loop has one way out from a state at most. -/
lemma Leaves.value_eq {n n' : ℕ} {s : σ} {b b' : β} (h : Leaves turn n s b)
    (h' : Leaves turn n' s b') :
    b = b' := by
  induction h generalizing n' with
  | now hturn =>
      cases h' with
      | now hturn' => exact Turn.leave.inj (hturn.symm.trans hturn')
      | later hturn' => exact absurd (hturn.symm.trans hturn') (by simp)
  | later hturn _ ih =>
      cases h' with
      | now hturn' => exact absurd (hturn.symm.trans hturn') (by simp)
      | later hturn' hrest' =>
          obtain rfl := Turn.again.inj (hturn.symm.trans hturn')
          exact ih hrest'

/-- A loop every turn of which lowers a rank leaves, and with the value that no turn changes. -/
lemma leaves_of_rank (I : σ → Prop) (rank : σ → ℕ) (value : σ → β)
    (hturn : ∀ s, I s → match turn s with
      | .leave b => value s = b
      | .again s' => I s' ∧ rank s' < rank s ∧ value s' = value s) :
    ∀ s, I s → ∃ n ≤ rank s + 1, Leaves turn n s (value s) := by
  suffices h : ∀ k s, rank s < k → I s → ∃ n ≤ rank s + 1, Leaves turn n s (value s) from
    fun s hs => h _ s (Nat.lt_succ_self _) hs
  intro k
  induction k with
  | zero => intro s hlt; omega
  | succ k ih =>
      intro s hlt hs
      have hone := hturn s hs
      rcases hcase : turn s with s' | b
      · rw [hcase] at hone
        obtain ⟨hs', hrank, hvalue⟩ := hone
        obtain ⟨n, hn, hleaves⟩ := ih s' (by omega) hs'
        exact ⟨n + 1, by omega, .later hcase (hvalue ▸ hleaves)⟩
      · rw [hcase] at hone
        exact ⟨1, by omega, .now (hone ▸ hcase)⟩

/-! ### Loops that may fail -/

section InEff

variable {σ δ ε α : Type}

/-- The loop whose body is a computation over `δ`: it leaves where the body says so or fails. -/
def inEff (body : σ → Eff δ ε (Turn σ α)) : σ × δ → Turn (σ × δ) (Except ε α × δ) := fun (s, d) =>
  match body s d with
  | (.ok (.again s'), d') => .again (s', d')
  | (.ok (.leave a), d') => .leave (.ok a, d')
  | (.error err, d') => .leave (.error err, d')

/-- What the loop does from a state is one turn of it, and then what it does from the next. -/
def Unrolls (body : σ → Eff δ ε (Turn σ α)) (f : σ → Eff δ ε α) (s : σ) : Prop :=
  f s = body s >>= fun
    | .again s' => f s'
    | .leave a => pure a

/-- A function that unrolls to the body of a loop is the loop, where every turn lowers a rank. -/
lemma inEff_leaves {body : σ → Eff δ ε (Turn σ α)} {f : σ → Eff δ ε α} (rank : σ → ℕ)
    (hunrolls : ∀ s, Unrolls body f s)
    (hrank : ∀ s d s' d', body s d = (.ok (.again s'), d') → rank s' < rank s) (s : σ) (d : δ) :
    ∃ n ≤ rank s + 1, Leaves (inEff body) n (s, d) (f s d) := by
  refine leaves_of_rank (fun _ => True) (fun at' => rank at'.1) (fun at' => f at'.1 at'.2) ?_
    (s, d) trivial
  rintro ⟨s, d⟩ -
  have hf : f s d = (body s >>= fun
      | .again s' => f s'
      | .leave a => pure a) d := by
    rw [← hunrolls s]
  rw [Eff.bind_apply] at hf
  rcases hbody : body s d with ⟨err | s' | a, d'⟩
  · rw [hbody] at hf
    simpa only [inEff, hbody] using hf
  · rw [hbody] at hf
    simp only [inEff, hbody]
    exact ⟨trivial, hrank s d s' d' hbody, hf.symm⟩
  · rw [hbody] at hf
    simpa only [inEff, hbody, Eff.pure_apply] using hf

/-- A loop whose body keeps a condition and lowers its rank leaves in the condition the body
leaves in. -/
lemma inEff_triple {body : σ → Eff δ ε (Turn σ α)} {I : ℕ → σ → δ → Prop} {Q : α → δ → Prop}
    (hbody : ∀ k s, Eff.Triple (I k s) (body s)
      (fun turn d => turn.Post (fun s' => ∃ k' < k, I k' s' d) (Q · d)) fun _ _ => False) :
    ∀ {k s d}, I k s d → ∃ n a d', Leaves (inEff body) n (s, d) (.ok a, d') ∧ Q a d' := by
  intro k
  induction k using Nat.strong_induction_on with
  | _ k ih =>
      intro s d h
      have hone := hbody k s d h
      rcases hcase : body s d with ⟨err | s' | a, d'⟩
      · rw [hcase] at hone
        exact hone.elim
      · rw [hcase] at hone
        obtain ⟨k', hlt, hkept⟩ := hone
        obtain ⟨n, a, done, hleaves, hdone⟩ := ih k' hlt hkept
        exact ⟨n + 1, a, done, .later (by simp only [inEff, hcase]) hleaves, hdone⟩
      · rw [hcase] at hone
        exact ⟨1, a, d', .now (by simp only [inEff, hcase]), hone⟩

end InEff

end Harlan.Loops
