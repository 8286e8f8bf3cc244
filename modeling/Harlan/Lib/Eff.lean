import Mathlib.Tactic

/-!
Computations that may fail over a state, where failing does not undo what was done to it, and
pre- and postconditions for them.

* `Eff`: a function of the state to a result or an error, and the state after.
* `Triple P x Q R`: from a state with `P`, `x` ends in `Q` of its result, or in `R` of its
  error.
* `Triple.bind`, `Triple.mapError`, `Triple.forEach`: how the conditions compose; the rule for a
  loop over a list carries an invariant of the elements already visited, and `Triple.forFirst` of
  how many of the indices below a bound have been.
* `Returns x s a`: from `s`, `x` answers `a` and changes nothing.
-/

/-- A computation over a state that may fail. -/
def Eff (σ ε α : Type) := σ → Except ε α × σ

namespace Eff

variable {σ ε ε' α β : Type}

/-- Stops with an error. -/
def fail (err : ε) : Eff σ ε α := fun s => (.error err, s)

/-- Reads the state. -/
def get : Eff σ ε σ := fun s => (.ok s, s)

/-- Changes the state and answers something about it. -/
def step (f : σ → α × σ) : Eff σ ε α := fun s => (.ok (f s).1, (f s).2)

/-- A computation of the state itself. -/
def run (f : σ → Except ε α × σ) : Eff σ ε α := f

/-- Renames the errors of a computation. -/
def mapError (f : ε → ε') (x : Eff σ ε α) : Eff σ ε' α := fun s =>
  match x s with
  | (.ok a, s') => (.ok a, s')
  | (.error err, s') => (.error (f err), s')

instance : Monad (Eff σ ε) where
  pure a := fun s => (.ok a, s)
  bind x f := fun s =>
    match x s with
    | (.ok a, s') => f a s'
    | (.error err, s') => (.error err, s')

/-- Runs a body over a list, from the front. -/
def forEach : List α → (α → Eff σ ε Unit) → Eff σ ε Unit
  | [], _ => pure ()
  | item :: rest, body => do
      body item
      forEach rest body

/-- Runs a body over the first `k` of `n` indices. -/
@[irreducible] def forFirst {n : ℕ} (k : ℕ) (body : Fin n → Eff σ ε Unit) : Eff σ ε Unit :=
  forEach ((List.finRange n).take k) body

@[simp] lemma pure_apply (a : α) (s : σ) : (pure a : Eff σ ε α) s = (.ok a, s) := rfl

lemma bind_apply (x : Eff σ ε α) (f : α → Eff σ ε β) (s : σ) :
    (x >>= f) s = match x s with
      | (.ok a, s') => f a s'
      | (.error err, s') => (.error err, s') := rfl

lemma bind_ok {x : Eff σ ε α} {f : α → Eff σ ε β} {s s' : σ} {a : α} (h : x s = (.ok a, s')) :
    (x >>= f) s = f a s' := by rw [bind_apply, h]

lemma get_bind (f : σ → Eff σ ε β) (s : σ) : ((get : Eff σ ε σ) >>= f) s = f s s := rfl

instance : LawfulMonad (Eff σ ε) := by
  refine LawfulMonad.mk' (Eff σ ε) (fun x => ?_) (fun _ _ => rfl) fun x f g => ?_
  · funext s
    change (x >>= fun a => pure a) s = x s
    rw [bind_apply]
    rcases x s with ⟨err | a, s'⟩ <;> rfl
  · funext s
    rw [bind_apply, bind_apply, bind_apply]
    rcases x s with ⟨err | a, s'⟩ <;> rfl

lemma fail_bind (err : ε) (f : α → Eff σ ε β) : (fail err >>= f) = fail err := rfl

lemma mapError_bind (f : ε → ε') (x : Eff σ ε α) (g : α → Eff σ ε β) :
    mapError f (x >>= g) = mapError f x >>= fun a => mapError f (g a) := by
  funext s
  rw [mapError, bind_apply, bind_apply, mapError]
  rcases x s with ⟨err | a, s'⟩ <;> rfl

lemma mapError_id (x : Eff σ ε α) : mapError id x = x := by
  funext s
  rw [mapError]
  rcases x s with ⟨err | a, s'⟩ <;> rfl

/-! ### Pre- and postconditions -/

/-- From a state with `P`, `x` ends in `Q` of its result or in `R` of its error. -/
def Triple (P : σ → Prop) (x : Eff σ ε α) (Q : α → σ → Prop) (R : ε → σ → Prop) : Prop :=
  ∀ s, P s → match x s with
    | (.ok a, s') => Q a s'
    | (.error err, s') => R err s'

variable {P P' : σ → Prop} {Q Q' : α → σ → Prop} {R R' : ε → σ → Prop}

lemma Triple.pure {a : α} (h : ∀ s, P s → Q a s) : Triple P (Pure.pure a) Q R := h

lemma Triple.fail {err : ε} (h : ∀ s, P s → R err s) : Triple P (fail err : Eff σ ε α) Q R := h

lemma Triple.get {Q : σ → σ → Prop} (h : ∀ s, P s → Q s s) : Triple P (get : Eff σ ε σ) Q R := h

lemma Triple.step {f : σ → α × σ} (h : ∀ s, P s → Q (f s).1 (f s).2) :
    Triple P (step f : Eff σ ε α) Q R := h

lemma Triple.conseq {x : Eff σ ε α} (h : Triple P' x Q' R') (hP : ∀ s, P s → P' s)
    (hQ : ∀ a s, Q' a s → Q a s) (hR : ∀ err s, R' err s → R err s) : Triple P x Q R := by
  intro s hs
  have hx := h s (hP s hs)
  rcases hxs : x s with ⟨err | a, s'⟩
  · rw [hxs] at hx
    exact hR err s' hx
  · rw [hxs] at hx
    exact hQ a s' hx

lemma Triple.bind {x : Eff σ ε α} {f : α → Eff σ ε β} {Q' : β → σ → Prop}
    (hx : Triple P x Q R) (hf : ∀ a, Triple (Q a) (f a) Q' R) : Triple P (x >>= f) Q' R := by
  intro s hs
  have hx' := hx s hs
  rw [bind_apply]
  rcases hxs : x s with ⟨err | a, s'⟩
  · rw [hxs] at hx'
    exact hx'
  · rw [hxs] at hx'
    exact hf a s' hx'

/-- The same, with the state in between known. -/
lemma Triple.bindState {x : Eff σ ε α} {f : α → Eff σ ε β} {Q' : β → σ → Prop}
    (hx : Triple P x Q R) (hf : ∀ a s, Q a s → Triple (· = s) (f a) Q' R) :
    Triple P (x >>= f) Q' R :=
  hx.bind fun a s hs => hf a s hs s rfl

/-- A triple may be proved from one state at a time. -/
lemma Triple.ofState {x : Eff σ ε α} (h : ∀ s, P s → Triple (· = s) x Q R) : Triple P x Q R :=
  fun s hs => h s hs s rfl

/-- A precondition that says nothing about the state is a hypothesis. -/
lemma Triple.fact {φ : Prop} {x : Eff σ ε α} (h : φ → Triple P x Q R) :
    Triple (fun s => φ ∧ P s) x Q R :=
  fun s hs => h hs.1 s hs.2

lemma Triple.mapError {f : ε → ε'} {x : Eff σ ε α} {R : ε' → σ → Prop}
    (h : Triple P x Q fun err => R (f err)) : Triple P (mapError f x) Q R := by
  intro s hs
  have hx := h s hs
  rw [Eff.mapError]
  rcases hxs : x s with ⟨err | a, s'⟩
  · rw [hxs] at hx
    exact hx
  · rw [hxs] at hx
    exact hx

/-- A loop over a list: `I done` holds once the elements of `done` have been visited. -/
lemma Triple.forEach {items : List α} {body : α → Eff σ ε Unit} {I : List α → σ → Prop}
    (hbody : ∀ done item rest, items = done ++ item :: rest →
      Triple (I done) (body item) (fun _ => I (done ++ [item])) R) :
    Triple (I []) (forEach items body) (fun _ => I items) R := by
  suffices h : ∀ rest done, items = done ++ rest →
      Triple (I done) (Eff.forEach rest body) (fun _ => I items) R from h items [] rfl
  intro rest
  induction rest with
  | nil =>
      intro done hdone
      rw [List.append_nil] at hdone
      subst hdone
      exact Triple.pure fun s hs => hs
  | cons item rest ih =>
      intro done hdone
      refine Triple.bind (hbody done item rest hdone) fun _ => ih (done ++ [item]) ?_
      rw [hdone, List.append_assoc, List.singleton_append]

/-- A loop over the first `k` of `n` indices: `I i` holds once those below `i` have been
visited. -/
lemma Triple.forFirst {n k : ℕ} {body : Fin n → Eff σ ε Unit} {I : ℕ → σ → Prop} (hk : k ≤ n)
    (hbody : ∀ i : Fin n, i.val < k → Triple (I i) (body i) (fun _ => I (i + 1)) R) :
    Triple (I 0) (Eff.forFirst k body) (fun _ => I k) R := by
  have hlength : ((List.finRange n).take k).length = k := by
    rw [List.length_take, List.length_finRange, Nat.min_eq_left hk]
  have hloop := @Triple.forEach σ ε (Fin n) R ((List.finRange n).take k) body
    (fun done => I done.length) ?_
  · rw [Eff.forFirst]
    rwa [hlength] at hloop
  · intro done i rest hsplit
    have hlt : done.length < k := by
      rw [← hlength, hsplit, List.length_append, List.length_cons]
      omega
    have hget : (List.finRange n)[done.length]? = some i := by
      rw [← List.getElem?_take_of_lt hlt, hsplit, List.getElem?_append_right (le_refl _),
        Nat.sub_self]
      rfl
    have hi : i.val = done.length := by
      rw [List.getElem?_eq_getElem (by rw [List.length_finRange]; omega),
        List.getElem_finRange] at hget
      rw [← Option.some.inj hget]
      rfl
    rw [List.length_append, List.length_singleton, ← hi]
    exact hbody i (by omega)

/-- What a computation answers and leaves, read off a triple. -/
lemma Triple.ok {x : Eff σ ε α} {s s' : σ} {a : α} (h : Triple P x Q R) (hs : P s)
    (hx : x s = (.ok a, s')) : Q a s' := by
  have := h s hs
  rwa [hx] at this

lemma Triple.error {x : Eff σ ε α} {s s' : σ} {err : ε} (h : Triple P x Q R) (hs : P s)
    (hx : x s = (.error err, s')) : R err s' := by
  have := h s hs
  rwa [hx] at this

/-! ### Computations that only look -/

/-- From a state, `x` answers `a` and leaves the state as it was. -/
def Returns (x : Eff σ ε α) (s : σ) (a : α) : Prop := x s = (.ok a, s)

variable {s : σ} {a : α} {b : β} {x : Eff σ ε α}

lemma Returns.pure : Returns (Pure.pure a : Eff σ ε α) s a := rfl

lemma Returns.bind {f : α → Eff σ ε β} (hx : Returns x s a) (hf : Returns (f a) s b) :
    Returns (x >>= f) s b := by
  rw [Returns, bind_apply, hx]
  exact hf

lemma Returns.mapError {f : ε → ε'} (hx : Returns x s a) : Returns (Eff.mapError f x) s a := by
  rw [Returns, Eff.mapError, hx]

/-- What only looks keeps every condition. -/
lemma Returns.triple (h : ∀ s, P s → ∃ a, Returns x s a ∧ Q a s) : Triple P x Q R := by
  intro s hs
  obtain ⟨a, hx, hQ⟩ := h s hs
  rw [hx]
  exact hQ

end Eff
