import Mathlib.Tactic

/-!
The lock that keeps interrupts off (`kernel/src/sync.rs`), over one CPU.

A guard remembers whether interrupts were on when it was taken, and turns them back on when it is
dropped if they were. What the lock protects plays no part in that and is left out. Taking a lock
that is held panics, and a run ends there.

* `Cpu.lock`, `Cpu.drop`: taking a lock and dropping its guard.
* `OutermostLast`: the guard taken first is dropped when no other is alive.
* `irqLock_keepsOff_iff`: interrupts stay off while a guard is alive, and are as before once none
  is, exactly along the runs that drop the outermost guard last. -/

namespace Harlan.Sync

/-- A guard that is alive: the lock it is of, and whether interrupts were on before. -/
structure IrqLockGuard (ι : Type) where
  lock : ι
  wereEnabled : Bool
deriving DecidableEq

/-- The interrupt flag, which locks say they are held, and the guards that are alive in the order
they were taken. -/
structure Cpu (ι : Type) where
  enabled : Bool
  locked : List ι
  guards : List (IrqLockGuard ι)
deriving DecidableEq

variable {ι : Type} [DecidableEq ι]

namespace Cpu

/-- Turns interrupts off and answers whether they were on. -/
def disable (cpu : Cpu ι) : Bool × Cpu ι := (cpu.enabled, { cpu with enabled := false })

/-- Lets interrupts in. -/
def enable (cpu : Cpu ι) : Cpu ι := { cpu with enabled := true }

/-- Turns interrupts on where they were on before. -/
def restore (cpu : Cpu ι) (wereEnabled : Bool) : Cpu ι := if wereEnabled then cpu.enable else cpu

omit [DecidableEq ι] in
@[simp] lemma restore_locked (cpu : Cpu ι) (were : Bool) :
    (cpu.restore were).locked = cpu.locked := by
  cases were <;> rfl

omit [DecidableEq ι] in
@[simp] lemma restore_guards (cpu : Cpu ι) (were : Bool) :
    (cpu.restore were).guards = cpu.guards := by
  cases were <;> rfl

omit [DecidableEq ι] in
@[simp] lemma restore_enabled (cpu : Cpu ι) (were : Bool) :
    (cpu.restore were).enabled = (were || cpu.enabled) := by
  cases were <;> rfl

/-- Takes a lock; the error is the panic over one that is held. -/
def lock (cpu : Cpu ι) (lock : ι) : Except (Cpu ι) (Cpu ι) :=
  let (wereEnabled, off) := cpu.disable
  if lock ∈ off.locked then .error (off.restore wereEnabled)
  else
    .ok { off with locked := lock :: off.locked, guards := off.guards ++ [⟨lock, wereEnabled⟩] }

/-- Drops the guard of a lock; where there is none, there is nothing to drop. -/
def drop (cpu : Cpu ι) (lock : ι) : Cpu ι :=
  match cpu.guards.find? (·.lock = lock) with
  | none => cpu
  | some guard =>
      let released := { cpu with
        locked := cpu.locked.filter (· ≠ lock)
        guards := cpu.guards.filter (·.lock ≠ lock) }
      released.restore guard.wereEnabled

end Cpu

/-! ### Runs -/

/-- What the kernel does with its locks. -/
inductive Op (ι : Type) where
  | take (lock : ι)
  | drop (lock : ι)
deriving DecidableEq

/-- A lock taken or dropped. The error is the panic over a lock that is held. -/
def Cpu.step (cpu : Cpu ι) : Op ι → Except (Cpu ι) (Cpu ι)
  | .take lock => cpu.lock lock
  | .drop lock => .ok (cpu.drop lock)

/-- The state some operations end in, or panic in. -/
def Cpu.after (cpu : Cpu ι) : List (Op ι) → Cpu ι
  | [] => cpu
  | op :: rest =>
      match cpu.step op with
      | .error panicked => panicked
      | .ok next => next.after rest

/-- No lock taken yet. -/
def Cpu.start (enabled : Bool) : Cpu ι := ⟨enabled, [], []⟩

/-- Interrupts are off while a guard is alive, and as they were while none is. -/
def Cpu.Off (enabled : Bool) (cpu : Cpu ι) : Prop :=
  cpu.enabled = if cpu.guards = [] then enabled else false

instance (enabled : Bool) (cpu : Cpu ι) : Decidable (cpu.Off enabled) :=
  inferInstanceAs (Decidable (_ = _))

/-- So it is at every point of a run. -/
def KeepsOff (enabled : Bool) (ops : List (Op ι)) : Prop :=
  ∀ before, before <+: ops → ((Cpu.start enabled).after before).Off enabled

/-- The guard of the lock that has been held longest is dropped when no other is alive. -/
def OutermostLast : List ι → List (Op ι) → Prop
  | _, [] => True
  | held, .take lock :: rest => lock ∉ held → OutermostLast (held ++ [lock]) rest
  | held, .drop lock :: rest =>
      (held.head? = some lock → held = [lock]) ∧ OutermostLast (held.filter (· ≠ lock)) rest

/-! ### What the guards remember -/

/-- The guards of some locks taken one inside the other: the outermost remembers how interrupts
were, the others that they were off. -/
def guardsOf (enabled : Bool) : List ι → List (IrqLockGuard ι)
  | [] => []
  | outermost :: inner => ⟨outermost, enabled⟩ :: inner.map (⟨·, false⟩)

/-- The state with some locks held, before any guard was dropped out of turn. -/
structure Nested (enabled : Bool) (held : List ι) (cpu : Cpu ι) : Prop where
  nodup : held.Nodup
  locked : ∀ lock, lock ∈ cpu.locked ↔ lock ∈ held
  guards : cpu.guards = guardsOf enabled held
  off : cpu.enabled = if held = [] then enabled else false

section Guards

variable {enabled : Bool} {held : List ι} {lock : ι}

omit [DecidableEq ι] in
lemma guardsOf_eq_nil : guardsOf enabled held = [] ↔ held = [] := by
  cases held <;> simp [guardsOf]

omit [DecidableEq ι] in
lemma guardsOf_false : guardsOf false held = held.map (⟨·, false⟩) := by
  cases held <;> rfl

omit [DecidableEq ι] in
lemma guardsOf_append (lock : ι) :
    guardsOf enabled (held ++ [lock])
      = guardsOf enabled held ++ [⟨lock, if held = [] then enabled else false⟩] := by
  cases held with
  | nil => rfl
  | cons outermost inner => simp [guardsOf]

omit [DecidableEq ι] in
lemma lock_mem_of_guardsOf {guard : IrqLockGuard ι} (h : guard ∈ guardsOf enabled held) :
    guard.lock ∈ held := by
  cases held with
  | nil => cases h
  | cons outermost inner =>
      rcases List.mem_cons.mp h with rfl | hmem
      · exact List.mem_cons_self
      · obtain ⟨lock, hlock, rfl⟩ := List.mem_map.mp hmem
        exact List.mem_cons_of_mem _ hlock

/-- The guard of a lock other than the outermost remembers that interrupts were off. -/
lemma find_guardsOf (hmem : lock ∈ held) :
    (guardsOf enabled held).find? (·.lock = lock)
      = some ⟨lock, if held.head? = some lock then enabled else false⟩ := by
  cases held with
  | nil => cases hmem
  | cons outermost inner =>
      rw [guardsOf, List.find?_cons, List.head?_cons]
      by_cases hout : outermost = lock
      · simp [hout]
      · have hinner : lock ∈ inner := (List.mem_cons.mp hmem).resolve_left (Ne.symm hout)
        have hsame : (fun l : ι => decide (l = lock)) = (· == lock) := rfl
        simp only [hout, decide_false, List.find?_map, Function.comp_def,
          Option.some.injEq, if_false]
        rw [List.find?_eq_some_iff_append.mpr]
        · rfl
        · obtain ⟨before, after, rfl, hbefore⟩ := List.eq_append_cons_of_mem hinner
          refine ⟨by simp, before, after, rfl, fun other hother => ?_⟩
          simpa using fun heq : other = lock => hbefore (heq ▸ hother)

/-- Dropping a guard other than the outermost, or the only one, leaves the others as they should
be. -/
lemma filter_guardsOf (hturn : held.head? = some lock → held = [lock]) :
    (guardsOf enabled held).filter (·.lock ≠ lock) = guardsOf enabled
    (held.filter (· ≠ lock)) := by
  cases held with
  | nil => rfl
  | cons outermost inner =>
      by_cases hout : outermost = lock
      · obtain ⟨rfl, rfl⟩ : outermost = lock ∧ inner = [] := by
          simpa [hout] using hturn (by simp [hout])
        simp [guardsOf]
      · simp [guardsOf, hout, List.filter_map, Function.comp_def]

lemma filter_guardsOf_false :
    (guardsOf false held).filter (·.lock ≠ lock) = guardsOf false (held.filter (· ≠ lock)) := by
  rw [guardsOf_false, guardsOf_false, List.filter_map]
  rfl

end Guards

/-! ### One step -/

section Step

variable {enabled : Bool} {held : List ι} {cpu : Cpu ι}

omit [DecidableEq ι] in
lemma Nested.isOff (h : Nested enabled held cpu) : cpu.Off enabled := by
  rw [Cpu.Off, h.off, h.guards]
  simp only [guardsOf_eq_nil]

lemma Nested.lock (h : Nested enabled held cpu) {lock : ι} (hnew : lock ∉ held) :
    ∃ cpu', cpu.lock lock = .ok cpu' ∧ Nested enabled (held ++ [lock]) cpu' := by
  have hfree : lock ∉ cpu.locked := fun hmem => hnew ((h.locked lock).mp hmem)
  refine ⟨_, if_neg hfree, ?_, fun other => ?_, ?_, ?_⟩
  · exact List.nodup_append.mpr ⟨h.nodup, List.nodup_singleton _, fun a ha b hb heq =>
      hnew (List.mem_singleton.mp hb ▸ heq ▸ ha)⟩
  · simp [h.locked, or_comm]
  · rw [guardsOf_append, ← h.off]
    simp [h.guards]
  · simp

/-- The panic over a lock that is held leaves interrupts off. -/
lemma Nested.lock_held (h : Nested enabled held cpu) {lock : ι} (hmem : lock ∈ held) :
    cpu.lock lock = .error cpu := by
  have hoff : cpu.enabled = false := by
    rw [h.off, if_neg (List.ne_nil_of_mem hmem)]
  have hsame : { cpu with enabled := false } = cpu := by rw [← hoff]
  rw [Cpu.lock, Cpu.disable, hsame]
  dsimp only
  rw [if_pos ((h.locked lock).mpr hmem), hoff]
  rfl

lemma Nested.drop_absent (h : Nested enabled held cpu) {lock : ι} (hout : lock ∉ held) :
    cpu.drop lock = cpu := by
  have hnone : cpu.guards.find? (·.lock = lock) = none := by
    rw [h.guards, List.find?_eq_none]
    intro guard hguard heq
    exact hout (of_decide_eq_true heq ▸ lock_mem_of_guardsOf hguard)
  rw [Cpu.drop, hnone]

/-- A guard dropped in turn. -/
lemma Nested.drop (h : Nested enabled held cpu) {lock : ι}
    (hturn : enabled = false ∨ (held.head? = some lock → held = [lock])) :
    Nested enabled (held.filter (· ≠ lock)) (cpu.drop lock) := by
  by_cases hmem : lock ∈ held
  · have hguards : (guardsOf enabled held).filter (·.lock ≠ lock)
        = guardsOf enabled (held.filter (· ≠ lock)) := by
      rcases hturn with rfl | hturn
      · exact filter_guardsOf_false
      · exact filter_guardsOf hturn
    have hoff : cpu.enabled = false := by
      rw [h.off, if_neg (List.ne_nil_of_mem hmem)]
    rw [Cpu.drop, h.guards, find_guardsOf hmem]
    refine ⟨h.nodup.filter _, fun other => ?_, ?_, ?_⟩
    · simp [h.locked]
    · simpa using hguards
    · simp only [Cpu.restore_enabled, hoff, Bool.or_false]
      by_cases hhead : held.head? = some lock
      · -- the outermost guard: it is the only one, or interrupts were off before it
        rw [if_pos hhead]
        split
        · rfl
        · rename_i hothers
          refine hturn.resolve_right fun hturn => hothers ?_
          simp [hturn hhead]
      · rw [if_neg hhead, if_neg]
        obtain ⟨first, rest, rfl⟩ := List.exists_cons_of_ne_nil (List.ne_nil_of_mem hmem)
        have hfirst : first ≠ lock := fun heq => hhead (by rw [heq]; rfl)
        simp [hfirst]
  · have hfilter : held.filter (· ≠ lock) = held := by
      refine List.filter_eq_self.mpr fun other hother => ?_
      exact decide_eq_true fun heq => hmem (heq ▸ hother)
    rw [h.drop_absent hmem, hfilter]
    exact h

/-- The outermost guard dropped while another is alive turns interrupts on. -/
lemma Nested.drop_early (h : Nested true held cpu) {lock : ι} (hhead : held.head? = some lock)
    (hothers : held ≠ [lock]) : ¬(cpu.drop lock).Off true := by
  have hmem : lock ∈ held := List.mem_of_mem_head? hhead
  obtain ⟨inner, rfl⟩ : ∃ inner, held = lock :: inner := by
    cases held with
    | nil => cases hhead
    | cons first inner => exact ⟨inner, by rw [Option.some.inj hhead]⟩
  obtain ⟨other, rest, rfl⟩ :=
    List.exists_cons_of_ne_nil (fun hnone : inner = [] => hothers (by rw [hnone]))
  have hne : other ≠ lock := fun heq => (List.nodup_cons.mp h.nodup).1 (heq ▸ List.mem_cons_self)
  rw [Cpu.drop, h.guards, find_guardsOf hmem]
  simp [Cpu.Off, Cpu.restore, Cpu.enable, guardsOf, hne]

end Step

/-! ### Whole runs -/

section Run

variable {enabled : Bool} {held : List ι} {cpu : Cpu ι}

lemma Nested.all_prefixes (h : Nested enabled held cpu) (op : Op ι) (rest : List (Op ι)) :
    (∀ before, before <+: op :: rest → (cpu.after before).Off enabled)
      ↔ ∀ before, before <+: rest → (cpu.after (op :: before)).Off enabled := by
  constructor
  · exact fun hall before hbefore => hall _ ((List.prefix_cons_inj op).mpr hbefore)
  · intro hall before hbefore
    rcases List.prefix_cons_iff.mp hbefore with rfl | ⟨tail, rfl, htail⟩
    · exact h.isOff
    · exact hall tail htail

/-- From a state with some locks held, interrupts stay off along a run exactly if they were off
before, or the outermost guard is dropped last. -/
lemma Nested.run_iff (h : Nested enabled held cpu) (ops : List (Op ι)) :
    (∀ before, before <+: ops → (cpu.after before).Off enabled)
      ↔ enabled = false ∨ OutermostLast held ops := by
  induction ops generalizing held cpu with
  | nil =>
      refine ⟨fun _ => .inr trivial, fun _ before hbefore => ?_⟩
      rw [List.prefix_nil.mp hbefore]
      exact h.isOff
  | cons op rest ih =>
      rw [h.all_prefixes]
      cases op with
      | take lock =>
          by_cases hmem : lock ∈ held
          · refine ⟨fun _ => .inr fun hnew => absurd hmem hnew, fun _ before _ => ?_⟩
            rw [Cpu.after, Cpu.step, h.lock_held hmem]
            exact h.isOff
          · obtain ⟨cpu', hlock, h'⟩ := h.lock hmem
            simp only [Cpu.after, Cpu.step, hlock, OutermostLast, hmem, not_false_eq_true,
              forall_const]
            exact ih h'
      | drop lock =>
          simp only [Cpu.after, Cpu.step, OutermostLast]
          by_cases hturn : enabled = false ∨ (held.head? = some lock → held = [lock])
          · rw [ih (h.drop hturn), or_and_left]
            exact ⟨fun hrest => ⟨hturn, hrest⟩, And.right⟩
          · -- the state right after the guard was dropped is not one with interrupts off
            rw [not_or, Bool.not_eq_false, Classical.not_imp] at hturn
            obtain ⟨rfl, hhead, hothers⟩ := hturn
            refine ⟨fun hall => absurd (hall [] List.nil_prefix) (h.drop_early hhead hothers), ?_⟩
            rintro (hoff | ⟨hlast, -⟩)
            · cases hoff
            · exact absurd (hlast hhead) hothers

/-- **Interrupts stay off while a guard is alive, and are as before once none is**, at every point
of a run over any locks, if and only if they were off before it or it drops the outermost guard
last. -/
theorem irqLock_keepsOff_iff (enabled : Bool) (ops : List (Op ι)) :
    KeepsOff enabled ops ↔ enabled = false ∨ OutermostLast [] ops := by
  have hstart : Nested enabled [] (Cpu.start enabled : Cpu ι) :=
    ⟨List.nodup_nil, fun lock => Iff.rfl, rfl, rfl⟩
  exact hstart.run_iff ops

/-- Two locks, the first dropped first: interrupts are on with the guard of the second alive. -/
theorem irqLock_on_while_held :
    ¬KeepsOff true [.take 0, .take 1, .drop 0]
      ∧ (Cpu.start true).after [.take 0, .take 1, .drop 0] = ⟨true, [1], [⟨1, false⟩]⟩ := by
  refine ⟨fun h => ?_, by decide⟩
  have hoff := h [.take 0, .take 1, .drop 0] (List.prefix_refl _)
  exact absurd hoff (by decide)

end Run

end Harlan.Sync
