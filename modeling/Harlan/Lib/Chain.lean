import Mathlib.Tactic

/-!
Chains in a table of links: from a node along `next` to one that says it is the last.

* `Chain.unique`, `Chain.nodup`: a node begins one chain at most, and it passes no node twice.
* `Chain.congr`: it depends on the links of its own nodes.
* `follow`, `Chain.follow_eq`: finding the chain by walking it.
-/

/-- `nodes` is the chain that begins at a node and ends where `last` holds. -/
inductive Chain {α : Type*} (next : α → Option α) (last : α → Prop) : α → List α → Prop
  | single {a : α} (h : last a) : Chain next last a [a]
  | cons {a b : α} {nodes : List α} (h : next a = some b) (hrest : Chain next last b nodes) :
      Chain next last a (a :: nodes)

namespace Chain

variable {α : Type*} {next next' : α → Option α} {last last' : α → Prop} {a b : α}
  {nodes nodes' : List α}

lemma ne_nil (h : Chain next last a nodes) : nodes ≠ [] := by
  cases h <;> simp

lemma head_eq (h : Chain next last a nodes) : nodes.head? = some a := by
  cases h <;> rfl

lemma mem_self (h : Chain next last a nodes) : a ∈ nodes := by
  cases h <;> simp

/-- Every node of a chain is the last, or has a next. -/
lemma linked (h : Chain next last a nodes) (hb : b ∈ nodes) : last b ∨ ∃ c, next b = some c := by
  induction h with
  | single hlast =>
      rw [List.mem_singleton.mp hb]
      exact .inl hlast
  | cons hnext _ ih =>
      obtain rfl | hb := List.mem_cons.mp hb
      · exact .inr ⟨_, hnext⟩
      · exact ih hb

lemma congr (h : Chain next last a nodes) (hnext : ∀ b ∈ nodes, next' b = next b)
    (hlast : ∀ b ∈ nodes, last b → last' b) : Chain next' last' a nodes := by
  induction h with
  | single h => exact .single (hlast _ (by simp) h)
  | cons h _ ih =>
      refine .cons (by rw [hnext _ (by simp), h]) (ih (fun b hb => ?_) fun b hb => ?_)
      · exact hnext b (List.mem_cons_of_mem _ hb)
      · exact hlast b (List.mem_cons_of_mem _ hb)

/-- Where the last node has no next, a node begins one chain at most. -/
lemma unique (hend : ∀ a, last a → next a = none) (h : Chain next last a nodes)
    (h' : Chain next last a nodes') : nodes = nodes' := by
  induction h generalizing nodes' with
  | single hlast =>
      cases h' with
      | single => rfl
      | cons hnext =>
          rw [hend _ hlast] at hnext
          cases hnext
  | cons hnext _ ih =>
      cases h' with
      | single hlast =>
          rw [hend _ hlast] at hnext
          cases hnext
      | cons hnext' hrest' =>
          obtain rfl := Option.some.inj (hnext.symm.trans hnext')
          rw [ih hrest']

/-- What is left of a chain from one of its nodes on is a chain too. -/
lemma exists_suffix (h : Chain next last a nodes) (hb : b ∈ nodes) :
    ∃ rest, Chain next last b rest ∧ rest.length ≤ nodes.length := by
  induction h with
  | single hlast =>
      rw [List.mem_singleton.mp hb]
      exact ⟨_, .single hlast, le_refl _⟩
  | cons hnext hrest ih =>
      obtain rfl | hb := List.mem_cons.mp hb
      · exact ⟨_, .cons hnext hrest, le_refl _⟩
      · obtain ⟨rest, hchain, hlen⟩ := ih hb
        exact ⟨rest, hchain, hlen.trans (Nat.le_succ _)⟩

/-- A chain that ends passes no node twice. -/
lemma nodup (hend : ∀ a, last a → next a = none) (h : Chain next last a nodes) : nodes.Nodup := by
  induction h with
  | single => simp
  | cons hnext hrest ih =>
      refine List.nodup_cons.mpr ⟨fun hmem => ?_, ih⟩
      obtain ⟨rest, hchain, hlen⟩ := hrest.exists_suffix hmem
      have hsame := hchain.unique hend (.cons hnext hrest)
      rw [hsame, List.length_cons] at hlen
      omega

/-- Walks along `next`, past at most `fuel` nodes. -/
def follow (next : α → Option α) : ℕ → α → List α
  | 0, _ => []
  | fuel + 1, a =>
      a :: match next a with
        | some b => follow next fuel b
        | none => []

lemma follow_eq (hend : ∀ a, last a → next a = none) (h : Chain next last a nodes) {fuel : ℕ}
    (hfuel : nodes.length ≤ fuel) : follow next fuel a = nodes := by
  induction h generalizing fuel with
  | single hlast =>
      obtain _ | fuel := fuel
      · simp at hfuel
      · rw [follow, hend _ hlast]
  | cons hnext _ ih =>
      obtain _ | fuel := fuel
      · simp at hfuel
      · rw [follow, hnext]
        dsimp only
        rw [ih (by simpa using hfuel)]

end Chain
