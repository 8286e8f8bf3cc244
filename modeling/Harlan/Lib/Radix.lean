import Mathlib.Tactic

/-!
Radix trees kept in a flat memory of nodes: every node holds an entry at each index, and
some entries point at another node (`ptr`). The memory may hold anything, cycles included;
what is bounded is how deep a walk goes.

* `follow`: the node a path of indices leads to.
* `follow_congr`: two memories whose pointers agree along a path lead to the same node; the
  frame lemmas (`follow_fill`, `follow_write`, `follow_write_of_ptr_eq`) are its instances.
* `Reached`, `Alone`: a node within a given depth of the root, and a path that is the only
  one to its node. An entry of a node that is reached by one path alone is seen only by the
  walks through it, which is what makes an edit of the tree local.
* `follow_link`, `follow_link_cases`: hanging a new node without pointers below such an entry
  adds exactly one path, and below any entry reaches nothing else that is new.
* `follow_fill_root`: a copy of the root reaches what the root reached.
* `postorder`: the nodes below a node, each after those below it; `mem_postorder` and
  `nodup_postorder` say that it meets each once.
-/

namespace Radix

variable {N I E : Type*} [DecidableEq N] [DecidableEq I]

/-- Overwrites one entry of one node. -/
def write (mem : N → I → E) (n : N) (i : I) (e : E) : N → I → E :=
  fun n' i' => if n' = n ∧ i' = i then e else mem n' i'

/-- Overwrites every entry of one node. -/
def fill (mem : N → I → E) (n : N) (entries : I → E) : N → I → E :=
  fun n' i => if n' = n then entries i else mem n' i

lemma write_self (mem : N → I → E) (n : N) (i : I) (e : E) : write mem n i e n i = e := by
  simp [write]

lemma write_of_ne {mem : N → I → E} {n n' : N} {i i' : I} {e : E} (h : ¬(n' = n ∧ i' = i)) :
    write mem n i e n' i' = mem n' i' :=
  if_neg h

omit [DecidableEq I] in
lemma fill_self (mem : N → I → E) (n : N) (entries : I → E) : fill mem n entries n = entries := by
  funext i
  simp [fill]

omit [DecidableEq I] in
lemma fill_of_ne {mem : N → I → E} {n n' : N} {entries : I → E} (h : n' ≠ n) :
    fill mem n entries n' = mem n' := by
  funext i
  simp [fill, h]

section Follow

variable (ptr : E → Option N)

/-- The node a path leads to, if every entry on the way points at one. -/
def follow (mem : N → I → E) (n : N) : List I → Option N
  | [] => some n
  | i :: path => (ptr (mem n i)).bind fun n' => follow mem n' path

/-- `n` is a node some path of at most `depth` steps leads to. -/
def Reached (mem : N → I → E) (root : N) (depth : ℕ) (n : N) : Prop :=
  ∃ p : List I, p.length ≤ depth ∧ follow ptr mem root p = some n

/-- No path of at most `depth` steps but `p` leads to `n`. -/
def Alone (mem : N → I → E) (root : N) (depth : ℕ) (p : List I) (n : N) : Prop :=
  ∀ q : List I, q.length ≤ depth → follow ptr mem root q = some n → q = p

variable {ptr}

omit [DecidableEq N] [DecidableEq I] in
lemma follow_append (mem : N → I → E) (n : N) (p q : List I) :
    follow ptr mem n (p ++ q) = (follow ptr mem n p).bind fun n' => follow ptr mem n' q := by
  induction p generalizing n with
  | nil => rfl
  | cons i p ih =>
      simp only [List.cons_append, follow]
      cases ptr (mem n i) with
      | none => rfl
      | some n' => exact ih n'

omit [DecidableEq N] [DecidableEq I] in
lemma follow_snoc (mem : N → I → E) (n : N) (p : List I) (i : I) :
    follow ptr mem n (p ++ [i]) = (follow ptr mem n p).bind fun n' => ptr (mem n' i) := by
  rw [follow_append]
  congr 1
  funext n'
  simp [follow]

omit [DecidableEq N] [DecidableEq I] in
/-- Memories whose pointers agree along a path lead to the same node. -/
lemma follow_congr {mem mem' : N → I → E} {root : N} {q : List I}
    (h : ∀ p j, p ++ [j] <+: q → ∀ n, follow ptr mem root p = some n →
      ptr (mem' n j) = ptr (mem n j)) :
    follow ptr mem' root q = follow ptr mem root q := by
  induction q using List.reverseRecOn with
  | nil => rfl
  | append_singleton q i ih =>
      have hq := ih fun p j hp => h p j (hp.trans (List.prefix_append q [i]))
      rw [follow_snoc, follow_snoc, hq]
      cases hn : follow ptr mem root q with
      | none => rfl
      | some n => exact h q i List.prefix_rfl n hn

omit [DecidableEq I] in
/-- Rewriting a node no walk reaches changes no walk. -/
lemma follow_fill {mem : N → I → E} {root n : N} {entries : I → E} {depth : ℕ} {q : List I}
    (h : ¬Reached ptr mem root depth n) (hq : q.length ≤ depth + 1) :
    follow ptr (fill mem n entries) root q = follow ptr mem root q := by
  refine follow_congr fun p j hp n' hn' => ?_
  have hlen := hp.length_le
  rw [List.length_append, List.length_singleton] at hlen
  have hne : n' ≠ n := by
    rintro rfl
    exact h ⟨p, by omega, hn'⟩
  rw [fill_of_ne hne]

/-- Rewriting an entry of a node reached by `p` alone changes only the walks through it. -/
lemma follow_write {mem : N → I → E} {root n : N} {i : I} {e : E} {depth : ℕ} {p q : List I}
    (h : Alone ptr mem root depth p n) (hq : q.length ≤ depth + 1) (hpq : ¬p ++ [i] <+: q) :
    follow ptr (write mem n i e) root q = follow ptr mem root q := by
  refine follow_congr fun p' j hp' n' hn' => ?_
  have hlen := hp'.length_le
  rw [List.length_append, List.length_singleton] at hlen
  rw [write_of_ne]
  rintro ⟨rfl, rfl⟩
  obtain rfl := h p' (by omega) hn'
  exact hpq hp'

/-- Rewriting an entry without moving its pointer changes no walk. -/
lemma follow_write_of_ptr_eq {mem : N → I → E} {n : N} {i : I} {e : E}
    (h : ptr e = ptr (mem n i)) (root : N) (q : List I) :
    follow ptr (write mem n i e) root q = follow ptr mem root q := by
  refine follow_congr fun p j _ n' _ => ?_
  by_cases hn : n' = n ∧ j = i
  · obtain ⟨rfl, rfl⟩ := hn
    rw [write_self, h]
  · rw [write_of_ne hn]

/-- Hanging a node without pointers below an entry without one adds one path. -/
lemma follow_link {mem : N → I → E} {root n new : N} {i : I} {e : E} {depth : ℕ} {p q : List I}
    (hp : follow ptr mem root p = some n) (halone : Alone ptr mem root depth p n)
    (hlen : p.length ≤ depth) (hnone : ptr (mem n i) = none) (he : ptr e = some new)
    (hnew : ∀ j, ptr (mem new j) = none) (hne : new ≠ n) (hq : q.length ≤ depth + 1) :
    follow ptr (write mem n i e) root q
      = if q = p ++ [i] then some new else follow ptr mem root q := by
  by_cases hpq : p ++ [i] <+: q
  · have hpn : follow ptr (write mem n i e) root p = some n := by
      rw [follow_write halone (by omega), hp]
      intro hpre
      have := hpre.length_le
      simp at this
    obtain ⟨rest, rfl⟩ := hpq
    cases rest with
    | nil =>
        rw [List.append_nil, if_pos rfl, follow_snoc, hpn]
        simp [write_self, he]
    | cons j rest =>
        have hj : ptr (write mem n i e new j) = none := by
          rw [write_of_ne (fun h => hne h.1), hnew]
        have hnext : follow ptr (write mem n i e) root (p ++ [i]) = some new := by
          simp [follow_snoc, hpn, write_self, he]
        have hlast : follow ptr mem root (p ++ [i]) = none := by
          simp [follow_snoc, hp, hnone]
        rw [if_neg (by simp), follow_append, follow_append mem, hnext, hlast]
        simp [follow, hj]
  · rw [follow_write halone hq hpq, if_neg]
    rintro rfl
    exact hpq List.prefix_rfl

/-- A walk that arrives does not pass an entry without a pointer, so it survives a write
there. -/
lemma follow_write_of_none {mem : N → I → E} {root n x : N} {i : I} {e : E} {q : List I}
    (h : ptr (mem n i) = none) (hq : follow ptr mem root q = some x) :
    follow ptr (write mem n i e) root q = some x := by
  rw [← hq]
  refine follow_congr fun p j hp n' hn' => ?_
  rw [write_of_ne]
  rintro ⟨rfl, rfl⟩
  obtain ⟨rest, rfl⟩ := hp
  rw [follow_append, follow_snoc, hn', Option.bind_some, h] at hq
  cases hq

/-- Writing an entry that points nowhere adds no walk. -/
lemma follow_of_write_none {mem : N → I → E} {root n x : N} {i : I} {e : E} {q : List I}
    (he : ptr e = none) (hx : follow ptr (write mem n i e) root q = some x) :
    follow ptr mem root q = some x := by
  induction q generalizing root with
  | nil => exact hx
  | cons j q ih =>
      rw [follow] at hx ⊢
      obtain ⟨y, hy, hx⟩ := Option.bind_eq_some_iff.mp hx
      have hne : ¬(root = n ∧ j = i) := by
        rintro ⟨rfl, rfl⟩
        rw [write_self, he] at hy
        cases hy
      rw [write_of_ne hne] at hy
      rw [hy]
      exact ih hx

/-- Whatever is reached after a node without pointers was linked is that node or was
reached before. -/
lemma follow_link_cases {mem : N → I → E} {root n new x : N} {i : I} {e : E} {q : List I}
    (he : ptr e = some new) (hnew : ∀ j, ptr (mem new j) = none) (hne : new ≠ n)
    (hq : follow ptr (write mem n i e) root q = some x) :
    x = new ∨ follow ptr mem root q = some x := by
  induction q using List.reverseRecOn generalizing x with
  | nil => exact .inr hq
  | append_singleton q j ih =>
      rw [follow_snoc] at hq ⊢
      obtain ⟨y, hy, hx⟩ := Option.bind_eq_some_iff.mp hq
      obtain rfl | hy := ih hy
      · rw [write_of_ne (fun h => hne h.1), hnew] at hx
        cases hx
      · by_cases h : y = n ∧ j = i
        · obtain ⟨rfl, rfl⟩ := h
          rw [write_self, he] at hx
          exact .inl (Option.some.inj hx).symm
        · rw [write_of_ne h] at hx
          exact .inr (by rw [hy, Option.bind_some, hx])

/-- The last step to a node just linked is the entry that links it. -/
lemma follow_link_last {mem : N → I → E} {root n new : N} {i : I} {e : E} {q : List I}
    (he : ptr e = some new) (hnew : ∀ j, ptr (mem new j) = none) (hne : new ≠ n)
    (hbefore : follow ptr mem root q ≠ some new)
    (hq : follow ptr (write mem n i e) root q = some new) :
    ∃ q', q = q' ++ [i] ∧ follow ptr mem root q' = some n := by
  induction q using List.reverseRecOn with
  | nil => exact absurd hq hbefore
  | append_singleton q j _ =>
      rw [follow_snoc] at hq
      obtain ⟨y, hy, hx⟩ := Option.bind_eq_some_iff.mp hq
      obtain rfl | hy₀ := follow_link_cases he hnew hne hy
      · rw [write_of_ne (fun h => hne h.1), hnew] at hx
        cases hx
      · by_cases h : y = n ∧ j = i
        · obtain ⟨rfl, rfl⟩ := h
          exact ⟨q, rfl, hy₀⟩
        · rw [write_of_ne h] at hx
          exact absurd (by rw [follow_snoc, hy₀, Option.bind_some, hx]) hbefore

omit [DecidableEq I] in
/-- A new root whose entries point where the old root's did, or nowhere, reaches nothing the
old one did not. -/
lemma follow_fill_root {mem : N → I → E} {old new x : N} {entries : I → E} {depth : ℕ}
    {q : List I} (hent : ∀ i n, ptr (entries i) = some n → ptr (mem old i) = some n)
    (hnew : ¬Reached ptr mem old depth new) (hlen : q.length ≤ depth + 1) (hne : q ≠ [])
    (hq : follow ptr (fill mem new entries) new q = some x) : follow ptr mem old q = some x := by
  induction q using List.reverseRecOn generalizing x with
  | nil => exact absurd rfl hne
  | append_singleton q j ih =>
      rw [List.length_append, List.length_singleton] at hlen
      rw [follow_snoc] at hq ⊢
      obtain ⟨y, hy, hx⟩ := Option.bind_eq_some_iff.mp hq
      cases q with
      | nil =>
          obtain rfl : new = y := by simpa [follow] using hy
          rw [fill_self] at hx
          exact hent j x hx
      | cons i q =>
          have hold := ih (by omega) (by simp) hy
          have hyne : y ≠ new := by
            rintro rfl
            exact hnew ⟨i :: q, by omega, hold⟩
          rw [fill_of_ne hyne] at hx
          rw [hold, Option.bind_some, hx]

end Follow

/-! ### Visiting every node -/

section Postorder

variable (ptr : E → Option N) (indices : List I) (mem : N → I → E)

/-- The node an entry points at, after whatever `below` gives for it. -/
def visit (below : N → List N) (e : E) : List N :=
  match ptr e with
  | none => []
  | some n => below n ++ [n]

/-- The nodes at most `depth` steps below a node, each after those below it. -/
def postorder : ℕ → N → List N
  | 0, _ => []
  | depth + 1, n => indices.flatMap fun i => visit ptr (postorder depth) (mem n i)

variable {ptr indices mem}

omit [DecidableEq N] in
lemma mem_visit {below : N → List N} {e : E} {x : N} :
    x ∈ visit ptr below e ↔ ∃ n, ptr e = some n ∧ (x ∈ below n ∨ x = n) := by
  rw [visit]
  cases ptr e with
  | none => simp
  | some n => simp

/-- `below` gives the nodes at most `depth` steps below a node. -/
def Below (ptr : E → Option N) (mem : N → I → E) (depth : ℕ) (below : N → List N) : Prop :=
  ∀ n x, x ∈ below n ↔ ∃ p, p ≠ [] ∧ p.length ≤ depth ∧ follow ptr mem n p = some x

omit [DecidableEq N] [DecidableEq I] in
/-- Visiting some entries of a node meets what is on the paths through them. -/
lemma mem_visits {depth : ℕ} {below : N → List N} (hbelow : Below ptr mem depth below)
    {which : List I} {n x : N} :
    x ∈ which.flatMap (fun i => visit ptr below (mem n i))
      ↔ ∃ i ∈ which, ∃ p, p.length ≤ depth ∧ follow ptr mem n (i :: p) = some x := by
  rw [List.mem_flatMap]
  refine exists_congr fun i => and_congr_right fun _ => ?_
  rw [mem_visit]
  constructor
  · rintro ⟨n', hn', hx | rfl⟩
    · obtain ⟨p, -, hlen, hp⟩ := (hbelow n' x).mp hx
      exact ⟨p, hlen, by rw [follow, hn', Option.bind_some, hp]⟩
    · exact ⟨[], Nat.zero_le depth, by rw [follow, hn', Option.bind_some, follow]⟩
  · rintro ⟨p, hlen, hp⟩
    rw [follow] at hp
    obtain ⟨n', hn', hp⟩ := Option.bind_eq_some_iff.mp hp
    refine ⟨n', hn', ?_⟩
    rcases p with _ | ⟨j, p⟩
    · exact .inr (Option.some.inj hp).symm
    · exact .inl ((hbelow n' x).mpr ⟨j :: p, List.cons_ne_nil j p, hlen, hp⟩)

omit [DecidableEq N] [DecidableEq I] in
/-- Every node on a path is met, and nothing else. -/
lemma mem_postorder (hall : ∀ i, i ∈ indices) (depth : ℕ) :
    Below ptr mem depth (postorder ptr indices mem depth) := by
  induction depth with
  | zero =>
      refine fun n x => ⟨fun h => absurd h List.not_mem_nil, ?_⟩
      rintro ⟨p, hne, hlen, -⟩
      exact absurd (List.length_eq_zero_iff.mp (Nat.le_zero.mp hlen)) hne
  | succ depth ih =>
      intro n x
      rw [postorder, mem_visits ih]
      constructor
      · rintro ⟨i, -, p, hlen, hp⟩
        exact ⟨i :: p, List.cons_ne_nil i p, Nat.succ_le_succ hlen, hp⟩
      · rintro ⟨p, hne, hlen, hp⟩
        obtain ⟨i, p, rfl⟩ := List.exists_cons_of_ne_nil hne
        exact ⟨i, hall i, p, Nat.le_of_succ_le_succ hlen, hp⟩

omit [DecidableEq N] [DecidableEq I] in
/-- Where no two paths meet, visiting different entries meets every node once. -/
lemma nodup_visits {depth : ℕ} {below : N → List N} (hbelow : Below ptr mem depth below)
    {which : List I} {n : N} (hnodup : which.Nodup)
    (hbelow' : ∀ i ∈ which, ∀ n', ptr (mem n i) = some n' → (below n').Nodup)
    (honce : ∀ i ∈ which, ∀ j ∈ which, ∀ p q x, p.length ≤ depth → q.length ≤ depth →
      follow ptr mem n (i :: p) = some x → follow ptr mem n (j :: q) = some x → i :: p = j :: q) :
    (which.flatMap fun i => visit ptr below (mem n i)).Nodup := by
  refine List.nodup_flatMap.mpr ⟨fun i hi => ?_, ?_⟩
  · rw [visit]
    rcases hn' : ptr (mem n i) with _ | n'
    · exact List.nodup_nil
    · refine List.nodup_append.mpr ⟨hbelow' i hi n' hn', List.nodup_singleton n', ?_⟩
      rintro x hx y hy rfl
      obtain rfl := List.mem_singleton.mp hy
      obtain ⟨p, hne, hlen, hp⟩ := (hbelow x x).mp hx
      have hcons := honce i hi i hi p [] x hlen (Nat.zero_le depth)
        (by rw [follow, hn', Option.bind_some, hp])
        (by rw [follow, hn', Option.bind_some, follow])
      exact hne (List.cons.inj hcons).2
  · refine hnodup.pairwise_of_forall_ne fun i hi j hj hij => ?_
    refine List.disjoint_left.mpr fun x hx hx' => ?_
    have hone : ∀ k, x ∈ visit ptr below (mem n k) →
        ∃ p, p.length ≤ depth ∧ follow ptr mem n (k :: p) = some x := by
      intro k hk
      obtain ⟨l, hl, p, hlen, hp⟩ :=
        (@mem_visits _ _ _ _ _ _ _ hbelow [k] n x).mp (by simpa using hk)
      obtain rfl := List.mem_singleton.mp hl
      exact ⟨p, hlen, hp⟩
    obtain ⟨p, hp, hpx⟩ := hone i hx
    obtain ⟨q, hq, hqx⟩ := hone j hx'
    exact hij (List.cons.inj (honce i hi j hj p q x hp hq hpx hqx)).1

omit [DecidableEq N] [DecidableEq I] in
/-- Where no two paths meet, every node is met once. -/
lemma nodup_postorder (hall : ∀ i, i ∈ indices) (hnodup : indices.Nodup) {depth : ℕ} {n : N}
    (honce : ∀ p q x, p.length ≤ depth → q.length ≤ depth → follow ptr mem n p = some x →
      follow ptr mem n q = some x → p = q) :
    (postorder ptr indices mem depth n).Nodup := by
  induction depth generalizing n with
  | zero => exact List.nodup_nil
  | succ depth ih =>
      refine nodup_visits (mem_postorder hall depth) hnodup (fun i _ n' hn' => ih ?_) ?_
      · intro p q x hp hq hpx hqx
        have hcons := honce (i :: p) (i :: q) x (Nat.succ_le_succ hp) (Nat.succ_le_succ hq)
          (by rw [follow, hn', Option.bind_some, hpx])
          (by rw [follow, hn', Option.bind_some, hqx])
        exact (List.cons.inj hcons).2
      · intro i _ j _ p q x hp hq
        exact honce (i :: p) (j :: q) x (Nat.succ_le_succ hp) (Nat.succ_le_succ hq)

omit [DecidableEq N] [DecidableEq I] in
/-- Memories that agree on the nodes above the last step are visited alike. -/
lemma postorder_congr {mem' : N → I → E} {depth : ℕ} {n : N}
    (h : ∀ p x, p.length < depth → follow ptr mem n p = some x → mem' x = mem x) :
    postorder ptr indices mem' depth n = postorder ptr indices mem depth n := by
  induction depth generalizing n with
  | zero => rfl
  | succ depth ih =>
      have hhere : mem' n = mem n := h [] n (Nat.succ_pos depth) rfl
      rw [postorder, postorder, hhere]
      congr 1
      funext i
      rw [visit, visit]
      rcases hn' : ptr (mem n i) with _ | n'
      · rfl
      · dsimp only
        rw [ih fun p x hp hx => h (i :: p) x (Nat.succ_lt_succ hp) ?_]
        rw [follow, hn', Option.bind_some, hx]

end Postorder

end Radix
