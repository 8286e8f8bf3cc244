import Mathlib.Tactic
import Mathlib.Logic.Relation
import Harlan.Arch.PageTables

/-!
What `PageTables::map` and `unmap` do to table memory.

A half of an address space is a set of root slots (`own`). `OwnHalf` is what its tables keep
while it is mapped and unmapped in: each of them is reached by one path only, and each entry
that leads from one to the next is writable and leads to a table. `Edit` is one write of a
descent; everything a descent does is a sequence of those.

* `Descending`, `Descending.step`: where a descent is, and all it can do at one index.
* `descend_spec`, `map_cases`, `unmap_cases`: each call as edits and at most one leaf write.
* `Edit.ownHalf`, `Edit.translate_eq`: an edit keeps the invariant and changes no translation.
* `OwnHalf.writeLeaf`, `OwnHalf.translate_writeLeaf`: a leaf write keeps the invariant and
  changes the translation of one page.
* `ownHalf_of_root`: the invariant holds of a root just made.
-/

namespace Harlan.Paging

open Radix (follow Reached Alone)

/-! ### Entries that link a table -/

section Link

variable {new : ℕ} (isUser : Bool)

lemma has_present_link : has (new ||| PageTables.reachable isUser) present = true := by
  have hbit : (PageTables.reachable isUser).testBit 0 = true := by
    cases isUser <;> decide
  rw [has_present, Nat.testBit_or, hbit, Bool.or_true]

lemma has_writable_link : has (new ||| PageTables.reachable isUser) writable = true := by
  have hbit : (PageTables.reachable isUser).testBit 1 = true := by
    cases isUser <;> decide
  rw [has_writable, Nat.testBit_or, hbit, Bool.or_true]

lemma has_huge_link (halign : new % frameSize = 0) :
    has (new ||| PageTables.reachable isUser) huge = false := by
  rw [has_huge, Nat.testBit_or, testBit_frame_low halign (by decide)]
  cases isUser <;> decide

lemma next_link (halign : new % frameSize = 0) (hlt : new < 2 ^ 52) :
    next (new ||| PageTables.reachable isUser) = some new := by
  rw [next_of_present (has_present_link isUser) (has_huge_link isUser halign),
    or_and_addressMask halign hlt (by cases isUser <;> decide)]

end Link

/-! ### The invariant of a half -/

/-- A path that starts in a slot of the half, or goes nowhere yet. -/
def OwnPath (own : Fin 512 → Prop) (p : List (Fin 512)) : Prop := ∀ i ∈ p.head?, own i

/-- What the tables of a half of an address space keep. -/
structure OwnHalf (own : Fin 512 → Prop) (mem : Memory) (root : ℕ) : Prop where
  /-- Every table of the half is reached by one path of the whole tree. -/
  alone : ∀ p n, p.length ≤ 3 → OwnPath own p → follow next mem root p = some n →
    Alone next mem root 3 p n
  /-- Every entry of an upper table of the half, if present, links a table writably. -/
  linked : ∀ p n j, p.length ≤ 2 → OwnPath own (p ++ [j]) → follow next mem root p = some n →
    has (mem n j) present = true → has (mem n j) huge = false ∧ has (mem n j) writable = true

/-- The first part of it: every table of the half is reached by one path. -/
def OwnAlone (own : Fin 512 → Prop) (mem : Memory) (root : ℕ) : Prop :=
  ∀ p n, p.length ≤ 3 → OwnPath own p → follow next mem root p = some n →
    Alone next mem root 3 p n

/-- One write of a descent below `root`, into the half `own`, with new tables out of
`fresh`. -/
inductive Edit (own : Fin 512 → Prop) (fresh : Set ℕ) (root : ℕ) : Memory → Memory → Prop
  | zero (mem : Memory) (n : ℕ) (hfresh : n ∈ fresh) (hnew : ¬Reached next mem root 3 n) :
      Edit own fresh root mem (Radix.fill mem n fun _ => 0)
  | link (mem : Memory) (p : List (Fin 512)) (n : ℕ) (i : Fin 512) (new : ℕ) (isUser : Bool)
      (hlen : p.length ≤ 2) (hown : OwnPath own (p ++ [i])) (hn : follow next mem root p = some n)
      (hnone : has (mem n i) present = false) (hfresh : new ∈ fresh)
      (hnew : ¬Reached next mem root 3 new) (hzero : ∀ j, mem new j = 0)
      (halign : new % frameSize = 0) (hlt : new < 2 ^ 52) :
      Edit own fresh root mem (Radix.write mem n i (new ||| PageTables.reachable isUser))
  | allow (mem : Memory) (p : List (Fin 512)) (n : ℕ) (i : Fin 512) (hlen : p.length ≤ 2)
      (hown : OwnPath own (p ++ [i])) (hn : follow next mem root p = some n)
      (hpres : has (mem n i) present = true) :
      Edit own fresh root mem (Radix.write mem n i (mem n i ||| user))

/-- A sequence of such writes. -/
abbrev Edits (own : Fin 512 → Prop) (fresh : Set ℕ) (root : ℕ) : Memory → Memory → Prop :=
  Relation.ReflTransGen (Edit own fresh root)

/-- The next `k` frames a source hands out lie below `2^52`, outside `avoid`, and differ. -/
def FrameSource.Fresh {σ : Type*} (src : FrameSource σ) : ℕ → Set ℕ → σ → Prop
  | 0, _, _ => True
  | k + 1, avoid, s => ∀ frame s', src.take s = (some frame, s') →
      frame.start < 2 ^ 52 ∧ frame.start ∉ avoid ∧ src.Fresh k (insert frame.start avoid) s'

/-- A source is asked for frames until it is in another state. -/
abbrev FrameSource.Later {σ : Type*} (src : FrameSource σ) : σ → σ → Prop :=
  Relation.ReflTransGen fun s s' => ∃ frame, src.take s = (frame, s')

/-- The frames a source hands out on the way from one state to another. -/
def FrameSource.taken {σ : Type*} (src : FrameSource σ) (s s' : σ) : Set ℕ :=
  {n | ∃ frame s₁ s₂, src.Later s s₁ ∧ src.take s₁ = (some frame, s₂) ∧ src.Later s₂ s'
    ∧ frame.start = n}

/-- The tables a walk from `root` reads. -/
def tablesOf (mem : Memory) (root : ℕ) : Set ℕ := {n | Reached next mem root 3 n}

section OwnPath

variable {own : Fin 512 → Prop} {p q : List (Fin 512)}

lemma ownPath_nil : OwnPath own [] := by
  intro i hi
  cases hi

lemma OwnPath.of_append (h : OwnPath own (p ++ q)) : OwnPath own p := by
  cases p with
  | nil => exact ownPath_nil
  | cons i p => exact h

end OwnPath

/-! ### A call as edits -/

section Calls

variable {σ : Type*} {own : Fin 512 → Prop} {fresh : Set ℕ} {root : ℕ}

lemma FrameSource.taken_subset {src : FrameSource σ} {s s₁ s₂ s' : σ} (h : src.Later s s₁)
    (h' : src.Later s₂ s') : src.taken s₁ s₂ ⊆ src.taken s s' := by
  rintro n ⟨frame, t, t', hbefore, htake, hafter, hn⟩
  exact ⟨frame, t, t', h.trans hbefore, htake, hafter.trans h', hn⟩

lemma Edits.mono {fresh' : Set ℕ} {mem mem' : Memory} (h : Edits own fresh root mem mem')
    (hsub : fresh ⊆ fresh') : Edits own fresh' root mem mem' := by
  refine Relation.ReflTransGen.mono (fun a b hedit => ?_) _ _ h
  cases hedit with
  | zero n hfresh hnew => exact .zero _ n (hsub hfresh) hnew
  | link p n i new isUser hlen hown hn hnone hfresh hnew hzero halign hlt =>
      exact .link _ p n i new isUser hlen hown hn hnone (hsub hfresh) hnew hzero halign hlt
  | allow p n i hlen hown hn hpres => exact .allow _ p n i hlen hown hn hpres

/-- Zeroing a frame no walk reaches changes no walk. -/
lemma follow_zero {mem : Memory} {n : ℕ} {q : List (Fin 512)} (hnew : ¬Reached next mem root 3 n)
    (hq : q.length ≤ 4) :
    follow next (Radix.fill mem n fun _ => 0) root q = follow next mem root q :=
  Radix.follow_fill hnew hq

lemma tablesOf_congr {mem mem' : Memory}
    (h : ∀ q : List (Fin 512), q.length ≤ 4 → follow next mem' root q = follow next mem root q) :
    tablesOf mem' root = tablesOf mem root := by
  ext n
  refine exists_congr fun p => and_congr_right fun hp => ?_
  rw [h p (by omega)]

/-- `mem'` is `mem` but for the frame a source handed out in between: edits took one to the
other, and neither a walk nor a table of `avoid` changed. -/
structure Fetched (own : Fin 512 → Prop) (fresh : Set ℕ) (root : ℕ) (avoid : Set ℕ)
    (mem mem' : Memory) : Prop where
  edits : Edits own fresh root mem mem'
  follow_eq : ∀ q : List (Fin 512), q.length ≤ 4 →
    follow next mem' root q = follow next mem root q
  same : ∀ n ∈ avoid, mem' n = mem n

lemma Fetched.refl (avoid : Set ℕ) (mem : Memory) : Fetched own fresh root avoid mem mem :=
  ⟨.refl, fun _ _ => rfl, fun _ _ => rfl⟩

/-- Zeroing a frame outside `avoid` is such a change. -/
lemma Fetched.zero {mem mem' : Memory} {avoid : Set ℕ} {n : ℕ}
    (h : Fetched own fresh root avoid mem mem') (havoid : tablesOf mem root ⊆ avoid)
    (hfresh : n ∈ fresh) (hn : n ∉ avoid) :
    Fetched own fresh root avoid mem (Radix.fill mem' n fun _ => 0) := by
  have hnew : ¬Reached next mem' root 3 n := by
    intro hr
    have hmem : n ∈ tablesOf mem' root := hr
    rw [tablesOf_congr h.follow_eq] at hmem
    exact hn (havoid hmem)
  refine ⟨h.edits.tail (.zero mem' n hfresh hnew), fun q hq => ?_, fun x hx => ?_⟩
  · rw [follow_zero hnew hq, h.follow_eq q hq]
  · have hne : x ≠ n := by
      rintro rfl
      exact hn hx
    rw [Radix.fill_of_ne hne, h.same x hx]

/-- What a fresh source does to memory on the way to its next frame. -/
lemma allocateFrame_spec {src : FrameSource σ} {mem : Memory} {s : σ} {k : ℕ} {avoid : Set ℕ}
    (hfresh : src.Fresh (k + 1) avoid s) (havoid : tablesOf mem root ⊆ avoid) :
    Fetched own (src.taken s (src.allocateFrame mem s).2.2 \ avoid) root avoid mem
        (src.allocateFrame mem s).2.1
      ∧ src.take s = ((src.allocateFrame mem s).1, (src.allocateFrame mem s).2.2) := by
  rw [FrameSource.allocateFrame]
  rcases htake : src.take s with ⟨_ | frame, s'⟩
  · exact ⟨.refl avoid mem, rfl⟩
  · obtain ⟨-, hout, -⟩ := hfresh frame s' htake
    refine ⟨?_, rfl⟩
    dsimp only
    split
    · exact (Fetched.refl avoid mem).zero havoid
        ⟨⟨frame, s, s', .refl, htake, .refl, rfl⟩, hout⟩ hout
    · exact .refl avoid mem

/-- A new table from a fresh source is a zeroed frame outside `avoid`. -/
lemma newTable_spec (tables : PageTables) {src : FrameSource σ} {mem : Memory} {s : σ} {k : ℕ}
    {avoid : Set ℕ} (hfresh : src.Fresh (k + 1) avoid s) (havoid : tablesOf mem root ⊆ avoid) :
    Fetched own (src.taken s (tables.newTable src mem s).2.2 \ avoid) root avoid mem
        (tables.newTable src mem s).2.1
      ∧ src.Later s (tables.newTable src mem s).2.2
      ∧ ∀ new, (tables.newTable src mem s).1 = .ok new →
          new % frameSize = 0 ∧ new < 2 ^ 52 ∧ new ∉ avoid
            ∧ new ∈ src.taken s (tables.newTable src mem s).2.2
            ∧ (∀ j, (tables.newTable src mem s).2.1 new j = 0)
            ∧ src.Fresh k (insert new avoid) (tables.newTable src mem s).2.2 := by
  obtain ⟨hfetched, htake⟩ := @allocateFrame_spec _ own _ _ _ _ _ _ hfresh havoid
  rw [PageTables.newTable]
  rcases halloc : src.allocateFrame mem s with ⟨_ | frame, mem₁, s₁⟩
  · rw [halloc] at hfetched htake
    exact ⟨hfetched, .single ⟨_, htake⟩, fun new h => by cases h⟩
  · rw [halloc] at hfetched htake
    dsimp only at hfetched htake ⊢
    have hlater : src.Later s s₁ := .single ⟨_, htake⟩
    have htaken : frame.start ∈ src.taken s s₁ := ⟨frame, s, s₁, .refl, htake, .refl, rfl⟩
    obtain ⟨hlt, hout, hrest⟩ := hfresh frame s₁ htake
    cases tables.translate mem₁ (wrap64 (tables.window + frame.start)) with
    | none => exact ⟨hfetched, hlater, fun new h => by cases h⟩
    | some t =>
        dsimp only
        split
        · refine ⟨hfetched.zero havoid ⟨htaken, hout⟩ hout, hlater, ?_⟩
          rintro new ⟨⟩
          exact ⟨frame.aligned, hlt, hout, htaken, congrFun (Radix.fill_self _ _ _), hrest⟩
        · exact ⟨hfetched, hlater, fun new h => by cases h⟩

lemma FrameSource.Fresh.pred {src : FrameSource σ} {k : ℕ} {avoid : Set ℕ} {s : σ}
    (h : src.Fresh (k + 1) avoid s) : src.Fresh k avoid s := by
  induction k generalizing avoid s with
  | zero => trivial
  | succ k ih =>
      intro frame s' htake
      obtain ⟨hlt, hout, hrest⟩ := h frame s' htake
      exact ⟨hlt, hout, ih hrest⟩

lemma FrameSource.Fresh.mono {src : FrameSource σ} {k : ℕ} {avoid avoid' : Set ℕ} {s : σ}
    (h : src.Fresh k avoid s) (hsub : avoid' ⊆ avoid) : src.Fresh k avoid' s := by
  induction k generalizing avoid avoid' s with
  | zero => trivial
  | succ k ih =>
      intro frame s' htake
      obtain ⟨hlt, hout, hrest⟩ := h frame s' htake
      exact ⟨hlt, fun hmem => hout (hsub hmem), ih hrest (Set.insert_subset_insert hsub)⟩

/-- Linking a new table reaches that table and nothing else that is new. -/
lemma tablesOf_link {mem : Memory} {n new : ℕ} {i : Fin 512} {isUser : Bool}
    (halign : new % frameSize = 0) (hlt : new < 2 ^ 52) (hzero : ∀ j, mem new j = 0)
    (hne : new ≠ n) :
    tablesOf (Radix.write mem n i (new ||| PageTables.reachable isUser)) root
      ⊆ insert new (tablesOf mem root) := by
  rintro x ⟨q, hq, hx⟩
  have hnone : ∀ j, next (mem new j) = none := by
    intro j
    rw [hzero]
    rfl
  obtain rfl | hx := Radix.follow_link_cases (next_link isUser halign hlt) hnone hne hx
  · exact .inl rfl
  · exact .inr ⟨q, hq, hx⟩

/-- A table may be linked where a descent is, and the descent goes on from it. -/
structure Linkable (root : ℕ) (avoid : Set ℕ) (p : List (Fin 512)) (table : ℕ)
    (index : Fin 512) (new : ℕ) (isUser : Bool) (mem : Memory) : Prop where
  path : follow next mem root p = some table
  absent : has (mem table index) present = false
  unreached : new ∉ tablesOf mem root
  below : follow next (Radix.write mem table index (new ||| PageTables.reachable isUser)) root
    (p ++ [index])
    = some new
  reached : tablesOf (Radix.write mem table index (new ||| PageTables.reachable isUser)) root
    ⊆ insert new avoid

/-- What was fetched may be linked where there is no table yet. -/
lemma Fetched.linkable {mem mem' : Memory} {avoid : Set ℕ} {p : List (Fin 512)} {table new : ℕ}
    {index : Fin 512} (isUser : Bool) (h : Fetched own fresh root avoid mem mem')
    (havoid : tablesOf mem root ⊆ avoid) (hp : follow next mem root p = some table)
    (hlen : p.length < 3) (hpres : has (mem table index) present = false)
    (halign : new % frameSize = 0) (hlt : new < 2 ^ 52) (hout : new ∉ avoid)
    (hzero : ∀ j, mem' new j = 0) :
    Linkable root avoid p table index new isUser mem' := by
  have hreach : tablesOf mem' root ⊆ avoid := by
    rwa [tablesOf_congr h.follow_eq]
  have hpath : follow next mem' root p = some table := by
    rw [h.follow_eq p (by omega), hp]
  have htable : table ∈ avoid := hreach ⟨p, by omega, hpath⟩
  have hnone : has (mem' table index) present = false := by
    rw [h.same table htable, hpres]
  have hne : new ≠ table := by
    rintro rfl
    exact hout htable
  refine ⟨hpath, hnone, fun hr => hout (hreach hr), ?_, ?_⟩
  · rw [Radix.follow_snoc, Radix.follow_write_of_none (next_of_not_present hnone) hpath,
      Option.bind_some, Radix.write_self, next_link isUser halign hlt]
  · exact (tablesOf_link halign hlt hzero hne).trans (Set.insert_subset_insert hreach)

/-! ### A descent, step by step -/

/-- The upper indices of a page, and all of them. -/
lemma tableIndices_eq (page : ℕ) :
    tableIndices page = (tableIndices page).take 3 ++ [tableIndex page 12] := rfl

lemma length_tableIndices (page : ℕ) : (tableIndices page).length = 4 := rfl

/-- The path to a page found in a slot of the half. -/
lemma ownPath_of_slot {page : ℕ} (hown : own (tableIndex page 39)) :
    OwnPath own ((tableIndices page).take 3) := by
  intro i hi
  obtain rfl : tableIndex page 39 = i := by simpa [tableIndices] using hi
  exact hown

/-- Where a descent is: its path leads to a table, and what the rest of it fetches is outside
`avoid`. -/
structure Descending (own : Fin 512 → Prop) (src : FrameSource σ) (root : ℕ) (avoid : Set ℕ)
    (p rest : List (Fin 512)) (table : ℕ) (mem : Memory) (s : σ) : Prop where
  fresh : src.Fresh rest.length avoid s
  reach : tablesOf mem root ⊆ avoid
  path : follow next mem root p = some table
  length : p.length + rest.length = 3
  inHalf : OwnPath own (p ++ rest)

section Descending

variable {src : FrameSource σ} {avoid : Set ℕ} {p rest : List (Fin 512)}
  {index : Fin 512} {table : ℕ}
  {mem : Memory} {s : σ}

/-- A descent to a page starts at the root. -/
lemma Descending.start {page : ℕ} (hfresh : src.Fresh 3 avoid s)
    (havoid : tablesOf mem root ⊆ avoid) (hown : own (tableIndex page 39)) :
    Descending own src root avoid [] ((tableIndices page).take 3) root mem s :=
  ⟨hfresh, havoid, rfl, rfl, ownPath_of_slot hown⟩

section Step

variable (h : Descending own src root avoid p (index :: rest) table mem s)
include h

lemma Descending.length_le : p.length ≤ 2 := by
  have hlen := h.length
  rw [List.length_cons] at hlen
  omega

lemma Descending.stepInHalf : OwnPath own (p ++ [index]) := by
  have hown := h.inHalf
  rw [List.append_cons] at hown
  exact hown.of_append

/-- It goes on from a table one further down. -/
lemma Descending.further {avoid' : Set ℕ} {table' : ℕ} {mem' : Memory} {s' : σ}
    (hfresh : src.Fresh rest.length avoid' s') (hreach : tablesOf mem' root ⊆ avoid')
    (hpath : follow next mem' root (p ++ [index]) = some table') :
    Descending own src root avoid' (p ++ [index]) rest table' mem' s' := by
  have hlen := h.length
  have hown := h.inHalf
  rw [List.length_cons] at hlen
  rw [List.append_cons] at hown
  refine ⟨hfresh, hreach, hpath, ?_, hown⟩
  rw [List.length_append, List.length_singleton]
  omega

/-- Linking a fetched table is an edit. -/
lemma Descending.linkEdit {new : ℕ} {isUser : Bool} {mem' : Memory}
    (hlink : Linkable root avoid p table index new isUser mem') (hfresh : new ∈ fresh)
    (hzero : ∀ j, mem' new j = 0) (halign : new % frameSize = 0) (hlt : new < 2 ^ 52) :
    Edit own fresh root mem'
      (Radix.write mem' table index (new ||| PageTables.reachable isUser)) :=
  .link mem' p table index new isUser h.length_le h.stepInHalf hlink.path hlink.absent hfresh
    hlink.unreached
    hzero halign hlt

/-- So is opening one to ring 3. -/
lemma Descending.allowEdit (fresh : Set ℕ) (hpres : has (mem table index) present = true) :
    Edit own fresh root mem (Radix.write mem table index (mem table index ||| user)) :=
  .allow mem p table index h.length_le h.stepInHalf h.path hpres

end Step

/-- All a descent can do at one index of its path. -/
inductive DescentStep (tables : PageTables) (src : FrameSource σ) (isUser : Bool)
    (own : Fin 512 → Prop) (root : ℕ) (avoid : Set ℕ) (p : List (Fin 512)) (index : Fin 512)
    (rest : List (Fin 512)) (table : ℕ) (mem : Memory) (s : σ) : Prop
  | noTable (err : MapError) (mem' : Memory) (s' : σ)
      (hnew : tables.newTable src mem s = (.error err, mem', s'))
      (hrun : tables.descend src isUser (index :: rest) table mem s = (.error err, mem', s'))
      (hfetched : Fetched own (src.taken s s' \ avoid) root avoid mem mem')
        (hlater : src.Later s s')
  | link (new : ℕ) (mem' : Memory) (s' : σ)
      (hnew : tables.newTable src mem s = (.ok new, mem', s'))
      (hrun : tables.descend src isUser (index :: rest) table mem s
        = tables.descend src isUser rest new
        (Radix.write mem' table index (new ||| PageTables.reachable isUser)) s')
      (hfetched : Fetched own (src.taken s s' \ avoid) root avoid mem mem')
        (hlater : src.Later s s')
      (htaken : new ∈ src.taken s s' \ avoid) (hzero : ∀ j, mem' new j = 0)
        (halign : new % frameSize = 0)
      (hlt : new < 2 ^ 52) (hlink : Linkable root avoid p table index new isUser mem')
      (hrest : Descending own src root (insert new avoid) (p ++ [index]) rest new
        (Radix.write mem' table index (new ||| PageTables.reachable isUser)) s')
  | huge (hrun : tables.descend src isUser (index :: rest) table mem s
      = (.error .hugePageInTheWay, mem, s))
  | allow (hpres : has (mem table index) present = true)
      (hrun : tables.descend src isUser (index :: rest) table mem s
        = tables.descend src isUser rest
        (mem table index &&& addressMask)
          (Radix.write mem table index (mem table index ||| user)) s)
      (hsame : ∀ q : List (Fin 512),
        follow next (Radix.write mem table index (mem table index ||| user)) root q
        = follow next mem root q)
      (hrest : Descending own src root avoid (p ++ [index]) rest (mem table index &&& addressMask)
        (Radix.write mem table index (mem table index ||| user)) s)
  | follow (hrun : tables.descend src isUser (index :: rest) table mem s
        = tables.descend src isUser rest (mem table index &&& addressMask) mem s)
      (hrest : Descending own src root avoid (p ++ [index]) rest
        (mem table index &&& addressMask) mem s)

lemma Descending.step (h : Descending own src root avoid p (index :: rest) table mem s)
    (tables : PageTables) (isUser : Bool) :
    DescentStep tables src isUser own root avoid p index rest table mem s := by
  have hfresh : src.Fresh (rest.length + 1) avoid s := h.fresh
  cases hpres : has (mem table index) present with
  | false =>
      obtain ⟨hfetched, hlater, hok⟩ := @newTable_spec _ own _ tables _ _ _ _ _ hfresh h.reach
      rcases hnew : tables.newTable src mem s with ⟨err | new, mem', s'⟩
      · rw [hnew] at hfetched hlater
        refine .noTable err mem' s' hnew ?_ hfetched hlater
        rw [PageTables.descend]
        simp only [hpres, hnew, Bool.not_false, if_true]
      · rw [hnew] at hfetched hlater hok
        obtain ⟨halign, hlt, hout, htaken, hzero, hrest⟩ := hok new rfl
        have hlink := hfetched.linkable isUser h.reach h.path
          (by have := h.length_le; omega) hpres halign hlt hout
          hzero
        refine .link new mem' s' hnew ?_ hfetched hlater ⟨htaken, hout⟩ hzero halign hlt hlink
          (h.further hrest hlink.reached hlink.below)
        rw [PageTables.descend]
        simp only [hpres, hnew, Bool.not_false, if_true]
  | true =>
      cases hhuge : has (mem table index) huge with
      | true =>
          refine .huge ?_
          rw [PageTables.descend]
          simp only [hpres, hhuge, Bool.not_true, Bool.false_eq_true, if_false, if_true]
      | false =>
          have hpath : follow next mem root (p ++ [index])
              = some (mem table index &&& addressMask) := by
            rw [Radix.follow_snoc, h.path, Option.bind_some, next_of_present hpres hhuge]
          cases hopen : isUser && !has (mem table index) user with
          | true =>
              have hsame := @Radix.follow_write_of_ptr_eq _ _ _ _ _ next mem _ _ _
                (agreeButUser_or_user (mem table index)).next_eq root
              have hreach := @tablesOf_congr root _ _ fun q _ => hsame q
              refine .allow hpres ?_ hsame
                (h.further hfresh.pred (hreach.trans_subset h.reach) ((hsame _).trans hpath))
              rw [PageTables.descend]
              simp only [hpres, hhuge, hopen, Bool.not_true, Bool.false_eq_true,
                if_false, if_true]
          | false =>
              refine .follow ?_ (h.further hfresh.pred h.reach hpath)
              rw [PageTables.descend]
              simp only [hpres, hhuge, hopen, Bool.not_true, Bool.false_eq_true, if_false]

/-- A descent edits memory, and the table it answers is the one its path leads to. -/
lemma descend_spec (tables : PageTables) {isUser : Bool} {indices : List (Fin 512)}
    (h : Descending own src root avoid p indices table mem s) :
    Edits own (src.taken s (tables.descend src isUser indices table mem s).2.2 \ avoid) root mem
        (tables.descend src isUser indices table mem s).2.1
      ∧ src.Later s (tables.descend src isUser indices table mem s).2.2
      ∧ ∀ t, (tables.descend src isUser indices table mem s).1 = .ok t →
          follow next (tables.descend src isUser indices table mem s).2.1 root (p ++ indices)
            = some t := by
  induction indices generalizing p table mem s avoid with
  | nil =>
      refine ⟨.refl, .refl, ?_⟩
      rintro t ⟨⟩
      rw [List.append_nil]
      exact h.path
  | cons index rest ih =>
      rw [List.append_cons]
      cases h.step tables isUser with
      | noTable err mem' s' hnew hrun hfetched hlater =>
          rw [hrun]
          exact ⟨hfetched.edits, hlater, fun t h => by cases h⟩
      | link new mem' s' hnew hrun hfetched hlater htaken hzero halign hlt hlink hrest =>
          rw [hrun]
          obtain ⟨hedits, hlater₂, hpath⟩ := ih hrest
          have hfirst := Edits.mono
            (hfetched.edits.tail (h.linkEdit hlink htaken hzero halign hlt))
            (Set.sdiff_subset_sdiff_left (FrameSource.taken_subset .refl hlater₂))
          have hsecond := Edits.mono hedits (Set.sdiff_subset_sdiff
            (FrameSource.taken_subset hlater .refl) (Set.subset_insert new avoid))
          exact ⟨hfirst.trans hsecond, hlater.trans hlater₂, hpath⟩
      | huge hrun =>
          rw [hrun]
          exact ⟨.refl, .refl, fun t h => by cases h⟩
      | allow hpres hrun hsame hrest =>
          rw [hrun]
          obtain ⟨hedits, hlater, hpath⟩ := ih hrest
          exact ⟨hedits.head (h.allowEdit _ hpres), hlater, hpath⟩
      | follow hrun hrest =>
          rw [hrun]
          exact ih hrest

end Descending

/-! ### A call of `map` or `unmap` -/

/-- All `map` can do: edits, and at the end of them one leaf where there was none. The tables it
adds are none of those the frame source avoids. -/
lemma map_cases_avoiding (tables : PageTables) {src : FrameSource σ} {page : ℕ}
    {frame : PhysFrame} {flags : PageFlags} {mem : Memory} {s : σ} {avoid : Set ℕ}
    (hfresh : src.Fresh 3 avoid s) (havoid : tablesOf mem tables.root ⊆ avoid)
    (hown : own (tableIndex page 39)) :
    src.Later s (tables.map src page frame flags mem s).2.2
      ∧ ∃ mem₁, Edits own
        (src.taken s (tables.map src page frame flags mem s).2.2 \ avoid) tables.root
          mem mem₁
      ∧ ((∃ err, (tables.map src page frame flags mem s).1 = .error err
            ∧ (tables.map src page frame flags mem s).2.1 = mem₁)
          ∨ ((tables.map src page frame flags mem s).1 = .ok ()
            ∧ ∃ table, follow next mem₁ tables.root ((tableIndices page).take 3) = some table
              ∧ has (mem₁ table (tableIndex page 12)) present = false
              ∧ (tables.map src page frame flags mem s).2.1
                = Radix.write mem₁ table (tableIndex page 12)
                    (PageTables.leafEntry frame flags))) := by
  obtain ⟨hedits, hlater, hdescend⟩ := @descend_spec _ _ _ _ _ _ _ _ _ tables flags.user _
    (.start hfresh havoid hown)
  rw [PageTables.map]
  split
  · exact ⟨.refl, mem, .refl, .inl ⟨_, rfl, rfl⟩⟩
  · rcases hres : tables.descend src flags.user ((tableIndices page).take 3) tables.root mem s
      with ⟨err | table, mem₁, s₁⟩
    · rw [hres] at hedits hlater
      exact ⟨hlater, mem₁, hedits, .inl ⟨err, rfl, rfl⟩⟩
    · rw [hres] at hedits hlater hdescend
      dsimp only
      cases hleaf : has (mem₁ table (tableIndex page 12)) present with
      | true => exact ⟨hlater, mem₁, hedits, .inl ⟨_, rfl, rfl⟩⟩
      | false =>
          exact ⟨hlater, mem₁, hedits, .inr ⟨rfl, table, hdescend table rfl, hleaf, rfl⟩⟩

/-- So it is where the source avoids the tables of the tree alone. -/
lemma map_cases (tables : PageTables) {src : FrameSource σ} {page : ℕ} {frame : PhysFrame}
    {flags : PageFlags} {mem : Memory} {s : σ}
    (hfresh : src.Fresh 3 (tablesOf mem tables.root) s) (hown : own (tableIndex page 39)) :
    src.Later s (tables.map src page frame flags mem s).2.2
      ∧ ∃ mem₁, Edits own (src.taken s (tables.map src page frame flags mem s).2.2) tables.root
          mem mem₁
      ∧ ((∃ err, (tables.map src page frame flags mem s).1 = .error err
            ∧ (tables.map src page frame flags mem s).2.1 = mem₁)
          ∨ ((tables.map src page frame flags mem s).1 = .ok ()
            ∧ ∃ table, follow next mem₁ tables.root ((tableIndices page).take 3) = some table
              ∧ has (mem₁ table (tableIndex page 12)) present = false
              ∧ (tables.map src page frame flags mem s).2.1
                = Radix.write mem₁ table (tableIndex page 12)
                    (PageTables.leafEntry frame flags))) := by
  obtain ⟨hlater, mem₁, hedits, hcases⟩ :=
    @map_cases_avoiding _ own tables _ page frame flags _ _ _
    hfresh (Set.Subset.refl _) hown
  exact ⟨hlater, mem₁, Edits.mono hedits Set.sdiff_subset, hcases⟩

/-- A search that succeeds answers the table its path leads to. -/
lemma find_ok {mem : Memory} {indices : List (Fin 512)} {table t : ℕ}
    (h : PageTables.find mem indices table = .ok t) : follow next mem table indices = some t := by
  induction indices generalizing table with
  | nil =>
      cases h
      rfl
  | cons index rest ih =>
      rw [PageTables.find] at h
      split_ifs at h with hpres hhuge
      rw [Radix.follow, next_of_present (by simpa using hpres) (by simpa using hhuge)]
      exact ih h

/-- A search along a path answers the table it leads to. -/
lemma find_of_follow {mem : Memory} {indices : List (Fin 512)} {table t : ℕ}
    (h : follow next mem table indices = some t) : PageTables.find mem indices table = .ok t := by
  induction indices generalizing table with
  | nil =>
      obtain rfl : table = t := by simpa [Radix.follow] using h
      rfl
  | cons index rest ih =>
      rw [Radix.follow] at h
      obtain ⟨x, hx, hrest⟩ := Option.bind_eq_some_iff.mp h
      obtain ⟨hpres, hhuge, rfl⟩ := next_eq_some hx
      rw [PageTables.find, hpres, hhuge]
      exact ih hrest

/-- A kernel page with a leaf is unmapped. -/
lemma unmap_of_leaf (tables : PageTables) {page table : ℕ} {mem : Memory}
    (hpage : kernelSpaceBase ≤ page)
    (htable : follow next mem tables.root ((tableIndices page).take 3) = some table)
    (hpres : has (mem table (tableIndex page 12)) present = true) :
    tables.unmap page mem
      = (.ok (PhysFrame.containingAddress (mem table (tableIndex page 12) &&& addressMask)),
          Radix.write mem table (tableIndex page 12) 0) := by
  rw [PageTables.unmap, if_neg (Nat.not_lt.mpr hpage), find_of_follow htable]
  dsimp only
  rw [hpres]
  rfl

/-- All `unmap` can do: nothing, or clear one leaf that was there. -/
lemma unmap_cases (tables : PageTables) (page : ℕ) (mem : Memory) :
    (∃ err, tables.unmap page mem = (.error err, mem))
      ∨ ∃ table, follow next mem tables.root ((tableIndices page).take 3) = some table
          ∧ has (mem table (tableIndex page 12)) present = true
          ∧ tables.unmap page mem
            = (.ok (PhysFrame.containingAddress (mem table (tableIndex page 12) &&& addressMask)),
                Radix.write mem table (tableIndex page 12) 0) := by
  rw [PageTables.unmap]
  split
  · exact .inl ⟨_, rfl⟩
  · cases hfind : PageTables.find mem ((tableIndices page).take 3) tables.root with
    | error err => exact .inl ⟨err, rfl⟩
    | ok table =>
        dsimp only
        cases hleaf : has (mem table (tableIndex page 12)) present with
        | false => exact .inl ⟨_, rfl⟩
        | true => exact .inr ⟨table, find_ok hfind, hleaf, rfl⟩

end Calls

/-! ### What an edit keeps -/

section Keeps

variable {own : Fin 512 → Prop} {fresh : Set ℕ} {root : ℕ} {mem mem' : Memory}

/-- The paths of at most three steps after an edit: those there were, and at most one more,
to a table that was not reached. -/
lemma Edit.follow_eq (h : Edit own fresh root mem mem') (hinv : OwnAlone own mem root) :
    (∀ q : List (Fin 512), q.length ≤ 3 → follow next mem' root q = follow next mem root q)
      ∨ ∃ p new, OwnPath own p ∧ ¬Reached next mem root 3 new ∧ (∀ j, mem' new j = 0)
          ∧ ∀ q : List (Fin 512), q.length ≤ 3 →
            follow next mem' root q = if q = p then some new else follow next mem root q := by
  cases h with
  | zero n _ hnew => exact .inl fun q hq => follow_zero hnew (by omega)
  | allow p n i hlen hown hn hpres =>
      exact .inl fun q _ =>
        Radix.follow_write_of_ptr_eq (agreeButUser_or_user (mem n i)).next_eq root q
  | link p n i new isUser hlen hown hn hnone _ hnew hzero halign hlt =>
      have halone := hinv p n (by omega) hown.of_append hn
      have hne : new ≠ n := by
        rintro rfl
        exact hnew ⟨p, by omega, hn⟩
      refine .inr ⟨p ++ [i], new, hown, hnew, fun j => ?_, fun q hq => ?_⟩
      · rw [Radix.write_of_ne fun h => hne h.1, hzero]
      · refine Radix.follow_link hn halone (by omega) (next_of_not_present hnone)
          (next_link isUser halign hlt) (fun j => ?_) hne (by omega)
        rw [hzero]
        rfl

/-- An edit leaves the entries of the tables that were reached as they were but for a table
linked or allowed in an upper table of the half. -/
lemma Edit.entry (h : Edit own fresh root mem mem') {n : ℕ} (hn : Reached next mem root 3 n)
    (j : Fin 512) :
    mem' n j = mem n j
      ∨ ∃ p, p.length ≤ 2 ∧ OwnPath own (p ++ [j]) ∧ follow next mem root p = some n
          ∧ has (mem' n j) present = true
          ∧ (has (mem n j) present = true → AgreeButUser (mem n j) (mem' n j))
          ∧ (has (mem n j) present = false →
              has (mem' n j) huge = false ∧ has (mem' n j) writable = true) := by
  cases h with
  | zero x _ hnew =>
      have hne : n ≠ x := by
        rintro rfl
        exact hnew hn
      exact .inl (by rw [Radix.fill_of_ne hne])
  | link p x i new isUser hlen hown hx hnone _ hnew hzero halign hlt =>
      by_cases hsame : n = x ∧ j = i
      · obtain ⟨rfl, rfl⟩ := hsame
        refine .inr ⟨p, hlen, hown, hx, ?_, fun h => ?_, fun _ => ?_⟩
        · rw [Radix.write_self, has_present_link]
        · rw [hnone] at h
          cases h
        · rw [Radix.write_self]
          exact ⟨has_huge_link isUser halign, has_writable_link isUser⟩
      · exact .inl (Radix.write_of_ne hsame)
  | allow p x i hlen hown hx hpres =>
      by_cases hsame : n = x ∧ j = i
      · obtain ⟨rfl, rfl⟩ := hsame
        have hagree := agreeButUser_or_user (mem n j)
        refine .inr ⟨p, hlen, hown, hx, ?_, fun _ => ?_, fun h => ?_⟩
        · rw [Radix.write_self, hagree.present_eq, hpres]
        · rwa [Radix.write_self]
        · rw [hpres] at h
          cases h
      · exact .inl (Radix.write_of_ne hsame)

/-- After an edit every table of the half is still reached by one path. -/
lemma Edit.alone (h : Edit own fresh root mem mem') (hinv : OwnAlone own mem root) :
    OwnAlone own mem' root := by
  intro p n hlen hown hn q hq hqn
  obtain hsame | ⟨p₁, new, hp₁, hnew, hzero, hfollow⟩ := h.follow_eq hinv
  · rw [hsame p hlen] at hn
    rw [hsame q hq] at hqn
    exact hinv p n hlen hown hn q hq hqn
  · rw [hfollow p hlen] at hn
    rw [hfollow q hq] at hqn
    split_ifs at hn with hp' <;> split_ifs at hqn with hq'
    · rw [hp', hq']
    · cases hn
      exact absurd ⟨q, hq, hqn⟩ hnew
    · cases hqn
      exact absurd ⟨p, hlen, hn⟩ hnew
    · exact hinv p n hlen hown hn q hq hqn

/-- An edit keeps the invariant of the half. -/
lemma Edit.ownHalf (h : Edit own fresh root mem mem') (hinv : OwnHalf own mem root) :
    OwnHalf own mem' root := by
  -- an entry of a table that was reached, in a place the invariant speaks of
  have hold : ∀ p n j, p.length ≤ 2 → OwnPath own (p ++ [j]) → follow next mem root p = some n →
      has (mem' n j) present = true →
      has (mem' n j) huge = false ∧ has (mem' n j) writable = true := by
    intro p n j hlen hown hn hpres
    obtain heq | ⟨_, -, -, -, -, hagree, hlink⟩ := h.entry ⟨p, by omega, hn⟩ j
    · rw [heq] at hpres ⊢
      exact hinv.linked p n j hlen hown hn hpres
    · cases hbefore : has (mem n j) present with
      | false => exact hlink hbefore
      | true =>
          rw [(hagree hbefore).huge_eq, (hagree hbefore).writable_eq]
          exact hinv.linked p n j hlen hown hn hbefore
  refine ⟨h.alone hinv.alone, fun p n j hlen hown hn hpres => ?_⟩
  obtain hsame | ⟨p', new, hp, hnew, hzero, hfollow⟩ := h.follow_eq hinv.alone
  · rw [hsame p (by omega)] at hn
    exact hold p n j hlen hown hn hpres
  · rw [hfollow p (by omega)] at hn
    split_ifs at hn with hp'
    · cases hn
      rw [hzero] at hpres
      cases hpres
    · exact hold p n j hlen hown hn hpres

lemma Edits.ownHalf (h : Edits own fresh root mem mem') (hinv : OwnHalf own mem root) :
    OwnHalf own mem' root := by
  induction h with
  | refl => exact hinv
  | tail _ hedit ih => exact hedit.ownHalf ih

/-- An edit changes no translation. -/
lemma Edit.translate_eq (h : Edit own fresh root mem mem') (hinv : OwnHalf own mem root)
    (window va : ℕ) :
    PageTables.translate ⟨root, window⟩ mem' va = PageTables.translate ⟨root, window⟩ mem va := by
  rw [PageTables.translate, PageTables.translate]
  split
  swap
  · rfl
  have hdepth : ∀ {p j}, p ++ [j] <+: tableIndices va → p.length ≤ 3 := by
    intro p j hp
    have hlen := hp.length_le
    rw [List.length_append, List.length_singleton, length_tableIndices] at hlen
    omega
  cases h with
  | zero n _ hnew =>
      refine walk_congr fun p j hp x hx => ?_
      have hne : x ≠ n := by
        rintro rfl
        exact hnew ⟨p, hdepth hp, hx⟩
      rw [Radix.fill_of_ne hne]
      exact .refl _
  | allow p n i hlen hown hn hpres =>
      refine walk_congr fun q j hq x hx => ?_
      by_cases hsame : x = n ∧ j = i
      · obtain ⟨rfl, rfl⟩ := hsame
        rw [Radix.write_self]
        exact agreeButUser_or_user _
      · rw [Radix.write_of_ne hsame]
        exact .refl _
  | link p n i new isUser hlen hown hn hnone _ hnew hzero halign hlt =>
      have halone := hinv.alone p n (by omega) hown.of_append hn
      by_cases hpre : p ++ [i] <+: tableIndices va
      · -- before, the walk ended at the missing entry; now it ends in the empty table
        obtain ⟨rest, hrest⟩ := hpre
        have hlen4 := length_tableIndices va
        rw [← hrest] at hlen4
        cases rest with
        | nil =>
            simp only [List.append_nil, List.length_append, List.length_singleton] at hlen4
            omega
        | cons j rest =>
            have hne : new ≠ n := by
              rintro rfl
              exact hnew ⟨p, by omega, hn⟩
            have hnew' : follow next
                (Radix.write mem n i (new ||| PageTables.reachable isUser)) root
                (p ++ [i]) = some new := by
              rw [Radix.follow_snoc, Radix.follow_write_of_none (next_of_not_present hnone) hn,
                Option.bind_some, Radix.write_self, next_link isUser halign hlt]
            rw [walk_eq_none (le_refl 4) ⟨j :: rest, hrest⟩ hn hnone,
              walk_eq_none (le_refl 4) ⟨rest, by rw [← hrest]; simp⟩ hnew' (j := j)]
            rw [Radix.write_of_ne fun h => hne h.1, hzero]
            rfl
      · refine walk_congr fun q j hq x hx => ?_
        have hsame : ¬(x = n ∧ j = i) := by
          rintro ⟨rfl, rfl⟩
          obtain rfl := halone q (hdepth hq) hx
          exact hpre hq
        rw [Radix.write_of_ne hsame]
        exact .refl _

lemma Edits.translate_eq (h : Edits own fresh root mem mem') (hinv : OwnHalf own mem root)
    (window va : ℕ) :
    PageTables.translate ⟨root, window⟩ mem' va = PageTables.translate ⟨root, window⟩ mem va := by
  induction h with
  | refl => rfl
  | tail hedits hedit ih => rw [hedit.translate_eq (Edits.ownHalf hedits hinv) window va, ih]

/-! ### Leaf writes -/

/-- Writing a leaf of the half changes no path to a table. -/
lemma OwnAlone.follow_writeLeaf (hinv : OwnAlone own mem root) {p : List (Fin 512)} {table : ℕ}
    (hlen : p.length = 3) (hown : OwnPath own p) (htable : follow next mem root p = some table)
    (i : Fin 512) (leaf : ℕ) {q : List (Fin 512)} (hq : q.length ≤ 3) :
    follow next (Radix.write mem table i leaf) root q = follow next mem root q := by
  refine Radix.follow_write (hinv p table hlen.le hown htable) (by omega) fun hpre => ?_
  have := hpre.length_le
  rw [List.length_append, List.length_singleton] at this
  omega

lemma OwnAlone.writeLeaf (hinv : OwnAlone own mem root) {p : List (Fin 512)} {table : ℕ}
    (hlen : p.length = 3) (hown : OwnPath own p) (htable : follow next mem root p = some table)
    (i : Fin 512) (leaf : ℕ) : OwnAlone own (Radix.write mem table i leaf) root := by
  intro p' n hlen' hown' hn q hq hqn
  rw [hinv.follow_writeLeaf hlen hown htable i leaf hlen'] at hn
  rw [hinv.follow_writeLeaf hlen hown htable i leaf hq] at hqn
  exact hinv p' n hlen' hown' hn q hq hqn

lemma OwnHalf.follow_writeLeaf (hinv : OwnHalf own mem root) {p : List (Fin 512)} {table : ℕ}
    (hlen : p.length = 3) (hown : OwnPath own p) (htable : follow next mem root p = some table)
    (i : Fin 512) (leaf : ℕ) {q : List (Fin 512)} (hq : q.length ≤ 3) :
    follow next (Radix.write mem table i leaf) root q = follow next mem root q :=
  OwnAlone.follow_writeLeaf hinv.alone hlen hown htable i leaf hq

/-- Writing a leaf keeps the invariant of the half. -/
lemma OwnHalf.writeLeaf (hinv : OwnHalf own mem root) {p : List (Fin 512)} {table : ℕ}
    (hlen : p.length = 3) (hown : OwnPath own p) (htable : follow next mem root p = some table)
    (i : Fin 512) (leaf : ℕ) : OwnHalf own (Radix.write mem table i leaf) root := by
  refine ⟨OwnAlone.writeLeaf hinv.alone hlen hown htable i leaf,
    fun p' n j hlen' hown' hn hpres => ?_⟩
  rw [hinv.follow_writeLeaf hlen hown htable i leaf (by omega)] at hn
  have hne : n ≠ table := by
    rintro rfl
    have := hinv.alone p n hlen.le hown htable p' (by omega) hn
    rw [this] at hlen'
    omega
  rw [Radix.write_of_ne fun h => hne h.1] at hpres ⊢
  exact hinv.linked p' n j hlen' hown' hn hpres

/-- Every upper entry on the way to a table of the half is writable. -/
lemma OwnHalf.writable (hinv : OwnHalf own mem root) {p : List (Fin 512)} {table : ℕ}
    (hlen : p.length ≤ 3) (hown : OwnPath own p) (htable : follow next mem root p = some table) :
    ∀ q i, q ++ [i] <+: p → ∀ m, follow next mem root q = some m →
      has (mem m i) Paging.writable = true := by
  rintro q i ⟨rest, rfl⟩ m hm
  simp only [List.length_append, List.length_singleton] at hlen
  rw [Radix.follow_append, Radix.follow_snoc, hm, Option.bind_some] at htable
  obtain ⟨n, hn, -⟩ := Option.bind_eq_some_iff.mp htable
  exact (hinv.linked q m i (by omega) hown.of_append hm (next_eq_some hn).1).2

/-- What a page of the half translates to, read from its leaf. -/
lemma OwnHalf.translate_eq (hinv : OwnHalf own mem root) {va table : ℕ}
    (hcanon : isCanonical va = true) (hown : OwnPath own ((tableIndices va).take 3))
    (htable : follow next mem root ((tableIndices va).take 3) = some table) (window : ℕ) :
    PageTables.translate ⟨root, window⟩ mem va
      = if has (mem table (tableIndex va 12)) present then
          some ⟨(mem table (tableIndex va 12) &&& addressMask) + va % frameSize,
            has (mem table (tableIndex va 12)) Paging.writable, frameSize⟩
        else none := by
  rw [PageTables.translate, if_pos hcanon, tableIndices_eq]
  cases hpres : has (mem table (tableIndex va 12)) present with
  | true =>
      rw [walk_of_follow rfl htable (hinv.writable (le_refl 3) hown htable) hpres]
      simp
  | false =>
      rw [walk_eq_none (le_refl 4) List.prefix_rfl htable hpres]
      simp

/-- Writing a leaf of the half changes the translation of no other page. -/
lemma OwnHalf.translate_writeLeaf (hinv : OwnHalf own mem root) {page va table : ℕ}
    (hcanon : isCanonical page = true) (hown : OwnPath own ((tableIndices page).take 3))
    (htable : follow next mem root ((tableIndices page).take 3) = some table) (leaf window : ℕ)
    (hva : pageContaining va ≠ pageContaining page) :
    PageTables.translate ⟨root, window⟩ (Radix.write mem table (tableIndex page 12) leaf) va
      = PageTables.translate ⟨root, window⟩ mem va := by
  rw [PageTables.translate, PageTables.translate]
  split
  · rename_i hva'
    refine walk_congr fun p j hp n hn => ?_
    have hlen := hp.length_le
    rw [List.length_append, List.length_singleton, length_tableIndices] at hlen
    have hne : ¬(n = table ∧ j = tableIndex page 12) := by
      rintro ⟨rfl, rfl⟩
      obtain rfl := hinv.alone _ n (le_refl 3) hown htable p (by omega) hn
      rw [← tableIndices_eq] at hp
      have heq := hp.eq_of_length rfl
      exact hva (tableIndices_inj hva' hcanon heq.symm)
    rw [Radix.write_of_ne hne]
    exact .refl _
  · rfl

end Keeps

/-- `map` keeps the invariant of the half its page is found in. -/
lemma map_ownHalf {own : Fin 512 → Prop} {σ : Type*} {tables : PageTables} {src : FrameSource σ}
    {page : ℕ} {frame : PhysFrame} {flags : PageFlags} {mem : Memory} {s : σ}
    (hinv : OwnHalf own mem tables.root) (hown : own (tableIndex page 39))
    (hfresh : src.Fresh 3 (tablesOf mem tables.root) s) :
    OwnHalf own (tables.map src page frame flags mem s).2.1 tables.root := by
  obtain ⟨-, mem₁, hedits, ⟨-, -, hmem⟩ | ⟨-, table, htable, -, hmem⟩⟩ :=
    @map_cases _ _ tables _ _ frame flags _ _ hfresh hown
  · rw [hmem]
    exact Edits.ownHalf hedits hinv
  · rw [hmem]
    exact (Edits.ownHalf hedits hinv).writeLeaf rfl (ownPath_of_slot hown) htable _ _

/-! ### A root just made -/

/-- A root whose slots in the half are empty, and whose others point where another root's
did, has the invariant. -/
lemma ownHalf_of_root {own : Fin 512 → Prop} {mem : Memory} {old new : ℕ}
    {entries : Fin 512 → ℕ} (hnew : ¬Reached next mem old 3 new)
    (hent : ∀ i n, next (entries i) = some n → next (mem old i) = some n)
    (hown : ∀ i, own i → has (entries i) present = false) :
    OwnHalf own (Radix.fill mem new entries) new := by
  -- the only path into the half is the empty one
  have hnil : ∀ p n, OwnPath own p → follow next (Radix.fill mem new entries) new p = some n →
      p = [] := by
    intro p n hp hn
    cases p with
    | nil => rfl
    | cons i p =>
        rw [follow, Radix.fill_self, next_of_not_present (hown i (hp i rfl))] at hn
        cases hn
  refine ⟨fun p n _ hp hn q hq hqn => ?_, fun p n j _ hp hn hpres => ?_⟩
  · obtain rfl := hnil p n hp hn
    obtain rfl : new = n := by simpa [follow] using hn
    by_contra hne
    exact hnew ⟨q, hq, Radix.follow_fill_root hent hnew (by omega) hne hqn⟩
  · obtain rfl := hnil p n hp.of_append hn
    obtain rfl : new = n := by simpa [follow] using hn
    rw [Radix.fill_self, hown j (hp j rfl)] at hpres
    cases hpres

end Harlan.Paging
