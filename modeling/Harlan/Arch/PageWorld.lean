import Mathlib.Tactic
import Harlan.Arch.UserHalf

/-!
Several roots over one memory: the kernel's, and one for each process, sharing the kernel's
tables.

`Use` says what each frame is in use as, and `World` that every table a root reaches is in
use as exactly that: the tables of the kernel half by their path alone, whichever root reads
them, and those of a lower half by the process and the path. A table therefore has one path,
and a process's lower half is reached through its own root only.

* `World.zero`, `World.link`, `World.allow`, `World.writeLeaf`: what each write of the mapper
  does to it, whichever root it is made through.
* `World.edits`: a descent keeps it, giving a use to the tables it adds.
* `World.addRoot`, `World.congr`, `World.retype`: making a space, writing to anything but its
  tables, and giving one up.
-/

namespace Harlan.Paging

open Radix (follow Reached Alone)

/-- What a frame is in use as. -/
inductive Use where
  | free
  /-- Something this development does not follow further. -/
  | other
  /-- A table of the kernel half, at the end of a path. -/
  | shared (path : List (Fin 512))
  /-- A table of the lower half of a process, at the end of a path. -/
  | table (id : ℕ) (path : List (Fin 512))
  /-- Memory of a process; with a page, what is behind that page of its kernel stack. -/
  | held (id : ℕ) (page : Option ℕ)

/-- Whether a path starts in the kernel half. -/
def startsInKernel : List (Fin 512) → Bool
  | [] => false
  | i :: _ => decide (PageTables.kernelSlot ≤ i)

/-- What the end of a path is in use as, below the kernel's root or a process's. -/
def kindOf : Option ℕ → List (Fin 512) → Use
  | none, p => .shared p
  | some id, p => if startsInKernel p then .shared p else .table id p

/-- Every table a root reaches is in use as the end of its path. -/
structure World (use : ℕ → Use) (roots : Set (Option ℕ × ℕ)) (mem : Memory) : Prop where
  kind : ∀ o root, (o, root) ∈ roots → ∀ p n, p.length ≤ 3 → follow next mem root p = some n →
    use n = kindOf o p
  /-- A present slot of a process's lower half links a table. -/
  slots : ∀ id root, (some id, root) ∈ roots → ∀ i, Half.lower.Slot i →
    has (mem root i) present = true → has (mem root i) huge = false

/-! ### Kinds -/

lemma kindOf_inj {o o' : Option ℕ} {p q : List (Fin 512)} (h : kindOf o p = kindOf o' q) :
    p = q := by
  cases o with
  | none =>
      cases o' with
      | none => exact Use.shared.inj h
      | some id' =>
          simp only [kindOf] at h
          split at h
          · exact Use.shared.inj h
          · cases h
  | some id =>
      cases o' with
      | none =>
          simp only [kindOf] at h
          split at h
          · exact Use.shared.inj h
          · cases h
      | some id' =>
          simp only [kindOf] at h
          split at h <;> split at h
          · exact Use.shared.inj h
          · cases h
          · cases h
          · exact (Use.table.inj h).2

/-- Roots that agree on what a table is agree on what hangs below it. -/
lemma kindOf_snoc {o o' : Option ℕ} {p q : List (Fin 512)} (h : kindOf o p = kindOf o' q)
    (i : Fin 512) : kindOf o (p ++ [i]) = kindOf o' (q ++ [i]) := by
  obtain rfl := kindOf_inj h
  cases p with
  | nil =>
      cases o <;> cases o' <;> simp [kindOf, startsInKernel] at h ⊢
      rw [h]
  | cons j p =>
      have hstep : startsInKernel (j :: p ++ [i]) = startsInKernel (j :: p) := rfl
      rw [kindOf.eq_def, kindOf.eq_def] at h ⊢
      cases hstart : startsInKernel (j :: p) <;> cases o <;> cases o' <;>
        simp_all

lemma kindOf_ne_free (o : Option ℕ) (p : List (Fin 512)) : kindOf o p ≠ .free := by
  cases o with
  | none => exact Use.noConfusion
  | some id =>
      simp only [kindOf]
      split <;> exact Use.noConfusion

namespace World

variable {use : ℕ → Use} {roots : Set (Option ℕ × ℕ)} {mem mem' : Memory}

/-- A frame that is free is no table of any root. -/
lemma not_reached (h : World use roots mem) {o : Option ℕ} {root n : ℕ}
    (hroot : (o, root) ∈ roots) (hfree : use n = .free) : ¬Reached next mem root 3 n := by
  rintro ⟨p, hp, hn⟩
  have := h.kind o root hroot p n hp hn
  rw [hfree] at this
  exact kindOf_ne_free o p this.symm

lemma root_kind (h : World use roots mem) {o : Option ℕ} {root : ℕ} (hroot : (o, root) ∈ roots) :
    use root = kindOf o [] :=
  h.kind o root hroot [] root (by simp) rfl

/-- Memory that agrees on every table reached, and uses that agree on them too. -/
lemma congr {use' : ℕ → Use} {roots' : Set (Option ℕ × ℕ)} (h : World use roots mem)
    (hroots : roots' ⊆ roots)
    (hmem : ∀ o root, (o, root) ∈ roots' → ∀ n, Reached next mem root 3 n → mem' n = mem n)
    (huse : ∀ o root, (o, root) ∈ roots' → ∀ n, Reached next mem root 3 n → use' n = use n) :
    World use' roots' mem' := by
  refine ⟨fun o root hroot p n hp hn => ?_, fun id root hroot i hi hpres => ?_⟩
  · have hsame : follow next mem' root p = follow next mem root p := by
      refine Radix.follow_congr fun q j hq x hx => ?_
      have hlen := hq.length_le
      rw [List.length_append, List.length_singleton] at hlen
      rw [hmem o root hroot x ⟨q, by omega, hx⟩]
    rw [hsame] at hn
    rw [huse o root hroot n ⟨p, hp, hn⟩]
    exact h.kind o root (hroots hroot) p n hp hn
  · rw [hmem (some id) root hroot root ⟨[], by simp, rfl⟩] at hpres ⊢
    exact h.slots id root (hroots hroot) i hi hpres

/-- Zeroing a free frame. -/
lemma zero (h : World use roots mem) {n : ℕ} (hfree : use n = .free) (entries : Fin 512 → ℕ) :
    World use roots (Radix.fill mem n entries) := by
  refine h.congr (Set.Subset.refl _) (fun o root hroot x hx => ?_) fun _ _ _ _ _ => rfl
  refine Radix.fill_of_ne ?_
  rintro rfl
  exact h.not_reached hroot hfree hx

/-- Changing the use of a free frame. -/
lemma retype (h : World use roots mem) {n : ℕ} (hfree : use n = .free) (u : Use) :
    World (Function.update use n u) roots mem := by
  refine h.congr (Set.Subset.refl _) (fun _ _ _ _ _ => rfl) fun o root hroot x hx => ?_
  refine Function.update_of_ne ?_ _ _
  rintro rfl
  exact h.not_reached hroot hfree hx

/-- Linking a free, empty table below one a root reaches. -/
lemma link (h : World use roots mem) {o : Option ℕ} {root n new : ℕ} {p : List (Fin 512)}
    {i : Fin 512} {isUser : Bool} (hroot : (o, root) ∈ roots) (hlen : p.length ≤ 2)
    (hn : follow next mem root p = some n) (hnone : has (mem n i) present = false)
    (hfree : use new = .free) (hzero : ∀ j, mem new j = 0) (halign : new % frameSize = 0)
    (hlt : new < 2 ^ 52) :
    World (Function.update use new (kindOf o (p ++ [i]))) roots
      (Radix.write mem n i (new ||| PageTables.reachable isUser)) := by
  have hnext := @next_link new isUser halign hlt
  have hnew : ∀ j, next (mem new j) = none := by
    intro j
    rw [hzero]
    rfl
  have hnkind := h.kind o root hroot p n (by omega) hn
  have hne : new ≠ n := by
    rintro rfl
    rw [hfree] at hnkind
    exact kindOf_ne_free _ _ hnkind.symm
  refine ⟨fun o' root' hroot' q x hq hx => ?_, fun id root' hroot' j hj hpres => ?_⟩
  · obtain rfl | hx₀ := Radix.follow_link_cases hnext hnew hne hx
    · rw [Function.update_self]
      -- the last step of the path to the new table is the entry just written
      obtain ⟨q, rfl, hqn⟩ := Radix.follow_link_last hnext hnew hne
        (fun h' => h.not_reached hroot' hfree ⟨q, hq, h'⟩) hx
      have hqlen : q.length ≤ 3 := by
        rw [List.length_append, List.length_singleton] at hq
        omega
      exact kindOf_snoc (hnkind.symm.trans (h.kind o' root' hroot' q n hqlen hqn)) i
    · rw [Function.update_of_ne]
      · exact h.kind o' root' hroot' q x hq hx₀
      · rintro rfl
        exact h.not_reached hroot' hfree ⟨q, hq, hx₀⟩
  · by_cases hsame : root' = n ∧ j = i
    · obtain ⟨rfl, rfl⟩ := hsame
      rw [Radix.write_self]
      exact has_huge_link isUser halign
    · rw [Radix.write_of_ne hsame] at hpres ⊢
      exact h.slots id root' hroot' j hj hpres

/-- Letting ring 3 pass through an entry. -/
lemma allow (h : World use roots mem) (n : ℕ) (i : Fin 512) :
    World use roots (Radix.write mem n i (mem n i ||| user)) := by
  have hagree := agreeButUser_or_user (mem n i)
  refine ⟨fun o root hroot p x hp hx => ?_, fun id root hroot j hj hpres => ?_⟩
  · rw [Radix.follow_write_of_ptr_eq hagree.next_eq] at hx
    exact h.kind o root hroot p x hp hx
  · by_cases hsame : root = n ∧ j = i
    · obtain ⟨rfl, rfl⟩ := hsame
      rw [Radix.write_self, hagree.present_eq] at hpres
      rw [Radix.write_self, hagree.huge_eq]
      exact h.slots id root hroot j hj hpres
    · rw [Radix.write_of_ne hsame] at hpres ⊢
      exact h.slots id root hroot j hj hpres

/-- A leaf write changes no path. -/
lemma follow_writeLeaf (h : World use roots mem) {o o' : Option ℕ} {root root' table : ℕ}
    {p q : List (Fin 512)} (hroot : (o, root) ∈ roots) (hlen : p.length = 3)
    (htable : follow next mem root p = some table) (hroot' : (o', root') ∈ roots)
    (hq : q.length ≤ 3) (i : Fin 512) (leaf : ℕ) :
    follow next (Radix.write mem table i leaf) root' q = follow next mem root' q := by
  refine Radix.follow_congr fun q' j hq' x hx => ?_
  have hlen' := hq'.length_le
  rw [List.length_append, List.length_singleton] at hlen'
  rw [Radix.write_of_ne]
  rintro ⟨rfl, -⟩
  have hkind := (h.kind o root hroot p x hlen.le htable).symm.trans
    (h.kind o' root' hroot' q' x (by omega) hx)
  rw [kindOf_inj hkind] at hlen
  omega

/-- Writing a leaf. -/
lemma writeLeaf (h : World use roots mem) {o : Option ℕ} {root table : ℕ} {p : List (Fin 512)}
    (hroot : (o, root) ∈ roots) (hlen : p.length = 3)
    (htable : follow next mem root p = some table) (i : Fin 512) (leaf : ℕ) :
    World use roots (Radix.write mem table i leaf) := by
  refine ⟨fun o' root' hroot' q x hq hx => ?_, fun id root' hroot' j hj hpres => ?_⟩
  · rw [h.follow_writeLeaf hroot hlen htable hroot' hq] at hx
    exact h.kind o' root' hroot' q x hq hx
  · have hne : root' ≠ table := by
      rintro rfl
      have hkind := (h.kind o root hroot p _ hlen.le htable).symm.trans (h.root_kind hroot')
      rw [kindOf_inj hkind] at hlen
      cases hlen
    rw [Radix.write_of_ne fun hsame => hne hsame.1] at hpres ⊢
    exact h.slots id root' hroot' j hj hpres

/-- A table at the end of a full path, and the entries of it that are present, stay. -/
def KeepsLeaves (roots : Set (Option ℕ × ℕ)) (mem mem' : Memory) : Prop :=
  ∀ o root, (o, root) ∈ roots → ∀ p table, p.length = 3 → follow next mem root p = some table →
    follow next mem' root p = some table
      ∧ ∀ i, has (mem table i) present = true → mem' table i = mem table i

lemma KeepsLeaves.trans {mem'' : Memory} (h : KeepsLeaves roots mem mem')
    (h' : KeepsLeaves roots mem' mem'') : KeepsLeaves roots mem mem'' := by
  intro o root hroot p table hp htable
  obtain ⟨htable', hkeep⟩ := h o root hroot p table hp htable
  obtain ⟨htable'', hkeep'⟩ := h' o root hroot p table hp htable'
  refine ⟨htable'', fun i hi => ?_⟩
  have hsame := hkeep i hi
  rw [hkeep' i (by rw [hsame, hi]), hsame]

/-- Zeroing a free frame keeps the leaves. -/
lemma zero_keepsLeaves (h : World use roots mem) {n : ℕ} (hfree : use n = .free)
    (entries : Fin 512 → ℕ) : KeepsLeaves roots mem (Radix.fill mem n entries) := by
  intro o root hroot p table hp htable
  refine ⟨?_, fun i _ => ?_⟩
  · rw [Radix.follow_fill (h.not_reached hroot hfree) (by omega), htable]
  · rw [Radix.fill_of_ne]
    rintro rfl
    exact h.not_reached hroot hfree ⟨p, hp.le, htable⟩

/-- One edit, whatever root it is made through. -/
lemma edit (h : World use roots mem) {own : Fin 512 → Prop} {fresh : Set ℕ} {o : Option ℕ}
    {root : ℕ} (hroot : (o, root) ∈ roots) (hedit : Edit own fresh root mem mem')
    (hfree : ∀ n ∈ fresh, ¬Reached next mem root 3 n → use n = .free) :
    KeepsLeaves roots mem mem'
      ∧ ∃ use', World use' roots mem' ∧ (∀ n, n ∉ fresh → use' n = use n)
        ∧ (∀ n ∈ fresh, ¬Reached next mem' root 3 n → use' n = .free)
        ∧ ∀ n, use' n = use n ∨ ∃ p, p ≠ [] ∧ use' n = kindOf o p := by
  -- a table an edit writes to is none at the end of a full path
  have hupper : ∀ {p : List (Fin 512)} {n : ℕ} (i : Fin 512) (e : ℕ), p.length ≤ 2 →
      follow next mem root p = some n → ∀ o' root', (o', root') ∈ roots →
      ∀ q table, q.length = 3 → follow next mem root' q = some table →
      ∀ j, Radix.write mem n i e table j = mem table j := by
    intro p n i e hp hn o' root' hroot' q table hq htable j
    refine Radix.write_of_ne ?_
    rintro ⟨rfl, -⟩
    have hkind := (h.kind o root hroot p table (by omega) hn).symm.trans
      (h.kind o' root' hroot' q table hq.le htable)
    rw [kindOf_inj hkind] at hp
    omega
  cases hedit with
  | zero n hn hnew =>
      have hfree' := hfree n hn hnew
      refine ⟨h.zero_keepsLeaves hfree' _, use, h.zero hfree' _, fun _ _ => rfl,
        fun x hx hreach => ?_, fun _ => .inl rfl⟩
      refine hfree x hx fun hreach' => hreach ?_
      obtain ⟨p, hp, hxp⟩ := hreach'
      exact ⟨p, hp, by rw [follow_zero hnew (by omega), hxp]⟩
  | allow p n i hlen _ hn hpres =>
      have hsame := @Radix.follow_write_of_ptr_eq _ _ _ _ _ _ mem _ _ _
        (agreeButUser_or_user (mem n i)).next_eq
      refine ⟨fun o' root' hroot' q table hq htable => ⟨by rw [hsame, htable], fun j _ =>
        hupper i _ hlen hn o' root' hroot' q table hq htable j⟩, use, h.allow n i, fun _ _ => rfl,
        fun x hx hreach => hfree x hx fun ⟨q, hq, hxq⟩ => hreach ⟨q, hq, by rw [hsame, hxq]⟩,
        fun _ => .inl rfl⟩
  | link p n i new isUser hlen _ hn hnone hfresh hnew hzero halign hlt =>
      have hfree' := hfree new hfresh hnew
      have hkept : ∀ {root' x : ℕ} {q : List (Fin 512)}, follow next mem root' q = some x →
          follow next (Radix.write mem n i (new ||| PageTables.reachable isUser)) root'
            q = some x :=
        fun hx => Radix.follow_write_of_none (next_of_not_present hnone) hx
      refine ⟨fun o' root' hroot' q table hq htable => ⟨hkept htable, fun j _ =>
        hupper i _ hlen hn o' root' hroot' q table hq htable j⟩, _,
        @World.link _ _ _ h _ _ _ _ _ _ isUser hroot hlen hn hnone hfree' hzero halign hlt,
        fun x hx => ?_,
        fun x hx hreach => ?_, fun x => ?_⟩
      · refine Function.update_of_ne ?_ _ _
        rintro rfl
        exact hx hfresh
      · rw [Function.update_of_ne]
        · exact hfree x hx fun ⟨q, hq, hxq⟩ => hreach ⟨q, hq, hkept hxq⟩
        · rintro rfl
          refine hreach ⟨p ++ [i], by simp; omega, ?_⟩
          rw [Radix.follow_snoc, hkept hn, Option.bind_some, Radix.write_self,
            next_link isUser halign hlt]
      · by_cases hx : x = new
        · subst hx
          exact .inr ⟨p ++ [i], by simp, Function.update_self _ _ _⟩
        · exact .inl (Function.update_of_ne hx _ _)

/-- A descent keeps the world, giving a use to the tables it adds. -/
lemma edits (h : World use roots mem) {own : Fin 512 → Prop} {fresh : Set ℕ} {o : Option ℕ}
    {root : ℕ} (hroot : (o, root) ∈ roots) (hedits : Edits own fresh root mem mem')
    (hfree : ∀ n ∈ fresh, use n = .free) :
    KeepsLeaves roots mem mem'
      ∧ ∃ use', World use' roots mem' ∧ (∀ n, n ∉ fresh → use' n = use n)
        ∧ ∀ n, use' n = use n ∨ ∃ p, p ≠ [] ∧ use' n = kindOf o p := by
  suffices hstrong : KeepsLeaves roots mem mem' ∧ ∃ use', World use' roots mem'
      ∧ (∀ n, n ∉ fresh → use' n = use n)
      ∧ (∀ n ∈ fresh, ¬Reached next mem' root 3 n → use' n = .free)
      ∧ ∀ n, use' n = use n ∨ ∃ p, p ≠ [] ∧ use' n = kindOf o p by
    obtain ⟨hleaves, use', hworld, hsame, -, hkind⟩ := hstrong
    exact ⟨hleaves, use', hworld, hsame, hkind⟩
  induction hedits with
  | refl =>
      exact ⟨fun _ _ _ _ _ _ htable => ⟨htable, fun _ _ => rfl⟩, use, h, fun _ _ => rfl,
        fun n hn _ => hfree n hn, fun _ => .inl rfl⟩
  | tail _ hedit ih =>
      obtain ⟨hleaves, use₁, hworld₁, hsame₁, hfree₁, hkind₁⟩ := ih
      obtain ⟨hleaves₂, use₂, hworld₂, hsame₂, hfree₂, hkind₂⟩ := hworld₁.edit hroot hedit hfree₁
      refine ⟨hleaves.trans hleaves₂, use₂, hworld₂, fun n hn => ?_, hfree₂, fun n => ?_⟩
      · rw [hsame₂ n hn, hsame₁ n hn]
      · obtain heq | hp := hkind₂ n
        · rw [heq]
          exact hkind₁ n
        · exact .inr hp

/-- A leaf written where there was none keeps the leaves. -/
lemma writeLeaf_keepsLeaves (h : World use roots mem) {o : Option ℕ} {root table : ℕ}
    {p : List (Fin 512)} (hroot : (o, root) ∈ roots) (hlen : p.length = 3)
    (htable : follow next mem root p = some table) {i : Fin 512} (leaf : ℕ)
    (hnone : has (mem table i) present = false) :
    KeepsLeaves roots mem (Radix.write mem table i leaf) := by
  intro o' root' hroot' q table' hq htable'
  refine ⟨by rw [h.follow_writeLeaf hroot hlen htable hroot' hq.le, htable'], fun j hj => ?_⟩
  refine Radix.write_of_ne ?_
  rintro ⟨rfl, rfl⟩
  rw [hj] at hnone
  cases hnone

/-- A call of `map`, whatever root it is made through. -/
lemma map (h : World use roots mem) {σ : Type*} {o : Option ℕ} {tables : PageTables}
    (hroot : (o, tables.root) ∈ roots) {src : FrameSource σ} {page : ℕ} {frame : PhysFrame}
    {flags : PageFlags} {s : σ} (hfresh : src.Fresh 3 {n | use n ≠ .free} s)
    (hfree : ∀ n ∈ src.taken s (tables.map src page frame flags mem s).2.2, use n = .free) :
    KeepsLeaves roots mem (tables.map src page frame flags mem s).2.1
      ∧ (∃ use', World use' roots (tables.map src page frame flags mem s).2.1
        ∧ (∀ n, n ∉ src.taken s (tables.map src page frame flags mem s).2.2 → use' n = use n)
        ∧ ∀ n, use' n = use n ∨ ∃ p, p ≠ [] ∧ use' n = kindOf o p)
      ∧ ((tables.map src page frame flags mem s).1 = .ok () →
          ∃ table, follow next (tables.map src page frame flags mem s).2.1 tables.root
              ((tableIndices page).take 3) = some table
            ∧ (tables.map src page frame flags mem s).2.1 table (tableIndex page 12)
              = PageTables.leafEntry frame flags
            ∧ ∀ table', follow next mem tables.root ((tableIndices page).take 3) = some table' →
              has (mem table' (tableIndex page 12)) present = false) := by
  have hsub : tablesOf mem tables.root ⊆ {n | use n ≠ .free} := fun n hn hfree' =>
    h.not_reached hroot hfree' hn
  obtain ⟨-, mem₁, hedits, hcases⟩ := @map_cases _ (fun _ => True) tables _ page frame flags _ _
    (hfresh.mono hsub) trivial
  obtain ⟨hleaves, use', hworld, hsame, hkind⟩ := h.edits hroot hedits hfree
  obtain ⟨err, herr, hmem⟩ | ⟨hok, table, htable, hnone, hmem⟩ := hcases
  · rw [hmem, herr]
    exact ⟨hleaves, ⟨use', hworld, hsame, hkind⟩, fun h => by cases h⟩
  · rw [hmem]
    refine ⟨hleaves.trans (hworld.writeLeaf_keepsLeaves hroot rfl htable _ hnone),
      ⟨use', hworld.writeLeaf hroot rfl htable _ _, hsame, hkind⟩, fun _ => ⟨table, ?_, ?_, ?_⟩⟩
    · rw [hworld.follow_writeLeaf hroot rfl htable hroot (le_refl 3), htable]
    · exact Radix.write_self _ _ _ _
    · intro table' htable'
      obtain ⟨htable₁, hkeep⟩ := hleaves o tables.root hroot _ table' rfl htable'
      obtain rfl : table = table' := Option.some.inj (htable.symm.trans htable₁)
      by_contra hpres
      rw [hkeep _ (by simpa using hpres)] at hnone
      exact hpres hnone

/-- A new root that copies slots of the kernel half and nothing else. -/
lemma addRoot (h : World use roots mem) {kernelRoot new id : ℕ} {entries : Fin 512 → ℕ}
    (hkernel : (none, kernelRoot) ∈ roots) (hfree : use new = .free)
    (hcopied : ∀ i, PageTables.kernelSlot ≤ i.val → entries i = mem kernelRoot i)
    (hempty : ∀ i, i.val < PageTables.kernelSlot → entries i = 0) :
    World (Function.update use new (.table id [])) (insert (some id, new) roots)
      (Radix.fill mem new entries) := by
  have hold := (h.zero hfree entries).retype hfree (.table id [])
  have hnext : ∀ i n, next (entries i) = some n → next (mem kernelRoot i) = some n := by
    intro i n hi
    by_cases hslot : PageTables.kernelSlot ≤ i.val
    · rwa [hcopied i hslot] at hi
    · rw [hempty i (by omega)] at hi
      cases hi
  refine ⟨fun o root hroot p n hp hn => ?_, fun id' root hroot i hi hpres => ?_⟩
  · obtain hroot | hroot := hroot
    · obtain ⟨rfl, rfl⟩ := Prod.mk.inj hroot
      cases p with
      | nil =>
          obtain rfl : root = n := by simpa [follow] using hn
          rw [Function.update_self]
          rfl
      | cons i p =>
          have hn₀ := Radix.follow_fill_root hnext (h.not_reached hkernel hfree) (by omega)
            (by simp) hn
          have hne : n ≠ root := by
            rintro rfl
            exact h.not_reached hkernel hfree ⟨i :: p, hp, hn₀⟩
          have hslot : PageTables.kernelSlot ≤ i.val := by
            by_contra hslot
            rw [follow, Radix.fill_self, hempty i (by omega)] at hn
            cases hn
          rw [Function.update_of_ne hne, h.kind none kernelRoot hkernel _ n hp hn₀]
          simp [kindOf, startsInKernel, hslot]
    · exact hold.kind o root hroot p n hp hn
  · obtain hroot | hroot := hroot
    · obtain ⟨-, rfl⟩ := Prod.mk.inj hroot
      rw [Half.Slot] at hi
      rw [Radix.fill_self, hempty i hi] at hpres
      cases hpres
    · exact hold.slots id' root hroot i hi hpres

end World

end Harlan.Paging
