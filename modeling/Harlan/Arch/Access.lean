import Mathlib.Tactic
import Harlan.Arch.UserHalf

/-!
What the CPU lets be done at an address.

`translate` answers where an address is and whether it may be written. The CPU gives a right only
if every level of its walk gives it, and has two more: whether ring 3 may pass, and whether
instructions may be fetched.

* `PageTables.access`: the walk with all rights; `access_translate` says that it is `translate`
  otherwise.
* `OpenHalf`: no upper table of a lower half takes a right away; user mappings keep it.
* `LeafAt`: what a page is mapped to; `LeafAt.access` reads the walk off it.
* `map_open`, `map_leafAt`, `map_leafAt_new`, `map_same`: what a user mapping does to upper
  tables, to leaves, and to memory that is no table. -/

namespace Harlan.Paging

open Radix (follow Reached Alone)

/-! ### Rights -/

/-- What a walk lets its user do with a page: write it, reach it from ring 3, run it. -/
structure Rights where
  writable : Bool
  user : Bool
  executable : Bool
deriving DecidableEq

/-- The rights at the root, before any entry has taken one away. -/
def Rights.all : Rights := ⟨true, true, true⟩

/-- The rights left after one more level. -/
def Rights.through (r : Rights) (entry : ℕ) : Rights :=
  ⟨r.writable && has entry Paging.writable, r.user && has entry Paging.user,
    r.executable && !has entry noExecute⟩

/-- The walk of the CPU, from a table at a level on. -/
def accessWalk (mem : Memory) (va : ℕ) : List (Fin 512) → ℕ → ℕ → Rights → Option (ℕ × Rights)
  | [], _, _, _ => none
  | index :: rest, level, table, r =>
      let entry := mem table index
      if !has entry present || (level == 0 && has entry huge) then none
      else
        let r := r.through entry
        if level == 3 || has entry huge then
          let size := 2 ^ (39 - 9 * level)
          let base := entry &&& addressMask &&& (u64Max - (size - 1))
          some (base + (va &&& (size - 1)), r)
        else accessWalk mem va rest (level + 1) (entry &&& addressMask) r

/-- Where an address is, and what may be done there. -/
def PageTables.access (tables : PageTables) (mem : Memory) (va : ℕ) : Option (ℕ × Rights) :=
  if isCanonical va then accessWalk mem va (tableIndices va) 0 tables.root .all else none

lemma accessWalk_walk {mem : Memory} {va : ℕ} {path : List (Fin 512)} {level table : ℕ}
    {r : Rights} :
    (accessWalk mem va path level table r).map (fun a => (a.1, a.2.writable))
      = (walk mem va path level table r.writable).map fun t => (t.phys, t.writable) := by
  induction path generalizing level table r with
  | nil => rfl
  | cons index rest ih =>
      rw [accessWalk, walk]
      dsimp only
      split
      · rfl
      · split
        · rfl
        · exact ih

/-- The walk of the CPU finds what `translate` finds. -/
lemma access_translate (tables : PageTables) (mem : Memory) (va : ℕ) :
    (tables.access mem va).map (fun a => (a.1, a.2.writable))
      = (tables.translate mem va).map fun t => (t.phys, t.writable) := by
  rw [PageTables.access, PageTables.translate]
  split
  · exact accessWalk_walk
  · rfl

/-- An entry that takes no right away. -/
def Open (entry : ℕ) : Prop :=
  has entry writable = true ∧ has entry user = true ∧ has entry noExecute = false

lemma Open.through {entry : ℕ} (h : Open entry) (r : Rights) : r.through entry = r := by
  obtain ⟨hw, hu, hx⟩ := h
  simp [Rights.through, hw, hu, hx]

/-- A walk down open tables ends with the rights of the leaf. -/
lemma accessWalk_of_follow {mem : Memory} {va : ℕ} {p : List (Fin 512)} {j : Fin 512}
    {level table n : ℕ} {r : Rights} (hlevel : level + p.length = 3)
    (hn : follow next mem table p = some n)
    (hopen : ∀ q i, q ++ [i] <+: p → ∀ m, follow next mem table q = some m → Open (mem m i))
    (hj : has (mem n j) present = true) :
    accessWalk mem va (p ++ [j]) level table r
      = some ((mem n j &&& addressMask) + va % frameSize, r.through (mem n j)) := by
  induction p generalizing level table with
  | nil =>
      obtain rfl : level = 3 := by simpa using hlevel
      obtain rfl : table = n := by simpa [Radix.follow] using hn
      simp only [List.nil_append, accessWalk, hj, Bool.not_true, Bool.false_or]
      rw [and_pageMask, and_offset]
      rfl
  | cons i p ih =>
      obtain ⟨n', hn', hrest⟩ := Option.bind_eq_some_iff.mp hn
      obtain ⟨hpres, hhuge, haddr⟩ := next_eq_some hn'
      rw [List.length_cons] at hlevel
      have h3 : level ≠ 3 := by omega
      have hi : Open (mem table i) := hopen [] i ⟨p, rfl⟩ table rfl
      rw [List.cons_append, accessWalk, haddr]
      dsimp only
      rw [hi.through]
      simp only [hpres, hhuge, h3, Bool.not_true, Bool.and_false, Bool.or_false, beq_iff_eq,
        Bool.false_eq_true, if_false]
      refine ih (by omega) hrest fun q i' hq m hm => ?_
      refine hopen (i :: q) i' (List.cons_prefix_cons.mpr ⟨rfl, hq⟩) m ?_
      rw [Radix.follow, hn']
      exact hm

/-! ### Upper tables that take nothing away -/

/-- Every upper entry of the lower half lets ring 3 pass and instructions be fetched. -/
def OpenHalf (mem : Memory) (root : ℕ) : Prop :=
  ∀ p n j, p.length ≤ 2 → OwnPath Half.lower.Slot (p ++ [j]) → follow next mem root p = some n →
    has (mem n j) present = true → has (mem n j) user = true ∧ has (mem n j) noExecute = false

section OpenHalf

variable {mem mem' : Memory} {root : ℕ} {fresh avoid : Set ℕ}

/-- Every upper entry on the way to a table of the half is open. -/
lemma OpenHalf.on_path (h : OpenHalf mem root) (hinv : OwnHalf Half.lower.Slot mem root)
    {p : List (Fin 512)} {table : ℕ} (hlen : p.length ≤ 3) (hown : OwnPath Half.lower.Slot p)
    (htable : follow next mem root p = some table) :
    ∀ q i, q ++ [i] <+: p → ∀ m, follow next mem root q = some m → Open (mem m i) := by
  rintro q i hq m hm
  have hwritable := hinv.writable hlen hown htable q i hq m hm
  obtain ⟨rest, rfl⟩ := hq
  simp only [List.length_append, List.length_singleton] at hlen
  rw [Radix.follow_append, Radix.follow_snoc, hm, Option.bind_some] at htable
  obtain ⟨n, hn, -⟩ := Option.bind_eq_some_iff.mp htable
  obtain ⟨huser, hexec⟩ := h q m i (by omega) hown.of_append hm (next_eq_some hn).1
  exact ⟨hwritable, huser, hexec⟩

lemma OpenHalf.fetched (h : OpenHalf mem root)
    (hfetched : Fetched Half.lower.Slot fresh root avoid mem mem')
    (havoid : tablesOf mem root ⊆ avoid) :
    OpenHalf mem' root := by
  intro p n j hlen hown hn hpres
  rw [hfetched.follow_eq p (by omega)] at hn
  rw [hfetched.same n (havoid ⟨p, by omega, hn⟩)] at hpres ⊢
  exact h p n j hlen hown hn hpres

lemma has_user_link {new : ℕ} : has (new ||| PageTables.reachable true) user = true := by
  rw [has_user, Nat.testBit_or, show (PageTables.reachable true).testBit 2 = true by decide,
    Bool.or_true]

lemma has_noExecute_link {new : ℕ} (hlt : new < 2 ^ 52) (isUser : Bool) :
    has (new ||| PageTables.reachable isUser) noExecute = false := by
  have hbit : new.testBit 63 = false :=
    Nat.testBit_lt_two_pow (Nat.lt_of_lt_of_le hlt (by norm_num))
  rw [has_noExecute, Nat.testBit_or, hbit]
  cases isUser <;> decide

/-- A table linked for ring 3. -/
lemma OpenHalf.link (h : OpenHalf mem root) (hinv : OwnHalf Half.lower.Slot mem root)
    {p : List (Fin 512)} {n new : ℕ} {i : Fin 512} (hlen : p.length ≤ 2)
    (hown : OwnPath Half.lower.Slot (p ++ [i])) (hn : follow next mem root p = some n)
    (hnone : has (mem n i) present = false) (hnew : ¬Reached next mem root 3 new)
    (hzero : ∀ j, mem new j = 0) (halign : new % frameSize = 0) (hlt : new < 2 ^ 52) :
    OpenHalf (Radix.write mem n i (new ||| PageTables.reachable true)) root := by
  intro q x j hq hqown hx hpres
  have hne : new ≠ n := by
    rintro rfl
    exact hnew ⟨p, by omega, hn⟩
  by_cases hhere : x = n ∧ j = i
  · obtain ⟨rfl, rfl⟩ := hhere
    rw [Radix.write_self]
    exact ⟨has_user_link, has_noExecute_link hlt true⟩
  · rw [Radix.write_of_ne hhere] at hpres ⊢
    rw [Radix.follow_link hn (hinv.alone p n (by omega) hown.of_append hn) (by omega)
      (next_of_not_present hnone) (next_link true halign hlt) (fun j => by rw [hzero]; rfl) hne
      (by omega)] at hx
    split_ifs at hx with hqp
    · obtain rfl := Option.some.inj hx
      rw [hzero] at hpres
      cases hpres
    · exact h q x j hq hqown hx hpres

lemma OpenHalf.allow (h : OpenHalf mem root) (n : ℕ) (i : Fin 512) :
    OpenHalf (Radix.write mem n i (mem n i ||| user)) root := by
  have hagree := agreeButUser_or_user (mem n i)
  intro q x j hq hqown hx hpres
  rw [Radix.follow_write_of_ptr_eq hagree.next_eq] at hx
  by_cases hhere : x = n ∧ j = i
  · obtain ⟨rfl, rfl⟩ := hhere
    rw [Radix.write_self] at hpres ⊢
    rw [hagree.present_eq] at hpres
    obtain ⟨-, hexec⟩ := h q x j hq hqown hx hpres
    refine ⟨?_, ?_⟩
    · rw [has_user, Nat.testBit_or, show user.testBit 2 = true by decide, Bool.or_true]
    · rw [has_noExecute, hagree 63 (by decide), ← has_noExecute]
      exact hexec
  · rw [Radix.write_of_ne hhere] at hpres ⊢
    exact h q x j hq hqown hx hpres

lemma OpenHalf.writeLeaf (h : OpenHalf mem root) (hinv : OwnHalf Half.lower.Slot mem root)
    {p : List (Fin 512)} {table : ℕ} (hlen : p.length = 3) (hown : OwnPath Half.lower.Slot p)
    (htable : follow next mem root p = some table) (i : Fin 512) (leaf : ℕ) :
    OpenHalf (Radix.write mem table i leaf) root := by
  intro q x j hq hqown hx hpres
  rw [hinv.follow_writeLeaf hlen hown htable i leaf (by omega)] at hx
  have hne : ¬(x = table ∧ j = i) := by
    rintro ⟨rfl, -⟩
    have hlen' := congrArg List.length (hinv.alone p x hlen.le hown htable q (by omega) hx)
    omega
  rw [Radix.write_of_ne hne] at hpres ⊢
  exact h q x j hq hqown hx hpres

/-- A descent for ring 3 opens every table it links. -/
lemma descend_open {σ : Type*} (tables : PageTables) {src : FrameSource σ}
    {indices p : List (Fin 512)} {table : ℕ} {s : σ} (h : OpenHalf mem root)
    (hinv : OwnHalf Half.lower.Slot mem root)
    (hat : Descending Half.lower.Slot src root avoid p indices table mem s) :
    OpenHalf (tables.descend src true indices table mem s).2.1 root := by
  induction indices generalizing p table mem s avoid with
  | nil => exact h
  | cons index rest ih =>
      cases hat.step tables true with
      | noTable err mem' s' hnew hrun hfetched hlater =>
          rw [hrun]
          exact h.fetched hfetched hat.reach
      | link new mem' s' hnew hrun hfetched hlater htaken hzero halign hlt hlink hrest =>
          rw [hrun]
          have hinv' := Edits.ownHalf hfetched.edits hinv
          have hedit := hat.linkEdit hlink (Set.mem_univ new) hzero halign hlt
          exact ih ((h.fetched hfetched hat.reach).link hinv' hat.length_le
            hat.stepInHalf hlink.path
            hlink.absent hlink.unreached hzero halign hlt) (hedit.ownHalf hinv') hrest
      | huge hrun =>
          rw [hrun]
          exact h
      | allow hpres hrun hsame hrest =>
          rw [hrun]
          have hedit := hat.allowEdit Set.univ hpres
          exact ih (h.allow table index) (hedit.ownHalf hinv) hrest
      | follow hrun hrest =>
          rw [hrun]
          exact ih h hinv hrest

end OpenHalf

/-! ### Leaves -/

/-- A page is mapped by an entry. -/
def LeafAt (mem : Memory) (root page entry : ℕ) : Prop :=
  has entry present = true ∧ ∃ table,
    follow next mem root ((tableIndices page).take 3) = some table
      ∧ mem table (tableIndex page 12) = entry

section Leaves

variable {own : Fin 512 → Prop} {mem mem' : Memory} {root page entry : ℕ} {fresh : Set ℕ}

/-- An edit changes no leaf. -/
lemma LeafAt.edit (h : LeafAt mem root page entry) (hinv : OwnHalf own mem root)
    (hown : OwnPath own ((tableIndices page).take 3)) (hedit : Edit own fresh root mem mem') :
    LeafAt mem' root page entry := by
  obtain ⟨hpres, table, htable, rfl⟩ := h
  refine ⟨hpres, table, (hedit.agree (le_refl 3) htable hpres).1, ?_⟩
  obtain heq | ⟨p, hp, -, hpn, -⟩ := hedit.entry ⟨_, le_refl 3, htable⟩ (tableIndex page 12)
  · exact heq
  · have hlen := congrArg List.length
      (hinv.alone _ table (le_refl 3) hown htable p (by omega) hpn)
    rw [show ((tableIndices page).take 3).length = 3 from rfl] at hlen
    omega

lemma LeafAt.edits (h : LeafAt mem root page entry) (hinv : OwnHalf own mem root)
    (hown : OwnPath own ((tableIndices page).take 3)) (hedits : Edits own fresh root mem mem') :
    LeafAt mem' root page entry := by
  induction hedits with
  | refl => exact h
  | tail hbefore hedit ih => exact ih.edit (Edits.ownHalf hbefore hinv) hown hedit

/-- A leaf written where there was none is not one that was there. -/
lemma LeafAt.writeLeaf (h : LeafAt mem root page entry) {table : ℕ} {i : Fin 512}
    (hnone : has (mem table i) present = false) (leaf : ℕ) :
    LeafAt (Radix.write mem table i leaf) root page entry := by
  obtain ⟨hpres, table', htable', rfl⟩ := h
  refine ⟨hpres, table', Radix.follow_write_of_none (next_of_not_present hnone) htable', ?_⟩
  refine Radix.write_of_ne ?_
  rintro ⟨rfl, rfl⟩
  rw [hpres] at hnone
  cases hnone

/-- An edit writes a table that was reached, or one that is new. -/
lemma Edit.same (h : Edit own fresh root mem mem') {n : ℕ} (hn : n ∉ tablesOf mem root)
    (hfresh : n ∉ fresh) : mem' n = mem n := by
  cases h with
  | zero x hx _ =>
      refine Radix.fill_of_ne ?_
      rintro rfl
      exact hfresh hx
  | link p x i new isUser hlen _ hx =>
      funext j
      refine Radix.write_of_ne ?_
      rintro ⟨rfl, -⟩
      exact hn ⟨p, by omega, hx⟩
  | allow p x i hlen _ hx =>
      funext j
      refine Radix.write_of_ne ?_
      rintro ⟨rfl, -⟩
      exact hn ⟨p, by omega, hx⟩

lemma Edits.same (h : Edits own fresh root mem mem') {n : ℕ} (hn : n ∉ tablesOf mem root)
    (hfresh : n ∉ fresh) : mem' n = mem n := by
  induction h with
  | refl => rfl
  | tail hbefore hedit ih =>
      rw [hedit.same (fun hmem => ?_) hfresh, ih]
      rcases Edits.tablesOf_subset hbefore hmem with hold | hnew
      · exact hn hold
      · exact hfresh hnew

end Leaves

/-! ### What a user mapping does -/

section Map

variable {σ : Type*} {tables : PageTables} {src : FrameSource σ} {s : σ} {page : ℕ}
  {frame : PhysFrame} {flags : PageFlags} {mem : Memory}

lemma map_open (h : OpenHalf mem tables.root) (hinv : OwnHalf Half.lower.Slot mem tables.root)
    (huser : flags.user = true) (hpage : page.testBit 47 = false)
    (hfresh : src.Fresh 3 (tablesOf mem tables.root) s) :
    OpenHalf (tables.map src page frame flags mem s).2.1 tables.root := by
  have hslot := tableIndex_lower.mpr hpage
  have hown : OwnPath Half.lower.Slot ([] ++ (tableIndices page).take 3) := ownPath_of_slot hslot
  have hat := @Descending.start _ _ _ src _ _ _ _ hfresh (Set.Subset.refl _) hslot
  have hopen := descend_open tables h hinv hat
  obtain ⟨hedits, -, hpath⟩ := @descend_spec _ _ _ _ _ _ _ _ _ tables true _ hat
  rw [PageTables.map, huser]
  split
  · exact h
  · rcases hres : tables.descend src true ((tableIndices page).take 3) tables.root mem s
      with ⟨err | table, mem₁, s₁⟩
    · rw [hres] at hopen
      exact hopen
    · rw [hres] at hopen hedits hpath
      dsimp only at hopen hedits hpath ⊢
      split
      · exact hopen
      · exact hopen.writeLeaf (Edits.ownHalf hedits hinv) rfl hown (hpath table rfl) _ _

/-- What is mapped stays as it is. -/
lemma map_leafAt {page' entry : ℕ} (h : LeafAt mem tables.root page' entry)
    (hinv : OwnHalf Half.lower.Slot mem tables.root) (hpage : page.testBit 47 = false)
    (hpage' : page'.testBit 47 = false) (hfresh : src.Fresh 3 (tablesOf mem tables.root) s) :
    LeafAt (tables.map src page frame flags mem s).2.1 tables.root page' entry := by
  have hown' := ownPath_of_slot (tableIndex_lower.mpr hpage')
  obtain ⟨-, mem₁, hedits, ⟨-, -, hmem⟩ | ⟨-, table, -, hnone, hmem⟩⟩ :=
    @map_cases _ _ tables _ _ frame flags _ _ hfresh (tableIndex_lower.mpr hpage)
  · rw [hmem]
    exact h.edits hinv hown' hedits
  · rw [hmem]
    exact (h.edits hinv hown' hedits).writeLeaf hnone _

/-- A mapping that succeeds is of a page that was not mapped, and now is. -/
lemma map_leafAt_new (hinv : OwnHalf Half.lower.Slot mem tables.root)
    (hpage : page.testBit 47 = false) (hfresh : src.Fresh 3 (tablesOf mem tables.root) s)
    (hok : (tables.map src page frame flags mem s).1 = .ok ()) :
    (∀ entry, ¬LeafAt mem tables.root page entry)
      ∧ LeafAt (tables.map src page frame flags mem s).2.1 tables.root page
        (PageTables.leafEntry frame flags) := by
  have hown := ownPath_of_slot (tableIndex_lower.mpr hpage)
  obtain ⟨-, mem₁, hedits, ⟨err, herr, -⟩ | ⟨-, table, htable, hnone, hmem⟩⟩ :=
    @map_cases _ _ tables _ _ frame flags _ _ hfresh (tableIndex_lower.mpr hpage)
  · rw [hok] at herr
    cases herr
  · refine ⟨fun entry hentry => ?_, ?_⟩
    · obtain ⟨hpres, table', htable', rfl⟩ := hentry.edits hinv hown hedits
      obtain rfl : table = table' := Option.some.inj (htable.symm.trans htable')
      rw [hpres] at hnone
      cases hnone
    · rw [hmem]
      exact ⟨has_present_leaf frame flags, table,
        Radix.follow_write_of_none (next_of_not_present hnone) htable, Radix.write_self _ _ _ _⟩

/-- Memory that is no table stays as it is. -/
lemma map_same (hpage : page.testBit 47 = false)
    (hfresh : src.Fresh 3 (tablesOf mem tables.root) s) {n : ℕ}
    (hn : n ∉ tablesOf mem tables.root)
    (htaken : n ∉ src.taken s (tables.map src page frame flags mem s).2.2) :
    (tables.map src page frame flags mem s).2.1 n = mem n := by
  obtain ⟨-, mem₁, hedits, ⟨-, -, hmem⟩ | ⟨-, table, htable, -, hmem⟩⟩ :=
    @map_cases _ _ tables _ _ frame flags _ _ hfresh (tableIndex_lower.mpr hpage)
  · rw [hmem]
    exact Edits.same hedits hn htaken
  · rw [hmem, ← Edits.same hedits hn htaken]
    funext j
    refine Radix.write_of_ne ?_
    rintro ⟨rfl, -⟩
    rcases Edits.tablesOf_subset hedits ⟨_, le_refl 3, htable⟩ with hold | hnew
    · exact hn hold
    · exact htaken hnew

end Map

/-- A space just made: its lower half is open, for there is nothing in it, and the only table that
is its own is its root. -/
lemma newProcessSpace_open {σ : Type*} {src : FrameSource σ} {s s' : σ} {mem mem' : Memory}
    {kernel tables : PageTables} (hfresh : src.Fresh 1 (tablesOf mem kernel.root) s)
    (h : kernel.newProcessSpace src mem s = (.ok tables, mem', s')) :
    OpenHalf mem' tables.root ∧ src.Later s s' ∧ tables.root ∈ src.taken s s'
      ∧ tablesOf mem' tables.root ⊆ insert tables.root (tablesOf mem kernel.root) := by
  obtain ⟨hfetched, hlater, hok⟩ := @newTable_spec _ Half.lower.Slot _ kernel _ _ _ _ _ hfresh
    (Set.Subset.refl _)
  rw [PageTables.newProcessSpace] at h
  rcases hnew : kernel.newTable src mem s with ⟨err | new, mem₁, s₁⟩
  · rw [hnew] at h
    cases h
  · rw [hnew] at h hfetched hlater hok
    cases h
    obtain ⟨-, -, hout, htaken, hzero, -⟩ := hok new rfl
    dsimp only at hfetched hzero
    have hreach : ¬Reached next mem₁ kernel.root 3 new := by
      intro hr
      have hmem : new ∈ tablesOf mem₁ kernel.root := hr
      rw [tablesOf_congr hfetched.follow_eq] at hmem
      exact hout hmem
    refine ⟨fun p n j _ hown hn hpres => ?_, hlater, htaken, ?_⟩
    · have hslot : ∀ i, Half.lower.Slot i → Radix.fill mem₁ new (fun slot : Fin 512 =>
          if PageTables.kernelSlot ≤ slot then
            mem₁ kernel.root slot else mem₁ new slot) new i = 0 := by
        intro i hi
        rw [Half.Slot] at hi
        rw [Radix.fill_self, if_neg (by omega), hzero]
      cases p with
      | nil =>
          obtain rfl : new = n := by simpa [Radix.follow] using hn
          rw [hslot j (hown j rfl)] at hpres
          cases hpres
      | cons i p =>
          rw [Radix.follow, hslot i (hown i rfl)] at hn
          cases hn
    · rintro n ⟨p, hp, hn⟩
      cases p with
      | nil => exact .inl (Option.some.inj hn).symm
      | cons i p =>
          have hent : ∀ (i : Fin 512) x,
              next (if PageTables.kernelSlot ≤ i then mem₁ kernel.root i
              else mem₁ new i) = some x → next (mem₁ kernel.root i) = some x := by
            intro i x hx
            split at hx
            · exact hx
            · rw [hzero] at hx
              cases hx
          have hold := Radix.follow_fill_root hent hreach (by omega) (by simp) hn
          rw [hfetched.follow_eq _ (by omega)] at hold
          exact .inr ⟨i :: p, hp, hold⟩

/-- What the CPU finds at an address of a page that is mapped in a half that is open. -/
lemma LeafAt.access {tables : PageTables} {mem : Memory} {page entry va : ℕ}
    (h : LeafAt mem tables.root page entry) (hinv : OwnHalf Half.lower.Slot mem tables.root)
    (hopen : OpenHalf mem tables.root) (hva : va < 2 ^ 47) (hpage : pageContaining va = page) :
    tables.access mem va
      = some ((entry &&& addressMask) + va % frameSize, Rights.all.through entry) := by
  obtain ⟨hpres, table, htable, rfl⟩ := h
  have hindices : tableIndices page = tableIndices va := by
    refine tableIndices_eq_of_page ?_
    rw [← hpage]
    simp only [pageContaining, frameSize]
    omega
  have hindex : tableIndex page 12 = tableIndex va 12 := by
    have hlast := congrArg List.getLast? hindices
    simpa [tableIndices] using hlast
  rw [hindices] at htable
  rw [hindex] at hpres ⊢
  have hown : OwnPath Half.lower.Slot ((tableIndices va).take 3) :=
    ownPath_of_slot (tableIndex_lower.mpr (Nat.testBit_lt_two_pow hva))
  have hcanon : isCanonical va = true := by
    rw [isCanonical, Nat.shiftRight_eq_div_pow, Nat.div_eq_of_lt hva]
    rfl
  rw [PageTables.access, if_pos hcanon, tableIndices_eq]
  exact accessWalk_of_follow rfl htable (hopen.on_path hinv (le_refl 3) hown htable) hpres

end Harlan.Paging
