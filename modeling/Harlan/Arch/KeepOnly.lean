import Mathlib.Tactic
import Harlan.Arch.LowerHalf

/-!
What `keep_only` leaves of the lower half.

The tables are built before they are linked. What is argued about is the memory as it would be if
they were linked already (`joined`): there they are a lower half like any other, each step of the
walk is an edit of it, and each page a leaf that is written.

* `Keeping`: the invariant of the tables under way; `findOrAdd_spec` keeps it.
* `KeptTo`: the pages kept so far are mapped as they should be, and no other; `keepPage_spec` adds
  one.
* `mem_keptPages`: the pages the loop visits are those a range touches.
* `keepOnly_exact`: **what is kept is mapped, and nothing else.**
-/

namespace Harlan.Paging

open Radix (follow Reached Alone)
open PageTables (keptEntry keptPages)

/-! ### Linked already -/

/-- The memory as it is once the tables below `pdpt` are the lower half. -/
def joined (root pdpt : ℕ) (m : Memory) : Memory :=
  PageTables.linkLower root (pdpt ||| PageTables.reachable true) m

section Joined

variable {m : Memory} {root pdpt n : ℕ} {i : Fin 512} {e : ℕ}

lemma joined_of_ne (hn : n ≠ root) : joined root pdpt m n = m n := Radix.fill_of_ne hn

lemma joined_first : joined root pdpt m root 0 = pdpt ||| PageTables.reachable true := by
  rw [joined, PageTables.linkLower, Radix.fill_self, if_pos rfl]

lemma joined_lower (hi : i ≠ 0) (hslot : Half.lower.Slot i) : joined root pdpt m root i = 0 := by
  rw [joined, PageTables.linkLower, Radix.fill_self, if_neg hi]
  exact if_pos hslot

/-- The lower half is cleared first, and then slot 0 is written. -/
lemma joined_eq_write :
    joined root pdpt m = Radix.write (PageTables.linkLower root 0 m) root 0
      (pdpt ||| PageTables.reachable true) := by
  funext n i
  by_cases hn : n = root
  · subst hn
    by_cases hi : i = 0
    · rw [hi, joined_first, Radix.write_self]
    · rw [Radix.write_of_ne (fun h => hi h.2), joined, PageTables.linkLower, PageTables.linkLower,
        Radix.fill_self, Radix.fill_self, if_neg hi, if_neg hi]
  · rw [Radix.write_of_ne (fun h => hn h.1), joined_of_ne hn, PageTables.linkLower,
      Radix.fill_of_ne hn]

lemma joined_fill (hn : n ≠ root) (entries : Fin 512 → ℕ) :
    joined root pdpt (Radix.fill m n entries) = Radix.fill (joined root pdpt m) n entries := by
  funext x j
  by_cases hx : x = root
  · subst hx
    rw [Radix.fill_of_ne (Ne.symm hn), joined, joined, PageTables.linkLower, PageTables.linkLower,
      Radix.fill_self, Radix.fill_self, Radix.fill_of_ne (Ne.symm hn)]
  · rw [joined_of_ne hx]
    by_cases hxn : x = n
    · subst hxn
      rw [Radix.fill_self, Radix.fill_self]
    · rw [Radix.fill_of_ne hxn, Radix.fill_of_ne hxn, joined_of_ne hx]

lemma joined_write (hn : n ≠ root) :
    joined root pdpt (Radix.write m n i e) = Radix.write (joined root pdpt m) n i e := by
  funext x j
  by_cases hx : x = root
  · subst hx
    have hne : ∀ k, ¬(x = n ∧ k = i) := fun k h => hn h.1.symm
    rw [Radix.write_of_ne (hne j), joined, joined, PageTables.linkLower, PageTables.linkLower,
      Radix.fill_self, Radix.fill_self, Radix.write_of_ne (hne j)]
  · rw [joined_of_ne hx]
    by_cases hxn : x = n ∧ j = i
    · obtain ⟨rfl, rfl⟩ := hxn
      rw [Radix.write_self, Radix.write_self]
    · rw [Radix.write_of_ne hxn, Radix.write_of_ne hxn, joined_of_ne hx]

end Joined

/-! ### The tables under way -/

/-- The new lower half, as it would be if it were linked: its tables are its own, none of them was
in use before, and its uppermost does not let ring 3 pass. -/
structure Keeping {σ : Type} (tables : PageTables) (src : FrameSource σ) (mem : Memory)
    (s : σ) (pdpt : ℕ) (used : Set ℕ) (w : Work σ) : Prop where
  underway : Underway tables src mem s used w
  half : OwnHalf Half.lower.Slot (joined tables.root pdpt w.mem) tables.root
  reached : tablesOf (joined tables.root pdpt w.mem) tables.root ⊆ used
  apart : ∀ p n, p ≠ [] → p.length ≤ 3 → OwnPath Half.lower.Slot p →
    follow next (joined tables.root pdpt w.mem) tables.root p = some n →
      n ∉ tablesOf mem tables.root
  ring3 : ∀ i, has (w.mem pdpt i) user = false

section Keeping

variable {σ : Type} {tables : PageTables} {src : FrameSource σ} {mem : Memory} {s : σ} {pdpt : ℕ}
  {used : Set ℕ}
  {w : Work σ}

/-- No path of a lower half but the empty one leads to its root. -/
lemma OwnHalf.ne_root {m : Memory} {root n : ℕ} {p : List (Fin 512)}
    (h : OwnHalf Half.lower.Slot m root) (hne : p ≠ []) (hlen : p.length ≤ 3)
    (hn : follow next m root p = some n) : n ≠ root := by
  rintro rfl
  exact hne (h.alone [] n (Nat.zero_le 3) ownPath_nil rfl p hlen hn)

lemma zero_ownPath (p : List (Fin 512)) : OwnPath Half.lower.Slot (0 :: p) := by
  intro i hi
  obtain rfl : (0 : Fin 512) = i := Option.some.inj hi
  show (0 : ℕ) < PageTables.kernelSlot
  decide

/-- Where the lower slots of a root are empty, no path of the lower half leads below it. -/
lemma path_of_empty {m : Memory} {root n : ℕ} {p : List (Fin 512)}
    (hempty : ∀ i, Half.lower.Slot i → m root i = 0) (hown : OwnPath Half.lower.Slot p)
    (hn : follow next m root p = some n) : p = [] := by
  cases p with
  | nil => rfl
  | cons i p =>
      rw [follow, hempty i (hown i rfl)] at hn
      cases hn

/-- The lower half of a root whose lower slots are empty. -/
lemma ownHalf_empty {m : Memory} {root : ℕ} (hroot : RootApart m root)
    (hempty : ∀ i, Half.lower.Slot i → m root i = 0) : OwnHalf Half.lower.Slot m root := by
  refine ⟨fun p n _ hown hn q hq hqn => ?_, fun p n j _ hown hn hpres => ?_⟩
  · obtain rfl := path_of_empty hempty hown hn
    obtain rfl : root = n := Option.some.inj hn
    obtain hlower | hkernel := ownPath_or_kernelPath q
    · exact path_of_empty hempty hlower hqn
    · exact absurd hqn (hroot q hq hkernel)
  · obtain rfl := path_of_empty hempty hown.of_append hn
    obtain rfl : root = n := Option.some.inj hn
    rw [hempty j (hown j rfl)] at hpres
    cases hpres

/-- A lower half of which only the uppermost table is there. -/
lemma Keeping.start (hroot : RootApart mem tables.root)
    (hunder : Underway tables src mem s used w) (halign : pdpt % frameSize = 0)
    (hlt : pdpt < 2 ^ 52) (hnew : pdpt ∉ tablesOf mem tables.root) (hused : pdpt ∈ used)
    (hzero : ∀ i, w.mem pdpt i = 0) :
    Keeping tables src mem s pdpt used w
      ∧ ∀ a, a < kernelSpaceBase → tables.translate (joined tables.root pdpt w.mem) a = none := by
  -- the memory before slot 0 is written
  generalize hcleared : PageTables.linkLower tables.root 0 w.mem = cleared
  have hsame : KernelTablesSame tables.root mem cleared := by
    rw [← hcleared]
    exact linkLower_kernelTablesSame hroot hunder.untouched
  have hempty : ∀ i, Half.lower.Slot i → cleared tables.root i = 0 := by
    intro i hi
    rw [← hcleared, PageTables.linkLower, Radix.fill_self]
    split
    · rfl
    · exact if_pos hi
  have hne : pdpt ≠ tables.root := by
    rintro rfl
    exact hnew ⟨[], Nat.zero_le 3, rfl⟩
  have hhalf := ownHalf_empty (hsame.rootApart hroot) hempty
  have htables : tablesOf cleared tables.root ⊆ tablesOf mem tables.root := by
    rintro n ⟨p, hp, hn⟩
    obtain hlower | hkernel := ownPath_or_kernelPath p
    · obtain rfl := path_of_empty hempty hlower hn
      exact ⟨[], hp, hn⟩
    · rw [hsame.follow_eq (by omega) hkernel] at hn
      exact ⟨p, hp, hn⟩
  have hpdpt : ∀ i, cleared pdpt i = 0 := by
    intro i
    rw [← hcleared, PageTables.linkLower, Radix.fill_of_ne hne, hzero]
  have hjoined : joined tables.root pdpt w.mem
      = Radix.write cleared tables.root 0 (pdpt ||| PageTables.reachable true) := by
    rw [← hcleared]
    exact joined_eq_write
  have hnotReached : ¬Reached next cleared tables.root 3 pdpt := fun hr => hnew (htables hr)
  have hedit : Edit Half.lower.Slot Set.univ tables.root cleared
      (joined tables.root pdpt w.mem) := by
    rw [hjoined]
    exact .link cleared [] tables.root 0 pdpt true (Nat.zero_le 2) (zero_ownPath []) rfl
      (by rw [hempty 0 (zero_ownPath [] 0 rfl)]; rfl)
      (Set.mem_univ _) hnotReached hpdpt halign hlt
  have hfollow : ∀ q : List (Fin 512), q.length ≤ 3 →
      follow next (joined tables.root pdpt w.mem) tables.root q
      = if q = [0] then some pdpt else follow next cleared tables.root q := by
    intro q hq
    rw [hjoined]
    refine Radix.follow_link rfl (hhalf.alone [] _ (Nat.zero_le 3) ownPath_nil rfl)
      (Nat.zero_le 3) ?_
      (next_link true halign hlt) (fun j => ?_) hne (by omega)
    · rw [hempty 0 (zero_ownPath [] 0 rfl)]
      rfl
    · rw [hpdpt]
      rfl
  refine ⟨⟨hunder, hedit.ownHalf hhalf, ?_, fun p n hp hlen hown hn => ?_,
    fun i => by rw [hzero]; rfl⟩, fun a ha => ?_⟩
  · rw [hjoined]
    refine (tablesOf_link halign hlt hpdpt hne).trans ?_
    rintro n (rfl | hn)
    · exact hused
    · exact hunder.inUse (htables hn)
  · rw [hfollow p hlen] at hn
    split_ifs at hn with hfirst
    · obtain rfl := Option.some.inj hn
      exact hnew
    · exact absurd (path_of_empty hempty hown hn) hp
  · have hnone : tables.translate cleared a = none := by
      rw [PageTables.translate]
      split
      · rename_i hcanon
        refine walk_eq_none (le_refl 4) (p := []) (j := tableIndex a 39) ⟨_, rfl⟩ rfl ?_
        rw [hempty _ (lower_slot ha hcanon)]
        rfl
      · rfl
    exact (hedit.translate_eq hhalf tables.window a).trans hnone

/-- A table hung below one of the new half. -/
lemma Keeping.add (h : Keeping tables src mem s pdpt used w) (hpdpt : pdpt ∈ used)
    {p : List (Fin 512)} {table new : ℕ} {index : Fin 512} {w₁ : Work σ} (hp : p ≠ [])
    (hlen : p.length ≤ 2) (hown : OwnPath Half.lower.Slot (p ++ [index]))
    (htable : follow next (joined tables.root pdpt w.mem) tables.root p = some table)
    (hnone : has (w.mem table index) present = false) (halign : new % frameSize = 0)
    (hlt : new < 2 ^ 52) (hnew : new ∉ used)
    (hunder : Underway tables src mem s (insert new used) w₁)
    (hmem : w₁.mem = Radix.fill w.mem new fun _ => 0) :
    Keeping tables src mem s pdpt (insert new used)
        { w₁ with mem := Radix.write w₁.mem table index (new ||| PageTables.reachable false) }
      ∧ Edits Half.lower.Slot Set.univ tables.root (joined tables.root pdpt w.mem)
        (joined tables.root pdpt
          (Radix.write w₁.mem table index (new ||| PageTables.reachable false)))
      ∧ follow next (joined tables.root pdpt
        (Radix.write w₁.mem table index (new ||| PageTables.reachable false)))
        tables.root (p ++ [index]) = some new := by
  have htable' : table ≠ tables.root := h.half.ne_root hp (by omega) htable
  have hused : table ∈ used := h.reached ⟨p, by omega, htable⟩
  have hroot : new ≠ tables.root := by
    rintro rfl
    exact hnew (h.underway.inUse ⟨[], Nat.zero_le 3, rfl⟩)
  have hne : new ≠ table := by
    rintro rfl
    exact hnew hused
  have hnewPdpt : pdpt ≠ new := by
    rintro rfl
    exact hnew hpdpt
  have hnotReached : ¬Reached next (joined tables.root pdpt w.mem) tables.root 3 new :=
    fun hr => hnew (h.reached hr)
  -- first edit: the new table is zeroed, where no walk reaches it
  have hzero : Edit Half.lower.Slot Set.univ tables.root (joined tables.root pdpt w.mem)
      (joined tables.root pdpt w₁.mem) := by
    rw [hmem, joined_fill hroot]
    exact .zero _ new (Set.mem_univ _) hnotReached
  have hfollow₁ : ∀ q : List (Fin 512), q.length ≤ 4 →
      follow next (joined tables.root pdpt w₁.mem) tables.root q
      = follow next (joined tables.root pdpt w.mem) tables.root q := by
    intro q hq
    rw [hmem, joined_fill hroot]
    exact follow_zero hnotReached hq
  have hhalf₁ := hzero.ownHalf h.half
  have htable₁ : follow next (joined tables.root pdpt w₁.mem) tables.root p = some table := by
    rw [hfollow₁ p (by omega), htable]
  have hnone₁ : has (joined tables.root pdpt w₁.mem table index) present = false := by
    rw [joined_of_ne htable', hmem, Radix.fill_of_ne (Ne.symm hne), hnone]
  have hempty : ∀ j, joined tables.root pdpt w₁.mem new j = 0 := by
    intro j
    rw [joined_of_ne hroot, hmem, Radix.fill_self]
  have hnotReached₁ : ¬Reached next (joined tables.root pdpt w₁.mem) tables.root 3 new := by
    rintro ⟨q, hq, hn⟩
    rw [hfollow₁ q (by omega)] at hn
    exact hnotReached ⟨q, hq, hn⟩
  -- second edit: it is linked, and reached by this one path
  have hlink : Edit Half.lower.Slot Set.univ tables.root (joined tables.root pdpt w₁.mem)
      (joined tables.root pdpt
        (Radix.write w₁.mem table index (new ||| PageTables.reachable false))) := by
    rw [joined_write htable']
    exact .link _ p table index new false hlen hown htable₁ hnone₁
      (Set.mem_univ _) hnotReached₁ hempty halign hlt
  have hfollow₂ : ∀ q : List (Fin 512), q.length ≤ 3 →
      follow next (joined tables.root pdpt
        (Radix.write w₁.mem table index (new ||| PageTables.reachable false)))
        tables.root q
      = if q = p ++ [index] then some new
        else follow next (joined tables.root pdpt w.mem) tables.root q := by
    intro q hq
    rw [joined_write htable', ← hfollow₁ q (by omega)]
    refine Radix.follow_link htable₁
      (hhalf₁.alone p table (by omega) hown.of_append htable₁) (by omega)
      (next_of_not_present hnone₁) (next_link false halign hlt) (fun j => ?_) hne (by omega)
    rw [hempty]
    rfl
  -- what was kept still is
  refine ⟨⟨?_, hlink.ownHalf hhalf₁, ?_, fun q n hq hqlen hqown hn => ?_, fun i => ?_⟩,
    (Relation.ReflTransGen.single hzero).tail hlink, ?_⟩
  · refine hunder.write (h.apart p table hp (by omega) hown.of_append htable) fun n hn => ?_
    funext i
    exact Radix.write_of_ne fun h => hn h.1
  · rintro n ⟨q, hq, hn⟩
    rw [hfollow₂ q hq] at hn
    split_ifs at hn with hhere
    · exact .inl (Option.some.inj hn).symm
    · exact .inr (h.reached ⟨q, hq, hn⟩)
  · dsimp only at hn
    rw [hfollow₂ q hqlen] at hn
    split_ifs at hn with hhere
    · obtain rfl := Option.some.inj hn
      exact fun hmem => hnew (h.underway.inUse hmem)
    · exact h.apart q n hq hqlen hqown hn
  · dsimp only
    by_cases hhere : pdpt = table ∧ i = index
    · obtain ⟨rfl, rfl⟩ := hhere
      rw [Radix.write_self, has_user_plain halign]
    · rw [Radix.write_of_ne hhere, hmem, Radix.fill_of_ne hnewPdpt, h.ring3]
  · rw [hfollow₂ _ (by rw [List.length_append, List.length_singleton]; omega), if_pos rfl]

/-- **Walking down** adds tables that are empty, and changes no address. -/
lemma findOrAdd_spec (h : Keeping tables src mem s pdpt used w) (hpdpt : pdpt ∈ used)
    {indices p : List (Fin 512)} {table : ℕ} (hp : p ≠ []) (hlen : p.length + indices.length = 3)
    (hown : OwnPath Half.lower.Slot (p ++ indices))
    (htable : follow next (joined tables.root pdpt w.mem) tables.root p = some table) :
    Eff.Triple (· = w) (tables.findOrAdd src indices table)
      (fun t w' => ∃ used', pdpt ∈ used' ∧ Keeping tables src mem s pdpt used' w'
        ∧ Edits Half.lower.Slot Set.univ tables.root (joined tables.root pdpt w.mem)
          (joined tables.root pdpt w'.mem)
        ∧ follow next (joined tables.root pdpt w'.mem) tables.root (p ++ indices) = some t)
      (fun _ w' => Untouched mem tables.root w'.mem) := by
  induction indices generalizing p table w used with
  | nil =>
      refine Eff.Triple.pure ?_
      rintro w' rfl
      exact ⟨used, hpdpt, h, .refl, by rwa [List.append_nil]⟩
  | cons index rest ih =>
      rw [List.length_cons] at hlen
      rw [List.append_cons] at hown ⊢
      have hstep : OwnPath Half.lower.Slot (p ++ [index]) := hown.of_append
      have hlen' : (p ++ [index]).length + rest.length = 3 := by
        rw [List.length_append, List.length_singleton]
        omega
      have hne : p ++ [index] ≠ [] := by simp
      have htable' : table ≠ tables.root := h.half.ne_root hp (by omega) htable
      have hsame : joined tables.root pdpt w.mem table index = w.mem table index := by
        rw [joined_of_ne htable']
      rw [PageTables.findOrAdd]
      refine Eff.Triple.bindState
        (Eff.Triple.get (Q := fun a s => w = a ∧ w = s) (by rintro s rfl; exact ⟨rfl, rfl⟩)) ?_
      rintro _ _ ⟨rfl, rfl⟩
      split
      · rename_i hpres
        have hnext : next (joined tables.root pdpt w.mem table index)
            = some (w.mem table index &&& addressMask) := by
          rw [hsame]
          refine next_of_present hpres ?_
          have hlinked := h.half.linked p table index (by omega) hstep htable
          rw [hsame] at hlinked
          exact (hlinked hpres).1
        exact ih h hpdpt hne hlen' hown
          (by rw [Radix.follow_snoc, htable, Option.bind_some, hnext])
      · rename_i hpres
        rw [Bool.not_eq_true] at hpres
        refine Eff.Triple.bindState (takeTable_spec h.underway) ?_
        rintro new w₁ ⟨halign, hlt, hnew, hunder, hmem, -, -⟩
        obtain ⟨hkeeping, hedits, hfollow⟩ :=
          h.add hpdpt hp (by omega) hstep htable hpres halign hlt hnew hunder hmem
        have hvalue : new ||| present ||| writable = new ||| PageTables.reachable false :=
          Nat.or_assoc _ _ _
        rw [hvalue]
        refine Eff.Triple.bindState (Eff.Triple.step (Q := fun _ w₂ =>
          w₂ = { w₁ with
            mem := Radix.write w₁.mem table index (new ||| PageTables.reachable false) }) ?_) ?_
        · rintro w₂ rfl
          rfl
        · rintro - w₂ rfl
          refine (ih hkeeping (.inr hpdpt) hne hlen' hown hfollow).conseq
            (fun _ h => h) ?_ fun _ _ h => h
          rintro t w₃ ⟨used', hpdpt', hkeeping', hedits', hfollow'⟩
          exact ⟨used', hpdpt', hkeeping', hedits.trans hedits', hfollow'⟩

end Keeping

/-! ### The pages that are kept -/

/-- The pages done so far are mapped as they should be, and no other is. -/
structure KeptTo {σ : Type} (tables : PageTables) (src : FrameSource σ) (mem : Memory)
    (s : σ) (pdpt : ℕ) (kept : List (ℕ × MappedRange)) (used : Set ℕ) (w : Work σ) : Prop where
  hpdpt : pdpt ∈ used
  keeping : Keeping tables src mem s pdpt used w
  first : follow next (joined tables.root pdpt w.mem) tables.root [0] = some pdpt
  here : ∀ x ∈ kept, LeafAt (joined tables.root pdpt w.mem) tables.root x.1 (keptEntry x.2 x.1)
  nowhere : ∀ a, a < kernelSpaceBase → pageContaining a ∉ kept.map Prod.fst →
    tables.translate (joined tables.root pdpt w.mem) a = none

section Pages

variable {σ : Type} {tables : PageTables} {src : FrameSource σ} {mem : Memory} {s : σ} {pdpt : ℕ}
  {kept : List (ℕ × MappedRange)} {code : MappedRange} {page : ℕ}

/-- The entry of a page that is kept is a leaf with the rights it should have. -/
lemma keptEntry_eq (frame : PhysFrame) : keptEntry code frame.start
    = PageTables.leafEntry frame ⟨code.writable, code.executable, false, code.cache⟩ := by
  rw [keptEntry, PageTables.leafEntry, if_neg Bool.false_ne_true, Nat.or_zero]

lemma keptEntry_rights (hpage : page % frameSize = 0) (hlt : page < 2 ^ 52) :
    has (keptEntry code page) present = true ∧ has (keptEntry code page) writable = code.writable
      ∧ has (keptEntry code page) noExecute = !code.executable
      ∧ keptEntry code page &&& (cacheDisable ||| writeThrough) = cacheBits code.cache
      ∧ keptEntry code page &&& addressMask = page := by
  have heq := @keptEntry_eq code ⟨page, hpage⟩
  obtain ⟨hp, hw, hx, -, hc⟩ :=
    @leafEntry_rights ⟨page, hpage⟩ hlt ⟨code.writable, code.executable, false, code.cache⟩
  have haddr := @leafEntry_address ⟨page, hpage⟩ hlt ⟨code.writable, code.executable,
    false, code.cache⟩
  rw [← heq] at hp hw hx hc haddr
  exact ⟨hp, hw, hx, hc, haddr⟩

/-- A page below 512 GiB is found below slot 0. -/
lemma take_tableIndices (hlow : page < 2 ^ 39) :
    (tableIndices page).take 3 = [0] ++ [tableIndex page 30, tableIndex page 21] := by
  rw [← first_slot hlow]
  rfl

/-- One page more. -/
lemma keepPage_spec (hpage : page % frameSize = 0) (hlow : page < 2 ^ 39)
    (hnew : page ∉ kept.map Prod.fst) (hlower : ∀ x ∈ kept, x.1 < 2 ^ 39) :
    Eff.Triple (fun w => ∃ used, KeptTo tables src mem s pdpt kept used w)
      (tables.keepPage src pdpt code page)
      (fun _ w => ∃ used, KeptTo tables src mem s pdpt (kept ++ [(page, code)]) used w)
      (fun _ w => Untouched mem tables.root w.mem) := by
  refine .ofState ?_
  rintro w ⟨used, h⟩
  have hpath := take_tableIndices hlow
  have hcanon : isCanonical page = true := isCanonical_iff.mpr (.inl (hlow.trans (by norm_num)))
  have hcontaining : pageContaining page = page := pageContaining_of_aligned hpage
  have hkernel : page < kernelSpaceBase := hlow.trans (by decide)
  have hownOf : ∀ {page' : ℕ}, page' < 2 ^ 39 →
      OwnPath Half.lower.Slot ((tableIndices page').take 3) := by
    intro page' hlow'
    rw [take_tableIndices hlow']
    exact zero_ownPath _
  rw [PageTables.keepPage]
  refine Eff.Triple.bindState
    (findOrAdd_spec h.keeping h.hpdpt (List.cons_ne_nil 0 []) rfl (zero_ownPath _) h.first) ?_
  rintro table w₁ ⟨used₁, hpdpt₁, hkeeping₁, hedits, htable⟩
  rw [← hpath] at htable
  have hhalf₁ := hkeeping₁.half
  have hne : table ≠ tables.root := hhalf₁.ne_root (by simp [hpath]) (le_refl 3) htable
  have hapart : table ∉ tablesOf mem tables.root :=
    hkeeping₁.apart _ table (by simp [hpath]) (le_refl 3) (hownOf hlow) htable
  -- nothing was mapped there, so no leaf of another page is
  have hnone : has (joined tables.root pdpt w₁.mem table (tableIndex page 12)) present
      = false := by
    have hnowhere := h.nowhere page hkernel (by rwa [hcontaining])
    rw [← Edits.translate_eq hedits h.keeping.half tables.window page,
      hhalf₁.translate_eq hcanon (hownOf hlow) htable tables.window] at hnowhere
    by_contra hpres
    rw [Bool.not_eq_false] at hpres
    rw [if_pos hpres] at hnowhere
    cases hnowhere
  have hfirst₁ : follow next (joined tables.root pdpt w₁.mem) tables.root [0] = some pdpt := by
    rw [follow, joined_first]
    have hfirst := h.first
    rwa [follow, joined_first] at hfirst
  have hwrite := @joined_write w₁.mem tables.root pdpt table (tableIndex page 12)
    (keptEntry code page) hne
  have hfollow : ∀ q : List (Fin 512), q.length ≤ 3 →
      follow next (joined tables.root pdpt
        (Radix.write w₁.mem table (tableIndex page 12) (keptEntry code page)))
        tables.root q = follow next (joined tables.root pdpt w₁.mem) tables.root q := by
    intro q hq
    rw [hwrite]
    exact hhalf₁.follow_writeLeaf rfl (hownOf hlow) htable _ _ hq
  have hpdptNe : pdpt ≠ table := by
    rintro rfl
    have hsame := hhalf₁.alone _ pdpt (le_refl 3) (hownOf hlow) htable [0] (by decide) hfirst₁
    rw [hpath] at hsame
    cases hsame
  refine Eff.Triple.step ?_
  rintro w₂ rfl
  refine ⟨used₁, hpdpt₁, ⟨?_, ?_, ?_, fun p n hp hlen hown hn => ?_, fun i => ?_⟩, ?_,
    fun x hx => ?_, fun a ha hout => ?_⟩
  · refine hkeeping₁.underway.write hapart fun n hn => ?_
    funext i
    exact Radix.write_of_ne fun h => hn h.1
  · rw [hwrite]
    exact hhalf₁.writeLeaf rfl (hownOf hlow) htable _ _
  · rintro n ⟨q, hq, hn⟩
    rw [hfollow q hq] at hn
    exact hkeeping₁.reached ⟨q, hq, hn⟩
  · rw [hfollow p hlen] at hn
    exact hkeeping₁.apart p n hp hlen hown hn
  · dsimp only
    rw [Radix.write_of_ne (fun h => hpdptNe h.1)]
    exact hkeeping₁.ring3 i
  · rw [hfollow [0] (by decide)]
    exact hfirst₁
  · rw [hwrite]
    rcases List.mem_append.mp hx with hold | hnew'
    · exact ((h.here x hold).edits h.keeping.half
        (hownOf (hlower x hold)) hedits).writeLeaf hnone _
    · obtain rfl := List.mem_singleton.mp hnew'
      refine ⟨(keptEntry_rights hpage (hlow.trans (by norm_num))).1, table, ?_,
        Radix.write_self _ _ _ _⟩
      rw [← hwrite, hfollow _ (le_refl 3)]
      exact htable
  · rw [List.map_append, List.mem_append, not_or] at hout
    have hother : pageContaining a ≠ pageContaining page := by
      rw [hcontaining]
      exact fun h => hout.2 (List.mem_singleton.mpr h)
    rw [hwrite]
    refine (hhalf₁.translate_writeLeaf hcanon
      (hownOf hlow) htable _ tables.window hother).trans ?_
    exact (Edits.translate_eq hedits h.keeping.half tables.window a).trans (h.nowhere a ha hout.1)

/-- The pages the loop visits for a range, with the range. -/
def pagesOf (code : MappedRange) : List (ℕ × MappedRange) := (keptPages code.range).map (·, code)

lemma keepRange_spec (hpages : ∀ x ∈ kept ++ pagesOf code, x.1 % frameSize = 0 ∧ x.1 < 2 ^ 39)
    (hnodup : ((kept ++ pagesOf code).map Prod.fst).Nodup) :
    Eff.Triple (fun w => ∃ used, KeptTo tables src mem s pdpt kept used w)
      (tables.keepRange src pdpt code)
      (fun _ w => ∃ used, KeptTo tables src mem s pdpt (kept ++ pagesOf code) used w)
      (fun _ w => Untouched mem tables.root w.mem) := by
  have hloop := @Eff.Triple.forEach _ _ ℕ (fun _ w => Untouched mem tables.root w.mem)
    (keptPages code.range)
    (tables.keepPage src pdpt code)
    (fun done w => ∃ used, KeptTo tables src mem s pdpt (kept ++ done.map (·, code)) used w) ?_
  · rwa [List.map_nil, List.append_nil] at hloop
  · intro done page rest hsplit
    have hall : kept ++ pagesOf code = (kept ++ done.map (·, code)) ++ (page, code) :: rest.map
        (·, code) := by
      rw [pagesOf, hsplit, List.map_append, List.map_cons, List.append_assoc]
    rw [hall] at hpages hnodup
    rw [List.map_append, List.map_cons, List.nodup_middle, List.nodup_cons, List.mem_append,
      not_or] at hnodup
    obtain ⟨halign, hlow⟩ := hpages (page, code) (by simp)
    rw [List.map_append, List.map_singleton, ← List.append_assoc]
    exact keepPage_spec halign hlow hnodup.1.1 fun x hx =>
      (hpages x (List.mem_append_left _ hx)).2

lemma keepRanges_spec {keep : List MappedRange}
    (hpages : ∀ x ∈ keep.flatMap pagesOf, x.1 % frameSize = 0 ∧ x.1 < 2 ^ 39)
    (hnodup : ((keep.flatMap pagesOf).map Prod.fst).Nodup) :
    Eff.Triple (fun w => ∃ used, KeptTo tables src mem s pdpt [] used w)
      (Eff.forEach keep (tables.keepRange src pdpt))
      (fun _ w => ∃ used, KeptTo tables src mem s pdpt (keep.flatMap pagesOf) used w)
      (fun _ w => Untouched mem tables.root w.mem) := by
  refine Eff.Triple.forEach
    (I := fun done w => ∃ used, KeptTo tables src mem s pdpt (done.flatMap pagesOf) used w) ?_
  intro done code rest hsplit
  have hall : keep.flatMap pagesOf = (done.flatMap pagesOf ++ pagesOf code)
      ++ rest.flatMap pagesOf := by
    rw [hsplit, List.flatMap_append, List.flatMap_cons, List.append_assoc]
  rw [hall] at hpages hnodup
  rw [List.flatMap_append, List.flatMap_singleton]
  refine keepRange_spec (fun x hx => hpages x (List.mem_append_left _ hx)) ?_
  rw [List.map_append] at hnodup
  exact (List.nodup_append.mp hnodup).1

end Pages

/-! ### What is left of the lower half -/

section Left

variable {σ : Type} {tables : PageTables} {src : FrameSource σ} {mem : Memory} {s : σ}
  {keep : List MappedRange}
  {code : MappedRange} {page : ℕ}

/-- A range that is accepted. -/
structure Keepable (code : MappedRange) : Prop where
  nonempty : code.range.len ≠ 0
  low : code.range.start + code.range.len ≤ 512 * gib

lemma Keepable.endAddr (h : Keepable code) :
    code.range.endAddr = code.range.start + code.range.len := by
  refine if_pos (h.low.trans_lt ?_)
  decide

/-- The loop over a range visits the pages it touches. -/
lemma mem_keptPages (h : Keepable code) :
    page ∈ keptPages code.range ↔ page % frameSize = 0 ∧ code.Touches page := by
  have hlen := h.nonempty
  rw [keptPages, List.mem_map, MappedRange.Touches, h.endAddr, frameSize]
  simp only [List.mem_range]
  constructor
  · rintro ⟨k, hk, rfl⟩
    omega
  · rintro ⟨halign, hafter, hbefore⟩
    exact ⟨page / 4096 - code.range.start / 4096, by omega, by omega⟩

lemma nodup_keptPages (range : PhysRange) : (keptPages range).Nodup := by
  refine List.nodup_range.map fun a b hab => ?_
  simp only [frameSize] at hab
  omega

lemma mem_pagesOf {x : ℕ × MappedRange} (h : Keepable code) :
    x ∈ pagesOf code ↔ (x.1 % frameSize = 0 ∧ code.Touches x.1) ∧ x.2 = code := by
  rw [pagesOf, List.mem_map, ← mem_keptPages h]
  constructor
  · rintro ⟨page, hpage, rfl⟩
    exact ⟨hpage, rfl⟩
  · rintro ⟨hpage, rfl⟩
    exact ⟨x.1, hpage, rfl⟩

lemma touches_low (h : Keepable code) (htouch : code.Touches page) : page < 2 ^ 39 := by
  have hlow := h.low
  have hsize : 512 * gib = 2 ^ 39 := by decide
  obtain ⟨hafter, -⟩ := htouch
  omega

lemma nodup_pages (h : ∀ code ∈ keep, Keepable code)
    (hapart : keep.Pairwise fun code other => ∀ page, page % frameSize = 0 → code.Touches page →
      ¬other.Touches page) :
    ((keep.flatMap pagesOf).map Prod.fst).Nodup := by
  have hfst : ∀ code, (pagesOf code).map Prod.fst = keptPages code.range := by
    intro code
    rw [pagesOf, List.map_map]
    exact List.map_id _
  rw [List.map_flatMap]
  simp only [hfst]
  refine List.nodup_flatMap.mpr ⟨fun code _ => nodup_keptPages code.range, ?_⟩
  refine hapart.imp_of_mem fun {code other} hcode hother hnot => ?_
  refine List.disjoint_left.mpr fun page hpage hpage' => ?_
  obtain ⟨halign, htouch⟩ := (mem_keptPages (h code hcode)).mp hpage
  exact hnot page halign htouch ((mem_keptPages (h other hother)).mp hpage').2

/-- **A call of `keep_only`** writes no table in use, or links tables that keep the ranges. -/
lemma keepOnly_cases (hroot : RootApart mem tables.root)
    (hfresh : ∀ k, src.Fresh k (tablesOf mem tables.root) s)
    (hapart : keep.Pairwise fun code other => ∀ page, page % frameSize = 0 → code.Touches page →
      ¬other.Touches page) :
    (∃ err mem' s', tables.keepOnly src keep mem s = (.error err, mem', s')
      ∧ Untouched mem tables.root mem')
      ∨ ((∀ code ∈ keep, Keepable code) ∧ ∃ pdpt used w,
        KeptTo tables src mem s pdpt (keep.flatMap pagesOf) used w
          ∧ tables.keepOnly src keep mem s
            = (.ok w.tables, joined tables.root pdpt w.mem, w.frames)) := by
  rw [PageTables.keepOnly]
  split_ifs with hrefused
  · exact .inl ⟨_, mem, s, rfl, fun _ _ => rfl⟩
  -- what is not refused ends below the kernel half
  have hkeepable : ∀ code ∈ keep, Keepable code := by
    intro code hcode
    rw [Bool.not_eq_true, List.any_eq_false] at hrefused
    have hcode' := hrefused code hcode
    simp only [Bool.or_eq_true, decide_eq_true_iff, beq_iff_eq, not_or,
      PhysRange.endAddr] at hcode'
    obtain ⟨⟨hlen, -⟩, hend⟩ := hcode'
    have hbig : 512 * gib < u64Max := by decide
    split_ifs at hend with hfits
    · rw [decide_eq_true_iff] at hend
      exact ⟨hlen, Nat.le_of_not_lt hend⟩
    · rw [decide_eq_true_iff] at hend
      exact absurd hbig hend
  have hstart : Underway tables src mem s (tablesOf mem tables.root) ⟨mem, s, 0, 0, 0⟩ :=
    ⟨hfresh, Set.Subset.refl _, fun _ _ => rfl, .none⟩
  have hpages : ∀ x ∈ keep.flatMap pagesOf, x.1 % frameSize = 0 ∧ x.1 < 2 ^ 39 := by
    intro x hx
    obtain ⟨code, hcode, hx⟩ := List.mem_flatMap.mp hx
    obtain ⟨⟨halign, htouch⟩, -⟩ := (mem_pagesOf (hkeepable code hcode)).mp hx
    exact ⟨halign, touches_low (hkeepable code hcode) htouch⟩
  -- the lower half is built aside, below the new table
  have hall : Eff.Triple (· = (⟨mem, s, 0, 0, 0⟩ : Work σ)) (tables.keepAll src keep)
      (fun _ w' => ∃ pdpt used w, KeptTo tables src mem s pdpt (keep.flatMap pagesOf) used w
        ∧ w' = { w with mem := joined tables.root pdpt w.mem })
      (fun _ w' => Untouched mem tables.root w'.mem) := by
    rw [PageTables.keepAll]
    refine Eff.Triple.bindState (takeTable_spec hstart) ?_
    rintro pdpt w₁ ⟨halign, hlt, hnew, hunder, hmem, -, -⟩
    obtain ⟨hkeeping, hnowhere⟩ := Keeping.start hroot hunder halign hlt hnew (.inl rfl)
      (fun i => by rw [hmem, Radix.fill_self])
    have hfirst : follow next (joined tables.root pdpt w₁.mem) tables.root [0] = some pdpt := by
      rw [follow, joined_first, next_link true halign hlt]
      rfl
    refine Eff.Triple.bindState
      ((keepRanges_spec (s := s) hpages (nodup_pages hkeepable hapart)).conseq ?_
      (fun _ _ h => h) fun _ _ h => h) ?_
    · rintro w rfl
      exact ⟨_, .inl rfl, hkeeping, hfirst, fun x hx => absurd hx List.not_mem_nil,
        fun a ha _ => hnowhere a ha⟩
    · rintro - w₂ ⟨used, h⟩
      refine Eff.Triple.step ?_
      rintro w₃ rfl
      refine ⟨pdpt, used, w₃, h, ?_⟩
      have hvalue : pdpt ||| present ||| writable ||| user
          = pdpt ||| PageTables.reachable true := by
        rw [Nat.or_assoc, Nat.or_assoc]
        rfl
      rw [hvalue]
      rfl
  -- and then joined to the root in one write
  have hrun := hall _ rfl
  rcases heq : tables.keepAll src keep ⟨mem, s, 0, 0, 0⟩ with ⟨err | _, w'⟩
  · rw [heq] at hrun
    exact .inl ⟨err, w'.mem, w'.frames, rfl, hrun⟩
  · rw [heq] at hrun
    obtain ⟨pdpt, used, w, hkept, rfl⟩ := hrun
    exact .inr ⟨hkeepable, pdpt, used, w, hkept, rfl⟩

/-- The kernel half reads the same, so its root stays apart. -/
lemma keepOnly_rootApart (hroot : RootApart mem tables.root)
    (hfresh : ∀ k, src.Fresh k (tablesOf mem tables.root) s)
    (hapart : keep.Pairwise fun code other => ∀ page, page % frameSize = 0 → code.Touches page →
      ¬other.Touches page) :
    RootApart (tables.keepOnly src keep mem s).2.1 tables.root := by
  rcases keepOnly_cases hroot hfresh hapart with ⟨err, mem', s', heq, hsame⟩
    | ⟨-, pdpt, used, w, hkept, heq⟩
  · rw [heq]
    exact hsame.kernelTablesSame.rootApart hroot
  · rw [heq]
    exact (linkLower_kernelTablesSame hroot hkept.keeping.underway.untouched).rootApart hroot

/-- Nothing of the new lower half lets ring 3 pass. -/
lemma KeptTo.not_userReaches {pdpt : ℕ} {kept : List (ℕ × MappedRange)} {used : Set ℕ}
    {w : Work σ} (h : KeptTo tables src mem s pdpt kept used w) {a : ℕ}
    (ha : a < kernelSpaceBase) :
    tables.userReaches (joined tables.root pdpt w.mem) a = false := by
  rw [PageTables.userReaches]
  cases hcanon : isCanonical a with
  | false => rfl
  | true =>
      rw [Bool.true_and]
      show userWalk _ (tableIndex a 39 :: [tableIndex a 30, tableIndex a 21, tableIndex a 12]) 0
          tables.root = false
      rw [userWalk]
      by_cases hzero : tableIndex a 39 = 0
      · have hne := h.keeping.half.ne_root (List.cons_ne_nil 0 []) (by decide) h.first
        have hnext := h.first
        rw [follow, joined_first] at hnext
        obtain ⟨n, hn, hn'⟩ := Option.bind_eq_some_iff.mp hnext
        obtain rfl : n = pdpt := Option.some.inj hn'
        obtain ⟨-, hhuge, haddr⟩ := next_eq_some hn
        rw [hzero, joined_first, haddr, hhuge, userWalk, joined_of_ne hne, h.keeping.ring3]
        simp
      · rw [joined_lower hzero (lower_slot ha hcanon)]
        rfl

end Left

/-- **What is kept is mapped, and nothing else.** From any tables whose root is apart and any
source of fresh frames, for ranges no two of which touch the same page: after a call that succeeds
an address of the lower half is itself, with the rights and the caching of the range that touches
its page, and is not mapped if none does. Nothing there is reachable from ring 3, and the kernel
half is as it was. A call that fails changes no address. -/
theorem keepOnly_exact {σ : Type} {tables : PageTables} {src : FrameSource σ}
    {mem : Memory} {s : σ} (hroot : RootApart mem tables.root)
    (hfresh : ∀ k, src.Fresh k (tablesOf mem tables.root) s) {keep : List MappedRange}
    (hapart : keep.Pairwise fun code other => ∀ page, page % frameSize = 0 → code.Touches page →
      ¬other.Touches page) :
    match tables.keepOnly src keep mem s with
    | (.ok _, mem', _) =>
        (∀ a, a < kernelSpaceBase →
          (∀ code ∈ keep, code.Touches (pageContaining a) →
            tables.translate mem' a = some ⟨a, code.writable, frameSize⟩
              ∧ ∃ leaf, LeafAt mem' tables.root (pageContaining a) leaf
                ∧ has leaf writable = code.writable
                ∧ has leaf noExecute = !code.executable
                ∧ leaf &&& (cacheDisable ||| writeThrough) = cacheBits code.cache)
            ∧ ((∀ code ∈ keep, ¬code.Touches (pageContaining a)) → tables.translate mem' a = none)
            ∧ tables.userReaches mem' a = false)
          ∧ ∀ a, kernelSpaceBase ≤ a → tables.translate mem' a = tables.translate mem a
    | (.error _, mem', _) => ∀ a, tables.translate mem' a = tables.translate mem a := by
  rcases keepOnly_cases hroot hfresh hapart with ⟨err, mem', s', heq, hsame⟩
    | ⟨hkeepable, pdpt, used, w, hkept, heq⟩
  · rw [heq]
    exact fun a => hsame.translate_eq tables.window a
  rw [heq]
  refine ⟨fun a ha => ⟨fun code hcode htouch => ?_, fun hnone => ?_, hkept.not_userReaches ha⟩,
    fun a ha => ?_⟩
  · have halign : pageContaining a % frameSize = 0 := by
      simp only [pageContaining, frameSize]
      omega
    have hlow := touches_low (hkeepable code hcode) htouch
    have hleaf := hkept.here (pageContaining a, code) (List.mem_flatMap.mpr ⟨code, hcode,
      (mem_pagesOf (hkeepable code hcode)).mpr ⟨⟨halign, htouch⟩, rfl⟩⟩)
    obtain ⟨hpres, hw, hx, hc, haddr⟩ :=
      @keptEntry_rights code _ halign (hlow.trans (by norm_num))
    refine ⟨?_, _, hleaf, hw, hx, hc⟩
    -- the walk from the root ends in the entry that was kept
    obtain ⟨-, table, htable, hentry⟩ := hleaf
    have hpageEq : pageContaining (pageContaining a) = pageContaining a :=
      pageContaining_of_aligned halign
    have hidx := tableIndices_eq_of_page hpageEq
    have hlast : tableIndex (pageContaining a) 12 = tableIndex a 12 := by
      simpa [tableIndices] using congrArg (fun l => l.getLast?) hidx
    have hcanon : isCanonical a = true := by
      rw [← isCanonical_of_page hpageEq]
      exact isCanonical_iff.mpr (.inl (hlow.trans (by norm_num)))
    have hown : OwnPath Half.lower.Slot ((tableIndices a).take 3) := by
      rw [← hidx, take_tableIndices hlow]
      exact zero_ownPath _
    rw [hidx] at htable
    rw [hlast] at hentry
    have htranslate := hkept.keeping.half.translate_eq hcanon hown htable tables.window
    rw [hentry, if_pos hpres, hw, haddr] at htranslate
    refine Eq.trans htranslate ?_
    rw [pageContaining, Nat.sub_add_cancel (Nat.mod_le _ _)]
  · refine hkept.nowhere a ha fun hmem => ?_
    obtain ⟨x, hx, hpage⟩ := List.mem_map.mp hmem
    obtain ⟨code, hcode, hx⟩ := List.mem_flatMap.mp hx
    obtain ⟨⟨-, htouch⟩, -⟩ := (mem_pagesOf (hkeepable code hcode)).mp hx
    rw [hpage] at htouch
    exact hnone code hcode htouch
  · exact (linkLower_kernelTablesSame hroot hkept.keeping.underway.untouched).translate_eq ha
      tables.window

/-- The code of the firmware, over the end of a page, and its data, which is not cached. -/
def firmware : List MappedRange :=
  [⟨⟨0x600FF0, 0x20⟩, true, true, .writeBack⟩, ⟨⟨0x700000, 0x1000⟩, true, false, .uncacheable⟩]

/-- The firmware kept, and nothing else. -/
def onlyFirmware : Except PageTables.PagingError ℕ × Memory × List PhysFrame :=
  PageTables.keepOnly ⟨0x1000, 0⟩ frameList firmware (identityBelow 0)
    ([0x3000, 0x4000, 0x5000].map PhysFrame.containingAddress)

/-- Three tables are enough: both ranges lie in the same 2 MiB. -/
theorem keepOnly_exact_firmware : onlyFirmware.1 = .ok 3
    ∧ PageTables.translate ⟨0x1000, 0⟩ onlyFirmware.2.1 0x601008 = some ⟨0x601008, true, 4096⟩
    ∧ PageTables.translate ⟨0x1000, 0⟩ onlyFirmware.2.1 0x602000 = none := by
  have hok : onlyFirmware.1 = .ok 3 := by decide +kernel
  have hapart : firmware.Pairwise fun code other =>
      ∀ page, page % frameSize = 0 → code.Touches page → ¬other.Touches page := by
    refine List.pairwise_pair.mpr fun page halign htouch htouch' => ?_
    simp only [MappedRange.Touches, frameSize] at halign htouch htouch'
    omega
  have hfresh := @identityBelow_fresh [0x3000, 0x4000, 0x5000] (by decide) (by decide)
  have hexact := @keepOnly_exact _ ⟨0x1000, 0⟩ frameList
    (identityBelow 0) _ identityBelow_rootApart hfresh firmware
    hapart
  rw [← onlyFirmware, Prod.fst_eq_iff.mp hok] at hexact
  have hcode : MappedRange.Touches ⟨⟨0x600FF0, 0x20⟩, true, true, .writeBack⟩
      (pageContaining 0x601008) := by
    constructor <;> decide
  have hnone : ∀ code ∈ firmware, ¬code.Touches (pageContaining 0x602000) := by
    intro code hcode htouch
    rw [MappedRange.Touches, show pageContaining 0x602000 = 0x602000 by decide] at htouch
    have hcode : code = ⟨⟨0x600FF0, 0x20⟩, true, true, .writeBack⟩
        ∨ code = ⟨⟨0x700000, 0x1000⟩, true, false, .uncacheable⟩ := by
          simpa [firmware] using hcode
    rcases hcode with rfl | rfl <;> simp [frameSize] at htouch
  refine ⟨hok, ?_, ?_⟩
  · exact ((hexact.1 0x601008 (by decide)).1 _ List.mem_cons_self hcode).1
  · exact (hexact.1 0x602000 (by decide)).2.1 hnone

end Harlan.Paging
