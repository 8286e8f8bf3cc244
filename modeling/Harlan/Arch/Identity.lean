import Mathlib.Tactic
import Harlan.Arch.LowerHalf

/-!
What `rebuild_identity` builds.

The pages of the lower half are numbered in the order in which the loops visit them, so what has
been counted so far is what there is to count below a page.

* `TableRight`, `EntryRight`, `SlotRight`: what the loops leave at each level.
* `buildPages_spec`, `buildEntry_spec`, `buildSlot_spec`, `buildIdentity_spec`: each loop leaves
  that, and counts its pages.
* `SlotRight.access`: what the CPU then finds.
* `rebuildIdentity_exact`: **the map is the one that was promised.**
-/

namespace Harlan.Paging

open Radix (follow)
open PageTables (runsCode onlyCode fineGrained pageEntry)

/-! ### What is built -/

/-- The number of the first page behind an entry of a directory. -/
def firstPage (slot entry : ℕ) : ℕ := slot * 2 ^ 18 + entry * 2 ^ 9

/-- The table at `table` maps the pages from number `first` on as they are, but for the null
page. -/
def TableRight (m : Memory) (executable : List MappedRange) (table first : ℕ) : Prop :=
  ∀ index : Fin 512, m table index
    = if first + index = 0 then 0 else pageEntry executable ((first + index) * frameSize)

/-- An entry of a directory links a table of 4 KiB pages, or is a 2 MiB page. -/
inductive EntryRight (m : Memory) (own : Set ℕ) (executable : List MappedRange) (directory : ℕ)
    (slot entry : Fin 512) : Prop
  | fine (table : ℕ) (hfine : fineGrained executable (slot * gib + entry * largePage) = true)
      (hown : table ∈ own)
      (halign : table % frameSize = 0) (hlt : table < 2 ^ 52)
      (hentry : m directory entry = table ||| PageTables.reachable false)
      (hright : TableRight m executable table (firstPage slot entry))
  | coarse (hcoarse : fineGrained executable (slot * gib + entry * largePage) = false)
      (hentry : m directory entry
        = slot * gib + entry * largePage ||| present ||| writable ||| huge ||| noExecute)

/-- A slot of the page-directory-pointer table links a directory. -/
def SlotRight (m : Memory) (own : Set ℕ) (executable : List MappedRange) (pdpt : ℕ)
    (slot : Fin 512) : Prop :=
  ∃ directory ∈ own, directory % frameSize = 0 ∧ directory < 2 ^ 52
    ∧ m pdpt slot = directory ||| PageTables.reachable false
    ∧ ∀ entry, EntryRight m own executable directory slot entry

/-- The pages below number `n` have been counted. -/
structure CountedTo {σ : Type} (executable : List MappedRange) (w : Work σ) (n : ℕ) : Prop where
  executablePages : w.executablePages
    = Nat.count (fun k => k ≠ 0 ∧ runsCode executable (k * frameSize) = true) n
  readOnlyPages : w.readOnlyPages
    = Nat.count (fun k => k ≠ 0 ∧ onlyCode executable (k * frameSize) = true) n

section Stable

variable {m m' : Memory} {own own' : Set ℕ} {executable : List MappedRange} {directory pdpt : ℕ}
  {slot entry : Fin 512}

lemma EntryRight.mono (h : EntryRight m own executable directory slot entry) (hsub : own ⊆ own')
    (hown : ∀ n ∈ own, m' n = m n) (hhere : m' directory entry = m directory entry) :
    EntryRight m' own' executable directory slot entry := by
  cases h with
  | fine table hfine htable halign hlt hentry hright =>
      refine .fine table hfine (hsub htable) halign hlt (hhere.trans hentry) fun index => ?_
      rw [hown table htable]
      exact hright index
  | coarse hcoarse hentry => exact .coarse hcoarse (hhere.trans hentry)

lemma SlotRight.mono (h : SlotRight m own executable pdpt slot) (hsub : own ⊆ own')
    (hown : ∀ n ∈ own, m' n = m n) (hhere : m' pdpt slot = m pdpt slot) :
    SlotRight m' own' executable pdpt slot := by
  obtain ⟨directory, hdirectory, halign, hlt, hentry, hright⟩ := h
  refine ⟨directory, hsub hdirectory, halign, hlt, hhere.trans hentry, fun entry => ?_⟩
  exact (hright entry).mono hsub hown (by rw [hown directory hdirectory])

end Stable

/-! ### The loops -/

section Count

variable {σ : Type} {executable : List MappedRange} {w w' : Work σ} {n : ℕ}

/-- Counting one more page. -/
lemma count_page (f : ℕ → Bool) (hn : n ≠ 0) :
    Nat.count (fun k => k ≠ 0 ∧ f k = true) (n + 1)
      = Nat.count (fun k => k ≠ 0 ∧ f k = true) n + (f n).toNat := by
  rw [Nat.count_succ]
  cases hf : f n with
  | false => simp
  | true => simp [hn]

/-- Pages none of which counts. -/
lemma count_skip {p : ℕ → Prop} [DecidablePred p] {m : ℕ} (h : ∀ k < m, ¬p (n + k)) :
    Nat.count p (n + m) = Nat.count p n := by
  induction m with
  | zero => rfl
  | succ m ih =>
      rw [← Nat.add_assoc, Nat.count_succ, if_neg (h m (Nat.lt_succ_self m)), Nat.add_zero]
      exact ih fun k hk => h k (hk.trans (Nat.lt_succ_self m))

lemma CountedTo.skip {m : ℕ} (h : CountedTo executable w n)
    (hskip : ∀ k < m, runsCode executable ((n + k) * frameSize) = false
      ∧ onlyCode executable ((n + k) * frameSize) = false)
    (hsame : w'.executablePages = w.executablePages ∧ w'.readOnlyPages = w.readOnlyPages) :
    CountedTo executable w' (n + m) := by
  refine ⟨?_, ?_⟩
  · rw [hsame.1, h.executablePages, count_skip]
    rintro k hk ⟨-, hruns⟩
    rw [(hskip k hk).1] at hruns
    cases hruns
  · rw [hsame.2, h.readOnlyPages, count_skip]
    rintro k hk ⟨-, honly⟩
    rw [(hskip k hk).2] at honly
    cases honly

end Count

section Loops

variable {σ : Type} {tables : PageTables} {src : FrameSource σ} {mem : Memory} {s : σ}
  {used : Set ℕ} {w₀ : Work σ}
  {executable : List MappedRange} {R : PageTables.PagingError → Work σ → Prop}

/-- The pages of a table that have been built, when those below `n` have. -/
structure PagesTo (executable : List MappedRange) (table first : ℕ) (w₀ : Work σ) (n : ℕ)
    (w : Work σ) : Prop where
  same : w = ⟨w.mem, w₀.frames, w₀.tables, w.executablePages, w.readOnlyPages⟩
  elsewhere : ∀ n, n ≠ table → w.mem n = w₀.mem n
  row : ∀ index : Fin 512, w.mem table index
    = if index.val < n
      ∧ first + index ≠ 0 then pageEntry executable ((first + index) * frameSize) else 0
  counted : CountedTo executable w (first + n)

/-- One page more. -/
lemma buildPage_spec {table first base : ℕ} (hbase : base = first * frameSize) (index : Fin 512) :
    Eff.Triple (PagesTo executable table first w₀ index)
      (PageTables.buildPage executable table base index)
      (fun _ => PagesTo executable table first w₀ (index + 1)) R := by
  intro w h
  have hpage : base + index * frameSize = (first + index) * frameSize := by
    rw [hbase, Nat.add_mul]
  rw [PageTables.buildPage, Eff.step, hpage]
  by_cases hnull : first + index = 0
  · have hcond : (first + index) * frameSize = 0 := by rw [hnull, Nat.zero_mul]
    have hcounted := h.counted
    rw [if_pos hcond]
    refine ⟨h.same, h.elsewhere, fun i => ?_, ?_⟩
    · rw [h.row i]
      refine if_congr ?_ rfl rfl
      omega
    · rw [hnull] at hcounted
      rw [← Nat.add_assoc, hnull]
      refine ⟨?_, ?_⟩
      · rw [hcounted.executablePages, Nat.count_succ, if_neg (fun h => h.1 rfl), Nat.add_zero]
      · rw [hcounted.readOnlyPages, Nat.count_succ, if_neg (fun h => h.1 rfl), Nat.add_zero]
  · have hcond : ¬(first + index) * frameSize = 0 := Nat.mul_ne_zero hnull (by decide)
    rw [if_neg hcond]
    refine ⟨?_, fun n hn => ?_, fun i => ?_, ?_⟩
    · rw [h.same]
    · dsimp only
      funext i
      rw [Radix.write_of_ne (fun h => hn h.1), h.elsewhere n hn]
    · dsimp only
      by_cases hi : i = index
      · rw [hi, Radix.write_self, if_pos ⟨Nat.lt_succ_self _, hnull⟩]
      · have hne : i.val ≠ index.val := fun h => hi (Fin.ext h)
        rw [Radix.write_of_ne (fun h => hi h.2), h.row i]
        refine if_congr ?_ rfl rfl
        omega
    · rw [← Nat.add_assoc]
      refine ⟨?_, ?_⟩
      · rw [count_page (fun k => runsCode executable (k * frameSize)) hnull,
          ← h.counted.executablePages]
      · rw [count_page (fun k => onlyCode executable (k * frameSize)) hnull,
          ← h.counted.readOnlyPages]

/-- The loop over a table of 4 KiB pages. -/
lemma buildPages_spec {table first base : ℕ} (hbase : base = first * frameSize)
    (hzero : ∀ i, w₀.mem table i = 0) (hcount : CountedTo executable w₀ first) :
    Eff.Triple (· = w₀) (Eff.forFirst 512 (PageTables.buildPage executable table base))
      (fun _ w => w = ⟨w.mem, w₀.frames, w₀.tables, w.executablePages, w.readOnlyPages⟩
        ∧ (∀ n, n ≠ table → w.mem n = w₀.mem n) ∧ TableRight w.mem executable table first
        ∧ CountedTo executable w (first + 512)) R := by
  have hloop := @Eff.Triple.forFirst _ _ R 512 512 (PageTables.buildPage executable table base)
    (PagesTo executable table first w₀) (le_refl 512) fun index _ => buildPage_spec hbase index
  refine hloop.conseq ?_ ?_ fun _ _ h => h
  · rintro w rfl
    exact ⟨rfl, fun _ _ => rfl, fun index => by simp [hzero], hcount⟩
  · rintro _ w h
    refine ⟨h.same, h.elsewhere, fun index => ?_, h.counted⟩
    rw [h.row index]
    by_cases hnull : first + index = 0
    · rw [if_pos hnull, if_neg (fun h => h.2 hnull)]
    · rw [if_neg hnull, if_pos ⟨index.isLt, hnull⟩]

/-- A 2 MiB page holds no code. -/
lemma coarse_page {base page : ℕ} (h : fineGrained executable base = false) (hlow : base ≤ page)
    (hhigh : page + frameSize ≤ base + largePage) :
    runsCode executable page = false ∧ onlyCode executable page = false := by
  rw [fineGrained, Bool.or_eq_false_iff, List.any_eq_false] at h
  have hapart : ∀ code ∈ executable, code.range.overlaps page (page + frameSize) = false := by
    intro code hcode
    have hfar := h.2 code hcode
    rw [PhysRange.overlaps, Bool.and_eq_true, decide_eq_true_iff, decide_eq_true_iff] at hfar
    rw [PhysRange.overlaps, Bool.and_eq_false_iff, decide_eq_false_iff_not,
      decide_eq_false_iff_not]
    omega
  refine ⟨?_, ?_⟩
  · rw [runsCode, List.any_eq_false]
    intro code hcode
    rw [hapart code hcode, Bool.and_false]
    exact Bool.false_ne_true
  · rw [onlyCode, Bool.and_eq_false_iff, List.any_eq_false]
    left
    intro code hcode hinside
    have hfar := hapart code hcode
    rw [PhysRange.contains, Bool.and_eq_true, Bool.and_eq_true, decide_eq_true_iff,
      decide_eq_true_iff] at hinside
    rw [PhysRange.overlaps, Bool.and_eq_false_iff, decide_eq_false_iff_not,
      decide_eq_false_iff_not] at hfar
    have : frameSize = 4096 := rfl
    omega

/-- The entries of a directory that have been built, when those below `n` have; `own` are the
tables they took. -/
structure EntriesTo (tables : PageTables) (src : FrameSource σ) (mem : Memory) (s : σ)
    (used : Set ℕ) (executable : List MappedRange) (directory : ℕ) (slot : Fin 512) (w₀ : Work σ)
    (own : Set ℕ) (n : ℕ) (w : Work σ) :
    Prop where
  apart : ∀ n ∈ own, n ∉ used
  underway : Underway tables src mem s (used ∪ own) w
  elsewhere : ∀ n ∈ used, n ≠ directory → w.mem n = w₀.mem n
  right : ∀ entry : Fin 512, entry.val < n → EntryRight w.mem own executable directory slot entry
  counted : CountedTo executable w (firstPage slot n)

/-- One entry more, once it is right itself: only it, and a table that is new, have changed. -/
lemma EntriesTo.succ {directory : ℕ} {slot entry : Fin 512} {own own' : Set ℕ} {w w' : Work σ}
    (h : EntriesTo tables src mem s used executable directory slot w₀ own entry w)
    (hdirectory : directory ∈ used) (hsub : own ⊆ own') (hapart : ∀ n ∈ own', n ∉ used)
    (hunder : Underway tables src mem s (used ∪ own') w')
    (hsame : ∀ n ∈ used ∪ own, n ≠ directory → w'.mem n = w.mem n)
    (hothers : ∀ e, e ≠ entry → w'.mem directory e = w.mem directory e)
    (hright : EntryRight w'.mem own' executable directory slot entry)
    (hcount : CountedTo executable w' (firstPage slot (entry + 1))) :
    EntriesTo tables src mem s used executable directory slot w₀ own' (entry + 1) w' := by
  refine ⟨hapart, hunder, fun n hn hne => ?_, fun e he => ?_, hcount⟩
  · exact (hsame n (.inl hn) hne).trans (h.elsewhere n hn hne)
  · by_cases hhere : e = entry
    · rw [hhere]
      exact hright
    · have hne : e.val ≠ entry.val := fun heq => hhere (Fin.ext heq)
      refine (h.right e (by omega)).mono hsub (fun n hn => hsame n (.inr hn) ?_) (hothers e hhere)
      -- what is written to the directory is none of the tables below it
      rintro rfl
      exact h.apart n hn hdirectory

/-- One entry more. -/
lemma buildEntry_spec {directory : ℕ} {slot : Fin 512} (hdirectory : directory ∈ used)
    (hnew : directory ∉ tablesOf mem tables.root) (entry : Fin 512) :
    Eff.Triple (fun w => ∃ own,
      EntriesTo tables src mem s used executable directory slot w₀ own entry w)
      (tables.buildEntry src executable directory slot entry)
      (fun _ w => ∃ own,
        EntriesTo tables src mem s used executable directory slot w₀ own (entry + 1) w)
      (fun _ w => Untouched mem tables.root w.mem) := by
  refine .ofState ?_
  rintro w ⟨own, h⟩
  have hbase : slot.val * gib + entry * largePage = firstPage slot entry * frameSize := by
    simp only [firstPage, gib, largePage, frameSize]
    omega
  have hnext : firstPage slot (entry + 1) = firstPage slot entry + 512 := by
    rw [firstPage, firstPage]
    omega
  rw [PageTables.buildEntry]
  split
  · rename_i hfine
    -- code is near: a table of its own, filled page by page, and linked last
    refine Eff.Triple.bindState (takeTable_spec h.underway) ?_
    rintro table w₁ ⟨halign, hlt, hout, hunder₁, hmem₁, hexec₁, hread₁⟩
    have hzero : ∀ i, w₁.mem table i = 0 := by
      intro i
      rw [hmem₁, Radix.fill_self]
    have hcount₁ : CountedTo executable w₁ (firstPage slot entry) :=
      ⟨hexec₁.trans h.counted.executablePages, hread₁.trans h.counted.readOnlyPages⟩
    refine Eff.Triple.bindState (buildPages_spec hbase hzero hcount₁) ?_
    rintro - w₂ ⟨hw₂, hothers, hright, hcount₂⟩
    refine Eff.Triple.step ?_
    rintro w₃ rfl
    -- nothing but the new table and the one entry has changed
    have hold : ∀ n, n ≠ table → w₃.mem n = w.mem n := by
      intro n hn
      rw [hothers n hn, hmem₁, Radix.fill_of_ne hn]
    have htable : directory ≠ table := by
      rintro rfl
      exact hout (.inl hdirectory)
    refine ⟨insert table own, h.succ hdirectory (Set.subset_insert _ _) ?_ ?_ ?_ ?_ ?_ ?_⟩
    · rintro n (rfl | hn)
      · exact fun hmem => hout (.inl hmem)
      · exact h.apart n hn
    · rw [Set.union_insert]
      have hunder₂ : Underway tables src mem s (insert table (used ∪ own)) w₃ := by
        rw [hw₂]
        exact hunder₁.write (fun hmem => hout (h.underway.inUse hmem)) hothers
      refine hunder₂.write hnew fun n hn => ?_
      funext i
      exact Radix.write_of_ne fun h => hn h.1
    · intro n hn hne
      have hother : n ≠ table := by
        rintro rfl
        exact hout hn
      rw [← hold n hother]
      funext i
      exact Radix.write_of_ne fun h => hne h.1
    · intro e he
      dsimp only
      rw [Radix.write_of_ne (fun h => he h.2), hold directory htable]
    · refine .fine table hfine (.inl rfl) halign hlt ?_ fun index => ?_
      · dsimp only
        rw [Radix.write_self, Nat.or_assoc]
        rfl
      · dsimp only
        rw [Radix.write_of_ne (fun h => htable h.1.symm)]
        exact hright index
    · rw [hnext]
      exact ⟨hcount₂.executablePages, hcount₂.readOnlyPages⟩
  · rename_i hcoarse
    -- no code is near: one large page
    rw [Bool.not_eq_true] at hcoarse
    refine Eff.Triple.step ?_
    rintro w' rfl
    refine ⟨own, h.succ hdirectory (Set.Subset.refl _) h.apart ?_ ?_ ?_ ?_ ?_⟩
    · refine h.underway.write hnew fun n hn => ?_
      funext i
      exact Radix.write_of_ne fun h => hn h.1
    · intro n hn hne
      funext i
      exact Radix.write_of_ne fun h => hne h.1
    · intro e he
      exact Radix.write_of_ne fun h => he h.2
    · exact .coarse hcoarse (Radix.write_self _ _ _ _)
    · rw [hnext]
      refine CountedTo.skip h.counted (fun k hk => ?_) ⟨rfl, rfl⟩
      refine coarse_page hcoarse ?_ ?_
      · rw [hbase]
        exact Nat.mul_le_mul_right _ (Nat.le_add_right _ _)
      · simp only [firstPage, gib, largePage, frameSize]
        omega

/-- The loop over a directory, which nothing has been written to yet. -/
lemma buildEntries_spec {directory : ℕ} {slot : Fin 512} (h : Underway tables src mem s used w₀)
    (hdirectory : directory ∈ used) (hnew : directory ∉ tablesOf mem tables.root)
    (hcount : CountedTo executable w₀ (firstPage slot 0)) :
    Eff.Triple (· = w₀) (Eff.forFirst 512 (tables.buildEntry src executable directory slot))
      (fun _ w => ∃ own, EntriesTo tables src mem s used executable directory slot w₀ own 512 w)
      (fun _ w => Untouched mem tables.root w.mem) := by
  have hloop := @Eff.Triple.forFirst _ _ (fun _ w => Untouched mem tables.root w.mem) 512 512
    (tables.buildEntry src executable directory slot)
    (fun n w => ∃ own, EntriesTo tables src mem s used executable directory slot w₀ own n w)
    (le_refl 512)
    fun entry _ => buildEntry_spec hdirectory hnew entry
  refine hloop.conseq ?_ (fun _ _ h => h) fun _ _ h => h
  rintro w rfl
  refine ⟨∅, fun n hn => hn.elim, ?_, fun _ _ _ => rfl,
    fun _ hlt => absurd hlt (Nat.not_lt_zero _), hcount⟩
  rwa [Set.union_empty]

/-- The slots that have been built, when those below `n` have; `own` are the tables they took. -/
structure SlotsTo (tables : PageTables) (src : FrameSource σ) (mem : Memory) (s : σ)
    (used : Set ℕ) (executable : List MappedRange) (pdpt : ℕ) (own : Set ℕ) (n : ℕ)
    (w : Work σ) : Prop where
  apart : ∀ n ∈ own, n ∉ used
  underway : Underway tables src mem s (used ∪ own) w
  right : ∀ slot : Fin 512, slot.val < n → SlotRight w.mem own executable pdpt slot
  empty : ∀ slot : Fin 512, n ≤ slot → w.mem pdpt slot = 0
  counted : CountedTo executable w (firstPage n 0)

/-- One slot more. -/
lemma buildSlot_spec {pdpt : ℕ} (hpdpt : pdpt ∈ used) (hnew : pdpt ∉ tablesOf mem tables.root)
    (slot : Fin 512) :
    Eff.Triple (fun w => ∃ own, SlotsTo tables src mem s used executable pdpt own slot w)
      (tables.buildSlot src executable pdpt slot)
      (fun _ w => ∃ own, SlotsTo tables src mem s used executable pdpt own (slot + 1) w)
      (fun _ w => Untouched mem tables.root w.mem) := by
  refine .ofState ?_
  rintro w ⟨own, h⟩
  rw [PageTables.buildSlot]
  refine Eff.Triple.bindState (takeTable_spec h.underway) ?_
  rintro directory w₁ ⟨halign, hlt, hout, hunder₁, hmem₁, hexec₁, hread₁⟩
  have hcount₁ : CountedTo executable w₁ (firstPage slot 0) :=
    ⟨hexec₁.trans h.counted.executablePages, hread₁.trans h.counted.readOnlyPages⟩
  refine Eff.Triple.bindState (buildEntries_spec hunder₁ (.inl rfl)
    (fun hmem => hout (h.underway.inUse hmem)) hcount₁) ?_
  rintro - w₂ ⟨own₂, h₂⟩
  refine Eff.Triple.step ?_
  rintro w₃ rfl
  have hpdpt' : pdpt ≠ directory := by
    rintro rfl
    exact hout (.inl hpdpt)
  -- the tables taken here are neither the new table above them nor any that were taken before
  have hold : ∀ n ∈ used ∪ own, w₃.mem n = w.mem n := by
    intro n hn
    have hne : n ≠ directory := by
      rintro rfl
      exact hout hn
    rw [h₂.elsewhere n (.inr hn) hne, hmem₁, Radix.fill_of_ne hne]
  have hwrite : ∀ n, n ≠ pdpt →
      Radix.write w₃.mem pdpt slot (directory ||| present ||| writable) n = w₃.mem n := by
    intro n hn
    funext i
    exact Radix.write_of_ne fun h => hn h.1
  have hapart₂ : ∀ n ∈ own₂, n ≠ pdpt := by
    rintro n hn rfl
    exact h₂.apart n hn (.inr (.inl hpdpt))
  have hapart : ∀ n ∈ own, n ≠ pdpt := by
    rintro n hn rfl
    exact h.apart n hn hpdpt
  refine ⟨insert directory (own ∪ own₂), ?_, ?_, ?_, ?_, ?_⟩
  · rintro n (rfl | hn | hn)
    · exact fun hmem => hout (.inl hmem)
    · exact h.apart n hn
    · exact fun hmem => h₂.apart n hn (.inr (.inl hmem))
  · have hunion : used ∪ insert directory (own ∪ own₂) = insert directory (used ∪ own)
        ∪ own₂ := by
      rw [Set.union_insert, Set.insert_union, Set.union_assoc]
    rw [hunion]
    exact h₂.underway.write hnew fun n hn => hwrite n hn
  · intro slot' hslot'
    by_cases hhere : slot' = slot
    · subst hhere
      refine ⟨directory, .inl rfl, halign, hlt, ?_, fun entry => ?_⟩
      · dsimp only
        rw [Radix.write_self, Nat.or_assoc]
        rfl
      · refine (h₂.right entry entry.isLt).mono (fun n hn => .inr (.inr hn))
          (fun n hn => hwrite n (hapart₂ n hn)) ?_
        dsimp only
        rw [hwrite directory (Ne.symm hpdpt')]
    · have hlt' : slot'.val < slot.val := by
        have hne : slot'.val ≠ slot.val := fun h => hhere (Fin.ext h)
        omega
      refine (h.right slot' hlt').mono (fun n hn => .inr (.inl hn)) (fun n hn => ?_) ?_
      · rw [← hold n (.inr hn)]
        exact hwrite n (hapart n hn)
      · dsimp only
        rw [Radix.write_of_ne (fun h => hhere h.2), hold pdpt (.inl hpdpt)]
  · intro slot' hslot'
    have hne : slot' ≠ slot := by
      rintro rfl
      omega
    dsimp only
    rw [Radix.write_of_ne (fun h => hne h.2), hold pdpt (.inl hpdpt)]
    exact h.empty slot' (by omega)
  · have hcounted := h₂.counted
    have hnext : firstPage slot 512 = firstPage (slot + 1) 0 := by
      rw [firstPage, firstPage]
      omega
    rw [hnext] at hcounted
    exact ⟨hcounted.executablePages, hcounted.readOnlyPages⟩

/-- **The whole map**, before it is linked: `pdpt` leads to it, and the root is as it was. -/
lemma buildIdentity_spec {limit : ℕ} (h : Underway tables src mem s (tablesOf mem tables.root) w₀)
    (hcount : CountedTo executable w₀ 0) (hlimit : limit / gib ≤ 512) :
    Eff.Triple (· = w₀) (tables.buildIdentity src limit executable)
      (fun _ w => ∃ pdpt own w₁, pdpt % frameSize = 0 ∧ pdpt < 2 ^ 52 ∧ pdpt ≠ tables.root
        ∧ SlotsTo tables src mem s (insert pdpt (tablesOf mem tables.root)) executable pdpt own
          (limit / gib) w₁
        ∧ w = { w₁ with
          mem := PageTables.linkLower tables.root (pdpt ||| PageTables.reachable false) w₁.mem })
      (fun _ w => Untouched mem tables.root w.mem) := by
  rw [PageTables.buildIdentity]
  refine Eff.Triple.bindState (takeTable_spec h) ?_
  rintro pdpt w₁ ⟨halign, hlt, hout, hunder₁, hmem₁, hexec₁, hread₁⟩
  have hloop := @Eff.Triple.forFirst _ _ (fun _ w => Untouched mem tables.root w.mem) 512
    (limit / gib)
    (tables.buildSlot src executable pdpt)
    (fun n w => ∃ own,
      SlotsTo tables src mem s (insert pdpt (tablesOf mem tables.root)) executable pdpt own n w)
    hlimit fun slot _ => buildSlot_spec (.inl rfl) hout slot
  refine Eff.Triple.bindState (hloop.conseq ?_ (fun _ _ h => h) fun _ _ h => h) ?_
  · rintro w rfl
    refine ⟨∅, fun n hn => hn.elim, ?_, fun _ hlt => absurd hlt (Nat.not_lt_zero _),
      fun slot _ => ?_, ?_⟩
    · rwa [Set.union_empty]
    · rw [hmem₁, Radix.fill_self]
    · exact ⟨hexec₁.trans hcount.executablePages, hread₁.trans hcount.readOnlyPages⟩
  · rintro - w₂ ⟨own, h₂⟩
    refine Eff.Triple.step ?_
    rintro w₃ rfl
    refine ⟨pdpt, own, w₃, halign, hlt, ?_, h₂, ?_⟩
    · rintro rfl
      exact hout ⟨[], by simp, rfl⟩
    · rw [Nat.or_assoc]
      rfl

end Loops

/-! ### What the CPU finds -/

section Found

variable {m : Memory} {va page table new : ℕ} {index : Fin 512} {rest : List (Fin 512)}
  {level : ℕ} {r : Rights}
  {executable : List MappedRange}

/-- An entry that links a table takes ring 3 the right to pass, and no other. -/
lemma through_link (halign : new % frameSize = 0) (hlt : new < 2 ^ 52) :
    r.through (new ||| PageTables.reachable false) = { r with user := false } := by
  rw [Rights.through, has_writable_link, has_noExecute_link hlt, has_user_plain halign,
    Bool.and_true, Bool.and_false, Bool.not_false, Bool.and_true]

lemma accessWalk_link (hlevel : level < 3) (halign : new % frameSize = 0) (hlt : new < 2 ^ 52)
    (h : m table index = new ||| PageTables.reachable false) :
    accessWalk m va (index :: rest) level table r
      = accessWalk m va rest (level + 1) new { r with user := false } := by
  have hnot : (level == 3) = false := by
    rw [beq_eq_false_iff_ne]
    omega
  rw [accessWalk, h]
  dsimp only
  rw [has_present_link, has_huge_link false halign, through_link halign hlt, Bool.and_false,
    Bool.or_false, Bool.not_true, if_neg Bool.false_ne_true, hnot, Bool.or_false,
    if_neg Bool.false_ne_true, or_and_addressMask halign hlt (by decide)]

lemma accessWalk_none (h : m table index = 0) : accessWalk m va (index :: rest) level table r
      = none := by
  rw [accessWalk, h]
  rfl

/-- The entry of a 4 KiB page is a leaf with the rights it should have. -/
lemma pageEntry_eq (frame : PhysFrame) : pageEntry executable frame.start
    = PageTables.leafEntry frame
        ⟨!onlyCode executable frame.start, runsCode executable frame.start, false,
          .writeBack⟩ := by
  rw [pageEntry, PageTables.leafEntry]
  cases onlyCode executable frame.start <;> simp [cacheBits, Nat.or_assoc]

lemma accessWalk_page (hpage : page % frameSize = 0) (hlt : page < 2 ^ 52)
    (h : m table index = pageEntry executable page) :
    accessWalk m va [index] 3 table r = some (page + va % frameSize,
      ⟨r.writable && !onlyCode executable page, false,
        r.executable && runsCode executable page⟩) := by
  have heq := @pageEntry_eq executable ⟨page, hpage⟩
  obtain ⟨hp, hw, hx, hu, -⟩ := @leafEntry_rights ⟨page, hpage⟩ hlt
    ⟨!onlyCode executable page, runsCode executable page, false, .writeBack⟩
  have haddr := @leafEntry_address ⟨page, hpage⟩ hlt
    ⟨!onlyCode executable page, runsCode executable page, false, .writeBack⟩
  rw [← heq] at hp hw hx hu haddr
  have hwalk := @accessWalk_of_follow m va [] index 3 table table r rfl rfl
    (fun q i hq => absurd hq.length_le (by simp)) (by rw [h]; exact hp)
  rw [List.nil_append, h, haddr, Rights.through, hw, hu, hx] at hwalk
  rw [hwalk]
  simp

/-- A 2 MiB page. -/
lemma accessWalk_largePage {base : ℕ} (hbase : base % largePage = 0) (hlt : base < 2 ^ 52)
    (h : m table index = base ||| present ||| writable ||| huge ||| noExecute) :
    accessWalk m va (index :: rest) 2 table r
      = some (base + va % largePage, ⟨r.writable, false, false⟩) := by
  have halign : base % frameSize = 0 := by
    simp only [largePage, frameSize] at hbase ⊢
    omega
  have hbits : ∀ k, (base ||| present ||| writable ||| huge ||| noExecute).testBit k
      = (base.testBit k || (present ||| writable ||| huge ||| noExecute).testBit k) := by
    intro k
    simp only [Nat.testBit_or, Bool.or_assoc]
  have hlow : ∀ k, k < 12 → base.testBit k = false := fun k hk => testBit_frame_low halign hk
  have hhigh : base.testBit 63 = false := Nat.testBit_lt_two_pow (hlt.trans (by norm_num))
  have haddr : (base ||| present ||| writable ||| huge ||| noExecute) &&& addressMask = base := by
    rw [Nat.or_assoc, Nat.or_assoc, Nat.or_assoc]
    exact or_and_addressMask halign hlt (by decide)
  have hmask : base &&& (u64Max - (2 ^ (39 - 9 * 2) - 1)) = base := by
    refine Nat.eq_of_testBit_eq fun i => ?_
    have hones : (u64Max - (2 ^ (39 - 9 * 2) - 1)).testBit i
        = (decide (21 ≤ i) && decide (i < 64)) := by
      have heq : u64Max - (2 ^ (39 - 9 * 2) - 1) = (2 ^ 43 - 1) <<< 21 := by decide
      rw [heq, Nat.testBit_shiftLeft, Nat.testBit_two_pow_sub_one]
      by_cases hi : 21 ≤ i
      · have : i - 21 < 43 ↔ i < 64 := by omega
        simp [hi, this]
      · simp [hi]
    rw [Nat.testBit_and, hones]
    by_cases hi : 21 ≤ i
    · by_cases hi' : i < 64
      · simp [hi, hi']
      · have hzero : base.testBit i = false :=
          Nat.testBit_lt_two_pow (hlt.trans (Nat.pow_lt_pow_right (by decide) (by omega)))
        simp [hzero]
    · have hzero : base.testBit i = false := by
        obtain ⟨k, rfl⟩ := Nat.dvd_of_mod_eq_zero hbase
        rw [show largePage = 2 ^ 21 from rfl, Nat.testBit_two_pow_mul]
        simp [hi]
      simp [hzero]
  have hoffset : va &&& (2 ^ (39 - 9 * 2) - 1) = va % largePage :=
    Nat.and_two_pow_sub_one_eq_mod va 21
  rw [accessWalk, h]
  dsimp only
  rw [has_present, has_huge, hbits, hbits, hlow 0 (by decide), hlow 7 (by decide), Rights.through,
    has_writable, has_user, has_noExecute, hbits, hbits, hbits, hlow 1 (by decide),
    hlow 2 (by decide), hhigh, haddr, hmask, hoffset,
    show (present ||| writable ||| huge ||| noExecute).testBit 0 = true by decide,
    show (present ||| writable ||| huge ||| noExecute).testBit 1 = true by decide,
    show (present ||| writable ||| huge ||| noExecute).testBit 2 = false by decide,
    show (present ||| writable ||| huge ||| noExecute).testBit 7 = true by decide,
    show (present ||| writable ||| huge ||| noExecute).testBit 63 = true by decide]
  simp

/-- **Below a slot that is right**, every address is itself, but for the null page. -/
lemma SlotRight.access {own : Set ℕ} {pdpt : ℕ}
    (h : SlotRight m own executable pdpt (tableIndex va 30)) (hva : va < 2 ^ 39) :
    accessWalk m va [tableIndex va 30, tableIndex va 21, tableIndex va 12] 1 pdpt r
      = if va < frameSize then none
        else some (va, ⟨r.writable && !onlyCode executable (pageContaining va), false,
          r.executable && runsCode executable (pageContaining va)⟩) := by
  obtain ⟨directory, -, halign, hlt, hslot, hentries⟩ := h
  have h30 := tableIndex_eq va 30
  have h21 := tableIndex_eq va 21
  have h12 := tableIndex_eq va 12
  have hbase : (tableIndex va 30).val * gib + tableIndex va 21 * largePage
      = va - va % largePage := by
    rw [h30, h21]
    simp only [gib, largePage]
    omega
  rw [accessWalk_link (by decide) halign hlt hslot]
  cases hentries (tableIndex va 21) with
  -- the walk ends in a page of its own
  | fine table hfine _ halign' hlt' hentry hright =>
      have hnumber : firstPage (tableIndex va 30) (tableIndex va 21) + tableIndex va 12
          = va / frameSize := by
        rw [firstPage, h30, h21, h12, frameSize]
        omega
      have hpage : va / frameSize * frameSize = pageContaining va := by
        simp only [pageContaining, frameSize]
        omega
      have hentry' := hright (tableIndex va 12)
      rw [hnumber, hpage] at hentry'
      rw [accessWalk_link (by decide) halign' hlt' hentry]
      by_cases hnull : va < frameSize
      · rw [if_pos (Nat.div_eq_of_lt hnull)] at hentry'
        rw [if_pos hnull, accessWalk_none hentry']
      · have hne : ¬va / frameSize = 0 := by
          rw [Nat.div_eq_zero_iff]
          rintro (h | h)
          · cases h
          · exact hnull h
        have halign'' : pageContaining va % frameSize = 0 := by
          rw [← hpage]
          exact Nat.mul_mod_left _ _
        have hle : pageContaining va ≤ va := Nat.sub_le _ _
        rw [if_neg hne] at hentry'
        rw [if_neg hnull, accessWalk_page halign''
          (hle.trans_lt (hva.trans (by norm_num))) hentry', pageContaining,
          Nat.sub_add_cancel (Nat.mod_le _ _)]
  -- the walk ends in a large page, with no code near it
  | coarse hcoarse hentry =>
      rw [hbase] at hcoarse hentry
      have hnull : ¬va < frameSize := by
        intro hnull
        have hzero : va - va % largePage = 0 := by
          simp only [largePage, frameSize] at hnull ⊢
          omega
        rw [hzero] at hcoarse
        cases hcoarse
      have hmod : (va - va % largePage) % largePage = 0 := by
        simp only [largePage]
        omega
      obtain ⟨hruns, honly⟩ := @coarse_page executable _ (pageContaining va) hcoarse
        (by simp only [pageContaining, largePage, frameSize]; omega)
        (by simp only [pageContaining, largePage, frameSize]; omega)
      rw [if_neg hnull, accessWalk_largePage hmod
        ((Nat.sub_le _ _).trans_lt (hva.trans (by norm_num))) hentry,
        Nat.sub_add_cancel (Nat.mod_le _ _), hruns, honly, Bool.not_false, Bool.and_true,
        Bool.and_false]

end Found

/-! ### The map that was promised -/

section Promised

variable {σ : Type} {tables : PageTables} {src : FrameSource σ} {mem : Memory} {s : σ}
  {executable : List MappedRange}
  {pdpt limit : ℕ} {own : Set ℕ} {w : Work σ}

lemma div_gib (h : limit % gib = 0) : limit / gib * 2 ^ 30 = limit :=
  Nat.div_mul_cancel (Nat.dvd_of_mod_eq_zero h)

/-- The pages below the limit. -/
lemma firstPage_limit (h : limit % gib = 0) : firstPage (limit / gib) 0 = limit / frameSize := by
  have hdiv := div_gib h
  generalize limit / gib = slots at hdiv ⊢
  rw [← hdiv, firstPage, Nat.zero_mul, Nat.add_zero]
  refine (Nat.div_eq_of_eq_mul_left (by decide) ?_).symm
  rw [Nat.mul_assoc]
  exact congrArg (slots * ·) (by decide)

/-- **The lower half once the map is linked.** -/
lemma SlotsTo.access
    (h : SlotsTo tables src mem s (insert pdpt (tablesOf mem tables.root)) executable pdpt own
      (limit / gib) w)
    (halign : pdpt % frameSize = 0) (hlt : pdpt < 2 ^ 52) (hroot : pdpt ≠ tables.root)
    (hlimit : limit % gib = 0) (hmax : limit ≤ 512 * gib) {a : ℕ} (ha : a < kernelSpaceBase) :
    tables.access (PageTables.linkLower tables.root (pdpt ||| PageTables.reachable false) w.mem) a
      = if frameSize ≤ a ∧ a < limit then
          some (a, ⟨!onlyCode executable (pageContaining a), false,
            runsCode executable (pageContaining a)⟩)
        else none := by
  have hgib : gib = 2 ^ 30 := rfl
  have hdiv := div_gib hlimit
  have hpdpt : ∀ i, PageTables.linkLower tables.root
      (pdpt ||| PageTables.reachable false) w.mem pdpt i = w.mem pdpt i :=
    fun i => congrFun (Radix.fill_of_ne hroot) i
  have hown : ∀ n ∈ own,
      PageTables.linkLower tables.root (pdpt ||| PageTables.reachable false) w.mem n
        = w.mem n := by
    intro n hn
    refine Radix.fill_of_ne ?_
    rintro rfl
    exact h.apart _ hn (.inr ⟨[], by simp, rfl⟩)
  have hfirst : PageTables.linkLower tables.root
      (pdpt ||| PageTables.reachable false) w.mem tables.root 0
      = pdpt ||| PageTables.reachable false := by
    rw [PageTables.linkLower, Radix.fill_self, if_pos rfl]
  rw [PageTables.access]
  -- an address that is not canonical leads nowhere, and is not below the limit
  by_cases hcanon : isCanonical a = true
  swap
  · have hhigh : ¬a < 2 ^ 47 := fun hlow => hcanon (isCanonical_iff.mpr (.inl hlow))
    rw [if_neg hcanon, if_neg]
    omega
  have hlow : a < 2 ^ 47 := by
    have hbase : kernelSpaceBase = 2 ^ 64 - 2 ^ 47 := by decide
    have := isCanonical_iff.mp hcanon
    omega
  have h39 := tableIndex_eq a 39
  have h30 := tableIndex_eq a 30
  rw [if_pos hcanon]
  show accessWalk _ a [tableIndex a 39, tableIndex a 30, tableIndex a 21,
      tableIndex a 12] 0 tables.root .all = _
  -- the first slot of the root leads to the map, the others nowhere
  by_cases hslot : a < 2 ^ 39
  · rw [first_slot hslot, accessWalk_link (by decide) halign hlt hfirst]
    by_cases hbelow : a < limit
    · have hright := (h.right (tableIndex a 30) (by omega)).mono
        (Set.Subset.refl _) hown (hpdpt _)
      rw [hright.access hslot]
      by_cases hnull : a < frameSize
      · rw [if_pos hnull, if_neg (fun h => absurd h.1 (Nat.not_le.mpr hnull))]
      · rw [if_neg hnull, if_pos ⟨Nat.le_of_not_lt hnull, hbelow⟩]
        rfl
    · rw [if_neg (fun h => hbelow h.2), accessWalk_none]
      rw [hpdpt]
      exact h.empty (tableIndex a 30) (by omega)
  · have hne : tableIndex a 39 ≠ 0 := by
      intro hzero
      rw [hzero] at h39
      have : (0 : Fin 512).val = 0 := rfl
      omega
    rw [if_neg (by omega), accessWalk_none]
    rw [PageTables.linkLower, Radix.fill_self, if_neg hne]
    exact if_pos (lower_slot ha hcanon)

lemma count_congr {p q : ℕ → Prop} [DecidablePred p] [DecidablePred q] {n : ℕ}
    (h : ∀ k < n, p k ↔ q k) :
    Nat.count p n = Nat.count q n := by
  rw [Nat.count_eq_card_filter_range, Nat.count_eq_card_filter_range]
  exact congrArg _ (Finset.filter_congr fun k hk => h k (Finset.mem_range.mp hk))

/-- The ranges `rebuild_identity` accepts end where they should. -/
lemma endAddr_of_lt {range : PhysRange} (h : range.start + range.len < 2 ^ 64) :
    range.endAddr = range.start + range.len := if_pos h

lemma runsCode_eq_false_iff (h : ∀ code ∈ executable, code.range.start + code.range.len < 2 ^ 64)
    {page : ℕ} :
    runsCode executable page = false ↔ ∀ code ∈ executable, code.executable = true →
      ¬code.Touches page := by
  rw [runsCode, List.any_eq_false]
  refine forall₂_congr fun code hcode => ?_
  rw [Bool.and_eq_true, PhysRange.overlaps, Bool.and_eq_true, decide_eq_true_iff,
    decide_eq_true_iff, endAddr_of_lt (h code hcode), MappedRange.Touches, not_and]

lemma onlyCode_eq_true_iff (h : ∀ code ∈ executable, code.range.start + code.range.len < 2 ^ 64)
    {page : ℕ} :
    onlyCode executable page = true ↔ (∃ code ∈ executable, code.Covers page)
      ∧ ∀ code ∈ executable, code.writable = true → ¬code.Touches page := by
  rw [onlyCode, Bool.and_eq_true, List.any_eq_true, Bool.not_eq_true', List.any_eq_false]
  refine and_congr (exists_congr fun code => and_congr_right fun hcode => ?_)
    (forall₂_congr fun code hcode => ?_)
  · rw [Bool.and_eq_true, PhysRange.contains, Bool.and_eq_true, decide_eq_true_iff,
      decide_eq_true_iff, decide_eq_true_iff, endAddr_of_lt (h code hcode), MappedRange.Covers]
    have : 0 < frameSize := by decide
    omega
  · rw [Bool.and_eq_true, PhysRange.overlaps, Bool.and_eq_true, decide_eq_true_iff,
      decide_eq_true_iff, endAddr_of_lt (h code hcode), MappedRange.Touches, not_and]

/-- **A call of `rebuild_identity`** writes no table in use, or links a map that is right. -/
lemma rebuildIdentity_cases (hfresh : ∀ k, src.Fresh k (tablesOf mem tables.root) s) (limit : ℕ)
    (executable : List MappedRange) :
    (∃ err mem' s', tables.rebuildIdentity src limit executable mem s = (.error err, mem', s')
        ∧ Untouched mem tables.root mem')
      ∨ (limit % gib = 0 ∧ limit ≤ 512 * gib
        ∧ (∀ code ∈ executable, code.range.start + code.range.len < 2 ^ 64)
        ∧ ∃ pdpt own w, pdpt % frameSize = 0 ∧ pdpt < 2 ^ 52 ∧ pdpt ≠ tables.root
          ∧ SlotsTo tables src mem s (insert pdpt (tablesOf mem tables.root)) executable pdpt own
            (limit / gib) w
          ∧ tables.rebuildIdentity src limit executable mem s
            = (.ok ⟨w.tables, limit, w.executablePages, w.readOnlyPages⟩,
              PageTables.linkLower tables.root (pdpt ||| PageTables.reachable false) w.mem,
                w.frames)) := by
  rw [PageTables.rebuildIdentity]
  split_ifs with hlimit hranges
  · exact .inl ⟨_, mem, s, rfl, fun _ _ => rfl⟩
  · exact .inl ⟨_, mem, s, rfl, fun _ _ => rfl⟩
  have hstart : Underway tables src mem s (tablesOf mem tables.root) ⟨mem, s, 0, 0, 0⟩ :=
    ⟨hfresh, Set.Subset.refl _, fun _ _ => rfl, .none⟩
  have hdiv := @div_gib limit (by omega)
  have hgib : gib = 2 ^ 30 := rfl
  have hbuild := buildIdentity_spec hstart
    (@CountedTo.mk σ executable ⟨mem, s, 0, 0, 0⟩ 0 rfl rfl)
    (by omega : limit / gib ≤ 512) _ rfl
  rcases hrun : tables.buildIdentity src limit executable ⟨mem, s, 0, 0, 0⟩ with ⟨err | _, w⟩
  · rw [hrun] at hbuild
    exact .inl ⟨err, w.mem, w.frames, rfl, hbuild⟩
  rw [hrun] at hbuild
  obtain ⟨pdpt, own, w₁, halign, hlt, hne, hslots, rfl⟩ := hbuild
  refine .inr ⟨by omega, by omega, fun code hcode => ?_, pdpt, own, w₁, halign, hlt, hne,
    hslots, rfl⟩
  rw [Bool.not_eq_true, List.any_eq_false] at hranges
  have hcode' := hranges code hcode
  simp only [Bool.or_eq_true, decide_eq_true_iff] at hcode'
  omega

/-- The kernel half reads the same, so its root stays apart. -/
lemma rebuildIdentity_rootApart (hroot : RootApart mem tables.root)
    (hfresh : ∀ k, src.Fresh k (tablesOf mem tables.root) s) (limit : ℕ)
    (executable : List MappedRange) :
    RootApart (tables.rebuildIdentity src limit executable mem s).2.1 tables.root := by
  rcases rebuildIdentity_cases hfresh limit executable with ⟨err, mem', s', heq, hsame⟩
      | ⟨-, -, -, pdpt, own, w, -, -, -, hslots, heq⟩
  · rw [heq]
    exact hsame.kernelTablesSame.rootApart hroot
  · rw [heq]
    exact (linkLower_kernelTablesSame hroot hslots.underway.untouched).rootApart hroot

end Promised

/-- **The identity map is the one that was promised.** From any tables whose root is apart and any
source of fresh frames, a call that succeeds leaves every address of the lower half from 4096 up
to the limit where it is, and maps nothing else there. A page may be executed unless no executable
range touches it, and written unless it lies inside a range and no writable range touches it. The
kernel half is as it was; the counts are those of the frames taken, of the pages that may be
executed and of those that may not be written. A call that fails changes no address. -/
theorem rebuildIdentity_exact {σ : Type} {tables : PageTables} {src : FrameSource σ}
    {mem : Memory} {s : σ} (hroot : RootApart mem tables.root)
    (hfresh : ∀ k, src.Fresh k (tablesOf mem tables.root) s) (limit : ℕ)
    (executable : List MappedRange) :
    match tables.rebuildIdentity src limit executable mem s with
    | (.ok stats, mem', s') =>
        (∀ a, a < kernelSpaceBase → (tables.translate mem' a).map Translation.phys
            = if frameSize ≤ a ∧ a < limit then some a else none)
          ∧ (∀ a, frameSize ≤ a → a < limit → ∃ rights, tables.access mem' a = some (a, rights)
            ∧ (rights.executable = false
              ↔ ∀ code ∈ executable, code.executable = true → ¬code.Touches (pageContaining a))
            ∧ (rights.writable = false ↔ (∃ code ∈ executable, code.Covers (pageContaining a))
              ∧ ∀ code ∈ executable, code.writable = true → ¬code.Touches (pageContaining a)))
          ∧ (∀ a, kernelSpaceBase ≤ a → tables.translate mem' a = tables.translate mem a)
          ∧ src.Takes s stats.tables s' ∧ stats.limit = limit
          ∧ stats.executablePages = Nat.count (fun page =>
            (tables.access mem' (page * frameSize)).any (fun found => found.2.executable))
              (limit / frameSize)
          ∧ stats.readOnlyPages = Nat.count (fun page =>
            (tables.access mem' (page * frameSize)).any (fun found => !found.2.writable))
              (limit / frameSize)
    | (.error _, mem', _) => ∀ a, tables.translate mem' a = tables.translate mem a := by
  rcases rebuildIdentity_cases hfresh limit executable with ⟨err, mem', s', heq, hsame⟩
      | ⟨hlimit, hmax, hends, pdpt, own, w₁, halign, hlt, hne, hslots, heq⟩
  · rw [heq]
    exact fun a => hsame.translate_eq tables.window a
  rw [heq]
  dsimp only
  have haccess : ∀ a, a < kernelSpaceBase → _ :=
    fun a ha => hslots.access halign hlt hne hlimit hmax ha
  have hlow : limit ≤ kernelSpaceBase := hmax.trans (by decide)
  have hcounted := hslots.counted
  rw [firstPage_limit hlimit] at hcounted
  -- pages are counted by their numbers, and found by their addresses
  have hpage : ∀ page < limit / frameSize, page * frameSize < limit
      ∧ (frameSize ≤ page * frameSize ↔ page ≠ 0) ∧ pageContaining (page * frameSize)
        = page * frameSize := by
    intro page hpage
    simp only [pageContaining, frameSize] at hpage ⊢
    omega
  have hfound : ∀ page < limit / frameSize,
      tables.access (PageTables.linkLower tables.root
        (pdpt ||| PageTables.reachable false) w₁.mem) (page * frameSize)
        = if page = 0 then none
          else some (page * frameSize,
            ⟨!onlyCode executable (page * frameSize), false,
              runsCode executable (page * frameSize)⟩) := by
    intro page hlt'
    obtain ⟨hbelow, hzero, hsame⟩ := hpage page hlt'
    rw [haccess _ (by omega), hsame]
    by_cases hnull : page = 0
    · rw [if_pos hnull, if_neg fun h => hzero.mp h.1 hnull]
    · rw [if_neg hnull, if_pos ⟨hzero.mpr hnull, hbelow⟩]
  refine ⟨fun a ha => ?_, fun a hlow' hhigh => ?_, fun a ha => ?_, hslots.underway.takes,
    rfl, ?_, ?_⟩
  · have htranslate := congrArg (Option.map Prod.fst) (access_translate tables
      (PageTables.linkLower tables.root (pdpt ||| PageTables.reachable false) w₁.mem) a)
    rw [Option.map_map, Option.map_map, haccess a ha] at htranslate
    refine Eq.trans htranslate.symm ?_
    split <;> rfl
  · refine ⟨⟨!onlyCode executable (pageContaining a), false,
      runsCode executable (pageContaining a)⟩, ?_, ?_, ?_⟩
    · rw [haccess a (by omega), if_pos ⟨hlow', hhigh⟩]
    · exact runsCode_eq_false_iff hends
    · rw [Bool.not_eq_false']
      exact onlyCode_eq_true_iff hends
  · exact (linkLower_kernelTablesSame hroot hslots.underway.untouched).translate_eq ha
      tables.window
  · rw [hcounted.executablePages]
    refine count_congr fun page hlt' => ?_
    rw [hfound page hlt']
    by_cases hnull : page = 0 <;> simp [hnull]
  · rw [hcounted.readOnlyPages]
    refine count_congr fun page hlt' => ?_
    rw [hfound page hlt']
    by_cases hnull : page = 0 <;> simp [hnull]

/-- Two pages of code at 4 MiB. -/
def twoPagesOfCode : List MappedRange := [⟨⟨0x402000, 0x2000⟩, false, true, .writeBack⟩]

/-- One GiB anew, over a firmware that maps memory as it is. -/
def firstGib : Except PageTables.PagingError IdentityMapStats × Memory × List PhysFrame :=
  PageTables.rebuildIdentity ⟨0x1000, 0⟩ frameList gib twoPagesOfCode (identityBelow 0)
    ([0x3000, 0x4000, 0x5000, 0x6000].map PhysFrame.containingAddress)

/-- It takes the table of the GiB, its directory, and a table each for the first 2 MiB and those
of the code. -/
theorem rebuildIdentity_exact_firstGib : firstGib.1 = .ok ⟨4, gib, 2, 2⟩
    ∧ (PageTables.translate ⟨0x1000, 0⟩ firstGib.2.1 0x402010).map Translation.phys
      = some 0x402010
    ∧ (PageTables.translate ⟨0x1000, 0⟩ firstGib.2.1 0x10).map Translation.phys = none := by
  have hok : firstGib.1 = .ok ⟨4, gib, 2, 2⟩ := by decide +kernel
  have hfresh := @identityBelow_fresh [0x3000, 0x4000, 0x5000, 0x6000] (by decide) (by decide)
  have hexact := @rebuildIdentity_exact _ ⟨0x1000, 0⟩ frameList
    (identityBelow 0) _ identityBelow_rootApart hfresh
    gib twoPagesOfCode
  rw [← firstGib, Prod.fst_eq_iff.mp hok] at hexact
  refine ⟨hok, ?_, ?_⟩
  · exact hexact.1 0x402010 (by decide)
  · exact hexact.1 0x10 (by decide)

end Harlan.Paging
