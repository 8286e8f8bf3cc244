import Mathlib.Tactic
import Harlan.Arch.PageEdits

/-!
Page tables as a finite map from pages to frames.

A half of an address space is mapped and unmapped in by `PageTables::map` and `unmap`: the
kernel half below a root that `adopt` made, the lower half below a root that
`new_process_space` made. What `translate` answers is the abstract state (`View`), and `Run`
carries along what the calls so far should have made of it.

* `Run.ownHalf`: every root a run reaches keeps `OwnHalf`.
* `pageTables_refine`: along every run `translate` is that abstract map; the next call, if it
  succeeds, changes it at exactly one page, and if it fails not at all.
-/

namespace Harlan.Paging

open Radix (follow Reached Alone)

/-! ### The abstract map -/

/-- What each virtual address resolves to. -/
abbrev View := ℕ → Option Translation

/-- One 4 KiB page mapped to a frame. -/
def View.insert (view : View) (page : ℕ) (frame : PhysFrame) (w : Bool) : View := fun va =>
  if pageContaining va = page then some ⟨frame.start + va % frameSize, w, frameSize⟩ else view va

/-- One 4 KiB page taken out. -/
def View.erase (view : View) (page : ℕ) : View := fun va =>
  if pageContaining va = page then none else view va

/-! ### Halves and runs -/

/-- The two halves of an address space. -/
inductive Half where
  | kernel
  | lower
deriving DecidableEq

/-- The root slots of a half. -/
def Half.Slot : Half → Fin 512 → Prop
  | .kernel, i => PageTables.kernelSlot ≤ i
  | .lower, i => i < PageTables.kernelSlot

/-- A canonical 4 KiB page of a half. -/
structure Half.Page (half : Half) (page : ℕ) : Prop where
  canonical : isCanonical page = true
  aligned : page % frameSize = 0
  side : page < kernelSpaceBase ↔ half = .lower

/-- The abstract map after a call of `map`. -/
def View.afterMap (view : View) (page : ℕ) (frame : PhysFrame) (flags : PageFlags) :
    Except MapError Unit → View
  | .ok () => view.insert page frame flags.writable
  | .error _ => view

/-- The abstract map after a call of `unmap`. -/
def View.afterUnmap (view : View) (page : ℕ) : Except UnmapError PhysFrame → View
  | .ok _ => view.erase page
  | .error _ => view

/-- The calls of `map` and `unmap` in one half below a root just made, with the abstract map
they should leave. Each call may draw on a frame source of its own; what is asked of it is
that no frame it hands out is a table already. -/
inductive Run : Half → PageTables → Memory → View → Prop
  | adopt {σ : Type} {src : FrameSource σ} {s s' : σ} {window oldRoot : ℕ} {mem mem' : Memory}
      {tables : PageTables} (hfresh : src.Fresh 1 (tablesOf mem oldRoot) s)
      (h : PageTables.adopt window oldRoot src mem s = (.ok tables, mem', s')) :
      Run .kernel tables mem' (tables.translate mem')
  | newProcessSpace {σ : Type} {src : FrameSource σ} {s s' : σ} {mem mem' : Memory}
      {kernel tables : PageTables} (hfresh : src.Fresh 1 (tablesOf mem kernel.root) s)
      (h : kernel.newProcessSpace src mem s = (.ok tables, mem', s')) :
      Run .lower tables mem' (tables.translate mem')
  | map {half : Half} {tables : PageTables} {mem : Memory} {view : View} {σ : Type}
      {src : FrameSource σ} {s : σ} {page : ℕ} {frame : PhysFrame} {flags : PageFlags}
      (hrun : Run half tables mem view) (hpage : half.Page page) (hframe : frame.start < 2 ^ 52)
      (hfresh : src.Fresh 3 (tablesOf mem tables.root) s) :
      Run half tables (tables.map src page frame flags mem s).2.1
        (view.afterMap page frame flags (tables.map src page frame flags mem s).1)
  | unmap {half : Half} {tables : PageTables} {mem : Memory} {view : View} {page : ℕ}
      (hrun : Run half tables mem view) (hpage : half.Page page) :
      Run half tables (tables.unmap page mem).2 (view.afterUnmap page (tables.unmap page mem).1)

/-! ### The leaf `map` writes -/

/-- Everything of a leaf but the frame. -/
def leafBits (flags : PageFlags) : ℕ :=
  present ||| cacheBits flags.cache ||| (if flags.writable then writable else 0)
    ||| (if flags.executable then 0 else noExecute) ||| (if flags.user then user else 0)

lemma leafEntry_eq (frame : PhysFrame) (flags : PageFlags) :
    PageTables.leafEntry frame flags = frame.start ||| leafBits flags := by
  simp only [PageTables.leafEntry, leafBits, Nat.or_assoc]

lemma leafEntry_address {frame : PhysFrame} (hframe : frame.start < 2 ^ 52) (flags : PageFlags) :
    PageTables.leafEntry frame flags &&& addressMask = frame.start := by
  rw [leafEntry_eq]
  refine or_and_addressMask frame.aligned hframe ?_
  obtain ⟨w, x, u, cache⟩ := flags
  cases w <;> cases x <;> cases u <;> cases cache <;> decide

/-- A bit of a leaf outside the address is a bit of its rights. -/
lemma testBit_leafEntry {frame : PhysFrame} {flags : PageFlags} {k : ℕ}
    (hframe : frame.start < 2 ^ 52) (hk : k < 12 ∨ 52 ≤ k) :
    (PageTables.leafEntry frame flags).testBit k = (leafBits flags).testBit k := by
  have hbit : frame.start.testBit k = false := by
    obtain hlow | hhigh := hk
    · exact testBit_frame_low frame.aligned hlow
    · exact Nat.testBit_lt_two_pow (Nat.lt_of_lt_of_le hframe
        (Nat.pow_le_pow_right (by decide) hhigh))
  rw [leafEntry_eq, Nat.testBit_or, hbit, Bool.false_or]

/-- The rights a leaf gives are the ones asked for. -/
lemma leafEntry_rights {frame : PhysFrame} (hframe : frame.start < 2 ^ 52) (flags : PageFlags) :
    has (PageTables.leafEntry frame flags) present = true
      ∧ has (PageTables.leafEntry frame flags) writable = flags.writable
      ∧ has (PageTables.leafEntry frame flags) noExecute = !flags.executable
      ∧ has (PageTables.leafEntry frame flags) user = flags.user
      ∧ PageTables.leafEntry frame flags &&& (cacheDisable ||| writeThrough)
        = cacheBits flags.cache := by
  have hlow : frame.start &&& (cacheDisable ||| writeThrough) = 0 := by
    refine Nat.eq_of_testBit_eq fun i => ?_
    rw [Nat.testBit_and, Nat.zero_testBit]
    by_cases hi : i < 12
    · simp [testBit_frame_low frame.aligned hi]
    · have hlt : cacheDisable ||| writeThrough < 2 ^ i :=
        Nat.lt_of_lt_of_le (by decide : cacheDisable ||| writeThrough < 2 ^ 12)
          (Nat.pow_le_pow_right (by decide) (Nat.le_of_not_lt hi))
      simp [Nat.testBit_lt_two_pow hlt]
  rw [has_present, has_writable, has_noExecute, has_user, testBit_leafEntry hframe (by decide),
    testBit_leafEntry hframe (by decide), testBit_leafEntry hframe (by decide),
    testBit_leafEntry hframe (by decide), leafEntry_eq, Nat.and_or_distrib_right, hlow,
    Nat.zero_or]
  obtain ⟨w, x, u, cache⟩ := flags
  cases w <;> cases x <;> cases u <;> cases cache <;> decide

/-! ### The invariant along a run -/

lemma pageContaining_of_aligned {page : ℕ} (h : page % frameSize = 0) :
    pageContaining page = page := by
  rw [pageContaining, h, Nat.sub_zero]

/-- The address in an entry is a frame's. -/
lemma containingAddress_masked (entry : ℕ) :
    (PhysFrame.containingAddress (entry &&& addressMask)).start = entry &&& addressMask := by
  have hmod : (entry &&& addressMask) % frameSize = 0 := by
    rw [show frameSize = 2 ^ 12 from rfl, ← Nat.and_two_pow_sub_one_eq_mod, Nat.and_assoc]
    exact Nat.and_zero entry
  show (entry &&& addressMask) - (entry &&& addressMask) % frameSize = _
  rw [hmod, Nat.sub_zero]

lemma masked_aligned (entry : ℕ) : (entry &&& addressMask) % frameSize = 0 := by
  rw [← containingAddress_masked entry]
  exact (PhysFrame.containingAddress _).aligned

lemma follow_aligned {mem : Memory} {root n : ℕ} {p : List (Fin 512)}
    (hroot : root % frameSize = 0) (hn : follow next mem root p = some n) :
    n % frameSize = 0 := by
  induction p using List.reverseRecOn with
  | nil =>
      obtain rfl : root = n := by simpa [follow] using hn
      exact hroot
  | append_singleton p i =>
      rw [Radix.follow_snoc] at hn
      obtain ⟨x, -, hx⟩ := Option.bind_eq_some_iff.mp hn
      rw [← (next_eq_some hx).2.2]
      exact masked_aligned _

lemma kernelSlot_eq : PageTables.kernelSlot = 256 := by decide

/-- A page of a half is found in a slot of it. -/
lemma Half.Page.slot {half : Half} {page : ℕ} (h : half.Page page) :
    half.Slot (tableIndex page 39) := by
  have hcanon := isCanonical_iff.mp h.canonical
  have hside := h.side
  have hbase : kernelSpaceBase = 2 ^ 64 - 2 ^ 47 := by decide
  cases half with
  | kernel =>
      rw [Half.Slot, kernelSlot_eq, tableIndex_eq]
      simp only [hbase, reduceCtorEq, iff_false] at hside
      omega
  | lower =>
      rw [Half.Slot, kernelSlot_eq, tableIndex_eq]
      simp only [hbase, iff_true] at hside
      omega

lemma Half.Page.ownPath {half : Half} {page : ℕ} (h : half.Page page) :
    OwnPath half.Slot ((tableIndices page).take 3) :=
  ownPath_of_slot h.slot

lemma adopt_ownHalf {σ : Type*} {src : FrameSource σ} {s s' : σ} {window oldRoot : ℕ}
    {mem mem' : Memory} {tables : PageTables} (hfresh : src.Fresh 1 (tablesOf mem oldRoot) s)
    (h : PageTables.adopt window oldRoot src mem s = (.ok tables, mem', s')) :
    OwnHalf Half.kernel.Slot mem' tables.root := by
  rw [PageTables.adopt] at h
  split at h
  · cases h
  · rename_i hempty
    obtain ⟨hfetched, -, hok⟩ :=
      @newTable_spec _ Half.kernel.Slot _ ⟨oldRoot, window⟩ _ _ _ _ _ hfresh
      (Set.Subset.refl _)
    rcases hnew : PageTables.newTable ⟨oldRoot, window⟩ src mem s with ⟨err | new, mem₁, s₁⟩
    · rw [hnew] at h
      cases h
    · rw [hnew] at h hfetched hok
      cases h
      obtain ⟨-, -, hout, -⟩ := hok new rfl
      have hold : mem₁ oldRoot = mem oldRoot := hfetched.same oldRoot ⟨[], by simp, rfl⟩
      refine @ownHalf_of_root _ _ oldRoot _ _ ?_ (fun i n hi => hi) fun i hi => ?_
      · intro hr
        have hmem : new ∈ tablesOf mem₁ oldRoot := hr
        rw [tablesOf_congr hfetched.follow_eq] at hmem
        exact hout hmem
      · rw [hold]
        rw [Half.Slot] at hi
        simpa using fun hpres => hempty ⟨i, hi, hpres⟩

lemma newProcessSpace_ownHalf {σ : Type*} {src : FrameSource σ} {s s' : σ} {mem mem' : Memory}
    {kernel tables : PageTables} (hfresh : src.Fresh 1 (tablesOf mem kernel.root) s)
    (h : kernel.newProcessSpace src mem s = (.ok tables, mem', s')) :
    OwnHalf Half.lower.Slot mem' tables.root := by
  obtain ⟨hfetched, -, hok⟩ := @newTable_spec _ Half.lower.Slot _ kernel _ _ _ _ _ hfresh
    (Set.Subset.refl _)
  rw [PageTables.newProcessSpace] at h
  rcases hnew : kernel.newTable src mem s with ⟨err | new, mem₁, s₁⟩
  · rw [hnew] at h
    cases h
  · rw [hnew] at h hfetched hok
    cases h
    obtain ⟨-, -, hout, -, hzero, -⟩ := hok new rfl
    dsimp only at hzero
    refine @ownHalf_of_root _ _ kernel.root _ _ ?_ (fun i n hi => ?_) fun i hi => ?_
    · intro hr
      have hmem : new ∈ tablesOf mem₁ kernel.root := hr
      rw [tablesOf_congr hfetched.follow_eq] at hmem
      exact hout hmem
    · split at hi
      · exact hi
      · rw [hzero] at hi
        cases hi
    · rw [Half.Slot] at hi
      rw [if_neg (by omega), hzero]
      rfl

/-- An address of a page of the half is translated by the leaf of that page. -/
lemma translate_page {half : Half} {tables : PageTables} {mem : Memory} {page va table : ℕ}
    (hinv : OwnHalf half.Slot mem tables.root) (hpage : half.Page page)
    (hva : pageContaining va = page)
    (htable : follow next mem tables.root ((tableIndices page).take 3) = some table) :
    tables.translate mem va
      = if has (mem table (tableIndex page 12)) present then
          some ⟨(mem table (tableIndex page 12) &&& addressMask) + va % frameSize,
            has (mem table (tableIndex page 12)) Paging.writable, frameSize⟩
        else none := by
  have hsame : pageContaining va = pageContaining page := by
    rw [hva, pageContaining_of_aligned hpage.aligned]
  have hidx := tableIndices_eq_of_page hsame
  have hleafIdx : tableIndex va 12 = tableIndex page 12 := by
    simpa [tableIndices] using congrArg (fun l => l.getLast?) hidx
  rw [← hleafIdx]
  rw [← hidx] at htable
  exact hinv.translate_eq ((isCanonical_of_page hsame).trans hpage.canonical)
    (by rw [hidx]; exact hpage.ownPath) htable tables.window

/-- What one call of `map` leaves: the invariant, and the translation of one page at most. -/
lemma map_spec {half : Half} {tables : PageTables} {mem : Memory} {σ : Type*}
    {src : FrameSource σ} {s : σ} {page : ℕ} {frame : PhysFrame} {flags : PageFlags}
    (hinv : OwnHalf half.Slot mem tables.root) (hpage : half.Page page)
    (hframe : frame.start < 2 ^ 52) (hfresh : src.Fresh 3 (tablesOf mem tables.root) s) :
    OwnHalf half.Slot (tables.map src page frame flags mem s).2.1 tables.root
      ∧ tables.translate (tables.map src page frame flags mem s).2.1
        = View.afterMap (tables.translate mem) page frame flags
            (tables.map src page frame flags mem s).1
      ∧ ((tables.map src page frame flags mem s).1 = .ok () →
          ∃ table, follow next (tables.map src page frame flags mem s).2.1 tables.root
              ((tableIndices page).take 3) = some table
            ∧ (tables.map src page frame flags mem s).2.1 table (tableIndex page 12)
              = PageTables.leafEntry frame flags) := by
  obtain ⟨-, mem₁, hedits, ⟨err, herr, hmem⟩ | ⟨hok, table, htable, hnone, hmem⟩⟩ :=
    @map_cases _ _ tables _ _ frame flags _ _ hfresh hpage.slot
  · rw [herr, hmem]
    refine ⟨Edits.ownHalf hedits hinv, ?_, fun h => by cases h⟩
    funext va
    exact Edits.translate_eq hedits hinv tables.window va
  · rw [hok, hmem]
    have hinv₁ := Edits.ownHalf hedits hinv
    have hown := hpage.ownPath
    have hinv₂ := hinv₁.writeLeaf rfl hown htable (tableIndex page 12)
      (PageTables.leafEntry frame flags)
    have htable₂ := hinv₁.follow_writeLeaf rfl hown htable (tableIndex page 12)
      (PageTables.leafEntry frame flags) (q := (tableIndices page).take 3) (le_refl 3)
    rw [htable] at htable₂
    have hleaf := Radix.write_self mem₁ table (tableIndex page 12)
      (PageTables.leafEntry frame flags)
    refine ⟨hinv₂, ?_, fun _ => ⟨table, htable₂, hleaf⟩⟩
    funext va
    have hpageEq := pageContaining_of_aligned hpage.aligned
    by_cases hva : pageContaining va = page
    · obtain ⟨hp, hw, -⟩ := leafEntry_rights hframe flags
      rw [View.afterMap, View.insert, if_pos hva, translate_page hinv₂ hpage hva htable₂,
        hleaf, hp, hw, leafEntry_address hframe]
      rfl
    · rw [View.afterMap, View.insert, if_neg hva,
        hinv₁.translate_writeLeaf hpage.canonical hown htable _ _ (by rwa [hpageEq]),
        Edits.translate_eq hedits hinv]

/-- What one call of `unmap` leaves: the invariant, and one page less at most. -/
lemma unmap_spec {half : Half} {tables : PageTables} {mem : Memory} {page : ℕ}
    (hinv : OwnHalf half.Slot mem tables.root) (hpage : half.Page page) :
    OwnHalf half.Slot (tables.unmap page mem).2 tables.root
      ∧ tables.translate (tables.unmap page mem).2
        = View.afterUnmap (tables.translate mem) page (tables.unmap page mem).1
      ∧ ∀ frame, (tables.unmap page mem).1 = .ok frame →
          ∃ w, tables.translate mem page = some ⟨frame.start, w, frameSize⟩ := by
  obtain ⟨err, herr⟩ | ⟨table, htable, hpres, hok⟩ := unmap_cases tables page mem
  · rw [herr]
    exact ⟨hinv, rfl, fun frame h => by cases h⟩
  · rw [hok]
    have hown := hpage.ownPath
    have hpageEq := pageContaining_of_aligned hpage.aligned
    have hinv₂ := hinv.writeLeaf rfl hown htable (tableIndex page 12) 0
    have htable₂ := hinv.follow_writeLeaf rfl hown htable (tableIndex page 12) 0
      (q := (tableIndices page).take 3) (le_refl 3)
    rw [htable] at htable₂
    refine ⟨hinv₂, ?_, ?_⟩
    · funext va
      by_cases hva : pageContaining va = page
      · rw [View.afterUnmap, View.erase, if_pos hva, translate_page hinv₂ hpage hva htable₂,
          Radix.write_self]
        rfl
      · rw [View.afterUnmap, View.erase, if_neg hva,
          hinv.translate_writeLeaf hpage.canonical hown htable _ _ (by rwa [hpageEq])]
    · rintro frame ⟨⟩
      refine ⟨has (mem table (tableIndex page 12)) writable, ?_⟩
      rw [hinv.translate_eq hpage.canonical hown htable, hpres, if_pos rfl,
        hpage.aligned, Nat.add_zero, containingAddress_masked]

/-! ### Whole runs -/

lemma Run.ownHalf {half : Half} {tables : PageTables} {mem : Memory} {view : View}
    (h : Run half tables mem view) : OwnHalf half.Slot mem tables.root := by
  induction h with
  | adopt hfresh h => exact adopt_ownHalf hfresh h
  | newProcessSpace hfresh h => exact newProcessSpace_ownHalf hfresh h
  | map _ hpage hframe hfresh ih => exact (map_spec ih hpage hframe hfresh).1
  | unmap _ hpage ih => exact (unmap_spec ih hpage).1

/-- Along a run, `translate` is the abstract map. -/
lemma Run.translate_eq {half : Half} {tables : PageTables} {mem : Memory} {view : View}
    (h : Run half tables mem view) : tables.translate mem = view := by
  induction h with
  | adopt hfresh h => rfl
  | newProcessSpace hfresh h => rfl
  | map hrun hpage hframe hfresh ih => rw [(map_spec hrun.ownHalf hpage hframe hfresh).2.1, ih]
  | unmap hrun hpage ih => rw [(unmap_spec hrun.ownHalf hpage).2.1, ih]

/-- **Page tables refine a finite map.** Along every run of `map` and `unmap` in one half
below a root just made, `translate` is the abstract map. A further `map` that succeeds adds
exactly its page, with the frame, the writability and the leaf bits asked for; an `unmap` that
succeeds removes exactly its page and answers the frame it was mapped to; a call that fails,
at whatever level, changes no translation. -/
theorem pageTables_refine {half : Half} {tables : PageTables} {mem : Memory} {view : View}
    (hrun : Run half tables mem view) :
    tables.translate mem = view
      ∧ ∀ page, half.Page page →
        (∀ (σ : Type) (src : FrameSource σ) (s : σ) (frame : PhysFrame) (flags : PageFlags),
          frame.start < 2 ^ 52 → src.Fresh 3 (tablesOf mem tables.root) s →
          match tables.map src page frame flags mem s with
          | (.ok (), mem', _) =>
              tables.translate mem' = view.insert page frame flags.writable
                ∧ ∃ table, follow next mem' tables.root ((tableIndices page).take 3) = some table
                  ∧ has (mem' table (tableIndex page 12)) noExecute = !flags.executable
                  ∧ has (mem' table (tableIndex page 12)) user = flags.user
                  ∧ mem' table (tableIndex page 12) &&& (cacheDisable ||| writeThrough)
                    = cacheBits flags.cache
          | (.error _, mem', _) => tables.translate mem' = view)
        ∧ match tables.unmap page mem with
          | (.ok frame, mem') =>
              (∃ w, view page = some ⟨frame.start, w, frameSize⟩)
                ∧ tables.translate mem' = view.erase page
          | (.error _, mem') => tables.translate mem' = view := by
  have hinv := hrun.ownHalf
  have hview := hrun.translate_eq
  refine ⟨hview, fun page hpage => ⟨fun σ src s frame flags hframe hfresh => ?_, ?_⟩⟩
  · obtain ⟨-, htranslate, hleaf⟩ := @map_spec _ _ _ _ _ _ _ _ flags hinv hpage hframe hfresh
    rcases hmap : tables.map src page frame flags mem s with ⟨err | _, mem', s'⟩
    · rw [hmap, hview] at htranslate
      exact htranslate
    · rw [hmap, hview] at htranslate
      rw [hmap] at hleaf
      obtain ⟨table, htable, hentry⟩ := hleaf rfl
      obtain ⟨-, -, hnx, huser, hcache⟩ := leafEntry_rights hframe flags
      refine ⟨htranslate, table, htable, ?_⟩
      dsimp only at hentry
      rw [hentry]
      exact ⟨hnx, huser, hcache⟩
  · obtain ⟨-, htranslate, hframe⟩ := unmap_spec hinv hpage
    rcases hunmap : tables.unmap page mem with ⟨err | frame, mem'⟩
    · rw [hunmap, hview] at htranslate
      exact htranslate
    · rw [hunmap, hview] at htranslate
      rw [hunmap, hview] at hframe
      exact ⟨hframe frame rfl, htranslate⟩

/-! ### A small machine -/

/-- A root at `0x1000` with one slot in use, below which 512 GiB are mapped as they are. -/
def identityBelow (slot : Fin 512) : Memory := fun table index =>
  if table = 0x1000 then if index = slot then 0x2003 else 0
  else if table = 0x2000 then index * 2 ^ 30 ||| 0x83
  else 0

/-- Frames handed out from a list, each zeroed on its way out. -/
def frameList : FrameSource (List PhysFrame) where
  take
    | [] => (none, [])
    | frame :: rest => (some frame, rest)
  zeroes := true

lemma next_root_identityBelow {slot i : Fin 512} {n : ℕ}
    (h : next (identityBelow slot 0x1000 i) = some n) : n = 0x2000 := by
  have hlink : next 0x2003 = some 0x2000 := by decide
  have hempty : next 0 = none := by decide
  by_cases hi : i = slot
  · rw [show identityBelow slot 0x1000 i = 0x2003 by simp [identityBelow, hi], hlink] at h
    exact (Option.some.inj h).symm
  · rw [show identityBelow slot 0x1000 i = 0 by simp [identityBelow, hi], hempty] at h
    cases h

lemma next_large_identityBelow (slot i : Fin 512) :
    next (identityBelow slot 0x2000 i) = none := by
  have hentry : identityBelow slot 0x2000 i = i * 2 ^ 30 ||| 0x83 := by simp [identityBelow]
  have hhuge : has (identityBelow slot 0x2000 i) huge = true := by
    rw [hentry, has_huge, Nat.testBit_or, show Nat.testBit 0x83 7 = true by decide, Bool.or_true]
  simp [next, hhuge]

lemma tablesOf_identityBelow (slot : Fin 512) :
    tablesOf (identityBelow slot) 0x1000 ⊆ {0x1000, 0x2000} := by
  rintro n ⟨p, -, hn⟩
  rw [Set.mem_insert_iff, Set.mem_singleton_iff]
  cases p with
  | nil => exact .inl (Option.some.inj hn).symm
  | cons i p =>
      rw [follow] at hn
      obtain ⟨x, hx, hn⟩ := Option.bind_eq_some_iff.mp hn
      obtain rfl := next_root_identityBelow hx
      cases p with
      | nil => exact .inr (Option.some.inj hn).symm
      | cons j p =>
          rw [follow, next_large_identityBelow] at hn
          cases hn

/-- A copy of that root in the frame at `0x3000`. -/
def copiedRoot (slot : Fin 512) : Memory :=
  Radix.fill (identityBelow slot) 0x3000 (identityBelow slot 0x1000)

lemma tablesOf_copiedRoot (slot : Fin 512) :
    tablesOf (copiedRoot slot) 0x3000 ⊆ {0x1000, 0x2000, 0x3000} := by
  have hold := tablesOf_identityBelow slot
  have hnew : ¬Reached next (identityBelow slot) 0x1000 3 0x3000 := by
    intro h
    have hmem := hold h
    simp at hmem
  rintro n ⟨p, hp, hn⟩
  rw [Set.mem_insert_iff, Set.mem_insert_iff, Set.mem_singleton_iff]
  cases p with
  | nil => exact .inr (.inr (Option.some.inj hn).symm)
  | cons i p =>
      obtain h | h := hold ⟨i :: p, hp, Radix.follow_fill_root (fun _ _ h => h) hnew (by omega)
        (by simp) hn⟩
      · exact .inl h
      · exact .inr (.inl h)

lemma frameList_fresh {addrs : List ℕ} {avoid : Set ℕ} {k : ℕ}
    (h : ∀ a ∈ addrs, a % frameSize = 0 ∧ a < 2 ^ 52 ∧ a ∉ avoid) (hnodup : addrs.Nodup) :
    frameList.Fresh k avoid (addrs.map PhysFrame.containingAddress) := by
  induction addrs generalizing avoid k with
  | nil =>
      cases k with
      | zero => trivial
      | succ k => exact fun frame s' htake => by cases htake
  | cons a addrs ih =>
      cases k with
      | zero => trivial
      | succ k =>
          rintro frame s' ⟨⟩
          obtain ⟨halign, hlt, hout⟩ := h a List.mem_cons_self
          have hstart : (PhysFrame.containingAddress a).start = a := by
            show a - a % frameSize = a
            rw [halign, Nat.sub_zero]
          rw [List.nodup_cons] at hnodup
          rw [hstart]
          refine ⟨hlt, hout, ih (fun b hb => ?_) hnodup.2⟩
          obtain ⟨hb₁, hb₂, hb₃⟩ := h b (List.mem_cons_of_mem a hb)
          refine ⟨hb₁, hb₂, ?_⟩
          rintro (rfl | hmem)
          · exact hnodup.1 hb
          · exact hb₃ hmem

/-- `adopt` makes that copy of a root whose kernel half is empty. -/
lemma adopt_identityBelow : PageTables.adopt 0 0x1000 frameList (identityBelow 0)
      ([0x3000].map PhysFrame.containingAddress)
    = (.ok ⟨0x3000, 0⟩, copiedRoot 0, []) := by
  have hzero : Radix.fill (identityBelow 0) 0x3000 (fun _ => 0) = identityBelow 0 := by
    funext n i
    by_cases hn : n = 0x3000
    · subst hn
      rw [Radix.fill_self]
      simp [identityBelow]
    · rw [Radix.fill_of_ne hn]
  have hnew : PageTables.newTable ⟨0x1000, 0⟩ frameList (identityBelow 0)
      ([0x3000].map PhysFrame.containingAddress)
        = (.ok 0x3000, Radix.fill (Radix.fill (identityBelow 0) 0x3000 fun _ => 0) 0x3000
            fun _ => 0, []) := by
    rfl
  rw [PageTables.adopt, if_neg, hnew, hzero, hzero]
  · rfl
  · rintro ⟨slot, hslot, hpres⟩
    have hne : slot ≠ 0 := by
      rintro rfl
      exact absurd hslot (by decide)
    rw [show identityBelow 0 0x1000 slot = 0 by simp [identityBelow, hne]] at hpres
    cases hpres

theorem pageTables_refine_firstKernelPage :
    ∃ mem, Run .kernel ⟨0x3000, 0⟩ mem (PageTables.translate ⟨0x3000, 0⟩ mem)
      ∧ (PageTables.map ⟨0x3000, 0⟩ frameList kernelSpaceBase (.containingAddress 0x7000)
          (.kernel true false) mem ([0x4000, 0x5000, 0x6000].map PhysFrame.containingAddress)).1
        = .ok ()
      ∧ PageTables.translate ⟨0x3000, 0⟩
          (PageTables.map ⟨0x3000, 0⟩ frameList kernelSpaceBase (.containingAddress 0x7000)
            (.kernel true false) mem
            ([0x4000, 0x5000, 0x6000].map PhysFrame.containingAddress)).2.1 0xFFFF800000000123
        = some ⟨0x7123, true, 4096⟩ := by
  have hrun : Run .kernel ⟨0x3000, 0⟩ (copiedRoot 0)
      (PageTables.translate ⟨0x3000, 0⟩ (copiedRoot 0)) := by
    refine Run.adopt (frameList_fresh (fun a ha => ?_) (by simp)) adopt_identityBelow
    obtain rfl : a = 0x3000 := by simpa using ha
    refine ⟨by decide, by decide, fun h => ?_⟩
    have hmem := tablesOf_identityBelow 0 h
    simp at hmem
  have hpage : Half.kernel.Page kernelSpaceBase := ⟨by decide, by decide, by decide⟩
  have hok : (PageTables.map ⟨0x3000, 0⟩ frameList kernelSpaceBase (.containingAddress 0x7000)
      (.kernel true false) (copiedRoot 0)
      ([0x4000, 0x5000, 0x6000].map PhysFrame.containingAddress)).1 = .ok () := by
    decide +kernel
  have hfresh : frameList.Fresh 3 (tablesOf (copiedRoot 0) 0x3000)
      ([0x4000, 0x5000, 0x6000].map PhysFrame.containingAddress) := by
    refine frameList_fresh (fun a ha => ?_) (by decide)
    have ha : a = 0x4000 ∨ a = 0x5000 ∨ a = 0x6000 := by simpa using ha
    refine ⟨?_, ?_, fun h => ?_⟩
    · obtain rfl | rfl | rfl := ha <;> decide
    · omega
    · have hmem := tablesOf_copiedRoot 0 h
      simp only [Set.mem_insert_iff, Set.mem_singleton_iff] at hmem
      omega
  have hmap := ((pageTables_refine hrun).2 kernelSpaceBase hpage).1 _ frameList _
    (.containingAddress 0x7000) (.kernel true false) (by decide) hfresh
  refine ⟨copiedRoot 0, hrun, hok, ?_⟩
  revert hmap hok
  generalize PageTables.map ⟨0x3000, 0⟩ frameList kernelSpaceBase (.containingAddress 0x7000)
    (.kernel true false) (copiedRoot 0)
    ([0x4000, 0x5000, 0x6000].map PhysFrame.containingAddress) = result
  obtain ⟨_ | _, mem', s'⟩ := result
  · rintro ⟨⟩
  · rintro - ⟨htranslate, -⟩
    rw [htranslate]
    rfl

end Harlan.Paging
