import Mathlib.Tactic
import Harlan.Arch.Access
import Harlan.Lib.Eff

/-! Making the lower half anew (`PageTables::rebuild_identity` and `keep_only` of
`arch/x86_64/src/paging.rs`).

Both build a tree of tables in fresh frames, which nothing leads to yet, and link it into slot 0
of the root at the very end. A frame source is fresh for as long as it lasts here: how many frames
are taken depends on the ranges.

* `PageTables.rebuildIdentity`, `PageTables.keepOnly`: the source's functions.
* `Underway`: no table in use has been written, and so many frames have been taken;
  `takeTable_spec` keeps it.
* `Untouched.translate_eq`: while it is so, every address is where it was.
* `RootApart`: nothing in the kernel half leads back to the root; `linkLower_kernelTablesSame`
  then says that linking the new tree leaves the kernel half alone. -/

namespace Harlan.Paging

open Radix (follow Reached Alone)

/-- The span of one entry of a PDPT. -/
def gib : ℕ := 2 ^ 30
/-- The page that an entry of a PD maps itself. -/
def largePage : ℕ := 2 ^ 21

/-! ### Building tables -/

/-- What is worked on: memory, the frames, and what has been counted. -/
structure Work (σ : Type) where
  mem : Memory
  frames : σ
  tables : ℕ
  executablePages : ℕ
  readOnlyPages : ℕ

/-- What `rebuild_identity` built. -/
structure IdentityMapStats where
  tables : ℕ
  limit : ℕ
  executablePages : ℕ
  readOnlyPages : ℕ
deriving DecidableEq

namespace PageTables

variable {σ : Type}

/-- A new table, counted. -/
def takeTable (tables : PageTables) (src : FrameSource σ) : Eff (Work σ) PagingError ℕ :=
  Eff.run fun w =>
    match tables.newTable src w.mem w.frames with
    | (.ok new, mem, frames) => (.ok new, { w with mem, frames, tables := w.tables + 1 })
    | (.error err, mem, frames) => (.error (.ofMapError err), { w with mem, frames })

/-- One entry of a table, written by itself. -/
def writeEntry (table : ℕ) (index : Fin 512) (value : ℕ) : Eff (Work σ) PagingError Unit :=
  Eff.step fun w => ((), { w with mem := Radix.write w.mem table index value })

/-- Makes `entry` the whole lower half. -/
def linkLower (root entry : ℕ) (mem : Memory) : Memory :=
  Radix.fill mem root fun slot =>
    if slot = 0 then entry else if slot.val < kernelSlot then 0 else mem root slot

/-! ### The identity map -/

/-- The page at `page` holds code. -/
def runsCode (executable : List MappedRange) (page : ℕ) : Bool :=
  executable.any fun code => code.executable && code.range.overlaps page (page + frameSize)

/-- The page at `page` is code and nothing but code. -/
def onlyCode (executable : List MappedRange) (page : ℕ) : Bool :=
  (executable.any fun code => code.range.contains page
    && decide (page + frameSize ≤ code.range.endAddr))
    && !executable.any fun code => code.writable && code.range.overlaps page (page + frameSize)

/-- The first 2 MiB, which hold the null page, and whatever holds code need 4 KiB pages. -/
def fineGrained (executable : List MappedRange) (base : ℕ) : Bool :=
  base == 0 || executable.any fun code => code.range.overlaps base (base + largePage)

/-- The entry of a 4 KiB page. -/
def pageEntry (executable : List MappedRange) (page : ℕ) : ℕ :=
  page ||| (present ||| (if onlyCode executable page then 0 else writable)
    ||| (if runsCode executable page then 0 else noExecute))

/-- One 4 KiB page; the null page stays out. -/
def buildPage (executable : List MappedRange) (table base : ℕ) (index : Fin 512) :
    Eff (Work σ) PagingError Unit :=
  let page := base + index * frameSize
  Eff.step fun w =>
    if page = 0 then ((), w)
    else
      ((), { w with
        mem := Radix.write w.mem table index (pageEntry executable page)
        executablePages := w.executablePages + (runsCode executable page).toNat
        readOnlyPages := w.readOnlyPages + (onlyCode executable page).toNat })

/-- One entry of a page directory: a 2 MiB page, or a table of 4 KiB pages. -/
def buildEntry (tables : PageTables) (src : FrameSource σ) (executable : List MappedRange)
    (directory : ℕ) (slot entry : Fin 512) : Eff (Work σ) PagingError Unit := do
  let base := slot * gib + entry * largePage
  if fineGrained executable base then
    let table ← tables.takeTable src
    Eff.forFirst 512 (buildPage executable table base)
    writeEntry directory entry (table ||| present ||| writable)
  else
    writeEntry directory entry (base ||| present ||| writable ||| huge ||| noExecute)

/-- One page directory. -/
def buildSlot (tables : PageTables) (src : FrameSource σ) (executable : List MappedRange)
    (pdpt : ℕ) (slot : Fin 512) : Eff (Work σ) PagingError Unit := do
  let directory ← tables.takeTable src
  Eff.forFirst 512 (tables.buildEntry src executable directory slot)
  writeEntry pdpt slot (directory ||| present ||| writable)

/-- Builds the identity map up to `limit`: a fresh PDPT, and one PD for each GiB. -/
def buildIdentity (tables : PageTables) (src : FrameSource σ) (limit : ℕ)
    (executable : List MappedRange) :
    Eff (Work σ) PagingError Unit := do
  let pdpt ← tables.takeTable src
  Eff.forFirst (limit / gib) (tables.buildSlot src executable pdpt)
  Eff.step fun w => ((),
    { w with mem := linkLower tables.root (pdpt ||| present ||| writable) w.mem })

/-- Builds an identity map for `[0, limit)` in fresh frames and installs it as the whole lower
half. -/
def rebuildIdentity (tables : PageTables) (src : FrameSource σ) (limit : ℕ)
    (executable : List MappedRange) (mem : Memory) (s : σ) :
    Except PagingError IdentityMapStats × Memory × σ :=
  if limit = 0 ∨ limit % gib ≠ 0 ∨ 512 * gib < limit then (.error .badIdentityLimit, mem, s)
  else if executable.any (fun code => code.range.len == 0 || decide (limit ≤ code.range.start)
      || decide (2 ^ 64 ≤ code.range.start + code.range.len)
        || decide (limit < code.range.endAddr)) then
    (.error .requiredRangeOutsideIdentityMap, mem, s)
  else
    match tables.buildIdentity src limit executable ⟨mem, s, 0, 0, 0⟩ with
    | (.ok (), w) => (.ok ⟨w.tables, limit, w.executablePages, w.readOnlyPages⟩, w.mem, w.frames)
    | (.error err, w) => (.error err, w.mem, w.frames)

/-! ### Keeping only some ranges -/

/-- The pages a range touches, from the first to the last. -/
def keptPages (range : PhysRange) : List ℕ :=
  let first := range.start / frameSize * frameSize
  let last := (range.endAddr - 1) / frameSize * frameSize
  (List.range ((last + frameSize - first) / frameSize)).map fun k => first + k * frameSize

/-- The entry of a page that is kept. -/
def keptEntry (code : MappedRange) (page : ℕ) : ℕ :=
  page ||| present ||| cacheBits code.cache ||| (if code.writable then writable else 0)
    ||| (if code.executable then 0 else noExecute)

/-- Walks down from `table`, adding the tables that are missing. -/
def findOrAdd (tables : PageTables) (src : FrameSource σ) : List (Fin 512) → ℕ →
      Eff (Work σ) PagingError ℕ
  | [], table => pure table
  | index :: rest, table => do
      let w ← Eff.get
      if has (w.mem table index) present then
        findOrAdd tables src rest (w.mem table index &&& addressMask)
      else
        let new ← tables.takeTable src
        writeEntry table index (new ||| present ||| writable)
        findOrAdd tables src rest new

/-- Maps one page onto itself, not writable, and with no rights to run unless the range is code.
-/
def keepPage (tables : PageTables) (src : FrameSource σ) (pdpt : ℕ) (code : MappedRange)
    (page : ℕ) :
    Eff (Work σ) PagingError Unit := do
  let table ← tables.findOrAdd src [tableIndex page 30, tableIndex page 21] pdpt
  writeEntry table (tableIndex page 12) (keptEntry code page)

/-- Keeps every page that a range touches. -/
def keepRange (tables : PageTables) (src : FrameSource σ) (pdpt : ℕ) (code : MappedRange) :
    Eff (Work σ) PagingError Unit :=
  Eff.forEach (keptPages code.range) (tables.keepPage src pdpt code)

/-- Builds a lower half with the given ranges only, in a fresh PDPT. -/
def keepAll (tables : PageTables) (src : FrameSource σ) (keep : List MappedRange) :
    Eff (Work σ) PagingError Unit := do
  let pdpt ← tables.takeTable src
  Eff.forEach keep (tables.keepRange src pdpt)
  Eff.step fun w => ((),
    { w with mem := linkLower tables.root (pdpt ||| present ||| writable ||| user) w.mem })

/-- Leaves the lower half with `keep` mapped and nothing else; how many tables that took. -/
def keepOnly (tables : PageTables) (src : FrameSource σ) (keep : List MappedRange)
    (mem : Memory) (s : σ) :
    Except PagingError ℕ × Memory × σ :=
  if keep.any fun code => code.range.len == 0 || decide (512 * gib ≤ code.range.start)
      || decide (512 * gib < code.range.endAddr) then
    (.error .requiredRangeOutsideIdentityMap, mem, s)
  else
    match tables.keepAll src keep ⟨mem, s, 0, 0, 0⟩ with
    | (.ok (), w) => (.ok w.tables, w.mem, w.frames)
    | (.error err, w) => (.error err, w.mem, w.frames)

end PageTables

/-! ### What is left alone -/

/-- So many frames are taken from a source on the way from one state to another. -/
inductive FrameSource.Takes {σ : Type} (src : FrameSource σ) (s : σ) : ℕ → σ → Prop
  | none : src.Takes s 0 s
  | one {n : ℕ} {s₁ s₂ : σ} {frame : PhysFrame} (h : src.Takes s n s₁)
      (htake : src.take s₁ = (some frame, s₂)) :
      src.Takes s (n + 1) s₂

/-- No table in use has been written. -/
def Untouched (mem : Memory) (root : ℕ) (mem' : Memory) : Prop := ∀ n ∈ tablesOf mem root,
      mem' n = mem n

section Untouched

variable {mem mem' : Memory} {root : ℕ}

lemma Untouched.follow_eq (h : Untouched mem root mem') {q : List (Fin 512)} (hq : q.length ≤ 4) :
    follow next mem' root q = follow next mem root q := by
  refine Radix.follow_congr fun p j hp n hn => ?_
  have hlen := hp.length_le
  rw [List.length_append, List.length_singleton] at hlen
  rw [h n ⟨p, by omega, hn⟩]

/-- While no table in use is written, every address is where it was. -/
lemma Untouched.translate_eq (h : Untouched mem root mem') (window va : ℕ) :
    PageTables.translate ⟨root, window⟩ mem' va = PageTables.translate ⟨root, window⟩ mem va := by
  rw [PageTables.translate, PageTables.translate]
  split
  · refine walk_congr fun p j hp n hn => ?_
    have hlen := hp.length_le
    rw [List.length_append, List.length_singleton, length_tableIndices] at hlen
    rw [h n ⟨p, by omega, hn⟩]
    exact .refl _
  · rfl

end Untouched

/-- Tables are being built: the source stays fresh for the tables in use and those taken, and no
table in use has been written. -/
structure Underway {σ : Type} (tables : PageTables) (src : FrameSource σ) (mem : Memory) (s : σ)
    (used : Set ℕ) (w : Work σ) : Prop where
  fresh : ∀ k, src.Fresh k used w.frames
  inUse : tablesOf mem tables.root ⊆ used
  untouched : Untouched mem tables.root w.mem
  takes : src.Takes s w.tables w.frames

section Underway

variable {σ : Type} {tables : PageTables} {src : FrameSource σ} {mem : Memory} {s : σ}
  {used : Set ℕ} {w : Work σ}

lemma newTable_take {new : ℕ} {mem' : Memory} {s' : σ}
    (h : tables.newTable src mem s = (.ok new, mem', s')) :
    (∃ frame, src.take s = (some frame, s') ∧ frame.start = new)
      ∧ mem' = Radix.fill mem new fun _ => 0 := by
  rw [PageTables.newTable, FrameSource.allocateFrame] at h
  rcases htake : src.take s with ⟨_ | frame, s₁⟩
  · rw [htake] at h
    cases h
  rw [htake] at h
  dsimp only at h
  generalize hmem : (if src.zeroes then Radix.fill mem frame.start fun _ => 0
    else mem) = mem₁ at h
  rcases htrans : tables.translate mem₁ (wrap64 (tables.window + frame.start)) with _ | t
  · rw [htrans] at h
    cases h
  rw [htrans] at h
  dsimp only at h
  split_ifs at h with hgood
  swap
  · cases h
  obtain ⟨hnew, hrest⟩ := Prod.mk.inj h
  obtain ⟨rfl, rfl⟩ := Prod.mk.inj hrest
  obtain rfl := Except.ok.inj hnew
  refine ⟨⟨frame, rfl, rfl⟩, ?_⟩
  rw [← hmem]
  split
  · funext n
    by_cases hn : n = frame.start
    · rw [hn, Radix.fill_self, Radix.fill_self]
    · rw [Radix.fill_of_ne hn, Radix.fill_of_ne hn]
  · rfl

/-- A table that is taken is a zeroed frame that was not in use; otherwise no table in use is
written. -/
lemma takeTable_spec (h : Underway tables src mem s used w) :
    Eff.Triple (· = w) (tables.takeTable src)
      (fun new w' => new % frameSize = 0 ∧ new < 2 ^ 52 ∧ new ∉ used
        ∧ Underway tables src mem s (insert new used) w'
        ∧ w'.mem = Radix.fill w.mem new (fun _ => 0) ∧ w'.executablePages = w.executablePages
        ∧ w'.readOnlyPages = w.readOnlyPages)
      (fun _ w' => Untouched mem tables.root w'.mem) := by
  rintro w' rfl
  have htables : tablesOf w'.mem tables.root = tablesOf mem tables.root :=
    tablesOf_congr fun q hq => h.untouched.follow_eq hq
  obtain ⟨hfetched, -, hok⟩ :=
    @newTable_spec σ (fun _ => True) tables.root tables src w'.mem w'.frames 0 used
    (h.fresh 1) (htables.trans_subset h.inUse)
  have hsame : Untouched mem tables.root (tables.newTable src w'.mem w'.frames).2.1 := by
    intro n hn
    rw [hfetched.same n (h.inUse hn), h.untouched n hn]
  rw [PageTables.takeTable, Eff.run]
  rcases hnew : tables.newTable src w'.mem w'.frames with ⟨err | new, mem₁, s₁⟩
  · rw [hnew] at hsame
    exact hsame
  rw [hnew] at hok hsame
  obtain ⟨halign, hlt, hout, -⟩ := hok new rfl
  obtain ⟨⟨frame, htake, hframe⟩, hmem⟩ := newTable_take hnew
  refine ⟨halign, hlt, hout,
    ⟨fun k => ?_, h.inUse.trans (Set.subset_insert _ _), hsame, .one h.takes htake⟩,
    hmem, rfl, rfl⟩
  have hrest := (h.fresh (k + 1) frame s₁ htake).2.2
  rwa [hframe] at hrest

/-- Writing a table that is not in use changes nothing of that. -/
lemma Underway.write (h : Underway tables src mem s used w) {mem' : Memory}
    {table executablePages readOnlyPages : ℕ} (htable : table ∉ tablesOf mem tables.root)
    (hmem : ∀ n, n ≠ table → mem' n = w.mem n) :
    Underway tables src mem s used ⟨mem', w.frames, w.tables, executablePages,
      readOnlyPages⟩ := by
  refine ⟨h.fresh, h.inUse, fun n hn => ?_, h.takes⟩
  have hne : n ≠ table := by
    rintro rfl
    exact htable hn
  exact (hmem n hne).trans (h.untouched n hn)

end Underway

/-! ### The kernel half -/

/-- No path of the kernel half leads back to the root: the root is a frame of its own, and so is
every table below it. -/
def RootApart (mem : Memory) (root : ℕ) : Prop :=
  ∀ p : List (Fin 512), p.length ≤ 3 → KernelPath p → follow next mem root p ≠ some root

section RootApart

variable {mem mem' : Memory} {root entry : ℕ}

/-- Every half of an address space that is mapped and unmapped in keeps its root apart. -/
lemma OwnHalf.rootApart {own : Fin 512 → Prop} (h : OwnHalf own mem root) :
    RootApart mem root := by
  intro p hp hkernel hroot
  obtain rfl := h.alone [] root (Nat.zero_le 3) ownPath_nil rfl p hp hroot
  obtain ⟨i, hi, -⟩ := hkernel
  cases hi

/-- So does every run. -/
lemma Run.rootApart {half : Half} {tables : PageTables} {view : View}
    (h : Run half tables mem view) :
    RootApart mem tables.root := h.ownHalf.rootApart

lemma Untouched.kernelTablesSame (h : Untouched mem root mem') :
    KernelTablesSame root mem mem' := by
  intro p n j hp _ hn
  rw [h n ⟨p, hp, hn⟩]

lemma KernelTablesSame.rootApart (h : KernelTablesSame root mem mem')
    (hroot : RootApart mem root) :
    RootApart mem' root := by
  intro p hp hkernel
  rw [h.follow_eq (by omega) hkernel]
  exact hroot p hp hkernel

/-- Linking a new lower half leaves the kernel half alone. -/
lemma linkLower_kernelTablesSame (hroot : RootApart mem root) (h : Untouched mem root mem') :
    KernelTablesSame root mem (PageTables.linkLower root entry mem') := by
  intro p n j hp hkernel hn
  by_cases hne : n = root
  · subst hne
    have hnil : p = [] := by
      cases p with
      | nil => rfl
      | cons i p => exact absurd hn (hroot (i :: p) hp hkernel)
    subst hnil
    obtain ⟨i, hi, hslot⟩ := hkernel
    obtain rfl : j = i := Option.some.inj hi
    have hzero : j ≠ 0 := by
      rintro rfl
      exact absurd hslot (by decide)
    rw [PageTables.linkLower, Radix.fill_self, if_neg hzero, if_neg (Nat.not_lt.mpr hslot),
      h n ⟨[], by simp, rfl⟩]
  · rw [PageTables.linkLower, Radix.fill_of_ne hne, h n ⟨p, hp, hn⟩]

/-- A change the walks of the kernel half cannot see changes no address of it. -/
lemma KernelTablesSame.translate_eq (h : KernelTablesSame root mem mem') {va : ℕ}
    (hva : kernelSpaceBase ≤ va) (window : ℕ) :
    PageTables.translate ⟨root, window⟩ mem' va = PageTables.translate ⟨root, window⟩ mem va := by
  rw [PageTables.translate, PageTables.translate]
  split
  swap
  · rfl
  rename_i hcanon
  have hlt : va < 2 ^ 64 := by
    have := isCanonical_iff.mp hcanon
    omega
  refine walk_congr fun p j hp n hn => ?_
  have hlen := hp.length_le
  rw [List.length_append, List.length_singleton, length_tableIndices] at hlen
  have hkernel : KernelPath (p ++ [j]) := by
    obtain hown | hkernel := ownPath_or_kernelPath (p ++ [j])
    · obtain ⟨rest, hrest⟩ := hp
      refine absurd ?_ (kernelPath_of_kernelSpace hva hlt).not_ownPath
      rw [← hrest]
      intro i hi
      refine hown i ?_
      cases p <;> exact hi
    · exact hkernel
  rw [h p n j (by omega) hkernel hn]
  exact .refl _

end RootApart

/-! ### Where a lower address is found -/

section Lower

variable {a : ℕ}

lemma lower_slot (ha : a < kernelSpaceBase) (hcanon : isCanonical a = true) :
    Half.lower.Slot (tableIndex a 39) := by
  have hbase : kernelSpaceBase = 2 ^ 64 - 2 ^ 47 := by decide
  have hlow := isCanonical_iff.mp hcanon
  rw [Half.Slot, kernelSlot_eq, tableIndex_eq]
  omega

lemma first_slot (ha : a < 2 ^ 39) : tableIndex a 39 = 0 := by
  refine Fin.ext ?_
  rw [tableIndex_eq, Nat.div_eq_of_lt ha]
  rfl

/-- An entry that links a table for the kernel does not let ring 3 pass. -/
lemma has_user_plain {new : ℕ} (halign : new % frameSize = 0) :
    has (new ||| PageTables.reachable false) user = false := by
  rw [has_user, Nat.testBit_or, testBit_frame_low halign (by decide)]
  decide

end Lower

/-! ### The firmware's tables of the small machine -/

lemma identityBelow_rootApart : RootApart (identityBelow 0) 0x1000 := by
  intro p _ hkernel hroot
  cases p with
  | nil =>
      obtain ⟨i, hi, -⟩ := hkernel
      cases hi
  | cons i p =>
      obtain ⟨j, hj, hslot⟩ := hkernel
      obtain rfl : i = j := Option.some.inj hj
      have hne : i ≠ 0 := by
        rintro rfl
        exact absurd hslot (by decide)
      rw [follow, show identityBelow 0 0x1000 i = 0 by simp [identityBelow, hne]] at hroot
      cases hroot

/-- Frames above its two tables are fresh. -/
lemma identityBelow_fresh {addrs : List ℕ}
    (h : ∀ a ∈ addrs, a % frameSize = 0 ∧ 0x2000 < a ∧ a < 2 ^ 52)
    (hnodup : addrs.Nodup) (k : ℕ) :
    frameList.Fresh k (tablesOf (identityBelow 0) 0x1000)
      (addrs.map PhysFrame.containingAddress) := by
  refine frameList_fresh (fun a ha => ?_) hnodup
  obtain ⟨halign, hlow, hhigh⟩ := h a ha
  refine ⟨halign, hhigh, fun hmem => ?_⟩
  have htable := tablesOf_identityBelow 0 hmem
  simp only [Set.mem_insert_iff, Set.mem_singleton_iff] at htable
  omega

end Harlan.Paging
