import Mathlib.Tactic
import Harlan.Fat.Formatter

/-!
Where the formatter puts things.

* `sectorsPerFatFor_fits`: the tables have an entry for every cluster.
* `sizesTables_iff`: when they are the smallest that have, and no sum is too long for 32 bits.
* `Runs`: the clusters in use are runs one after the other, one for each directory and each file
  that has bytes; `placeDirectory_runs` and `placeFile_runs` add one, `layOut_runs` is the whole
  of it. -/

namespace Harlan.Fat32

open SortedMap (Keyed)

/-! ### The size of a table -/

/-- A table of so many sectors has an entry for every cluster. -/
def Fits (totalSectors sectorsPerCluster size : ℕ) : Prop :=
  (totalSectors - reservedSectors - fatCount * size) / sectorsPerCluster + firstDataCluster
    ≤ size * entriesPerSector

instance (totalSectors sectorsPerCluster size : ℕ) :
    Decidable (Fits totalSectors sectorsPerCluster size) :=
  Nat.decLe _ _

lemma halve_fits {totalSectors sectorsPerCluster steps smallest largest size : ℕ}
    (hsteps : largest - smallest ≤ steps) (hle : smallest ≤ largest)
    (hlargest : Fits totalSectors sectorsPerCluster largest)
    (h : halve totalSectors sectorsPerCluster steps smallest largest = some size) :
    smallest ≤ size ∧ size ≤ largest ∧ Fits totalSectors sectorsPerCluster size := by
  induction steps generalizing smallest largest with
  | zero =>
      obtain rfl : smallest = size := Option.some.inj h
      obtain rfl : smallest = largest := by omega
      exact ⟨le_refl _, le_refl _, hlargest⟩
  | succ steps ih =>
      rw [halve] at h
      split at h
      · rename_i hlt
        dsimp only at h
        generalize hmiddle : smallest + (largest - smallest) / 2 = middle at h
        rcases hfits : fits totalSectors sectorsPerCluster middle with _ | _ | _
        · rw [hfits] at h
          cases h
        · rw [hfits] at h
          obtain ⟨hlow, hhigh, hsize⟩ := ih (by omega) (by omega) hlargest h
          exact ⟨by omega, hhigh, hsize⟩
        · rw [hfits] at h
          have hmid : Fits totalSectors sectorsPerCluster middle := by
            rw [fits] at hfits
            split at hfits
            · cases hfits
            · simpa [Fits] using hfits
          obtain ⟨hlow, hhigh, hsize⟩ := ih (by omega) (by omega) hmid h
          exact ⟨hlow, by omega, hsize⟩
      · obtain rfl : smallest = size := Option.some.inj h
        obtain rfl : smallest = largest := by omega
        exact ⟨le_refl _, le_refl _, hlargest⟩

/-- The tables are not empty, and hold an entry for every cluster. -/
lemma sectorsPerFatFor_fits {totalSectors sectorsPerCluster size : ℕ}
    (h : sectorsPerFatFor totalSectors sectorsPerCluster = some size) :
    0 < size ∧ size ≤ max totalSectors 1 ∧ Fits totalSectors sectorsPerCluster size := by
  have hwhole : Fits totalSectors sectorsPerCluster (max totalSectors 1) := by
    have hnothing : totalSectors - reservedSectors - fatCount * max totalSectors 1 = 0 := by
      rw [fatCount]
      omega
    rw [Fits, hnothing, Nat.zero_div, firstDataCluster, entriesPerSector, sectorBytes]
    omega
  obtain ⟨hpos, hle, hfits⟩ := halve_fits (by omega) (by omega) hwhole h
  exact ⟨hpos, hle, hfits⟩

section Sizes

variable {totalSectors sectorsPerCluster size size' steps smallest largest : ℕ}

lemma fits_eq (h : size * entriesPerSector < 2 ^ 32) :
    fits totalSectors sectorsPerCluster size
      = some (decide (Fits totalSectors sectorsPerCluster size)) := by
  rw [fits, if_neg (Nat.not_le.mpr h)]
  rfl

/-- Once a size is enough, every larger one is: a larger table leaves less to have entries for. -/
lemma Fits.mono (h : Fits totalSectors sectorsPerCluster size) (hle : size ≤ size') :
    Fits totalSectors sectorsPerCluster size' := by
  have hdata : (totalSectors - reservedSectors - fatCount * size') / sectorsPerCluster
      ≤ (totalSectors - reservedSectors - fatCount * size) / sectorsPerCluster :=
    Nat.div_le_div_right (Nat.sub_le_sub_left (Nat.mul_le_mul_left _ hle) _)
  have hentries : size * entriesPerSector ≤ size' * entriesPerSector := Nat.mul_le_mul_right _ hle
  rw [Fits] at h ⊢
  omega

/-- Halving ends at the least size that is enough. -/
lemma halve_least (hsteps : largest - smallest ≤ steps) (hle : smallest ≤ largest)
    (hsmall : largest * entriesPerSector < 2 ^ 32 + entriesPerSector)
    (hlargest : Fits totalSectors sectorsPerCluster largest)
    (hbelow : ∀ size, 1 ≤ size → size < smallest → ¬Fits totalSectors sectorsPerCluster size) :
    ∃ size, halve totalSectors sectorsPerCluster steps smallest largest = some size
      ∧ smallest ≤ size
      ∧ Fits totalSectors sectorsPerCluster size
      ∧ ∀ other, 1 ≤ other → other < size → ¬Fits totalSectors sectorsPerCluster other := by
  induction steps generalizing smallest largest with
  | zero =>
      obtain rfl : smallest = largest := by omega
      exact ⟨smallest, rfl, le_refl _, hlargest, hbelow⟩
  | succ steps ih =>
      rw [halve]
      split_ifs with hlt
      · have hmiddle : smallest + (largest - smallest) / 2 < largest := by omega
        generalize hmid : smallest + (largest - smallest) / 2 = middle at hmiddle
        have hword : middle * entriesPerSector < 2 ^ 32 := by
          have hone : (middle + 1) * entriesPerSector ≤ largest * entriesPerSector :=
            Nat.mul_le_mul_right _ hmiddle
          rw [Nat.succ_mul] at hone
          omega
        dsimp only
        rw [fits_eq hword]
        by_cases hfits : Fits totalSectors sectorsPerCluster middle
        · have hless : middle * entriesPerSector < 2 ^ 32 + entriesPerSector := by omega
          obtain ⟨size, hsize, hlow, hrest⟩ := ih (by omega) (by omega) hless hfits hbelow
          rw [decide_eq_true hfits]
          exact ⟨size, hsize, hlow, hrest⟩
        · obtain ⟨size, hsize, hlow, hrest⟩ :=
            @ih (middle + 1) largest (by omega) (by omega) hsmall hlargest
            fun other hpos hother hfit => hfits (hfit.mono (by omega))
          rw [decide_eq_false hfits]
          exact ⟨size, hsize, by omega, hrest⟩
      · obtain rfl : smallest = largest := by omega
        exact ⟨smallest, rfl, le_refl _, hlargest, hbelow⟩

/-- Half of all the sectors are enough for a table. -/
lemma fits_half (hsize : totalSectors ≤ 2 * size) (hpos : 1 ≤ size) :
    Fits totalSectors sectorsPerCluster size := by
  have hdata : totalSectors - reservedSectors - fatCount * size = 0 := by
    rw [fatCount]
    omega
  rw [Fits, hdata, Nat.zero_div, firstDataCluster, entriesPerSector, sectorBytes]
  omega

/-- Below `2^26 - 1` sectors the search ends, at the least size that is enough. -/
lemma sectorsPerFatFor_least (h : totalSectors < 2 ^ 26 - 1) :
    ∃ size, sectorsPerFatFor totalSectors sectorsPerCluster = some size ∧ 1 ≤ size
      ∧ Fits totalSectors sectorsPerCluster size
      ∧ ∀ other, 1 ≤ other → other < size → ¬Fits totalSectors sectorsPerCluster other := by
  have hentries : entriesPerSector = 128 := rfl
  have hbelow : ∀ size, 1 ≤ size → size < 1 → ¬Fits totalSectors sectorsPerCluster size :=
    fun size hpos hlt => absurd hpos (by omega)
  rw [sectorsPerFatFor]
  rcases Nat.lt_or_ge totalSectors 2 with hfew | hmany
  · have hone : max totalSectors 1 = 1 := by omega
    rw [hone]
    exact halve_least (by omega) (le_refl _) (by omega) (fits_half (by omega) (le_refl _)) hbelow
  · -- the first size that is tried is enough, and from there on no product is too long
    obtain ⟨steps, rfl⟩ : ∃ steps, totalSectors = steps + 1 := ⟨totalSectors - 1, by omega⟩
    have hmax : max (steps + 1) 1 = steps + 1 := by omega
    have hmiddle : Fits (steps + 1) sectorsPerCluster (1 + (steps + 1 - 1) / 2) :=
      fits_half (by omega) (by omega)
    rw [hmax, halve, if_pos (by omega)]
    dsimp only
    rw [fits_eq (by rw [hentries]; omega), decide_eq_true hmiddle]
    exact halve_least (by omega) (by omega) (by rw [hentries]; omega) hmiddle hbelow

/-- From there on the first product of the search is too long for 32 bits. -/
lemma sectorsPerFatFor_none (h : 2 ^ 26 - 1 ≤ totalSectors) :
    sectorsPerFatFor totalSectors sectorsPerCluster = none := by
  have hentries : entriesPerSector = 128 := rfl
  obtain ⟨steps, rfl⟩ : ∃ steps, totalSectors = steps + 1 := ⟨totalSectors - 1, by omega⟩
  have hmax : max (steps + 1) 1 = steps + 1 := by omega
  have hnone : fits (steps + 1) sectorsPerCluster (1 + (steps + 1 - 1) / 2) = none :=
    if_pos (by rw [hentries]; omega)
  rw [sectorsPerFatFor, hmax, halve, if_pos (by omega)]
  dsimp only
  rw [hnone]

/-- The search makes no sum or product that is too long and answers the least size of a table that
has an entry for every cluster that is left beside the tables; and the tables leave no less than
nothing. -/
def SizesTables (totalSectors sectorsPerCluster : ℕ) : Prop :=
  ∃ size, sectorsPerFatFor totalSectors sectorsPerCluster = some size
    ∧ IsLeast {size | 1 ≤ size ∧ Fits totalSectors sectorsPerCluster size} size
    ∧ (geometryOf totalSectors sectorsPerCluster size).firstDataSector ≤ totalSectors

/-- **When the tables are sized exactly**: for 34 sectors or more, and fewer than `2^26 - 1`,
whatever power of two a cluster has. -/
theorem sizesTables_iff (totalSectors : UInt32) (k : Fin 8) :
    SizesTables totalSectors.toNat (2 ^ k.val) ↔ 34 ≤ totalSectors.toNat
      ∧ totalSectors.toNat < 2 ^ 26 - 1 := by
  generalize totalSectors.toNat = totalSectors
  generalize 2 ^ k.val = sectorsPerCluster
  refine ⟨?_, fun ⟨hlow, hhigh⟩ => ?_⟩
  · rintro ⟨size, hsize, ⟨⟨hpos, -⟩, -⟩, hdata⟩
    refine ⟨?_, ?_⟩
    · simp only [Geometry.firstDataSector, geometryOf, reservedSectors, fatCount] at hdata
      omega
    · by_contra hmany
      rw [sectorsPerFatFor_none (by omega)] at hsize
      cases hsize
  · obtain ⟨size, hsize, hpos, hfits, hleast⟩ :=
      @sectorsPerFatFor_least totalSectors sectorsPerCluster hhigh
    refine ⟨size, hsize, ⟨⟨hpos, hfits⟩, fun other ⟨hother, hfit⟩ => ?_⟩, ?_⟩
    · by_contra hlt
      exact hleast other hother (by omega) hfit
    · simp only [Geometry.firstDataSector, geometryOf, reservedSectors, fatCount]
      rcases Nat.eq_or_lt_of_le hpos with rfl | hmore
      · exact hlow
      · -- one sector fewer is not enough, so there are clusters left
        have hless := hleast (size - 1) (by omega) (by omega)
        rw [Fits, reservedSectors, fatCount, firstDataCluster, entriesPerSector,
          sectorBytes] at hless
        have hdiv := Nat.div_le_self (totalSectors - 32 - 2 * (size - 1)) sectorsPerCluster
        omega

/-- **A volume of 32 GiB, and one of ten sectors**: in the first the first size that is tried
makes a product of 33 bits, and in the second a table of one sector is one too many. -/
theorem not_sizesTables : ¬SizesTables (67108863 : UInt32).toNat (2 ^ (3 : Fin 8).val)
    ∧ ¬SizesTables (10 : UInt32).toNat (2 ^ (0 : Fin 8).val) := by
  refine ⟨?_, ?_⟩
  · rintro ⟨size, hsize, -⟩
    rw [sectorsPerFatFor_none (by decide)] at hsize
    cases hsize
  · rintro ⟨size, -, ⟨⟨hpos, -⟩, -⟩, hdata⟩
    simp only [Geometry.firstDataSector, geometryOf, reservedSectors, fatCount,
      UInt32.reduceToNat] at hdata
    omega

end Sizes

/-! ### Runs of clusters -/

/-- A run of clusters: its first, and how many. -/
abbrev Run := ℕ × ℕ

/-- The cluster lies in the run. -/
def Run.Has (run : Run) (cluster : ℕ) : Prop := run.1 ≤ cluster ∧ cluster < run.1 + run.2

/-- What the table says of a cluster of a run. -/
def Run.next (run : Run) (cluster : ℕ) : ℕ :=
  if cluster + 1 = run.1 + run.2 then endOfChain else cluster + 1

/-- The first clusters of the directories, and of the files that have bytes. -/
def Layout.firsts (layout : Layout) : List ℕ :=
  layout.directoryCluster.map Prod.snd ++ (layout.placed.map Prod.snd).filter (· ≠ 0)

/-- The clusters in use are runs one after the other, each of one directory or of one file. -/
structure Runs (clusterBytes clusters : ℕ) (layout : Layout) (runs : List Run) : Prop where
  ordered : runs.Pairwise fun run run' => run.1 + run.2 ≤ run'.1
  pos : ∀ run ∈ runs, 0 < run.2 ∧ firstDataCluster ≤ run.1 ∧ run.1 + run.2 ≤ layout.nextFree
  inside : layout.nextFree ≤ firstDataCluster + clusters
  covers : ∀ cluster, firstDataCluster ≤ cluster → cluster < layout.nextFree → ∃ run ∈ runs,
    run.Has cluster
  keyed : Keyed layout.chains
  chains : ∀ cluster next, (cluster, next) ∈ layout.chains
    ↔ ∃ run ∈ runs, run.Has cluster ∧ next = run.next cluster
  paths : Keyed layout.directoryCluster
  root : ([], firstDataCluster) ∈ layout.directoryCluster
  directory : ∀ path cluster, (path, cluster) ∈ layout.directoryCluster → (cluster, 1) ∈ runs
  file : ∀ file first, (file, first) ∈ layout.placed →
    (first = 0 ∧ file.contents = [])
      ∨ (first, divCeil file.contents.length clusterBytes) ∈ runs ∧ file.contents ≠ []
  /-- No two of them have the same run, -/
  apart : layout.firsts.Nodup
  /-- and no run has none of them. -/
  owned : ∀ run ∈ runs, run.1 ∈ layout.firsts

section Runs

variable {clusterBytes clusters : ℕ} {layout : Layout} {runs : List Run}

lemma Runs.beside (h : Runs clusterBytes clusters layout runs) {run run' : Run}
    (hrun : run ∈ runs) (hrun' : run' ∈ runs) (hne : run ≠ run') :
    run.1 + run.2 ≤ run'.1 ∨ run'.1 + run'.2 ≤ run.1 := by
  have hpair : runs.Pairwise fun a b => a.1 + a.2 ≤ b.1 ∨ b.1 + b.2 ≤ a.1 :=
    h.ordered.imp Or.inl
  have : Std.Symm fun a b : Run => a.1 + a.2 ≤ b.1 ∨ b.1 + b.2 ≤ a.1 := ⟨fun _ _ => Or.symm⟩
  exact hpair.forall hrun hrun' hne

lemma Runs.unique (h : Runs clusterBytes clusters layout runs) {run run' : Run}
    (hrun : run ∈ runs) (hrun' : run' ∈ runs) {cluster : ℕ} (hin : run.Has cluster)
    (hin' : run'.Has cluster) :
    run = run' := by
  by_contra hne
  have hbeside := h.beside hrun hrun' hne
  obtain ⟨hlow, hhigh⟩ := hin
  obtain ⟨hlow', hhigh'⟩ := hin'
  omega

lemma runs_root (hclusters : 0 < clusters) : Runs clusterBytes clusters Layout.root [(2, 1)] := by
  have hhas : ∀ cluster, Run.Has (2, 1) cluster ↔ cluster = 2 := by
    intro cluster
    rw [Run.Has]
    omega
  refine ⟨List.pairwise_singleton _ _, ?_, ?_, ?_, List.nodup_singleton _, ?_,
    List.nodup_singleton _, List.mem_singleton.mpr rfl, ?_, ?_, List.nodup_singleton _, ?_⟩
  · rintro run hrun
    obtain rfl := List.mem_singleton.mp hrun
    exact ⟨by decide, by decide, by decide⟩
  · rw [Layout.root, firstDataCluster]
    dsimp only
    omega
  · intro cluster hlow hhigh
    refine ⟨(2, 1), List.mem_singleton.mpr rfl, (hhas cluster).mpr ?_⟩
    rw [Layout.root, firstDataCluster] at hhigh
    rw [firstDataCluster] at hlow
    dsimp only at hhigh
    omega
  · intro cluster next
    rw [Layout.root, List.mem_singleton, Prod.mk.injEq]
    constructor
    · rintro ⟨rfl, rfl⟩
      exact ⟨(2, 1), List.mem_singleton.mpr rfl, (hhas _).mpr rfl, rfl⟩
    · rintro ⟨run, hrun, hin, rfl⟩
      obtain rfl := List.mem_singleton.mp hrun
      obtain rfl := (hhas cluster).mp hin
      exact ⟨rfl, rfl⟩
  · intro path cluster hmem
    obtain ⟨-, rfl⟩ := Prod.mk.inj (List.mem_singleton.mp hmem)
    exact List.mem_singleton.mpr rfl
  · intro file first hmem
    cases hmem
  · rintro run hrun
    obtain rfl := List.mem_singleton.mp hrun
    exact List.mem_singleton.mpr rfl

/-- What the runs and the table gain by one more run after the last. -/
structure Grown (layout : Layout) (needed : ℕ) (chains : List (ℕ × ℕ)) : Prop where
  keyed : Keyed chains
  chains : ∀ cluster next, (cluster, next) ∈ chains ↔ (cluster, next) ∈ layout.chains
    ∨ Run.Has (layout.nextFree, needed) cluster
      ∧ next = Run.next (layout.nextFree, needed) cluster

lemma Runs.fresh (h : Runs clusterBytes clusters layout runs) {cluster next : ℕ}
    (hmem : (cluster, next) ∈ layout.chains) : cluster < layout.nextFree := by
  obtain ⟨run, hrun, ⟨-, hhigh⟩, -⟩ := (h.chains cluster next).mp hmem
  have hend := (h.pos run hrun).2.2
  omega

/-- The chain of a file, up to some of its clusters. -/
lemma addChain_grown (h : Runs clusterBytes clusters layout runs) (needed : ℕ) :
    Grown layout needed (addChain layout.nextFree needed layout.chains) := by
  suffices hpart : ∀ count, count ≤ needed →
      Keyed ((List.range count).foldl
        (fun chains index => SortedMap.insert (layout.nextFree + index)
        (if index + 1 = needed then endOfChain else layout.nextFree + index + 1) chains)
        layout.chains)
      ∧ ∀ cluster next, (cluster, next) ∈ (List.range count).foldl (fun chains index =>
          SortedMap.insert (layout.nextFree + index)
            (if index + 1 = needed then endOfChain else layout.nextFree + index + 1) chains)
            layout.chains
        ↔ (cluster, next) ∈ layout.chains ∨ Run.Has (layout.nextFree, count) cluster
            ∧ next = Run.next (layout.nextFree, needed) cluster by
    obtain ⟨hkeyed, hchains⟩ := hpart needed (le_refl _)
    exact ⟨hkeyed, hchains⟩
  intro count
  induction count with
  | zero =>
      intro _
      refine ⟨h.keyed, fun cluster next => ?_⟩
      rw [List.range_zero, List.foldl_nil, Run.Has]
      refine ⟨.inl, ?_⟩
      rintro (hmem | ⟨⟨hlow, hhigh⟩, -⟩)
      · exact hmem
      · dsimp only at hlow hhigh
        omega
  | succ count ih =>
      intro hcount
      obtain ⟨hkeyed, hchains⟩ := ih (by omega)
      rw [List.range_succ, List.foldl_append, List.foldl_cons, List.foldl_nil]
      refine ⟨SortedMap.keyed_insert hkeyed, fun cluster next => ?_⟩
      have hvalue : (if count + 1 = needed then endOfChain else layout.nextFree + count + 1)
          = Run.next (layout.nextFree, needed) (layout.nextFree + count) := by
        rw [Run.next]
        refine if_congr ?_ rfl rfl
        dsimp only
        omega
      rw [SortedMap.mem_insert, hchains, hvalue]
      simp only [Run.Has]
      constructor
      · rintro (⟨rfl, rfl⟩ | ⟨-, hmem | ⟨⟨hlow, hhigh⟩, hnext⟩⟩)
        · exact .inr ⟨⟨by omega, by omega⟩, rfl⟩
        · exact .inl hmem
        · exact .inr ⟨⟨hlow, by omega⟩, hnext⟩
      · rintro (hmem | ⟨⟨hlow, hhigh⟩, rfl⟩)
        · have hlt := h.fresh hmem
          exact .inr ⟨by omega, .inl hmem⟩
        · by_cases hlast : cluster = layout.nextFree + count
          · exact .inl ⟨hlast, by rw [hlast]⟩
          · exact .inr ⟨hlast, .inr ⟨⟨hlow, by omega⟩, rfl⟩⟩

/-- A chain of one cluster. -/
lemma insert_grown (h : Runs clusterBytes clusters layout runs) :
    Grown layout 1 (SortedMap.insert layout.nextFree endOfChain layout.chains) := by
  have hgrown := addChain_grown h 1
  exact hgrown

/-- Where something is already, a run after the last is not. -/
lemma Runs.owner_lt (h : Runs clusterBytes clusters layout runs) {first : ℕ}
    (hmem : first ∈ layout.firsts) : first < layout.nextFree := by
  rcases List.mem_append.mp hmem with hmem | hmem
  · obtain ⟨⟨path, cluster⟩, hpath, rfl⟩ := List.mem_map.mp hmem
    obtain ⟨-, -, hend⟩ := h.pos _ (h.directory path cluster hpath)
    exact hend
  · obtain ⟨hmem, hne⟩ := List.mem_filter.mp hmem
    obtain ⟨⟨file, cluster⟩, hfile, rfl⟩ := List.mem_map.mp hmem
    rcases h.file file cluster hfile with ⟨hzero, -⟩ | ⟨hrun, -⟩
    · simp [hzero] at hne
    · obtain ⟨hpos, -, hend⟩ := h.pos _ hrun
      dsimp only at hpos hend ⊢
      omega

/-- The parts that do not depend on whom the run is for. -/
lemma Runs.grow (h : Runs clusterBytes clusters layout runs) {needed : ℕ} {chains : List (ℕ × ℕ)}
    (hneeded : 0 < needed) (hroom : layout.nextFree + needed ≤ firstDataCluster + clusters)
    (hgrown : Grown layout needed chains) {layout' : Layout} (hchains : layout'.chains = chains)
    (hnext : layout'.nextFree = layout.nextFree + needed)
    (hpaths : Keyed layout'.directoryCluster)
    (hroot : ([], firstDataCluster) ∈ layout'.directoryCluster)
    (hdirectory : ∀ path cluster, (path, cluster) ∈ layout'.directoryCluster →
      (path, cluster) ∈ layout.directoryCluster ∨ (cluster, 1) = (layout.nextFree, needed))
    (hfile : ∀ file first, (file, first) ∈ layout'.placed → (file, first) ∈ layout.placed
      ∨ (first, divCeil file.contents.length clusterBytes) = (layout.nextFree, needed)
        ∧ file.contents ≠ [])
    (hfirsts : layout'.firsts.Perm (layout.nextFree :: layout.firsts)) :
    Runs clusterBytes clusters layout' (runs ++ [(layout.nextFree, needed)]) := by
  -- the new run begins where all the others have ended
  have hlow : firstDataCluster ≤ layout.nextFree := by
    have hmem := h.directory _ _ h.root
    have hpos := (h.pos _ hmem).2.2
    dsimp only at hpos
    omega
  refine ⟨?_, ?_, by omega, ?_, hchains ▸ hgrown.keyed, ?_, hpaths, hroot, ?_, ?_, ?_, ?_⟩
  · refine List.pairwise_append.mpr ⟨h.ordered, List.pairwise_singleton _ _, ?_⟩
    rintro run hrun run' hrun'
    obtain rfl := List.mem_singleton.mp hrun'
    exact (h.pos run hrun).2.2
  · rintro run hrun
    rcases List.mem_append.mp hrun with hrun | hrun
    · obtain ⟨hpos, hfirst, hend⟩ := h.pos run hrun
      exact ⟨hpos, hfirst, by omega⟩
    · obtain rfl := List.mem_singleton.mp hrun
      exact ⟨hneeded, hlow, hnext.ge⟩
  · intro cluster hfirst hend
    by_cases hold : cluster < layout.nextFree
    · obtain ⟨run, hrun, hin⟩ := h.covers cluster hfirst hold
      exact ⟨run, List.mem_append_left _ hrun, hin⟩
    · exact ⟨_, List.mem_append_right _ (List.mem_singleton.mpr rfl), by dsimp only; omega, by
        dsimp only; omega⟩
  · intro cluster next
    rw [hchains, hgrown.chains, h.chains]
    simp only [List.mem_append, List.mem_singleton, or_and_right, exists_or, exists_eq_left]
  -- what has a first cluster has a run that begins there, old or new
  · intro path cluster hmem
    rcases hdirectory path cluster hmem with hold | heq
    · exact List.mem_append_left _ (h.directory path cluster hold)
    · rw [heq]
      exact List.mem_append_right _ (List.mem_singleton.mpr rfl)
  · intro file first hmem
    rcases hfile file first hmem with hold | ⟨heq, hbytes⟩
    · rcases h.file file first hold with hzero | ⟨hrun, hbytes⟩
      · exact .inl hzero
      · exact .inr ⟨List.mem_append_left _ hrun, hbytes⟩
    · refine .inr ⟨?_, hbytes⟩
      rw [heq]
      exact List.mem_append_right _ (List.mem_singleton.mpr rfl)
  · rw [hfirsts.nodup_iff]
    refine List.nodup_cons.mpr ⟨fun hmem => ?_, h.apart⟩
    have hlt := h.owner_lt hmem
    omega
  · intro run hrun
    rw [hfirsts.mem_iff, List.mem_cons]
    rcases List.mem_append.mp hrun with hrun | hrun
    · exact .inr (h.owned run hrun)
    · obtain rfl := List.mem_singleton.mp hrun
      exact .inl rfl

/-- One more directory. -/
lemma placeDirectory_runs (h : Runs clusterBytes clusters layout runs) {path : Path}
    {layout' : Layout} (hnew : path ≠ [] → path ∉ layout.directoryCluster.map Prod.fst)
    (hplace : placeDirectory clusters layout path = .ok layout') :
    (∃ runs', Runs clusterBytes clusters layout' runs') ∧ layout'.placed = layout.placed
      ∧ ∀ other, other ∈ layout'.directoryCluster.map Prod.fst
        ↔ other ∈ layout.directoryCluster.map Prod.fst ∨ other = path := by
  rw [placeDirectory] at hplace
  split_ifs at hplace with hpath hroom
  · cases hplace
    refine ⟨⟨runs, h⟩, rfl, fun other => ⟨.inl, ?_⟩⟩
    rintro (hother | rfl)
    · exact hother
    · rw [hpath]
      exact List.mem_map_of_mem h.root
  · cases hplace
    have hpathNew := hnew hpath
    refine ⟨⟨_, h.grow Nat.one_pos (by omega) (insert_grown h) rfl rfl
      (SortedMap.keyed_insert h.paths) ?_
      ?_ ?_ ?_⟩, rfl, ?_⟩
    · exact SortedMap.mem_insert.mpr (.inr ⟨Ne.symm hpath, h.root⟩)
    · intro other cluster hmem
      rcases SortedMap.mem_insert.mp hmem with ⟨-, rfl⟩ | ⟨-, hold⟩
      · exact .inr rfl
      · exact .inl hold
    · exact fun file first hmem => .inl hmem
    · have hperm : ((SortedMap.insert path layout.nextFree layout.directoryCluster).map
          Prod.snd).Perm
          (layout.nextFree :: layout.directoryCluster.map Prod.snd) := by
        rw [SortedMap.insert, if_neg hpathNew]
        exact (List.perm_orderedInsert _ _ _).map Prod.snd
      exact hperm.append_right _
    · intro other
      dsimp only
      rw [SortedMap.mem_keys_insert, or_comm]

lemma divCeil_le {a b : ℕ} (hb : 0 < b) : divCeil a b ≤ a := by
  rw [divCeil]
  obtain _ | a := a
  · rw [Nat.zero_add, Nat.div_eq_of_lt (by omega)]
  · obtain ⟨b, rfl⟩ := Nat.exists_eq_add_of_le' hb
    refine Nat.div_le_of_le_mul ?_
    have hmul : (b + 1) * (a + 1) = b * a + b + a + 1 := by ring
    rw [Nat.succ_eq_add_one, Nat.zero_add, hmul]
    omega

/-- One more file. -/
lemma placeFile_runs (h : Runs clusterBytes clusters layout runs) (hbytes : 0 < clusterBytes)
    {file : File} {layout' : Layout} (hsize : file.contents.length < 2 ^ 32)
    (hplace : placeFile clusterBytes clusters layout file = .ok layout') :
    (∃ runs', Runs clusterBytes clusters layout' runs')
      ∧ layout'.directoryCluster = layout.directoryCluster
      ∧ ∃ first, layout'.placed = layout.placed ++ [(file, first)] := by
  have hneeded : divCeil file.contents.length clusterBytes % 2 ^ 32
      = divCeil file.contents.length clusterBytes :=
    Nat.mod_eq_of_lt (Nat.lt_of_le_of_lt (divCeil_le hbytes) hsize)
  rw [placeFile, hneeded] at hplace
  split_ifs at hplace with hzero hroom
  · cases hplace
    have hempty : file.contents = [] := by
      rw [divCeil, Nat.div_eq_zero_iff] at hzero
      refine List.eq_nil_of_length_eq_zero ?_
      omega
    refine ⟨⟨runs, ?_⟩, rfl, 0, rfl⟩
    refine ⟨h.ordered, h.pos, h.inside, h.covers, h.keyed, h.chains, h.paths, h.root,
      h.directory, ?_, ?_, ?_⟩
    · intro other first hmem
      rcases List.mem_append.mp hmem with hold | hmem
      · exact h.file other first hold
      · obtain ⟨rfl, rfl⟩ := Prod.mk.inj (List.mem_singleton.mp hmem)
        exact .inl ⟨rfl, hempty⟩
    · simpa [Layout.firsts] using h.apart
    · simpa [Layout.firsts] using h.owned
  · cases hplace
    refine ⟨⟨_, h.grow (Nat.pos_of_ne_zero hzero) (by omega)
      (addChain_grown h _) rfl rfl h.paths h.root
      (fun path cluster hmem => .inl hmem) ?_ ?_⟩, rfl, layout.nextFree, rfl⟩
    · intro other first hmem
      rcases List.mem_append.mp hmem with hold | hmem
      · exact .inl hold
      · obtain ⟨rfl, rfl⟩ := Prod.mk.inj (List.mem_singleton.mp hmem)
        refine .inr ⟨rfl, ?_⟩
        rintro hempty
        rw [hempty, divCeil, List.length_nil, Nat.zero_add, Nat.div_eq_of_lt (by omega)] at hzero
        exact hzero rfl
    · have hlow := (h.pos _ (h.directory _ _ h.root)).2.2
      dsimp only at hlow
      rw [Layout.firsts, List.map_append, List.filter_append, ← List.append_assoc,
        List.map_singleton, List.filter_cons_of_pos (by simp; omega), List.filter_nil]
      exact List.perm_append_singleton _ _

lemma placeDirectories_runs {paths : List Path} {layout' : Layout}
    (h : Runs clusterBytes clusters layout runs) (hnodup : paths.Nodup)
    (hnew : ∀ path ∈ paths, path ≠ [] → path ∉ layout.directoryCluster.map Prod.fst)
    (hplace : paths.foldlM (placeDirectory clusters) layout = .ok layout') :
    (∃ runs', Runs clusterBytes clusters layout' runs') ∧ layout'.placed = layout.placed
      ∧ ∀ other, other ∈ layout'.directoryCluster.map Prod.fst
        ↔ other ∈ layout.directoryCluster.map Prod.fst ∨ other ∈ paths := by
  induction paths generalizing layout runs with
  | nil =>
      cases hplace
      exact ⟨⟨runs, h⟩, rfl, fun other => ⟨.inl, fun hother => hother.resolve_right (by simp)⟩⟩
  | cons path rest ih =>
      rw [List.foldlM_cons] at hplace
      obtain ⟨hfirst, hrest⟩ := List.nodup_cons.mp hnodup
      rcases hone : placeDirectory clusters layout path with err | layout₁
      · rw [hone] at hplace
        cases hplace
      · rw [hone] at hplace
        obtain ⟨⟨runs₁, h₁⟩, hplaced₁, hkeys₁⟩ :=
          placeDirectory_runs h (hnew path List.mem_cons_self) hone
        have hnew₁ : ∀ other ∈ rest, other ≠ [] →
            other ∉ layout₁.directoryCluster.map Prod.fst := by
          intro other hother hne hmem
          rcases (hkeys₁ other).mp hmem with hmem | rfl
          · exact hnew other (List.mem_cons_of_mem _ hother) hne hmem
          · exact hfirst hother
        obtain ⟨hruns, hplaced, hkeys⟩ := ih h₁ hrest hnew₁ hplace
        refine ⟨hruns, hplaced.trans hplaced₁, fun other => ?_⟩
        rw [hkeys, hkeys₁, List.mem_cons, or_assoc]

lemma placeFiles_runs {files : List File} {layout' : Layout}
    (h : Runs clusterBytes clusters layout runs) (hbytes : 0 < clusterBytes)
    (hsizes : ∀ file ∈ files, file.contents.length < 2 ^ 32)
    (hplace : files.foldlM (placeFile clusterBytes clusters) layout = .ok layout') :
    (∃ runs', Runs clusterBytes clusters layout' runs')
      ∧ layout'.directoryCluster = layout.directoryCluster
      ∧ layout'.placed.map Prod.fst = layout.placed.map Prod.fst ++ files := by
  induction files generalizing layout runs with
  | nil =>
      cases hplace
      exact ⟨⟨runs, h⟩, rfl, (List.append_nil _).symm⟩
  | cons file rest ih =>
      rw [List.foldlM_cons] at hplace
      rcases hone : placeFile clusterBytes clusters layout file with err | layout₁
      · rw [hone] at hplace
        cases hplace
      · rw [hone] at hplace
        obtain ⟨⟨runs₁, h₁⟩, hpaths₁, first, hplaced₁⟩ :=
          placeFile_runs h hbytes (hsizes file List.mem_cons_self) hone
        obtain ⟨hruns, hpaths, hplaced⟩ := ih h₁ (fun other hother =>
          hsizes other (List.mem_cons_of_mem _ hother)) hplace
        refine ⟨hruns, hpaths.trans hpaths₁, ?_⟩
        rw [hplaced, hplaced₁, List.map_append, List.map_singleton, List.append_assoc,
          List.singleton_append]

/-- Where everything goes: the directories of the tree and the files, each with a run of its
own. -/
lemma layOut_runs {tree : Tree} {files : List File} (hclusters : 0 < clusters)
    (hbytes : 0 < clusterBytes) (hkeyed : Keyed tree) (hroot : [] ∈ tree.map Prod.fst)
    (hsizes : ∀ file ∈ files, file.contents.length < 2 ^ 32)
    (h : layOut clusterBytes clusters tree files = .ok layout) :
    (∃ runs, Runs clusterBytes clusters layout runs)
      ∧ (∀ path, path ∈ layout.directoryCluster.map Prod.fst ↔ path ∈ tree.map Prod.fst)
      ∧ layout.placed.map Prod.fst = files := by
  rw [layOut] at h
  rcases hdirectories : (tree.map Prod.fst).foldlM (placeDirectory clusters) Layout.root
    with err | layout₁
  · rw [hdirectories] at h
    cases h
  · rw [hdirectories] at h
    have hfirst : ∀ path, path ∈ Layout.root.directoryCluster.map Prod.fst ↔ path = [] := by
      intro path
      exact List.mem_singleton
    obtain ⟨⟨runs₁, h₁⟩, hplaced₁, hkeys₁⟩ := placeDirectories_runs (runs_root hclusters) hkeyed
      (fun path _ hne hmem => hne ((hfirst path).mp hmem)) hdirectories
    obtain ⟨hruns, hpaths, hplaced⟩ := placeFiles_runs h₁ hbytes hsizes h
    refine ⟨hruns, fun path => ?_, ?_⟩
    · rw [hpaths, hkeys₁, hfirst]
      refine ⟨?_, .inr⟩
      rintro (rfl | hmem)
      · exact hroot
      · exact hmem
    · rw [hplaced, hplaced₁]
      rfl

end Runs

end Harlan.Fat32
