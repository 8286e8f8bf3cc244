import Mathlib.Tactic
import Mathlib.Order.CompletePartialOrder
import Harlan.Fat.WriteFile

/-!
Where an accepted boot sector puts things, and what one write to the table changes.

* `Area`, `parse_arithmetic`: the areas of a volume are apart, every cluster and every entry is in
  its own, and none of the sums that say where leaves 32 bits.
* `withEntry`: the disk after an entry was written in every copy of the table;
  `setNextCluster_withEntry` says that this is what `set_next_cluster` leaves.
* `setNextCluster_edits`: so it changes that entry, and nothing else.
* `linked_iff`: and a cluster can be linked to exactly below the numbers the table keeps for
  itself. -/

namespace Harlan.Fat

open Eff

/-! ### Where things are -/

/-- The areas of a volume. -/
inductive Area where
  | reserved
  | copy (table : ℕ)
  | data
deriving DecidableEq

/-- The areas a volume has. -/
def Area.Of (boot : BootSector) : Area → Prop
  | .copy table => table < boot.fatCount
  | _ => True

/-- Where a copy of the table starts. -/
def tableStart (boot : BootSector) (table : ℕ) : ℕ :=
  boot.firstFatSector + table * boot.sectorsPerFat

/-- The sectors of an area. -/
def Area.sectors (boot : BootSector) : Area → Set ℕ
  | .reserved => Set.Ico 0 boot.reservedSectors
  | .copy table => Set.Ico (tableStart boot table) (tableStart boot table + boot.sectorsPerFat)
  | .data => Set.Ico boot.firstDataSector boot.totalSectors

section Where

variable {boot : BootSector} (hboot : boot.WellFormed)

lemma tableStart_add_le {table table' : ℕ} (h : table < table') :
    tableStart boot table + boot.sectorsPerFat ≤ tableStart boot table' := by
  have hmul : (table + 1) * boot.sectorsPerFat ≤ table' * boot.sectorsPerFat :=
    Nat.mul_le_mul_right _ h
  rw [Nat.succ_mul] at hmul
  rw [tableStart, tableStart]
  omega

lemma table_le_data {table : ℕ} (h : table < boot.fatCount) :
    tableStart boot table + boot.sectorsPerFat ≤ boot.firstDataSector := tableStart_add_le h

lemma reserved_le_table (table : ℕ) : boot.reservedSectors ≤ tableStart boot table :=
  Nat.le_add_right _ _

/-- No two areas of a volume share a sector. -/
lemma areas_disjoint {x y : Area} (hx : x.Of boot) (hy : y.Of boot) (hne : x ≠ y) :
    Disjoint (x.sectors boot) (y.sectors boot) := by
  have hreserved : ∀ {area : Area}, area.Of boot → area ≠ .reserved →
      ∀ sector ∈ area.sectors boot,
      boot.reservedSectors ≤ sector := by
    intro area harea hother sector hmem
    cases area with
    | reserved => exact absurd rfl hother
    | copy table => exact (reserved_le_table table).trans hmem.1
    | data => exact (Nat.le_add_right _ _).trans hmem.1
  have hdata : ∀ {area : Area}, area.Of boot → area ≠ .data → ∀ sector ∈ area.sectors boot,
      sector < boot.firstDataSector := by
    intro area harea hother sector hmem
    cases area with
    | reserved => exact lt_of_lt_of_le hmem.2 (Nat.le_add_right _ _)
    | copy table => exact lt_of_lt_of_le hmem.2 (table_le_data harea)
    | data => exact absurd rfl hother
  rw [Set.disjoint_left]
  intro sector hinx hiny
  cases x with
  | reserved => exact absurd hinx.2 (Nat.not_lt.mpr (hreserved hy (Ne.symm hne) sector hiny))
  | data => exact absurd hinx.1 (Nat.not_le.mpr (hdata hy (Ne.symm hne) sector hiny))
  | copy table =>
      cases y with
      | reserved => exact absurd hiny.2 (Nat.not_lt.mpr (hreserved hx hne sector hinx))
      | data => exact absurd hiny.1 (Nat.not_le.mpr (hdata hx hne sector hinx))
      | copy table' =>
          rcases Nat.lt_or_gt_of_ne fun heq : table = table' => hne (by rw [heq]) with hlt | hgt
          · exact absurd hinx.2 (Nat.not_lt.mpr ((tableStart_add_le hlt).trans hiny.1))
          · exact absurd hiny.2 (Nat.not_lt.mpr ((tableStart_add_le hgt).trans hinx.1))

include hboot

/-- The entry of a cluster is inside each copy of the table. -/
lemma tableSector_mem {table cluster : ℕ} (hcluster : boot.hasCluster cluster = true) :
    tableSector boot table cluster ∈ (Area.copy table).sectors boot := by
  have hin := hasCluster_iff.mp hcluster
  have hentries := hboot.entries
  rw [tableSector, entriesPerSector_eq hboot]
  refine ⟨Nat.le_add_right _ _, ?_⟩
  rw [tableStart]
  omega

/-- A sector of a cluster is inside the data region. -/
lemma dataSector_mem {cluster offset : ℕ} (hcluster : boot.hasCluster cluster = true)
    (hoffset : offset < boot.sectorsPerCluster) :
    dataSector boot cluster offset ∈ Area.data.sectors boot := by
  have hin := hasCluster_iff.mp hcluster
  have hfits := hboot.fits
  have hmul : (cluster - 2 + 1) * boot.sectorsPerCluster
      ≤ boot.clusters * boot.sectorsPerCluster :=
    Nat.mul_le_mul_right _ (by omega)
  rw [Nat.succ_mul] at hmul
  rw [dataSector, firstDataCluster]
  exact ⟨by omega, by omega⟩

lemma clusters_lt : firstDataCluster + boot.clusters < 2 ^ 32 := by
  have hentries := hboot.entries
  have hfits := hboot.fits
  have htotal := hboot.total
  have hreserved := hboot.reservedSectors
  have hmul : boot.clusters * 1 ≤ boot.clusters * boot.sectorsPerCluster :=
    Nat.mul_le_mul_left _ hboot.sectorsPerCluster
  have htable : 1 * boot.sectorsPerFat ≤ boot.fatCount * boot.sectorsPerFat :=
    Nat.mul_le_mul_right _ hboot.fatCount
  rw [BootSector.firstDataSector] at hfits
  rw [firstDataCluster]
  omega

end Where

/-- **A boot sector that is accepted makes all later arithmetic safe.** The sums and products that
say where something is stay below `2^32`; the sectors of a cluster are in the data region, and
those of two clusters are not the same; the sector of a cluster's entry is inside each copy of the
table; and the reserved sectors, the copies of the table and the data region are apart. -/
theorem parse_arithmetic {sector : Sector} {boot : BootSector}
    (hparse : BootSector.parse sector = .ok boot) :
    boot.firstDataSector < 2 ^ 32 ∧ firstDataCluster + boot.clusters < 2 ^ 32
      ∧ (∀ cluster, boot.hasCluster cluster = true →
        ∃ first, boot.sectorOfCluster cluster = some first
          ∧ (cluster - firstDataCluster) * boot.sectorsPerCluster < 2 ^ 32
          ∧ ∀ offset < boot.sectorsPerCluster, first + offset < 2 ^ 32
            ∧ first + offset ∈ Set.Ico boot.firstDataSector boot.totalSectors
            ∧ ∀ cluster' first', boot.sectorOfCluster cluster' = some first' →
              cluster' ≠ cluster →
                ∀ offset' < boot.sectorsPerCluster, first' + offset' ≠ first + offset)
      ∧ (∀ cluster, boot.hasCluster cluster = true → ∀ table < boot.fatCount,
          table * boot.sectorsPerFat < 2 ^ 32 ∧ tableSector boot table cluster < 2 ^ 32
            ∧ tableSector boot table cluster ∈ (Area.copy table).sectors boot)
      ∧ (∀ cluster, boot.hasCluster cluster = true →
          nextCluster boot cluster = (do
            let bytes ← readSector (tableSector boot 0 cluster)
            pure (Entry.decode (wordAt bytes (cluster % entriesPerSector boot * 4))))
          ∧ ∀ entry, setNextCluster boot cluster entry
            = forEach (List.range boot.fatCount) fun table => do
                let bytes ← readSector (tableSector boot table cluster)
                writeSector (tableSector boot table cluster)
                  (putWord bytes (cluster % entriesPerSector boot * 4)
                    (mergeEntry (wordAt bytes (cluster % entriesPerSector boot * 4)) entry)))
      ∧ ∀ x y : Area, x.Of boot → y.Of boot → x ≠ y →
          Disjoint (x.sectors boot) (y.sectors boot) := by
  have hboot := BootSector.parse_wellFormed hparse
  have htotal := hboot.total
  have hfits := hboot.fits
  have hhas : ∀ {cluster first}, boot.sectorOfCluster cluster = some first →
      boot.hasCluster cluster = true ∧ first = dataSector boot cluster 0 := by
    intro cluster first hfirst
    rw [BootSector.sectorOfCluster] at hfirst
    split at hfirst
    · rename_i hcluster
      exact ⟨hcluster, (Option.some.inj hfirst).symm⟩
    · cases hfirst
  refine ⟨by omega, clusters_lt hboot,
    fun cluster hcluster => ⟨_, sectorOfCluster_eq hcluster, ?_⟩,
    fun cluster hcluster table htable => ?_, fun cluster hcluster => ⟨?_, fun entry => ?_⟩,
    fun x y hx hy hne => areas_disjoint hx hy hne⟩
  · obtain ⟨hlow, hhigh⟩ := dataSector_mem hboot hcluster hboot.sectorsPerCluster
    have hpart : (cluster - firstDataCluster) * boot.sectorsPerCluster
        ≤ dataSector boot cluster 0 := by
      rw [dataSector]
      omega
    refine ⟨by omega, fun offset hoffset => ?_⟩
    obtain ⟨hlow', hhigh'⟩ := dataSector_mem hboot hcluster hoffset
    refine ⟨lt_trans hhigh' htotal, ⟨hlow', hhigh'⟩,
      fun cluster' first' hfirst' hne offset' hoffset' => ?_⟩
    obtain ⟨hcluster', rfl⟩ := hhas hfirst'
    exact fun heq => hne (dataSector_inj hboot hcluster' hcluster hoffset' hoffset heq).1
  · have hmem := @tableSector_mem _ hboot table _ hcluster
    have hdata := table_le_data htable
    have hstart : table * boot.sectorsPerFat ≤ tableStart boot table := Nat.le_add_left _ _
    have hbelow : tableStart boot table + boot.sectorsPerFat < 2 ^ 32 := by omega
    exact ⟨by omega, lt_trans hmem.2 hbelow, hmem⟩
  · rw [nextCluster, if_pos hcluster, tableSector, Nat.zero_mul, Nat.add_zero]
  · rw [setNextCluster, if_pos hcluster]
    rfl

/-- The smallest volume there is. -/
theorem parse_arithmetic_emptyDisk :
    BootSector.parse (emptyDisk 0) = .ok emptyBoot ∧ emptyBoot.firstDataSector < 2 ^ 32 :=
  ⟨parse_emptyDisk, (parse_arithmetic parse_emptyDisk).1⟩

/-! ### What a write to the table changes -/

/-- The disk with another entry for a cluster, in every copy of the table. -/
def withEntry (boot : BootSector) (disk : Disk) (cluster entry : ℕ) : Disk := fun sector =>
  if ∃ table < boot.fatCount, sector = tableSector boot table cluster then
    putWord (disk sector) (cluster % entriesPerSector boot * 4)
      (mergeEntry (wordAt (disk sector) (cluster % entriesPerSector boot * 4)) entry)
  else disk sector

section Write

variable {boot : BootSector} {disk : Disk} {cluster : ℕ}

lemma withEntry_table {table : ℕ} (htable : table < boot.fatCount) (entry : ℕ) :
    withEntry boot disk cluster entry (tableSector boot table cluster)
      = putWord (disk (tableSector boot table cluster)) (cluster % entriesPerSector boot * 4)
          (mergeEntry (wordOf boot disk table cluster) entry) :=
  if_pos ⟨table, htable, rfl⟩

lemma withEntry_other {sector : ℕ}
    (h : ∀ table < boot.fatCount, sector ≠ tableSector boot table cluster)
    (entry : ℕ) : withEntry boot disk cluster entry sector = disk sector :=
  if_neg fun ⟨table, htable, heq⟩ => h table htable heq

/-- What `set_next_cluster` leaves where it answers. -/
lemma setNextCluster_withEntry (hboot : boot.WellFormed) {entry : ℕ}
    (hcluster : boot.hasCluster cluster = true) :
    Triple (fun dev => dev.disk = disk) (setNextCluster boot cluster entry)
      (fun _ dev => dev.disk = withEntry boot disk cluster entry)
        (fun err _ => err = .device) := by
  rw [setNextCluster, if_pos hcluster]
  -- once some copies are written, those have the entry and no other sector has changed
  let I : List ℕ → Disk → Prop := fun done disk' => ∀ sector, disk' sector
    = if ∃ table ∈ done, sector = tableSector boot table cluster then
        putWord (disk sector) (cluster % entriesPerSector boot * 4)
          (mergeEntry (wordAt (disk sector) (cluster % entriesPerSector boot * 4)) entry)
      else disk sector
  refine (Triple.forEach (I := fun done dev => I done dev.disk) fun done table rest
    hitems => ?_).conseq
    (fun dev hdev => ?_) (fun _ dev hdev => ?_) fun _ _ herr => herr
  · have hnew : table ∉ done := by
      have hnodup := List.nodup_range (n := boot.fatCount)
      rw [hitems] at hnodup
      exact fun hmem => (List.nodup_append.mp hnodup).2.2 table hmem table List.mem_cons_self rfl
    rintro ⟨disk', _ | left⟩ hdisk'
    · rfl
    · change I done disk' at hdisk'
      intro sector
      change Function.update disk' (tableSector boot table cluster)
        (putWord (disk' (tableSector boot table cluster)) (cluster % entriesPerSector boot * 4)
          (mergeEntry (wordAt (disk' (tableSector boot table cluster))
            (cluster % entriesPerSector boot * 4)) entry)) sector = _
      have hfresh : disk' (tableSector boot table cluster)
          = disk (tableSector boot table cluster) := by
        rw [hdisk' (tableSector boot table cluster), if_neg]
        rintro ⟨table', hmem, heq⟩
        exact hnew ((table_eq_of_sector hboot hcluster hcluster heq).1 ▸ hmem)
      by_cases hhere : sector = tableSector boot table cluster
      · rw [hhere, Function.update_self, hfresh, if_pos ⟨table, by simp, rfl⟩]
      · rw [Function.update_of_ne hhere, hdisk' sector]
        refine if_congr ?_ rfl rfl
        constructor
        · rintro ⟨table', hmem, heq⟩
          exact ⟨table', List.mem_append_left _ hmem, heq⟩
        · rintro ⟨table', hmem, heq⟩
          rcases List.mem_append.mp hmem with hmem | hmem
          · exact ⟨table', hmem, heq⟩
          · obtain rfl := List.mem_singleton.mp hmem
            exact absurd heq hhere
  · intro sector
    rw [hdev, if_neg]
    rintro ⟨table, hmem, -⟩
    cases hmem
  · funext sector
    rw [hdev sector, withEntry]
    exact if_congr (by simp only [List.mem_range]) rfl rfl

/-- The sector of a copy of the table that has a cluster's entry is the same one of each. -/
lemma tableStart_eq_tableSector (hboot : boot.WellFormed)
    (hcluster : boot.hasCluster cluster = true) {table table' k : ℕ}
    (htable : table < boot.fatCount) (htable' : table' < boot.fatCount)
    (hk : k < boot.sectorsPerFat) :
    tableStart boot table + k = tableSector boot table' cluster
      ↔ table = table' ∧ k = cluster / 128 := by
  have hsector : ∀ table,
      tableSector boot table cluster = tableStart boot table + cluster / 128 := by
    intro table
    rw [tableSector, entriesPerSector_eq hboot]
    rfl
  constructor
  · intro heq
    have hsame : table = table' := by
      by_contra hne
      have hapart := @areas_disjoint boot (.copy table) (.copy table') htable htable'
        (by simpa using hne)
      have hhere : tableStart boot table + k ∈ (Area.copy table).sectors boot :=
        ⟨by omega, by omega⟩
      refine Set.disjoint_left.mp hapart hhere ?_
      rw [heq]
      exact tableSector_mem hboot hcluster
    rw [hsector, hsame] at heq
    exact ⟨hsame, by omega⟩
  · rintro ⟨rfl, rfl⟩
    exact (hsector table).symm

/-- The sectors of the tables, after an entry was written. -/
lemma withEntry_tableStart (hboot : boot.WellFormed) (hcluster : boot.hasCluster cluster = true)
    {table k : ℕ} (htable : table < boot.fatCount) (hk : k < boot.sectorsPerFat) (entry : ℕ) :
    withEntry boot disk cluster entry (tableStart boot table + k)
      = if k = cluster / 128 then
          putWord (disk (tableStart boot table + k)) (cluster % entriesPerSector boot * 4)
            (mergeEntry (wordAt (disk (tableStart boot table + k))
              (cluster % entriesPerSector boot * 4)) entry)
        else disk (tableStart boot table + k) := by
  refine if_congr ?_ rfl rfl
  constructor
  · rintro ⟨table', htable', heq⟩
    exact ((tableStart_eq_tableSector hboot hcluster htable htable' hk).mp heq).2
  · intro hsame
    exact ⟨table, htable,
      (tableStart_eq_tableSector hboot hcluster htable htable hk).mpr ⟨rfl, hsame⟩⟩

lemma nextCluster_eq (boot : BootSector) (cluster : ℕ) (dev : Device) :
    (nextCluster boot cluster dev).1
      = if boot.hasCluster cluster then .ok (entryOf boot dev.disk cluster)
        else .error (.badCluster cluster) := by
  split
  · rename_i hcluster
    rw [nextCluster_returns hcluster]
  · rename_i hcluster
    rw [nextCluster, if_neg hcluster]
    rfl

/-- The word of a cluster after its entry was written. -/
lemma wordOf_withEntry (hboot : boot.WellFormed) {table : ℕ} (htable : table < boot.fatCount)
    (entry : ℕ) :
    wordOf boot (withEntry boot disk cluster entry) table cluster
      = mergeEntry (wordOf boot disk table cluster) entry := by
  have hper := entriesPerSector_eq hboot
  rw [wordOf, withEntry_table htable,
    wordAt_putWord_self (by rw [hper]; omega) (mergeEntry_lt _ _)]

/-- The entry of another cluster. -/
lemma wordOf_withEntry_of_ne (hboot : boot.WellFormed) (hcluster : boot.hasCluster cluster = true)
    {table other : ℕ} (hother : boot.hasCluster other = true) (hne : other ≠ cluster)
    (entry : ℕ) :
    wordOf boot (withEntry boot disk cluster entry) table other
      = wordOf boot disk table other := by
  have hper := entriesPerSector_eq hboot
  rw [wordOf, withEntry]
  split
  · rename_i hsector
    obtain ⟨table', -, heq⟩ := hsector
    obtain ⟨rfl, hrow⟩ := table_eq_of_sector hboot hother hcluster heq
    rw [wordAt_putWord_of_ne (by rw [hper]; omega) (by rw [hper]; omega), wordOf]
  · rfl

end Write

/-- **`set_next_cluster` edits one entry in every table.** On any disk, once it has answered: the
entry of the cluster is what was written; in each copy of the table its top four bits are as they
were, its low 28 those written, and every other byte of its sector is unchanged; so is every other
sector, hence the entry of every other cluster; and copies that were equal still are. A cluster
the volume has not got is refused and nothing is written. -/
theorem setNextCluster_edits {sector : Sector} {boot : BootSector}
    (hparse : BootSector.parse sector = .ok boot) (dev : Device) (cluster value : ℕ) :
    (boot.hasCluster cluster = false →
        setNextCluster boot cluster value dev = (.error (.reading (.badCluster cluster)), dev))
      ∧ ∀ dev', setNextCluster boot cluster value dev = (.ok (), dev') →
          (nextCluster boot cluster dev').1 = .ok (Entry.decode value)
          ∧ (∀ table < boot.fatCount,
              wordOf boot dev'.disk table cluster &&& 0xF0000000
                  = wordOf boot dev.disk table cluster &&& 0xF0000000
                ∧ wordOf boot dev'.disk table cluster &&& entryMask = value &&& entryMask
                ∧ ∀ i : Fin 512, ¬(cluster % 128 * 4 ≤ i.val ∧ i.val < cluster % 128 * 4 + 4) →
                    dev'.disk (tableSector boot table cluster) i
                      = dev.disk (tableSector boot table cluster) i)
          ∧ (∀ other, (∀ table < boot.fatCount, other ≠ tableSector boot table cluster) →
              dev'.disk other = dev.disk other)
          ∧ (∀ other, other ≠ cluster →
            (nextCluster boot other dev').1 = (nextCluster boot other dev).1)
          ∧ ∀ table < boot.fatCount, ∀ table' < boot.fatCount,
              (∀ k < boot.sectorsPerFat,
                dev.disk (tableStart boot table + k) = dev.disk (tableStart boot table' + k)) →
              ∀ k < boot.sectorsPerFat,
                dev'.disk (tableStart boot table + k)
                  = dev'.disk (tableStart boot table' + k) := by
  have hboot := BootSector.parse_wellFormed hparse
  have hper := entriesPerSector_eq hboot
  cases hcluster : boot.hasCluster cluster with
  | false =>
      have hrefused : setNextCluster boot cluster value dev
          = (.error (.reading (.badCluster cluster)), dev) := by
        rw [setNextCluster, if_neg (by rw [hcluster]; decide)]
        rfl
      refine ⟨fun _ => hrefused, fun dev' hok => ?_⟩
      rw [hrefused] at hok
      cases hok
  | true =>
      refine ⟨fun hrefused => absurd hrefused (by decide), fun dev' hok => ?_⟩
      -- the disk after is the disk before with the entry put into every copy
      have hdisk := (@setNextCluster_withEntry _ dev.disk _ hboot value hcluster).ok rfl hok
      refine ⟨?_, fun table htable => ⟨?_, ?_, fun i hi => ?_⟩, fun other hother => ?_,
        fun other hne => ?_, fun table htable table' htable' hsame k hk => ?_⟩
      · rw [nextCluster_eq, if_pos hcluster, hdisk, entryOf,
          wordOf_withEntry hboot hboot.fatCount, decode_mergeEntry]
      · rw [hdisk, wordOf_withEntry hboot htable, mergeEntry_high]
      · rw [hdisk, wordOf_withEntry hboot htable, mergeEntry_low]
      · rw [hdisk, withEntry_table htable, hper, putWord, if_neg hi]
      · rw [hdisk, withEntry_other hother]
      · rw [nextCluster_eq, nextCluster_eq]
        split
        · rename_i hother
          rw [entryOf, hdisk, wordOf_withEntry_of_ne hboot hcluster hother hne, entryOf]
        · rfl
      · rw [hdisk, withEntry_tableStart hboot hcluster htable hk,
          withEntry_tableStart hboot hcluster htable' hk, hsame k hk]

/-- The end of a chain written for cluster 3 of an empty volume. -/
theorem setNextCluster_edits_emptyDisk :
    let dev' := (setNextCluster emptyBoot 3 endOfChain ⟨emptyDisk, 1⟩).2
    BootSector.parse (emptyDisk 0) = .ok emptyBoot
      ∧ setNextCluster emptyBoot 3 endOfChain ⟨emptyDisk, 1⟩ = (.ok (), dev')
      ∧ (nextCluster emptyBoot 3 dev').1 = .ok .end' := by
  intro dev'
  have hok : setNextCluster emptyBoot 3 endOfChain ⟨emptyDisk, 1⟩ = (.ok (), dev') := rfl
  refine ⟨parse_emptyDisk, hok, ?_⟩
  exact ((setNextCluster_edits parse_emptyDisk ⟨emptyDisk, 1⟩ 3 endOfChain).2 dev' hok).1

/-! ### Which clusters can be linked to -/

lemma decode_eq_next {next : ℕ} (hlow : 2 ≤ next) :
    Entry.decode next = .next next ↔ next < 0x0FFFFFF7 := by
  refine ⟨fun h => ?_, decode_cluster hlow⟩
  have hmask : next &&& entryMask = next % 2 ^ 28 := Nat.and_two_pow_sub_one_eq_mod _ _
  rw [Entry.decode, hmask] at h
  split_ifs at h with hfree hreserved hbad hend
  have heq := Entry.next.inj h
  omega

/-- **A cluster of an accepted volume can be linked to exactly if its number is below those the
table keeps for itself.** -/
theorem linked_iff {sector : Sector} {boot : BootSector}
    (hparse : BootSector.parse sector = .ok boot) {cluster next : ℕ}
    (hcluster : boot.hasCluster cluster = true) (hnext : boot.hasCluster next = true)
    {dev dev' : Device} (h : setNextCluster boot cluster next dev = (.ok (), dev')) :
    (nextCluster boot cluster dev').1 = .ok (.next next) ↔ next < 0x0FFFFFF7 := by
  have hboot := BootSector.parse_wellFormed hparse
  have hdisk := (@setNextCluster_withEntry _ dev.disk _ hboot next hcluster).ok rfl h
  rw [nextCluster_eq, if_pos hcluster, hdisk, entryOf, wordOf_withEntry hboot hboot.fatCount,
    decode_mergeEntry, Except.ok.injEq, decode_eq_next (hasCluster_iff.mp hnext).1]

/-- Cluster 3 linked to cluster 4, on an empty volume. -/
theorem linked_iff_emptyDisk :
    let dev' := (setNextCluster emptyBoot 3 4 ⟨emptyDisk, 1⟩).2
    BootSector.parse (emptyDisk 0) = .ok emptyBoot
      ∧ setNextCluster emptyBoot 3 4 ⟨emptyDisk, 1⟩ = (.ok (), dev')
      ∧ (nextCluster emptyBoot 3 dev').1 = .ok (.next 4) := by
  intro dev'
  have hok : setNextCluster emptyBoot 3 4 ⟨emptyDisk, 1⟩ = (.ok (), dev') := rfl
  exact ⟨parse_emptyDisk, hok,
    (linked_iff parse_emptyDisk (by decide) (by decide) hok).mpr (by decide)⟩

/-- The boot sector of a volume of `2^28` clusters of one sector. -/
def hugeSector : Sector := fun i =>
  match i.val with
  | 12 => 2
  | 13 | 14 | 16 => 1
  | 32 => 2
  | 34 => 0x20
  | 35 => 0x10
  | 36 => 1
  | 38 => 0x20
  | 44 => 2
  | 510 => 0x55
  | 511 => 0xAA
  | _ => 0

/-- It is accepted, and cluster `0x0FFFFFF7` of it, once linked to, reads as a bad one. -/
theorem hugeSector_not_linked :
    let boot : BootSector := ⟨512, 1, 1, 1, 0x10200002, 0x200001, 2, 0, 2 ^ 28, none⟩
    let dev' := (setNextCluster boot 2 0x0FFFFFF7 ⟨fun _ _ => 0, 1⟩).2
    BootSector.parse hugeSector = .ok boot ∧ boot.hasCluster 2 = true
      ∧ boot.hasCluster 0x0FFFFFF7 = true
      ∧ setNextCluster boot 2 0x0FFFFFF7 ⟨fun _ _ => 0, 1⟩ = (.ok (), dev')
      ∧ (nextCluster boot 2 dev').1 = .ok .bad := by
  refine ⟨by decide +kernel, by decide, by decide, rfl, by decide +kernel⟩

end Harlan.Fat
