import Mathlib.Tactic
import Harlan.Fat.Volume

/-!
What a disk shows of a volume: the entries of the first table and the sectors of the clusters.

* `tableSector`, `dataSector`: where they are, and that no two of them meet.
* `wordOf`, `entryOf`, `clusterData`: what they hold.
* `SameBut`: that two disks hold the same, outside some clusters.
* `sameBut_data`, `sameBut_reserved`, `wordOf_putEntry_of_ne`: what a write of one sector
  changes.
-/

namespace Harlan.Fat

/-! ### Words -/

lemma toNat_leByte (n k : ℕ) : (leByte n k).toNat = n / 2 ^ (8 * k) % 256 := by
  simp [leByte, UInt8.toNat_ofNat']

lemma le32_leByte {n : ℕ} (h : n < 2 ^ 32) :
    le32 (leByte n 0) (leByte n 1) (leByte n 2) (leByte n 3) = n := by
  simp only [le32, toNat_leByte]
  omega

lemma le16_leByte (n k : ℕ) :
    le16 (leByte n k) (leByte n (k + 1)) = n / 2 ^ (8 * k) % 2 ^ 16 := by
  have hpow : n / 2 ^ (8 * (k + 1)) = n / 2 ^ (8 * k) / 256 := by
    rw [Nat.div_div_eq_div_mul, show 8 * (k + 1) = 8 * k + 8 by ring, pow_add]
    norm_num
  simp only [le16, toNat_leByte, hpow]
  omega

lemma byteAt_of_lt (bytes : Sector) {i : ℕ} (h : i < 512) : byteAt bytes i = bytes ⟨i, h⟩ := by
  rw [byteAt, dif_pos h]

lemma byteAt_putWord {bytes : Sector} {offset value i : ℕ} (hi : i < 512) :
    byteAt (putWord bytes offset value) i
      = if offset ≤ i ∧ i < offset + 4 then leByte value (i - offset) else byteAt bytes i := by
  rw [byteAt_of_lt _ hi, byteAt_of_lt _ hi, putWord]

lemma wordAt_putWord_self {bytes : Sector} {offset value : ℕ} (h : offset + 3 < 512)
    (hvalue : value < 2 ^ 32) : wordAt (putWord bytes offset value) offset = value := by
  rw [wordAt, byteAt_putWord (by omega), byteAt_putWord (by omega), byteAt_putWord (by omega),
    byteAt_putWord h, if_pos (by omega), if_pos (by omega), if_pos (by omega), if_pos (by omega)]
  simp only [Nat.sub_self, Nat.add_sub_cancel_left]
  exact le32_leByte hvalue

lemma wordAt_putWord_of_ne {bytes : Sector} {offset offset' value : ℕ} (h : offset' + 3 < 512)
    (hne : offset' + 3 < offset ∨ offset + 3 < offset') :
    wordAt (putWord bytes offset value) offset' = wordAt bytes offset' := by
  rw [wordAt, wordAt, byteAt_putWord (by omega), byteAt_putWord (by omega),
    byteAt_putWord (by omega), byteAt_putWord h, if_neg (by omega), if_neg (by omega),
    if_neg (by omega), if_neg (by omega)]

lemma mergeEntry_lt (old entry : ℕ) : mergeEntry old entry < 2 ^ 32 := by
  refine Nat.or_lt_two_pow ?_ ?_
  · exact lt_of_le_of_lt Nat.and_le_right (by decide)
  · exact lt_of_le_of_lt Nat.and_le_right (by decide)

/-- The low 28 bits of an entry that is written are the new ones, -/
lemma mergeEntry_low (old entry : ℕ) :
    mergeEntry old entry &&& entryMask = entry &&& entryMask := by
  rw [mergeEntry, Nat.and_or_distrib_right, Nat.and_assoc, Nat.and_assoc, Nat.and_self,
    show (0xF0000000 : ℕ) &&& entryMask = 0 by decide, Nat.and_zero, Nat.zero_or]

/-- and the top four those that were there. -/
lemma mergeEntry_high (old entry : ℕ) :
    mergeEntry old entry &&& 0xF0000000 = old &&& 0xF0000000 := by
  rw [mergeEntry, Nat.and_or_distrib_right, Nat.and_assoc, Nat.and_assoc, Nat.and_self,
    show entryMask &&& (0xF0000000 : ℕ) = 0 by decide, Nat.and_zero, Nat.or_zero]

lemma mergeEntry_mergeEntry (old entry entry' : ℕ) :
    mergeEntry (mergeEntry old entry) entry' = mergeEntry old entry' := by
  rw [mergeEntry, mergeEntry_high, mergeEntry]

lemma decode_mergeEntry (old entry : ℕ) :
    Entry.decode (mergeEntry old entry) = Entry.decode entry := by
  rw [Entry.decode, Entry.decode, mergeEntry_low]

lemma decode_zero : Entry.decode 0 = .free := by decide

lemma decode_endOfChain : Entry.decode endOfChain = .end' := by decide

lemma decode_cluster {cluster : ℕ} (hlow : 2 ≤ cluster) (hhigh : cluster < 0x0FFFFFF7) :
    Entry.decode cluster = .next cluster := by
  have hmask : cluster &&& entryMask = cluster := by
    rw [entryMask, Nat.and_two_pow_sub_one_eq_mod]
    exact Nat.mod_eq_of_lt (by omega)
  rw [Entry.decode, hmask, if_neg (by omega), if_neg (by omega), if_neg (by omega),
    if_neg (by omega)]

/-! ### Slots -/

lemma slotAt_putSlot (bytes : Sector) (index index' : Fin 16) (slot : SlotBytes) :
    slotAt (putSlot bytes index slot) index' = if index' = index then slot
      else slotAt bytes index' := by
  funext i
  have hdiv : (32 * index'.val + i.val) / 32 = index'.val := by omega
  have hmod : (32 * index'.val + i.val) % 32 = i.val := by omega
  simp only [slotAt, putSlot, hdiv, hmod, Fin.val_inj]
  split <;> rfl

/-! ### Where things are -/

section Where

variable {boot : BootSector}

lemma hasCluster_iff {cluster : ℕ} :
    boot.hasCluster cluster = true ↔ 2 ≤ cluster ∧ cluster < 2 + boot.clusters := by
  simp only [BootSector.hasCluster, Bool.not_eq_true', Bool.or_eq_false_iff,
    decide_eq_false_iff_not, Nat.not_lt, Nat.not_le]
  rfl

/-- The sector of a copy of the table that has a cluster's entry. -/
def tableSector (boot : BootSector) (table cluster : ℕ) : ℕ :=
  boot.firstFatSector + table * boot.sectorsPerFat + cluster / entriesPerSector boot

/-- A sector of a cluster. -/
def dataSector (boot : BootSector) (cluster offset : ℕ) : ℕ :=
  boot.firstDataSector + (cluster - firstDataCluster) * boot.sectorsPerCluster + offset

lemma sectorOfCluster_eq {cluster : ℕ} (h : boot.hasCluster cluster = true) :
    boot.sectorOfCluster cluster = some (dataSector boot cluster 0) := by
  rw [BootSector.sectorOfCluster, if_pos h]
  rfl

lemma reserved_ne {sector : ℕ} (h : sector < boot.reservedSectors) (table cluster offset : ℕ) :
    sector ≠ tableSector boot table cluster ∧ sector ≠ dataSector boot cluster offset := by
  simp only [tableSector, dataSector, BootSector.firstFatSector, BootSector.firstDataSector]
  generalize cluster / entriesPerSector boot = row
  generalize table * boot.sectorsPerFat = start
  generalize boot.fatCount * boot.sectorsPerFat = tables
  generalize (cluster - firstDataCluster) * boot.sectorsPerCluster = before
  omega

section WellFormed

variable (hboot : boot.WellFormed)

include hboot

lemma entriesPerSector_eq : entriesPerSector boot = 128 := by
  rw [entriesPerSector, hboot.bytesPerSector]

lemma clusterBytes_eq : boot.clusterBytes = 512 * boot.sectorsPerCluster := by
  rw [BootSector.clusterBytes, hboot.bytesPerSector]

lemma clusterBytes_pos : 0 < boot.clusterBytes := by
  have := hboot.sectorsPerCluster
  rw [clusterBytes_eq hboot]
  omega

lemma tableSector_lt {table cluster : ℕ} (htable : table < boot.fatCount)
    (hcluster : boot.hasCluster cluster = true) :
    tableSector boot table cluster < boot.firstDataSector := by
  rw [hasCluster_iff] at hcluster
  have hentries := hboot.entries
  have hrow : (table + 1) * boot.sectorsPerFat ≤ boot.fatCount * boot.sectorsPerFat :=
    Nat.mul_le_mul_right _ htable
  rw [Nat.succ_mul] at hrow
  rw [tableSector, entriesPerSector_eq hboot, BootSector.firstFatSector,
    BootSector.firstDataSector]
  omega

lemma tableSector_ne_data {table cluster cluster' offset : ℕ} (htable : table < boot.fatCount)
    (hcluster : boot.hasCluster cluster = true) :
    tableSector boot table cluster ≠ dataSector boot cluster' offset := by
  have := tableSector_lt hboot htable hcluster
  rw [dataSector]
  omega

/-- Two copies of the table share no sector. -/
lemma table_eq_of_sector {table table' cluster cluster' : ℕ}
    (hcluster : boot.hasCluster cluster = true) (hcluster' : boot.hasCluster cluster' = true)
    (h : tableSector boot table cluster = tableSector boot table' cluster') :
    table = table' ∧ cluster / 128 = cluster' / 128 := by
  rw [hasCluster_iff] at hcluster hcluster'
  have hentries := hboot.entries
  have hin : cluster / 128 < boot.sectorsPerFat := by omega
  have hin' : cluster' / 128 < boot.sectorsPerFat := by omega
  simp only [tableSector, entriesPerSector_eq hboot] at h
  have hsame : table * boot.sectorsPerFat + cluster / 128
      = table' * boot.sectorsPerFat + cluster' / 128 := by omega
  have hpos : 0 < boot.sectorsPerFat := by omega
  have hdiv := congrArg (· / boot.sectorsPerFat) hsame
  simp only [Nat.mul_comm _ boot.sectorsPerFat, Nat.mul_add_div hpos, Nat.div_eq_of_lt hin,
    Nat.div_eq_of_lt hin', Nat.add_zero] at hdiv
  subst hdiv
  exact ⟨rfl, by omega⟩

lemma dataSector_inj {cluster cluster' offset offset' : ℕ}
    (hcluster : boot.hasCluster cluster = true) (hcluster' : boot.hasCluster cluster' = true)
    (hoffset : offset < boot.sectorsPerCluster) (hoffset' : offset' < boot.sectorsPerCluster)
    (h : dataSector boot cluster offset = dataSector boot cluster' offset') :
    cluster = cluster' ∧ offset = offset' := by
  rw [hasCluster_iff] at hcluster hcluster'
  simp only [dataSector, firstDataCluster] at h
  have hsame : (cluster - 2) * boot.sectorsPerCluster + offset
      = (cluster' - 2) * boot.sectorsPerCluster + offset' := by omega
  have hdiv := congrArg (· / boot.sectorsPerCluster) hsame
  have hmod := congrArg (· % boot.sectorsPerCluster) hsame
  simp only [Nat.mul_comm _ boot.sectorsPerCluster, Nat.mul_add_div hboot.sectorsPerCluster,
    Nat.mul_add_mod, Nat.div_eq_of_lt hoffset, Nat.div_eq_of_lt hoffset',
    Nat.mod_eq_of_lt hoffset, Nat.mod_eq_of_lt hoffset'] at hdiv hmod
  omega

end WellFormed

end Where

/-! ### What a disk shows -/

/-- The word of a cluster in a copy of the table. -/
def wordOf (boot : BootSector) (disk : Disk) (table cluster : ℕ) : ℕ :=
  wordAt (disk (tableSector boot table cluster)) (cluster % entriesPerSector boot * 4)

/-- What the table says of a cluster: the first copy is the one that is read. -/
def entryOf (boot : BootSector) (disk : Disk) (cluster : ℕ) : Entry :=
  Entry.decode (wordOf boot disk 0 cluster)

/-- The bytes of a cluster. -/
def clusterData (boot : BootSector) (disk : Disk) (cluster : ℕ) : List UInt8 :=
  (List.range boot.sectorsPerCluster).flatMap fun offset =>
    List.ofFn (disk (dataSector boot cluster offset))

/-- Outside the entries of some clusters and the sectors of some others, two disks show the
same. -/
structure SameBut (boot : BootSector) (linked filled : List ℕ) (disk disk' : Disk) : Prop where
  word : ∀ table cluster, table < boot.fatCount → boot.hasCluster cluster = true →
    cluster ∉ linked → wordOf boot disk' table cluster = wordOf boot disk table cluster
  data : ∀ cluster offset, boot.hasCluster cluster = true → offset < boot.sectorsPerCluster →
    cluster ∉ filled →
      disk' (dataSector boot cluster offset) = disk (dataSector boot cluster offset)

section Shows

variable {boot : BootSector} {disk disk' disk'' : Disk} {linked linked' filled filled' : List ℕ}

namespace SameBut

lemma refl : SameBut boot linked filled disk disk :=
  ⟨fun _ _ _ _ _ => rfl, fun _ _ _ _ _ => rfl⟩

lemma mono (h : SameBut boot linked filled disk disk') (hlinked : linked ⊆ linked')
    (hfilled : filled ⊆ filled') : SameBut boot linked' filled' disk disk' :=
  ⟨fun table cluster htable hcluster hout =>
      h.word table cluster htable hcluster fun hmem => hout (hlinked hmem),
    fun cluster offset hcluster hoffset hout =>
      h.data cluster offset hcluster hoffset fun hmem => hout (hfilled hmem)⟩

lemma trans (h : SameBut boot linked filled disk disk')
    (h' : SameBut boot linked filled disk' disk'') :
    SameBut boot linked filled disk disk'' :=
  ⟨fun table cluster htable hcluster hout =>
      (h'.word table cluster htable hcluster hout).trans
      (h.word table cluster htable hcluster hout),
    fun cluster offset hcluster hoffset hout =>
      (h'.data cluster offset hcluster hoffset hout).trans
        (h.data cluster offset hcluster hoffset hout)⟩

lemma entryOf (hboot : boot.WellFormed) (h : SameBut boot linked filled disk disk') {cluster : ℕ}
    (hcluster : boot.hasCluster cluster = true) (hout : cluster ∉ linked) :
    entryOf boot disk' cluster = entryOf boot disk cluster := by
  rw [Fat.entryOf, h.word 0 cluster hboot.fatCount hcluster hout, Fat.entryOf]

lemma clusterData (h : SameBut boot linked filled disk disk') {cluster : ℕ}
    (hcluster : boot.hasCluster cluster = true) (hout : cluster ∉ filled) :
    clusterData boot disk' cluster = clusterData boot disk cluster := by
  refine List.flatMap_congr fun offset hoffset => ?_
  rw [h.data cluster offset hcluster (List.mem_range.mp hoffset) hout]

end SameBut

/-! ### What a write changes -/

/-- A write to a sector of a cluster is outside every entry, and every other sector of one. -/
lemma sameBut_data (hboot : boot.WellFormed) {cluster offset : ℕ} (bytes : Sector)
    (hcluster : boot.hasCluster cluster = true) (hoffset : offset < boot.sectorsPerCluster) :
    SameBut boot [] [cluster] disk
      (Function.update disk (dataSector boot cluster offset) bytes) := by
  refine ⟨fun table cluster' htable hcluster' _ => ?_,
    fun cluster' offset' hcluster' hoffset' hout => ?_⟩
  · rw [wordOf, wordOf, Function.update_of_ne (tableSector_ne_data hboot htable hcluster')]
  · refine Function.update_of_ne (fun hsame => hout ?_) _ _
    obtain ⟨rfl, -⟩ := dataSector_inj hboot hcluster' hcluster hoffset' hoffset hsame
    exact List.mem_singleton_self _

/-- A write to the reserved sectors is outside all of it. -/
lemma sameBut_reserved {sector : ℕ} (bytes : Sector)
    (h : sector < boot.reservedSectors) :
    SameBut boot [] [] disk (Function.update disk sector bytes) := by
  refine ⟨fun table cluster _ _ _ => ?_, fun cluster offset _ _ _ => ?_⟩
  · rw [wordOf, wordOf, Function.update_of_ne (reserved_ne h table cluster 0).1.symm]
  · exact Function.update_of_ne (reserved_ne h 0 cluster offset).2.symm _ _

section PutEntry

variable (hboot : boot.WellFormed) {table cluster : ℕ} (value : ℕ)

include hboot

/-- Writing a cluster's entry in one copy of the table changes that entry. -/
lemma decode_wordOf_putEntry :
    Entry.decode (wordOf boot (Function.update disk (tableSector boot table cluster)
        (putWord (disk (tableSector boot table cluster)) (cluster % entriesPerSector boot * 4)
          (mergeEntry (wordOf boot disk table cluster) value))) table cluster)
      = Entry.decode value := by
  have hper := entriesPerSector_eq hboot
  rw [wordOf, Function.update_self, wordAt_putWord_self (by rw [hper]; omega) (mergeEntry_lt _ _),
    decode_mergeEntry]

/-- And no other. -/
lemma wordOf_putEntry_of_ne (bytes : Sector) {table' cluster' : ℕ}
    (hbytes : bytes = putWord (disk (tableSector boot table cluster))
      (cluster % entriesPerSector boot * 4) value)
    (hcluster : boot.hasCluster cluster = true) (hcluster' : boot.hasCluster cluster' = true)
    (hne : table' ≠ table ∨ cluster' ≠ cluster) :
    wordOf boot (Function.update disk (tableSector boot table cluster) bytes) table' cluster'
      = wordOf boot disk table' cluster' := by
  have hper := entriesPerSector_eq hboot
  rw [wordOf, wordOf]
  by_cases hsector : tableSector boot table' cluster' = tableSector boot table cluster
  · obtain ⟨rfl, hrow⟩ := table_eq_of_sector hboot hcluster' hcluster hsector
    have hcl : cluster' ≠ cluster := hne.resolve_left fun h => h rfl
    rw [hsector, Function.update_self, hbytes,
      wordAt_putWord_of_ne (by rw [hper]; omega) (by rw [hper]; omega)]
  · rw [Function.update_of_ne hsector]

/-- So it is outside the entries of other clusters, and every sector of one. -/
lemma sameBut_putEntry (bytes : Sector)
    (hbytes : bytes = putWord (disk (tableSector boot table cluster))
      (cluster % entriesPerSector boot * 4) value)
    (htable : table < boot.fatCount) (hcluster : boot.hasCluster cluster = true) :
    SameBut boot [cluster] [] disk
      (Function.update disk (tableSector boot table cluster) bytes) := by
  refine ⟨fun table' cluster' _ hcluster' hout => ?_, fun cluster' offset _ _ _ => ?_⟩
  · exact wordOf_putEntry_of_ne hboot value bytes hbytes hcluster hcluster'
      (.inr fun hsame => hout (List.mem_singleton.mpr hsame))
  · exact Function.update_of_ne (tableSector_ne_data hboot htable hcluster).symm _ _

end PutEntry

end Shows

end Harlan.Fat
