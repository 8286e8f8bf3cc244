import Mathlib.Tactic
import Harlan.Fat.ImageBytes
import Harlan.Fat.Names
import Harlan.Fat.Reading

/-!
The reader on an image the formatter made.

* `parse_boot`: the boot sector is believed, and says the geometry the formatter answered.
* `tables_same`, `wordOf_run`, `wordOf_free`: what the two tables hold.
* `isChain_run`: every run is a chain; `fsInfo_counts`: the FSInfo sector counts what is left.
-/

namespace Harlan.Fat32

open Fat (Disk Device BootSector)

/-! ### The image as a disk -/

/-- The image, sector by sector. -/
def diskOf (image : ByteMemory) : Disk := fun sector i => image (sector * 512 + i)

lemma u16At_diskOf (image : ByteMemory) (sector offset : ℕ) (h : offset + 1 < 512) :
    Fat.u16At (diskOf image sector) offset h = getWord image (sector * 512 + offset) 2 := by
  simp only [Fat.u16At, Fat.le16, diskOf, getWord, Nat.add_assoc]
  omega

lemma u32At_diskOf (image : ByteMemory) (sector offset : ℕ) (h : offset + 3 < 512) :
    Fat.u32At (diskOf image sector) offset h = getWord image (sector * 512 + offset) 4 := by
  simp only [Fat.u32At, Fat.le32, diskOf, getWord, Nat.add_assoc, Nat.reduceAdd]
  omega

lemma wordAt_diskOf (image : ByteMemory) (sector : ℕ) {offset : ℕ} (h : offset + 3 < 512) :
    Fat.wordAt (diskOf image sector) offset = getWord image (sector * 512 + offset) 4 := by
  rw [Fat.wordAt, Fat.byteAt_of_lt _ (by omega), Fat.byteAt_of_lt _ (by omega),
    Fat.byteAt_of_lt _ (by omega), Fat.byteAt_of_lt _ h]
  exact u32At_diskOf image sector offset h

/-- How wide the fields of a boot sector are. -/
def bootWidths : List ℕ :=
  [3, 8, 2, 1, 2, 1, 2, 2, 1, 2, 2, 2, 4, 4, 4, 2, 2, 4, 2, 2, 12, 1, 1, 1, 4, 11, 8, 420, 2]

lemma bootFields_widths (geometry : Geometry) (label : List UInt8) :
    (bootFields geometry label).map List.length = bootWidths := by
  simp [-List.reduceReplicate, bootFields, bootWidths, length_paddedLabel]

/-- What the boot sector of an image says. -/
def bootOf (geometry : Geometry) (label : List UInt8) : BootSector :=
  ⟨sectorBytes, geometry.sectorsPerCluster, geometry.reservedSectors, geometry.fatCount,
    geometry.totalSectors, geometry.sectorsPerFat, geometry.rootCluster, 1, geometry.clusters,
    some ⟨0x4841524C, paddedLabel label⟩⟩

section Made

variable {totalSectors sectorsPerCluster : ℕ} {label : List UInt8} {files : List File}
  {image : ByteMemory} {geometry : Geometry} {layout : Layout} {runs : List Run}
  (h : Made totalSectors sectorsPerCluster label files image geometry layout runs)

include h

namespace Made

/-! ### The boot sector -/

lemma bootByte {i : ℕ} (hi : i < 512) : image i = (bootSector geometry label).getD i 0 := by
  rw [h.reserved (by omega)]
  simp only [putAll, reservedPieces, backupBootSector, sectorBytes, List.foldl_cons,
    List.foldl_nil]
  rw [putBytes_of_outside (by omega), putBytes_of_outside (by omega),
    putBytes_of_outside (by omega)]
  have hbyte := @putBytes_add (fun _ => 0) 0 i (bootSector geometry label)
    (by rwa [length_bootSector])
  rwa [Nat.zero_add] at hbyte

lemma fsInfoByte {i : ℕ} (hi : i < 512) :
    image (512 + i) = (fsInfoSector geometry.clusters layout.nextFree).getD i 0 := by
  rw [h.reserved (by omega)]
  simp only [putAll, reservedPieces, backupBootSector, sectorBytes, List.foldl_cons,
    List.foldl_nil]
  rw [putBytes_of_outside (by omega), putBytes_add (by rwa [length_fsInfoSector])]

/-- A field of the boot sector. -/
lemma bootField {k i offset : ℕ} {field : List UInt8}
    (hk : (bootFields geometry label)[k]? = some field)
    (hoffset : (bootWidths.take k).sum = offset) (hi : i < field.length)
    (hend : offset + i < 512) :
    image (offset + i) = field.getD i 0 := by
  rw [h.bootByte hend]
  refine flatten_getD hk ?_ hi
  rw [List.map_take, bootFields_widths, hoffset]

/-- A number of the boot sector that fits its field. -/
lemma bootWord (k : ℕ) {width value offset : ℕ}
    (hk : (bootFields geometry label)[k]? = some (leBytes width value))
    (hoffset : (bootWidths.take k).sum = offset) (hend : offset + width ≤ 512)
    (hvalue : value < 256 ^ width) : getWord image (0 * 512 + offset) width = value := by
  have hword := @getWord_leBytes image offset width value fun i hi =>
    h.bootField hk hoffset (by rwa [length_leBytes]) (by omega)
  rw [Nat.zero_mul, Nat.zero_add, hword, Nat.mod_eq_of_lt hvalue]

lemma bootByteField (k : ℕ) {value offset : ℕ} (hoffset : (bootWidths.take k).sum = offset)
    (hk : (bootFields geometry label)[k]? = some (leBytes 1 value))
    (hend : offset < 512) (hvalue : value < 256) :
    (diskOf image 0 ⟨offset, hend⟩).toNat = value := by
  have hword := h.bootWord k hk hoffset hend (by omega)
  rwa [getWord, getWord, Nat.mul_zero, Nat.add_zero] at hword

lemma total : geometry.totalSectors = totalSectors := by
  rw [h.shape]
  rfl

lemma perCluster : geometry.sectorsPerCluster = sectorsPerCluster := by
  rw [h.shape]
  rfl

lemma volumeId :
    BootSector.parseVolumeId (diskOf image 0) = some ⟨0x4841524C, paddedLabel label⟩ := by
  have h66 : (diskOf image 0 66).toNat = 0x29 :=
    h.bootByteField 23 (by decide) rfl (by decide) (by decide)
  have h67 : Fat.u32At (diskOf image 0) 67 = 0x4841524C := by
    rw [u32At_diskOf]
    exact h.bootWord 24 rfl (by decide) (by decide) (by decide)
  have hlabel : (List.ofFn fun i : Fin 11 => diskOf image 0 ⟨71 + i, by omega⟩)
      = paddedLabel label := by
    refine List.ext_getElem (by rw [List.length_ofFn, length_paddedLabel]) fun i hi hi' => ?_
    rw [List.length_ofFn] at hi
    have hbyte := @bootField _ _ _ _ _ _ _ _ h 25 i 71 _ rfl (by decide) hi' (by omega)
    rw [List.getD_eq_getElem?_getD, List.getElem?_eq_getElem hi', Option.getD_some] at hbyte
    rw [List.getElem_ofFn, ← hbyte, diskOf, Nat.zero_mul, Nat.zero_add]
  rw [BootSector.parseVolumeId, if_pos h66, h67, hlabel]

/-- **The boot sector is believed**, and says the geometry the formatter answered. -/
theorem parse_boot (htotal : totalSectors < 2 ^ 26)
    (hpower : Fat.isPowerOfTwo sectorsPerCluster = true) :
    BootSector.parse (diskOf image 0) = .ok (bootOf geometry label) := by
  have hreserved : geometry.reservedSectors = 32 := by rw [h.shape]; rfl
  have hcount : geometry.fatCount = 2 := by rw [h.shape]; rfl
  have hroot : geometry.rootCluster = 2 := by rw [h.shape]; rfl
  have hsize : 32 + 2 * geometry.sectorsPerFat ≤ totalSectors := h.firstDataSector ▸ h.data
  have hspc : sectorsPerCluster < 256 := by
    simp only [Fat.isPowerOfTwo, List.contains_iff_mem, List.mem_cons, List.not_mem_nil, or_false]
      at hpower
    omega
  -- the fields of the boot sector, as parse reads them
  have h510 : Fat.u16At (diskOf image 0) 510 = 0xAA55 := by
    rw [u16At_diskOf]
    exact h.bootWord 28 rfl (by decide) (by decide) (by decide)
  have h11 : Fat.u16At (diskOf image 0) 11 = 512 := by
    rw [u16At_diskOf]
    exact h.bootWord 2 rfl (by decide) (by decide) (by decide)
  have h13 : (diskOf image 0 13).toNat = sectorsPerCluster := by
    rw [← h.perCluster]
    exact h.bootByteField 3 (by decide) rfl (by decide) (by rwa [h.perCluster])
  have h14 : Fat.u16At (diskOf image 0) 14 = 32 := by
    rw [u16At_diskOf]
    exact h.bootWord 4 (by rw [← hreserved]; rfl) (by decide) (by decide) (by decide)
  have h16 : (diskOf image 0 16).toNat = 2 :=
    h.bootByteField 5 (by decide) (by rw [← hcount]; rfl) (by decide) (by decide)
  have h22 : Fat.u16At (diskOf image 0) 22 = 0 := by
    rw [u16At_diskOf]
    exact h.bootWord 9 rfl (by decide) (by decide) (by decide)
  have h36 : Fat.u32At (diskOf image 0) 36 = geometry.sectorsPerFat := by
    rw [u32At_diskOf]
    exact h.bootWord 14 rfl (by decide) (by decide) (by omega)
  have h44 : Fat.u32At (diskOf image 0) 44 = 2 := by
    rw [u32At_diskOf]
    exact h.bootWord 17 (by rw [← hroot]; rfl) (by decide) (by decide) (by decide)
  have h32 : Fat.u32At (diskOf image 0) 32 = totalSectors := by
    rw [u32At_diskOf, ← h.total]
    exact h.bootWord 13 rfl (by decide) (by decide) (by rw [h.total]; omega)
  have h48 : Fat.u16At (diskOf image 0) 48 = 1 := by
    rw [u16At_diskOf]
    exact h.bootWord 18 rfl (by decide) (by decide) (by decide)
  have hid := h.volumeId
  -- parse counts the clusters that the formatter made room for
  have hclusters : (totalSectors - (32 + 2 * geometry.sectorsPerFat)) / sectorsPerCluster
      = geometry.clusters := by
    conv_rhs => rw [h.shape]
    rw [geometryOf, Nat.sub_add_eq]
    rfl
  have hdata : ¬totalSectors ≤ 32 + 2 * geometry.sectorsPerFat := by
    intro hnone
    have hfew := h.clusters
    rw [← hclusters, Nat.sub_eq_zero_of_le hnone, Nat.zero_div] at hfew
    omega
  have hentries := h.entries
  have hmany := h.clusters
  have hpositive := h.sectors
  have htable := h.table
  -- so none of the refusals applies
  simp only [BootSector.parse, h510, h11, h13, h14, h16, h22, h36, h44, h32, h48, hid,
    hclusters, hpower, Fat.sectorBytes, Fat.firstDataCluster, Fat.fat32MinimumClusters]
  rw [if_neg (by simp), if_neg (by simp), if_neg (by simp; omega), if_neg (by decide),
    if_neg (by decide), if_neg (by simp), if_neg (by omega), if_neg (by decide), if_neg hdata,
    if_neg (by omega), if_neg (by omega)]
  rw [bootOf, h.perCluster, hreserved, hcount, h.total, hroot]
  rfl

/-! ### The tables -/

/-- A byte of a table is that of its entry, -/
lemma tableByte {table k i : ℕ} {bytes : List UInt8} (htable : table < 2)
    (hk : k < geometry.sectorsPerFat * 128) (hi : i < 4)
    (hmem : (k, bytes) ∈ tableItems layout.chains) :
    image (tableStart geometry table + k * 4 + i) = bytes.getD i 0 := by
  rw [h.tables htable (by omega) (by rw [tableStart_succ]; omega), tablePieces_eq,
    putAll_strided h.keyed_tableItems length_tableItem hmem hi]

/-- and zero where it has none. -/
lemma tableByte_zero {table k i : ℕ} (htable : table < 2) (hk : k < geometry.sectorsPerFat * 128)
    (hi : i < 4) (hmem : k ∉ (tableItems layout.chains).map Prod.fst) :
    image (tableStart geometry table + k * 4 + i) = 0 := by
  rw [h.tables htable (by omega) (by rw [tableStart_succ]; omega), tablePieces_eq,
    putAll_strided_of_notMem length_tableItem hmem hi]

/-- The two tables are the same, byte for byte. -/
lemma tables_same {a : ℕ} (ha : a < geometry.sectorsPerFat * 512) :
    image (tableStart geometry 0 + a) = image (tableStart geometry 1 + a) := by
  have hsplit : ∀ start, start + a = start + a / 4 * 4 + a % 4 := by
    intro start
    omega
  have hk : a / 4 < geometry.sectorsPerFat * 128 := by omega
  have hi : a % 4 < 4 := Nat.mod_lt _ (by decide)
  rw [hsplit (tableStart geometry 0), hsplit (tableStart geometry 1)]
  by_cases hmem : a / 4 ∈ (tableItems layout.chains).map Prod.fst
  · obtain ⟨bytes, hbytes⟩ := SortedMap.exists_of_mem_keys hmem
    rw [h.tableByte (by decide) hk hi hbytes, h.tableByte (by decide) hk hi hbytes]
  · rw [h.tableByte_zero (by decide) hk hi hmem, h.tableByte_zero (by decide) hk hi hmem]

/-- Where the entry of a cluster is in a table. -/
lemma wordOf_eq (table : ℕ) (cluster : ℕ) :
    Fat.wordOf (bootOf geometry label) (diskOf image) table cluster
      = getWord image (tableStart geometry table + cluster * 4) 4 := by
  have hreserved : (bootOf geometry label).firstFatSector = 32 := by
    change geometry.reservedSectors = 32
    rw [h.shape]
    rfl
  have hper : Fat.entriesPerSector (bootOf geometry label) = 128 := by
    simp [Fat.entriesPerSector, bootOf, sectorBytes]
  have hplace : (32 + table * geometry.sectorsPerFat + cluster / 128) * 512 + cluster % 128 * 4
      = tableStart geometry table + cluster * 4 := by
    rw [tableStart, Nat.add_mul _ (cluster / 128)]
    omega
  rw [Fat.wordOf, Fat.tableSector, hper, hreserved, wordAt_diskOf _ _ (by omega), ← hplace]
  rfl

/-- The entry of a cluster in use. -/
lemma wordOf_run {table : ℕ} (htable : table < 2) {run : Run} (hrun : run ∈ runs) {cluster : ℕ}
    (hin : run.Has cluster) (hnumbers : geometry.clusters + 2 < 2 ^ 28) :
    Fat.wordOf (bootOf geometry label) (diskOf image) table cluster = run.next cluster := by
  obtain ⟨hlow, hhigh⟩ := h.run_le hrun
  obtain ⟨hfirst, hlast⟩ := hin
  have hentries := h.entries
  have hmem : (cluster, leBytes 4 (run.next cluster)) ∈ tableItems layout.chains :=
    (mem_tableItems (hlow.trans hfirst)).mpr
      ⟨_, (h.laid.chains cluster _).mpr ⟨run, hrun, ⟨hfirst, hlast⟩, rfl⟩, rfl⟩
  rw [h.wordOf_eq, getWord_leBytes fun i hi => h.tableByte htable (by omega) hi hmem]
  refine Nat.mod_eq_of_lt ?_
  rw [Run.next, endOfChain]
  split <;> omega

/-- The entry of a free cluster. -/
lemma wordOf_free {table : ℕ} (htable : table < 2) {cluster : ℕ}
    (hlow : layout.nextFree ≤ cluster) (hhigh : cluster < 2 + geometry.clusters) :
    Fat.wordOf (bootOf geometry label) (diskOf image) table cluster = 0 := by
  have hentries := h.entries
  have hroot := h.laid.pos _ (h.laid.directory _ _ h.laid.root)
  rw [firstDataCluster] at hroot
  have hnone : cluster ∉ (tableItems layout.chains).map Prod.fst := by
    intro hmem
    obtain ⟨bytes, hbytes⟩ := SortedMap.exists_of_mem_keys hmem
    obtain ⟨next, hnext, -⟩ := (mem_tableItems (by omega)).mp hbytes
    obtain ⟨run, hrun, ⟨-, hlast⟩, -⟩ := (h.laid.chains cluster next).mp hnext
    have hend := (h.laid.pos run hrun).2.2
    omega
  have hword : getWord image (tableStart geometry table + cluster * 4) 4 = 0 % 256 ^ 4 := by
    refine getWord_eq fun i hi => ?_
    rw [h.tableByte_zero htable (by omega) hi hnone, Nat.zero_div]
    rfl
  rw [h.wordOf_eq, hword, Nat.zero_mod]

/-! ### The chains -/

lemma entryOf_run {run : Run} (hrun : run ∈ runs) {cluster : ℕ} (hin : run.Has cluster)
    (hnumbers : geometry.clusters + 2 < 2 ^ 27) :
    Fat.entryOf (bootOf geometry label) (diskOf image) cluster
      = if cluster + 1 = run.1 + run.2 then .end' else .next (cluster + 1) := by
  rw [Fat.entryOf, h.wordOf_run (by decide) hrun hin (by omega), Run.next]
  obtain ⟨hlow, hhigh⟩ := h.run_le hrun
  obtain ⟨hfirst, hlast⟩ := hin
  split
  · exact Fat.decode_endOfChain
  · exact Fat.decode_cluster (by omega) (by omega)

lemma entryOf_free {cluster : ℕ} (hlow : layout.nextFree ≤ cluster)
    (hhigh : cluster < 2 + geometry.clusters) :
    Fat.entryOf (bootOf geometry label) (diskOf image) cluster = .free := by
  rw [Fat.entryOf, h.wordOf_free (by decide) hlow hhigh]
  exact Fat.decode_zero

/-- The clusters of a run are a chain, from its first to its last. -/
lemma isChain_run {run : Run} (hrun : run ∈ runs) (hnumbers : geometry.clusters + 2 < 2 ^ 27) :
    Fat.IsChain (bootOf geometry label) (Fat.entryOf (bootOf geometry label) (diskOf image)) run.1
      (List.range' run.1 run.2) := by
  obtain ⟨hlow, hhigh⟩ := h.run_le hrun
  obtain ⟨hpos, -⟩ := h.laid.pos run hrun
  refine ⟨?_, fun cluster hmem => ?_⟩
  · -- from the end backwards: what is left of the run after `skip` clusters is a chain
    suffices htail : ∀ count skip, skip + (count + 1) = run.2 → Chain
        (Fat.nextLink (Fat.entryOf (bootOf geometry label) (diskOf image)))
        (fun cluster => Fat.entryOf (bootOf geometry label) (diskOf image) cluster = .end')
        (run.1 + skip) (List.range' (run.1 + skip) (count + 1)) by
      obtain ⟨count, hcount⟩ := Nat.exists_eq_add_of_le' hpos
      have hwhole := htail count 0 (by omega)
      rwa [Nat.add_zero, show count + 1 = run.2 by omega] at hwhole
    intro count
    induction count with
    | zero =>
        intro skip hskip
        refine .single ?_
        rw [h.entryOf_run hrun ⟨by omega, by omega⟩ hnumbers, if_pos (by omega)]
    | succ count ih =>
        intro skip hskip
        rw [List.range'_succ]
        refine .cons (Fat.nextLink_eq_some.mpr ?_) (ih (skip + 1) (by omega))
        rw [h.entryOf_run hrun ⟨by omega, by omega⟩ hnumbers, if_neg (by omega), Nat.add_assoc]
  · rw [List.mem_range'_1] at hmem
    exact Fat.hasCluster_iff.mpr ⟨hlow.trans hmem.1, lt_of_lt_of_le hmem.2 hhigh⟩

lemma entryOf_used {cluster : ℕ} (hlow : 2 ≤ cluster) (hhigh : cluster < layout.nextFree)
    (hnumbers : geometry.clusters + 2 < 2 ^ 27) :
    Fat.entryOf (bootOf geometry label) (diskOf image) cluster ≠ .free := by
  obtain ⟨run, hrun, hin⟩ := h.laid.covers cluster hlow hhigh
  rw [h.entryOf_run hrun hin hnumbers]
  split <;> nofun

/-- The FSInfo sector counts the free clusters. -/
lemma fsInfo_counts (hnumbers : geometry.clusters + 2 < 2 ^ 27) :
    Fat.wordAt (diskOf image (bootOf geometry label).fsInfoSector) 488
      = (List.range' 2 geometry.clusters).countP fun cluster =>
          Fat.entryOf (bootOf geometry label) (diskOf image) cluster = .free := by
  have hinside := h.laid.inside
  have hroot := (h.laid.pos _ (h.laid.directory _ _ h.laid.root)).2.2
  rw [firstDataCluster] at hinside hroot
  have hword : Fat.wordAt (diskOf image 1) 488 = geometry.clusters + 2 - layout.nextFree := by
    have hfield := @getWord_leBytes image (512 + 488) 4 (geometry.clusters + 2 - layout.nextFree)
      fun i hi => ?_
    · rw [wordAt_diskOf _ _ (by decide), Nat.one_mul, hfield]
      exact Nat.mod_eq_of_lt (by omega)
    · rw [Nat.add_assoc, h.fsInfoByte (by omega)]
      exact flatten_getD (k := 3) rfl (by simp [-List.reduceReplicate, fsInfoFields])
        (by rwa [length_leBytes])
  have hsplit : List.range' 2 geometry.clusters = List.range' 2 (layout.nextFree - 2)
      ++ List.range' layout.nextFree (geometry.clusters + 2 - layout.nextFree) := by
    have happend := @List.range'_append_1 2 (layout.nextFree - 2)
      (geometry.clusters + 2 - layout.nextFree)
    rw [show 2 + (layout.nextFree - 2) = layout.nextFree by omega,
      show layout.nextFree - 2 + (geometry.clusters + 2 - layout.nextFree)
        = geometry.clusters by omega]
      at happend
    exact happend.symm
  have hused : (List.range' 2 (layout.nextFree - 2)).countP (fun cluster =>
      Fat.entryOf (bootOf geometry label) (diskOf image) cluster = .free) = 0 := by
    refine List.countP_eq_zero.mpr fun cluster hmem => ?_
    rw [List.mem_range'_1] at hmem
    rw [decide_eq_true_eq]
    exact h.entryOf_used hmem.1 (by omega) hnumbers
  have hfree : (List.range' layout.nextFree (geometry.clusters + 2 - layout.nextFree)).countP
      (fun cluster => Fat.entryOf (bootOf geometry label) (diskOf image) cluster = .free)
      = geometry.clusters + 2 - layout.nextFree := by
    rw [List.countP_eq_length.mpr, List.length_range']
    intro cluster hmem
    rw [List.mem_range'_1] at hmem
    rw [decide_eq_true_eq]
    exact h.entryOf_free hmem.1 (by omega)
  rw [hsplit, List.countP_append, hused, hfree, Nat.zero_add]
  exact hword

end Made

end Made

end Harlan.Fat32
