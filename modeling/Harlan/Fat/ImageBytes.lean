import Mathlib.Tactic
import Harlan.Fat.Layout
import Harlan.Fat.Tree

/-!
What is where in an image the formatter made.

* `Made`: what `format` checked and did; `format_made`.
* `Made.reserved`, `Made.tables`, `Made.directory`, `Made.file`: the parts of the image do not
  meet, so each byte is what its own part wrote. -/

namespace Harlan.Fat32

/-! ### What `format` did -/

/-- What `format` checked and did before it answered an image. -/
structure Made (totalSectors sectorsPerCluster : ℕ) (label : List UInt8) (files : List File)
    (image : ByteMemory) (geometry : Geometry) (layout : Layout) (runs : List Run) : Prop where
  names : ∀ file ∈ files, ∀ part ∈ file.name.splitOn slash, isEightThree part = true
  shape : geometry = geometryOf totalSectors sectorsPerCluster geometry.sectorsPerFat
  sectors : 0 < sectorsPerCluster
  table : 0 < geometry.sectorsPerFat
  data : geometry.firstDataSector ≤ totalSectors
  clusters : 65525 ≤ geometry.clusters
  entries : geometry.clusters + 2 ≤ geometry.sectorsPerFat * 128
  keyed : SortedMap.Keyed (treeOf files)
  room : ∀ path held, (path, held) ∈ treeOf files →
    held.length + fixedEntries path ≤ sectorBytes * sectorsPerCluster / directoryEntryBytes
  laid : Runs (sectorBytes * sectorsPerCluster) geometry.clusters layout runs
  paths : ∀ path, path ∈ layout.directoryCluster.map Prod.fst ↔ path ∈ (treeOf files).map Prod.fst
  placed : layout.placed.map Prod.fst = files
  bytes : image = putAll (fun _ => 0) (pieces geometry label (treeOf files) layout)

lemma copyAll_eq {size : ℕ} {pieces : List Piece} {mem image : ByteMemory}
    (h : copyAll size pieces mem = some image) : image = putAll mem pieces := by
  induction pieces generalizing mem with
  | nil => exact (Option.some.inj h).symm
  | cons piece rest ih =>
      rw [copyAll, Option.ite_none_right_eq_some] at h
      exact ih h.2

lemma fullDirectory_none {perDirectory : ℕ} {tree : Tree}
    (h : fullDirectory perDirectory tree = none) {path : Path} {held : List Entry}
    (hmem : (path, held) ∈ tree) :
    held.length + fixedEntries path ≤ perDirectory := by
  have hone := List.findSome?_eq_none_iff.mp h (path, held) hmem
  simp only [ite_eq_right_iff, reduceCtorEq, imp_false, Nat.not_lt] at hone
  exact hone

/-- A path in use is not empty and has no empty part. -/
lemma empty_notMem_parts {file : File}
    (h : ∀ part ∈ file.name.splitOn slash, isEightThree part = true) :
    [] ∉ file.name.splitOn slash :=
  fun hmem => absurd (h [] hmem) (by decide)

theorem format_made {totalSectors sectorsPerCluster : ℕ} {label : List UInt8} {files : List File}
    {image : ByteMemory} {geometry : Geometry} (hsectors : 0 < sectorsPerCluster)
    (hnames : (files.map File.name).Nodup)
    (hsizes : ∀ file ∈ files, file.contents.length < 2 ^ 32)
    (h : format totalSectors sectorsPerCluster label files = .ok (image, geometry)) :
    ∃ layout runs, Made totalSectors sectorsPerCluster label files image geometry
      layout runs := by
  rw [format] at h
  rcases hbad : files.find? fun file =>
      file.name.isEmpty || !(file.name.splitOn slash).all isEightThree with _ | file
  · rw [hbad] at h
    dsimp only at h
    have hparts : ∀ file ∈ files, ∀ part ∈ file.name.splitOn slash, isEightThree part = true := by
      intro file hfile
      have hgood := List.find?_eq_none.mp hbad file hfile
      simp only [Bool.or_eq_true, Bool.not_eq_true', not_or, Bool.not_eq_false,
        List.all_eq_true] at hgood
      exact hgood.2
    rcases htable : sectorsPerFatFor totalSectors sectorsPerCluster with _ | size
    · rw [htable] at h
      cases h
    · rw [htable] at h
      dsimp only at h
      split_ifs at h with hdata hfew
      rcases hfull : fullDirectory (sectorBytes * sectorsPerCluster / directoryEntryBytes)
        (treeOf files)
        with _ | entries
      · rw [hfull] at h
        dsimp only at h
        rcases hlayout : layOut (sectorBytes * sectorsPerCluster)
          (geometryOf totalSectors sectorsPerCluster size).clusters
          (treeOf files) files with err | layout
        · rw [hlayout] at h
          cases h
        · rw [hlayout] at h
          dsimp only at h
          rcases hcopy : copyAll (totalSectors * sectorBytes) (pieces
            (geometryOf totalSectors sectorsPerCluster size) label (treeOf files) layout) fun _ =>
            0
            with _ | bytes
          · rw [hcopy] at h
            cases h
          · rw [hcopy] at h
            cases h
            obtain ⟨hpos, -, hfits⟩ := sectorsPerFatFor_fits htable
            obtain ⟨held, hroot⟩ := treeOf_rootHolds (hnames.of_map _)
              fun file hfile => empty_notMem_parts (hparts file hfile)
            obtain ⟨⟨runs, hruns⟩, hpaths, hplaced⟩ :=
              layOut_runs (lt_of_lt_of_le (by decide) (Nat.le_of_not_lt hfew))
              (Nat.mul_pos (by decide) hsectors) hroot.keyed
              (List.mem_map_of_mem hroot.root) hsizes
              hlayout
            exact ⟨layout, runs, hparts, rfl, hsectors, hpos, Nat.le_of_not_lt hdata,
              Nat.le_of_not_lt hfew, hfits, hroot.keyed,
              fun path held hmem => fullDirectory_none hfull hmem, hruns, hpaths, hplaced,
              copyAll_eq hcopy⟩
      · rw [hfull] at h
        cases h
  · rw [hbad] at h
    cases h

/-! ### How long the parts are -/

lemma length_paddedLabel (label : List UInt8) : (paddedLabel label).length = 11 := by
  rw [paddedLabel, List.length_append, List.length_take, List.length_replicate]
  omega

lemma length_bootSector (geometry : Geometry) (label : List UInt8) :
    (bootSector geometry label).length = 512 := by
  simp [-List.reduceReplicate, bootSector, bootFields, length_paddedLabel]

lemma length_fsInfoSector (clusters nextFree : ℕ) :
    (fsInfoSector clusters nextFree).length = 512 := by
  simp [-List.reduceReplicate, fsInfoSector, fsInfoFields]

lemma length_paddedName {name : Path} (h : isEightThree name = true) :
    (paddedName name).length = 11 := by
  simp only [isEightThree, Bool.and_eq_true, decide_eq_true_eq] at h
  obtain ⟨⟨⟨-, hbase⟩, hextension⟩, -⟩ := h
  simp only [paddedName, List.length_append, List.length_replicate]
  omega

lemma length_slotBytes {name : Path} (h : isEightThree name = true) (attributes : UInt8)
    (firstCluster size : ℕ) : (slotBytes name attributes firstCluster size).length = 32 := by
  simp [slotBytes, length_paddedName h]

lemma length_entryBytes (layout : Layout) {entry : Entry} (h : isEightThree entry.name = true) :
    (entryBytes layout entry).length = 32 := by
  cases entry with
  | file file => exact length_slotBytes h _ _ _
  | directory path => exact length_slotBytes h _ _ _

/-! ### Where the parts are -/

section Made

variable {totalSectors sectorsPerCluster : ℕ} {label : List UInt8} {files : List File}
  {image : ByteMemory} {geometry : Geometry} {layout : Layout} {runs : List Run}
  (h : Made totalSectors sectorsPerCluster label files image geometry layout runs)

include h

namespace Made

lemma firstDataSector : geometry.firstDataSector = 32 + 2 * geometry.sectorsPerFat := by
  rw [h.shape]
  rfl

lemma sectorOfCluster (cluster : ℕ) : geometry.sectorOfCluster cluster
    = 32 + 2 * geometry.sectorsPerFat + (cluster - 2) * sectorsPerCluster := by
  rw [Geometry.sectorOfCluster, h.firstDataSector, h.shape]
  rfl

/-- The clusters of a run lie inside the volume, and the run before its end. -/
lemma run_le {run : Run} (hrun : run ∈ runs) :
    2 ≤ run.1 ∧ run.1 + run.2 ≤ 2 + geometry.clusters := by
  obtain ⟨-, hlow, hhigh⟩ := h.laid.pos run hrun
  have hinside := h.laid.inside
  rw [firstDataCluster] at hlow hinside
  exact ⟨hlow, hhigh.trans hinside⟩

lemma chain_le {cluster next : ℕ} (hmem : (cluster, next) ∈ layout.chains) :
    2 ≤ cluster ∧ cluster < 2 + geometry.clusters := by
  obtain ⟨run, hrun, ⟨hlow, hhigh⟩, -⟩ := (h.laid.chains cluster next).mp hmem
  obtain ⟨hfirst, hlast⟩ := h.run_le hrun
  exact ⟨hfirst.trans hlow, lt_of_lt_of_le hhigh hlast⟩

end Made

end Made

/-! ### The reserved sectors -/

lemma reservedPieces_within (geometry : Geometry) (label : List UInt8) (nextFree : ℕ) :
    Within 0 (32 * 512) (reservedPieces geometry label nextFree) := by
  intro piece hpiece
  simp only [reservedPieces, List.mem_cons, List.not_mem_nil, or_false] at hpiece
  rcases hpiece with rfl | rfl | rfl | rfl <;>
    simp [length_bootSector, length_fsInfoSector, backupBootSector, sectorBytes]

/-! ### The tables -/

/-- The entries of a table, by their number. -/
def tableItems (chains : List (ℕ × ℕ)) : List (ℕ × List UInt8) :=
  (0, leBytes 4 (0x0FFFFF00 ||| mediaDescriptor)) :: (1, leBytes 4 endOfChain)
    :: chains.map fun (cluster, next) => (cluster, leBytes 4 next)

/-- Where a table starts. -/
def tableStart (geometry : Geometry) (table : ℕ) : ℕ :=
  (32 + table * geometry.sectorsPerFat) * 512

lemma tableStart_succ (geometry : Geometry) (table : ℕ) :
    tableStart geometry (table + 1)
      = tableStart geometry table + geometry.sectorsPerFat * 512 := by
  rw [tableStart, tableStart, Nat.succ_mul, ← Nat.add_assoc, Nat.add_mul _ geometry.sectorsPerFat]

lemma tablePieces_eq (geometry : Geometry) (chains : List (ℕ × ℕ)) (table : ℕ) :
    tablePieces geometry chains table
      = (tableItems chains).map fun item => (tableStart geometry table + item.1 * 4, item.2) := by
  simp only [tablePieces, tableItems, tableStart, reservedSectors, sectorBytes, List.map_cons,
    List.map_map, Function.comp_def, Nat.zero_mul, Nat.one_mul, Nat.add_zero]

lemma length_tableItem {chains : List (ℕ × ℕ)} : ∀ item ∈ tableItems chains,
      item.2.length = 4 := by
  intro item hitem
  simp only [tableItems, List.mem_cons, List.mem_map, Prod.exists] at hitem
  rcases hitem with rfl | rfl | ⟨cluster, next, -, rfl⟩ <;> exact length_leBytes 4 _

lemma mem_tableItems {chains : List (ℕ × ℕ)} {cluster : ℕ} (hlow : 2 ≤ cluster)
    {bytes : List UInt8} :
    (cluster, bytes) ∈ tableItems chains ↔ ∃ next, (cluster, next) ∈ chains
      ∧ bytes = leBytes 4 next := by
  simp only [tableItems, List.mem_cons, List.mem_map, Prod.mk.injEq, Prod.exists]
  constructor
  · rintro (⟨rfl, -⟩ | ⟨rfl, -⟩ | ⟨cluster', next, hmem, rfl, rfl⟩)
    · omega
    · omega
    · exact ⟨next, hmem, rfl⟩
  · rintro ⟨next, hmem, rfl⟩
    exact .inr (.inr ⟨cluster, next, hmem, rfl, rfl⟩)

/-! ### The directories -/

/-- Where the bytes of a cluster begin. -/
def clusterStart (geometry : Geometry) (cluster : ℕ) : ℕ := geometry.sectorOfCluster cluster * 512

/-- The entries of a directory, by their number in it. -/
def heldItems (layout : Layout) (path : Path) (held : List Entry) : List (ℕ × List UInt8) :=
  held.zipIdx.map fun (entry, index) => (fixedEntries path + index, entryBytes layout entry)

lemma directoryPieces_eq (geometry : Geometry) (layout : Layout) (label : List UInt8)
    (path : Path) (held : List Entry) :
    directoryPieces geometry layout label path held
      = fixedPieces layout label path (clusterStart geometry (layout.clusterOf path))
        ++ (heldItems layout path held).map fun item =>
          (clusterStart geometry (layout.clusterOf path) + item.1 * 32, item.2) := by
  rw [directoryPieces, heldItems, List.map_map]
  rfl

lemma mem_heldItems {layout : Layout} {path : Path} {held : List Entry} {item : ℕ × List UInt8} :
    item ∈ heldItems layout path held ↔ ∃ i entry, held[i]? = some entry
      ∧ item = (fixedEntries path + i, entryBytes layout entry) := by
  simp only [heldItems, List.mem_map, Prod.exists, List.mk_mem_zipIdx_iff_getElem?]
  constructor
  · rintro ⟨entry, i, hentry, rfl⟩
    exact ⟨i, entry, hentry, rfl⟩
  · rintro ⟨i, entry, hentry, rfl⟩
    exact ⟨entry, i, hentry, rfl⟩

lemma keys_heldItems (layout : Layout) (path : Path) (held : List Entry) :
    (heldItems layout path held).map Prod.fst = List.range' (fixedEntries path) held.length := by
  rw [heldItems, List.map_map]
  have hcomp : (Prod.fst ∘ fun x : Entry × ℕ => (fixedEntries path + x.2, entryBytes layout x.1))
      = (fixedEntries path + ·) ∘ Prod.snd := rfl
  rw [hcomp, ← List.map_map, List.zipIdx_map_snd, List.map_add_range']
  rfl

/-- The first entries of a directory stay in their place. -/
lemma fixedPieces_within (layout : Layout) (label : List UInt8) (path : Path) (start : ℕ) :
    Within start (start + fixedEntries path * 32) (fixedPieces layout label path start) := by
  intro piece hpiece
  rw [fixedPieces] at hpiece
  rw [fixedEntries]
  split at hpiece
  next hroot =>
    rw [if_pos hroot]
    simp only [List.mem_cons, List.not_mem_nil, or_false] at hpiece
    rcases hpiece with rfl | rfl
    · rw [length_paddedLabel]
      omega
    · rw [List.length_singleton]
      omega
  next hbelow =>
    rw [if_neg hbelow]
    simp only [dotPieces, directoryEntryBytes, List.cons_append, List.nil_append, List.mem_cons,
      List.not_mem_nil, or_false] at hpiece
    rcases hpiece with rfl | rfl | rfl | rfl | rfl | rfl | rfl | rfl <;>
      simp only [List.length_cons, List.length_replicate, length_leBytes,
        List.length_nil] <;> omega

section Made

variable {totalSectors sectorsPerCluster : ℕ} {label : List UInt8} {files : List File}
  {image : ByteMemory} {geometry : Geometry} {layout : Layout} {runs : List Run}
  (h : Made totalSectors sectorsPerCluster label files image geometry layout runs)

include h

namespace Made

lemma keyed_tableItems : ((tableItems layout.chains).map Prod.fst).Nodup := by
  have hkeys : (tableItems layout.chains).map Prod.fst
      = 0 :: 1 :: layout.chains.map Prod.fst := by
    rw [tableItems, List.map_cons, List.map_cons, List.map_map]
    rfl
  have hlow : ∀ cluster ∈ layout.chains.map Prod.fst, 2 ≤ cluster := by
    rintro cluster hmem
    obtain ⟨next, hnext⟩ := SortedMap.exists_of_mem_keys hmem
    exact (h.chain_le hnext).1
  rw [hkeys]
  refine List.nodup_cons.mpr ⟨?_, List.nodup_cons.mpr ⟨?_, h.laid.keyed⟩⟩
  · intro hmem
    rcases List.mem_cons.mp hmem with hone | hmem
    · cases hone
    · exact absurd (hlow 0 hmem) (by decide)
  · exact fun hmem => absurd (hlow 1 hmem) (by decide)

lemma tablePieces_within (table : ℕ) :
    Within (tableStart geometry table) (tableStart geometry (table + 1))
      (tablePieces geometry layout.chains table) := by
  have hkey : ∀ item ∈ tableItems layout.chains, item.1 < geometry.sectorsPerFat * 128 := by
    intro item hitem
    have hentries := h.entries
    simp only [tableItems, List.mem_cons, List.mem_map, Prod.exists] at hitem
    rcases hitem with rfl | rfl | ⟨cluster, next, hmem, rfl⟩
    · dsimp only
      omega
    · dsimp only
      omega
    · have hlt := (h.chain_le hmem).2
      dsimp only
      omega
  intro piece hpiece
  rw [tablePieces_eq, List.mem_map] at hpiece
  obtain ⟨item, hitem, rfl⟩ := hpiece
  have hlt := hkey item hitem
  dsimp only
  rw [length_tableItem item hitem, tableStart_succ]
  omega

/-! ### The clusters -/

lemma clusterStart_add {first count : ℕ} (hfirst : 2 ≤ first) :
    clusterStart geometry (first + count)
      = clusterStart geometry first + count * (512 * sectorsPerCluster) := by
  have hsectors : geometry.sectorOfCluster (first + count)
      = geometry.sectorOfCluster first + count * sectorsPerCluster := by
    rw [h.sectorOfCluster, h.sectorOfCluster, Nat.sub_add_comm hfirst, Nat.add_mul]
    omega
  rw [clusterStart, clusterStart, hsectors, Nat.add_mul, Nat.mul_assoc, Nat.mul_comm 512]

/-- Clusters come one after the other. -/
lemma clusterStart_mono {cluster cluster' : ℕ} (hle : cluster ≤ cluster') :
    clusterStart geometry cluster ≤ clusterStart geometry cluster' := by
  rw [clusterStart, clusterStart, h.sectorOfCluster, h.sectorOfCluster]
  exact Nat.mul_le_mul_right _
    (Nat.add_le_add_left (Nat.mul_le_mul_right _ (Nat.sub_le_sub_right hle 2)) _)

/-- The bytes of a run are before or after those of another. -/
lemma run_misses {run run' : Run} (hrun : run ∈ runs) (hrun' : run' ∈ runs) (hne : run'.1 ≠ run.1)
    {a : ℕ} (hlow : clusterStart geometry run.1 ≤ a)
    (hhigh : a < clusterStart geometry (run.1 + run.2)) :
    a < clusterStart geometry run'.1 ∨ clusterStart geometry (run'.1 + run'.2) ≤ a := by
  rcases h.laid.beside hrun hrun'
    (fun heq => hne (congrArg Prod.fst heq.symm)) with hafter | hbefore
  · exact .inl (lt_of_lt_of_le hhigh (h.clusterStart_mono hafter))
  · exact .inr (le_trans (h.clusterStart_mono hbefore) hlow)

/-- A directory of the tree has a cluster of its own. -/
lemma clusterOf_mem {path : Path} {held : List Entry} (hmem : (path, held) ∈ treeOf files) :
    (path, layout.clusterOf path) ∈ layout.directoryCluster := by
  obtain ⟨cluster, hcluster⟩ := SortedMap.exists_of_mem_keys
    ((h.paths path).mpr (List.mem_map_of_mem hmem))
  rw [Layout.clusterOf, SortedMap.lookup_eq_some h.laid.paths hcluster]
  exact hcluster

lemma named : Named (treeOf files) := treeOf_named h.names

lemma length_heldItem {path : Path} {held : List Entry} (hmem : (path, held) ∈ treeOf files) :
    ∀ item ∈ heldItems layout path held, item.2.length = 32 := by
  intro item hitem
  obtain ⟨i, entry, hentry, rfl⟩ := mem_heldItems.mp hitem
  exact length_entryBytes layout (h.named path held hmem entry (List.mem_of_getElem? hentry))

lemma directoryPieces_within {path : Path} {held : List Entry}
    (hmem : (path, held) ∈ treeOf files) :
    Within (clusterStart geometry (layout.clusterOf path))
      (clusterStart geometry (layout.clusterOf path + 1))
      (directoryPieces geometry layout label path held) := by
  have hroom := h.room path held hmem
  obtain ⟨hlow, -⟩ := h.run_le (h.laid.directory _ _ (h.clusterOf_mem hmem))
  rw [directoryEntryBytes, sectorBytes] at hroom
  rw [h.clusterStart_add hlow, directoryPieces_eq]
  generalize clusterStart geometry (layout.clusterOf path) = start
  generalize hfixed : fixedEntries path = fixed at hroom
  have hend : start + fixed * 32 ≤ start + 1 * (512 * sectorsPerCluster) := by omega
  intro piece hpiece
  rcases List.mem_append.mp hpiece with hfirst | hheld
  · obtain ⟨hlo, hhi⟩ := fixedPieces_within _ _ _ _ piece hfirst
    rw [hfixed] at hhi
    exact ⟨hlo, hhi.trans hend⟩
  · obtain ⟨item, hitem, rfl⟩ := List.mem_map.mp hheld
    have hlength := h.length_heldItem hmem item hitem
    obtain ⟨i, entry, hentry, rfl⟩ := mem_heldItems.mp hitem
    have hi := (List.getElem?_eq_some_iff.mp hentry).1
    dsimp only at hlength ⊢
    rw [hlength, hfixed]
    omega

lemma filePieces_within {file : File} {first : ℕ} (hmem : (file, first) ∈ layout.placed) :
    filePieces geometry (file, first) = []
      ∨ (first, divCeil file.contents.length (512 * sectorsPerCluster)) ∈ runs
        ∧ Within (clusterStart geometry first)
          (clusterStart geometry (first + divCeil file.contents.length (512 * sectorsPerCluster)))
          (filePieces geometry (file, first)) := by
  rcases h.laid.file file first hmem with ⟨rfl, -⟩ | ⟨hrun, -⟩
  · exact .inl (if_pos rfl)
  · obtain ⟨hlow, -⟩ := h.run_le hrun
    refine .inr ⟨hrun, ?_⟩
    rw [filePieces, if_neg (by dsimp only at hlow ⊢; omega), h.clusterStart_add hlow]
    intro piece hpiece
    obtain rfl := List.mem_singleton.mp hpiece
    have hlength := @le_divCeil_mul file.contents.length (512 * sectorsPerCluster)
      (Nat.mul_pos (by decide) h.sectors)
    exact ⟨le_refl _, Nat.add_le_add_left hlength _⟩

/-! ### No two parts meet -/

lemma clusterOf_inj {path path' : Path} {held held' : List Entry}
    (hmem : (path, held) ∈ treeOf files) (hmem' : (path', held') ∈ treeOf files)
    (hsame : layout.clusterOf path = layout.clusterOf path') : path = path' := by
  have hnodup := (List.nodup_append.mp h.laid.apart).1
  have hpair := List.inj_on_of_nodup_map hnodup (h.clusterOf_mem hmem)
    (h.clusterOf_mem hmem') hsame
  exact (Prod.mk.inj hpair).1

lemma clusterOf_ne {path : Path} {held : List Entry} (hmem : (path, held) ∈ treeOf files)
    {file : File} {first : ℕ} (hfile : (file, first) ∈ layout.placed) :
    layout.clusterOf path ≠ first := by
  have hdisjoint := (List.nodup_append.mp h.laid.apart).2.2
  have hcluster := h.clusterOf_mem hmem
  have hlow := (h.run_le (h.laid.directory _ _ hcluster)).1
  rintro rfl
  refine hdisjoint _ (List.mem_map_of_mem hcluster) _
    (List.mem_filter.mpr ⟨List.mem_map_of_mem hfile, ?_⟩) rfl
  dsimp only at hlow ⊢
  simp only [decide_eq_true_eq, ne_eq]
  omega

/-- A file with bytes has a first cluster of its own. -/
lemma placed_apart {before after : List (File × ℕ)} {file : File} {first : ℕ}
    (hsplit : layout.placed = before ++ (file, first) :: after) (hfirst : first ≠ 0) :
    ∀ other ∈ before ++ after, other.2 ≠ first := by
  have hnodup := (List.nodup_append.mp h.laid.apart).2.1
  rw [hsplit, List.map_append, List.map_cons, List.filter_append,
    List.filter_cons_of_pos (by simpa using hfirst), List.nodup_middle, List.nodup_cons,
    ← List.filter_append, ← List.map_append] at hnodup
  intro other hother heq
  have hmem := List.mem_map.mpr ⟨other, hother, heq⟩
  exact hnodup.1 (List.mem_filter.mpr ⟨hmem, by simpa using hfirst⟩)

/-- The clusters begin where the tables end. -/
lemma clusterStart_two : clusterStart geometry 2 = tableStart geometry 2 := by
  rw [clusterStart, h.sectorOfCluster, tableStart, Nat.sub_self, Nat.zero_mul, Nat.add_zero]

/-- Nothing but directories and files is written past the tables. -/
lemma before_data {a : ℕ} (ha : clusterStart geometry 2 ≤ a) :
    putAll (fun _ => 0) (reservedPieces geometry label layout.nextFree
      ++ (List.range fatCount).flatMap (tablePieces geometry layout.chains)) a = 0 := by
  have htable : 32 * 512 ≤ tableStart geometry 2 :=
    Nat.mul_le_mul_right 512 (Nat.le_add_right 32 _)
  rw [h.clusterStart_two] at ha
  rw [putAll_append, putAll_flatMap_outside fun table htable' =>
    ⟨_, _, h.tablePieces_within table, ?_⟩]
  · exact putAll_outside (reservedPieces_within _ _ _) (.inr (htable.trans ha))
  · have hlt : table + 1 ≤ 2 := List.mem_range.mp htable'
    refine .inr (le_trans ?_ ha)
    exact Nat.mul_le_mul_right _ (Nat.add_le_add_left (Nat.mul_le_mul_right _ hlt) _)

/-- What is written for a file of a run other than that of an address misses it. -/
lemma file_misses {run : Run} (hrun : run ∈ runs) {a : ℕ} (hlow : clusterStart geometry run.1 ≤ a)
    (hhigh : a < clusterStart geometry (run.1 + run.2)) {file : File} {first : ℕ}
    (hmem : (file, first) ∈ layout.placed) (hne : first ≠ run.1) :
    ∃ lo hi, Within lo hi (filePieces geometry (file, first)) ∧ (a < lo ∨ hi ≤ a) := by
  rcases h.filePieces_within hmem with hnone | ⟨hother, hwithin⟩
  · rw [hnone]
    exact ⟨0, 0, fun _ hin => (List.not_mem_nil hin).elim, .inr (Nat.zero_le a)⟩
  · have hbeside := h.run_misses hrun hother hne hlow hhigh
    exact ⟨_, _, hwithin, hbeside⟩

/-- The same for a directory. -/
lemma directory_misses {run : Run} (hrun : run ∈ runs) {a : ℕ}
    (hlow : clusterStart geometry run.1 ≤ a) (hhigh : a < clusterStart geometry (run.1 + run.2))
    {path : Path} {held : List Entry} (hmem : (path, held) ∈ treeOf files)
    (hne : layout.clusterOf path ≠ run.1) :
    ∃ lo hi, Within lo hi (directoryPieces geometry layout label path held)
      ∧ (a < lo ∨ hi ≤ a) := by
  have hbeside := h.run_misses hrun (h.laid.directory _ _ (h.clusterOf_mem hmem)) hne hlow hhigh
  exact ⟨_, _, h.directoryPieces_within hmem, hbeside⟩

/-- The bytes of a directory are those written for it. -/
lemma directory {path : Path} {held : List Entry} (hmem : (path, held) ∈ treeOf files) {a : ℕ}
    (hlow : clusterStart geometry (layout.clusterOf path) ≤ a)
    (hhigh : a < clusterStart geometry (layout.clusterOf path + 1)) :
    image a = putAll (fun _ => 0) (directoryPieces geometry layout label path held) a := by
  have hrun := h.laid.directory _ _ (h.clusterOf_mem hmem)
  have hdata := h.before_data ((h.clusterStart_mono (h.run_le hrun).1).trans hlow)
  have hfiles : ∀ mem, putAll mem (layout.placed.flatMap (filePieces geometry)) a = mem a := by
    refine fun mem => putAll_flatMap_outside ?_
    rintro ⟨file, first⟩ hplaced
    exact h.file_misses hrun hlow hhigh hplaced fun heq => h.clusterOf_ne hmem hplaced heq.symm
  obtain ⟨before, after, hsplit⟩ := List.append_of_mem hmem
  have hother : ∀ other ∈ before ++ after, other ∈ treeOf files ∧ other.1 ≠ path := by
    intro other hother
    have hnodup := h.keyed
    rw [SortedMap.Keyed, hsplit, List.map_append, List.map_cons, List.nodup_middle,
      ← List.map_append, List.nodup_cons] at hnodup
    refine ⟨?_, fun heq => hnodup.1 (List.mem_map.mpr ⟨other, hother, heq⟩)⟩
    rw [hsplit]
    exact List.mem_append.mpr ((List.mem_append.mp hother).imp_right (List.mem_cons_of_mem _))
  rw [h.bytes, pieces, putAll_append, hfiles, putAll_append,
    putAll_flatMap hsplit fun other hin => ?_]
  · exact putAll_congr hdata
  · obtain ⟨hin', hne⟩ := hother other hin
    exact h.directory_misses hrun hlow hhigh hin' fun heq => hne (h.clusterOf_inj hin' hmem heq)

/-- The bytes of a file are its contents, and zeroes to the end of its clusters. -/
lemma file {file : File} {first : ℕ} (hmem : (file, first) ∈ layout.placed) (hfirst : first ≠ 0)
    {a : ℕ} (hlow : clusterStart geometry first ≤ a) (hhigh : a < clusterStart geometry
      (first + divCeil file.contents.length (512 * sectorsPerCluster))) :
    image a = putBytes (fun _ => 0) (clusterStart geometry first) file.contents a := by
  have hrun : (first, divCeil file.contents.length (512 * sectorsPerCluster)) ∈ runs := by
    rcases h.laid.file file first hmem with ⟨hzero, -⟩ | ⟨hrun, -⟩
    · exact absurd hzero hfirst
    · exact hrun
  have hdata := h.before_data ((h.clusterStart_mono (h.run_le hrun).1).trans hlow)
  obtain ⟨before, after, hsplit⟩ := List.append_of_mem hmem
  have hpieces : filePieces geometry (file, first)
      = [(clusterStart geometry first, file.contents)] :=
    if_neg hfirst
  rw [h.bytes, pieces, putAll_append, putAll_flatMap hsplit, hpieces]
  · change _ = putAll (fun _ => 0) [(clusterStart geometry first, file.contents)] a
    refine putAll_congr ?_
    rw [putAll_append, putAll_flatMap_outside ?_]
    · exact hdata
    · rintro ⟨path, held⟩ hin
      exact h.directory_misses hrun hlow hhigh hin (h.clusterOf_ne hin hmem)
  · rintro ⟨other, first'⟩ hin
    refine h.file_misses hrun hlow hhigh ?_ (h.placed_apart hsplit hfirst _ hin)
    rw [hsplit]
    exact List.mem_append.mpr ((List.mem_append.mp hin).imp_right (List.mem_cons_of_mem _))

/-- What is written past the tables leaves what is before them alone. -/
lemma before_clusters {a : ℕ} (ha : a < tableStart geometry 2) :
    image a = putAll (fun _ => 0) (reservedPieces geometry label layout.nextFree
      ++ (List.range fatCount).flatMap (tablePieces geometry layout.chains)) a := by
  rw [← h.clusterStart_two] at ha
  have hstart : ∀ {run : Run}, run ∈ runs → a < clusterStart geometry run.1 :=
    fun hrun => lt_of_lt_of_le ha (h.clusterStart_mono (h.run_le hrun).1)
  rw [h.bytes, pieces, putAll_append, putAll_flatMap_outside, putAll_append,
    putAll_flatMap_outside]
  · rintro ⟨path, held⟩ hmem
    have hbefore := hstart (h.laid.directory _ _ (h.clusterOf_mem hmem))
    exact ⟨_, _, h.directoryPieces_within hmem, .inl hbefore⟩
  · rintro ⟨file, first⟩ hmem
    rcases h.filePieces_within hmem with hnone | ⟨hrun, hwithin⟩
    · rw [hnone]
      exact ⟨0, 0, fun _ hin => (List.not_mem_nil hin).elim, .inr (Nat.zero_le a)⟩
    · have hbefore := hstart hrun
      exact ⟨_, _, hwithin, .inl hbefore⟩

omit h in
lemma tableStart_mono {table table' : ℕ} (hle : table ≤ table') :
    tableStart geometry table ≤ tableStart geometry table' :=
  Nat.mul_le_mul_right _ (Nat.add_le_add_left (Nat.mul_le_mul_right _ hle) _)

/-- The bytes of the reserved sectors are those written for them, -/
lemma reserved {a : ℕ} (ha : a < 32 * 512) :
    image a = putAll (fun _ => 0) (reservedPieces geometry label layout.nextFree) a := by
  have hstart : a < tableStart geometry 0 := by
    rwa [tableStart, Nat.zero_mul, Nat.add_zero]
  rw [h.before_clusters (lt_of_lt_of_le hstart (tableStart_mono (Nat.zero_le 2))), putAll_append,
    putAll_flatMap_outside]
  intro table _
  exact ⟨_, _, h.tablePieces_within table,
    .inl (lt_of_lt_of_le hstart (tableStart_mono (Nat.zero_le table)))⟩

/-- and so are those of a table. -/
lemma tables {table a : ℕ} (htable : table < 2) (hlow : tableStart geometry table ≤ a)
    (hhigh : a < tableStart geometry (table + 1)) :
    image a = putAll (fun _ => 0) (tablePieces geometry layout.chains table) a := by
  obtain ⟨before, after, hsplit⟩ := List.append_of_mem (List.mem_range.mpr htable)
  rw [h.before_clusters (lt_of_lt_of_le hhigh (tableStart_mono htable)), putAll_append,
    fatCount, putAll_flatMap hsplit]
  · have hstart : 32 * 512 ≤ tableStart geometry table :=
      Nat.mul_le_mul_right 512 (Nat.le_add_right 32 _)
    exact putAll_congr (putAll_outside (reservedPieces_within _ _ _) (.inr (hstart.trans hlow)))
  · intro other hother
    have hnodup := @List.nodup_range 2
    rw [hsplit, List.nodup_middle, List.nodup_cons] at hnodup
    refine ⟨_, _, h.tablePieces_within other, ?_⟩
    rcases Nat.lt_or_gt_of_ne fun heq : other = table => hnodup.1 (heq ▸ hother) with hlt | hgt
    · exact .inr ((tableStart_mono hlt).trans hlow)
    · exact .inl (lt_of_lt_of_le hhigh (tableStart_mono hgt))

end Made

end Made

end Harlan.Fat32
