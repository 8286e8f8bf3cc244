import Mathlib.Tactic
import Harlan.Fat.Formatted

/-!
The files of an image the formatter made, as the reader finds them.

* `decodeSlot_slotBytes`: an entry the formatter wrote is read as it was meant.
* `rootEntries_eq`, `find_root`: what the root directory has; `file_reads`: the bytes of a file.
* `Chained`, `Readable`: what the reader finds in a volume; `format_readable` is the whole of it.
-/

namespace Harlan.Fat32

open Fat (BootSector DirectoryEntry SlotBytes)

/-! ### One entry -/

/-- Thirty-two bytes as a slot. -/
def slotOfBytes (bytes : List UInt8) : SlotBytes := fun i => bytes.getD i 0

/-- The fields of an entry, one after the other. -/
def slotFields (name : Path) (attributes : UInt8) (firstCluster size : ℕ) : List (List UInt8) :=
  [Fat.padded 8 (Fat.splitName name).1, Fat.padded 3 (Fat.splitName name).2, [attributes],
    List.replicate 8 0, leBytes 2 (firstCluster / 2 ^ 16), List.replicate 4 0,
    leBytes 2 firstCluster, leBytes 4 size]

lemma slotBytes_eq (name : Path) (attributes : UInt8) (firstCluster size : ℕ) :
    slotBytes name attributes firstCluster size
      = (slotFields name attributes firstCluster size).flatten := by
  simp only [slotBytes, slotFields, paddedName, Fat.padded, List.flatten_cons, List.flatten_nil,
    List.append_assoc, List.append_nil]

/-- What a name that fits keeps to. -/
structure Fitting (name : Path) : Prop where
  base : (Fat.splitName name).1 ≠ []
  base_le : (Fat.splitName name).1.length ≤ 8
  extension_le : (Fat.splitName name).2.length ≤ 3
  plain : ∀ byte ∈ name, 0x20 < byte.toNat ∧ byte.toNat < 0x61

lemma fitting {name : Path} (h : isEightThree name = true) : Fitting name := by
  simp only [isEightThree, Bool.and_eq_true, Bool.not_eq_true', List.isEmpty_eq_false_iff,
    decide_eq_true_eq, List.all_eq_true, Bool.or_eq_true, isAsciiUppercase, isAsciiDigit,
    beq_iff_eq] at h
  obtain ⟨⟨⟨hbase, hlength⟩, hextension⟩, hbytes⟩ := h
  refine ⟨hbase, hlength, hextension, fun byte hbyte => ?_⟩
  rcases hbytes byte hbyte with (hletter | hdigit) | rfl
  · omega
  · omega
  · decide

lemma space_notMem {text : List UInt8}
    (htext : ∀ byte ∈ text, 0x20 < byte.toNat ∧ byte.toNat < 0x61) : Fat.space ∉ text :=
  fun hmem => absurd (htext _ hmem).1 (by decide)

lemma le16_leBytes (value : ℕ) :
    Fat.le16 ((leBytes 2 value).getD 0 0) ((leBytes 2 value).getD 1 0) = value % 2 ^ 16 := by
  simp [leBytes, Fat.le16, List.range_succ]
  omega

lemma le32_leBytes (value : ℕ) :
    Fat.le32 ((leBytes 4 value).getD 0 0) ((leBytes 4 value).getD 1 0)
      ((leBytes 4 value).getD 2 0)
      ((leBytes 4 value).getD 3 0) = value % 2 ^ 32 := by
  simp [leBytes, Fat.le32, List.range_succ]
  omega

namespace Fitting

variable {name : Path} (h : Fitting name)

include h

lemma base_plain : ∀ byte ∈ (Fat.splitName name).1, 0x20 < byte.toNat ∧ byte.toNat < 0x61 :=
  fun byte hbyte => h.plain byte (List.takeWhile_subset _ hbyte)

lemma extension_plain : ∀ byte ∈ (Fat.splitName name).2, 0x20 < byte.toNat ∧ byte.toNat < 0x61 :=
  fun byte hbyte => h.plain byte (List.dropWhile_subset _ (List.mem_of_mem_drop hbyte))

lemma upper : Fat.upper name = name := by
  have hsame : ∀ byte ∈ name, Fat.toAsciiUppercase byte = id byte := by
    intro byte hbyte
    have hlow := (h.plain byte hbyte).2
    exact if_neg (by omega)
  rw [Fat.upper, List.map_congr_left hsame, List.map_id]

lemma widths (attributes : UInt8) (firstCluster size : ℕ) :
    (slotFields name attributes firstCluster size).map List.length =
    [8, 3, 1, 8, 2, 4, 2, 4] := by
  have hbase := h.base_le
  have hextension := h.extension_le
  simp only [slotFields, Fat.padded, List.map_cons, List.map_nil, List.length_append,
    List.length_replicate, length_leBytes, List.length_singleton]
  congr 2
  · omega
  · omega

/-- A byte of an entry, by its field. -/
lemma slotByte {attributes : UInt8} {firstCluster size k i offset : ℕ} {field : List UInt8}
    (hk : (slotFields name attributes firstCluster size)[k]? = some field)
    (hoffset : ([8, 3, 1, 8, 2, 4, 2, 4].take k).sum = offset) (hi : i < field.length)
    (hend : offset + i < 32) :
    slotOfBytes (slotBytes name attributes firstCluster size) ⟨offset + i, hend⟩
      = field.getD i 0 := by
  rw [slotOfBytes, slotBytes_eq]
  refine flatten_getD hk ?_ hi
  rw [List.map_take, h.widths, hoffset]

/-- The name of an entry is read back, but for one that ends in its only dot. -/
lemma slotName_slotBytes (hdot : Fat.endsInOnlyDot name = false) (attributes : UInt8)
    (firstCluster size : ℕ) :
    Fat.slotName (slotOfBytes (slotBytes name attributes firstCluster size)) = name := by
  have hlengths := h.widths attributes firstCluster size
  have hbase : Fat.baseField (slotOfBytes (slotBytes name attributes firstCluster size))
      = Fat.padded 8 (Fat.splitName name).1 := by
    have hlength : (Fat.padded 8 (Fat.splitName name).1).length = 8 := (List.cons.inj hlengths).1
    refine List.ext_getElem (by rw [Fat.baseField, List.length_ofFn, hlength]) fun i hi hi' => ?_
    have hbyte := @slotByte _ h attributes firstCluster size 0 i 0 _ rfl rfl hi' (by omega)
    rw [List.getD_eq_getElem?_getD, List.getElem?_eq_getElem hi', Option.getD_some] at hbyte
    simp only [Fat.baseField, List.getElem_ofFn, ← hbyte, Nat.zero_add]
  have hextension : Fat.extensionField (slotOfBytes (slotBytes name attributes firstCluster size))
      = Fat.padded 3 (Fat.splitName name).2 := by
    have hlength : (Fat.padded 3 (Fat.splitName name).2).length = 3 :=
      (List.cons.inj (List.cons.inj hlengths).2).1
    refine List.ext_getElem (by rw [Fat.extensionField, List.length_ofFn, hlength]) fun i
      hi hi' => ?_
    have hbyte := @slotByte _ h attributes firstCluster size 1 i 8 _ rfl rfl hi' (by omega)
    rw [List.getD_eq_getElem?_getD, List.getElem?_eq_getElem hi', Option.getD_some] at hbyte
    simp only [Fat.extensionField, List.getElem_ofFn, ← hbyte]
  rw [Fat.slotName_eq, hbase, hextension, Fat.trimmed_padded _ (space_notMem h.base_plain),
    Fat.trimmed_padded _ (space_notMem h.extension_plain), ← Fat.eq_joined hdot]

/-- An entry the formatter wrote is in use, and says what it was meant to. -/
lemma decodeSlot_slotBytes {attributes : UInt8}
    (hattributes : attributes = attrArchive ∨ attributes = attrDirectory) {firstCluster size : ℕ}
    (hfirst : firstCluster < 2 ^ 32) (hsize : size < 2 ^ 32) :
    Fat.decodeSlot (slotOfBytes (slotBytes name attributes firstCluster size))
      = .entry ⟨Fat.slotName (slotOfBytes (slotBytes name attributes firstCluster size)),
        attributes,
          firstCluster, size⟩ := by
  have hbyte := fun {k i offset field} =>
    @slotByte _ h attributes firstCluster size k i offset field
  generalize hslot : slotOfBytes (slotBytes name attributes firstCluster size) = slot at hbyte
  have hstart : 0x20 < (slot 0).toNat ∧ (slot 0).toNat < 0x61 := by
    obtain ⟨byte, rest, hbase⟩ := List.exists_cons_of_ne_nil h.base
    have hzero : slot 0 = byte := by
      have hfield := @hbyte 0 0 0 _ rfl rfl (by simp [Fat.padded, hbase]) (by decide)
      rw [Fat.padded, hbase] at hfield
      exact hfield
    rw [hzero]
    exact h.base_plain byte (by rw [hbase]; exact List.mem_cons_self)
  have h11 : slot 11 = attributes := @hbyte 2 0 11 _ rfl rfl (by simp) (by decide)
  have h20 := @hbyte 4 0 20 _ rfl rfl (by simp) (by decide)
  have h21 := @hbyte 4 1 20 _ rfl rfl (by simp) (by decide)
  have h26 := @hbyte 6 0 26 _ rfl rfl (by simp) (by decide)
  have h27 := @hbyte 6 1 26 _ rfl rfl (by simp) (by decide)
  have h28 := @hbyte 7 0 28 _ rfl rfl (by simp) (by decide)
  have h29 := @hbyte 7 1 28 _ rfl rfl (by simp) (by decide)
  have h30 := @hbyte 7 2 28 _ rfl rfl (by simp) (by decide)
  have h31 := @hbyte 7 3 28 _ rfl rfl (by simp) (by decide)
  have hcluster : 2 ^ 16 * Fat.le16 (slot 20) (slot 21) + Fat.le16 (slot 26) (slot 27)
      = firstCluster := by
    rw [show slot 20 = _ from h20, show slot 21 = _ from h21, show slot 26 = _ from h26,
      show slot 27 = _ from h27, le16_leBytes, le16_leBytes]
    omega
  have hlength : Fat.le32 (slot 28) (slot 29) (slot 30) (slot 31) = size := by
    rw [show slot 28 = _ from h28, show slot 29 = _ from h29, show slot 30 = _ from h30,
      show slot 31 = _ from h31, le32_leBytes, Nat.mod_eq_of_lt hsize]
  rw [Fat.decodeSlot, if_neg, if_neg, if_neg, h11, hcluster, hlength]
  · rw [h11]
    rcases hattributes with rfl | rfl <;> decide
  · intro hdeleted
    rw [hdeleted] at hstart
    exact absurd hstart.2 (by decide)
  · intro hnever
    rw [hnever] at hstart
    exact absurd hstart.1 (by decide)

/-- A name that fits is compared with another in upper case. -/
lemma isNamed_iff {entry : DirectoryEntry} (hname : entry.name = name) (other : List UInt8) :
    entry.isNamed other = true ↔ name = Fat.upper other := by
  have htext : entry.nameText = name := by
    rw [DirectoryEntry.nameText, hname]
    refine if_pos (Fat.validUtf8_ascii fun byte hbyte => ?_)
    have hlow := (h.plain byte hbyte).2
    omega
  rw [DirectoryEntry.isNamed, Fat.all_zip_iff, htext, h.upper]

end Fitting

/-- Where an entry says its clusters begin. -/
def Layout.firstOf (layout : Layout) : Entry → ℕ
  | .file file => layout.whereFileWent file.name
  | .directory path => layout.clusterOf path

/-- What the reader makes of the entry of a file, -/
def fileEntry (layout : Layout) (file : File) : DirectoryEntry :=
  ⟨lastOf file.name, attrArchive, layout.whereFileWent file.name, file.contents.length⟩

/-- and of any. -/
def listed (layout : Layout) : Entry → DirectoryEntry
  | .file file => fileEntry layout file
  | .directory path => ⟨lastOf path, attrDirectory, layout.clusterOf path, 0⟩

lemma listed_name (layout : Layout) (entry : Entry) :
    (listed layout entry).name = entry.name := by
  cases entry <;> rfl

/-! ### The slots of a directory -/

lemma decodeSlot_label {bytes : SlotBytes} (hfirst : bytes 0 ≠ Fat.entryNeverUsed)
    (hlabel : bytes 11 = attrVolumeLabel) :
    Fat.decodeSlot bytes = .skip := by
  rw [Fat.decodeSlot, if_neg hfirst, hlabel]
  split
  next => rfl
  next => exact if_pos (.inr (by decide))

/-- Slots that are all in use are what a directory of them has. -/
lemma entriesOf_self {slots : List SlotBytes}
    (h : ∀ x ∈ slots, ∃ entry, Fat.decodeSlot x = .entry entry) :
    Fat.entriesOf slots = slots := by
  induction slots with
  | nil => rfl
  | cons x rest ih =>
      obtain ⟨entry, hentry⟩ := h x List.mem_cons_self
      rw [Fat.entriesOf, hentry]
      dsimp only
      rw [ih fun y hy => h y (List.mem_cons_of_mem _ hy)]

/-- The slots from an address on. -/
def slotsAt (image : ByteMemory) (start count : ℕ) : List SlotBytes :=
  (List.range count).map fun j i => image (start + j * 32 + i)

lemma flatMap_slots {α : Type} (f : ℕ → α) (n : ℕ) :
    (List.range n).flatMap
    (fun row => (List.finRange 16).map fun index => f (row * 16 + index.val))
      = (List.range (n * 16)).map f := by
  induction n with
  | zero => rfl
  | succ n ih =>
      have hrow : (List.finRange 16).map (fun index => f (n * 16 + index.val))
          = (List.range 16).map fun index => f (n * 16 + index) := by
        rw [← List.map_coe_finRange_eq_range, List.map_map]
        rfl
      rw [List.range_succ, List.flatMap_append, ih, List.flatMap_singleton, hrow, Nat.succ_mul,
        List.range_add, List.map_append, List.map_map]
      rfl

lemma dataSector_eq (geometry : Geometry) (label : List UInt8) (cluster offset : ℕ) :
    Fat.dataSector (bootOf geometry label) cluster offset * 512
      = clusterStart geometry cluster + offset * 512 := by
  have hsector : Fat.dataSector (bootOf geometry label) cluster offset
      = geometry.sectorOfCluster cluster + offset := rfl
  rw [hsector, Nat.add_mul, clusterStart]

lemma sectorsData_eq (image : ByteMemory) (start count : ℕ) :
    ((List.range count).flatMap fun offset => List.ofFn fun i : Fin 512 =>
      image (start + offset * 512 + i))
      = getBytes image start (count * 512) := by
  induction count with
  | zero => rfl
  | succ count ih =>
      rw [List.range_succ, List.flatMap_append, ih, List.flatMap_singleton, ofFn_eq_getBytes,
        Nat.add_one_mul count, getBytes_add]

section Made

variable {totalSectors sectorsPerCluster : ℕ} {label : List UInt8} {files : List File}
  {image : ByteMemory} {geometry : Geometry} {layout : Layout} {runs : List Run}
  (h : Made totalSectors sectorsPerCluster label files image geometry layout runs)

include h

namespace Made

lemma slots_eq (cluster : ℕ) :
    (Fat.placesOf (bootOf geometry label) [cluster]).map (Fat.slotOf (diskOf image))
      = slotsAt image (clusterStart geometry cluster) (sectorsPerCluster * 16) := by
  have hper : (bootOf geometry label).sectorsPerCluster = sectorsPerCluster := h.perCluster
  rw [Fat.placesOf, List.flatMap_singleton, List.map_flatMap, slotsAt, ← flatMap_slots, hper]
  refine List.flatMap_congr fun offset _ => ?_
  rw [Fat.slotsOf, List.map_map]
  refine List.map_congr_left fun index _ => ?_
  funext i
  change image (_ * 512 + (32 * index.val + i.val)) = _
  rw [dataSector_eq]
  congr 1
  omega

/-- A directory's slots lie in its cluster. -/
lemma slot_inside {path : Path} {held : List Entry} (hmem : (path, held) ∈ treeOf files) {j i : ℕ}
    (hj : j < sectorsPerCluster * 16) (hi : i < 32) :
    image (clusterStart geometry (layout.clusterOf path) + j * 32 + i)
      = putAll (fun _ => 0) (directoryPieces geometry layout label path held)
        (clusterStart geometry (layout.clusterOf path) + j * 32 + i) := by
  have hlow : 2 ≤ layout.clusterOf path :=
    (h.run_le (h.laid.directory _ _ (h.clusterOf_mem hmem))).1
  refine h.directory hmem (by omega) ?_
  rw [h.clusterStart_add hlow]
  omega

/-- Past the first entries of a directory come those it holds, -/
lemma heldSlot {path : Path} {held : List Entry} (hmem : (path, held) ∈ treeOf files) {j : ℕ}
    {entry : Entry} (hentry : held[j]? = some entry) :
    (fun i : Fin 32 => image (clusterStart geometry (layout.clusterOf path)
      + (fixedEntries path + j) * 32 + i)) = slotOfBytes (entryBytes layout entry) := by
  have hroom := h.room path held hmem
  rw [sectorBytes, directoryEntryBytes] at hroom
  have hj := (List.getElem?_eq_some_iff.mp hentry).1
  funext i
  rw [h.slot_inside hmem (by omega) i.isLt, directoryPieces_eq, putAll_append]
  refine putAll_strided ?_ (h.length_heldItem hmem)
    (mem_heldItems.mpr ⟨j, entry, hentry, rfl⟩) i.isLt
  rw [keys_heldItems]
  exact List.nodup_range'

/-- and then nothing. -/
lemma emptySlot {path : Path} {held : List Entry} (hmem : (path, held) ∈ treeOf files) {j i : ℕ}
    (hlow : fixedEntries path + held.length ≤ j) (hhigh : j < sectorsPerCluster * 16)
    (hi : i < 32) :
    image (clusterStart geometry (layout.clusterOf path) + j * 32 + i) = 0 := by
  have hnone : j ∉ (heldItems layout path held).map Prod.fst := by
    rw [keys_heldItems, List.mem_range'_1]
    omega
  rw [h.slot_inside hmem hhigh hi, directoryPieces_eq, putAll_append,
    putAll_strided_of_notMem (h.length_heldItem hmem) hnone hi]
  exact putAll_outside (fixedPieces_within _ _ _ _) (.inr (by omega))

/-! ### The root directory -/

lemma clusterOf_root : layout.clusterOf [] = 2 := by
  rw [Layout.clusterOf, SortedMap.lookup_eq_some h.laid.paths h.laid.root]
  rfl

/-- The label is not taken for a file. -/
lemma labelSlot {held : List Entry} (hmem : ([], held) ∈ treeOf files)
    (hlabel : label.head? ≠ some 0) :
    Fat.decodeSlot (fun i : Fin 32 => image (clusterStart geometry 2 + 0 * 32 + i)) = .skip := by
  have hbyte : ∀ i < 32, image (clusterStart geometry 2 + 0 * 32 + i)
      = putBytes (putBytes (fun _ => 0) (clusterStart geometry 2) (paddedLabel label))
        (clusterStart geometry 2 + 11) [attrVolumeLabel]
        (clusterStart geometry 2 + 0 * 32 + i) := by
    intro i hi
    have hnone : 0 ∉ (heldItems layout [] held).map Prod.fst := by
      rw [keys_heldItems, List.mem_range'_1]
      simp [fixedEntries]
    have hinside := @slot_inside _ _ _ _ _ _ _ _ h _ _ hmem 0 i (by have := h.sectors; omega) hi
    rw [directoryPieces_eq, putAll_append,
      putAll_strided_of_notMem (h.length_heldItem hmem) hnone hi, h.clusterOf_root] at hinside
    exact hinside
  have h11 : image (clusterStart geometry 2 + 0 * 32 + 11) = attrVolumeLabel := by
    rw [hbyte 11 (by decide), Nat.zero_mul, Nat.add_zero, putBytes_single]
  have h0 : image (clusterStart geometry 2 + 0 * 32 + 0) ≠ 0 := by
    rw [hbyte 0 (by decide), Nat.zero_mul, Nat.add_zero, putBytes_of_outside (.inl (by omega)),
      ← Nat.add_zero (clusterStart geometry 2), putBytes_add (by rw [length_paddedLabel]; decide)]
    cases label with
    | nil => decide
    | cons byte rest =>
        intro hzero
        exact hlabel (congrArg some hzero)
  exact decodeSlot_label h0 h11

/-- The slots of the root in use are those of what it holds. -/
theorem rootEntries_eq {held : List Entry} (hmem : ([], held) ∈ treeOf files)
    (hlabel : label.head? ≠ some 0) (hnumbers : geometry.clusters + 2 < 2 ^ 27)
    (hdecode : ∀ entry ∈ held, ∃ found,
      Fat.decodeSlot (slotOfBytes (entryBytes layout entry)) = .entry found) :
    Fat.rootEntries (bootOf geometry label) (diskOf image)
      = held.map fun entry => slotOfBytes (entryBytes layout entry) := by
  have hroot : (bootOf geometry label).rootCluster = 2 := by
    change geometry.rootCluster = 2
    rw [h.shape]
    rfl
  have hchain := h.isChain_run (h.laid.directory _ _ h.laid.root) hnumbers
  have hroom := h.room [] held hmem
  rw [sectorBytes, directoryEntryBytes] at hroom
  have hfixed : fixedEntries [] = 1 := rfl
  obtain ⟨rest, hrest⟩ : ∃ rest, sectorsPerCluster * 16 = 1 + held.length + rest :=
    ⟨_, (Nat.add_sub_of_le (by omega)).symm⟩
  have hslots : Fat.rootSlots (bootOf geometry label) (diskOf image)
      = slotsAt image (clusterStart geometry 2) (1 + held.length + rest) := by
    rw [Fat.rootSlots, hroot, ← hrest, ← h.slots_eq]
    exact congrArg (fun clusters => (Fat.placesOf _ clusters).map _) hchain.chainOf_eq
  have hheld : (List.range held.length).map (fun j => fun i : Fin 32 =>
      image (clusterStart geometry 2 + (1 + j) * 32 + i))
        = held.map fun entry => slotOfBytes (entryBytes layout entry) := by
    refine List.ext_getElem (by simp) fun j hj hj' => ?_
    rw [List.length_map] at hj'
    have hslot := h.heldSlot hmem (List.getElem?_eq_getElem hj')
    rw [h.clusterOf_root, hfixed] at hslot
    rw [List.getElem_map, List.getElem_map, List.getElem_range, hslot]
  have hparts : slotsAt image (clusterStart geometry 2) (1 + held.length + rest)
      = [fun i : Fin 32 => image (clusterStart geometry 2 + 0 * 32 + i)]
        ++ (held.map fun entry => slotOfBytes (entryBytes layout entry))
        ++ (List.range rest).map fun j => fun i : Fin 32 =>
          image (clusterStart geometry 2 + (1 + held.length + j) * 32 + i) := by
    rw [← hheld, slotsAt, List.range_add, List.range_add, List.map_append, List.map_append,
      List.map_map, List.map_map]
    rfl
  have hentries : ∀ x ∈ held.map fun entry => slotOfBytes (entryBytes layout entry),
      ∃ entry, Fat.decodeSlot x = .entry entry := by
    intro x hx
    obtain ⟨entry, hentry, rfl⟩ := List.mem_map.mp hx
    exact hdecode entry hentry
  have hempty : ∀ x ∈ (List.range rest).map fun j => fun i : Fin 32 =>
      image (clusterStart geometry 2 + (1 + held.length + j) * 32 + i), x 0 = 0 := by
    intro x hx
    obtain ⟨j, hj, rfl⟩ := List.mem_map.mp hx
    rw [List.mem_range] at hj
    have hzero := @emptySlot _ _ _ _ _ _ _ _ h _ _ hmem (1 + held.length + j) 0
      (by rw [hfixed]; omega) (by omega) (by decide)
    rwa [h.clusterOf_root] at hzero
  rw [Fat.rootEntries, hslots, hparts, List.append_assoc, List.singleton_append, Fat.entriesOf,
    h.labelSlot hmem hlabel]
  dsimp only
  rw [Fat.entriesOf_append, entriesOf_self hentries, Fat.entriesOf_zero hempty, List.append_nil]
  intro x hx
  obtain ⟨entry, hentry⟩ := hentries x hx
  rw [hentry]
  simp

/-! ### The files -/

lemma clusterData_eq (cluster : ℕ) :
    Fat.clusterData (bootOf geometry label) (diskOf image) cluster
      = getBytes image (clusterStart geometry cluster) (sectorsPerCluster * 512) := by
  have hper : (bootOf geometry label).sectorsPerCluster = sectorsPerCluster := h.perCluster
  rw [Fat.clusterData, hper, ← sectorsData_eq]
  refine List.flatMap_congr fun offset _ => congrArg List.ofFn (funext fun i => ?_)
  rw [diskOf, dataSector_eq]

lemma chainData_eq {first : ℕ} (hfirst : 2 ≤ first) (count : ℕ) :
    Fat.chainData (bootOf geometry label) (diskOf image) (List.range' first count)
      = getBytes image (clusterStart geometry first) (count * (512 * sectorsPerCluster)) := by
  induction count generalizing first with
  | zero => rw [Nat.zero_mul]; rfl
  | succ count ih =>
      rw [List.range'_succ, Fat.chainData_cons, h.clusterData_eq, ih (by omega),
        h.clusterStart_add hfirst, Nat.one_mul, Nat.add_one_mul count, Nat.add_comm (count * _),
        getBytes_add, Nat.mul_comm 512]

/-- A file's entry says where its clusters are. -/
lemma whereFileWent_eq (hnames : (files.map File.name).Nodup) {file : File} {first : ℕ}
    (hmem : (file, first) ∈ layout.placed) : layout.whereFileWent file.name = first := by
  have hpairs : SortedMap.Keyed (layout.placed.map fun placed => (placed.1.name, placed.2)) := by
    rw [SortedMap.Keyed, List.map_map]
    have hcomp : (Prod.fst ∘ fun placed : File × ℕ => (placed.1.name, placed.2))
        = File.name ∘ Prod.fst :=
      rfl
    rw [hcomp, ← List.map_map, h.placed]
    exact hnames
  have hin : (file.name, first) ∈ layout.placed.foldl (fun went placed =>
      SortedMap.insert placed.1.name placed.2 went) [] := by
    have hfold := @SortedMap.mem_foldl_insert _ _ _ _ _ file.name first [] _ hpairs
      (List.mem_map.mpr ⟨_, hmem, rfl⟩)
    rwa [List.foldl_map] at hfold
  have hkeyed : SortedMap.Keyed (layout.placed.foldl (fun went placed =>
      SortedMap.insert placed.1.name placed.2 went) []) := by
    have hfold := @SortedMap.keyed_foldl_insert _ _ _ _ _ [] (layout.placed.map fun placed =>
      (placed.1.name, placed.2)) List.nodup_nil
    rwa [List.foldl_map] at hfold
  rw [Layout.whereFileWent]
  exact congrArg (Option.getD · 0) (SortedMap.lookup_eq_some hkeyed hin)

/-- **A file's clusters are a whole chain, and hold its contents.** -/
theorem file_reads (hnames : (files.map File.name).Nodup)
    (hnumbers : geometry.clusters + 2 < 2 ^ 27) {file : File} (hfile : file ∈ files) :
    Fat.IsFile (bootOf geometry label) (Fat.entryOf (bootOf geometry label) (diskOf image))
      (fileEntry layout file)
      ∧ Fat.fileBytes (bootOf geometry label) (diskOf image) (fileEntry layout file)
        = file.contents := by
  obtain ⟨⟨other, first⟩, hmem, heq⟩ := List.mem_map.mp (h.placed ▸ hfile)
  obtain rfl : other = file := heq
  have hwent := h.whereFileWent_eq hnames hmem
  have hbytes : (bootOf geometry label).clusterBytes = 512 * sectorsPerCluster := by
    rw [← h.perCluster]
    rfl
  rcases h.laid.file other first hmem with ⟨rfl, hempty⟩ | ⟨hrun, hsome⟩
  · refine ⟨⟨fun hne => absurd hwent hne, ?_⟩, ?_⟩
    · change other.contents.length ≤ _
      rw [hempty]
      exact Nat.zero_le _
    · rw [Fat.fileBytes, fileEntry, hempty]
      rfl
  · have hlow := (h.run_le hrun).1
    have hchain := h.isChain_run hrun hnumbers
    have hlength : (Fat.chainOf (bootOf geometry label)
        (Fat.entryOf (bootOf geometry label) (diskOf image))
        first).length = divCeil other.contents.length (512 * sectorsPerCluster) := by
      rw [hchain.chainOf_eq, List.length_range']
      rfl
    have hroom := @le_divCeil_mul other.contents.length (512 * sectorsPerCluster)
      (Nat.mul_pos (by decide) h.sectors)
    refine ⟨⟨fun _ => ?_, ?_⟩, ?_⟩
    · rw [fileEntry, hwent]
      dsimp only
      rw [hchain.chainOf_eq]
      exact hchain
    · rw [fileEntry, hwent, hlength, hbytes]
      exact hroom
    · have hdata := h.chainData_eq hlow (divCeil other.contents.length (512 * sectorsPerCluster))
      rw [Fat.fileBytes, fileEntry, hwent]
      dsimp only at hdata ⊢
      rw [hchain.chainOf_eq, sectorBytes, hdata, take_getBytes _ _ hroom]
      refine getBytes_eq fun i hi => ?_
      rw [h.file hmem (by dsimp only at hlow; omega) (Nat.le_add_right _ _), putBytes_add hi]
      rw [h.clusterStart_add hlow]
      exact Nat.add_lt_add_left (lt_of_lt_of_le hi hroom) _

/-! ### The entries -/

/-- Where the first cluster of an entry is: nowhere, or at the start of a run of its own. -/
lemma firstOf_known (hnames : (files.map File.name).Nodup) {entry : Entry}
    (hknown : entry.Known files ((treeOf files).map Prod.fst)) :
    layout.firstOf entry = 0 ∨ layout.firstOf entry ∈ layout.firsts := by
  cases entry with
  | file file =>
      obtain ⟨⟨other, first⟩, hmem, heq⟩ := List.mem_map.mp (h.placed ▸ hknown)
      obtain rfl : other = file := heq
      rw [Layout.firstOf, h.whereFileWent_eq hnames hmem]
      by_cases hzero : first = 0
      · exact .inl hzero
      · refine .inr (List.mem_append_right _ (List.mem_filter.mpr ⟨List.mem_map_of_mem hmem, ?_⟩))
        simpa using hzero
  | directory path =>
      obtain ⟨held, hheld⟩ := SortedMap.exists_of_mem_keys hknown
      exact .inr (List.mem_append_left _ (List.mem_map_of_mem (h.clusterOf_mem hheld)))

/-- What begins a run is a cluster of the volume. -/
lemma firsts_le {first : ℕ} (hmem : first ∈ layout.firsts) : ∃ count, (first, count) ∈ runs := by
  rcases List.mem_append.mp hmem with hmem | hmem
  · obtain ⟨⟨path, cluster⟩, hpath, rfl⟩ := List.mem_map.mp hmem
    exact ⟨1, h.laid.directory path cluster hpath⟩
  · obtain ⟨hmem, hne⟩ := List.mem_filter.mp hmem
    obtain ⟨⟨file, cluster⟩, hfile, rfl⟩ := List.mem_map.mp hmem
    rcases h.laid.file file cluster hfile with ⟨hzero, -⟩ | ⟨hrun, -⟩
    · simp [hzero] at hne
    · exact ⟨_, hrun⟩

/-- Every entry of every directory is in use, and says where its clusters begin. -/
lemma decode_entry (hnames : (files.map File.name).Nodup)
    (hsizes : ∀ file ∈ files, file.contents.length < 2 ^ 32)
    (hnumbers : geometry.clusters + 2 < 2 ^ 27) {path : Path} {held : List Entry}
    (hmem : (path, held) ∈ treeOf files) {entry : Entry} (hentry : entry ∈ held) :
    ∃ found, Fat.decodeSlot (slotOfBytes (entryBytes layout entry)) = .entry found
      ∧ found.firstCluster = layout.firstOf entry
      ∧ (Fat.endsInOnlyDot entry.name = false → found = listed layout entry) := by
  have hfits := fitting (h.named path held hmem entry hentry)
  have hknown := treeOf_known files path held hmem entry hentry
  have hfirst : layout.firstOf entry < 2 ^ 32 := by
    rcases h.firstOf_known hnames hknown with hzero | hsome
    · omega
    · obtain ⟨count, hrun⟩ := h.firsts_le hsome
      have hpos := (h.laid.pos _ hrun).1
      have hhigh := (h.run_le hrun).2
      dsimp only at hpos hhigh
      omega
  cases entry with
  | file file =>
      refine ⟨_, hfits.decodeSlot_slotBytes (.inl rfl) hfirst (hsizes file hknown), rfl,
        fun hdot => ?_⟩
      rw [hfits.slotName_slotBytes hdot]
      rfl
  | directory child =>
      refine ⟨_, hfits.decodeSlot_slotBytes (.inr rfl) hfirst (by decide), rfl, fun hdot => ?_⟩
      rw [hfits.slotName_slotBytes hdot]
      rfl

/-! ### Looking a name up -/

lemma find_root {held : List Entry} (hroot : RootHolds files (treeOf files) held)
    (hnames : (files.map File.name).Nodup)
    (hdots : ∀ file ∈ files, ∀ part ∈ file.name.splitOn slash, Fat.endsInOnlyDot part = false)
    (hlabel : label.head? ≠ some 0)
    (hsizes : ∀ file ∈ files, file.contents.length < 2 ^ 32)
    (hnumbers : geometry.clusters + 2 < 2 ^ 27) (name : List UInt8) (left : ℕ) :
    Eff.Returns (Fat.find (bootOf geometry label) name) ⟨diskOf image, left⟩
      ((held.map (listed layout)).find? (·.isNamed name)) := by
  have hdecode : ∀ entry ∈ held, Fat.decodeSlot (slotOfBytes (entryBytes layout entry))
      = .entry (listed layout entry) := by
    intro entry hentry
    obtain ⟨found, hfound, -, heq⟩ := h.decode_entry hnames hsizes hnumbers hroot.root hentry
    obtain ⟨file, hfile, hname⟩ := hroot.name hentry
    obtain ⟨rest, hsplit⟩ := splitOn_first file.name
    rw [hfound, heq (hname ▸ hdots file hfile _ (hsplit ▸ List.mem_cons_self))]
  have hentries := h.rootEntries_eq hroot.root hlabel hnumbers
    fun entry hentry => ⟨_, hdecode entry hentry⟩
  have hlisted : (Fat.rootEntries (bootOf geometry label) (diskOf image)).map Fat.slotEntry
      = held.map (listed layout) := by
    rw [hentries, List.map_map]
    exact List.map_congr_left fun entry hentry => (Fat.eq_slotEntry (hdecode entry hentry)).symm
  rw [← hlisted]
  refine @Fat.find_returns _ ⟨diskOf image, left⟩ (List.range' 2 1) ?_ name
  have hrootCluster : (bootOf geometry label).rootCluster = 2 := by
    change geometry.rootCluster = 2
    rw [h.shape]
    rfl
  rw [hrootCluster]
  exact h.isChain_run (h.laid.directory _ _ h.laid.root) hnumbers

/-- A file of the root is found under its name, -/
lemma find_file {held : List Entry} (hroot : RootHolds files (treeOf files) held)
    (hnames : (files.map File.name).Nodup)
    (hapart : ∀ file ∈ files, ∀ other ∈ files, ¬file.name ++ [slash] <+: other.name) {file : File}
    (hfile : file ∈ files) (hslash : slash ∉ file.name) :
    (held.map (listed layout)).find? (·.isNamed file.name) = some (fileEntry layout file) := by
  have hnamed : ∀ entry ∈ held, (listed layout entry).isNamed file.name = true →
      entry = .file file := by
    intro entry hentry hin
    have hfits := fitting (h.named [] held hroot.root entry hentry)
    have hupper := (fitting (h.names file hfile file.name
      (by rw [List.splitOn_eq_singleton hslash]; exact List.mem_singleton.mpr rfl))).upper
    have hname := (hfits.isNamed_iff (listed_name layout entry) file.name).mp hin
    rw [hupper] at hname
    cases entry with
    | file other =>
        obtain ⟨hother, hclean⟩ := (hroot.file other).mp hentry
        rw [Entry.name, lastOf_of_notMem hclean] at hname
        rw [List.inj_on_of_nodup_map hnames hother hfile hname]
    | directory path =>
        obtain ⟨hmem, hne, hclean⟩ := (hroot.directory path).mp hentry
        obtain ⟨other, hother, hbelow, hfirst⟩ := (hroot.tops path hne hclean).mp hmem
        rw [Entry.name, lastOf_of_notMem hclean] at hname
        obtain ⟨rest, hrest⟩ := firstOf_append hbelow
        refine absurd ⟨rest, ?_⟩ (hapart file hfile other hother)
        rw [hrest, hfirst, hname, List.append_assoc, List.singleton_append]
  have hin : (listed layout (.file file)).isNamed file.name = true := by
    have hfits := fitting (h.names file hfile file.name
      (by rw [List.splitOn_eq_singleton hslash]; exact List.mem_singleton.mpr rfl))
    refine (hfits.isNamed_iff ?_ file.name).mpr hfits.upper.symm
    rw [listed_name, Entry.name, lastOf_of_notMem hslash]
  rw [List.find?_map]
  rcases hfind : held.find? ((·.isNamed file.name) ∘ listed layout) with _ | entry
  · exact absurd hin (List.find?_eq_none.mp hfind _ ((hroot.file file).mpr ⟨hfile, hslash⟩))
  · have hnamed' := List.find?_some hfind
    have hentry := hnamed entry (List.mem_of_find?_eq_some hfind) hnamed'
    rw [hfind, hentry]
    rfl

/-- and no name is found that the root does not have. -/
lemma find_absent {held : List Entry} (hroot : RootHolds files (treeOf files) held)
    {name : List UInt8} (habsent : ∀ file ∈ files, Fat.upper name ≠ firstOf file.name) :
    (held.map (listed layout)).find? (·.isNamed name) = none := by
  rw [List.find?_map, Option.map_eq_none_iff]
  refine List.find?_eq_none.mpr fun entry hentry hin => ?_
  have hfits := fitting (h.named [] held hroot.root entry hentry)
  obtain ⟨file, hfile, hname⟩ := hroot.name hentry
  refine habsent file hfile ?_
  rw [← (hfits.isNamed_iff (listed_name layout entry) name).mp hin, hname]

end Made

end Made

/-! ### The image -/

/-- What is asked of the formatter: sizes that fit, and files that can all be there. -/
structure Asked (totalSectors sectorsPerCluster : ℕ) (label : List UInt8)
    (files : List File) : Prop where
  low : 34 ≤ totalSectors
  high : totalSectors < 2 ^ 26
  sectorsPerCluster : Fat.isPowerOfTwo sectorsPerCluster = true
  label : label.head? ≠ some 0
  distinct : (files.map File.name).Nodup
  /-- No path is also that of a directory. -/
  apart : ∀ file ∈ files, ∀ other ∈ files, ¬file.name ++ [slash] <+: other.name
  dots : ∀ file ∈ files, ∀ part ∈ file.name.splitOn slash, Fat.endsInOnlyDot part = false
  sizes : ∀ file ∈ files, file.contents.length < 2 ^ 32

/-- The clusters of a volume belong to its directories and its files. -/
structure Chained (boot : Fat.BootSector) (disk : Fat.Disk) (files : List File)
    (layout : Layout) : Prop where
  /-- Each has a chain from its first cluster to an end, in range, -/
  whole : ∀ first ∈ layout.firsts, Fat.IsChain boot (Fat.entryOf boot disk) first
    (Fat.chainOf boot (Fat.entryOf boot disk) first)
  /-- no two of them meet, -/
  apart : layout.firsts.Pairwise fun first first' =>
    (Fat.chainOf boot (Fat.entryOf boot disk) first).Disjoint
      (Fat.chainOf boot (Fat.entryOf boot disk) first')
  /-- and every other cluster is free. -/
  covers : ∀ cluster, boot.hasCluster cluster = true → (Fat.entryOf boot disk cluster ≠ .free
    ↔ ∃ first ∈ layout.firsts, cluster ∈ Fat.chainOf boot (Fat.entryOf boot disk) first)
  root : layout.clusterOf [] = boot.rootCluster
  /-- The entries of every directory say where the chains begin. -/
  entries : ∀ path held, (path, held) ∈ treeOf files → layout.clusterOf path ∈ layout.firsts
    ∧ ∀ j entry, held[j]? = some entry → ∃ slot found,
      ((Fat.placesOf boot [layout.clusterOf path]).map (Fat.slotOf disk))[fixedEntries path + j]?
      = some slot
        ∧ Fat.decodeSlot slot = .entry found ∧ found.firstCluster = layout.firstOf entry
        ∧ (found.firstCluster = 0 ∨ found.firstCluster ∈ layout.firsts)

/-- The reader finds in a volume what the formatter was asked to put there. -/
structure Readable (geometry : Geometry) (files : List File) (boot : Fat.BootSector)
    (dev : Fat.Device) :
    Prop where
  shape : boot.bytesPerSector = sectorBytes ∧ boot.totalSectors = geometry.totalSectors
    ∧ boot.sectorsPerCluster = geometry.sectorsPerCluster
    ∧ boot.reservedSectors = geometry.reservedSectors ∧ boot.fatCount = geometry.fatCount
    ∧ boot.sectorsPerFat = geometry.sectorsPerFat ∧ boot.rootCluster = geometry.rootCluster
    ∧ boot.clusters = geometry.clusters
  found : ∀ file ∈ files, slash ∉ file.name →
    ∃ entry, Eff.Returns (Fat.find boot file.name) dev (some entry)
    ∧ entry.size = file.contents.length
    ∧ ∀ room, entry.size ≤ room → Eff.Returns (Fat.readFile boot entry room) dev file.contents
  absent : ∀ name, (∀ file ∈ files, Fat.upper name ≠ firstOf file.name) →
    Eff.Returns (Fat.find boot name) dev none
  tables : ∀ sector < boot.sectorsPerFat, dev.disk (boot.firstFatSector + sector)
    = dev.disk (boot.firstFatSector + boot.sectorsPerFat + sector)
  chains : ∃ layout, Chained boot dev.disk files layout
  free : Fat.wordAt (dev.disk boot.fsInfoSector) 488
    = (List.range' 2 boot.clusters).countP fun cluster =>
      Fat.entryOf boot dev.disk cluster = .free

section Made

variable {totalSectors sectorsPerCluster : ℕ} {label : List UInt8} {files : List File}
  {image : ByteMemory} {geometry : Geometry} {layout : Layout} {runs : List Run}
  (h : Made totalSectors sectorsPerCluster label files image geometry layout runs)

include h

namespace Made

/-- The chain from the first cluster of a run is the run. -/
lemma chainOf_run {run : Run} (hrun : run ∈ runs) (hnumbers : geometry.clusters + 2 < 2 ^ 27)
    (cluster : ℕ) :
    cluster ∈ Fat.chainOf (bootOf geometry label)
      (Fat.entryOf (bootOf geometry label) (diskOf image)) run.1
      ↔ run.Has cluster := by
  rw [(h.isChain_run hrun hnumbers).chainOf_eq, List.mem_range'_1]
  rfl

lemma chained (hnames : (files.map File.name).Nodup)
    (hsizes : ∀ file ∈ files, file.contents.length < 2 ^ 32)
    (hnumbers : geometry.clusters + 2 < 2 ^ 27) :
    Chained (bootOf geometry label) (diskOf image) files layout := by
  refine ⟨fun first hfirst => ?_, ?_, fun cluster hcluster => ?_, ?_,
    fun path held hmem => ⟨?_, ?_⟩⟩
  · obtain ⟨count, hrun⟩ := h.firsts_le hfirst
    have hchain := h.isChain_run hrun hnumbers
    have hsame := hchain.chainOf_eq
    dsimp only at hchain hsame
    rw [hsame]
    exact hchain
  · refine h.laid.apart.imp_of_mem fun {first first'} hfirst hfirst' hne => ?_
    obtain ⟨count, hrun⟩ := h.firsts_le hfirst
    obtain ⟨count', hrun'⟩ := h.firsts_le hfirst'
    intro cluster hin hin'
    have hsame := h.laid.unique hrun hrun' ((h.chainOf_run hrun hnumbers cluster).mp hin)
      ((h.chainOf_run hrun' hnumbers cluster).mp hin')
    exact hne (Prod.mk.inj hsame).1
  · rw [Fat.hasCluster_iff] at hcluster
    constructor
    · intro hused
      have hlt : cluster < layout.nextFree :=
        Nat.lt_of_not_le fun hle => hused (h.entryOf_free hle hcluster.2)
      obtain ⟨run, hrun, hin⟩ := h.laid.covers cluster hcluster.1 hlt
      exact ⟨run.1, h.laid.owned run hrun, (h.chainOf_run hrun hnumbers cluster).mpr hin⟩
    · rintro ⟨first, hfirst, hin⟩
      obtain ⟨count, hrun⟩ := h.firsts_le hfirst
      have hlast := ((h.chainOf_run hrun hnumbers cluster).mp hin).2
      exact h.entryOf_used hcluster.1 (lt_of_lt_of_le hlast (h.laid.pos _ hrun).2.2) hnumbers
  · rw [h.clusterOf_root]
    change 2 = geometry.rootCluster
    rw [h.shape]
    rfl
  · exact List.mem_append_left _ (List.mem_map_of_mem (h.clusterOf_mem hmem))
  · intro j entry hentry
    have hin := List.mem_of_getElem? hentry
    obtain ⟨found, hfound, hfirst, -⟩ := h.decode_entry hnames hsizes hnumbers hmem hin
    refine ⟨_, found, ?_, hfound, hfirst, ?_⟩
    · have hroom := h.room path held hmem
      have hj := (List.getElem?_eq_some_iff.mp hentry).1
      rw [sectorBytes, directoryEntryBytes] at hroom
      rw [h.slots_eq, slotsAt, List.getElem?_map, List.getElem?_range (by omega), Option.map_some,
        h.heldSlot hmem hentry]
    · rw [hfirst]
      exact h.firstOf_known hnames (treeOf_known files path held hmem entry hin)

/-- The two tables, sector by sector. -/
lemma tables_sector {sector : ℕ} (hsector : sector < geometry.sectorsPerFat) :
    diskOf image (32 + sector) = diskOf image (32 + geometry.sectorsPerFat + sector) := by
  funext i
  have hsame := h.tables_same (show sector * 512 + i < geometry.sectorsPerFat * 512 by omega)
  have hfirst : (32 + sector) * 512 + i.val = tableStart geometry 0 + (sector * 512 + i) := by
    rw [tableStart, Nat.zero_mul, Nat.add_zero, Nat.add_mul, Nat.add_assoc]
  have hsecond : (32 + geometry.sectorsPerFat + sector) * 512 + i.val
      = tableStart geometry 1 + (sector * 512 + i) := by
    rw [tableStart, Nat.one_mul, Nat.add_mul _ sector, Nat.add_assoc]
  rw [diskOf, diskOf, hfirst, hsecond, hsame]

end Made

end Made

/-- **The reader finds in an image what the formatter was asked to put there.** Where the
formatter answers one, it is mounted with the geometry it answered; every file of the root is
found and read back, and no other name; the tables agree, and their chains are whole, apart and
counted. -/
theorem format_readable {totalSectors sectorsPerCluster : ℕ} {label : List UInt8}
    {files : List File} {image : ByteMemory} {geometry : Geometry}
    (hasked : Asked totalSectors sectorsPerCluster label files)
    (h : format totalSectors sectorsPerCluster label files = .ok (image, geometry)) (left : ℕ) :
    ∃ boot, Eff.Returns Fat.mount ⟨diskOf image, left⟩ boot
      ∧ Readable geometry files boot ⟨diskOf image, left⟩ := by
  have hpositive : 0 < sectorsPerCluster := by
    refine Nat.pos_of_ne_zero ?_
    rintro rfl
    exact absurd hasked.sectorsPerCluster (by decide)
  obtain ⟨layout, runs, hmade⟩ := format_made hpositive hasked.distinct hasked.sizes h
  obtain ⟨held, hroot⟩ := treeOf_rootHolds (hasked.distinct.of_map _)
    fun file hfile => empty_notMem_parts (hmade.names file hfile)
  have hnumbers : geometry.clusters + 2 < 2 ^ 27 := by
    have hle : geometry.clusters ≤ totalSectors := by
      rw [hmade.shape]
      exact (Nat.div_le_self _ _).trans ((Nat.sub_le _ _).trans (Nat.sub_le _ _))
    have hhigh := hasked.high
    omega
  have hparse := hmade.parse_boot hasked.high hasked.sectorsPerCluster
  have hboot := BootSector.parse_wellFormed hparse
  have hfind := hmade.find_root hroot hasked.distinct hasked.dots hasked.label
    hasked.sizes hnumbers
  refine ⟨bootOf geometry label, ?_, ⟨rfl, rfl, rfl, rfl, rfl, rfl, rfl, rfl⟩, ?_, ?_, ?_,
    ⟨layout, hmade.chained hasked.distinct hasked.sizes hnumbers⟩, hmade.fsInfo_counts hnumbers⟩
  · refine (Fat.readSector_returns 0).bind ?_
    dsimp only
    rw [hparse]
    exact .pure
  · intro file hfile hslash
    obtain ⟨hisFile, hbytes⟩ := hmade.file_reads hasked.distinct hnumbers hfile
    refine ⟨fileEntry layout file, ?_, rfl, fun room hroom => ?_⟩
    · have hfound := hfind file.name left
      rwa [hmade.find_file hroot hasked.distinct hasked.apart hfile hslash] at hfound
    · have hread := @Fat.readFile_returns _ ⟨diskOf image, left⟩ hboot _ room hisFile hroom
      rwa [hbytes] at hread
  · intro name habsent
    have hfound := hfind name left
    rwa [hmade.find_absent hroot habsent] at hfound
  · intro sector hsector
    have hreserved : (bootOf geometry label).firstFatSector = 32 := by
      change geometry.reservedSectors = 32
      rw [hmade.shape]
      rfl
    rw [hreserved]
    exact hmade.tables_sector hsector

/-- `HELLO.TXT`, and `EFI/BOOT` under a directory of its own. -/
def helloFiles : List File :=
  [⟨[0x48, 0x45, 0x4C, 0x4C, 0x4F, 0x2E, 0x54, 0x58, 0x54], [0x68, 0x69]⟩,
    ⟨[0x45, 0x46, 0x49, 0x2F, 0x42, 0x4F, 0x4F, 0x54], [0x4D, 0x5A]⟩]

theorem format_readable_helloFiles : ∃ image geometry,
    format 131072 1 [0x48] helloFiles = .ok (image, geometry)
      ∧ ∃ boot, Eff.Returns Fat.mount ⟨diskOf image, 0⟩ boot
        ∧ Readable geometry helloFiles boot ⟨diskOf image, 0⟩ := by
  have hasked : Asked 131072 1 [0x48] helloFiles :=
    ⟨by decide, by decide, by decide, by decide, by decide, by decide, by decide, by decide⟩
  have hok : (format 131072 1 [0x48] helloFiles).isOk = true := by decide +kernel
  rcases hformat : format 131072 1 [0x48] helloFiles with err | ⟨image, geometry⟩
  · rw [hformat] at hok
    cases hok
  · exact ⟨image, geometry, rfl, format_readable hasked hformat 0⟩

end Harlan.Fat32
