import Mathlib.Tactic
import Harlan.Hal
import Harlan.Lib.Eff
import Harlan.Lib.Words

/-!
Laying out a disk image with a partition table (`tools/xtask/src/gpt.rs`): a protective MBR, a
GPT at either end, and the partitions between them.

The image is its length and a byte at every position; a copy that would leave it stops the build.
`IsGpt` is what the image is to be: said of its bytes alone, with the fields a reader of the
table looks at.

* `placeAll_spec`: where the partitions go.
* `fill_spec`: what the finished image holds, one region after the other.
* `build_isGpt`: an image that is built is a valid GPT with the partitions in it.
-/

namespace Harlan.Gpt

/-- The bytes of one sector. -/
def sector : ℕ := 512
/-- Where the first partition starts, and what every partition is aligned to. -/
def firstUsable : ℕ := 2048
/-- The entries that the table has room for. -/
def entryCount : ℕ := 128
/-- The bytes of one entry. -/
def entryBytes : ℕ := 128
/-- The sectors of the table. -/
def entrySectors : ℕ := entryCount * entryBytes / sector

/-- `EFI PART`. -/
def signature : List UInt8 := [0x45, 0x46, 0x49, 0x20, 0x50, 0x41, 0x52, 0x54]
/-- The revision 1.0 of the header. -/
def revision : ℕ := 0x00010000
/-- The bytes of the header that its checksum covers. -/
def headerBytes : ℕ := 92

/-- `HARLAN-DISK-GUID`. -/
def diskGuid : List UInt8 :=
  [0x48, 0x41, 0x52, 0x4C, 0x41, 0x4E, 0x2D, 0x44, 0x49, 0x53, 0x4B, 0x2D, 0x47, 0x55, 0x49, 0x44]

/-- What goes in one partition. -/
structure Partition where
  name : List Char
  typeGuid : List UInt8
  guid : List UInt8
  /-- The volume itself, already laid out. -/
  contents : List UInt8
  typeGuid_length : typeGuid.length = 16
  guid_length : guid.length = 16

/-- Why no image is built. -/
inductive BuildError where
  | noPartitions
  | tooMany (count : ℕ)
  | notWholeSectors (name : List Char) (bytes : ℕ)
  | noSectors (name : List Char)
  /-- The image is larger than a `Vec` can be. -/
  | capacityOverflow
  /-- A copy outside the image. -/
  | outOfBounds

/-! ### Checksums and headers -/

/-- One bit of the checksum. -/
def crcBit (crc : UInt32) : UInt32 :=
  if crc &&& 1 ≠ 0 then (crc >>> 1) ^^^ 0xEDB88320 else crc >>> 1

/-- CRC-32 as GPT uses it: reflected, starting and ending inverted. -/
def crc32 (bytes : List UInt8) : UInt32 :=
  ~~~bytes.foldl (fun crc byte => crcBit^[8] (crc ^^^ byte.toUInt32)) 0xFFFFFFFF

example : crc32 [0x31, 0x32, 0x33, 0x34, 0x35, 0x36, 0x37, 0x38, 0x39] = 0xCBF43926 := by
  decide +kernel

/-- The fields of a header with a given checksum of its own, one after the other. -/
def headerFields (crc thisLba otherLba entriesLba firstUsable lastUsable entriesCrc : ℕ) :
    List (List UInt8) :=
  [signature, leBytes 4 revision, leBytes 4 headerBytes, leBytes 4 crc, leBytes 4 0,
    leBytes 8 thisLba, leBytes 8 otherLba, leBytes 8 firstUsable, leBytes 8 lastUsable, diskGuid,
    leBytes 8 entriesLba, leBytes 4 entryCount, leBytes 4 entryBytes, leBytes 4 entriesCrc]

/-- The sector a header is in. -/
def headerWith (crc thisLba otherLba entriesLba firstUsable lastUsable entriesCrc : ℕ) :
    List UInt8 :=
  (headerFields crc thisLba otherLba entriesLba firstUsable lastUsable entriesCrc).flatten
    ++ List.replicate (sector - headerBytes) 0

/-- One GPT header, checksummed. -/
def header (thisLba otherLba entriesLba firstUsable lastUsable entriesCrc : ℕ) : List UInt8 :=
  let blank := headerWith 0 thisLba otherLba entriesLba firstUsable lastUsable entriesCrc
  headerWith (crc32 (blank.take headerBytes)).toNat thisLba otherLba entriesLba
    firstUsable lastUsable
    entriesCrc

/-! ### Entries -/

/-- `str::encode_utf16`. -/
def encodeUtf16 (name : List Char) : List ℕ :=
  name.flatMap fun c =>
    if c.toNat < 0x10000 then [c.toNat]
    else [0xD800 + (c.toNat - 0x10000) / 0x400, 0xDC00 + (c.toNat - 0x10000) % 0x400]

/-- The name of a partition in its entry: 36 units of room. -/
def nameField (name : List Char) : List UInt8 :=
  let units := ((encodeUtf16 name).take 36).flatMap (leBytes 2)
  units ++ List.replicate (72 - units.length) 0

/-- One entry of the array. -/
def entry (partition : Partition) (placed : ℕ × ℕ) : List UInt8 :=
  partition.typeGuid ++ partition.guid ++ leBytes 8 placed.1 ++ leBytes 8 placed.2 ++ leBytes 8 0
    ++ nameField partition.name

/-- The entry array: those of the partitions, then zeros. -/
def entries (partitions : List (Partition × ℕ × ℕ)) : List UInt8 :=
  let used := partitions.flatMap fun (partition, placed) => entry partition placed
  used ++ List.replicate (entryCount * entryBytes - used.length) 0

/-! ### The image -/

/-- A disk image. -/
structure Image where
  size : ℕ
  bytes : ByteMemory

/-- Building an image, which may be refused. -/
abbrev ImageM := Eff Image BuildError

/-- `copy_from_slice` into a part of the image. -/
def copyTo (pos : ℕ) (bytes : List UInt8) : ImageM Unit := fun image =>
  if pos + bytes.length ≤ image.size then
    (.ok (), { image with bytes := putBytes image.bytes pos bytes })
  else (.error .outOfBounds, image)

/-- Where each partition goes, and where there is room after the last. -/
def placeAll : List Partition → ℕ → Except BuildError (List (ℕ × ℕ) × ℕ)
  | [], next => .ok ([], next)
  | partition :: rest, next =>
      if partition.contents.length % sector ≠ 0 then
        .error (.notWholeSectors partition.name partition.contents.length)
      else
        let sectors := partition.contents.length / sector
        if sectors = 0 then .error (.noSectors partition.name)
        else
          match placeAll rest (divCeil (next + sectors) firstUsable * firstUsable) with
          | .error err => .error err
          | .ok (placed, last) => .ok ((next, next + sectors - 1) :: placed, last)

/-- The protective MBR: one entry covering the disk. -/
def protectiveMbr (totalSectors : ℕ) : ImageM Unit := do
  copyTo 446 ([0x00] ++ [0x00, 0x02, 0x00] ++ [0xEE] ++ [0xFF, 0xFF, 0xFF] ++ leBytes 4 1
    ++ leBytes 4 (min (totalSectors - 1) (2 ^ 32 - 1)))
  copyTo 510 [0x55, 0xAA]

/-- Writes everything into the image. -/
def fill (partitions : List (Partition × ℕ × ℕ)) (next lastLba : ℕ) : ImageM Unit := do
  Eff.forEach partitions fun (partition, placed) => copyTo (placed.1 * sector) partition.contents
  let array := entries partitions
  let entriesCrc := (crc32 array).toNat
  copyTo sector (header 1 lastLba 2 firstUsable (next - 1) entriesCrc)
  copyTo (2 * sector) array
  copyTo ((lastLba - entrySectors) * sector) array
  copyTo (lastLba * sector)
    (header lastLba 1 (lastLba - entrySectors) firstUsable (next - 1) entriesCrc)
  protectiveMbr (lastLba + 1)

/-- Builds the whole image: a protective MBR, a GPT, and the partitions. -/
def build (partitions : List Partition) : Except BuildError Image :=
  if partitions = [] then .error .noPartitions
  else if entryCount < partitions.length then .error (.tooMany partitions.length)
  else
    match placeAll partitions firstUsable with
    | .error err => .error err
    | .ok (placed, next) =>
        let lastLba := next + entrySectors
        if 2 ^ 63 ≤ (lastLba + 1) * sector then .error .capacityOverflow
        else
          match fill (partitions.zip placed) next lastLba
            ⟨(lastLba + 1) * sector, fun _ => 0⟩ with
          | (.ok (), image) => .ok image
          | (.error err, _) => .error err

/-! ### What the image is to be -/

/-- A header in a sector, for an array of entries at another. -/
structure IsHeader (image : Image) (lba other array last : ℕ) : Prop where
  signature : getBytes image.bytes (lba * sector) 8 = Gpt.signature
  revision : getWord image.bytes (lba * sector + 8) 4 = Gpt.revision
  size : getWord image.bytes (lba * sector + 12) 4 = headerBytes
  /-- Of the header with the field of the checksum zero. -/
  crc : getWord image.bytes (lba * sector + 16) 4
    = (crc32 (getBytes (putBytes image.bytes (lba * sector + 16) [0, 0, 0, 0]) (lba * sector)
        headerBytes)).toNat
  thisLba : getWord image.bytes (lba * sector + 24) 8 = lba
  otherLba : getWord image.bytes (lba * sector + 32) 8 = other
  firstUsable : getWord image.bytes (lba * sector + 40) 8 = Gpt.firstUsable
  lastUsable : getWord image.bytes (lba * sector + 48) 8 = last
  entriesLba : getWord image.bytes (lba * sector + 72) 8 = array
  entryCount : getWord image.bytes (lba * sector + 80) 4 = Gpt.entryCount
  entryBytes : getWord image.bytes (lba * sector + 84) 4 = Gpt.entryBytes
  entriesCrc : getWord image.bytes (lba * sector + 88) 4
    = (crc32 (getBytes image.bytes (array * sector) (Gpt.entryCount * Gpt.entryBytes))).toNat

/-- Where an entry of the primary array is. -/
def entryAt (i : ℕ) : ℕ := 2 * sector + i * entryBytes

/-- The first sector the entry of a partition names. -/
def firstLba (image : Image) (i : ℕ) : ℕ := getWord image.bytes (entryAt i + 32) 8

/-- The last one. -/
def lastLba (image : Image) (i : ℕ) : ℕ := getWord image.bytes (entryAt i + 40) 8

/-- A disk with two headers, two equal arrays of entries, and the partitions where these say. -/
structure IsGpt (partitions : List Partition) (image : Image)
    (lastSector lastUsable : ℕ) : Prop where
  size : image.size = (lastSector + 1) * sector
  primary : IsHeader image 1 lastSector 2 lastUsable
  backup : IsHeader image lastSector 1 (lastSector - entrySectors) lastUsable
  arrays : getBytes image.bytes (2 * sector) (entryCount * entryBytes)
    = getBytes image.bytes ((lastSector - entrySectors) * sector) (entryCount * entryBytes)
  /-- The tables lie before and after what is usable. -/
  usable : 2 + entrySectors ≤ firstUsable ∧ lastUsable + entrySectors < lastSector
  guids : ∀ i (h : i < partitions.length),
    getBytes image.bytes (entryAt i) 16 = partitions[i].typeGuid
      ∧ getBytes image.bytes (entryAt i + 16) 16 = partitions[i].guid
  range : ∀ i (h : i < partitions.length),
    firstLba image i % 2048 = 0 ∧ firstUsable ≤ firstLba image i ∧ lastLba image i ≤ lastUsable
      ∧ firstLba image i ≤ lastLba image i
      ∧ firstLba image i * sector + partitions[i].contents.length = (lastLba image i + 1) * sector
  contents : ∀ i (h : i < partitions.length),
    getBytes image.bytes (firstLba image i * sector) partitions[i].contents.length
      = partitions[i].contents
  ordered : ∀ i j, i < j → j < partitions.length → lastLba image i < firstLba image j
  unused : ∀ i, partitions.length ≤ i → i < entryCount →
    getBytes image.bytes (entryAt i) entryBytes = List.replicate entryBytes 0

/-! ### Where the partitions go -/

/-- A partition in its place, from `lo` on and before `hi`. -/
structure InPlace (lo hi : ℕ) (item : Partition × ℕ × ℕ) : Prop where
  aligned : item.2.1 % firstUsable = 0
  low : lo ≤ item.2.1
  high : item.2.2 < hi
  nonempty : item.2.1 ≤ item.2.2
  length : item.2.1 * 512 + item.1.contents.length = (item.2.2 + 1) * 512

/-- **The partitions follow one another**, each on a multiple of `firstUsable`. -/
theorem placeAll_spec {partitions : List Partition}
    (h : ∀ partition ∈ partitions, partition.contents.length % sector = 0
      ∧ 0 < partition.contents.length)
    {next : ℕ} (hnext : next % firstUsable = 0) :
    ∃ placed last, placeAll partitions next = .ok (placed, last)
      ∧ placed.length = partitions.length ∧ next ≤ last
      ∧ (∀ item ∈ partitions.zip placed, InPlace next last item)
      ∧ (partitions.zip placed).Pairwise fun item item' => item.2.2 < item'.2.1 := by
  induction partitions generalizing next with
  | nil => exact ⟨[], next, rfl, rfl, le_refl _, nofun, .nil⟩
  | cons partition rest ih =>
      obtain ⟨hwhole, hsome⟩ := h partition (by simp)
      have hsector : sector = 512 := rfl
      have hunit : firstUsable = 2048 := rfl
      obtain ⟨sectors, hdef⟩ : ∃ sectors, sectors = partition.contents.length / sector := ⟨_, rfl⟩
      obtain ⟨next', hafter⟩ : ∃ next',
          next' = divCeil (next + sectors) firstUsable * firstUsable :=
        ⟨_, rfl⟩
      have hlen : sectors * 512 = partition.contents.length := by
        rw [hsector] at hdef hwhole
        omega
      have hnext' : next' % firstUsable = 0 := by rw [hafter, Nat.mul_mod_left]
      have hgap : next + sectors ≤ next' := by
        rw [hafter, divCeil, hunit]
        omega
      obtain ⟨placed, last, hplaced, hlength, hlast, hitems, hordered⟩ :=
        ih (fun other hother => h other (List.mem_cons_of_mem _ hother)) hnext'
      refine ⟨(next, next + sectors - 1) :: placed, last, ?_, by simp [hlength], ?_, ?_, ?_⟩
      · rw [placeAll, if_neg (by simp [hwhole])]
        dsimp only
        rw [← hdef, if_neg (by omega), ← hafter, hplaced]
      · clear hdef hafter
        omega
      · intro item hitem
        rw [List.zip_cons_cons, List.mem_cons] at hitem
        rcases hitem with rfl | hitem
        · clear hdef hafter
          refine ⟨hnext, le_refl _, ?_, ?_, ?_⟩ <;> simp only
          · omega
          · omega
          · grind
        · obtain ⟨haligned, hlow, hhigh, hnonempty, hlen⟩ := hitems item hitem
          exact ⟨haligned, by omega, hhigh, hnonempty, hlen⟩
      · rw [List.zip_cons_cons]
        refine List.pairwise_cons.mpr ⟨fun item hitem => ?_, hordered⟩
        have := (hitems item hitem).low
        simp only
        omega

/-! ### Copies -/

lemma copyTo_ok {image : Image} {pos : ℕ} {bytes : List UInt8}
    (h : pos + bytes.length ≤ image.size) :
    copyTo pos bytes image
      = (.ok (), { image with bytes := putBytes image.bytes pos bytes }) := by
  rw [copyTo, if_pos h]

/-- Copies that are in order and inside the image put every partition in its place, and change
nothing else. -/
lemma copyAll_spec {items : List (Partition × ℕ × ℕ)} {image : Image} {lo hi : ℕ}
    (hitems : ∀ item ∈ items, InPlace lo hi item) (hhi : hi * 512 ≤ image.size)
    (hordered : items.Pairwise fun item item' => item.2.2 < item'.2.1) :
    ∃ image', Eff.forEach items
      (fun (partition, placed) => copyTo (placed.1 * sector) partition.contents)
        image = (.ok (), image')
      ∧ image'.size = image.size
      ∧ (∀ item ∈ items, ∀ i < item.1.contents.length,
        image'.bytes (item.2.1 * 512 + i) = item.1.contents.getD i 0)
      ∧ ∀ a, (∀ item ∈ items, a < item.2.1 * 512 ∨ (item.2.2 + 1) * 512 ≤ a) →
        image'.bytes a = image.bytes a := by
  induction items generalizing image with
  | nil => exact ⟨image, rfl, rfl, nofun, fun a _ => rfl⟩
  | cons item rest ih =>
      obtain ⟨hnext, hrest⟩ := List.pairwise_cons.mp hordered
      obtain ⟨-, -, hhigh, hnonempty, hlen⟩ := hitems item (by simp)
      have hcopy := @copyTo_ok image (item.2.1 * 512) item.1.contents (by grind)
      obtain ⟨image', hrun, hsize, hcontents, hout⟩ :=
        @ih { image with bytes := putBytes image.bytes (item.2.1 * 512) item.1.contents }
          (fun other hother => hitems other (List.mem_cons_of_mem _ hother)) hhi hrest
      refine ⟨image', ?_, hsize, fun other hother i hi => ?_, fun a ha => ?_⟩
      · rw [Eff.forEach]
        exact (Eff.bind_ok hcopy).trans hrun
      · rcases List.mem_cons.mp hother with rfl | hin
        · rw [hout _ fun later hlater => .inl ?_]
          · exact putBytes_add hi
          · have hbefore := hnext later hlater
            omega
        · exact hcontents other hin i hi
      · rw [hout a fun later hlater => ha later (List.mem_cons_of_mem _ hlater)]
        refine putBytes_of_outside ?_
        have hapart := ha item (by simp)
        omega

/-! ### Reading what was laid out -/

section

variable (crc thisLba otherLba entriesLba firstUsable lastUsable entriesCrc : ℕ)

/-- How long the fields of a header are. -/
def fieldLengths : List ℕ := [8, 4, 4, 4, 4, 8, 8, 8, 8, 16, 8, 4, 4, 4]

lemma map_length_headerFields :
    (headerFields crc thisLba otherLba entriesLba firstUsable lastUsable entriesCrc).map
      List.length
      = fieldLengths := by
  have hsignature : signature.length = 8 := rfl
  have hguid : diskGuid.length = 16 := rfl
  simp only [headerFields, List.map_cons, List.map_nil, length_leBytes, hsignature, hguid,
    fieldLengths]

lemma length_headerFields :
    (headerFields crc thisLba otherLba entriesLba firstUsable lastUsable
      entriesCrc).flatten.length
      = headerBytes := by
  rw [List.length_flatten, map_length_headerFields]
  rfl

@[simp] lemma length_headerWith :
    (headerWith crc thisLba otherLba entriesLba firstUsable lastUsable entriesCrc).length
      = 512 := by
  rw [headerWith, List.length_append, length_headerFields, List.length_replicate]
  rfl

/-- Field `k` of a header. -/
lemma headerWith_getD {field : List UInt8} {k i offset : ℕ}
    (hk : (headerFields crc thisLba otherLba entriesLba firstUsable lastUsable entriesCrc)[k]?
      = some field)
    (hoffset : (fieldLengths.take k).sum = offset) (hi : i < field.length)
    (hend : offset + field.length ≤ headerBytes) :
    (headerWith crc thisLba otherLba entriesLba firstUsable lastUsable entriesCrc).getD
    (offset + i) 0
      = field.getD i 0 := by
  rw [headerWith, getD_append_here (by rw [length_headerFields]; omega)]
  refine flatten_getD hk ?_ hi
  rw [List.map_take, map_length_headerFields, hoffset]

/-- A header differs from the one without a checksum in the four bytes of the checksum. -/
lemma headerWith_blank {i : ℕ} (hi : i < headerBytes) :
    (if 16 ≤ i ∧ i < 20 then 0 else
      (headerWith crc thisLba otherLba entriesLba firstUsable lastUsable entriesCrc).getD i 0)
      = (headerWith 0 thisLba otherLba entriesLba firstUsable lastUsable entriesCrc).getD i
        0 := by
  obtain ⟨before, after, hlength, hfields⟩ : ∃ before after : List UInt8, before.length = 16
      ∧ ∀ crc, headerWith crc thisLba otherLba entriesLba firstUsable lastUsable entriesCrc
        = before ++ (leBytes 4 crc ++ after) := by
    refine ⟨((headerFields 0 thisLba otherLba entriesLba firstUsable lastUsable entriesCrc).take
      3).flatten, ((headerFields 0 thisLba otherLba entriesLba firstUsable lastUsable
        entriesCrc).drop 4).flatten
        ++ List.replicate (sector - headerBytes) 0, rfl, fun crc => ?_⟩
    simp only [headerWith, headerFields, List.take_succ_cons, List.take_zero, List.drop_succ_cons,
      List.drop_zero, List.flatten_cons, List.flatten_nil, List.append_assoc, List.nil_append]
  rw [hfields, hfields]
  by_cases hlow : i < 16
  · rw [if_neg (by omega), getD_append_here (by omega), getD_append_here (by omega)]
  · obtain ⟨j, rfl⟩ := Nat.exists_eq_add_of_le (not_lt.mp hlow)
    rw [getD_append_skip hlength, getD_append_skip hlength]
    by_cases hcrc : j < 4
    · rw [if_pos (by omega), getD_append_here (by simpa using hcrc)]
      interval_cases j <;> rfl
    · obtain ⟨k, rfl⟩ := Nat.exists_eq_add_of_le (not_lt.mp hcrc)
      rw [if_neg (by omega), getD_append_skip (length_leBytes _ _),
        getD_append_skip (length_leBytes _ _)]

end

@[simp] lemma length_nameField (name : List Char) : (nameField name).length = 72 := by
  have hunits : (((encodeUtf16 name).take 36).flatMap (leBytes 2)).length ≤ 72 := by
    rw [List.length_flatMap]
    simp only [length_leBytes, List.map_const', List.sum_replicate, List.length_take, smul_eq_mul]
    omega
  rw [nameField, List.length_append, List.length_replicate]
  omega

@[simp] lemma length_entry (partition : Partition) (placed : ℕ × ℕ) :
    (entry partition placed).length = 128 := by
  simp [entry, partition.typeGuid_length, partition.guid_length]

lemma length_used (items : List (Partition × ℕ × ℕ)) :
    (items.flatMap fun (partition, placed) => entry partition placed).length
      = items.length * 128 := by
  rw [List.length_flatMap]
  simp

lemma length_entries {items : List (Partition × ℕ × ℕ)} (h : items.length ≤ entryCount) :
    (entries items).length = 16384 := by
  have hcount : entryCount = 128 := rfl
  have hbytes : entryBytes = 128 := rfl
  rw [entries, List.length_append, List.length_replicate, length_used, hcount, hbytes]
  omega

/-- Entry `i` of the array. -/
lemma entries_getD {items : List (Partition × ℕ × ℕ)} {i k : ℕ} (hi : i < items.length)
    (hk : k < 128) :
    (entries items).getD (i * 128 + k) 0 = (entry items[i].1 items[i].2).getD k 0 := by
  have hused := length_used items
  rw [entries, getD_append_here (by rw [hused]; omega)]
  clear hused
  induction items generalizing i with
  | nil => simp at hi
  | cons item rest ih =>
      rw [List.flatMap_cons]
      obtain _ | i := i
      · rw [Nat.zero_mul, Nat.zero_add, getD_append_here (by simpa using hk)]
        rfl
      · rw [show (i + 1) * 128 + k = 128 + (i * 128 + k) by omega,
          getD_append_skip (length_entry _ _), ih (by simpa using hi)]
        rfl

/-- After the entries in use the array is zero. -/
lemma entries_unused {items : List (Partition × ℕ × ℕ)} {j : ℕ} (hj : items.length * 128 ≤ j) :
    (entries items).getD j 0 = 0 := by
  obtain ⟨k, rfl⟩ := Nat.exists_eq_add_of_le hj
  rw [entries, getD_append_skip (length_used items), List.getD_eq_getElem?_getD,
    List.getElem?_replicate]
  split <;> rfl

lemma entry_first {partition : Partition} {placed : ℕ × ℕ} {i : ℕ} (h : i < 8) :
    (entry partition placed).getD (32 + i) 0 = (leBytes 8 placed.1).getD i 0 := by
  simp only [entry, List.append_assoc]
  rw [show 32 + i = 16 + (16 + i) by omega, getD_append_skip partition.typeGuid_length,
    getD_append_skip partition.guid_length, getD_append_here (by simpa using h)]

lemma entry_last {partition : Partition} {placed : ℕ × ℕ} {i : ℕ} (h : i < 8) :
    (entry partition placed).getD (40 + i) 0 = (leBytes 8 placed.2).getD i 0 := by
  simp only [entry, List.append_assoc]
  rw [show 40 + i = 16 + (16 + (8 + i)) by omega, getD_append_skip partition.typeGuid_length,
    getD_append_skip partition.guid_length, getD_append_skip (length_leBytes _ _),
    getD_append_here (by simpa using h)]

lemma crc_lt (crc : UInt32) : crc.toNat < 256 ^ 4 := by
  have := crc.toNat_lt
  norm_num
  omega

/-- The bytes of a header without its checksum, from one in memory. -/
lemma getBytes_blank {mem : ByteMemory}
    {pos crc thisLba otherLba entriesLba firstUsable lastUsable
    entriesCrc : ℕ} (h : ∀ i < 512, mem (pos + i)
      = (headerWith crc thisLba otherLba entriesLba firstUsable lastUsable entriesCrc).getD i 0) :
    getBytes (putBytes mem (pos + 16) [0, 0, 0, 0]) pos headerBytes
      = (headerWith 0 thisLba otherLba entriesLba firstUsable lastUsable entriesCrc).take
        headerBytes := by
  have hbytes : headerBytes = 92 := rfl
  have hlength := length_headerWith 0 thisLba otherLba entriesLba firstUsable
    lastUsable entriesCrc
  have hsame := fun i hi =>
    @headerWith_blank crc thisLba otherLba entriesLba firstUsable lastUsable entriesCrc i hi
  generalize headerWith 0 thisLba otherLba entriesLba firstUsable lastUsable entriesCrc
    = blank at *
  refine List.ext_getElem ?_ fun i hi hi' => ?_
  · rw [length_getBytes, List.length_take, hlength, hbytes]
    rfl
  · rw [length_getBytes] at hi
    have hget : blank[i]? = some (blank.get ⟨i, by omega⟩) := List.getElem?_eq_getElem (by omega)
    have hsame := hsame i hi
    rw [List.getD_eq_getElem?_getD (l := blank), hget, Option.getD_some,
      List.get_eq_getElem] at hsame
    rw [List.getElem_take, ← hsame]
    simp only [getBytes, List.getElem_map, List.getElem_range]
    by_cases hcrc : 16 ≤ i ∧ i < 20
    · rw [if_pos hcrc]
      obtain ⟨j, rfl⟩ := Nat.exists_eq_add_of_le hcrc.1
      have hj : j < 4 := by omega
      rw [← Nat.add_assoc, putBytes_add hj]
      interval_cases j <;> rfl
    · rw [if_neg hcrc, putBytes_of_outside
        (by simp only [List.length_cons, List.length_nil]; omega), h i (by omega)]

/-- A header in the image says what it was made of. -/
lemma isHeader_of_bytes {image : Image} {lba other array last : ℕ} {entries : List UInt8}
    (hheader : ∀ i < 512, image.bytes (lba * sector + i)
      = (header lba other array firstUsable last (crc32 entries).toNat).getD i 0)
    (harray : getBytes image.bytes (array * sector) (entryCount * entryBytes) = entries)
    (hlba : lba < 2 ^ 64) (hother : other < 2 ^ 64) (harr : array < 2 ^ 64)
    (hlast : last < 2 ^ 64) :
    IsHeader image lba other array last := by
  obtain ⟨entriesCrc, hentries⟩ : ∃ crc, crc = (crc32 entries).toNat := ⟨_, rfl⟩
  obtain ⟨crc, hcrc⟩ : ∃ crc, crc = crc32 ((headerWith 0 lba other array firstUsable last
    entriesCrc).take headerBytes) := ⟨_, rfl⟩
  rw [← hentries, header, ← hcrc] at hheader
  have hfield : ∀ k offset field,
      (headerFields crc.toNat lba other array firstUsable last entriesCrc)[k]? = some field →
      (fieldLengths.take k).sum = offset → offset + field.length ≤ headerBytes →
      ∀ i < field.length, image.bytes (lba * sector + offset + i) = field.getD i 0 := by
    intro k offset field hk hoffset hend i hi
    have hbytes : headerBytes = 92 := rfl
    rw [Nat.add_assoc, hheader _ (by omega), headerWith_getD _ _ _ _ _ _ _ hk hoffset hi hend]
  have hword : ∀ k offset width value,
      (headerFields crc.toNat lba other array firstUsable last entriesCrc)[k]?
        = some (leBytes width value) →
      (fieldLengths.take k).sum = offset → offset + width ≤ headerBytes →
      getWord image.bytes (lba * sector + offset) width = value % 256 ^ width := by
    intro k offset width value hk hoffset hend
    refine getWord_leBytes fun i hi => hfield k offset _ hk hoffset (by simpa using hend) i ?_
    simpa using hi
  refine ⟨?_, ?_, ?_, ?_, ?_, ?_, ?_, ?_, ?_, ?_, ?_, ?_⟩
  · have hfirst := hfield 0 0 signature rfl rfl (by decide)
    rw [Nat.add_zero] at hfirst
    exact getBytes_eq hfirst
  · exact (hword 1 8 4 revision rfl rfl (by decide)).trans (Nat.mod_eq_of_lt (by decide))
  · exact (hword 2 12 4 headerBytes rfl rfl (by decide)).trans (Nat.mod_eq_of_lt (by decide))
  · rw [getBytes_blank hheader, ← hcrc]
    exact (hword 3 16 4 crc.toNat rfl rfl (by decide)).trans (Nat.mod_eq_of_lt (crc_lt crc))
  · exact (hword 5 24 8 lba rfl rfl (by decide)).trans (Nat.mod_eq_of_lt hlba)
  · exact (hword 6 32 8 other rfl rfl (by decide)).trans (Nat.mod_eq_of_lt hother)
  · exact (hword 7 40 8 firstUsable rfl rfl (by decide)).trans (Nat.mod_eq_of_lt (by decide))
  · exact (hword 8 48 8 last rfl rfl (by decide)).trans (Nat.mod_eq_of_lt hlast)
  · exact (hword 10 72 8 array rfl rfl (by decide)).trans (Nat.mod_eq_of_lt harr)
  · exact (hword 11 80 4 entryCount rfl rfl (by decide)).trans (Nat.mod_eq_of_lt (by decide))
  · exact (hword 12 84 4 entryBytes rfl rfl (by decide)).trans (Nat.mod_eq_of_lt (by decide))
  · rw [harray, ← hentries]
    refine (hword 13 88 4 entriesCrc rfl rfl (by decide)).trans (Nat.mod_eq_of_lt ?_)
    rw [hentries]
    exact crc_lt _

/-! ### The finished image -/

/-- What the image holds in each of its regions. -/
structure Filled (items : List (Partition × ℕ × ℕ)) (next : ℕ) (image : Image) : Prop where
  size : image.size = (next + 33) * 512
  contents : ∀ item ∈ items, ∀ i < item.1.contents.length,
    image.bytes (item.2.1 * 512 + i) = item.1.contents.getD i 0
  primary : ∀ i < 512, image.bytes (1 * 512 + i)
    = (header 1 (next + 32) 2 firstUsable (next - 1) (crc32 (entries items)).toNat).getD i 0
  array : ∀ i < 16384, image.bytes (2 * 512 + i) = (entries items).getD i 0
  backupArray : ∀ i < 16384, image.bytes (next * 512 + i) = (entries items).getD i 0
  backup : ∀ i < 512, image.bytes ((next + 32) * 512 + i)
    = (header (next + 32) 1 next firstUsable (next - 1) (crc32 (entries items)).toNat).getD i 0

/-- **Everything is written where it belongs**, and nothing over anything else. -/
theorem fill_spec {items : List (Partition × ℕ × ℕ)} {next : ℕ}
    (hcount : items.length ≤ entryCount) (hitems : ∀ item ∈ items, InPlace firstUsable next item)
    (hnext : firstUsable ≤ next)
    (hordered : items.Pairwise fun item item' => item.2.2 < item'.2.1) :
    ∃ image, fill items next (next + entrySectors)
        ⟨(next + entrySectors + 1) * sector, fun _ => 0⟩ = (.ok (), image)
      ∧ Filled items next image := by
  have hunit : firstUsable = 2048 := rfl
  have hsectors : entrySectors = 32 := rfl
  have hlength := length_entries hcount
  obtain ⟨image, hcopy, hsize, hcontents, -⟩ := @copyAll_spec items
    ⟨(next + 33) * 512, fun _ => 0⟩ firstUsable next hitems (by simp only; omega) hordered
  simp only at hsize
  -- names for what is copied: the table, the two headers and the old boot record
  obtain ⟨array, harray⟩ : ∃ array, array = entries items := ⟨_, rfl⟩
  obtain ⟨crc, hcrc⟩ : ∃ crc, crc = (crc32 array).toNat := ⟨_, rfl⟩
  obtain ⟨first, hfirst⟩ : ∃ first,
      first = header 1 (next + 32) 2 firstUsable (next - 1) crc := ⟨_, rfl⟩
  obtain ⟨second, hsecond⟩ : ∃ second,
      second = header (next + 32) 1 next firstUsable (next - 1) crc :=
    ⟨_, rfl⟩
  have hlen₁ : first.length = 512 := by rw [hfirst, header, length_headerWith]
  have hlen₂ : second.length = 512 := by rw [hsecond, header, length_headerWith]
  rw [← harray] at hlength
  obtain ⟨mbr, hmbr⟩ : ∃ mbr : List UInt8, mbr = [0x00] ++ [0x00, 0x02, 0x00] ++ [0xEE]
    ++ [0xFF, 0xFF, 0xFF] ++ leBytes 4 1 ++ leBytes 4 (min (next + 32 + 1 - 1) (2 ^ 32 - 1)) :=
      ⟨_, rfl⟩
  have hlenMbr : mbr.length = 16 := by
    rw [hmbr]
    simp only [List.length_append, length_leBytes, List.length_cons, List.length_nil]
  -- the bytes after all copies; each is read back through those made later
  obtain ⟨bytes, hbytes⟩ : ∃ bytes, bytes = putBytes (putBytes (putBytes (putBytes (putBytes
    (putBytes image.bytes 512 first) 1024 array) (next * 512) array)
    ((next + 32) * 512) second) 446 mbr)
    510 [0x55, 0xAA] := ⟨_, rfl⟩
  refine ⟨⟨image.size, bytes⟩, ?_, hsize, fun item hitem i hi => ?_, fun i hi => ?_,
    fun i hi => ?_, fun i hi => ?_, fun i hi => ?_⟩
  · have hstart : (next + entrySectors + 1) * sector = (next + 33) * 512 := by
      rw [hsectors, sector]
    have hback : next + 32 - 32 = next := by omega
    rw [fill, hstart, Eff.bind_ok hcopy, ← harray, ← hcrc]
    simp only [hsectors, hback, sector, ← hfirst, ← hsecond]
    rw [Eff.bind_ok (copyTo_ok (by omega)), Eff.bind_ok (copyTo_ok (by simp only; omega)),
      Eff.bind_ok (copyTo_ok (by simp only; omega)),
      Eff.bind_ok (copyTo_ok (by simp only; omega)), protectiveMbr, ← hmbr,
      Eff.bind_ok (copyTo_ok (by simp only; omega)),
      copyTo_ok (by simp only [List.length_cons, List.length_nil]; omega), hbytes]
  · obtain ⟨-, hlow, hhigh, -, hlen⟩ := hitems item hitem
    rw [hunit] at hlow
    simp only [hbytes]
    rw [putBytes_of_outside (by simp only [List.length_cons, List.length_nil]; omega),
      putBytes_of_outside (by omega), putBytes_of_outside (by omega),
      putBytes_of_outside (by omega), putBytes_of_outside (by omega),
      putBytes_of_outside (by omega)]
    exact hcontents item hitem i hi
  · simp only [hbytes]
    rw [putBytes_of_outside (by simp only [List.length_cons, List.length_nil]; omega),
      putBytes_of_outside (by omega), putBytes_of_outside (by omega),
      putBytes_of_outside (by omega), putBytes_of_outside (by omega), putBytes_add (by omega),
      hfirst, hcrc, harray]
  · simp only [hbytes]
    rw [putBytes_of_outside (by simp only [List.length_cons, List.length_nil]; omega),
      putBytes_of_outside (by omega), putBytes_of_outside (by omega),
      putBytes_of_outside (by omega), putBytes_add (by omega), harray]
  · simp only [hbytes]
    rw [putBytes_of_outside (by simp only [List.length_cons, List.length_nil]; omega),
      putBytes_of_outside (by omega), putBytes_of_outside (by omega),
      putBytes_add (by omega), harray]
  · simp only [hbytes]
    rw [putBytes_of_outside (by simp only [List.length_cons, List.length_nil]; omega),
      putBytes_of_outside (by omega), putBytes_add (by omega), hsecond, hcrc, harray]

/-- What the entry of a partition says. -/
lemma Filled.entry {items : List (Partition × ℕ × ℕ)} {next : ℕ} {image : Image}
    (h : Filled items next image) (hcount : items.length ≤ entryCount) {i k : ℕ}
    (hi : i < items.length) (hk : k < 128) :
    image.bytes (entryAt i + k) = (Gpt.entry items[i].1 items[i].2).getD k 0 := by
  have hentries : entryCount = 128 := rfl
  have hpos : entryAt i + k = 2 * 512 + (i * 128 + k) := by
    rw [entryAt, Nat.add_assoc]
    rfl
  rw [hpos, h.array _ (by omega), entries_getD hi hk]

lemma Filled.placed {items : List (Partition × ℕ × ℕ)} {next : ℕ} {image : Image}
    (h : Filled items next image) (hcount : items.length ≤ entryCount) {i : ℕ}
    (hi : i < items.length) (hfirst : items[i].2.1 < 2 ^ 64) (hlast : items[i].2.2 < 2 ^ 64) :
    firstLba image i = items[i].2.1 ∧ lastLba image i = items[i].2.2 := by
  constructor
  · rw [firstLba, ← Nat.mod_eq_of_lt (show items[i].2.1 < 256 ^ 8 by norm_num; omega)]
    refine getWord_leBytes fun k hk => ?_
    rw [Nat.add_assoc, h.entry hcount hi (by omega), entry_first hk]
  · rw [lastLba, ← Nat.mod_eq_of_lt (show items[i].2.2 < 256 ^ 8 by norm_num; omega)]
    refine getWord_leBytes fun k hk => ?_
    rw [Nat.add_assoc, h.entry hcount hi (by omega), entry_last hk]

/-- **An image so filled is a valid GPT.** -/
theorem Filled.isGpt {partitions : List Partition} {placed : List (ℕ × ℕ)} {next : ℕ}
    {image : Image} (h : Filled (partitions.zip placed) next image)
    (hlength : placed.length = partitions.length) (hcount : partitions.length ≤ entryCount)
    (hitems : ∀ item ∈ partitions.zip placed, InPlace firstUsable next item)
    (hordered : (partitions.zip placed).Pairwise fun item item' => item.2.2 < item'.2.1)
    (hnext : firstUsable ≤ next) (htop : next + 33 < 2 ^ 64) :
    IsGpt partitions image (next + 32) (next - 1) := by
  have hunit : firstUsable = 2048 := rfl
  have hzip : (partitions.zip placed).length = partitions.length := by simp [hlength]
  have hcount' : (partitions.zip placed).length ≤ entryCount := by omega
  have hget : ∀ i (hi : i < partitions.length) (hi' : i < (partitions.zip placed).length),
      (partitions.zip placed)[i].1 = partitions[i] := by
    intro i hi hi'
    rw [List.getElem_zip]
  -- the table of partitions, in both copies, as the entries that were written
  have hplaced : ∀ i (hi : i < (partitions.zip placed).length),
      firstLba image i = (partitions.zip placed)[i].2.1
        ∧ lastLba image i = (partitions.zip placed)[i].2.2 := by
    intro i hi
    obtain ⟨-, -, hhigh, hnonempty, -⟩ := hitems _ (List.getElem_mem hi)
    exact h.placed hcount' hi (by omega) (by omega)
  have hentries : entryCount * entryBytes = (entries (partitions.zip placed)).length := by
    rw [length_entries hcount']
    rfl
  have hlen := length_entries hcount'
  have harray : getBytes image.bytes (2 * sector) (entryCount * entryBytes)
      = entries (partitions.zip placed) := by
    rw [hentries]
    exact getBytes_eq fun i hi => h.array i (by omega)
  have hbackup : getBytes image.bytes (next * sector) (entryCount * entryBytes)
      = entries (partitions.zip placed) := by
    rw [hentries]
    exact getBytes_eq fun i hi => h.backupArray i (by omega)
  have hback : next + 32 - entrySectors = next := Nat.add_sub_cancel next 32
  -- the headers, then each entry, then what the partitions hold
  refine ⟨h.size, ?_, ?_, ?_, ⟨by decide, ?_⟩, fun i hi => ⟨?_, ?_⟩, fun i hi => ?_,
    fun i hi => ?_, fun i j hij hj => ?_, fun i hlow hhigh => ?_⟩
  · exact isHeader_of_bytes h.primary harray (by decide) (by omega) (by decide) (by omega)
  · rw [hback]
    exact isHeader_of_bytes h.backup hbackup (by omega) (by decide) (by omega) (by omega)
  · rw [hback, harray, hbackup]
  · rw [show entrySectors = 32 from rfl]
    omega
  · have hi' : i < (partitions.zip placed).length := by omega
    have hguid := partitions[i].typeGuid_length
    rw [← hguid]
    refine getBytes_eq fun k hk => ?_
    rw [h.entry hcount' hi' (by omega), hget i hi hi', Gpt.entry]
    simp only [List.append_assoc]
    rw [getD_append_here hk]
  · have hi' : i < (partitions.zip placed).length := by omega
    have hguid := partitions[i].guid_length
    rw [← hguid]
    refine getBytes_eq fun k hk => ?_
    rw [hguid, Nat.add_assoc, h.entry hcount' hi' (by omega), hget i hi hi', Gpt.entry]
    simp only [List.append_assoc]
    rw [getD_append_skip partitions[i].typeGuid_length, getD_append_here hk]
  · have hi' : i < (partitions.zip placed).length := by omega
    obtain ⟨haligned, hlow, hhigh, hnonempty, hsize⟩ := hitems _ (List.getElem_mem hi')
    rw [(hplaced i hi').1, (hplaced i hi').2]
    refine ⟨haligned, hlow, by omega, hnonempty, ?_⟩
    rw [← hget i hi hi']
    exact hsize
  · have hi' : i < (partitions.zip placed).length := by omega
    rw [(hplaced i hi').1, ← hget i hi hi']
    exact getBytes_eq fun k hk => h.contents _ (List.getElem_mem hi') k hk
  · have hi' : i < (partitions.zip placed).length := by omega
    have hj' : j < (partitions.zip placed).length := by omega
    rw [(hplaced i hi').2, (hplaced j hj').1]
    exact List.pairwise_iff_getElem.mp hordered i j hi' hj' hij
  · have hsize : (List.replicate entryBytes (0 : UInt8)).length = entryBytes :=
      List.length_replicate
    have hbytes : entryBytes = 128 := rfl
    have hcounts : entryCount = 128 := rfl
    nth_rewrite 1 [← hsize]
    refine getBytes_eq fun k hk => ?_
    rw [hsize] at hk
    have hpos : entryAt i + k = 2 * 512 + (i * 128 + k) := by
      rw [entryAt, Nat.add_assoc]
      rfl
    rw [hpos, h.array _ (by omega), entries_unused (by omega), List.getD_eq_getElem?_getD,
      List.getElem?_replicate, if_pos hk, Option.getD_some]

/-- **`build` lays out a valid GPT** from every list of at most 128 partitions whose contents are
a positive whole number of sectors, as long as the image is no larger than a vector may be. -/
theorem build_isGpt {partitions : List Partition} (hsome : partitions ≠ [])
    (hcount : partitions.length ≤ 128)
    (hcontents : ∀ partition ∈ partitions,
      partition.contents.length % 512 = 0 ∧ 0 < partition.contents.length) :
    ∃ placed next, placeAll partitions firstUsable = .ok (placed, next)
      ∧ (2 ^ 63 ≤ (next + 33) * 512 → build partitions = .error .capacityOverflow)
      ∧ ((next + 33) * 512 < 2 ^ 63 → ∃ image, build partitions = .ok image
        ∧ IsGpt partitions image (next + 32) (next - 1)) := by
  obtain ⟨placed, next, hplaced, hlength, hnext, hitems, hordered⟩ :=
    placeAll_spec hcontents (show firstUsable % firstUsable = 0 from rfl)
  have hzip : (partitions.zip placed).length ≤ entryCount := by
    simp only [List.length_zip, hlength, Nat.min_self]
    exact hcount
  obtain ⟨image, hfill, hfilled⟩ := fill_spec hzip hitems hnext hordered
  have hsize : (next + entrySectors + 1) * sector = (next + 33) * 512 := by
    rw [show entrySectors = 32 from rfl, sector]
  refine ⟨placed, next, hplaced, fun hlarge => ?_, fun hsmall => ⟨image, ?_, ?_⟩⟩
  · rw [build, if_neg hsome,
      if_neg (show ¬entryCount < partitions.length from not_lt.mpr hcount), hplaced]
    dsimp only
    rw [hsize, if_pos hlarge]
  · rw [build, if_neg hsome,
      if_neg (show ¬entryCount < partitions.length from not_lt.mpr hcount), hplaced]
    dsimp only
    rw [if_neg (by rw [hsize]; omega), hfill]
  · exact hfilled.isGpt hlength hcount hitems hordered hnext (by omega)

/-- A partition of one sector. -/
def oneSector : Partition :=
  ⟨['e', 'f', 'i'], List.replicate 16 0xA2, List.replicate 16 0x48,
    List.replicate 512 0xAA, rfl, rfl⟩

/-- One of two. -/
def twoSectors : Partition :=
  ⟨['d', 'a', 't', 'a'], List.replicate 16 0xEB, List.replicate 16 0x49,
    List.replicate 1024 0xBB, rfl, rfl⟩

/-- Each starts at a multiple of 2048 sectors, in order, and the disk ends 33 sectors after the
last. -/
theorem build_isGpt_twoPartitions :
    oneSector.contents.length = 512 ∧ twoSectors.contents.length = 1024
      ∧ placeAll [oneSector, twoSectors] firstUsable = .ok ([(2048, 2048), (4096, 4097)], 6144)
      ∧ ∃ image, build [oneSector, twoSectors] = .ok image
        ∧ IsGpt [oneSector, twoSectors] image 6176 6143 := by
  have hone : oneSector.contents.length = 512 := List.length_replicate
  have htwo : twoSectors.contents.length = 1024 := List.length_replicate
  have hplaces : placeAll [oneSector, twoSectors] firstUsable
      = .ok ([(2048, 2048), (4096, 4097)], 6144) := by
    simp only [placeAll, hone, htwo]
    rfl
  refine ⟨hone, htwo, hplaces, ?_⟩
  obtain ⟨placed, next, hplaced, -, himage⟩ :=
    @build_isGpt [oneSector, twoSectors] (by simp) (by simp) (by
    intro partition hpartition
    simp only [List.mem_cons, List.not_mem_nil, or_false] at hpartition
    obtain rfl | rfl := hpartition
    · rw [hone]
      decide
    · rw [htwo]
      decide)
  rw [hplaces] at hplaced
  cases hplaced
  exact himage (by decide)

end Harlan.Gpt
