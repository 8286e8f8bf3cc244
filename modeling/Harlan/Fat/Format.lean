import Mathlib.Tactic
import Harlan.Hal

/-!
The FAT32 format, as bytes (`hal/src/fat.rs`): the boot sector and the checks it has to pass,
one entry of the allocation table, one slot of a directory, and how a name is stored in it.

A sector is 512 bytes and a slot 32, as functions of an index that cannot be out of range. A
text is the list of its bytes; where the source goes through `str::from_utf8` the definition
asks `validUtf8`.

* `BootSector.WellFormed`: what `BootSector.parse` checks, for every volume that is mounted.
* `encodeName_first`: an encoded name does not begin as a slot that is not in use does.
-/

namespace Harlan.Fat

/-! ### Bytes -/

/-- One 512-byte sector. -/
abbrev Sector := Fin 512 → UInt8

/-- The sixteen-bit number in two bytes, low one first. -/
def le16 (a b : UInt8) : ℕ := a.toNat + 2 ^ 8 * b.toNat

/-- The thirty-two-bit number in four bytes, low one first. -/
def le32 (a b c d : UInt8) : ℕ :=
  a.toNat + 2 ^ 8 * b.toNat + 2 ^ 16 * c.toNat + 2 ^ 24 * d.toNat

/-- Byte `k` of a number, counting from the low one (`to_le_bytes`). -/
def leByte (n k : ℕ) : UInt8 := UInt8.ofNat (n / 2 ^ (8 * k))

/-- Two bytes of a sector, little endian. -/
def u16At (sector : Sector) (offset : ℕ) (h : offset + 1 < 512 := by decide) : ℕ :=
  le16 (sector ⟨offset, by omega⟩) (sector ⟨offset + 1, h⟩)

/-- Four bytes of a sector, little endian. -/
def u32At (sector : Sector) (offset : ℕ) (h : offset + 3 < 512 := by decide) : ℕ :=
  le32 (sector ⟨offset, by omega⟩) (sector ⟨offset + 1, by omega⟩) (sector ⟨offset + 2, by omega⟩)
    (sector ⟨offset + 3, h⟩)

/-- Whether a byte continues a UTF-8 sequence. -/
def isContinuation (b : UInt8) : Bool := decide (0x80 ≤ b.toNat) && decide (b.toNat < 0xC0)

/-- `str::from_utf8` succeeds: no stray or missing continuation byte, no overlong form, no
surrogate, nothing above `U+10FFFF`. -/
def validUtf8 : List UInt8 → Bool
  | [] => true
  | a :: rest =>
      if a.toNat < 0x80 then validUtf8 rest
      else if 0xC2 ≤ a.toNat ∧ a.toNat < 0xE0 then
        match rest with
        | b :: rest => isContinuation b && validUtf8 rest
        | _ => false
      else if 0xE0 ≤ a.toNat ∧ a.toNat < 0xF0 then
        match rest with
        | b :: c :: rest =>
            isContinuation b && isContinuation c
              && !(a.toNat == 0xE0 && decide (b.toNat < 0xA0))
              && !(a.toNat == 0xED && decide (0xA0 ≤ b.toNat)) && validUtf8 rest
        | _ => false
      else if 0xF0 ≤ a.toNat ∧ a.toNat < 0xF5 then
        match rest with
        | b :: c :: d :: rest =>
            isContinuation b && isContinuation c && isContinuation d
              && !(a.toNat == 0xF0 && decide (b.toNat < 0x90))
              && !(a.toNat == 0xF4 && decide (0x90 ≤ b.toNat)) && validUtf8 rest
        | _ => false
      else false

/-- `u8::to_ascii_uppercase`. -/
def toAsciiUppercase (b : UInt8) : UInt8 :=
  if 0x61 ≤ b.toNat ∧ b.toNat ≤ 0x7A then UInt8.ofNat (b.toNat - 0x20) else b

/-- `u8::eq_ignore_ascii_case`. -/
def eqIgnoreAsciiCase (a b : UInt8) : Bool := toAsciiUppercase a == toAsciiUppercase b

/-! ### The boot sector -/

/-- The only sector size that is accepted. -/
def sectorBytes : ℕ := 512
/-- The numbers of clusters start here. Entries 0 and 1 of the table are no clusters. -/
def firstDataCluster : ℕ := 2
/-- With fewer clusters than this the volume is FAT16. -/
def fat32MinimumClusters : ℕ := 65525

/-- Why a boot sector is refused. -/
inductive BootSectorError where
  | noSignature (found : ℕ)
  | sectorSize (found : ℕ)
  | sectorsPerCluster (found : ℕ)
  | reservedSectors (found : ℕ)
  | fatCount (found : ℕ)
  | notFat32 (sixteenBitFatSize : ℕ)
  | fatSize (found : ℕ)
  | rootCluster (found : ℕ)
  | noDataRegion
  | tooFewClusters (found : ℕ)
  | fatTooSmall (entries clusters : ℕ)
deriving DecidableEq

/-- What a volume calls itself. -/
structure VolumeId where
  serial : ℕ
  /-- Eleven bytes, space-padded on the right. -/
  label : List UInt8
deriving DecidableEq

/-- What a volume's boot sector says, once it has been believed. -/
structure BootSector where
  bytesPerSector : ℕ
  sectorsPerCluster : ℕ
  reservedSectors : ℕ
  fatCount : ℕ
  totalSectors : ℕ
  sectorsPerFat : ℕ
  rootCluster : ℕ
  fsInfoSector : ℕ
  clusters : ℕ
  volumeId : Option VolumeId
deriving DecidableEq

/-- `is_power_of_two` of a byte. -/
def isPowerOfTwo (n : ℕ) : Bool := [1, 2, 4, 8, 16, 32, 64, 128].contains n

namespace BootSector

/-- Who the volume says it is, believed only when the byte that says those fields exist
says so. -/
def parseVolumeId (sector : Sector) : Option VolumeId :=
  if (sector 66).toNat = 0x29 then
    some ⟨u32At sector 67, List.ofFn fun i : Fin 11 => sector ⟨71 + i, by omega⟩⟩
  else none

/-- Reads a boot sector, refusing every way it can be wrong that would turn into a bad
address later. -/
def parse (sector : Sector) : Except BootSectorError BootSector :=
  let signature := u16At sector 510
  let bytesPerSector := u16At sector 11
  let sectorsPerCluster := (sector 13).toNat
  let reservedSectors := u16At sector 14
  let fatCount := (sector 16).toNat
  let sixteenBitFatSize := u16At sector 22
  let sectorsPerFat := u32At sector 36
  let rootCluster := u32At sector 44
  let totalSectors := u32At sector 32
  let beforeData := reservedSectors + fatCount * sectorsPerFat
  let clusters := (totalSectors - beforeData) / sectorsPerCluster
  let entries := sectorsPerFat * bytesPerSector / 4
  if signature ≠ 0xAA55 then .error (.noSignature signature)
  else if bytesPerSector ≠ sectorBytes then .error (.sectorSize bytesPerSector)
  else if sectorsPerCluster = 0 ∨ !isPowerOfTwo sectorsPerCluster then
    .error (.sectorsPerCluster sectorsPerCluster)
  else if reservedSectors = 0 then .error (.reservedSectors reservedSectors)
  else if fatCount = 0 ∨ 4 < fatCount then .error (.fatCount fatCount)
  else if sixteenBitFatSize ≠ 0 then .error (.notFat32 sixteenBitFatSize)
  else if sectorsPerFat = 0 then .error (.fatSize sectorsPerFat)
  else if rootCluster < firstDataCluster then .error (.rootCluster rootCluster)
  else if totalSectors ≤ beforeData then .error .noDataRegion
  else if clusters < fat32MinimumClusters then .error (.tooFewClusters clusters)
  else if entries < clusters + firstDataCluster then .error (.fatTooSmall entries clusters)
  else
    .ok ⟨bytesPerSector, sectorsPerCluster, reservedSectors, fatCount, totalSectors,
      sectorsPerFat, rootCluster, u16At sector 48, clusters, parseVolumeId sector⟩

/-- Where the first table starts. -/
def firstFatSector (boot : BootSector) : ℕ := boot.reservedSectors

/-- Where the data region starts, which is also where cluster 2 is. -/
def firstDataSector (boot : BootSector) : ℕ :=
  boot.reservedSectors + boot.fatCount * boot.sectorsPerFat

/-- A cluster this volume has. -/
def hasCluster (boot : BootSector) (cluster : ℕ) : Bool :=
  !(decide (cluster < firstDataCluster) || decide (firstDataCluster + boot.clusters ≤ cluster))

/-- Which sector a cluster begins at, or `none` for a cluster this volume does not have. -/
def sectorOfCluster (boot : BootSector) (cluster : ℕ) : Option ℕ :=
  if boot.hasCluster cluster then
    some (boot.firstDataSector + (cluster - firstDataCluster) * boot.sectorsPerCluster)
  else none

/-- The bytes of one cluster. -/
def clusterBytes (boot : BootSector) : ℕ := boot.bytesPerSector * boot.sectorsPerCluster

/-- What a boot sector that was believed keeps. -/
structure WellFormed (boot : BootSector) : Prop where
  bytesPerSector : boot.bytesPerSector = 512
  sectorsPerCluster : 0 < boot.sectorsPerCluster
  clusterSectors : boot.sectorsPerCluster < 256
  reservedSectors : 0 < boot.reservedSectors
  fatCount : 0 < boot.fatCount
  rootCluster : 2 ≤ boot.rootCluster
  /-- Every cluster lies inside the volume. -/
  fits : boot.firstDataSector + boot.clusters * boot.sectorsPerCluster ≤ boot.totalSectors
  /-- Every cluster has an entry in a table. -/
  entries : boot.clusters + 2 ≤ boot.sectorsPerFat * 128
  total : boot.totalSectors < 2 ^ 32

lemma le32_lt (a b c d : UInt8) : le32 a b c d < 2 ^ 32 := by
  have ha := a.toNat_lt
  have hb := b.toNat_lt
  have hc := c.toNat_lt
  have hd := d.toNat_lt
  rw [le32]
  omega

/-- Everything `parse` lets through is well formed. -/
lemma parse_wellFormed {sector : Sector} {boot : BootSector} (h : parse sector = .ok boot) :
    boot.WellFormed := by
  simp only [parse, ite_error_eq_ok] at h
  obtain ⟨-, hbytes, hspc, hres, hcount, -, -, hroot, hdata, -, hentries, h⟩ := h
  rw [Except.ok.injEq] at h
  subst h
  simp only [firstDataCluster, sectorBytes, ne_eq, not_not] at hroot hentries hbytes
  have hdiv := Nat.div_mul_le_self
    (u32At sector 32 - (u16At sector 14 + (sector 16).toNat * u32At sector 36)) (sector 13).toNat
  refine ⟨hbytes, ?_, UInt8.toNat_lt _, ?_, ?_, ?_, ?_, ?_, le32_lt _ _ _ _⟩
  · exact Nat.pos_of_ne_zero fun h => hspc (.inl h)
  · exact Nat.pos_of_ne_zero hres
  · exact Nat.pos_of_ne_zero fun h => hcount (.inl h)
  · exact Nat.le_of_not_lt hroot
  · simp only [firstDataSector]
    omega
  · simp only
    rw [hbytes] at hentries
    omega

end BootSector

/-! ### One entry of the table -/

/-- What one entry of the table says about its cluster. -/
inductive Entry where
  | free
  | reserved
  | next (cluster : ℕ)
  | bad
  | end'
deriving DecidableEq

/-- Only the low 28 bits of an entry are the cluster number. -/
def entryMask : ℕ := 2 ^ 28 - 1

/-- Reads an entry, masking off the four bits that are not part of it. -/
def Entry.decode (raw : ℕ) : Entry :=
  let value := raw &&& entryMask
  if value = 0 then .free
  else if value = 1 then .reserved
  else if value = 0x0FFFFFF7 then .bad
  else if 0x0FFFFFF8 ≤ value then .end'
  else .next value

/-- What ends a chain, as a formatter writes it. -/
def endOfChain : ℕ := 0x0FFFFFFF

/-! ### One slot of a directory -/

/-- Thirty-two bytes. -/
abbrev SlotBytes := Fin 32 → UInt8

/-- The first byte of a slot behind the last entry of the directory. -/
def entryNeverUsed : UInt8 := 0x00
/-- The first byte of a slot whose entry was deleted. -/
def entryDeleted : UInt8 := 0xE5
/-- The attributes of a part of a long name. -/
def attrLongName : UInt8 := 0x0F
/-- The attribute of the volume's label. -/
def attrVolumeLabel : UInt8 := 0x08
/-- The attribute of a directory. -/
def attrDirectory : UInt8 := 0x10
/-- The attribute of an ordinary file. -/
def attrArchive : UInt8 := 0x20

/-- What fills up a name and an extension. -/
def space : UInt8 := 0x20
/-- What stands between the name and the extension. -/
def dot : UInt8 := 0x2E

/-- What a directory says about one of the things in it. -/
structure DirectoryEntry where
  /-- The 8.3 name, as `NAME.EXT`, without the padding the slot stores. -/
  name : List UInt8
  attributes : UInt8
  firstCluster : ℕ
  size : ℕ
deriving DecidableEq

namespace DirectoryEntry

/-- Whether the entry is a directory. -/
def isDirectory (entry : DirectoryEntry) : Bool := entry.attributes &&& attrDirectory != 0

/-- The name as text; empty when the stored bytes are not. -/
def nameText (entry : DirectoryEntry) : List UInt8 :=
  if validUtf8 entry.name then entry.name else []

/-- Whether this names the same file as `other`, ignoring case. -/
def isNamed (entry : DirectoryEntry) (other : List UInt8) : Bool :=
  entry.nameText.length == other.length
    && (entry.nameText.zip other).all fun pair => eqIgnoreAsciiCase pair.1 pair.2

end DirectoryEntry

/-- What reading one slot of a directory turned out to be. -/
inductive Slot where
  | entry (entry : DirectoryEntry)
  | skip
  | end'
deriving DecidableEq

/-! #### The fields of a slot -/

instance slotBytes_ne_zero : NeZero 32 := ⟨by decide⟩

instance nameBytes_ne_zero : NeZero 11 := ⟨by decide⟩

lemma base_lt (i : Fin 8) : i.val < 32 := by omega

lemma extension_lt (i : Fin 3) : 8 + i.val < 32 := by omega

lemma stored_lt (i : Fin 11) : i.val < 32 := by omega

/-- The stored name: eight characters and three, without their padding, and the dot put back. -/
def slotName (bytes : SlotBytes) : List UInt8 :=
  (List.ofFn fun i : Fin 8 => bytes ⟨i, base_lt i⟩).takeWhile (· != space)
    ++ if bytes 8 != space then
        dot :: (List.ofFn fun i : Fin 3 => bytes ⟨8 + i, extension_lt i⟩).takeWhile (· != space)
      else []

/-- Reads one slot of a directory. -/
def decodeSlot (bytes : SlotBytes) : Slot :=
  if bytes 0 = entryNeverUsed then .end'
  else if bytes 0 = entryDeleted then .skip
  else if bytes 11 &&& attrLongName = attrLongName ∨ bytes 11 &&& attrVolumeLabel ≠ 0 then .skip
  else
    .entry ⟨slotName bytes, bytes 11,
      2 ^ 16 * le16 (bytes 20) (bytes 21) + le16 (bytes 26) (bytes 27),
      le32 (bytes 28) (bytes 29) (bytes 30) (bytes 31)⟩

/-! ### Names -/

/-- Eleven bytes: what a name looks like in a slot. -/
abbrev EncodedName := Fin 11 → UInt8

/-- The bytes the format reserves. -/
def reservedInNames : List UInt8 :=
  [0x22, 0x2A, 0x2F, 0x3A, 0x3C, 0x3E, 0x3F, 0x5C, 0x7C, 0x2B, 0x2C, 0x3B, 0x3D, 0x5B, 0x5D, 0x20]

/-- What a short name may hold, upper-cased. -/
def allowedInAName (byte : UInt8) : Option UInt8 :=
  if 0x80 ≤ byte.toNat ∨ byte.toNat < 0x20 ∨ byte.toNat = 0x7F
    ∨ reservedInNames.contains byte then
    none
  else some (toAsciiUppercase byte)

/-- `str::split_once('.')`, with nothing for the extension where there is no dot. -/
def splitName (name : List UInt8) : List UInt8 × List UInt8 :=
  (name.takeWhile (· != dot), (name.dropWhile (· != dot)).drop 1)

/-- Eight characters and three, space-padded, upper case, with no dot between them; `none` for
a name that does not fit. -/
def encodeName (name : List UInt8) : Option EncodedName :=
  let (base, extension) := splitName name
  if base.isEmpty ∨ 8 < base.length ∨ 3 < extension.length then none
  else
    match base.mapM allowedInAName, extension.mapM allowedInAName with
    | some base, some extension =>
        let encoded : EncodedName := fun i =>
          if i.val < 8 then base.getD i space else extension.getD (i - 8) space
        if encoded 0 = entryDeleted then none else some encoded
    | _, _ => none

lemma allowedInAName_ne_zero {byte allowed : UInt8} (h : allowedInAName byte = some allowed) :
    allowed ≠ 0 := by
  rw [allowedInAName] at h
  split at h
  · cases h
  next hbyte =>
    rw [← Option.some.inj h, toAsciiUppercase]
    simp only [not_or, Nat.not_lt] at hbyte
    intro hzero
    split at hzero
    next hletter =>
      have hnat := congrArg UInt8.toNat hzero
      rw [UInt8.toNat_ofNat', Nat.mod_eq_of_lt (by omega)] at hnat
      have : (0 : UInt8).toNat = 0 := rfl
      omega
    next =>
      rw [hzero] at hbyte
      exact absurd hbyte.2.1 (by decide)

lemma encodeName_first {name : List UInt8} {encoded : EncodedName}
    (h : encodeName name = some encoded) :
    encoded 0 ≠ entryNeverUsed ∧ encoded 0 ≠ entryDeleted := by
  rw [encodeName] at h
  dsimp only at h
  split at h
  · cases h
  next hfits =>
    split at h
    · next base extension hbase _ =>
        rw [Option.ite_none_left_eq_some] at h
        obtain ⟨hkept, h⟩ := h
        obtain rfl := Option.some.inj h
        refine ⟨?_, hkept⟩
        -- the first byte is one the base has, and none of those is zero
        cases hname : (splitName name).1 with
        | nil => exact absurd (Or.inl (by rw [hname]; rfl)) hfits
        | cons byte rest =>
            rw [hname, List.mapM_cons] at hbase
            cases hallowed : allowedInAName byte with
            | none => rw [hallowed] at hbase; cases hbase
            | some allowed =>
                rw [hallowed] at hbase
                cases hrest : rest.mapM allowedInAName with
                | none => rw [hrest] at hbase; cases hbase
                | some rest' =>
                    rw [hrest] at hbase
                    obtain rfl : allowed :: rest' = base := Option.some.inj hbase
                    exact allowedInAName_ne_zero hallowed
    · cases h

/-- Whether a slot stores this name, ignoring case. -/
def storesName (bytes : SlotBytes) (name : EncodedName) : Bool :=
  (List.finRange 11).all fun i => eqIgnoreAsciiCase (bytes ⟨i, stored_lt i⟩) (name i)

/-- The slot `write_file` makes for a file. -/
def fileSlot (name : EncodedName) (first size : ℕ) : SlotBytes := fun i =>
  if h : i.val < 11 then name ⟨i, h⟩
  else if i.val = 11 then attrArchive
  else if i.val = 20 then leByte first 2
  else if i.val = 21 then leByte first 3
  else if i.val = 26 then leByte first 0
  else if i.val = 27 then leByte first 1
  else if 28 ≤ i.val then leByte size (i - 28)
  else 0

end Harlan.Fat
