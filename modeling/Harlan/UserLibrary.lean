import Mathlib.Tactic
import Harlan.Fat.FormatReads
import Harlan.Lib.Slices
import Harlan.Syscall

/-! The library a program is built with (`user/abi/src/lib.rs`): reading the records that `list`
fills in.

It has its own copies of the offsets, and looks for the end of a name in its padding. A name has
no space of its own, since a slot's name ends at its first.

* `space_notMem_slotName`, `length_slotName_le`: what any slot's name is.
* `entry_roundTrip`: a program reads what the directory says.
-/

namespace Harlan.UserLibrary

/-! ### The layout of a record -/

/-- Where the name begins and ends. -/
def entryNameField : ℕ × ℕ := (0, 12)

/-- Where the attributes are. -/
def entryAttributesField : ℕ := 12

/-- Where the size begins and ends. -/
def entrySizeField : ℕ × ℕ := (16, 20)

/-- The bit of the attributes that a directory has. -/
def attrDirectory : UInt8 := 0x10

/-! ### Reading one -/

/-- The name out of a record, without its padding; `none` if the record is too short to hold one,
or the name is not text. -/
def entryName (record : List UInt8) : Option (List UInt8) :=
  (getRange record entryNameField.1 entryNameField.2).bind fun field =>
    let last := (field.findIdx? (· == 0x20)).getD field.length
    (getRange field 0 last).bind fun name => if Fat.validUtf8 name then some name else none

/-- The size out of a record. -/
def entrySize (record : List UInt8) : Option ℕ :=
  (getRange record entrySizeField.1 entrySizeField.2).map fun field =>
    Fat.le32 (field.getD 0 0) (field.getD 1 0) (field.getD 2 0) (field.getD 3 0)

/-- Whether a record is that of a directory. -/
def entryIsDirectory (record : List UInt8) : Bool :=
  (record[entryAttributesField]?).any fun attributes => attributes &&& attrDirectory != 0

/-! ### The names of slots -/

open Fat (SlotBytes)

lemma space_notMem_takeWhile (field : List UInt8) :
    Fat.space ∉ field.takeWhile (· != Fat.space) := by
  intro hmem
  have hspace := List.mem_takeWhile_imp hmem
  simp at hspace

/-- The name of a slot ends at its first space. -/
lemma space_notMem_slotName (bytes : SlotBytes) : Fat.space ∉ Fat.slotName bytes := by
  rw [Fat.slotName, List.mem_append, not_or]
  refine ⟨space_notMem_takeWhile _, ?_⟩
  split_ifs
  · rw [List.mem_cons, not_or]
    exact ⟨by decide, space_notMem_takeWhile _⟩
  · exact List.not_mem_nil

lemma length_slotName_le (bytes : SlotBytes) : (Fat.slotName bytes).length ≤ 12 := by
  have hbase := (List.takeWhile_sublist (l := Fat.baseField bytes) (· != Fat.space)).length_le
  have hextension :=
    (List.takeWhile_sublist (l := Fat.extensionField bytes) (· != Fat.space)).length_le
  rw [Fat.baseField, List.length_ofFn] at hbase
  rw [Fat.extensionField, List.length_ofFn] at hextension
  rw [Fat.slotName, List.length_append]
  split_ifs
  · rw [List.length_cons]
    omega
  · rw [List.length_nil]
    omega

/-- What there is to know of a name that a program is given: it is text, it fits, and it has no
space. -/
lemma nameText_slotEntry (bytes : SlotBytes) :
    Fat.validUtf8 (Fat.slotEntry bytes).nameText = true
      ∧ (Fat.slotEntry bytes).nameText.length ≤ 12
      ∧ Fat.space ∉ (Fat.slotEntry bytes).nameText := by
  rw [Fat.DirectoryEntry.nameText]
  split_ifs with htext
  · exact ⟨htext, length_slotName_le bytes, space_notMem_slotName bytes⟩
  · exact ⟨rfl, by simp, List.not_mem_nil⟩

/-! ### The round trip -/

/-- The search for the padding finds the end of a name that has no space, also where there is
none. -/
lemma findIdx?_padded {name : List UInt8} (h : Fat.space ∉ name) (count : ℕ) :
    ((name ++ List.replicate count Fat.space).findIdx? (· == 0x20)).getD
        (name ++ List.replicate count Fat.space).length = name.length := by
  have hnone : name.findIdx? (· == 0x20) = none := by
    rw [List.findIdx?_eq_none_iff]
    intro byte hbyte
    rw [beq_eq_false_iff_ne]
    rintro rfl
    exact h hbyte
  rw [List.findIdx?_append, hnone, Option.none_or]
  cases count with
  | zero => simp
  | succ count =>
      rw [List.replicate_succ, List.findIdx?_cons, if_pos (by decide), Option.map_some,
        Option.getD_some, Nat.zero_add]

variable {entry : Fat.DirectoryEntry}

lemma entryName_encodeEntry (htext : Fat.validUtf8 entry.nameText = true)
    (hfits : entry.nameText.length ≤ 12) (hspace : Fat.space ∉ entry.nameText) :
    entryName (Turns.encodeEntry entry) = some entry.nameText := by
  have hfield : getRange (Turns.encodeEntry entry) 0 12
      = some (entry.nameText ++ List.replicate (12 - entry.nameText.length) Fat.space) := by
    rw [Turns.encodeEntry, List.take_of_length_le hfits]
    rw [List.append_assoc]
    refine getRange_append []
      (entry.nameText ++ List.replicate (12 - entry.nameText.length) Fat.space) _ rfl ?_
    simp only [List.length_nil, List.length_append, List.length_replicate]
    omega
  have hname : getRange
      (entry.nameText ++ List.replicate (12 - entry.nameText.length) Fat.space) 0
      entry.nameText.length = some entry.nameText :=
    getRange_append [] entry.nameText _ rfl (Nat.zero_add _).symm
  simp only [entryName, entryNameField, hfield, Option.bind_some]
  rw [findIdx?_padded hspace, hname, Option.bind_some, if_pos htext]

/-- The part of a record that holds a name is twelve bytes, whatever the name. -/
lemma length_nameField (name : List UInt8) :
    (name.take 12 ++ List.replicate (12 - (name.take 12).length) Fat.space).length = 12 := by
  have hname : (name.take 12).length ≤ 12 := List.length_take_le _ _
  rw [List.length_append, List.length_replicate]
  omega

lemma entrySize_encodeEntry (hsize : entry.size < 2 ^ 32) :
    entrySize (Turns.encodeEntry entry) = some entry.size := by
  have hfield : getRange (Turns.encodeEntry entry) 16 20 = some (leBytes 4 entry.size) := by
    rw [Turns.encodeEntry]
    rw [← List.append_nil (_ ++ leBytes 4 entry.size)]
    refine getRange_append _ _ _ ?_ ?_
    · rw [List.length_append, length_nameField]
      rfl
    · rw [List.length_append, length_nameField, length_leBytes]
      rfl
  simp only [entrySize, entrySizeField, hfield, Option.map_some, Fat32.le32_leBytes,
    Nat.mod_eq_of_lt hsize]

lemma entryIsDirectory_encodeEntry :
    entryIsDirectory (Turns.encodeEntry entry) = entry.isDirectory := by
  have hattributes : (Turns.encodeEntry entry)[12]? = some entry.attributes := by
    rw [Turns.encodeEntry]
    rw [List.append_assoc, List.getElem?_append_right (by rw [length_nameField]),
      length_nameField]
    rfl
  rw [entryIsDirectory, entryAttributesField, hattributes]
  rfl

/-- **A directory's records survive the trip**: a program reads, from the record that the kernel
makes of any slot in use, the name, the size and whether it is a directory, as the slot says
them. -/
theorem entry_roundTrip (bytes : SlotBytes) (entry : Fat.DirectoryEntry)
    (h : Fat.decodeSlot bytes = .entry entry) :
    entryName (Turns.encodeEntry entry) = some entry.nameText
      ∧ entrySize (Turns.encodeEntry entry) = some entry.size
      ∧ entryIsDirectory (Turns.encodeEntry entry) = entry.isDirectory := by
  obtain rfl := Fat.eq_slotEntry h
  obtain ⟨htext, hfits, hspace⟩ := nameText_slotEntry bytes
  exact ⟨entryName_encodeEntry htext hfits hspace,
    entrySize_encodeEntry (Fat.BootSector.le32_lt _ _ _ _), entryIsDirectory_encodeEntry⟩

/-- A directory called `ABCDEFGH.IJK`, whose name leaves no padding. -/
def fullSlot : SlotBytes := fun i =>
  ([0x41, 0x42, 0x43, 0x44, 0x45, 0x46, 0x47, 0x48, 0x49, 0x4A, 0x4B, 0x10, 0, 0, 0, 0, 0, 0, 0,
    0, 0, 0, 0, 0, 0, 0, 3, 0, 0xFF, 0, 0, 1] : List UInt8).getD i 0

theorem entry_roundTrip_full :
    ∃ entry, Fat.decodeSlot fullSlot = .entry entry ∧ entry.size = 0x010000FF
      ∧ entryName (Turns.encodeEntry entry)
          = some [0x41, 0x42, 0x43, 0x44, 0x45, 0x46, 0x47, 0x48, 0x2E, 0x49, 0x4A, 0x4B]
      ∧ entrySize (Turns.encodeEntry entry) = some 0x010000FF
      ∧ entryIsDirectory (Turns.encodeEntry entry) = true := by
  have hslot : Fat.decodeSlot fullSlot = .entry (Fat.slotEntry fullSlot) := by decide
  obtain ⟨hname, hsize, hdirectory⟩ := entry_roundTrip fullSlot _ hslot
  exact ⟨_, hslot, by decide, hname.trans (by decide), hsize.trans (by decide),
    hdirectory.trans (by decide)⟩

end Harlan.UserLibrary
