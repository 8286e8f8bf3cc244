import Mathlib.Tactic
import Harlan.Fat.Pieces

/-!
The disk, where a syscall can reach it (`kernel/src/fs.rs`).

The medium may fail under any call. How it behaves during one is a `Medium`: how many of the
writes of the call take effect, whether a read fails, and what a read that fails had put in the
caller's buffer by then.

* `find`, `readAt`, `writeFile`, `entryAt`: what a syscall asks of the disk.
* `readAt_length`, `writeFile_cases`: what a read answers at most, and what a write leaves.
-/

namespace Harlan.Fs

open Fat

/-- How the medium behaves during one call. -/
structure Medium where
  /-- How many writes take effect. -/
  left : ℕ
  /-- Whether a read of a sector fails. -/
  fails : Bool
  /-- What a read that did not succeed had copied. -/
  copied : List UInt8

/-- The disk and its boot sector. -/
structure Mounted where
  boot : BootSector
  disk : Disk
  /-- Whether this volume said it was ours when it was adopted. -/
  ours : Bool

/-- Why a file is neither read nor written. -/
inductive FileError where
  | noDisk
  | badName
  | noSuchFile
  | isADirectory
  | open'
  | notOurDisk
  | reading (err : VolumeError)
  /-- A sector could not be read. -/
  | device
  | writing (err : WriteError)
deriving DecidableEq

/-- The serial number of the volume that is this kernel's. -/
def ourSerial : ℕ := 0x4841524C

/-- `HARLAN`. -/
def ourLabel : List UInt8 := [0x48, 0x41, 0x52, 0x4C, 0x41, 0x4E]

/-- The label of a volume as text, without its padding; empty when it is not text. -/
def labelText (id : VolumeId) : List UInt8 :=
  let text := (id.label.reverse.dropWhile (· == space)).reverse
  if validUtf8 text then text else []

/-- Whether a volume says it is the one this kernel's tooling made. -/
def isOurs (boot : BootSector) : Bool :=
  boot.volumeId.any fun id => id.serial == ourSerial && labelText id == ourLabel

/-- Takes the disk over. -/
def adopt (boot : BootSector) (disk : Disk) : Mounted := ⟨boot, disk, isOurs boot⟩

/-- Asks something of the mounted volume that only reads it. -/
def ask {α : Type} (disk : Option Mounted) (medium : Medium)
    (operation : BootSector → Reading α) :
    Except FileError α :=
  match disk with
  | none => .error .noDisk
  | some mounted =>
      if medium.fails then .error .device
      else
        match (operation mounted.boot ⟨mounted.disk, 0⟩).1 with
        | .ok answer => .ok answer
        | .error err => .error (.reading err)

/-- Finds a file in the root directory by name. -/
def find (disk : Option Mounted) (medium : Medium) (name : List UInt8) :
    Except FileError DirectoryEntry :=
  if (encodeName name).isNone then .error .badName
  else
    match ask disk medium (Fat.find · name) with
    | .ok (some entry) => if entry.isDirectory then .error .isADirectory else .ok entry
    | .ok none => .error .noSuchFile
    | .error err => .error err

/-- At most `room` bytes from `offset` bytes into the file. -/
def readAt (disk : Option Mounted) (medium : Medium) (entry : DirectoryEntry) (offset room : ℕ) :
    Except FileError (List UInt8) :=
  ask disk medium (Fat.readAt · entry offset room)

/-- The entry at position `index` in the root directory. -/
def entryAt (disk : Option Mounted) (medium : Medium) (index : ℕ) :
    Except FileError DirectoryEntry :=
  let each (state : ℕ × Option DirectoryEntry) (entry : DirectoryEntry) :=
    if state.1 = index then ((state.1, some entry), false) else ((state.1 + 1, state.2), true)
  match ask disk medium (readRoot · each (0, none)) with
  | .ok (_, some entry) => .ok entry
  | .ok (_, none) => .error .noSuchFile
  | .error err => .error err

/-- Writes a whole file, creating or replacing it, unless somebody has it open. -/
def writeFile (disk : Option Mounted) (medium : Medium) (anyoneHasOpen : List UInt8 → Bool)
    (name contents : List UInt8) : Except FileError DirectoryEntry × Option Mounted :=
  -- before anything else, including before deciding the name is bad
  if !(disk.any Mounted.ours) then (.error .notOurDisk, disk)
  else if (encodeName name).isNone then (.error .badName, disk)
  else if anyoneHasOpen name then (.error .open', disk)
  else
    match disk with
    | none => (.error .noDisk, disk)
    | some mounted =>
        let (written, device) :=
          Fat.writeFile mounted.boot name contents ⟨mounted.disk, medium.left⟩
        let answer :=
          if medium.fails then .error (.writing .device)
          else
            match written with
            | .ok entry => .ok entry
            | .error .isADirectory => .error .isADirectory
            | .error err => .error (.writing err)
        (answer, some { mounted with disk := device.disk })

/-- Something a volume answers, it answered from the disk. -/
lemma ask_ok {α : Type} {disk : Option Mounted} {medium : Medium}
    {operation : BootSector → Reading α} {answer : α}
    (h : ask disk medium operation = .ok answer) :
    ∃ mounted, disk = some mounted ∧ (operation mounted.boot ⟨mounted.disk, 0⟩).1
      = .ok answer := by
  cases disk with
  | none => cases h
  | some mounted =>
      rw [ask] at h
      split_ifs at h
      rcases hasked : operation mounted.boot ⟨mounted.disk, 0⟩ with ⟨err | answer', dev⟩
      · rw [hasked] at h
        cases h
      · rw [hasked] at h
        obtain rfl := Except.ok.inj h
        exact ⟨mounted, rfl, by rw [hasked]⟩

/-- A file that is found is one the volume has. -/
lemma find_ok {disk : Option Mounted} {medium : Medium} {name : List UInt8}
    {entry : DirectoryEntry} (h : find disk medium name = .ok entry) :
    ∃ mounted, disk = some mounted ∧ (Fat.find mounted.boot name ⟨mounted.disk, 0⟩).1
      = .ok (some entry) := by
  rw [find] at h
  split_ifs at h
  split at h
  next found hasked =>
    split_ifs at h
    obtain rfl := Except.ok.inj h
    exact ask_ok hasked
  · cases h
  · cases h

/-- A read answers no more than there is room for. -/
lemma readAt_length {disk : Option Mounted} {medium : Medium} {entry : DirectoryEntry}
    {offset room : ℕ} {bytes : List UInt8}
    (h : readAt disk medium entry offset room = .ok bytes) : bytes.length ≤ room := by
  obtain ⟨mounted, -, hanswer⟩ := ask_ok h
  have hlength := @Fat.readAt_length mounted.boot entry offset room ⟨mounted.disk, 0⟩ trivial
  rcases hread : Fat.readAt mounted.boot entry offset room
    ⟨mounted.disk, 0⟩ with ⟨err | read, dev⟩
  · rw [hread] at hanswer
    cases hanswer
  · rw [hread] at hanswer hlength
    obtain rfl := Except.ok.inj hanswer
    exact hlength

/-- What a write leaves: the disk as it was, or a disk of the same volume that `write_file` of the
volume was at work on. -/
lemma writeFile_cases (disk : Option Mounted) (medium : Medium)
    (anyoneHasOpen : List UInt8 → Bool) (name contents : List UInt8) :
    (writeFile disk medium anyoneHasOpen name contents).2 = disk
      ∨ ∃ mounted, disk = some mounted ∧ (encodeName name).isSome = true
        ∧ anyoneHasOpen name = false
          ∧ (writeFile disk medium anyoneHasOpen name contents).2 = some { mounted with
              disk := (Fat.writeFile mounted.boot name contents
                ⟨mounted.disk, medium.left⟩).2.disk } := by
  cases disk with
  | none => exact .inl rfl
  | some mounted =>
      rw [writeFile]
      by_cases hours : (!(some mounted).any Mounted.ours) = true
      · rw [if_pos hours]
        exact .inl rfl
      by_cases hname : (encodeName name).isNone = true
      · rw [if_neg hours, if_pos hname]
        exact .inl rfl
      by_cases hopen : anyoneHasOpen name = true
      · rw [if_neg hours, if_neg hname, if_pos hopen]
        exact .inl rfl
      · rw [if_neg hours, if_neg hname, if_neg hopen]
        refine .inr ⟨mounted, rfl, ?_, Bool.eq_false_iff.mpr hopen, rfl⟩
        rwa [Option.isSome_iff_ne_none, ne_eq, ← Option.isNone_iff_eq_none]

end Harlan.Fs
