import Mathlib.Tactic
import Harlan.Hal

/-!
Reading an ELF64 program (`hal/src/elf.rs`): the header and the program headers of a static
executable, every number checked before it becomes an address.

A file is a list of bytes and the fields are read little-endian. The loop over the program
headers is `readSegments`, one header of it `readSegment`.

* `parse_segment`: every segment of a program that was accepted is not empty and ends below
  the bound the caller gave.
* `parse_carried`: the file has what the segment says it has, and no segment is to be both
  written and executed.
* `Segment.pages`: the pages the loader visits for a segment (`kernel/src/process.rs`, `load`).
-/

namespace Harlan.Elf

/-! ### Fields of a file -/

/-- `width` little-endian bytes from `offset` on. -/
def field (bytes : List UInt8) (offset : ℕ) : ℕ → ℕ
  | 0 => 0
  | width + 1 => (bytes.getD offset 0).toNat + 256 * field bytes (offset + 1) width

/-- Two bytes at `offset`, little endian. -/
def u16At (bytes : List UInt8) (offset : ℕ) : ℕ := field bytes offset 2

/-- Four bytes at `offset`, little endian. -/
def u32At (bytes : List UInt8) (offset : ℕ) : ℕ := field bytes offset 4

/-- Eight bytes at `offset`, little endian. -/
def u64At (bytes : List UInt8) (offset : ℕ) : ℕ := field bytes offset 8

/-- The first four bytes of every ELF file. -/
def magic : List UInt8 := [0x7F, 0x45, 0x4C, 0x46]
/-- The class of a 64-bit file. -/
def class64 : UInt8 := 2
/-- The data encoding of a little-endian file. -/
def dataLittleEndian : UInt8 := 1
/-- The only version of the format. -/
def versionCurrent : UInt8 := 1
/-- `ET_EXEC`: statically linked, at fixed addresses. -/
def typeExecutable : ℕ := 2
/-- `EM_X86_64`. -/
def machineX8664 : ℕ := 0x3E
/-- The size of the file header. -/
def headerBytes : ℕ := 64
/-- The size of one program header. -/
def programHeaderBytes : ℕ := 56
/-- A segment that is loaded into memory. -/
def ptLoad : ℕ := 1

/-- `PF_X`: the segment is code. -/
def flagExecute : ℕ := 1
/-- `PF_W`: the segment is written. -/
def flagWrite : ℕ := 2

/-- How many loadable segments a program may have. -/
def maxSegments : ℕ := 8

/-- Why a file is not loaded. -/
inductive ElfError where
  | notElf
  | notSixtyFourBitLittleEndian (class' data version : UInt8)
  | notAStaticExecutable (kind : ℕ)
  | notX8664 (machine : ℕ)
  | truncated (needed length : ℕ)
  | badProgramHeaders (entrySize count : ℕ)
  | segmentOutsideFile (offset size : ℕ)
  | segmentShrinks (fileSize memorySize : ℕ)
  | segmentOfNothing (addr : ℕ)
  | segmentOutsideUserSpace (addr size : ℕ)
  | segmentWritableAndExecutable (addr : ℕ)
  | tooManySegments (count : ℕ)
  | noSegments
  | entryOutsideSegments (entry : ℕ)
deriving DecidableEq

/-- One piece of a program, as the file describes it. -/
structure Segment where
  fileOffset : ℕ
  fileSize : ℕ
  addr : ℕ
  memorySize : ℕ
  flags : ℕ
deriving DecidableEq

namespace Segment

/-- Whether the program may write into the segment. -/
def writable (segment : Segment) : Bool := segment.flags &&& flagWrite != 0

/-- Whether the segment holds code. -/
def executable (segment : Segment) : Bool := segment.flags &&& flagExecute != 0

/-- Where it ends in memory. -/
def endAddr (segment : Segment) : ℕ := segment.addr + segment.memorySize

/-- The pages the loader maps for a segment, in order. -/
def pages (segment : Segment) : List ℕ :=
  let first := pageContaining segment.addr
  let last := pageContaining (segment.endAddr - 1)
  (List.range ((last - first) / frameSize + 1)).map (first + · * frameSize)

end Segment

/-- A program, read far enough to be loaded. -/
structure Program where
  entry : ℕ
  segments : List Segment
deriving DecidableEq

/-! ### Reading -/

/-- One program header: a segment to load, or `none` for one this loader does not act on. -/
def readSegment (file : List UInt8) (userSpaceEnd : ℕ) (offset : ℕ) :
    Except ElfError (Option Segment) :=
  let header := (file.drop offset).take programHeaderBytes
  if u32At header 0 ≠ ptLoad then .ok none
  else
    let fileOffset := u64At header 8
    let fileSize := u64At header 32
    let memorySize := u64At header 40
    let address := u64At header 16
    let flags := u32At header 4
    if 2 ^ 64 ≤ fileOffset + fileSize ∨ file.length < fileOffset + fileSize then
      .error (.segmentOutsideFile fileOffset fileSize)
    else if memorySize < fileSize then .error (.segmentShrinks fileSize memorySize)
    else if memorySize = 0 then .error (.segmentOfNothing address)
    else if ¬(address + memorySize < 2 ^ 64 ∧ address + memorySize ≤ userSpaceEnd) then
      .error (.segmentOutsideUserSpace address memorySize)
    else if flags &&& flagWrite ≠ 0 ∧ flags &&& flagExecute ≠ 0 then
      .error (.segmentWritableAndExecutable address)
    else .ok (some ⟨fileOffset, fileSize, address, memorySize, flags⟩)

/-- The loop over the headers at the given places, after the segments found so far. -/
def readSegments (file : List UInt8) (userSpaceEnd : ℕ) :
    List ℕ → List Segment → Except ElfError (List Segment)
  | [], segments => .ok segments
  | offset :: rest, segments =>
      match readSegment file userSpaceEnd offset with
      | .error err => .error err
      | .ok none => readSegments file userSpaceEnd rest segments
      | .ok (some segment) =>
          if segments.length = maxSegments then .error (.tooManySegments (segments.length + 1))
          else readSegments file userSpaceEnd rest (segments ++ [segment])

/-- Reads a program out of `file`; `userSpaceEnd` is the first address a program may not
reach. -/
def parse (file : List UInt8) (userSpaceEnd : ℕ) : Except ElfError Program :=
  if file.length < headerBytes ∨ file.take 4 ≠ magic then .error .notElf
  else
    let class' := file.getD 4 0
    let data := file.getD 5 0
    let version := file.getD 6 0
    if class' ≠ class64 ∨ data ≠ dataLittleEndian ∨ version ≠ versionCurrent then
      .error (.notSixtyFourBitLittleEndian class' data version)
    else if u16At file 16 ≠ typeExecutable then .error (.notAStaticExecutable (u16At file 16))
    else if u16At file 18 ≠ machineX8664 then .error (.notX8664 (u16At file 18))
    else
      let entrySize := u16At file 54
      let count := u16At file 56
      if entrySize ≠ programHeaderBytes ∨ count = 0 then
        .error (.badProgramHeaders entrySize count)
      else
        let table := u64At file 32
        let tableEnd := satAdd table (count * entrySize)
        if file.length < tableEnd then .error (.truncated tableEnd file.length)
        else
          match readSegments file userSpaceEnd
              ((List.range count).map fun index => table + index * entrySize) [] with
          | .error err => .error err
          | .ok segments =>
              let entry := u64At file 24
              if segments = [] then .error .noSegments
              else if segments.any fun segment =>
                  decide (segment.addr ≤ entry) && decide (entry < segment.endAddr)
                    && segment.executable then
                .ok ⟨entry, segments⟩
              else .error (.entryOutsideSegments entry)

/-! ### What is accepted -/

/-- A segment occupies something, and ends below the bound. -/
def Segment.Inside (userSpaceEnd : ℕ) (segment : Segment) : Prop :=
  0 < segment.memorySize ∧ segment.endAddr ≤ userSpaceEnd ∧ segment.endAddr < 2 ^ 64

lemma readSegment_inside {file : List UInt8} {userSpaceEnd offset : ℕ} {segment : Segment}
    (h : readSegment file userSpaceEnd offset = .ok (some segment)) :
    segment.Inside userSpaceEnd := by
  rw [readSegment] at h
  generalize (file.drop offset).take programHeaderBytes = header at h
  dsimp only at h
  split_ifs at h with _ _ _ hzero hout
  · cases h
  · rw [Except.ok.injEq, Option.some.injEq] at h
    subst h
    rw [Segment.Inside, Segment.endAddr]
    exact ⟨Nat.pos_of_ne_zero hzero, hout.2, hout.1⟩

/-- What the file has of a segment is inside it and not more than the segment takes, and the
segment is not to be both written and executed. -/
structure Segment.Carried (file : List UInt8) (segment : Segment) : Prop where
  inFile : segment.fileOffset + segment.fileSize ≤ file.length
  fits : segment.fileSize ≤ segment.memorySize
  exclusive : ¬(segment.writable = true ∧ segment.executable = true)

lemma readSegment_carried {file : List UInt8} {userSpaceEnd offset : ℕ} {segment : Segment}
    (h : readSegment file userSpaceEnd offset = .ok (some segment)) : segment.Carried file := by
  rw [readSegment] at h
  generalize (file.drop offset).take programHeaderBytes = header at h
  dsimp only at h
  split_ifs at h with _ hfile hshrinks _ _ hboth
  · cases h
  · rw [Except.ok.injEq, Option.some.injEq] at h
    subst h
    refine ⟨by dsimp only; omega, by dsimp only; omega, ?_⟩
    rintro ⟨hw, hx⟩
    simp only [Segment.writable, Segment.executable, bne_iff_ne] at hw hx
    exact hboth ⟨hw, hx⟩

/-- What holds of every segment that is read holds of all that were found. -/
lemma readSegments_forall {P : Segment → Prop} {file : List UInt8} {userSpaceEnd : ℕ}
    {places : List ℕ} {found segments : List Segment}
    (hread : ∀ offset segment, readSegment file userSpaceEnd offset
      = .ok (some segment) → P segment)
    (h : readSegments file userSpaceEnd places found = .ok segments)
    (hfound : ∀ segment ∈ found, P segment) : ∀ segment ∈ segments, P segment := by
  induction places generalizing found with
  | nil =>
      cases h
      exact hfound
  | cons offset rest ih =>
      rw [readSegments] at h
      rcases hone : readSegment file userSpaceEnd offset with err | _ | segment
      · rw [hone] at h
        cases h
      · rw [hone] at h
        exact ih h hfound
      · rw [hone] at h
        dsimp only at h
        split_ifs at h
        refine ih h fun segment' hmem => ?_
        rw [List.mem_append, List.mem_singleton] at hmem
        obtain hmem | rfl := hmem
        · exact hfound segment' hmem
        · exact hread offset segment' hone

/-- So it does of those of an accepted program. -/
lemma parse_forall {P : Segment → Prop} {file : List UInt8} {userSpaceEnd : ℕ} {program : Program}
    (hread : ∀ offset segment, readSegment file userSpaceEnd offset
      = .ok (some segment) → P segment)
    (h : parse file userSpaceEnd = .ok program) : ∀ segment ∈ program.segments, P segment := by
  rw [parse] at h
  dsimp only at h
  split_ifs at h
  split at h
  · cases h
  · rename_i segments hsegments
    split_ifs at h
    rw [Except.ok.injEq] at h
    subst h
    exact readSegments_forall hread hsegments fun segment hmem => by cases hmem

/-- Every segment of an accepted program is not empty and ends below the bound. -/
lemma parse_segment {file : List UInt8} {userSpaceEnd : ℕ} {program : Program}
    (h : parse file userSpaceEnd = .ok program) :
    ∀ segment ∈ program.segments, segment.Inside userSpaceEnd :=
  parse_forall (fun _ _ => readSegment_inside) h

lemma parse_carried {file : List UInt8} {userSpaceEnd : ℕ} {program : Program}
    (h : parse file userSpaceEnd = .ok program) : ∀ segment ∈ program.segments,
      segment.Carried file :=
  parse_forall (fun _ _ => readSegment_carried) h

/-- A page the loader maps lies below the end of its segment. -/
lemma Segment.page_lt {segment : Segment} {userSpaceEnd page : ℕ}
    (h : segment.Inside userSpaceEnd) (hpage : page ∈ segment.pages) : page < userSpaceEnd := by
  obtain ⟨hpos, hend, -⟩ := h
  simp only [Segment.pages, List.mem_map, List.mem_range, pageContaining, frameSize] at hpage
  obtain ⟨k, hk, rfl⟩ := hpage
  simp only [Segment.endAddr] at hend hk
  omega

end Harlan.Elf
