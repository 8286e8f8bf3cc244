import Mathlib.Tactic
import Harlan.Elf

/-!
What `parse` of `hal/src/elf.rs` does with any bytes, and exactly what it accepts.

`Checked.parse` is the function once more, with every index, slice and sum a step that can stop
the kernel.

* `Checked.parse_eq`: no such step is ever taken, and what is left is `parse`.
* `Loadable`: the header, the table and the segments of a program that can be loaded.
* `parse_exact`: **any bytes are read safely, and accepted exactly when they are loadable.**
-/

namespace Harlan.Elf

namespace Checked

/-- Why reading stopped: the file was refused, or the kernel stopped. -/
inductive Stop where
  | refused (err : ElfError)
  | outOfBounds (index length : ℕ)
  | overflow
deriving DecidableEq

/-- A reading that can stop: with a refusal, or where the source would panic. -/
abbrev Reading := Except Stop

/-- `a + b` in 64 bits. -/
def add (a b : ℕ) : Reading ℕ := if a + b < 2 ^ 64 then .ok (a + b) else .error .overflow

/-- `a * b` in 64 bits. -/
def mul (a b : ℕ) : Reading ℕ := if a * b < 2 ^ 64 then .ok (a * b) else .error .overflow

/-- `bytes[index]`. -/
def byteAt (bytes : List UInt8) (index : ℕ) : Reading UInt8 :=
  match bytes[index]? with
  | some byte => .ok byte
  | none => .error (.outOfBounds index bytes.length)

/-- `&bytes[first..last]`. -/
def slice (bytes : List UInt8) (first last : ℕ) : Reading (List UInt8) :=
  if first ≤ last ∧ last ≤ bytes.length then .ok ((bytes.drop first).take (last - first))
  else .error (.outOfBounds last bytes.length)

/-- `left` little-endian bytes, from the `i`-th after `offset` on. -/
def field (bytes : List UInt8) (offset : ℕ) : ℕ → ℕ → Reading ℕ
  | _, 0 => .ok 0
  | i, left + 1 => do
      let index ← add offset i
      let byte ← byteAt bytes index
      let rest ← field bytes offset (i + 1) left
      return byte.toNat + 256 * rest

/-- Two bytes at `offset`. An index past the end stops. -/
def u16At (bytes : List UInt8) (offset : ℕ) : Reading ℕ := field bytes offset 0 2

/-- Four bytes at `offset`. An index past the end stops. -/
def u32At (bytes : List UInt8) (offset : ℕ) : Reading ℕ := field bytes offset 0 4

/-- Eight bytes at `offset`. An index past the end stops. -/
def u64At (bytes : List UInt8) (offset : ℕ) : Reading ℕ := field bytes offset 0 8

/-- One program header. -/
def readSegment (file : List UInt8) (userSpaceEnd offset : ℕ) : Reading (Option Segment) := do
  let last ← add offset programHeaderBytes
  let header ← slice file offset last
  let kind ← u32At header 0
  if kind ≠ ptLoad then return none
  else
    let fileOffset ← u64At header 8
    let fileSize ← u64At header 32
    let memorySize ← u64At header 40
    let address ← u64At header 16
    let flags ← u32At header 4
    if 2 ^ 64 ≤ fileOffset + fileSize ∨ file.length < fileOffset + fileSize then
      .error (.refused (.segmentOutsideFile fileOffset fileSize))
    else if memorySize < fileSize then .error (.refused (.segmentShrinks fileSize memorySize))
    else if memorySize = 0 then .error (.refused (.segmentOfNothing address))
    else if ¬(address + memorySize < 2 ^ 64 ∧ address + memorySize ≤ userSpaceEnd) then
      .error (.refused (.segmentOutsideUserSpace address memorySize))
    else if flags &&& flagWrite ≠ 0 ∧ flags &&& flagExecute ≠ 0 then
      .error (.refused (.segmentWritableAndExecutable address))
    else return some ⟨fileOffset, fileSize, address, memorySize, flags⟩

/-- `segments[found] = Some(segment)`. -/
def store (segments : List Segment) (segment : Segment) : Reading (List Segment) :=
  if segments.length < maxSegments then .ok (segments ++ [segment])
  else .error (.outOfBounds segments.length maxSegments)

/-- The loop over the headers, by their number. -/
def readSegments (file : List UInt8) (userSpaceEnd table entrySize : ℕ) :
    List ℕ → List Segment → Reading (List Segment)
  | [], segments => .ok segments
  | index :: rest, segments => do
      let before ← mul index entrySize
      let offset ← add table before
      match ← readSegment file userSpaceEnd offset with
      | none => readSegments file userSpaceEnd table entrySize rest segments
      | some segment =>
          if segments.length = maxSegments then
            .error (.refused (.tooManySegments (segments.length + 1)))
          else
            let segments ← store segments segment
            readSegments file userSpaceEnd table entrySize rest segments

/-- Whether an executable segment has the entry point in it. -/
def inside (entry : ℕ) : List Segment → Reading Bool
  | [] => .ok false
  | segment :: rest =>
      if segment.addr ≤ entry then do
        let last ← add segment.addr segment.memorySize
        if entry < last ∧ segment.executable = true then return true
        else inside entry rest
      else inside entry rest

/-- `Elf.parse`, where every index, slice, sum and product is a stop if it does not fit. -/
def parse (file : List UInt8) (userSpaceEnd : ℕ) : Reading Program :=
  if file.length < headerBytes then .error (.refused .notElf)
  else do
    let start ← slice file 0 4
    if start ≠ magic then .error (.refused .notElf)
    else
      let class' ← byteAt file 4
      let data ← byteAt file 5
      let version ← byteAt file 6
      if class' ≠ class64 ∨ data ≠ dataLittleEndian ∨ version ≠ versionCurrent then
        .error (.refused (.notSixtyFourBitLittleEndian class' data version))
      else
        let kind ← u16At file 16
        if kind ≠ typeExecutable then .error (.refused (.notAStaticExecutable kind))
        else
          let machine ← u16At file 18
          if machine ≠ machineX8664 then .error (.refused (.notX8664 machine))
          else
            let entrySize ← u16At file 54
            let count ← u16At file 56
            if entrySize ≠ programHeaderBytes ∨ count = 0 then
              .error (.refused (.badProgramHeaders entrySize count))
            else
              let table ← u64At file 32
              let tableSize ← mul count entrySize
              let tableEnd := satAdd table tableSize
              if file.length < tableEnd then .error (.refused (.truncated tableEnd file.length))
              else
                let segments ← readSegments file userSpaceEnd table entrySize
                    (List.range count) []
                if segments = [] then .error (.refused .noSegments)
                else
                  let entry ← u64At file 24
                  let found ← inside entry segments
                  if found then return ⟨entry, segments⟩
                  else .error (.refused (.entryOutsideSegments entry))

/-! ### No such step is taken -/

lemma ok_bind {α β : Type} (a : α) (f : α → Reading β) : (Except.ok a >>= f) = f a := rfl

lemma add_ok {a b : ℕ} (h : a + b < 2 ^ 64) : add a b = .ok (a + b) := if_pos h

lemma mul_ok {a b : ℕ} (h : a * b < 2 ^ 64) : mul a b = .ok (a * b) := if_pos h

lemma byteAt_ok {bytes : List UInt8} {index : ℕ} (h : index < bytes.length) :
    byteAt bytes index = .ok (bytes.getD index 0) := by
  rw [byteAt, List.getElem?_eq_getElem h, List.getD_eq_getElem?_getD, List.getElem?_eq_getElem h,
    Option.getD_some]

lemma slice_ok {bytes : List UInt8} {first last : ℕ} (h : first ≤ last)
    (h' : last ≤ bytes.length) :
    slice bytes first last = .ok ((bytes.drop first).take (last - first)) := if_pos ⟨h, h'⟩

/-- A field inside the bytes is read. -/
lemma field_ok {bytes : List UInt8} {offset : ℕ} (hlen : bytes.length < 2 ^ 63) (left i : ℕ)
    (h : offset + i + left ≤ bytes.length) :
    field bytes offset i left = .ok (Elf.field bytes (offset + i) left) := by
  induction left generalizing i with
  | zero => rfl
  | succ left ih =>
      rw [field, add_ok (by omega), ok_bind, byteAt_ok (by omega), ok_bind,
        ih (i + 1) (by omega), ok_bind, Elf.field, Nat.add_assoc]
      rfl

section Fields

variable {bytes : List UInt8} {offset : ℕ} (hlen : bytes.length < 2 ^ 63)

include hlen

lemma u16At_ok (h : offset + 2 ≤ bytes.length) :
    u16At bytes offset = .ok (Elf.u16At bytes offset) :=
  field_ok hlen 2 0 h

lemma u32At_ok (h : offset + 4 ≤ bytes.length) :
    u32At bytes offset = .ok (Elf.u32At bytes offset) :=
  field_ok hlen 4 0 h

lemma u64At_ok (h : offset + 8 ≤ bytes.length) :
    u64At bytes offset = .ok (Elf.u64At bytes offset) :=
  field_ok hlen 8 0 h

end Fields

lemma field_lt (bytes : List UInt8) (offset width : ℕ) :
    Elf.field bytes offset width < 256 ^ width := by
  induction width generalizing offset with
  | zero => exact Nat.one_pos
  | succ width ih =>
      have hrest := ih (offset + 1)
      have hbyte := (bytes.getD offset 0).toNat_lt
      rw [Elf.field, pow_succ]
      omega

/-- A header inside the file is read as it is. -/
lemma readSegment_eq {file : List UInt8} {userSpaceEnd offset : ℕ} (hlen : file.length < 2 ^ 63)
    (h : offset + programHeaderBytes ≤ file.length) :
    readSegment file userSpaceEnd offset
      = (Elf.readSegment file userSpaceEnd offset).mapError .refused := by
  have hheader : ((file.drop offset).take programHeaderBytes).length = 56 := by
    rw [List.length_take, List.length_drop]
    rw [programHeaderBytes] at *
    omega
  have hsize : programHeaderBytes = 56 := rfl
  rw [readSegment, add_ok (by omega), ok_bind, slice_ok (by omega) h, ok_bind,
    Nat.add_sub_cancel_left, Elf.readSegment]
  generalize (file.drop offset).take programHeaderBytes = header at hheader
  have hshort : header.length < 2 ^ 63 := by omega
  rw [u32At_ok hshort (by omega), ok_bind]
  dsimp only
  by_cases hkind : Elf.u32At header 0 ≠ ptLoad
  · rw [if_pos hkind, if_pos hkind]
    rfl
  rw [if_neg hkind, if_neg hkind, u64At_ok hshort (by omega), ok_bind,
    u64At_ok hshort (by omega), ok_bind, u64At_ok hshort (by omega), ok_bind,
    u64At_ok hshort (by omega), ok_bind, u32At_ok hshort (by omega), ok_bind]
  split_ifs <;> rfl

lemma readSegments_eq {file : List UInt8} {userSpaceEnd table entrySize : ℕ} {indices : List ℕ}
    {found : List Segment} (hlen : file.length < 2 ^ 63) (hfound : found.length ≤ maxSegments)
    (h : ∀ index ∈ indices, table + index * entrySize + programHeaderBytes ≤ file.length) :
    readSegments file userSpaceEnd table entrySize indices found
      = (Elf.readSegments file userSpaceEnd
        (indices.map fun index => table + index * entrySize) found).mapError
          .refused := by
  induction indices generalizing found with
  | nil => rfl
  | cons index rest ih =>
      have hhere := h index List.mem_cons_self
      have hrest := fun other hother => h other (List.mem_cons_of_mem _ hother)
      rw [readSegments, mul_ok (by omega), ok_bind, add_ok (by omega), ok_bind,
        readSegment_eq hlen hhere, List.map_cons, Elf.readSegments]
      rcases hread : Elf.readSegment file userSpaceEnd (table + index * entrySize) with err
        | _ | segment
      · rfl
      · exact ih hfound hrest
      · by_cases hfull : found.length = maxSegments
        · simp only [Except.mapError, ok_bind, if_pos hfull]
        · have hroom : found.length < maxSegments := lt_of_le_of_ne hfound hfull
          simp only [Except.mapError, ok_bind, if_neg hfull, store, if_pos hroom]
          exact ih (by simpa using hroom) hrest

lemma inside_eq {entry userSpaceEnd : ℕ} {segments : List Segment}
    (h : ∀ segment ∈ segments, segment.Inside userSpaceEnd) :
    inside entry segments = .ok (segments.any fun segment =>
      decide (segment.addr ≤ entry) && decide (entry < segment.endAddr)
        && segment.executable) := by
  induction segments with
  | nil => rfl
  | cons segment rest ih =>
      have hrest := ih fun other hother => h other (List.mem_cons_of_mem _ hother)
      have htop := (h segment List.mem_cons_self).2.2
      rw [Segment.endAddr] at htop
      rw [inside, List.any_cons, ← Segment.endAddr] at *
      by_cases hlow : segment.addr ≤ entry
      · rw [if_pos hlow, add_ok htop, ok_bind, ← Segment.endAddr]
        by_cases hin : entry < segment.endAddr ∧ segment.executable = true
        · rw [if_pos hin]
          simp only [hlow, hin.1, hin.2, decide_true, Bool.and_self, Bool.true_or]
          rfl
        · rw [if_neg hin, hrest]
          have hout : (decide (entry < segment.endAddr) && segment.executable) = false := by
            simpa using hin
          rw [decide_eq_true hlow, Bool.true_and, hout, Bool.false_or]
      · rw [if_neg hlow, hrest]
        simp only [hlow, decide_false, Bool.false_and, Bool.false_or]

/-- **No byte is read outside the file and no sum leaves a word**: what is left is `parse`. -/
theorem parse_eq {file : List UInt8} (userSpaceEnd : ℕ) (hlen : file.length < 2 ^ 63) :
    parse file userSpaceEnd = (Elf.parse file userSpaceEnd).mapError .refused := by
  have hheader : headerBytes = 64 := rfl
  rw [parse, Elf.parse]
  by_cases hshort : file.length < headerBytes
  · rw [if_pos hshort, if_pos (.inl hshort)]
    rfl
  rw [if_neg hshort, slice_ok (by omega) (by omega), ok_bind, List.drop_zero]
  by_cases hmagic : file.take 4 ≠ magic
  · rw [if_pos hmagic, if_pos (.inr hmagic)]
    rfl
  rw [if_neg hmagic, if_neg (not_or.mpr ⟨hshort, hmagic⟩), byteAt_ok (by omega), ok_bind,
    byteAt_ok (by omega), ok_bind, byteAt_ok (by omega), ok_bind]
  dsimp only
  by_cases hclass : file.getD 4 0 ≠ class64 ∨ file.getD 5 0 ≠ dataLittleEndian
    ∨ file.getD 6 0 ≠ versionCurrent
  · rw [if_pos hclass, if_pos hclass]
    rfl
  rw [if_neg hclass, if_neg hclass, u16At_ok hlen (by omega), ok_bind]
  by_cases hkind : Elf.u16At file 16 ≠ typeExecutable
  · rw [if_pos hkind, if_pos hkind]
    rfl
  rw [if_neg hkind, if_neg hkind, u16At_ok hlen (by omega), ok_bind]
  by_cases hmachine : Elf.u16At file 18 ≠ machineX8664
  · rw [if_pos hmachine, if_pos hmachine]
    rfl
  rw [if_neg hmachine, if_neg hmachine, u16At_ok hlen (by omega), ok_bind,
    u16At_ok hlen (by omega), ok_bind]
  by_cases htable : Elf.u16At file 54 ≠ programHeaderBytes ∨ Elf.u16At file 56 = 0
  · rw [if_pos htable, if_pos htable]
    rfl
  have hsize : Elf.u16At file 54 = 56 := not_not.mp (not_or.mp htable).1
  have hcount : Elf.u16At file 56 < 256 ^ 2 := field_lt file 56 2
  rw [if_neg htable, if_neg htable, u64At_ok hlen (by omega), ok_bind,
    mul_ok (by rw [hsize]; omega), ok_bind]
  by_cases htruncated : file.length < satAdd (Elf.u64At file 32)
    (Elf.u16At file 56 * Elf.u16At file 54)
  · rw [if_pos htruncated, if_pos htruncated]
    rfl
  rw [if_neg htruncated, if_neg htruncated, readSegments_eq hlen (Nat.zero_le _) ?_]
  · rcases hsegments : Elf.readSegments file userSpaceEnd
        ((List.range (Elf.u16At file 56)).map fun index =>
          Elf.u64At file 32 + index * Elf.u16At file 54) []
        with err | segments
    · rfl
    · simp only [Except.mapError, ok_bind]
      by_cases hnone : segments = []
      · rw [if_pos hnone, if_pos hnone]
      · rw [if_neg hnone, if_neg hnone, u64At_ok hlen (by omega), ok_bind,
          inside_eq (readSegments_forall (fun _ _ => readSegment_inside) hsegments
            (List.forall_mem_nil _)), ok_bind]
        split_ifs <;> rfl
  · intro index hindex
    have hlt := List.mem_range.mp hindex
    rw [satAdd, hsize] at htruncated
    rw [hsize, programHeaderBytes]
    have hmax : u64Max = 2 ^ 64 - 1 := rfl
    omega

end Checked

/-! ### What can be loaded -/

/-- What a program header says to load, if it says so. -/
def segmentAt (file : List UInt8) (offset : ℕ) : Option Segment :=
  let header := (file.drop offset).take programHeaderBytes
  if u32At header 0 = ptLoad then
    some ⟨u64At header 8, u64At header 32, u64At header 16, u64At header 40, u32At header 4⟩
  else none

/-- The headers of the table that are to be loaded, in order. -/
def loads (file : List UInt8) : List Segment :=
  ((List.range (u16At file 56)).map fun index =>
    u64At file 32 + index * programHeaderBytes).filterMap
    (segmentAt file)

/-- A static executable for this machine, whose table and segments are as they should be. -/
structure Loadable (file : List UInt8) (userSpaceEnd : ℕ) : Prop where
  header : headerBytes ≤ file.length
  magic : file.take 4 = magic
  sixtyFourBit : file.getD 4 0 = class64
  littleEndian : file.getD 5 0 = dataLittleEndian
  version : file.getD 6 0 = versionCurrent
  executable : u16At file 16 = typeExecutable
  machine : u16At file 18 = machineX8664
  entrySize : u16At file 54 = programHeaderBytes
  /-- The table is inside the file. -/
  table : u64At file 32 + u16At file 56 * programHeaderBytes ≤ file.length
  carried : ∀ segment ∈ loads file, segment.Carried file
  inside : ∀ segment ∈ loads file, segment.Inside userSpaceEnd
  some : loads file ≠ []
  few : (loads file).length ≤ maxSegments
  entry : ∃ segment ∈ loads file, segment.addr ≤ u64At file 24 ∧ u64At file 24 < segment.endAddr
    ∧ segment.executable = true

section Exact

variable {file : List UInt8} {userSpaceEnd offset : ℕ} {places : List ℕ}
  {found segments : List Segment}

/-- What is read of a header is what it says, -/
lemma segmentAt_of_read {read : Option Segment}
    (h : readSegment file userSpaceEnd offset = .ok read) :
    segmentAt file offset = read := by
  rw [readSegment] at h
  rw [segmentAt]
  generalize (file.drop offset).take programHeaderBytes = header at h
  dsimp only at h ⊢
  by_cases hkind : u32At header 0 = ptLoad
  · rw [if_neg (not_not.mpr hkind)] at h
    rw [if_pos hkind]
    split_ifs at h
    exact Except.ok.inj h
  · rw [if_pos hkind] at h
    rw [if_neg hkind]
    exact Except.ok.inj h

/-- and it is read where what it says is as it should be. -/
lemma readSegment_of_good (hlen : file.length < 2 ^ 63)
    (hcarried : ∀ segment ∈ segmentAt file offset, segment.Carried file)
    (hinside : ∀ segment ∈ segmentAt file offset, segment.Inside userSpaceEnd) :
    readSegment file userSpaceEnd offset = .ok (segmentAt file offset) := by
  rw [readSegment]
  rw [segmentAt] at *
  generalize (file.drop offset).take programHeaderBytes = header at *
  dsimp only at *
  by_cases hkind : u32At header 0 = ptLoad
  · rw [if_pos hkind] at *
    obtain ⟨hfile, hfits, hexclusive⟩ := hcarried _ rfl
    obtain ⟨hpos, hend, htop⟩ := hinside _ rfl
    simp only [Segment.writable, Segment.executable, bne_iff_ne,
      Segment.endAddr] at hfile hfits hexclusive hpos hend htop
    rw [if_neg (not_not.mpr hkind), if_neg (by omega), if_neg (by omega), if_neg (by omega),
      if_neg (not_not.mpr ⟨htop, hend⟩), if_neg hexclusive]
  · rw [if_pos hkind, if_neg hkind]

/-- **The loop** finds what the headers say to load, if all of it is as it should be and not too
much. -/
lemma readSegments_ok_iff (hlen : file.length < 2 ^ 63) (hfound : found.length ≤ maxSegments) :
    readSegments file userSpaceEnd places found = .ok segments
      ↔ segments = found ++ places.filterMap (segmentAt file) ∧ segments.length ≤ maxSegments
        ∧ ∀ segment ∈ places.filterMap (segmentAt file), segment.Carried file
          ∧ segment.Inside userSpaceEnd := by
  induction places generalizing found with
  | nil =>
      rw [readSegments, List.filterMap_nil, List.append_nil, Except.ok.injEq]
      exact ⟨fun h => ⟨h.symm, h ▸ hfound, List.forall_mem_nil _⟩, fun h => h.1.symm⟩
  | cons offset rest ih =>
      rw [readSegments]
      rcases htable : segmentAt file offset with _ | segment
      · have hread : readSegment file userSpaceEnd offset = .ok none :=
          htable ▸ readSegment_of_good hlen (by simp [htable]) (by simp [htable])
        rw [hread, List.filterMap_cons_none htable]
        exact ih hfound
      -- a header for loading: it is as it should be, and there is room, or not
      rw [List.filterMap_cons_some htable]
      by_cases hgood : segment.Carried file ∧ segment.Inside userSpaceEnd
      · have hread : readSegment file userSpaceEnd offset = .ok (some segment) := by
          rw [← htable]
          refine readSegment_of_good hlen ?_ ?_ <;> rw [htable] <;> rintro _ ⟨⟩
          · exact hgood.1
          · exact hgood.2
        rw [hread]
        dsimp only
        by_cases hfull : found.length = maxSegments
        · rw [if_pos hfull]
          constructor
          · intro h
            cases h
          · rintro ⟨hall, hfew, -⟩
            rw [hall, List.length_append, List.length_cons] at hfew
            omega
        · have hroom : (found ++ [segment]).length ≤ maxSegments := by
            rw [List.length_append, List.length_singleton]
            omega
          rw [if_neg hfull, ih hroom, List.append_assoc, List.singleton_append]
          refine and_congr_right fun _ => and_congr_right fun _ => ?_
          rw [List.forall_mem_cons, and_iff_right hgood]
      · -- a header that is not as it should be is refused
        have hread : ∀ read, readSegment file userSpaceEnd offset ≠ .ok read := by
          intro read hread
          obtain rfl := (segmentAt_of_read hread).symm.trans htable
          exact hgood ⟨readSegment_carried hread, readSegment_inside hread⟩
        rcases hone : readSegment file userSpaceEnd offset with err | read
        · constructor
          · intro h
            cases h
          · rintro ⟨-, -, hall⟩
            exact absurd (hall segment List.mem_cons_self) hgood
        · exact absurd hone (hread read)

/-- `parse` accepts what can be loaded, and answers what the file says. -/
lemma parse_ok_iff (hlen : file.length < 2 ^ 63) {program : Program} :
    parse file userSpaceEnd = .ok program
      ↔ Loadable file userSpaceEnd ∧ program = ⟨u64At file 24, loads file⟩ := by
  have hany : ∀ segments : List Segment,
      (segments.any fun segment => decide (segment.addr ≤ u64At file 24)
      && decide (u64At file 24 < segment.endAddr) && segment.executable) = true
        ↔ ∃ segment ∈ segments, segment.addr ≤ u64At file 24 ∧ u64At file 24 < segment.endAddr
          ∧ segment.executable = true := by
    intro segments
    simp only [List.any_eq_true, Bool.and_eq_true, decide_eq_true_eq, and_assoc]
  constructor
  · intro h
    rw [parse] at h
    dsimp only at h
    -- what is accepted has passed every check
    split_ifs at h with hshort hclass hkind hmachine htable htruncated
    split at h
    · cases h
    · next segments hsegments =>
        split_ifs at h with hnone hentry
        obtain rfl := Except.ok.inj h
        rw [not_or, not_not] at hshort hclass
        rw [not_or, not_not, not_not] at hclass
        rw [not_or, not_not] at htable
        rw [htable.1] at hsegments htruncated
        obtain ⟨rfl, hfew, hgood⟩ := (readSegments_ok_iff hlen (Nat.zero_le _)).mp hsegments
        rw [List.nil_append, ← loads] at *
        have hmax : u64Max = 2 ^ 64 - 1 := rfl
        refine ⟨⟨Nat.le_of_not_lt hshort.1, hshort.2, hclass.1, hclass.2.1, hclass.2.2,
          not_not.mp hkind, not_not.mp hmachine, htable.1, ?_,
          fun segment hsegment => (hgood segment hsegment).1,
          fun segment hsegment => (hgood segment hsegment).2, hnone, hfew, (hany _).mp hentry⟩,
          rfl⟩
        rw [satAdd] at htruncated
        omega
  · rintro ⟨h, rfl⟩
    -- and what would pass them all is accepted
    have hread : readSegments file userSpaceEnd
        ((List.range (u16At file 56)).map fun index => u64At file 32 + index * programHeaderBytes)
        []
          = .ok (loads file) :=
      (readSegments_ok_iff hlen (Nat.zero_le _)).mpr ⟨rfl, h.few, fun segment hsegment =>
        ⟨h.carried segment hsegment, h.inside segment hsegment⟩⟩
    have hcount : u16At file 56 ≠ 0 := by
      intro hzero
      refine h.some ?_
      rw [loads, hzero]
      rfl
    have htable := h.table
    rw [parse, if_neg (not_or.mpr ⟨Nat.not_lt.mpr h.header, not_not.mpr h.magic⟩)]
    dsimp only
    rw [if_neg (by rw [h.sixtyFourBit, h.littleEndian, h.version]; decide),
      if_neg (not_not.mpr h.executable), if_neg (not_not.mpr h.machine), h.entrySize,
      if_neg (not_or.mpr ⟨not_not.mpr rfl, hcount⟩), if_neg (by rw [satAdd]; omega), hread]
    dsimp only
    rw [if_neg h.some, if_pos ((hany _).mpr h.entry)]

/-- **Any bytes are read safely, and accepted exactly when they can be loaded.** Whatever the file
and the bound, no index is outside the file and no sum leaves a word: reading answers, with a
program or a reason to refuse. It answers a program exactly when the header, the table and the
segments are as they should be, and then it is the entry point and the `PT_LOAD` headers of the
table, in order. -/
theorem parse_exact (hlen : file.length < 2 ^ 63) (userSpaceEnd : ℕ) :
    (∀ stop, Checked.parse file userSpaceEnd = .error stop → ∃ err, stop = .refused err)
      ∧ ∀ program, Checked.parse file userSpaceEnd = .ok program
        ↔ Loadable file userSpaceEnd ∧ program = ⟨u64At file 24, loads file⟩ := by
  rw [Checked.parse_eq userSpaceEnd hlen]
  refine ⟨fun stop hstop => ?_, fun program => ?_⟩
  · rcases hparse : parse file userSpaceEnd with err | program
    · rw [hparse] at hstop
      exact ⟨err, (Except.error.inj hstop).symm⟩
    · rw [hparse] at hstop
      cases hstop
  · rw [← parse_ok_iff hlen]
    rcases parse file userSpaceEnd with err | read
    · exact ⟨nofun, nofun⟩
    · exact ⟨fun h => congrArg Except.ok (Except.ok.inj h),
        fun h => congrArg Except.ok (Except.ok.inj h)⟩

end Exact

/-- A program of its own headers, to be executed where they are. -/
def smallFile : List UInt8 :=
  [0x7F, 0x45, 0x4C, 0x46, 2, 1, 1, 0, 0, 0, 0, 0, 0, 0, 0, 0, 2, 0, 0x3E, 0, 1, 0, 0, 0]
    ++ [0, 0, 0x40, 0, 0, 0, 0, 0, 64, 0, 0, 0, 0, 0, 0, 0] ++ List.replicate 14 0
      ++ [56, 0, 1, 0]
    ++ List.replicate 6 0 ++ [1, 0, 0, 0, 5, 0, 0, 0] ++ List.replicate 8 0
      ++ [0, 0, 0x40, 0, 0, 0, 0, 0]
    ++ List.replicate 8 0 ++ [120, 0, 0, 0, 0, 0, 0, 0, 120, 0, 0, 0, 0, 0, 0, 0]
      ++ List.replicate 8 0

theorem parse_exact_smallFile :
    smallFile.length < 2 ^ 63 ∧ Loadable smallFile 0x800000000000
      ∧ loads smallFile = [⟨0, 120, 0x400000, 120, 5⟩] := by
  have hlen : smallFile.length < 2 ^ 63 := by decide
  have hparse : Checked.parse smallFile 0x800000000000
      = .ok ⟨0x400000, [⟨0, 120, 0x400000, 120, 5⟩]⟩ := by
    decide +kernel
  obtain ⟨hloadable, hprogram⟩ := ((parse_exact hlen _).2 _).mp hparse
  exact ⟨hlen, hloadable, (congrArg Program.segments hprogram).symm⟩

end Harlan.Elf
