import Mathlib.Tactic
import Harlan.Lib.Words

/-! The base relocation table of a loaded image (`hal/src/pe.rs`): the walk that checks it, and
the iterator that walks it again without checks.

Slices are where they begin and end in the image, and every index, slice and sum of the source is
a step that can stop the kernel. Loops have a bound that is never reached.

* `relocations`, `turn`, `next`, `collect`: the two walks.
* `TableAt`, `addresses`: what a table is, and what it lists.
* `checkBlocks_ok`: what the first walk accepts is a table.
* `TableAt.lists`: the second walk goes through a table, whoever checked it.
* `relocations_exact`: **no image stops either walk, and the second yields what the table lists.**
-/

namespace Harlan.Pe

/-! ### Reading an image -/

/-- Why an image is not relocated. -/
inductive PeError where
  /-- Too short, or a header pointing outside the image. -/
  | truncated
  | notPe32Plus
  /-- A relocation names eight bytes that are not inside the image. -/
  | relocationOutsideImage (rva : ℕ)
  | notRelocatable
  /-- A kind of relocation that cannot be applied. -/
  | unsupportedRelocation (kind : ℕ)
deriving DecidableEq

/-- Why reading stopped: the image was refused, the kernel stopped, or a loop went past its
bound. -/
inductive Stop where
  | refused (err : PeError)
  | panicked
  | endless
deriving DecidableEq

/-- A reading that may be refused, or panic. -/
abbrev Reading := Except Stop

/-- The bytes of an image, as many as it has. -/
structure Image where
  len : ℕ
  mem : ByteMemory

/-- A part of an image. -/
structure Slice where
  first : ℕ
  last : ℕ
deriving DecidableEq

/-- The bytes of the slice. -/
def Slice.len (slice : Slice) : ℕ := slice.last - slice.first

/-- `slice.get(lo..hi)`. -/
def Slice.get (slice : Slice) (lo hi : ℕ) : Option Slice :=
  if lo ≤ hi ∧ hi ≤ slice.len then some ⟨slice.first + lo, slice.first + hi⟩ else none

/-- `&slice[lo..hi]`. -/
def Slice.index (slice : Slice) (lo hi : ℕ) : Reading Slice :=
  match slice.get lo hi with
  | some part => .ok part
  | none => .error .panicked

/-- The slice that is the whole image. -/
def Image.whole (image : Image) : Slice := ⟨0, image.len⟩

/-- `a + b` in 64 bits. -/
def add (a b : ℕ) : Reading ℕ := if a + b < 2 ^ 64 then .ok (a + b) else .error .panicked

/-- `a.checked_add(b)`. -/
def checkedAdd (a b : ℕ) : Option ℕ := if a + b < 2 ^ 64 then some (a + b) else none

/-- `.ok_or(PeError::Truncated)`. -/
def orTruncated {α : Type} : Option α → Reading α
  | some value => .ok value
  | none => .error (.refused .truncated)

/-- A number of `width` bytes. -/
def readNumber (image : Image) (offset width : ℕ) : Reading ℕ := do
  let last ← add offset width
  let bytes ← orTruncated (image.whole.get offset last)
  return getWord image.mem bytes.first width

/-- Two bytes of the image, little endian. -/
def readU16 (image : Image) (offset : ℕ) : Reading ℕ := readNumber image offset 2

/-- Four bytes of the image, little endian. -/
def readU32 (image : Image) (offset : ℕ) : Reading ℕ := readNumber image offset 4

/-! ### Headers -/

/-- Where the offset of the PE header stands. -/
def lfanew : ℕ := 0x3C
/-- From the signature to the optional header. -/
def optionalHeader : ℕ := 24
/-- From the signature to the data directories. -/
def dataDirectories : ℕ := optionalHeader + 112
/-- Which of the directories is that of the relocations. -/
def baseRelocationDirectory : ℕ := 5
/-- The bytes of one directory. -/
def dataDirectorySize : ℕ := 8
/-- The signature of a PE image. -/
def signature : List UInt8 := [0x50, 0x45, 0, 0]
/-- A 64-bit image. -/
def magicPe32Plus : ℕ := 0x20B
/-- An entry that fills up its block. -/
def relocationAbsolute : ℕ := 0
/-- An entry for an address of eight bytes. -/
def relocationDir64 : ℕ := 10
/-- The bytes of a block before its entries. -/
def relocationBlockHeader : ℕ := 8

/-- Where the signature stands, if the image has one. -/
def signatureOffset (image : Image) : Reading ℕ := do
  let offset ← readU32 image lfanew
  let last ← orTruncated (checkedAdd offset signature.length)
  let bytes ← orTruncated (image.whole.get offset last)
  if getBytes image.mem bytes.first bytes.len ≠ signature then .error (.refused .notPe32Plus)
  else do
    let header ← add offset optionalHeader
    let magic ← readU16 image header
    if magic ≠ magicPe32Plus then .error (.refused .notPe32Plus) else return offset

/-! ### The walk that checks -/

/-- The entries of a block, so many from `first` on. -/
def checkEntries (image : Image) (page : ℕ) : ℕ → ℕ → Reading Unit
  | _, 0 => .ok ()
  | first, count + 1 =>
      let value := getWord image.mem first 2
      let kind := value / 2 ^ 12
      if kind = relocationAbsolute then checkEntries image page (first + 2) count
      else if kind ≠ relocationDir64 then .error (.refused (.unsupportedRelocation kind))
      else do
        let rva ← add page (value % 2 ^ 12)
        if (checkedAdd rva 8).any (· ≤ image.len) then checkEntries image page (first + 2) count
        else .error (.refused (.relocationOutsideImage rva))

/-- The blocks, one after the other. -/
def checkBlocks (image : Image) : ℕ → Slice → Reading Unit
  | 0, _ => .error .endless
  | bound + 1, rest =>
      if rest.len = 0 then .ok ()
      else do
        let header ← orTruncated (rest.get 0 relocationBlockHeader)
        let page := getWord image.mem header.first 4
        let block := getWord image.mem (header.first + 4) 4
        if block < relocationBlockHeader ∨ rest.len < block ∨ block % 2 ≠ 0 then
          .error (.refused .truncated)
        else do
          let entries ← rest.index relocationBlockHeader block
          checkEntries image page entries.first (entries.len / 2)
          let rest ← rest.index block rest.len
          checkBlocks image bound rest

/-- Reads the base relocation table of an image, which is where its blocks are. -/
def relocations (image : Image) : Reading Slice := do
  let offset ← signatureOffset image
  let directory ← add offset (dataDirectories + baseRelocationDirectory * dataDirectorySize)
  let start ← readU32 image directory
  let sizeAt ← add directory 4
  let size ← readU32 image sizeAt
  if start = 0 ∨ size = 0 then .error (.refused .notRelocatable)
  else do
    let last ← orTruncated (checkedAdd start size)
    let blocks ← orTruncated (image.whole.get start last)
    checkBlocks image (blocks.len + 1) blocks
    return blocks

/-! ### The iterator -/

/-- Where the iterator is: in the entries of a block, with the blocks after it. -/
structure Relocations where
  blocks : Slice
  entries : Slice
  page : ℕ
deriving DecidableEq

/-- The relocations of the slice, none of them read yet. -/
def Slice.iter (blocks : Slice) : Relocations := ⟨blocks, ⟨0, 0⟩, 0⟩

/-- What one turn of the iterator's loop comes to. -/
inductive Turn where
  | goOn (iter : Relocations)
  | found (rva : ℕ) (iter : Relocations)
  | finished
  | panicked
deriving DecidableEq

/-- Past the entry it is at. -/
def Relocations.afterEntry (iter : Relocations) : Relocations :=
  { iter with entries := ⟨iter.entries.first + 2, iter.entries.last⟩ }

/-- One turn of the loop, over the image as it is. -/
def turn (image : Image) (iter : Relocations) : Turn :=
  if 2 ≤ iter.entries.len then
    let value := getWord image.mem iter.entries.first 2
    if value / 2 ^ 12 = relocationAbsolute then .goOn iter.afterEntry
    else if iter.page + value % 2 ^ 12 < 2 ^ 64 then
      .found (iter.page + value % 2 ^ 12) iter.afterEntry
    else .panicked
  else
    match iter.blocks.get 0 relocationBlockHeader with
    | none => .finished
    | some header =>
        let page := getWord image.mem header.first 4
        let size := getWord image.mem (header.first + 4) 4
        match iter.blocks.index relocationBlockHeader size,
          iter.blocks.index size iter.blocks.len with
        | .ok entries, .ok blocks => .goOn ⟨blocks, entries, page⟩
        | _, _ => .panicked

/-- How many bytes there are still to read. -/
def Relocations.left (iter : Relocations) : ℕ := iter.entries.len + iter.blocks.len

/-- The next address, in so many turns at most. -/
def nextFor (image : Image) : ℕ → Relocations → Reading (Option (ℕ × Relocations))
  | 0, _ => .error .endless
  | bound + 1, iter =>
      match turn image iter with
      | .goOn iter => nextFor image bound iter
      | .found rva iter => .ok (some (rva, iter))
      | .finished => .ok none
      | .panicked => .error .panicked

/-- The iterator's `next`. -/
def next (image : Image) (iter : Relocations) : Reading (Option (ℕ × Relocations)) :=
  nextFor image (iter.left + 1) iter

/-- All it yields, if that is so many at most. -/
def collectFor (image : Image) : ℕ → Relocations → Reading (List ℕ)
  | 0, _ => .error .endless
  | bound + 1, iter => do
      match ← next image iter with
      | none => return []
      | some (rva, iter) =>
          let rest ← collectFor image bound iter
          return rva :: rest

/-- All addresses that the iterator gives. -/
def collect (image : Image) (iter : Relocations) : Reading (List ℕ) :=
  collectFor image (iter.left + 1) iter

/-! ### Tables -/

/-- A block of relocations: the page they are on, and its entries. -/
structure Block where
  page : ℕ
  entries : List ℕ

/-- The entries that are in an image from `first` on. -/
def entriesAt (mem : ByteMemory) (first count : ℕ) : List ℕ :=
  (List.range count).map fun i => getWord mem (first + 2 * i) 2

/-- The bytes from `first` up to `last` are these blocks: each a page, its own size, and its
entries. -/
inductive TableAt (mem : ByteMemory) (last : ℕ) : ℕ → List Block → Prop
  | nil : TableAt mem last last []
  | cons {first : ℕ} {block : Block} {rest : List Block}
      (hfits : first + (8 + 2 * block.entries.length) ≤ last)
      (hpage : getWord mem first 4 = block.page)
      (hsize : getWord mem (first + 4) 4 = 8 + 2 * block.entries.length)
      (hentries : entriesAt mem (first + 8) block.entries.length = block.entries)
      (hrest : TableAt mem last (first + (8 + 2 * block.entries.length)) rest) :
      TableAt mem last first (block :: rest)

/-- What a block's entries list: the page and the low twelve bits, of those that are not
padding. -/
def entryAddresses (page : ℕ) (entries : List ℕ) : List ℕ :=
  (entries.filter fun value => value / 2 ^ 12 ≠ relocationAbsolute).map fun value =>
  page + value % 2 ^ 12

/-- The addresses that the entries of the blocks name. -/
def addresses (blocks : List Block) : List ℕ :=
  blocks.flatMap fun block => entryAddresses block.page block.entries

/-- An entry that can be applied: padding, or eight bytes inside the image. -/
def Applies (image : Image) (page value : ℕ) : Prop :=
  value / 2 ^ 12 ≠ relocationAbsolute →
    value / 2 ^ 12 = relocationDir64 ∧ page + value % 2 ^ 12 + 8 ≤ image.len

/-! ### Steps that do not stop the kernel -/

/-- It comes to an answer, or the image is refused. -/
def Safe {α : Type} (reading : Reading α) : Prop := ∀ stop, reading = .error stop →
      ∃ err, stop = .refused err

namespace Safe

variable {α β : Type}

lemma ok (value : α) : Safe (.ok value : Reading α) := fun _ h => by cases h

lemma refused (err : PeError) : Safe (.error (.refused err) : Reading α) := fun _ h => by
  cases h
  exact ⟨err, rfl⟩

lemma orTruncated (found : Option α) : Safe (orTruncated found) := by
  cases found with
  | none => exact refused .truncated
  | some value => exact ok value

lemma bind {reading : Reading α} {f : α → Reading β} (h : Safe reading)
    (hf : ∀ value, reading = .ok value → Safe (f value)) : Safe (reading >>= f) := by
  cases hreading : reading with
  | error stop =>
      obtain ⟨err, rfl⟩ := h stop hreading
      exact refused err
  | ok value => exact hf value hreading

lemma add {a b : ℕ} (h : a + b < 2 ^ 64) : Safe (add a b) := by
  rw [Pe.add, if_pos h]
  exact ok _

end Safe

lemma bind_eq_ok {α β : Type} {reading : Reading α} {f : α → Reading β} {result : β} :
    reading >>= f = .ok result ↔ ∃ value, reading = .ok value ∧ f value = .ok result := by
  cases reading with
  | error stop => exact ⟨fun h => (by cases h), fun ⟨value, h, _⟩ => (by cases h)⟩
  | ok value => exact ⟨fun h => ⟨value, rfl, h⟩, fun ⟨_, h, hf⟩ => (by cases h; exact hf)⟩

lemma add_eq_ok {a b sum : ℕ} (h : add a b = .ok sum) : sum = a + b := by
  rw [add] at h
  split_ifs at h
  exact (Except.ok.inj h).symm

lemma orTruncated_eq_ok {α : Type} {found : Option α} {value : α}
    (h : orTruncated found = .ok value) :
    found = some value := by
  cases found with
  | none => cases h
  | some other => exact congrArg some (Except.ok.inj h)

lemma checkedAdd_eq_some {a b sum : ℕ} (h : checkedAdd a b = some sum) : sum = a + b := by
  rw [checkedAdd] at h
  split_ifs at h
  exact (Option.some.inj h).symm

lemma Slice.get_eq_some {slice part : Slice} {lo hi : ℕ} (h : slice.get lo hi = some part) :
    lo ≤ hi ∧ hi ≤ slice.len ∧ part = ⟨slice.first + lo, slice.first + hi⟩ := by
  rw [Slice.get] at h
  split_ifs at h with hinside
  exact ⟨hinside.1, hinside.2, (Option.some.inj h).symm⟩

lemma Slice.index_ok {slice : Slice} {lo hi : ℕ} (hlo : lo ≤ hi) (hhi : hi ≤ slice.len) :
    slice.index lo hi = .ok ⟨slice.first + lo, slice.first + hi⟩ := by
  rw [Slice.index, Slice.get, if_pos ⟨hlo, hhi⟩]

/-! ### Headers -/

variable {image : Image} {offset : ℕ}

lemma readNumber_safe {width : ℕ} (h : offset + width < 2 ^ 64) :
    Safe (readNumber image offset width) :=
  (Safe.add h).bind fun _ _ => (Safe.orTruncated _).bind fun _ _ => Safe.ok _

lemma readNumber_ok {width number : ℕ} (h : readNumber image offset width = .ok number) :
    number = getWord image.mem offset width ∧ offset + width ≤ image.len := by
  obtain ⟨last, hlast, h⟩ := bind_eq_ok.mp h
  obtain ⟨bytes, hbytes, h⟩ := bind_eq_ok.mp h
  obtain rfl := add_eq_ok hlast
  obtain ⟨-, hlen, rfl⟩ := Slice.get_eq_some (orTruncated_eq_ok hbytes)
  refine ⟨?_, hlen⟩
  rw [← Except.ok.inj h, Image.whole, Nat.zero_add]

/-- Numbers of 32 bits are far from the end of 64. -/
lemma readU32_lt {number : ℕ} (h : readU32 image offset = .ok number) : number < 2 ^ 32 := by
  rw [(readNumber_ok h).1]
  exact getWord_lt image.mem offset 4

lemma signatureOffset_lt (h : signatureOffset image = .ok offset) : offset < 2 ^ 32 := by
  rw [signatureOffset] at h
  obtain ⟨found, hfound, h⟩ := bind_eq_ok.mp h
  obtain ⟨last, -, h⟩ := bind_eq_ok.mp h
  obtain ⟨bytes, -, h⟩ := bind_eq_ok.mp h
  split_ifs at h
  obtain ⟨header, -, h⟩ := bind_eq_ok.mp h
  obtain ⟨magic, -, h⟩ := bind_eq_ok.mp h
  split_ifs at h
  obtain rfl : found = offset := Except.ok.inj h
  exact readU32_lt hfound

lemma signatureOffset_safe (image : Image) : Safe (signatureOffset image) := by
  rw [signatureOffset]
  refine (readNumber_safe (by decide)).bind fun found hfound => ?_
  have hlt := readU32_lt hfound
  refine (Safe.orTruncated _).bind fun last hlast =>
    (Safe.orTruncated _).bind fun bytes hbytes => ?_
  split_ifs
  · exact Safe.refused _
  · refine (Safe.add (by rw [optionalHeader]; omega)).bind fun header hheader => ?_
    obtain rfl := add_eq_ok hheader
    refine (readNumber_safe (by rw [optionalHeader]; omega)).bind fun magic _ => ?_
    split_ifs
    · exact Safe.refused _
    · exact Safe.ok _

/-! ### What the first walk accepts -/

section Checking

variable {page first count : ℕ}

lemma checkEntries_safe (hpage : page < 2 ^ 32) : Safe (checkEntries image page first count) := by
  induction count generalizing first with
  | zero => exact Safe.ok ()
  | succ count ih =>
      rw [checkEntries]
      split_ifs with hpadding hkind
      · exact ih
      · exact Safe.refused _
      · have hlow : getWord image.mem first 2 % 2 ^ 12 < 2 ^ 12 := Nat.mod_lt _ (by decide)
        refine (Safe.add (by omega)).bind fun rva _ => ?_
        split_ifs
        · exact ih
        · exact Safe.refused _

lemma entriesAt_succ (mem : ByteMemory) (first count : ℕ) :
    entriesAt mem first (count + 1) = getWord mem first 2 :: entriesAt mem (first + 2) count := by
  rw [entriesAt, List.range_succ_eq_map, List.map_cons, List.map_map, entriesAt]
  refine congrArg₂ List.cons rfl (List.map_congr_left fun i _ => ?_)
  rw [Function.comp_apply, show first + 2 * (i + 1) = first + 2 + 2 * i by omega]

@[simp] lemma length_entriesAt (mem : ByteMemory) (first count : ℕ) :
    (entriesAt mem first count).length = count := by
  rw [entriesAt, List.length_map, List.length_range]

lemma checkEntries_ok (h : checkEntries image page first count = .ok ()) :
    ∀ value ∈ entriesAt image.mem first count, Applies image page value := by
  induction count generalizing first with
  | zero =>
      intro value hvalue
      cases hvalue
  | succ count ih =>
      rw [entriesAt_succ]
      rw [checkEntries] at h
      split_ifs at h with hpadding hkind
      · exact List.forall_mem_cons.mpr ⟨fun hne => absurd hpadding hne, ih h⟩
      · obtain ⟨rva, hrva, h⟩ := bind_eq_ok.mp h
        obtain rfl := add_eq_ok hrva
        split_ifs at h with hfits
        refine List.forall_mem_cons.mpr ⟨fun _ => ⟨not_not.mp hkind, ?_⟩, ih h⟩
        cases hlast : checkedAdd (page + getWord image.mem first 2 % 2 ^ 12) 8 with
        | none =>
            rw [hlast] at hfits
            cases hfits
        | some last =>
            rw [hlast] at hfits
            obtain rfl := checkedAdd_eq_some hlast
            exact of_decide_eq_true hfits

end Checking

section Blocks

variable {bound : ℕ} {rest : Slice}

lemma checkBlocks_safe (h : rest.len < bound) : Safe (checkBlocks image bound rest) := by
  induction bound generalizing rest with
  | zero => exact absurd h (Nat.not_lt_zero _)
  | succ bound ih =>
      rw [checkBlocks]
      split_ifs with hempty
      · exact Safe.ok ()
      · refine (Safe.orTruncated _).bind fun header hheader => ?_
        dsimp only
        have hpage := getWord_lt image.mem header.first 4
        split_ifs with hbad
        · exact Safe.refused _
        · have hheaderLen : relocationBlockHeader = 8 := rfl
          rw [not_or, not_or, Nat.not_lt, Nat.not_lt] at hbad
          rw [Slice.index_ok hbad.1 hbad.2.1, Slice.index_ok hbad.2.1 (le_refl _)]
          refine (Safe.ok _).bind fun entries _ => (checkEntries_safe hpage).bind fun _ _ => ?_
          refine (Safe.ok _).bind fun rest' hrest' => ih ?_
          obtain rfl := Except.ok.inj hrest'
          rw [Slice.len]
          dsimp only
          omega

/-- One block that was checked, with what comes after it. -/
lemma checkBlocks_block (h : checkBlocks image (bound + 1) rest = .ok ())
    (hrest : rest.first < rest.last) :
    ∃ count, getWord image.mem (rest.first + 4) 4 = 8 + 2 * count
      ∧ rest.first + (8 + 2 * count) ≤ rest.last
      ∧ checkEntries image (getWord image.mem rest.first 4) (rest.first + 8) count = .ok ()
      ∧ checkBlocks image bound ⟨rest.first + (8 + 2 * count), rest.last⟩ = .ok () := by
  have hlen : rest.first + rest.len = rest.last := by
    rw [Slice.len]
    omega
  rw [checkBlocks, if_neg (by omega)] at h
  obtain ⟨header, hheader, h⟩ := bind_eq_ok.mp h
  obtain ⟨-, -, rfl⟩ := Slice.get_eq_some (orTruncated_eq_ok hheader)
  rw [Nat.add_zero] at h
  dsimp only at h
  split_ifs at h with hbad
  rw [not_or, not_or, Nat.not_lt, Nat.not_lt, not_not] at hbad
  obtain ⟨hheaderFits, hblockFits, heven⟩ := hbad
  rw [Slice.index_ok hheaderFits hblockFits, Slice.index_ok hblockFits (le_refl _), hlen] at h
  obtain ⟨entries, hentries, h⟩ := bind_eq_ok.mp h
  obtain ⟨_, hchecked, h⟩ := bind_eq_ok.mp h
  obtain ⟨rest', hrest', h⟩ := bind_eq_ok.mp h
  obtain rfl := Except.ok.inj hentries
  obtain rfl := Except.ok.inj hrest'
  obtain ⟨count, hcount⟩ : ∃ count, getWord image.mem (rest.first + 4) 4 = 8 + 2 * count := by
    rw [relocationBlockHeader] at hheaderFits
    exact ⟨(getWord image.mem (rest.first + 4) 4 - 8) / 2, by omega⟩
  have hentriesLen :
      (Slice.mk (rest.first + relocationBlockHeader) (rest.first + (8 + 2 * count))).len / 2
      = count := by
    rw [Slice.len, relocationBlockHeader]
    dsimp only
    omega
  rw [hcount] at hchecked hblockFits h
  rw [hentriesLen] at hchecked
  exact ⟨count, hcount, by omega, hchecked, h⟩

/-- The blocks that are in a table that was checked. -/
lemma checkBlocks_ok (h : checkBlocks image bound rest = .ok ())
    (hrest : rest.first ≤ rest.last) :
    ∃ blocks, TableAt image.mem rest.last rest.first blocks
      ∧ ∀ block ∈ blocks, ∀ value ∈ block.entries, Applies image block.page value := by
  induction bound generalizing rest with
  | zero => cases h
  | succ bound ih =>
      obtain hend | hmore := Nat.eq_or_lt_of_le hrest
      · rw [hend]
        exact ⟨[], .nil, fun block hblock => by cases hblock⟩
      · obtain ⟨count, hsize, hfits, hchecked, hafter⟩ := checkBlocks_block h hmore
        obtain ⟨blocks, htable, happlies⟩ := ih hafter hfits
        refine ⟨⟨getWord image.mem rest.first 4,
          entriesAt image.mem (rest.first + 8) count⟩ :: blocks, .cons ?_ rfl ?_ ?_ ?_,
          List.forall_mem_cons.mpr ⟨checkEntries_ok hchecked, happlies⟩⟩
        · rw [length_entriesAt]
          exact hfits
        · rw [length_entriesAt]
          exact hsize
        · rw [length_entriesAt]
        · rw [length_entriesAt]
          exact htable

end Blocks

lemma relocations_safe (image : Image) : Safe (relocations image) := by
  rw [relocations]
  refine (signatureOffset_safe image).bind fun offset hoffset => ?_
  have hlt := signatureOffset_lt hoffset
  simp only [dataDirectories, optionalHeader, baseRelocationDirectory, dataDirectorySize]
  refine (Safe.add (by omega)).bind fun directory hdirectory => ?_
  obtain rfl := add_eq_ok hdirectory
  refine (readNumber_safe (by omega)).bind fun start _ =>
    (Safe.add (by omega)).bind fun sizeAt hsizeAt => ?_
  obtain rfl := add_eq_ok hsizeAt
  refine (readNumber_safe (by omega)).bind fun size _ => ?_
  split_ifs
  · exact Safe.refused _
  · refine (Safe.orTruncated _).bind fun last _ => (Safe.orTruncated _).bind fun blocks _ => ?_
    exact (checkBlocks_safe (Nat.lt_succ_self _)).bind fun _ _ => Safe.ok _

/-- Where the directory of an image says its table is. -/
structure Directory (image : Image) (table : Slice) : Prop where
  first : ∃ offset, signatureOffset image = .ok offset
    ∧ table.first = getWord image.mem (offset + 176) 4
    ∧ table.last = table.first + getWord image.mem (offset + 180) 4
  inside : table.last ≤ image.len

lemma relocations_ok {table : Slice} (h : relocations image = .ok table) :
    Directory image table ∧ ∃ blocks, TableAt image.mem table.last table.first blocks
      ∧ ∀ block ∈ blocks, ∀ value ∈ block.entries, Applies image block.page value := by
  rw [relocations] at h
  obtain ⟨offset, hoffset, h⟩ := bind_eq_ok.mp h
  obtain ⟨directory, hdirectory, h⟩ := bind_eq_ok.mp h
  obtain ⟨start, hstart, h⟩ := bind_eq_ok.mp h
  obtain ⟨sizeAt, hsizeAt, h⟩ := bind_eq_ok.mp h
  obtain ⟨size, hsize, h⟩ := bind_eq_ok.mp h
  split_ifs at h
  obtain ⟨last, hlast, h⟩ := bind_eq_ok.mp h
  obtain ⟨blocks, hblocks, h⟩ := bind_eq_ok.mp h
  obtain ⟨_, hchecked, h⟩ := bind_eq_ok.mp h
  obtain rfl := add_eq_ok hdirectory
  obtain rfl := add_eq_ok hsizeAt
  obtain rfl := checkedAdd_eq_some (orTruncated_eq_ok hlast)
  obtain ⟨hle, hlen, rfl⟩ := Slice.get_eq_some (orTruncated_eq_ok hblocks)
  obtain rfl := Except.ok.inj h
  simp only [Image.whole, Nat.zero_add] at hchecked hlen ⊢
  refine ⟨⟨⟨offset, hoffset, (readNumber_ok hstart).1, ?_⟩, hlen⟩, checkBlocks_ok hchecked hle⟩
  rw [(readNumber_ok hsize).1]
  rfl

/-! ### What the second walk yields -/

/-- What the iterator yields, turn by turn, until it is finished. -/
inductive Lists (image : Image) : Relocations → List ℕ → Prop
  | finished {iter : Relocations} (h : turn image iter = .finished) : Lists image iter []
  | goOn {iter iter' : Relocations} {rvas : List ℕ} (h : turn image iter = .goOn iter')
      (hrest : Lists image iter' rvas) : Lists image iter rvas
  | found {iter iter' : Relocations} {rva : ℕ} {rvas : List ℕ}
      (h : turn image iter = .found rva iter')
      (hrest : Lists image iter' rvas) : Lists image iter (rva :: rvas)

section Iterating

variable {iter iter' : Relocations} {rva : ℕ} {rvas : List ℕ}

/-- What the iterator finds at the entry it is at. -/
lemma turn_entry (hentries : 2 ≤ iter.entries.len) :
    turn image iter
      = if getWord image.mem iter.entries.first 2 / 2 ^ 12 = relocationAbsolute
        then .goOn iter.afterEntry
        else if iter.page + getWord image.mem iter.entries.first 2 % 2 ^ 12 < 2 ^ 64 then
          .found (iter.page + getWord image.mem iter.entries.first 2 % 2 ^ 12) iter.afterEntry
        else .panicked := by
  rw [turn, if_pos hentries]

lemma turn_finished (hentries : iter.entries.len < 2)
    (hblocks : iter.blocks.len < relocationBlockHeader) :
    turn image iter = .finished := by
  rw [turn, if_neg (Nat.not_le.mpr hentries), Slice.get,
    if_neg fun h => absurd h.2 (Nat.not_le.mpr hblocks)]

/-- What it finds at the header of a block. -/
lemma turn_block (hentries : iter.entries.len < 2)
    (hblocks : relocationBlockHeader ≤ iter.blocks.len) :
    turn image iter
      = if relocationBlockHeader ≤ getWord image.mem (iter.blocks.first + 4) 4
            ∧ getWord image.mem (iter.blocks.first + 4) 4 ≤ iter.blocks.len then
          .goOn ⟨⟨iter.blocks.first + getWord image.mem (iter.blocks.first + 4) 4,
              iter.blocks.first + iter.blocks.len⟩,
            ⟨iter.blocks.first + relocationBlockHeader,
              iter.blocks.first + getWord image.mem (iter.blocks.first + 4) 4⟩,
            getWord image.mem iter.blocks.first 4⟩
        else .panicked := by
  rw [turn, if_neg (Nat.not_le.mpr hentries), Slice.get, if_pos ⟨Nat.zero_le _, hblocks⟩,
    Nat.add_zero]
  dsimp only
  split_ifs with hsize
  · rw [Slice.index_ok hsize.1 hsize.2, Slice.index_ok hsize.2 (le_refl _)]
  · rw [Slice.index, Slice.get, if_neg hsize]

/-- One turn leads to another: from entry to entry, or into the next block. -/
def Follows (image : Image) (iter iter' : Relocations) : Prop :=
  turn image iter = .goOn iter' ∨ ∃ rva, turn image iter = .found rva iter'

lemma Follows.cases (h : Follows image iter iter') :
    2 ≤ iter.entries.len ∧ iter' = iter.afterEntry
      ∨ ∃ size, relocationBlockHeader ≤ size ∧ size ≤ iter.blocks.len
          ∧ iter'.blocks = ⟨iter.blocks.first + size, iter.blocks.first + iter.blocks.len⟩
          ∧ iter'.entries = ⟨iter.blocks.first + relocationBlockHeader,
            iter.blocks.first + size⟩ := by
  by_cases hentries : 2 ≤ iter.entries.len
  · refine .inl ⟨hentries, ?_⟩
    rw [Follows, turn_entry hentries] at h
    split_ifs at h
    · obtain h | ⟨rva, h⟩ := h
      · exact (Turn.goOn.inj h).symm
      · cases h
    · obtain h | ⟨rva, h⟩ := h
      · cases h
      · exact (Turn.found.inj h).2.symm
    · obtain h | ⟨rva, h⟩ := h <;> cases h
  · by_cases hblocks : relocationBlockHeader ≤ iter.blocks.len
    · rw [Follows, turn_block (Nat.not_le.mp hentries) hblocks] at h
      split_ifs at h with hsize
      · obtain h | ⟨rva, h⟩ := h
        · obtain rfl := Turn.goOn.inj h
          exact .inr ⟨_, hsize.1, hsize.2, rfl, rfl⟩
        · cases h
      · obtain h | ⟨rva, h⟩ := h <;> cases h
    · rw [Follows, turn_finished (Nat.not_le.mp hentries) (Nat.not_le.mp hblocks)] at h
      obtain h | ⟨rva, h⟩ := h <;> cases h

/-- Every turn reads something, whatever it reads. -/
lemma Follows.left (h : Follows image iter iter') : iter'.left < iter.left := by
  obtain ⟨hentries, rfl⟩ | ⟨size, hlow, hhigh, hblocks, hentries⟩ := h.cases
  · simp only [Relocations.left, Relocations.afterEntry, Slice.len] at hentries ⊢
    omega
  · rw [Relocations.left, Relocations.left, hblocks, hentries]
    simp only [Slice.len, relocationBlockHeader] at hlow hhigh ⊢
    omega

lemma Lists.nextFor (h : Lists image iter rvas) {bound : ℕ} (hbound : iter.left < bound) :
    (rvas = [] → Pe.nextFor image bound iter = .ok none)
      ∧ ∀ rva rest, rvas = rva :: rest →
        ∃ iter', Pe.nextFor image bound iter = .ok (some (rva, iter')) ∧ Lists image iter' rest
          ∧ iter'.left < iter.left := by
  induction h generalizing bound with
  | finished h =>
      obtain ⟨bound, rfl⟩ := Nat.exists_eq_succ_of_ne_zero (Nat.ne_zero_of_lt hbound)
      rw [Pe.nextFor, h]
      exact ⟨fun _ => rfl, fun rva rest hnil => by cases hnil⟩
  | goOn h hrest ih =>
      obtain ⟨bound, rfl⟩ := Nat.exists_eq_succ_of_ne_zero (Nat.ne_zero_of_lt hbound)
      have hleft := Follows.left (.inl h)
      obtain ⟨hnone, hsome⟩ := ih (Nat.lt_of_lt_of_le hleft (Nat.le_of_lt_succ hbound))
      rw [Pe.nextFor, h]
      refine ⟨hnone, fun rva rest heq => ?_⟩
      obtain ⟨iter', hnext, hlists, hless⟩ := hsome rva rest heq
      exact ⟨iter', hnext, hlists, Nat.lt_trans hless hleft⟩
  | found h hrest ih =>
      obtain ⟨bound, rfl⟩ := Nat.exists_eq_succ_of_ne_zero (Nat.ne_zero_of_lt hbound)
      rw [Pe.nextFor, h]
      refine ⟨fun hnil => absurd hnil (List.cons_ne_nil _ _), fun rva rest heq => ?_⟩
      obtain ⟨rfl, rfl⟩ := List.cons.inj heq
      exact ⟨_, rfl, hrest, Follows.left (.inr ⟨_, h⟩)⟩

lemma Lists.collectFor (h : Lists image iter rvas) {bound : ℕ} (hbound : iter.left < bound) :
    Pe.collectFor image bound iter = .ok rvas := by
  induction rvas generalizing iter bound with
  | nil =>
      obtain ⟨bound, rfl⟩ := Nat.exists_eq_succ_of_ne_zero (Nat.ne_zero_of_lt hbound)
      rw [Pe.collectFor, next, (h.nextFor (Nat.lt_succ_self _)).1 rfl]
      rfl
  | cons rva rest ih =>
      obtain ⟨bound, rfl⟩ := Nat.exists_eq_succ_of_ne_zero (Nat.ne_zero_of_lt hbound)
      obtain ⟨iter', hnext, hlists, hless⟩ := (h.nextFor (Nat.lt_succ_self _)).2 rva rest rfl
      have hrest := ih hlists (Nat.lt_of_lt_of_le hless (Nat.le_of_lt_succ hbound))
      rw [Pe.collectFor, next, hnext]
      change (do let rest ← Pe.collectFor image bound iter'; return rva :: rest) = _
      rw [hrest]
      rfl

lemma Lists.collect (h : Lists image iter rvas) : Pe.collect image iter = .ok rvas :=
  h.collectFor (Nat.lt_succ_self _)

/-- A block's entries come before whatever comes after them. -/
lemma Lists.entries {page first count : ℕ} {blocks : Slice} (hpage : page < 2 ^ 32)
    (h : Lists image ⟨blocks, ⟨first + 2 * count, first + 2 * count⟩, page⟩ rvas) :
    Lists image ⟨blocks, ⟨first, first + 2 * count⟩, page⟩
      (entryAddresses page (entriesAt image.mem first count) ++ rvas) := by
  induction count generalizing first with
  | zero => exact h
  | succ count ih =>
      have hnext : first + 2 + 2 * count = first + 2 * (count + 1) := by omega
      have hrest := @ih (first + 2)
      rw [hnext] at hrest
      have hentries : 2 ≤ (Slice.mk first (first + 2 * (count + 1))).len := by
        rw [Slice.len]
        dsimp only
        omega
      have hturn := @turn_entry image ⟨blocks, ⟨first, first + 2 * (count + 1)⟩, page⟩ hentries
      have hlow : getWord image.mem first 2 % 2 ^ 12 < 2 ^ 12 := Nat.mod_lt _ (by decide)
      dsimp only at hturn
      rw [entriesAt_succ, entryAddresses]
      by_cases hpadding : getWord image.mem first 2 / 2 ^ 12 = relocationAbsolute
      · rw [if_pos hpadding] at hturn
        rw [List.filter_cons_of_neg (by simpa using hpadding)]
        exact .goOn hturn (hrest h)
      · rw [if_neg hpadding, if_pos (by omega)] at hturn
        rw [List.filter_cons_of_pos (by simpa using hpadding), List.map_cons, List.cons_append]
        exact .found hturn (hrest h)

/-- The iterator goes through a table block by block, and yields what it lists. -/
lemma TableAt.lists {first last entry page : ℕ} {blocks : List Block}
    (h : TableAt image.mem last first blocks) :
    Lists image ⟨⟨first, last⟩, ⟨entry, entry⟩, page⟩ (addresses blocks) := by
  induction h generalizing entry page with
  | nil =>
      refine .finished (turn_finished ?_ ?_)
      · rw [Slice.len, Nat.sub_self]
        decide
      · rw [Slice.len, Nat.sub_self]
        decide
  | @cons first block rest hfits hpage hsize hentries hrest ih =>
      have hlen : (Slice.mk first last).len = last - first := rfl
      have hheader : relocationBlockHeader = 8 := rfl
      have hturn := @turn_block image ⟨⟨first, last⟩, ⟨entry, entry⟩, page⟩
        (by rw [Slice.len, Nat.sub_self]; decide) (by dsimp only; omega)
      dsimp only at hturn
      rw [hsize, hpage, if_pos (by omega), hlen,
        show first + (last - first) = last by omega, hheader, ← Nat.add_assoc] at hturn
      have hlt : block.page < 2 ^ 32 := hpage ▸ getWord_lt image.mem first 4
      have hblock := Lists.entries hlt (@ih (first + 8 + 2 * block.entries.length) block.page)
      rw [hentries, ← Nat.add_assoc] at hblock
      exact .goOn hturn hblock

end Iterating

/-- **The table is walked the same way twice**: no image stops the walk that checks its table; and
where that walk accepts, the bytes that the directory names are blocks, the iterator ends without
stopping the kernel, and it yields, in order, the page and the low bits of every entry that is not
padding, each of which is of the one kind that can be applied and names eight bytes inside the
image. -/
theorem relocations_exact (image : Image) :
    (∀ stop, relocations image = .error stop → ∃ err, stop = .refused err)
      ∧ ∀ table, relocations image = .ok table →
        Directory image table
          ∧ ∃ blocks, TableAt image.mem table.last table.first blocks
            ∧ collect image table.iter = .ok (addresses blocks)
            ∧ ∀ block ∈ blocks, ∀ value ∈ block.entries, value / 2 ^ 12 ≠ relocationAbsolute →
              value / 2 ^ 12 = relocationDir64 ∧ block.page + value % 2 ^ 12 + 8 ≤ image.len := by
  refine ⟨relocations_safe image, fun table htable => ?_⟩
  obtain ⟨hdirectory, blocks, hblocks, happlies⟩ := relocations_ok htable
  exact ⟨hdirectory, blocks, hblocks, (@TableAt.lists image _ _ 0 0 _ hblocks).collect, happlies⟩

end Harlan.Pe
