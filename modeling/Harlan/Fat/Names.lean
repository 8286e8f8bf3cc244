import Mathlib.Tactic
import Mathlib.Data.List.TakeWhile
import Harlan.Fat.Directory

/-!
The two ways a slot is compared with a name.

`find` decodes the slot to text and compares that with the spelling it was asked for,
`directory_slot` encodes the spelling to eleven bytes and compares those with the slot's. Case
does not count in either.

* `Plain`: the eleven bytes are two padded fields, and the first has no dot.
* `storesName_iff_plain`: a slot stores the encoding of a name where it is plain and decodes to
  the name, for a name that does not end in its only dot.
* `not_isNamed_of_dotted`: for one that does, no slot does both.
* `slotName_of_encoded`: what an encoding decodes to.
* `encodeName_roundTrip`: **an encoding decodes to its name, and two names with one encoding are
  the same name**, case aside. -/

namespace Harlan.Fat

/-! ### Upper case -/

/-- A text in upper case. -/
def upper (text : List UInt8) : List UInt8 := text.map toAsciiUppercase

lemma toAsciiUppercase_eq_iff {a b : UInt8} (hb : b.toNat < 0x41) : toAsciiUppercase a = b
      ↔ a = b := by
  rw [toAsciiUppercase]
  split
  next hletter =>
    have hnat : (UInt8.ofNat (a.toNat - 0x20)).toNat = a.toNat - 0x20 := by
      rw [UInt8.toNat_ofNat', Nat.mod_eq_of_lt (by omega)]
    constructor
    · intro h
      rw [h] at hnat
      omega
    · rintro rfl
      omega
  next => exact Iff.rfl

lemma toAsciiUppercase_eq_space {a : UInt8} : toAsciiUppercase a = space ↔ a = space :=
  toAsciiUppercase_eq_iff (by decide)

lemma toAsciiUppercase_eq_dot {a : UInt8} : toAsciiUppercase a = dot ↔ a = dot :=
  toAsciiUppercase_eq_iff (by decide)

lemma toNat_toAsciiUppercase (a : UInt8) :
    (toAsciiUppercase a).toNat = if 0x61 ≤ a.toNat ∧ a.toNat ≤ 0x7A then a.toNat - 0x20
      else a.toNat := by
  rw [toAsciiUppercase]
  split
  · rw [UInt8.toNat_ofNat', Nat.mod_eq_of_lt (by omega)]
  · rfl

lemma toAsciiUppercase_idem (a : UInt8) :
    toAsciiUppercase (toAsciiUppercase a) = toAsciiUppercase a := by
  rw [← UInt8.toNat_inj, toNat_toAsciiUppercase, toNat_toAsciiUppercase]
  split_ifs <;> omega

lemma toAsciiUppercase_lt {a : UInt8} : (toAsciiUppercase a).toNat < 0x80 ↔ a.toNat < 0x80 := by
  rw [toNat_toAsciiUppercase]
  split_ifs <;> omega

lemma upper_idem (text : List UInt8) : upper (upper text) = upper text := by
  simp only [upper, List.map_map, List.map_inj_left, Function.comp_apply]
  exact fun a _ => toAsciiUppercase_idem a

lemma dot_mem_upper {text : List UInt8} : dot ∈ upper text ↔ dot ∈ text := by
  simp [upper, List.mem_map, toAsciiUppercase_eq_dot]

lemma upper_eq_nil {text : List UInt8} : upper text = [] ↔ text = [] := List.map_eq_nil_iff

/-! ### The text of a slot -/

/-- A text of bytes below 128 is valid as it is. -/
lemma validUtf8_ascii {text : List UInt8} (h : ∀ b ∈ text, b.toNat < 0x80) :
    validUtf8 text = true := by
  induction text with
  | nil => rfl
  | cons b rest ih =>
      have hrest := ih fun c hc => h c (List.mem_cons_of_mem _ hc)
      unfold validUtf8
      rw [if_pos (h b List.mem_cons_self)]
      exact hrest

/-- Comparing byte by byte without case is comparing in upper case. -/
lemma all_zip_iff (text other : List UInt8) :
    (text.length == other.length && (text.zip other).all fun pair =>
      eqIgnoreAsciiCase pair.1 pair.2) = true
      ↔ upper text = upper other := by
  induction text generalizing other with
  | nil => cases other <;> simp [upper]
  | cons a text ih =>
      cases other with
      | nil => simp [upper]
      | cons b other =>
          have hrest := ih other
          simp only [upper, Bool.and_eq_true, beq_iff_eq, List.length_cons, List.zip_cons_cons,
            List.all_cons, List.map_cons, List.cons.injEq, eqIgnoreAsciiCase] at hrest ⊢
          rw [← hrest, Nat.succ_inj]
          tauto

/-- `is_named` compares the text of a slot with a name in upper case. -/
lemma isNamed_iff {bytes : SlotBytes} {name : List UInt8} (hname : name ≠ [])
    (hascii : ∀ b ∈ name, b.toNat < 0x80) :
    (slotEntry bytes).isNamed name = true ↔ upper (slotName bytes) = upper name := by
  have hentry : (slotEntry bytes).name = slotName bytes := rfl
  rw [DirectoryEntry.isNamed, all_zip_iff, DirectoryEntry.nameText, hentry]
  split
  next => exact Iff.rfl
  next hinvalid =>
    constructor
    · intro h
      exact absurd (upper_eq_nil.mp h.symm) hname
    · intro h
      refine absurd (validUtf8_ascii fun b hb => ?_) hinvalid
      have hmem : toAsciiUppercase b ∈ upper name := h ▸ List.mem_map_of_mem hb
      obtain ⟨c, hc, hcb⟩ := List.mem_map.mp hmem
      rw [← toAsciiUppercase_lt, ← hcb, toAsciiUppercase_lt]
      exact hascii c hc

/-! ### Fields -/

/-- The eight bytes before the dot, -/
def baseField (bytes : SlotBytes) : List UInt8 := List.ofFn fun i : Fin 8 => bytes ⟨i, base_lt i⟩

/-- and the three after it. -/
def extensionField (bytes : SlotBytes) : List UInt8 := List.ofFn fun i :
    Fin 3 => bytes ⟨8 + i, extension_lt i⟩

/-- A field up to its first space. -/
def trimmed (field : List UInt8) : List UInt8 := field.takeWhile (· != space)

/-- After its first space a field has nothing else. -/
def Padded (field : List UInt8) : Prop := ∀ b ∈ field.dropWhile (· != space), b = space

instance (field : List UInt8) : Decidable (Padded field) :=
  inferInstanceAs (Decidable (∀ b ∈ field.dropWhile (· != space), b = space))

/-- A base and an extension, with the dot between them where there is one. -/
def joined (base extension : List UInt8) : List UInt8 :=
  base ++ if extension = [] then [] else dot :: extension

lemma slotName_eq (bytes : SlotBytes) :
    slotName bytes = joined (trimmed (baseField bytes)) (trimmed (extensionField bytes)) := by
  have hfield : extensionField bytes = [bytes 8, bytes 9, bytes 10] := rfl
  rw [slotName, joined, ← baseField, ← trimmed, ← extensionField, ← trimmed]
  congr 1
  by_cases hnone : bytes 8 = space
  · have hempty : trimmed (extensionField bytes) = [] := by
      rw [hfield, trimmed, hnone, List.takeWhile_cons_of_neg (by simp)]
    rw [hnone, if_neg (by simp), if_pos hempty]
  · have hsome : trimmed (extensionField bytes) ≠ [] := by
      rw [hfield, trimmed, List.takeWhile_cons_of_pos (by simpa using hnone)]
      simp
    rw [if_pos (by simpa using hnone), if_neg hsome]

lemma upper_joined (base extension : List UInt8) :
    upper (joined base extension) = joined (upper base) (upper extension) := by
  rw [joined, joined, upper, List.map_append, ← upper]
  congr 1
  by_cases hnone : extension = []
  · rw [if_pos hnone, if_pos (upper_eq_nil.mpr hnone), List.map_nil]
  · rw [if_neg hnone, if_neg fun h => hnone (upper_eq_nil.mp h), List.map_cons, upper,
      toAsciiUppercase_eq_dot.mpr rfl]

/-- Where the base has no dot, the parts can be told from the whole. -/
lemma splitName_joined {base : List UInt8} (extension : List UInt8) (h : dot ∉ base) :
    splitName (joined base extension) = (base, extension) := by
  have hbase : ∀ b ∈ base, (b != dot) = true := by
    intro b hb
    rw [bne_iff_ne]
    rintro rfl
    exact h hb
  rw [splitName, joined, List.takeWhile_append_of_pos hbase, List.dropWhile_append_of_pos hbase]
  by_cases hnone : extension = []
  · rw [if_pos hnone, hnone, List.takeWhile_nil, List.append_nil, List.dropWhile_nil,
      List.drop_nil]
  · rw [if_neg hnone, List.takeWhile_cons_of_neg (by simp), List.append_nil,
      List.dropWhile_cons_of_neg (by simp), List.drop_one, List.tail_cons]

/-- A text with spaces after it, up to a length. -/
def padded (length : ℕ) (text : List UInt8) : List UInt8 :=
  text ++ List.replicate (length - text.length) space

lemma trimmed_padded {text : List UInt8} (length : ℕ) (h : space ∉ text) :
    trimmed (padded length text) = text := by
  rw [trimmed, padded, List.takeWhile_append_of_pos, List.takeWhile_replicate]
  · simp
  · intro b hb
    rw [bne_iff_ne]
    rintro rfl
    exact h hb

lemma upper_padded (length : ℕ) (text : List UInt8) :
    upper (padded length text) = padded length (upper text) := by
  rw [padded, upper, List.map_append, List.map_replicate, toAsciiUppercase_eq_space.mpr rfl,
    padded, upper, List.length_map]

lemma space_notMem_upper {text : List UInt8} (h : space ∉ text) : space ∉ upper text := by
  intro hmem
  obtain ⟨b, hb, hspace⟩ := List.mem_map.mp hmem
  exact h (toAsciiUppercase_eq_space.mp hspace ▸ hb)

/-- Upper case leaves spaces where they are. -/
lemma bne_space_upper : ((fun b => b != space) ∘ toAsciiUppercase) = fun b => b != space := by
  funext b
  simp only [Function.comp_apply]
  rw [Bool.eq_iff_iff, bne_iff_ne, bne_iff_ne, ne_eq, ne_eq, toAsciiUppercase_eq_space]

/-- A field holds a text with spaces after it where it is padded and holds the text. -/
lemma field_iff {field text : List UInt8} (htext : space ∉ text) :
    upper field = padded field.length (upper text)
      ↔ upper (trimmed field) = upper text ∧ Padded field := by
  have htrimmed : upper (trimmed field) = trimmed (upper field) := by
    rw [upper, upper, trimmed, trimmed, List.takeWhile_map, bne_space_upper]
  constructor
  · intro h
    refine ⟨?_, fun b hb => ?_⟩
    · rw [htrimmed, h, trimmed_padded _ (space_notMem_upper htext)]
    · have hdrop : upper (field.dropWhile (· != space))
          = (padded field.length (upper text)).dropWhile (· != space) := by
        rw [← h, upper, upper, List.dropWhile_map, bne_space_upper]
      have hmem : toAsciiUppercase b ∈ upper (field.dropWhile (· != space)) :=
        List.mem_map_of_mem hb
      rw [hdrop, padded, List.dropWhile_append_of_pos, List.dropWhile_replicate] at hmem
      · rw [if_neg (by simp)] at hmem
        exact toAsciiUppercase_eq_space.mp (List.eq_of_mem_replicate hmem)
      · intro c hc
        rw [bne_iff_ne]
        rintro rfl
        exact space_notMem_upper htext hc
  · rintro ⟨hsame, hpadded⟩
    have hsplit : upper field = upper (trimmed field) ++ upper
        (field.dropWhile (· != space)) := by
      rw [upper, upper, upper, ← List.map_append, trimmed, List.takeWhile_append_dropWhile]
    have hspaces : upper (field.dropWhile (· != space))
        = List.replicate (field.dropWhile (· != space)).length space := by
      rw [List.eq_replicate_iff, upper, List.length_map]
      refine ⟨rfl, fun c hc => ?_⟩
      obtain ⟨b, hb, rfl⟩ := List.mem_map.mp hc
      exact toAsciiUppercase_eq_space.mpr (hpadded b hb)
    have hlength := congrArg List.length hsplit
    rw [hsame, List.length_append, upper, List.length_map, upper, List.length_map] at hlength
    rw [padded, hsplit, hsame, hspaces, upper, List.length_map]
    congr 2
    rw [upper, List.length_map] at hlength
    omega

/-! ### Encodings -/

/-- What is allowed in a name is upper-cased. -/
lemma mapM_allowedInAName {text stored : List UInt8}
    (h : text.mapM allowedInAName = some stored) :
    stored = upper text ∧ space ∉ text ∧ ∀ b ∈ text, b.toNat < 0x80 := by
  induction text generalizing stored with
  | nil =>
      obtain rfl : [] = stored := Option.some.inj h
      exact ⟨rfl, List.not_mem_nil, nofun⟩
  | cons b rest ih =>
      rw [List.mapM_cons] at h
      cases hallowed : allowedInAName b with
      | none => rw [hallowed] at h; cases h
      | some b' =>
          rw [hallowed] at h
          cases hrest : rest.mapM allowedInAName with
          | none => rw [hrest] at h; cases h
          | some rest' =>
              rw [hrest] at h
              obtain rfl : b' :: rest' = stored := Option.some.inj h
              obtain ⟨hstored, hspace, hascii⟩ := ih hrest
              rw [allowedInAName, Option.ite_none_left_eq_some] at hallowed
              obtain ⟨hb, hb'⟩ := hallowed
              simp only [not_or, Nat.not_le] at hb
              refine ⟨?_, fun hmem => ?_, fun c hc => ?_⟩
              · rw [hstored, ← Option.some.inj hb', upper, upper, List.map_cons]
              · obtain rfl | hmem := List.mem_cons.mp hmem
                · exact hb.2.2.2 (by decide)
                · exact hspace hmem
              · obtain rfl | hc := List.mem_cons.mp hc
                · exact hb.1
                · exact hascii c hc

/-- What an encoded name is made of. -/
structure Encodes (name : List UInt8) (encoded : EncodedName) : Prop where
  base_ne : (splitName name).1 ≠ []
  base_le : (splitName name).1.length ≤ 8
  extension_le : (splitName name).2.length ≤ 3
  space_base : space ∉ (splitName name).1
  space_extension : space ∉ (splitName name).2
  ascii_base : ∀ b ∈ (splitName name).1, b.toNat < 0x80
  ascii_extension : ∀ b ∈ (splitName name).2, b.toNat < 0x80
  base : (List.ofFn fun i : Fin 8 => encoded ⟨i, by omega⟩) = padded 8 (upper (splitName name).1)
  extension : (List.ofFn fun i : Fin 3 => encoded ⟨8 + i, by omega⟩)
    = padded 3 (upper (splitName name).2)

/-- Bytes taken from a text, and spaces past its end. -/
lemma ofFn_getD_eq_padded {n : ℕ} {text : List UInt8} (h : text.length ≤ n) :
    (List.ofFn fun i : Fin n => text.getD i space) = padded n text := by
  rw [padded]
  refine List.ext_getElem ?_ fun i hi hi' => ?_
  · rw [List.length_ofFn, List.length_append, List.length_replicate]
    omega
  · rw [List.getElem_ofFn, List.getD_eq_getElem?_getD, List.getElem_append]
    split
    next hin => rw [List.getElem?_eq_getElem hin, Option.getD_some]
    next hout =>
        rw [List.getElem?_eq_none (Nat.le_of_not_lt hout), List.getElem_replicate,
          Option.getD_none]

lemma encodes {name : List UInt8} {encoded : EncodedName} (h : encodeName name = some encoded) :
    Encodes name encoded := by
  rw [encodeName] at h
  dsimp only at h
  rw [Option.ite_none_left_eq_some] at h
  obtain ⟨hfits, h⟩ := h
  simp only [not_or, List.isEmpty_iff, Nat.not_lt] at hfits
  split at h
  · next base extension hbase hextension =>
      rw [Option.ite_none_left_eq_some] at h
      obtain rfl := Option.some.inj h.2
      obtain ⟨rfl, hspace, hascii⟩ := mapM_allowedInAName hbase
      obtain ⟨rfl, hspace', hascii'⟩ := mapM_allowedInAName hextension
      refine ⟨hfits.1, hfits.2.1, hfits.2.2, hspace, hspace', hascii, hascii', ?_, ?_⟩
      · rw [← ofFn_getD_eq_padded (by simpa [upper] using hfits.2.1)]
        exact congrArg List.ofFn (funext fun i => if_pos i.isLt)
      · rw [← ofFn_getD_eq_padded (by simpa [upper] using hfits.2.2)]
        refine congrArg List.ofFn (funext fun i => ?_)
        simp
  · cases h

/-- A name ends in its only dot. -/
def endsInOnlyDot (name : List UInt8) : Bool := name.dropWhile (· != dot) == [dot]

lemma dot_notMem_base (name : List UInt8) : dot ∉ (splitName name).1 := by
  intro hmem
  have := List.mem_takeWhile_imp hmem
  simp at this

/-- A name is its parts joined, but for one that ends in its only dot. -/
lemma eq_joined {name : List UInt8} (h : endsInOnlyDot name = false) :
    name = joined (splitName name).1 (splitName name).2 := by
  have hsplit := (List.takeWhile_append_dropWhile (p := (· != dot)) (l := name)).symm
  rw [endsInOnlyDot, beq_eq_false_iff_ne] at h
  cases hrest : name.dropWhile (· != dot) with
  | nil =>
      rw [joined, splitName, hrest, List.drop_nil, if_pos rfl]
      rwa [hrest] at hsplit
  | cons b rest =>
      obtain rfl : b = dot := by
        have hhead := List.head_dropWhile_not (· != dot)
          (by rw [hrest]; simp : name.dropWhile (· != dot) ≠ [])
        simpa [hrest] using hhead
      rw [hrest] at hsplit h
      rw [joined, splitName, hrest, List.drop_one, List.tail_cons,
        if_neg fun hnil => h (congrArg _ hnil)]
      exact hsplit

lemma eq_dotted {name : List UInt8} (h : endsInOnlyDot name = true) :
    name = (splitName name).1 ++ [dot] ∧ (splitName name).2 = [] := by
  have hsplit := (List.takeWhile_append_dropWhile (p := (· != dot)) (l := name)).symm
  rw [endsInOnlyDot, beq_iff_eq] at h
  rw [h] at hsplit
  exact ⟨hsplit, by rw [splitName, h]; rfl⟩

namespace Encodes

variable {name : List UInt8} {encoded : EncodedName} {bytes : SlotBytes}
  (h : Encodes name encoded)

include h

lemma name_ne : name ≠ [] := by
  rintro rfl
  exact h.base_ne rfl

lemma ascii : ∀ b ∈ name, b.toNat < 0x80 := by
  intro b hb
  by_cases hdot : endsInOnlyDot name = true
  · rw [(eq_dotted hdot).1, List.mem_append, List.mem_singleton] at hb
    obtain hb | rfl := hb
    · exact h.ascii_base b hb
    · decide
  · rw [eq_joined (Bool.eq_false_iff.mpr hdot), joined, List.mem_append] at hb
    obtain hb | hb := hb
    · exact h.ascii_base b hb
    · split at hb
      · cases hb
      · obtain rfl | hb := List.mem_cons.mp hb
        · decide
        · exact h.ascii_extension b hb

/-- A slot stores an encoding where its two fields do. -/
lemma storesName_iff_fields :
    storesName bytes encoded = true
      ↔ (upper (trimmed (baseField bytes)) = upper (splitName name).1 ∧ Padded (baseField bytes))
        ∧ upper (trimmed (extensionField bytes)) = upper (splitName name).2
          ∧ Padded (extensionField bytes) := by
  have hupper : ∀ {n : ℕ} (f : Fin n → UInt8),
      upper (List.ofFn f) = List.ofFn (toAsciiUppercase ∘ f) :=
    fun f => List.map_ofFn
  have hbase : upper (baseField bytes) = padded 8 (upper (splitName name).1)
      ↔ ∀ i : Fin 8, toAsciiUppercase (storedName bytes ⟨i, by omega⟩)
        = toAsciiUppercase (encoded ⟨i, by omega⟩) := by
    rw [← upper_idem (splitName name).1, ← upper_padded, ← h.base, baseField, hupper, hupper,
      List.ofFn_inj]
    exact funext_iff
  have hextension : upper (extensionField bytes) = padded 3 (upper (splitName name).2)
      ↔ ∀ i : Fin 3, toAsciiUppercase (storedName bytes ⟨8 + i, by omega⟩)
        = toAsciiUppercase (encoded ⟨8 + i, by omega⟩) := by
    rw [← upper_idem (splitName name).2, ← upper_padded, ← h.extension, extensionField,
      hupper, hupper, List.ofFn_inj]
    exact funext_iff
  have hlength : (baseField bytes).length = 8 := List.length_ofFn
  have hlength' : (extensionField bytes).length = 3 := List.length_ofFn
  rw [← field_iff h.space_base, ← field_iff h.space_extension, hlength, hlength',
    hbase, hextension, storesName_iff]
  constructor
  · intro hall
    exact ⟨fun i => hall _, fun i => hall _⟩
  · rintro ⟨hlow, hhigh⟩ ⟨i, hi⟩
    by_cases hi' : i < 8
    · exact hlow ⟨i, hi'⟩
    · obtain ⟨j, rfl⟩ := Nat.exists_eq_add_of_le (Nat.le_of_not_lt hi')
      exact hhigh ⟨j, by omega⟩

end Encodes

/-- A slot's name is two padded fields, and the dot is only between them. -/
structure Plain (bytes : SlotBytes) : Prop where
  base : Padded (baseField bytes)
  extension : Padded (extensionField bytes)
  noDot : dot ∉ trimmed (baseField bytes)

section Compare

variable {name : List UInt8} {encoded : EncodedName} {bytes : SlotBytes}
  (h : Encodes name encoded)

include h

/-- **The two ways to compare agree on plain slots**, and the bytes of no other slot are an
encoding. -/
theorem storesName_iff_plain (hdot : endsInOnlyDot name = false) :
    storesName bytes encoded = true ↔ Plain bytes ∧ (slotEntry bytes).isNamed name = true := by
  have hdotted : ∀ {text : List UInt8}, upper text = upper (splitName name).1 → dot ∉ text := by
    intro text htext hmem
    rw [← dot_mem_upper, htext, dot_mem_upper] at hmem
    exact dot_notMem_base name hmem
  rw [h.storesName_iff_fields, isNamed_iff h.name_ne h.ascii, slotName_eq, upper_joined,
    congrArg upper (eq_joined hdot), upper_joined]
  constructor
  · rintro ⟨⟨hbase, hpadded⟩, hextension, hpadded'⟩
    exact ⟨⟨hpadded, hpadded', hdotted hbase⟩, by rw [hbase, hextension]⟩
  · rintro ⟨hplain, hnamed⟩
    have hsplit := congrArg splitName hnamed
    rw [splitName_joined _ (mt dot_mem_upper.mp hplain.noDot),
      splitName_joined _ (mt dot_mem_upper.mp (dot_notMem_base name))] at hsplit
    obtain ⟨hbase, hextension⟩ := Prod.mk.inj hsplit
    exact ⟨⟨hbase, hplain.base⟩, hextension, hplain.extension⟩

/-- It decodes to the name without the dot. -/
lemma isNamed_dropLast_of_dotted (hdot : endsInOnlyDot name = true)
    (hstores : storesName bytes encoded = true) :
    (slotEntry bytes).isNamed name.dropLast = true := by
  obtain ⟨hname, hnone⟩ := eq_dotted hdot
  have hbare : name.dropLast = (splitName name).1 := by
    rw [congrArg List.dropLast hname, List.dropLast_concat]
  obtain ⟨⟨hbase, -⟩, hextension, -⟩ := h.storesName_iff_fields.mp hstores
  rw [hnone, upper_eq_nil.mpr rfl, upper_eq_nil] at hextension
  rw [hbare, isNamed_iff h.base_ne h.ascii_base, slotName_eq, hextension, joined, if_pos rfl,
    List.append_nil, hbase]

/-- An encoding decodes to the name in upper case, but for a name that ends in its only dot. -/
lemma slotName_of_encoded (hdot : endsInOnlyDot name = false)
    (hbytes : storedName bytes = encoded) :
    slotName bytes = upper name := by
  have hbase : trimmed (baseField bytes) = upper (splitName name).1 := by
    have hfield : baseField bytes = padded 8 (upper (splitName name).1) := by
      rw [← h.base, ← hbytes]
      rfl
    rw [hfield, trimmed_padded _ (space_notMem_upper h.space_base)]
  have hextension : trimmed (extensionField bytes) = upper (splitName name).2 := by
    have hfield : extensionField bytes = padded 3 (upper (splitName name).2) := by
      rw [← h.extension, ← hbytes]
      rfl
    rw [hfield, trimmed_padded _ (space_notMem_upper h.space_extension)]
  rw [slotName_eq, hbase, hextension, ← upper_joined, ← eq_joined hdot]

end Compare

/-! ### There and back -/

/-- Two texts that are equal ignoring ASCII case are equal in upper case. -/
lemma forall₂_eqIgnoreAsciiCase (text other : List UInt8) :
    List.Forall₂ (fun a b => eqIgnoreAsciiCase a b = true) text other
      ↔ upper text = upper other := by
  rw [upper, upper, ← List.forall₂_eq_eq_eq, List.forall₂_map_left_iff,
    List.forall₂_map_right_iff]
  simp only [eqIgnoreAsciiCase, beq_iff_eq]

/-- A slot with an encoded name and the attribute of a file is a file. -/
lemma decodeSlot_of_encoded {name : List UInt8} {encoded : EncodedName} {bytes : SlotBytes}
    (h : encodeName name = some encoded) (hbytes : storedName bytes = encoded)
    (hattr : bytes 11 = attrArchive) :
    decodeSlot bytes = .entry (slotEntry bytes) := by
  obtain ⟨hused, hkept⟩ := encodeName_first h
  have hfirst : bytes 0 = encoded 0 := congrFun hbytes 0
  rw [decodeSlot, if_neg (by rwa [hfirst]), if_neg (by rwa [hfirst]), hattr,
    if_neg (by decide), ← hattr]
  rfl

/-- An encoding depends on its name in upper case only. -/
lemma Encodes.eq_of_upper {name name' : List UInt8} {encoded encoded' : EncodedName}
    (h : Encodes name encoded) (h' : Encodes name' encoded') (hdot : endsInOnlyDot name = false)
    (hdot' : endsInOnlyDot name' = false) (hupper : upper name = upper name') :
    encoded = encoded' := by
  have hsplit : ∀ {text : List UInt8}, endsInOnlyDot text = false →
      splitName (upper text) = (upper (splitName text).1, upper (splitName text).2) := by
    intro text htext
    rw [congrArg upper (eq_joined htext), upper_joined,
      splitName_joined _ (mt dot_mem_upper.mp (dot_notMem_base text))]
  have hparts := congrArg splitName hupper
  rw [hsplit hdot, hsplit hdot'] at hparts
  obtain ⟨hbase, hextension⟩ := Prod.mk.inj hparts
  have hlow := h.base.trans (hbase ▸ h'.base.symm)
  have hhigh := h.extension.trans (hextension ▸ h'.extension.symm)
  rw [List.ofFn_inj] at hlow hhigh
  funext i
  by_cases hi : i.val < 8
  · exact congrFun hlow ⟨i, hi⟩
  · have hat := congrFun hhigh ⟨i.val - 8, by omega⟩
    have hi' : (⟨8 + (i.val - 8), by omega⟩ : Fin 11) = i :=
      Fin.ext (Nat.add_sub_cancel' (Nat.le_of_not_lt hi))
    simpa only [hi'] using hat

/-- **Short names go there and back, and do not collide.** For a name that is accepted and does
not end in its only dot, every slot that stores its encoding and is marked as a file decodes to an
entry, whose name is the name in upper case and which is named so; and another such name has the
same encoding exactly when it is the same ignoring case. -/
theorem encodeName_roundTrip {name : List UInt8} {encoded : EncodedName}
    (h : encodeName name = some encoded) (hdot : endsInOnlyDot name = false) :
    (∀ bytes : SlotBytes, storedName bytes = encoded → bytes 11 = attrArchive →
        ∃ entry, decodeSlot bytes = .entry entry ∧ entry.nameText = upper name
          ∧ entry.isNamed name = true)
      ∧ ∀ (other : List UInt8) (encoded' : EncodedName), encodeName other = some encoded' →
        endsInOnlyDot other = false →
        (encoded = encoded'
          ↔ List.Forall₂ (fun a b => eqIgnoreAsciiCase a b = true) name other) := by
  have hencodes := encodes h
  refine ⟨fun bytes hbytes hattr => ?_, fun other encoded' h' hdot' => ?_⟩
  · have hname : (slotEntry bytes).name = upper name := slotName_of_encoded hencodes hdot hbytes
    refine ⟨_, decodeSlot_of_encoded h hbytes hattr, ?_, ?_⟩
    · rw [DirectoryEntry.nameText, hname, if_pos (validUtf8_ascii fun b hb => ?_)]
      obtain ⟨c, hc, rfl⟩ := List.mem_map.mp hb
      exact toAsciiUppercase_lt.mpr (hencodes.ascii c hc)
    · rw [isNamed_iff hencodes.name_ne hencodes.ascii]
      exact (congrArg upper hname).trans (upper_idem name)
  · rw [forall₂_eqIgnoreAsciiCase]
    refine ⟨?_, hencodes.eq_of_upper (encodes h') hdot hdot'⟩
    -- one slot with the encoding decodes to both
    rintro rfl
    let bytes : SlotBytes := fun i => if hi : i.val < 11 then encoded ⟨i, hi⟩ else 0
    have hbytes : storedName bytes = encoded := funext fun i => dif_pos i.isLt
    rw [← slotName_of_encoded hencodes hdot hbytes, slotName_of_encoded (encodes h') hdot' hbytes]

/-- `a.b.c`, whose extension has a dot. -/
theorem encodeName_roundTrip_dots :
    ∃ encoded, encodeName [0x61, 0x2E, 0x62, 0x2E, 0x63] = some encoded
      ∧ ∃ entry, decodeSlot (fileSlot encoded 0 0) = .entry entry
        ∧ entry.nameText = [0x41, 0x2E, 0x42, 0x2E, 0x43] := by
  obtain ⟨encoded, hencoded⟩ := Option.isSome_iff_exists.mp
    (by decide : (encodeName [0x61, 0x2E, 0x62, 0x2E, 0x63]).isSome = true)
  obtain ⟨entry, hslot, htext, -⟩ :=
    (encodeName_roundTrip hencoded (by decide)).1 (fileSlot encoded 0 0)
    (funext fun i => dif_pos i.isLt) rfl
  exact ⟨encoded, hencoded, entry, hslot, htext⟩

end Harlan.Fat
