import Mathlib.Tactic
import Harlan.EventLines
import Harlan.Fat.Names
import Harlan.Lib.Text

/-! Counting boots in a file (`kernel/src/lib.rs`): what `count_this_boot` makes of what the last
boot, or anyone, left in `BOOTS.TXT`.

The number is read as the source's standard library reads one, in any spelling it takes, and
written by a loop of the kernel's own into a buffer of eleven bytes.

* `decodeUtf8_isSome`: what is text here is text for the names of files.
* `numberIn_written`: a number that is written is read.
* `countThisBoot_grows_iff`: the count grows by one, but for the largest number there is.
* `afterBoots_grows`: and so it does over any number of boots.
-/

namespace Harlan.Boots

open Events (decimal digitsInto digitsInto_eq newline)

/-! ### Reading -/

/-- The number in a file, if it has one. -/
def numberIn (contents : List UInt8) : Option ℕ :=
  (Text.decodeUtf8 contents).bind fun text => Text.parseU32 (Text.trim text)

/-- The room there is for the file. -/
def readRoom : ℕ := 32

/-- What became of looking for the file and reading it. -/
inductive Lookup where
  | noSuchFile
  /-- It could not be looked up. -/
  | failed
  /-- It is there and could not be read. -/
  | unreadable
  | found (contents : List UInt8)

/-- What the last boot left; a file that there is no room for is not read. -/
def Lookup.before : Lookup → Option ℕ
  | .noSuchFile | .failed | .unreadable => none
  | .found contents => if readRoom < contents.length then none else numberIn contents

/-! ### Writing -/

/-- `text[i] = byte`; `none` where there is no such place. -/
def putAt (text : List UInt8) (i : ℕ) (byte : UInt8) : Option (List UInt8) :=
  if i < text.length then some (text.set i byte) else none

/-- The digits, from place `i` on. -/
def putFrom (text : List UInt8) (i : ℕ) : List UInt8 → Option (List UInt8)
  | [] => some text
  | digit :: rest => do
      let text ← putAt text i digit
      putFrom text (i + 1) rest

/-- Writes a number as decimal with a newline, and answers how many bytes that took; `none` for a
write past the end of the ten digits or of the text. -/
def writeNumber (text : List UInt8) (number : ℕ) : Option (List UInt8 × ℕ) := do
  let digits ← digitsInto 10 number []
  let text ← putFrom text 0 digits.reverse
  let text ← putAt text digits.length newline
  some (text, digits.length + 1)

/-- What a boot does with the file. -/
inductive Counted where
  /-- It could not be looked up, and is left alone. -/
  | gaveUp
  /-- The addition is too long for 32 bits. -/
  | overflowed
  /-- A write past the end of a buffer. -/
  | outOfBounds
  | writes (this : ℕ) (contents : List UInt8)
deriving DecidableEq

/-- Counts this boot. -/
def countThisBoot : Lookup → Counted
  | .failed => .gaveUp
  | lookup =>
      let this := lookup.before.getD 0 + 1
      if 2 ^ 32 ≤ this then .overflowed
      else
        match writeNumber (List.replicate 11 0) this with
        | none => .outOfBounds
        | some (text, written) =>
            if text.length < written then .outOfBounds else .writes this (text.take written)

/-! ### The two ways of telling text -/

lemma isSome_guarded {α β : Type} (guard : Bool) (found : Option α) (f : α → β) :
    (if guard then found.map f else none).isSome = (guard && found.isSome) := by
  cases guard
  · rfl
  · rw [if_pos rfl, Option.isSome_map, Bool.true_and]

lemma decodeUtf8_isSome (bytes : List UInt8) :
    (Text.decodeUtf8 bytes).isSome = Fat.validUtf8 bytes := by
  fun_induction Fat.validUtf8 bytes with
  | case1 => rfl
  | case2 a rest hplain ih =>
      rw [Text.decodeUtf8.eq_def]
      dsimp only
      rw [if_pos hplain, Option.isSome_map, ih]
  | case3 a hplain htwo b rest ih =>
      rw [Text.decodeUtf8.eq_def]
      dsimp only
      rw [if_neg hplain, if_pos htwo, isSome_guarded, ih]
      rfl
  | case4 a rest hplain htwo hshort =>
      rw [Text.decodeUtf8.eq_def]
      dsimp only
      rw [if_neg hplain, if_pos htwo]
      split
      · exact absurd rfl (hshort _ _)
      · rfl
  | case5 a hplain htwo hthree b c rest ih =>
      rw [Text.decodeUtf8.eq_def]
      dsimp only
      rw [if_neg hplain, if_neg htwo, if_pos hthree, isSome_guarded, ih]
      rfl
  | case6 a rest hplain htwo hthree hshort =>
      rw [Text.decodeUtf8.eq_def]
      dsimp only
      rw [if_neg hplain, if_neg htwo, if_pos hthree]
      split
      · exact absurd rfl (hshort _ _ _)
      · rfl
  | case7 a hplain htwo hthree hfour b c d rest ih =>
      rw [Text.decodeUtf8.eq_def]
      dsimp only
      rw [if_neg hplain, if_neg htwo, if_neg hthree, if_pos hfour, isSome_guarded, ih]
      rfl
  | case8 a rest hplain htwo hthree hfour hshort =>
      rw [Text.decodeUtf8.eq_def]
      dsimp only
      rw [if_neg hplain, if_neg htwo, if_neg hthree, if_pos hfour]
      split
      · exact absurd rfl (hshort _ _ _ _)
      · rfl
  | case9 a rest hplain htwo hthree hfour =>
      rw [Text.decodeUtf8.eq_def]
      dsimp only
      rw [if_neg hplain, if_neg htwo, if_neg hthree, if_neg hfour]
      rfl

/-! ### Decimal -/

lemma decimal_of_small {number : ℕ} (h : number < 10) :
    decimal number = [UInt8.ofNat (0x30 + number)] := by
  rw [decimal]
  split_ifs with hzero
  · rw [hzero]
    rfl
  · rw [Nat.digits_of_lt 10 number hzero h]
    rfl

lemma decimal_of_large {number : ℕ} (h : 10 ≤ number) :
    decimal number = decimal (number / 10) ++ [UInt8.ofNat (0x30 + number % 10)] := by
  rw [decimal, decimal, if_neg (by omega), if_neg (by omega),
    Nat.digits_def' (by omega) (by omega), List.reverse_cons, List.map_append, List.map_singleton]

/-- A digit, as a byte and as a code point. -/
lemma toNat_digit (digit : ℕ) (h : digit < 10) :
    (UInt8.ofNat (0x30 + digit)).toNat = 0x30 + digit := by
  rw [UInt8.toNat_ofNat']
  omega

/-- The bytes of a number in decimal. -/
lemma decimal_digit {number : ℕ} : ∀ b ∈ decimal number, 0x30 ≤ b.toNat ∧ b.toNat ≤ 0x39 := by
  induction number using Nat.strong_induction_on with
  | _ number ih =>
      intro b hb
      by_cases h : number < 10
      · rw [decimal_of_small h, List.mem_singleton] at hb
        rw [hb, toNat_digit number h]
        omega
      · rw [decimal_of_large (by omega), List.mem_append, List.mem_singleton] at hb
        obtain hb | rfl := hb
        · exact ih (number / 10) (by omega) b hb
        · rw [toNat_digit _ (Nat.mod_lt _ (by omega))]
          omega

lemma decimal_ne_nil (number : ℕ) : decimal number ≠ [] := by
  by_cases h : number < 10
  · rw [decimal_of_small h]
    exact List.cons_ne_nil _ _
  · rw [decimal_of_large (by omega)]
    exact List.append_ne_nil_of_right_ne_nil _ (List.cons_ne_nil _ _)

lemma length_decimal_le {number : ℕ} (h : number < 10 ^ 10) : (decimal number).length ≤ 10 := by
  rw [decimal]
  split_ifs with hzero
  · exact (by decide : 1 ≤ 10)
  · rw [List.length_map, List.length_reverse]
    exact (Nat.digits_length_le_iff (by omega) number).mpr h

/-- Reading a number digit by digit. -/
lemma digitsFrom_decimal {number : ℕ} (h : number < 2 ^ 32) :
    Text.digitsFrom ((decimal number).map UInt8.toNat) 0 = some number := by
  induction number using Nat.strong_induction_on with
  | _ number ih =>
      by_cases hsmall : number < 10
      · rw [decimal_of_small hsmall, List.map_singleton, toNat_digit number hsmall,
          Text.digitsFrom, if_pos (by omega), Text.digitsFrom]
        congr 1
        omega
      · have hdigit : number % 10 < 10 := Nat.mod_lt _ (by omega)
        rw [decimal_of_large (by omega), List.map_append, Text.digitsFrom_append,
          ih (number / 10) (by omega) (by omega), Option.bind_some, List.map_singleton,
          toNat_digit _ hdigit, Text.digitsFrom, if_pos (by omega), Text.digitsFrom]
        congr 1
        omega

/-- A number that is written is read. -/
lemma numberIn_written {number : ℕ} (h : number < 2 ^ 32) :
    numberIn (decimal number ++ [newline]) = some number := by
  have hascii : ∀ b ∈ decimal number ++ [newline], b.toNat < 0x80 := by
    intro b hb
    rw [List.mem_append, List.mem_singleton] at hb
    obtain hb | rfl := hb
    · have hdigit := decimal_digit b hb
      omega
    · decide
  have hbare : ∀ c ∈ (decimal number).map UInt8.toNat, 0x30 ≤ c ∧ c ≤ 0x39 := by
    intro c hc
    obtain ⟨b, hb, rfl⟩ := List.mem_map.mp hc
    exact decimal_digit b hb
  have hne : (decimal number).map UInt8.toNat ≠ [] :=
    fun hnil => decimal_ne_nil number (List.map_eq_nil_iff.mp hnil)
  have htrim : Text.trim ((decimal number).map UInt8.toNat ++ [newline].map UInt8.toNat)
      = (decimal number).map UInt8.toNat := by
    refine Text.trim_append (fun c hc => ?_) (fun c hc => ?_) hne
    · have hdigit := hbare c hc
      simp only [Text.isWhiteSpace, Bool.or_eq_false_iff, decide_eq_false_iff_not,
        beq_eq_false_iff_ne]
      omega
    · rw [List.map_singleton, List.mem_singleton] at hc
      rw [hc]
      decide
  calc
    numberIn (decimal number ++ [newline])
        = Text.parseU32 (Text.trim ((decimal number ++ [newline]).map UInt8.toNat)) := by
      rw [numberIn, Text.decodeUtf8_ascii hascii, Option.bind_some]
    _ = Text.parseU32 ((decimal number).map UInt8.toNat) := by rw [List.map_append, htrim]
    _ = Text.digitsFrom ((decimal number).map UInt8.toNat) 0 :=
      Text.parseU32_digits hne fun c hc => (hbare c hc).1
    _ = some number := digitsFrom_decimal h

/-! ### Counting -/

lemma putAt_append (before after : List UInt8) (old new : UInt8) :
    putAt (before ++ old :: after) before.length new = some (before ++ [new] ++ after) := by
  rw [putAt, if_pos (by simp), List.set_append_right _ _ (le_refl _), Nat.sub_self,
    List.set_cons_zero, List.append_assoc]
  rfl

lemma putFrom_eq (digits before after : List UInt8) (h : digits.length ≤ after.length) :
    putFrom (before ++ after) before.length digits
      = some (before ++ digits ++ after.drop digits.length) := by
  induction digits generalizing before after with
  | nil => rw [putFrom, List.append_nil, List.length_nil, List.drop_zero]
  | cons digit rest ih =>
      obtain ⟨old, after, rfl⟩ :=
        List.exists_cons_of_length_pos (Nat.lt_of_lt_of_le (Nat.succ_pos _) h)
      have hrest := ih (before ++ [digit]) after (Nat.le_of_succ_le_succ h)
      rw [List.length_append, List.length_singleton] at hrest
      rw [putFrom, putAt_append, Option.bind_eq_bind, Option.bind_some, hrest]
      simp

/-- The buffers are long enough for any number of ten digits. -/
lemma writeNumber_eq {number : ℕ} (h : number < 10 ^ 10) :
    ∃ text, writeNumber (List.replicate 11 0) number = some (text, (decimal number).length + 1)
      ∧ (decimal number).length + 1 ≤ text.length
      ∧ text.take ((decimal number).length + 1) = decimal number ++ [newline] := by
  have hlength := length_decimal_le h
  have hput := putFrom_eq (decimal number) [] (List.replicate 11 0)
    (by rw [List.length_replicate]; omega)
  obtain ⟨count, hcount⟩ : ∃ count, 11 - (decimal number).length = count + 1 :=
    ⟨10 - (decimal number).length, by omega⟩
  rw [List.nil_append, List.nil_append, List.length_nil, List.drop_replicate, hcount] at hput
  refine ⟨decimal number ++ [newline] ++ List.replicate count 0, ?_, ?_, ?_⟩
  · have hlast : putAt (decimal number ++ List.replicate (count + 1) 0)
        (decimal number).length newline
        = some (decimal number ++ [newline] ++ List.replicate count 0) :=
      putAt_append (decimal number) (List.replicate count 0) 0 newline
    rw [writeNumber, digitsInto_eq [] h, Option.bind_eq_bind, Option.bind_some, List.nil_append,
      List.reverse_reverse, hput, Option.bind_some, List.length_reverse, hlast, Option.bind_some]
  · simp
  · rw [List.take_append_of_le_length (by simp), List.take_of_length_le (by simp)]

variable {lookup : Lookup} {n : ℕ}

/-- What a boot does that reads a number, or none. -/
lemma countThisBoot_eq (hfound : lookup ≠ .failed) (hn : lookup.before.getD 0 = n) :
    countThisBoot lookup
      = if n + 1 < 2 ^ 32 then .writes (n + 1) (decimal (n + 1) ++ [newline])
        else .overflowed := by
  have hcount : countThisBoot lookup
      = if 2 ^ 32 ≤ n + 1 then Counted.overflowed
        else
          match writeNumber (List.replicate 11 0) (n + 1) with
          | none => .outOfBounds
          | some (text, written) =>
              if text.length < written then
                .outOfBounds else .writes (n + 1) (text.take written) := by
    rw [← hn]
    cases lookup with
    | failed => exact absurd rfl hfound
    | noSuchFile => rfl
    | unreadable => rfl
    | found contents => rfl
  rw [hcount]
  split_ifs with hlong hshort hshort
  · omega
  · rfl
  · obtain ⟨text, hwritten, hlength, htext⟩ := @writeNumber_eq (n + 1) (by omega)
    rw [hwritten]
    dsimp only
    rw [if_neg (by omega), htext]
  · omega

/-- A boot that finds a number writes a text in which the next boot finds the next number; no sum
is too long for its type, and no write leaves its buffer. -/
def Grows (contents : List UInt8) (n : ℕ) : Prop :=
  ∃ this text, countThisBoot (.found contents) = .writes this text
    ∧ (Lookup.found text).before = some (n + 1)

lemma before_lt {contents : List UInt8} (hread : (Lookup.found contents).before = some n) :
    n < 2 ^ 32 := by
  rw [Lookup.before] at hread
  split_ifs at hread
  obtain ⟨text, -, hparse⟩ := Option.bind_eq_some_iff.mp hread
  exact Text.parseU32_lt hparse

/-- What was written is read whole. -/
lemma before_written (h : n < 2 ^ 32) : (Lookup.found (decimal n ++ [newline])).before
      = some n := by
  have hlength := @length_decimal_le n (by omega)
  rw [Lookup.before, if_neg (by rw [List.length_append, List.length_singleton, readRoom]; omega)]
  exact numberIn_written h

/-- **When the boot counter grows**: for every file in which a boot finds a number, in whatever
spelling, the next boot finds the next one unless it was the largest of 32 bits. -/
theorem countThisBoot_grows_iff (contents : List UInt8) (n : ℕ)
    (hread : (Lookup.found contents).before = some n) : Grows contents n ↔ n ≠ 2 ^ 32 - 1 := by
  have hlt := before_lt hread
  have hcount := @countThisBoot_eq (.found contents) n (by simp) (by rw [hread]; rfl)
  constructor
  · rintro ⟨this, text, hwrites, -⟩ rfl
    rw [hcount, if_neg (by decide)] at hwrites
    cases hwrites
  · intro hne
    rw [if_pos (by omega)] at hcount
    exact ⟨_, _, hcount, before_written (by omega)⟩

/-- The bytes of ` +007` and a newline. -/
def plusSeven : List UInt8 := [0x20, 0x2B, 0x30, 0x30, 0x37, 0x0A]

theorem countThisBoot_grows_iff_seven :
    (Lookup.found plusSeven).before = some 7 ∧ Grows plusSeven 7 := by
  have hread : (Lookup.found plusSeven).before = some 7 := by decide
  exact ⟨hread, (countThisBoot_grows_iff plusSeven 7 hread).mpr (by decide)⟩

/-- The bytes of `4294967295`. -/
def largest : List UInt8 := [0x34, 0x32, 0x39, 0x34, 0x39, 0x36, 0x37, 0x32, 0x39, 0x35]

/-- The largest number there is, to which no boot can add one. -/
theorem countThisBoot_overflows :
    (Lookup.found largest).before = some (2 ^ 32 - 1) ∧ countThisBoot
    (.found largest) = .overflowed
      ∧ ¬ Grows largest (2 ^ 32 - 1) := by
  have hover : countThisBoot (.found largest) = .overflowed := by decide
  refine ⟨by decide, hover, ?_⟩
  rintro ⟨this, text, hwrites, -⟩
  rw [hover] at hwrites
  cases hwrites

/-! ### Boot after boot -/

/-- What is in the file after a boot, on a disk that keeps what it is given. -/
def afterBoot (contents : List UInt8) : List UInt8 :=
  match countThisBoot (.found contents) with
  | .writes _ text => text
  | _ => contents

/-- **The count only grows** over any number of boots, up to the largest number there is. -/
theorem afterBoots_grows {contents : List UInt8}
    (hread : (Lookup.found contents).before = some n) (boots : ℕ) (hroom : n + boots < 2 ^ 32) :
    (Lookup.found (afterBoot^[boots] contents)).before = some (n + boots) := by
  induction boots with
  | zero => exact hread
  | succ boots ih =>
      have hbefore := ih (by omega)
      have hcount := @countThisBoot_eq (.found (afterBoot^[boots] contents)) (n + boots) (by simp)
        (by rw [hbefore]; rfl)
      rw [if_pos (by omega)] at hcount
      rw [Function.iterate_succ_apply', afterBoot, hcount]
      exact before_written (by omega)

end Harlan.Boots
