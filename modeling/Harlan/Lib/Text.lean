import Mathlib.Data.List.DropRight
import Mathlib.Tactic

/-! Text as the standard library of the source's language reads it: the code points of UTF-8,
white space around them, and numbers of 32 bits.

* `utf8`, `decodeUtf8`, `trim`, `parseU32`.
* `decodeUtf8_ascii`: of plain text, each byte is a code point.
* `trim_append`: what has no white space is what is left of it and of white space after it.
* `digitsFrom_append`, `parseU32_lt`: a number is read digit by digit, and fits.
-/

namespace Harlan.Text

/-! ### UTF-8 -/

/-- The bytes of a literal. -/
def utf8 (s : String) : List UInt8 := s.toUTF8.data.toList

/-- Whether a byte goes on with a sequence. -/
def continues (b : UInt8) : Bool := decide (0x80 ≤ b.toNat) && decide (b.toNat < 0xC0)

/-- The code points of a text, if it is one (`str::from_utf8`): no stray or missing byte, no
overlong form, no surrogate, nothing above `U+10FFFF`. -/
def decodeUtf8 : List UInt8 → Option (List ℕ)
  | [] => some []
  | a :: rest =>
      if a.toNat < 0x80 then (decodeUtf8 rest).map (a.toNat :: ·)
      else if 0xC2 ≤ a.toNat ∧ a.toNat < 0xE0 then
        match rest with
        | b :: rest =>
            if continues b then
              (decodeUtf8 rest).map (((a.toNat - 0xC0) * 64 + (b.toNat - 0x80)) :: ·)
            else none
        | _ => none
      else if 0xE0 ≤ a.toNat ∧ a.toNat < 0xF0 then
        match rest with
        | b :: c :: rest =>
            if continues b && continues c && !(a.toNat == 0xE0 && decide (b.toNat < 0xA0))
                && !(a.toNat == 0xED && decide (0xA0 ≤ b.toNat)) then
              (decodeUtf8 rest).map
                (((a.toNat - 0xE0) * 4096 + (b.toNat - 0x80) * 64 + (c.toNat - 0x80)) :: ·)
            else none
        | _ => none
      else if 0xF0 ≤ a.toNat ∧ a.toNat < 0xF5 then
        match rest with
        | b :: c :: d :: rest =>
            if continues b && continues c && continues d
              && !(a.toNat == 0xF0 && decide (b.toNat < 0x90))
                && !(a.toNat == 0xF4 && decide (0x90 ≤ b.toNat)) then
              (decodeUtf8 rest).map (((a.toNat - 0xF0) * 262144 + (b.toNat - 0x80) * 4096
                + (c.toNat - 0x80) * 64 + (d.toNat - 0x80)) :: ·)
            else none
        | _ => none
      else none

lemma decodeUtf8_ascii {bytes : List UInt8} (h : ∀ b ∈ bytes, b.toNat < 0x80) :
    decodeUtf8 bytes = some (bytes.map UInt8.toNat) := by
  induction bytes with
  | nil => rfl
  | cons a rest ih =>
      rw [decodeUtf8.eq_def]
      dsimp only
      rw [if_pos (h a List.mem_cons_self), ih fun b hb => h b (List.mem_cons_of_mem a hb)]
      rfl

/-! ### White space -/

/-- The code points that Unicode calls white space (`char::is_whitespace`). -/
def isWhiteSpace (c : ℕ) : Bool :=
  decide (0x09 ≤ c ∧ c ≤ 0x0D) || c == 0x20 || c == 0x85 || c == 0xA0 || c == 0x1680
    || decide (0x2000 ≤ c ∧ c ≤ 0x200A) || c == 0x2028 || c == 0x2029 || c == 0x202F || c
      == 0x205F || c == 0x3000

/-- A text without the white space at its ends (`str::trim`). -/
def trim (text : List ℕ) : List ℕ := (text.dropWhile isWhiteSpace).rdropWhile isWhiteSpace

/-- What has no white space is what is left of it and of white space after it. -/
lemma trim_append {text space : List ℕ} (htext : ∀ c ∈ text, isWhiteSpace c = false)
    (hspace : ∀ c ∈ space, isWhiteSpace c = true) (hne : text ≠ []) :
    trim (text ++ space) = text := by
  have hback : (text ++ space).rdropWhile isWhiteSpace = text := by
    rw [List.rdropWhile, List.reverse_append, List.dropWhile_append_of_pos, List.reverse_eq_iff]
    · rw [List.dropWhile_eq_self_iff]
      intro hpos
      rw [htext _ (List.mem_reverse.mp (List.getElem_mem hpos))]
      exact Bool.false_ne_true
    · intro c hc
      exact hspace c (List.mem_reverse.mp hc)
  obtain ⟨first, rest, rfl⟩ := List.exists_cons_of_ne_nil hne
  rw [trim, List.cons_append, List.dropWhile_cons_of_neg, ← List.cons_append, hback]
  rw [htext first List.mem_cons_self]
  exact Bool.false_ne_true

/-! ### Numbers -/

/-- The digits that are left of a number, after those that make `value`; `none` for anything that
is not one, or a number that is too long. -/
def digitsFrom : List ℕ → ℕ → Option ℕ
  | [], value => some value
  | c :: rest, value =>
      if 0x30 ≤ c ∧ c ≤ 0x39 ∧ value * 10 + (c - 0x30) < 2 ^ 32 then
        digitsFrom rest (value * 10 + (c - 0x30))
      else none

/-- A number of 32 bits (`str::parse::<u32>`): at least one digit, and perhaps a plus before
them. -/
def parseU32 : List ℕ → Option ℕ
  | [] => none
  | [c] => if c = 0x2B ∨ c = 0x2D then none else digitsFrom [c] 0
  | first :: rest => if first = 0x2B then digitsFrom rest 0 else digitsFrom (first :: rest) 0

lemma digitsFrom_append (digits more : List ℕ) (value : ℕ) :
    digitsFrom (digits ++ more) value = (digitsFrom digits value).bind (digitsFrom more) := by
  induction digits generalizing value with
  | nil => rfl
  | cons c rest ih =>
      rw [List.cons_append, digitsFrom, digitsFrom]
      split_ifs
      · exact ih _
      · rfl

lemma digitsFrom_lt {digits : List ℕ} {value number : ℕ} (hvalue : value < 2 ^ 32)
    (h : digitsFrom digits value = some number) : number < 2 ^ 32 := by
  induction digits generalizing value with
  | nil => exact Option.some.inj h ▸ hvalue
  | cons c rest ih =>
      rw [digitsFrom] at h
      split_ifs at h with hdigit
      exact ih hdigit.2.2 h

lemma parseU32_lt {text : List ℕ} {number : ℕ} (h : parseU32 text = some number) :
    number < 2 ^ 32 := by
  rw [parseU32.eq_def] at h
  split at h
  · cases h
  · split_ifs at h
    exact digitsFrom_lt (by decide) h
  · split_ifs at h
    · exact digitsFrom_lt (by decide) h
    · exact digitsFrom_lt (by decide) h

/-- Digits alone are read one by one. -/
lemma parseU32_digits {text : List ℕ} (hne : text ≠ []) (hdigits : ∀ c ∈ text, 0x30 ≤ c) :
    parseU32 text = digitsFrom text 0 := by
  obtain ⟨first, rest, rfl⟩ := List.exists_cons_of_ne_nil hne
  have hfirst := hdigits first List.mem_cons_self
  cases rest with
  | nil => rw [parseU32, if_neg (by omega)]
  | cons second rest => rw [parseU32, if_neg (by omega)]; simp

end Harlan.Text
