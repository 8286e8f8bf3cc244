import Mathlib.Tactic
import Harlan.Lib.Slices
import Harlan.Lib.Text

/-! The hardware report of the bootloader (`boot/src/inventory.rs`): text in a buffer of fixed
size, which is cut short rather than grown, and which ends with a line that says whether it was.

That line goes into the same buffer as the rest, and is cut short as the rest is.

* `Report`, `writeStr`, `gather`: the buffer, and what is written to it.
* `SaysSo`: the report ends with the line that is true of it.
* `footer_bytes`: what is left of the texts and of the last line.
* `saysSo_iff`: the report says so where there is room left for its last line, or where what
  filled the buffer happens to end as that line does. -/

namespace Harlan.Inventory

open Harlan.Text (utf8)

/-! ### The report -/

/-- What the formatting machinery hands over: the bytes of a `str`. -/
abbrev Text := List UInt8

/-- How much the report may be. -/
def room : ℕ := 16 * 1024

/-- The text of a report, within its capacity. -/
structure Report where
  bytes : List UInt8
  /-- Whether anything was dropped. -/
  truncated : Bool
  fits : bytes.length ≤ room

namespace Report

/-- A report with nothing in it. -/
def new : Report := ⟨[], false, Nat.zero_le _⟩

/-- What there is room for is taken, and the rest dropped. -/
def writeStr (report : Report) (text : Text) : Report where
  bytes := report.bytes ++ text.take (room - report.bytes.length)
  truncated := report.truncated
    || decide (min text.length (room - report.bytes.length) < text.length)
  fits := by
    have hfits := report.fits
    rw [List.length_append, List.length_take]
    omega

/-- The pieces of a formatted text, one after another. -/
def writeAll (report : Report) (texts : List Text) : Report := texts.foldl writeStr report

end Report

open Report

/-- The end of a line. -/
def newline : Text := utf8 "\n"

/-- The footer, which says that nothing is missing. -/
def endLine : Text := utf8 "-- end of report --\n"

/-- The number in it is formatted, so it comes in three pieces. -/
def cutLine : List Text :=
  [utf8 "-- the report filled its ", utf8 "16384", utf8 " bytes and was cut short here --\n"]

/-- The end of `gather`. -/
def footer (report : Report) : Report :=
  let report := report.writeStr newline
  if report.truncated then report.writeAll cutLine else report.writeStr endLine

/-- The first lines of every report. -/
def header : List Text :=
  [utf8 "HARLAN OS hardware inventory\n", utf8 "============================\n", newline]

/-- The report on a machine about which the sections write these texts. -/
def gather (firmware processor memory display bus : List Text) : Report :=
  footer (new.writeAll (header ++ firmware ++ processor ++ memory ++ display ++ bus))

/-- The bytes left where `texts` are all that was written before the footer. -/
def left (texts : List Text) : List UInt8 := (footer (new.writeAll texts)).bytes

lemma gather_bytes (firmware processor memory display bus : List Text) :
    (gather firmware processor memory display bus).bytes
      = left (header ++ firmware ++ processor ++ memory ++ display ++ bus) := rfl

/-- The report ends with the line that is true of it: with the end if all of `texts` is there, and
with the other, and no end, if some of it is missing. -/
def SaysSo (texts : List Text) : Prop :=
  if texts.flatten.length ≤ room then endLine <:+ left texts
  else cutLine.flatten <:+ left texts ∧ ¬ endLine <:+ left texts

/-! ### What is left of what was written -/

section Writes

variable {report : Report} {texts : List Text}

lemma writeAll_cons (text : Text) :
    report.writeAll (text :: texts) = (report.writeStr text).writeAll texts := rfl

lemma writeStr_bytes (text : Text) :
    (report.writeStr text).bytes = (report.bytes ++ text).take room := by
  rw [List.take_append, List.take_of_length_le report.fits]
  rfl

/-- Writing piece by piece keeps as much of the whole as there is room for. -/
lemma writeAll_bytes :
    (report.writeAll texts).bytes = (report.bytes ++ texts.flatten).take room := by
  induction texts generalizing report with
  | nil =>
      rw [List.flatten_nil, List.append_nil, List.take_of_length_le report.fits]
      rfl
  | cons text rest ih =>
      rw [writeAll_cons, ih, writeStr_bytes, take_append_take, List.flatten_cons,
        List.append_assoc]

/-- The report knows whether anything was dropped. -/
lemma writeAll_truncated : (report.writeAll texts).truncated
    = (report.truncated || decide (room < report.bytes.length + texts.flatten.length)) := by
  induction texts generalizing report with
  | nil =>
      have hfits := report.fits
      rw [List.flatten_nil, List.length_nil, Nat.add_zero, decide_eq_false (by omega),
        Bool.or_false]
      rfl
  | cons text rest ih =>
      have hfits := report.fits
      rw [writeAll_cons, ih, writeStr_bytes, List.length_take, List.length_append,
        List.flatten_cons, List.length_append, writeStr, Bool.or_assoc, ← Bool.decide_or]
      congr 2
      rw [eq_iff_iff]
      omega

end Writes

/-! ### What is left of the last line -/

variable {texts : List Text}

/-- The last line comes after a newline, or not at all: what has filled the buffer leaves it no
room. -/
lemma left_eq : left texts = if texts.flatten.length < room
      then (texts.flatten ++ newline ++ endLine).take room
    else texts.flatten.take room := by
  have hbytes : ((new.writeAll texts).writeStr newline).bytes
      = (texts.flatten ++ newline).take room := by
    rw [writeStr_bytes, writeAll_bytes, take_append_take]
    rfl
  have htruncated : ((new.writeAll texts).writeStr newline).truncated
      = decide (room < texts.flatten.length + 1) := by
    have h := @writeAll_truncated new (texts ++ [newline])
    rw [writeAll, List.foldl_append, List.flatten_append, List.length_append] at h
    rw [show new.bytes.length = 0 from rfl, Nat.zero_add] at h
    exact h
  rw [left, footer, htruncated]
  split
  · rename_i hfull
    have hfull : room ≤ texts.flatten.length := by simpa [Nat.lt_succ_iff] using hfull
    rw [writeAll_bytes, hbytes, if_neg (by omega), take_append_take, List.append_assoc,
      List.take_append_of_le_length hfull]
  · rename_i hsome
    have hsome : texts.flatten.length < room := by simpa [Nat.lt_succ_iff] using hsome
    rw [writeStr_bytes, hbytes, if_pos hsome, take_append_take]

lemma length_endLine : endLine.length = 20 := by decide

/-- There is one newline in the last line, at its end. -/
lemma endLine_cut {before piece : Text} (h : endLine <:+ before ++ newline ++ piece)
    (hpiece : piece.length < 20) :
    piece = [] := by
  have hsuffix : newline ++ piece <:+ endLine := by
    refine List.suffix_of_suffix_length_le ?_ h ?_
    · rw [List.append_assoc]
      exact List.suffix_append _ _
    · rw [length_endLine, List.length_append, show newline.length = 1 from rfl]
      omega
  obtain ⟨start, hstart⟩ := hsuffix
  by_contra hne
  have hmem : (10 : UInt8) ∈ endLine.dropLast := by
    rw [← hstart, ← List.append_assoc, List.dropLast_append_of_ne_nil hne]
    have hnewline : (10 : UInt8) ∈ newline := by decide
    exact List.mem_append_left _ (List.mem_append_right _ hnewline)
  exact absurd hmem (by decide)

/-- The two last lines do not end alike. -/
lemma not_endLine_of_cutLine {bytes : List UInt8} (h : cutLine.flatten <:+ bytes) :
    ¬ endLine <:+ bytes := by
  intro hend
  have hsuffix := List.suffix_of_suffix_length_le hend h (by decide)
  exact absurd hsuffix (by decide)

/-- What fills the buffer ends by itself, where the buffer does, with the line that is called
for. -/
def Mimics (body : Text) : Prop :=
  if body.length ≤ room then room ≤ body.length + 1 ∧ endLine <:+ (body ++ newline).take room
  else cutLine.flatten <:+ body.take room

/-- **A report that was cut short says so**, and one that was not says that it ends, where the
texts leave room for the newline and the last line; where they do not, the last line is cut short
itself, and the report ends as it should only if the texts happen to. -/
theorem saysSo_iff (texts : List Text) :
    SaysSo texts ↔ texts.flatten.length + 21 ≤ room ∨ Mimics texts.flatten := by
  rw [SaysSo, Mimics, left_eq]
  generalize texts.flatten = body
  have hnewline : newline.length = 1 := rfl
  have hend := length_endLine
  by_cases hall : body.length ≤ room
  · rw [if_pos hall, if_pos hall]
    by_cases hroom : room ≤ body.length + 1
    · have hleft : (if body.length < room then (body ++ newline ++ endLine).take room
          else body.take room)
          = (body ++ newline).take room := by
        split
        · exact List.take_append_of_le_length (by rw [List.length_append, hnewline]; exact hroom)
        · exact (List.take_append_of_le_length (by omega)).symm
      rw [hleft]
      constructor
      · exact fun h => .inr ⟨hroom, h⟩
      · rintro (hfits | ⟨-, h⟩)
        · omega
        · exact h
    · rw [if_pos (by omega), List.take_append,
        List.take_of_length_le (by rw [List.length_append, hnewline]; omega),
        List.length_append, hnewline]
      constructor
      · intro h
        refine .inl ?_
        by_contra hcut
        have hlength : (endLine.take (room - (body.length + 1))).length
            = room - (body.length + 1) := by
          rw [List.length_take, hend]
          omega
        have hnone := endLine_cut h (by omega)
        rw [hnone] at hlength
        simp at hlength
        omega
      · rintro (hfits | ⟨hfull, -⟩)
        · rw [List.take_of_length_le (by omega)]
          exact List.suffix_append _ _
        · exact absurd hfull hroom
  · rw [if_neg hall, if_neg hall, if_neg (by omega)]
    constructor
    · exact fun h => .inr h.1
    · rintro (hfits | h)
      · omega
      · exact ⟨h, not_endLine_of_cutLine h⟩

/-- **A report that fills the buffer to its last byte**, as one on a machine with a long enough
vendor name does: nothing is missing from the texts, and the report does not say that it ends. -/
theorem not_saysSo_full :
    (gather [List.replicate (room - 59) 0x78] [] [] [] []).bytes = left
    (header ++ [List.replicate (room - 59) 0x78])
      ∧ ¬ SaysSo (header ++ [List.replicate (room - 59) 0x78]) := by
  refine ⟨by rw [gather_bytes, List.append_nil, List.append_nil, List.append_nil, List.append_nil], ?_⟩
  have hlength : (header ++ [List.replicate (room - 59) 0x78]).flatten.length = room := by
    rw [List.flatten_append, List.flatten_singleton, List.length_append, List.length_replicate]
    rfl
  rw [SaysSo, if_pos hlength.le, left_eq, if_neg hlength.not_lt,
    List.take_of_length_le hlength.le, List.flatten_append, List.flatten_singleton]
  intro h
  have hsuffix : endLine <:+ List.replicate (room - 59) 0x78 := by
    refine List.suffix_of_suffix_length_le h (List.suffix_append _ _) ?_
    rw [List.length_replicate, length_endLine]
    decide
  have hnewline : (10 : UInt8) ∈ endLine := by decide
  exact absurd (List.eq_of_mem_replicate (hsuffix.subset hnewline)) (by decide)

end Harlan.Inventory
