import Mathlib.Tactic
import Harlan.Hal

/-!
The system event log (`kernel/src/events.rs`): a ring of fixed lines, and what a flush takes of
it.

A line is laid out in a buffer of `lineBytes` bytes, and what does not fit is cut. The number of
lines ever written, and how many of them were handed over, only grow; the ring has the last
`events` of them.

* `formatLine_text`: a line is its fields one after the other, cut at the end of the buffer.
* `newestWholeLines_spec`: what is kept of a log that does not fit.
-/

namespace Harlan.Events

/-! ### A line -/

/-- How many events are kept before the oldest is dropped. -/
def events : ℕ := 128

/-- How long one line may be. -/
def lineBytes : ℕ := 72

/-- The most the file on disk may hold. -/
def maxFile : ℕ := 64 * 512

/-- What stands between the fields of a line. -/
def space : UInt8 := 0x20
/-- What ends a line. -/
def newline : UInt8 := 0x0A

/-- What a line says happened. -/
inductive What where
  | boot
  | disk
  | noDisk
  | notOurs
  | loaded
  | started
  | exited
  | faulted
  | wrote
  | frames
  | shell
  | shellGone
deriving DecidableEq

/-- The word that goes in the line, in ASCII and padded to ten. -/
def What.word (what : What) : List UInt8 :=
  let text : List UInt8 := match what with
    | boot => [0x62, 0x6F, 0x6F, 0x74]
    | disk => [0x64, 0x69, 0x73, 0x6B]
    | noDisk => [0x6E, 0x6F, 0x2D, 0x64, 0x69, 0x73, 0x6B]
    | notOurs => [0x6E, 0x6F, 0x74, 0x2D, 0x6F, 0x75, 0x72, 0x73]
    | loaded => [0x6C, 0x6F, 0x61, 0x64, 0x65, 0x64]
    | started => [0x73, 0x74, 0x61, 0x72, 0x74, 0x65, 0x64]
    | exited => [0x65, 0x78, 0x69, 0x74, 0x65, 0x64]
    | faulted => [0x66, 0x61, 0x75, 0x6C, 0x74, 0x65, 0x64]
    | wrote => [0x77, 0x72, 0x6F, 0x74, 0x65]
    | frames => [0x66, 0x72, 0x61, 0x6D, 0x65, 0x73]
    | shell => [0x73, 0x68, 0x65, 0x6C, 0x6C]
    | shellGone => [0x73, 0x68, 0x65, 0x6C, 0x6C, 0x2D, 0x67, 0x6F, 0x6E, 0x65]
  text ++ List.replicate (10 - text.length) space

/-- The bytes of one line, used or not. -/
abbrev Buffer := Fin 72 → UInt8

/-- A line of the log: its bytes and how many of them are used. -/
structure Line where
  bytes : Buffer
  len : ℕ

/-- A line that was never written. -/
def Line.empty : Line := ⟨fun _ => 0, 0⟩

/-- The part of a line that is used. -/
def Line.text (line : Line) : List UInt8 := (List.ofFn line.bytes).take line.len

/-- Copies what fits of `text` at a position, answering how much went in. -/
def put (into : Buffer) (pos : ℕ) (text : List UInt8) : Buffer × ℕ :=
  let taking := min text.length (lineBytes - pos)
  (fun i => if pos ≤ i.val ∧ i.val < pos + taking then text.getD (i - pos) 0 else into i, taking)

/-- A number in decimal. -/
def decimal (number : ℕ) : List UInt8 :=
  if number = 0 then
    [0x30] else (Nat.digits 10 number).reverse.map fun digit => UInt8.ofNat (0x30 + digit)

/-- A number, padded on the left with spaces to `width`; one that is wider is not cut. -/
def padded (number width : ℕ) : List UInt8 :=
  List.replicate (width - (decimal number).length) space ++ decimal number

/-- Writes a number in decimal, with zeros in front up to `width`. -/
def putNumber (into : Buffer) (pos number width : ℕ) : Buffer × ℕ :=
  put into pos (padded number width)

/-- Several texts, one after the other. -/
def putAll (into : Buffer) (pos : ℕ) : List (List UInt8) → Buffer × ℕ
  | [] => (into, pos)
  | text :: rest => putAll (put into pos text).1 (pos + (put into pos text).2) rest

/-- The fields of a line: boot, ticks, what, detail, a second number and a name if there are
any. -/
def fields (boot ticks : ℕ) (what : What) (detail : ℕ) (second : Option ℕ) (name : List UInt8) :
    List (List UInt8) :=
  [padded boot 5, [space], padded ticks 8, [space], what.word, [space], padded detail 0]
    ++ (match second with
      | some second => [[space], padded second 0]
      | none => [])
    ++ (if name.isEmpty then [] else [[space], name])
    ++ [[newline]]

/-- Lays out one line. -/
def formatLine (into : Buffer) (boot ticks : ℕ) (what : What) (detail : ℕ) (second : Option ℕ)
    (name : List UInt8) : Buffer × ℕ :=
  putAll into 0 (fields boot ticks what detail second name)

/-! ### The ring -/

/-- The last lines of the log, and what was counted about them. -/
structure Ring where
  lines : ℕ → Line
  /-- How many have ever been written. -/
  written : ℕ
  boot : ℕ
  /-- How many have been handed over. -/
  flushed : ℕ

/-- A ring before the first line. -/
def Ring.new : Ring := ⟨fun _ => .empty, 0, 0, 0⟩

/-- `record`, `record_two` and `record_with`: a line is written over the oldest. -/
def Ring.writeLine (ring : Ring) (ticks : ℕ) (what : What) (detail : ℕ) (second : Option ℕ)
    (name : List UInt8) : Ring :=
  let slot := ring.written % events
  let line := formatLine (ring.lines slot).bytes ring.boot ticks what detail second name
  { ring with
    lines := Function.update ring.lines slot ⟨line.1, line.2⟩
    written := ring.written + 1 }

/-- `record_with`, with nothing second. -/
def Ring.recordWith (ring : Ring) (ticks : ℕ) (what : What) (detail : ℕ)
    (name : List UInt8) : Ring :=
  ring.writeLine ticks what detail none name

/-- Which lines a flush should take: the oldest not yet written down that is still there, and how
many there are. -/
def unflushed (written flushed capacity : ℕ) : ℕ × ℕ :=
  let oldest := written - capacity
  let first := max flushed oldest
  (first, written - first)

/-- The loop of `copy_into`: `left` lines from `first` on, after `out`, for a buffer of `room`
bytes. -/
def Ring.copyLines (ring : Ring) (room : ℕ) : ℕ → ℕ → List UInt8 → List UInt8 × ℕ
  | 0, first, out => (out, first)
  | left + 1, first, out =>
      let line := ring.lines (first % events)
      if room < out.length + line.len then (out, first)
      else ring.copyLines room left (first + 1) (out ++ line.text)

/-- Copies what the ring holds into a buffer of `room` bytes, oldest first. -/
def Ring.copyInto (ring : Ring) (room : ℕ) : List UInt8 × Ring :=
  let (first, count) := unflushed ring.written ring.flushed events
  let (out, next) := ring.copyLines room count first []
  (out, { ring with flushed := next })

/-! ### Joining logs -/

/-- The newest whole lines of a text that fit in `room`. -/
def newestWholeLines (text : List UInt8) (room : ℕ) : List UInt8 :=
  if text.length ≤ room then text
  else
    let cut := text.length - room
    if cut = 0 ∨ text[cut - 1]? = some newline then text.drop cut
    else
      match (text.drop cut).findIdx? (· == newline) with
      | some pos => text.drop (cut + pos + 1)
      | none => []

/-- The newest whole lines of both logs that fit in `limit` bytes, and in a buffer of `room`. -/
def join (old new : List UInt8) (limit room : ℕ) : List UInt8 :=
  let limit := min limit room
  let newKept := newestWholeLines new limit
  newestWholeLines old (limit - newKept.length) ++ newKept

/-! ### What a line says -/

lemma put_take {into : Buffer} {pos : ℕ} {text : List UInt8} (hpos : pos ≤ lineBytes) :
    (List.ofFn (put into pos text).1).take (pos + (put into pos text).2)
      = (List.ofFn into).take pos ++ text.take (lineBytes - pos) := by
  have hline : lineBytes = 72 := rfl
  have htaking : (put into pos text).2 = min text.length (lineBytes - pos) := rfl
  refine List.ext_getElem ?_ fun i hi hi' => ?_
  · simp only [htaking, List.length_take, List.length_ofFn, List.length_append]
    omega
  · simp only [htaking, List.length_take, List.length_ofFn] at hi
    rw [List.getElem_take, List.getElem_ofFn, List.getElem_append]
    simp only [put, List.length_take, List.length_ofFn, List.getElem_take]
    by_cases hlow : i < pos
    · rw [if_neg (by omega), dif_pos (by omega), List.getElem_ofFn]
    · rw [if_pos (by omega), dif_neg (by omega), List.getD_eq_getElem?_getD,
        List.getElem?_eq_getElem (by omega), Option.getD_some]
      congr 1
      omega

lemma putAll_take {into : Buffer} {pos : ℕ} (texts : List (List UInt8)) (hpos : pos ≤ lineBytes) :
    (putAll into pos texts).2 ≤ lineBytes
      ∧ (List.ofFn (putAll into pos texts).1).take (putAll into pos texts).2
        = (List.ofFn into).take pos ++ texts.flatten.take (lineBytes - pos) := by
  induction texts generalizing into pos with
  | nil => exact ⟨hpos, by simp [putAll]⟩
  | cons text rest ih =>
      have hnext : pos + (put into pos text).2 ≤ lineBytes := by
        simp only [put]
        omega
      obtain ⟨hle, htake⟩ := @ih (put into pos text).1 _ hnext
      refine ⟨hle, ?_⟩
      rw [putAll, htake, put_take hpos, List.flatten_cons, List.append_assoc, List.take_append]
      have hroom : lineBytes - (pos + (put into pos text).2) = lineBytes - pos - text.length := by
        simp only [put]
        omega
      rw [hroom]

/-- **A line is its fields one after the other**, cut where the buffer ends. -/
theorem formatLine_text (into : Buffer) (boot ticks : ℕ) (what : What) (detail : ℕ)
    (second : Option ℕ) (name : List UInt8) :
    (⟨(formatLine into boot ticks what detail second name).1,
        (formatLine into boot ticks what detail second name).2⟩ : Line).text
      = (fields boot ticks what detail second name).flatten.take lineBytes := by
  have hall := (@putAll_take into 0 (fields boot ticks what detail second name)
    (Nat.zero_le lineBytes)).2
  rw [List.take_zero, List.nil_append, Nat.sub_zero] at hall
  exact hall

lemma formatLine_len (into : Buffer) (boot ticks : ℕ) (what : What) (detail : ℕ)
    (second : Option ℕ) (name : List UInt8) :
    (formatLine into boot ticks what detail second name).2 ≤ lineBytes :=
  (putAll_take _ (Nat.zero_le lineBytes)).1

/-! ### What a join keeps -/

/-- A line that begins after a cut, where no line begins, has its newline there. -/
lemma newline_after {text : List UInt8} {cut pos : ℕ}
    (hcut : ¬(cut = 0 ∨ text[cut - 1]? = some newline))
    (hstart : pos = 0 ∨ text[pos - 1]? = some newline) (hle : cut ≤ pos) :
    cut < pos ∧ (text.drop cut)[pos - 1 - cut]? = some newline := by
  rw [not_or] at hcut
  obtain rfl | hnewline := hstart
  · omega
  · obtain rfl | hafter := Nat.eq_or_lt_of_le hle
    · exact absurd hnewline hcut.2
    · refine ⟨hafter, ?_⟩
      rw [List.getElem?_drop, show cut + (pos - 1 - cut) = pos - 1 by omega]
      exact hnewline

/-- **What is kept of a text** is what comes after a cut: all of it when there is room, never more
than there is room for, and everything from a line that would fit with what follows it. -/
theorem newestWholeLines_spec (text : List UInt8) (room : ℕ) :
    ∃ cut, newestWholeLines text room = text.drop cut ∧ cut ≤ text.length
      ∧ (text.length ≤ room → cut = 0) ∧ text.length ≤ cut + room
      ∧ ∀ pos, (pos = 0 ∨ text[pos - 1]? = some newline) → text.length ≤ pos + room →
        cut ≤ pos := by
  rw [newestWholeLines]
  by_cases hfits : text.length ≤ room
  · rw [if_pos hfits]
    exact ⟨0, by simp, Nat.zero_le _, fun _ => rfl, by omega, fun pos _ _ => Nat.zero_le _⟩
  · rw [if_neg hfits]
    dsimp only
    by_cases hline : text.length - room = 0 ∨ text[text.length - room - 1]? = some newline
    · rw [if_pos hline]
      exact ⟨text.length - room, rfl, by omega, by omega, by omega, fun pos _ hpos => by omega⟩
    · rw [if_neg hline]
      rcases hfind : (text.drop (text.length - room)).findIdx? (· == newline) with _ | found
      · refine ⟨text.length, by simp, le_refl _, by omega, by omega, fun pos hstart hpos => ?_⟩
        rw [List.findIdx?_eq_none_iff] at hfind
        obtain ⟨-, hnewline⟩ := newline_after hline hstart (by omega)
        have hother := hfind newline (List.mem_of_getElem? hnewline)
        simp at hother
      · rw [List.findIdx?_eq_some_iff_getElem] at hfind
        obtain ⟨hfound, -, hfirst⟩ := hfind
        rw [List.length_drop] at hfound
        refine ⟨text.length - room + found + 1, rfl, by omega, by omega, by omega,
          fun pos hstart hpos => ?_⟩
        by_contra hlow
        obtain ⟨hafter, hnewline⟩ := newline_after hline hstart (by omega)
        obtain ⟨hlt, hget⟩ := List.getElem?_eq_some_iff.mp hnewline
        exact hfirst (pos - 1 - (text.length - room)) (by omega) (beq_iff_eq.mpr hget)

end Harlan.Events
