import Mathlib.Tactic
import Harlan.EventLog

/-!
Lines of the event log, exactly: what one line is made of, and what two logs joined keep.

* `IsLog`, `LongestTail`: a log of whole lines, and the most of it that fits from a line on.
* `newestWholeLines_longest`: what is kept of one log.
* `newestWholeLines_best`: what is kept of any text.
* `join_longest_iff`: when two logs are joined as one would be cut.
-/

namespace Harlan.Events

/-! ### Whole lines -/

/-- A text of lines that all end. -/
def IsLog (text : List UInt8) : Prop := text = [] ∨ text.getLast? = some newline

/-- The longest part of a text that starts where a line starts, goes on to the end and is at most
`room` bytes long. -/
def LongestTail (text : List UInt8) (room : ℕ) (tail : List UInt8) : Prop :=
  ∃ cut ≤ text.length, LineStart text cut ∧ tail = text.drop cut ∧ tail.length ≤ room
    ∧ ∀ pos ≤ text.length, LineStart text pos → (text.drop pos).length ≤ room → cut ≤ pos

variable {text old new tail : List UInt8} {room limit pos : ℕ}

/-- Past the last line another could start. -/
lemma IsLog.lineStart_length (h : IsLog text) : LineStart text text.length := by
  rcases h with rfl | hlast
  · exact .inl rfl
  · rw [List.getLast?_eq_getElem?] at hlast
    exact .inr hlast

/-- What is kept of a text starts where a line starts, unless it is nothing. -/
lemma newestWholeLines_cut (text : List UInt8) (room : ℕ) :
    ∃ cut ≤ text.length, newestWholeLines text room = text.drop cut
      ∧ (cut = text.length ∨ LineStart text cut) := by
  rw [newestWholeLines]
  by_cases hfits : text.length ≤ room
  · rw [if_pos hfits]
    exact ⟨0, Nat.zero_le _, rfl, .inr (.inl rfl)⟩
  · rw [if_neg hfits]
    dsimp only
    by_cases hline : text.length - room = 0 ∨ text[text.length - room - 1]? = some newline
    · rw [if_pos hline]
      exact ⟨_, Nat.sub_le _ _, rfl, .inr hline⟩
    · rw [if_neg hline]
      rcases hfind : (text.drop (text.length - room)).findIdx? (· == newline) with _ | found
      · exact ⟨text.length, le_refl _, (List.drop_length).symm, .inl rfl⟩
      · rw [List.findIdx?_eq_some_iff_getElem] at hfind
        obtain ⟨hfound, hnewline, -⟩ := hfind
        rw [List.getElem_drop, beq_iff_eq] at hnewline
        rw [List.length_drop] at hfound
        refine ⟨text.length - room + found + 1, by omega, rfl, .inr (.inr ?_)⟩
        rw [Nat.add_sub_cancel, List.getElem?_eq_getElem (by omega), hnewline]

/-- What is kept of a log starts where a line starts. -/
lemma newestWholeLines_lineStart (h : IsLog text) (room : ℕ) :
    ∃ cut ≤ text.length, newestWholeLines text room = text.drop cut ∧ LineStart text cut := by
  obtain ⟨cut, hcut, hkept, rfl | hstart⟩ := newestWholeLines_cut text room
  · exact ⟨_, hcut, hkept, h.lineStart_length⟩
  · exact ⟨cut, hcut, hkept, hstart⟩

/-- **What is kept of one log is as much of it as fits**, from a line on. -/
lemma newestWholeLines_longest (h : IsLog text) (room : ℕ) :
    LongestTail text room (newestWholeLines text room) := by
  obtain ⟨cut, hcut, hkept, hstart⟩ := newestWholeLines_lineStart h room
  obtain ⟨cut', hkept', hcut', -, hroom, hleast⟩ := newestWholeLines_spec text room
  have hsame : cut = cut' := by
    have hlength := congrArg List.length (hkept.symm.trans hkept')
    rw [List.length_drop, List.length_drop] at hlength
    omega
  subst hsame
  refine ⟨cut, hcut, hstart, hkept, ?_, fun pos hpos hline hfits => hleast pos hline ?_⟩
  · rw [hkept, List.length_drop]
    omega
  · rw [List.length_drop] at hfits
    omega

/-- A part at the end of any text that begins with it, right after a newline, or past all of
it. -/
def WholeSuffix (text suffix : List UInt8) : Prop :=
  suffix = [] ∨ suffix = text ∨ ∃ before, text = before ++ newline :: suffix

/-- Where a suffix of whole lines begins. -/
lemma WholeSuffix.exists_cut {suffix : List UInt8} (h : WholeSuffix text suffix) :
    suffix = [] ∨ ∃ cut, suffix.length + cut = text.length ∧ LineStart text cut := by
  obtain rfl | rfl | ⟨before, rfl⟩ := h
  · exact .inl rfl
  · exact .inr ⟨0, rfl, .inl rfl⟩
  · refine .inr ⟨before.length + 1, ?_, .inr ?_⟩
    · rw [List.length_append, List.length_cons]
      omega
    · rw [Nat.add_sub_cancel, List.getElem?_append_right (le_refl _), Nat.sub_self]
      rfl

lemma wholeSuffix_drop {cut : ℕ} (h : cut = text.length ∨ LineStart text cut) :
    WholeSuffix text (text.drop cut) := by
  obtain rfl | rfl | hnewline := h
  · exact .inl List.drop_length
  · exact .inr (.inl rfl)
  · cases cut with
    | zero => exact .inr (.inl rfl)
    | succ cut =>
        rw [Nat.add_sub_cancel] at hnewline
        obtain ⟨hlt, hget⟩ := List.getElem?_eq_some_iff.mp hnewline
        refine .inr (.inr ⟨text.take cut, ?_⟩)
        rw [← hget, ← List.drop_eq_getElem_cons hlt, List.take_append_drop]

/-- **The cut is the best one**: of any text, what is kept is a suffix that begins where a line
does, or nothing, it fits, and no such suffix that fits is longer. -/
theorem newestWholeLines_best (text : List UInt8) (room : ℕ) :
    WholeSuffix text (newestWholeLines text room) ∧ (newestWholeLines text room).length ≤ room
      ∧ ∀ suffix, WholeSuffix text suffix → suffix.length ≤ room →
          suffix.length ≤ (newestWholeLines text room).length := by
  obtain ⟨cut, hcut, hkept, hstart⟩ := newestWholeLines_cut text room
  obtain ⟨cut', hkept', hcut', -, hroom, hleast⟩ := newestWholeLines_spec text room
  refine ⟨?_, ?_, fun suffix hsuffix hfits => ?_⟩
  · rw [hkept]
    exact wholeSuffix_drop hstart
  · rw [hkept', List.length_drop]
    omega
  · rw [hkept', List.length_drop]
    obtain rfl | ⟨pos, hpos, hline⟩ := hsuffix.exists_cut
    · exact Nat.zero_le _
    · have hle := hleast pos hline (by omega)
      omega

/-- There is one longest tail. -/
lemma LongestTail.unique {tail' : List UInt8} (h : LongestTail text room tail)
    (h' : LongestTail text room tail') : tail = tail' := by
  obtain ⟨cut, hcut, hstart, rfl, hroom, hleast⟩ := h
  obtain ⟨cut', hcut', hstart', rfl, hroom', hleast'⟩ := h'
  rw [Nat.le_antisymm (hleast cut' hcut' hstart' hroom') (hleast' cut hcut hstart hroom)]

/-! ### Two logs -/

lemma lineStart_append_left (h : LineStart old pos) (hpos : pos ≤ old.length) :
    LineStart (old ++ new) pos := by
  rcases Nat.eq_zero_or_pos pos with rfl | hpositive
  · exact .inl rfl
  · refine .inr ?_
    rw [List.getElem?_append_left (by omega)]
    exact h.resolve_left (by omega)

lemma lineStart_append_right (h : pos ≠ 0) : LineStart (old ++ new) (old.length + pos)
      ↔ LineStart new pos := by
  have hindex : old.length + pos - 1 = old.length + (pos - 1) := by omega
  rw [LineStart, LineStart, hindex, List.getElem?_append_right (by omega),
    Nat.add_sub_cancel_left]
  simp [h]

/-- Beside the longest tail of the new log that fits there is no room for a line of the old
one. -/
def NoRoomFor (old new : List UInt8) (limit : ℕ) : Prop :=
  ∀ tail, LongestTail new limit tail → ∀ pos < old.length, LineStart old pos →
    limit < (old.drop pos).length + tail.length

/-- All of the new log fits: the cut is one of the old log. -/
lemma join_of_fits (hold : IsLog old) (hnew : new.length ≤ limit) :
    LongestTail (old ++ new) limit (newestWholeLines old (limit - new.length) ++ new) := by
  obtain ⟨cut, hcut, hstart, hkept, hroom, hleast⟩ :=
    newestWholeLines_longest hold (limit - new.length)
  refine ⟨cut, ?_, lineStart_append_left hstart hcut, ?_, ?_, fun pos hpos hline hfits => ?_⟩
  · rw [List.length_append]
    omega
  · rw [hkept, List.drop_append_of_le_length hcut]
  · rw [List.length_append]
    omega
  · rcases Nat.le_total pos old.length with hle | hge
    · refine hleast pos hle ?_ ?_
      · exact lineStart_append hline hle
      · rw [List.length_drop, List.length_append] at hfits
        rw [List.length_drop]
        omega
    · exact hcut.trans hge

/-- Not all of the new log fits: the cut is one of the new log. -/
lemma longestTail_of_new (hnew : limit < new.length) (h : LongestTail new limit tail) :
    LongestTail (old ++ new) limit tail := by
  obtain ⟨cut, hcut, hstart, rfl, hroom, hleast⟩ := h
  have hcuts : cut ≠ 0 := by
    rintro rfl
    rw [List.drop_zero] at hroom
    omega
  refine ⟨old.length + cut, ?_, (lineStart_append_right hcuts).mpr hstart, ?_, hroom,
    fun pos hpos hline hfits => ?_⟩
  · rw [List.length_append]
    omega
  · rw [List.drop_length_add_append]
  · rw [List.length_drop, List.length_append] at hfits
    rw [List.length_append] at hpos
    obtain ⟨after, rfl⟩ : ∃ after, pos = old.length + after := ⟨pos - old.length, by omega⟩
    have hafter := hleast after (by omega) ((lineStart_append_right (by omega)).mp hline)
      (by rw [List.length_drop]; omega)
    omega

/-- **What two logs joined keep.** For logs of whole lines, the join is the longest tail of the
old log and then the new one that fits in the limit and in the buffer exactly if all of the new
log fits, or no line of the old one would fit beside what is kept of the new one: otherwise lines
of the old log are kept and lines after them are not. -/
theorem join_longest_iff (old new : List UInt8) (limit room : ℕ) (hold : IsLog old)
    (hnew : IsLog new) :
    LongestTail (old ++ new) (min limit room) (join old new limit room)
      ↔ new.length ≤ min limit room ∨ NoRoomFor old new (min limit room) := by
  rw [join]
  have hkept := newestWholeLines_longest hnew (min limit room)
  generalize newestWholeLines new (min limit room) = kept at hkept
  generalize min limit room = limit at hkept
  by_cases hfits : new.length ≤ limit
  · have hall : kept = new := by
      refine hkept.unique ⟨0, Nat.zero_le _, .inl rfl, rfl, hfits, fun _ _ _ _ => Nat.zero_le _⟩
    rw [hall]
    exact iff_of_true (join_of_fits hold hfits) (.inl hfits)
  · rw [Nat.not_le] at hfits
    have htail := @longestTail_of_new old new kept limit hfits hkept
    obtain ⟨cut, hcut, hstart, hrest, hroom, hleast⟩ :=
      newestWholeLines_longest hold (limit - kept.length)
    have hkeptLe : kept.length ≤ limit := by
      obtain ⟨-, -, -, -, hroom, -⟩ := hkept
      exact hroom
    -- the join is the longest tail exactly if nothing of the old log is kept
    have hnothing : LongestTail (old ++ new) limit
        (newestWholeLines old (limit - kept.length) ++ kept)
        ↔ cut = old.length := by
      refine ⟨fun hjoin => ?_, fun hend => ?_⟩
      · have hlength := congrArg List.length (hjoin.unique htail)
        rw [hrest, List.length_append, List.length_drop] at hlength
        omega
      · rwa [hrest, hend, List.drop_length, List.nil_append]
    rw [hnothing]
    refine ⟨fun hend => .inr fun other hother pos hpos hline => ?_, fun hroomless => ?_⟩
    · rw [hother.unique hkept]
      by_contra hsmall
      have hle := hleast pos hpos.le hline (by omega)
      omega
    · by_contra hshort
      have hlimit := hroomless.resolve_left (by omega) kept hkept cut (by omega) hstart
      rw [hrest] at hroom
      omega

/-- Both logs fit. -/
theorem join_longest_iff_fits :
    LongestTail [0x61, 0x0A, 0x62, 0x0A] 4 (join [0x61, 0x0A] [0x62, 0x0A] 4 4) :=
  (join_longest_iff [0x61, 0x0A] [0x62, 0x0A] 4 4 (.inr rfl) (.inr rfl)).mpr (.inl (by decide))

/-- **A line goes missing from the middle.** There is no room for all of `bbbb` and `cc`, and
beside `cc` there is room for `a`: what is kept is `a` and `cc`. -/
theorem join_drops_middle :
    IsLog [0x61, 0x0A] ∧ IsLog [0x62, 0x62, 0x62, 0x62, 0x0A, 0x63, 0x63, 0x0A]
      ∧ join [0x61, 0x0A] [0x62, 0x62, 0x62, 0x62, 0x0A, 0x63, 0x63, 0x0A] 6 64
        = [0x61, 0x0A, 0x63, 0x63, 0x0A]
      ∧ ¬LongestTail ([0x61, 0x0A] ++ [0x62, 0x62, 0x62, 0x62, 0x0A, 0x63, 0x63, 0x0A]) (min 6 64)
        (join [0x61, 0x0A] [0x62, 0x62, 0x62, 0x62, 0x0A, 0x63, 0x63, 0x0A] 6 64) := by
  refine ⟨.inr rfl, .inr rfl, by decide, ?_⟩
  rintro ⟨cut, hcut, -, htail, -, -⟩
  have hjoined : join [0x61, 0x0A] [0x62, 0x62, 0x62, 0x62, 0x0A, 0x63, 0x63, 0x0A] 6 64
      = [0x61, 0x0A, 0x63, 0x63, 0x0A] := by decide
  rw [hjoined] at htail
  have hlength := congrArg List.length htail
  rw [List.length_drop] at hlength
  obtain rfl : cut = 5 := by
    simp only [List.length_append, List.length_cons, List.length_nil] at hlength hcut
    omega
  exact absurd htail (by decide)

/-! ### A line, with every index checked -/

/-- Copies what fits of `text`; nothing where the source would index past the end. -/
def putChecked (into : Buffer) (pos : ℕ) (text : List UInt8) : Option (Buffer × ℕ) :=
  let taking := min text.length (lineBytes - pos)
  if lineBytes < pos + taking then none else some (put into pos text)

/-- The loop that takes a number apart, the last digit first, with `room` places left for
digits. -/
def digitsInto : ℕ → ℕ → List UInt8 → Option (List UInt8)
  | 0, _, _ => none
  | room + 1, left, digits =>
      let digits := digits ++ [UInt8.ofNat (0x30 + left % 10)]
      if left / 10 = 0 then some digits else digitsInto room (left / 10) digits

/-- The padding of a number. -/
def putSpaces : ℕ → Buffer → ℕ → Option (Buffer × ℕ)
  | 0, into, here => some (into, here)
  | count + 1, into, here => do
      let (into, taken) ← putChecked into here [space]
      putSpaces count into (here + taken)

/-- Its digits, until the buffer is full. -/
def putDigits : List UInt8 → Buffer → ℕ → Buffer × ℕ
  | [], into, here => (into, here)
  | digit :: rest, into, here =>
      if h : here < lineBytes then
        putDigits rest (Function.update into ⟨here, h⟩ digit) (here + 1)
      else (into, here)

/-- Writes a number as decimal, with the twenty places the source has for its digits. -/
def putNumberChecked (into : Buffer) (pos number width : ℕ) : Option (Buffer × ℕ) := do
  let digits ← digitsInto 20 number []
  let (into, here) ← putSpaces (width - digits.length) into pos
  let (into, here) := putDigits digits.reverse into here
  some (into, here - pos)

/-- `at += put(into, at, text)`: the buffer, and where the next field goes. -/
def putText (text : List UInt8) (state : Buffer × ℕ) : Option (Buffer × ℕ) :=
  (putChecked state.1 state.2 text).map fun (into, taken) => (into, state.2 + taken)

/-- `at += put_number(into, at, number, width)`. -/
def putDecimal (number width : ℕ) (state : Buffer × ℕ) : Option (Buffer × ℕ) :=
  (putNumberChecked state.1 state.2 number width).map fun (into, taken) => (into, state.2 + taken)

/-- The second number, if there is one. -/
def putSecond (second : Option UInt64) (state : Buffer × ℕ) : Option (Buffer × ℕ) :=
  match second with
  | none => some state
  | some second => putText [space] state >>= putDecimal second.toNat 0

/-- The name, if there is one. -/
def putName (name : List UInt8) (state : Buffer × ℕ) : Option (Buffer × ℕ) :=
  if name.isEmpty then some state else putText [space] state >>= putText name

/-- Lays out one line, as the source does. -/
def formatLineChecked (into : Buffer) (boot : UInt32) (ticks : UInt64) (what : What)
    (detail : UInt64) (second : Option UInt64) (name : List UInt8) : Option (Buffer × ℕ) := do
  let state ← putDecimal boot.toNat 5 (into, 0)
  let state ← putText [space] state
  let state ← putDecimal ticks.toNat 8 state
  let state ← putText [space] state
  let state ← putText what.word state
  let state ← putText [space] state
  let state ← putDecimal detail.toNat 0 state
  let state ← putSecond second state
  let state ← putName name state
  putText [newline] state

section Checked

variable {into : Buffer} {here number width : ℕ}

lemma put_le (hpos : pos ≤ lineBytes) : pos + (put into pos text).2 ≤ lineBytes := by
  simp only [put]
  omega

lemma putChecked_eq (hpos : pos ≤ lineBytes) :
    putChecked into pos text = some (put into pos text) := by
  have hle := @put_le text pos into hpos
  exact if_neg (Nat.not_lt.mpr hle)

lemma put_nil (into : Buffer) (pos : ℕ) : put into pos [] = (into, 0) := by
  refine Prod.ext (funext fun i => ?_) (Nat.zero_min _)
  simp only [put, List.length_nil, Nat.zero_min]
  rw [if_neg (by omega)]

/-- Two texts are put one after the other. -/
lemma put_append (hpos : pos ≤ lineBytes) (text more : List UInt8) :
    put into pos (text ++ more)
      = ((put (put into pos text).1 (pos + (put into pos text).2) more).1,
        (put into pos text).2
          + (put (put into pos text).1 (pos + (put into pos text).2) more).2) := by
  have hline : lineBytes = 72 := rfl
  have htaken : (put into pos text).2 = min text.length (lineBytes - pos) := rfl
  have hfirst : ∀ i : Fin 72, (put into pos text).1 i
      = if pos ≤ i.val ∧ i.val < pos + (put into pos text).2 then text.getD (i - pos) 0
        else into i :=
    fun _ => rfl
  generalize put into pos text = first at htaken hfirst
  refine Prod.ext (funext fun i => ?_) ?_
  · simp only [put, List.length_append, hfirst, List.getD_eq_getElem?_getD]
    split_ifs with hall hmore htext htext
    · rw [List.getElem?_append_right (by omega)]
      congr 2
      omega
    · rw [List.getElem?_append_left (by omega)]
    · omega
    · omega
    · omega
    · rfl
  · simp only [put, List.length_append]
    omega

/-- The digits of a number, the last one first. -/
lemma digitsInto_eq {room left : ℕ} (digits : List UInt8) (h : left < 10 ^ (room + 1)) :
    digitsInto (room + 1) left digits = some (digits ++ (decimal left).reverse) := by
  have hlast : ∀ left, 0 < left → (decimal left).reverse
      = UInt8.ofNat (0x30 + left % 10) :: (Nat.digits 10 (left / 10)).map fun d =>
        UInt8.ofNat (0x30 + d) := by
    intro left hpos
    rw [decimal, if_neg (by omega), List.map_reverse, List.reverse_reverse,
      Nat.digits_def' (by omega) hpos, List.map_cons]
  induction room generalizing left digits with
  | zero =>
      rw [digitsInto]
      rw [if_pos (by omega)]
      rcases Nat.eq_zero_or_pos left with rfl | hpos
      · rfl
      · rw [hlast left hpos, show left / 10 = 0 by omega]
        rfl
  | succ room ih =>
      rw [digitsInto]
      split_ifs with hone
      · rcases Nat.eq_zero_or_pos left with rfl | hpos
        · rfl
        · rw [hlast left hpos, hone]
          rfl
      · rw [ih _ (by rw [Nat.pow_succ] at h; omega), hlast left (by omega), decimal, if_neg hone,
          List.map_reverse, List.reverse_reverse, List.append_assoc, List.singleton_append]

lemma putSpaces_eq (count : ℕ) (hpos : pos ≤ lineBytes) :
    putSpaces count into pos
      = some ((put into pos (List.replicate count space)).1,
        pos + (put into pos (List.replicate count space)).2) := by
  induction count generalizing into pos with
  | zero => rw [putSpaces, List.replicate_zero, put_nil, Nat.add_zero]
  | succ count ih =>
      have hrest := @ih (pos + (put into pos [space]).2) (put into pos [space]).1 (put_le hpos)
      have happend := @put_append pos into hpos [space] (List.replicate count space)
      rw [List.singleton_append] at happend
      rw [putSpaces, putChecked_eq hpos]
      refine hrest.trans ?_
      rw [List.replicate_succ, happend, Nat.add_assoc]

lemma putDigits_eq (digits : List UInt8) (hpos : pos ≤ lineBytes) :
    putDigits digits into pos = ((put into pos digits).1, pos + (put into pos digits).2) := by
  induction digits generalizing into pos with
  | nil => rw [putDigits, put_nil, Nat.add_zero]
  | cons digit rest ih =>
      rw [putDigits]
      split_ifs with hroom
      · have hone : put into pos [digit] = (Function.update into ⟨pos, hroom⟩ digit, 1) := by
          refine Prod.ext (funext fun i => ?_) ?_
          · simp only [put, Function.update_apply, Fin.ext_iff, List.length_singleton]
            split_ifs with hin hat
            · simp [hat]
            · omega
            · omega
            · rfl
          · simp only [put, List.length_singleton]
            omega
        rw [ih (by omega), ← List.singleton_append, put_append hpos, hone, Nat.add_assoc]
      · have hfull : lineBytes - pos = 0 := by omega
        refine Prod.ext (funext fun i => ?_) ?_
        · simp only [put, hfull, Nat.min_zero]
          rw [if_neg (by omega)]
        · simp [put, hfull]

/-- A number goes in as its digits, padded. -/
lemma putNumberChecked_eq (hnumber : number < 10 ^ 20) (hpos : pos ≤ lineBytes) (width : ℕ) :
    putNumberChecked into pos number width = some (putNumber into pos number width) := by
  have hspaces := @putSpaces_eq pos into (width - (decimal number).length) hpos
  have hdigits := @putDigits_eq _
    (put into pos (List.replicate (width - (decimal number).length) space)).1
    (decimal number) (@put_le (List.replicate (width - (decimal number).length) space)
      pos into hpos)
  rw [putNumberChecked, digitsInto_eq [] hnumber, List.nil_append, Option.bind_eq_bind,
    Option.bind_some, List.length_reverse, hspaces, Option.bind_eq_bind, Option.bind_some,
    List.reverse_reverse]
  dsimp only
  rw [hdigits, putNumber, padded, put_append hpos]
  dsimp only
  rw [Nat.add_assoc, Nat.add_sub_cancel_left]

/-- What a field leaves. -/
def putField (state : Buffer × ℕ) (text : List UInt8) : Buffer × ℕ :=
  ((put state.1 state.2 text).1, state.2 + (put state.1 state.2 text).2)

variable {state : Buffer × ℕ}

lemma putField_le (h : state.2 ≤ lineBytes) : (putField state text).2 ≤ lineBytes := put_le h

lemma putText_eq (h : state.2 ≤ lineBytes) : putText text state = some (putField state text) := by
  rw [putText, putChecked_eq h]
  rfl

lemma putDecimal_eq (h : state.2 ≤ lineBytes) (hnumber : number < 10 ^ 20) (width : ℕ) :
    putDecimal number width state = some (putField state (padded number width)) := by
  rw [putDecimal, putNumberChecked_eq hnumber h]
  rfl

lemma putAll_eq (texts : List (List UInt8)) :
    putAll state.1 state.2 texts = texts.foldl putField state := by
  induction texts generalizing state with
  | nil => rfl
  | cons text rest ih => exact @ih (putField state text)

lemma foldl_putField_le (texts : List (List UInt8)) (h : state.2 ≤ lineBytes) :
    (texts.foldl putField state).2 ≤ lineBytes := by
  induction texts generalizing state with
  | nil => exact h
  | cons text rest ih => exact ih (putField_le h)

lemma putSecond_eq (h : state.2 ≤ lineBytes) (second : Option UInt64) :
    putSecond second state
      = some ((match second.map UInt64.toNat with
        | some second => [[space], padded second 0]
        | none => []).foldl putField state) := by
  cases second with
  | none => rfl
  | some second =>
      have hlong : second.toNat < 10 ^ 20 := second.toNat_lt.trans (by norm_num)
      rw [putSecond, putText_eq h, Option.bind_eq_bind, Option.bind_some,
        putDecimal_eq (putField_le h) hlong]
      rfl

lemma putName_eq (h : state.2 ≤ lineBytes) (name : List UInt8) :
    putName name state
      = some ((if name.isEmpty then [] else [[space], name]).foldl putField state) := by
  rw [putName]
  split_ifs
  · rfl
  · rw [putText_eq h, Option.bind_eq_bind, Option.bind_some, putText_eq (putField_le h)]
    rfl

/-- No index is out of bounds, and the line is made of its fields. -/
lemma formatLineChecked_eq (boot : UInt32) (ticks : UInt64) (what : What) (detail : UInt64)
    (second : Option UInt64) (name : List UInt8) :
    formatLineChecked into boot ticks what detail second name
      = some (formatLine into boot.toNat ticks.toNat what detail.toNat
        (second.map UInt64.toNat) name) := by
  have hlong : ∀ number : UInt64, number.toNat < 10 ^ 20 := fun number =>
    number.toNat_lt.trans (by norm_num)
  have h0 : ((into, 0) : Buffer × ℕ).2 ≤ lineBytes := Nat.zero_le _
  have h1 := @putField_le (padded boot.toNat 5) _ h0
  have h2 := @putField_le [space] _ h1
  have h3 := @putField_le (padded ticks.toNat 8) _ h2
  have h4 := @putField_le [space] _ h3
  have h5 := @putField_le what.word _ h4
  have h6 := @putField_le [space] _ h5
  have h7 := @putField_le (padded detail.toNat 0) _ h6
  rw [formatLineChecked, putDecimal_eq h0 (boot.toNat_lt.trans (by norm_num))]
  simp only [Option.bind_eq_bind, Option.bind_some, putText_eq h1, putDecimal_eq h2 (hlong ticks),
    putText_eq h3, putText_eq h4, putText_eq h5, putDecimal_eq h6 (hlong detail)]
  have h8 := foldl_putField_le (match second.map UInt64.toNat with
    | some second => [[space], padded second 0]
    | none => []) h7
  rw [putSecond_eq h7, Option.bind_some, putName_eq h8, Option.bind_some,
    putText_eq (foldl_putField_le _ h8), formatLine]
  have hall := @putAll_eq (into, 0)
    (fields boot.toNat ticks.toNat what detail.toNat (second.map UInt64.toNat) name)
  rw [hall]
  simp only [fields, List.foldl_append]
  rfl

end Checked

/-! ### What ends a line -/

/-- One line: it ends in a newline, and has no other. -/
def IsLine (text : List UInt8) : Prop := ∃ body, newline ∉ body ∧ text = body ++ [newline]

/-- How many bytes a line takes before its newline, if nothing is cut. -/
def lineWidth (boot ticks detail : ℕ) (second : Option ℕ) (name : List UInt8) : ℕ :=
  max 5 (decimal boot).length + 1 + max 8
    (decimal ticks).length + 1 + 10 + 1 + (decimal detail).length
    + (match second with
      | some second => 1 + (decimal second).length
      | none => 0)
    + (if name.isEmpty then 0 else 1 + name.length)

lemma length_padded (number width : ℕ) :
    (padded number width).length = max width (decimal number).length := by
  rw [padded, List.length_append, List.length_replicate]
  omega

lemma length_word (what : What) : what.word.length = 10 := by
  cases what <;> rfl

lemma newline_not_mem_word (what : What) : newline ∉ what.word := by
  cases what <;> decide

lemma newline_not_mem_padded (number width : ℕ) : newline ∉ padded number width := by
  rw [padded, List.mem_append, not_or]
  refine ⟨fun hmem => ?_, fun hmem => ?_⟩
  · exact absurd (List.eq_of_mem_replicate hmem) (by decide)
  · rw [decimal] at hmem
    split_ifs at hmem
    · exact absurd hmem (by decide)
    · obtain ⟨digit, hdigit, heq⟩ := List.mem_map.mp hmem
      have hlt := Nat.digits_lt_base (by omega) (List.mem_reverse.mp hdigit)
      have hnat := congrArg UInt8.toNat heq
      rw [UInt8.toNat_ofNat_of_lt' (by simp only [UInt8.size]; omega)] at hnat
      simp only [newline, UInt8.reduceToNat] at hnat
      omega

/-- A line is its content and a newline. -/
lemma fields_flatten (boot ticks : ℕ) (what : What) (detail : ℕ) (second : Option ℕ)
    {name : List UInt8} (hname : newline ∉ name) :
    ∃ body, (fields boot ticks what detail second name).flatten = body ++ [newline]
      ∧ body.length = lineWidth boot ticks detail second name ∧ newline ∉ body := by
  refine ⟨_, List.flatten_append, ?_, ?_⟩
  · cases second <;> cases name <;>
      simp [lineWidth, length_padded, length_word] <;> omega
  · have hspace : newline ≠ space := by decide
    cases second <;> cases name <;>
      simp_all [newline_not_mem_padded, newline_not_mem_word]

/-- **When a line is a line.** Whatever it is to say, the layout of a line indexes nothing out of
bounds and counts at most `lineBytes` bytes; and for a name without newlines they are one line,
with one newline that is the last of them, exactly if what comes before it takes fewer. -/
theorem formatLine_isLine_iff (into : Buffer) (boot : UInt32) (ticks : UInt64) (what : What)
    (detail : UInt64) (second : Option UInt64) (name : List UInt8) (hname : newline ∉ name) :
    ∃ line : Line, formatLineChecked into boot ticks what detail second name
      = some (line.bytes, line.len)
      ∧ line.len ≤ lineBytes
      ∧ (IsLine line.text
        ↔ lineWidth boot.toNat ticks.toNat detail.toNat (second.map UInt64.toNat) name
          < lineBytes) := by
  have hlen := formatLine_len into boot.toNat ticks.toNat what detail.toNat
    (second.map UInt64.toNat) name
  have htext := formatLine_text into boot.toNat ticks.toNat what detail.toNat
    (second.map UInt64.toNat) name
  have hchecked := @formatLineChecked_eq into boot ticks what detail second name
  generalize formatLine into boot.toNat ticks.toNat what detail.toNat
    (second.map UInt64.toNat) name = written
    at hlen htext hchecked
  refine ⟨⟨written.1, written.2⟩, hchecked, hlen, ?_⟩
  obtain ⟨body, hbody, hlength, hnone⟩ := fields_flatten boot.toNat ticks.toNat what detail.toNat
    (second.map UInt64.toNat) hname
  rw [htext, hbody, ← hlength]
  refine ⟨fun ⟨other, _, hother⟩ => ?_, fun hlt => ⟨body, hnone, ?_⟩⟩
  · -- a body that fills the buffer leaves no room for a newline
    by_contra hfull
    rw [List.take_append_of_le_length (by omega)] at hother
    refine hnone (List.mem_of_mem_take (i := lineBytes) ?_)
    rw [hother]
    exact List.mem_append_right _ (List.mem_singleton_self _)
  · exact List.take_of_length_le (by rw [List.length_append, List.length_singleton]; omega)

theorem formatLine_isLine_iff_short :
    ∃ line : Line, formatLineChecked (fun _ => 0) 7 1234 .exited 0 none []
      = some (line.bytes, line.len)
      ∧ IsLine line.text := by
  obtain ⟨line, hline, -, hiff⟩ :=
    formatLine_isLine_iff (fun _ => 0) 7 1234 .exited 0 none [] nofun
  exact ⟨line, hline, hiff.mpr (by decide +kernel)⟩

/-- **A name of 44 bytes leaves no room for the newline.** -/
theorem formatLine_not_isLine : newline ∉ List.replicate 44 (0x41 : UInt8)
    ∧ ∃ line : Line, formatLineChecked (fun _ => 0) 1 1 .started 0 none (List.replicate 44 0x41)
        = some (line.bytes, line.len) ∧ ¬IsLine line.text := by
  refine ⟨by decide, ?_⟩
  have hnone : newline
      ∉ ((formatLineChecked (fun _ => 0) 1 1 .started 0 none (List.replicate 44 0x41)).map
      fun written => (⟨written.1, written.2⟩ : Line).text).getD [] := by decide +kernel
  have hsome : (formatLineChecked (fun _ => 0) 1 1 .started 0 none
      (List.replicate 44 0x41)).isSome = true := by
    decide +kernel
  obtain ⟨written, hwritten⟩ := Option.isSome_iff_exists.mp hsome
  rw [hwritten] at hnone
  refine ⟨⟨written.1, written.2⟩, hwritten, fun ⟨body, _, hbody⟩ => hnone ?_⟩
  rw [Option.map_some, Option.getD_some, hbody]
  exact List.mem_append_right _ (List.mem_singleton_self _)

end Harlan.Events
