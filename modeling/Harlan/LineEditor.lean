import Harlan.Decoder
import Harlan.Fbcon
import Harlan.Fat.Names
import Harlan.Syscall

/-!
A line that is typed: the loops of the two shells that read one (`kernel/src/shell.rs`,
`user/shell/src/main.rs`), and the screen they echo it on.

* `readLineKernel`, `readLineUser`: the loops, over what the console answers.
* `edited`: the line that some keys make; `readLineKernel_iff`: what the loop comes to.
* `shells_agree`: both shells read the same line and echo the same.
* `Displays`, `screen_shows_line`: what is on the screen is what is run.
* `strokes`, `typed_line_is_run`: what a person types is, by way of the keyboard's interrupt.
-/

namespace Harlan.LineEditor

open Turns (ConsoleKey encodeKey)

/-! ### The loops -/

/-- The longest line either of them takes. -/
def lineMax : ℕ := 128

/-- `is_ascii_graphic` -/
def isAsciiGraphic (c : Char) : Bool := 0x21 ≤ c.toNat ∧ c.toNat ≤ 0x7E

/-- The text of some bytes, or none of it. -/
def orEmpty (bytes : List UInt8) : List UInt8 := if Fat.validUtf8 bytes then bytes else []

/-- How a character is unwritten on a console that only moves forward. -/
def unwritten : List UInt8 := [0x08, 0x20, 0x08]

/-- The line so far, and what was echoed of it. -/
structure Editing where
  line : List UInt8
  echo : List UInt8
deriving DecidableEq

/-- A turn of either loop that takes a character. -/
def Editing.take (e : Editing) (byte : UInt8) : Editing :=
  ⟨e.line ++ [byte], e.echo ++ orEmpty [byte]⟩

/-- And one that takes a Backspace. -/
def Editing.back (e : Editing) : Editing :=
  if 0 < e.line.length then ⟨e.line.dropLast, e.echo ++ unwritten⟩ else e

/-- `read_line` of the kernel's shell, over what `read_key` answers: nothing as long as there is
no Enter. -/
def readLineKernel : List (Option ConsoleKey) → Editing →
      Option (Editing × List (Option ConsoleKey))
  | [], _ => none
  | key :: rest, e =>
      match key with
      | some .enter => some (⟨orEmpty e.line, e.echo ++ [0x0A]⟩, rest)
      | some .backspace => readLineKernel rest e.back
      | some (.char c) =>
          readLineKernel rest
            (if (isAsciiGraphic c ∨ c = ' ')
              ∧ e.line.length < lineMax then e.take (UInt8.ofNat c.toNat) else e)
      | some .unknown => readLineKernel rest e
      | none => readLineKernel rest e

/-- No key is waiting. -/
def keyNone : UInt64 := 0

/-- Enter was pressed. -/
def keyEnter : UInt64 := 1

/-- Backspace was pressed. -/
def keyBackspace : UInt64 := 2

/-- A key the shell has no use for. -/
def keyUnknown : UInt64 := 3

/-- `read_line` of the shell in ring 3, over what `console_read` answers. -/
def readLineUser : List UInt64 → Editing → Option (Editing × List UInt64)
  | [], _ => none
  | key :: rest, e =>
      if key = keyNone then readLineUser rest e
      else if key = keyEnter then some (⟨e.line, e.echo ++ orEmpty [0x0A]⟩, rest)
      else if key = keyBackspace then readLineUser rest e.back
      else if key = keyUnknown then readLineUser rest e
      else
        readLineUser rest
          (if (0x20 ≤ key ∧ key ≤ 0x7E) ∧ e.line.length < lineMax then e.take key.toUInt8 else e)

/-! ### The line -/

/-- A character that the console can draw. -/
def Drawable (c : Char) : Prop := 0x20 ≤ c.toNat ∧ c.toNat ≤ 0x7E

instance : DecidablePred Drawable := fun _ => inferInstanceAs (Decidable (_ ∧ _))

/-- A line with one more key. -/
def edit (line : List UInt8) : ConsoleKey → List UInt8
  | .char c => if Drawable c ∧ line.length < lineMax then line ++ [UInt8.ofNat c.toNat] else line
  | .backspace => line.dropLast
  | .enter => line
  | .unknown => line

/-- The line that some keys make. -/
def edited (keys : List ConsoleKey) : List UInt8 := keys.foldl edit []

lemma graphic_or_space (c : Char) : (isAsciiGraphic c ∨ c = ' ') ↔ Drawable c := by
  have hspace : c = ' ' ↔ c.toNat = 0x20 := by
    refine ⟨fun h => by rw [h]; rfl, fun h => ?_⟩
    rw [← Char.ofNat_toNat c, h]
  simp only [isAsciiGraphic, Drawable, decide_eq_true_eq, hspace]
  omega

/-- A line that either loop can have: short, and all of it drawable. -/
def Typed (line : List UInt8) : Prop := line.length ≤ lineMax ∧ ∀ byte ∈ line,
      Fbcon.Printable byte

lemma printable_ofNat {c : Char} (h : Drawable c) : Fbcon.Printable (UInt8.ofNat c.toNat) := by
  obtain ⟨hlow, hhigh⟩ := h
  have hnat : (UInt8.ofNat c.toNat).toNat = c.toNat := UInt8.toNat_ofNat_of_lt' (by
    have hsize : UInt8.size = 256 := rfl
    omega)
  exact ⟨UInt8.le_iff_toNat_le.mpr (by rw [hnat]; exact hlow),
    UInt8.le_iff_toNat_le.mpr (by rw [hnat]; exact hhigh)⟩

/-- What is drawable is text. -/
lemma orEmpty_printable {bytes : List UInt8} (h : ∀ byte ∈ bytes, Fbcon.Printable byte) :
    orEmpty bytes = bytes := by
  rw [orEmpty, if_pos]
  refine Fat.validUtf8_ascii fun byte hbyte => ?_
  exact lt_of_le_of_lt (UInt8.le_iff_toNat_le.mp (h byte hbyte).2) (by decide)

lemma typed_edit {line : List UInt8} (h : Typed line) (key : ConsoleKey) :
    Typed (edit line key) := by
  obtain ⟨hlength, hline⟩ := h
  cases key with
  | char c =>
      rw [edit]
      split_ifs with htake
      · refine ⟨?_, fun byte hbyte => ?_⟩
        · rw [List.length_append, List.length_singleton]
          exact htake.2
        · obtain hbyte | hbyte := List.mem_append.mp hbyte
          · exact hline byte hbyte
          · rw [List.mem_singleton.mp hbyte]
            exact printable_ofNat htake.1
      · exact ⟨hlength, hline⟩
  | backspace =>
      refine ⟨?_, fun byte hbyte => hline byte (List.dropLast_subset _ hbyte)⟩
      rw [edit, List.length_dropLast]
      exact (Nat.sub_le _ _).trans hlength
  | enter => exact ⟨hlength, hline⟩
  | unknown => exact ⟨hlength, hline⟩

/-- What is echoed of a key. -/
def echoed (line : List UInt8) : ConsoleKey → List UInt8
  | .char c => if Drawable c ∧ line.length < lineMax then [UInt8.ofNat c.toNat] else []
  | .backspace => if 0 < line.length then unwritten else []
  | .enter => []
  | .unknown => []

/-- What is echoed of some keys. -/
def echoedAll (line : List UInt8) : List ConsoleKey → List UInt8
  | [] => []
  | key :: keys => echoed line key ++ echoedAll (edit line key) keys

/-- A turn of the loop that does not end it edits the line, and echoes what it did. -/
lemma readLineKernel_cons {key : Option ConsoleKey} (hkey : key ≠ some .enter)
    (rest : List (Option ConsoleKey)) (line echo : List UInt8) :
    readLineKernel (key :: rest) ⟨line, echo⟩ =
      readLineKernel rest
        (key.elim ⟨line, echo⟩ fun key => ⟨edit line key, echo ++ echoed line key⟩) := by
  cases key with
  | none => rfl
  | some key =>
      cases key with
      | enter => exact absurd rfl hkey
      | backspace =>
          rw [readLineKernel]
          refine congrArg (readLineKernel rest) ?_
          simp only [Editing.back, Option.elim, edit, echoed]
          split_ifs with hlength
          · rfl
          · rw [List.length_eq_zero_iff.mp (Nat.eq_zero_of_not_pos hlength), List.append_nil]
            rfl
      | char c =>
          rw [readLineKernel]
          refine congrArg (readLineKernel rest) ?_
          simp only [graphic_or_space, Option.elim, edit, echoed]
          split_ifs with htake
          · rw [Editing.take, orEmpty_printable]
            intro byte hbyte
            rw [List.mem_singleton.mp hbyte]
            exact printable_ofNat htake.1
          · rw [List.append_nil]
      | unknown => simp [readLineKernel, edit, echoed]

/-- The keys before the first Enter, and what comes after it. -/
lemma readLineKernel_enter {polls : List (Option ConsoleKey)} (hpolls : some .enter ∉ polls)
    (rest : List (Option ConsoleKey)) {line : List UInt8} (hline : Typed line)
    (echo : List UInt8) :
    readLineKernel (polls ++ some .enter :: rest) ⟨line, echo⟩ =
      some (⟨(polls.filterMap id).foldl edit line,
        echo ++ echoedAll line (polls.filterMap id) ++ [0x0A]⟩, rest) := by
  induction polls generalizing line echo with
  | nil =>
      rw [List.nil_append, readLineKernel]
      simp [echoedAll, orEmpty_printable hline.2]
  | cons key polls ih =>
      rw [List.mem_cons, not_or] at hpolls
      rw [List.cons_append, readLineKernel_cons (Ne.symm hpolls.1)]
      cases key with
      | none => exact ih hpolls.2 hline echo
      | some key =>
          rw [Option.elim, ih hpolls.2 (typed_edit hline key)]
          simp [echoedAll]

/-- Without an Enter the loop goes on. -/
lemma readLineKernel_none {polls : List (Option ConsoleKey)} (hpolls : some .enter ∉ polls)
    (e : Editing) :
    readLineKernel polls e = none := by
  induction polls generalizing e with
  | nil => rw [readLineKernel]
  | cons key polls ih =>
      rw [List.mem_cons, not_or] at hpolls
      rw [readLineKernel_cons (Ne.symm hpolls.1)]
      exact ih hpolls.2 _

lemma typed_foldl {line : List UInt8} (h : Typed line) (keys : List ConsoleKey) :
    Typed (keys.foldl edit line) := by
  induction keys generalizing line with
  | nil => exact h
  | cons key keys ih => exact ih (typed_edit h key)

lemma typed_nil : Typed [] := ⟨Nat.zero_le _, fun _ h => absurd h List.not_mem_nil⟩

/-- What the loop comes to, from an empty line: it ends at the first Enter, with the line that the
keys before it make. -/
lemma readLineKernel_iff {polls rest : List (Option ConsoleKey)} {e : Editing} :
    readLineKernel polls ⟨[], []⟩ = some (e, rest) ↔
      ∃ before, polls = before ++ some .enter :: rest ∧ some .enter ∉ before ∧
        e = ⟨edited (before.filterMap id), echoedAll [] (before.filterMap id) ++ [0x0A]⟩ := by
  constructor
  · intro hread
    have hmem : some .enter ∈ polls := by
      by_contra hmem
      rw [readLineKernel_none hmem] at hread
      cases hread
    obtain ⟨before, after, rfl, hbefore⟩ := List.eq_append_cons_of_mem hmem
    rw [readLineKernel_enter hbefore _ typed_nil] at hread
    obtain ⟨rfl, rfl⟩ := Prod.mk.inj (Option.some.inj hread)
    exact ⟨before, rfl, hbefore, rfl⟩
  · rintro ⟨before, rfl, hbefore, rfl⟩
    rw [readLineKernel_enter hbefore _ typed_nil]
    rfl

/-! ### Two loops -/

/-- The number of a character is its own, and that of no other key. -/
lemma encodeKey_char {c : Char} (h : Drawable c) :
    encodeKey (some (.char c)) ≠ keyNone ∧ encodeKey (some (.char c)) ≠ keyEnter ∧
      encodeKey (some (.char c)) ≠ keyBackspace ∧ encodeKey (some (.char c)) ≠ keyUnknown ∧
      (0x20 ≤ encodeKey (some (.char c)) ∧ encodeKey (some (.char c)) ≤ 0x7E) ∧
      (encodeKey (some (.char c))).toUInt8 = UInt8.ofNat c.toNat := by
  have hencode : encodeKey (some (.char c)) = UInt64.ofNat c.toNat := by
    rw [encodeKey]
    exact if_pos h
  obtain ⟨hlow, hhigh⟩ := h
  have hnat : (UInt64.ofNat c.toNat).toNat = c.toNat := UInt64.toNat_ofNat_of_lt' (by
    have hsize : UInt64.size = 2 ^ 64 := rfl
    omega)
  rw [hencode]
  refine ⟨?_, ?_, ?_, ?_, ⟨UInt64.le_iff_toNat_le.mpr ?_, UInt64.le_iff_toNat_le.mpr ?_⟩, ?_⟩
  · intro heq
    have hzero := congrArg UInt64.toNat heq
    rw [hnat, show keyNone.toNat = 0 from rfl] at hzero
    omega
  · intro heq
    have hone := congrArg UInt64.toNat heq
    rw [hnat, show keyEnter.toNat = 1 from rfl] at hone
    omega
  · intro heq
    have htwo := congrArg UInt64.toNat heq
    rw [hnat, show keyBackspace.toNat = 2 from rfl] at htwo
    omega
  · intro heq
    have hthree := congrArg UInt64.toNat heq
    rw [hnat, show keyUnknown.toNat = 3 from rfl] at hthree
    omega
  · rw [hnat]
    exact hlow
  · rw [hnat]
    exact hhigh
  · refine UInt8.toNat_inj.mp ?_
    rw [UInt64.toNat_toUInt8, hnat, UInt8.toNat_ofNat']

lemma encodeKey_other {c : Char} (h : ¬ Drawable c) :
    encodeKey (some (.char c)) = keyUnknown := by
  rw [encodeKey]
  exact if_neg h

/-- A turn of the loop in ring 3 that does not end it. -/
lemma readLineUser_cons {key : Option ConsoleKey} (hkey : key ≠ some .enter) (rest : List UInt64)
    (line echo : List UInt8) :
    readLineUser (encodeKey key :: rest) ⟨line, echo⟩ =
      readLineUser rest (key.elim ⟨line, echo⟩ fun key =>
        ⟨edit line key, echo ++ echoed line key⟩) := by
  rw [readLineUser]
  cases key with
  | none => rfl
  | some key =>
      cases key with
      | enter => exact absurd rfl hkey
      | backspace =>
          rw [if_neg (by decide), if_neg (by decide),
            if_pos (show encodeKey (some .backspace) = keyBackspace from rfl)]
          simp only [Editing.back, Option.elim, edit, echoed]
          split_ifs with hlength
          · rfl
          · rw [List.length_eq_zero_iff.mp (Nat.eq_zero_of_not_pos hlength), List.append_nil]
            rfl
      | unknown =>
          rw [if_neg (by decide), if_neg (by decide), if_neg (by decide),
            if_pos (show encodeKey (some .unknown) = keyUnknown from rfl)]
          simp [edit, echoed]
      | char c =>
          by_cases hc : Drawable c
          · obtain ⟨h0, h1, h2, h3, hrange, hbyte⟩ := encodeKey_char hc
            rw [if_neg h0, if_neg h1, if_neg h2, if_neg h3, hbyte]
            simp only [hrange, hc, true_and, Option.elim, edit, echoed]
            split_ifs with hroom
            · rw [Editing.take, orEmpty_printable]
              intro byte hmem
              rw [List.mem_singleton.mp hmem]
              exact printable_ofNat hc
            · rw [List.append_nil]
          · rw [encodeKey_other hc, if_neg (by decide), if_neg (by decide),
              if_neg (by decide), if_pos rfl]
            simp [edit, echoed, hc]

lemma readLineUser_map (polls : List (Option ConsoleKey)) {line : List UInt8} (hline : Typed line)
    (echo : List UInt8) :
    readLineUser (polls.map encodeKey) ⟨line, echo⟩
      = (readLineKernel polls ⟨line, echo⟩).map (Prod.map id (List.map encodeKey)) := by
  induction polls generalizing line echo with
  | nil => rfl
  | cons key polls ih =>
      by_cases hkey : key = some .enter
      · subst hkey
        rw [List.map_cons, readLineUser, readLineKernel, if_neg (by decide),
          if_pos (show encodeKey (some .enter) = keyEnter from rfl), orEmpty_printable hline.2]
        rfl
      · rw [List.map_cons, readLineUser_cons hkey, readLineKernel_cons hkey]
        cases key with
        | none => exact ih hline echo
        | some key => exact ih (typed_edit hline key) _

/-- **The two shells read the same line**, and echo the same, whatever is typed: one from the
keys, the other from the numbers it is given for them. Both end at the first Enter, with the line
that the keys before it make, which is short and can be drawn. -/
theorem shells_agree (polls : List (Option ConsoleKey)) :
    readLineUser (polls.map encodeKey) ⟨[], []⟩
        = (readLineKernel polls ⟨[], []⟩).map (Prod.map id (List.map encodeKey)) ∧
      ∀ e rest, readLineKernel polls ⟨[], []⟩ = some (e, rest) ↔
        ∃ before, polls = before ++ some .enter :: rest ∧ some .enter ∉ before ∧
          e = ⟨edited (before.filterMap id), echoedAll [] (before.filterMap id) ++ [0x0A]⟩
            ∧ Typed e.line := by
  refine ⟨readLineUser_map polls typed_nil [],
    fun e rest => readLineKernel_iff.trans (exists_congr fun before => ?_)⟩
  refine and_congr_right fun _ => and_congr_right fun _ => ⟨fun he => ⟨he, ?_⟩, And.left⟩
  rw [he]
  exact typed_foldl typed_nil _

/-! ### The screen -/

open Fbcon (TextConsole Log Op Printable place_eq putByte_printable erase_one)
open Fbcon.TextConsole (Inside)

/-- What each cell of the screen shows, by its column and its row. -/
abbrev Grid := ℕ → ℕ → UInt8

/-- A cell that shows nothing shows a space. -/
def blank : UInt8 := 0x20

/-- The characters of the screen after one more operation. -/
def Grid.after (rows : ℕ) (grid : Grid) : Op → Grid
  | .draw col row byte => fun c r => if c = col ∧ r = row then byte else grid c r
  | .scroll => fun c r => if r + 1 < rows then grid c (r + 1) else blank
  | .clear => fun _ _ => blank

/-- What the screen shows once a console has done what it has, over what it showed before. -/
def onScreen (background : Grid) (console : TextConsole Log) : Grid :=
  console.surface.ops.foldl (Grid.after console.surface.rows) background

/-- The cell of the `i`-th place along the rows, once `lost` rows are off the screen. -/
def Grid.cell (grid : Grid) (cols lost i : ℕ) : UInt8 := grid (i % cols) (i / cols - lost)

/-- The screen shows a line from a place on, with the cursor after it; what was erased of it is
blank, up to `most` characters; and what stood before it still does, `lost` rows higher. -/
structure Displays (background : Grid) (start : ℕ) (text : List UInt8) (most lost : ℕ)
    (console : TextConsole Log) :
    Prop extends Inside console where
  cursor : console.row * console.surface.cols + console.col + lost * console.surface.cols
    = start + text.length
  kept : lost * console.surface.cols ≤ start
  most_ge : text.length ≤ most
  room : start + most ≤ (console.surface.rows + lost) * console.surface.cols
  before : ∀ i < start, lost ≤ i / console.surface.cols →
    (onScreen background console).cell console.surface.cols lost i
    = background.cell console.surface.cols 0 i
  shown : ∀ i byte, text[i]? = some byte →
    (onScreen background console).cell console.surface.cols lost (start + i) = byte
  erased : ∀ i, text.length ≤ i → i < most →
    (onScreen background console).cell console.surface.cols lost (start + i) = blank

section Screen

variable {background grid : Grid} {start most lost cols rows : ℕ} {text : List UInt8}
  {console : TextConsole Log}

/-- A cell that is drawn, among the places. -/
lemma after_draw {i j col row : ℕ} {byte : UInt8} (hcol : col < cols)
    (hplace : row * cols + col + lost * cols = j) (hi : lost ≤ i / cols) :
    (Grid.after rows grid (.draw col row byte)).cell cols lost i = if i = j then byte
      else grid.cell cols lost i := by
  have hj : j % cols = col ∧ j / cols = row + lost := by
    have hsum : j = col + (row + lost) * cols := by
      rw [← hplace, Nat.add_mul]
      omega
    rw [hsum, Nat.add_mul_mod_self_right, Nat.mod_eq_of_lt hcol,
      Nat.add_mul_div_right _ _ (by omega), Nat.div_eq_of_lt hcol]
    exact ⟨rfl, Nat.zero_add _⟩
  rw [Grid.cell, Grid.after]
  dsimp only
  by_cases hij : i = j
  · rw [if_pos hij, hij, if_pos ⟨hj.1, by omega⟩]
  · rw [if_neg hij, if_neg, Grid.cell]
    rintro ⟨hmod, hdiv⟩
    refine hij ?_
    rw [← Nat.mod_add_div i cols, ← Nat.mod_add_div j cols, hmod, hj.1,
      show i / cols = j / cols by omega]

/-- A scroll keeps the places, but for the row that goes off the screen. -/
lemma after_scroll {i : ℕ} (hi : lost + 1 ≤ i / cols) (hrow : i / cols < rows + lost) :
    (Grid.after rows grid .scroll).cell cols (lost + 1) i = grid.cell cols lost i := by
  rw [Grid.cell, Grid.after, Grid.cell]
  dsimp only
  rw [if_pos (by omega), show i / cols - (lost + 1) + 1 = i / cols - lost by omega]

lemma onScreen_append (ops : List Op) (op : Op) (col row col' row' : ℕ) :
    onScreen background ⟨⟨cols, rows, ops ++ [op]⟩, col, row⟩
      = Grid.after rows (onScreen background ⟨⟨cols, rows, ops⟩, col', row'⟩) op := by
  rw [onScreen, List.foldl_append]
  rfl

/-- A character typed where there is room on the row. -/
lemma Displays.putGlyph (h : Displays background start text most lost console)
    (hcol : console.col < console.surface.cols) (byte : UInt8) :
    Displays background start (text ++ [byte]) (max most (text.length + 1)) lost
      (console.putGlyph byte) := by
  obtain ⟨⟨cols, rows, ops⟩, col, row⟩ := console
  obtain ⟨⟨-, hrow⟩, hcursor, hkept, hmost, hroom, hbefore, hshown, herased⟩ := h
  dsimp only at hcol hcursor hkept hroom hbefore hshown herased
  change row < rows at hrow
  have hlost : ∀ i, start ≤ i → lost ≤ i / cols := fun i hi =>
    (Nat.le_div_iff_mul_le (by omega)).mpr (hkept.trans hi)
  have hdraw : ∀ i, lost ≤ i / cols →
      (onScreen background ((⟨⟨cols, rows, ops⟩, col, row⟩ : TextConsole Log).putGlyph byte)).cell
      cols lost i
        = if i = start + text.length then byte
          else (onScreen background ⟨⟨cols, rows, ops⟩, col, row⟩).cell cols lost i := by
    intro i hi
    rw [TextConsole.putGlyph]
    dsimp only [Fbcon.Surface.drawGlyph]
    rw [onScreen_append _ _ _ _ col row]
    exact after_draw hcol hcursor hi
  refine ⟨⟨hcol, hrow⟩, ?_, hkept, ?_, ?_, fun i hi hlow => ?_, fun i b hb => ?_,
    fun i hlow hhigh => ?_⟩
  · rw [List.length_append, List.length_singleton, ← Nat.add_assoc, ← hcursor]
    dsimp only [TextConsole.putGlyph, Fbcon.Surface.drawGlyph]
    omega
  · rw [List.length_append, List.length_singleton]
    exact le_max_right _ _
  · dsimp only [TextConsole.putGlyph, Fbcon.Surface.drawGlyph]
    have hcell : start + text.length < (rows + lost) * cols := by
      rw [← hcursor, Nat.add_mul]
      have hle : (row + 1) * cols ≤ rows * cols := Nat.mul_le_mul_right _ hrow
      rw [Nat.succ_mul] at hle
      omega
    omega
  · refine (hdraw i hlow).trans ?_
    rw [if_neg (by omega)]
    exact hbefore i hi hlow
  · refine (hdraw _ (hlost _ (Nat.le_add_right _ _))).trans ?_
    obtain hold | ⟨rfl, rfl⟩ := getElem?_concat_some.mp hb
    · obtain ⟨hlt, -⟩ := List.getElem?_eq_some_iff.mp hold
      rw [if_neg (by omega), hshown i b hold]
    · rw [if_pos rfl]
  · rw [List.length_append, List.length_singleton] at hlow
    refine (hdraw _ (hlost _ (Nat.le_add_right _ _))).trans ?_
    rw [if_neg (by omega)]
    exact herased i (by omega) (by omega)

/-- A row that is full is left for the next one, or taken up by a scroll, which takes none of the
line off the screen. -/
lemma Displays.newline (h : Displays background start text most lost console)
    (hfull : console.surface.cols ≤ console.col) (hshort : text.length < lineMax)
    (hfits : lineMax ≤ (console.surface.rows - 1) * console.surface.cols) :
    ∃ lost', Displays background start text most lost' console.newline := by
  obtain ⟨⟨cols, rows, ops⟩, col, row⟩ := console
  obtain ⟨⟨hcol, hrow⟩, hcursor, hkept, hmost, hroom, hbefore, hshown, herased⟩ := h
  dsimp only at hfull hfits hcursor hkept hroom hbefore hshown herased
  change col ≤ cols at hcol
  change row < rows at hrow
  obtain rfl : col = cols := le_antisymm hcol hfull
  rw [TextConsole.newline]
  split
  · rename_i hlast
    change rows ≤ row + 1 at hlast
    obtain rfl : rows = row + 1 := le_antisymm hlast hrow
    rw [Nat.add_sub_cancel] at hfits
    have hroom' : start + most ≤ (row + 1 + (lost + 1)) * col :=
      hroom.trans (Nat.mul_le_mul_right _ (by omega))
    have hup : ∀ i, i < start + most → lost + 1 ≤ i / col →
        (onScreen background ⟨⟨col, row + 1, ops ++ [.scroll]⟩, 0, row⟩).cell col (lost + 1) i
          = (onScreen background ⟨⟨col, row + 1, ops⟩, col, row⟩).cell col lost i := by
      intro i hi hlow
      rw [onScreen_append _ _ _ _ col row]
      exact after_scroll hlow (Nat.div_lt_of_lt_mul (by rw [Nat.mul_comm]; omega))
    have hkept' : (lost + 1) * col ≤ start := by
      rw [Nat.succ_mul]
      omega
    have hlost : ∀ i, start ≤ i → lost + 1 ≤ i / col := by
      intro i hi
      rcases Nat.eq_zero_or_pos col with rfl | hpos
      · rw [Nat.mul_zero] at hfits
        omega
      · exact (Nat.le_div_iff_mul_le hpos).mpr (hkept'.trans hi)
    refine ⟨lost + 1, ⟨Nat.zero_le _, hrow⟩, ?_, hkept', hmost, hroom', fun i hi hlow => ?_,
      fun i b hb => ?_, fun i hlow hhigh => ?_⟩
    · dsimp only [Fbcon.Surface.scrollUpOneRow]
      rw [← hcursor, Nat.succ_mul]
      omega
    · exact (hup i (by omega) hlow).trans (hbefore i hi ((Nat.le_succ _).trans hlow))
    · obtain ⟨hlt, -⟩ := List.getElem?_eq_some_iff.mp hb
      exact (hup _ (by omega) (hlost _ (Nat.le_add_right _ _))).trans (hshown i b hb)
    · exact (hup _ (by omega) (hlost _ (Nat.le_add_right _ _))).trans (herased i hlow hhigh)
  · rename_i hbelow
    change ¬ rows ≤ row + 1 at hbelow
    refine ⟨lost, ⟨Nat.zero_le _, not_le.mp hbelow⟩, ?_, hkept, hmost, hroom, hbefore,
      hshown, herased⟩
    dsimp only
    rw [← hcursor, Nat.succ_mul]
    omega

lemma Displays.putByte (h : Displays background start text most lost console)
    (hcols : 0 < console.surface.cols) (hshort : text.length < lineMax)
    (hfits : lineMax ≤ (console.surface.rows - 1) * console.surface.cols)
    {byte : UInt8} (hbyte : Printable byte) :
    ∃ lost', Displays background start (text ++ [byte]) (max most (text.length + 1)) lost'
      (console.putByte byte) := by
  rw [putByte_printable hbyte]
  split
  · rename_i hfull
    obtain ⟨lost', hnewline⟩ := h.newline hfull hshort hfits
    obtain ⟨hsame, -, hcol⟩ := Fbcon.newline_surface console
    exact ⟨lost', hnewline.putGlyph (by rwa [hcol, hsame]) byte⟩
  · rename_i hsome
    exact ⟨lost, h.putGlyph (not_le.mp hsome) byte⟩

/-- Erasing the last character blanks its cell, and goes back to it. -/
lemma Displays.erase {last : UInt8}
    (h : Displays background start (text ++ [last]) most lost console)
    (hcols : 0 < console.surface.cols) :
    Displays background start text most lost (console.writeStr unwritten) := by
  obtain ⟨⟨cols, rows, ops⟩, col, row⟩ := console
  obtain ⟨hinside, hcursor, hkept, hmost, hroom, hbefore, hshown, herased⟩ := h
  rw [List.length_append, List.length_singleton, ← Nat.add_assoc] at hcursor
  rw [List.length_append, List.length_singleton] at hmost
  obtain ⟨col', row', herase, hcol, hrow, hplace⟩ :=
    erase_one hinside hcols hcursor (hkept.trans (Nat.le_add_right _ _))
  dsimp only at hkept hroom hbefore hshown herased herase hcol hrow hplace
  have hlost : ∀ i, start ≤ i → lost ≤ i / cols := fun i hi =>
    (Nat.le_div_iff_mul_le hcols).mpr (hkept.trans hi)
  rw [unwritten, herase]
  have hdraw : ∀ i, lost ≤ i / cols →
      (onScreen background ⟨⟨cols, rows, ops ++ [.draw col' row' 0x20]⟩, col',
        row'⟩).cell cols lost i
        = if i = start + text.length then blank
          else (onScreen background ⟨⟨cols, rows, ops⟩, col, row⟩).cell cols lost i := by
    intro i hi
    rw [onScreen_append _ _ _ _ col row]
    exact after_draw hcol hplace hi
  refine ⟨⟨hcol.le, hrow⟩, hplace, hkept, by omega, hroom, fun i hi hlow => ?_, fun i b hb => ?_,
    fun i hlow hhigh => ?_⟩
  · refine (hdraw i hlow).trans ?_
    rw [if_neg (by omega)]
    exact hbefore i hi hlow
  · obtain ⟨hlt, -⟩ := List.getElem?_eq_some_iff.mp hb
    refine (hdraw _ (hlost _ (Nat.le_add_right _ _))).trans ?_
    rw [if_neg (by omega)]
    exact hshown i b (by rw [List.getElem?_append_left hlt]; exact hb)
  · refine (hdraw _ (hlost _ (Nat.le_add_right _ _))).trans ?_
    split_ifs with hlast
    · rfl
    · refine herased i ?_ hhigh
      rw [List.length_append, List.length_singleton]
      omega

/-- Whatever keys come, the screen shows the line they make. -/
lemma Displays.keys (h : Displays background start text most lost console) (htyped : Typed text)
    (hcols : 0 < console.surface.cols)
    (hfits : lineMax ≤ (console.surface.rows - 1) * console.surface.cols)
    (keys : List ConsoleKey) :
    ∃ most' lost', Displays background start (keys.foldl edit text) most' lost'
      (console.writeStr (echoedAll text keys)) := by
  induction keys generalizing text most lost console with
  | nil => exact ⟨most, lost, h⟩
  | cons key keys ih =>
      -- what the key does, and then the rest of them
      have hgo : ∀ most' lost' : ℕ,
          Displays background start (edit text key) most' lost'
            (console.writeStr (echoed text key)) →
          ∃ most' lost', Displays background start ((key :: keys).foldl edit text) most' lost'
            (console.writeStr (echoedAll text (key :: keys))) := by
        intro most' lost' hkey
        obtain ⟨hsame, hsame'⟩ := Fbcon.writeStr_surface console (echoed text key)
        rw [echoedAll, Fbcon.writeStr_append]
        exact ih hkey (typed_edit htyped key) (by rwa [hsame]) (by rwa [hsame, hsame'])
      cases key with
      | char c =>
          by_cases htake : Drawable c ∧ text.length < lineMax
          · obtain ⟨lost', hput⟩ := h.putByte hcols htake.2 hfits (printable_ofNat htake.1)
            refine hgo (max most (text.length + 1)) lost' ?_
            rw [edit, echoed, if_pos htake, if_pos htake]
            exact hput
          · refine hgo most lost ?_
            rw [edit, echoed, if_neg htake, if_neg htake]
            exact h
      | backspace =>
          obtain rfl | ⟨init, last, rfl⟩ := List.eq_nil_or_concat' text
          · exact hgo most lost h
          · refine hgo most lost ?_
            rw [edit, echoed, if_pos (by simp), List.dropLast_concat]
            exact h.erase hcols
      | enter => exact hgo most lost h
      | unknown => exact hgo most lost h

end Screen

open Keyboard (KeyEvent Decoder Pipeline)

/-- How a character is typed: its key, with Shift if it takes it. -/
def strokes (byte : UInt8) : List KeyEvent :=
  match Keyboard.keyTable.findIdx? (fun entry => entry.1 == byte) with
  | some i => [.press (UInt8.ofNat i), .release (UInt8.ofNat i)]
  | none =>
      match Keyboard.keyTable.findIdx? (fun entry => entry.2 == byte) with
      | some i =>
          [.press Keyboard.scLeftShift, .press (UInt8.ofNat i), .release (UInt8.ofNat i),
            .release Keyboard.scLeftShift]
      | none => []

/-- How a line is typed. -/
def typing (text : List UInt8) : List KeyEvent :=
  text.flatMap strokes ++ [.press Keyboard.scEnter, .release Keyboard.scEnter]

/-- Every character that can be drawn can be typed, and leaves no key held. -/
lemma decode_strokes {byte : UInt8} (h : Printable byte) :
    Decoder.new.decode ((strokes byte).flatMap KeyEvent.scancodes)
        = ([.char (Char.ofNat byte.toNat)], Decoder.new) ∧
      ∀ event ∈ strokes byte, event.Proper := by
  have hall : ∀ n : Fin 256, 0x20 ≤ n.val → n.val ≤ 0x7E →
      Decoder.new.decode ((strokes (UInt8.ofNat n)).flatMap KeyEvent.scancodes)
        = ([.char (Char.ofNat (UInt8.ofNat n).toNat)], Decoder.new) ∧
      ∀ event ∈ strokes (UInt8.ofNat n), event.make < Keyboard.breakBit ∧
        event.make ||| Keyboard.breakBit ≠ Keyboard.prefixExtended := by
    decide +kernel
  have hbyte := hall ⟨byte.toNat, byte.toNat_lt⟩ (UInt8.le_iff_toNat_le.mp h.1)
    (UInt8.le_iff_toNat_le.mp h.2)
  rwa [UInt8.ofNat_toNat] at hbyte

lemma decode_text {text : List UInt8} (h : ∀ byte ∈ text, Printable byte) :
    Decoder.new.decode ((text.flatMap strokes).flatMap KeyEvent.scancodes)
      = (text.map fun byte => .char (Char.ofNat byte.toNat), Decoder.new) := by
  induction text with
  | nil => rfl
  | cons byte text ih =>
      rw [List.forall_mem_cons] at h
      rw [List.flatMap_cons, List.flatMap_append, Decoder.decode_append,
        (decode_strokes h.1).1, ih h.2]
      rfl

lemma proper_typing {text : List UInt8} (h : ∀ byte ∈ text, Printable byte) :
    ∀ event ∈ typing text, event.Proper := by
  have henter : ∀ event ∈ [KeyEvent.press Keyboard.scEnter, .release Keyboard.scEnter],
      event.Proper := by
    unfold KeyEvent.Proper
    decide
  intro event hevent
  obtain hevent | hevent := List.mem_append.mp hevent
  · obtain ⟨byte, hbyte, hevent⟩ := List.mem_flatMap.mp hevent
    exact (decode_strokes (h byte hbyte)).2 event hevent
  · exact henter event hevent

/-- The keys that are heard of a line that is typed. -/
lemma heard_typing {text : List UInt8} (h : ∀ byte ∈ text, Printable byte) :
    Keyboard.heard (typing text) = (text.map fun byte => .char (Char.ofNat byte.toNat))
      ++ [.enter] := by
  have henter : Decoder.new.decode
      ([KeyEvent.press Keyboard.scEnter, .release Keyboard.scEnter].flatMap
      KeyEvent.scancodes) = ([.enter], Decoder.new) := by decide
  rw [← Keyboard.decode_events (proper_typing h), typing, List.flatMap_append,
    Decoder.decode_append, decode_text h, henter]

/-- A line of characters is made by their keys. -/
lemma foldl_edit_chars (line : List UInt8) {text : List UInt8} (h : ∀ byte ∈ text, Printable byte)
    (hlength : line.length + text.length ≤ lineMax) :
    (text.map fun byte => ConsoleKey.char (Char.ofNat byte.toNat)).foldl edit line
      = line ++ text ∧
      echoedAll line (text.map fun byte => .char (Char.ofNat byte.toNat)) = text := by
  induction text generalizing line with
  | nil => exact ⟨(List.append_nil _).symm, rfl⟩
  | cons byte text ih =>
      rw [List.forall_mem_cons] at h
      rw [List.length_cons] at hlength
      have hvalid : byte.toNat.isValidChar := Or.inl (byte.toNat_lt.trans (by decide))
      have hnat : (Char.ofNat byte.toNat).toNat = byte.toNat := by
        rw [Char.ofNat, dif_pos hvalid]
        rfl
      have htake : Drawable (Char.ofNat byte.toNat) ∧ line.length < lineMax := by
        rw [Drawable, hnat]
        exact ⟨⟨UInt8.le_iff_toNat_le.mp h.1.1, UInt8.le_iff_toNat_le.mp h.1.2⟩, by omega⟩
      have hedit : edit line (.char (Char.ofNat byte.toNat)) = line ++ [byte] := by
        rw [edit, if_pos htake, hnat, UInt8.ofNat_toNat]
      obtain ⟨hline, hecho⟩ := ih (line ++ [byte]) h.2 (by
        rw [List.length_append, List.length_singleton]
        omega)
      refine ⟨?_, ?_⟩
      · rw [List.map_cons, List.foldl_cons, hedit, hline, List.append_assoc,
          List.singleton_append]
      · rw [List.map_cons, echoedAll, hedit, hecho, echoed, if_pos htake, hnat, UInt8.ofNat_toNat,
          List.singleton_append]

lemma takeWhile_enter {keys : List ConsoleKey} (h : .enter ∉ keys) (rest : List ConsoleKey) :
    (keys ++ .enter :: rest).takeWhile (fun key => key ≠ .enter) = keys := by
  have hall : ∀ key ∈ keys, decide (key ≠ .enter) = true := by
    intro key hkey
    refine decide_eq_true ?_
    rintro rfl
    exact h hkey
  rw [List.takeWhile_append_of_pos hall, List.takeWhile_cons_of_neg (by simp), List.append_nil]

/-- **What is typed is what is run.** A line of up to 128 characters typed at the keyboard, by
whatever interrupts and steps its scancodes take to the reader, as long as the queue is never full
and nothing is left waiting: the shell in ring 3 reads that line, and has echoed it, from the
numbers it is given for the keys. -/
theorem typed_line_is_run (slots : Fin Keyboard.queueCapacity → UInt8) (start : UInt64)
    (steps : List Pipeline.Step) (text : List UInt8) (htext : ∀ byte ∈ text, Printable byte)
    (hlength : text.length ≤ lineMax)
    (harrived : Keyboard.arrived steps = (typing text).flatMap KeyEvent.scancodes)
    (hroom : ∀ scancode tail head,
      .refused scancode tail head ∉ ((Pipeline.new slots start).run steps).world.returned)
    (hwaiting : ((Pipeline.new slots start).run steps).waiting = [])
    (hproducer : ((Pipeline.new slots start).run steps).world.producer = .idle)
    (hempty : ((Pipeline.new slots start).run steps).world.queue.head
      = ((Pipeline.new slots start).run steps).world.queue.tail) :
    ∃ rest, readLineUser (((Pipeline.new slots start).run steps).answers.map encodeKey) ⟨[], []⟩
      = some (⟨text, text ++ [0x0A]⟩, rest) := by
  obtain ⟨later, hheard, hnone⟩ :=
    Pipeline.heard_run slots start steps (typing text) (proper_typing htext) harrived
    hroom
  rw [hnone hwaiting hproducer hempty, List.append_nil, heard_typing htext,
    Pipeline.keys] at hheard
  have hkeys := hheard.symm
  generalize ((Pipeline.new slots start).run steps).answers = answers at hkeys ⊢
  have hmem : some .enter ∈ answers := by
    have hlast : ConsoleKey.enter ∈ answers.filterMap id := by
      rw [hkeys]
      exact List.mem_append_right _ (List.mem_singleton_self _)
    obtain ⟨answer, hanswer, heq⟩ := List.mem_filterMap.mp hlast
    exact heq ▸ hanswer
  obtain ⟨before, after, rfl, hbefore⟩ := List.eq_append_cons_of_mem hmem
  have hsplit : before.filterMap id = text.map fun byte => .char (Char.ofNat byte.toNat) := by
    rw [List.filterMap_append, List.filterMap_cons_some (by rfl)] at hkeys
    have hnone : ConsoleKey.enter ∉ before.filterMap id := by
      intro henter
      obtain ⟨answer, hanswer, heq⟩ := List.mem_filterMap.mp henter
      exact hbefore (heq ▸ hanswer)
    have hnone' : ConsoleKey.enter ∉ text.map fun byte =>
        ConsoleKey.char (Char.ofNat byte.toNat) := by
      simp
    rw [← takeWhile_enter hnone, hkeys, takeWhile_enter hnone']
  obtain ⟨hline, hecho⟩ :=
    foldl_edit_chars [] htext (by rw [List.length_nil, Nat.zero_add]; exact hlength)
  refine ⟨after.map encodeKey, ?_⟩
  rw [readLineUser_map _ typed_nil, readLineKernel_enter hbefore _ typed_nil, hsplit,
    hline, hecho]
  rfl

/-- A small letter and a capital, and Enter: their bytes come, and are handled and read. -/
def twoLetters : List Pipeline.Step :=
  List.flatten
    [((typing [0x6C, 0x53]).flatMap KeyEvent.scancodes).map fun byte => .arrives ⟨false, byte⟩,
      [.interrupts], List.replicate 48 .handles, List.replicate 48 .reads]

theorem typed_line_is_run_twoLetters :
    ∃ rest, readLineUser
      (((Pipeline.new (fun _ => 0) 5).run twoLetters).answers.map encodeKey) ⟨[], []⟩
      = some (⟨[0x6C, 0x53], [0x6C, 0x53, 0x0A]⟩, rest) := by
  have htext : ∀ byte ∈ ([0x6C, 0x53] : List UInt8), Printable byte := by
    rw [List.forall_mem_cons, List.forall_mem_singleton]
    exact ⟨⟨by decide, by decide⟩, by decide, by decide⟩
  exact typed_line_is_run (fun _ => 0) 5 twoLetters [0x6C, 0x53] htext (by decide)
    (by decide +kernel)
    (Keyboard.not_refused_of_noneRefused (by decide +kernel)) (by decide +kernel)
    (by decide +kernel) (by decide +kernel)

end Harlan.LineEditor
