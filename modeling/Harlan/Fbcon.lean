import Mathlib.Tactic

/-! The text console (`drivers/fbcon/src/lib.rs`): a cursor over a grid of character cells, which
may rest one past the last column until the next character needs a cell.

* `Surface`, `TextConsole`: what can draw cells, and where the next character goes.
* `Op`, `Log`: what a console asks of its surface, and the surface that only notes it.
* `Inside`, `writeStr_inside`: the cursor stays on the grid.
* `writeStr_replays`: a console does to any surface what it asks of the log.
* `shown`, `Typing`: where the characters typed are, by their count along the rows.
* `erase_undoes_typing`: erasing blanks the cells of what was typed, and comes back to the first
  of them. -/

namespace Harlan.Fbcon

/-! ### The console -/

/-- Something that can draw character cells on a grid. -/
class Surface (S : Type) where
  cols : S → ℕ
  rows : S → ℕ
  drawGlyph : S → (col row : ℕ) → UInt8 → S
  scrollUpOneRow : S → S
  clear : S → S

open Surface

/-- A surface, and where the next character goes. -/
structure TextConsole (S : Type) where
  surface : S
  col : ℕ
  row : ℕ

namespace TextConsole

variable {S : Type} [Surface S]

/-- A console on a cleared surface. -/
def new (surface : S) : TextConsole S := ⟨clear surface, 0, 0⟩

/-- Clears the surface and goes back to the first cell. -/
def clear (console : TextConsole S) : TextConsole S := ⟨Surface.clear console.surface, 0, 0⟩

/-- Goes to the start of the next row. On the last row the surface scrolls instead. -/
def newline (console : TextConsole S) : TextConsole S :=
  if rows console.surface ≤ console.row + 1 then ⟨scrollUpOneRow console.surface, 0, console.row⟩
  else ⟨console.surface, 0, console.row + 1⟩

/-- One cell left without erasing; at column 0, onto the end of the row before. -/
def backspace (console : TextConsole S) : TextConsole S :=
  if 0 < console.col then ⟨console.surface, console.col - 1, console.row⟩
  else if 0 < console.row then ⟨console.surface, cols console.surface - 1, console.row - 1⟩
  else console

/-- Draws a byte at the cursor, which moves right. -/
def putGlyph (console : TextConsole S) (byte : UInt8) : TextConsole S :=
  ⟨drawGlyph console.surface console.col console.row byte, console.col + 1, console.row⟩

/-- One byte: a control character, or a glyph and a step to the right. -/
def putByte (console : TextConsole S) (byte : UInt8) : TextConsole S :=
  if byte = 0x0A then console.newline
  else if byte = 0x0D then ⟨console.surface, 0, console.row⟩
  else if byte = 0x08 then console.backspace
  -- a full line wraps only when the next character needs a cell
  else if cols console.surface ≤ console.col then console.newline.putGlyph byte
  else console.putGlyph byte

/-- A text, byte by byte. -/
def writeStr (console : TextConsole S) (bytes : List UInt8) : TextConsole S :=
  bytes.foldl putByte console

/-- What is asked of a console. -/
inductive Command where
  | write (bytes : List UInt8)
  | clear

/-- One command. -/
def obey (console : TextConsole S) : Command → TextConsole S
  | .write bytes => console.writeStr bytes
  | .clear => console.clear

/-- The commands, one after the other. -/
def run (console : TextConsole S) (commands : List Command) : TextConsole S :=
  commands.foldl obey console

/-- The cursor is on the grid, or one past the end of a row of it. -/
structure Inside (console : TextConsole S) : Prop where
  col_le : console.col ≤ cols console.surface
  row_lt : console.row < rows console.surface

end TextConsole

open TextConsole

/-! ### What a console asks of its surface -/

/-- What the console asks of its surface. -/
inductive Op where
  | draw (col row : ℕ) (byte : UInt8)
  | scroll
  | clear
deriving DecidableEq

/-- What the surface does with it. -/
def Op.apply {S : Type} [Surface S] (surface : S) : Op → S
  | .draw col row byte => drawGlyph surface col row byte
  | .scroll => scrollUpOneRow surface
  | .clear => Surface.clear surface

/-- A surface that does nothing but note what it is asked. -/
structure Log where
  cols : ℕ
  rows : ℕ
  ops : List Op

instance : Surface Log where
  cols log := log.cols
  rows log := log.rows
  drawGlyph log col row byte := { log with ops := log.ops ++ [.draw col row byte] }
  scrollUpOneRow log := { log with ops := log.ops ++ [.scroll] }
  clear log := { log with ops := log.ops ++ [.clear] }

/-- A surface whose grid does not change. -/
class SteadySurface (S : Type) extends Surface S where
  cols_apply : ∀ (surface : S) (op : Op), cols (op.apply surface) = cols surface
  rows_apply : ∀ (surface : S) (op : Op), rows (op.apply surface) = rows surface

instance : SteadySurface Log where
  cols_apply := by rintro log (_ | _ | _) <;> rfl
  rows_apply := by rintro log (_ | _ | _) <;> rfl

/-- An operation inside a grid. -/
def Op.Within (cols rows : ℕ) : Op → Prop
  | .draw col row _ => col < cols ∧ row < rows
  | .scroll | .clear => True

/-! ### The cursor stays on the grid -/

section Inside

variable {console : TextConsole Log}

/-- The cursor is inside the grid, and so is every cell that was drawn. -/
structure Sound (console : TextConsole Log) : Prop extends Inside console where
  within : ∀ op ∈ console.surface.ops, op.Within console.surface.cols console.surface.rows

lemma Sound.newline (h : Sound console) : Sound console.newline := by
  obtain ⟨⟨hcol, hrow⟩, hwithin⟩ := h
  change console.row < console.surface.rows at hrow
  rw [TextConsole.newline]
  split
  · refine ⟨⟨Nat.zero_le _, hrow⟩, fun op hop => ?_⟩
    obtain hop | hop := List.mem_append.mp hop
    · exact hwithin op hop
    · rw [List.mem_singleton.mp hop]
      trivial
  · rename_i hbelow
    exact ⟨⟨Nat.zero_le _, by simpa using hbelow⟩, hwithin⟩

lemma Sound.backspace (h : Sound console) : Sound console.backspace := by
  obtain ⟨⟨hcol, hrow⟩, hwithin⟩ := h
  rw [TextConsole.backspace]
  split
  · exact ⟨⟨by dsimp only; omega, hrow⟩, hwithin⟩
  · split
    · exact ⟨⟨Nat.sub_le _ _, by dsimp only; omega⟩, hwithin⟩
    · exact ⟨⟨hcol, hrow⟩, hwithin⟩

lemma Sound.putGlyph (h : Sound console) (hcol : console.col < console.surface.cols)
    (byte : UInt8) :
    Sound (console.putGlyph byte) := by
  obtain ⟨⟨-, hrow⟩, hwithin⟩ := h
  refine ⟨⟨hcol, hrow⟩, fun op hop => ?_⟩
  obtain hop | hop := List.mem_append.mp hop
  · exact hwithin op hop
  · rw [List.mem_singleton.mp hop]
    exact ⟨hcol, hrow⟩

lemma newline_surface (console : TextConsole Log) :
    console.newline.surface.cols = console.surface.cols ∧ console.newline.surface.rows
      = console.surface.rows
      ∧ console.newline.col = 0 := by
  rw [TextConsole.newline]
  split <;> exact ⟨rfl, rfl, rfl⟩

lemma Sound.putByte (h : Sound console) (hcols : 0 < console.surface.cols) (byte : UInt8) :
    Sound (console.putByte byte) := by
  rw [TextConsole.putByte]
  split_ifs with _ _ _ hfull
  · exact h.newline
  · exact ⟨⟨Nat.zero_le _, h.row_lt⟩, h.within⟩
  · exact h.backspace
  · obtain ⟨hsame, -, hcol⟩ := newline_surface console
    refine h.newline.putGlyph ?_ byte
    rw [hcol, hsame]
    exact hcols
  · exact h.putGlyph (not_le.mp hfull) byte

lemma putByte_surface (console : TextConsole Log) (byte : UInt8) :
    (console.putByte byte).surface.cols = console.surface.cols
      ∧ (console.putByte byte).surface.rows = console.surface.rows := by
  obtain ⟨hcols, hrows, -⟩ := newline_surface console
  rw [TextConsole.putByte]
  split_ifs
  · exact ⟨hcols, hrows⟩
  · exact ⟨rfl, rfl⟩
  · rw [TextConsole.backspace]
    split_ifs <;> exact ⟨rfl, rfl⟩
  · exact ⟨hcols, hrows⟩
  · exact ⟨rfl, rfl⟩

lemma writeStr_surface (console : TextConsole Log) (bytes : List UInt8) :
    (console.writeStr bytes).surface.cols = console.surface.cols
      ∧ (console.writeStr bytes).surface.rows = console.surface.rows := by
  induction bytes generalizing console with
  | nil => exact ⟨rfl, rfl⟩
  | cons byte rest ih =>
      obtain ⟨hcols, hrows⟩ := putByte_surface console byte
      exact ⟨(ih _).1.trans hcols, (ih _).2.trans hrows⟩

lemma Sound.writeStr (h : Sound console) (hcols : 0 < console.surface.cols) (bytes : List UInt8) :
    Sound (console.writeStr bytes) := by
  induction bytes generalizing console with
  | nil => exact h
  | cons byte rest ih =>
      exact ih (h.putByte hcols byte) (by rwa [(putByte_surface console byte).1])

lemma Sound.clear (h : Sound console) : Sound console.clear := by
  refine ⟨⟨Nat.zero_le _, lt_of_le_of_lt (Nat.zero_le _) h.row_lt⟩, fun op hop => ?_⟩
  obtain hop | hop := List.mem_append.mp hop
  · exact h.within op hop
  · rw [List.mem_singleton.mp hop]
    trivial

/-- Whatever is asked of a console, its cursor and what it draws are on the grid. -/
lemma Sound.run (h : Sound console) (hcols : 0 < console.surface.cols) (commands : List Command) :
    Sound (console.run commands) := by
  induction commands generalizing console with
  | nil => exact h
  | cons command rest ih =>
      cases command with
      | write bytes =>
          exact ih (h.writeStr hcols bytes) (by rwa [obey, (writeStr_surface console bytes).1])
      | clear => exact ih h.clear hcols

end Inside

/-! ### Any surface is asked the same -/

section Replays

variable {S : Type} [SteadySurface S] {start : S} {console : TextConsole S}
  {log : TextConsole Log}

/-- The console is where the log's is, and its surface is what `start` becomes by what the log has
noted. -/
structure Replays (start : S) (console : TextConsole S) (log : TextConsole Log) : Prop where
  surface : console.surface = log.surface.ops.foldl Op.apply start
  col : console.col = log.col
  row : console.row = log.row
  cols : log.surface.cols = cols start
  rows : log.surface.rows = rows start

lemma cols_foldl (ops : List Op) : cols (ops.foldl Op.apply start) = cols start := by
  induction ops generalizing start with
  | nil => rfl
  | cons op rest ih => rw [List.foldl_cons, ih, SteadySurface.cols_apply]

lemma rows_foldl (ops : List Op) : rows (ops.foldl Op.apply start) = rows start := by
  induction ops generalizing start with
  | nil => rfl
  | cons op rest ih => rw [List.foldl_cons, ih, SteadySurface.rows_apply]

lemma Replays.cols_eq (h : Replays start console log) :
    Surface.cols console.surface = log.surface.cols := by
  rw [h.surface, cols_foldl, h.cols]

lemma Replays.rows_eq (h : Replays start console log) :
    Surface.rows console.surface = log.surface.rows := by
  rw [h.surface, rows_foldl, h.rows]

/-- One more operation, on both. -/
lemma Replays.step (h : Replays start console log) (op : Op) {col row : ℕ} :
    Replays start ⟨op.apply console.surface, col, row⟩
      ⟨{ log.surface with ops := log.surface.ops ++ [op] }, col, row⟩ :=
  ⟨by rw [List.foldl_append, ← h.surface]; rfl, rfl, rfl, h.cols, h.rows⟩

/-- The same, with the cursor elsewhere. -/
lemma Replays.move (h : Replays start console log) {col row : ℕ} :
    Replays start ⟨console.surface, col, row⟩ ⟨log.surface, col, row⟩ :=
  ⟨h.surface, rfl, rfl, h.cols, h.rows⟩

lemma Replays.newline (h : Replays start console log) :
    Replays start console.newline log.newline := by
  rw [TextConsole.newline, TextConsole.newline, h.rows_eq, h.row]
  change Replays start _ (if log.surface.rows ≤ log.row + 1 then _ else _)
  split
  · exact h.step .scroll
  · exact h.move

lemma Replays.putGlyph (h : Replays start console log) (byte : UInt8) :
    Replays start (console.putGlyph byte) (log.putGlyph byte) := by
  rw [TextConsole.putGlyph, h.col, h.row]
  exact h.step (.draw log.col log.row byte)

lemma Replays.backspace (h : Replays start console log) :
    Replays start console.backspace log.backspace := by
  rw [TextConsole.backspace, TextConsole.backspace, h.cols_eq, h.col, h.row]
  split
  · exact h.move
  · split
    · exact h.move
    · exact h

lemma Replays.putByte (h : Replays start console log) (byte : UInt8) :
    Replays start (console.putByte byte) (log.putByte byte) := by
  rw [TextConsole.putByte, TextConsole.putByte, h.cols_eq, h.col, h.row]
  change Replays start _ (if _ then _ else if _ then _ else if _ then _
    else if log.surface.cols ≤ log.col then _ else _)
  split_ifs
  · exact h.newline
  · exact h.move
  · exact h.backspace
  · exact h.newline.putGlyph byte
  · exact h.putGlyph byte

lemma Replays.writeStr (h : Replays start console log) (bytes : List UInt8) :
    Replays start (console.writeStr bytes) (log.writeStr bytes) := by
  induction bytes generalizing console log with
  | nil => exact h
  | cons byte rest ih => exact ih (h.putByte byte)

/-- **A console does to its surface what the log's notes**, and its cursor goes where the log's
does. -/
theorem Replays.run (h : Replays start console log) (commands : List Command) :
    Replays start (console.run commands) (log.run commands) := by
  induction commands generalizing console log with
  | nil => exact h
  | cons command rest ih =>
      cases command with
      | write bytes => exact ih (h.writeStr bytes)
      | clear => exact ih (h.step .clear)

/-- A new console replays that of the log. -/
lemma replays_new (surface : S) :
    Replays surface (TextConsole.new surface)
      (TextConsole.new ⟨cols surface, rows surface, []⟩) :=
  ⟨rfl, rfl, rfl, rfl, rfl⟩

/-- So whatever is asked of a new console, its cursor stays on the grid, and its surface is asked
for nothing off the grid. -/
theorem run_within {surface : S} (hcols : 0 < cols surface) (hrows : 0 < rows surface)
    (commands : List Command) :
    ∃ ops : List Op, (∀ op ∈ ops, op.Within (cols surface) (rows surface))
      ∧ ((TextConsole.new surface).run commands).surface = ops.foldl Op.apply surface
      ∧ ((TextConsole.new surface).run commands).col ≤ cols surface
      ∧ ((TextConsole.new surface).run commands).row < rows surface := by
  have hsound : Sound (TextConsole.new (⟨cols surface, rows surface, []⟩ : Log)) := by
    refine ⟨⟨Nat.zero_le _, hrows⟩, fun op hop => ?_⟩
    rw [List.mem_singleton.mp hop]
    trivial
  obtain ⟨⟨hcol, hrow⟩, hwithin⟩ := hsound.run hcols commands
  have hreplays := (replays_new surface).run commands
  refine ⟨_, fun op hop => ?_, hreplays.surface, ?_, ?_⟩
  · have hop := hwithin op hop
    rwa [hreplays.cols, hreplays.rows] at hop
  · rw [hreplays.col]
    exact hcol.trans hreplays.cols.le
  · rw [hreplays.row]
    exact hrow.trans_le hreplays.rows.le

end Replays

/-! ### Where the characters are -/

/-- A scroll takes a cell one row up, and one of the first row off the grid. -/
def up : Option (ℕ × ℕ) → Option (ℕ × ℕ)
  | some (col, row + 1) => some (col, row)
  | _ => none

/-- Where the glyphs drawn so far stand after one more operation. -/
def shownAfter (cells : List (Option (ℕ × ℕ))) : Op → List (Option (ℕ × ℕ))
  | .draw col row _ => cells ++ [some (col, row)]
  | .scroll => cells.map up
  | .clear => cells.map fun _ => none

/-- The cells of the characters drawn, in the order they were, where they are by now. -/
def shown (ops : List Op) : List (Option (ℕ × ℕ)) := ops.foldl shownAfter []

/-- The cell of the `i`-th place along the rows, once `lost` rows are off the grid. -/
def place (cols lost i : ℕ) : Option (ℕ × ℕ) :=
  if lost ≤ i / cols then some (i % cols, i / cols - lost) else none

/-- The places of the first `n` characters typed from `start` on. -/
def places (cols lost start n : ℕ) : List (Option (ℕ × ℕ)) :=
  (List.range n).map fun k => place cols lost (start + k)

/-- A character of one byte that is drawn: a space, or one that is seen. -/
def Printable (byte : UInt8) : Prop := 0x20 ≤ byte ∧ byte ≤ 0x7E

/-- What the shell writes to erase as many characters. -/
def erasing (n : ℕ) : List UInt8 := (List.replicate n [0x08, 0x20, 0x08]).flatten

section Typing

variable {cols lost i : ℕ}

lemma shown_append (ops : List Op) (op : Op) :
    shown (ops ++ [op]) = shownAfter (shown ops) op := by
  rw [shown, List.foldl_append]
  rfl

lemma up_place : up (place cols lost i) = place cols (lost + 1) i := by
  rw [place, place]
  split
  · rename_i hle
    split
    · rename_i hlt
      obtain ⟨row, hrow⟩ : ∃ row, i / cols - lost = row + 1 := ⟨i / cols - lost - 1, by omega⟩
      rw [hrow, up, show i / cols - (lost + 1) = row by omega]
    · rw [show i / cols - lost = 0 by omega, up]
      simp
  · rw [if_neg (by omega), up]
    simp

/-- The place of a cell, by the rows above it. -/
lemma place_eq {col row : ℕ} (hcol : col < cols) (h : row * cols + col + lost * cols = i) :
    place cols lost i = some (col, row) := by
  have hi : i = col + (row + lost) * cols := by
    rw [← h, Nat.add_mul]
    omega
  have hdiv : i / cols = row + lost := by
    rw [hi, Nat.add_mul_div_right _ _ (by omega), Nat.div_eq_of_lt hcol, Nat.zero_add]
  have hmod : i % cols = col := by
    rw [hi, Nat.add_mul_mod_self_right, Nat.mod_eq_of_lt hcol]
  rw [place, if_pos (by omega), hmod, hdiv, Nat.add_sub_cancel]

variable {console : TextConsole Log} {start n : ℕ}

lemma places_succ : places cols lost start (n + 1)
    = places cols lost start n ++ [place cols lost (start + n)] := by
  rw [places, List.range_succ, List.map_append, List.map_singleton, places]

lemma putByte_printable {byte : UInt8} (h : Printable byte) :
    console.putByte byte
      = if console.surface.cols ≤ console.col then console.newline.putGlyph byte
        else console.putGlyph byte := by
  obtain ⟨hlow, -⟩ := h
  rw [TextConsole.putByte, if_neg, if_neg, if_neg]
  · rfl
  all_goals
    rintro rfl
    exact absurd hlow (by decide)

/-- Once `n` characters were typed from a place on: their cells are the next places, and so is the
cursor, which may be one past the end of a row. -/
structure Typing (start n lost : ℕ) (console : TextConsole Log) :
    Prop extends Inside console where
  shown : shown console.surface.ops = places console.surface.cols lost start n
  cursor : console.row * console.surface.cols + console.col + lost * console.surface.cols
    = start + n

/-- A character that has a cell on the cursor's row. -/
lemma Typing.putGlyph (h : Typing start n lost console)
    (hcol : console.col < console.surface.cols) (byte : UInt8) :
    Typing start (n + 1) lost (console.putGlyph byte) := by
  obtain ⟨⟨-, hrow⟩, hshown, hcursor⟩ := h
  refine ⟨⟨hcol, hrow⟩, ?_,
    by rw [← Nat.add_assoc, ← hcursor, TextConsole.putGlyph]; dsimp only [drawGlyph]; omega⟩
  rw [TextConsole.putGlyph]
  dsimp only [drawGlyph]
  rw [shown_append, shownAfter, hshown, places_succ, place_eq hcol hcursor]

/-- A row that is full is left for the next one, or taken up by a scroll. -/
lemma Typing.newline (h : Typing start n lost console)
    (hfull : console.surface.cols ≤ console.col) :
    ∃ lost', Typing start n lost' console.newline := by
  obtain ⟨⟨hcol, hrow⟩, hshown, hcursor⟩ := h
  change console.col ≤ console.surface.cols at hcol
  change console.row < console.surface.rows at hrow
  rw [TextConsole.newline]
  split
  · refine ⟨lost + 1, ⟨Nat.zero_le _, hrow⟩, ?_, ?_⟩
    · dsimp only [scrollUpOneRow]
      rw [shown_append, shownAfter, hshown, places, places, List.map_map]
      exact List.map_congr_left fun k _ => up_place
    · dsimp only [scrollUpOneRow]
      rw [← hcursor, Nat.succ_mul]
      omega
  · rename_i hbelow
    refine ⟨lost, ⟨Nat.zero_le _, by simpa using hbelow⟩, hshown, ?_⟩
    dsimp only
    rw [← hcursor, Nat.succ_mul]
    omega

lemma Typing.putByte (h : Typing start n lost console) (hcols : 0 < console.surface.cols)
    {byte : UInt8} (hbyte : Printable byte) :
    ∃ lost', Typing start (n + 1) lost' (console.putByte byte) := by
  rw [putByte_printable hbyte]
  split
  · rename_i hfull
    obtain ⟨lost', hnewline⟩ := h.newline hfull
    obtain ⟨hsame, -, hcol⟩ := newline_surface console
    exact ⟨lost', hnewline.putGlyph (by rwa [hcol, hsame]) byte⟩
  · rename_i hsome
    exact ⟨lost, h.putGlyph (not_le.mp hsome) byte⟩

lemma Typing.writeStr (h : Typing start n lost console) (hcols : 0 < console.surface.cols)
    {text : List UInt8} (htext : ∀ byte ∈ text, Printable byte) :
    ∃ lost', Typing start (n + text.length) lost' (console.writeStr text) := by
  induction text generalizing console n lost with
  | nil => exact ⟨lost, h⟩
  | cons byte rest ih =>
      obtain ⟨lost', hbyte⟩ := h.putByte hcols (htext byte List.mem_cons_self)
      have hsame := (putByte_surface console byte).1
      obtain ⟨lost'', hrest⟩ :=
        ih hbyte (by rwa [hsame]) fun b hb => htext b (List.mem_cons_of_mem _ hb)
      refine ⟨lost'', ?_⟩
      rw [List.length_cons, Nat.add_comm rest.length, ← Nat.add_assoc]
      exact hrest

/-! ### Erasing -/

/-- A backspace goes to the place before the cursor, across the end of a row. -/
lemma backspace_eq (hinside : Inside console) (hcols : 0 < console.surface.cols)
    (hcursor : console.row * console.surface.cols + console.col + lost * console.surface.cols
      = i + 1)
    (hlost : lost * console.surface.cols ≤ i) :
    ∃ col row, console.backspace = ⟨console.surface, col, row⟩ ∧ col < console.surface.cols
      ∧ row < console.surface.rows
        ∧ row * console.surface.cols + col + lost * console.surface.cols = i := by
  obtain ⟨hcol, hrow⟩ := hinside
  change console.col ≤ console.surface.cols at hcol
  change console.row < console.surface.rows at hrow
  rw [TextConsole.backspace]
  split
  · exact ⟨console.col - 1, console.row, rfl, by omega, hrow, by omega⟩
  · have hpos : 0 < console.row := by
      by_contra hzero
      obtain hzero : console.row = 0 := by omega
      rw [hzero, Nat.zero_mul] at hcursor
      omega
    obtain ⟨row, hrow'⟩ : ∃ row, console.row = row + 1 := ⟨console.row - 1, by omega⟩
    rw [if_pos hpos]
    refine ⟨console.surface.cols - 1, row, by rw [hrow']; rfl, by omega, by omega, ?_⟩
    rw [hrow', Nat.succ_mul] at hcursor
    omega

/-- Erasing one character draws a space in the place before the cursor, and goes there. -/
lemma erase_one (hinside : Inside console) (hcols : 0 < console.surface.cols)
    (hcursor : console.row * console.surface.cols + console.col + lost * console.surface.cols
      = i + 1)
    (hlost : lost * console.surface.cols ≤ i) :
    ∃ col row, console.writeStr [0x08, 0x20, 0x08]
        = ⟨{ console.surface with ops := console.surface.ops ++ [.draw col row 0x20] }, col, row⟩
      ∧ col < console.surface.cols ∧ row < console.surface.rows
      ∧ row * console.surface.cols + col + lost * console.surface.cols = i := by
  obtain ⟨col, row, hback, hcol, hrow, hplace⟩ := backspace_eq hinside hcols hcursor hlost
  refine ⟨col, row, ?_, hcol, hrow, hplace⟩
  have hbyte : ∀ console : TextConsole Log, console.putByte 0x08 = console.backspace :=
    fun _ => rfl
  change ((console.putByte 0x08).putByte 0x20).putByte 0x08 = _
  rw [hbyte, hbyte, hback, putByte_printable ⟨by decide, by decide⟩]
  dsimp only
  rw [if_neg (by omega), TextConsole.putGlyph, TextConsole.backspace, if_pos (Nat.succ_pos _)]
  rfl

lemma writeStr_append (bytes rest : List UInt8) :
    console.writeStr (bytes ++ rest) = (console.writeStr bytes).writeStr rest := List.foldl_append

/-- A surface on which the cells are blanked, the last of them first. -/
def blanked (surface : Log) (cells : List (ℕ × ℕ)) : Log :=
  { surface with ops := surface.ops ++ cells.reverse.map fun cell => .draw cell.1 cell.2 0x20 }

/-- The first of the places is that of the first character. -/
lemma places_head {cells : List (ℕ × ℕ)} (hplaces : places cols lost start n = cells.map some)
    {first : ℕ × ℕ} (hfirst : first ∈ cells.head?) : place cols lost start = some first := by
  cases n with
  | zero =>
      obtain rfl : cells = [] := List.map_eq_nil_iff.mp hplaces.symm
      cases hfirst
  | succ n =>
      have hhead := congrArg List.head? hplaces
      rw [places, List.range_succ_eq_map, List.map_cons, List.head?_cons, List.head?_map,
        Option.mem_def.mp hfirst] at hhead
      exact Option.some.inj hhead

/-- While the first character has not been scrolled off, no more rows are lost than lie before
it. -/
lemma lost_le (hfirst : (places cols lost start (n + 1)).head? ≠ some none) :
    lost * cols ≤ start := by
  by_contra! hlt
  rcases Nat.eq_zero_or_pos cols with rfl | hcols
  · exact absurd hlt (by rw [Nat.mul_zero]; exact Nat.not_lt_zero _)
  · refine hfirst ?_
    rw [places, List.range_succ_eq_map, List.map_cons, List.head?_cons, place, if_neg]
    rw [Nat.le_div_iff_mul_le hcols]
    exact not_le.mpr hlt

/-- Blanking one cell and then others is blanking them with that one as the last. -/
lemma blanked_draw (surface : Log) (cells : List (ℕ × ℕ)) (col row : ℕ) :
    blanked { surface with ops := surface.ops ++ [.draw col row 0x20] } cells
      = blanked surface (cells ++ [(col, row)]) := by
  rw [blanked, blanked, List.reverse_append, List.append_assoc]
  rfl

/-- Erasing `n` characters goes back over their places, the last of them first. -/
lemma erase_run (hinside : Inside console) (hcols : 0 < console.surface.cols)
    (hcursor : console.row * console.surface.cols + console.col + lost * console.surface.cols
      = start + n)
    (hlost : lost * console.surface.cols ≤ start) :
    ∃ (cells : List (ℕ × ℕ)) (col row : ℕ), places console.surface.cols lost start n
      = cells.map some
      ∧ console.writeStr (erasing n) = ⟨blanked console.surface cells, col, row⟩
      ∧ row * console.surface.cols + col + lost * console.surface.cols = start
      ∧ (0 < n → col < console.surface.cols) := by
  induction n generalizing console with
  | zero =>
      refine ⟨[], console.col, console.row, rfl, ?_, hcursor, fun h => absurd h (lt_irrefl _)⟩
      rw [blanked, List.reverse_nil, List.map_nil, List.append_nil]
      rfl
  | succ n ih =>
      -- the last character goes first, and the others from where the cursor is then
      obtain ⟨col, row, hone, hcol, hrow, hplace⟩ :=
        erase_one hinside hcols (hcursor.trans (Nat.add_assoc _ _ _).symm) (by omega)
      obtain ⟨cells, col', row', hcells, hrest, hback, hfirst⟩ :=
        @ih ⟨{ console.surface with ops := console.surface.ops ++ [.draw col row 0x20] }, col,
          row⟩
          ⟨hcol.le, hrow⟩ hcols hplace hlost
      refine ⟨cells ++ [(col, row)], col', row', ?_, ?_, hback, fun _ => ?_⟩
      · rw [places_succ, place_eq hcol hplace, List.map_append, ← hcells]
        rfl
      · have herasing : erasing (n + 1) = [0x08, 0x20, 0x08] ++ erasing n := rfl
        rw [herasing, writeStr_append, hone, hrest, blanked_draw]
      · rcases Nat.eq_zero_or_pos n with rfl | hpos
        · have hsame : col' = col := congrArg TextConsole.col hrest.symm
          rw [hsame]
          exact hcol
        · exact hfirst hpos

/-- **Erasing undoes typing.** From any place of the cursor on any grid, where `n` printable
characters were typed and the first of them has not been scrolled off: each of the characters
still has its cell, erasing `n` of them draws a space in each of these cells, the last one first,
and does nothing else; and the next character is drawn where the first of them was. -/
theorem erase_undoes_typing {cols rows col row : ℕ} (hcols : 0 < cols) (hcol : col ≤ cols)
    (hrow : row < rows) {text : List UInt8} (htext : ∀ byte ∈ text, Printable byte)
    (hfirst : (shown ((⟨⟨cols, rows, []⟩, col, row⟩ : TextConsole Log).writeStr
      text).surface.ops).head?
      ≠ some none) :
    let typed := (⟨⟨cols, rows, []⟩, col, row⟩ : TextConsole Log).writeStr text
    let erased := typed.writeStr (erasing text.length)
    ∃ cells : List (ℕ × ℕ), shown typed.surface.ops = cells.map some ∧ cells.length = text.length
      ∧ erased.surface.ops = typed.surface.ops ++ cells.reverse.map
        (fun cell => .draw cell.1 cell.2 0x20)
      ∧ ∀ first ∈ cells.head?, ∀ byte, Printable byte →
          (erased.putByte byte).surface.ops
          = erased.surface.ops ++ [.draw first.1 first.2 byte] := by
  intro typed erased
  have hstart : Typing (row * cols + col) 0 0 (⟨⟨cols, rows, []⟩, col, row⟩ : TextConsole Log) :=
    ⟨⟨hcol, hrow⟩, rfl, by dsimp only; omega⟩
  obtain ⟨lost, hinside, hshown, hcursor⟩ := hstart.writeStr hcols htext
  have hgrid : typed.surface.cols = cols := (writeStr_surface _ text).1
  rw [Nat.zero_add] at hshown hcursor
  rcases text with _ | ⟨byte, rest⟩
  · refine ⟨[], rfl, rfl, (List.append_nil _).symm, ?_⟩
    rintro first ⟨⟩
  -- the first character still has its cell, and so have those after it
  have hlost : lost * typed.surface.cols ≤ row * cols + col := by
    rw [hshown] at hfirst
    exact lost_le hfirst
  obtain ⟨cells, col', row', hcells, herase, hback, hhome⟩ :=
    erase_run hinside (by rwa [hgrid]) hcursor hlost
  have herased : erased = ⟨blanked typed.surface cells, col', row'⟩ := herase
  have hlength : cells.length = (byte :: rest).length := by
    rw [← List.length_map some, ← hcells, places, List.length_map, List.length_range]
  refine ⟨cells, hshown.trans hcells, hlength, by rw [herased]; rfl,
    fun first hmem byte' hbyte => ?_⟩
  -- the cursor is back at the first place
  have hcol' := hhome (by rw [List.length_cons]; exact Nat.succ_pos _)
  have hhere : first = (col', row') :=
    (Option.some.inj ((place_eq hcol' hback).symm.trans (places_head hcells hmem))).symm
  rw [putByte_printable hbyte, herased, hhere, if_neg]
  · rfl
  · exact not_le.mpr hcol'

/-- Two characters from the last cell of a grid on: the second scrolls the first one up. -/
theorem erase_undoes_typing_scrolled :
    ∃ cells : List (ℕ × ℕ),
      shown ((⟨⟨2, 2, []⟩, 1, 1⟩ : TextConsole Log).writeStr [0x61, 0x62]).surface.ops
        = cells.map some
        ∧ cells.length = 2 := by
  have htext : ∀ byte ∈ [0x61, 0x62], Printable byte := by
    intro byte hbyte
    fin_cases hbyte <;> exact ⟨by decide, by decide⟩
  obtain ⟨cells, hshown, hlength, -⟩ :=
    @erase_undoes_typing 2 2 1 1 (by decide) (by decide) (by decide)
      [0x61, 0x62] htext (by decide)
  exact ⟨cells, hshown, hlength⟩

end Typing

end Harlan.Fbcon
