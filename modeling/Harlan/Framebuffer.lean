import Mathlib.Tactic
import Harlan.Fbcon

/-! Drawing character cells into a linear framebuffer (`drivers/fbcon/src/lib.rs`,
`FramebufferSurface`).

The lines of a framebuffer may be longer than what is seen of them, and neither has to be a whole
number of cells. Every pixel that is written or copied is noted, so that it can be said where they
all are.

* `FramebufferInfo`, `FramebufferSurface`: what the firmware reports, and what is taken of it.
* `Access`, `Access.InBounds`: what is done to the memory, and that it is inside it.
* `apply_kept`: what a console asks for inside the grid stays in bounds.
* `console_inBounds`: so does all that is ever asked for.
-/

namespace Harlan.Fbcon

open Surface TextConsole

/-- The pixels of a glyph, each way. -/
def glyphPixels : ℕ := 8
/-- How many pixels of the screen stand for one of a glyph, each way. -/
def scale : ℕ := 2

/-- Side of a character cell. -/
def cellPixels : ℕ := glyphPixels * scale

/-- The colour of the glyphs. -/
def foreground : UInt32 := 0x00FFFFFF
/-- The colour around them. -/
def background : UInt32 := 0

/-- What the loader says of the screen. -/
structure FramebufferInfo where
  baseAddr : UInt64
  width : UInt32
  height : UInt32
  /-- Pixels to a line, of which `width` are seen. -/
  stride : UInt32
  sizeBytes : UInt64

/-- The rows of a glyph, a bit for each pixel. -/
abbrev Glyph := Fin 8 → UInt8

/-- What is done to the memory of a framebuffer. -/
inductive Access where
  /-- `draw_glyph` is asked for a cell. -/
  | glyph (col row : ℕ)
  | pixel (x y index : ℕ)
  | copy (src dst count : ℕ)

/-- A screen that is large enough for a glyph, with its pixels. -/
structure FramebufferSurface where
  width : ℕ
  height : ℕ
  stride : ℕ
  cols : ℕ
  rows : ℕ
  font : UInt8 → Glyph
  wide : width ≤ stride
  cols_eq : cols = width / cellPixels
  rows_eq : rows = height / cellPixels
  cols_pos : 0 < cols
  rows_pos : 0 < rows
  pixels : ℕ → UInt32
  /-- What was done so far. -/
  accesses : List Access

namespace FramebufferSurface

/-- A product of 64-bit words, if it fits. -/
def checkedMul (a b : ℕ) : Option ℕ := if a * b < 2 ^ 64 then some (a * b) else none

/-- Nothing of a description that is at odds with itself. -/
def new (info : FramebufferInfo) (font : UInt8 → Glyph) (pixels : ℕ → UInt32) :
    Option FramebufferSurface :=
  let width := info.width.toNat
  let height := info.height.toNat
  let stride := info.stride.toNat
  match (checkedMul stride height).bind (checkedMul · 4) with
  | none => none
  | some neededBytes =>
      if h : width = 0 ∨ height = 0 ∨ stride < width ∨ info.sizeBytes.toNat < neededBytes
          ∨ info.baseAddr.toNat % 4 ≠ 0 then none
      else if h' : width / cellPixels = 0 ∨ height / cellPixels = 0 then none
      else
        some ⟨width, height, stride, width / cellPixels, height / cellPixels, font,
        by omega, rfl, rfl, Nat.pos_of_ne_zero fun hzero => h' (.inl hzero),
        Nat.pos_of_ne_zero fun hzero => h' (.inr hzero), pixels, []⟩

/-- A glyph, or that of a question mark for what the table has none of. -/
def glyphFor (surface : FramebufferSurface) (byte : UInt8) : Glyph :=
  if byte < 128 then surface.font byte else surface.font 0x3F

/-- One access more. -/
def note (surface : FramebufferSurface) (access : Access) : FramebufferSurface :=
  { surface with accesses := surface.accesses ++ [access] }

/-- Sets a pixel. -/
def putPixel (surface : FramebufferSurface) (x y : ℕ) (color : UInt32) : FramebufferSurface :=
  { surface with
    pixels := Function.update surface.pixels (y * surface.stride + x) color
    accesses := surface.accesses ++ [.pixel x y (y * surface.stride + x)] }

/-- Some pixels, each with its colour, one after another. -/
def putPixels (surface : FramebufferSurface) (cells : List (ℕ × ℕ × UInt32)) :
    FramebufferSurface :=
  cells.foldl (fun surface (x, y, color) => surface.putPixel x y color) surface

/-- Fills whole rows of pixels. -/
def fillPixelRows (surface : FramebufferSurface) (first last : ℕ) (color : UInt32) :
    FramebufferSurface :=
  surface.putPixels ((List.range' first (last - first)).flatMap fun y =>
    (List.range surface.width).map fun x => (x, y, color))

/-- The pixels of a cell: each of the glyph's is two wide and two high, and bit 0 is the
leftmost. -/
def cellPixelsOf (glyph : Glyph) (col row : ℕ) : List (ℕ × ℕ × UInt32) :=
  (List.finRange 8).flatMap fun gy => (List.range glyphPixels).flatMap fun gx =>
    let color := if glyph gy &&& (1 <<< UInt8.ofNat gx) ≠ 0 then foreground else background
    (List.range scale).flatMap fun dy => (List.range scale).map fun dx =>
      (col * cellPixels + gx * scale + dx, row * cellPixels + gy * scale + dy, color)

/-- `ptr::copy` of pixels, which may overlap. -/
def copy (surface : FramebufferSurface) (src dst count : ℕ) : FramebufferSurface :=
  { surface with
    pixels := fun i => if dst ≤ i ∧ i < dst + count then surface.pixels (src + (i - dst))
      else surface.pixels i
    accesses := surface.accesses ++ [.copy src dst count] }

end FramebufferSurface

open FramebufferSurface

instance : Surface FramebufferSurface where
  cols surface := surface.cols
  rows surface := surface.rows
  drawGlyph surface col row byte :=
    let surface := surface.note (.glyph col row)
    if surface.cols ≤ col ∨ surface.rows ≤ row then surface
    else surface.putPixels (cellPixelsOf (surface.glyphFor byte) col row)
  scrollUpOneRow surface :=
    let textHeight := surface.rows * cellPixels
    (surface.copy (cellPixels * surface.stride) 0
      ((textHeight - cellPixels) * surface.stride)).fillPixelRows
      (textHeight - cellPixels) textHeight background
  clear surface := surface.fillPixelRows 0 surface.height background

/-! ### Staying in bounds -/

/-- On the grid, among the pixels that are seen, and inside the memory. -/
def Access.InBounds (surface : FramebufferSurface) : Access → Prop
  | .glyph col row => col < surface.cols ∧ row < surface.rows
  | .pixel x y index =>
      x < surface.width ∧ y < surface.height ∧ index < surface.stride * surface.height
  | .copy src dst count =>
      src + count ≤ surface.stride * surface.height
        ∧ dst + count ≤ surface.stride * surface.height

/-- The same framebuffer, after more was done to its memory, all of it in bounds. -/
structure Kept (surface surface' : FramebufferSurface) : Prop where
  width : surface'.width = surface.width
  height : surface'.height = surface.height
  stride : surface'.stride = surface.stride
  cols : surface'.cols = surface.cols
  rows : surface'.rows = surface.rows
  accesses : (∀ access ∈ surface.accesses, access.InBounds surface) →
    ∀ access ∈ surface'.accesses, access.InBounds surface'

section Kept

variable {surface surface' surface'' : FramebufferSurface}

lemma Kept.refl : Kept surface surface := ⟨rfl, rfl, rfl, rfl, rfl, fun h => h⟩

lemma Kept.trans (h : Kept surface surface') (h' : Kept surface' surface'') :
    Kept surface surface'' :=
  ⟨h'.width.trans h.width, h'.height.trans h.height, h'.stride.trans h.stride,
    h'.cols.trans h.cols, h'.rows.trans h.rows, fun hall => h'.accesses (h.accesses hall)⟩

/-- One more access. -/
lemma kept_of_access {access : Access} {pixels : ℕ → UInt32} (h : access.InBounds surface) :
    Kept surface { surface with pixels := pixels, accesses := surface.accesses ++ [access] } := by
  refine ⟨rfl, rfl, rfl, rfl, rfl, fun hall access' hmem => ?_⟩
  obtain hmem | hmem := List.mem_append.mp hmem
  · exact hall access' hmem
  · rw [List.mem_singleton.mp hmem]
    exact h

/-- A pixel that is seen is inside the memory. -/
lemma index_lt {x y : ℕ} (hx : x < surface.width) (hy : y < surface.height) :
    y * surface.stride + x < surface.stride * surface.height := by
  have hwide := surface.wide
  calc y * surface.stride + x
      < y * surface.stride + surface.stride := by omega
    _ = (y + 1) * surface.stride := (Nat.succ_mul _ _).symm
    _ ≤ surface.height * surface.stride := Nat.mul_le_mul_right _ hy
    _ = surface.stride * surface.height := Nat.mul_comm _ _

lemma putPixel_kept {x y : ℕ} (hx : x < surface.width) (hy : y < surface.height)
    (color : UInt32) :
    Kept surface (surface.putPixel x y color) := kept_of_access ⟨hx, hy, index_lt hx hy⟩

lemma putPixels_kept {cells : List (ℕ × ℕ × UInt32)}
    (h : ∀ cell ∈ cells, cell.1 < surface.width ∧ cell.2.1 < surface.height) :
    Kept surface (surface.putPixels cells) := by
  induction cells generalizing surface with
  | nil => exact .refl
  | cons cell rest ih =>
      obtain ⟨hx, hy⟩ := h cell List.mem_cons_self
      have hone := putPixel_kept hx hy cell.2.2
      refine hone.trans (ih fun cell' hmem => ?_)
      rw [hone.width, hone.height]
      exact h cell' (List.mem_cons_of_mem _ hmem)

lemma fillPixelRows_kept {first last : ℕ} (hlast : last ≤ surface.height) (color : UInt32) :
    Kept surface (surface.fillPixelRows first last color) := by
  refine putPixels_kept fun cell hmem => ?_
  obtain ⟨y, hy, hcell⟩ := List.mem_flatMap.mp hmem
  obtain ⟨x, hx, rfl⟩ := List.mem_map.mp hcell
  have hx := List.mem_range.mp hx
  have hy := List.mem_range'_1.mp hy
  exact ⟨hx, by dsimp only; omega⟩

/-- The cells of a grid are inside what is seen of the framebuffer. -/
lemma grid_le : surface.cols * cellPixels ≤ surface.width
      ∧ surface.rows * cellPixels ≤ surface.height := by
  rw [surface.cols_eq, surface.rows_eq]
  exact ⟨Nat.div_mul_le_self _ _, Nat.div_mul_le_self _ _⟩

/-- A pixel of a cell of the grid. -/
lemma cellPixelsOf_seen {glyph : Glyph} {col row : ℕ} (hcol : col < surface.cols)
    (hrow : row < surface.rows) :
    ∀ cell ∈ cellPixelsOf glyph col row, cell.1 < surface.width ∧ cell.2.1 < surface.height := by
  intro cell hmem
  obtain ⟨gy, -, hmem⟩ := List.mem_flatMap.mp hmem
  obtain ⟨gx, hgx, hmem⟩ := List.mem_flatMap.mp hmem
  obtain ⟨dy, hdy, hmem⟩ := List.mem_flatMap.mp hmem
  obtain ⟨dx, hdx, rfl⟩ := List.mem_map.mp hmem
  have hgx := List.mem_range.mp hgx
  have hdx := List.mem_range.mp hdx
  have hdy := List.mem_range.mp hdy
  obtain ⟨hwidth, hheight⟩ := @grid_le surface
  have hleft : (col + 1) * cellPixels ≤ surface.cols * cellPixels := Nat.mul_le_mul_right _ hcol
  have htop : (row + 1) * cellPixels ≤ surface.rows * cellPixels := Nat.mul_le_mul_right _ hrow
  rw [Nat.succ_mul] at hleft htop
  simp only [cellPixels, glyphPixels, scale] at *
  omega

lemma drawGlyph_kept {col row : ℕ} (hcol : col < surface.cols) (hrow : row < surface.rows)
    (byte : UInt8) :
    Kept surface (drawGlyph surface col row byte) := by
  have hnote : Kept surface (surface.note (.glyph col row)) := kept_of_access ⟨hcol, hrow⟩
  dsimp only [drawGlyph]
  rw [if_neg (by rw [hnote.cols, hnote.rows]; omega)]
  exact hnote.trans (putPixels_kept (cellPixelsOf_seen hcol hrow))

lemma scrollUpOneRow_kept : Kept surface (scrollUpOneRow surface) := by
  obtain ⟨-, hheight⟩ := @grid_le surface
  have hrow : 1 * cellPixels ≤ surface.rows * cellPixels :=
    Nat.mul_le_mul_right _ surface.rows_pos
  have hend : cellPixels * surface.stride + (surface.rows * cellPixels - cellPixels)
      * surface.stride
      ≤ surface.stride * surface.height := by
    rw [← Nat.add_mul, Nat.mul_comm surface.stride]
    exact Nat.mul_le_mul_right _ (by omega)
  have hcopy : Kept surface
      (surface.copy (cellPixels * surface.stride) 0
        ((surface.rows * cellPixels - cellPixels) * surface.stride)) :=
    kept_of_access ⟨hend, by omega⟩
  exact hcopy.trans (fillPixelRows_kept (by rw [hcopy.height]; exact hheight) background)

lemma clear_kept : Kept surface (Surface.clear surface) :=
  fillPixelRows_kept (le_refl _) background

/-- What is asked of it inside the grid keeps a framebuffer's accesses in bounds. -/
lemma apply_kept {op : Op} (h : op.Within surface.cols surface.rows) :
    Kept surface (op.apply surface) := by
  cases op with
  | draw col row byte => exact drawGlyph_kept h.1 h.2 byte
  | scroll => exact scrollUpOneRow_kept
  | clear => exact clear_kept

/-- A cell off the grid is not drawn. -/
lemma drawGlyph_outside {col row : ℕ} (h : surface.cols ≤ col ∨ surface.rows ≤ row)
    (byte : UInt8) :
    drawGlyph surface col row byte = surface.note (.glyph col row) := if_pos h

lemma apply_grid (op : Op) : (op.apply surface).cols = surface.cols ∧ (op.apply surface).rows
      = surface.rows := by
  by_cases h : op.Within surface.cols surface.rows
  · exact ⟨(apply_kept h).cols, (apply_kept h).rows⟩
  · cases op with
    | draw col row byte =>
        have hout : surface.cols ≤ col ∨ surface.rows ≤ row := by
          by_contra! hin
          exact h hin
        rw [Op.apply, drawGlyph_outside hout]
        exact ⟨rfl, rfl⟩
    | scroll | clear => exact absurd trivial h

end Kept

instance : SteadySurface FramebufferSurface where
  cols_apply _ op := (apply_grid op).1
  rows_apply _ op := (apply_grid op).2

/-- All that is done to a framebuffer by operations inside its grid. -/
lemma foldl_kept {surface : FramebufferSurface} {ops : List Op}
    (h : ∀ op ∈ ops, op.Within surface.cols surface.rows) :
    Kept surface (ops.foldl Op.apply surface) := by
  induction ops generalizing surface with
  | nil => exact .refl
  | cons op rest ih =>
      have hone := apply_kept (h op List.mem_cons_self)
      refine hone.trans (ih fun op' hmem => ?_)
      rw [hone.cols, hone.rows]
      exact h op' (List.mem_cons_of_mem _ hmem)

/-- What is accepted fits the memory that was reported. -/
lemma new_fits {info : FramebufferInfo} {font : UInt8 → Glyph} {pixels : ℕ → UInt32}
    {surface : FramebufferSurface} (h : FramebufferSurface.new info font pixels = some surface) :
    surface.stride * surface.height * 4 ≤ info.sizeBytes.toNat ∧ surface.accesses = [] := by
  simp only [FramebufferSurface.new] at h
  split at h
  · cases h
  · rename_i neededBytes hneeded
    split at h
    · cases h
    · rename_i hgood
      split at h
      · cases h
      · obtain rfl := Option.some.inj h
        obtain ⟨pixels, hpixels, hbytes⟩ := Option.bind_eq_some_iff.mp hneeded
        rw [checkedMul] at hpixels hbytes
        split at hpixels
        · split at hbytes
          · obtain rfl := Option.some.inj hpixels
            obtain rfl := Option.some.inj hbytes
            exact ⟨by dsimp only; omega, rfl⟩
          · cases hbytes
        · cases hpixels

/-- **The console never draws out of bounds.** Over every framebuffer that is accepted and
whatever is written to it or cleared: the cursor stays on the grid or one past the end of a row;
every cell drawn is on the grid; and every pixel written or copied, in glyphs, scrolling and
clearing, is inside the `stride * height` pixels, which are inside the bytes that were
reported. -/
theorem console_inBounds {info : FramebufferInfo} {font : UInt8 → Glyph} {pixels : ℕ → UInt32}
    {surface : FramebufferSurface} (h : FramebufferSurface.new info font pixels = some surface)
    (commands : List Command) :
    let console := (TextConsole.new surface).run commands
    console.col ≤ surface.cols ∧ console.row < surface.rows
      ∧ (∀ access ∈ console.surface.accesses, access.InBounds surface)
      ∧ surface.stride * surface.height * 4 ≤ info.sizeBytes.toNat := by
  intro console
  obtain ⟨hfits, hnone⟩ := new_fits h
  obtain ⟨ops, hwithin, hsurface, hcol, hrow⟩ :=
    @run_within _ _ surface surface.cols_pos surface.rows_pos commands
  have hkept : Kept surface console.surface := by
    rw [hsurface]
    exact foldl_kept hwithin
  have hall := hkept.accesses (by rw [hnone]; nofun)
  refine ⟨hcol, hrow, fun access hmem => ?_, hfits⟩
  have hbounds := hall access hmem
  cases access with
  | glyph col row => rwa [Access.InBounds, hkept.cols, hkept.rows] at hbounds
  | pixel x y index => rwa [Access.InBounds, hkept.width, hkept.height, hkept.stride] at hbounds
  | copy src dst count => rwa [Access.InBounds, hkept.height, hkept.stride] at hbounds

/-- A framebuffer of one cell, with lines longer than it and a row of pixels below it. -/
def smallInfo : FramebufferInfo := ⟨0x80000000, 16, 17, 20, 1360⟩

/-- A screen of one cell, with padding at the end of each row. -/
def smallSurface : FramebufferSurface :=
  ⟨16, 17, 20, 1, 1, fun _ _ => 0xFF, by decide, by decide, by decide, by decide, by decide,
    fun _ => 0, []⟩

theorem console_inBounds_small :
    FramebufferSurface.new smallInfo (fun _ _ => 0xFF) (fun _ => 0) = some smallSurface
      ∧ ((TextConsole.new smallSurface).run [.write [0x61, 0x62, 0x08, 0x0A], .clear]).col
        ≤ 1 := by
  have hnew : FramebufferSurface.new smallInfo (fun _ _ => 0xFF) (fun _ => 0)
      = some smallSurface := rfl
  exact ⟨hnew, (console_inBounds hnew _).1⟩

end Harlan.Fbcon
