import CrepOS.Model.Tty

/-!
# What a terminal draws, `drivers/tty.cpp`

The accesses to the framebuffer, in order: pixels of the cursor, pixels of a glyph together with its cell, and
what `scroll` copies. The double buffer has the same accesses. The colours, and so the bits of the font, do not
matter here.

The counters of the loops over a glyph are `uint8_t`, so the inner loop does not end if the font is higher than
255 pixels. The loops have fuel; if it is used up, nothing comes after the glyph.
-/

set_option autoImplicit false

namespace CrepOS.Model

open CrepOS.Library

/-- The members of `class screen` that the accesses depend on.
SRCLINE: kernel/drivers/tty.hpp:21-42 -/
structure Screen where
  height : ℕ
  width : ℕ
  pitch : ℕ
  bpp : ℕ

/-- The size of the framebuffer in bytes. -/
def Screen.size (sc : Screen) : ℕ := sc.height * sc.pitch

/-- The index of a pixel.
SRCLINE: kernel/drivers/tty.cpp:28 -/
def Screen.index (sc : Screen) (x y : ℤ) : ℤ := x + (sc.pitch / (sc.bpp / 8) : ℕ) * y

/-- A write to the framebuffer: of a pixel of the cursor, of a pixel of a glyph in a cell, or by `scroll`. -/
inductive Draw
  | cursor (x y : ℤ)
  | glyph (cellX cellY x y : ℤ)
  | copy (index : ℤ)
  deriving DecidableEq

/-- The index that is written. -/
def Draw.index (sc : Screen) : Draw → ℤ
  | .cursor x y => sc.index x y
  | .glyph _ _ x y => sc.index x y
  | .copy index => index

/-- A terminal on a screen. -/
structure TtyScreen where
  tty : Tty
  sc : Screen
  fontHeight : ℕ
  fontWidth : ℕ

/-- The terminal that the constructor makes.
SRCLINE: kernel/drivers/tty.cpp:218-232 -/
def newTtyScreen (sc : Screen) (fontHeight fontWidth : ℕ) : TtyScreen :=
  ⟨newTty sc.height sc.width fontHeight fontWidth, sc, fontHeight, fontWidth⟩

namespace TtyScreen

/-- `tty::clear_cursor`, `tty::draw_cursor`.
SRCLINE: kernel/drivers/tty.cpp:72-86 -/
def cursorDraws (s : TtyScreen) : List Draw :=
  (List.range s.fontHeight).flatMap fun i => (List.range s.fontWidth).map fun j =>
    .cursor (j + s.tty.cursorX * s.fontWidth) (i + s.tty.cursorY * s.fontHeight)

/-- The loops of `tty::render_char`, and whether they have ended; `i`, `iCnt` and `j` are the counters.
SRCLINE: kernel/drivers/tty.cpp:48-55 -/
def renderLoop (s : TtyScreen) (cellX cellY : ℤ) : ℕ → BitVec 8 → BitVec 8 → BitVec 8 → List Draw × Bool
  | 0, _, _, _ => ([], false)
  | fuel + 1, i, iCnt, j =>
    if i.toNat < s.fontWidth ∧ 0 < iCnt then
      if j.toNat < s.fontHeight then
        let (rest, ended) := renderLoop s cellX cellY fuel i iCnt (j + 1)
        (.glyph cellX cellY (cellX * s.fontWidth + iCnt.toNat) (cellY * s.fontHeight + j.toNat) :: rest, ended)
      else renderLoop s cellX cellY fuel (i + 1) (iCnt - 1) 0
    else ([], true)

/-- `tty::render_char`, as `tty::plot_char` calls it.
SRCLINE: kernel/drivers/tty.cpp:46-59 -/
def renderChar (s : TtyScreen) (fuel : ℕ) (cellX cellY : ℤ) : List Draw × Bool :=
  s.renderLoop cellX cellY fuel 0 8 0

/-- What `tty::scroll` copies and clears, in pixels: `memcpy64` writes two of them at a time. The number of
bytes above the last row of cells is a `size_t`.
SRCLINE: kernel/drivers/tty.cpp:99-103 -/
def scrollDraws (s : TtyScreen) : List Draw :=
  let last := s.sc.pitch * s.fontHeight
  let above := (s.sc.size + (2 ^ 64 - last % 2 ^ 64)) % 2 ^ 64
  (List.range (above / 8 * 2)).map (fun k => Draw.copy k) ++
    (List.range (last / 4)).map fun k => Draw.copy (above / 4 + k : ℕ)

/-- The default case of `tty::putchar`: what is drawn, and the state after it. There is none if the loops do
not end or the cell is outside of `char_grid`.
SRCLINE: kernel/drivers/tty.cpp:184-199 -/
def putPlain (s : TtyScreen) (fuel : ℕ) (c : Byte) : List Draw × Option TtyScreen :=
  let (glyph, ended) := s.renderChar fuel s.tty.cursorX s.tty.cursorY
  let draws := s.cursorDraws ++ glyph
  if ended then
    match s.tty.plotChar s.tty.cursorX s.tty.cursorY c with
    | none => (draws, none)
    | some t =>
      let t := { t with cursorX := t.cursorX + 1 }
      let t := if t.cursorX = t.cols then { t with cursorX := 0, cursorY := t.cursorY + 1 } else t
      if t.cursorY = t.rows then
        let t := { t with cursorY := t.cursorY - 1 }
        let s := { s with tty := t }
        -- `scroll` clears and draws the cursor, and then it is drawn once more
        (draws ++ s.cursorDraws ++ s.scrollDraws ++ s.cursorDraws ++ s.cursorDraws,
          t.scroll.map fun t => { s with tty := t })
      else
        let s := { s with tty := t }
        (draws ++ s.cursorDraws, some s)
  else (draws, none)

/-- `tty::putchar` for a sequence of characters that take the default case. -/
def putPlains (s : TtyScreen) (fuel : ℕ) : List Byte → List Draw
  | [] => []
  | c :: rest =>
    match s.putPlain fuel c with
    | (draws, none) => draws
    | (draws, some s) => draws ++ putPlains s fuel rest

end TtyScreen

end CrepOS.Model
