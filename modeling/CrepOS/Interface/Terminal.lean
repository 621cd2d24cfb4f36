import CrepOS.Library.Run
import CrepOS.Model.Tty
import CrepOS.Model.TtyBuffers
import CrepOS.Model.TtyPixels

/-!
# A terminal as a list of rows

`Terminal` is what a user sees: rows of characters and a cursor. `TtyWellFormed` is what the constructor
of a `tty` establishes, and `ttyTerminal` reads its cells row by row.
-/

set_option autoImplicit false

namespace CrepOS.Interface

open CrepOS.Library CrepOS.Model

/-- The rows, the column and the row of the cursor, and the width of rows and tabs. -/
structure Terminal where
  lines : List (List Byte)
  x : ℕ
  y : ℕ
  cols : ℕ
  tabSize : ℕ
  deriving DecidableEq

namespace Terminal

/-- The cursor goes to the first column of the next row. If there is none, the top row is dropped and an
empty one is appended. -/
def lineFeed (s : Terminal) : Terminal :=
  if s.y + 1 = s.lines.length then
    { s with lines := s.lines.tail ++ [List.replicate s.cols 0], x := 0 }
  else { s with x := 0, y := s.y + 1 }

/-- A character is printed at the cursor; behind the last column the line wraps. -/
def print (c : Byte) (s : Terminal) : Terminal :=
  let s := { s with lines := s.lines.modify s.y fun line => line.set s.x c }
  if s.x + 1 = s.cols then s.lineFeed else { s with x := s.x + 1 }

/-- The cursor moves back by one cell. -/
def back (s : Terminal) : Terminal :=
  if 0 < s.x then { s with x := s.x - 1 }
  else if 0 < s.y then { s with x := s.cols - 1, y := s.y - 1 }
  else s

/-- A character is received. -/
def receive (s : Terminal) (c : Byte) : Terminal :=
  if c = charTab then (print charSpace)^[s.tabSize] s
  else if c = charNewline then s.lineFeed
  else if c = charBackspace then s.back
  else s.print c

end Terminal

/-- The cells are there, and the cursor is on one of them. -/
structure TtyWellFormed (t : Tty) : Prop where
  rows : 1 ≤ t.rows
  cols : 1 ≤ t.cols
  cells : (t.charGrid.length : ℤ) = t.rows * t.cols
  columnLow : 0 ≤ t.cursorX
  columnHigh : t.cursorX < t.cols
  rowLow : 0 ≤ t.cursorY
  rowHigh : t.cursorY < t.rows

/-- `n` rows of `w` cells. -/
def cellRows (w : ℕ) : ℕ → List Byte → List (List Byte)
  | 0, _ => []
  | n + 1, g => g.take w :: cellRows w n (g.drop w)

/-- What a `tty` shows. -/
def ttyTerminal (t : Tty) : Terminal where
  lines := cellRows t.cols.toNat t.rows.toNat t.charGrid
  x := t.cursorX.toNat
  y := t.cursorY.toNat
  cols := t.cols.toNat
  tabSize := t.tabSize.toNat

/-! ## Cells and the framebuffer

A glyph should be drawn in its cell, and nothing outside of the framebuffer. -/

/-- The pixel is in its cell, if it is one of a glyph. -/
def InCell (fontHeight fontWidth : ℕ) : Draw → Prop
  | .glyph cellX cellY x y =>
    (cellX * fontWidth ≤ x ∧ x < (cellX + 1) * fontWidth) ∧
      cellY * fontHeight ≤ y ∧ y < (cellY + 1) * fontHeight
  | _ => True

/-- A printable character. -/
structure PrintableChar where
  char : Byte
  printable : 0x20 ≤ char ∧ char < 0x7f

/-- **The glyphs stay in their cells**, and in the framebuffer, when the characters are printed on a new
terminal. -/
def GlyphsInside (sc : Screen) (fontHeight fontWidth : ℕ) (cs : List PrintableChar) : Prop :=
  ∀ fuel, ∀ d ∈ (newTtyScreen sc fontHeight fontWidth).putPlains fuel (cs.map PrintableChar.char),
    InCell fontHeight fontWidth d ∧ d.index sc < (sc.height * sc.pitch / 4 : ℕ)

/-! ## What the two buffers should show -/

/-- The calls. -/
inductive PictureCall
  | flush (colour : BitVec 32)
  | putchar (c : Byte)

/-- What a call does, if it returns. -/
def pictureStep (s : TtyPicture) : PictureCall → TtyPicture → Prop
  | .flush colour, s' => s' = s.flush colour
  | .putchar c, s' => ∃ fuel, s.putchar fuel c = some s'

/-- **The buffers agree**: each visible pixel has the same colour in both. -/
def BuffersAgree (s : TtyPicture) : Prop :=
  ∀ x < s.screen.sc.width, ∀ y < s.screen.sc.height,
    s.buffers .front (s.screen.sc.index x y) = s.buffers .back (s.screen.sc.index x y)

end CrepOS.Interface
