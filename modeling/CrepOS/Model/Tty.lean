import CrepOS.Library.ByteMemory
import Mathlib.Data.List.Basic

/-!
# Terminals, `drivers/tty.cpp`

A terminal is its cursor, its size in cells and the characters of the cells, row after row. `char_grid`
has as many bytes as `kmm::calloc` was asked for, and an access behind them gives no result. The sizes
and indices are `ssize_t`: integers, which do not overflow since the cells are bytes of one object.

What is drawn is left out: nothing of it is read again.
-/

set_option autoImplicit false

namespace CrepOS.Model

open CrepOS.Library

/-- The members of `class tty` that the text depends on.
SRCLINE: kernel/drivers/tty.hpp:57-91 -/
structure Tty where
  cursorX : ℤ
  cursorY : ℤ
  tabSize : ℤ
  rows : ℤ
  cols : ℤ
  charGrid : List Byte
  deriving DecidableEq

/-- `default_tab_size`. -/
def defaultTabSize : ℤ := 4

/-- `tty::tty` for a screen of `height * width` pixels; `kmm::calloc` clears the cells.
SRCLINE: kernel/drivers/tty.cpp:218-232 -/
def newTty (height width fontHeight fontWidth : ℕ) : Tty where
  cursorX := 0
  cursorY := 0
  tabSize := defaultTabSize
  rows := (height / fontHeight : ℕ)
  cols := (width / fontWidth : ℕ)
  charGrid := List.replicate (height / fontHeight * (width / fontWidth)) 0

/-! ## Cells -/

/-- A read of `char_grid[i]`. -/
def gridRead (g : List Byte) (i : ℤ) : Option Byte := if 0 ≤ i then g[i.toNat]? else none

/-- A write to `char_grid[i]`. -/
def gridWrite (g : List Byte) (i : ℤ) (c : Byte) : Option (List Byte) :=
  if 0 ≤ i ∧ i < g.length then some (g.set i.toNat c) else none

/-- `tty::plot_char`.
SRCLINE: kernel/drivers/tty.cpp:58-61 -/
def Tty.plotChar (t : Tty) (x y : ℤ) (c : Byte) : Option Tty :=
  (gridWrite t.charGrid (x + y * t.cols) c).map fun g => { t with charGrid := g }

/-- `tty::update_cursor`.
SRCLINE: kernel/drivers/tty.cpp:63-70 -/
def Tty.updateCursor (t : Tty) (x y : ℤ) : Tty := { t with cursorX := x, cursorY := y }

/-- The first loop of `tty::scroll` from the cell `i` on, with `n` rounds left.
SRCLINE: kernel/drivers/tty.cpp:91-93 -/
def shiftCells (cols : ℤ) : ℕ → ℤ → List Byte → Option (List Byte)
  | 0, _, g => some g
  | n + 1, i, g =>
    match gridRead g i with
    | none => none
    | some c =>
      match gridWrite g (i - cols) c with
      | none => none
      | some g => shiftCells cols n (i + 1) g

/-- The second loop.
SRCLINE: kernel/drivers/tty.cpp:95-97 -/
def clearCells : ℕ → ℤ → List Byte → Option (List Byte)
  | 0, _, g => some g
  | n + 1, i, g =>
    match gridWrite g i 0 with
    | none => none
    | some g => clearCells n (i + 1) g

/-- `tty::scroll`.
SRCLINE: kernel/drivers/tty.cpp:88-106 -/
def Tty.scroll (t : Tty) : Option Tty :=
  match shiftCells t.cols (t.rows * t.cols - t.cols).toNat t.cols t.charGrid with
  | none => none
  | some g =>
    (clearCells (t.rows * t.cols - (t.rows * t.cols - t.cols)).toNat (t.rows * t.cols - t.cols) g).map
      fun g => { t with charGrid := g }

/-! ## Characters -/

/-- `'\b'`. -/
abbrev charBackspace : Byte := 8

/-- `'\t'`. -/
abbrev charTab : Byte := 9

/-- `'\n'`. -/
abbrev charNewline : Byte := 10

/-- `' '`. -/
abbrev charSpace : Byte := 32

/-- The default case of `tty::putchar`.
SRCLINE: kernel/drivers/tty.cpp:184-199 -/
def Tty.putPlain (t : Tty) (c : Byte) : Option Tty :=
  match t.plotChar t.cursorX t.cursorY c with
  | none => none
  | some t =>
    let t := { t with cursorX := t.cursorX + 1 }
    let t := if t.cursorX = t.cols then { t with cursorX := 0, cursorY := t.cursorY + 1 } else t
    if t.cursorY = t.rows then { t with cursorY := t.cursorY - 1 }.scroll else some t

/-- The case `'\n'`.
SRCLINE: kernel/drivers/tty.cpp:161-169 -/
def Tty.putNewline (t : Tty) : Option Tty :=
  if t.cursorY = t.rows - 1 then t.scroll.map fun t => t.updateCursor 0 (t.rows - 1)
  else some (t.updateCursor 0 (t.cursorY + 1))

/-- The case `'\b'`.
SRCLINE: kernel/drivers/tty.cpp:170-183 -/
def Tty.putBackspace (t : Tty) : Tty :=
  if t.cursorX ≠ 0 ∨ t.cursorY ≠ 0 then
    if t.cursorX ≠ 0 then { t with cursorX := t.cursorX - 1 }
    else { t with cursorY := t.cursorY - 1, cursorX := t.cols - 1 }
  else t

/-- The loop of the case `'\t'`; `putchar(' ')` takes the default case.
SRCLINE: kernel/drivers/tty.cpp:156-160 -/
def Tty.putSpaces : ℕ → Tty → Option Tty
  | 0, t => some t
  | n + 1, t =>
    match t.putPlain charSpace with
    | none => none
    | some t => Tty.putSpaces n t

/-- `tty::putchar`.
SRCLINE: kernel/drivers/tty.cpp:154-201 -/
def Tty.putchar (t : Tty) (c : Byte) : Option Tty :=
  if c = charTab then Tty.putSpaces t.tabSize.toNat t
  else if c = charNewline then t.putNewline
  else if c = charBackspace then some t.putBackspace
  else t.putPlain c

end CrepOS.Model
