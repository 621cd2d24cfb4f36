import CrepOS.Model.TtyPixels
import CrepOS.Model.Memutils

/-!
# The framebuffer and the double buffer, `drivers/tty.cpp`

The pixels of a `tty`, with their colours. The two buffers are two objects, so an index outside of the one does not lead
to the other; their elements are of 32 bits, and `memcpy64` copies two of them at a time. An access to `char_grid` that
is out of bounds does not change the cells.
-/

set_option autoImplicit false

namespace CrepOS.Model

open CrepOS.Library

/-- `framebuffer` and `double_buffer`. -/
inductive ScreenBuffer
  | front
  | back
  deriving DecidableEq

/-- The contents of both. -/
abbrev ScreenBuffers := ScreenBuffer → ℤ → BitVec 32

/-- A write to an element. -/
def ScreenBuffers.set (b : ScreenBuffers) (w : ScreenBuffer) (index : ℤ) (v : BitVec 32) : ScreenBuffers :=
  Function.update b w (Function.update (b w) index v)

/-- `memcpy64` to the start of a buffer, from the double buffer, for `n` times 64 bits from `i` on; `src` is an offset
in 64 bits.
SRCLINE: kernel/lib/memutils.cpp:42-46 -/
def memcpy64 (dest : ScreenBuffer) (src : ℕ) : ℕ → ℕ → ScreenBuffers → ScreenBuffers
  | 0, _, b => b
  | n + 1, i, b =>
    let low := b .back (2 * (src + i) : ℕ)
    let high := b .back (2 * (src + i) + 1 : ℕ)
    memcpy64 dest src n (i + 1) ((b.set dest (2 * i : ℕ) low).set dest (2 * i + 1 : ℕ) high)

/-- `memset32`, for `n` elements from `start` on.
SRCLINE: kernel/lib/memutils.cpp:13-16 -/
def memset32 (dest : ScreenBuffer) (start : ℕ) (data : BitVec 32) : ℕ → ScreenBuffers → ScreenBuffers
  | 0, b => b
  | n + 1, b => (memset32 dest start data n b).set dest (start + n : ℕ) data

/-- `screen::set_pixel`.
SRCLINE: kernel/drivers/tty.cpp:27-32 -/
def Screen.setPixel (sc : Screen) (x y : ℤ) (colour : BitVec 32) (b : ScreenBuffers) : ScreenBuffers :=
  (b.set .front (sc.index x y) colour).set .back (sc.index x y) colour

/-- `screen::flush`.
SRCLINE: kernel/drivers/tty.cpp:38-44 -/
def Screen.flush (sc : Screen) (colour : BitVec 32) (b : ScreenBuffers) : ScreenBuffers :=
  (List.range sc.height).foldl (fun b (i : ℕ) => (List.range sc.width).foldl (fun b (j : ℕ) => sc.setPixel j i colour b) b) b

/-- A terminal with its colours, its font and what is on the screen. -/
structure TtyPicture where
  screen : TtyScreen
  font : ℕ → Byte
  cursorForeground : BitVec 32
  textForeground : BitVec 32
  textBackground : BitVec 32
  buffers : ScreenBuffers

namespace TtyPicture

/-- The body that `clear_cursor` and `draw_cursor` have in common.
SRCLINE: kernel/drivers/tty.cpp:72-86 -/
def fillCell (s : TtyPicture) (colour : BitVec 32) : TtyPicture :=
  let h := s.screen.fontHeight
  let w := s.screen.fontWidth
  { s with
    buffers := (List.range h).foldl (fun b (i : ℕ) => (List.range w).foldl (fun b (j : ℕ) =>
      s.screen.sc.setPixel (j + s.screen.tty.cursorX * w) (i + s.screen.tty.cursorY * h) colour b) b) s.buffers }

/-- `tty::clear_cursor`.
SRCLINE: kernel/drivers/tty.cpp:72-78 -/
def clearCursor (s : TtyPicture) : TtyPicture := s.fillCell s.textBackground

/-- `tty::draw_cursor`.
SRCLINE: kernel/drivers/tty.cpp:80-86 -/
def drawCursor (s : TtyPicture) : TtyPicture := s.fillCell s.cursorForeground

/-- A step of the terminal itself. -/
def withTty (s : TtyPicture) (tty : Tty) : TtyPicture := { s with screen := { s.screen with tty := tty } }

/-- `tty::update_cursor`.
SRCLINE: kernel/drivers/tty.cpp:63-70 -/
def updateCursor (s : TtyPicture) (x y : ℤ) : TtyPicture :=
  let s := s.clearCursor
  (s.withTty (s.screen.tty.updateCursor x y)).drawCursor

/-- The loops of `tty::render_char`, with at most `fuel` tests of their conditions.
SRCLINE: kernel/drivers/tty.cpp:47-55 -/
def renderLoop (s : TtyPicture) (x y : ℤ) (offset : ℕ) :
    ℕ → BitVec 8 → BitVec 8 → BitVec 8 → ScreenBuffers → Option ScreenBuffers
  | 0, _, _, _, _ => none
  | fuel + 1, i, iCnt, j, b =>
    if i.toNat < s.screen.fontWidth ∧ 0 < iCnt then
      if j.toNat < s.screen.fontHeight then
        let colour := if (s.font (offset + j.toNat)).getLsbD i.toNat then s.textForeground else s.textBackground
        renderLoop s x y offset fuel i iCnt (j + 1) (s.screen.sc.setPixel (x + iCnt.toNat) (y + j.toNat) colour b)
      else renderLoop s x y offset fuel (i + 1) (iCnt - 1) 0 b
    else some b

/-- `tty::plot_char`, with `render_char`. The offset of the glyph is an `uint16_t`.
SRCLINE: kernel/drivers/tty.cpp:46-61 -/
def plotChar (s : TtyPicture) (fuel : ℕ) (x y : ℤ) (c : Byte) : Option TtyPicture :=
  let offset := ofSigned (((c.toNat : ℤ) - 0x20) * s.screen.fontHeight) % 2 ^ 16
  (s.renderLoop (x * s.screen.fontWidth) (y * s.screen.fontHeight) offset fuel 0 8 0 s.buffers).map fun b =>
    { s with buffers := b }.withTty ((s.screen.tty.plotChar x y c).getD s.screen.tty)

/-- `sc.pitch * font_height`, a `size_t`. -/
def lastRow (s : TtyPicture) : ℕ := wrap (s.screen.sc.pitch * s.screen.fontHeight)

/-- `sc.size - sc.pitch * font_height`, a `size_t`; `sc.size` is an `uint32_t`. -/
def aboveLast (s : TtyPicture) : ℕ := ofSigned ((s.screen.sc.size % 2 ^ 32 : ℕ) - s.lastRow)

/-- What `tty::scroll` copies and clears.
SRCLINE: kernel/drivers/tty.cpp:99-103 -/
def scrollBuffers (s : TtyPicture) (b : ScreenBuffers) : ScreenBuffers :=
  let b := memcpy64 .front (s.lastRow / 8) (s.aboveLast / 8) 0 b
  let b := memcpy64 .back (s.lastRow / 8) (s.aboveLast / 8) 0 b
  let b := memset32 .front (s.aboveLast / 4) s.textBackground (s.lastRow / 4) b
  memset32 .back (s.aboveLast / 4) s.textBackground (s.lastRow / 4) b

/-- `tty::scroll`.
SRCLINE: kernel/drivers/tty.cpp:88-106 -/
def scroll (s : TtyPicture) : TtyPicture :=
  let s := s.clearCursor
  let s := s.withTty (s.screen.tty.scroll.getD s.screen.tty)
  { s with buffers := s.scrollBuffers s.buffers }.drawCursor

/-- The default case of `tty::putchar`.
SRCLINE: kernel/drivers/tty.cpp:184-199 -/
def putPlain (s : TtyPicture) (fuel : ℕ) (c : Byte) : Option TtyPicture :=
  let s := s.clearCursor
  (s.plotChar fuel s.screen.tty.cursorX s.screen.tty.cursorY c).map fun s =>
    let t : Tty := { s.screen.tty with cursorX := s.screen.tty.cursorX + 1 }
    let t := if t.cursorX = t.cols then { t with cursorX := 0, cursorY := t.cursorY + 1 } else t
    let s := if t.cursorY = t.rows then (s.withTty { t with cursorY := t.cursorY - 1 }).scroll else s.withTty t
    s.drawCursor

/-- The case `'\n'`.
SRCLINE: kernel/drivers/tty.cpp:161-169 -/
def putNewline (s : TtyPicture) : TtyPicture :=
  if s.screen.tty.cursorY = s.screen.tty.rows - 1 then s.scroll.updateCursor 0 (s.screen.tty.rows - 1)
  else s.updateCursor 0 (s.screen.tty.cursorY + 1)

/-- The case `'\b'`.
SRCLINE: kernel/drivers/tty.cpp:170-183 -/
def putBackspace (s : TtyPicture) : TtyPicture :=
  if s.screen.tty.cursorX ≠ 0 ∨ s.screen.tty.cursorY ≠ 0 then
    let s := s.clearCursor
    (s.withTty s.screen.tty.putBackspace).drawCursor
  else s

/-- The loop of the case `'\t'`.
SRCLINE: kernel/drivers/tty.cpp:156-160 -/
def putSpaces (fuel : ℕ) : ℕ → TtyPicture → Option TtyPicture
  | 0, s => some s
  | n + 1, s => (s.putPlain fuel charSpace).bind (putSpaces fuel n)

/-- `tty::putchar`; `none` if the loops over a glyph take more than `fuel` tests.
SRCLINE: kernel/drivers/tty.cpp:154-201 -/
def putchar (s : TtyPicture) (fuel : ℕ) (c : Byte) : Option TtyPicture :=
  if c = charTab then putSpaces fuel s.screen.tty.tabSize.toNat s
  else if c = charNewline then some s.putNewline
  else if c = charBackspace then some s.putBackspace
  else s.putPlain fuel c

/-- `screen::flush` of the screen of the terminal. -/
def flush (s : TtyPicture) (colour : BitVec 32) : TtyPicture :=
  { s with buffers := s.screen.sc.flush colour s.buffers }

end TtyPicture

end CrepOS.Model
