import CrepOS.Interface.Terminal

/-!
# Glyphs and their cells

`render_char` counts its columns down from 8 to 1 and adds the counter to the column of the cell, so a glyph
covers the columns behind the first one of its cell and the first one of the next cell (`renderChar_mem`).
The first character that is printed leaves its cell already (`glyphs_inside_iff`). In the last column of
the bottom row the pixel may be behind the framebuffer (`glyph_in_buffer_iff`).
-/

set_option autoImplicit false

namespace CrepOS.Analysis

open CrepOS.Library CrepOS.Model CrepOS.Interface

/-! ## One character -/

/-- INTERNAL: a printable character takes the default case.
SRCLINE: kernel/drivers/tty.cpp:154-201 -/
theorem putchar_printable (t : Tty) (c : PrintableChar) : t.putchar c.char = t.putPlain c.char := by
  obtain ⟨c, hlow, hhigh⟩ := c
  have htab : c ≠ charTab := by bv_omega
  have hnewline : c ≠ charNewline := by bv_omega
  have hbackspace : c ≠ charBackspace := by bv_omega
  rw [Tty.putchar, if_neg htab, if_neg hnewline, if_neg hbackspace]

/-- **The state after a character** is the one of the terminal without a screen. -/
theorem putPlain_tty {s s' : TtyScreen} {fuel : ℕ} {c : PrintableChar}
    (h : (s.putPlain fuel c.char).2 = some s') : s.tty.putchar c.char = some s'.tty := by
  rw [putchar_printable, Tty.putPlain]
  unfold TtyScreen.putPlain at h
  generalize s.renderChar fuel s.tty.cursorX s.tty.cursorY = glyph at h
  obtain ⟨pixels, ended⟩ := glyph
  cases ended with
  | false => cases h
  | true =>
    cases hplot : s.tty.plotChar s.tty.cursorX s.tty.cursorY c.char with
    | none => simp [hplot] at h
    | some t =>
      simp only [hplot, if_true] at h ⊢
      by_cases hwrap : t.cursorX + 1 = t.cols
      all_goals
        simp only [hwrap, if_true, if_false] at h ⊢
        split at h
        · rename_i hrow
          obtain ⟨t', ht', rfl⟩ := Option.map_eq_some_iff.mp h
          rw [if_pos hrow]
          exact ht'
        · rename_i hrow
          obtain rfl := Option.some.inj h
          rw [if_neg hrow]

section Glyph

variable {s : TtyScreen} {cellX cellY : ℤ}

/-- INTERNAL: the pixels of a glyph, while the counters add up to 8. The induction is on the fuel.
SRCLINE: kernel/drivers/tty.cpp:48-55 -/
theorem renderLoop_mem (hwidth : s.fontWidth = 8) {fuel : ℕ} {i iCnt j : BitVec 8} {d : Draw}
    (hcount : i.toNat + iCnt.toNat = 8) (h : d ∈ (s.renderLoop cellX cellY fuel i iCnt j).1) :
    ∃ column row : ℕ, d = .glyph cellX cellY (cellX * 8 + column) (cellY * s.fontHeight + row) ∧
      1 ≤ column ∧ column ≤ 8 ∧ row < s.fontHeight := by
  induction fuel generalizing i iCnt j with
  | zero => cases h
  | succ fuel ih =>
    rw [TtyScreen.renderLoop] at h
    split at h
    · rename_i hcolumn
      have hpos : 0 < iCnt.toNat := hcolumn.2
      split at h
      · rename_i hrow
        cases List.mem_cons.mp h with
        | inl hfirst =>
          refine ⟨iCnt.toNat, j.toNat, ?_, hpos, by omega, hrow⟩
          rw [hfirst, hwidth]
          rfl
        | inr hrest => exact ih hcount hrest
      · apply ih _ h
        bv_omega
    · cases h

/-- **The pixels of a glyph** lie in the rows of its cell, and one column to the right of its columns.
SRCLINE: kernel/drivers/tty.cpp:46-59 -/
theorem renderChar_mem (hwidth : s.fontWidth = 8) {fuel : ℕ} {d : Draw}
    (h : d ∈ (s.renderChar fuel cellX cellY).1) :
    ∃ column row : ℕ, d = .glyph cellX cellY (cellX * 8 + column) (cellY * s.fontHeight + row) ∧
      1 ≤ column ∧ column ≤ 8 ∧ row < s.fontHeight :=
  renderLoop_mem hwidth rfl h

/-- INTERNAL: the column of the glyph that is drawn first. The induction is on the rows. -/
theorem renderLoop_column (hwidth : 0 < s.fontWidth) (k : ℕ) {j : ℕ} (hj : j + k < s.fontHeight)
    (hbyte : j + k < 256) :
    .glyph cellX cellY (cellX * s.fontWidth + 8) (cellY * s.fontHeight + (j + k : ℕ)) ∈
      (s.renderLoop cellX cellY (k + 1) 0 8 (BitVec.ofNat 8 j)).1 := by
  have hcolumn : (0 : BitVec 8).toNat < s.fontWidth ∧ (0 : BitVec 8) < 8 := ⟨hwidth, by decide⟩
  have hnat : (BitVec.ofNat 8 j).toNat = j := by
    rw [BitVec.toNat_ofNat]
    omega
  induction k generalizing j with
  | zero =>
    rw [TtyScreen.renderLoop, if_pos hcolumn, if_pos (by omega), hnat]
    exact List.mem_cons_self
  | succ k ih =>
    have hnext : BitVec.ofNat 8 j + 1 = BitVec.ofNat 8 (j + 1) := by bv_omega
    have hplus : j + (k + 1) = j + 1 + k := by omega
    rw [TtyScreen.renderLoop, if_pos hcolumn, if_pos (by omega), hnext, hplus]
    apply List.mem_cons_of_mem
    exact ih (by omega) (by omega) (by rw [BitVec.toNat_ofNat]; omega)

/-- **When a glyph stays in the framebuffer**: if its last pixel does, which is in the column behind its cell.
SRCLINE: kernel/drivers/tty.cpp:27-32, 46-59 -/
theorem glyph_in_buffer_iff (hbpp : s.sc.bpp = 32) (hwidth : s.fontWidth = 8) (hpos : 0 < s.fontHeight)
    (hheight : s.fontHeight < 256) (x y : ℕ) :
    (∀ fuel, ∀ d ∈ (s.renderChar fuel x y).1, d.index s.sc < (s.sc.height * s.sc.pitch / 4 : ℕ)) ↔
      8 * (x + 1) + s.sc.pitch / 4 * ((y + 1) * s.fontHeight - 1) < s.sc.height * s.sc.pitch / 4 := by
  have hindex : ∀ column row : ℤ, s.sc.index column row = column + (s.sc.pitch / 4 : ℕ) * row := by
    intro column row
    rw [Screen.index, hbpp]
  have hlast : ((y + 1) * s.fontHeight - 1 : ℕ) = y * s.fontHeight + (s.fontHeight - 1) := by
    rw [Nat.succ_mul]
    omega
  generalize s.sc.height * s.sc.pitch / 4 = size
  rw [hlast]
  constructor
  · intro hall
    have hmem := @renderLoop_column s x y (by omega) (s.fontHeight - 1) 0 (by omega) (by omega)
    have hlt := hall _ _ hmem
    rw [Draw.index, hindex, hwidth, Nat.zero_add] at hlt
    have hnat : x * 8 + 8 + s.sc.pitch / 4 * (y * s.fontHeight + (s.fontHeight - 1)) < size := by
      exact_mod_cast hlt
    omega
  · intro hlt fuel d hd
    obtain ⟨column, row, rfl, -, hcolumn, hrow⟩ := renderChar_mem hwidth hd
    have hle : s.sc.pitch / 4 * (y * s.fontHeight + row) ≤
        s.sc.pitch / 4 * (y * s.fontHeight + (s.fontHeight - 1)) := Nat.mul_le_mul_left _ (by omega)
    rw [Draw.index, hindex]
    have hnat : x * 8 + column + s.sc.pitch / 4 * (y * s.fontHeight + row) < size := by omega
    exact_mod_cast hnat

end Glyph

/-! ## Any number of characters -/

/-- INTERNAL: the first pixel of the first character. -/
theorem putPlains_first {sc : Screen} {fontHeight : ℕ} (hheight : 0 < fontHeight) (c : Byte) (cs : List Byte) :
    .glyph 0 0 8 0 ∈ (newTtyScreen sc fontHeight 8).putPlains 1 (c :: cs) := by
  have hwidth : (newTtyScreen sc fontHeight 8).fontWidth = 8 := rfl
  have hrows : (newTtyScreen sc fontHeight 8).fontHeight = fontHeight := rfl
  have hfirst : .glyph 0 0 8 0 ∈ ((newTtyScreen sc fontHeight 8).renderChar 1 0 0).1 := by
    have hmem := @renderLoop_column (newTtyScreen sc fontHeight 8) 0 0 (by omega) 0 0 hheight (by decide)
    simpa [hwidth, TtyScreen.renderChar] using hmem
  have hended : ((newTtyScreen sc fontHeight 8).renderChar 1 0 0).2 = false := by
    rw [TtyScreen.renderChar, TtyScreen.renderLoop, hwidth, hrows, if_pos (by decide), if_pos (by exact hheight)]
    rfl
  have hput : (newTtyScreen sc fontHeight 8).putPlain 1 c =
      ((newTtyScreen sc fontHeight 8).cursorDraws ++ ((newTtyScreen sc fontHeight 8).renderChar 1 0 0).1,
        none) := by
    unfold TtyScreen.putPlain
    simp only [show (newTtyScreen sc fontHeight 8).tty.cursorX = 0 from rfl,
      show (newTtyScreen sc fontHeight 8).tty.cursorY = 0 from rfl, hended]
    rfl
  rw [TtyScreen.putPlains, hput]
  exact List.mem_append_right _ hfirst

/-- **When the glyphs stay in their cells**: if no character is printed.
SRCLINE: kernel/drivers/tty.cpp:27-61, 154-201, 218-240 -/
theorem glyphs_inside_iff (sc : Screen) (fontHeight : ℕ) (cs : List PrintableChar) (hheight : 0 < fontHeight) :
    GlyphsInside sc fontHeight 8 cs ↔ cs = [] := by
  constructor
  · intro hinside
    cases cs with
    | nil => rfl
    | cons c cs =>
      have hmem := @putPlains_first sc _ hheight c.char (cs.map PrintableChar.char)
      obtain ⟨⟨⟨-, hcolumn⟩, -⟩, -⟩ := hinside 1 _ hmem
      omega
  · rintro rfl fuel d hd
    cases hd

/-- The character `A`. -/
def letterA : PrintableChar := ⟨0x41, by decide⟩

/-- Nothing, and one character, on a screen of the usual size. -/
theorem glyphs_inside_usual : GlyphsInside ⟨768, 1024, 4096, 32⟩ 16 8 [] ∧
    ¬ GlyphsInside ⟨768, 1024, 4096, 32⟩ 16 8 [letterA] :=
  ⟨(glyphs_inside_iff ⟨768, 1024, 4096, 32⟩ 16 [] (by decide)).mpr rfl,
    fun h => List.cons_ne_nil _ _ ((glyphs_inside_iff ⟨768, 1024, 4096, 32⟩ 16 [letterA] (by decide)).mp h)⟩

/-- A screen of a single cell: the glyph is drawn one column to the right of it, and its last pixel is behind
the framebuffer. -/
theorem glyph_leaves_screen :
    .glyph 0 0 8 15 ∈ (newTtyScreen ⟨16, 8, 32, 32⟩ 16 8).putPlains 16 [letterA.char] ∧
    (Draw.glyph 0 0 8 15).index ⟨16, 8, 32, 32⟩ = 128 ∧ 16 * 32 / 4 = 128 ∧
    ¬ GlyphsInside ⟨16, 8, 32, 32⟩ 16 8 [letterA] := by
  have hmem : .glyph 0 0 8 15 ∈ (newTtyScreen ⟨16, 8, 32, 32⟩ 16 8).putPlains 16 [letterA.char] := by
    decide
  refine ⟨hmem, by decide, by decide, fun hinside => ?_⟩
  have hlt := (hinside 16 _ hmem).2
  exact absurd hlt (by decide)

end CrepOS.Analysis
