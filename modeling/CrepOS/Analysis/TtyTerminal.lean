import CrepOS.Interface.Terminal
import Mathlib.Tactic.Ring

/-!
# A `tty` is a terminal

`Displays` relates a `tty` to the rows that its cells are, one row after another, and to the cursor. Every
character keeps it (`displays_putchar`): a print is a write to one row, and a scroll, which moves the cells
one by one, drops the first row and appends an empty one (`scroll_eq`). So from any well-formed `tty` on
every sequence of characters is shown as the terminal receives it, without an access behind the cells
(`tty_refines_terminal`).
-/

set_option autoImplicit false

namespace CrepOS.Analysis

open CrepOS.Library CrepOS.Model CrepOS.Interface

/-! ## Cells -/

section Cells

variable {g : List Byte} {i n w : ℕ} {c : Byte}

theorem gridRead_nat (g : List Byte) (i : ℕ) : gridRead g i = g[i]? := by
  unfold gridRead
  rw [if_pos (Int.natCast_nonneg i), Int.toNat_natCast]

theorem gridWrite_nat (h : i < g.length) (c : Byte) : gridWrite g i c = some (g.set i c) := by
  unfold gridWrite
  rw [if_pos ⟨Int.natCast_nonneg i, by omega⟩, Int.toNat_natCast]

/-- INTERNAL: the first loop moves each cell that it has come to.
SRCLINE: kernel/drivers/tty.cpp:91-93 -/
theorem shiftCells_spec (hw : 1 ≤ w) (hi : w ≤ i) (hn : i + n ≤ g.length) :
    ∃ g', shiftCells w n i g = some g' ∧ g'.length = g.length ∧
      ∀ k, g'[k]? = if i - w ≤ k ∧ k < i - w + n then g[k + w]? else g[k]? := by
  induction n generalizing i g with
  | zero =>
    refine ⟨g, rfl, rfl, ?_⟩
    intro k
    rw [if_neg (by omega)]
  | succ n ih =>
    have hread : gridRead g i = some g[i] := by
      rw [gridRead_nat, List.getElem?_eq_getElem (by omega)]
    have hwrite : gridWrite g ((i : ℤ) - w) g[i] = some (g.set (i - w) g[i]) := by
      rw [← Int.natCast_sub hi]
      exact gridWrite_nat (by omega) _
    obtain ⟨g', hshift, hlen, hcells⟩ := ih (g := g.set (i - w) g[i]) (i := i + 1) (by omega)
      (by rw [List.length_set]; omega)
    rw [List.length_set] at hlen
    refine ⟨g', ?_, hlen, ?_⟩
    · rw [shiftCells, hread]
      simp only [hwrite]
      exact hshift
    · intro k
      rw [hcells k]
      by_cases hk : k = i - w
      · -- the cell that this round writes
        subst hk
        rw [if_neg (by omega), if_pos (by omega), List.getElem?_set_self (by omega),
          show i - w + w = i by omega, List.getElem?_eq_getElem (by omega)]
      · by_cases hin : i + 1 - w ≤ k ∧ k < i + 1 - w + n
        · rw [if_pos hin, if_pos (by omega), List.getElem?_set_ne (by omega)]
        · rw [if_neg hin, if_neg (by omega), List.getElem?_set_ne (by omega)]

/-- INTERNAL: the second loop clears the cells.
SRCLINE: kernel/drivers/tty.cpp:95-97 -/
theorem clearCells_spec (hn : i + n ≤ g.length) :
    ∃ g', clearCells n i g = some g' ∧ g'.length = g.length ∧
      ∀ k, g'[k]? = if i ≤ k ∧ k < i + n then some 0 else g[k]? := by
  induction n generalizing i g with
  | zero =>
    refine ⟨g, rfl, rfl, ?_⟩
    intro k
    rw [if_neg (by omega)]
  | succ n ih =>
    obtain ⟨g', hclear, hlen, hcells⟩ := ih (g := g.set i 0) (i := i + 1)
      (by rw [List.length_set]; omega)
    rw [List.length_set] at hlen
    refine ⟨g', ?_, hlen, ?_⟩
    · rw [clearCells, gridWrite_nat (by omega)]
      exact hclear
    · intro k
      rw [hcells k]
      by_cases hk : k = i
      · subst hk
        rw [if_neg (by omega), if_pos (by omega), List.getElem?_set_self (by omega)]
      · rw [List.getElem?_set_ne (by omega)]
        by_cases hin : i + 1 ≤ k ∧ k < i + 1 + n
        · rw [if_pos hin, if_pos (by omega)]
        · rw [if_neg hin, if_neg (by omega)]

/-- INTERNAL: the cells after a scroll. -/
theorem scroll_cells {t : Tty} {r w : ℕ} (hr : 1 ≤ r) (hw : 1 ≤ w) (hrows : t.rows = r)
    (hcols : t.cols = w) (hcells : t.charGrid.length = r * w) :
    t.scroll = some { t with charGrid := t.charGrid.drop w ++ List.replicate w 0 } := by
  obtain ⟨d, hd⟩ : ∃ d, r * w = d + w := by
    refine ⟨(r - 1) * w, ?_⟩
    rw [Nat.sub_mul, Nat.one_mul, Nat.sub_add_cancel (Nat.le_mul_of_pos_left w hr)]
  have hprod : t.rows * t.cols = (d : ℤ) + w := by
    rw [hrows, hcols]
    exact_mod_cast hd
  obtain ⟨g₁, hshift, hlen₁, hcells₁⟩ :=
    shiftCells_spec (g := t.charGrid) (n := d) hw (Nat.le_refl w) (by omega)
  obtain ⟨g₂, hclear, hlen₂, hcells₂⟩ := clearCells_spec (g := g₁) (i := d) (n := w) (by omega)
  have hfinal : g₂ = t.charGrid.drop w ++ List.replicate w 0 := by
    apply List.ext_getElem?
    intro k
    rw [hcells₂ k, hcells₁ k, Nat.sub_self, Nat.zero_add]
    by_cases hlow : k < d
    · rw [if_neg (by omega), if_pos (by omega),
        List.getElem?_append_left (by rw [List.length_drop]; omega), List.getElem?_drop,
        Nat.add_comm]
    · by_cases hhigh : k < d + w
      · rw [if_pos (by omega), List.getElem?_append_right (by rw [List.length_drop]; omega),
          List.getElem?_replicate, if_pos (by rw [List.length_drop]; omega)]
      · rw [if_neg (by omega), if_neg (by omega), List.getElem?_eq_none (by omega),
          List.getElem?_eq_none]
        rw [List.length_append, List.length_drop, List.length_replicate]
        omega
  unfold Tty.scroll
  rw [hprod, hcols, show ((d : ℤ) + w - w).toNat = d by omega,
    show ((d : ℤ) + w - (d + w - w)).toNat = w by omega, show (d : ℤ) + w - w = d by omega, hshift]
  simp only [hclear, hfinal, Option.map_some]

end Cells

/-! ## Rows -/

section Rows

variable {lines : List (List Byte)} {w : ℕ}

theorem length_flatten (hwidth : ∀ line ∈ lines, line.length = w) :
    lines.flatten.length = lines.length * w := by
  induction lines with
  | nil => simp
  | cons line lines ih =>
    rw [List.flatten_cons, List.length_append, hwidth line List.mem_cons_self,
      ih fun l hl => hwidth l (List.mem_cons_of_mem line hl), List.length_cons, Nat.add_mul]
    omega

/-- INTERNAL: a write to one row is a write to one cell. -/
theorem flatten_modify (hwidth : ∀ line ∈ lines, line.length = w) {x y : ℕ} (hx : x < w)
    (hy : y < lines.length) (c : Byte) :
    (lines.modify y fun line => line.set x c).flatten = lines.flatten.set (x + y * w) c := by
  induction lines generalizing y with
  | nil => simp at hy
  | cons line lines ih =>
    have hline := hwidth line List.mem_cons_self
    cases y with
    | zero =>
      rw [List.modify_zero_cons, List.flatten_cons, List.flatten_cons, Nat.zero_mul, Nat.add_zero,
        List.set_append_left _ _ (by omega)]
    | succ y =>
      have hrest := ih (fun l hl => hwidth l (List.mem_cons_of_mem line hl))
        (y := y) (by simpa using hy)
      rw [List.modify_succ_cons, List.flatten_cons, List.flatten_cons, hrest,
        List.set_append_right _ _ (by rw [hline, Nat.add_mul]; omega), hline,
        show x + (y + 1) * w - w = x + y * w by rw [Nat.add_mul]; omega]

theorem width_modify (hwidth : ∀ line ∈ lines, line.length = w) (x y : ℕ) (c : Byte) :
    ∀ line ∈ lines.modify y fun line => line.set x c, line.length = w := by
  intro line hline
  obtain ⟨k, hk⟩ := List.getElem?_of_mem hline
  rw [List.getElem?_modify] at hk
  obtain ⟨old, hold, rfl⟩ := Option.map_eq_some_iff.mp hk
  have hlen := hwidth old (List.mem_of_getElem? hold)
  split
  · rw [List.length_set]
    exact hlen
  · exact hlen

theorem cellRows_flatten (hwidth : ∀ line ∈ lines, line.length = w) :
    cellRows w lines.length lines.flatten = lines := by
  induction lines with
  | nil => rfl
  | cons line lines ih =>
    have hline := hwidth line List.mem_cons_self
    rw [List.length_cons, cellRows, List.flatten_cons, ← hline, List.take_left, List.drop_left, hline,
      ih fun l hl => hwidth l (List.mem_cons_of_mem line hl)]

theorem cellRows_spec {n : ℕ} {g : List Byte} (h : g.length = n * w) :
    (cellRows w n g).flatten = g ∧ (cellRows w n g).length = n ∧
      ∀ line ∈ cellRows w n g, line.length = w := by
  induction n generalizing g with
  | zero =>
    have hnil : g = [] := List.length_eq_zero_iff.mp (by rw [h, Nat.zero_mul])
    rw [hnil]
    exact ⟨rfl, rfl, fun _ hin => absurd hin List.not_mem_nil⟩
  | succ n ih =>
    rw [Nat.add_mul, Nat.one_mul] at h
    obtain ⟨hflat, hlen, hwidth⟩ := ih (g := g.drop w) (by rw [List.length_drop]; omega)
    refine ⟨?_, by rw [cellRows, List.length_cons, hlen], ?_⟩
    · rw [cellRows, List.flatten_cons, hflat, List.take_append_drop]
    · intro line hline
      rcases List.mem_cons.mp hline with rfl | hin
      · rw [List.length_take]
        omega
      · exact hwidth line hin

end Rows

/-! ## The simulation -/

/-- The `tty` shows the terminal. -/
structure Displays (t : Tty) (s : Terminal) : Prop where
  cells : t.charGrid = s.lines.flatten
  width : ∀ line ∈ s.lines, line.length = s.cols
  rows : t.rows = s.lines.length
  cols : t.cols = s.cols
  column : t.cursorX = s.x
  row : t.cursorY = s.y
  tab : t.tabSize.toNat = s.tabSize
  columnHigh : s.x < s.cols
  rowHigh : s.y < s.lines.length

section Simulation

variable {t : Tty} {s : Terminal}

/-- A well-formed `tty` shows what its cells are. -/
theorem displays_of_wellFormed (h : TtyWellFormed t) : Displays t (ttyTerminal t) := by
  have hr := h.rows
  have hc := h.cols
  obtain ⟨r, hrows⟩ := Int.eq_ofNat_of_zero_le (show 0 ≤ t.rows by omega)
  obtain ⟨w, hcols⟩ := Int.eq_ofNat_of_zero_le (show 0 ≤ t.cols by omega)
  have hcells : t.charGrid.length = r * w := by
    have hlen := h.cells
    rw [hrows, hcols] at hlen
    exact_mod_cast hlen
  have hx := h.columnHigh
  have hy := h.rowHigh
  have hxlow := h.columnLow
  have hylow := h.rowLow
  obtain ⟨hflat, hlen, hwidth⟩ := cellRows_spec hcells
  unfold ttyTerminal
  rw [hrows, hcols, Int.toNat_natCast, Int.toNat_natCast]
  refine ⟨hflat.symm, hwidth, ?_, hcols, by simp only; omega, by simp only; omega, rfl,
    by simp only; omega, ?_⟩
  · simp only [hlen]
    exact hrows
  · simp only [hlen]
    omega

/-- Conversely, what a `tty` shows is what its cells are. -/
theorem Displays.wellFormed (h : Displays t s) : TtyWellFormed t ∧ ttyTerminal t = s := by
  have hx := h.columnHigh
  have hy := h.rowHigh
  constructor
  · refine ⟨by rw [h.rows]; omega, by rw [h.cols]; omega, ?_, by rw [h.column]; omega,
      by rw [h.column, h.cols]; omega, by rw [h.row]; omega, by rw [h.row, h.rows]; omega⟩
    rw [h.cells, length_flatten h.width, h.rows, h.cols]
    push_cast
    rfl
  · unfold ttyTerminal
    rw [h.rows, h.cols, h.column, h.row, h.tab, h.cells]
    simp only [Int.toNat_natCast, cellRows_flatten h.width]

/-- INTERNAL: a scroll drops the first row and appends an empty one. -/
theorem Displays.scroll_eq (h : Displays t s) :
    t.scroll = some { t with
      charGrid := (s.lines.tail ++ [List.replicate s.cols (0 : Byte)]).flatten } := by
  have hx := h.columnHigh
  have hy := h.rowHigh
  rw [scroll_cells (r := s.lines.length) (w := s.cols) (by omega) (by omega) h.rows h.cols
    (by rw [h.cells, length_flatten h.width])]
  have hdrop : t.charGrid.drop s.cols = s.lines.tail.flatten := by
    rw [h.cells]
    cases hl : s.lines with
    | nil =>
      rw [hl] at hy
      simp at hy
    | cons line lines =>
      have hline := h.width line (by rw [hl]; exact List.mem_cons_self)
      rw [List.flatten_cons, ← hline, List.drop_left, List.tail_cons]
  rw [hdrop, List.flatten_append, List.flatten_singleton]

/-- INTERNAL: the rows after a scroll. -/
theorem Displays.scrolled_rows (h : Displays t s) :
    (s.lines.tail ++ [List.replicate s.cols (0 : Byte)]).length = s.lines.length ∧
      ∀ line ∈ s.lines.tail ++ [List.replicate s.cols (0 : Byte)], line.length = s.cols := by
  have hy := h.rowHigh
  constructor
  · rw [List.length_append, List.length_tail, List.length_singleton]
    omega
  · intro line hline
    rcases List.mem_append.mp hline with hin | hin
    · exact h.width line (List.mem_of_mem_tail hin)
    · rw [List.mem_singleton.mp hin, List.length_replicate]

/-- INTERNAL: the cursor moves on by one cell.
SRCLINE: kernel/drivers/tty.cpp:189-197 -/
theorem displays_advance (h : Displays t s) :
    ∃ t', (if (if t.cursorX + 1 = t.cols then { t with cursorX := 0, cursorY := t.cursorY + 1 }
          else { t with cursorX := t.cursorX + 1 }).cursorY = t.rows then
        { t with cursorX := 0 }.scroll
      else some (if t.cursorX + 1 = t.cols then { t with cursorX := 0, cursorY := t.cursorY + 1 }
          else { t with cursorX := t.cursorX + 1 })) = some t' ∧
      Displays t' (if s.x + 1 = s.cols then s.lineFeed else { s with x := s.x + 1 }) := by
  have hx := h.columnHigh
  have hy := h.rowHigh
  have hcolumn := h.column
  have hrow := h.row
  have hrows := h.rows
  have hcols := h.cols
  by_cases hwrap : s.x + 1 = s.cols
  · rw [if_pos (show t.cursorX + 1 = t.cols by omega), if_pos hwrap]
    unfold Terminal.lineFeed
    by_cases hlast : s.y + 1 = s.lines.length
    · obtain ⟨hlen, hwidth⟩ := h.scrolled_rows
      have hstart : Displays { t with cursorX := 0 } { s with x := 0 } :=
        ⟨h.cells, h.width, h.rows, h.cols, rfl, h.row, h.tab, by simp only; omega, h.rowHigh⟩
      rw [if_pos (by simp only; omega), if_pos hlast, hstart.scroll_eq]
      refine ⟨_, rfl, rfl, hwidth, ?_, h.cols, rfl, h.row, h.tab, by simp only; omega, ?_⟩
      · simp only [hlen]
        exact h.rows
      · simp only [hlen]
        exact h.rowHigh
    · rw [if_neg (by simp only; omega), if_neg hlast]
      exact ⟨_, rfl, h.cells, h.width, h.rows, h.cols, rfl, by simp only; omega, h.tab,
        by simp only; omega, by simp only; omega⟩
  · rw [if_neg (show ¬ t.cursorX + 1 = t.cols by omega), if_neg hwrap, if_neg (by simp only; omega)]
    exact ⟨_, rfl, h.cells, h.width, h.rows, h.cols, by simp only; omega, h.row, h.tab,
      by simp only; omega, h.rowHigh⟩

/-- The default case prints.
SRCLINE: kernel/drivers/tty.cpp:184-199 -/
theorem displays_putPlain (h : Displays t s) (c : Byte) :
    ∃ t', t.putPlain c = some t' ∧ Displays t' (s.print c) := by
  have hx := h.columnHigh
  have hy := h.rowHigh
  have hlen := length_flatten h.width
  have hin : s.x + s.y * s.cols < s.lines.length * s.cols := by
    have hmul := Nat.mul_le_mul_right s.cols (show s.y + 1 ≤ s.lines.length from hy)
    rw [Nat.add_mul, Nat.one_mul] at hmul
    omega
  -- the `tty` after the cell has been written, which shows the row with the character
  have hplot : t.plotChar t.cursorX t.cursorY c = some { t with
      charGrid := (s.lines.modify s.y fun line => line.set s.x c).flatten } := by
    unfold Tty.plotChar
    rw [h.column, h.row, h.cols, h.cells, flatten_modify h.width hx hy,
      show (s.x : ℤ) + s.y * s.cols = ((s.x + s.y * s.cols : ℕ) : ℤ) by push_cast; rfl,
      gridWrite_nat (by omega)]
    rfl
  have hmodify : Displays { t with
      charGrid := (s.lines.modify s.y fun line => line.set s.x c).flatten }
      { s with lines := s.lines.modify s.y fun line => line.set s.x c } :=
    ⟨rfl, width_modify h.width s.x s.y c, by simp only [List.length_modify]; exact h.rows, h.cols,
      h.column, h.row, h.tab, hx, by simp only [List.length_modify]; exact hy⟩
  obtain ⟨t', hadvance, hdisplays⟩ := displays_advance hmodify
  refine ⟨t', ?_, hdisplays⟩
  rw [← hadvance]
  unfold Tty.putPlain
  rw [hplot]
  simp only
  by_cases hwrap : t.cursorX + 1 = t.cols
  · simp only [hwrap, if_true, Int.add_sub_cancel]
  · simp only [hwrap, if_false]
    split
    · -- the cursor is on a row
      have hrow := h.row
      have hrows := h.rows
      omega
    · rfl

/-- The case of the newline.
SRCLINE: kernel/drivers/tty.cpp:161-169 -/
theorem displays_putNewline (h : Displays t s) :
    ∃ t', t.putNewline = some t' ∧ Displays t' s.lineFeed := by
  have hx := h.columnHigh
  have hy := h.rowHigh
  have hrow := h.row
  have hrows := h.rows
  unfold Tty.putNewline Terminal.lineFeed Tty.updateCursor
  by_cases hlast : s.y + 1 = s.lines.length
  · obtain ⟨hlen, hwidth⟩ := h.scrolled_rows
    rw [if_pos (by omega), if_pos hlast, h.scroll_eq, Option.map_some]
    refine ⟨_, rfl, rfl, hwidth, ?_, h.cols, rfl, by simp only; omega, h.tab,
      by simp only; omega, ?_⟩
    · simp only [hlen]
      exact h.rows
    · simp only [hlen]
      exact h.rowHigh
  · rw [if_neg (by omega), if_neg hlast]
    exact ⟨_, rfl, h.cells, h.width, h.rows, h.cols, rfl, by simp only; omega, h.tab,
      by simp only; omega, by simp only; omega⟩

/-- The case of the backspace.
SRCLINE: kernel/drivers/tty.cpp:170-183 -/
theorem displays_putBackspace (h : Displays t s) : Displays t.putBackspace s.back := by
  have hx := h.columnHigh
  have hcolumn := h.column
  have hrow := h.row
  have hcols := h.cols
  have hy := h.rowHigh
  unfold Tty.putBackspace Terminal.back
  by_cases hfirst : 0 < s.x
  · rw [if_pos (by omega), if_pos (by omega), if_pos hfirst]
    exact ⟨h.cells, h.width, h.rows, h.cols, by simp only; omega, h.row, h.tab,
      by simp only; omega, hy⟩
  · rw [if_neg hfirst]
    by_cases htop : 0 < s.y
    · rw [if_pos (by omega), if_neg (by omega), if_pos htop]
      exact ⟨h.cells, h.width, h.rows, h.cols, by simp only; omega, by simp only; omega, h.tab,
        by simp only; omega, by simp only; omega⟩
    · rw [if_neg (by omega), if_neg htop]
      exact h

/-- The loop of the tab prints spaces.
SRCLINE: kernel/drivers/tty.cpp:156-160 -/
theorem displays_putSpaces (h : Displays t s) (n : ℕ) :
    ∃ t', Tty.putSpaces n t = some t' ∧ Displays t' ((Terminal.print charSpace)^[n] s) := by
  induction n generalizing t s with
  | zero => exact ⟨t, rfl, h⟩
  | succ n ih =>
    obtain ⟨t₁, hput, hdisplays⟩ := displays_putPlain h charSpace
    obtain ⟨t', hspaces, hdisplays'⟩ := ih hdisplays
    refine ⟨t', ?_, hdisplays'⟩
    rw [Tty.putSpaces, hput]
    exact hspaces

/-- **One character.** A `tty` that shows a terminal receives every character as the terminal does.
SRCLINE: kernel/drivers/tty.cpp:154-201 -/
theorem displays_putchar (h : Displays t s) (c : Byte) :
    ∃ t', t.putchar c = some t' ∧ Displays t' (s.receive c) := by
  unfold Tty.putchar Terminal.receive
  rw [← h.tab]
  split
  · exact displays_putSpaces h t.tabSize.toNat
  · split
    · exact displays_putNewline h
    · split
      · exact ⟨_, rfl, displays_putBackspace h⟩
      · exact displays_putPlain h c

end Simulation

/-- **Terminal simulation.** From every well-formed `tty` on and for every sequence of characters, no
access goes behind the cells, the cursor stays on one of them, and the cells, read row by row, and the
cursor are what the terminal shows.
SRCLINE: kernel/drivers/tty.cpp:154-201 -/
theorem tty_refines_terminal {t : Tty} (h : TtyWellFormed t) (l : List Byte) :
    ∃ t', l.foldlM Tty.putchar t = some t' ∧ TtyWellFormed t' ∧
      ttyTerminal t' = l.foldl Terminal.receive (ttyTerminal t) := by
  have hrun : ∀ t s, Displays t s →
      ∃ t', l.foldlM Tty.putchar t = some t' ∧ Displays t' (l.foldl Terminal.receive s) := by
    induction l with
    | nil => exact fun t s h => ⟨t, rfl, h⟩
    | cons c l ih =>
      intro t s h
      obtain ⟨t₁, hput, hdisplays⟩ := displays_putchar h c
      obtain ⟨t', hrest, hdisplays'⟩ := ih t₁ _ hdisplays
      refine ⟨t', ?_, hdisplays'⟩
      rw [List.foldlM_cons, hput]
      exact hrest
  obtain ⟨t', hfold, hdisplays⟩ := hrun t _ (displays_of_wellFormed h)
  exact ⟨t', hfold, hdisplays.wellFormed⟩

/-- The constructor makes a well-formed `tty`, if there is a row and a column.
SRCLINE: kernel/drivers/tty.cpp:218-232 -/
theorem newTty_wellFormed {height width fontHeight fontWidth : ℕ}
    (hrows : 1 ≤ height / fontHeight) (hcols : 1 ≤ width / fontWidth) :
    TtyWellFormed (newTty height width fontHeight fontWidth) := by
  unfold newTty
  refine ⟨by simp only; omega, by simp only; omega, ?_, le_rfl, by simp only; omega, le_rfl,
    by simp only; omega⟩
  rw [List.length_replicate]
  push_cast
  rfl

/-- Two rows of three columns after `ab`, newline, `cd`, tab: the first row has been dropped, and so has
the second one. -/
theorem tty_refines_terminal_scrolled : ∃ t',
    [97, 98, charNewline, 99, 100, charTab].foldlM Tty.putchar (newTty 32 24 16 8) = some t' ∧
      TtyWellFormed t' ∧
      (ttyTerminal t').lines = [[32, 32, 32], [0, 0, 0]] ∧ (ttyTerminal t').x = 0 := by
  have hstart : TtyWellFormed (newTty 32 24 16 8) := newTty_wellFormed (by decide) (by decide)
  obtain ⟨t', hfold, hwell, hterminal⟩ :=
    tty_refines_terminal hstart [97, 98, charNewline, 99, 100, charTab]
  refine ⟨t', hfold, hwell, ?_, ?_⟩
  · rw [hterminal]
    decide
  · rw [hterminal]
    decide

end CrepOS.Analysis
