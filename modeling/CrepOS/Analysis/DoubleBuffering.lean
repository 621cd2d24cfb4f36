import CrepOS.Interface.Terminal

/-!
# Double buffering

Where the two buffers agree they never differ again. A pixel is written to both with the same colour; what `scroll`
copies to the framebuffer is what it then moves in the double buffer, since a copy to lower addresses that goes up
reads nothing that it has written; and both are cleared alike. The first `flush` makes all visible pixels agree.
-/

set_option autoImplicit false

namespace CrepOS.Analysis

open CrepOS.Library CrepOS.Model CrepOS.Interface

variable {b b' : ScreenBuffers} {s s' : TtyPicture} {sc : Screen} {i : ℤ} {colour : BitVec 32}

/-! ## Writes -/

/-- INTERNAL: an element after a write. -/
theorem set_apply (w w' : ScreenBuffer) (j : ℤ) (v : BitVec 32) :
    b.set w j v w' i = if w' = w ∧ i = j then v else b w' i := by
  unfold ScreenBuffers.set
  by_cases hw : w' = w
  · subst hw
    rw [Function.update_self]
    by_cases hi : i = j
    · rw [hi, Function.update_self, if_pos ⟨rfl, rfl⟩]
    · rw [Function.update_of_ne hi, if_neg fun h => hi h.2]
  · rw [Function.update_of_ne hw, if_neg fun h => hw h.1]

/-- The buffers have the same element. -/
def SameAt (b : ScreenBuffers) (i : ℤ) : Prop := b .front i = b .back i

/-- Where `b` agrees `b'` does. -/
def KeepsSame (b b' : ScreenBuffers) : Prop := ∀ i, SameAt b i → SameAt b' i

theorem KeepsSame.trans {b'' : ScreenBuffers} (h : KeepsSame b b') (h' : KeepsSame b' b'') : KeepsSame b b'' :=
  fun i hi => h' i (h i hi)

/-- INTERNAL: a loop whose steps keep what agrees. -/
theorem keepsSame_foldl {α : Type} {f : ScreenBuffers → α → ScreenBuffers} (hstep : ∀ b a, KeepsSame b (f b a))
    (l : List α) (b : ScreenBuffers) : KeepsSame b (l.foldl f b) := by
  induction l generalizing b with
  | nil => exact fun i hi => hi
  | cons a l ih => exact (hstep b a).trans (ih (f b a))

/-- **A pixel** agrees after it has been written, and the others are kept.
SRCLINE: kernel/drivers/tty.cpp:27-32 -/
theorem setPixel_same (sc : Screen) (x y : ℤ) (colour : BitVec 32) (b : ScreenBuffers) :
    KeepsSame b (sc.setPixel x y colour b) ∧ SameAt (sc.setPixel x y colour b) (sc.index x y) := by
  constructor
  · intro i hi
    unfold SameAt Screen.setPixel
    rw [set_apply, set_apply, set_apply, set_apply]
    by_cases heq : i = sc.index x y
    · simp [heq]
    · simp only [heq, and_false, if_false]
      exact hi
  · unfold SameAt Screen.setPixel
    rw [set_apply, set_apply, set_apply]
    simp

/-! ## Flushing -/

/-- INTERNAL: a loop that writes a pixel, among others.
SRCLINE: kernel/drivers/tty.cpp:38-44 -/
theorem foldl_same {α : Type} {f : ScreenBuffers → α → ScreenBuffers} (hstep : ∀ b a, KeepsSame b (f b a)) {a : α}
    (ha : ∀ b, SameAt (f b a) i) {l : List α} (hmem : a ∈ l) (b : ScreenBuffers) : SameAt (l.foldl f b) i := by
  obtain ⟨before, behind, rfl⟩ := List.append_of_mem hmem
  rw [List.foldl_append, List.foldl_cons]
  exact keepsSame_foldl hstep behind _ i (ha _)

/-- INTERNAL: a row of pixels. -/
theorem flushRow_same (sc : Screen) (colour : BitVec 32) (y : ℕ) (b : ScreenBuffers) :
    KeepsSame b ((List.range sc.width).foldl (fun b (j : ℕ) => sc.setPixel j y colour b) b) ∧
      ∀ x < sc.width, SameAt ((List.range sc.width).foldl (fun b (j : ℕ) => sc.setPixel j y colour b) b) (sc.index x y) := by
  have hstep : ∀ (b : ScreenBuffers) (j : ℕ), KeepsSame b (sc.setPixel j y colour b) := fun b j =>
    (setPixel_same sc j y colour b).1
  exact ⟨keepsSame_foldl hstep _ b, fun x hx =>
    foldl_same hstep (fun b => (setPixel_same sc x y colour b).2) (List.mem_range.mpr hx) b⟩

/-- **After a flush** the buffers agree.
SRCLINE: kernel/drivers/tty.cpp:38-44 -/
theorem flush_same (sc : Screen) (colour : BitVec 32) (b : ScreenBuffers) :
    KeepsSame b (sc.flush colour b) ∧ ∀ x < sc.width, ∀ y < sc.height, SameAt (sc.flush colour b) (sc.index x y) := by
  have hstep : ∀ (b : ScreenBuffers) (i : ℕ), KeepsSame b
      ((List.range sc.width).foldl (fun b (j : ℕ) => sc.setPixel j i colour b) b) := fun b i => (flushRow_same sc colour i b).1
  refine ⟨keepsSame_foldl hstep _ b, fun x hx y hy => ?_⟩
  exact foldl_same hstep (fun b => (flushRow_same sc colour y b).2 x hx) (List.mem_range.mpr hy) b

/-! ## Scrolling -/

/-- INTERNAL: the copy to the framebuffer. The induction is on the number of words.
SRCLINE: kernel/lib/memutils.cpp:42-46 -/
theorem memcpy64_front (src n k : ℕ) (b : ScreenBuffers) :
    memcpy64 .front src n k b .back = b .back ∧
      ∀ i, memcpy64 .front src n k b .front i =
        if (2 * k : ℕ) ≤ i ∧ i < (2 * (k + n) : ℕ) then b .back (i + 2 * src) else b .front i := by
  induction n generalizing k b with
  | zero => exact ⟨rfl, fun i => by rw [if_neg (by omega)]; rfl⟩
  | succ n ih =>
    rw [memcpy64]
    obtain ⟨hback, hfront⟩ := ih (k + 1) ((b.set .front (2 * k : ℕ) (b .back (2 * (src + k) : ℕ))).set .front
      (2 * k + 1 : ℕ) (b .back (2 * (src + k) + 1 : ℕ)))
    have hkept : ((b.set .front (2 * k : ℕ) (b .back (2 * (src + k) : ℕ))).set .front
        (2 * k + 1 : ℕ) (b .back (2 * (src + k) + 1 : ℕ))) .back = b .back := by
      funext i
      rw [set_apply, set_apply, if_neg (by simp), if_neg (by simp)]
    refine ⟨hback.trans hkept, fun i => ?_⟩
    rw [hfront, hkept, set_apply, set_apply]
    by_cases hlow : i = (2 * k : ℕ)
    · rw [if_neg (by omega), if_neg (by omega), if_pos ⟨rfl, hlow⟩, if_pos (by omega), hlow]
      congr 1
      omega
    · by_cases hhigh : i = (2 * k + 1 : ℕ)
      · rw [if_neg (by omega), if_pos ⟨rfl, hhigh⟩, if_pos (by omega), hhigh]
        congr 1
        omega
      · simp only [hlow, hhigh, and_false, if_false]
        by_cases hin : (2 * (k + 1) : ℕ) ≤ i ∧ i < (2 * (k + 1 + n) : ℕ)
        · rw [if_pos hin, if_pos (by omega)]
        · rw [if_neg hin, if_neg (by omega)]

/-- INTERNAL: the copy within the double buffer. What is read has not been written yet. The induction is on the number
of words.
SRCLINE: kernel/lib/memutils.cpp:42-46 -/
theorem memcpy64_back (src n k : ℕ) (b : ScreenBuffers) :
    memcpy64 .back src n k b .front = b .front ∧
      ∀ i, memcpy64 .back src n k b .back i =
        if (2 * k : ℕ) ≤ i ∧ i < (2 * (k + n) : ℕ) then b .back (i + 2 * src) else b .back i := by
  induction n generalizing k b with
  | zero => exact ⟨rfl, fun i => by rw [if_neg (by omega)]; rfl⟩
  | succ n ih =>
    rw [memcpy64]
    obtain ⟨hfront, hback⟩ := ih (k + 1) ((b.set .back (2 * k : ℕ) (b .back (2 * (src + k) : ℕ))).set .back
      (2 * k + 1 : ℕ) (b .back (2 * (src + k) + 1 : ℕ)))
    constructor
    · rw [hfront]
      funext i
      rw [set_apply, set_apply, if_neg (by simp), if_neg (by simp)]
    · intro i
      rw [hback, set_apply, set_apply, set_apply, set_apply]
      by_cases hlow : i = (2 * k : ℕ)
      · rw [if_neg (by omega), if_neg (by omega), if_pos ⟨rfl, hlow⟩, if_pos (by omega), hlow]
        congr 1
        omega
      · by_cases hhigh : i = (2 * k + 1 : ℕ)
        · rw [if_neg (by omega), if_pos ⟨rfl, hhigh⟩, if_pos (by omega), hhigh]
          congr 1
          omega
        · by_cases hin : (2 * (k + 1) : ℕ) ≤ i ∧ i < (2 * (k + 1 + n) : ℕ)
          · rw [if_pos hin, if_neg (by omega), if_neg (by omega), if_pos (by omega)]
          · rw [if_neg hin, if_neg (by omega), if_neg (by omega), if_neg (by omega)]

/-- INTERNAL: the elements that are cleared.
SRCLINE: kernel/lib/memutils.cpp:13-16 -/
theorem memset32_apply (dest w : ScreenBuffer) (start n : ℕ) (data : BitVec 32) (b : ScreenBuffers) (i : ℤ) :
    memset32 dest start data n b w i =
      if w = dest ∧ (start : ℤ) ≤ i ∧ i < (start + n : ℕ) then data else b w i := by
  induction n with
  | zero => rw [memset32, if_neg (by omega)]
  | succ n ih =>
    rw [memset32, set_apply, ih]
    by_cases hlast : w = dest ∧ i = (start + n : ℕ)
    · rw [if_pos hlast, if_pos ⟨hlast.1, by omega⟩]
    · by_cases hin : w = dest ∧ (start : ℤ) ≤ i ∧ i < (start + n : ℕ)
      · rw [if_neg hlast, if_pos hin, if_pos ⟨hin.1, by omega⟩]
      · rw [if_neg hlast, if_neg hin, if_neg fun h => ?_]
        by_cases heq : i = (start + n : ℕ)
        · exact hlast ⟨h.1, heq⟩
        · exact hin ⟨h.1, by omega⟩

/-- **Scrolling keeps what agrees.**
SRCLINE: kernel/drivers/tty.cpp:99-103 -/
theorem scrollBuffers_same (s : TtyPicture) (b : ScreenBuffers) : KeepsSame b (s.scrollBuffers b) := by
  intro i hi
  obtain ⟨hback₁, hfront₁⟩ := memcpy64_front (s.lastRow / 8) (s.aboveLast / 8) 0 b
  obtain ⟨hfront₂, hback₂⟩ := memcpy64_back (s.lastRow / 8) (s.aboveLast / 8) 0
    (memcpy64 .front (s.lastRow / 8) (s.aboveLast / 8) 0 b)
  have hcopied : SameAt (memcpy64 .back (s.lastRow / 8) (s.aboveLast / 8) 0
      (memcpy64 .front (s.lastRow / 8) (s.aboveLast / 8) 0 b)) i := by
    rw [SameAt, hfront₂, hback₂, hfront₁, hback₁]
    split
    · rfl
    · exact hi
  unfold SameAt TtyPicture.scrollBuffers
  rw [memset32_apply, memset32_apply, memset32_apply, memset32_apply]
  simp only [reduceCtorEq, false_and, if_false, true_and]
  split
  · rfl
  · exact hcopied

/-! ## The calls -/

/-- `s'` is `s` with another picture, where the buffers agree at least where they did, and another cursor. -/
structure StepSame (s s' : TtyPicture) : Prop where
  sc : s'.screen.sc = s.screen.sc
  same : KeepsSame s.buffers s'.buffers

theorem StepSame.trans {s'' : TtyPicture} (h : StepSame s s') (h' : StepSame s' s'') : StepSame s s'' :=
  ⟨h'.sc.trans h.sc, h.same.trans h'.same⟩

theorem withTty_same (s : TtyPicture) (t : Tty) : StepSame s (s.withTty t) := ⟨rfl, fun _ hi => hi⟩

/-- INTERNAL: the cell under the cursor.
SRCLINE: kernel/drivers/tty.cpp:72-86 -/
theorem fillCell_same (s : TtyPicture) (colour : BitVec 32) : StepSame s (s.fillCell colour) :=
  ⟨rfl, keepsSame_foldl (fun b _ => keepsSame_foldl (fun b _ => (setPixel_same _ _ _ _ b).1) _ b) _ _⟩

theorem updateCursor_same (s : TtyPicture) (x y : ℤ) : StepSame s (s.updateCursor x y) :=
  ((fillCell_same s _).trans (withTty_same _ _)).trans (fillCell_same _ _)

/-- INTERNAL: the pixels of a glyph. The induction is on the fuel.
SRCLINE: kernel/drivers/tty.cpp:46-56 -/
theorem renderLoop_same {x y : ℤ} {offset fuel : ℕ} {i iCnt j : BitVec 8}
    (h : s.renderLoop x y offset fuel i iCnt j b = some b') : KeepsSame b b' := by
  induction fuel generalizing i iCnt j b with
  | zero => cases h
  | succ fuel ih =>
    rw [TtyPicture.renderLoop] at h
    by_cases hcolumn : i.toNat < s.screen.fontWidth ∧ 0 < iCnt
    · rw [if_pos hcolumn] at h
      by_cases hrow : j.toNat < s.screen.fontHeight
      · rw [if_pos hrow] at h
        exact (setPixel_same _ _ _ _ b).1.trans (ih h)
      · rw [if_neg hrow] at h
        exact ih h
    · rw [if_neg hcolumn] at h
      rw [← Option.some.inj h]
      exact fun i hi => hi

theorem plotChar_same {fuel : ℕ} {x y : ℤ} {c : Byte} (h : s.plotChar fuel x y c = some s') : StepSame s s' := by
  rw [TtyPicture.plotChar, Option.map_eq_some_iff] at h
  obtain ⟨b, hrender, rfl⟩ := h
  exact ⟨rfl, renderLoop_same hrender⟩

/-- **A scroll** keeps what agrees.
SRCLINE: kernel/drivers/tty.cpp:88-106 -/
theorem scroll_same (s : TtyPicture) : StepSame s s.scroll := by
  have hcleared := (fillCell_same s s.textBackground).trans (withTty_same _ (s.screen.tty.scroll.getD s.screen.tty))
  have hcopied : StepSame s.clearCursor { s.clearCursor with buffers := s.scrollBuffers s.clearCursor.buffers } :=
    ⟨rfl, scrollBuffers_same s _⟩
  exact ((fillCell_same s s.textBackground).trans (hcopied.trans (withTty_same _ _))).trans (fillCell_same _ _)

/-- **A character of the default case** keeps what agrees.
SRCLINE: kernel/drivers/tty.cpp:184-199 -/
theorem putPlain_same {fuel : ℕ} {c : Byte} (h : s.putPlain fuel c = some s') : StepSame s s' := by
  rw [TtyPicture.putPlain, Option.map_eq_some_iff] at h
  obtain ⟨s₁, hplot, rfl⟩ := h
  have hglyph := (fillCell_same s s.textBackground).trans (plotChar_same hplot)
  have hmoved : ∀ t : Tty, StepSame s₁
      (if t.cursorY = t.rows then (s₁.withTty { t with cursorY := t.cursorY - 1 }).scroll else s₁.withTty t) := by
    intro t
    split
    · exact (withTty_same _ _).trans (scroll_same _)
    · exact withTty_same _ _
  exact hglyph.trans ((hmoved _).trans (fillCell_same _ _))

/-- INTERNAL: the spaces of a tab. The induction is on their number.
SRCLINE: kernel/drivers/tty.cpp:156-160 -/
theorem putSpaces_same {fuel n : ℕ} (h : TtyPicture.putSpaces fuel n s = some s') : StepSame s s' := by
  induction n generalizing s with
  | zero =>
    rw [← Option.some.inj h]
    exact ⟨rfl, fun i hi => hi⟩
  | succ n ih =>
    rw [TtyPicture.putSpaces, Option.bind_eq_some_iff] at h
    obtain ⟨s₁, hplain, hrest⟩ := h
    exact (putPlain_same hplain).trans (ih hrest)

/-- **A character** keeps what agrees.
SRCLINE: kernel/drivers/tty.cpp:154-201 -/
theorem putchar_same {fuel : ℕ} {c : Byte} (h : s.putchar fuel c = some s') : StepSame s s' := by
  unfold TtyPicture.putchar at h
  split at h
  · exact putSpaces_same h
  · split at h
    · rw [← Option.some.inj h]
      unfold TtyPicture.putNewline
      split
      · exact (scroll_same s).trans (updateCursor_same _ _ _)
      · exact updateCursor_same s _ _
    · split at h
      · rw [← Option.some.inj h]
        unfold TtyPicture.putBackspace
        split
        · exact ((fillCell_same s _).trans (withTty_same _ _)).trans (fillCell_same _ _)
        · exact ⟨rfl, fun i hi => hi⟩
      · exact putPlain_same h

/-- INTERNAL: a step of a run.
SRCLINE: kernel/drivers/tty.cpp:38-44, 154-201 -/
theorem pictureStep_same {call : PictureCall} (h : pictureStep s call s') : StepSame s s' := by
  cases call with
  | flush colour =>
    have hflush : s' = s.flush colour := h
    rw [hflush]
    exact ⟨rfl, (flush_same _ _ _).1⟩
  | putchar c =>
    obtain ⟨fuel, hput⟩ := h
    exact putchar_same hput

/-- **Double buffering agrees** after a first flush, whatever is called then, on every screen and with every font.
SRCLINE: kernel/drivers/tty.cpp:27-106, 154-201 -/
theorem buffers_agree {calls : List PictureCall} (colour : BitVec 32) (h : Run pictureStep (s.flush colour) calls s') :
    BuffersAgree s' := by
  have hsame : StepSame (s.flush colour) s' :=
    Run.invariant (StepSame (s.flush colour)) (fun _ _ _ hs hstep => hs.trans (pictureStep_same hstep)) h
      ⟨rfl, fun i hi => hi⟩
  intro x hx y hy
  rw [hsame.sc] at hx hy ⊢
  exact hsame.same _ ((flush_same _ _ _).2 x hx y hy)

/-! ## A small screen -/

/-- A screen of four pixels, with cells of one pixel, and what was in the buffers before. -/
def smallPicture : TtyPicture where
  screen := newTtyScreen ⟨2, 2, 8, 32⟩ 1 1
  font _ := 0xff
  cursorForeground := 3
  textForeground := 2
  textBackground := 1
  buffers w _ := if w = .front then 7 else 0

/-- The third line scrolls. -/
theorem smallPicture_agrees : ∃ s', BuffersAgree s' ∧
    Run pictureStep (smallPicture.flush 0) [.putchar charNewline, .putchar charNewline] s' := by
  have hrun : Run pictureStep (smallPicture.flush 0) [.putchar charNewline, .putchar charNewline]
      (smallPicture.flush 0).putNewline.putNewline :=
    Run.snoc (Run.single ⟨0, rfl⟩) ⟨0, rfl⟩
  exact ⟨_, buffers_agree 0 hrun, hrun⟩

end CrepOS.Analysis
