import CrepOS.Interface.VectorRun

/-!
# Vectors as lists

`HoldsList v l` is the invariant of a vector with the elements `l`: they lie in the block, which is not
longer than the capacity says. Each operation of `lib::vector` has one lemma that says when it stays in
its blocks and what it does to the elements; the condition `Meets` is the sum of them. The theorem is an
equivalence: a sequence of operations acts as on lists exactly if each operation meets the condition.
-/

set_option autoImplicit false

namespace CrepOS.Analysis

open CrepOS.Model CrepOS.Interface

variable {α : Type} {ty : ElementType α} {junk : ℕ → α}

/-- The vector has the elements `l`. -/
structure HoldsList (v : LibVector α) (l : List α) : Prop where
  elements : elementsOf v = l
  size : v.bufSize = l.length
  fits : v.bufSize ≤ blockLength v
  cap : blockLength v ≤ v.bufCap
  null : v.elements = none → v.bufCap = 0
  block : v.elements ≠ none → 0 < v.bufCap

theorem holds_empty : HoldsList (LibVector.empty : LibVector α) [] :=
  ⟨rfl, rfl, Nat.le_refl 0, Nat.le_refl 0, fun _ => rfl, fun h => absurd rfl h⟩

/-! ## The loops -/

section Loops

variable {src dst src' dst' b : Block α} {s d n : ℕ}

/-- INTERNAL: objects that lie in a block can be destroyed, and no others. -/
theorem destroyAll_iff (n : ℕ) :
    LibVector.destroyAll ty (some b) n = some () ↔ ty.trivial = true ∨ n ≤ b.length := by
  cases htrivial : ty.trivial with
  | true => cases n <;> simp [LibVector.destroyAll, htrivial]
  | false =>
    simp only [Bool.false_eq_true, false_or]
    induction n with
    | zero => simp [LibVector.destroyAll]
    | succ n ih =>
      rw [LibVector.destroyAll, htrivial]
      by_cases hlt : n < b.length
      · simp only [hlt, Bool.false_eq_true, if_true, if_false, ih]
        omega
      · simp only [hlt, Bool.false_eq_true, if_false, reduceCtorEq, false_iff]
        omega

/-- INTERNAL: there is no object at `NULL`. -/
theorem destroyAll_null (n : ℕ) :
    LibVector.destroyAll ty (none : Option (Block α)) n = some () ↔ n = 0 ∨ ty.trivial = true := by
  cases n with
  | zero => simp [LibVector.destroyAll]
  | succ n => cases htrivial : ty.trivial <;> simp [LibVector.destroyAll, htrivial]

/-- **The loop that moves elements**, when both ranges lie in their blocks. -/
theorem moveElements_inside (hs : s + n ≤ src.length) (hd : d + n ≤ dst.length) :
    ∃ src' dst', LibVector.moveElements ty src dst s d n = some (src', dst') ∧
      src'.length = src.length ∧ dst'.length = dst.length ∧
      (∀ j, j < s ∨ s + n ≤ j → src'.cells j = src.cells j) ∧
      (∀ i < n, dst'.cells (d + i) = src.cells (s + i)) ∧
      ∀ j, j < d ∨ d + n ≤ j → dst'.cells j = dst.cells j := by
  induction n with
  | zero =>
    exact ⟨src, dst, rfl, rfl, rfl, fun _ _ => rfl, fun i hi => absurd hi (Nat.not_lt_zero i),
      fun _ _ => rfl⟩
  | succ n ih =>
    obtain ⟨src₁, dst₁, hmove, hsrc, hdst, hkeep, hmoved, hother⟩ := ih (by omega) (by omega)
    refine ⟨{ src₁ with cells := Function.update src₁.cells (s + n) (ty.moved (src₁.cells (s + n))) },
      { dst₁ with cells := Function.update dst₁.cells (d + n) (src₁.cells (s + n)) }, ?_, hsrc, hdst,
      ?_, ?_, ?_⟩
    · simp only [LibVector.moveElements, hmove, Option.bind_eq_bind, Option.bind_some, Block.read,
        Block.write, hsrc, hdst, show s + n < src.length by omega, show d + n < dst.length by omega,
        if_true]
    · intro j hj
      simp only
      rw [Function.update_of_ne (by omega)]
      exact hkeep j (by omega)
    · intro i hi
      simp only
      by_cases hin : i = n
      · subst hin
        rw [Function.update_self]
        exact hkeep (s + i) (by omega)
      · rw [Function.update_of_ne (by omega)]
        exact hmoved i (by omega)
    · intro j hj
      simp only
      rw [Function.update_of_ne (by omega)]
      exact hother j (by omega)

/-- **The loop that moves elements leaves no block.** -/
theorem moveElements_some (h : LibVector.moveElements ty src dst s d n = some (src', dst')) :
    src'.length = src.length ∧ dst'.length = dst.length ∧
      (0 < n → s + n ≤ src.length ∧ d + n ≤ dst.length) := by
  induction n generalizing src' dst' with
  | zero =>
    obtain ⟨rfl, rfl⟩ := Prod.mk.inj (Option.some.inj h)
    exact ⟨rfl, rfl, fun hpos => absurd hpos (Nat.lt_irrefl 0)⟩
  | succ n ih =>
    simp only [LibVector.moveElements, Option.bind_eq_bind, Option.bind_eq_some_iff] at h
    obtain ⟨⟨src₁, dst₁⟩, hmove, x, hread, dst₂, hwrite, src₂, hleft, heq⟩ := h
    obtain ⟨hsrc, hdst, -⟩ := ih hmove
    obtain ⟨rfl, rfl⟩ := Prod.mk.inj (Option.some.inj heq)
    simp only [Block.read, Block.write, Option.ite_none_right_eq_some, Option.some.injEq] at hread hwrite hleft
    obtain ⟨hread, -⟩ := hread
    obtain ⟨hwrite, rfl⟩ := hwrite
    obtain ⟨-, rfl⟩ := hleft
    exact ⟨hsrc, hdst, fun _ => ⟨by omega, by omega⟩⟩

end Loops

/-! ## The operations -/

section Operations

variable {v v' other : LibVector α} {l : List α} {a : α} {index : ℕ}

theorem blockLength_null (h : v.elements = none) : blockLength v = 0 := by rw [blockLength, h]

theorem blockLength_some {b : Block α} (h : v.elements = some b) : blockLength v = b.length := by
  rw [blockLength, h]

theorem elementsOf_some {b : Block α} (h : v.elements = some b) :
    elementsOf v = (List.range v.bufSize).map b.cells := by
  rw [elementsOf, h]

/-- INTERNAL: the elements of a vector from its cells. -/
theorem elementsOf_eq {b : Block α} (h : v.elements = some b) (hsize : v.bufSize = l.length)
    (hcells : ∀ i, ∀ hi : i < l.length, b.cells i = l[i]) : elementsOf v = l := by
  rw [elementsOf_some h]
  apply List.ext_getElem
  · simp [hsize]
  · intro i hi hi'
    rw [List.getElem_map, List.getElem_range]
    exact hcells i hi'

/-- INTERNAL: the cells of a vector are its elements. -/
theorem HoldsList.cells {b : Block α} (h : HoldsList v l) (hb : v.elements = some b) (i : ℕ)
    (hi : i < l.length) : b.cells i = l[i] := by
  have helements := h.elements
  rw [elementsOf_some hb] at helements
  simp only [← helements, List.getElem_map, List.getElem_range]

/-- `internal_resize` for one more element: the block is as long as the capacity says, or has room.
SRCLINE: kernel/lib/vector.hpp:105-122 -/
theorem internalResize_holds (h : HoldsList v l)
    (hroom : v.bufSize < v.bufCap → v.bufSize < blockLength v) :
    ∃ v' b, LibVector.internalResize ty junk v (v.bufSize + 1) = some v' ∧ v'.elements = some b ∧
      v'.bufSize = v.bufSize ∧ v.bufSize < b.length ∧ b.length ≤ v'.bufCap ∧
      ∀ i, ∀ hi : i < l.length, b.cells i = l[i] := by
  have hfits := h.fits
  have hcap := h.cap
  have hsize := h.size
  by_cases hfree : v.bufSize + 1 ≤ v.bufCap
  · cases hb : v.elements with
    | none =>
      rw [h.null hb] at hfree
      omega
    | some b =>
      have hlength := blockLength_some hb
      refine ⟨v, b, ?_, hb, rfl, ?_, ?_, h.cells hb⟩
      · rw [LibVector.internalResize, if_pos hfree]
      · rw [← hlength]
        exact hroom hfree
      · rw [← hlength]
        exact hcap
  · cases hb : v.elements with
    | none =>
      have hnull := h.null hb
      have hzero : v.bufSize = 0 := by
        rw [blockLength_null hb] at hfits
        exact Nat.le_zero.mp hfits
      refine ⟨⟨some ⟨(v.bufSize + 1) * 2, junk⟩, v.bufSize, (v.bufSize + 1) * 2⟩, _, ?_, rfl, rfl, ?_,
        Nat.le_refl _, ?_⟩
      · rw [LibVector.internalResize, if_neg hfree]
        simp only [hnull, hb, LibVector.moveElements, Option.bind_eq_bind, Option.bind_some,
          Option.map_none, hzero, LibVector.destroyAll, LibVector.deleteElements]
      · simp only
        omega
      · intro i hi
        omega
    | some b =>
      have hlength := blockLength_some hb
      have hpos := h.block (by rw [hb]; exact Option.some_ne_none b)
      rw [hlength] at hfits hcap
      obtain ⟨src', dst', hmove, hsrc, hdst, -, hmoved, -⟩ :=
        @moveElements_inside α ty b ⟨(v.bufSize + 1) * 2, junk⟩ 0 0 v.bufCap (by omega)
          (by simp only; omega)
      have hdestroy : LibVector.destroyAll ty (some src') v.bufSize = some () :=
        (destroyAll_iff _).mpr (Or.inr (by omega))
      have hdelete : ty.trivial = true ∨ 0 < src'.length := Or.inr (by omega)
      refine ⟨⟨some dst', v.bufSize, (v.bufSize + 1) * 2⟩, dst', ?_, rfl, rfl, ?_, ?_, ?_⟩
      · rw [LibVector.internalResize, if_neg hfree]
        simp only [LibVector.block, hb, Option.getD_some, hmove, Option.bind_eq_bind, Option.bind_some,
          Option.map_some, hdestroy, LibVector.deleteElements, if_pos hdelete]
      · rw [hdst]
        simp only
        omega
      · exact Nat.le_of_eq hdst
      · intro i hi
        have hcell := hmoved i (by omega)
        rw [Nat.zero_add] at hcell
        rw [hcell]
        exact h.cells hb i hi

/-- **`push` acts as `append`** exactly if there is room.
SRCLINE: kernel/lib/vector.hpp:86-96 -/
theorem push_holds (h : HoldsList v l) (hroom : v.bufSize < v.bufCap → v.bufSize < blockLength v) (a : α) :
    ∃ v', v.push ty junk a = some v' ∧ HoldsList v' (l ++ [a]) := by
  obtain ⟨v₁, b, hresize, hb, hsize, hlt, hcap, hcells⟩ := @internalResize_holds α ty junk v l h hroom
  have hwrite : b.write v.bufSize a =
      some { b with cells := Function.update b.cells v.bufSize a } := by
    rw [Block.write, if_pos hlt]
  refine ⟨{ v₁ with
      elements := some { b with cells := Function.update b.cells v.bufSize a },
      bufSize := v.bufSize + 1 }, ?_, ?_⟩
  · simp only [LibVector.push, hresize, Option.bind_eq_bind, Option.bind_some, hb, hsize, hwrite]
  · have hlen : v.bufSize + 1 = (l ++ [a]).length := by
      rw [List.length_append, List.length_singleton, h.size]
    refine ⟨elementsOf_eq rfl hlen ?_, hlen, hlt, hcap, (fun hnone => by cases hnone), fun _ => ?_⟩
    · intro i hi
      simp only
      by_cases hlast : i = v.bufSize
      · subst hlast
        rw [Function.update_self, List.getElem_append_right (Nat.le_of_eq h.size.symm)]
        simp [h.size]
      · have hil : i < l.length := by
          have hsum := h.size
          omega
        rw [Function.update_of_ne hlast, List.getElem_append_left hil]
        exact hcells i hil
    · simp only
      omega

/-- INTERNAL: without room `push` writes behind the block. -/
theorem push_outside (hcap : v.bufSize < v.bufCap)
    (hroom : ¬ v.bufSize < blockLength v) : v.push ty junk a = none := by
  rw [LibVector.push, LibVector.internalResize, if_pos (by omega)]
  cases hb : v.elements with
  | none => simp [hb]
  | some b =>
    rw [blockLength_some hb] at hroom
    simp [hb, Block.write, hroom]

/-- **`pop` acts as removing the last element.**
SRCLINE: kernel/lib/vector.hpp:98-103 -/
theorem pop_holds (h : HoldsList v l) (hne : l ≠ []) :
    ∃ v', v.pop ty = some (v', l.getLast hne) ∧ HoldsList v' l.dropLast := by
  have hpos : 0 < v.bufSize := by
    rw [h.size]
    exact List.length_pos_iff.mpr hne
  have hfits := h.fits
  cases hb : v.elements with
  | none =>
    rw [blockLength_null hb] at hfits
    omega
  | some b =>
    have hlength := blockLength_some hb
    rw [hlength] at hfits
    have hlast : v.bufSize - 1 < b.length := by omega
    have hil : v.bufSize - 1 < l.length := by
      rw [← h.size]
      omega
    refine ⟨{ v with
        elements := some { b with
          cells := Function.update b.cells (v.bufSize - 1) (ty.moved (b.cells (v.bufSize - 1))) },
        bufSize := v.bufSize - 1 }, ?_, ?_⟩
    · simp only [LibVector.pop, hb, Option.bind_eq_bind, Option.bind_some, Block.read, Block.write,
        hlast, if_true]
      rw [h.cells hb _ hil, List.getLast_eq_getElem]
      simp only [h.size]
    · have hlen : v.bufSize - 1 = l.dropLast.length := by rw [List.length_dropLast, h.size]
      refine ⟨elementsOf_eq rfl hlen ?_, hlen, ?_, ?_, (fun hnone => by cases hnone), fun _ => ?_⟩
      · intro i hi
        simp only
        rw [Function.update_of_ne (by omega), List.getElem_dropLast]
        exact h.cells hb i _
      · simp only [blockLength]
        omega
      · have hcap := h.cap
        rw [hlength] at hcap
        exact hcap
      · exact h.block (by rw [hb]; exact Option.some_ne_none b)

/-- **`remove` acts as on the list** for every index but the one behind the last element.
SRCLINE: kernel/lib/vector.hpp:124-144 -/
theorem remove_holds (h : HoldsList v l) (hindex : index ≠ v.bufSize) :
    ∃ v', v.remove ty junk index = some v' ∧ HoldsList v' (l.eraseIdx index) := by
  have hsize := h.size
  by_cases hout : v.bufSize < index
  · refine ⟨v, by rw [LibVector.remove, if_pos hout], ?_⟩
    rw [List.eraseIdx_of_length_le (by omega)]
    exact h
  · have hfits := h.fits
    cases hb : v.elements with
    | none =>
      rw [blockLength_null hb] at hfits
      omega
    | some b =>
      have hlength := blockLength_some hb
      rw [hlength] at hfits
      have hpred : LibVector.predSize v.bufSize = v.bufSize - 1 := by
        rw [LibVector.predSize, if_neg (by omega)]
      obtain ⟨src₁, dst₁, hmove₁, hsrc₁, hdst₁, hkeep₁, hmoved₁, -⟩ :=
        @moveElements_inside α ty b ⟨v.bufSize - 1, junk⟩ 0 0 index (by omega) (by simp only; omega)
      obtain ⟨src₂, dst₂, hmove₂, hsrc₂, hdst₂, -, hmoved₂, hother₂⟩ :=
        @moveElements_inside α ty src₁ dst₁ (index + 1) index (v.bufSize - (index + 1))
          (by omega) (by simp only [hdst₁]; omega)
      have hdelete : ty.trivial = true ∨ 0 < src₂.length := Or.inr (by omega)
      have hnew : dst₂.length = v.bufSize - 1 := hdst₂.trans hdst₁
      refine ⟨{ v with elements := some dst₂, bufSize := v.bufSize - 1 }, ?_, ?_⟩
      · rw [LibVector.remove, if_neg hout]
        simp only [LibVector.block, hb, Option.getD_some, hpred, hmove₁, hmove₂, Option.bind_eq_bind,
          Option.bind_some, Option.map_some, LibVector.deleteElements, if_pos hdelete]
      · have hlen : v.bufSize - 1 = (l.eraseIdx index).length := by
          rw [List.length_eraseIdx_of_lt (by omega), hsize]
        refine ⟨elementsOf_eq rfl hlen ?_, hlen, ?_, ?_, (fun hnone => by cases hnone), fun _ => ?_⟩
        · intro i hi
          rw [← hlen] at hi
          by_cases hbefore : i < index
          · have hcell := hmoved₁ i hbefore
            rw [Nat.zero_add] at hcell
            rw [hother₂ i (Or.inl hbefore), hcell, List.getElem_eraseIdx_of_lt _ hbefore]
            exact h.cells hb i _
          · have hcell := hmoved₂ (i - index) (by omega)
            rw [show index + (i - index) = i by omega,
              show index + 1 + (i - index) = i + 1 by omega] at hcell
            rw [hcell, hkeep₁ (i + 1) (Or.inr (by omega)),
              List.getElem_eraseIdx_of_ge _ (by omega)]
            exact h.cells hb (i + 1) _
        · exact Nat.le_of_eq hnew.symm
        · have hcap := h.cap
          rw [hlength] at hcap
          simp only [blockLength, hnew]
          omega
        · exact h.block (by rw [hb]; exact Option.some_ne_none b)

/-- INTERNAL: `remove` of the position behind the last element leaves the new block, or leaves the
vector with `2 ^ 64 - 1` elements. -/
theorem remove_last_fails (h : HoldsList v l) (hremove : v.remove ty junk v.bufSize = some v') :
    elementsOf v' ≠ l.eraseIdx v.bufSize := by
  have hsize := h.size
  rw [LibVector.remove, if_neg (Nat.lt_irrefl _)] at hremove
  simp only [Option.bind_eq_bind, Option.bind_eq_some_iff] at hremove
  obtain ⟨⟨src₁, dst₁⟩, hmove₁, ⟨src₂, dst₂⟩, hmove₂, -, -, hv'⟩ := hremove
  obtain rfl := Option.some.inj hv'
  obtain ⟨-, -, hinside⟩ := moveElements_some hmove₁
  by_cases hzero : v.bufSize = 0
  · -- the size has become the largest number
    intro heq
    have hlen := congrArg List.length heq
    have hnil : l = [] := List.length_eq_zero_iff.mp (hsize.symm.trans hzero)
    rw [elementsOf_some rfl, List.length_map, List.length_range, hzero, hnil] at hlen
    have hpred : LibVector.predSize 0 ≠ ([] : List α).length := by simp [LibVector.predSize]
    exact hpred hlen
  · have hbound := (hinside (Nat.pos_of_ne_zero hzero)).2
    simp only [LibVector.predSize, hzero, if_false] at hbound
    omega

/-- INTERNAL: the loop that copies elements. -/
theorem copyElements_inside {src dst : Block α} {n : ℕ} (hs : n ≤ src.length) (hd : n ≤ dst.length) :
    ∃ dst', LibVector.copyElements src dst n = some dst' ∧ dst'.length = dst.length ∧
      ∀ i < n, dst'.cells i = src.cells i := by
  induction n with
  | zero => exact ⟨dst, rfl, rfl, fun i hi => absurd hi (Nat.not_lt_zero i)⟩
  | succ n ih =>
    obtain ⟨dst₁, hcopy, hlength, hcells⟩ := ih (by omega) (by omega)
    refine ⟨{ dst₁ with cells := Function.update dst₁.cells n (src.cells n) }, ?_, hlength, ?_⟩
    · simp only [LibVector.copyElements, hcopy, Option.bind_eq_bind, Option.bind_some, Block.read,
        Block.write, hlength, show n < src.length by omega, show n < dst.length by omega, if_true]
    · intro i hi
      simp only
      by_cases hin : i = n
      · subst hin
        rw [Function.update_self]
      · rw [Function.update_of_ne hin]
        exact hcells i (by omega)

/-- **The copy constructor copies** empty vectors, and vectors of elements without a destructor.
SRCLINE: kernel/lib/vector.hpp:61-68 -/
theorem copy_holds (h : HoldsList other l) (hcopyable : Copyable ty other) :
    ∃ v', other.copy ty junk = some v' ∧ HoldsList v' l := by
  by_cases hzero : other.bufSize = 0
  · have hnil : l = [] := List.length_eq_zero_iff.mp (h.size.symm.trans hzero)
    refine ⟨LibVector.empty, ?_, hnil ▸ holds_empty⟩
    simp only [LibVector.copy, LibVector.internalResize, hzero, Nat.le_refl, if_true,
      Option.bind_eq_bind, Option.bind_some, LibVector.copyElements, Option.map_none, LibVector.empty]
  · have htrivial : ty.trivial = true := hcopyable.resolve_left hzero
    have hfits := h.fits
    cases hb : other.elements with
    | none =>
      rw [blockLength_null hb] at hfits
      omega
    | some b =>
      rw [blockLength_some hb] at hfits
      obtain ⟨dst', hcopy, hlength, hcells⟩ :=
        @copyElements_inside α b ⟨other.bufSize * 2, junk⟩ other.bufSize hfits (by simp only; omega)
      have hdestroy : LibVector.destroyAll ty (none : Option (Block α)) other.bufSize = some () :=
        (destroyAll_null _).mpr (Or.inr htrivial)
      refine ⟨⟨some dst', other.bufSize, other.bufSize * 2⟩, ?_, ?_⟩
      · simp only [LibVector.copy, LibVector.internalResize, Nat.le_zero, hzero, if_false,
          LibVector.moveElements, Option.bind_eq_bind, Option.bind_some, Option.map_none, hdestroy,
          LibVector.deleteElements, LibVector.block, hb, Option.getD_some, hcopy, Option.map_some]
      · refine ⟨elementsOf_eq rfl h.size ?_, h.size, ?_, Nat.le_of_eq hlength,
          (fun hnone => by cases hnone), fun _ => ?_⟩
        · intro i hi
          rw [hcells i (by rw [h.size]; exact hi)]
          exact h.cells hb i hi
        · simp only [blockLength, hlength]
          omega
        · simp only
          omega

/-- INTERNAL: the copy constructor destroys objects at `NULL`. -/
theorem copy_outside (hcopyable : ¬ Copyable ty other) : other.copy ty junk = none := by
  have hzero : other.bufSize ≠ 0 := fun hzero => hcopyable (Or.inl hzero)
  have hdestroy : LibVector.destroyAll ty (none : Option (Block α)) other.bufSize = none := by
    cases hd : LibVector.destroyAll ty (none : Option (Block α)) other.bufSize with
    | none => rfl
    | some u => exact absurd ((destroyAll_null _).mp hd) hcopyable
  simp only [LibVector.copy, LibVector.internalResize, Nat.le_zero, hzero, if_false,
    LibVector.moveElements, Option.bind_eq_bind, Option.bind_some, Option.map_none, hdestroy,
    Option.bind_none]

/-- The destructor stays in the block exactly if `delete elements` does.
SRCLINE: kernel/lib/vector.hpp:78-84 -/
theorem destroy_iff (h : HoldsList v l) : v.destroy ty = some () ↔ Deletable ty v := by
  have hfits := h.fits
  unfold LibVector.destroy Deletable
  cases hb : v.elements with
  | none =>
    rw [blockLength_null hb] at hfits
    rw [Nat.le_zero.mp hfits]
    simp [LibVector.destroyAll, LibVector.deleteElements]
  | some b =>
    have hlength := blockLength_some hb
    rw [hlength] at hfits ⊢
    rw [(destroyAll_iff _).mpr (Or.inr hfits)]
    simp only [LibVector.deleteElements, Option.bind_eq_bind, Option.bind_some,
      Option.ite_none_right_eq_some, and_true, reduceCtorEq, false_or]

end Operations

/-! ## One operation -/

section Step

variable {st st' : Vectors α} {ls : VectorLists α} {op : VectorOp α}

/-- INTERNAL: the other vectors stay what they are. -/
theorem holds_update (h : ∀ x, HoldsList (st x) (ls x)) (x : ℕ) {v : LibVector α} {l : List α}
    (hv : HoldsList v l) (y : ℕ) : HoldsList (Function.update st x v y) (Function.update ls x l y) := by
  by_cases hy : y = x
  · subst hy
    rw [Function.update_self, Function.update_self]
    exact hv
  · rw [Function.update_of_ne hy, Function.update_of_ne hy]
    exact h y

/-- **An operation that meets the condition acts as on lists** and keeps the invariant. -/
theorem exec_holds (h : ∀ x, HoldsList (st x) (ls x)) (hallowed : op.Allowed ls) (hmeets : op.Meets ty st) :
    ∃ st', op.exec ty st = some st' ∧ ∀ x, HoldsList (st' x) (op.onLists ls x) := by
  cases op with
  | construct x => exact ⟨_, rfl, holds_update h x holds_empty⟩
  | copy x y junk =>
    obtain ⟨v', hcopy, hv'⟩ := @copy_holds α ty junk (st y) (ls y) (h y) hmeets
    exact ⟨_, by rw [VectorOp.exec, hcopy]; rfl, holds_update h x hv'⟩
  | assign x y junk =>
    obtain ⟨hcopyable, hdelete⟩ := hmeets
    obtain ⟨v', hcopy, hv'⟩ := @copy_holds α ty junk (st y) (ls y) (h y) hcopyable
    have hassign : (st x).assign ty junk (st y) = some v' := by
      simp only [LibVector.assign, hcopy, (destroy_iff (h x)).mpr hdelete, Option.bind_eq_bind,
        Option.bind_some]
    exact ⟨_, by rw [VectorOp.exec, hassign]; rfl, holds_update h x hv'⟩
  | push x a junk =>
    obtain ⟨v', hpush, hv'⟩ := @push_holds α ty junk (st x) (ls x) (h x) hmeets a
    exact ⟨_, by rw [VectorOp.exec, hpush]; rfl, holds_update h x hv'⟩
  | pop x =>
    obtain ⟨v', hpop, hv'⟩ := @pop_holds α ty (st x) (ls x) (h x) hallowed
    exact ⟨_, by rw [VectorOp.exec, hpop]; rfl, holds_update h x hv'⟩
  | remove x index junk =>
    obtain ⟨v', hremove, hv'⟩ := @remove_holds α ty junk (st x) (ls x) index (h x) hmeets
    exact ⟨_, by rw [VectorOp.exec, hremove]; rfl, holds_update h x hv'⟩
  | destroy x =>
    exact ⟨_, by rw [VectorOp.exec, (destroy_iff (h x)).mpr hmeets]; rfl, holds_update h x holds_empty⟩

/-- **An operation that does not meet the condition** leaves a block or the lists. -/
theorem meets_of_exec (h : ∀ x, HoldsList (st x) (ls x)) (hexec : op.exec ty st = some st')
    (hlists : ∀ x, elementsOf (st' x) = op.onLists ls x) : op.Meets ty st := by
  cases op with
  | construct x => trivial
  | copy x y junk =>
    by_contra hne
    rw [VectorOp.exec, copy_outside hne] at hexec
    cases hexec
  | assign x y junk =>
    rw [VectorOp.exec, Option.map_eq_some_iff] at hexec
    obtain ⟨v', hassign, -⟩ := hexec
    simp only [LibVector.assign, Option.bind_eq_bind, Option.bind_eq_some_iff] at hassign
    obtain ⟨copied, hcopy, u, hdestroy, -⟩ := hassign
    refine ⟨?_, (destroy_iff (h x)).mp hdestroy⟩
    by_contra hne
    rw [copy_outside hne] at hcopy
    cases hcopy
  | push x a junk =>
    intro hcap
    by_contra hroom
    rw [VectorOp.exec, push_outside hcap hroom] at hexec
    cases hexec
  | pop x => trivial
  | remove x index junk =>
    rintro rfl
    rw [VectorOp.exec, Option.map_eq_some_iff] at hexec
    obtain ⟨v', hremove, rfl⟩ := hexec
    have hsame := hlists x
    rw [VectorOp.onLists, Function.update_self, Function.update_self] at hsame
    exact remove_last_fails (h x) hremove hsame
  | destroy x =>
    rw [VectorOp.exec, Option.map_eq_some_iff] at hexec
    obtain ⟨u, hdestroy, -⟩ := hexec
    exact (destroy_iff (h x)).mp hdestroy

end Step

/-! ## Sequences of operations -/

/-- INTERNAL: the equivalence from any state with the invariant. -/
theorem actsAsLists_iff_of_holds (ops : List (VectorOp α)) {st : Vectors α} {ls : VectorLists α}
    (h : ∀ x, HoldsList (st x) (ls x)) (hallowed : AllAllowed ls ops) :
    ActsAsLists ty st ls ops ↔ AllMeet ty st ops := by
  induction ops generalizing st ls with
  | nil => exact Iff.rfl
  | cons op ops ih =>
    obtain ⟨hop, hops⟩ := hallowed
    constructor
    · rintro ⟨st', hexec, hlists, hrest⟩
      have hmeets := meets_of_exec h hexec hlists
      obtain ⟨st₁, hexec₁, hholds⟩ := exec_holds h hop hmeets
      refine ⟨hmeets, ?_⟩
      intro st₂ hexec₂
      obtain rfl := Option.some.inj (hexec₁.symm.trans hexec₂)
      obtain rfl := Option.some.inj (hexec₁.symm.trans hexec)
      exact (ih hholds hops).mp hrest
    · rintro ⟨hmeets, hrest⟩
      obtain ⟨st', hexec, hholds⟩ := exec_holds h hop hmeets
      exact ⟨st', hexec, fun x => (hholds x).elements, (ih hholds hops).mpr (hrest st' hexec)⟩

/-- Objects that are numbers, with a destructor. -/
def objectType : ElementType ℕ := ⟨fun x => x, false⟩

end CrepOS.Analysis
