import CrepOS.Library.LinkedList

/-!
# Doubly linked chains

A chain with right back links, of which one node is taken out, or to which one is appended. Other chains do not notice
either.
-/

set_option autoImplicit false

namespace CrepOS.Library

variable {F : Type} {null x y z p q s : F} {next last : F → F} {l l' before behind : List F}

/-- A chain whose back links are right. -/
structure DoublyLinked (null : F) (next last : F → F) (x : F) (l : List F) : Prop where
  chain : Chain null next x l
  backed : Backed last null l

/-! ## The nodes of a chain -/

theorem Chain.suffix (h : Chain null next x (l ++ y :: l')) : Chain null next y (y :: l') := by
  induction l generalizing x with
  | nil => exact ⟨rfl, h.2⟩
  | cons z l ih => exact ih h.2.2

/-- A chain that ends visits no node twice. -/
theorem Chain.nodup (h : Chain null next x l) : l.Nodup := by
  induction l generalizing x with
  | nil => exact List.nodup_nil
  | cons y l ih =>
    refine List.nodup_cons.mpr ⟨fun hmem => ?_, ih h.2.2⟩
    obtain ⟨before, behind, hsplit⟩ := List.append_of_mem hmem
    have hlater : Chain null next y (y :: behind) := by
      have hrest := h.2.2
      rw [hsplit] at hrest
      exact hrest.suffix
    have hwhole : Chain null next y (y :: l) := ⟨rfl, h.2⟩
    have hlength := congrArg List.length (hwhole.unique hlater)
    rw [hsplit] at hlength
    simp at hlength
    omega

theorem backed_middle (h : Backed last q (before ++ p :: s :: behind)) : last s = p := by
  induction before generalizing q with
  | nil => exact h.2.1
  | cons y before ih => exact ih h.2

theorem backed_left (h : Backed last q (l ++ l')) : Backed last q l := by
  induction l generalizing q with
  | nil => trivial
  | cons y l ih => exact ⟨h.1, ih h.2⟩

/-- INTERNAL: the node before `s`, if there is one, is in the chain. -/
theorem last_mem (h : Backed last q (before ++ s :: behind)) : last s = q ∨ last s ∈ before := by
  induction before generalizing q with
  | nil => exact Or.inl h.1
  | cons y before ih =>
    cases ih h.2 with
    | inl heq => exact Or.inr (heq ▸ List.mem_cons_self)
    | inr hmem => exact Or.inr (List.mem_cons_of_mem y hmem)

/-- The links of other nodes do not matter. -/
theorem DoublyLinked.congr {next' last' : F → F} (h : DoublyLinked null next last x l) (hnext : ∀ y ∈ l, next' y = next y)
    (hlast : ∀ y ∈ l, last' y = last y) : DoublyLinked null next' last' x l :=
  ⟨h.chain.congr hnext, backed_congr h.backed hlast⟩

/-- One node alone. -/
theorem DoublyLinked.singleton (hs : s ≠ null) (hnext : next s = null) (hlast : last s = null) : DoublyLinked null next last s [s] :=
  ⟨⟨rfl, hs, hnext⟩, ⟨hlast, trivial⟩⟩

variable [DecidableEq F]

/-! ## Taking a node out -/

/-- The links after `s` has been taken out. -/
def unlinkNext (null : F) (next last : F → F) (s : F) : F → F :=
  if last s = null then next else Function.update next (last s) (next s)

/-- The back links after `s` has been taken out. -/
def unlinkLast (null : F) (next last : F → F) (s : F) : F → F :=
  if next s = null then last else Function.update last (next s) (last s)

theorem Chain.unlink (h : Chain null next x (before ++ p :: s :: behind)) :
    Chain null (Function.update next p (next s)) x (before ++ p :: behind) := by
  have hnodup := h.nodup
  induction before generalizing x with
  | nil =>
    obtain ⟨hx, hp, hs, _, hrest⟩ := h
    refine ⟨hx, hp, ?_⟩
    rw [Function.update_self]
    refine hrest.congr fun y hy => Function.update_of_ne ?_ _ _
    rintro rfl
    exact (List.nodup_cons.mp hnodup).1 (List.mem_cons_of_mem s hy)
  | cons y before ih =>
    obtain ⟨hx, hy, hrest⟩ := h
    rw [List.cons_append, List.nodup_cons] at hnodup
    refine ⟨hx, hy, ?_⟩
    have hne : y ≠ p := by
      rintro rfl
      exact hnodup.1 (List.mem_append_right before List.mem_cons_self)
    rw [Function.update_of_ne hne]
    exact ih hrest hnodup.2

theorem Backed.unlink (h : Backed last q (before ++ s :: y :: behind)) (hnodup : (before ++ s :: y :: behind).Nodup) :
    Backed (Function.update last y (last s)) q (before ++ y :: behind) := by
  induction before generalizing q with
  | nil =>
    obtain ⟨hs, _, hrest⟩ := h
    refine ⟨by rw [Function.update_self, hs], backed_congr hrest fun z hz => Function.update_of_ne ?_ _ _⟩
    rintro rfl
    exact (List.nodup_cons.mp (List.nodup_cons.mp hnodup).2).1 hz
  | cons w before ih =>
    rw [List.cons_append, List.nodup_cons] at hnodup
    have hne : w ≠ y := by
      rintro rfl
      exact hnodup.1 (List.mem_append_right before (List.mem_cons_of_mem s List.mem_cons_self))
    exact ⟨by rw [Function.update_of_ne hne]; exact h.1, ih h.2 hnodup.2⟩

/-- **A node is taken out** of a doubly linked chain; the first node changes if it is that one. -/
theorem DoublyLinked.unlink (h : DoublyLinked null next last x (before ++ s :: behind)) :
    DoublyLinked null (unlinkNext null next last s) (unlinkLast null next last s) (if x = s then next s else x)
      (before ++ behind) := by
  have hnodup := h.chain.nodup
  constructor
  · cases List.eq_nil_or_concat before with
    | inl hfirst =>
      have hchain := h.chain
      have hbacked := h.backed
      rw [hfirst] at hchain hbacked ⊢
      rw [unlinkNext, if_pos hbacked.1, if_pos hchain.1]
      exact hchain.2.2
    | inr hbehind =>
      obtain ⟨before, p, rfl⟩ := hbehind
      rw [List.concat_eq_append, List.append_assoc, List.singleton_append] at h hnodup ⊢
      have hlast : last s = p := backed_middle h.backed
      have hp : p ≠ null := h.chain.ne_null (List.mem_append_right before List.mem_cons_self)
      have hx : x ≠ s := by
        rintro rfl
        cases before with
        | nil =>
          have hsame := h.chain.1
          exact (List.nodup_cons.mp hnodup).1 (hsame ▸ List.mem_cons_self)
        | cons y before =>
          have hsame := h.chain.1
          exact (List.nodup_cons.mp hnodup).1
            (hsame ▸ List.mem_append_right before (List.mem_cons_of_mem p List.mem_cons_self))
      rw [unlinkNext, hlast, if_neg hp, if_neg hx]
      exact h.chain.unlink
  · have hnext := h.chain.suffix.2.2
    cases behind with
    | nil =>
      rw [unlinkLast, if_pos (show next s = null from hnext), List.append_nil]
      exact backed_left h.backed
    | cons y behind =>
      have hy : next s = y := hnext.1
      rw [unlinkLast, hy, if_neg hnext.2.1]
      exact h.backed.unlink hnodup

/-- Nodes that are not in the chain keep their links, and so does `s`. -/
theorem unlinkNext_outside (h : DoublyLinked null next last x (before ++ s :: behind)) (hy : y ∉ before) :
    unlinkNext null next last s y = next y := by
  unfold unlinkNext
  split
  · rfl
  · rename_i hne
    refine Function.update_of_ne ?_ _ _
    rintro rfl
    exact hy ((last_mem h.backed).resolve_left hne)

theorem unlinkLast_outside (h : DoublyLinked null next last x (before ++ s :: behind)) (hy : y ∉ behind) :
    unlinkLast null next last s y = last y := by
  unfold unlinkLast
  split
  · rfl
  · rename_i hne
    refine Function.update_of_ne ?_ _ _
    rintro rfl
    cases behind with
    | nil => exact hne h.chain.suffix.2.2
    | cons z behind => exact hy (h.chain.suffix.2.2.1 ▸ List.mem_cons_self)

/-! ## Appending a node -/

/-- **A node is appended**, if nothing follows it. -/
theorem DoublyLinked.append (h : DoublyLinked null next last x (l ++ [y])) (hz : z ≠ null) (hzl : z ∉ l ++ [y])
    (hend : next z = null) :
    DoublyLinked null (Function.update next y z) (Function.update last z y) x (l ++ [y] ++ [z]) := by
  refine ⟨h.chain.append h.chain.nodup hz hzl hend, backed_append (backed_congr h.backed fun w hw => ?_) ?_⟩
  · refine Function.update_of_ne ?_ _ _
    rintro rfl
    exact hzl hw
  · exact Function.update_self _ _ _

end CrepOS.Library
