import Mathlib.Data.List.Nodup
import Mathlib.Logic.Function.Basic

/-!
# Null-terminated chains of nodes

A chain is given by a function `next` from nodes to nodes and ends where `next` is `null`. `Chain`
says which nodes it visits, `Backed` that their back links are right. The two walks that programs make along a chain, to its last node and to
the first node with a property, are functions with fuel; with more fuel than nodes they return what
the list of nodes says.
-/

set_option autoImplicit false

namespace CrepOS.Library

variable {F : Type} [DecidableEq F] {null : F} {next next' : F → F}

/-- The nodes from `x` on are `l`. -/
def Chain (null : F) (next : F → F) : F → List F → Prop
  | x, [] => x = null
  | x, y :: l => x = y ∧ y ≠ null ∧ Chain null next (next y) l

/-- The back links `last` of the nodes `l`, of which the first comes after `p`. -/
def Backed (last : F → F) : F → List F → Prop
  | _, [] => True
  | p, y :: l => last y = p ∧ Backed last y l

/-- Follow `next` from the node `x` to the last node. -/
def lastNode (null : F) (next : F → F) : ℕ → F → Option F
  | 0, _ => none
  | n + 1, x => if next x = null then some x else lastNode null next n (next x)

/-- Follow `next` from the node `x` to the first node that satisfies `p`; `some none` is the end of
the chain. -/
def findNode (null : F) (next : F → F) (p : F → Bool) : ℕ → F → Option (Option F)
  | 0, _ => none
  | n + 1, x =>
    if p x then some (some x)
    else if next x = null then some none
    else findNode null next p n (next x)

omit [DecidableEq F] in
theorem Chain.ne_null {x y : F} {l : List F} (h : Chain null next x l) (hy : y ∈ l) :
    y ≠ null := by
  induction l generalizing x with
  | nil => cases hy
  | cons z l ih =>
    rcases List.mem_cons.mp hy with rfl | hy
    · exact h.2.1
    · exact ih h.2.2 hy

omit [DecidableEq F] in
theorem Chain.congr {x : F} {l : List F} (h : Chain null next x l)
    (hnext : ∀ y ∈ l, next' y = next y) : Chain null next' x l := by
  induction l generalizing x with
  | nil => exact h
  | cons z l ih =>
    refine ⟨h.1, h.2.1, ?_⟩
    rw [hnext z List.mem_cons_self]
    exact ih h.2.2 fun y hy => hnext y (List.mem_cons_of_mem z hy)

omit [DecidableEq F] in
/-- The nodes of a chain are determined by its first one. -/
theorem Chain.unique {x : F} {l l' : List F} (h : Chain null next x l) (h' : Chain null next x l') :
    l = l' := by
  induction l generalizing x l' with
  | nil =>
    cases l' with
    | nil => rfl
    | cons y l' => exact absurd (h'.1.symm.trans h) h'.2.1
  | cons z l ih =>
    obtain ⟨hxz, hz, hrest⟩ := h
    cases l' with
    | nil => exact absurd (hxz.symm.trans h') hz
    | cons y l' =>
      obtain ⟨hxy, -, hrest'⟩ := h'
      obtain rfl : z = y := hxz.symm.trans hxy
      rw [ih hrest hrest']

omit [DecidableEq F] in
theorem backed_congr {last last' : F → F} {p : F} {l : List F} (h : Backed last p l)
    (hlast : ∀ y ∈ l, last' y = last y) : Backed last' p l := by
  induction l generalizing p with
  | nil => trivial
  | cons y l ih =>
    refine ⟨?_, ih h.2 fun z hz => hlast z (List.mem_cons_of_mem y hz)⟩
    rw [hlast y List.mem_cons_self]
    exact h.1

omit [DecidableEq F] in
/-- A node with a link back to the last one is appended. -/
theorem backed_append {last : F → F} {p y z : F} {l : List F} (h : Backed last p (l ++ [y]))
    (hz : last z = y) : Backed last p (l ++ [y] ++ [z]) := by
  induction l generalizing p with
  | nil => exact ⟨h.1, hz, trivial⟩
  | cons w l ih => exact ⟨h.1, ih h.2⟩

/-- The walk to the last node. -/
theorem Chain.lastNode {x y : F} {l : List F} (h : Chain null next x (l ++ [y])) {n : ℕ}
    (hn : l.length < n) : lastNode null next n x = some y := by
  induction l generalizing x n with
  | nil =>
    obtain ⟨rfl, -, hend⟩ := h
    obtain ⟨m, rfl⟩ : ∃ m, n = m + 1 := ⟨n - 1, by simp at hn; omega⟩
    rw [Library.lastNode, if_pos (show next x = null from hend)]
  | cons z l ih =>
    obtain ⟨rfl, -, hrest⟩ := h
    obtain ⟨m, rfl⟩ : ∃ m, n = m + 1 := ⟨n - 1, by simp at hn; omega⟩
    have hne : next x ≠ null := by
      intro hnull
      cases l with
      | nil => exact hrest.2.1 (hrest.1 ▸ hnull)
      | cons w l => exact hrest.2.1 (hrest.1 ▸ hnull)
    rw [Library.lastNode, if_neg hne]
    exact ih hrest (by simp at hn; omega)

/-- The walk to the first node with a property. -/
theorem Chain.findNode {x : F} {l : List F} (h : Chain null next x l) (hl : l ≠ []) (p : F → Bool)
    {n : ℕ} (hn : l.length ≤ n) : findNode null next p n x = some (l.find? p) := by
  induction l generalizing x n with
  | nil => exact absurd rfl hl
  | cons z l ih =>
    obtain ⟨rfl, -, hrest⟩ := h
    obtain ⟨m, rfl⟩ : ∃ m, n = m + 1 := ⟨n - 1, by simp at hn; omega⟩
    rw [Library.findNode, List.find?_cons]
    cases hp : p x with
    | true => rfl
    | false =>
      rw [if_neg Bool.noConfusion]
      cases l with
      | nil => exact if_pos (show next x = null from hrest)
      | cons w l =>
        rw [if_neg (hrest.1 ▸ hrest.2.1)]
        exact ih hrest nofun (by simpa using hn)

/-- A node is appended to a chain by a write to its last node. -/
theorem Chain.append {x y z : F} {l : List F} (h : Chain null next x (l ++ [y]))
    (hnodup : (l ++ [y]).Nodup) (hz : z ≠ null) (hzl : z ∉ l ++ [y]) (hend : next z = null) :
    Chain null (Function.update next y z) x (l ++ [y] ++ [z]) := by
  induction l generalizing x with
  | nil =>
    obtain ⟨rfl, hx, -⟩ := h
    have hzx : z ≠ x := by
      rintro rfl
      exact hzl List.mem_cons_self
    refine ⟨rfl, hx, Function.update_self _ _ _, hz, ?_⟩
    rw [Function.update_of_ne hzx]
    exact hend
  | cons w l ih =>
    obtain ⟨rfl, hx, hrest⟩ := h
    rw [List.cons_append, List.nodup_cons] at hnodup
    have hne : x ≠ y := by
      rintro rfl
      exact hnodup.1 (List.mem_append_right l List.mem_cons_self)
    refine ⟨rfl, hx, ?_⟩
    rw [Function.update_of_ne hne]
    exact ih hrest hnodup.2 fun hin => hzl (List.mem_cons_of_mem x hin)

end CrepOS.Library
