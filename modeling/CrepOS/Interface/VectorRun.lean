import CrepOS.Model.LibVector

/-!
# Sequences of vector operations

The vectors of a program are numbered, and an operation names those it is applied to. Beside the
operations of `lib::vector` stand those of lists, which are what the vectors are for: each vector
holds a list, and `remove` of an index that the list does not have changes nothing.

`Meets` is the condition on one operation, in the state before it: of elements with a destructor
nothing is copied but empty vectors, and no vector is given up whose block is empty; `push` finds room
behind the elements or no capacity left, and `remove` is not asked for the position behind the last
element.
-/

set_option autoImplicit false

namespace CrepOS.Interface

open CrepOS.Model

variable {α : Type}

/-- The operations; `junk` is what new arrays contain. -/
inductive VectorOp (α : Type)
  | construct (x : ℕ)
  | copy (x y : ℕ) (junk : ℕ → α)
  | assign (x y : ℕ) (junk : ℕ → α)
  | push (x : ℕ) (a : α) (junk : ℕ → α)
  | pop (x : ℕ)
  | remove (x index : ℕ) (junk : ℕ → α)
  | destroy (x : ℕ)

/-- The vectors of a program. -/
abbrev Vectors (α : Type) := ℕ → LibVector α

/-- The lists that they are for. -/
abbrev VectorLists (α : Type) := ℕ → List α

/-- What an operation does to the vectors; no result if it leaves a block. -/
def VectorOp.exec (ty : ElementType α) (st : Vectors α) : VectorOp α → Option (Vectors α)
  | .construct x => some (Function.update st x .empty)
  | .copy x y junk => ((st y).copy ty junk).map (Function.update st x)
  | .assign x y junk => ((st x).assign ty junk (st y)).map (Function.update st x)
  | .push x a junk => ((st x).push ty junk a).map (Function.update st x)
  | .pop x => ((st x).pop ty).map fun r => Function.update st x r.1
  | .remove x index junk => ((st x).remove ty junk index).map (Function.update st x)
  | .destroy x => ((st x).destroy ty).map fun _ => Function.update st x .empty

/-- What an operation does to the lists. -/
def VectorOp.onLists (ls : VectorLists α) : VectorOp α → VectorLists α
  | .construct x => Function.update ls x []
  | .copy x y _ => Function.update ls x (ls y)
  | .assign x y _ => Function.update ls x (ls y)
  | .push x a _ => Function.update ls x (ls x ++ [a])
  | .pop x => Function.update ls x (ls x).dropLast
  | .remove x index _ => Function.update ls x ((ls x).eraseIdx index)
  | .destroy x => Function.update ls x []

/-- An operation that may be called: `pop` only on a list with elements. -/
def VectorOp.Allowed (ls : VectorLists α) : VectorOp α → Prop
  | .pop x => ls x ≠ []
  | _ => True

/-- The elements of a vector. -/
def elementsOf (v : LibVector α) : List α :=
  match v.elements with
  | none => []
  | some b => (List.range v.bufSize).map b.cells

/-- The length of the block. -/
def blockLength (v : LibVector α) : ℕ :=
  match v.elements with
  | none => 0
  | some b => b.length

/-- A copy of the vector finds no objects to destroy. -/
def Copyable (ty : ElementType α) (v : LibVector α) : Prop := v.bufSize = 0 ∨ ty.trivial = true

/-- `delete elements` finds an object to destroy, if the destructor does anything. -/
def Deletable (ty : ElementType α) (v : LibVector α) : Prop :=
  v.elements = none ∨ ty.trivial = true ∨ 0 < blockLength v

/-- **The condition on an operation**, in the state before it. -/
def VectorOp.Meets (ty : ElementType α) (st : Vectors α) : VectorOp α → Prop
  | .construct _ => True
  | .copy _ y _ => Copyable ty (st y)
  | .assign x y _ => Copyable ty (st y) ∧ Deletable ty (st x)
  | .push x _ _ => (st x).bufSize < (st x).bufCap → (st x).bufSize < blockLength (st x)
  | .pop _ => True
  | .remove x index _ => index ≠ (st x).bufSize
  | .destroy x => Deletable ty (st x)

/-- Every operation of the sequence may be called, on the lists it would meet. -/
def AllAllowed (ls : VectorLists α) : List (VectorOp α) → Prop
  | [] => True
  | op :: ops => op.Allowed ls ∧ AllAllowed (op.onLists ls) ops

/-- **The vectors act as the lists** in a sequence of operations: no operation leaves a block, and
after each of them the elements of each vector are its list. -/
def ActsAsLists (ty : ElementType α) (st : Vectors α) (ls : VectorLists α) : List (VectorOp α) → Prop
  | [] => True
  | op :: ops => ∃ st', op.exec ty st = some st' ∧ (∀ x, elementsOf (st' x) = op.onLists ls x) ∧
      ActsAsLists ty st' (op.onLists ls) ops

/-- Every operation of the sequence meets the condition. -/
def AllMeet (ty : ElementType α) (st : Vectors α) : List (VectorOp α) → Prop
  | [] => True
  | op :: ops => op.Meets ty st ∧ ∀ st', op.exec ty st = some st' → AllMeet ty st' ops

end CrepOS.Interface
