import Mathlib.Data.Int.ModEq
import Mathlib.Logic.Function.Basic
import Mathlib.Tactic.Common

/-!
# `lib::vector`, `lib/vector.hpp`

A `lib::vector` is a pointer to a block of elements, the number of elements and the capacity it
believes the block to have. A read, write or destruction of an element that is outside the block has
no result, and so has the call it belongs to. What a call returns otherwise does not depend on where
the blocks are, so a block is its length and its contents.

The element type is a parameter: what an object contains after `std::move` took it, and whether its
destructor does anything. `delete elements` runs that destructor on the first object of the block.
-/

set_option autoImplicit false

namespace CrepOS.Model

variable {α : Type}

/-- What the vector sees of its element type. -/
structure ElementType (α : Type) where
  moved : α → α
  trivial : Bool

/-- An array on the heap. -/
structure Block (α : Type) where
  length : ℕ
  cells : ℕ → α

/-- `block[i]` read. -/
def Block.read (b : Block α) (i : ℕ) : Option α := if i < b.length then some (b.cells i) else none

/-- `new (&block[i]) T(x)`. -/
def Block.write (b : Block α) (i : ℕ) (x : α) : Option (Block α) :=
  if i < b.length then some { b with cells := Function.update b.cells i x } else none

/-- `lib::vector`; `elements` is `none` for `NULL`.
SRCLINE: kernel/lib/vector.hpp:9-52 -/
structure LibVector (α : Type) where
  elements : Option (Block α)
  bufSize : ℕ
  bufCap : ℕ

namespace LibVector

/-- `vector()`.
SRCLINE: kernel/lib/vector.hpp:75-76 -/
def empty : LibVector α := ⟨none, 0, 0⟩

/-- The block, of no objects at `NULL`; `junk` is never read then. -/
def block (v : LibVector α) (junk : ℕ → α) : Block α := v.elements.getD ⟨0, junk⟩

/-- `elements[i].~T()` for `i` from 0 to `n`. A destructor that does nothing touches no object.
SRCLINE: kernel/lib/vector.hpp:80-82, 115-116 -/
def destroyAll (ty : ElementType α) (elements : Option (Block α)) : ℕ → Option Unit
  | 0 => some ()
  | n + 1 =>
    if ty.trivial then some ()
    else
      match elements with
      | none => none
      | some b => if n < b.length then destroyAll ty elements n else none

/-- `delete elements`, which is no array delete: it destroys the first object.
SRCLINE: kernel/lib/vector.hpp:83, 118, 140 -/
def deleteElements (ty : ElementType α) : Option (Block α) → Option Unit
  | none => some ()
  | some b => if ty.trivial = true ∨ 0 < b.length then some () else none

/-- `new (&to[d + i]) T(std::move(from[s + i]))` for `i` from 0 to `n`.
SRCLINE: kernel/lib/vector.hpp:112-113, 132-138 -/
def moveElements (ty : ElementType α) (src dst : Block α) (s d : ℕ) : ℕ → Option (Block α × Block α)
  | 0 => some (src, dst)
  | n + 1 => do
    let (src, dst) ← moveElements ty src dst s d n
    let x ← src.read (s + n)
    let dst ← dst.write (d + n) x
    let src ← src.write (s + n) (ty.moved x)
    some (src, dst)

/-- `new (&elements[i]) T(other[i])` for `i` from 0 to `n`.
SRCLINE: kernel/lib/vector.hpp:65-67 -/
def copyElements (src dst : Block α) : ℕ → Option (Block α)
  | 0 => some dst
  | n + 1 => do
    let dst ← copyElements src dst n
    let x ← src.read n
    dst.write n x

/-- `internal_resize`; `junk` is what the new array contains.
SRCLINE: kernel/lib/vector.hpp:105-122 -/
def internalResize (ty : ElementType α) (junk : ℕ → α) (v : LibVector α) (cap : ℕ) :
    Option (LibVector α) :=
  if cap ≤ v.bufCap then some v
  else do
    let newCap := cap * 2
    let (src, newArr) ← moveElements ty (v.block junk) ⟨newCap, junk⟩ 0 0 v.bufCap
    let elements := v.elements.map fun _ => src
    destroyAll ty elements v.bufSize
    deleteElements ty elements
    some ⟨some newArr, v.bufSize, newCap⟩

/-- The copy constructor, which sets the size before there is a block.
SRCLINE: kernel/lib/vector.hpp:61-68 -/
def copy (ty : ElementType α) (junk : ℕ → α) (other : LibVector α) : Option (LibVector α) := do
  let v ← internalResize ty junk ⟨none, other.bufSize, 0⟩ other.bufSize
  let b ← copyElements (other.block junk) (v.block junk) v.bufSize
  some { v with elements := v.elements.map fun _ => b }

/-- The destructor.
SRCLINE: kernel/lib/vector.hpp:78-84 -/
def destroy (ty : ElementType α) (v : LibVector α) : Option Unit := do
  destroyAll ty v.elements v.bufSize
  deleteElements ty v.elements

/-- `operator=`: the argument is a copy, with which the vector is swapped and which is destroyed.
SRCLINE: kernel/lib/vector.hpp:18-21, 54-59 -/
def assign (ty : ElementType α) (junk : ℕ → α) (v other : LibVector α) : Option (LibVector α) := do
  let copied ← copy ty junk other
  destroy ty v
  some copied

/-- `push`.
SRCLINE: kernel/lib/vector.hpp:86-96 -/
def push (ty : ElementType α) (junk : ℕ → α) (v : LibVector α) (x : α) : Option (LibVector α) := do
  let v ← internalResize ty junk v (v.bufSize + 1)
  let elements ← v.elements
  let b ← elements.write v.bufSize x
  some { v with elements := some b, bufSize := v.bufSize + 1 }

/-- `pop` of a vector that is not empty, with the element it returns.
SRCLINE: kernel/lib/vector.hpp:98-103 -/
def pop (ty : ElementType α) (v : LibVector α) : Option (LibVector α × α) := do
  let b ← v.elements
  let x ← b.read (v.bufSize - 1)
  let b ← b.write (v.bufSize - 1) (ty.moved x)
  some ({ v with elements := some b, bufSize := v.bufSize - 1 }, x)

/-- `buf_size - 1` in `size_t`. -/
def predSize (n : ℕ) : ℕ := if n = 0 then 2 ^ 64 - 1 else n - 1

/-- `remove`. The capacity stays as it was, the new block is as long as it needs to be.
SRCLINE: kernel/lib/vector.hpp:124-144 -/
def remove (ty : ElementType α) (junk : ℕ → α) (v : LibVector α) (index : ℕ) : Option (LibVector α) :=
  if v.bufSize < index then some v
  else do
    let (src, newArr) ← moveElements ty (v.block junk) ⟨predSize v.bufSize, junk⟩ 0 0 index
    let (src, newArr) ← moveElements ty src newArr (index + 1) index (v.bufSize - (index + 1))
    deleteElements ty (v.elements.map fun _ => src)
    some { v with elements := some newArr, bufSize := predSize v.bufSize }

end LibVector

end CrepOS.Model
