import CrepOS.Model.Slab

/-!
# `cache::move_slab` on any two lists

`moveSlab` of `CrepOS.Model.Slab` is the call with two lists of one cache. Here the heads are what the two pointers point
to, and the value that is returned is kept.
-/

set_option autoImplicit false

namespace CrepOS.Model

open CrepOS.Library

/-- The headers of the slabs, and the heads of the two lists. -/
structure SlabLists where
  slabs : ℕ → Slab
  dest : ℕ
  src : ℕ

/-- The neighbours of `src` are linked to each other.
SRCLINE: kernel/mm/slab.cpp:108-111 -/
def unlinkSlab (slabs : ℕ → Slab) (s : ℕ) : ℕ → Slab :=
  let next := (slabs s).next
  let slabs := if next ≠ 0 then Function.update slabs next { slabs next with last := (slabs s).last } else slabs
  let last := (slabs s).last
  if last ≠ 0 then Function.update slabs last { slabs last with next := (slabs s).next } else slabs

/-- `src` is put behind `node`.
SRCLINE: kernel/mm/slab.cpp:125-126 -/
def linkSlab (slabs : ℕ → Slab) (s node : ℕ) : ℕ → Slab :=
  let slabs := Function.update slabs node { slabs node with next := s }
  Function.update slabs s { slabs s with last := node }

/-- `cache::move_slab`, with the value it returns; `none` if the walk to the last slab takes more than `fuel` steps.
SRCLINE: kernel/mm/slab.cpp:104-129 -/
def moveSlabs (fuel : ℕ) (x : SlabLists) (s : ℕ) : Option (SlabLists × ℤ) :=
  if s = 0 ∨ x.src = 0 then some (x, -1)
  else
    let slabs := unlinkSlab x.slabs s
    let src := if x.src = s then (slabs s).next else x.src
    if x.dest = 0 then some (⟨Function.update slabs s { slabs s with last := 0, next := 0 }, s, src⟩, 0)
    else (lastNode 0 (fun t => (slabs t).next) fuel x.dest).map fun node => (⟨linkSlab slabs s node, x.dest, src⟩, 0)

end CrepOS.Model
