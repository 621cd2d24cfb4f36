import CrepOS.Library.DoublyLinked
import CrepOS.Model.MoveSlab

/-!
# What moving a slab should do
-/

set_option autoImplicit false

namespace CrepOS.Interface

open CrepOS.Library CrepOS.Model

/-- The slabs from `head` on are a list that ends, and is linked in both directions. -/
def LinkedSlabs (slabs : ℕ → Slab) (head : ℕ) (ss : List ℕ) : Prop :=
  DoublyLinked 0 (fun s => (slabs s).next) (fun s => (slabs s).last) head ss

/-- Two lists without a common slab. -/
structure TwoLists (x : SlabLists) (ds ss : List ℕ) : Prop where
  dest : LinkedSlabs x.slabs x.dest ds
  src : LinkedSlabs x.slabs x.src ss
  apart : ds.Disjoint ss

/-- **The slab is moved**: zero is returned, and the slab is not on the one list any more but the last of the
other. -/
def Moved (x : SlabLists) (ds ss : List ℕ) (s : ℕ) : Prop :=
  ∃ fuel x', moveSlabs fuel x s = some (x', 0) ∧ TwoLists x' (ds ++ [s]) (ss.erase s)

end CrepOS.Interface
