import CrepOS.Model.MapVectors

/-!
# A map as a finite map

What a map is for: `m[k]` is the value last assigned to `k`, a default value if there is none, which is
then entered. `Bindings` is that view, a partial function with the same operations, and `bindings` reads
it off the two vectors.
-/

set_option autoImplicit false

namespace CrepOS.Interface

open CrepOS.Model

variable {F T : Type} [DecidableEq F]

/-- The operations. -/
inductive MapOp (F T : Type)
  | assign (k : F) (v : T)
  | read (k : F)
  | remove (k : F)

/-- What an operation does to the vectors. -/
def MapOp.exec (d : T) (m : MapVectors F T) : MapOp F T → MapVectors F T
  | .assign k v => m.assign d k v
  | .read k => (m.read d k).1
  | .remove k => m.remove k

/-- A finite map. -/
abbrev Bindings (F T : Type) := F → Option T

/-- What an operation does to the finite map. -/
def MapOp.onBindings (d : T) (f : Bindings F T) : MapOp F T → Bindings F T
  | .assign k v => Function.update f k (some v)
  | .read k => Function.update f k (some ((f k).getD d))
  | .remove k => Function.update f k none

/-- The entries of the two vectors. -/
def entries (m : MapVectors F T) : List (F × T) := m.tags.zip m.data

/-- The finite map of the two vectors. -/
def bindings (m : MapVectors F T) : Bindings F T := fun k => lookupEntry k (entries m)

end CrepOS.Interface
