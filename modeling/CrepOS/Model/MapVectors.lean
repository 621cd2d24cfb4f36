import CrepOS.Model.LibMap

/-!
# The vectors of `lib::map`, `lib/map.hpp`

The two vectors of a `lib::map` as they are: a list of tags and a list of data, which only the
operations keep in step. `LibMap` is the same map with the two put together.
-/

set_option autoImplicit false

namespace CrepOS.Model

/-- `lib::map`.
SRCLINE: kernel/lib/map.hpp:8-29 -/
structure MapVectors (F T : Type) where
  tags : List F
  data : List T

namespace MapVectors

variable {F T : Type} [DecidableEq F]

/-- `map()`. -/
def empty : MapVectors F T := ⟨[], []⟩

/-- `operator[]`: the map and the position in `_data` that the reference names. `d` is `T()`.
SRCLINE: kernel/lib/map.hpp:52-62 -/
def place (d : T) (m : MapVectors F T) (k : F) : MapVectors F T × ℕ :=
  match m.tags.findIdx? (· = k) with
  | some i => (m, i)
  | none => (⟨m.tags ++ [k], m.data ++ [d]⟩, m.data.length)

/-- `m[k]` read; no value if the position is not one of `_data`. -/
def read (d : T) (m : MapVectors F T) (k : F) : MapVectors F T × Option T :=
  ((m.place d k).1, (m.place d k).1.data[(m.place d k).2]?)

/-- `m[k] = v`. -/
def assign (d : T) (m : MapVectors F T) (k : F) (v : T) : MapVectors F T :=
  { (m.place d k).1 with data := (m.place d k).1.data.set (m.place d k).2 v }

/-- The loop of `remove` from position `i` on: it compares with the size that the vector has now, and
goes on to the next position also after a removal.
SRCLINE: kernel/lib/map.hpp:65-71 -/
def removeFrom (k : F) (m : MapVectors F T) (i : ℕ) : MapVectors F T :=
  if h : i < m.tags.length then
    if m.tags[i] = k then removeFrom k ⟨m.tags.eraseIdx i, m.data.eraseIdx i⟩ (i + 1)
    else removeFrom k m (i + 1)
  else m
termination_by m.tags.length - i
decreasing_by
  · simp only [List.length_eraseIdx_of_lt h]
    omega
  · omega

/-- `remove`.
SRCLINE: kernel/lib/map.hpp:64-72 -/
def remove (m : MapVectors F T) (k : F) : MapVectors F T := removeFrom k m 0

end MapVectors

end CrepOS.Model
