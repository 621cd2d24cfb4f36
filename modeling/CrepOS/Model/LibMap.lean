import Mathlib.Data.List.Nodup
import Mathlib.Tactic.Common

/-!
# `lib::map`, `lib/map.hpp`

A `lib::map` is a vector of tags and a vector of data of the same length; the model is one list of
pairs, in the order of the vectors, whose tags are pairwise distinct. `operator[]` appends a pair with a
default value if there is none with the tag, so that also a read may change the map (`touch`). `remove`
goes on after it has removed a pair, one position too far: it skips the pair that moved into the place
of the removed one. As the tags are distinct nothing is missed (`lookup_remove`).
-/

set_option autoImplicit false

namespace CrepOS.Model

variable {F T : Type} [DecidableEq F]

/-- The value of the first pair with the tag `k`. -/
def lookupEntry (k : F) : List (F × T) → Option T
  | [] => none
  | (tag, value) :: rest => if tag = k then some value else lookupEntry k rest

/-- `m[k] = v` on the vectors.
SRCLINE: kernel/lib/map.hpp:52-62 -/
def setEntry (k : F) (v : T) : List (F × T) → List (F × T)
  | [] => [(k, v)]
  | (tag, value) :: rest => if tag = k then (tag, v) :: rest else (tag, value) :: setEntry k v rest

/-- `m.remove(k)` on the vectors; the loop skips the pair after a removed one.
SRCLINE: kernel/lib/map.hpp:64-72 -/
def removeEntry (k : F) : List (F × T) → List (F × T)
  | [] => []
  | [(tag, value)] => if tag = k then [] else [(tag, value)]
  | (tag, value) :: next :: rest =>
    if tag = k then next :: removeEntry k rest else (tag, value) :: removeEntry k (next :: rest)

/-! ## The tags -/

theorem setEntry_tags (k : F) (v : T) (l : List (F × T)) :
    (setEntry k v l).map Prod.fst =
      if k ∈ l.map Prod.fst then l.map Prod.fst else l.map Prod.fst ++ [k] := by
  induction l with
  | nil => rfl
  | cons entry rest ih =>
    obtain ⟨tag, value⟩ := entry
    by_cases htag : tag = k
    · subst htag
      simp [setEntry]
    · simp only [setEntry, htag, if_false, List.map_cons, ih, List.mem_cons, Ne.symm htag, false_or]
      split <;> simp

theorem removeEntry_sublist (k : F) (l : List (F × T)) : (removeEntry k l).Sublist l := by
  fun_induction removeEntry k l with
  | case1 => exact List.Sublist.refl _
  | case2 => exact List.nil_sublist _
  | case3 => exact List.Sublist.refl _
  | case4 value next rest ih => exact (ih.cons_cons next).cons _
  | case5 tag value next rest hne ih => exact ih.cons_cons _

/-! ## The values -/

theorem lookupEntry_setEntry (k j : F) (v : T) (l : List (F × T)) :
    lookupEntry j (setEntry k v l) = if j = k then some v else lookupEntry j l := by
  induction l with
  | nil =>
    simp only [setEntry, lookupEntry, eq_comm]
  | cons entry rest ih =>
    obtain ⟨tag, value⟩ := entry
    by_cases htag : tag = k
    · subst htag
      simp only [setEntry, if_true, lookupEntry, eq_comm]
      split <;> rfl
    · rw [setEntry, if_neg htag, lookupEntry, lookupEntry, ih]
      by_cases hj : tag = j
      · subst hj
        simp [htag]
      · simp [hj]

/-- Removing a tag removes its value, as there is only one pair with the tag. -/
theorem lookupEntry_removeEntry (k j : F) {l : List (F × T)} (h : (l.map Prod.fst).Nodup) :
    lookupEntry j (removeEntry k l) = if j = k then none else lookupEntry j l := by
  fun_induction removeEntry k l with
  | case1 => simp [lookupEntry]
  | case2 value => simp only [lookupEntry, eq_comm]; split <;> rfl
  | case3 tag value hne =>
    simp only [lookupEntry]
    split_ifs with hj hk
    · exact absurd (hj.trans hk) hne
    · rfl
    · rfl
    · rfl
  | case4 value next rest ih =>
    simp only [List.map_cons, List.nodup_cons, List.mem_cons, not_or] at h
    obtain ⟨⟨hnext, hrest⟩, -, hnodup⟩ := h
    obtain ⟨ntag, nvalue⟩ := next
    rw [lookupEntry, lookupEntry, lookupEntry, ih hnodup]
    by_cases hj : j = k
    · subst hj
      rw [if_neg (Ne.symm hnext)]
      simp
    · rw [if_neg hj, if_neg hj, if_neg (Ne.symm hj)]
  | case5 tag value next rest hne ih =>
    rw [List.map_cons, List.nodup_cons] at h
    rw [lookupEntry, lookupEntry, ih h.2]
    split_ifs with hj hk
    · exact absurd (hj.trans hk) hne
    · rfl
    · rfl
    · rfl

/-! ## The map -/

/-- `lib::map`.
SRCLINE: kernel/lib/map.hpp:8-27 -/
structure LibMap (F T : Type) where
  entries : List (F × T)
  distinct : (entries.map Prod.fst).Nodup

namespace LibMap

/-- The value of the tag `k`. -/
def lookup (m : LibMap F T) (k : F) : Option T := lookupEntry k m.entries

/-- The map without entries. -/
def empty : LibMap F T := ⟨[], List.nodup_nil⟩

/-- `m[k] = v`.
SRCLINE: kernel/lib/map.hpp:52-62 -/
def set (m : LibMap F T) (k : F) (v : T) : LibMap F T where
  entries := setEntry k v m.entries
  distinct := by
    rw [setEntry_tags]
    split
    · exact m.distinct
    · rename_i hnew
      exact List.nodup_append.mpr ⟨m.distinct, List.nodup_singleton k,
        fun a ha b hb => by rintro rfl; exact hnew (List.mem_singleton.mp hb ▸ ha)⟩

/-- What `m[k]` does to the map when it is read; `v` is the default value.
SRCLINE: kernel/lib/map.hpp:52-62 -/
def touch (m : LibMap F T) (k : F) (v : T) : LibMap F T :=
  match m.lookup k with
  | some _ => m
  | none => m.set k v

/-- The value of `m[k]`. -/
def get (m : LibMap F T) (k : F) (v : T) : T := (m.lookup k).getD v

/-- `m.remove(k)`.
SRCLINE: kernel/lib/map.hpp:64-72 -/
def remove (m : LibMap F T) (k : F) : LibMap F T where
  entries := removeEntry k m.entries
  distinct := m.distinct.sublist ((removeEntry_sublist k m.entries).map Prod.fst)

@[simp] theorem lookup_set (m : LibMap F T) (k j : F) (v : T) :
    (m.set k v).lookup j = if j = k then some v else m.lookup j :=
  lookupEntry_setEntry k j v m.entries

@[simp] theorem lookup_remove (m : LibMap F T) (k j : F) :
    (m.remove k).lookup j = if j = k then none else m.lookup j :=
  lookupEntry_removeEntry k j m.distinct

/-- Reading a value does not change the values. -/
@[simp] theorem get_touch (m : LibMap F T) (k j : F) (v : T) :
    (m.touch k v).get j v = m.get j v := by
  unfold touch
  split
  · rfl
  · rename_i hnone
    unfold get
    rw [lookup_set]
    split
    · rename_i hj
      rw [hj, hnone]
      rfl
    · rfl

@[simp] theorem get_set (m : LibMap F T) (k j : F) (v d : T) :
    (m.set k v).get j d = if j = k then v else m.get j d := by
  unfold get
  rw [lookup_set]
  split <;> rfl

@[simp] theorem get_remove (m : LibMap F T) (k j : F) (d : T) :
    (m.remove k).get j d = if j = k then d else m.get j d := by
  unfold get
  rw [lookup_remove]
  split <;> rfl

end LibMap

end CrepOS.Model
