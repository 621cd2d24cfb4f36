import Mathlib.Data.List.Nodup
import Mathlib.Data.List.Perm.Subperm

/-!
# The one that has waited longest

The elements of a list have ages. Who is chosen is the first of the oldest, its age is set back to
zero, and the ages of the others grow alike. `Ahead l age j k` says that `j` is chosen before `k`,
and `aheadOf l age k` are the elements of which that is so. They become fewer with every choice that
is not `k`, and never more: not when all grow older, not when an element is added at the end with
age zero, not when an age is set back.
-/

set_option autoImplicit false

namespace CrepOS.Library

variable {α : Type} [DecidableEq α]

/-- `j` is older than `k`, or as old and earlier in the list. -/
def Ahead (l : List α) (age : α → ℕ) (j k : α) : Prop :=
  age k < age j ∨ age j = age k ∧ l.idxOf j < l.idxOf k

instance (l : List α) (age : α → ℕ) (j k : α) : Decidable (Ahead l age j k) :=
  inferInstanceAs (Decidable (_ ∨ _))

/-- The elements that are chosen before `k`. -/
def aheadOf (l : List α) (age : α → ℕ) (k : α) : List α := l.filter fun j => Ahead l age j k

variable {l l' : List α} {age age' : α → ℕ} {j k p : α}

theorem mem_aheadOf : j ∈ aheadOf l age k ↔ j ∈ l ∧ Ahead l age j k := by
  simp [aheadOf]

/-- INTERNAL: who is ahead afterwards was ahead before. -/
theorem aheadOf_le (hnodup : l'.Nodup)
    (h : ∀ j ∈ l', Ahead l' age' j k → j ∈ l ∧ Ahead l age j k) :
    (aheadOf l' age' k).length ≤ (aheadOf l age k).length := by
  refine (List.Nodup.subperm (hnodup.filter _) ?_).length_le
  intro j hj
  obtain ⟨hj, hahead⟩ := mem_aheadOf.mp hj
  exact mem_aheadOf.mpr (h j hj hahead)

/-- INTERNAL: and one that was ahead is so no longer. -/
theorem aheadOf_lt (hnodup : l'.Nodup)
    (h : ∀ j ∈ l', Ahead l' age' j k → j ∈ l ∧ Ahead l age j k) (hp : p ∈ l)
    (hahead : Ahead l age p k) (hnot : ¬ Ahead l' age' p k) :
    (aheadOf l' age' k).length + 1 ≤ (aheadOf l age k).length := by
  have hcons : (p :: aheadOf l' age' k).Nodup := by
    refine List.nodup_cons.mpr ⟨fun hin => ?_, hnodup.filter _⟩
    exact hnot (mem_aheadOf.mp hin).2
  have hsub : p :: aheadOf l' age' k ⊆ aheadOf l age k := by
    intro j hj
    rcases List.mem_cons.mp hj with rfl | hj
    · exact mem_aheadOf.mpr ⟨hp, hahead⟩
    · obtain ⟨hj, hj'⟩ := mem_aheadOf.mp hj
      exact mem_aheadOf.mpr (h j hj hj')
  exact (List.Nodup.subperm hcons hsub).length_le

/-- INTERNAL: two elements that grow older alike keep their order. -/
theorem ahead_of_aged {d : ℕ} (hj : age' j = age j + d) (hk : age' k = age k + d) :
    Ahead l age' j k ↔ Ahead l age j k := by
  unfold Ahead
  rw [hj, hk]
  omega

/-- INTERNAL: who has been set back is behind everyone who has an age. -/
theorem not_ahead_of_reset (hp : age p = 0) (hk : 0 < age k) : ¬ Ahead l age p k := by
  unfold Ahead
  omega

/-- INTERNAL: elements that are added at the end, or set back, do not come ahead of an old one. -/
theorem ahead_of_younger (hl : l <+: l') (hk : k ∈ l) (hage : age' k = age k)
    (h : ∀ j ∈ l', j ∈ l ∧ age' j = age j ∨ age' j = 0) :
    ∀ j ∈ l', Ahead l' age' j k → j ∈ l ∧ Ahead l age j k := by
  obtain ⟨added, rfl⟩ := hl
  have hidx : ∀ j ∈ l, (l ++ added).idxOf j = l.idxOf j := fun j hj => List.idxOf_append_of_mem hj
  intro j hj hahead
  unfold Ahead at hahead ⊢
  rw [hage, hidx k hk] at hahead
  by_cases hin : j ∈ l
  · rw [hidx j hin] at hahead
    refine ⟨hin, ?_⟩
    rcases h j hj with ⟨-, hsame⟩ | hzero
    · rwa [hsame] at hahead
    · omega
  · -- a new element is behind `k` in the list, and as young as can be
    have hlt : l.idxOf k < l.length := List.idxOf_lt_length_iff.mpr hk
    have hge : l.length ≤ (l ++ added).idxOf j := by
      rw [List.idxOf_append_of_notMem hin]
      omega
    have hzero : age' j = 0 := (h j hj).resolve_left fun hold => hin hold.1
    omega

/-- INTERNAL: the first of the oldest is ahead of every other one. -/
theorem ahead_of_first {before later : List α} (hnodup : (before ++ p :: later).Nodup)
    (hk : k ∈ before ++ p :: later) (hne : k ≠ p) (hbefore : k ∈ before → age k < age p)
    (hlater : k ∈ later → age k ≤ age p) : Ahead (before ++ p :: later) age p k := by
  unfold Ahead
  rcases List.mem_append.mp hk with hk | hk
  · exact .inl (hbefore hk)
  · have hk : k ∈ later := (List.mem_cons.mp hk).resolve_left hne
    have hp : p ∉ before := fun hp =>
      List.disjoint_of_nodup_append hnodup hp (List.mem_cons_self ..)
    have hkb : k ∉ before := fun hkb =>
      List.disjoint_of_nodup_append hnodup hkb (List.mem_cons_of_mem _ hk)
    have hle := hlater hk
    have hidx : (before ++ p :: later).idxOf p < (before ++ p :: later).idxOf k := by
      rw [List.idxOf_append_of_notMem hp, List.idxOf_append_of_notMem hkb, List.idxOf_cons_self,
        List.idxOf_cons_ne _ (Ne.symm hne)]
      omega
    omega

end CrepOS.Library
