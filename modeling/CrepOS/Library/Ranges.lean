import Mathlib

/-!
# Ranges of numbers that share no number

If the elements of a list stand for ranges that are apart from each other and end at or before `n`, the
lengths of the ranges add up to at most `n`.
-/

set_option autoImplicit false

namespace CrepOS.Library

variable {α : Type} {first len : α → ℕ} {l : List α}

/-- The ranges of two elements share no number. -/
def IntervalsApart (first len : α → ℕ) (a b : α) : Prop :=
  first a + len a ≤ first b ∨ first b + len b ≤ first a

/-- The numbers of the ranges, without repetition. -/
theorem exists_rangeUnion (hapart : l.Pairwise (IntervalsApart first len)) :
    ∃ union : Finset ℕ, union.card = (l.map len).sum ∧
      ∀ k ∈ union, ∃ a ∈ l, first a ≤ k ∧ k < first a + len a := by
  induction l with
  | nil => exact ⟨∅, rfl, fun k hk => absurd hk (Finset.notMem_empty k)⟩
  | cons a l ih =>
    obtain ⟨hhead, htail⟩ := List.pairwise_cons.mp hapart
    obtain ⟨union, hcard, hunion⟩ := ih htail
    have hdisjoint : Disjoint (Finset.Ico (first a) (first a + len a)) union := by
      rw [Finset.disjoint_left]
      intro k hk hin
      rw [Finset.mem_Ico] at hk
      obtain ⟨b, hb, hlow, hhigh⟩ := hunion k hin
      have hap := hhead b hb
      unfold IntervalsApart at hap
      omega
    refine ⟨Finset.Ico (first a) (first a + len a) ∪ union, ?_, ?_⟩
    · rw [Finset.card_union_of_disjoint hdisjoint, Nat.card_Ico, Nat.add_sub_cancel_left, hcard]
      rfl
    · intro k hk
      rcases Finset.mem_union.mp hk with hk | hk
      · rw [Finset.mem_Ico] at hk
        exact ⟨a, List.mem_cons_self, hk⟩
      · obtain ⟨b, hb, hbounds⟩ := hunion k hk
        exact ⟨b, List.mem_cons_of_mem _ hb, hbounds⟩

/-- **Ranges that are apart have no more numbers than there are.** -/
theorem sum_len_le {n : ℕ} (hapart : l.Pairwise (IntervalsApart first len))
    (hbound : ∀ a ∈ l, first a + len a ≤ n) : (l.map len).sum ≤ n := by
  obtain ⟨union, hcard, hunion⟩ := exists_rangeUnion hapart
  have hsub : union ⊆ Finset.range n := by
    intro k hk
    obtain ⟨a, ha, -, hhigh⟩ := hunion k hk
    have hle := hbound a ha
    rw [Finset.mem_range]
    omega
  have hle := Finset.card_le_card hsub
  rwa [hcard, Finset.card_range] at hle

end CrepOS.Library
