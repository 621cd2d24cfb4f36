import Mathlib.Data.Nat.Notation
import Mathlib.Tactic.Common

/-!
# Positions on a ring

Someone who has gone `k` steps around a ring of `n` places stands at place `k % n`. A party that
follows another around a ring can tell how far the other has come if every place is marked with a tag
that changes from one round to the next: `ringTag n k` is the tag of the round of step `k`, `1` in the
first round. `ring_advance` is the step as programs make it, with a comparison and not a division.

`Tagged` is what the marks look like when `k` places have been marked: those before `k % n` in this
round, the others in the round before.
-/

set_option autoImplicit false

namespace CrepOS.Library

/-- The tag of the round of step `k`. -/
def ringTag (n k : ℕ) : ℕ := (k / n + 1) % 2

/-- INTERNAL: the two cases of a step. -/
theorem ring_step {n : ℕ} (hn : 0 < n) (k : ℕ) :
    (k % n + 1 = n ∧ (k + 1) % n = 0 ∧ (k + 1) / n = k / n + 1) ∨
      (k % n + 1 < n ∧ (k + 1) % n = k % n + 1 ∧ (k + 1) / n = k / n) := by
  have hlt := Nat.mod_lt k hn
  have hdiv := Nat.div_add_mod k n
  by_cases hlast : k % n + 1 = n
  · left
    have hk : k + 1 = n * (k / n + 1) := by
      rw [Nat.mul_add, Nat.mul_one]
      omega
    refine ⟨hlast, ?_, ?_⟩
    · rw [hk, Nat.mul_mod_right]
    · rw [hk, Nat.mul_div_cancel_left _ hn]
  · right
    have hk : k + 1 = (k % n + 1) + n * (k / n) := by omega
    refine ⟨by omega, ?_, ?_⟩
    · rw [hk, Nat.add_mul_mod_self_left, Nat.mod_eq_of_lt (by omega)]
    · rw [hk, Nat.add_mul_div_left _ _ hn, Nat.div_eq_of_lt (by omega), Nat.zero_add]

/-- **A step around the ring**, with the change of the tag at the end of a round. -/
theorem ring_advance {n : ℕ} (hn : 0 < n) (k : ℕ) :
    (k + 1) % n = (if k % n + 1 = n then 0 else k % n + 1) ∧
      ringTag n (k + 1) =
        (if k % n + 1 = n then (if ringTag n k = 0 then 1 else 0) else ringTag n k) := by
  unfold ringTag
  rcases ring_step hn k with ⟨hlast, hmod, hdiv⟩ | ⟨hlt, hmod, hdiv⟩
  · rw [if_pos hlast, if_pos hlast, hmod, hdiv]
    refine ⟨rfl, ?_⟩
    split <;> omega
  · rw [if_neg (by omega), if_neg (by omega), hmod, hdiv]
    exact ⟨rfl, rfl⟩

theorem ringTag_lt_two (n k : ℕ) : ringTag n k < 2 := Nat.mod_lt _ (by decide)

/-- The tags of the places after `k` of them have been marked. -/
def Tagged (n k : ℕ) (tag : ℕ → ℕ) : Prop :=
  ∀ i < n, (i < k % n → tag i = ringTag n k) ∧ (k % n ≤ i → tag i ≠ ringTag n k)

/-- The place that is marked next does not have the tag of the round. -/
theorem Tagged.next {n k : ℕ} {tag : ℕ → ℕ} (h : Tagged n k tag) (hn : 0 < n) :
    tag (k % n) ≠ ringTag n k :=
  (h (k % n) (Nat.mod_lt k hn)).2 (Nat.le_refl _)

/-- Marking the next place. -/
theorem Tagged.mark {n k : ℕ} {tag tag' : ℕ → ℕ} (h : Tagged n k tag) (hn : 0 < n)
    (hmark : tag' (k % n) = ringTag n k) (hothers : ∀ i, i ≠ k % n → tag' i = tag i)
    (htag : ∀ i < n, tag i < 2) : Tagged n (k + 1) tag' := by
  obtain ⟨hmod, hround⟩ := ring_advance hn k
  have hlt := Nat.mod_lt k hn
  have htwo := ringTag_lt_two n k
  intro i hi
  have hold := h i hi
  have hbit := htag i hi
  rw [hmod, hround]
  by_cases hik : i = k % n
  · subst hik
    rw [hmark]
    split_ifs <;> omega
  · rw [hothers i hik]
    split_ifs <;> omega

/-- The place that was marked last has the tag of its round. -/
theorem Tagged.last {n k : ℕ} {tag : ℕ → ℕ} (h : Tagged n (k + 1) tag) (hn : 0 < n)
    (htag : ∀ i < n, tag i < 2) : tag (k % n) = ringTag n k := by
  have hlt := Nat.mod_lt k hn
  have hbit := htag (k % n) hlt
  have htwo := ringTag_lt_two n k
  obtain ⟨hbefore, hafter⟩ := h (k % n) hlt
  obtain ⟨hmod, hround⟩ := ring_advance hn k
  rw [hmod, hround] at hbefore hafter
  split_ifs at hbefore hafter <;> omega

end CrepOS.Library
