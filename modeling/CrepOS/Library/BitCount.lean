import CrepOS.Library.ByteMemory
import Mathlib.Data.Finset.Card
import Mathlib.Order.Interval.Finset.Nat

/-!
# Counting the bits of a bit array

`m.countBits base n` is the number of set bits among the first `n` bits of the array at `base`. Setting a
run of clear bits adds its length, clearing a run of set bits takes it away, and the one undoes the other.
-/

set_option autoImplicit false

namespace CrepOS.Library.Memory

/-- The number of set bits among the first `n`. -/
def countBits (m : Memory) (base n : ℕ) : ℕ :=
  ((Finset.range n).filter fun j => m.bit base j = true).card

section Count

variable {m m' : Memory} {base n i k : ℕ}

theorem countBits_le : m.countBits base n ≤ n := by
  have hle := Finset.card_filter_le (Finset.range n) fun j => m.bit base j = true
  rwa [Finset.card_range] at hle

/-- All bits are set if and only if their number is the largest. -/
theorem countBits_eq_iff : m.countBits base n = n ↔ ∀ j < n, m.bit base j = true := by
  unfold countBits
  constructor
  · intro h j hj
    have hfull := Finset.filter_card_eq (s := Finset.range n) (by rw [h, Finset.card_range])
    exact hfull j (Finset.mem_range.mpr hj)
  · intro h
    rw [Finset.filter_true_of_mem fun j hj => h j (Finset.mem_range.mp hj), Finset.card_range]

/-- Memories with the same bits have the same number of them. -/
theorem countBits_congr (h : ∀ j < n, m.bit base j = m'.bit base j) :
    m.countBits base n = m'.countBits base n := by
  unfold countBits
  congr 1
  apply Finset.filter_congr
  intro j hj
  rw [h j (Finset.mem_range.mp hj)]

/-- The number of bits in two memories that differ in one run, clear in the first and set in the second. -/
theorem countBits_run (hin : i + k ≤ n) (hclear : ∀ j, i ≤ j → j < i + k → m.bit base j = false)
    (hset : ∀ j < n, m'.bit base j = (decide (i ≤ j ∧ j < i + k) || m.bit base j)) :
    m'.countBits base n = m.countBits base n + k := by
  have hunion : ((Finset.range n).filter fun j => m'.bit base j = true) =
      ((Finset.range n).filter fun j => m.bit base j = true) ∪ Finset.Ico i (i + k) := by
    ext j
    simp only [Finset.mem_filter, Finset.mem_range, Finset.mem_union, Finset.mem_Ico]
    constructor
    · rintro ⟨hj, hbit⟩
      rw [hset j hj, Bool.or_eq_true, decide_eq_true_eq] at hbit
      exact hbit.symm.imp (fun h => ⟨hj, h⟩) id
    · rintro (⟨hj, hbit⟩ | hrun)
      · refine ⟨hj, ?_⟩
        rw [hset j hj, hbit, Bool.or_true]
      · have hj : j < n := by omega
        refine ⟨hj, ?_⟩
        rw [hset j hj, decide_eq_true hrun, Bool.true_or]
  have hdisjoint : Disjoint ((Finset.range n).filter fun j => m.bit base j = true)
      (Finset.Ico i (i + k)) := by
    rw [Finset.disjoint_left]
    intro j hj hrun
    rw [Finset.mem_filter] at hj
    rw [Finset.mem_Ico] at hrun
    rw [hclear j hrun.1 hrun.2] at hj
    exact absurd hj.2 (by decide)
  unfold countBits
  rw [hunion, Finset.card_union_of_disjoint hdisjoint, Nat.card_Ico, Nat.add_sub_cancel_left]

/-- Setting a run of clear bits. -/
theorem countBits_setRun (hin : i + k ≤ n) (hclear : ∀ j, i ≤ j → j < i + k → m.bit base j = false) :
    (m.setRun base i k).countBits base n = m.countBits base n + k :=
  countBits_run hin hclear fun j _ => bit_setRun m base i k j

/-- Clearing a run of set bits. -/
theorem countBits_clearRun (hin : i + k ≤ n) (hset : ∀ j, i ≤ j → j < i + k → m.bit base j = true) :
    (m.clearRun base i k).countBits base n + k = m.countBits base n := by
  refine (countBits_run hin (fun j hij hjk => ?_) fun j _ => ?_).symm
  · rw [bit_clearRun, decide_eq_false (not_not_intro ⟨hij, hjk⟩), Bool.false_and]
  · rw [bit_clearRun]
    by_cases hrun : i ≤ j ∧ j < i + k
    · rw [hset j hrun.1 hrun.2, decide_eq_true hrun, Bool.true_or]
    · rw [decide_eq_false hrun, decide_eq_true hrun, Bool.false_or, Bool.true_and]

/-- Memories that agree before an array and on its bits are equal. -/
theorem ext_bits (hbelow : ∀ a < base, m a = m' a) (hbits : ∀ j, m.bit base j = m'.bit base j) :
    m = m' := by
  funext a
  by_cases ha : a < base
  · exact hbelow a ha
  · apply BitVec.eq_of_getLsbD_eq
    intro r hr
    have hbit := hbits ((a - base) * 8 + r)
    unfold bit at hbit
    rw [show base + ((a - base) * 8 + r) / 8 = a from by omega,
      show ((a - base) * 8 + r) % 8 = r from by omega] at hbit
    exact hbit

/-- Clearing undoes setting a run that was clear. -/
theorem clearRun_setRun (hclear : ∀ j, i ≤ j → j < i + k → m.bit base j = false) :
    (m.setRun base i k).clearRun base i k = m := by
  have hbelow : ∀ a < base, (m.setRun base i k).clearRun base i k a = m a := by
    intro a ha
    rw [clearRun_apply_of_outside _ fun j _ _ => by omega,
      setRun_apply_of_outside _ fun j _ _ => by omega]
  apply ext_bits hbelow
  intro j
  rw [bit_clearRun, bit_setRun]
  by_cases hrun : i ≤ j ∧ j < i + k
  · rw [hclear j hrun.1 hrun.2, decide_eq_false (not_not_intro hrun), Bool.false_and]
  · rw [decide_eq_false hrun, decide_eq_true hrun, Bool.false_or, Bool.true_and]

end Count

end CrepOS.Library.Memory
