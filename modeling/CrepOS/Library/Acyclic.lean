import Mathlib.Data.Finset.Card
import Mathlib.Data.Finset.Range
import Mathlib.Logic.Relation

/-!
# Relations without cycles

If the successors of a number are bounded and no number of a closed set is its own descendant, the set can be gone
through by induction from the descendants on.
-/

set_option autoImplicit false

namespace CrepOS.Library

open Relation

variable {r : ℕ → ℕ → Prop} {P Q : ℕ → Prop} {N : ℕ}

/-- **Induction along the successors.** A number has more descendants than each of its successors. -/
theorem acyclic_induction (hbound : ∀ n m, r n m → m < N) (hclosed : ∀ n m, P n → r n m → P m)
    (hacyclic : ∀ n, P n → ¬ TransGen r n n) (hstep : ∀ n, P n → (∀ m, r n m → Q m) → Q n) : ∀ n, P n → Q n := by
  classical
  have hfewer : ∀ n m, P n → r n m → ((Finset.range N).filter fun z => TransGen r m z).card <
      ((Finset.range N).filter fun z => TransGen r n z).card := by
    intro n m hn hm
    apply Finset.card_lt_card
    refine ⟨fun z hz => ?_, fun hsub => ?_⟩
    · obtain ⟨hz, hdesc⟩ := Finset.mem_filter.mp hz
      exact Finset.mem_filter.mpr ⟨hz, TransGen.head hm hdesc⟩
    · have hself : m ∈ (Finset.range N).filter fun z => TransGen r n z :=
        Finset.mem_filter.mpr ⟨Finset.mem_range.mpr (hbound n m hm), TransGen.single hm⟩
      exact hacyclic m (hclosed n m hn hm) (Finset.mem_filter.mp (hsub hself)).2
  intro n hn
  induction hcard : ((Finset.range N).filter fun z => TransGen r n z).card using Nat.strong_induction_on generalizing n with
  | _ k ih =>
    refine hstep n hn fun m hm => ?_
    exact ih _ (hcard ▸ hfewer n m hn hm) m (hclosed n m hn hm) rfl

/-- A bound that is enough for each of finitely many numbers is enough for all of them, if it may be larger. -/
theorem common_bound {R : ℕ → ℕ → Prop} (hmono : ∀ n k k', k ≤ k' → R n k → R n k')
    (h : ∀ n < N, Q n → ∃ k, R n k) : ∃ k, ∀ n < N, Q n → R n k := by
  induction N with
  | zero => exact ⟨0, fun n hn => absurd hn (Nat.not_lt_zero n)⟩
  | succ N ih =>
    obtain ⟨k, hk⟩ := ih fun n hn => h n (Nat.lt_succ_of_lt hn)
    by_cases hN : Q N
    · obtain ⟨l, hl⟩ := h N (Nat.lt_succ_self N) hN
      refine ⟨max k l, fun n hn hq => ?_⟩
      cases Nat.lt_succ_iff_lt_or_eq.mp hn with
      | inl hlt => exact hmono n k _ (Nat.le_max_left k l) (hk n hlt hq)
      | inr heq => exact heq ▸ hmono N l _ (Nat.le_max_right k l) hl
    · refine ⟨k, fun n hn hq => ?_⟩
      cases Nat.lt_succ_iff_lt_or_eq.mp hn with
      | inl hlt => exact hk n hlt hq
      | inr heq => exact absurd (heq ▸ hq) hN

end CrepOS.Library
