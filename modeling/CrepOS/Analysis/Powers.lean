import CrepOS.Interface.Numbers
import Mathlib.Tactic.Linarith
import Mathlib.Tactic.Ring

/-!
# `pow` does not overflow

`result * base ^ exp` does not change from one iteration to the next. Each product that is formed divides it, and the
cofactor is a power of a square, so the product is between zero and it. `base` is squared only if it is used again, and
`-2 ^ 63` needs no care: it is not a square.
-/

set_option autoImplicit false

namespace CrepOS.Analysis

open CrepOS.Model CrepOS.Interface

/-- INTERNAL: what fits is not wrapped. -/
theorem wrapSigned_fits {z : ℤ} (h : FitsSigned z) : wrapSigned z = z := wrapSigned_of_bounds h.1 h.2

/-- INTERNAL: what is between zero and a number that fits. -/
theorem fits_of_cofactor {p s : ℤ} (hs : 1 ≤ s) (h : FitsSigned (p * s)) : FitsSigned p := by
  obtain ⟨hlow, hhigh⟩ := h
  by_cases hp : 0 ≤ p
  · have hle : p * 1 ≤ p * s := Int.mul_le_mul_of_nonneg_left hs hp
    constructor
    · omega
    · omega
  · have hle : p * s ≤ p * 1 := Int.mul_le_mul_of_nonpos_left (by omega) hs
    constructor
    · omega
    · omega

/-- INTERNAL: powers of a number that is not zero are not between minus one and one, if they are positive. -/
theorem one_le_square_pow {base : ℤ} (h : base ≠ 0) (n : ℕ) : 1 ≤ (base * base) ^ n := by
  have hsquare : 0 < base * base := mul_self_pos.mpr h
  exact Int.add_one_le_of_lt (pow_pos hsquare n)

/-- INTERNAL: a square is at most `2 ^ 63` only if it is smaller. -/
theorem square_ne (base : ℤ) : base * base ≠ 2 ^ 63 := by
  intro h
  have hsquare : base.natAbs * base.natAbs = 2 ^ 63 := by
    rw [← Int.natAbs_mul, h]
    rfl
  have hlow : 3037000499 < base.natAbs := by
    by_contra hle
    have hmul := Nat.mul_le_mul (Nat.not_lt.mp hle) (Nat.not_lt.mp hle)
    omega
  have hmul := Nat.mul_le_mul hlow hlow
  omega

/-- INTERNAL: the square of `base` fits if it is a factor of a power that does. -/
theorem square_fits {result base : ℤ} {n : ℕ} (hresult : result ≠ 0) (hbase : base ≠ 0)
    (h : FitsSigned (result * (base * base) ^ (n + 1))) : FitsSigned (base * base) := by
  have hpos : 0 < base * base := mul_self_pos.mpr hbase
  have hpow : base * base ≤ (base * base) ^ (n + 1) := by
    rw [pow_succ]
    have hle := Int.mul_le_mul_of_nonneg_right (one_le_square_pow hbase n) (Int.le_of_lt hpos)
    rwa [one_mul] at hle
  have hbound : (base * base) ^ (n + 1) ≤ 2 ^ 63 := by
    obtain ⟨hlow, hhigh⟩ := h
    have hpos' : 0 < (base * base) ^ (n + 1) := pow_pos hpos (n + 1)
    by_cases hsign : 0 < result
    · have hle := Int.mul_le_mul_of_nonneg_right (Int.add_one_le_of_lt hsign) (Int.le_of_lt hpos')
      omega
    · have hle := Int.mul_le_mul_of_nonneg_right (show result ≤ -1 by omega) (Int.le_of_lt hpos')
      omega
  have hne := square_ne base
  exact ⟨by omega, by omega⟩

/-- INTERNAL: the exponent, halved. -/
theorem pow_split (base : ℤ) {exp : ℤ} (h : 0 ≤ exp) :
    base ^ exp.toNat = (if exp % 2 = 1 then base else 1) * (base * base) ^ (exp / 2).toNat := by
  rw [← sq, ← pow_mul]
  by_cases hodd : exp % 2 = 1
  · rw [if_pos hodd, ← pow_succ', show exp.toNat = 2 * (exp / 2).toNat + 1 by omega]
  · rw [if_neg hodd, one_mul, show exp.toNat = 2 * (exp / 2).toNat by omega]

/-- INTERNAL: the multiplication of `result`, for an odd exponent.
SRCLINE: kernel/lib/memutils.hpp:83-84 -/
theorem powLoop_product {result base exp : ℤ} {products : List ℤ} (hexp : 0 ≤ exp) (hresult : result ≠ 0 ∨ base = 0)
    (hfits : FitsSigned (result * base ^ exp.toNat)) (hproducts : ∀ p ∈ products, FitsSigned p) :
    ∃ result' products',
      (if exp % 2 = 1 then (wrapSigned (result * base), products ++ [result * base]) else (result, products)) =
        (result', products') ∧
      result * base ^ exp.toNat = result' * (base * base) ^ (exp / 2).toNat ∧
      (result' ≠ 0 ∨ base = 0) ∧ ∀ p ∈ products', FitsSigned p := by
  have hsplit := pow_split base hexp
  by_cases hodd : exp % 2 = 1
  · rw [if_pos hodd] at hsplit
    have hsame : result * base ^ exp.toNat = result * base * (base * base) ^ (exp / 2).toNat := by
      rw [hsplit, mul_assoc]
    have hproduct : FitsSigned (result * base) := by
      by_cases hbase : base = 0
      · rw [hbase, mul_zero]
        decide
      · rw [hsame] at hfits
        exact fits_of_cofactor (one_le_square_pow hbase _) hfits
    refine ⟨result * base, products ++ [result * base], ?_, hsame, ?_, ?_⟩
    · rw [if_pos hodd, wrapSigned_fits hproduct]
    · by_cases hbase : base = 0
      · exact Or.inr hbase
      · exact Or.inl (mul_ne_zero (hresult.resolve_right hbase) hbase)
    · intro p hp
      cases List.mem_append.mp hp with
      | inl hold => exact hproducts p hold
      | inr hnew => rw [List.mem_singleton.mp hnew]; exact hproduct
  · rw [if_neg hodd, one_mul] at hsplit
    exact ⟨result, products, if_neg hodd, by rw [hsplit], hresult, hproducts⟩

/-- **The loop** multiplies `result` by the power, and forms only products that fit. The induction is on the exponent.
SRCLINE: kernel/lib/memutils.hpp:82-92 -/
theorem powLoop_exact {result base exp : ℤ} {products : List ℤ} (hexp : 0 ≤ exp) (hresult : result ≠ 0 ∨ base = 0)
    (hfits : FitsSigned (result * base ^ exp.toNat)) (hproducts : ∀ p ∈ products, FitsSigned p) :
    (powLoop result base exp products).1 = result * base ^ exp.toNat ∧
      ∀ p ∈ (powLoop result base exp products).2, FitsSigned p := by
  induction hn : exp.toNat using Nat.strong_induction_on generalizing result base exp products with
  | _ n ih =>
    subst hn
    obtain ⟨result', products', hstep, hsame, hzero, hkept⟩ := powLoop_product hexp hresult hfits hproducts
    rw [powLoop, hstep]
    dsimp only
    by_cases hend : exp / 2 ≤ 0
    · rw [if_pos hend]
      refine ⟨?_, hkept⟩
      rw [hsame, show (exp / 2).toNat = 0 by omega, pow_zero, mul_one]
    · -- the square of `base`, which is used again
      have hsquare : FitsSigned (base * base) := by
        by_cases hbase : base = 0
        · rw [hbase, mul_zero]
          decide
        · rw [hsame, show (exp / 2).toNat = (exp / 2).toNat - 1 + 1 by omega] at hfits
          exact square_fits (hzero.resolve_right hbase) hbase hfits
      rw [if_neg hend, wrapSigned_fits hsquare, hsame]
      refine ih (exp / 2).toNat (by omega) (by omega) ?_ (by rw [← hsame]; exact hfits) (fun p hp => ?_) rfl
      · cases hzero with
        | inl hne => exact Or.inl hne
        | inr hbase => rw [hbase]; exact Or.inr rfl
      · cases List.mem_append.mp hp with
        | inl hold => exact hkept p hold
        | inr hnew => rw [List.mem_singleton.mp hnew]; exact hsquare

/-- **`pow` is exact** whenever the power fits.
SRCLINE: kernel/lib/memutils.hpp:79-95 -/
theorem pow_exact (base exp : ℤ) (hexp : 0 ≤ exp) (hfits : FitsSigned (base ^ exp.toNat)) : PowExact base exp := by
  have hloop := @powLoop_exact 1 base exp [] hexp (Or.inl one_ne_zero) (by rw [one_mul]; exact hfits)
    fun p hp => absurd hp List.not_mem_nil
  rw [one_mul] at hloop
  exact ⟨hloop.1, hloop.2⟩

/-- The smallest value, an odd power of a negative number. -/
theorem pow_exact_smallest : FitsSigned ((-2) ^ 63) ∧ PowExact (-2) 63 :=
  ⟨by decide, pow_exact (-2) 63 (by decide) (by decide)⟩

end CrepOS.Analysis
