import Mathlib.Logic.Function.Basic
import Mathlib.Tactic.Common
import Mathlib.Tactic.IntervalCases

/-!
# Byte memory and bit arrays in it

A memory is a function from addresses to bytes. A bit array is given by the address of its first
byte: bit `i` of the array at `base` is bit `i % 8` of the byte at `base + i / 8`. Arrays are not
bounded: an index past the end of an array reads or writes whatever byte follows it, so what an
access touches outside its array can be stated.

`bit_setBit` and `bit_clearBit` say what a write does to the array it goes through,
`setBit_apply_of_ne` and `clearBit_apply_of_ne` that it touches a single byte. `setRun` and
`clearRun` write consecutive bits; `bit_setRun`, `bit_clearRun` and the `_apply_of_outside` lemmas
are the same two facts for them.
-/

set_option autoImplicit false

namespace CrepOS.Library

/-- A byte. -/
abbrev Byte := BitVec 8

/-- A byte-addressed memory. -/
abbrev Memory := ℕ → Byte

namespace Memory

/-- Bit `i` of the bit array at `base`. -/
def bit (m : Memory) (base i : ℕ) : Bool := (m (base + i / 8)).getLsbD (i % 8)

/-- Set bit `i` of the bit array at `base`. -/
def setBit (m : Memory) (base i : ℕ) : Memory :=
  Function.update m (base + i / 8) (m (base + i / 8) ||| 1#8 <<< (i % 8))

/-- Clear bit `i` of the bit array at `base`. -/
def clearBit (m : Memory) (base i : ℕ) : Memory :=
  Function.update m (base + i / 8) (m (base + i / 8) &&& ~~~(1#8 <<< (i % 8)))

/-- Set the `n` bits `i, …, i + n - 1` of the bit array at `base`, in increasing order. -/
def setRun (m : Memory) (base i : ℕ) : ℕ → Memory
  | 0 => m
  | n + 1 => (m.setRun base i n).setBit base (i + n)

/-- Clear the `n` bits `i, …, i + n - 1` of the bit array at `base`, in increasing order. -/
def clearRun (m : Memory) (base i : ℕ) : ℕ → Memory
  | 0 => m
  | n + 1 => (m.clearRun base i n).clearBit base (i + n)

/-- Bit `k` of the one-bit mask `1 << r` of a byte. -/
theorem getLsbD_one_shiftLeft {r k : ℕ} (hr : r < 8) (hk : k < 8) :
    (1#8 <<< r).getLsbD k = decide (k = r) := by
  interval_cases r <;> interval_cases k <;> rfl

/-- Setting a bit through an array sets that bit and keeps the others. -/
theorem bit_setBit (m : Memory) (base i j : ℕ) :
    (m.setBit base i).bit base j = (decide (j = i) || m.bit base j) := by
  unfold bit setBit
  by_cases hq : j / 8 = i / 8
  · have hji : j = i ↔ j % 8 = i % 8 := by omega
    rw [hq, Function.update_self, BitVec.getLsbD_or,
      getLsbD_one_shiftLeft (Nat.mod_lt _ (by decide)) (Nat.mod_lt _ (by decide))]
    simp only [hji, Bool.or_comm]
  · have hne : j ≠ i := by rintro rfl; exact hq rfl
    rw [Function.update_of_ne (by omega)]
    simp [hne]

/-- Clearing a bit through an array clears that bit and keeps the others. -/
theorem bit_clearBit (m : Memory) (base i j : ℕ) :
    (m.clearBit base i).bit base j = (decide (j ≠ i) && m.bit base j) := by
  unfold bit clearBit
  by_cases hq : j / 8 = i / 8
  · have hji : j = i ↔ j % 8 = i % 8 := by omega
    rw [hq, Function.update_self, BitVec.getLsbD_and, BitVec.getLsbD_not,
      getLsbD_one_shiftLeft (Nat.mod_lt _ (by decide)) (Nat.mod_lt _ (by decide))]
    have h8 : j % 8 < 8 := Nat.mod_lt _ (by decide)
    by_cases hm : j % 8 = i % 8 <;> simp [hji, hm, h8, Bool.and_comm]
  · have hne : j ≠ i := by rintro rfl; exact hq rfl
    rw [Function.update_of_ne (by omega)]
    simp [hne]

/-- A bit write touches one byte only. -/
theorem setBit_apply_of_ne (m : Memory) {base i a : ℕ} (h : a ≠ base + i / 8) :
    m.setBit base i a = m a :=
  Function.update_of_ne h _ _

/-- A bit write touches one byte only. -/
theorem clearBit_apply_of_ne (m : Memory) {base i a : ℕ} (h : a ≠ base + i / 8) :
    m.clearBit base i a = m a :=
  Function.update_of_ne h _ _

/-- Setting a run of bits sets exactly the bits of the run. -/
theorem bit_setRun (m : Memory) (base i n j : ℕ) :
    (m.setRun base i n).bit base j = (decide (i ≤ j ∧ j < i + n) || m.bit base j) := by
  induction n with
  | zero => simp [setRun]
  | succ n ih =>
    rw [setRun, bit_setBit, ih, ← Bool.or_assoc]
    congr 1
    rw [Bool.eq_iff_iff]
    simp only [Bool.or_eq_true, decide_eq_true_eq]
    omega

/-- Clearing a run of bits clears exactly the bits of the run. -/
theorem bit_clearRun (m : Memory) (base i n j : ℕ) :
    (m.clearRun base i n).bit base j = (decide (¬ (i ≤ j ∧ j < i + n)) && m.bit base j) := by
  induction n with
  | zero => simp [clearRun]
  | succ n ih =>
    rw [clearRun, bit_clearBit, ih, ← Bool.and_assoc]
    congr 1
    rw [Bool.eq_iff_iff]
    simp only [Bool.and_eq_true, decide_eq_true_eq]
    omega

/-- A run of bit writes touches only the bytes that hold bits of the run. -/
theorem setRun_apply_of_outside (m : Memory) {base i n a : ℕ}
    (h : ∀ j, i ≤ j → j < i + n → a ≠ base + j / 8) : m.setRun base i n a = m a := by
  induction n with
  | zero => rfl
  | succ n ih =>
    rw [setRun, setBit_apply_of_ne _ (h (i + n) (by omega) (by omega))]
    exact ih fun j hi hj => h j hi (by omega)

/-- A run of bit writes touches only the bytes that hold bits of the run. -/
theorem clearRun_apply_of_outside (m : Memory) {base i n a : ℕ}
    (h : ∀ j, i ≤ j → j < i + n → a ≠ base + j / 8) : m.clearRun base i n a = m a := by
  induction n with
  | zero => rfl
  | succ n ih =>
    rw [clearRun, clearBit_apply_of_ne _ (h (i + n) (by omega) (by omega))]
    exact ih fun j hi hj => h j hi (by omega)

/-- Two memories that agree on a byte agree on the bits it holds. -/
theorem bit_congr {m m' : Memory} {base i : ℕ} (h : m (base + i / 8) = m' (base + i / 8)) :
    m.bit base i = m'.bit base i := by
  unfold bit
  rw [h]

end Memory

end CrepOS.Library
