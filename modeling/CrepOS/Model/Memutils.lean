import CrepOS.Library.ByteMemory
import Mathlib.Data.Int.ModEq

/-!
# Machine words and `lib/memutils.hpp`

A `size_t` is a natural number below `2^64`; `wrap` is what the machine does to a larger one. An
`ssize_t` is an integer in `[-2^63, 2^63)`; `wrapSigned` brings an integer into that range and
`toSigned`, `ofSigned` are the two casts. `div_roundup` and `align_up` take and return `ssize_t`
also where the callers pass `size_t`, so they are modelled over the signed words, with the
truncating division of C++.

The bitmap helpers are written as in the source, for `T = uint8_t`; `bmTest_eq`, `bmSet_eq` and
`bmClear_eq` identify them with the bit arrays of `CrepOS.Library.ByteMemory`.
-/

set_option autoImplicit false

namespace CrepOS.Model

open CrepOS.Library

/-! ## Words -/

/-- The value of a `size_t` computation whose exact result is `n`. -/
def wrap (n : ℕ) : ℕ := n % 2 ^ 64

/-- The value of an `ssize_t` computation whose exact result is `z`. -/
def wrapSigned (z : ℤ) : ℤ := z.bmod (2 ^ 64)

/-- The cast from `size_t` to `ssize_t`. -/
def toSigned (n : ℕ) : ℤ := wrapSigned n

/-- The cast from `ssize_t` to `size_t`. -/
def ofSigned (z : ℤ) : ℕ := (z % 2 ^ 64).toNat

/-- `-1` returned as a `size_t`. -/
def minusOne : ℕ := 2 ^ 64 - 1

/-- `div_roundup`. A zero divisor traps; callers that can pass one test for it first.
SRCLINE: kernel/lib/memutils.hpp:7-9 -/
def divRoundup (a b : ℤ) : ℤ := wrapSigned ((wrapSigned (a + wrapSigned (b - 1))).tdiv b)

/-- `align_up`.
SRCLINE: kernel/lib/memutils.hpp:11-13 -/
def alignUp (a b : ℤ) : ℤ := wrapSigned (divRoundup a b * b)

/-- The size of a page.
SRCLINE: kernel/mm/vmm.hpp:13 -/
abbrev pageSize : ℕ := 4096

/-! ## Bitmaps -/

/-- `bm_set` on bytes.
SRCLINE: kernel/lib/memutils.hpp:42-45 -/
def bmSet (m : Memory) (bitmap location : ℕ) : Memory :=
  Function.update m (bitmap + location / 8) (m (bitmap + location / 8) ||| 1#8 <<< (location % 8))

/-- `bm_clear` on bytes.
SRCLINE: kernel/lib/memutils.hpp:47-50 -/
def bmClear (m : Memory) (bitmap location : ℕ) : Memory :=
  Function.update m (bitmap + location / 8)
    (m (bitmap + location / 8) &&& ~~~(1#8 <<< (location % 8)))

/-- `bm_test` on bytes.
SRCLINE: kernel/lib/memutils.hpp:52-55 -/
def bmTest (m : Memory) (bitmap location : ℕ) : Bool :=
  (m (bitmap + location / 8) >>> (location % 8) &&& 1#8) != 0#8

theorem bmSet_eq (m : Memory) (bitmap location : ℕ) :
    bmSet m bitmap location = m.setBit bitmap location := rfl

theorem bmClear_eq (m : Memory) (bitmap location : ℕ) :
    bmClear m bitmap location = m.clearBit bitmap location := rfl

/-- INTERNAL: a byte shifted right and masked with `1` is zero exactly when its bit is clear. -/
theorem shift_and_one_ne_zero (b : Byte) (r : ℕ) : ((b >>> r &&& 1#8) != 0#8) = b.getLsbD r := by
  have h : (b >>> r &&& 1#8) = (BitVec.ofBool (b.getLsbD r)).setWidth 8 := by
    ext i hi
    by_cases h0 : i = 0
    · subst h0
      simp
    · simp [h0]
  rw [h]
  cases b.getLsbD r <;> decide

theorem bmTest_eq (m : Memory) (bitmap location : ℕ) :
    bmTest m bitmap location = m.bit bitmap location :=
  shift_and_one_ne_zero _ _

/-! ## Copying -/

/-- `memset8`, whose loop writes one byte after another.
SRCLINE: kernel/lib/memutils.cpp:3-6 -/
def memset8 (m : Memory) (dest : ℕ) (data : Byte) : ℕ → Memory
  | 0 => m
  | n + 1 => Function.update (memset8 m dest data n) (dest + n) data

/-- `memcpy8`, whose loop copies one byte after another, upwards.
SRCLINE: kernel/lib/memutils.cpp:24-27 -/
def memcpy8 (m : Memory) (dest src : ℕ) : ℕ → Memory
  | 0 => m
  | n + 1 => Function.update (memcpy8 m dest src n) (dest + n) (memcpy8 m dest src n (src + n))

theorem memcpy8_outside (m : Memory) {dest src n a : ℕ} (h : a < dest ∨ dest + n ≤ a) :
    memcpy8 m dest src n a = m a := by
  induction n with
  | zero => rfl
  | succ n ih =>
    rw [memcpy8, Function.update_of_ne (by omega)]
    exact ih (by omega)

/-- A byte is copied if the copy has not written its source before. -/
theorem memcpy8_copied (m : Memory) {dest src n k : ℕ} (hk : k < n)
    (h : src + k < dest ∨ dest + k ≤ src + k) : memcpy8 m dest src n (dest + k) = m (src + k) := by
  induction n with
  | zero => omega
  | succ n ih =>
    rw [memcpy8]
    by_cases hkn : k = n
    · subst hkn
      rw [Function.update_self]
      exact memcpy8_outside m h
    · rw [Function.update_of_ne (by omega)]
      exact ih (by omega)

theorem memset8_outside (m : Memory) {dest n a : ℕ} (data : Byte) (h : a < dest ∨ dest + n ≤ a) :
    memset8 m dest data n a = m a := by
  induction n with
  | zero => rfl
  | succ n ih =>
    rw [memset8, Function.update_of_ne (by omega)]
    exact ih (by omega)

/-- A byte in the range is filled. -/
theorem memset8_inside (m : Memory) {dest n a : ℕ} (data : Byte) (h : dest ≤ a) (h' : a < dest + n) :
    memset8 m dest data n a = data := by
  induction n with
  | zero => omega
  | succ n ih =>
    rw [memset8]
    by_cases ha : a = dest + n
    · rw [ha, Function.update_self]
    · rw [Function.update_of_ne ha]
      exact ih (by omega)

/-! ## Casts and rounding on the values that do not wrap -/

theorem wrap_lt (n : ℕ) : wrap n < 2 ^ 64 := Nat.mod_lt _ (by decide)

theorem wrap_of_lt {n : ℕ} (h : n < 2 ^ 64) : wrap n = n := Nat.mod_eq_of_lt h

theorem ofSigned_lt (z : ℤ) : ofSigned z < 2 ^ 64 := by
  unfold ofSigned
  omega

theorem wrapSigned_of_bounds {z : ℤ} (h₁ : -2 ^ 63 ≤ z) (h₂ : z < 2 ^ 63) : wrapSigned z = z := by
  unfold wrapSigned
  rw [Int.bmod_def]
  omega

theorem toSigned_of_lt {n : ℕ} (h : n < 2 ^ 63) : toSigned n = n :=
  wrapSigned_of_bounds (by omega) (by omega)

/-- INTERNAL: the casts forget nothing modulo `2^64`. -/
theorem wrapSigned_emod (z : ℤ) : wrapSigned z % 2 ^ 64 = z % 2 ^ 64 := by
  unfold wrapSigned
  rw [Int.bmod_def]
  omega

theorem ofSigned_wrapSigned (z : ℤ) : ofSigned (wrapSigned z) = ofSigned z := by
  unfold ofSigned
  rw [wrapSigned_emod]

theorem ofSigned_natCast {n : ℕ} (h : n < 2 ^ 64) : ofSigned n = n := by
  unfold ofSigned
  omega

/-- Rounding up a small non-negative count.
SRCLINE: kernel/lib/memutils.hpp:7-9 -/
theorem divRoundup_natCast {n b : ℕ} (hb : 1 ≤ b) (h : n + b < 2 ^ 63) :
    divRoundup n b = ((n + (b - 1)) / b : ℕ) := by
  have h1 : wrapSigned ((b : ℤ) - 1) = (b - 1 : ℕ) := by
    rw [wrapSigned_of_bounds (z := (b : ℤ) - 1) (by omega) (by omega)]
    omega
  have h2 : wrapSigned ((n : ℤ) + (b - 1 : ℕ)) = (n + (b - 1) : ℕ) := by
    rw [wrapSigned_of_bounds (z := (n : ℤ) + (b - 1 : ℕ)) (by omega) (by omega)]
    omega
  have hle : (n + (b - 1)) / b ≤ n + (b - 1) := Nat.div_le_self _ _
  rw [divRoundup, h1, h2, Int.tdiv_eq_ediv_of_nonneg (by omega), ← Int.natCast_ediv]
  generalize (n + (b - 1)) / b = q at hle ⊢
  exact wrapSigned_of_bounds (by omega) (by omega)

theorem divRoundup_pageSize {n : ℕ} (h : n < 2 ^ 63 - pageSize) :
    divRoundup n pageSize = ((n + 4095) / 4096 : ℕ) :=
  divRoundup_natCast (by decide) (by simp only [pageSize] at h ⊢; omega)

/-- Rounding up to a page address.
SRCLINE: kernel/lib/memutils.hpp:11-13 -/
theorem alignUp_pageSize {n : ℕ} (h : n < 2 ^ 62) :
    ofSigned (alignUp (toSigned n) pageSize) = (n + 4095) / 4096 * 4096 := by
  rw [alignUp, ofSigned_wrapSigned, toSigned_of_lt (by omega),
    divRoundup_pageSize (by simp only [pageSize]; omega)]
  simp only [pageSize]
  rw [← Int.natCast_mul]
  exact ofSigned_natCast (by omega)

end CrepOS.Model
