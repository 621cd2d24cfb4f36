import CrepOS.Library.ByteMemory
import Mathlib.Tactic.Ring

/-!
# Buffers and little-endian words in byte memory

A buffer is a memory of its own, read from its address `0` on. `load` takes bytes of a memory into a
buffer, `store` puts the first bytes of a buffer into a memory. `word` is the value of some bytes,
lowest first, and `ofWord` has the bytes of a value.

`word_setWord` and `word_setWord_outside` say what a write of a word does to the words; the `store_load`
lemmas, that a buffer which was loaded, changed in one word or one bit and stored again leaves the rest of
the memory alone.
-/

set_option autoImplicit false

namespace CrepOS.Library

namespace Memory

/-- The `n` bytes from `a` on. -/
def load (m : Memory) (a n : ℕ) : Memory := fun i => if i < n then m (a + i) else 0

/-- The `n` bytes from `a` on become the first bytes of `buf`. -/
def store (m : Memory) (a n : ℕ) (buf : Memory) : Memory :=
  fun x => if a ≤ x ∧ x < a + n then buf (x - a) else m x

/-- The value of the `n` bytes from `a` on. -/
def word (m : Memory) (a : ℕ) : ℕ → ℕ
  | 0 => 0
  | n + 1 => (m a).toNat + 256 * word m (a + 1) n

/-- The bytes of a value. -/
def ofWord (v : ℕ) : Memory := fun i => BitVec.ofNat 8 (v / 256 ^ i)

/-- The `n` bytes from `a` on become those of `v`. -/
def setWord (m : Memory) (a n v : ℕ) : Memory := m.store a n (ofWord v)

/-- A memory with some words of four bytes, and zero elsewhere. -/
def ofWords : List (ℕ × ℕ) → Memory
  | [] => fun _ => 0
  | (a, v) :: ws => (ofWords ws).setWord a 4 v

/-- The word that a list has for an address. -/
def wordIn : List (ℕ × ℕ) → ℕ → ℕ
  | [], _ => 0
  | (a, v) :: ws, x => if x = a then v else wordIn ws x

/-- The `n` bytes from `a` on as a list. -/
def bytes (m : Memory) (a n : ℕ) : List Byte := (List.range n).map fun i => m (a + i)

variable {m m' buf : Memory} {a b n k v x : ℕ}

theorem load_of_lt (hk : k < n) : m.load a n k = m (a + k) := if_pos hk

theorem store_inside (hk : k < n) : m.store a n buf (a + k) = buf k := by
  have hin : a ≤ a + k ∧ a + k < a + n := by omega
  rw [store, if_pos hin, Nat.add_sub_cancel_left]

theorem store_outside (hx : x < a ∨ a + n ≤ x) : m.store a n buf x = m x := by
  apply if_neg
  omega

/-- Putting back what was taken changes nothing, and only that. -/
theorem store_eq_self_iff : m.store a n buf = m ↔ ∀ i < n, m (a + i) = buf i := by
  constructor
  · intro h i hi
    have hin : m.store a n buf (a + i) = buf i := store_inside hi
    rw [← hin, h]
  · intro h
    funext x
    by_cases hx : a ≤ x ∧ x < a + n
    · obtain ⟨i, rfl⟩ : ∃ i, x = a + i := ⟨x - a, by omega⟩
      have hi : i < n := by omega
      rw [store_inside hi, h i hi]
    · exact if_neg hx

theorem store_load_self : m.store a n (m.load a n) = m :=
  store_eq_self_iff.mpr fun _ hi => (load_of_lt hi).symm

theorem word_congr (h : ∀ i < n, m' (b + i) = m (a + i)) : m'.word b n = m.word a n := by
  induction n generalizing a b with
  | zero => rfl
  | succ n ih =>
    have hfirst : m' b = m a := h 0 (Nat.succ_pos n)
    have hrest : m'.word (b + 1) n = m.word (a + 1) n := by
      apply ih
      intro i hi
      have hi := h (i + 1) (Nat.succ_lt_succ hi)
      rw [Nat.add_assoc, Nat.add_assoc, Nat.add_comm 1 i]
      exact hi
    rw [word, word, hfirst, hrest]

theorem bytes_congr (h : ∀ i < n, m' (b + i) = m (a + i)) : m'.bytes b n = m.bytes a n :=
  List.map_congr_left fun i hi => h i (List.mem_range.mp hi)

/-! ### Words that are written -/

theorem word_lt : m.word a n < 256 ^ n := by
  induction n generalizing a with
  | zero => simp [word]
  | succ n ih =>
    have hbyte : (m a).toNat < 256 := (m a).isLt
    have hrest : m.word (a + 1) n < 256 ^ n := ih
    rw [word, pow_succ]
    omega

/-- The first bytes of a word are its low ones. -/
theorem word_mod (n k : ℕ) : m.word a (n + k) % 256 ^ n = m.word a n := by
  induction n generalizing a with
  | zero => simp [word, Nat.mod_one]
  | succ n ih =>
    have hbyte : (m a).toNat < 256 := (m a).isLt
    have hlow : ((m a).toNat + 256 * m.word (a + 1) (n + k)) % 256 = (m a).toNat := by omega
    have hhigh : ((m a).toNat + 256 * m.word (a + 1) (n + k)) / 256 = m.word (a + 1) (n + k) := by omega
    rw [Nat.succ_add, word, word, pow_succ', Nat.mod_mul, hlow, hhigh, ih]

/-- A word is its first bytes and the others. -/
theorem word_add (n k : ℕ) : m.word a (n + k) = m.word a n + 256 ^ n * m.word (a + n) k := by
  induction n generalizing a with
  | zero => simp [word]
  | succ n ih =>
    have hnext : a + 1 + n = a + (n + 1) := by omega
    rw [Nat.succ_add, word, word, ih, hnext, pow_succ']
    ring

/-- A word whose bytes are not larger is not larger. -/
theorem word_mono (h : ∀ i < n, (m' (b + i)).toNat ≤ (m (a + i)).toNat) : m'.word b n ≤ m.word a n := by
  induction n generalizing a b with
  | zero => exact Nat.le_refl 0
  | succ n ih =>
    have hfirst : (m' b).toNat ≤ (m a).toNat := h 0 (Nat.succ_pos n)
    have hrest : m'.word (b + 1) n ≤ m.word (a + 1) n := by
      apply ih
      intro i hi
      have hi := h (i + 1) (Nat.succ_lt_succ hi)
      rwa [Nat.add_assoc, Nat.add_assoc, Nat.add_comm 1 i]
    rw [word, word]
    omega

/-- The word of some bytes that are those of a value. -/
theorem word_of_bytes (h : ∀ i < n, m (a + i) = ofWord v i) : m.word a n = v % 256 ^ n := by
  induction n generalizing a v with
  | zero => simp [word, Nat.mod_one]
  | succ n ih =>
    have hfirst : (m a).toNat = v % 256 := by
      have hbyte := h 0 (Nat.succ_pos n)
      rw [Nat.add_zero] at hbyte
      simp [hbyte, ofWord]
    have hrest : m.word (a + 1) n = v / 256 % 256 ^ n := by
      apply ih
      intro i hi
      have hnext := h (i + 1) (Nat.succ_lt_succ hi)
      rw [Nat.add_assoc, Nat.add_comm 1 i, hnext, ofWord, ofWord, pow_succ', Nat.div_div_eq_div_mul]
    rw [word, hfirst, hrest, pow_succ', Nat.mod_mul]

theorem word_setWord : (m.setWord a n v).word a n = v % 256 ^ n :=
  word_of_bytes fun _ hi => store_inside hi

theorem word_setWord_of_lt (hv : v < 256 ^ n) : (m.setWord a n v).word a n = v := by
  rw [word_setWord, Nat.mod_eq_of_lt hv]

theorem setWord_outside (hx : x < a ∨ a + n ≤ x) : m.setWord a n v x = m x := store_outside hx

theorem word_store_outside (h : b + k ≤ a ∨ a + n ≤ b) : (m.store a n buf).word b k = m.word b k := by
  apply word_congr
  intro i hi
  apply store_outside
  omega

theorem word_setWord_outside (h : b + k ≤ a ∨ a + n ≤ b) : (m.setWord a n v).word b k = m.word b k :=
  word_store_outside h

theorem word_load (h : k + x ≤ n) : (m.load a n).word k x = m.word (a + k) x := by
  apply word_congr
  intro i hi
  rw [load_of_lt (by omega), Nat.add_assoc]

/-- Writing the value that is there changes nothing. -/
theorem setWord_word : m.setWord a n (m.word a n) = m := by
  apply store_eq_self_iff.mpr
  induction n generalizing a with
  | zero =>
    intro i hi
    cases hi
  | succ n ih =>
    intro i hi
    have hbyte : (m a).toNat < 256 := (m a).isLt
    cases i with
    | zero => simp [ofWord, word, BitVec.ofNat_add, BitVec.ofNat_mul]
    | succ i =>
      have hquot : m.word a (n + 1) / 256 = m.word (a + 1) n := by
        rw [word]
        omega
      have hrest := ih (a := a + 1) i (by omega)
      rw [← Nat.add_assoc, Nat.add_right_comm, hrest, ofWord, ofWord, pow_succ', ← Nat.div_div_eq_div_mul,
        hquot]

/-- Two writes of one word. -/
theorem setWord_setWord {w : ℕ} : (m.setWord a n v).setWord a n w = m.setWord a n w := by
  funext x
  by_cases hx : a ≤ x ∧ x < a + n
  · obtain ⟨i, rfl⟩ : ∃ i, x = a + i := ⟨x - a, by omega⟩
    have hi : i < n := by omega
    rw [setWord, store_inside hi]
    exact (store_inside hi).symm
  · rw [setWord_outside (by omega), setWord_outside (by omega), setWord_outside (by omega)]

/-- The aligned words of a memory that is made of aligned words. -/
theorem word_ofWords {ws : List (ℕ × ℕ)} (hws : ∀ w ∈ ws, w.1 % 4 = 0 ∧ w.2 < 2 ^ 32) (hx : x % 4 = 0) :
    (ofWords ws).word x 4 = wordIn ws x := by
  induction ws with
  | nil => simp [ofWords, wordIn, word]
  | cons w ws ih =>
    obtain ⟨a, v⟩ := w
    have hw : a % 4 = 0 ∧ v < 2 ^ 32 := hws (a, v) (by simp)
    have hrest := ih fun w hw => hws w (by simp [hw])
    rw [ofWords, wordIn]
    by_cases hxa : x = a
    · rw [if_pos hxa, hxa, word_setWord_of_lt (by omega)]
    · rw [if_neg hxa, word_setWord_outside (by omega), hrest]

/-! ### A buffer that is changed and put back -/

/-- A word of a loaded buffer is written, and the buffer stored. -/
theorem store_load_setWord (h : k + x ≤ n) :
    m.store a n ((m.load a n).setWord k x v) = m.setWord (a + k) x v := by
  funext y
  by_cases hy : a ≤ y ∧ y < a + n
  · obtain ⟨i, rfl⟩ : ∃ i, y = a + i := ⟨y - a, by omega⟩
    have hi : i < n := by omega
    rw [store_inside hi]
    by_cases hin : k ≤ i ∧ i < k + x
    · obtain ⟨j, rfl⟩ : ∃ j, i = k + j := ⟨i - k, by omega⟩
      have hj : j < x := by omega
      rw [setWord, store_inside hj, setWord, ← Nat.add_assoc, store_inside hj]
    · rw [setWord_outside (by omega), setWord_outside (by omega), load_of_lt hi]
  · rw [store_outside (by omega), setWord_outside (by omega)]

/-- INTERNAL: the byte of a loaded buffer is updated, and the buffer stored. -/
theorem store_load_update {c : Byte} (hk : k < n) :
    m.store a n (Function.update (m.load a n) k c) = Function.update m (a + k) c := by
  funext y
  by_cases hy : a ≤ y ∧ y < a + n
  · obtain ⟨i, rfl⟩ : ∃ i, y = a + i := ⟨y - a, by omega⟩
    have hi : i < n := by omega
    rw [store_inside hi]
    by_cases hik : i = k
    · rw [hik, Function.update_self, Function.update_self]
    · rw [Function.update_of_ne hik, Function.update_of_ne (by omega), load_of_lt hi]
  · rw [store_outside (by omega), Function.update_of_ne (by omega)]

/-- A bit of a loaded buffer is set, and the buffer stored. -/
theorem store_load_setBit {i : ℕ} (hi : i / 8 < n) :
    m.store a n ((m.load a n).setBit 0 i) = m.setBit a i := by
  rw [setBit, Nat.zero_add, store_load_update hi, load_of_lt hi]
  rfl

/-- A bit of a loaded buffer is cleared, and the buffer stored. -/
theorem store_load_clearBit {i : ℕ} (hi : i / 8 < n) :
    m.store a n ((m.load a n).clearBit 0 i) = m.clearBit a i := by
  rw [clearBit, Nat.zero_add, store_load_update hi, load_of_lt hi]
  rfl

theorem bit_load {i : ℕ} (hi : i / 8 < n) : (m.load a n).bit 0 i = m.bit a i := by
  unfold bit
  rw [Nat.zero_add, load_of_lt hi]

/-- A byte does not get larger when a bit of it is cleared. -/
theorem clearBit_le (m : Memory) (a i x : ℕ) : (m.clearBit a i x).toNat ≤ (m x).toNat := by
  by_cases hx : x = a + i / 8
  · rw [hx, clearBit, Function.update_self, BitVec.toNat_and]
    exact Nat.and_le_left
  · rw [clearBit_apply_of_ne m hx]

/-! ### Words and bits that are apart -/

theorem bit_setWord_outside {i : ℕ} (h : b + i / 8 < a ∨ a + n ≤ b + i / 8) :
    (m.setWord a n v).bit b i = m.bit b i :=
  bit_congr (setWord_outside h)

theorem bit_setBit_outside {i j : ℕ} (h : b + j / 8 ≠ a + i / 8) : (m.setBit a i).bit b j = m.bit b j :=
  bit_congr (setBit_apply_of_ne m h)

theorem bit_clearBit_outside {i j : ℕ} (h : b + j / 8 ≠ a + i / 8) :
    (m.clearBit a i).bit b j = m.bit b j :=
  bit_congr (clearBit_apply_of_ne m h)

theorem word_setBit_outside {i : ℕ} (h : a + i / 8 < b ∨ b + n ≤ a + i / 8) :
    (m.setBit a i).word b n = m.word b n := by
  apply word_congr
  intro j hj
  apply setBit_apply_of_ne
  omega

theorem word_clearBit_outside {i : ℕ} (h : a + i / 8 < b ∨ b + n ≤ a + i / 8) :
    (m.clearBit a i).word b n = m.word b n := by
  apply word_congr
  intro j hj
  apply clearBit_apply_of_ne
  omega

end Memory

end CrepOS.Library
