import CrepOS.Analysis.MmapBitmap

/-!
# Which cache `kmm::alloc` uses

`pow2_roundup` sets every bit of `size - 1` that has a set bit among the 32 bits from it on
(`testBit_spread`) and adds one. For a size of up to 262144 bytes that is the next power of two, and the
caches that `main` makes have one for it. For a larger one the sum is larger than any of them, but for
the sizes whose 64 bits are all set by then: the sum wraps to `0`, which `kmm::alloc` takes for a small
size and answers with an object of 32 bytes. These are the sizes above `2^63` without 32 clear bits in a
row in `size - 1` (`alloc_by_size_iff`).
-/

set_option autoImplicit false

namespace CrepOS.Analysis

open CrepOS.Library CrepOS.Model CrepOS.Interface

/-! ## Rounding -/

/-- The bits that the shifts of `pow2_roundup` set.
SRCLINE: kernel/lib/memutils.hpp:33-37 -/
def spread (a : ℕ) : ℕ :=
  let a := a ||| a >>> 1
  let a := a ||| a >>> 2
  let a := a ||| a >>> 4
  let a := a ||| a >>> 8
  a ||| a >>> 16

theorem pow2Roundup_eq_spread (size : ℕ) :
    pow2Roundup size = wrap (spread (wrap (size + (2 ^ 64 - 1))) + 1) := rfl

/-- INTERNAL: one shift doubles the number of bits that are looked at. -/
theorem testBit_double {a b n : ℕ}
    (h : ∀ j, b.testBit j = true ↔ ∃ k < n, a.testBit (j + k) = true) (j : ℕ) :
    (b ||| b >>> n).testBit j = true ↔ ∃ k < 2 * n, a.testBit (j + k) = true := by
  rw [Nat.testBit_or, Bool.or_eq_true, Nat.testBit_shiftRight, h, h]
  constructor
  · rintro (⟨k, hk, hbit⟩ | ⟨k, hk, hbit⟩)
    · exact ⟨k, by omega, hbit⟩
    · refine ⟨n + k, by omega, ?_⟩
      rw [show j + (n + k) = n + j + k by omega]
      exact hbit
  · rintro ⟨k, hk, hbit⟩
    by_cases hlt : k < n
    · exact Or.inl ⟨k, hlt, hbit⟩
    · refine Or.inr ⟨k - n, by omega, ?_⟩
      rw [show n + j + (k - n) = j + k by omega]
      exact hbit

/-- A bit is set by the shifts if one of the 32 bits from it on was set. -/
theorem testBit_spread (a j : ℕ) :
    (spread a).testBit j = true ↔ ∃ k < 32, a.testBit (j + k) = true := by
  have h₀ : ∀ j, a.testBit j = true ↔ ∃ k < 1, a.testBit (j + k) = true := by
    intro j
    constructor
    · intro hbit
      exact ⟨0, by decide, hbit⟩
    · rintro ⟨k, hk, hbit⟩
      obtain rfl : k = 0 := by omega
      exact hbit
  have h₁ := testBit_double h₀
  have h₂ := testBit_double h₁
  have h₃ := testBit_double h₂
  have h₄ := testBit_double h₃
  exact testBit_double h₄ j

theorem le_spread (a : ℕ) : a ≤ spread a := by
  apply Nat.le_of_testBit
  intro j hbit
  exact (testBit_spread a j).mpr ⟨0, by decide, hbit⟩

theorem spread_lt {a n : ℕ} (h : a < 2 ^ n) : spread a < 2 ^ n := by
  apply Nat.lt_pow_two_of_testBit
  intro j hj
  rw [← Bool.not_eq_true, testBit_spread]
  rintro ⟨k, -, hbit⟩
  have hle : 2 ^ n ≤ 2 ^ (j + k) := Nat.pow_le_pow_right (by decide) (by omega)
  rw [Nat.testBit_lt_two_pow (by omega)] at hbit
  cases hbit

/-- INTERNAL: all bits below `n` are set if each has a set bit among the 32 bits from it on. -/
theorem spread_eq_ones {a n : ℕ} (h : a < 2 ^ n) :
    spread a = 2 ^ n - 1 ↔ ∀ j < n, ∃ k < 32, a.testBit (j + k) = true := by
  constructor
  · intro heq j hj
    rw [← testBit_spread, heq, Nat.testBit_two_pow_sub_one, decide_eq_true hj]
  · intro hall
    apply Nat.eq_of_testBit_eq
    intro j
    rw [Nat.testBit_two_pow_sub_one]
    by_cases hj : j < n
    · rw [decide_eq_true hj, testBit_spread]
      exact hall j hj
    · have hle : 2 ^ n ≤ 2 ^ j := Nat.pow_le_pow_right (by decide) (by omega)
      rw [decide_eq_false hj]
      exact Nat.testBit_lt_two_pow (lt_of_lt_of_le (spread_lt h) hle)

section Round

variable {size : ℕ}

/-- INTERNAL: the subtraction of `pow2_roundup` does not wrap for a size that is not zero. -/
theorem wrap_pred (hpos : 0 < size) (hsize : size < 2 ^ 64) :
    wrap (size + (2 ^ 64 - 1)) = size - 1 := by
  unfold wrap
  omega

/-- A size up to `2^32` is rounded up to the next power of two.
SRCLINE: kernel/lib/memutils.hpp:31-40 -/
theorem pow2Roundup_eq_pow {k : ℕ} (hk : k < 32) (hlow : 2 ^ k < size) (hhigh : size ≤ 2 ^ (k + 1)) :
    pow2Roundup size = 2 ^ (k + 1) := by
  have hlt : 2 ^ (k + 1) ≤ 2 ^ 32 := Nat.pow_le_pow_right (by decide) (by omega)
  have hpos := Nat.two_pow_pos k
  have hdouble : 2 ^ (k + 1) = 2 * 2 ^ k := by rw [Nat.pow_succ, Nat.mul_comm]
  have hones : spread (size - 1) = 2 ^ (k + 1) - 1 := by
    rw [spread_eq_ones (by omega)]
    intro j hj
    -- the highest bit is among the 32 bits from `j` on
    refine ⟨k - j, by omega, ?_⟩
    rw [show j + (k - j) = k by omega]
    exact Nat.testBit_of_two_pow_le_and_two_pow_add_one_gt (by omega) (by omega)
  rw [pow2Roundup_eq_spread, wrap_pred (by omega) (by omega), hones, wrap_of_lt (by omega)]
  omega

/-- Small sizes get the smallest cache.
SRCLINE: kernel/mm/slab.cpp:154-156 -/
theorem roundSize_small (hpos : 0 < size) (hsize : size ≤ 16) : roundSize size = 32 := by
  have hspread : spread (size - 1) < 2 ^ 4 := spread_lt (by omega)
  unfold roundSize
  rw [pow2Roundup_eq_spread, wrap_pred hpos (by omega), if_pos]
  rw [wrap_of_lt (by omega)]
  omega

/-- The size is rounded up to the smallest size of the caches of `main`.
SRCLINE: kernel/mm/slab.cpp:154-156, kernel/main.cpp:62-75 -/
theorem roundSize_smallest (hpos : 0 < size) (hsize : size ≤ 262144) :
    roundSize size ∈ mainCaches ∧ size ≤ roundSize size ∧
      ∀ n ∈ mainCaches, size ≤ n → roundSize size ≤ n := by
  by_cases hsmall : size ≤ 16
  · rw [roundSize_small hpos hsmall]
    have hleast : ∀ n ∈ mainCaches, 32 ≤ n := by decide
    exact ⟨by decide, by omega, fun n hn _ => hleast n hn⟩
  -- the power of two below the size
  obtain ⟨k, hk, hlow, hhigh⟩ : ∃ k < 18, 4 ≤ k ∧ 2 ^ k < size ∧ size ≤ 2 ^ (k + 1) := by
    refine ⟨Nat.log2 (size - 1), ?_, ?_, ?_, ?_⟩
    · exact (Nat.log2_lt (by omega)).mpr (by omega)
    · exact (Nat.le_log2 (by omega)).mpr (by omega)
    · have hle := Nat.log2_self_le (n := size - 1) (by omega)
      omega
    · have hlt := Nat.lt_log2_self (n := size - 1)
      omega
  have hround : roundSize size = 2 ^ (k + 1) := by
    have hbig : 2 ^ (4 + 1) ≤ 2 ^ (k + 1) := Nat.pow_le_pow_right (by decide) (by omega)
    unfold roundSize
    rw [pow2Roundup_eq_pow (by omega) hhigh.1 hhigh.2, if_neg (by omega)]
  have hmem : ∀ k < 18, 4 ≤ k → 2 ^ (k + 1) ∈ mainCaches ∧
      ∀ n ∈ mainCaches, 2 ^ k < n → 2 ^ (k + 1) ≤ n := by decide
  obtain ⟨hin, hleast⟩ := hmem k hk hlow
  rw [hround]
  refine ⟨hin, hhigh.2, ?_⟩
  intro n hn hle
  exact hleast n hn (by omega)

/-- INTERNAL: the shifts set all bits if the size is huge and has no gap of 32 bits. -/
theorem spread_full_iff {a : ℕ} (ha : a < 2 ^ 64) :
    spread a = 2 ^ 64 - 1 ↔
      ¬ (a < 2 ^ 63 ∨ ∃ j ≤ 31, ∀ i < 32, a.testBit (j + i) = false) := by
  rw [spread_eq_ones ha]
  constructor
  · rintro hall (hlow | ⟨j, hj, hclear⟩)
    · obtain ⟨k, -, hbit⟩ := hall 63 (by decide)
      have hle : 2 ^ 63 ≤ 2 ^ (63 + k) := Nat.pow_le_pow_right (by decide) (by omega)
      rw [Nat.testBit_lt_two_pow (by omega)] at hbit
      cases hbit
    · obtain ⟨k, hk, hbit⟩ := hall j (by omega)
      rw [hclear k hk] at hbit
      cases hbit
  · intro hnot
    push Not at hnot
    obtain ⟨hhigh, hgap⟩ := hnot
    intro j hj
    by_cases hlow : j ≤ 31
    · obtain ⟨k, hk, hbit⟩ := hgap j hlow
      exact ⟨k, hk, Bool.eq_true_of_not_eq_false hbit⟩
    · -- bit 63 is among the 32 bits from `j` on
      refine ⟨63 - j, by omega, ?_⟩
      rw [show j + (63 - j) = 63 by omega]
      exact Nat.testBit_of_two_pow_le_and_two_pow_add_one_gt hhigh ha

/-- Larger sizes are rounded to no size of the caches of `main`, unless the sum wraps. -/
theorem roundSize_large (hlow : 262144 < size) (hsize : size < 2 ^ 64) :
    roundSize size ∈ mainCaches ↔
      ¬ (size ≤ 2 ^ 63 ∨ ∃ j ≤ 31, ∀ i < 32, (size - 1).testBit (j + i) = false) := by
  have hle := le_spread (size - 1)
  have hlt : spread (size - 1) < 2 ^ 64 := spread_lt (by omega)
  have hpow : pow2Roundup size = wrap (spread (size - 1) + 1) := by
    rw [pow2Roundup_eq_spread, wrap_pred (by omega) hsize]
  have hiff := spread_full_iff (a := size - 1) (by omega)
  have hhalf : size - 1 < 2 ^ 63 ↔ size ≤ 2 ^ 63 := by
    constructor <;> intro _ <;> omega
  rw [hhalf] at hiff
  rw [← hiff]
  have hmax : ∀ n ∈ mainCaches, n ≤ 262144 := by decide
  unfold roundSize
  rw [hpow]
  constructor
  · intro hin
    by_contra hne
    rw [wrap_of_lt (by omega), if_neg (by omega)] at hin
    have hbound := hmax _ hin
    omega
  · intro hfull
    rw [hfull]
    decide

end Round

/-! ## Allocation by size -/

/-- The caches have the object sizes that `main` makes caches for, and no others.
SRCLINE: kernel/main.cpp:62-75 -/
def MainSizes (st : HeapState) : Prop :=
  ∀ n, n ∈ st.caches.map (fun c => (st.heap.caches c).objectSize) ↔ n ∈ mainCaches

/-- `c` has objects of at least the size, and no cache with smaller objects has. -/
def SmallestCache (st : HeapState) (size c : ℕ) : Prop :=
  c ∈ st.caches ∧ size ≤ (st.heap.caches c).objectSize ∧
    ∀ d ∈ st.caches, size ≤ (st.heap.caches d).objectSize →
      (st.heap.caches c).objectSize ≤ (st.heap.caches d).objectSize

/-- `kmm::alloc` returns `NULL` for no bytes and for more than 262144, and else an object of the smallest
cache whose objects are large enough. -/
def AllocatesBySize (st : HeapState) (size page : ℕ) : Prop :=
  ∃ h p, alloc st.heap size page = some (h, p) ∧ (p = 0 ↔ size = 0 ∨ 262144 < size) ∧
    (p ≠ 0 → ∃ c, SmallestCache st size c ∧ ∃ s i, (h.slabs s).parent = c ∧
      (h.caches c).objectSize = (st.heap.caches c).objectSize ∧
      IsSlot h ⟨p, (st.heap.caches c).objectSize⟩ s i)

section Alloc

variable {st : HeapState} {size page : ℕ}

/-- INTERNAL: without a cache for the size the answer is `NULL`.
SRCLINE: kernel/mm/slab.cpp:150-173 -/
theorem alloc_none (hinv : StateInv st) (hcs : st.caches ≠ [])
    (hnone : ∀ c ∈ st.caches, (st.heap.caches c).objectSize ≠ roundSize size) :
    alloc st.heap size page = some (st.heap, 0) := by
  have hfor : cacheFor st.heap size = some none := by
    rw [cacheFor_eq hinv.layout hcs, List.find?_eq_none.mpr]
    intro c hc
    simpa using hnone c hc
  unfold alloc
  rw [hfor]
  split <;> rfl

/-- INTERNAL: with a cache for the size the answer is an object of it.
SRCLINE: kernel/mm/slab.cpp:150-173 -/
theorem alloc_slot (hinv : StateInv st) (hallowed : HeapOp.Allowed st (.alloc size page))
    (hpos : size ≠ 0)
    (hsome : ∃ c ∈ st.caches, (st.heap.caches c).objectSize = roundSize size) :
    ∃ h p, alloc st.heap size page = some (h, p) ∧ p ≠ 0 ∧ ∃ c ∈ st.caches,
      (st.heap.caches c).objectSize = roundSize size ∧ ∃ s i, (h.slabs s).parent = c ∧
        (h.caches c).objectSize = roundSize size ∧ IsSlot h ⟨p, roundSize size⟩ s i := by
  obtain ⟨hcs, hfresh⟩ := hallowed
  have hfor := cacheFor_eq hinv.layout hcs size
  cases hfind : st.caches.find? fun c => (st.heap.caches c).objectSize = roundSize size with
  | none =>
    obtain ⟨c, hc, hround⟩ := hsome
    have hnot := List.find?_eq_none.mp hfind c hc
    simp only [hround, decide_true, not_true_eq_false] at hnot
  | some c =>
    rw [hfind] at hfor
    have hc : c ∈ st.caches := List.mem_of_find?_eq_some hfind
    have hround : (st.heap.caches c).objectSize = roundSize size := by
      simpa using List.find?_some hfind
    obtain ⟨g, ss', s, i, h', -, hinv', -, hpar, hos, htaken, -, hobj⟩ :=
      allocObj_spec hinv hc (hfresh c hfor)
    have hlow := (hinv'.layout.slab s htaken.slab).low
    obtain ⟨hparent, hbuf, -⟩ := htaken.same.slab s htaken.slab
    have hsame := (htaken.same.cache c hc).1
    rw [hround] at hobj hos
    refine ⟨h', (g.slabs s).buf + i * roundSize size, ?_, by omega, c, hc, hround, s, i,
      hparent.trans hpar, hsame.trans hos, htaken.index, ?_, ?_⟩
    · unfold alloc
      rw [if_neg hpos, hfor]
      exact hobj
    · rw [hparent, hpar, hsame, hos]
    · rw [hbuf]

/-- **Size classes.** With the caches of `main`, in every state that the heap can reach and for every
64-bit size, `kmm::alloc` chooses the cache by the size if and only if the size is at most `2^63` or has
32 clear bits in a row, before bit 63, in `size - 1`.
SRCLINE: kernel/mm/slab.cpp:150-173 -/
theorem alloc_by_size_iff {st₀ : HeapState} {ops : List HeapOp} (hinit : st₀.Initial)
    (hrun : Run heapStep st₀ ops st) (hmain : MainSizes st) (hsize : size < 2 ^ 64)
    (hallowed : HeapOp.Allowed st (.alloc size page)) :
    AllocatesBySize st size page ↔
      size ≤ 2 ^ 63 ∨ ∃ j ≤ 31, ∀ i < 32, (size - 1).testBit (j + i) = false := by
  have hinv := heapRun_inv hinit hrun
  have hsizes : ∀ n, n ∈ mainCaches ↔ ∃ c ∈ st.caches, (st.heap.caches c).objectSize = n := by
    intro n
    rw [← hmain, List.mem_map]
  by_cases hzero : size = 0
  · -- no bytes
    refine iff_of_true ⟨st.heap, 0, ?_, by simp [hzero], fun h => absurd rfl h⟩ (Or.inl (by omega))
    unfold alloc
    rw [if_pos hzero]
  by_cases hlarge : 262144 < size
  · have hround := roundSize_large hlarge hsize
    constructor
    · rintro ⟨h, p, hcall, hnull, -⟩
      by_contra hfull
      obtain ⟨h', p', hcall', hp', -⟩ := alloc_slot hinv hallowed hzero
        ((hsizes _).mp (hround.mpr hfull))
      rw [hcall'] at hcall
      obtain ⟨-, rfl⟩ := Prod.mk.inj (Option.some.inj hcall)
      exact hp' (hnull.mpr (Or.inr hlarge))
    · intro hgap
      have hnotin : roundSize size ∉ mainCaches := fun hin => hround.mp hin hgap
      refine ⟨st.heap, 0, alloc_none hinv hallowed.1 ?_, by simp [hlarge], fun h => absurd rfl h⟩
      intro c hc heq
      exact hnotin ((hsizes _).mpr ⟨c, hc, heq⟩)
  · obtain ⟨hin, hle, hleast⟩ := roundSize_smallest (Nat.pos_of_ne_zero hzero) (Nat.le_of_not_lt hlarge)
    refine iff_of_true ?_ (Or.inl (by omega))
    obtain ⟨h, p, hcall, hp, c, hc, hround, s, i, hpar, hos, hslot⟩ :=
      alloc_slot hinv hallowed hzero ((hsizes _).mp hin)
    refine ⟨h, p, hcall, by simp [hp, hzero, hlarge], fun _ => ⟨c, ⟨hc, ?_, ?_⟩, s, i, hpar, ?_, ?_⟩⟩
    · rw [hround]
      exact hle
    · intro d hd hdle
      rw [hround]
      exact hleast _ ((hsizes _).mpr ⟨d, hd, rfl⟩) hdle
    · rw [hos, hround]
    · rw [hround]
      exact hslot

end Alloc

/-- The calls of `main` that make the caches, each with fresh pages. -/
def mainCalls : List HeapOp :=
  mainCaches.zipIdx.map fun n => .newCache cleared n.1 (0x100000000 + 0x10000000 * n.2)

/-- INTERNAL: the heap after the caches have been made. -/
theorem mainCalls_run : ∃ st, Run heapStep emptyHeap mainCalls st ∧ MainSizes st ∧
    HeapOp.Allowed st (.alloc 100 0x200000000) ∧ HeapOp.Allowed st (.alloc (2 ^ 64 - 1) 0x200000000) ∧
    (alloc st.heap (2 ^ 64 - 1) 0x200000000).map Prod.snd = some 0x1000000a8 := by
  have hcalls : (mainCalls.foldlM
      (fun st op => if op.Allowed st ∧ op.Sound then st.exec op else none) emptyHeap).map
      (fun st => (decide (st.caches.map (fun c => (st.heap.caches c).objectSize) = mainCaches),
        decide (HeapOp.Allowed st (.alloc 100 0x200000000)),
        decide (HeapOp.Allowed st (.alloc (2 ^ 64 - 1) 0x200000000)),
        (alloc st.heap (2 ^ 64 - 1) 0x200000000).map Prod.snd)) =
      some (true, true, true, some 0x1000000a8) := by
    decide +kernel
  obtain ⟨st, hst, hcheck⟩ := Option.map_eq_some_iff.mp hcalls
  obtain ⟨hmap, hrest⟩ := Prod.mk.inj hcheck
  obtain ⟨hallowed, hrest⟩ := Prod.mk.inj hrest
  obtain ⟨hhuge, hcall⟩ := Prod.mk.inj hrest
  refine ⟨st, Run.of_guarded hst, ?_, of_decide_eq_true hallowed, of_decide_eq_true hhuge, hcall⟩
  intro n
  rw [of_decide_eq_true hmap]

/-- A request for 100 bytes, after the caches have been made, is answered from the smallest cache. -/
theorem alloc_by_size_hundred : ∃ st, Run heapStep emptyHeap mainCalls st ∧
    AllocatesBySize st 100 0x200000000 := by
  obtain ⟨st, hrun, hmain, hallowed, -⟩ := mainCalls_run
  exact ⟨st, hrun, (alloc_by_size_iff ⟨rfl, rfl, rfl, rfl, rfl, rfl⟩ hrun hmain (by decide)
    hallowed).mpr (Or.inl (by decide))⟩

/-- A request for `2^64 - 1` bytes is answered with an object of 32 bytes. -/
theorem alloc_huge_small : ∃ st, Run heapStep emptyHeap mainCalls st ∧ MainSizes st ∧
    HeapOp.Allowed st (.alloc (2 ^ 64 - 1) 0x200000000) ∧
    ¬ AllocatesBySize st (2 ^ 64 - 1) 0x200000000 := by
  obtain ⟨st, hrun, hmain, -, hallowed, hcall⟩ := mainCalls_run
  refine ⟨st, hrun, hmain, hallowed, ?_⟩
  rintro ⟨h, p, hresult, hnull, -⟩
  rw [hresult] at hcall
  have hp : p = 0x1000000a8 := Option.some.inj hcall
  rw [hp] at hnull
  exact absurd (hnull.mpr (Or.inr (by decide))) (by decide)

end CrepOS.Analysis
