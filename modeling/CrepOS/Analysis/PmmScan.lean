import CrepOS.Model.Pmm
import Mathlib.Tactic.Ring

/-!
# What the scan of `mem_chunk::alloc` finds

The outer loop looks at the page indices `start c align 0, start c align 1, …` as long as they are
below `page_cnt`, and stops at the first one from which `cnt` bits are clear (`allocLoop_eq_some`).
The address it returns stays in step with the index unless `i + cnt` wraps (`allocLoop_address`).

Nothing here bounds the window by the chunk: `FitsAt` speaks of `cnt` bits from the start on, also
where the chunk ends before them.
-/

set_option autoImplicit false

namespace CrepOS.Analysis

open CrepOS.Library CrepOS.Model

/-- The page index at which the outer loop of `mem_chunk::alloc` looks in its iteration `n`.
SRCLINE: kernel/mm/pmm.cpp:105 -/
def start (c : MemChunk) (align n : ℕ) : ℕ := wrap (c.bitBase align + n * align)

/-- The loop condition holds in the iterations up to `n`. -/
def Looks (c : MemChunk) (align n : ℕ) : Prop := ∀ k ≤ n, start c align k < c.pageCnt

/-- The `cnt` bits from index `i` on are clear, and `i + cnt` does not wrap. -/
def FitsAt (m : Memory) (c : MemChunk) (cnt i : ℕ) : Prop :=
  i + cnt < 2 ^ 64 ∧ ∀ j, i ≤ j → j < i + cnt → bmTest m c.bitmap j = false

/-- Some index at which the loop looks has `cnt` clear bits. -/
def HasFit (m : Memory) (c : MemChunk) (cnt align : ℕ) : Prop :=
  ∃ n, Looks c align n ∧ FitsAt m c cnt (start c align n)

/-- INTERNAL: the inner loop with exactly the missing `n` iterations left stops with `fits` when
the bits it reads are clear, and with `taken` otherwise.
SRCLINE: kernel/mm/pmm.cpp:106-119 -/
theorem scanWindow_eq (m : Memory) (bitmap : ℕ) (n j count : ℕ) (hn : 1 ≤ n) :
    (scanWindow m bitmap (count + n) n j count = .fits ↔
        ∀ k, j ≤ k → k < j + n → bmTest m bitmap k = false) ∧
      (scanWindow m bitmap (count + n) n j count ≠ .unread) := by
  induction n generalizing j count with
  | zero => omega
  | succ n ih =>
    rw [scanWindow]
    by_cases hb : bmTest m bitmap j = true
    · refine ⟨?_, by simp [hb]⟩
      simp only [hb, if_true, reduceCtorEq, false_iff, not_forall]
      exact ⟨j, le_rfl, by omega, by simp [hb]⟩
    · have hj : bmTest m bitmap j = false := by simpa using hb
      rcases Nat.eq_zero_or_pos n with rfl | hpos
      · refine ⟨?_, by simp [hj]⟩
        simp only [hj, Bool.false_eq_true, if_false, Nat.zero_add, if_true, true_iff]
        intro k hk hk'
        obtain rfl : k = j := by omega
        exact hj
      · have hne : ¬ count + 1 = count + (n + 1) := by omega
        obtain ⟨hiff, hun⟩ := ih (j + 1) (count + 1) hpos
        rw [show count + 1 + n = count + (n + 1) from by omega] at hiff hun
        simp only [hj, Bool.false_eq_true, if_false, if_neg hne]
        refine ⟨hiff.trans ⟨fun h k hk hk' => ?_, fun h k hk hk' => ?_⟩, hun⟩
        · rcases Nat.eq_or_lt_of_le hk with rfl | hlt
          · exact hj
          · exact h k hlt (by omega)
        · exact h k (by omega) (by omega)

/-- INTERNAL: the inner loop finds room at `i` exactly when `FitsAt` holds there.
SRCLINE: kernel/mm/pmm.cpp:106-119 -/
theorem scanWindow_fits_iff (m : Memory) (c : MemChunk) {cnt i : ℕ} (hcnt : 1 ≤ cnt)
    (hcnt' : cnt < 2 ^ 64) (hi : i < 2 ^ 64) :
    scanWindow m c.bitmap cnt (wrap (i + cnt) - i) i 0 = .fits ↔ FitsAt m c cnt i := by
  unfold FitsAt
  by_cases hlt : i + cnt < 2 ^ 64
  · have h := (scanWindow_eq m c.bitmap cnt i 0 hcnt).1
    rw [Nat.zero_add] at h
    rw [wrap_of_lt hlt, Nat.add_sub_cancel_left, h]
    exact ⟨fun h => ⟨hlt, h⟩, fun h => h.2⟩
  · -- the sum wraps below `i`, so the loop body is never entered
    have hz : wrap (i + cnt) - i = 0 := by unfold wrap; omega
    rw [hz, scanWindow]
    exact ⟨fun h => (nomatch h), fun h => absurd h.1 hlt⟩

/-- INTERNAL: the loop condition of the inner loop fails at once only when `i + cnt` wraps.
SRCLINE: kernel/mm/pmm.cpp:106 -/
theorem scanWindow_ne_unread (m : Memory) (c : MemChunk) {cnt i : ℕ} (hcnt : 1 ≤ cnt)
    (hlt : i + cnt < 2 ^ 64) :
    scanWindow m c.bitmap cnt (wrap (i + cnt) - i) i 0 ≠ .unread := by
  have h := (scanWindow_eq m c.bitmap cnt i 0 hcnt).2
  rw [Nat.zero_add] at h
  rwa [wrap_of_lt hlt, Nat.add_sub_cancel_left]

/-- INTERNAL: one more stride from an index is the index one iteration later. -/
theorem wrap_stride (i align n : ℕ) :
    wrap (wrap (i + align) + n * align) = wrap (i + (n + 1) * align) := by
  unfold wrap
  rw [Nat.mod_add_mod]
  congr 1
  ring

/-- INTERNAL: the outer loop stops at the first index it looks at that has `cnt` clear bits.
SRCLINE: kernel/mm/pmm.cpp:105-120 -/
theorem allocLoop_eq_some (m : Memory) (c : MemChunk) {cnt align : ℕ} (hcnt : 1 ≤ cnt)
    (hcnt' : cnt < 2 ^ 64) {fuel i allocBase i' a : ℕ} (hi : i < 2 ^ 64)
    (h : allocLoop m c cnt align fuel i allocBase = some (i', a)) :
    ∃ n, i' = wrap (i + n * align) ∧ (∀ k ≤ n, wrap (i + k * align) < c.pageCnt) ∧
      FitsAt m c cnt i' ∧ ∀ k < n, ¬ FitsAt m c cnt (wrap (i + k * align)) := by
  induction fuel generalizing i allocBase with
  | zero => simp [allocLoop] at h
  | succ fuel ih =>
    have hi0 : wrap (i + 0 * align) = i := by rw [Nat.zero_mul, Nat.add_zero, wrap_of_lt hi]
    rw [allocLoop] at h
    by_cases hlt : i < c.pageCnt
    · rw [if_pos hlt] at h
      have hfit := scanWindow_fits_iff m c hcnt hcnt' hi
      -- both ways of not fitting at `i` continue with the next index
      have next : ∀ b, ¬ FitsAt m c cnt i →
          allocLoop m c cnt align fuel (wrap (i + align)) b = some (i', a) →
          ∃ n, i' = wrap (i + n * align) ∧ (∀ k ≤ n, wrap (i + k * align) < c.pageCnt) ∧
            FitsAt m c cnt i' ∧ ∀ k < n, ¬ FitsAt m c cnt (wrap (i + k * align)) := by
        intro b hno hb
        obtain ⟨n, hn, hlook, hf, hmin⟩ := ih (wrap_lt _) hb
        refine ⟨n + 1, by rw [hn, wrap_stride], fun k hk => ?_, hf, fun k hk => ?_⟩
        · rcases k with _ | k
          · rwa [hi0]
          · rw [← wrap_stride]; exact hlook k (by omega)
        · rcases k with _ | k
          · rwa [hi0]
          · rw [← wrap_stride]; exact hmin k (by omega)
      cases hs : scanWindow m c.bitmap cnt (wrap (i + cnt) - i) i 0 with
      | fits =>
        rw [hs] at h
        simp only [Option.some.injEq, Prod.mk.injEq] at h
        obtain ⟨rfl, rfl⟩ := h
        refine ⟨0, hi0.symm, fun k hk => ?_, hfit.mp hs, fun k hk => by omega⟩
        obtain rfl : k = 0 := by omega
        rwa [hi0]
      | taken =>
        rw [hs] at h
        exact next _ (fun hf => by rw [hfit.mpr hf] at hs; cases hs) h
      | unread =>
        rw [hs] at h
        exact next _ (fun hf => by rw [hfit.mpr hf] at hs; cases hs) h
    · rw [if_neg hlt] at h
      cases h

/-- INTERNAL: as long as no `i + cnt` of the scan wraps, the address moves with the index.
SRCLINE: kernel/mm/pmm.cpp:105-120 -/
theorem allocLoop_address (m : Memory) (c : MemChunk) {cnt align : ℕ} (hcnt : 1 ≤ cnt)
    (hbound : c.pageCnt + cnt ≤ 2 ^ 64) {fuel i allocBase i' a : ℕ}
    (hstep : allocBase = wrap (c.base + i * pageSize))
    (h : allocLoop m c cnt align fuel i allocBase = some (i', a)) :
    a = wrap (c.base + i' * pageSize) := by
  induction fuel generalizing i allocBase with
  | zero => simp [allocLoop] at h
  | succ fuel ih =>
    rw [allocLoop] at h
    by_cases hlt : i < c.pageCnt
    · rw [if_pos hlt] at h
      cases hs : scanWindow m c.bitmap cnt (wrap (i + cnt) - i) i 0 with
      | fits =>
        rw [hs] at h
        simp only [Option.some.injEq, Prod.mk.injEq] at h
        obtain ⟨rfl, rfl⟩ := h
        exact hstep
      | taken =>
        rw [hs] at h
        refine ih ?_ h
        rw [hstep]
        simp only [wrap, pageSize]
        omega
      | unread => exact absurd hs (scanWindow_ne_unread m c hcnt (by omega))
    · rw [if_neg hlt] at h
      cases h

/-- INTERNAL: a loop that finds nothing within its iterations found no fitting index among those it
looked at.
SRCLINE: kernel/mm/pmm.cpp:105-123 -/
theorem allocLoop_eq_none (m : Memory) (c : MemChunk) {cnt align : ℕ} (hcnt : 1 ≤ cnt)
    (hcnt' : cnt < 2 ^ 64) {fuel i allocBase : ℕ} (hi : i < 2 ^ 64)
    (h : allocLoop m c cnt align fuel i allocBase = none) {n : ℕ} (hn : n < fuel)
    (hlook : ∀ k ≤ n, wrap (i + k * align) < c.pageCnt) :
    ¬ FitsAt m c cnt (wrap (i + n * align)) := by
  induction fuel generalizing i allocBase n with
  | zero => omega
  | succ fuel ih =>
    have hi0 : wrap (i + 0 * align) = i := by rw [Nat.zero_mul, Nat.add_zero, wrap_of_lt hi]
    have hlt : i < c.pageCnt := by simpa only [hi0] using hlook 0 (Nat.zero_le _)
    have hfit := scanWindow_fits_iff m c hcnt hcnt' hi
    rw [allocLoop, if_pos hlt] at h
    have hno : ¬ FitsAt m c cnt i := by
      intro hf
      rw [hfit.mpr hf] at h
      cases h
    rcases n with _ | n
    · rwa [hi0]
    · rw [← wrap_stride]
      have hlook' : ∀ k ≤ n, wrap (wrap (i + align) + k * align) < c.pageCnt := by
        intro k hk
        rw [wrap_stride]
        exact hlook (k + 1) (by omega)
      cases hs : scanWindow m c.bitmap cnt (wrap (i + cnt) - i) i 0 with
      | fits => exact absurd (hfit.mp hs) hno
      | taken =>
        rw [hs] at h
        exact ih (wrap_lt _) h (by omega) hlook'
      | unread =>
        rw [hs] at h
        exact ih (wrap_lt _) h (by omega) hlook'

/-- INTERNAL: the loop condition holds in fewer than `page_cnt` iterations, whatever the stride: a
stride up to `2^63` moves the index up, a larger one wraps and moves it down.
SRCLINE: kernel/mm/pmm.cpp:105 -/
theorem Looks.lt_pageCnt {c : MemChunk} {align n : ℕ} (halign : 1 ≤ align)
    (halign' : align < 2 ^ 64) (hcnt : c.pageCnt ≤ 2 ^ 63) (h : Looks c align n) :
    n < c.pageCnt := by
  have step : ∀ k, start c align (k + 1) = wrap (start c align k + align) := by
    intro k
    unfold start wrap
    rw [Nat.mod_add_mod]
    congr 1
    ring
  by_cases hle : align ≤ 2 ^ 63
  · have up : ∀ k ≤ n, k ≤ start c align k := by
      intro k hk
      induction k with
      | zero => exact Nat.zero_le _
      | succ k ih =>
        have hk' := h k (by omega)
        have := ih (by omega)
        rw [step, wrap_of_lt (by omega)]
        omega
    exact lt_of_le_of_lt (up n le_rfl) (h n le_rfl)
  · have down : ∀ k ≤ n, start c align k + k ≤ start c align 0 := by
      intro k hk
      induction k with
      | zero => rw [Nat.add_zero]
      | succ k ih =>
        have hk' := h k (by omega)
        have hk'' := h (k + 1) hk
        have := ih (by omega)
        rw [step] at hk'' ⊢
        unfold wrap at hk'' ⊢
        omega
    have h0 := h 0 (Nat.zero_le _)
    have := down n le_rfl
    omega

end CrepOS.Analysis
