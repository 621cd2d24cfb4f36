import CrepOS.Interface.MmapGrowth
import CrepOS.Analysis.MmapDisjoint

/-!
# When `mmap_alloc` terminates

Between two calls of `mmap_alloc` the bitmap grows by `0x1000` bytes and no page becomes used
(`regrow_used`), so a run of free pages is long enough at some size, unless the page count is `0` or larger
than what `bm_size` can count. `mmapAlloc_terminates_iff` has the exact condition; for the lengths up to
`2^63 - 0x1000` that are not `0` it is met (`growthEnds_of_length`).
-/

set_option autoImplicit false

namespace CrepOS.Analysis

open CrepOS.Library CrepOS.Model CrepOS.Interface

/-! ## One call -/

/-- The bitmap and its size with which `mmap_alloc` calls itself.
SRCLINE: kernel/mm/mmap.cpp:47-48 -/
def regrow (b : Memory × ℕ) : Memory × ℕ := (recallocZeroed b.1 b.2 (grownSize b.2), grownSize b.2)

/-- The page `k` has a bit in the bitmap, and it is set. -/
def Used (b : Memory × ℕ) (k : ℕ) : Prop := k / 8 < b.2 ∧ b.1.bit 0 k = true

section Search

variable {b : Memory × ℕ} {addr length flags n e k : ℕ}

/-- The bits of the new object. -/
theorem recallocZeroed_bit (m : Memory) (size cnt : ℕ) :
    (recallocZeroed m size cnt).bit 0 k = (decide (k / 8 < size ∧ k / 8 < cnt) && m.bit 0 k) := by
  by_cases hin : k / 8 < size ∧ k / 8 < cnt
  · rw [decide_eq_true hin, Bool.true_and]
    apply Memory.bit_congr
    rw [Nat.zero_add, recallocZeroed, if_pos hin]
  · rw [decide_eq_false hin, Bool.false_and]
    have hzero : (recallocZeroed m size cnt).bit 0 k = Memory.bit (fun _ => 0) 0 k := by
      apply Memory.bit_congr
      rw [Nat.zero_add, recallocZeroed, if_neg hin]
    rw [hzero]
    simp [Memory.bit]

/-- The pages in use after the bitmap has grown. -/
theorem regrow_used : Used (regrow b) k ↔ Used b k ∧ k / 8 < grownSize b.2 := by
  unfold Used regrow
  generalize grownSize b.2 = cnt
  rw [recallocZeroed_bit, Bool.and_eq_true, decide_eq_true_eq]
  constructor
  · rintro ⟨hcnt, ⟨hsize, -⟩, hbit⟩
    exact ⟨⟨hsize, hbit⟩, hcnt⟩
  · rintro ⟨⟨hsize, hbit⟩, hcnt⟩
    exact ⟨hcnt, ⟨hsize, hcnt⟩, hbit⟩

theorem regrow_size : (regrow b).2 = grownSize b.2 := rfl

/-- INTERNAL: a run ends inside the bitmap if its last pages are not in use. -/
theorem runEnd_iff_used (he : e ≤ b.2) :
    RunEnd b.1 n e ↔ n ≤ e ∧ ∀ k < e, e < k + n → ¬ Used b k := by
  refine and_congr_right fun _ => forall_congr' fun k => forall_congr' fun hk => forall_congr' fun _ => ?_
  unfold Used
  rw [Bool.eq_false_iff, not_and]
  constructor
  · intro hbit _
    exact hbit
  · intro h
    exact h (by omega)

/-- INTERNAL: one call returns if and only if there is a run.
SRCLINE: kernel/mm/mmap.cpp:28-45 -/
theorem mmapTry_isSome_iff (hflags : flags &&& mapFixed = 0) :
    (mmapTry addr length flags b.1 b.2).isSome ↔
      0 < pageCnt length ∧ ∃ e ≤ b.2, RunEnd b.1 (pageCnt length) e := by
  unfold mmapTry
  rw [if_neg (not_not_intro hflags)]
  cases hfind : findRun b.1 (pageCnt length) b.2 0 0 0 with
  | none =>
    simp only [Option.isSome_none, Bool.false_eq_true, false_iff, not_and, not_exists]
    intro hpos e he
    exact findRun_none hpos hfind e he
  | some o =>
    obtain ⟨hpos, e, he, hrun, -⟩ := findRun_firstRun hfind
    simp only [Option.isSome_some, true_iff]
    exact ⟨hpos, e, he, hrun.1⟩

end Search

/-! ## The calls -/

section Calls

variable {b : Memory × ℕ} {addr length flags : ℕ}

/-- The calls return if and only if one of them does without another one. -/
theorem mmapAllocZeroed_isSome_iff {pm : PageMap} (fuel : ℕ) (hm : pm.init = ⟨some b.1, b.2⟩) :
    (mmapAllocZeroed addr length flags fuel pm).isSome ↔
      ∃ j < fuel, (mmapTry addr length flags (regrow^[j] b).1 (regrow^[j] b).2).isSome := by
  induction fuel generalizing pm b with
  | zero => simp [mmapAllocZeroed]
  | succ fuel ih =>
    simp only [mmapAllocZeroed, hm]
    cases htry : mmapTry addr length flags b.1 b.2 with
    | some r =>
      simp only [Option.isSome_some, true_iff]
      refine ⟨0, by omega, ?_⟩
      rw [Function.iterate_zero_apply, htry, Option.isSome_some]
    | none =>
      have hnext := @ih (regrow b) ⟨some (regrow b).1, (regrow b).2⟩ rfl
      rw [regrow] at hnext
      rw [hnext]
      constructor
      · rintro ⟨j, hj, h⟩
        exact ⟨j + 1, by omega, h⟩
      · rintro ⟨j, hj, h⟩
        cases j with
        | zero =>
          rw [Function.iterate_zero_apply, htry] at h
          cases h
        | succ j => exact ⟨j, by omega, h⟩

/-- INTERNAL: as long as `bm_size` does not wrap, the pages in use are the same. -/
theorem regrow_iterate (j : ℕ) (h : b.2 + 0x1000 * j < 2 ^ 64) :
    (regrow^[j] b).2 = b.2 + 0x1000 * j ∧ ∀ k, Used (regrow^[j] b) k ↔ Used b k := by
  induction j with
  | zero => exact ⟨rfl, fun _ => Iff.rfl⟩
  | succ j ih =>
    obtain ⟨hsize, hused⟩ := ih (by omega)
    have hgrown : grownSize (regrow^[j] b).2 = b.2 + 0x1000 * (j + 1) := by
      rw [hsize, grownSize, wrap]
      omega
    rw [Function.iterate_succ_apply', regrow_size]
    refine ⟨hgrown, fun k => ?_⟩
    simp only [regrow_used, hused, hgrown]
    constructor
    · intro hk
      exact hk.1
    · intro hk
      have hin := hk.1
      exact ⟨hk, by omega⟩

/-- INTERNAL: the largest bitmap, after `bm_size` has started again. -/
theorem regrow_largest (h : b.2 < 2 ^ 64) : ∃ j,
    (regrow^[j] b).2 = b.2 % 0x1000 + (2 ^ 64 - 0x1000) ∧
      ∀ k, Used (regrow^[j] b) k ↔ Used b k ∧ k / 8 < b.2 % 0x1000 := by
  obtain ⟨j₁, hj₁⟩ : ∃ j, b.2 + 0x1000 * j = b.2 % 0x1000 + (2 ^ 64 - 0x1000) :=
    ⟨(2 ^ 64 - 1 - b.2) / 0x1000, by omega⟩
  obtain ⟨hsize₁, hused₁⟩ := regrow_iterate j₁ (b := b) (by omega)
  have hwrap : grownSize (regrow^[j₁] b).2 = b.2 % 0x1000 := by
    rw [hsize₁, hj₁, grownSize, wrap]
    omega
  have hsize₂ : (regrow (regrow^[j₁] b)).2 = b.2 % 0x1000 := by
    rw [regrow_size, hwrap]
  obtain ⟨hsize₃, hused₃⟩ := regrow_iterate (2 ^ 52 - 1) (b := regrow (regrow^[j₁] b)) (by omega)
  refine ⟨2 ^ 52 - 1 + (j₁ + 1), ?_, fun k => ?_⟩
  · rw [Function.iterate_add_apply, Function.iterate_succ_apply', hsize₃, hsize₂]
    omega
  · rw [Function.iterate_add_apply, Function.iterate_succ_apply', hused₃, regrow_used, hused₁, hwrap]

/-- INTERNAL: what no number of calls changes. -/
theorem regrow_kept (h : b.2 < 2 ^ 64) (j : ℕ) :
    (regrow^[j] b).2 ≤ b.2 % 0x1000 + (2 ^ 64 - 0x1000) ∧ (regrow^[j] b).2 % 0x1000 = b.2 % 0x1000 ∧
      ∀ k, Used b k → k / 8 < b.2 % 0x1000 → Used (regrow^[j] b) k := by
  induction j with
  | zero =>
    refine ⟨?_, rfl, fun k hk _ => hk⟩
    rw [Function.iterate_zero_apply]
    omega
  | succ j ih =>
    obtain ⟨hle, hmod, hused⟩ := ih
    have hgrown : grownSize (regrow^[j] b).2 < 2 ^ 64 ∧
        grownSize (regrow^[j] b).2 % 0x1000 = b.2 % 0x1000 := by
      rw [← hmod, grownSize, wrap]
      omega
    rw [Function.iterate_succ_apply', regrow_size]
    refine ⟨by omega, hgrown.2, fun k hk hlow => ?_⟩
    rw [regrow_used]
    have hmodle := Nat.mod_le (grownSize (regrow^[j] b).2) 0x1000
    exact ⟨hused k hk hlow, by omega⟩

end Calls

/-! ## Termination -/

section Termination

variable {pm : PageMap} {addr length flags : ℕ}

/-- INTERNAL: the last page in use. -/
theorem lastUsed_spec {b : Memory × ℕ} (hm : pm.init = ⟨some b.1, b.2⟩) :
    (∀ k, Used b k → k / 8 < b.2 % 0x1000 → k ≤ lastUsed pm) ∧
      (lastUsed pm = 0 ∨ Used b (lastUsed pm) ∧ lastUsed pm / 8 < b.2 % 0x1000) := by
  have hlast : lastUsed pm = Nat.findGreatest (fun k => b.1.bit 0 k = true) (8 * (b.2 % 0x1000) - 1) := by
    simp only [lastUsed, hm]
  rw [hlast]
  constructor
  · intro k hk hlow
    exact Nat.le_findGreatest (by omega) hk.2
  · by_cases hzero : Nat.findGreatest (fun k => b.1.bit 0 k = true) (8 * (b.2 % 0x1000) - 1) = 0
    · exact Or.inl hzero
    · right
      have hbit := Nat.findGreatest_of_ne_zero rfl hzero
      have hle := Nat.findGreatest_le (P := fun k => b.1.bit 0 k = true) (8 * (b.2 % 0x1000) - 1)
      have hmod := Nat.mod_le b.2 0x1000
      exact ⟨⟨by omega, hbit⟩, by omega⟩

/-- **When `mmap_alloc` terminates**: for every page map, address, length and flags, on a heap that does not
run out, finitely many calls return if and only if the condition holds.
SRCLINE: kernel/mm/mmap.cpp:8-50, 125-128 -/
theorem mmapAlloc_terminates_iff (pm : PageMap) (addr length flags : ℕ) (hsize : pm.bmSize < 2 ^ 64) :
    (∃ fuel, (mmapAllocZeroed addr length flags fuel pm).isSome) ↔ GrowthEnds pm length flags := by
  obtain ⟨m, hm⟩ := init_bitmap pm
  have hb : pm.init = ⟨some (m, pm.init.bmSize).1, (m, pm.init.bmSize).2⟩ := by
    rw [← hm]
  have hlt : (m, pm.init.bmSize).2 < 2 ^ 64 := by
    change pm.init.bmSize < 2 ^ 64
    unfold PageMap.init
    split_ifs
    · exact by decide
    · exact hsize
  obtain ⟨hmax, hlast⟩ := lastUsed_spec hb
  unfold GrowthEnds
  simp only [mmapAllocZeroed_isSome_iff _ hb]
  change _ ↔ _ ∨ _ ∧ _ ≤ (m, pm.init.bmSize).2 % 0x1000 + _
  generalize (m, pm.init.bmSize) = b at *
  by_cases hflags : flags &&& mapFixed = 0
  · simp only [hflags, ne_eq, not_true_eq_false, false_or, mmapTry_isSome_iff hflags]
    constructor
    · rintro ⟨fuel, j, -, hpos, e, he, hrun⟩
      refine ⟨hpos, ?_⟩
      obtain ⟨hle, -, hkept⟩ := regrow_kept hlt j
      obtain ⟨hne, hfree⟩ := (runEnd_iff_used he).mp hrun
      -- the run is behind the last page in use, or it is shorter than what is before that page
      rcases hlast with hzero | ⟨hused, hlow⟩
      · omega
      · have hin := hfree (lastUsed pm)
        by_contra hover
        have hmod : b.2 % 0x1000 < 0x1000 := Nat.mod_lt _ (by decide)
        exact hin (by omega) (by omega) (hkept _ hused hlow)
    · rintro ⟨hpos, hfits⟩
      obtain ⟨j, hsize, hused⟩ := regrow_largest hlt
      refine ⟨j + 1, j, by omega, hpos, lastUsed pm + pageCnt length, by omega, ?_⟩
      rw [runEnd_iff_used (by omega)]
      refine ⟨by omega, fun k _ hk hin => ?_⟩
      obtain ⟨hk', hlow⟩ := (hused k).mp hin
      have hle := hmax k hk' hlow
      omega
  · simp only [hflags, ne_eq, not_false_eq_true, true_or, iff_true]
    refine ⟨1, 0, by omega, ?_⟩
    rw [Function.iterate_zero_apply, mmapTry, if_pos hflags, Option.isSome_some]

/-- Requests of more than `0` and less than `2^63 - 0x1000` bytes come to an end. -/
theorem growthEnds_of_length (pm : PageMap) {length flags : ℕ} (hpos : 0 < length)
    (hlength : length < 2 ^ 63 - pageSize) : GrowthEnds pm length flags := by
  right
  have hcnt : pageCnt length = (length + 4095) / 4096 := by
    unfold pageCnt
    rw [toSigned_of_lt (by omega), divRoundup_pageSize hlength, ofSigned_natCast (by omega)]
  have hlast : lastUsed pm ≤ 8 * (pm.init.bmSize % 0x1000) - 1 := by
    unfold lastUsed
    split
    · exact Nat.zero_le _
    · exact Nat.findGreatest_le _
  have hmod : pm.init.bmSize % 0x1000 < 0x1000 := Nat.mod_lt _ (by decide)
  simp only [pageSize] at hlength
  rw [hcnt]
  omega

/-- A page map without regions and a request for one page. -/
theorem mmapAlloc_terminates_page : ∃ fuel, (mmapAllocZeroed 0 4096 mapAnonymous fuel ⟨none, 0⟩).isSome :=
  (mmapAlloc_terminates_iff ⟨none, 0⟩ 0 4096 mapAnonymous (by decide)).mpr
    (growthEnds_of_length _ (by decide) (by decide))

/-- Without `map_fixed` a request for no page never returns, whatever the bitmap. -/
theorem mmapAllocZeroed_no_page (hflags : flags &&& mapFixed = 0) {length : ℕ} (hcnt : pageCnt length = 0)
    (fuel : ℕ) (pm : PageMap) : mmapAllocZeroed addr length flags fuel pm = none := by
  induction fuel generalizing pm with
  | zero => rfl
  | succ fuel ih =>
    obtain ⟨m, hm⟩ := init_bitmap pm
    have htry : mmapTry addr length flags m pm.init.bmSize = none := by
      unfold mmapTry
      rw [if_neg (not_not_intro hflags), hcnt, findRun_zero]
    simp only [mmapAllocZeroed, hm, htry, ih]

/-- **A request of `0` bytes does not terminate.**
SRCLINE: kernel/mm/mmap.cpp:28-50, 125-128 -/
theorem mmapAlloc_endless :
    ¬ ∃ fuel, (mmapAllocZeroed 0 0 mapAnonymous fuel ⟨none, 0⟩).isSome := by
  rintro ⟨fuel, h⟩
  rw [mmapAllocZeroed_no_page (by decide) (by decide)] at h
  cases h

end Termination

/-! ## The heap of the kernel -/

/-- As long as the heap has an object and zeros follow the old one, the calls are those of `mmap_alloc` on
the heap of the kernel.
SRCLINE: kernel/mm/slab.cpp:224-239 -/
theorem mmapAlloc_zeroed {addr length flags : ℕ} (n : ℕ) (pm : PageMap)
    (hsize : pm.init.bmSize + 0x1000 * n ≤ 262144) :
    mmapAlloc addr length flags (List.replicate n fun _ => 0) pm =
      mmapAllocZeroed addr length flags (n + 1) pm := by
  induction n generalizing pm with
  | zero =>
    obtain ⟨m, hm⟩ := init_bitmap pm
    simp only [List.replicate_zero, mmapAlloc, mmapAllocZeroed, hm]
    cases mmapTry addr length flags m pm.init.bmSize with
    | none => rfl
    | some r => rfl
  | succ n ih =>
    obtain ⟨m, hm⟩ := init_bitmap pm
    have hgrown : grownSize pm.init.bmSize = pm.init.bmSize + 0x1000 := wrap_of_lt (by omega)
    rw [List.replicate_succ, mmapAlloc, mmapAllocZeroed]
    simp only [hm]
    cases mmapTry addr length flags m pm.init.bmSize with
    | some r => rfl
    | none =>
      have hobject : recallocBitmap m pm.init.bmSize (grownSize pm.init.bmSize) (fun _ => 0) =
          some (recallocZeroed m pm.init.bmSize (grownSize pm.init.bmSize)) := by
        rw [recallocBitmap, if_pos (by omega), Option.some.injEq, hgrown]
        funext a
        unfold recallocZeroed
        by_cases ha : a < pm.init.bmSize
        · rw [if_pos ha, if_pos ⟨ha, by omega⟩]
        · rw [if_neg ha, if_neg (mt And.left ha)]
      simp only [hobject]
      apply ih
      change grownSize pm.init.bmSize + 0x1000 * n ≤ 262144
      omega

end CrepOS.Analysis
