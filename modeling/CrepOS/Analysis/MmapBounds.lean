import CrepOS.Interface.MmapBits
import CrepOS.Analysis.MmapDisjoint

/-!
# Whether `mmap` stays inside its bitmap

The search of `mmap_alloc` tests and sets only bits of the bitmap (`searchBits_inside`,
`findRun_inside`). The bits of a hint and of a fixed mapping come from the address alone, and nothing
compares them with the size of the bitmap: `mmap_bits_inside_iff` has the exact condition.
`mmapTry_outside_kept` and `checkMmapAddr_iff` say that the bits that are listed are all that the calls set
and all that they depend on.
-/

set_option autoImplicit false

namespace CrepOS.Analysis

open CrepOS.Library CrepOS.Model CrepOS.Interface

variable {m : Memory} {pm : PageMap} {addr length flags size i n k : ℕ}

/-! ## The loops -/

theorem mem_markedBits : k ∈ markedBits i n ↔ i ≤ k ∧ k < i + n := by
  unfold markedBits
  simp only [List.mem_map, List.mem_range]
  constructor
  · rintro ⟨j, hj, rfl⟩
    omega
  · intro h
    exact ⟨k - i, by omega, by omega⟩

/-- The bits that are tested are those up to the first one that is set. -/
theorem mem_testedBits : k ∈ testedBits m i n ↔
    i ≤ k ∧ k < i + n ∧ ∀ j, i ≤ j → j < k → m.bit 0 j = false := by
  induction n generalizing i with
  | zero =>
    simp only [testedBits, List.not_mem_nil, false_iff]
    omega
  | succ n ih =>
    rw [testedBits, bmTest_eq, List.mem_cons]
    cases hbit : m.bit 0 i with
    | true =>
      simp only [if_true, List.not_mem_nil, or_false]
      constructor
      · rintro rfl
        exact ⟨le_rfl, by omega, fun j hlow hhigh => absurd hlow (by omega)⟩
      · rintro ⟨hlow, hhigh, hclear⟩
        by_contra hne
        rw [hclear i le_rfl (by omega)] at hbit
        cases hbit
    | false =>
      simp only [Bool.false_eq_true, if_false, ih]
      constructor
      · rintro (rfl | ⟨hlow, hhigh, hclear⟩)
        · exact ⟨le_rfl, by omega, fun j hlow hhigh => absurd hlow (by omega)⟩
        · refine ⟨by omega, by omega, fun j hj hjk => ?_⟩
          by_cases hji : j = i
          · rw [hji, hbit]
          · exact hclear j (by omega) hjk
      · rintro ⟨hlow, hhigh, hclear⟩
        by_cases hki : k = i
        · exact Or.inl hki
        · exact Or.inr ⟨by omega, by omega, fun j hj hjk => hclear j (by omega) hjk⟩

/-- The search tests bits below the number of bytes. -/
theorem searchBits_inside {pages cnt : ℕ} (h : k ∈ searchBits m pages n i cnt) : i ≤ k ∧ k < i + n := by
  induction n generalizing i cnt with
  | zero => cases h
  | succ n ih =>
    rw [searchBits, List.mem_cons] at h
    generalize (if bmTest m 0 i then 0 else cnt) = cnt' at h
    rcases h with rfl | h
    · omega
    · by_cases hfound : cnt' + 1 = pages
      · rw [if_pos hfound] at h
        cases h
      · rw [if_neg hfound] at h
        have hrest := ih h
        omega

/-- The search returns pages that have bits in the bitmap.
SRCLINE: kernel/mm/mmap.cpp:28-45 -/
theorem findRun_inside {pages o : ℕ} (h : findRun m pages size 0 0 0 = some o) :
    bmIndex (wrap (o * pageSize + mmapMinAddr)) +
      rangeCnt (bmIndex (wrap (o * pageSize + mmapMinAddr))) pages ≤ 2 * size := by
  obtain ⟨-, e, hle, hrun, rfl⟩ := findRun_firstRun h
  have hocc := occupied_le m e
  have hstart := hrun.1.1
  have hindex : bmIndex (wrap (wrap (e + occupied m e - pages) * pageSize + mmapMinAddr)) ≤
      e + occupied m e - pages := by
    unfold bmIndex wrap
    simp only [mmapMinAddr, pageSize]
    omega
  have hcnt : rangeCnt (bmIndex (wrap (wrap (e + occupied m e - pages) * pageSize + mmapMinAddr))) pages ≤
      pages := by
    unfold rangeCnt wrap
    omega
  omega

/-! ## `mmap_alloc` -/

/-- INTERNAL: without `map_fixed`, up to the growth of the bitmap. -/
theorem tryBits_search_inside (hflags : flags &&& mapFixed = 0) (h : k ∈ tryBits addr length flags m size) :
    k / 8 < size := by
  rw [tryBits, if_neg (not_not_intro hflags), List.mem_append] at h
  rcases h with h | h
  · have htested := searchBits_inside h
    omega
  · cases hfind : findRun m (pageCnt length) size 0 0 0 with
    | none =>
      rw [hfind] at h
      cases h
    | some o =>
      rw [hfind] at h
      have hset := mem_markedBits.mp h
      have hinside := findRun_inside hfind
      omega

/-- A bit that is not listed is kept.
SRCLINE: kernel/mm/mmap.cpp:8-45 -/
theorem mmapTry_outside_kept {pm' : PageMap} {a : ℕ} (h : mmapTry addr length flags m size = some (pm', a))
    (hk : k ∉ tryBits addr length flags m size) : ∃ m', pm'.bitmap = some m' ∧ m'.bit 0 k = m.bit 0 k := by
  -- the loop of both branches
  have hrun : ∀ i n, k ∉ markedBits i n → (m.setRun 0 i n).bit 0 k = m.bit 0 k := by
    intro i n hnot
    rw [Memory.bit_setRun, decide_eq_false (mt mem_markedBits.mpr hnot), Bool.false_or]
  unfold mmapTry at h
  unfold tryBits at hk
  by_cases hflags : flags &&& mapFixed ≠ 0
  · rw [if_pos hflags] at h hk
    obtain ⟨rfl, rfl⟩ := Prod.mk.inj (Option.some.inj h)
    exact ⟨_, rfl, hrun _ _ hk⟩
  · rw [if_neg hflags] at h hk
    cases hfind : findRun m (pageCnt length) size 0 0 0 with
    | none =>
      rw [hfind] at h
      cases h
    | some o =>
      rw [hfind] at h hk
      obtain ⟨rfl, rfl⟩ := Prod.mk.inj (Option.some.inj h)
      exact ⟨_, rfl, hrun _ _ fun hset => hk (List.mem_append_right _ hset)⟩

/-- **Without `map_fixed`** `mmap_alloc` stays inside the bitmap, however often it grows.
SRCLINE: kernel/mm/mmap.cpp:8-50 -/
theorem allocBits_search_inside (hflags : flags &&& mapFixed = 0) (behind : List Memory) (pm : PageMap) :
    ∀ x ∈ allocBits addr length flags behind pm, BitInside x := by
  induction behind generalizing pm with
  | nil =>
    intro x hx
    obtain ⟨m, hm⟩ := init_bitmap pm
    simp only [allocBits, hm, List.mem_map] at hx
    obtain ⟨k, hk, rfl⟩ := hx
    exact tryBits_search_inside hflags hk
  | cons b behind ih =>
    intro x hx
    obtain ⟨m, hm⟩ := init_bitmap pm
    simp only [allocBits, hm, List.mem_append, List.mem_map] at hx
    rcases hx with ⟨k, hk, rfl⟩ | hx
    · exact tryBits_search_inside hflags hk
    · split at hx
      · cases hx
      · split at hx
        · cases hx
        · exact ih _ x hx

/-- With `map_fixed` the bits of the range are set. -/
theorem allocBits_fixed (hflags : flags &&& mapFixed ≠ 0) (behind : List Memory) (pm : PageMap) :
    allocBits addr length flags behind pm =
      (markedBits (bmIndex addr) (rangeCnt (bmIndex addr) (pageCnt length))).map (·, pm.init.bmSize) := by
  obtain ⟨m, hm⟩ := init_bitmap pm
  cases behind with
  | nil => simp only [allocBits, hm, tryBits, if_pos hflags]
  | cons b behind => simp only [allocBits, hm, tryBits, mmapTry, if_pos hflags, List.append_nil]

/-- INTERNAL: a range of bits is inside the bitmap. -/
theorem markedBits_inside_iff : (∀ x ∈ (markedBits i n).map (·, size), BitInside x) ↔
    n = 0 ∨ i + n ≤ 8 * size := by
  simp only [List.forall_mem_map, mem_markedBits, BitInside, and_imp]
  constructor
  · intro h
    by_cases hn : n = 0
    · exact Or.inl hn
    · have hlast := h (i + n - 1) (by omega) (by omega)
      omega
  · rintro (rfl | h) k hlow hhigh
    · omega
    · omega

/-! ## `check_mmap_addr` -/

/-- INTERNAL: the bits that are tested are clear if and only if those of the range are. -/
theorem testedBits_clear_iff : (∀ k ∈ testedBits m i n, m.bit 0 k = false) ↔
    ∀ k < n, m.bit 0 (i + k) = false := by
  simp only [mem_testedBits]
  constructor
  · intro h k
    induction k using Nat.strong_induction_on with
    | _ k ih =>
      intro hk
      apply h
      refine ⟨by omega, by omega, fun j hlow hhigh => ?_⟩
      have hbit := ih (j - i) (by omega) (by omega)
      rwa [Nat.add_sub_cancel' hlow] at hbit
  · rintro h k ⟨hlow, hhigh, -⟩
    have hbit := h (k - i) (by omega)
    rwa [Nat.add_sub_cancel' hlow] at hbit

/-- INTERNAL: the bits that are touched for a hint. -/
theorem checkBits_eq (haddr : addr ≠ 0) (hflags : flags ≠ mapFixed) (hm : pm.init.bitmap = some m) :
    checkBits pm addr length flags =
      (testedBits m (bmIndex addr) (rangeCnt (bmIndex addr) (pageCnt length))).map
        (·, pm.init.bmSize) := by
  unfold checkBits
  rw [if_neg (not_or.mpr ⟨haddr, hflags⟩), hm]

/-- INTERNAL: the pages of a hint are in use if one of them is. -/
theorem any_bmTest {b : Option Memory} (hm : b = some m) (n i : ℕ) :
    ((List.range n).any fun k => b.any fun m => bmTest m 0 (i + k)) = true ↔
      ∃ k < n, m.bit 0 (i + k) = true := by
  rw [List.any_eq_true, hm]
  simp only [List.mem_range, Option.any_some, bmTest_eq]

/-- The hint is taken if and only if no page of the range is in use. -/
theorem checkMmapAddr_ret (haddr : addr ≠ 0) (hflags : flags ≠ mapFixed) (hm : pm.init.bitmap = some m) :
    (checkMmapAddr pm addr length flags).2 = 0 ↔
      ∀ k < rangeCnt (bmIndex addr) (pageCnt length), m.bit 0 (bmIndex addr + k) = false := by
  have htaken := any_bmTest hm (rangeCnt (bmIndex addr) (pageCnt length)) (bmIndex addr)
  unfold checkMmapAddr
  by_cases hset : ∃ k < rangeCnt (bmIndex addr) (pageCnt length), m.bit 0 (bmIndex addr + k) = true
  · simp only [haddr, hflags, htaken.mpr hset, if_true, if_false]
    obtain ⟨k, hk, hbit⟩ := hset
    constructor
    · intro h
      cases h
    · intro hclear
      rw [hclear k hk] at hbit
      cases hbit
  · simp only [haddr, hflags, mt htaken.mp hset, if_false]
    constructor
    · intro _ k hk
      exact Bool.eq_false_iff.mpr fun hbit => hset ⟨k, hk, hbit⟩
    · intro _
      rfl

/-- The hint is taken if and only if no bit that is tested is set.
SRCLINE: kernel/mm/mmap.cpp:52-77 -/
theorem checkMmapAddr_iff (haddr : addr ≠ 0) (hflags : flags ≠ mapFixed) (hm : pm.init.bitmap = some m) :
    (checkMmapAddr pm addr length flags).2 = 0 ↔
      ∀ x ∈ checkBits pm addr length flags, m.bit 0 x.1 = false := by
  rw [checkBits_eq haddr hflags hm, List.forall_mem_map, testedBits_clear_iff,
    checkMmapAddr_ret haddr hflags hm]

/-- INTERNAL: the bits of a hint are inside the bitmap. -/
theorem testedBits_inside_iff : (∀ x ∈ (testedBits m i n).map (·, size), BitInside x) ↔
    n = 0 ∨ i + n ≤ 8 * size ∨ ∃ k < n, i + k < 8 * size ∧ m.bit 0 (i + k) = true := by
  simp only [List.forall_mem_map, mem_testedBits, BitInside, and_imp]
  constructor
  · intro h
    by_contra hno
    push Not at hno
    obtain ⟨hn, hend, hclear⟩ := hno
    -- the first bit behind the bitmap, or of the range
    have hfirst := h (max i (8 * size)) (by omega) (by omega) fun j hlow hhigh => by
      have hbit := hclear (j - i) (by omega) (by omega)
      rw [Nat.add_sub_cancel' hlow] at hbit
      exact Bool.eq_false_iff.mpr hbit
    omega
  · rintro (rfl | hend | ⟨k, hk, hinside, hset⟩) j hlow hhigh hclear
    · omega
    · omega
    · by_contra hno
      rw [hclear (i + k) (by omega) (by omega)] at hset
      cases hset

/-! ## `mmap` -/

/-- **When `mmap` stays inside the bitmap**: for every page map, address, length and flags, and whatever
`kmm::recalloc` finds behind the bitmap, every bit that is tested or set is one of the allocated bytes if
and only if the condition holds.
SRCLINE: kernel/mm/mmap.cpp:8-104 -/
theorem mmap_bits_inside_iff (pm : PageMap) (addr length flags : ℕ) (behind : List Memory) :
    (∀ x ∈ mmapBits pm addr length flags behind, BitInside x) ↔ MmapInside pm addr length flags := by
  unfold mmapBits MmapInside
  by_cases hanon : flags = mapAnonymous
  · have hflags : flags &&& mapFixed = 0 := by
      rw [hanon]
      decide
    have hfixed : flags ≠ mapFixed := by
      rw [hanon]
      decide
    have hsearch : ∀ x ∈ (if (checkMmapAddr pm addr length flags).2 = -1 then
        allocBits addr length flags behind (checkMmapAddr pm addr length flags).1 else []),
        BitInside x := by
      intro x hx
      split at hx
      · exact allocBits_search_inside hflags behind _ x hx
      · cases hx
    simp only [if_pos hanon, List.mem_append, or_imp, forall_and, iff_true_intro hsearch, and_true]
    obtain ⟨m, hm⟩ := init_bitmap pm
    by_cases haddr : addr = 0
    · simp [checkBits, haddr]
    · rw [checkBits_eq haddr hfixed hm, testedBits_inside_iff]
      simp only [haddr, false_or, RangeInside, or_assoc, hm, Option.some.injEq, exists_eq_left']
  · by_cases hfixed : flags &&& mapFixed ≠ 0
    · simp only [if_neg hanon, if_pos hfixed, allocBits_fixed hfixed, markedBits_inside_iff, RangeInside]
    · simp [hanon, hfixed]

/-- **The dynamic linker is loaded outside the bitmap**: with a new page map, `elf::file` maps its first
page at `0x40000000`, whose bit is in the byte `32766` of `4096`.
SRCLINE: kernel/lib/elf.cpp:58, kernel/sched/scheduler.cpp:247 -/
theorem mmap_sets_outside :
    (262128, 4096) ∈ mmapBits ⟨none, 0⟩ 0x40000000 4096 (mapAnonymous ||| mapFixed) [] ∧
      ¬ BitInside (262128, 4096) := by
  have hindex : bmIndex 0x40000000 = 262128 := by decide
  have hcnt : rangeCnt 262128 (pageCnt 4096) = 1 := by decide
  have hsize : (PageMap.init ⟨none, 0⟩).bmSize = 4096 := rfl
  constructor
  · rw [mmapBits, if_neg (by decide), if_pos (by decide), allocBits_fixed (by decide), hindex, hcnt, hsize]
    exact List.mem_map_of_mem (mem_markedBits.mpr ⟨le_rfl, by decide⟩)
  · unfold BitInside
    decide

end CrepOS.Analysis
