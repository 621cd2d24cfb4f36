import CrepOS.Analysis.MunmapPages
import CrepOS.Analysis.MmapDisjoint

/-!
# When `munmap` ends exactly the pages of its range

`munmap_correct_iff` has the exact condition, for every bitmap, every tree of tables, every address and
length and all values of the uninitialised `page_length`. The page count is right for lengths below
`2^63 - 0x1000` (`munmapCnt_eq`). For a length of `2^64 - 1` it is `0`, and a page that was never mapped ends
in a `NULL` pointer unless `page_length` happens to be `0` (`munmap_not_correct`).
-/

set_option autoImplicit false

namespace CrepOS.Analysis

open CrepOS.Library CrepOS.Model CrepOS.Interface

section Exact

variable {p : Paging} {root : Word} {m : Memory} {size index length cnt : ℕ} {vm vm' : Vm} {addrs : List Word}

/-- What `munmap` does to the bitmap does not depend on the tables. -/
theorem munmapAt_bitmap {pm pm' : PageMap} {addr : Word} {lengths : ℕ → Word} {r : ℤ}
    (h : munmapAt p root pm vm addr length lengths = some (pm', vm', r)) :
    munmap pm addr.toNat length = (pm', r) := by
  simp only [munmapAt] at h
  unfold munmap
  by_cases hsize : pm.bmSize ≤ bmIndex addr.toNat
  · rw [if_pos hsize] at h ⊢
    obtain ⟨rfl, hr⟩ := Prod.mk.inj (Option.some.inj h)
    rw [(Prod.mk.inj hr).2]
  · rw [if_neg hsize] at h ⊢
    obtain ⟨vm₁, -, hresult⟩ := Option.map_eq_some_iff.mp h
    obtain ⟨rfl, hr⟩ := Prod.mk.inj hresult
    rw [← (Prod.mk.inj hr).2]
    rfl

/-- INTERNAL: the bits, if the loop clears `cnt` of them. -/
theorem cleared_bits_iff :
    (∀ k, (m.clearRun 0 index cnt).bit 0 k =
      (!decide (UnmapRange size index length k) && m.bit 0 k)) ↔
      ∀ k, m.bit 0 k = true → (index ≤ k ∧ k < index + cnt ↔ UnmapRange size index length k) := by
  refine forall_congr' fun k => ?_
  rw [Memory.bit_clearRun]
  cases hbit : m.bit 0 k with
  | false => simp
  | true =>
    rw [Bool.and_true, Bool.and_true, ← decide_not, decide_eq_decide, not_iff_not]
    exact ⟨fun h _ => h, fun h => h rfl⟩

/-- INTERNAL: the translations, if those of the pages of the addresses end. -/
theorem ended_translations_iff {mem mem' : Word → Index → Word}
    (h : ∀ v, ((∃ b ∈ addrs, PageOf p mem root b v) → translate p mem' root v = none) ∧
      ((∀ b ∈ addrs, ¬ PageOf p mem root b v) → translate p mem' root v = translate p mem root v)) :
    (∀ v, Canonical p v → translate p mem' root v =
      if UnmapRange size index length (bmIndex v.toNat) then none else translate p mem root v) ↔
      ∀ v, Canonical p v → (translate p mem root v).isSome →
        (UnmapRange size index length (bmIndex v.toNat) ↔ ∃ a ∈ addrs, PageOf p mem root a v) := by
  refine forall_congr' fun v => forall_congr' fun _ => ?_
  obtain ⟨hend, hkeep⟩ := h v
  by_cases hpage : ∃ a ∈ addrs, PageOf p mem root a v
  · rw [hend hpage]
    simp only [hpage, iff_true]
    constructor
    · intro heq hsome
      by_contra hout
      rw [if_neg hout] at heq
      rw [← heq] at hsome
      cases hsome
    · intro hin
      by_cases hsome : (translate p mem root v).isSome
      · rw [if_pos (hin hsome)]
      · rw [Option.not_isSome_iff_eq_none.mp hsome, ite_self]
  · have hnone : ∀ b ∈ addrs, ¬ PageOf p mem root b v := fun b hb hb' => hpage ⟨b, hb, hb'⟩
    rw [hkeep hnone]
    simp only [hpage, iff_false]
    constructor
    · intro heq hsome hin
      rw [if_pos hin] at heq
      rw [heq] at hsome
      cases hsome
    · intro hout
      by_cases hin : UnmapRange size index length (bmIndex v.toNat)
      · rw [if_pos hin]
        by_contra hne
        exact hout (Option.isSome_iff_ne_none.mpr hne) hin
      · rw [if_neg hin]

/-- **When `munmap` is exact**: for every bitmap, tree of tables, address, length and all values of
`page_length`, `munmap` does what it should if and only if the condition holds.
SRCLINE: kernel/mm/mmap.cpp:106-123, kernel/mm/vmm.cpp:82-123, 328-341 -/
theorem munmap_correct_iff (p : Paging) (root : Word) (m : Memory) (size : ℕ) (vm : Vm) (addr : Word)
    (length : ℕ) (lengths : ℕ → Word) (htree : TableTree p vm.mem root) :
    MunmapCorrect p root m size vm addr length (munmapAt p root ⟨some m, size⟩ vm addr length lengths) ↔
      MunmapMeets p root m size vm addr length lengths := by
  simp only [MunmapCorrect, MunmapMeets, munmapAt]
  by_cases hsize : size ≤ bmIndex addr.toNat
  · simp only [hsize, if_true, true_or]
  simp only [hsize, if_false, false_or, Option.map_some]
  generalize bmIndex addr.toNat = index
  generalize munmapCnt size index length = cnt
  rcases unmapRange_visited htree ((List.range cnt).map lengths) addr with
    ⟨hnone, hnot⟩ | ⟨vm', hrange, hloop, hv⟩
  · rw [hnone, Option.map_none]
    constructor
    · rintro ⟨m', vm', hresult, -⟩
      cases hresult
    · rintro ⟨-, hsome, hgone, -⟩
      exact absurd ⟨hsome, hgone⟩ hnot
  · rw [hrange, Option.map_some]
    constructor
    · rintro ⟨m', vm₁, hresult, hm', hvm⟩
      obtain ⟨hpm, hvm₁⟩ := Prod.mk.inj (Option.some.inj hresult)
      obtain rfl := Option.some.inj (PageMap.mk.inj hpm).1
      obtain rfl := (Prod.mk.inj hvm₁).1
      exact ⟨cleared_bits_iff.mp hm', hloop.1, hloop.2, (ended_translations_iff hv).mp hvm⟩
    · rintro ⟨hset, -, -, hpresent⟩
      exact ⟨_, _, rfl, cleared_bits_iff.mpr hset, (ended_translations_iff hv).mpr hpresent⟩

end Exact

/-! ## Small pages -/

section Small

variable {p : Paging} {root addr : Word} {m : Memory} {size length : ℕ} {vm : Vm}

/-- INTERNAL: where an address lies whose page has a bit in a bitmap that the heap can hold. -/
theorem toNat_of_bmIndex (hsize : size ≤ 262144) (hindex : bmIndex addr.toNat < size) :
    addr.toNat / 4096 = bmIndex addr.toNat + 16 := by
  have hlt := addr.isLt
  unfold bmIndex wrap at *
  simp only [mmapMinAddr, pageSize] at *
  omega

/-- The page count of `munmap` is that of the request, as far as the bitmap goes. -/
theorem munmapCnt_eq {index : ℕ} (hsize : size ≤ 262144) (hindex : index < size)
    (hlength : length < 2 ^ 63 - pageSize) :
    index + munmapCnt size index length = min (index + (length + 4095) / 4096) size := by
  have hcnt : pageCnt length = (length + 4095) / 4096 := by
    unfold pageCnt
    rw [toSigned_of_lt (by omega), divRoundup_pageSize hlength, ofSigned_natCast (by omega)]
  simp only [pageSize] at hlength
  unfold munmapCnt
  rw [hcnt, wrap_of_lt (by omega)]
  split_ifs with hclamp
  · omega
  · omega

/-- INTERNAL: the addresses at which the loop arrives if `page_length` is the size of a page. -/
theorem visited_replicate (cnt : ℕ) (a b : Word) :
    b ∈ visited (List.replicate cnt 0x1000) a ↔ ∃ i < cnt, b = a + BitVec.ofNat 64 (i * 4096) := by
  induction cnt generalizing a with
  | zero => simp [visited]
  | succ cnt ih =>
    have hne : ¬ (0x1000 : Word) = 0 := by decide
    have hstep : ∀ i, a + 0x1000 + BitVec.ofNat 64 (i * 4096) = a + BitVec.ofNat 64 ((i + 1) * 4096) := by
      intro i
      rw [BitVec.add_assoc, show (i + 1) * 4096 = 4096 + i * 4096 by omega, BitVec.ofNat_add]
      rfl
    rw [List.replicate_succ, visited, if_neg hne, List.mem_cons, ih]
    simp only [hstep]
    constructor
    · rintro (rfl | ⟨i, hi, hb⟩)
      · exact ⟨0, by omega, by simp⟩
      · exact ⟨i + 1, by omega, hb⟩
    · rintro ⟨i, hi, hb⟩
      cases i with
      | zero =>
        left
        rw [hb]
        simp
      | succ i => exact Or.inr ⟨i, by omega, hb⟩

/-- INTERNAL: the addresses of the user half are canonical. -/
theorem canonical_of_lt {v : Word} (h : v.toNat < 2 ^ 47) : Canonical p v := by
  have hlevels : 4 ≤ p.levels := by
    cases p <;> decide
  have hhigh : ∀ k, 47 ≤ k → v.getLsbD k = false := fun k hk =>
    Nat.testBit_lt_two_pow (lt_of_lt_of_le h (Nat.pow_le_pow_right (by omega) hk))
  apply BitVec.eq_of_getLsbD_eq
  intro k hk
  simp only [BitVec.getLsbD_signExtend, BitVec.msb_setWidth, BitVec.getLsbD_setWidth]
  split_ifs with hlow
  · simp [hk, hlow]
  · rw [hhigh k (by omega), hhigh _ (by omega)]
    simp

/-- INTERNAL: two canonical addresses use the same indices if they lie in one page. -/
theorem sameIndices_iff {v w : Word} (hv : Canonical p v) (hw : Canonical p w) :
    SameIndices p 0 v w ↔ v.toNat / 4096 = w.toNat / 4096 := by
  have hsame : SamePage 0 v w ↔ v.toNat / 4096 = w.toNat / 4096 := by
    rw [SamePage, ← BitVec.toNat_inj]
    simp [Nat.shiftRight_eq_div_pow]
  have hpos : 0 < p.levels := by
    cases p <;> decide
  rw [← hsame]
  constructor
  · intro h
    exact samePage_of_walkIndex hpos hv hw h
  · intro h k hk _
    exact h.walkIndex_eq hk

/-- **Small pages**: if `page_length` holds the size of a page in every iteration and each page of the
range has an entry of the first level, with more than its present bit, `munmap` is exact for every
length below `2^63 - 0x1000`. -/
theorem munmapMeets_of_small {lengths : ℕ → Word} (hsize : size ≤ 262144)
    (hlength : length < 2 ^ 63 - pageSize) (hlengths : ∀ i, lengths i = 0x1000)
    (hentry : ∀ v, Canonical p v → UnmapRange size (bmIndex addr.toNat) length (bmIndex v.toNat) →
      ∃ e, entryFound p vm.mem root v = some (0, e) ∧ clearPresent e ≠ 0) :
    MunmapMeets p root m size vm addr length lengths := by
  unfold MunmapMeets
  by_cases hindex : size ≤ bmIndex addr.toNat
  · exact Or.inl hindex
  right
  have haddr := toNat_of_bmIndex hsize (Nat.lt_of_not_le hindex)
  have hcnt := munmapCnt_eq hsize (Nat.lt_of_not_le hindex) hlength
  generalize hi : bmIndex addr.toNat = index at *
  generalize munmapCnt size index length = cnt at *
  have hrange : ∀ k, UnmapRange size index length k ↔ index ≤ k ∧ k < index + cnt := by
    intro k
    rw [UnmapRange, hcnt]
  have hlist : (List.range cnt).map lengths = List.replicate cnt 0x1000 := by
    rw [List.eq_replicate_iff]
    refine ⟨by simp, fun b hb => ?_⟩
    obtain ⟨j, -, rfl⟩ := List.mem_map.mp hb
    exact hlengths j
  -- the addresses at which the loop arrives are those of the pages of the range
  have hvisited : ∀ b, b ∈ visited ((List.range cnt).map lengths) addr →
      b.toNat < 2 ^ 47 ∧ index ≤ bmIndex b.toNat ∧ bmIndex b.toNat < index + cnt := by
    intro b hb
    rw [hlist, visited_replicate] at hb
    obtain ⟨j, hj, rfl⟩ := hb
    have hsum : (addr + BitVec.ofNat 64 (j * 4096)).toNat = addr.toNat + j * 4096 := by
      rw [BitVec.toNat_add, BitVec.toNat_ofNat]
      omega
    rw [hsum]
    unfold bmIndex wrap
    simp only [mmapMinAddr, pageSize]
    omega
  have hfound : ∀ b ∈ visited ((List.range cnt).map lengths) addr,
      ∃ e, entryFound p vm.mem root b = some (0, e) ∧ clearPresent e ≠ 0 := by
    intro b hb
    obtain ⟨hlow, hin⟩ := hvisited b hb
    exact hentry b (canonical_of_lt hlow) ((hrange _).mpr hin)
  refine ⟨?_, ?_, ?_, ?_⟩
  · intro k _
    rw [hrange, rangeCnt_of_lt (by omega)]
  · intro b hb
    obtain ⟨e, he, -⟩ := hfound b hb
    rw [he]
    rfl
  · refine (List.pairwise_iff_forall_sublist).mpr fun {a b} hab => ?_
    intro n e he hzero
    obtain ⟨e', he', hne⟩ := hfound b (hab.subset (by simp))
    obtain ⟨-, rfl⟩ := Prod.mk.inj (Option.some.inj (he'.symm.trans he))
    exact absurd hzero hne
  · intro v hv hsome
    rw [hrange]
    constructor
    · rintro ⟨hlow, hhigh⟩
      have hpage := toNat_of_bmIndex (show index + cnt ≤ 262144 by omega) hhigh
      have hsum : (addr + BitVec.ofNat 64 ((bmIndex v.toNat - index) * 4096)).toNat =
          addr.toNat + (bmIndex v.toNat - index) * 4096 := by
        rw [BitVec.toNat_add, BitVec.toNat_ofNat]
        omega
      have hb : addr + BitVec.ofNat 64 ((bmIndex v.toNat - index) * 4096) ∈
          visited ((List.range cnt).map lengths) addr := by
        rw [hlist, visited_replicate]
        exact ⟨_, by omega, rfl⟩
      obtain ⟨e, he, -⟩ := hfound _ hb
      refine ⟨_, hb, 0, e, he, (sameIndices_iff (canonical_of_lt (hvisited _ hb).1) hv).mpr ?_⟩
      rw [hsum]
      omega
    · rintro ⟨b, hb, n, e, he, hsame⟩
      obtain ⟨e', he', -⟩ := hfound b hb
      obtain ⟨rfl, rfl⟩ := Prod.mk.inj (Option.some.inj (he'.symm.trans he))
      obtain ⟨hblow, hbin⟩ := hvisited b hb
      have hsamepage := (sameIndices_iff (canonical_of_lt hblow) hv).mp hsame
      unfold bmIndex wrap at *
      simp only [mmapMinAddr, pageSize] at *
      omega

end Small

/-! ## One page -/

/-- Tables in which only the page at `0x10000` is mapped. -/
def onePageTables : Vm :=
  ⟨fun t i => if t = 0x1000 ∧ i = 0 then 0x2007 else if t = 0x2000 ∧ i = 0 then 0x3007
    else if t = 0x3000 ∧ i = 0 then 0x4007 else if t = 0x4000 ∧ i = 0x10 then 0x5007 else 0, []⟩

/-- A bitmap in which only that page is in use. -/
def firstUsed : Memory := fun a => if a = 0 then 1 else 0

/-- INTERNAL: one of the upper tables, with the frames below it. -/
theorem onePageTables_up {n : ℕ} {t c e : Word} {frames : List Word} (hentry : onePageTables.mem t 0 = e)
    (hnone : ∀ j, j ≠ 0 → onePageTables.mem t j = 0) (hpresent : e.getLsbD 0 = true) (hsmall : e.toNat < 2 ^ 52)
    (hc : tableBelow n e = some c) (hout : t ∉ frames)
    (hsub : IsTree tableBelow GoodEntry onePageTables.mem n c ∧
      ∀ f, InTree tableBelow onePageTables.mem n c f → f ∈ frames) :
    IsTree tableBelow GoodEntry onePageTables.mem (n + 1) t ∧
      ∀ f, InTree tableBelow onePageTables.mem (n + 1) t f → f ∈ t :: frames := by
  have hbelow : tableBelow n (onePageTables.mem t 0) = some c := by
    rw [hentry]
    exact hc
  have hothers : ∀ j, j ≠ 0 → tableBelow n (onePageTables.mem t j) = none := by
    intro j hj
    rw [hnone j hj, tableBelow_zero]
  refine ⟨isTree_of_single ?_ hbelow hothers hsub.1 fun hin => hout (hsub.2 t hin), ?_⟩
  · intro j
    by_cases hj : j = 0
    · rw [hj, hentry]
      exact fun _ => ⟨hpresent, fun k hk => Nat.testBit_lt_two_pow
        (lt_of_lt_of_le hsmall (Nat.pow_le_pow_right (by omega) hk))⟩
    · exact goodEntry_of_tableBelow_none (hothers j hj)
  · intro f hf
    rcases (inTree_of_single hbelow hothers).mp hf with rfl | hf
    · exact List.mem_cons_self
    · exact List.mem_cons_of_mem _ (hsub.2 f hf)

theorem onePageTables_zero {t : Word} {j : Index} (ht : t ≠ 0x4000) (hj : j ≠ 0) : onePageTables.mem t j = 0 := by
  simp only [onePageTables]
  rw [if_neg fun h => hj h.2, if_neg fun h => hj h.2, if_neg fun h => hj h.2, if_neg fun h => ht h.1]

/-- INTERNAL: the tables are a tree. -/
theorem onePageTables_tree : TableTree .pml4 onePageTables.mem 0x1000 := by
  have h1 : IsTree tableBelow GoodEntry onePageTables.mem 1 0x4000 ∧
      ∀ f, InTree tableBelow onePageTables.mem 1 0x4000 f → f ∈ [(0x4000 : Word)] := by
    have hnone : ∀ j, tableBelow 0 (onePageTables.mem 0x4000 j) = none := fun j => tableBelow_level_zero _
    refine ⟨⟨fun j => goodEntry_of_tableBelow_none (hnone j), ?_, ?_⟩, ?_⟩
    · intro j c hc
      cases (hnone j).symm.trans hc
    · intro j k c d _ hc
      cases (hnone j).symm.trans hc
    · rintro f (rfl | ⟨j, c, hc, -⟩)
      · exact List.mem_cons_self
      · cases (hnone j).symm.trans hc
  have h2 : IsTree tableBelow GoodEntry onePageTables.mem 2 0x3000 ∧ _ :=
    onePageTables_up (e := 0x4007) (by decide) (fun j => onePageTables_zero (by decide)) (by decide) (by decide)
      (by decide) (by decide) h1
  have h3 : IsTree tableBelow GoodEntry onePageTables.mem 3 0x2000 ∧ _ :=
    onePageTables_up (e := 0x3007) (by decide) (fun j => onePageTables_zero (by decide)) (by decide) (by decide)
      (by decide) (by decide) h2
  exact (onePageTables_up (e := 0x2007) (by decide) (fun j => onePageTables_zero (by decide)) (by decide) (by decide)
    (by decide) (by decide) h3).1

/-- The page is unmapped if `page_length` holds its size. -/
theorem munmap_correct_page : MunmapCorrect .pml4 0x1000 firstUsed 0x1000 onePageTables 0x10000 0x1000
    (munmapAt .pml4 0x1000 ⟨some firstUsed, 0x1000⟩ onePageTables 0x10000 0x1000 fun _ => 0x1000) := by
  refine (munmap_correct_iff .pml4 0x1000 firstUsed 0x1000 onePageTables 0x10000 0x1000 (fun _ => 0x1000)
    onePageTables_tree).mpr (munmapMeets_of_small (by decide) (by decide) (fun _ => rfl) ?_)
  intro v hv hin
  have hindex : bmIndex (0x10000 : Word).toNat = 0 := by decide
  rw [hindex] at hin
  have hfound : entryFound .pml4 onePageTables.mem 0x1000 0x10000 = some (0, 0x5007) := by decide
  have hpage : v.toNat / 4096 = bmIndex v.toNat + 16 := toNat_of_bmIndex le_rfl (by
    have hlt := hin.2
    omega)
  refine ⟨0x5007, entryFound_congr hfound ((sameIndices_iff (by decide) hv).mpr ?_), by decide⟩
  have hlt := hin.2
  rw [hpage]
  change 16 = _
  omega

/-- **Where `munmap` is not exact.** A length of `2^64 - 1` is rounded to no page, whatever `page_length`
holds: the bit of the page stays set. With a second page that was never mapped there is no result if
`page_length` holds the size of a page.
SRCLINE: kernel/mm/mmap.cpp:108, kernel/mm/vmm.cpp:331-338 -/
theorem munmap_not_correct :
    (∀ lengths, ¬ MunmapCorrect .pml4 0x1000 firstUsed 0x1000 onePageTables 0x10000 (2 ^ 64 - 1)
      (munmapAt .pml4 0x1000 ⟨some firstUsed, 0x1000⟩ onePageTables 0x10000 (2 ^ 64 - 1) lengths)) ∧
    ¬ MunmapCorrect .pml4 0x1000 firstUsed 0x1000 onePageTables 0x10000 0x2000
      (munmapAt .pml4 0x1000 ⟨some firstUsed, 0x1000⟩ onePageTables 0x10000 0x2000 fun _ => 0x1000) := by
  have hindex : bmIndex (0x10000 : Word).toNat = 0 := by decide
  constructor
  · intro lengths
    have hcnt : munmapCnt 0x1000 0 (2 ^ 64 - 1) = 0 := by decide
    simp only [MunmapCorrect, munmapAt, hindex, hcnt]
    rw [if_neg (by decide), if_neg (by decide)]
    rintro ⟨m', vm', hresult, hbits, -⟩
    obtain ⟨hpm, -⟩ := Prod.mk.inj (Option.some.inj hresult)
    obtain rfl := Option.some.inj (PageMap.mk.inj hpm).1
    have hbit := hbits 0
    rw [decide_eq_true (show UnmapRange 0x1000 0 (2 ^ 64 - 1) 0 by decide)] at hbit
    revert hbit
    decide
  · have hcnt : munmapCnt 0x1000 0 0x2000 = 2 := by decide
    have hfault : unmapRange .pml4 0x1000 [0x1000, 0x1000] 0x10000 onePageTables = none := rfl
    simp only [MunmapCorrect, munmapAt, hindex, hcnt]
    rw [if_neg (by decide), if_neg (by decide)]
    rintro ⟨m', vm', hresult, -⟩
    change Option.map _ (unmapRange .pml4 0x1000 [0x1000, 0x1000] 0x10000 onePageTables) = _ at hresult
    rw [hfault] at hresult
    cases hresult

end CrepOS.Analysis
