import CrepOS.Interface.MmapRun

/-!
# When the regions of `mmap` are disjoint

The loop of `mmap_alloc` keeps `offset + cnt = i + occupied i` (`findRun_spec`): an occupied page moves
`offset` past itself and is then counted as the first page of the next run. So the region it returns is
not the one it has looked at, and a hint that `check_mmap_addr` accepts is not recorded at all. Under
the condition of `CrepOS.Interface.MmapRun` the bits of all regions are set and the regions are disjoint
(`mmap_regions_apart`).
-/

set_option autoImplicit false

namespace CrepOS.Analysis

open CrepOS.Library CrepOS.Model CrepOS.Interface

/-! ## The search -/

theorem occupied_succ (m : Memory) (i : ℕ) :
    occupied m (i + 1) = occupied m i + if m.bit 0 i = true then 1 else 0 := by
  unfold occupied
  rw [List.range_succ, List.countP_append, List.countP_singleton]

theorem occupied_le (m : Memory) (e : ℕ) : occupied m e ≤ e := by
  have hle := List.countP_le_length (p := m.bit 0) (l := List.range e)
  rwa [List.length_range] at hle

/-- What the loop knows before it looks at the bit `i`: `cnt` pages before `i` make up the current run,
of which only the first may be occupied; if the run does not start at the first page, it is. -/
structure ScanInv (m : Memory) (pages i cnt offset : ℕ) : Prop where
  drift : offset + cnt = i + occupied m i
  short : cnt < pages ∨ pages = 0
  start : cnt ≤ i
  free : ∀ k < i, i < k + cnt → m.bit 0 k = false
  head : cnt < i → 0 < cnt ∧ m.bit 0 (i - cnt) = true

/-- INTERNAL: no run ends where the loop goes on. -/
theorem ScanInv.not_runEnd {m : Memory} {pages i cnt offset : ℕ}
    (h : ScanInv m pages i cnt offset) (hpages : 0 < pages) : ¬ RunEnd m pages i := by
  rintro ⟨hle, hfree⟩
  have hshort := h.short
  have hstart := h.start
  by_cases hlt : cnt < i
  · obtain ⟨hpos, hset⟩ := h.head hlt
    rw [hfree (i - cnt) (by omega) (by omega)] at hset
    cases hset
  · omega

/-- INTERNAL: one iteration of the loop, but for the test of the count and the wrap of `offset`. -/
theorem ScanInv.step {m : Memory} {pages i cnt offset : ℕ} (h : ScanInv m pages i cnt offset)
    {offset' cnt' : ℕ} (hoffset : offset' = if bmTest m 0 i then offset + cnt + 1 else offset)
    (hcnt : cnt' = if bmTest m 0 i then 0 else cnt) :
    offset' + (cnt' + 1) = i + 1 + occupied m (i + 1) ∧ cnt' + 1 ≤ i + 1 ∧
      (∀ k < i + 1, i + 1 < k + (cnt' + 1) → m.bit 0 k = false) ∧
      (cnt' + 1 < i + 1 → m.bit 0 (i - cnt') = true) := by
  have hdrift := h.drift
  have hstart := h.start
  rw [bmTest_eq] at hoffset hcnt
  rw [occupied_succ]
  cases hbit : m.bit 0 i with
  | true =>
    -- the occupied page starts a new run
    rw [hbit, if_pos rfl] at hoffset hcnt
    rw [if_pos rfl]
    refine ⟨by omega, by omega, ?_, ?_⟩
    · intro k hk hlt
      omega
    · intro _
      rw [hcnt, Nat.sub_zero]
      exact hbit
  | false =>
    rw [hbit, if_neg (by simp)] at hoffset hcnt
    rw [if_neg (by simp), hcnt]
    refine ⟨by omega, by omega, ?_, ?_⟩
    · intro k hk hlt
      by_cases hki : k = i
      · rw [hki]
        exact hbit
      · exact h.free k (by omega) (by omega)
    · intro hlt
      exact (h.head (by omega)).2

/-- INTERNAL: `offset` wraps with every addition. -/
theorem wrap_offset (bit : Bool) (offset cnt : ℕ) :
    (if bit then wrap (wrap offset + cnt + 1) else wrap offset) =
      wrap (if bit then offset + cnt + 1 else offset) := by
  cases bit with
  | true =>
    simp only [wrap, if_true]
    omega
  | false => rfl

/-- **What the search returns.** The loop stops at the first run of `pages` pages, and its result is as
far before the end of the run as if the occupied pages were counted twice.
SRCLINE: kernel/mm/mmap.cpp:28-45 -/
theorem findRun_spec {m : Memory} {pages n i cnt offset : ℕ} (hpages : 0 < pages)
    (h : ScanInv m pages i cnt offset) :
    match findRun m pages n i cnt (wrap offset) with
    | some o => ∃ e, i < e ∧ e ≤ i + n ∧ RunEnd m pages e ∧ o = wrap (e + occupied m e - pages) ∧
        ∀ e', i < e' → e' < e → ¬ RunEnd m pages e'
    | none => ∀ e', i < e' → e' ≤ i + n → ¬ RunEnd m pages e' := by
  induction n generalizing i cnt offset with
  | zero =>
    intro e' hlow hhigh
    omega
  | succ n ih =>
    obtain ⟨hdrift, hstart, hfree, hhead⟩ := h.step rfl rfl
    rw [findRun]
    simp only [wrap_offset]
    generalize (if bmTest m 0 i then offset + cnt + 1 else offset) = offset' at *
    generalize hcnt : (if bmTest m 0 i then 0 else cnt) = cnt' at *
    have hshort := h.short
    have hle : cnt' ≤ cnt := by
      rw [← hcnt]
      split <;> omega
    by_cases hfound : cnt' + 1 = pages
    · simp only [hfound, if_true]
      refine ⟨i + 1, by omega, by omega, ⟨by omega, ?_⟩, ?_, ?_⟩
      · rw [← hfound]
        exact hfree
      · rw [← hdrift, hfound, Nat.add_sub_cancel]
      · intro e' hlow hhigh
        omega
    · simp only [hfound, if_false]
      have hnext : ScanInv m pages (i + 1) (cnt' + 1) offset' := by
        refine ⟨hdrift, by omega, hstart, hfree, ?_⟩
        intro hlt
        refine ⟨by omega, ?_⟩
        rw [show i + 1 - (cnt' + 1) = i - cnt' from by omega]
        exact hhead hlt
      have hstep := ih hnext
      have hnot := hnext.not_runEnd hpages
      -- a run that ends later than here
      have hlater : ∀ e', i < e' → RunEnd m pages e' → i + 1 < e' := by
        intro e' hlow hrun
        have hne : e' ≠ i + 1 := by
          rintro rfl
          exact hnot hrun
        omega
      cases hfind : findRun m pages n (i + 1) (cnt' + 1) (wrap offset') with
      | some o =>
        rw [hfind] at hstep
        obtain ⟨e, hlow, hhigh, hrun, ho, hfirst⟩ := hstep
        refine ⟨e, by omega, by omega, hrun, ho, ?_⟩
        intro e' hlow' hlt hrun'
        exact hfirst e' (hlater e' hlow' hrun') hlt hrun'
      | none =>
        rw [hfind] at hstep
        intro e' hlow hhigh hrun
        exact hstep e' (hlater e' hlow hrun) (by omega) hrun

/-- INTERNAL: a request for no page finds no run. -/
theorem findRun_zero (m : Memory) (n i cnt offset : ℕ) : findRun m 0 n i cnt offset = none := by
  induction n generalizing i cnt offset with
  | zero => rfl
  | succ n ih =>
    rw [findRun]
    simp only [Nat.add_eq_zero_iff, one_ne_zero, and_false, if_false]
    exact ih _ _ _

theorem scanInv_zero (m : Memory) {pages : ℕ} (hpages : 0 < pages) : ScanInv m pages 0 0 0 :=
  ⟨rfl, Or.inl hpages, le_rfl, nofun, nofun⟩

/-- INTERNAL: the search from the first page on.
SRCLINE: kernel/mm/mmap.cpp:28-45 -/
theorem findRun_firstRun {m : Memory} {pages size o : ℕ}
    (h : findRun m pages size 0 0 0 = some o) :
    0 < pages ∧ ∃ e ≤ size, FirstRun m pages e ∧ o = wrap (e + occupied m e - pages) := by
  have hpages : 0 < pages := by
    rcases Nat.eq_zero_or_pos pages with rfl | hpos
    · rw [findRun_zero] at h
      cases h
    · exact hpos
  have hspec := findRun_spec (n := size) hpages (scanInv_zero m hpages)
  rw [wrap_of_lt (show 0 < 2 ^ 64 by decide), h] at hspec
  obtain ⟨e, -, hhigh, hrun, ho, hfirst⟩ := hspec
  refine ⟨hpages, e, by omega, ⟨hrun, ?_⟩, ho⟩
  intro e' hlt hrun'
  have hle' := hrun'.1
  exact hfirst e' (by omega) hlt hrun'

/-- INTERNAL: in a bitmap of the size that the heap can hold nothing wraps. -/
theorem findRun_some {m : Memory} {pages size o : ℕ} (hsize : size ≤ 262144)
    (h : findRun m pages size 0 0 0 = some o) :
    0 < pages ∧ ∃ e ≤ size, FirstRun m pages e ∧ o = e + occupied m e - pages ∧
      o + pages ≤ 2 * size ∧ pages ≤ size := by
  obtain ⟨hpages, e, hhigh, hfirst, ho⟩ := findRun_firstRun h
  have hocc := occupied_le m e
  have hle := hfirst.1.1
  rw [wrap_of_lt (by omega)] at ho
  exact ⟨hpages, e, hhigh, hfirst, ho, by omega, by omega⟩

/-- INTERNAL: the search fails only if there is no run. -/
theorem findRun_none {m : Memory} {pages size : ℕ} (hpages : 0 < pages)
    (h : findRun m pages size 0 0 0 = none) : ∀ e ≤ size, ¬ RunEnd m pages e := by
  have hspec := findRun_spec (n := size) hpages (scanInv_zero m hpages)
  rw [wrap_of_lt (show 0 < 2 ^ 64 by decide), h] at hspec
  intro e hle hrun
  have hlow := hrun.1
  exact hspec e (by omega) (by omega) hrun

/-! ## Pages and addresses -/

/-- A page count that can be found in a bitmap is the length rounded up: for lengths from
`2^63 - 4096` on, `div_roundup` gives `0` or a huge number.
SRCLINE: kernel/mm/mmap.cpp:9 -/
theorem pageCnt_eq {length : ℕ} (hlength : length < 2 ^ 64) (hpos : 0 < pageCnt length)
    (hsize : pageCnt length ≤ 262144) : pageCnt length = (length + 4095) / 4096 := by
  by_cases hsmall : length < 2 ^ 63 - pageSize
  · unfold pageCnt
    rw [toSigned_of_lt (by omega), divRoundup_pageSize hsmall, ofSigned_natCast (by omega)]
  · exfalso
    unfold pageCnt divRoundup at hpos hsize
    rw [ofSigned_wrapSigned, show wrapSigned ((pageSize : ℤ) - 1) = 4095 by decide] at hpos hsize
    have hbounds : -2 ^ 63 ≤ wrapSigned (toSigned length + 4095) ∧
        (wrapSigned (toSigned length + 4095) < 4096 ∨
          wrapSigned (toSigned length + 4095) = 2 ^ 63 - 1) := by
      simp only [pageSize] at hsmall
      unfold toSigned wrapSigned
      rw [Int.bmod_def, Int.bmod_def]
      omega
    generalize wrapSigned (toSigned length + 4095) = y at *
    rcases lt_or_ge y 0 with hneg | hnonneg
    · -- a negative count is `0` or huge as a `size_t`
      have hdiv : y.tdiv (pageSize : ℤ) = -((-y) / 4096) := by
        rw [← Int.neg_neg y, Int.neg_tdiv, Int.tdiv_eq_ediv_of_nonneg (by omega), Int.neg_neg]
        rfl
      rw [hdiv] at hpos hsize
      unfold ofSigned at hpos hsize
      omega
    · rw [Int.tdiv_eq_ediv_of_nonneg hnonneg] at hpos hsize
      simp only [pageSize] at hpos hsize
      unfold ofSigned at hpos hsize
      omega

/-- INTERNAL: the index of a page address that does not wrap. -/
theorem bmIndex_page {i : ℕ} (hi : i ≤ 2 ^ 32) : bmIndex (mmapMinAddr + i * pageSize) = i := by
  unfold bmIndex wrap
  simp only [mmapMinAddr, pageSize]
  omega

theorem rangeCnt_of_lt {i n : ℕ} (h : i + n < 2 ^ 64) : rangeCnt i n = n := by
  unfold rangeCnt
  rw [wrap_of_lt h, Nat.add_sub_cancel_left]

/-! ## Recorded regions -/

/-- The region starts at the page `i` and its bits are set in the bitmap `m` of the given size. -/
def RecordedAt (m : Memory) (size : ℕ) (r : Region) (i : ℕ) : Prop :=
  r.addr = mmapMinAddr + i * pageSize ∧ i + r.pages ≤ 2 * size ∧
    ∀ k, i ≤ k → k < i + r.pages → m.bit 0 k = true

/-- The bits of the region are set. -/
def Recorded (pm : PageMap) (r : Region) : Prop :=
  ∃ m, pm.bitmap = some m ∧ ∃ i, RecordedAt m pm.bmSize r i

section Regions

variable {m m' : Memory} {size size' i j : ℕ} {r s : Region}

theorem RecordedAt.mono (h : RecordedAt m size r i) (hsize : size ≤ size')
    (hbits : ∀ k < i + r.pages, i ≤ k → m.bit 0 k = true → m'.bit 0 k = true) :
    RecordedAt m' size' r i := by
  obtain ⟨haddr, hend, hset⟩ := h
  refine ⟨haddr, by omega, ?_⟩
  intro k hlow hhigh
  exact hbits k hhigh hlow (hset k hlow hhigh)

/-- Regions at disjoint page indices are apart, and conversely. -/
theorem apart_iff (hr : r.addr = mmapMinAddr + i * pageSize)
    (hs : s.addr = mmapMinAddr + j * pageSize) :
    r.Apart s ↔ i + r.pages ≤ j ∨ j + s.pages ≤ i := by
  unfold Region.Apart
  rw [hr, hs]
  simp only [pageSize]
  omega

/-- Free pages are apart from a recorded region. -/
theorem RecordedAt.apart_of_free (h : RecordedAt m size s j) (hpos : 0 < s.pages)
    (hr : r.addr = mmapMinAddr + i * pageSize) (hfree : FreePages m i r.pages)
    (hr₀ : 0 < r.pages) : r.Apart s := by
  rw [apart_iff hr h.1]
  by_contra hnot
  push Not at hnot
  -- the larger of the two first pages is in both regions
  have hset := h.2.2 (max i j) (by omega) (by omega)
  rw [hfree (max i j) (by omega) (by omega)] at hset
  cases hset

theorem Region.Apart.symm (h : r.Apart s) : s.Apart r := Or.symm h

instance Region.symmApart : Std.Symm Region.Apart := ⟨fun _ _ h => h.symm⟩

theorem Recorded.init {pm : PageMap} (h : Recorded pm r) : pm.init = pm := by
  obtain ⟨m, hm, -⟩ := h
  simp [PageMap.init, hm]

end Regions

/-- The invariant. -/
structure MmapInv (st : MmapState) : Prop where
  size : st.pm.bitmap.isSome → st.pm.bmSize ≤ 262144
  count : ∀ r ∈ st.regions, 0 < r.pages ∧ pageCnt r.length = r.pages
  recorded : ∀ r ∈ st.regions, Recorded st.pm r
  apart : st.regions.Pairwise Region.Apart

/-! ## `mmap_alloc` -/

/-- What a call that returns the region `r` does to the page map: the region is recorded, recorded
regions stay recorded, and the new region is apart from them. -/
structure Reserved (pm pm' : PageMap) (r : Region) : Prop where
  size : pm'.bitmap.isSome → pm'.bmSize ≤ 262144
  count : 0 < r.pages ∧ pageCnt r.length = r.pages
  recorded : Recorded pm' r
  keeps : ∀ s, Recorded pm s → Recorded pm' s
  apart : ∀ s, 0 < s.pages → Recorded pm s → r.Apart s

/-- INTERNAL: the bitmap that is there after the first test. -/
theorem init_bitmap (pm : PageMap) : ∃ m, pm.init.bitmap = some m := by
  unfold PageMap.init
  cases hm : pm.bitmap with
  | none => exact ⟨_, rfl⟩
  | some m => exact ⟨m, hm⟩

/-- INTERNAL: `mmap_alloc` for an anonymous mapping, up to the growth of the bitmap. -/
theorem mmapTry_anonymous (addr length : ℕ) (m : Memory) (size : ℕ) :
    mmapTry addr length mapAnonymous m size =
      (findRun m (pageCnt length) size 0 0 0).map fun o =>
        (⟨some (m.setRun 0 (bmIndex (wrap (o * pageSize + mmapMinAddr)))
          (rangeCnt (bmIndex (wrap (o * pageSize + mmapMinAddr))) (pageCnt length))), size⟩,
          wrap (o * pageSize + mmapMinAddr)) := by
  unfold mmapTry
  rw [if_neg (by decide)]
  cases findRun m (pageCnt length) size 0 0 0 with
  | none => rfl
  | some o => rfl

/-- INTERNAL: a request for no page is never met. -/
theorem mmapAlloc_zero {addr length : ℕ} (h : pageCnt length = 0) (behind : List Memory)
    (pm : PageMap) : mmapAlloc addr length mapAnonymous behind pm = none := by
  induction behind generalizing pm with
  | nil =>
    obtain ⟨m, hm⟩ := init_bitmap pm
    simp only [mmapAlloc, hm, mmapTry_anonymous, h, findRun_zero, Option.map_none]
  | cons b behind ih =>
    obtain ⟨m, hm⟩ := init_bitmap pm
    simp only [mmapAlloc, hm, mmapTry_anonymous, h, findRun_zero, Option.map_none, ih]
    cases recallocBitmap m pm.init.bmSize (grownSize pm.init.bmSize) b with
    | none => rfl
    | some m' => rfl

/-- INTERNAL: the free pages that the search arrives at are reserved. -/
theorem reserved_of_free {pm : PageMap} {m : Memory} {size length i : ℕ} (hsize : size ≤ 262144)
    (hpm : ∀ s, Recorded pm s → ∃ j, RecordedAt m size s j) (hend : i + pageCnt length ≤ 2 * size)
    (hpos : 0 < pageCnt length) (hexact : pageCnt length = (length + 4095) / 4096)
    (hfree : FreePages m i (pageCnt length)) :
    Reserved pm ⟨some (m.setRun 0 i (pageCnt length)), size⟩
      ⟨mmapMinAddr + i * pageSize, length⟩ := by
  have hset : ∀ k, m.bit 0 k = true → (m.setRun 0 i (pageCnt length)).bit 0 k = true := by
    intro k hk
    rw [Memory.bit_setRun, hk, Bool.or_true]
  refine ⟨fun _ => hsize, ⟨?_, hexact⟩, ⟨_, rfl, i, rfl, ?_, ?_⟩, ?_, ?_⟩
  · rw [Region.pages, ← hexact]
    exact hpos
  · rw [Region.pages, ← hexact]
    exact hend
  · intro k hlow hhigh
    rw [Region.pages, ← hexact] at hhigh
    rw [Memory.bit_setRun, decide_eq_true ⟨hlow, hhigh⟩, Bool.true_or]
  · intro s hs
    obtain ⟨j, hj⟩ := hpm s hs
    exact ⟨_, rfl, j, hj.mono le_rfl fun k _ _ => hset k⟩
  · intro s hspos hs
    obtain ⟨j, hj⟩ := hpm s hs
    refine hj.apart_of_free hspos rfl ?_ ?_
    · rw [Region.pages, ← hexact]
      exact hfree
    · rw [Region.pages, ← hexact]
      exact hpos

/-- INTERNAL: what the search finds is reserved. -/
theorem mmapTry_reserved {addr length a : ℕ} {pm pm' : PageMap} {m : Memory} {size : ℕ}
    (hlength : length < 2 ^ 64) (hsize : size ≤ 262144)
    (hpm : ∀ s, Recorded pm s → ∃ j, RecordedAt m size s j)
    (hfree : ∀ e ≤ size, FirstRun m (pageCnt length) e →
      FreePages m (e + occupied m e - pageCnt length) (pageCnt length))
    (h : mmapTry addr length mapAnonymous m size = some (pm', a)) :
    Reserved pm pm' ⟨a, length⟩ := by
  rw [mmapTry_anonymous, Option.map_eq_some_iff] at h
  obtain ⟨o, hfind, hresult⟩ := h
  obtain ⟨rfl, rfl⟩ := Prod.mk.inj hresult
  obtain ⟨hpos, e, he, hfirst, ho, hend, hle⟩ := findRun_some hsize hfind
  have haddr : wrap (o * pageSize + mmapMinAddr) = mmapMinAddr + o * pageSize := by
    rw [wrap_of_lt (by simp only [pageSize, mmapMinAddr]; omega), Nat.add_comm]
  rw [haddr, bmIndex_page (by omega), rangeCnt_of_lt (by omega)]
  refine reserved_of_free hsize hpm hend hpos (pageCnt_eq hlength hpos (by omega)) ?_
  rw [ho]
  exact hfree e he hfirst

/-- INTERNAL: what is recorded stays recorded when the bitmap grows: its bits are in the old bytes.
SRCLINE: kernel/mm/mmap.cpp:47-48 -/
theorem RecordedAt.grow {m m' b : Memory} {size cnt i : ℕ} {r : Region} (h : RecordedAt m size r i)
    (hcnt : size ≤ cnt) (hm : recallocBitmap m size cnt b = some m') : RecordedAt m' cnt r i := by
  have hend := h.2.1
  refine h.mono hcnt ?_
  intro k hk _ hbit
  rw [← hbit]
  apply Memory.bit_congr
  unfold recallocBitmap at hm
  split_ifs at hm
  obtain rfl := Option.some.inj hm
  exact if_pos (by omega)

/-- **`mmap_alloc` reserves free pages.** If the search arrives at free pages, in the bitmap it is called
with or in one that it has grown to, the region it returns is new.
SRCLINE: kernel/mm/mmap.cpp:8-50 -/
theorem mmapAlloc_reserved {addr length a : ℕ} {behind : List Memory} {pm pm₁ pm' : PageMap}
    {m : Memory} (hlength : length < 2 ^ 64) (hm : pm₁.init.bitmap = some m)
    (hsize : pm₁.init.bmSize ≤ 262144)
    (hpm : ∀ s, Recorded pm s → ∃ j, RecordedAt m pm₁.init.bmSize s j)
    (hfree : SearchFree (pageCnt length) behind m pm₁.init.bmSize)
    (h : mmapAlloc addr length mapAnonymous behind pm₁ = some (pm', a)) :
    Reserved pm pm' ⟨a, length⟩ := by
  have hpos : 0 < pageCnt length := by
    rcases Nat.eq_zero_or_pos (pageCnt length) with hzero | hpos
    · rw [mmapAlloc_zero hzero] at h
      cases h
    · exact hpos
  induction behind generalizing pm₁ m with
  | nil =>
    simp only [mmapAlloc, hm] at h
    exact mmapTry_reserved hlength hsize hpm hfree h
  | cons b behind ih =>
    simp only [mmapAlloc, hm] at h
    cases htry : mmapTry addr length mapAnonymous m pm₁.init.bmSize with
    | some r =>
      simp only [htry, Option.some.injEq] at h
      subst h
      exact mmapTry_reserved hlength hsize hpm hfree.1 htry
    | none =>
      simp only [htry] at h
      rw [mmapTry_anonymous, Option.map_eq_none_iff] at htry
      have hnext := hfree.2 (findRun_none hpos htry)
      cases hgrow : recallocBitmap m pm₁.init.bmSize (grownSize pm₁.init.bmSize) b with
      | none =>
        simp only [hgrow] at h
        cases h
      | some m' =>
        simp only [hgrow] at h
        have hgrown : pm₁.init.bmSize ≤ grownSize pm₁.init.bmSize := by
          rw [grownSize, wrap_of_lt (by omega)]
          omega
        have hcnt : grownSize pm₁.init.bmSize ≤ 262144 := by
          by_contra hnot
          rw [recallocBitmap, if_neg hnot] at hgrow
          cases hgrow
        refine @ih ⟨some m', grownSize pm₁.init.bmSize⟩ m' rfl hcnt ?_ (hnext m' hgrow) h
        intro s hs
        obtain ⟨j, hj⟩ := hpm s hs
        exact ⟨j, hj.grow hgrown hgrow⟩

/-! ## Runs -/

section Steps

variable {st st' : MmapState}

theorem init_init (pm : PageMap) : pm.init.init = pm.init := by
  obtain ⟨m, hm⟩ := init_bitmap pm
  rw [PageMap.init, hm]
  rfl

/-- INTERNAL: if the hint is not taken, `mmap` is `mmap_alloc`.
SRCLINE: kernel/mm/mmap.cpp:82-85 -/
theorem mmap_eq_alloc {pm : PageMap} {m : Memory} {addr length : ℕ} {behind : List Memory}
    (hm : pm.init.bitmap = some m)
    (hhint : addr ≠ 0 → ∃ k < rangeCnt (bmIndex addr) (pageCnt length),
      m.bit 0 (bmIndex addr + k) = true) :
    ∃ pm₁ : PageMap, pm₁.init = pm.init ∧
      mmap pm addr length mapAnonymous behind = mmapAlloc addr length mapAnonymous behind pm₁ := by
  unfold mmap checkMmapAddr
  rw [if_pos rfl]
  by_cases haddr : addr = 0
  · exact ⟨pm, rfl, by simp only [haddr, if_true]⟩
  · refine ⟨pm.init, init_init pm, ?_⟩
    obtain ⟨k, hk, hbit⟩ := hhint haddr
    have htaken : ((List.range (rangeCnt (bmIndex addr) (pageCnt length))).any fun i =>
        pm.init.bitmap.any fun m => bmTest m 0 (bmIndex addr + i)) = true := by
      rw [List.any_eq_true]
      refine ⟨k, List.mem_range.mpr hk, ?_⟩
      rw [hm, Option.any_some, bmTest_eq]
      exact hbit
    have hfixed : ¬ mapAnonymous = mapFixed := by decide
    simp only [haddr, hfixed, htaken, if_true, if_false]

theorem mmapInv_mmap (hinv : MmapInv st) {addr length : ℕ} {behind : List Memory}
    (hallowed : MmapOp.Allowed st (.mmap addr length behind))
    (hsound : MmapOp.Sound st (.mmap addr length behind))
    (hexec : st.exec (.mmap addr length behind) = some st') : MmapInv st' := by
  obtain ⟨m, hm⟩ := init_bitmap st.pm
  obtain ⟨hhint, hfree⟩ := hsound m hm
  obtain ⟨pm₁, hpm₁, heq⟩ := @mmap_eq_alloc _ _ _ _ behind hm hhint
  rw [MmapState.exec, heq, Option.map_eq_some_iff] at hexec
  obtain ⟨⟨pm', a⟩, halloc, rfl⟩ := hexec
  have hsize : st.pm.init.bmSize ≤ 262144 := by
    unfold PageMap.init
    split_ifs with hnone
    · exact by decide
    · exact hinv.size (Option.isSome_iff_ne_none.mpr fun hnil => hnone (by rw [hnil]; rfl))
  have hreserved : Reserved st.pm pm' ⟨a, length⟩ := by
    refine mmapAlloc_reserved (m := m) hallowed.2.1 ?_ ?_ ?_ ?_ halloc
    · rw [hpm₁]
      exact hm
    · rw [hpm₁]
      exact hsize
    · intro s hs
      rw [hpm₁]
      have hinit := hs.init
      obtain ⟨m₀, hm₀, i, hi⟩ := hs
      rw [hinit, hm₀] at hm
      rw [← Option.some.inj hm, hinit]
      exact ⟨i, hi⟩
    · rw [hpm₁]
      exact hfree
  refine ⟨hreserved.size, List.forall_mem_cons.mpr ⟨hreserved.count, hinv.count⟩,
    List.forall_mem_cons.mpr ⟨hreserved.recorded, ?_⟩,
    List.pairwise_cons.mpr ⟨?_, hinv.apart⟩⟩
  · intro r hr
    exact hreserved.keeps r (hinv.recorded r hr)
  · intro s hs
    exact hreserved.apart s (hinv.count s hs).1 (hinv.recorded s hs)

/-- `munmap` clears at most the bits of the region.
SRCLINE: kernel/mm/mmap.cpp:106-123 -/
theorem munmap_keeps {pm : PageMap} {r s : Region} (hsize : pm.bitmap.isSome → pm.bmSize ≤ 262144)
    (hlength : pageCnt r.length = r.pages) (hr : Recorded pm r) (hs : Recorded pm s)
    (hapart : r.Apart s) :
    Recorded (munmap pm r.addr r.length).1 s := by
  obtain ⟨m, hm, i, hi, hend, -⟩ := hr
  obtain ⟨m', hm', j, hj⟩ := hs
  rw [hm] at hm'
  obtain rfl := Option.some.inj hm'
  have hsize := hsize (by rw [hm]; rfl)
  have hindex : bmIndex r.addr = i := by
    rw [hi]
    exact bmIndex_page (by omega)
  unfold munmap
  rw [hindex]
  simp only
  split_ifs with hbig hclip
  · exact ⟨m, hm, j, hj⟩
  · refine ⟨_, by rw [hm]; rfl, j, hj.mono le_rfl ?_⟩
    intro k hk hlow hbit
    rw [apart_iff hi hj.1] at hapart
    rw [hlength, wrap_of_lt (by omega)] at hclip
    rw [Memory.bit_clearRun, hbit, Bool.and_true, decide_eq_true_eq, rangeCnt_of_lt (by omega)]
    omega
  · refine ⟨_, by rw [hm]; rfl, j, hj.mono le_rfl ?_⟩
    intro k hk hlow hbit
    rw [apart_iff hi hj.1] at hapart
    rw [Memory.bit_clearRun, hbit, Bool.and_true, decide_eq_true_eq, hlength,
      rangeCnt_of_lt (by omega)]
    omega

/-- INTERNAL: a call of `munmap` that fails does nothing. -/
theorem munmap_fails {pm : PageMap} {addr length : ℕ} (h : (munmap pm addr length).2 ≠ 0) :
    (munmap pm addr length).1 = pm := by
  unfold munmap at h ⊢
  by_cases hbig : pm.bmSize ≤ bmIndex addr
  · simp only [hbig, if_true]
  · simp only [hbig, if_false, ne_eq, not_true] at h

theorem mmapInv_munmap (hinv : MmapInv st) {r : Region} (hallowed : MmapOp.Allowed st (.munmap r))
    (hexec : st.exec (.munmap r) = some st') : MmapInv st' := by
  have hexec' : st.exec (.munmap r) = some ⟨(munmap st.pm r.addr r.length).1,
      if (munmap st.pm r.addr r.length).2 = 0 then st.regions.erase r else st.regions⟩ := rfl
  rw [hexec'] at hexec
  obtain rfl := Option.some.inj hexec
  have hr : r ∈ st.regions := hallowed
  -- the other regions are apart from `r`
  have hothers : ∀ s ∈ st.regions.erase r, r.Apart s := by
    have hperm := (List.perm_cons_erase hr).pairwise_iff (R := Region.Apart) fun h => h.symm
    exact (List.pairwise_cons.mp (hperm.mp hinv.apart)).1
  have hkeeps : ∀ s ∈ st.regions.erase r, Recorded (munmap st.pm r.addr r.length).1 s := by
    intro s hs
    exact munmap_keeps hinv.size (hinv.count r hr).2 (hinv.recorded r hr)
      (hinv.recorded s (List.mem_of_mem_erase hs)) (hothers s hs)
  have hsize : (munmap st.pm r.addr r.length).1.bitmap.isSome →
      (munmap st.pm r.addr r.length).1.bmSize ≤ 262144 := by
    unfold munmap
    by_cases hbig : st.pm.bmSize ≤ bmIndex r.addr
    · rw [if_pos hbig]
      exact hinv.size
    · rw [if_neg hbig]
      intro hsome
      simp only [Option.isSome_map] at hsome
      exact hinv.size hsome
  refine ⟨hsize, ?_, ?_, ?_⟩
  · intro s hs
    refine hinv.count s ?_
    simp only at hs
    split_ifs at hs
    · exact List.mem_of_mem_erase hs
    · exact hs
  · intro s hs
    simp only at hs ⊢
    split_ifs at hs with hret
    · exact hkeeps s hs
    · rw [munmap_fails hret]
      exact hinv.recorded s hs
  · simp only
    split_ifs
    · exact hinv.apart.sublist List.erase_sublist
    · exact hinv.apart

end Steps

/-- **Regions do not overlap.** In every run of calls in which no hint is taken and every search arrives
at free pages, the regions that are not unmapped yet are pairwise disjoint.
SRCLINE: kernel/mm/mmap.cpp:8-123 -/
theorem mmap_regions_apart {st st' : MmapState} {ops : List MmapOp} (hinit : st.Initial)
    (hrun : Run mmapStep st ops st') : st'.regions.Pairwise Region.Apart := by
  have hinv : MmapInv st' := by
    refine hrun.invariant MmapInv ?_ ?_
    · rintro s op t hinv ⟨⟨hallowed, hsound⟩, hexec⟩
      cases op with
      | mmap addr length behind => exact mmapInv_mmap hinv hallowed hsound hexec
      | munmap r => exact mmapInv_munmap hinv hallowed hexec
    · obtain ⟨hnil, hsize⟩ := hinit
      refine ⟨hsize, ?_, ?_, ?_⟩
      · rw [hnil]
        exact nofun
      · rw [hnil]
        exact nofun
      · rw [hnil]
        exact List.Pairwise.nil
  exact hinv.apart

/-! ## Examples -/

/-- A page map without a bitmap. -/
def freshMap : MmapState := ⟨⟨none, 0⟩, []⟩

theorem freshMap_initial : freshMap.Initial := ⟨rfl, by decide⟩

/-- INTERNAL: one page is found at the first bit, and returned from there or from the second one. -/
theorem searchFree_one {m : Memory} {size : ℕ} (h : m.bit 0 (occupied m 1) = false) :
    SearchFree 1 [] m size := by
  intro e _ hfirst k hlow hhigh
  have hone : RunEnd m 1 1 := ⟨le_rfl, fun k hk hlt => by omega⟩
  have he : e = 1 := by
    have hpos := hfirst.1.1
    by_contra hne
    exact hfirst.2 1 (by omega) hone
  subst he
  obtain rfl : k = occupied m 1 := by omega
  exact h

theorem mmap_regions_apart_twoPages : ∃ st, Run mmapStep freshMap
    [.mmap 0 4096 [], .mmap 0 4000 []] st ∧
      st.regions = [⟨0x11000, 4000⟩, ⟨0x10000, 4096⟩] ∧ st.regions.Pairwise Region.Apart := by
  let st₁ : MmapState := ⟨⟨some (Memory.setRun (fun _ => 0) 0 0 1), 4096⟩, [⟨0x10000, 4096⟩]⟩
  have hfirst : mmapStep freshMap (.mmap 0 4096 []) st₁ := by
    refine ⟨⟨by decide, ?_⟩, rfl⟩
    intro m hm
    obtain rfl := Option.some.inj hm
    exact ⟨nofun, searchFree_one (by decide)⟩
  have hsecond : mmapStep st₁ (.mmap 0 4000 []) ⟨⟨some (Memory.setRun
      (Memory.setRun (fun _ => 0) 0 0 1) 0 1 1), 4096⟩, [⟨0x11000, 4000⟩, ⟨0x10000, 4096⟩]⟩ := by
    refine ⟨⟨by decide, ?_⟩, rfl⟩
    intro m hm
    obtain rfl := Option.some.inj hm
    exact ⟨nofun, searchFree_one (by decide)⟩
  have hrun := Run.snoc (Run.snoc Run.nil hfirst) hsecond
  exact ⟨_, hrun, rfl, mmap_regions_apart freshMap_initial hrun⟩

/-- Without the condition the second and the third of three pages are the same one, and so are two pages
for which the same hint is given. -/
theorem mmap_returns_twice : freshMap.Initial ∧
    (∃ st, Run (Guarded (fun st op => MmapOp.Allowed st op) fun st op st' => st.exec op = some st')
        freshMap [.mmap 0 4096 [], .mmap 0 4096 [], .mmap 0 4096 []] st ∧
      st.regions = [⟨0x11000, 4096⟩, ⟨0x11000, 4096⟩, ⟨0x10000, 4096⟩] ∧
      ¬ st.regions.Pairwise Region.Apart) ∧
    ∃ st, Run (Guarded (fun st op => MmapOp.Allowed st op) fun st op st' => st.exec op = some st')
        freshMap [.mmap 0x20000 4096 [], .mmap 0x20000 4096 []] st ∧
      st.regions = [⟨0x20000, 4096⟩, ⟨0x20000, 4096⟩] ∧ ¬ st.regions.Pairwise Region.Apart := by
  have hsearch : ([MmapOp.mmap 0 4096 [], .mmap 0 4096 [], .mmap 0 4096 []].foldlM
      (fun st op => if MmapOp.Allowed st op then MmapState.exec st op else none) freshMap).map
      MmapState.regions = some [⟨0x11000, 4096⟩, ⟨0x11000, 4096⟩, ⟨0x10000, 4096⟩] := by
    decide
  have hhint : ([MmapOp.mmap 0x20000 4096 [], .mmap 0x20000 4096 []].foldlM
      (fun st op => if MmapOp.Allowed st op then MmapState.exec st op else none) freshMap).map
      MmapState.regions = some [⟨0x20000, 4096⟩, ⟨0x20000, 4096⟩] := by
    decide
  obtain ⟨st, hst, hregions⟩ := Option.map_eq_some_iff.mp hsearch
  obtain ⟨st₂, hst₂, hregions₂⟩ := Option.map_eq_some_iff.mp hhint
  refine ⟨freshMap_initial, ⟨st, Run.of_guarded hst, hregions, ?_⟩,
    st₂, Run.of_guarded hst₂, hregions₂, ?_⟩
  · rw [hregions]
    decide
  · rw [hregions₂]
    decide

end CrepOS.Analysis
