import CrepOS.Interface.PmmFit
import CrepOS.Analysis.PmmExclusive

/-!
# First fit of the page allocator

The scan starts at the first page of the chunk with an aligned address and goes on in steps of the
alignment, so the indices it looks at are exactly those with an aligned address (`fitsIndex_iff`). The
address it returns is advanced apart from the index, only after a set bit; as no index has a window that
wraps, every round that goes on has found one (`allocLoop_address`), and both agree when it stops.
-/

set_option autoImplicit false

namespace CrepOS.Analysis

open CrepOS.Library CrepOS.Model CrepOS.Interface

section Chunk

variable {m : Memory} {c : MemChunk} {cnt align : ℕ}

/-! ## The indices of the scan -/

/-- INTERNAL: the scan starts at an aligned address, the first one at or after the base. -/
theorem allocBase_roundUp (h : NoOverflow c cnt align) (halign : 1 ≤ align) :
    c.allocBase align = (c.base + (align * pageSize - 1)) / (align * pageSize) * (align * pageSize) := by
  have hround := h.rounding
  have hpos : 1 ≤ align * pageSize := Nat.mul_pos halign (by decide)
  have hle := Nat.div_mul_le_self (c.base + (align * pageSize - 1)) (align * pageSize)
  unfold MemChunk.allocBase alignUp
  rw [ofSigned_wrapSigned, wrap_of_lt (by omega), toSigned_of_lt (by omega), toSigned_of_lt (by omega),
    divRoundup_natCast hpos (by omega), ← Int.natCast_mul]
  exact ofSigned_natCast (by omega)

/-- INTERNAL: that address is aligned.
SRCLINE: kernel/mm/pmm.cpp:102 -/
theorem allocBase_dvd (h : NoOverflow c cnt align) (halign : 1 ≤ align) :
    align * pageSize ∣ c.allocBase align := by
  rw [allocBase_roundUp h halign]
  exact Nat.dvd_mul_left _ _

/-- INTERNAL: it is not below the base. -/
theorem base_le_allocBase (h : NoOverflow c cnt align) (halign : 1 ≤ align) :
    c.base ≤ c.allocBase align := by
  have hpos : 0 < align * pageSize := Nat.mul_pos halign (by decide)
  have hmod := Nat.mod_lt (c.base + (align * pageSize - 1)) hpos
  have hdiv := Nat.div_add_mod (c.base + (align * pageSize - 1)) (align * pageSize)
  rw [allocBase_roundUp h halign, Nat.mul_comm]
  omega

/-- INTERNAL: every aligned address from the base on is at or after it. -/
theorem allocBase_least (h : NoOverflow c cnt align) (halign : 1 ≤ align) {a : ℕ}
    (hbase : c.base ≤ a) (hdvd : align * pageSize ∣ a) : c.allocBase align ≤ a := by
  obtain ⟨q, rfl⟩ := hdvd
  have hpos : 0 < align * pageSize := Nat.mul_pos halign (by decide)
  rw [allocBase_roundUp h halign, Nat.mul_comm]
  generalize align * pageSize = unit at *
  apply Nat.mul_le_mul_left
  apply Nat.le_of_lt_succ
  apply Nat.div_lt_of_lt_mul
  rw [Nat.mul_succ]
  omega

/-- INTERNAL: the first index of the scan is the page at that address.
SRCLINE: kernel/mm/pmm.cpp:103 -/
theorem bitBase_address (h : NoOverflow c cnt align) (halign : 1 ≤ align)
    (hbase : pageSize ∣ c.base) : c.base + c.bitBase align * pageSize = c.allocBase align := by
  have hle := base_le_allocBase h halign
  have hpage : pageSize ∣ c.allocBase align :=
    (Nat.dvd_mul_left _ _).trans (allocBase_dvd h halign)
  have hlt : c.allocBase align < 2 ^ 64 := ofSigned_lt _
  have hsub : wrap (c.allocBase align + (2 ^ 64 - c.base)) = c.allocBase align - c.base := by
    unfold wrap
    omega
  unfold MemChunk.bitBase
  rw [hsub, Nat.div_mul_cancel (Nat.dvd_sub hpage hbase)]
  omega

/-- INTERNAL: the address of a page of the chunk does not wrap. -/
theorem address_lt (h : NoOverflow c cnt align) {k : ℕ} (hk : k < c.pageCnt) :
    c.base + k * pageSize < 2 ^ 64 := by
  have hpages := h.pages
  simp only [pageSize] at *
  omega

/-- INTERNAL: as long as the loop goes on, its index does not wrap. -/
theorem start_eq (h : NoOverflow c cnt align) {n : ℕ} (hlook : Looks c align n) :
    start c align n = c.bitBase align + n * align := by
  have hround := h.rounding
  have hpages := h.pages
  have hbit : c.bitBase align < 2 ^ 64 := lt_of_le_of_lt (Nat.div_le_self _ _) (wrap_lt _)
  induction n with
  | zero =>
    unfold start
    rw [wrap_of_lt (by omega)]
  | succ n ih =>
    have hn := ih fun k hk => hlook k (by omega)
    have hlow := hlook n (Nat.le_succ n)
    have hsucc : (n + 1) * align = n * align + align := Nat.succ_mul n align
    rw [hn] at hlow
    unfold start
    apply wrap_of_lt
    simp only [pageSize] at hround hpages
    omega

/-- INTERNAL: the loop goes on up to each round whose index is a page of the chunk. -/
theorem looks_of_lt (h : NoOverflow c cnt align) {n : ℕ}
    (hlow : c.bitBase align + n * align < c.pageCnt) : Looks c align n := by
  have hpages := h.pages
  intro k hk
  have hle : k * align ≤ n * align := Nat.mul_le_mul_right align hk
  unfold start
  rw [wrap_of_lt (by simp only [pageSize] at hpages; omega)]
  omega

/-- INTERNAL: the pages with an aligned address are those the scan looks at.
SRCLINE: kernel/mm/pmm.cpp:102-105 -/
theorem aligned_iff (h : NoOverflow c cnt align) (halign : 1 ≤ align)
    (hbase : pageSize ∣ c.base) {k : ℕ} :
    align * pageSize ∣ c.base + k * pageSize ↔ ∃ n, k = c.bitBase align + n * align := by
  have hfirst := bitBase_address h halign hbase
  have hdvd := allocBase_dvd h halign
  constructor
  · intro hk
    have hle := allocBase_least h halign (Nat.le_add_right _ _) hk
    obtain ⟨n, hn⟩ := (Nat.dvd_sub hk hdvd : align * pageSize ∣ _)
    refine ⟨n, ?_⟩
    have hmul : align * pageSize * n = n * align * pageSize := by ring
    simp only [pageSize] at *
    omega
  · rintro ⟨n, rfl⟩
    have hsum : c.base + (c.bitBase align + n * align) * pageSize =
        c.allocBase align + align * pageSize * n := by
      rw [← hfirst]
      ring
    rw [hsum]
    exact Nat.dvd_add hdvd (Nat.dvd_mul_right _ _)

/-- **The indices that fit are those at which the scan would stop.**
SRCLINE: kernel/mm/pmm.cpp:102-119 -/
theorem fitsIndex_iff (h : NoOverflow c cnt align) (halign : 1 ≤ align)
    (hbase : pageSize ∣ c.base) {k : ℕ} : FitsIndex m c cnt align k ↔
      ∃ n, Looks c align n ∧ k = start c align n ∧ FitsAt m c cnt (start c align n) := by
  have hwindow := h.window
  constructor
  · intro hk
    obtain ⟨n, hn⟩ := (aligned_iff h halign hbase).mp hk.aligned
    have hlow := hk.lt
    have hlook : Looks c align n := looks_of_lt h (by omega)
    have hstart : start c align n = k := by rw [start_eq h hlook, hn]
    refine ⟨n, hlook, hstart.symm, ?_⟩
    rw [hstart]
    exact ⟨by omega, hk.clear⟩
  · rintro ⟨n, hlook, rfl, -, hclear⟩
    exact ⟨hlook n le_rfl, (aligned_iff h halign hbase).mpr ⟨n, start_eq h hlook⟩, hclear⟩

/-- INTERNAL: the scan finds something if and only if an index fits. -/
theorem hasIndex_iff (h : NoOverflow c cnt align) (halign : 1 ≤ align)
    (hbase : pageSize ∣ c.base) : HasIndex m c cnt align ↔ HasFit m c cnt align := by
  constructor
  · rintro ⟨k, hk⟩
    obtain ⟨n, hlook, -, hfit⟩ := (fitsIndex_iff h halign hbase).mp hk
    exact ⟨n, hlook, hfit⟩
  · rintro ⟨n, hlook, hfit⟩
    exact ⟨_, (fitsIndex_iff h halign hbase).mpr ⟨n, hlook, rfl, hfit⟩⟩

end Chunk

/-! ## The two functions -/

section Calls

variable {s : Pmm} {cnt align : ℕ}

/-- INTERNAL: setting a window sets its bits and no other bit of the bitmap. -/
theorem bmTest_setWindow (m : Memory) (bitmap k n j : ℕ) :
    bmTest (m.setRun bitmap k n) bitmap j = (decide (k ≤ j ∧ j < k + n) || bmTest m bitmap j) := by
  rw [bmTest_eq, bmTest_eq, Memory.bit_setRun]

/-- **First fit in a chunk.**
SRCLINE: kernel/mm/pmm.cpp:99-124 -/
theorem chunkAnswers {c : MemChunk} (h : NoOverflow c cnt align) (hcnt : 1 ≤ cnt)
    (hcnt' : cnt < 2 ^ 64) (halign : 1 ≤ align) (hbase : pageSize ∣ c.base) :
    ChunkAnswers s c cnt align := by
  have hround := h.rounding
  have hpages := h.pages
  have hfirst := bitBase_address h halign hbase
  have hpos : 1 ≤ align * pageSize := Nat.mul_pos halign (by decide)
  have htrap : ¬ wrap (align * pageSize) = 0 := by
    rw [wrap_of_lt (by omega)]
    omega
  obtain ⟨⟨t, a⟩, ht⟩ : ∃ r, c.alloc s cnt align = some r := by
    unfold MemChunk.alloc
    rw [if_neg htrap]
    cases allocLoop s.mem c cnt align c.pageCnt (c.bitBase align) (c.allocBase align) with
    | none => exact ⟨_, rfl⟩
    | some r => exact ⟨_, rfl⟩
  simp only [pageSize] at hround hpages
  refine ⟨t, a, ht, ?_⟩
  rcases chunk_alloc_cases hcnt hcnt' halign (by omega) (by omega) ht with
    ⟨rfl, rfl, hno⟩ | ⟨n, hlook, hfit, hmin, hloop, rfl⟩
  · refine ⟨fun _ => ⟨rfl, ?_⟩, fun hne => absurd rfl hne⟩
    rw [hasIndex_iff h halign hbase]
    exact hno
  · have hlow := hlook n le_rfl
    have hindex : FitsIndex s.mem c cnt align (start c align n) :=
      (fitsIndex_iff h halign hbase).mpr ⟨n, hlook, rfl, hfit⟩
    -- the address has moved with the index
    have haddr : a = c.base + start c align n * pageSize := by
      have hlt : c.allocBase align < 2 ^ 64 := ofSigned_lt _
      have hloop' := allocLoop_address s.mem c hcnt h.window
        (by rw [hfirst, wrap_of_lt hlt]) hloop
      exact hloop'.trans (wrap_of_lt (address_lt h hlow))
    have hne : a ≠ minusOne := by
      obtain ⟨q, hq⟩ := hbase
      rw [haddr, hq]
      simp only [minusOne, pageSize]
      omega
    refine ⟨fun heq => absurd heq hne, fun _ => ⟨?_, start c align n, hindex, ?_, haddr, ?_, ?_, rfl⟩⟩
    · rw [haddr]
      exact hindex.aligned
    · -- an earlier index would be that of an earlier round
      intro i hi hfits
      obtain ⟨k, hlookk, rfl, hfitk⟩ := (fitsIndex_iff h halign hbase).mp hfits
      rw [start_eq h hlookk, start_eq h hlook] at hi
      have hk : k < n := by
        by_contra hle
        have hmul : n * align ≤ k * align := Nat.mul_le_mul_right align (by omega)
        omega
      exact hmin k hk hfitk
    · intro j
      exact bmTest_setWindow s.mem c.bitmap _ cnt j
    · intro b hb
      exact Memory.setRun_apply_of_outside _ fun j _ _ => by omega

/-- INTERNAL: the loop of `pmm::alloc` over the rest of the list, when the chunks before have no index.
SRCLINE: kernel/mm/pmm.cpp:143-153 -/
theorem allocFrom_answers (hcnt : 1 ≤ cnt) (hcnt' : cnt < 2 ^ 64) (halign : 1 ≤ align)
    (hok : ∀ c ∈ s.chunks, pageSize ∣ c.base ∧ NoOverflow c cnt align) (before rest : List MemChunk)
    (hsplit : s.chunks = before ++ rest) (hno : ∀ d ∈ before, ¬ HasIndex s.mem d cnt align) :
    ∃ t a, Pmm.allocFrom cnt align rest s = some (t, a) ∧
      (a = minusOne → t = s ∧ ∀ c ∈ s.chunks, ¬ HasIndex s.mem c cnt align) ∧
      (a ≠ minusOne → ∃ before c after k, s.chunks = before ++ c :: after ∧
        (∀ d ∈ before, ¬ HasIndex s.mem d cnt align) ∧ FirstFitAt s t c cnt align k a) := by
  induction rest generalizing before with
  | nil =>
    refine ⟨s, minusOne, rfl, fun _ => ⟨rfl, ?_⟩, fun hne => absurd rfl hne⟩
    rw [hsplit, List.append_nil]
    exact hno
  | cons c rest ih =>
    have hc : c ∈ s.chunks := by
      rw [hsplit]
      exact List.mem_append_right _ List.mem_cons_self
    obtain ⟨hbase, hover⟩ := hok c hc
    obtain ⟨t, a, hcall, hfail, hfound⟩ := chunkAnswers (s := s) hover hcnt hcnt' halign hbase
    by_cases hne : a = minusOne
    · obtain ⟨rfl, hnone⟩ := hfail hne
      rw [Pmm.allocFrom, hcall]
      simp only [if_pos hne]
      apply ih (before ++ [c])
      · rw [hsplit, List.append_assoc, List.singleton_append]
      · intro d hd
        rcases List.mem_append.mp hd with hd | hd
        · exact hno d hd
        · rw [List.mem_singleton.mp hd]
          exact hnone
    · rw [Pmm.allocFrom, hcall]
      simp only [if_neg hne]
      obtain ⟨-, k, hfirst⟩ := hfound hne
      exact ⟨t, a, rfl, fun heq => absurd heq hne,
        fun _ => ⟨before, c, rest, k, hsplit, hno, hfirst⟩⟩

/-- **First fit over the chunks.**
SRCLINE: kernel/mm/pmm.cpp:141-154 -/
theorem pmmAnswers (hcnt : 1 ≤ cnt) (hcnt' : cnt < 2 ^ 64) (halign : 1 ≤ align)
    (hok : ∀ c ∈ s.chunks, pageSize ∣ c.base ∧ NoOverflow c cnt align) (hne : s.chunks ≠ []) :
    PmmAnswers s cnt align := by
  obtain ⟨t, a, hcall, hfail, hfound⟩ :=
    allocFrom_answers hcnt hcnt' halign hok [] s.chunks rfl fun d hd => absurd hd List.not_mem_nil
  refine ⟨t, a, ?_, ⟨fun heq => (hfail heq).2, ?_⟩, fun heq => (hfail heq).1, hfound⟩
  · unfold Pmm.alloc
    rw [if_neg hne]
    exact hcall
  · intro hnone
    by_contra ha
    obtain ⟨before, c, after, k, hsplit, -, hfirst⟩ := hfound ha
    apply hnone c
    · rw [hsplit]
      exact List.mem_append_right _ List.mem_cons_self
    · exact ⟨k, hfirst.fits⟩

/-- **First fit, with the address and the bits in agreement.**
SRCLINE: kernel/mm/pmm.cpp:99-124, 141-154; kernel/lib/memutils.hpp:7-55 -/
theorem alloc_firstFit (s : Pmm) {cnt align : ℕ} (hcnt : 1 ≤ cnt) (hcnt' : cnt < 2 ^ 64)
    (halign : 1 ≤ align) :
    (∀ c, pageSize ∣ c.base → NoOverflow c cnt align → ChunkAnswers s c cnt align) ∧
      (s.chunks ≠ [] → (∀ c ∈ s.chunks, pageSize ∣ c.base ∧ NoOverflow c cnt align) →
        PmmAnswers s cnt align) :=
  ⟨fun _ hbase hover => chunkAnswers hover hcnt hcnt' halign hbase,
    fun hne hok => pmmAnswers hcnt hcnt' halign hok hne⟩

end Calls

/-- Two pages at `0x1000`; the first one with an address of alignment 2 is the second one. -/
theorem alloc_firstFit_twoPages : PmmAnswers ⟨fun _ => 0, [⟨0x1000, 2, 1, 0⟩], 0⟩ 1 2 := by
  refine (alloc_firstFit _ (by decide) (by decide) (by decide)).2 (by decide) fun c hc => ?_
  obtain rfl := List.mem_singleton.mp hc
  exact ⟨by decide, by decide, by decide, by decide⟩

end CrepOS.Analysis
