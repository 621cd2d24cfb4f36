import CrepOS.Library.Run
import CrepOS.Analysis.PmmScan
import Mathlib.Data.List.Pairwise

/-!
# Which page ranges `pmm::alloc` hands out

The client of the allocator holds the ranges it got and has not returned. `Exclusive` asks that
each lies in one chunk and that no two share a byte. `mem_chunk::alloc` bounds only the start of a
window by `page_cnt`, so a window may run past the end of its chunk, over the padding of the last
bitmap byte and the bytes behind it (`alloc_runs_past_chunk`). `TailSafe` says that no such window
is the first clear one; in every run whose allocations meet it, `Exclusive` holds
(`exclusive_of_tailSafe`).
-/

set_option autoImplicit false

namespace CrepOS.Analysis

open CrepOS.Library CrepOS.Model

/-- A range of `cnt` pages from the physical address `addr` on. -/
structure PageRange where
  addr : ℕ
  cnt : ℕ
  deriving DecidableEq, Repr

/-- Two page ranges share no byte. -/
def PageRange.Apart (r q : PageRange) : Prop :=
  r.addr + r.cnt * pageSize ≤ q.addr ∨ q.addr + q.cnt * pageSize ≤ r.addr

instance : Std.Symm PageRange.Apart := ⟨fun _ _ h => h.symm⟩

/-- The pages of two chunks share no byte. -/
def PagesApart (c d : MemChunk) : Prop :=
  (PageRange.mk c.base c.pageCnt).Apart (PageRange.mk d.base d.pageCnt)

instance : Std.Symm PagesApart := ⟨fun _ _ h => h.symm⟩

/-- The bitmaps of two chunks share no byte. -/
def BitmapsApart (c d : MemChunk) : Prop :=
  c.bitmap + c.bitmapSize ≤ d.bitmap ∨ d.bitmap + d.bitmapSize ≤ c.bitmap

instance : Std.Symm BitmapsApart := ⟨fun _ _ h => h.symm⟩

/-- A page range lies wholly inside the pages of a chunk. -/
def PageRange.Inside (r : PageRange) (c : MemChunk) : Prop :=
  c.base ≤ r.addr ∧ r.addr + r.cnt * pageSize ≤ c.base + c.pageCnt * pageSize

/-- A chunk list as `pmm::init` builds it: page-aligned physical ranges (below `2^52`, the width of
a physical address), pairwise apart, each with a bitmap of one bit per page of its own. -/
structure ChunksOk (l : List MemChunk) : Prop where
  aligned : ∀ c ∈ l, pageSize ∣ c.base
  bound : ∀ c ∈ l, c.base + c.pageCnt * pageSize ≤ 2 ^ 52
  pages : l.Pairwise PagesApart
  bitmapSize : ∀ c ∈ l, c.bitmapSize = (c.pageCnt + 7) / 8
  bitmaps : l.Pairwise BitmapsApart

/-- The allocator together with the ranges its client holds. -/
structure PmmSystem where
  pmm : Pmm
  live : List PageRange

/-- The calls of the client. -/
inductive PmmCall
  | alloc (cnt align : ℕ)
  | free (base cnt : ℕ)
  deriving DecidableEq, Repr

/-- One call: an allocation of at least one page with an alignment of at least one page, or the
return of a range the client holds. -/
inductive PmmStep : PmmSystem → PmmCall → PmmSystem → Prop
  | alloc {s : PmmSystem} {cnt align a : ℕ} {pmm' : Pmm} (hcnt : 1 ≤ cnt) (hcnt' : cnt < 2 ^ 64)
      (halign : 1 ≤ align) (halign' : align < 2 ^ 64)
      (h : s.pmm.alloc cnt align = some (pmm', a)) :
      PmmStep s (.alloc cnt align) ⟨pmm', if a = minusOne then s.live else ⟨a, cnt⟩ :: s.live⟩
  | free {s : PmmSystem} {base cnt : ℕ} {pmm' : Pmm} (hlive : ⟨base, cnt⟩ ∈ s.live)
      (h : s.pmm.free base cnt = some pmm') :
      PmmStep s (.free base cnt) ⟨pmm', s.live.erase ⟨base, cnt⟩⟩

/-- Every range the client holds lies in one chunk, and no two share a byte. -/
def Exclusive (s : PmmSystem) : Prop :=
  (∀ r ∈ s.live, ∃ c ∈ s.pmm.chunks, r.Inside c) ∧ s.live.Pairwise PageRange.Apart

/-- Every window of `cnt` clear bits that runs past the end of its chunk comes after another clear
window: at an earlier index of the same chunk, or in an earlier chunk. -/
def TailSafe (s : Pmm) (cnt align : ℕ) : Prop :=
  ∀ before c after, s.chunks = before ++ c :: after → ∀ n, Looks c align n →
    FitsAt s.mem c cnt (start c align n) → c.pageCnt < start c align n + cnt →
      (∃ k < n, FitsAt s.mem c cnt (start c align k)) ∨ ∃ d ∈ before, HasFit s.mem d cnt align

/-- The condition on a call: an allocation finds a tail-safe state, a return is unrestricted. -/
def CallOk (s : PmmSystem) : PmmCall → Prop
  | .alloc cnt align => TailSafe s.pmm cnt align
  | .free _ _ => True

/-! ## Chunks and their bitmaps -/

section Chunks

variable {l : List MemChunk} (hl : ChunksOk l) {c d : MemChunk} (hc : c ∈ l) (hd : d ∈ l)

include hl hc

/-- INTERNAL: the first address the scan looks at is the address of its first page index.
SRCLINE: kernel/mm/pmm.cpp:102-103 -/
theorem ChunksOk.allocBase_eq (align : ℕ) :
    c.allocBase align = wrap (c.base + c.bitBase align * pageSize) := by
  have halign := hl.aligned c hc
  have hbound := hl.bound c hc
  have hlt : c.allocBase align < 2 ^ 64 := ofSigned_lt _
  have hdvd : 4096 ∣ c.allocBase align := by
    have hA : (4096 : ℤ) ∣ toSigned (wrap (align * pageSize)) := by
      have h := wrapSigned_emod (wrap (align * pageSize) : ℕ)
      unfold toSigned
      simp only [wrap, pageSize] at h ⊢
      omega
    unfold MemChunk.allocBase alignUp
    rw [ofSigned_wrapSigned]
    obtain ⟨q, hq⟩ := hA.mul_left (divRoundup (toSigned c.base) (toSigned (wrap (align * pageSize))))
    rw [hq]
    unfold ofSigned
    omega
  unfold MemChunk.bitBase
  simp only [wrap, pageSize] at *
  omega

/-- INTERNAL: a page index of a chunk names the page at its address. -/
theorem ChunksOk.wrap_address {i : ℕ} (hi : i < c.pageCnt) :
    wrap (c.base + i * pageSize) = c.base + i * pageSize := by
  have hbound := hl.bound c hc
  apply wrap_of_lt
  simp only [pageSize] at *
  omega

include hd

/-- INTERNAL: different chunks have no page in common. -/
theorem ChunksOk.pagesApart (hne : c ≠ d) : PagesApart c d :=
  hl.pages.forall hc hd hne

/-- INTERNAL: a bitmap byte of a chunk is no bitmap byte of another one. -/
theorem ChunksOk.bitmap_ne (hne : c ≠ d) {i j : ℕ}
    (hi : i < c.pageCnt) (hj : j < d.pageCnt) : c.bitmap + i / 8 ≠ d.bitmap + j / 8 := by
  have hap : BitmapsApart c d := hl.bitmaps.forall hc hd hne
  unfold BitmapsApart at hap
  rw [hl.bitmapSize c hc, hl.bitmapSize d hd] at hap
  omega

/-- INTERNAL: setting a run of page bits of one chunk sets them and no page bit of any chunk
otherwise. -/
theorem ChunksOk.bmTest_setRun (m : Memory) {i n j : ℕ} (hin : i + n ≤ c.pageCnt)
    (hj : j < d.pageCnt) :
    bmTest (m.setRun c.bitmap i n) d.bitmap j =
      (decide (d = c ∧ i ≤ j ∧ j < i + n) || bmTest m d.bitmap j) := by
  rw [bmTest_eq, bmTest_eq]
  by_cases hne : d = c
  · subst hne
    simp [Memory.bit_setRun]
  · simp only [hne, false_and, decide_false, Bool.false_or]
    refine Memory.bit_congr (Memory.setRun_apply_of_outside _ fun k _ hk => ?_)
    exact hl.bitmap_ne hd hc hne hj (by omega)

/-- INTERNAL: clearing a run of page bits of one chunk clears them and no page bit of any chunk
otherwise. -/
theorem ChunksOk.bmTest_clearRun (m : Memory) {i n j : ℕ} (hin : i + n ≤ c.pageCnt)
    (hj : j < d.pageCnt) :
    bmTest (m.clearRun c.bitmap i n) d.bitmap j =
      (decide (¬ (d = c ∧ i ≤ j ∧ j < i + n)) && bmTest m d.bitmap j) := by
  rw [bmTest_eq, bmTest_eq]
  by_cases hne : d = c
  · subst hne
    simp only [Memory.bit_clearRun, true_and]
  · simp only [hne, false_and, not_false_eq_true, decide_true, Bool.true_and]
    refine Memory.bit_congr (Memory.clearRun_apply_of_outside _ fun k _ hk => ?_)
    exact hl.bitmap_ne hd hc hne hj (by omega)

end Chunks

/-! ## What a call does -/

/-- INTERNAL: a chunk without a fitting index leaves the state alone and answers `-1`; otherwise it
answers from the first fitting index.
SRCLINE: kernel/mm/pmm.cpp:99-124 -/
theorem chunk_alloc_cases {s s' : Pmm} {c : MemChunk} {cnt align a : ℕ} (hcnt : 1 ≤ cnt)
    (hcnt' : cnt < 2 ^ 64) (halign : 1 ≤ align) (halign' : align < 2 ^ 64)
    (hpage : c.pageCnt ≤ 2 ^ 63) (h : c.alloc s cnt align = some (s', a)) :
    (s' = s ∧ a = minusOne ∧ ¬ HasFit s.mem c cnt align) ∨
      ∃ n, Looks c align n ∧ FitsAt s.mem c cnt (start c align n) ∧
        (∀ k < n, ¬ FitsAt s.mem c cnt (start c align k)) ∧
        allocLoop s.mem c cnt align c.pageCnt (c.bitBase align) (c.allocBase align) =
          some (start c align n, a) ∧
        s' = { s with
          mem := s.mem.setRun c.bitmap (start c align n) cnt
          totalUsedMem := wrap (s.totalUsedMem + cnt * pageSize) } := by
  have hbit : c.bitBase align < 2 ^ 64 :=
    lt_of_le_of_lt (Nat.div_le_self _ _) (wrap_lt _)
  unfold MemChunk.alloc at h
  split_ifs at h with htrap
  cases hloop : allocLoop s.mem c cnt align c.pageCnt (c.bitBase align) (c.allocBase align) with
  | none =>
    rw [hloop] at h
    simp only [Option.some.injEq, Prod.mk.injEq] at h
    obtain ⟨rfl, rfl⟩ := h
    refine Or.inl ⟨rfl, rfl, ?_⟩
    rintro ⟨n, hlook, hfit⟩
    exact allocLoop_eq_none s.mem c hcnt hcnt' hbit hloop
      (hlook.lt_pageCnt halign halign' hpage) hlook hfit
  | some r =>
    obtain ⟨i, b⟩ := r
    rw [hloop] at h
    simp only [Option.some.injEq, Prod.mk.injEq] at h
    obtain ⟨rfl, rfl⟩ := h
    obtain ⟨n, rfl, hlook, hfit, hmin⟩ := allocLoop_eq_some s.mem c hcnt hcnt' hbit hloop
    exact Or.inr ⟨n, hlook, hfit, hmin, rfl, rfl⟩

/-- What an allocation from chunk `c` at page index `i` does: the window lay free inside the chunk,
its bits are set and its address is returned. -/
structure TookAt (s s' : Pmm) (c : MemChunk) (i cnt a : ℕ) : Prop where
  mem : c ∈ s.chunks
  inside : i + cnt ≤ c.pageCnt
  free : ∀ j, i ≤ j → j < i + cnt → bmTest s.mem c.bitmap j = false
  address : a = c.base + i * pageSize
  chunks : s'.chunks = s.chunks
  memory : s'.mem = s.mem.setRun c.bitmap i cnt

/-- INTERNAL: the address of a page inside a chunk is not the failure value. -/
theorem TookAt.ne_minusOne {s s' : Pmm} {c : MemChunk} {i cnt a : ℕ} (hok : ChunksOk s.chunks)
    (h : TookAt s s' c i cnt a) : a ≠ minusOne := by
  have hbound := hok.bound c h.mem
  have hin := h.inside
  have haddr := h.address
  simp only [minusOne, pageSize] at *
  omega

/-- INTERNAL: the loop over the rest of the chunk list, when the chunks before it had no fitting
index, leaves the state alone and answers `-1` or takes a window inside one chunk.
SRCLINE: kernel/mm/pmm.cpp:143-153 -/
theorem allocFrom_cases {s s' : Pmm} {cnt align a : ℕ} (hok : ChunksOk s.chunks) (hcnt : 1 ≤ cnt)
    (hcnt' : cnt < 2 ^ 64) (halign : 1 ≤ align) (halign' : align < 2 ^ 64)
    (hsafe : TailSafe s cnt align) (before : List MemChunk) (rest : List MemChunk)
    (hsplit : s.chunks = before ++ rest) (hno : ∀ d ∈ before, ¬ HasFit s.mem d cnt align)
    (h : Pmm.allocFrom cnt align rest s = some (s', a)) :
    (s' = s ∧ a = minusOne) ∨ ∃ c i, TookAt s s' c i cnt a ∧
      s'.totalUsedMem = wrap (s.totalUsedMem + cnt * pageSize) := by
  induction rest generalizing before with
  | nil =>
    simp only [Pmm.allocFrom, Option.some.injEq, Prod.mk.injEq] at h
    exact Or.inl ⟨h.1.symm, h.2.symm⟩
  | cons c rest ih =>
    have hc : c ∈ s.chunks := by rw [hsplit]; simp
    have hbound := hok.bound c hc
    rw [Pmm.allocFrom] at h
    cases hcalloc : c.alloc s cnt align with
    | none => rw [hcalloc] at h; cases h
    | some r =>
      obtain ⟨s₁, b⟩ := r
      rw [hcalloc] at h
      rcases chunk_alloc_cases hcnt hcnt' halign halign' (by simp only [pageSize] at hbound; omega)
        hcalloc with ⟨rfl, rfl, hnofit⟩ | ⟨n, hlook, hfit, hmin, hloop, rfl⟩
      · simp only [if_true] at h
        refine ih (before ++ [c]) (by simpa using hsplit) ?_ h
        intro d hd
        rcases List.mem_append.mp hd with hd | hd
        · exact hno d hd
        · rwa [List.mem_singleton.mp hd]
      · -- a window that runs past the end would come after a clear one, which the scan would
        -- have taken
        have hinside : start c align n + cnt ≤ c.pageCnt := by
          by_contra hpast
          rcases hsafe before c rest hsplit n hlook hfit (by omega) with ⟨k, hk, hf⟩ | ⟨d, hd, hf⟩
          · exact hmin k hk hf
          · exact hno d hd hf
        have hb : b = c.base + start c align n * pageSize := by
          have h1 := allocLoop_address s.mem c hcnt
            (by simp only [pageSize] at hbound; omega) (hok.allocBase_eq hc align) hloop
          rwa [hok.wrap_address hc (hlook n le_rfl)] at h1
        have htook : TookAt s { s with
            mem := s.mem.setRun c.bitmap (start c align n) cnt
            totalUsedMem := wrap (s.totalUsedMem + cnt * pageSize) } c (start c align n) cnt b :=
          ⟨hc, hinside, hfit.2, hb, rfl, rfl⟩
        simp only [if_neg (htook.ne_minusOne hok), Option.some.injEq, Prod.mk.injEq] at h
        obtain ⟨rfl, rfl⟩ := h
        exact Or.inr ⟨c, _, htook, rfl⟩

/-- INTERNAL: `pmm::alloc` in a tail-safe state.
SRCLINE: kernel/mm/pmm.cpp:141-154 -/
theorem alloc_cases {s s' : Pmm} {cnt align a : ℕ} (hok : ChunksOk s.chunks) (hcnt : 1 ≤ cnt)
    (hcnt' : cnt < 2 ^ 64) (halign : 1 ≤ align) (halign' : align < 2 ^ 64)
    (hsafe : TailSafe s cnt align) (h : s.alloc cnt align = some (s', a)) :
    (s' = s ∧ a = minusOne) ∨ ∃ c i, TookAt s s' c i cnt a ∧
      s'.totalUsedMem = wrap (s.totalUsedMem + cnt * pageSize) := by
  unfold Pmm.alloc at h
  split_ifs at h with hnil
  exact allocFrom_cases hok hcnt hcnt' halign halign' hsafe [] s.chunks rfl (by simp) h

/-- A range occupies `cnt` pages of the chunk `c` from index `i` on, with their bits set. -/
structure Occupies (m : Memory) (r : PageRange) (c : MemChunk) (i : ℕ) : Prop where
  address : r.addr = c.base + i * pageSize
  nonempty : 1 ≤ r.cnt
  inside : i + r.cnt ≤ c.pageCnt
  set : ∀ j, i ≤ j → j < i + r.cnt → bmTest m c.bitmap j = true

/-- INTERNAL: `pmm::free` of a range clears the bits of exactly its pages and counts them.
SRCLINE: kernel/mm/pmm.cpp:126-133, 162-170 -/
theorem free_eq {s s' : Pmm} {r : PageRange} {c : MemChunk} {i : ℕ} (hok : ChunksOk s.chunks)
    (hc : c ∈ s.chunks) (hocc : Occupies s.mem r c i) (h : s.free r.addr r.cnt = some s') :
    s'.chunks = s.chunks ∧ s'.mem = s.mem.clearRun c.bitmap i r.cnt ∧
      s'.totalUsedMem = wrap (s.totalUsedMem + (2 ^ 64 - wrap (r.cnt * pageSize))) := by
  have hbound := hok.bound c hc
  have hne : s.chunks ≠ [] := List.ne_nil_of_mem hc
  obtain ⟨haddr, hpos, hin, -⟩ := hocc
  have hcholds : c.holds r.addr r.cnt = true := by
    unfold MemChunk.holds
    simp only [Bool.and_eq_true, decide_eq_true_eq]
    simp only [wrap, pageSize] at *
    omega
  unfold Pmm.free at h
  rw [if_neg hne] at h
  cases hfind : s.chunks.find? fun c => c.holds r.addr r.cnt with
  | none =>
    have := List.find?_eq_none.mp hfind c hc
    exact absurd hcholds this
  | some d =>
    rw [hfind] at h
    have hd := List.mem_of_find?_eq_some hfind
    have hdholds := List.find?_some hfind
    have hdbound := hok.bound d hd
    -- only one chunk holds the range, since it has a page
    have hdc : d = c := by
      by_contra hdc
      have hap := hok.pagesApart hd hc hdc
      unfold PagesApart PageRange.Apart at hap
      unfold MemChunk.holds at hdholds
      simp only [Bool.and_eq_true, decide_eq_true_eq] at hdholds
      simp only [wrap, pageSize] at *
      omega
    subst hdc
    simp only [Option.some.injEq] at h
    subst h
    have hrel : r.addr - d.base = i * 4096 := by simp only [pageSize] at haddr; omega
    have hi : ofSigned (divRoundup (toSigned (r.addr - d.base)) pageSize) = i := by
      rw [hrel, toSigned_of_lt (by simp only [pageSize] at hbound; omega),
        divRoundup_pageSize (by simp only [pageSize] at hbound ⊢; omega),
        ofSigned_natCast (by simp only [pageSize] at hbound; omega)]
      omega
    have hn : wrap (i + r.cnt) - i = r.cnt := by
      rw [wrap_of_lt (by simp only [pageSize] at hbound; omega)]
      omega
    simp only [MemChunk.free, hi, hn, and_self]

/-! ## The invariant -/

/-- The chunks are well formed, every held range occupies set bits inside one chunk, and no two
held ranges share a byte. -/
structure PmmInv (s : PmmSystem) : Prop where
  chunks : ChunksOk s.pmm.chunks
  occupied : ∀ r ∈ s.live, ∃ c ∈ s.pmm.chunks, ∃ i, Occupies s.pmm.mem r c i
  apart : s.live.Pairwise PageRange.Apart

/-- INTERNAL: the invariant gives what the client relies on. -/
theorem PmmInv.exclusive {s : PmmSystem} (h : PmmInv s) : Exclusive s := by
  refine ⟨fun r hr => ?_, h.apart⟩
  obtain ⟨c, hc, i, haddr, -, hin, -⟩ := h.occupied r hr
  refine ⟨c, hc, ?_⟩
  unfold PageRange.Inside
  simp only [pageSize] at *
  omega

/-- INTERNAL: a free window shares no byte with a held range: in the same chunk the bits would be
both clear and set, and different chunks share no page. -/
theorem apart_of_free {m : Memory} {l : List MemChunk} (hok : ChunksOk l) {c d : MemChunk}
    (hc : c ∈ l) (hd : d ∈ l) {i k cnt : ℕ} {r : PageRange} (hin : i + cnt ≤ c.pageCnt)
    (hcnt : 1 ≤ cnt) (hfree : ∀ j, i ≤ j → j < i + cnt → bmTest m c.bitmap j = false)
    (hocc : Occupies m r d k) : PageRange.Apart ⟨c.base + i * pageSize, cnt⟩ r := by
  obtain ⟨haddr, hpos, hrin, hset⟩ := hocc
  unfold PageRange.Apart
  by_cases hdc : d = c
  · subst hdc
    have hidx : i + cnt ≤ k ∨ k + r.cnt ≤ i := by
      by_contra hno
      -- the larger of the two starts is an index of both windows
      have h1 := hfree (max i k) (by omega) (by omega)
      have h2 := hset (max i k) (by omega) (by omega)
      rw [h1] at h2
      cases h2
    simp only [pageSize] at *
    omega
  · have hap := hok.pagesApart hc hd (Ne.symm hdc)
    unfold PagesApart PageRange.Apart at hap
    simp only [pageSize] at *
    omega

/-- INTERNAL: an allocation in a tail-safe state preserves the invariant.
SRCLINE: kernel/mm/pmm.cpp:141-154 -/
theorem PmmInv.alloc {s : PmmSystem} {pmm' : Pmm} {c : MemChunk} {i cnt a : ℕ} (h : PmmInv s)
    (hcnt : 1 ≤ cnt) (htook : TookAt s.pmm pmm' c i cnt a) :
    PmmInv ⟨pmm', ⟨a, cnt⟩ :: s.live⟩ := by
  obtain ⟨hc, hin, hfree, haddr, hchunks, hmem⟩ := htook
  have hok' : ChunksOk pmm'.chunks := by rw [hchunks]; exact h.chunks
  have hset : ∀ d ∈ s.pmm.chunks, ∀ j < d.pageCnt, bmTest pmm'.mem d.bitmap j =
      (decide (d = c ∧ i ≤ j ∧ j < i + cnt) || bmTest s.pmm.mem d.bitmap j) := by
    intro d hd j hj
    rw [hmem]
    exact h.chunks.bmTest_setRun hc hd s.pmm.mem hin hj
  refine ⟨hok', ?_, List.pairwise_cons.mpr ⟨fun r hr => ?_, h.apart⟩⟩
  · intro r hr
    rcases List.mem_cons.mp hr with rfl | hr
    · refine ⟨c, hchunks ▸ hc, i, haddr, hcnt, hin, fun j hj hj' => ?_⟩
      simp only at hj'
      rw [hset c hc j (by omega)]
      simp [hj, hj']
    · obtain ⟨d, hd, k, hraddr, hpos, hrin, hrset⟩ := h.occupied r hr
      refine ⟨d, hchunks ▸ hd, k, hraddr, hpos, hrin, fun j hj hj' => ?_⟩
      rw [hset d hd j (by omega), hrset j hj hj', Bool.or_true]
  · obtain ⟨d, hd, k, hocc⟩ := h.occupied r hr
    rw [haddr]
    exact apart_of_free h.chunks hc hd hin hcnt hfree hocc

/-- INTERNAL: the return of a held range preserves the invariant.
SRCLINE: kernel/mm/pmm.cpp:162-170 -/
theorem PmmInv.free {s : PmmSystem} {pmm' : Pmm} {r : PageRange} (h : PmmInv s)
    (hr : r ∈ s.live) (hfree : s.pmm.free r.addr r.cnt = some pmm') :
    PmmInv ⟨pmm', s.live.erase r⟩ := by
  obtain ⟨c, hc, i, hocc⟩ := h.occupied r hr
  obtain ⟨hchunks, hmem, -⟩ := free_eq h.chunks hc hocc hfree
  refine ⟨by rw [hchunks]; exact h.chunks, fun q hq => ?_, h.apart.sublist List.erase_sublist⟩
  have hq' : q ∈ s.live := List.mem_of_mem_erase hq
  obtain ⟨d, hd, k, hqaddr, hqpos, hqin, hqset⟩ := h.occupied q hq'
  -- the other ranges are apart from the returned one, so their bits stay
  have hap : PageRange.Apart r q := by
    have hsplit := (List.perm_cons_erase hr).pairwise h.apart Or.symm
    exact (List.pairwise_cons.mp hsplit).1 q hq
  refine ⟨d, hchunks ▸ hd, k, hqaddr, hqpos, hqin, fun j hj hj' => ?_⟩
  rw [hmem, h.chunks.bmTest_clearRun hc hd s.pmm.mem hocc.inside (by omega),
    hqset j hj hj', Bool.and_true, decide_eq_true_eq]
  rintro ⟨rfl, hij, hij'⟩
  have haddr := hocc.address
  unfold PageRange.Apart at hap
  simp only [pageSize] at *
  omega

/-- INTERNAL: every call whose allocations find a tail-safe state preserves the invariant. -/
theorem PmmInv.step {s t : PmmSystem} {call : PmmCall} (h : PmmInv s)
    (hstep : Guarded CallOk PmmStep s call t) : PmmInv t := by
  obtain ⟨hok, hstep⟩ := hstep
  cases hstep with
  | alloc hcnt hcnt' halign halign' ha =>
    rcases alloc_cases h.chunks hcnt hcnt' halign halign' hok ha with
      ⟨rfl, rfl⟩ | ⟨c, i, htook, -⟩
    · rw [if_pos rfl]
      exact h
    · rw [if_neg (htook.ne_minusOne h.chunks)]
      exact h.alloc hcnt htook
  | free hlive hf => exact h.free hlive hf

/-- **Exclusive page ranges.** Starting with any bitmap contents and no range handed out, in every
run of allocations and returns whose allocations find a tail-safe state, every range the client
holds lies inside one chunk and no two of them share a byte.
SRCLINE: kernel/mm/pmm.cpp:99-170 -/
theorem exclusive_of_tailSafe {pmm : Pmm} {calls : List PmmCall} {t : PmmSystem}
    (hok : ChunksOk pmm.chunks) (h : Run (Guarded CallOk PmmStep) ⟨pmm, []⟩ calls t) :
    Exclusive t :=
  PmmInv.exclusive <| h.invariant PmmInv (fun _ _ _ hs hstep => hs.step hstep)
    ⟨hok, by simp, List.Pairwise.nil⟩

/-- INTERNAL: allocations of a single page are always tail-safe: their window ends where the index
it starts at does. -/
theorem tailSafe_one (s : Pmm) (align : ℕ) : TailSafe s 1 align := by
  intro before c after _ n hlook _ hpast
  have := hlook n le_rfl
  omega

/-- One chunk of a single page at `0x1000`, with its bitmap at address `0`. -/
def onePage : Pmm := ⟨fun _ => 0, [⟨0x1000, 1, 1, 0⟩], 0⟩

theorem onePage_chunksOk : ChunksOk onePage.chunks where
  aligned := by simp [onePage]
  bound := by simp [onePage, pageSize]
  pages := by simp [onePage]
  bitmapSize := by simp [onePage]
  bitmaps := by simp [onePage]

/-- The page of `onePage` is handed out, held exclusively. -/
theorem exclusive_onePage : ∃ t, Run (Guarded CallOk PmmStep) ⟨onePage, []⟩ [.alloc 1 1] t ∧
    t.live = [⟨0x1000, 1⟩] ∧ Exclusive t := by
  have halloc : onePage.alloc 1 1 = some (_, 0x1000) := rfl
  have hstep := PmmStep.alloc (s := ⟨onePage, []⟩) le_rfl (by decide) le_rfl (by decide) halloc
  have hrun : Run (Guarded CallOk PmmStep) ⟨onePage, []⟩ [.alloc 1 1] _ :=
    Run.single ⟨tailSafe_one onePage 1, hstep⟩
  exact ⟨_, hrun, rfl, exclusive_of_tailSafe onePage_chunksOk hrun⟩

/-- Two pages are handed out of a chunk of one page: the second bit the scan reads is padding of
the bitmap byte.
SRCLINE: kernel/mm/pmm.cpp:105-119 -/
theorem alloc_runs_past_chunk : ChunksOk onePage.chunks ∧
    ∃ t, Run PmmStep ⟨onePage, []⟩ [.alloc 2 1] t ∧ ¬ Exclusive t := by
  have halloc : onePage.alloc 2 1 = some (_, 0x1000) := rfl
  have hstep := PmmStep.alloc (s := ⟨onePage, []⟩) (by decide) (by decide) le_rfl (by decide) halloc
  refine ⟨onePage_chunksOk, _, Run.single hstep, fun h => ?_⟩
  obtain ⟨c, hc, hin⟩ := h.1 ⟨0x1000, 2⟩ (List.mem_singleton.mpr rfl)
  have hcases : c = ⟨0x1000, 1, 1, 0⟩ := List.mem_singleton.mp hc
  subst hcases
  unfold PageRange.Inside at hin
  simp only [pageSize] at hin
  omega

end CrepOS.Analysis
