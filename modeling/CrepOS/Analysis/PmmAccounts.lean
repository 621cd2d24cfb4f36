import CrepOS.Library.BitCount
import CrepOS.Library.Ranges
import CrepOS.Analysis.PmmExclusive
import Mathlib.Algebra.BigOperators.Ring.List
import Mathlib.Algebra.Order.BigOperators.Group.List

/-!
# The accounts of the page allocator

`total_used_mem` is a page for every set bit of the bitmaps (`Accounted`) in every run of allocations and
returns in which the allocations find a tail-safe state; the returns take any set pages of one chunk. Then
a return never takes more than there is, and the return of what has just been handed out gives the state
before (`accounted_of_tailSafe`).

A window that runs past the bitmap of its chunk is counted as a whole, though only a part of its bits lies
in the bitmap (`alloc_overcounts`).
-/

set_option autoImplicit false

namespace CrepOS.Analysis

open CrepOS.Library CrepOS.Model

/-- The number of set bits over all bitmaps. -/
def usedBits (s : Pmm) : ℕ := (s.chunks.map fun c => s.mem.countBits c.bitmap (8 * c.bitmapSize)).sum

/-- `total_used_mem` is a page for every set bit. -/
def Accounted (s : Pmm) : Prop := s.totalUsedMem = pageSize * usedBits s

/-- The `cnt` pages from `base` on are pages of the chunk `c`, from its page `i` on, and are allocated. -/
structure HeldPages (s : Pmm) (c : MemChunk) (i base cnt : ℕ) : Prop where
  mem : c ∈ s.chunks
  address : base = c.base + i * pageSize
  inside : i + cnt ≤ c.pageCnt
  set : ∀ j, i ≤ j → j < i + cnt → bmTest s.mem c.bitmap j = true

/-- One call: any allocation, or the return of allocated pages of one chunk. -/
inductive PmmUse : Pmm → PmmCall → Pmm → Prop
  | alloc {s t : Pmm} {cnt align a : ℕ} (hcnt : cnt < 2 ^ 64) (halign : align < 2 ^ 64)
      (h : s.alloc cnt align = some (t, a)) : PmmUse s (.alloc cnt align) t
  | free {s t : Pmm} {c : MemChunk} {i base cnt : ℕ} (hheld : HeldPages s c i base cnt)
      (h : s.free base cnt = some t) : PmmUse s (.free base cnt) t

/-- The condition on a call: an allocation finds a tail-safe state. -/
def UseOk (s : Pmm) : PmmCall → Prop
  | .alloc cnt align => TailSafe s cnt align
  | .free _ _ => True

/-! ## How many bits there are -/

section Sums

variable {l : List MemChunk} {c : MemChunk}

/-- INTERNAL: there are no more pages than fit below `2^52`. -/
theorem ChunksOk.pageCnt_sum (h : ChunksOk l) : (l.map MemChunk.pageCnt).sum * pageSize ≤ 2 ^ 52 := by
  rw [← List.sum_map_mul_right]
  exact sum_len_le h.pages h.bound

/-- INTERNAL: a bitmap has at most eight bits for each page. -/
theorem ChunksOk.usedBits_le {s : Pmm} (h : ChunksOk s.chunks) : usedBits s ≤ 8 * 2 ^ 40 := by
  have hsum : usedBits s ≤ (s.chunks.map fun c => 8 * c.pageCnt).sum := by
    apply List.sum_le_sum
    intro c hc
    have hle : s.mem.countBits c.bitmap (8 * c.bitmapSize) ≤ 8 * c.bitmapSize := Memory.countBits_le
    have hsize := h.bitmapSize c hc
    omega
  have hpages := h.pageCnt_sum
  rw [List.sum_map_mul_left] at hsum
  simp only [pageSize] at hpages
  omega

/-- INTERNAL: the accounts of well-formed chunks stay far below the range of a word. -/
theorem ChunksOk.account_lt {s : Pmm} (h : ChunksOk s.chunks) : pageSize * usedBits s < 2 ^ 63 := by
  have hle := h.usedBits_le
  simp only [pageSize]
  omega

/-- INTERNAL: a sum over the chunks in which one chunk with pages changes. -/
theorem sum_change (hapart : l.Pairwise PagesApart) (hc : c ∈ l) (hpages : 1 ≤ c.pageCnt)
    {f g : MemChunk → ℕ} {n : ℕ} (hother : ∀ d ∈ l, d ≠ c → g d = f d) (hself : g c = f c + n) :
    (l.map g).sum = (l.map f).sum + n := by
  obtain ⟨before, after, rfl⟩ := List.append_of_mem hc
  obtain ⟨-, hafter, hbetween⟩ := List.pairwise_append.mp hapart
  -- a chunk with pages is in the list once
  have hne : ∀ d, PagesApart c d ∨ PagesApart d c → d ≠ c := by
    rintro d hap rfl
    unfold PagesApart PageRange.Apart at hap
    simp only [pageSize] at hap
    omega
  have hbefore : before.map g = before.map f := by
    apply List.map_congr_left
    intro d hd
    exact hother d (List.mem_append_left _ hd) (hne d (Or.inr (hbetween d hd c List.mem_cons_self)))
  have hrest : after.map g = after.map f := by
    apply List.map_congr_left
    intro d hd
    apply hother d (List.mem_append_right _ (List.mem_cons_of_mem _ hd))
    exact hne d (Or.inl ((List.pairwise_cons.mp hafter).1 d hd))
  rw [List.map_append, List.map_cons, List.map_append, List.map_cons, hbefore, hrest, hself,
    List.sum_append, List.sum_append, List.sum_cons, List.sum_cons]
  omega

end Sums

/-! ## What a call does to the number of set bits -/

section Bits

variable {s t : Pmm} {c : MemChunk} {i cnt : ℕ}

/-- INTERNAL: a change inside one bitmap leaves the count of the others as it is. -/
theorem ChunksOk.countBits_other (hok : ChunksOk s.chunks) (hc : c ∈ s.chunks) (hin : i + cnt ≤ c.pageCnt)
    {m : Memory} (hout : ∀ a, (∀ j, i ≤ j → j < i + cnt → a ≠ c.bitmap + j / 8) → m a = s.mem a)
    {d : MemChunk} (hd : d ∈ s.chunks) (hne : d ≠ c) :
    m.countBits d.bitmap (8 * d.bitmapSize) = s.mem.countBits d.bitmap (8 * d.bitmapSize) := by
  have hap : BitmapsApart d c := hok.bitmaps.forall hd hc hne
  have hsize := hok.bitmapSize c hc
  unfold BitmapsApart at hap
  apply Memory.countBits_congr
  intro j hj
  apply Memory.bit_congr
  apply hout
  intro k _ hk
  omega

/-- INTERNAL: the bits of a window in a chunk lie in its bitmap. -/
theorem ChunksOk.window_le (hok : ChunksOk s.chunks) (hc : c ∈ s.chunks) (hin : i + cnt ≤ c.pageCnt) :
    i + cnt ≤ 8 * c.bitmapSize := by
  have hsize := hok.bitmapSize c hc
  omega

/-- INTERNAL: setting a clear window.
SRCLINE: kernel/mm/pmm.cpp:113-114 -/
theorem ChunksOk.usedBits_setRun (hok : ChunksOk s.chunks) (hc : c ∈ s.chunks) (hcnt : 1 ≤ cnt)
    (hin : i + cnt ≤ c.pageCnt)
    (hclear : ∀ j, i ≤ j → j < i + cnt → bmTest s.mem c.bitmap j = false)
    (hchunks : t.chunks = s.chunks) (hmem : t.mem = s.mem.setRun c.bitmap i cnt) :
    usedBits t = usedBits s + cnt := by
  unfold usedBits
  rw [hchunks, hmem]
  apply sum_change hok.pages hc (by omega)
  · intro d hd hne
    exact hok.countBits_other hc hin (fun a ha => Memory.setRun_apply_of_outside _ ha) hd hne
  · apply Memory.countBits_setRun (hok.window_le hc hin)
    intro j hj hj'
    rw [← bmTest_eq]
    exact hclear j hj hj'

/-- INTERNAL: clearing a set window.
SRCLINE: kernel/mm/pmm.cpp:128-131 -/
theorem HeldPages.usedBits_clearRun {base : ℕ} (h : HeldPages s c i base cnt)
    (hok : ChunksOk s.chunks) (hcnt : 1 ≤ cnt) (hchunks : t.chunks = s.chunks)
    (hmem : t.mem = s.mem.clearRun c.bitmap i cnt) : usedBits t + cnt = usedBits s := by
  have hin := h.inside
  unfold usedBits
  rw [hchunks, hmem]
  refine (sum_change hok.pages h.mem (by omega) ?_ ?_).symm
  · intro d hd hne
    exact (hok.countBits_other h.mem hin
      (fun a ha => Memory.clearRun_apply_of_outside _ ha) hd hne).symm
  · refine (Memory.countBits_clearRun (hok.window_le h.mem hin) ?_).symm
    intro j hj hj'
    rw [← bmTest_eq]
    exact h.set j hj hj'

end Bits

/-! ## The calls -/

section Calls

variable {s t : Pmm} {cnt align a : ℕ}

/-- INTERNAL: a chunk never finds no pages at all: the inner loop has no round.
SRCLINE: kernel/mm/pmm.cpp:106 -/
theorem allocLoop_zero (m : Memory) (c : MemChunk) (align fuel i allocBase : ℕ) :
    allocLoop m c 0 align fuel i allocBase = none := by
  induction fuel generalizing i allocBase with
  | zero => rfl
  | succ fuel ih =>
    have hnone : wrap (i + 0) - i = 0 := by
      unfold wrap
      omega
    rw [allocLoop, hnone, scanWindow]
    by_cases hi : i < c.pageCnt
    · rw [if_pos hi]
      exact ih _ _
    · rw [if_neg hi]

/-- INTERNAL: an allocation of no pages fails and changes nothing. -/
theorem alloc_zero (h : s.alloc 0 align = some (t, a)) : t = s ∧ a = minusOne := by
  have hfrom : ∀ rest : List MemChunk, Pmm.allocFrom 0 align rest s = some (t, a) →
      t = s ∧ a = minusOne := by
    intro rest
    induction rest with
    | nil =>
      intro h
      simp only [Pmm.allocFrom, Option.some.injEq, Prod.mk.injEq] at h
      exact ⟨h.1.symm, h.2.symm⟩
    | cons c rest ih =>
      intro h
      rw [Pmm.allocFrom, MemChunk.alloc, allocLoop_zero] at h
      by_cases htrap : wrap (align * pageSize) = 0
      · rw [if_pos htrap] at h
        cases h
      · rw [if_neg htrap] at h
        simp only [if_true] at h
        exact ih h
  unfold Pmm.alloc at h
  split_ifs at h
  exact hfrom _ h

/-- INTERNAL: an alignment of no pages traps.
SRCLINE: kernel/mm/pmm.cpp:102 -/
theorem alloc_align_pos (h : s.alloc cnt align = some (t, a)) : 1 ≤ align := by
  rcases Nat.eq_zero_or_pos align with rfl | hpos
  · unfold Pmm.alloc at h
    split_ifs at h with hnil
    obtain ⟨c, rest, hcons⟩ := List.exists_cons_of_ne_nil hnil
    rw [hcons, Pmm.allocFrom, MemChunk.alloc, if_pos (by rw [Nat.zero_mul]; rfl)] at h
    cases h
  · exact hpos

/-- INTERNAL: every allocation in a tail-safe state fails or takes a window in one chunk.
SRCLINE: kernel/mm/pmm.cpp:141-154 -/
theorem alloc_took (hok : ChunksOk s.chunks) (hcnt : cnt < 2 ^ 64) (halign : align < 2 ^ 64)
    (hsafe : TailSafe s cnt align) (h : s.alloc cnt align = some (t, a)) :
    (t = s ∧ a = minusOne) ∨ 1 ≤ cnt ∧ ∃ c i, TookAt s t c i cnt a ∧
      t.totalUsedMem = wrap (s.totalUsedMem + cnt * pageSize) := by
  rcases Nat.eq_zero_or_pos cnt with rfl | hpos
  · exact Or.inl (alloc_zero h)
  · exact (alloc_cases hok hpos hcnt (alloc_align_pos h) halign hsafe h).imp_right fun h => ⟨hpos, h⟩

/-- INTERNAL: taking a window keeps the accounts.
SRCLINE: kernel/mm/pmm.cpp:111-117 -/
theorem TookAt.accounted {c : MemChunk} {i : ℕ} (htook : TookAt s t c i cnt a) (hok : ChunksOk s.chunks)
    (hacc : Accounted s) (hcnt : 1 ≤ cnt)
    (htotal : t.totalUsedMem = wrap (s.totalUsedMem + cnt * pageSize)) :
    ChunksOk t.chunks ∧ Accounted t := by
  have hokt : ChunksOk t.chunks := by
    rw [htook.chunks]
    exact hok
  have hbits := hok.usedBits_setRun htook.mem hcnt htook.inside htook.free htook.chunks htook.memory
  have hlt := hokt.account_lt
  refine ⟨hokt, ?_⟩
  unfold Accounted at hacc ⊢
  rw [htotal, hacc, hbits]
  rw [hbits] at hlt
  simp only [pageSize] at hlt ⊢
  rw [wrap_of_lt (by omega)]
  omega

/-- INTERNAL: a chunk that takes back no pages changes nothing.
SRCLINE: kernel/mm/pmm.cpp:126-133 -/
theorem chunk_free_zero (htotal : s.totalUsedMem < 2 ^ 64) (c : MemChunk) (base : ℕ) :
    c.free s base 0 = s := by
  have hnone : ∀ i < 2 ^ 64, wrap (i + 0) - i = 0 := by
    intro i hi
    rw [Nat.add_zero, wrap_of_lt hi, Nat.sub_self]
  have hsame : wrap (s.totalUsedMem + (2 ^ 64 - wrap (0 * pageSize))) = s.totalUsedMem := by
    have hzero : wrap (0 * pageSize) = 0 := by decide
    rw [hzero, Nat.sub_zero]
    unfold wrap
    rw [Nat.add_mod_right, Nat.mod_eq_of_lt htotal]
  unfold MemChunk.free
  simp only [hnone _ (ofSigned_lt _), hsame, Memory.clearRun]

/-- INTERNAL: the return of no pages changes nothing, whichever chunk takes it. -/
theorem free_zero {base : ℕ} (htotal : s.totalUsedMem < 2 ^ 64) (h : s.free base 0 = some t) : t = s := by
  unfold Pmm.free at h
  split_ifs at h
  cases hfind : s.chunks.find? fun c => c.holds base 0 with
  | none =>
    rw [hfind] at h
    exact (Option.some.inj h).symm
  | some d =>
    rw [hfind] at h
    have hfree : d.free s (base - d.base) 0 = t := Option.some.inj h
    rw [← hfree]
    exact chunk_free_zero htotal d _

/-- INTERNAL: the return of allocated pages takes them from the accounts.
SRCLINE: kernel/mm/pmm.cpp:126-133, 162-170 -/
theorem HeldPages.accounted {c : MemChunk} {i base : ℕ} (hheld : HeldPages s c i base cnt)
    (hok : ChunksOk s.chunks) (hacc : Accounted s) (h : s.free base cnt = some t) :
    ChunksOk t.chunks ∧ Accounted t ∧ cnt * pageSize ≤ s.totalUsedMem ∧
      t.totalUsedMem = s.totalUsedMem - cnt * pageSize := by
  have hlt := hok.account_lt
  unfold Accounted at hacc
  rcases Nat.eq_zero_or_pos cnt with rfl | hpos
  · obtain rfl := free_zero (by omega) h
    exact ⟨hok, hacc, by omega, by omega⟩
  · obtain ⟨hc, haddr, hin, hset⟩ := id hheld
    have hocc : Occupies s.mem ⟨base, cnt⟩ c i := ⟨haddr, hpos, hin, hset⟩
    obtain ⟨hchunks, hmem, htotal⟩ := free_eq hok hc hocc h
    have hbits := hheld.usedBits_clearRun hok hpos hchunks hmem
    have hle : cnt * pageSize ≤ s.totalUsedMem := by
      rw [hacc, ← hbits]
      simp only [pageSize]
      omega
    have hsub : t.totalUsedMem = s.totalUsedMem - cnt * pageSize := by
      rw [htotal]
      simp only [wrap, pageSize] at *
      omega
    refine ⟨by rwa [hchunks], ?_, hle, hsub⟩
    unfold Accounted
    rw [hsub, hacc, ← hbits]
    simp only [pageSize]
    omega

/-- INTERNAL: the return of a window that has just been taken gives the state before.
SRCLINE: kernel/mm/pmm.cpp:99-133, 162-170 -/
theorem TookAt.free_eq_self {c : MemChunk} {i : ℕ} (htook : TookAt s t c i cnt a)
    (hok : ChunksOk s.chunks) (htotal : s.totalUsedMem < 2 ^ 64) (hcnt : 1 ≤ cnt)
    (hused : t.totalUsedMem = wrap (s.totalUsedMem + cnt * pageSize)) : t.free a cnt = some s := by
  have hokt : ChunksOk t.chunks := by
    rw [htook.chunks]
    exact hok
  have hc : c ∈ t.chunks := by
    rw [htook.chunks]
    exact htook.mem
  have hclear : ∀ j, i ≤ j → j < i + cnt → s.mem.bit c.bitmap j = false := by
    intro j hj hj'
    rw [← bmTest_eq]
    exact htook.free j hj hj'
  have hocc : Occupies t.mem ⟨a, cnt⟩ c i := by
    refine ⟨htook.address, hcnt, htook.inside, fun j hj hj' => ?_⟩
    simp only at hj'
    rw [bmTest_eq, htook.memory, Memory.bit_setRun, decide_eq_true ⟨hj, hj'⟩, Bool.true_or]
  obtain ⟨u, hu⟩ : ∃ u, t.free a cnt = some u := by
    unfold Pmm.free
    rw [if_neg (List.ne_nil_of_mem hc)]
    cases t.chunks.find? fun c => c.holds a cnt with
    | none => exact ⟨_, rfl⟩
    | some d => exact ⟨_, rfl⟩
  obtain ⟨hchunks, hmem, hfreed⟩ := free_eq hokt hc hocc hu
  rw [hu]
  congr 1
  have hmem' : u.mem = s.mem := by
    rw [hmem, htook.memory]
    exact Memory.clearRun_setRun hclear
  have htotal' : u.totalUsedMem = s.totalUsedMem := by
    rw [hfreed, hused]
    simp only [wrap, pageSize] at *
    omega
  cases u
  cases s
  simp only [Pmm.mk.injEq] at *
  exact ⟨hmem', hchunks.trans htook.chunks, htotal'⟩

end Calls

/-! ## Runs -/

section Runs

variable {s t : Pmm}

/-- INTERNAL: every call keeps the accounts. -/
theorem PmmUse.accounted {call : PmmCall} (h : ChunksOk s.chunks ∧ Accounted s)
    (hstep : Guarded UseOk PmmUse s call t) : ChunksOk t.chunks ∧ Accounted t := by
  obtain ⟨hok, hacc⟩ := h
  obtain ⟨hsafe, hstep⟩ := hstep
  cases hstep with
  | alloc hcnt halign halloc =>
    rcases alloc_took hok hcnt halign hsafe halloc with ⟨rfl, -⟩ | ⟨hpos, c, i, htook, htotal⟩
    · exact ⟨hok, hacc⟩
    · exact htook.accounted hok hacc hpos htotal
  | free hheld hfree =>
    obtain ⟨hokt, hacct, -⟩ := hheld.accounted hok hacc hfree
    exact ⟨hokt, hacct⟩

/-- **The accounts of the allocator.** In every run whose allocations find a tail-safe state,
`total_used_mem` is a page for every set bit, a return takes no more than there is, and the return of what
an allocation has just handed out gives the state before it.
SRCLINE: kernel/mm/pmm.cpp:99-133, 162-170 -/
theorem accounted_of_tailSafe {calls : List PmmCall} (hok : ChunksOk s.chunks) (hacc : Accounted s)
    (hrun : Run (Guarded UseOk PmmUse) s calls t) :
    Accounted t ∧
      (∀ base cnt u, PmmUse t (.free base cnt) u → cnt * pageSize ≤ t.totalUsedMem ∧
        u.totalUsedMem = t.totalUsedMem - cnt * pageSize) ∧
      ∀ cnt align u a, cnt < 2 ^ 64 → align < 2 ^ 64 → TailSafe t cnt align →
        t.alloc cnt align = some (u, a) → a ≠ minusOne → u.free a cnt = some t := by
  obtain ⟨hokt, hacct⟩ := hrun.invariant (fun s => ChunksOk s.chunks ∧ Accounted s)
    (fun _ _ _ h hstep => PmmUse.accounted h hstep) ⟨hok, hacc⟩
  refine ⟨hacct, ?_, ?_⟩
  · intro base cnt u huse
    cases huse with
    | free hheld hfree => exact (hheld.accounted hokt hacct hfree).2.2
  · intro cnt align u a hcnt halign hsafe halloc hne
    have hlt := hokt.account_lt
    unfold Accounted at hacct
    rcases alloc_took hokt hcnt halign hsafe halloc with ⟨-, heq⟩ | ⟨hpos, c, i, htook, htotal⟩
    · exact absurd heq hne
    · exact htook.free_eq_self hokt (by omega) hpos htotal

end Runs

/-- INTERNAL: nothing is allocated in `onePage`. -/
theorem onePage_accounted : Accounted onePage := by
  unfold Accounted
  decide

/-- The page of `onePage` is handed out and returned. -/
theorem accounted_onePage : ∃ t, Run (Guarded UseOk PmmUse) onePage [.alloc 1 1] t ∧
    t.totalUsedMem = 0x1000 ∧ Accounted t := by
  have halloc : onePage.alloc 1 1 = some (_, 0x1000) := rfl
  have hstep : Guarded UseOk PmmUse onePage (.alloc 1 1) _ :=
    ⟨tailSafe_one onePage 1, PmmUse.alloc (by decide) (by decide) halloc⟩
  have hrun := Run.single hstep
  exact ⟨_, hrun, rfl, (accounted_of_tailSafe onePage_chunksOk onePage_accounted hrun).1⟩

/-- Nine pages are handed out of a chunk with one byte of bitmap: they are counted, but only eight of their
bits are in the bitmap.
SRCLINE: kernel/mm/pmm.cpp:105-117 -/
theorem alloc_overcounts : ChunksOk onePage.chunks ∧ Accounted onePage ∧
    ∃ t, Run PmmUse onePage [.alloc 9 1] t ∧ ¬ Accounted t := by
  have halloc : onePage.alloc 9 1 = some (_, 0x1000) := rfl
  refine ⟨onePage_chunksOk, onePage_accounted, _,
    Run.single (PmmUse.alloc (by decide) (by decide) halloc), ?_⟩
  unfold Accounted
  decide

end CrepOS.Analysis
