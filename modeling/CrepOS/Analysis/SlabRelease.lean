import CrepOS.Analysis.SlabExclusive

/-!
# What `kmm::free` answers

`kmm::free` takes the return value `-1` of `cache::free_obj` for success. So it does what its callers
expect only for an object in the first partial or the first full slab of the first cache, and only if
the second cache has the same object size (`free_correct_iff`).
-/

set_option autoImplicit false

namespace CrepOS.Analysis

open CrepOS.Library CrepOS.Model CrepOS.Interface

/-- `kmm::free` of the object `o` returns its size, clears its bit and keeps all other bits. -/
def FreesExactly (st : HeapState) (o : Object) : Prop :=
  ∃ h', free st.heap o.addr = some (h', o.size) ∧ ∃ s ∈ st.slabs, ∃ i, IsSlot st.heap o s i ∧
    ∀ t ∈ st.slabs, ∀ j < 256, h'.mem.bit (st.heap.slabs t).bitmap j =
      (decide (¬ (t = s ∧ j = i)) && st.heap.mem.bit (st.heap.slabs t).bitmap j)

/-- The object is in the first partial or the first full slab of the first cache, and the second
cache has the same object size. -/
def InFirstCache (h : Heap) (p : ℕ) : Prop :=
  (∃ s, IsHead h h.cacheRoot s ∧ InBuffer h s p) ∧
    (h.caches h.cacheRoot).next ≠ 0 ∧
    (h.caches (h.caches h.cacheRoot).next).objectSize = (h.caches h.cacheRoot).objectSize

section Release

variable {st : HeapState}

theorem freesExactly_iff (hinv : StateInv st) {o : Object} (ho : o ∈ st.live) :
    FreesExactly st o ↔ InFirstCache st.heap o.addr := by
  obtain ⟨s, hs, i, hslot, hbit, hcases⟩ := free_live hinv ho
  have hl := hinv.layout
  have hok := hl.slab s hs
  obtain ⟨hin, -⟩ := hslot.inBuffer hl hs
  have hpos := hslot.size_pos hl hs
  constructor
  · rintro ⟨h', hfree, t, ht, j, hslot', hbits⟩
    obtain ⟨rfl, rfl⟩ := hslot.unique hl hs ht hslot' (by omega) (by omega)
    rcases hcases with ⟨hkeep, -⟩ | ⟨hhead, hpar, hclear⟩
    · -- the bit is still set
      rw [hkeep] at hfree
      obtain ⟨rfl, -⟩ := Prod.mk.inj (Option.some.inj hfree)
      have hsame := hbits s hs i hslot.1
      rw [hok.bitmap, hbit] at hsame
      simp at hsame
    · rw [hclear] at hfree
      have hsize := (Prod.mk.inj (Option.some.inj hfree)).2
      by_cases hnext : (st.heap.caches st.heap.cacheRoot).next = 0
      · rw [if_pos hnext] at hsize
        omega
      · rw [if_neg hnext] at hsize
        refine ⟨⟨s, hhead, hin⟩, hnext, ?_⟩
        rw [hsize, hslot.2.1, hpar]
  · rintro ⟨⟨t, hthead, htin⟩, hnext, hsize⟩
    rcases hcases with ⟨-, hnot⟩ | ⟨hhead, hpar, hclear⟩
    · have hroot := hl.root_mem (List.ne_nil_of_mem hok.parent)
      obtain ⟨ht, -⟩ := hinv.head_mem hroot hthead
      obtain rfl : s = t := hl.inBuffer_unique hs ht hin htin
      exact absurd hthead hnot
    · refine ⟨clearSlot st.heap s i, ?_, s, hs, i, hslot, ?_⟩
      · rw [hclear, if_neg hnext, hsize, hslot.2.1, hpar]
      · intro t ht j hj
        rw [(hl.slab t ht).bitmap]
        exact hl.bit_clearBit hs hslot.1 ht hj

/-- A pointer to no object: `kmm::free` answers with the object size of the first cache. -/
theorem free_foreign_iff (hinv : StateInv st) {p : ℕ}
    (hp : ∀ s ∈ st.slabs, ¬ InBuffer st.heap s p) :
    free st.heap p = some (st.heap, 0) ↔ p = 0 := by
  constructor
  · intro hfree
    by_contra hne
    cases hcs : st.caches with
    | nil =>
      have hroot : st.heap.cacheRoot = 0 := by
        have hchain := hinv.layout.chain
        rw [hcs] at hchain
        exact hchain
      rw [free, if_neg hne, if_pos hroot] at hfree
      cases hfree
    | cons c rest =>
      have hinv' : HeapInv st.heap st.slabs (c :: rest) st.live := hcs ▸ hinv
      rcases free_spec hinv' hne with ⟨hkeep, -⟩ | ⟨s, hhead, hin, -⟩
      · rw [hkeep] at hfree
        have hsize := (Prod.mk.inj (Option.some.inj hfree)).2
        have hpos := (hinv'.layout.sizes c List.mem_cons_self).1
        omega
      · exact hp s (hinv'.head_mem List.mem_cons_self hhead).1 hin
  · rintro rfl
    rfl

end Release

/-- **When `kmm::free` is correct.** In every state that a run reaches, it is on a live object exactly
when that is in the first partial or full slab of the first cache and the second cache has the same
object size, and on a pointer to no object exactly when that is `NULL`. -/
theorem free_correct_iff {st st' : HeapState} {ops : List HeapOp} (hinit : st.Initial)
    (hrun : Run heapStep st ops st') :
    (∀ o ∈ st'.live, FreesExactly st' o ↔ InFirstCache st'.heap o.addr) ∧
      ∀ p, (∀ s ∈ st'.slabs, ¬ InBuffer st'.heap s p) →
        (free st'.heap p = some (st'.heap, 0) ↔ p = 0) :=
  have hinv := heapRun_inv hinit hrun
  ⟨fun _ ho => freesExactly_iff hinv ho, fun _ hp => free_foreign_iff hinv hp⟩

/-- Two caches for objects of 32 bytes and an object of the first one. -/
def twinCalls : List HeapOp :=
  [.newCache cleared 32 0x100000, .newCache cleared 32 0x200000, .alloc 20 0x300000]

theorem free_correct_iff_twinCalls : ∃ st, Run heapStep emptyHeap twinCalls st ∧
    st.live = [⟨0x1000a8, 32⟩] ∧ FreesExactly st ⟨0x1000a8, 32⟩ := by
  have hcalls : (twinCalls.foldlM
      (fun st op => if op.Allowed st ∧ op.Sound then st.exec op else none) emptyHeap).map
      (fun st => decide (st.live = [⟨0x1000a8, 32⟩] ∧
        IsHead st.heap st.heap.cacheRoot 0x100000 ∧ InBuffer st.heap 0x100000 0x1000a8 ∧
        (st.heap.caches st.heap.cacheRoot).next ≠ 0 ∧
        (st.heap.caches (st.heap.caches st.heap.cacheRoot).next).objectSize =
          (st.heap.caches st.heap.cacheRoot).objectSize)) = some true := by
    decide
  obtain ⟨st, hst, hfacts⟩ := Option.map_eq_some_iff.mp hcalls
  obtain ⟨hlive, hhead, hin, hrest⟩ := of_decide_eq_true hfacts
  have hrun : Run heapStep emptyHeap twinCalls st := Run.of_guarded hst
  refine ⟨st, hrun, hlive, ?_⟩
  refine ((free_correct_iff ⟨rfl, rfl, rfl, rfl, rfl, rfl⟩ hrun).1 _ ?_).mpr ⟨⟨_, hhead, hin⟩, hrest⟩
  rw [hlive]
  exact List.mem_cons_self

/-- Caches for objects of 32 and of 64 bytes and an object of each. -/
def mixedCalls : List HeapOp :=
  [.newCache cleared 32 0x100000, .newCache cleared 64 0x200000, .alloc 20 0x300000,
    .alloc 60 0x300000]

/-- The object of the first cache is freed with the answer 64, the bit of the other one stays, and a
pointer to no object gives the answer 32. -/
theorem free_wrong_answers : ∃ st, Run heapStep emptyHeap mixedCalls st ∧
    st.live = [⟨0x2000a8, 64⟩, ⟨0x1000a8, 32⟩] ∧
    ¬ FreesExactly st ⟨0x1000a8, 32⟩ ∧ ¬ FreesExactly st ⟨0x2000a8, 64⟩ ∧
    (∀ s ∈ st.slabs, ¬ InBuffer st.heap s 0x5000) ∧
    free st.heap 0x5000 ≠ some (st.heap, 0) := by
  have hcalls : (mixedCalls.foldlM
      (fun st op => if op.Allowed st ∧ op.Sound then st.exec op else none) emptyHeap).map
      (fun st => decide (st.live = [⟨0x2000a8, 64⟩, ⟨0x1000a8, 32⟩] ∧
        (free st.heap 0x1000a8).map Prod.snd = some 64 ∧
        (free st.heap 0x2000a8).map Prod.snd = some 32 ∧
        (∀ s ∈ st.slabs, ¬ InBuffer st.heap s 0x5000) ∧
        (free st.heap 0x5000).map Prod.snd = some 32)) = some true := by
    decide +kernel
  obtain ⟨st, hst, hfacts⟩ := Option.map_eq_some_iff.mp hcalls
  obtain ⟨hlive, h32, h64, hout, hnone⟩ := of_decide_eq_true hfacts
  refine ⟨st, Run.of_guarded hst, hlive, ?_, ?_, hout, ?_⟩
  · rintro ⟨h', hfree, -⟩
    rw [hfree] at h32
    simp at h32
  · rintro ⟨h', hfree, -⟩
    rw [hfree] at h64
    simp at h64
  · intro hfree
    rw [hfree] at hnone
    simp at hnone

end CrepOS.Analysis
