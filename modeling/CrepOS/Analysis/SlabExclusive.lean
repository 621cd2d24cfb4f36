import CrepOS.Analysis.SlabFree

/-!
# Objects of the kernel heap do not overlap

In every run whose caches are constructed in memory that holds `NULL` for the list heads and for
`next`, and whose slab sizes do not overflow, the live objects share no byte, each lies in the pages
of its slab, behind the header and the bitmap and apart from the embedded cache structures, and the
next call returns (`slab_objects_apart`). The constructor does not initialise these members
(`stale_cache_overlaps`).
-/

set_option autoImplicit false

namespace CrepOS.Analysis

open CrepOS.Library CrepOS.Model CrepOS.Interface

/-- The invariant of a state. -/
def StateInv (st : HeapState) : Prop := HeapInv st.heap st.slabs st.caches st.live

theorem initial_inv {st : HeapState} (h : st.Initial) : StateInv st := by
  obtain ⟨hroot, hslabs, hcaches, hss, hcs, hlive⟩ := h
  rw [StateInv, hss, hcs, hlive]
  exact ⟨⟨hroot, List.nodup_nil, hcaches, List.nodup_nil, hslabs, nofun, nofun, nofun, nofun⟩,
    nofun, nofun, nofun, List.Pairwise.nil⟩

section Steps

variable {st : HeapState}

theorem exec_newCache_inv (hinv : StateInv st) {storage : Cache} {objectSize page : ℕ}
    (hallowed : HeapOp.Allowed st (.newCache storage objectSize page))
    (hsound : HeapOp.Sound (.newCache storage objectSize page)) :
    ∃ st', st.exec (.newCache storage objectSize page) = some st' ∧ StateInv st' := by
  obtain ⟨hsize, -, hfresh⟩ := hallowed
  obtain ⟨h', heq, hinv'⟩ := newCache_spec hinv hsize hfresh hsound
  refine ⟨⟨h', st.slabs ++ [page], st.caches ++ [(h'.slabs page).parent], st.live⟩, ?_, hinv'⟩
  rw [HeapState.exec, heq]

theorem exec_alloc_inv (hinv : StateInv st) {size page : ℕ}
    (hallowed : HeapOp.Allowed st (.alloc size page)) :
    ∃ st', st.exec (.alloc size page) = some st' ∧ StateInv st' := by
  obtain ⟨hcs, hfresh⟩ := hallowed
  by_cases hsize : size = 0
  · refine ⟨st, ?_, hinv⟩
    simp [HeapState.exec, alloc, hsize]
  have hcache := cacheFor_eq hinv.layout hcs size
  cases hfind : st.caches.find? fun c => (st.heap.caches c).objectSize = roundSize size with
  | none =>
    rw [hfind] at hcache
    refine ⟨st, ?_, hinv⟩
    simp [HeapState.exec, alloc, hsize, hcache]
  | some c =>
    rw [hfind] at hcache
    have hc : c ∈ st.caches := List.mem_of_find?_eq_some hfind
    have hround : (st.heap.caches c).objectSize = roundSize size := by
      simpa using List.find?_some hfind
    obtain ⟨g, ss', s, i, h', hprep, hinv', -, hpar, hos, htaken, ⟨hlists, -⟩, hobj⟩ :=
      allocObj_spec hinv hc (hfresh c hcache)
    -- the object that the call makes
    have hslot : IsSlot g ⟨(g.slabs s).buf + i * roundSize size, roundSize size⟩ s i := by
      refine ⟨htaken.index, ?_, rfl⟩
      rw [hpar, hos, hround]
    have haddr : (g.slabs s).buf + i * roundSize size ≠ 0 := by
      have hlow := (hinv'.layout.slab s htaken.slab).low
      omega
    have hslabs : (if h'.slabCnt = st.heap.slabCnt then st.slabs else st.slabs ++ [page]) = ss' := by
      rw [htaken.slabCnt]
      rcases hprep with ⟨rfl, rfl⟩ | ⟨rfl, rfl⟩
      · exact if_pos rfl
      · exact if_neg (Nat.succ_ne_self _)
    refine ⟨⟨h', ss', st.caches, ⟨(g.slabs s).buf + i * roundSize size, roundSize size⟩ :: st.live⟩,
      ?_, hinv'.take htaken hlists hslot⟩
    rw [hround] at hobj
    simp only [HeapState.exec, alloc, hsize, hcache, hobj, hslabs, haddr, if_false]

theorem exec_free_inv (hinv : StateInv st) {addr : ℕ}
    (hallowed : HeapOp.Allowed st (.free addr)) :
    ∃ st', st.exec (.free addr) = some st' ∧ StateInv st' := by
  obtain ⟨o, ho, rfl⟩ := hallowed
  obtain ⟨s, hs, i, hslot, -, ⟨hfree, -⟩ | ⟨-, -, hfree⟩⟩ := free_live hinv ho
  · refine ⟨⟨st.heap, st.slabs, st.caches, st.live.filter (·.addr ≠ o.addr)⟩, ?_,
      hinv.release hs hslot (Or.inl rfl)⟩
    rw [HeapState.exec, hfree]
  · refine ⟨⟨clearSlot st.heap s i, st.slabs, st.caches, st.live.filter (·.addr ≠ o.addr)⟩, ?_,
      hinv.release hs hslot (Or.inr rfl)⟩
    rw [HeapState.exec, hfree]

theorem exec_write_inv (hinv : StateInv st) {addr : ℕ} {data : Byte}
    (hallowed : HeapOp.Allowed st (.write addr data)) :
    ∃ st', st.exec (.write addr data) = some st' ∧ StateInv st' := by
  obtain ⟨o, ho, hlow, hhigh⟩ := hallowed
  obtain ⟨s, hs, i, hslot, -⟩ := hinv.slots o ho
  refine ⟨_, rfl, hinv.withMem ?_⟩
  intro t ht j hj
  have hout := hslot.not_bitmap hinv.layout hs hlow hhigh ht
  apply Memory.bit_congr
  exact Function.update_of_ne (by omega) _ _

/-- A call that is allowed and meets the condition returns and keeps the invariant. -/
theorem exec_inv (hinv : StateInv st) {op : HeapOp} (hallowed : op.Allowed st)
    (hsound : op.Sound) : ∃ st', st.exec op = some st' ∧ StateInv st' := by
  cases op with
  | newCache storage objectSize page => exact exec_newCache_inv hinv hallowed hsound
  | alloc size page => exact exec_alloc_inv hinv hallowed
  | free addr => exact exec_free_inv hinv hallowed
  | write addr data => exact exec_write_inv hinv hallowed

end Steps

/-- Every reachable state satisfies the invariant. -/
theorem heapRun_inv {st st' : HeapState} {ops : List HeapOp} (hinit : st.Initial)
    (hrun : Run heapStep st ops st') : StateInv st' := by
  refine hrun.invariant StateInv ?_ (initial_inv hinit)
  rintro s op t hinv ⟨⟨hallowed, hsound⟩, hexec⟩
  obtain ⟨t', ht', hinv'⟩ := exec_inv hinv hallowed hsound
  rw [hexec] at ht'
  rw [Option.some.inj ht']
  exact hinv'

/-- **Live objects do not overlap.** After every run whose calls meet the condition, the live objects
share no byte, each lies in the pages of a slab of its cache, behind the header and the bitmap and
apart from every cache structure, and every further such call returns. -/
theorem slab_objects_apart {st st' : HeapState} {ops : List HeapOp} (hinit : st.Initial)
    (hrun : Run heapStep st ops st') :
    st'.live.Pairwise Object.Apart ∧
    (∀ o ∈ st'.live, ∃ s ∈ st'.slabs,
      o.size = (st'.heap.caches (st'.heap.slabs s).parent).objectSize ∧
      s + slabSize ≤ o.addr ∧ (st'.heap.slabs s).bitmap + objectsPerSlab / 8 ≤ o.addr ∧
      o.addr + o.size ≤ s + slabBytes st'.heap s ∧
      ∀ c ∈ st'.caches, c + cacheSize ≤ o.addr ∨ o.addr + o.size ≤ c) ∧
    ∀ op : HeapOp, op.Allowed st' → op.Sound → ∃ st'', heapStep st' op st'' := by
  have hinv := heapRun_inv hinit hrun
  have hl := hinv.layout
  refine ⟨hinv.apart, ?_, ?_⟩
  · intro o ho
    obtain ⟨s, hs, i, hslot, -⟩ := hinv.slots o ho
    have hok := hl.slab s hs
    have hlow := hok.low
    obtain ⟨hbuf, -, hend⟩ := hslot.bounds hok
    refine ⟨s, hs, hslot.2.1, ?_, ?_, hend, ?_⟩
    · simp only [slabSize]
      omega
    · rw [hok.bitmap]
      simp only [objectsPerSlab]
      omega
    · intro c hc
      by_cases hin : s ≤ c ∧ c < s + slabBytes st'.heap s
      · have hbelow := hl.cache_below_buf hc hs hin.1 hin.2
        left
        simp only [cacheSize]
        omega
      · obtain ⟨t, ht, -, htlow, hthigh⟩ := hl.embedded c hc
        have htfits := (hl.slab t ht).fits
        have hne : s ≠ t := by
          rintro rfl
          omega
        simp only [cacheSize]
        rcases hl.apart s hs t ht hne with hap | hap <;> omega
  · intro op hallowed hsound
    obtain ⟨st'', hexec, -⟩ := exec_inv hinv hallowed hsound
    exact ⟨st'', ⟨hallowed, hsound⟩, hexec⟩

/-- A heap before the first cache is made. -/
def emptyHeap : HeapState where
  heap :=
    { mem := fun _ => 0xff
      slabs := fun _ => ⟨0, 0, 0, 0, 0, 0⟩
      caches := fun _ => ⟨0, 0, 0, 0, 0, 0, 0⟩
      cacheRoot := 0
      slabCnt := 0
      cacheCnt := 0 }
  slabs := []
  caches := []
  live := []

/-- Memory that holds `NULL`s. -/
def cleared : Cache := ⟨0, 0, 0, 0, 0, 0, 0⟩

/-- Two caches, three objects, one of them freed. -/
def usualCalls : List HeapOp :=
  [.newCache cleared 32 0x100000, .newCache cleared 64 0x200000, .alloc 20 0x300000,
    .alloc 60 0x300000, .free 0x1000a8, .alloc 32 0x300000]

theorem slab_objects_apart_usualCalls : emptyHeap.Initial ∧ ∃ st,
    Run heapStep emptyHeap usualCalls st ∧ st.live = [⟨0x1000a8, 32⟩, ⟨0x2000a8, 64⟩] ∧
      st.live.Pairwise Object.Apart := by
  have hinit : emptyHeap.Initial := ⟨rfl, rfl, rfl, rfl, rfl, rfl⟩
  have hcalls : (usualCalls.foldlM
      (fun st op => if op.Allowed st ∧ op.Sound then st.exec op else none) emptyHeap).map
      HeapState.live = some [⟨0x1000a8, 32⟩, ⟨0x2000a8, 64⟩] := by
    decide +kernel
  obtain ⟨st, hst, hlive⟩ := Option.map_eq_some_iff.mp hcalls
  have hrun : Run heapStep emptyHeap usualCalls st := Run.of_guarded hst
  exact ⟨hinit, st, hrun, hlive, (slab_objects_apart hinit hrun).1⟩

/-- The second cache is constructed where the first one was: its `slab_empty` is still the slab of the
first cache, and two of its objects are 64 bytes apart. -/
def staleCalls : List HeapOp :=
  [.newCache cleared 64 0x100000, .newCache ⟨64, 5, 0x100000, 0, 0, 0, 0⟩ 128 0x200000,
    .alloc 128 0x300000, .alloc 128 0x300000]

theorem stale_cache_overlaps : emptyHeap.Initial ∧ ∃ st,
    Run (Guarded (fun st op => HeapOp.Allowed st op) fun st op st' => st.exec op = some st')
      emptyHeap staleCalls st ∧
    st.live = [⟨0x1000e8, 128⟩, ⟨0x1000a8, 128⟩] ∧ ¬ st.live.Pairwise Object.Apart := by
  have hcalls : (staleCalls.foldlM
      (fun st op => if HeapOp.Allowed st op then st.exec op else none) emptyHeap).map
      HeapState.live = some [⟨0x1000e8, 128⟩, ⟨0x1000a8, 128⟩] := by
    decide
  obtain ⟨st, hst, hlive⟩ := Option.map_eq_some_iff.mp hcalls
  refine ⟨⟨rfl, rfl, rfl, rfl, rfl, rfl⟩, st, Run.of_guarded hst, hlive, ?_⟩
  rw [hlive]
  simp [Object.Apart]

end CrepOS.Analysis
