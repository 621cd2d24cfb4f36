import CrepOS.Library.BitCount
import CrepOS.Analysis.SlabLists

/-!
# Counters, bitmaps and lists of a cache

As long as `free_obj` clears no set bit, the counter of every slab is the number of its clear bits, and
its list is the one of that number (`cache_counts_of_keeps`). `free_obj` does not count the object that it
frees, as `slab::free` does, and moves no slab back: after the first effective call the counter is too
small (`free_not_counted`).
-/

set_option autoImplicit false

namespace CrepOS.Analysis

open CrepOS.Library CrepOS.Model CrepOS.Interface

/-- A call of `free_obj` finds no set bit in the first partial and in the first full slab. -/
def FreeKeeps (st : HeapState) : CacheOp → Prop
  | .freeObj c obj => ∀ s ∈ [(st.heap.caches c).slabPartial, (st.heap.caches c).slabFull], s ≠ 0 →
    InBuffer st.heap s obj →
      bmTest st.heap.mem (st.heap.slabs s).bitmap (slotIndex st.heap s obj) = false
  | _ => True

instance FreeKeeps.decidable (st : HeapState) (op : CacheOp) : Decidable (FreeKeeps st op) :=
  match op with
  | .newCache _ _ _ => .isTrue trivial
  | .allocObj _ _ => .isTrue trivial
  | .freeObj c obj => inferInstanceAs (Decidable
    (∀ s ∈ [(st.heap.caches c).slabPartial, (st.heap.caches c).slabFull], s ≠ 0 →
      InBuffer st.heap s obj →
        bmTest st.heap.mem (st.heap.slabs s).bitmap (slotIndex st.heap s obj) = false))

/-- The counters are exact. -/
def Exact (h : Heap) (ss : List ℕ) : Prop :=
  ∀ s ∈ ss, (setBits h.mem s).card + (h.slabs s).availableObjects = 256

section Exact

variable {h h' : Heap} {ss cs : List ℕ} {live : List Object} {c s i page : ℕ}

/-- INTERNAL: slabs with the same bits and counters. -/
theorem setBits_congr {m m' : Memory} (hbits : ∀ j < 256, m'.bit (s + 48) j = m.bit (s + 48) j) :
    setBits m' s = setBits m s := by
  apply Finset.Subset.antisymm
  · exact setBits_mono fun j hj hbit => by rwa [← hbits j hj]
  · exact setBits_mono fun j hj hbit => by rwa [hbits j hj]

/-- INTERNAL: a new slab has all objects available. -/
theorem exact_grow {n : ℕ} (hinv : HeapInv h ss cs live) (hexact : Exact h ss)
    (hfresh : HeapState.Fresh ⟨h, ss, cs, live⟩ page (n * pageSize)) (hn : 80 ≤ n * pageSize)
    (hslabs : ∀ t ∈ ss, h'.slabs t = h.slabs t) (hmem : h'.mem = zeroPages h.mem page n)
    (hav : (h'.slabs page).availableObjects = 256) : Exact h' (ss ++ [page]) := by
  intro t ht
  rcases List.mem_append.mp ht with ht | ht
  · rw [hslabs t ht, hmem, setBits_congr fun j hj => hinv.bit_zeroPages hfresh ht hj]
    exact hexact t ht
  · rw [List.mem_singleton.mp ht, hmem, setBits_zeroPages h.mem hn, Finset.card_empty, hav]

/-- INTERNAL: the counters are exact before a slot is taken, also in a new slab.
SRCLINE: kernel/mm/slab.cpp:11-30 -/
theorem Prepared.exact {g : Heap} {ss' : List ℕ} (hprep : Prepared h g ss ss' c page)
    (hinv : HeapInv h ss cs live) (hexact : Exact h ss) (hc : c ∈ cs)
    (hfresh : HeapState.Fresh ⟨h, ss, cs, live⟩ page ((h.caches c).pagesPerSlab * pageSize)) :
    Exact g ss' := by
  rcases hprep with ⟨rfl, rfl⟩ | ⟨rfl, rfl⟩
  · exact hexact
  · have hfit := buffer_fits (hinv.layout.sizes c hc).2.1
    rw [← (hinv.layout.sizes c hc).2.2] at hfit
    have hpage : page ∉ ss := hinv.fresh_notMem (by omega) hfresh
    refine exact_grow hinv hexact hfresh (by omega) (fun t ht => addSlab_slabs ?_) rfl ?_
    · rintro rfl
      exact hpage ht
    · simp [addSlab, newSlab]

/-- INTERNAL: a slot that is taken is counted.
SRCLINE: kernel/mm/slab.cpp:131-142 -/
theorem SlotTaken.exact (ht : SlotTaken h h' ss cs s i) (hl : Layout h ss cs) (hexact : Exact h ss) :
    Exact h' ss := by
  intro t hts
  have hold := hexact t hts
  by_cases hne : t = s
  · subst hne
    have hinsert : setBits h'.mem t = insert i (setBits h.mem t) := by
      ext j
      rw [Finset.mem_insert, mem_setBits, mem_setBits, ht.mem, Memory.bit_setBit, Bool.or_eq_true,
        decide_eq_true_eq]
      constructor
      · rintro ⟨hj, rfl | hbit⟩
        · exact Or.inl rfl
        · exact Or.inr ⟨hj, hbit⟩
      · rintro (rfl | ⟨hj, hbit⟩)
        · exact ⟨ht.index, Or.inl rfl⟩
        · exact ⟨hj, Or.inr hbit⟩
    have hnot : i ∉ setBits h.mem t := by
      rw [mem_setBits, ht.clear]
      exact fun hin => Bool.noConfusion hin.2
    have hav := ht.available
    rw [hinsert, Finset.card_insert_of_notMem hnot]
    omega
  · rw [ht.others t hts hne, setBits_congr fun j hj => ?_]
    · exact hold
    · rw [ht.mem]
      exact hl.bit_other ht.slab hts hne (setBit_outside h.mem ht.index) hj

/-- INTERNAL: clearing a bit that is clear changes nothing. -/
theorem clearSlot_of_clear (hclear : h.mem.bit (s + 48) i = false) : clearSlot h s i = h := by
  have hmem : h.mem.clearBit (s + 48) i = h.mem := by
    have hbelow : ∀ a < s + 48, h.mem.clearBit (s + 48) i a = h.mem a := by
      intro a ha
      exact Memory.clearBit_apply_of_ne _ (by omega)
    apply Memory.ext_bits hbelow
    intro j
    rw [Memory.bit_clearBit]
    by_cases hj : j = i
    · rw [hj, hclear, Bool.and_false]
    · rw [decide_eq_true hj, Bool.true_and]
  unfold clearSlot
  rw [hmem]

/-- INTERNAL: the clear bits of a slab are those that are not set. -/
theorem freeObjects_eq (hbitmap : (h.slabs s).bitmap = s + 48) :
    (setBits h.mem s).card + freeObjects h s = 256 := by
  have hsplit := Finset.card_filter_add_card_filter_not (s := Finset.range 256)
    fun i => h.mem.bit (s + 48) i = true
  have hfree : freeObjects h s =
      ((Finset.range 256).filter fun i => ¬ h.mem.bit (s + 48) i = true).card := by
    unfold freeObjects
    rw [hbitmap]
    congr 1
    apply Finset.filter_congr
    intro i _
    rw [bmTest_eq, Bool.not_eq_true]
  rw [hfree]
  rw [Finset.card_range] at hsplit
  exact hsplit

/-- INTERNAL: a new slab is made only if there is neither a partial nor an empty one.
SRCLINE: kernel/mm/slab.cpp:57-66 -/
theorem HeapInv.request (hinv : HeapInv h ss cs live) (hc : c ∈ cs) {p : ℕ}
    (halloc : allocObj h c page = some (h', p)) (hcnt : h'.slabCnt ≠ h.slabCnt) :
    (h.caches c).slabPartial = 0 ∧ (h.caches c).slabEmpty = 0 := by
  have hpart : (h.caches c).slabPartial = 0 := by
    by_contra hne
    obtain ⟨i, g, hobj, htaken, -⟩ := allocObj_partial hinv hc hne rfl page
    rw [hobj] at halloc
    cases halloc
    exact hcnt htaken.slabCnt
  refine ⟨hpart, ?_⟩
  by_contra hne
  obtain ⟨i, g, hobj, htaken, -⟩ := allocObj_empty hinv hc hne hpart rfl page
  rw [hobj] at halloc
  cases halloc
  exact hcnt htaken.slabCnt

/-- INTERNAL: a slab on a list whose head is `NULL`. -/
theorem not_onList_nil {which : SlabList} (hhead : (h.caches c).head which = 0) :
    ¬ OnList h c which s := by
  rintro ⟨l, hchain, hin⟩
  have hnil : l = [] := hchain.unique hhead
  rw [hnil] at hin
  exact List.not_mem_nil hin

/-- **Exact counters give exact lists.** -/
theorem HeapInv.cacheCounts (hinv : HeapInv h ss cs live) (hexact : Exact h ss) (hc : c ∈ cs)
    (hlinked : Linked h ss c) : CacheCounts h ss c := by
  have hfree : ∀ s ∈ ss, (h.slabs s).availableObjects = freeObjects h s := by
    intro s hs
    have hsum := freeObjects_eq (hinv.layout.slab s hs).bitmap
    have hcount := hexact s hs
    omega
  have hon : ∀ s ∈ ss, (h.slabs s).parent = c → ∀ which,
      OnList h c which s ↔ CountOn which (freeObjects h s) := by
    intro s hs hpar which
    rw [← hfree s hs]
    exact hinv.onList_iff hc hlinked hs hpar which
  have hle : ∀ s ∈ ss, freeObjects h s ≤ 256 := by
    intro s hs
    have hsum := freeObjects_eq (hinv.layout.slab s hs).bitmap
    omega
  refine ⟨fun s hs _ => hfree s hs, fun s hs hpar => hon s hs hpar .fullList,
    fun s hs hpar => hon s hs hpar .emptyList, fun s hs hpar => ?_, ?_⟩
  · rw [hon s hs hpar .partialList]
    have hbound := hle s hs
    simp only [CountOn, objectsPerSlab]
    omega
  · intro page h' p halloc hcnt s hs hpar
    obtain ⟨hpart, hempty⟩ := hinv.request hc halloc hcnt
    obtain ⟨which, hin⟩ := hinv.onList hc hlinked hs hpar
    cases which with
    | emptyList => exact absurd hin (not_onList_nil hempty)
    | partialList => exact absurd hin (not_onList_nil hpart)
    | fullList => exact (hon s hs hpar .fullList).mp hin

end Exact

/-! ## The calls -/

/-- The invariant of a state: the lists are linked and the counters exact. -/
def ExactInv (st : HeapState) : Prop := LinkedInv st ∧ Exact st.heap st.slabs

section Steps

variable {st st' : HeapState} {c page : ℕ}

/-- INTERNAL: `free_obj` changes nothing if it finds no set bit.
SRCLINE: kernel/mm/slab.cpp:79-102 -/
theorem freeObj_keeps (hinv : StateInv st) {obj : ℕ} (hc : c ∈ st.caches)
    (hkeeps : FreeKeeps st (.freeObj c obj)) : (freeObj st.heap c obj).getD st.heap = st.heap := by
  rcases freeObj_spec hinv hc obj with ⟨hnone, -⟩ | ⟨s, hhead, hin, hsome⟩
  · rw [hnone]
    rfl
  · obtain ⟨hs, -⟩ := HeapInv.head_mem hinv hc hhead
    have hmem : s ∈ [(st.heap.caches c).slabPartial, (st.heap.caches c).slabFull] := by
      rcases hhead.2 with heq | heq
      · rw [heq]
        exact List.mem_cons_self
      · rw [heq]
        exact List.mem_cons_of_mem _ List.mem_cons_self
    have hclear := hkeeps s hmem hhead.1 hin
    rw [((HeapInv.layout hinv).slab s hs).bitmap, bmTest_eq] at hclear
    rw [hsome, clearSlot_of_clear hclear]
    rfl

/-- Every step keeps the counters exact if its `free_obj` finds no set bit. -/
theorem exactInv_step {op : CacheOp} (hinv : ExactInv st)
    (hstep : Guarded FreeKeeps cacheStep st op st') : ExactInv st' := by
  obtain ⟨⟨hinv, hlinked⟩, hexact⟩ := hinv
  obtain ⟨hkeeps, hallowed, hexec⟩ := hstep
  cases op with
  | newCache storage objectSize page =>
    refine ⟨newCache_linked_inv ⟨hinv, hlinked⟩ hallowed hexec, ?_⟩
    obtain ⟨⟨hsize, -, hfresh⟩, hsound⟩ := hallowed
    obtain ⟨h', c, heq, hparent, hpage, hccs, hadd, -⟩ := newCache_made hinv hsize hfresh hsound
    simp only [HeapState.execCache, HeapState.exec, heq, Option.some.injEq] at hexec
    rw [← hexec]
    have hfit := buffer_fits hsound.2.2.2.2
    refine exact_grow hinv hexact hfresh (by omega) (fun t ht => hadd.others t ?_) hadd.mem ?_
    · rintro rfl
      exact hpage ht
    · rw [hadd.slab]
      rfl
  | allocObj c page =>
    obtain ⟨g, h', ss', s, i, p, -, -, hprep, hg, htaken, hexec', hinv', hlinks⟩ :=
      allocObj_step hinv hallowed
    rw [hexec'] at hexec
    obtain rfl := Option.some.inj hexec
    exact ⟨⟨hinv', hlinks hlinked⟩,
      htaken.exact hg.layout (hprep.exact hinv hexact hallowed.1 hallowed.2)⟩
  | freeObj c obj =>
    have hsame := freeObj_keeps hinv hallowed hkeeps
    obtain rfl := Option.some.inj hexec
    rw [hsame]
    exact ⟨⟨HeapInv.sublist hinv List.filter_sublist, hlinked⟩, hexact⟩

end Steps

/-- **The counters, the bitmaps and the lists agree** in every run in which no `free_obj` finds a set bit:
then a new slab is requested only when no slab of the cache has a free object.
SRCLINE: kernel/mm/slab.cpp:54-102, 131-148 -/
theorem cache_counts_of_keeps {st st' : HeapState} {ops : List CacheOp} (hinit : st.Initial)
    (hrun : Run (Guarded FreeKeeps cacheStep) st ops st') :
    ∀ c ∈ st'.caches, CacheCounts st'.heap st'.slabs c := by
  have hstart : ExactInv st := by
    refine ⟨initial_linkedInv hinit, ?_⟩
    rw [hinit.2.2.2.1]
    exact fun s hs => absurd hs List.not_mem_nil
  obtain ⟨⟨hinv, hlinked⟩, hexact⟩ :=
    hrun.invariant ExactInv (fun _ _ _ h hstep => exactInv_step h hstep) hstart
  intro c hc
  exact HeapInv.cacheCounts hinv hexact hc (hlinked c hc)

/-- A cache of objects of 32 bytes, an object, and a call of `free_obj` with no object. -/
def keptCalls : List CacheOp :=
  [.newCache cleared 32 0x1000, .allocObj 0x1050 0x10000, .freeObj 0x1050 0]

theorem cache_counts_keptCalls : ∃ st, Run (Guarded FreeKeeps cacheStep) emptyHeap keptCalls st ∧
    st.live = [⟨0x10a8, 32⟩] ∧ CacheCounts st.heap st.slabs 0x1050 := by
  have hinit : emptyHeap.Initial := ⟨rfl, rfl, rfl, rfl, rfl, rfl⟩
  have hcalls : (keptCalls.foldlM (fun st op =>
      if FreeKeeps st op ∧ op.Allowed st then st.execCache op else none) emptyHeap).map
      (fun st => (st.live, st.caches)) = some ([⟨0x10a8, 32⟩], [0x1050]) := by
    decide
  obtain ⟨st, hst, hlive⟩ := Option.map_eq_some_iff.mp hcalls
  have hrun : Run (Guarded FreeKeeps cacheStep) emptyHeap keptCalls st := by
    refine Run.mono (fun s op t hstep => ?_) (Run.of_guarded hst)
    exact ⟨hstep.1.1, hstep.1.2, hstep.2⟩
  have hc : 0x1050 ∈ st.caches := by
    rw [(Prod.mk.inj hlive).2]
    exact List.mem_cons_self
  exact ⟨st, hrun, (Prod.mk.inj hlive).1, (cache_counts_of_keeps hinit hrun) _ hc⟩

/-- An object is allocated and freed. -/
def freedCalls : List CacheOp :=
  [.newCache cleared 32 0x1000, .allocObj 0x1050 0x10000, .freeObj 0x1050 0x10a8]

/-- After that the slab has 256 clear bits and a counter of 255, and it is not on the list of the empty
slabs.
SRCLINE: kernel/mm/slab.cpp:79-102, 144-149 -/
theorem free_not_counted : emptyHeap.Initial ∧ ∃ st,
    Run (Guarded FreesLive cacheStep) emptyHeap freedCalls st ∧ 0x1050 ∈ st.caches ∧
      ¬ CacheCounts st.heap st.slabs 0x1050 := by
  have hinit : emptyHeap.Initial := ⟨rfl, rfl, rfl, rfl, rfl, rfl⟩
  have hcalls : (freedCalls.foldlM (fun st op =>
      if FreesLive st op ∧ op.Allowed st then st.execCache op else none) emptyHeap).map
      (fun st => (st.caches, st.slabs, (st.heap.slabs 0x1000).parent,
        (st.heap.slabs 0x1000).availableObjects, freeObjects st.heap 0x1000)) =
      some ([0x1050], [0x1000], 0x1050, 255, 256) := by
    decide +kernel
  obtain ⟨st, hst, hend⟩ := Option.map_eq_some_iff.mp hcalls
  simp only [Prod.mk.injEq] at hend
  obtain ⟨hcaches, hslabs, hparent, hcount, hfree⟩ := hend
  refine ⟨hinit, st, ?_, ?_, fun hcounts => ?_⟩
  · refine Run.mono (fun s op t hstep => ?_) (Run.of_guarded hst)
    exact ⟨hstep.1.1, hstep.1.2, hstep.2⟩
  · rw [hcaches]
    exact List.mem_cons_self
  · have hcounter := hcounts.counter 0x1000 (by rw [hslabs]; exact List.mem_cons_self) hparent
    omega

end CrepOS.Analysis
