import CrepOS.Interface.SlabCalls
import CrepOS.Analysis.SlabExclusive

/-!
# The lists of a cache

`move_slab` does not reset `next` when it appends a slab to a list. The lists are well formed because the
slab it moves is always alone on its list: slabs are taken from the partial list first, so it and the list
of the empty slabs have at most one member at any time, and only the list of the full slabs grows
(`Lists`, `Linked`). The bits that `free_obj` clears play no part in this, and as a counter never exceeds
the number of clear bits, `alloc_obj` finds one in the slab it takes (`cache_lists_wellFormed`).
-/

set_option autoImplicit false

namespace CrepOS.Analysis

open CrepOS.Library CrepOS.Model CrepOS.Interface

/-! ## What the invariant says about the lists -/

/-- The number of available objects of the slabs on a list. -/
def CountOn : SlabList → ℕ → Prop
  | .emptyList, n => n = 256
  | .partialList, n => 1 ≤ n ∧ n ≤ 255
  | .fullList, n => n = 0

theorem countOn_unique {which which' : SlabList} {n : ℕ} (h : CountOn which n) (h' : CountOn which' n) :
    which = which' := by
  cases which <;> cases which' <;> first | rfl | (unfold CountOn at h h'; omega)

section Lists

variable {h : Heap} {ss cs : List ℕ} {live : List Object} {c s : ℕ}

/-- INTERNAL: a list with at most one member. -/
theorem alone_chain (which : SlabList) {head : ℕ}
    (hl : head = 0 ∨ Alone h ss c head ∧ CountOn which (h.slabs head).availableObjects)
    (hpos : ∀ s ∈ ss, 0 < s) :
    ∃ l, SlabChain h head l ∧
      (∀ s ∈ l, s ∈ ss ∧ (h.slabs s).parent = c ∧ CountOn which (h.slabs s).availableObjects) ∧
      (head ∈ ss → head ∈ l) := by
  rcases hl with hnull | ⟨⟨hs, hpar, hnext, hlast⟩, hp⟩
  · refine ⟨[], ⟨hnull, List.nodup_nil, trivial⟩, fun s hs => absurd hs List.not_mem_nil, ?_⟩
    intro hin
    have hlow := hpos head hin
    rw [hnull] at hlow
    exact absurd hlow (Nat.lt_irrefl 0)
  · have hne : head ≠ 0 := Nat.pos_iff_ne_zero.mp (hpos head hs)
    refine ⟨[head], ⟨⟨rfl, hne, hnext⟩, List.nodup_singleton _, hlast, trivial⟩, ?_,
      fun _ => List.mem_cons_self⟩
    intro s hs'
    rw [List.mem_singleton.mp hs']
    exact ⟨hs, hpar, hp⟩

/-- INTERNAL: each list, with what its members have available. -/
theorem HeapInv.chain (hinv : HeapInv h ss cs live) (hc : c ∈ cs) (hlinked : Linked h ss c)
    (which : SlabList) : ∃ l, SlabChain h ((h.caches c).head which) l ∧
      ∀ s ∈ l, s ∈ ss ∧ (h.slabs s).parent = c ∧ CountOn which (h.slabs s).availableObjects := by
  have hl := hinv.lists c hc
  have hpos : ∀ s ∈ ss, 0 < s := fun s hs => (hinv.layout.slab s hs).pos
  cases which with
  | emptyList =>
    obtain ⟨l, hchain, hall, -⟩ := alone_chain .emptyList hl.empty hpos
    exact ⟨l, hchain, hall⟩
  | partialList =>
    obtain ⟨l, hchain, hall, -⟩ := alone_chain .partialList hl.partly hpos
    exact ⟨l, hchain, hall⟩
  | fullList =>
    obtain ⟨l, hchain, hback, -⟩ := hlinked
    obtain ⟨l', hchain', hnodup, hall⟩ := hl.full
    obtain rfl := hchain.unique hchain'
    exact ⟨l, ⟨hchain, hnodup, hback⟩, hall⟩

/-- INTERNAL: a slab on a list has a count of that list. -/
theorem HeapInv.onList_count (hinv : HeapInv h ss cs live) (hc : c ∈ cs) (hlinked : Linked h ss c)
    {which : SlabList} (hon : OnList h c which s) : CountOn which (h.slabs s).availableObjects := by
  obtain ⟨l, hchain, hin⟩ := hon
  obtain ⟨l', hchain', hall⟩ := hinv.chain hc hlinked which
  obtain rfl := hchain.unique hchain'.chain
  exact (hall s hin).2.2

/-- INTERNAL: every slab of the cache is on a list. -/
theorem HeapInv.onList (hinv : HeapInv h ss cs live) (hc : c ∈ cs) (hlinked : Linked h ss c)
    (hs : s ∈ ss) (hpar : (h.slabs s).parent = c) : ∃ which, OnList h c which s := by
  have hl := hinv.lists c hc
  have hpos : ∀ s ∈ ss, 0 < s := fun s hs => (hinv.layout.slab s hs).pos
  obtain ⟨l, hchain, -, hcover⟩ := hlinked
  rcases hcover s hs hpar with rfl | rfl | hin
  · obtain ⟨l, hchain, -, hin⟩ := alone_chain .emptyList hl.empty hpos
    exact ⟨.emptyList, l, hchain.chain, hin hs⟩
  · obtain ⟨l, hchain, -, hin⟩ := alone_chain .partialList hl.partly hpos
    exact ⟨.partialList, l, hchain.chain, hin hs⟩
  · exact ⟨.fullList, l, hchain, hin⟩

/-- INTERNAL: the list of a slab is the one of its count. -/
theorem HeapInv.onList_iff (hinv : HeapInv h ss cs live) (hc : c ∈ cs) (hlinked : Linked h ss c)
    (hs : s ∈ ss) (hpar : (h.slabs s).parent = c) (which : SlabList) :
    OnList h c which s ↔ CountOn which (h.slabs s).availableObjects := by
  refine ⟨fun hon => hinv.onList_count hc hlinked hon, fun hcount => ?_⟩
  obtain ⟨which', hon⟩ := hinv.onList hc hlinked hs hpar
  have hcount' := hinv.onList_count hc hlinked hon
  rw [countOn_unique hcount hcount']
  exact hon

/-- The invariant says that the lists are what they should be. -/
theorem HeapInv.cacheLists (hinv : HeapInv h ss cs live) (hc : c ∈ cs) (hlinked : Linked h ss c) :
    CacheLists h ss c := by
  refine ⟨fun which => ?_, fun which which' s hon hon' => ?_, fun s hs hpar => ?_⟩
  · obtain ⟨l, hchain, hall⟩ := hinv.chain hc hlinked which
    exact ⟨l, hchain, fun s hs => ⟨(hall s hs).1, (hall s hs).2.1⟩⟩
  · exact countOn_unique (hinv.onList_count hc hlinked hon) (hinv.onList_count hc hlinked hon')
  · exact hinv.onList hc hlinked hs hpar

end Lists

/-! ## The calls -/

/-- The invariant of a state: that of the heap, and every cache is linked. -/
def LinkedInv (st : HeapState) : Prop :=
  StateInv st ∧ ∀ c ∈ st.caches, Linked st.heap st.slabs c

section Steps

variable {st st' : HeapState} {c page : ℕ}

/-- INTERNAL: what a call of `alloc_obj` does to the state: the slot `i` of the slab `s` is taken in `g`,
which is the heap before, or that with a new slab.
SRCLINE: kernel/mm/slab.cpp:54-77 -/
theorem allocObj_step (hinv : StateInv st) (hallowed : CacheOp.Allowed st (.allocObj c page)) :
    ∃ g h' ss' s i p, allocObj st.heap c page = some (h', p) ∧ p ≠ 0 ∧
      Prepared st.heap g st.slabs ss' c page ∧ HeapInv g ss' st.caches st.live ∧
      SlotTaken g h' ss' st.caches s i ∧
      st.execCache (.allocObj c page) =
        some ⟨h', ss', st.caches, ⟨p, (h'.caches c).objectSize⟩ :: st.live⟩ ∧
      StateInv ⟨h', ss', st.caches, ⟨p, (h'.caches c).objectSize⟩ :: st.live⟩ ∧
      LinksKept st.heap h' st.slabs ss' st.caches := by
  obtain ⟨hc, hfresh⟩ := hallowed
  obtain ⟨g, ss', s, i, h', hprep, hinv', -, hpar, hos, htaken, ⟨hlists, hlinks⟩, hobj⟩ :=
    allocObj_spec hinv hc hfresh
  have hsize : (h'.caches c).objectSize = (st.heap.caches c).objectSize :=
    (htaken.same.cache c hc).1.trans hos
  have hslot : IsSlot g ⟨(g.slabs s).buf + i * (st.heap.caches c).objectSize,
      (st.heap.caches c).objectSize⟩ s i := by
    refine ⟨htaken.index, ?_, rfl⟩
    rw [hpar, hos]
  have haddr : (g.slabs s).buf + i * (st.heap.caches c).objectSize ≠ 0 := by
    have hlow := (hinv'.layout.slab s htaken.slab).low
    omega
  have hslabs : (if h'.slabCnt = st.heap.slabCnt then st.slabs else st.slabs ++ [page]) = ss' := by
    rw [htaken.slabCnt]
    rcases hprep with ⟨rfl, rfl⟩ | ⟨rfl, rfl⟩
    · exact if_pos rfl
    · exact if_neg (Nat.succ_ne_self _)
  refine ⟨g, h', ss', s, i, _, hobj, haddr, hprep, hinv', htaken, ?_, ?_, hlinks⟩
  · simp only [HeapState.execCache, hobj, hslabs, haddr, if_false]
  · rw [hsize]
    exact hinv'.take htaken hlists hslot

/-- INTERNAL: `free_obj` on a live object.
SRCLINE: kernel/mm/slab.cpp:79-102 -/
theorem freeObj_live_inv (hinv : LinkedInv st) {obj : ℕ} (hc : c ∈ st.caches)
    (hlive : ∃ o ∈ st.live, o.addr = obj) (hexec : st.execCache (.freeObj c obj) = some st') :
    LinkedInv st' := by
  obtain ⟨hinv, hlinked⟩ := hinv
  obtain ⟨o, ho, rfl⟩ := hlive
  obtain rfl := Option.some.inj hexec
  rcases freeObj_spec hinv hc o.addr with ⟨hnone, -⟩ | ⟨s, hhead, hin, hsome⟩
  · rw [hnone]
    exact ⟨HeapInv.sublist hinv List.filter_sublist, hlinked⟩
  · rw [hsome]
    obtain ⟨hs, -⟩ := HeapInv.head_mem hinv hc hhead
    obtain ⟨t, ht, i, hslot, -⟩ := HeapInv.slots hinv o ho
    obtain ⟨htin, hindex⟩ := hslot.inBuffer (HeapInv.layout hinv) ht
    obtain rfl := (HeapInv.layout hinv).inBuffer_unique hs ht hin htin
    rw [hindex]
    exact ⟨HeapInv.release hinv hs hslot (Or.inr rfl), hlinked⟩

/-- INTERNAL: the constructor makes a linked cache. -/
theorem newCache_linked_inv (hinv : LinkedInv st) {storage : Cache} {objectSize : ℕ}
    (hallowed : CacheOp.Allowed st (.newCache storage objectSize page))
    (hexec : st.execCache (.newCache storage objectSize page) = some st') : LinkedInv st' := by
  obtain ⟨hinv, hlinked⟩ := hinv
  obtain ⟨⟨hsize, -, hfresh⟩, hsound⟩ := hallowed
  obtain ⟨h', c, heq, hparent, hpage, hccs, hadd, hinv'⟩ := newCache_made hinv hsize hfresh hsound
  simp only [HeapState.execCache, HeapState.exec, heq, hparent, Option.some.injEq] at hexec
  rw [← hexec]
  exact ⟨hinv', hadd.linked hinv hpage hccs hlinked⟩

/-- Every step that frees live objects only keeps the invariant. -/
theorem linkedInv_step {op : CacheOp} (hinv : LinkedInv st)
    (hstep : Guarded FreesLive cacheStep st op st') : LinkedInv st' := by
  obtain ⟨hfrees, hallowed, hexec⟩ := hstep
  cases op with
  | newCache storage objectSize page => exact newCache_linked_inv hinv hallowed hexec
  | allocObj c page =>
    obtain ⟨g, h', ss', s, i, p, -, -, -, -, -, hexec', hinv', hlinks⟩ := allocObj_step hinv.1 hallowed
    rw [hexec'] at hexec
    obtain rfl := Option.some.inj hexec
    exact ⟨hinv', hlinks hinv.2⟩
  | freeObj c obj => exact freeObj_live_inv hinv hallowed hfrees hexec

/-- INTERNAL: there are no caches at the start. -/
theorem initial_linkedInv (h : st.Initial) : LinkedInv st := by
  refine ⟨initial_inv h, ?_⟩
  rw [h.2.2.2.2.1]
  exact fun c hc => absurd hc List.not_mem_nil

end Steps

/-- **The lists of every cache are well formed and hold every slab once**, in every state of every run, and
`alloc_obj` always returns an object.
SRCLINE: kernel/mm/slab.cpp:11-30, 54-77, 104-141 -/
theorem cache_lists_wellFormed {st st' : HeapState} {ops : List CacheOp} (hinit : st.Initial)
    (hrun : Run (Guarded FreesLive cacheStep) st ops st') :
    ∀ c ∈ st'.caches, CacheLists st'.heap st'.slabs c ∧
      ∀ page, CacheOp.Allowed st' (.allocObj c page) →
        ∃ h p, allocObj st'.heap c page = some (h, p) ∧ p ≠ 0 := by
  obtain ⟨hinv, hlinked⟩ := hrun.invariant LinkedInv (fun _ _ _ h hstep => linkedInv_step h hstep)
    (initial_linkedInv hinit)
  intro c hc
  refine ⟨HeapInv.cacheLists hinv hc (hlinked c hc), fun page hallowed => ?_⟩
  obtain ⟨g, h', ss', s, i, p, hobj, hne, -⟩ := allocObj_step hinv hallowed
  exact ⟨h', p, hobj, hne⟩

/-- One cache of objects of 32 bytes: an object is allocated and freed, another one allocated. -/
def oneCacheCalls : List CacheOp :=
  [.newCache cleared 32 0x1000, .allocObj 0x1050 0x10000, .freeObj 0x1050 0x10a8,
    .allocObj 0x1050 0x10000]

instance FreesLive.decidable (st : HeapState) (op : CacheOp) : Decidable (FreesLive st op) :=
  match op with
  | .newCache _ _ _ => .isTrue trivial
  | .allocObj _ _ => .isTrue trivial
  | .freeObj _ obj => inferInstanceAs (Decidable (∃ o ∈ st.live, o.addr = obj))

theorem cache_lists_oneCache : ∃ st, Run (Guarded FreesLive cacheStep) emptyHeap oneCacheCalls st ∧
    st.live = [⟨0x10a8, 32⟩] ∧ CacheLists st.heap st.slabs 0x1050 := by
  have hinit : emptyHeap.Initial := ⟨rfl, rfl, rfl, rfl, rfl, rfl⟩
  have hcalls : (oneCacheCalls.foldlM (fun st op =>
      if FreesLive st op ∧ op.Allowed st then st.execCache op else none) emptyHeap).map
      (fun st => (st.live, st.caches)) = some ([⟨0x10a8, 32⟩], [0x1050]) := by
    decide
  obtain ⟨st, hst, hlive⟩ := Option.map_eq_some_iff.mp hcalls
  have hrun : Run (Guarded FreesLive cacheStep) emptyHeap oneCacheCalls st := by
    refine Run.mono (fun s op t hstep => ?_) (Run.of_guarded hst)
    exact ⟨hstep.1.1, hstep.1.2, hstep.2⟩
  have hc : 0x1050 ∈ st.caches := by
    rw [(Prod.mk.inj hlive).2]
    exact List.mem_cons_self
  exact ⟨st, hrun, (Prod.mk.inj hlive).1, ((cache_lists_wellFormed hinit hrun) _ hc).1⟩

end CrepOS.Analysis
