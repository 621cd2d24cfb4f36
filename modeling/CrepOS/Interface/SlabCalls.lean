import CrepOS.Interface.SlabHeap
import Mathlib.Data.Finset.Card
import Mathlib.Order.Interval.Finset.Nat

/-!
# Calls on the caches

The steps are constructions of caches and calls of `alloc_obj` and `free_obj` on any cache, in the states
of `CrepOS.Interface.SlabHeap`. A cache starts with the one empty slab that its constructor makes.
`CacheLists` says what the three lists of a cache have to be.
-/

set_option autoImplicit false

namespace CrepOS.Interface

open CrepOS.Library CrepOS.Model

inductive CacheOp
  | newCache (storage : Cache) (objectSize page : ℕ)
  | allocObj (c page : ℕ)
  | freeObj (c obj : ℕ)

/-- What a call does. The object of a `free_obj` is given up, whatever the call returns. -/
def HeapState.execCache (st : HeapState) : CacheOp → Option HeapState
  | .newCache storage objectSize page => st.exec (.newCache storage objectSize page)
  | .allocObj c page =>
    match allocObj st.heap c page with
    | none => none
    | some (h, p) => some
      ⟨h, if h.slabCnt = st.heap.slabCnt then st.slabs else st.slabs ++ [page], st.caches,
        if p = 0 then st.live else ⟨p, (h.caches c).objectSize⟩ :: st.live⟩
  | .freeObj c obj => some
    ⟨(freeObj st.heap c obj).getD st.heap, st.slabs, st.caches, st.live.filter (·.addr ≠ obj)⟩

/-- What is promised: the calls are on caches, and `pmm::calloc` returns fresh pages. -/
def CacheOp.Allowed (st : HeapState) : CacheOp → Prop
  | .newCache storage objectSize page =>
    HeapOp.Allowed st (.newCache storage objectSize page) ∧
      HeapOp.Sound (.newCache storage objectSize page)
  | .allocObj c page =>
    c ∈ st.caches ∧ st.Fresh page ((st.heap.caches c).pagesPerSlab * pageSize)
  | .freeObj c _ => c ∈ st.caches

instance CacheOp.decidableAllowed (st : HeapState) (op : CacheOp) : Decidable (op.Allowed st) :=
  match op with
  | .newCache storage objectSize page =>
    inferInstanceAs (Decidable (HeapOp.Allowed st (.newCache storage objectSize page) ∧
      HeapOp.Sound (.newCache storage objectSize page)))
  | .allocObj c page =>
    inferInstanceAs (Decidable (c ∈ st.caches ∧
      st.Fresh page ((st.heap.caches c).pagesPerSlab * pageSize)))
  | .freeObj c _ => inferInstanceAs (Decidable (c ∈ st.caches))

/-- The steps. -/
def cacheStep : HeapState → CacheOp → HeapState → Prop :=
  Guarded (fun st op => op.Allowed st) fun st op st' => st.execCache op = some st'

/-- Only live objects are freed. -/
def FreesLive (st : HeapState) : CacheOp → Prop
  | .freeObj _ obj => ∃ o ∈ st.live, o.addr = obj
  | _ => True

/-! ## The lists of a cache -/

/-- The slab `s` is on a list of the cache `c`. -/
def OnList (h : Heap) (c : ℕ) (which : SlabList) (s : ℕ) : Prop :=
  ∃ l, Chain 0 (fun s => (h.slabs s).next) ((h.caches c).head which) l ∧ s ∈ l

/-- The list with this head ends with `NULL`, has no cycle and has the right links back. -/
structure SlabChain (h : Heap) (head : ℕ) (l : List ℕ) : Prop where
  chain : Chain 0 (fun s => (h.slabs s).next) head l
  acyclic : l.Nodup
  back : Backed (fun s => (h.slabs s).last) 0 l

/-- The lists of the cache `c` are well formed and disjoint, and every slab of the cache is on one. -/
structure CacheLists (h : Heap) (ss : List ℕ) (c : ℕ) : Prop where
  chains : ∀ which, ∃ l, SlabChain h ((h.caches c).head which) l ∧
    ∀ s ∈ l, s ∈ ss ∧ (h.slabs s).parent = c
  disjoint : ∀ which which' s, OnList h c which s → OnList h c which' s → which = which'
  covered : ∀ s ∈ ss, (h.slabs s).parent = c → ∃ which, OnList h c which s

/-! ## The counts of a cache -/

/-- The number of clear bits in the bitmap of the slab `s`. -/
def freeObjects (h : Heap) (s : ℕ) : ℕ :=
  ((Finset.range objectsPerSlab).filter fun i => bmTest h.mem (h.slabs s).bitmap i = false).card

/-- The counters and the lists of the cache `c` say what its bitmaps say. -/
structure CacheCounts (h : Heap) (ss : List ℕ) (c : ℕ) : Prop where
  counter : ∀ s ∈ ss, (h.slabs s).parent = c → (h.slabs s).availableObjects = freeObjects h s
  full : ∀ s ∈ ss, (h.slabs s).parent = c → (OnList h c .fullList s ↔ freeObjects h s = 0)
  empty : ∀ s ∈ ss, (h.slabs s).parent = c →
    (OnList h c .emptyList s ↔ freeObjects h s = objectsPerSlab)
  partly : ∀ s ∈ ss, (h.slabs s).parent = c →
    (OnList h c .partialList s ↔ freeObjects h s ≠ 0 ∧ freeObjects h s ≠ objectsPerSlab)
  request : ∀ page h' p, allocObj h c page = some (h', p) → h'.slabCnt ≠ h.slabCnt →
    ∀ s ∈ ss, (h.slabs s).parent = c → freeObjects h s = 0

end CrepOS.Interface
