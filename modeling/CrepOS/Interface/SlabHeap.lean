import CrepOS.Library.Run
import CrepOS.Model.Slab

/-!
# Clients of the kernel heap

A `HeapState` is a heap together with what its clients know: the slabs and the caches made so far and
the live objects, each with the object size of the cache it came from. `HeapOp` are the calls, with
the pages that `pmm::calloc` would return and, for the constructor, the memory the temporary is in.
`HeapOp.Allowed` is what the callers and the page allocator promise, `HeapOp.Sound` the condition
under which the constructor of a cache works.
-/

set_option autoImplicit false

namespace CrepOS.Interface

open CrepOS.Library CrepOS.Model

/-- The number of bytes of the slab `s`. -/
def slabBytes (h : Heap) (s : ℕ) : ℕ := (h.caches (h.slabs s).parent).pagesPerSlab * pageSize

/-- An object: its address and its size. -/
structure Object where
  addr : ℕ
  size : ℕ
  deriving DecidableEq

/-- The bytes of two objects are disjoint. -/
def Object.Apart (o p : Object) : Prop := o.addr + o.size ≤ p.addr ∨ p.addr + p.size ≤ o.addr

structure HeapState where
  heap : Heap
  slabs : List ℕ
  caches : List ℕ
  live : List Object

/-- The calls, and the writes of the clients to their objects. -/
inductive HeapOp
  | newCache (storage : Cache) (objectSize page : ℕ)
  | alloc (size page : ℕ)
  | free (addr : ℕ)
  | write (addr : ℕ) (data : Byte)

/-- What a call does. An allocation that returns `NULL` makes no object. -/
def HeapState.exec (st : HeapState) : HeapOp → Option HeapState
  | .newCache storage objectSize page =>
    match newCache st.heap storage objectSize page with
    | none => none
    | some h => some ⟨h, st.slabs ++ [page], st.caches ++ [(h.slabs page).parent], st.live⟩
  | .alloc size page =>
    match alloc st.heap size page with
    | none => none
    | some (h, p) => some
      ⟨h, if h.slabCnt = st.heap.slabCnt then st.slabs else st.slabs ++ [page], st.caches,
        if p = 0 then st.live else ⟨p, roundSize size⟩ :: st.live⟩
  | .free addr =>
    match free st.heap addr with
    | none => none
    | some (h, _) => some ⟨h, st.slabs, st.caches, st.live.filter (·.addr ≠ addr)⟩
  | .write addr data => some
    ⟨{ st.heap with mem := Function.update st.heap.mem addr data }, st.slabs, st.caches, st.live⟩

/-- `page` is the start of fresh pages of `bytes` bytes. -/
def HeapState.Fresh (st : HeapState) (page bytes : ℕ) : Prop :=
  0 < page ∧ page % pageSize = 0 ∧ page + bytes ≤ 2 ^ 64 ∧
    ∀ s ∈ st.slabs, page + bytes ≤ s ∨ s + slabBytes st.heap s ≤ page

instance (st : HeapState) (page bytes : ℕ) : Decidable (st.Fresh page bytes) :=
  inferInstanceAs (Decidable (0 < page ∧ page % pageSize = 0 ∧ page + bytes ≤ 2 ^ 64 ∧
    ∀ s ∈ st.slabs, page + bytes ≤ s ∨ s + slabBytes st.heap s ≤ page))

/-- What is promised: object sizes are positive, `pmm::calloc` returns fresh pages, memory is not
allocated before the first cache is made, and clients free and write live objects. -/
def HeapOp.Allowed (st : HeapState) : HeapOp → Prop
  | .newCache _ objectSize page =>
    0 < objectSize ∧ objectSize < 2 ^ 64 ∧ st.Fresh page (pagesPerSlab objectSize * pageSize)
  | .alloc size page =>
    st.caches ≠ [] ∧ ∀ c, cacheFor st.heap size = some (some c) →
      st.Fresh page ((st.heap.caches c).pagesPerSlab * pageSize)
  | .free addr => ∃ o ∈ st.live, o.addr = addr
  | .write addr _ => ∃ o ∈ st.live, o.addr ≤ addr ∧ addr < o.addr + o.size

/-- The condition on a call: the memory of a new cache holds `NULL` for the list heads and for
`next`, and the size of its slabs does not overflow. -/
def HeapOp.Sound : HeapOp → Prop
  | .newCache storage objectSize _ =>
    storage.slabEmpty = 0 ∧ storage.slabPartial = 0 ∧ storage.slabFull = 0 ∧ storage.next = 0 ∧
      objectSize * 256 + 4176 ≤ 2 ^ 63
  | _ => True

instance HeapOp.decidableAllowed (st : HeapState) (op : HeapOp) : Decidable (op.Allowed st) :=
  match op with
  | .newCache _ objectSize page =>
    inferInstanceAs (Decidable (0 < objectSize ∧ objectSize < 2 ^ 64 ∧
      st.Fresh page (pagesPerSlab objectSize * pageSize)))
  | .alloc size page =>
    match hc : cacheFor st.heap size with
    | some (some c) =>
      decidable_of_iff (st.caches ≠ [] ∧ st.Fresh page ((st.heap.caches c).pagesPerSlab * pageSize))
        (by simp [HeapOp.Allowed, hc])
    | some none => decidable_of_iff (st.caches ≠ []) (by simp [HeapOp.Allowed, hc])
    | none => decidable_of_iff (st.caches ≠ []) (by simp [HeapOp.Allowed, hc])
  | .free addr => inferInstanceAs (Decidable (∃ o ∈ st.live, o.addr = addr))
  | .write addr _ =>
    inferInstanceAs (Decidable (∃ o ∈ st.live, o.addr ≤ addr ∧ addr < o.addr + o.size))

instance HeapOp.decidableSound (op : HeapOp) : Decidable op.Sound :=
  match op with
  | .newCache storage objectSize _ =>
    inferInstanceAs (Decidable (storage.slabEmpty = 0 ∧ storage.slabPartial = 0 ∧
      storage.slabFull = 0 ∧ storage.next = 0 ∧ objectSize * 256 + 4176 ≤ 2 ^ 63))
  | .alloc _ _ => .isTrue trivial
  | .free _ => .isTrue trivial
  | .write _ _ => .isTrue trivial

/-- No caches, and any contents of the memory. -/
def HeapState.Initial (st : HeapState) : Prop :=
  st.heap.cacheRoot = 0 ∧ st.heap.slabCnt = 0 ∧ st.heap.cacheCnt = 0 ∧ st.slabs = [] ∧
    st.caches = [] ∧ st.live = []

/-- The steps whose calls are allowed and meet the condition. -/
def heapStep : HeapState → HeapOp → HeapState → Prop :=
  Guarded (fun st op => op.Allowed st ∧ op.Sound) fun st op st' => st.exec op = some st'

end CrepOS.Interface
