import CrepOS.Library.LinkedList
import CrepOS.Model.Memutils

/-!
# The kernel heap, `mm/slab.cpp`

The structures of the heap are at addresses: `slabs s` is the `slab` header in the first 48 bytes of
a slab and `caches c` the `cache` structure in the 88 bytes at `c`; the address `0` is `NULL`. All
other bytes, the bitmaps and the objects, are in `mem`. Headers and `mem` are kept apart, so what a
write over the end of an object does to a header is not modelled; the statements about such writes
are about bytes of objects only.

The pages that `pmm::calloc` returns are an argument (`page`, with `high_vma` already added) of the
functions that may call it. The loops along the lists have as much fuel as there are slabs or caches;
running out of it, like following `NULL`, gives no result. The locks, the counters `active_objects`
and `active_slabs`, the names and the flags are left out: nothing reads them.
-/

set_option autoImplicit false

namespace CrepOS.Model

open CrepOS.Library

/-- `struct cache`.
SRCLINE: kernel/mm/slab.hpp:15-40 -/
structure Cache where
  objectSize : ℕ
  pagesPerSlab : ℕ
  slabEmpty : ℕ
  slabPartial : ℕ
  slabFull : ℕ
  next : ℕ
  last : ℕ
  deriving DecidableEq

/-- `struct slab`.
SRCLINE: kernel/mm/slab.hpp:42-54 -/
structure Slab where
  availableObjects : ℕ
  parent : ℕ
  buf : ℕ
  bitmap : ℕ
  next : ℕ
  last : ℕ
  deriving DecidableEq

/-- `objects_per_slab`. -/
abbrev objectsPerSlab : ℕ := 256

/-- `sizeof(slab)`. -/
abbrev slabSize : ℕ := 48

/-- `sizeof(cache)`. -/
abbrev cacheSize : ℕ := 88

/-- The heap. `slabCnt` and `cacheCnt` are the numbers of slabs and caches made so far, which bound
the loops. -/
structure Heap where
  mem : Memory
  slabs : ℕ → Slab
  caches : ℕ → Cache
  cacheRoot : ℕ
  slabCnt : ℕ
  cacheCnt : ℕ

/-- A write to the header of the slab `s`. -/
def Heap.setSlab (h : Heap) (s : ℕ) (e : Slab) : Heap :=
  { h with slabs := Function.update h.slabs s e }

/-- A write to the cache structure at `c`. -/
def Heap.setCache (h : Heap) (c : ℕ) (e : Cache) : Heap :=
  { h with caches := Function.update h.caches c e }

@[simp] theorem Heap.setSlab_self (h : Heap) (s : ℕ) (e : Slab) : (h.setSlab s e).slabs s = e := by
  simp [Heap.setSlab]

theorem Heap.setSlab_of_ne (h : Heap) {s t : ℕ} (e : Slab) (hne : t ≠ s) :
    (h.setSlab s e).slabs t = h.slabs t := by
  simp [Heap.setSlab, hne]

@[simp] theorem Heap.setSlab_caches (h : Heap) (s : ℕ) (e : Slab) :
    (h.setSlab s e).caches = h.caches := rfl

@[simp] theorem Heap.setCache_self (h : Heap) (c : ℕ) (e : Cache) : (h.setCache c e).caches c = e := by
  simp [Heap.setCache]

theorem Heap.setCache_of_ne (h : Heap) {c d : ℕ} (e : Cache) (hne : d ≠ c) :
    (h.setCache c e).caches d = h.caches d := by
  simp [Heap.setCache, hne]

@[simp] theorem Heap.setCache_slabs (h : Heap) (c : ℕ) (e : Cache) :
    (h.setCache c e).slabs = h.slabs := rfl

/-- `node` after `while(node->next != NULL) node = node->next;`, for slabs. -/
def Heap.lastSlab (h : Heap) (s : ℕ) : Option ℕ :=
  lastNode 0 (fun s => (h.slabs s).next) h.slabCnt s

/-- The same for caches. -/
def Heap.lastCache (h : Heap) (c : ℕ) : Option ℕ :=
  lastNode 0 (fun c => (h.caches c).next) h.cacheCnt c

/-! ## Making slabs and caches -/

/-- `pages_per_slab` of a cache; `div_roundup` takes and returns signed words.
SRCLINE: kernel/mm/slab.cpp:33 -/
def pagesPerSlab (objectSize : ℕ) : ℕ :=
  ofSigned (divRoundup (toSigned (wrap (objectSize * objectsPerSlab + slabSize + objectsPerSlab / 8)))
    pageSize)

/-- The header that `alloc_slab` writes to the zeroed pages.
SRCLINE: kernel/mm/slab.cpp:12-17 -/
def newSlab (parent page : ℕ) : Slab where
  availableObjects := objectsPerSlab
  parent := parent
  buf := ofSigned (alignUp (toSigned (wrap (page + slabSize + objectsPerSlab / 8))) 16)
  bitmap := wrap (page + slabSize)
  next := 0
  last := 0

/-- `pmm::calloc`: the bytes of `pages` pages from `page` on are zero. -/
def zeroPages (m : Memory) (page pages : ℕ) : Memory :=
  fun a => if page ≤ a ∧ a < page + pages * pageSize then 0 else m a

/-- `alloc_slab`, for the cache `parent` whose contents are `e`; returns its new contents.
SRCLINE: kernel/mm/slab.cpp:11-30 -/
def allocSlab (h : Heap) (parent : ℕ) (e : Cache) (page : ℕ) : Option (Heap × Cache) :=
  let h := { h with
    mem := zeroPages h.mem page e.pagesPerSlab
    slabs := Function.update h.slabs page (newSlab parent page)
    slabCnt := h.slabCnt + 1 }
  if e.slabEmpty = 0 then some (h, { e with slabEmpty := page })
  else
    match h.lastSlab e.slabEmpty with
    | none => none
    | some node =>
      let h := h.setSlab node { h.slabs node with next := page }
      some (h.setSlab page { h.slabs page with last := node }, e)

/-- `cache::cache`. Only three members are initialised; `storage` is what the memory of the object
holds. The object that is made is a temporary: a copy of it in the first slab stays.
SRCLINE: kernel/mm/slab.cpp:32-52 -/
def newCache (h : Heap) (storage : Cache) (objectSize page : ℕ) : Option Heap :=
  let this := { storage with objectSize := objectSize, pagesPerSlab := pagesPerSlab objectSize }
  match allocSlab h 0 this page with
  | none => none
  | some (h, this) =>
    let c := (h.slabs page).buf
    let h : Heap := { h.setCache c this with cacheCnt := h.cacheCnt + 1 }
    let h := h.setSlab page { h.slabs page with buf := wrap (c + cacheSize), parent := c }
    if h.cacheRoot = 0 then some { h with cacheRoot := c }
    else
      match h.lastCache h.cacheRoot with
      | none => none
      | some node =>
        let h := h.setCache node { h.caches node with next := c }
        some (h.setCache c { h.caches c with last := node })

/-! ## Allocation -/

/-- The lists of a cache. -/
inductive SlabList
  | emptyList
  | partialList
  | fullList

def Cache.head (e : Cache) : SlabList → ℕ
  | .emptyList => e.slabEmpty
  | .partialList => e.slabPartial
  | .fullList => e.slabFull

def Cache.setHead (e : Cache) (l : SlabList) (s : ℕ) : Cache :=
  match l with
  | .emptyList => { e with slabEmpty := s }
  | .partialList => { e with slabPartial := s }
  | .fullList => { e with slabFull := s }

/-- `cache::move_slab`.
SRCLINE: kernel/mm/slab.cpp:104-129 -/
def moveSlab (h : Heap) (c : ℕ) (dest src : SlabList) (s : ℕ) : Option Heap :=
  if s = 0 ∨ (h.caches c).head src = 0 then some h
  else
    let next := (h.slabs s).next
    let h := if next ≠ 0 then h.setSlab next { h.slabs next with last := (h.slabs s).last } else h
    let last := (h.slabs s).last
    let h := if last ≠ 0 then h.setSlab last { h.slabs last with next := (h.slabs s).next } else h
    let h := if (h.caches c).head src = s then
      h.setCache c ((h.caches c).setHead src (h.slabs s).next) else h
    if (h.caches c).head dest = 0 then
      let h := h.setSlab s { h.slabs s with last := 0, next := 0 }
      some (h.setCache c ((h.caches c).setHead dest s))
    else
      match h.lastSlab ((h.caches c).head dest) with
      | none => none
      | some node =>
        let h := h.setSlab node { h.slabs node with next := s }
        some (h.setSlab s { h.slabs s with last := node })

/-- The loop of `slab::alloc`: the first clear bit from `i` on.
SRCLINE: kernel/mm/slab.cpp:132-139 -/
def firstClear (m : Memory) (bitmap : ℕ) : ℕ → ℕ → Option ℕ
  | 0, _ => none
  | n + 1, i => if bmTest m bitmap i then firstClear m bitmap n (i + 1) else some i

/-- `slab::alloc`, with the address it returns.
SRCLINE: kernel/mm/slab.cpp:131-142 -/
def slabAlloc (h : Heap) (s : ℕ) : Heap × ℕ :=
  match firstClear h.mem (h.slabs s).bitmap objectsPerSlab 0 with
  | none => (h, 0)
  | some i =>
    let e := h.slabs s
    ({ h.setSlab s { e with availableObjects := wrap (e.availableObjects + (2 ^ 64 - 1)) } with
      mem := bmSet h.mem e.bitmap i }, wrap (e.buf + i * (h.caches e.parent).objectSize))

/-- `cache::alloc_obj` for the cache at `c`.
SRCLINE: kernel/mm/slab.cpp:54-77 -/
def allocObj (h : Heap) (c page : ℕ) : Option (Heap × ℕ) :=
  let e := h.caches c
  let s := if e.slabPartial ≠ 0 then e.slabPartial else e.slabEmpty
  let found := if s ≠ 0 then some (h, s)
    else
      match allocSlab h c e page with
      | none => none
      | some (h, e) => some (h.setCache c { e with slabEmpty := page }, page)
  match found with
  | none => none
  | some (h, s) =>
    let (h, addr) := slabAlloc h s
    let moved :=
      if (h.slabs s).availableObjects = 0 then moveSlab h c .fullList .partialList s
      else if (h.slabs s).availableObjects = objectsPerSlab - 1 then
        moveSlab h c .partialList .emptyList s
      else some h
    match moved with
    | none => none
    | some h => some (h, addr)

/-- `pow2_roundup`, which stops at a shift by 16.
SRCLINE: kernel/lib/memutils.hpp:31-40 -/
def pow2Roundup (a : ℕ) : ℕ :=
  let a := wrap (a + (2 ^ 64 - 1))
  let a := a ||| a >>> 1
  let a := a ||| a >>> 2
  let a := a ||| a >>> 4
  let a := a ||| a >>> 8
  let a := a ||| a >>> 16
  wrap (a + 1)

/-- The object size that `kmm::alloc` looks for.
SRCLINE: kernel/mm/slab.cpp:154-156 -/
def roundSize (size : ℕ) : ℕ := if pow2Roundup size ≤ 16 then 32 else pow2Roundup size

/-- The loop of `kmm::alloc` over the caches; a `NULL` root is followed.
SRCLINE: kernel/mm/slab.cpp:158-169 -/
def cacheFor (h : Heap) (size : ℕ) : Option (Option ℕ) :=
  if h.cacheRoot = 0 then none
  else findNode 0 (fun c => (h.caches c).next) (fun c => (h.caches c).objectSize = roundSize size)
    h.cacheCnt h.cacheRoot

/-- `kmm::alloc`, with the address it returns.
SRCLINE: kernel/mm/slab.cpp:150-173 -/
def alloc (h : Heap) (size page : ℕ) : Option (Heap × ℕ) :=
  if size = 0 then some (h, 0)
  else
    match cacheFor h size with
    | none => none
    | some none => some (h, 0)
    | some (some c) => allocObj h c page

/-! ## Freeing -/

/-- `scan_slab`: clears the bit of `obj` if it is in the buffer of the slab `s`.
SRCLINE: kernel/mm/slab.cpp:80-91 -/
def scanSlab (h : Heap) (objectSize s obj : ℕ) : Option Heap :=
  if s = 0 then none
  else
    let e := h.slabs s
    if e.buf ≤ obj ∧ obj < wrap (e.buf + objectSize * objectsPerSlab) then
      some { h with mem := bmClear h.mem e.bitmap ((obj - e.buf) / objectSize) }
    else none

/-- `cache::free_obj`; no result is the return value `-1`.
SRCLINE: kernel/mm/slab.cpp:79-102 -/
def freeObj (h : Heap) (c obj : ℕ) : Option Heap :=
  let e := h.caches c
  match scanSlab h e.objectSize e.slabPartial obj with
  | some h => some h
  | none => scanSlab h e.objectSize e.slabFull obj

/-- The loop of `kmm::free`: it ends at the first cache whose `free_obj` returns `-1`.
SRCLINE: kernel/mm/slab.cpp:183-189 -/
def freeLoop : ℕ → Heap → ℕ → ℕ → Option (Heap × ℕ)
  | 0, _, _, _ => none
  | n + 1, h, c, obj =>
    match freeObj h c obj with
    | none => some (h, (h.caches c).objectSize)
    | some h => if (h.caches c).next = 0 then some (h, 0) else freeLoop n h (h.caches c).next obj

/-- `kmm::free`, with the size it returns.
SRCLINE: kernel/mm/slab.cpp:175-194 -/
def free (h : Heap) (obj : ℕ) : Option (Heap × ℕ) :=
  if obj = 0 then some (h, 0)
  else if h.cacheRoot = 0 then none
  else freeLoop h.cacheCnt h h.cacheRoot obj

/-! ## Reallocation -/

/-- `kmm::calloc`.
SRCLINE: kernel/mm/slab.cpp:196-205 -/
def calloc (h : Heap) (cnt page : ℕ) : Option (Heap × ℕ) :=
  match alloc h cnt page with
  | none => none
  | some (h, addr) =>
    if addr = 0 then some (h, 0) else some ({ h with mem := memset8 h.mem addr 0 cnt }, addr)

/-- The common part of `kmm::realloc` and `kmm::recalloc`, which allocate with `alloc` and `calloc`.
A copy to `NULL` faults.
SRCLINE: kernel/mm/slab.cpp:207-239 -/
def reallocWith (allocate : Heap → ℕ → ℕ → Option (Heap × ℕ)) (h : Heap) (addr cnt page : ℕ) :
    Option (Heap × ℕ) :=
  if addr = 0 then some (h, 0)
  else
    match free h addr with
    | none => none
    | some (h, allocSize) =>
      match allocate h cnt page with
      | none => none
      | some (h, newAddr) =>
        let bytesToCopy := if cnt < allocSize then allocSize else cnt
        if newAddr = 0 then none
        else some ({ h with mem := memcpy8 h.mem newAddr addr bytesToCopy }, newAddr)

/-- `kmm::realloc`. -/
def realloc : Heap → ℕ → ℕ → ℕ → Option (Heap × ℕ) := reallocWith alloc

/-- `kmm::recalloc`. -/
def recalloc : Heap → ℕ → ℕ → ℕ → Option (Heap × ℕ) := reallocWith calloc

end CrepOS.Model
