import CrepOS.Model.Memutils

/-!
# Address spaces, `mm/mmap.cpp`

A page map has a bitmap of the addresses in use: bit `i` stands for the page at
`mmap_min_addr + i * page_size`. The bitmap is an object of the kernel heap, and the model keeps its
bytes in a memory of their own, at the address `0`. `bm_size` is its size in bytes; the loop of
`mmap_alloc` takes it for the number of its bits.

`kmm::calloc` returns zeroed bytes. `kmm::recalloc(bitmap, bm_size)` copies `bm_size` bytes from the old
object, so the bytes behind the old size are those that happen to follow the old object: they are an
argument (`behind`). The largest cache that `main` makes has objects of 262144 bytes, and a larger
request ends in a copy to `NULL`. `CrepOS.Analysis.MmapBitmap` proves this of the model of the heap.

The page tables, which `map_range` and `unmap_range` change, and the file that a fixed mapping without
`map_anonymous` reads are left out: neither has an influence on the addresses.
-/

set_option autoImplicit false

namespace CrepOS.Model

open CrepOS.Library

/-- `map_fixed`. -/
abbrev mapFixed : ℕ := 0x4

/-- `map_anonymous`. -/
abbrev mapAnonymous : ℕ := 0x8

/-- `mmap_min_addr`. -/
abbrev mmapMinAddr : ℕ := 0x10000

/-- The members of `struct pmlx_table` that `mmap.cpp` uses; no bitmap is `NULL`.
SRCLINE: kernel/mm/vmm.hpp:197-198 -/
structure PageMap where
  bitmap : Option Memory
  bmSize : ℕ

/-- `kmm::recalloc` of a bitmap of `size` bytes.
SRCLINE: kernel/mm/slab.cpp:224-239 -/
@[irreducible] def recallocBitmap (bitmap : Memory) (size cnt : ℕ) (behind : Memory) : Option Memory :=
  if cnt ≤ 262144 then some fun a => if a < size then bitmap a else behind a else none

/-- `page_cnt`; `div_roundup` takes and returns signed words.
SRCLINE: kernel/mm/mmap.cpp:9 -/
def pageCnt (length : ℕ) : ℕ := ofSigned (divRoundup (toSigned length) pageSize)

/-- `bm_index`.
SRCLINE: kernel/mm/mmap.cpp:16-18 -/
def bmIndex (address : ℕ) : ℕ := wrap (address + (2 ^ 64 - mmapMinAddr)) / pageSize

/-- The number of iterations of `for(size_t i = index; i < index + cnt; i++)`. -/
def rangeCnt (index cnt : ℕ) : ℕ := wrap (index + cnt) - index

/-- The bitmap is made when it is first needed.
SRCLINE: kernel/mm/mmap.cpp:11-14 -/
def PageMap.init (pm : PageMap) : PageMap :=
  if pm.bitmap.isNone then ⟨some fun _ => 0, 0x1000⟩ else pm

/-- `bm_size` after the bitmap has grown.
SRCLINE: kernel/mm/mmap.cpp:47 -/
def grownSize (size : ℕ) : ℕ := wrap (size + 0x1000)

/-- The loop of `mmap_alloc`, from the bit `i` on with `n` bits left; its result is the `offset` at
which it returns.
SRCLINE: kernel/mm/mmap.cpp:28-45 -/
def findRun (m : Memory) (pageCnt : ℕ) : ℕ → ℕ → ℕ → ℕ → Option ℕ
  | 0, _, _, _ => none
  | n + 1, i, cnt, offset =>
    let offset' := if bmTest m 0 i then wrap (offset + cnt + 1) else offset
    let cnt' := if bmTest m 0 i then 0 else cnt
    if cnt' + 1 = pageCnt then some offset'
    else findRun m pageCnt n (i + 1) (cnt' + 1) offset'

/-- `mmap_alloc` up to the place where the bitmap grows: no result if it has to.
SRCLINE: kernel/mm/mmap.cpp:8-45 -/
def mmapTry (addr length flags : ℕ) (m : Memory) (size : ℕ) : Option (PageMap × ℕ) :=
  if flags &&& mapFixed ≠ 0 then
    let index := bmIndex addr
    some (⟨some (m.setRun 0 index (rangeCnt index (pageCnt length))), size⟩, addr)
  else
    match findRun m (pageCnt length) size 0 0 0 with
    | none => none
    | some offset =>
      let addr := wrap (offset * pageSize + mmapMinAddr)
      let index := bmIndex addr
      some (⟨some (m.setRun 0 index (rangeCnt index (pageCnt length))), size⟩, addr)

/-- `mmap_alloc`, with the address it returns. It calls itself after the bitmap has grown; `behind` are
the bytes that the calls of `kmm::recalloc` find behind the bitmap, one for each call.
SRCLINE: kernel/mm/mmap.cpp:8-50 -/
def mmapAlloc (addr length flags : ℕ) : List Memory → PageMap → Option (PageMap × ℕ)
  | [], pm =>
    match pm.init.bitmap with
    | none => none
    | some m => mmapTry addr length flags m pm.init.bmSize
  | b :: behind, pm =>
    match pm.init.bitmap with
    | none => none
    | some m =>
      match mmapTry addr length flags m pm.init.bmSize with
      | some r => some r
      | none =>
        match recallocBitmap m pm.init.bmSize (grownSize pm.init.bmSize) b with
        | none => none
        | some m => mmapAlloc addr length flags behind ⟨some m, grownSize pm.init.bmSize⟩

/-- `check_mmap_addr`, with the value it returns.
SRCLINE: kernel/mm/mmap.cpp:52-77 -/
def checkMmapAddr (pm : PageMap) (addr length flags : ℕ) : PageMap × ℤ :=
  if addr = 0 then (pm, -1)
  else if flags = mapFixed then (pm, 0)
  else
    let index := bmIndex addr
    let taken := (List.range (rangeCnt index (pageCnt length))).any fun i =>
      pm.init.bitmap.any fun m => bmTest m 0 (index + i)
    (pm.init, if taken then -1 else 0)

/-- `mmap`, with the address it returns.
SRCLINE: kernel/mm/mmap.cpp:79-104 -/
def mmap (pm : PageMap) (addr length flags : ℕ) (behind : List Memory) : Option (PageMap × ℕ) :=
  if flags = mapAnonymous then
    let (pm, free) := checkMmapAddr pm addr length flags
    if free = -1 then mmapAlloc addr length flags behind pm else some (pm, addr)
  else if flags &&& mapFixed ≠ 0 then
    (mmapAlloc addr length flags behind pm).map fun r => (r.1, addr)
  else some (pm, addr)

/-- `munmap`, with the value it returns.
SRCLINE: kernel/mm/mmap.cpp:106-123 -/
def munmap (pm : PageMap) (addr length : ℕ) : PageMap × ℤ :=
  let index := bmIndex addr
  if pm.bmSize ≤ index then (pm, -1)
  else
    let cnt := if pm.bmSize < wrap (index + pageCnt length) then pm.bmSize - index else pageCnt length
    ({ pm with bitmap := pm.bitmap.map fun m => m.clearRun 0 index (rangeCnt index cnt) }, 0)

end CrepOS.Model
