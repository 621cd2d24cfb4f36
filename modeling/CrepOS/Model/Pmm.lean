import CrepOS.Model.Memutils

/-!
# The physical memory manager, `mm/pmm.cpp`

The chunks of the list that starts at `root` are a list of `MemChunk`s in list order. Their bitmaps
lie in one byte memory at the addresses their `bitmap` fields hold, so an index past the end of a
bitmap reads the byte that really follows it: the padding of its last byte, then whatever the
buffer of `pmm::init` holds next. The chunk headers are kept outside that memory.

Page counts, indices and addresses are `size_t` values: natural numbers with the wrap-around of
`CrepOS.Model.Memutils`. The spin locks are left out: a call is atomic.
-/

set_option autoImplicit false

namespace CrepOS.Model

open CrepOS.Library

/-- `pmm::mem_chunk`; `next` and `last` are the position in the chunk list.
SRCLINE: kernel/mm/pmm.cpp:6-28 -/
structure MemChunk where
  base : ℕ
  pageCnt : ℕ
  bitmapSize : ℕ
  bitmap : ℕ
  deriving DecidableEq, Repr

/-- How the inner loop of `mem_chunk::alloc` ends: at a set bit, after `cnt` clear bits, or because
`j < i + cnt` fails, which happens at once when `i + cnt` wraps. -/
inductive WindowScan
  | taken
  | fits
  | unread
  deriving DecidableEq, Repr

/-- The inner loop of `mem_chunk::alloc`: `n` iterations remain until `j = i + cnt`.
SRCLINE: kernel/mm/pmm.cpp:106-119 -/
def scanWindow (m : Memory) (bitmap cnt : ℕ) : ℕ → ℕ → ℕ → WindowScan
  | 0, _, _ => .unread
  | n + 1, j, count =>
    if bmTest m bitmap j then .taken
    else if count + 1 = cnt then .fits
    else scanWindow m bitmap cnt n (j + 1) (count + 1)

/-- The outer loop of `mem_chunk::alloc`, from page index `i` with the address `allocBase`; the
result is the index and the address at which it stops. `i` is below `pageCnt` at most `pageCnt`
times, which bounds the iterations.
SRCLINE: kernel/mm/pmm.cpp:105-120 -/
def allocLoop (m : Memory) (c : MemChunk) (cnt align : ℕ) : ℕ → ℕ → ℕ → Option (ℕ × ℕ)
  | 0, _, _ => none
  | n + 1, i, allocBase =>
    if i < c.pageCnt then
      match scanWindow m c.bitmap cnt (wrap (i + cnt) - i) i 0 with
      | .fits => some (i, allocBase)
      | .taken => allocLoop m c cnt align n (wrap (i + align)) (wrap (allocBase + align * pageSize))
      | .unread => allocLoop m c cnt align n (wrap (i + align)) allocBase
    else none

/-- The first address `mem_chunk::alloc` looks at: the chunk's base rounded up to the alignment.
SRCLINE: kernel/mm/pmm.cpp:102 -/
def MemChunk.allocBase (c : MemChunk) (align : ℕ) : ℕ :=
  ofSigned (alignUp (toSigned c.base) (toSigned (wrap (align * pageSize))))

/-- The page index of that address.
SRCLINE: kernel/mm/pmm.cpp:103 -/
def MemChunk.bitBase (c : MemChunk) (align : ℕ) : ℕ :=
  wrap (c.allocBase align + (2 ^ 64 - c.base)) / pageSize

/-- The state of the allocator: the memory that holds the bitmaps, the chunk list from `root` on,
and `total_used_mem`.
SRCLINE: kernel/mm/pmm.cpp:30-33 -/
structure Pmm where
  mem : Memory
  chunks : List MemChunk
  totalUsedMem : ℕ

/-- `mem_chunk::alloc`. `none` is the trap of the division when `align * page_size` wraps to `0`.
SRCLINE: kernel/mm/pmm.cpp:99-124 -/
def MemChunk.alloc (c : MemChunk) (s : Pmm) (cnt align : ℕ) : Option (Pmm × ℕ) :=
  if wrap (align * pageSize) = 0 then none
  else
    match allocLoop s.mem c cnt align c.pageCnt (c.bitBase align) (c.allocBase align) with
    | some (i, allocBase) =>
      some ({ s with
        mem := s.mem.setRun c.bitmap i cnt
        totalUsedMem := wrap (s.totalUsedMem + cnt * pageSize) }, allocBase)
    | none => some (s, minusOne)

/-- `mem_chunk::free`: `base` is relative to the chunk.
SRCLINE: kernel/mm/pmm.cpp:126-133 -/
def MemChunk.free (c : MemChunk) (s : Pmm) (base cnt : ℕ) : Pmm :=
  let i := ofSigned (divRoundup (toSigned base) pageSize)
  let n := wrap (i + cnt) - i
  { s with
    mem := s.mem.clearRun c.bitmap i n
    totalUsedMem := wrap (s.totalUsedMem + (2 ^ 64 - wrap (n * pageSize))) }

/-- The loop of `pmm::alloc` over the rest of the chunk list.
SRCLINE: kernel/mm/pmm.cpp:143-149 -/
def Pmm.allocFrom (cnt align : ℕ) : List MemChunk → Pmm → Option (Pmm × ℕ)
  | [], s => some (s, minusOne)
  | c :: cs, s =>
    match c.alloc s cnt align with
    | none => none
    | some (s', a) => if a = minusOne then Pmm.allocFrom cnt align cs s' else some (s', a)

/-- `pmm::alloc`. The loop tests the chunk pointer only after using it, so an empty list faults.
SRCLINE: kernel/mm/pmm.cpp:141-154 -/
def Pmm.alloc (s : Pmm) (cnt align : ℕ) : Option (Pmm × ℕ) :=
  if s.chunks = [] then none else Pmm.allocFrom cnt align s.chunks s

/-- The test by which `pmm::free` recognises the chunk of a range.
SRCLINE: kernel/mm/pmm.cpp:165 -/
def MemChunk.holds (c : MemChunk) (base cnt : ℕ) : Bool :=
  c.base ≤ base &&
    wrap (base + cnt * pageSize) ≤ wrap (c.base + c.pageCnt * pageSize)

/-- `pmm::free`.
SRCLINE: kernel/mm/pmm.cpp:162-170 -/
def Pmm.free (s : Pmm) (base cnt : ℕ) : Option Pmm :=
  if s.chunks = [] then none
  else
    match s.chunks.find? fun c => c.holds base cnt with
    | some c => some (c.free s (base - c.base) cnt)
    | none => some s

end CrepOS.Model
