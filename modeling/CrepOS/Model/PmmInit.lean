import CrepOS.Model.Pmm
import CrepOS.Model.Vmm

/-!
# `pmm::init`

The chunk list is built from the memory map of the bootloader: the first usable entry that is large
enough gives the buffer for the chunk headers and bitmaps, and it and the usable entries after it become
chunks. The headers are kept outside the memory, as in `CrepOS.Model.Pmm`, but their room in the buffer
counts. The log output is left out.
-/

set_option autoImplicit false

namespace CrepOS.Model

open CrepOS.Library

/-- `stivale_mmap`.
SRCLINE: kernel/lib/stivale.hpp:12-17 -/
structure StivaleMmap where
  addr : ℕ
  len : ℕ
  type : ℕ
  deriving DecidableEq, Repr

/-- `sizeof(mem_chunk)`: seven words.
SRCLINE: kernel/mm/pmm.cpp:6-28 -/
def memChunkSize : ℕ := 56

/-- `max_size`: the room for a header and a bitmap for each usable entry.
SRCLINE: kernel/mm/pmm.cpp:38-47 -/
def maxSize (mmap : List StivaleMmap) : ℕ :=
  mmap.foldl (fun bufferSize e =>
    if e.type = 1 then wrap (bufferSize + (memChunkSize + e.len / pageSize / 8)) else bufferSize) 0

/-- `total_mem`: the lengths of all entries, usable or not.
SRCLINE: kernel/mm/pmm.cpp:43 -/
def totalMem (mmap : List StivaleMmap) : ℕ := mmap.foldl (fun total e => wrap (total + e.len)) 0

/-- What `pmm::init` has built so far; `buffer` is the next free byte for headers and bitmaps. -/
structure PmmBuild where
  mem : Memory
  buffer : ℕ
  chunks : List MemChunk

/-- `mem_chunk::chunk_alloc`.
SRCLINE: kernel/mm/pmm.cpp:135-139 -/
def PmmBuild.chunkAlloc (b : PmmBuild) (cnt : ℕ) : PmmBuild × ℕ :=
  ({ b with buffer := wrap (b.buffer + cnt) }, b.buffer)

/-- `mem_chunk::mem_chunk`.
SRCLINE: kernel/mm/pmm.cpp:93-97 -/
def PmmBuild.memChunk (b : PmmBuild) (base pageCnt : ℕ) : PmmBuild × MemChunk :=
  let bitmapSize := ofSigned (divRoundup (toSigned pageCnt) 8)
  let (b, bitmap) := b.chunkAlloc bitmapSize
  ({ b with mem := memset8 b.mem bitmap 0 bitmapSize }, ⟨base, pageCnt, bitmapSize, bitmap⟩)

/-- `mmap[i].addr` rounded up to a page.
SRCLINE: kernel/mm/pmm.cpp:67 -/
def StivaleMmap.alignedAddr (e : StivaleMmap) : ℕ := ofSigned (alignUp (toSigned e.addr) pageSize)

/-- `mmap[i].len` without the bytes before that page.
SRCLINE: kernel/mm/pmm.cpp:68 -/
def StivaleMmap.alignedLen (e : StivaleMmap) : ℕ :=
  wrap (e.len + (2 ^ 64 - wrap (e.alignedAddr + (2 ^ 64 - e.addr))))

/-- The last loop of `pmm::init`: the first chunk gets its header before its bitmap, a later one behind
it.
SRCLINE: kernel/mm/pmm.cpp:65-78, 81-91 -/
def PmmBuild.addEntry (b : PmmBuild) (e : StivaleMmap) : PmmBuild :=
  if e.type = 1 ∧ e.len ≠ 0 then
    if b.chunks = [] then
      let (b, _) := b.chunkAlloc memChunkSize
      let (b, chunk) := b.memChunk e.alignedAddr (e.alignedLen / pageSize)
      { b with chunks := [chunk] }
    else
      let (b, chunk) := b.memChunk e.alignedAddr (e.alignedLen / pageSize)
      let (b, _) := b.chunkAlloc memChunkSize
      { b with chunks := b.chunks ++ [chunk] }
  else b

/-- The entries that the last loop goes over: from the one that gives the buffer on, which loses it.
SRCLINE: kernel/mm/pmm.cpp:55-64 -/
def managedEntries (mmap : List StivaleMmap) : List StivaleMmap :=
  match mmap.dropWhile fun e => ¬ (e.type = 1 ∧ maxSize mmap ≤ e.len) with
  | [] => []
  | e :: es => ⟨wrap (e.addr + maxSize mmap), e.len - maxSize mmap, e.type⟩ :: es

/-- `mem_chunk::buffer` before the last loop.
SRCLINE: kernel/mm/pmm.cpp:58 -/
def firstBuffer (mmap : List StivaleMmap) : ℕ :=
  match mmap.find? fun e => e.type = 1 ∧ maxSize mmap ≤ e.len with
  | none => 0
  | some e => wrap (e.addr + highVma.toNat)

/-- `pmm::init`.
SRCLINE: kernel/mm/pmm.cpp:35-79 -/
def pmmInit (mem : Memory) (mmap : List StivaleMmap) : Pmm :=
  let b := (managedEntries mmap).foldl PmmBuild.addEntry ⟨mem, firstBuffer mmap, []⟩
  ⟨b.mem, b.chunks, 0⟩

end CrepOS.Model
