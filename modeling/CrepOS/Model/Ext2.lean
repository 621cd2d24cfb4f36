import CrepOS.Library.ByteBuffers
import CrepOS.Model.Fd
import CrepOS.Model.LibString

/-!
# The ext2 file system, `fs/ext2`

The device is a memory of bytes, from the start of the partition on; it is read and written through
`devfs_node`, which is assumed to move exactly the bytes asked for. `Ext2Super` has the members of
`ext2::fs` that do not change after the constructor, and the sector size of the device. The raw records
are kept as their bytes, so that a member is a word of them; a block bitmap or a directory that is read
is a buffer. What a new buffer contains, and what follows it in memory, is an argument where a function
may read it.

The numbers of blocks and inodes are `uint32_t`; `get_block` returns an `ssize_t` of which the callers
keep the low 32 bits, and those are what it returns here. Offsets and counts are natural numbers, and
their sums do not wrap.
-/

set_option autoImplicit false

namespace CrepOS.Model

open CrepOS.Library

/-- The members of `ext2::fs` and of its superblock that are used, and `device->sector_size`.
SRCLINE: kernel/fs/ext2/ext2.hpp:8-45, 171-182 -/
structure Ext2Super where
  sectorSize : ℕ
  blockSize : ℕ
  blocksPerGroup : ℕ
  inodesPerGroup : ℕ
  inodeSize : ℕ
  bgdCnt : ℕ
  deriving DecidableEq

variable (g : Ext2Super)

/-! ### Block group descriptors -/

/-- `sizeof(raw)` of a descriptor.
SRCLINE: kernel/fs/ext2/ext2.hpp:72-80 -/
abbrev rawBgdSize : ℕ := 32

/-- Where the constructor and `write_back` find a descriptor.
SRCLINE: kernel/fs/ext2/block.cpp:6-9, 20-23 -/
def bgdPos (bgdIndex : ℕ) : ℕ :=
  (if g.blockSize ≥ 2048 then g.blockSize else g.blockSize * 2) +
    rawBgdSize * (bgdIndex / g.inodesPerGroup)

/-- `bgd(parent, bgd_index)`.
SRCLINE: kernel/fs/ext2/block.cpp:5-10 -/
def readBgd (disk : Memory) (bgdIndex : ℕ) : Memory := disk.load (bgdPos g bgdIndex) rawBgdSize

/-- The common body of `bgd::alloc_block` and `bgd::alloc_inode`, with the places of the number of the
bitmap block and of the count in the descriptor: the first clear bit.
SRCLINE: kernel/fs/ext2/block.cpp:26-52, 54-80 -/
def takeBit (bitmapAt countAt : ℕ) (disk : Memory) (bgdIndex : ℕ) : Memory × Option ℕ :=
  let raw := readBgd g disk bgdIndex
  if raw.word countAt 2 = 0 then (disk, none)
  else
    let pos := raw.word bitmapAt 4 * g.blockSize
    let bitmap := disk.load pos g.blockSize
    match findClear (bmTest bitmap 0) 0 g.blockSize with
    | none => (disk, none)
    | some i =>
      let disk := disk.store pos g.blockSize (bmSet bitmap 0 i)
      (disk.store (bgdPos g bgdIndex) rawBgdSize (raw.setWord countAt 2 (raw.word countAt 2 - 1)), some i)

/-- `bgd::alloc_block`, with `block_addr_bitmap` and `unallocated_blocks`.
SRCLINE: kernel/fs/ext2/block.cpp:26-52 -/
def bgdAllocBlock : Memory → ℕ → Memory × Option ℕ := takeBit g 0 12

/-- `bgd::alloc_inode`, with `block_addr_inode` and `unallocated_inodes`; inodes are counted from `1`.
SRCLINE: kernel/fs/ext2/block.cpp:54-80 -/
def bgdAllocInode (disk : Memory) (bgdIndex : ℕ) : Memory × Option ℕ :=
  let (disk, bit) := takeBit g 4 14 disk bgdIndex
  (disk, bit.map (· + 1))

/-- The common loop of `fs::alloc_block` and `fs::alloc_inode` over the groups from `i` on.
SRCLINE: kernel/fs/ext2/ext2.cpp:28-39, 63-74 -/
def allocFromGroups (alloc : Memory → ℕ → Memory × Option ℕ) (perGroup : ℕ) :
    ℕ → ℕ → Memory → Memory × Option ℕ
  | 0, _, disk => (disk, none)
  | n + 1, i, disk =>
    match alloc disk i with
    | (disk, some k) => (disk, some (i * perGroup + k))
    | (disk, none) => allocFromGroups alloc perGroup n (i + 1) disk

/-- `fs::alloc_block`; `none` is `-1`.
SRCLINE: kernel/fs/ext2/ext2.cpp:28-39 -/
def ext2AllocBlock (disk : Memory) : Memory × Option ℕ :=
  allocFromGroups (bgdAllocBlock g) g.blocksPerGroup g.bgdCnt 0 disk

/-- `fs::alloc_inode`; `none` is `-1`.
SRCLINE: kernel/fs/ext2/ext2.cpp:63-74 -/
def ext2AllocInode (disk : Memory) : Memory × Option ℕ :=
  allocFromGroups (bgdAllocInode g) g.inodesPerGroup g.bgdCnt 0 disk

/-- The common body of `fs::free_block` and `fs::free_inode`, for the bit of `index`, with the places of
the number of the bitmap block and of the count in the descriptor. The number is used as an offset.
SRCLINE: kernel/fs/ext2/ext2.cpp:41-61, 76-96 -/
def clearBitmapBit (bitmapAt countAt perGroup : ℕ) (disk : Memory) (index : ℕ) : Memory :=
  let bgdIndex := index / perGroup
  let bitmapIndex := index - bgdIndex * perGroup
  let raw := readBgd g disk bgdIndex
  let bitmap := disk.load (raw.word bitmapAt 4) g.blockSize
  if bmTest bitmap 0 bitmapIndex then
    let disk := disk.store (raw.word bitmapAt 4) g.blockSize (bmClear bitmap 0 bitmapIndex)
    disk.store (bgdPos g bgdIndex) rawBgdSize (raw.setWord countAt 2 (raw.word countAt 2 + 1))
  else disk

/-- `fs::free_block`.
SRCLINE: kernel/fs/ext2/ext2.cpp:41-61 -/
def freeBlock : Memory → ℕ → Memory := clearBitmapBit g 0 12 g.blocksPerGroup

/-- `fs::free_inode`.
SRCLINE: kernel/fs/ext2/ext2.cpp:76-96 -/
def freeInode : Memory → ℕ → Memory := clearBitmapBit g 4 14 g.inodesPerGroup

/-! ### Inodes -/

/-- `ext2::inode`: the bytes of `raw`, and `inode_index`.
SRCLINE: kernel/fs/ext2/ext2.hpp:84-134 -/
structure Inode where
  raw : Memory
  index : ℕ

/-- `sizeof(raw)` of an inode.
SRCLINE: kernel/fs/ext2/ext2.hpp:112-130 -/
abbrev rawInodeSize : ℕ := 116

namespace Inode

/-- `raw.size32l`. -/
def size32l (ino : Inode) : ℕ := ino.raw.word 4 4

/-- `raw.hard_link_cnt`. -/
def hardLinkCnt (ino : Inode) : ℕ := ino.raw.word 26 2

/-- `raw.sector_cnt`. -/
def sectorCnt (ino : Inode) : ℕ := ino.raw.word 28 4

/-- `raw.blocks[i]`. -/
def blocks (ino : Inode) (i : ℕ) : ℕ := ino.raw.word (40 + 4 * i) 4

/-- An assignment to a member of `raw`, the `n` bytes from `at` on. -/
def setRaw (ino : Inode) (a n v : ℕ) : Inode := { ino with raw := ino.raw.setWord a n v }

/-- Assigns `raw.size32l`. -/
def setSize32l (ino : Inode) (v : ℕ) : Inode := ino.setRaw 4 4 v

/-- Assigns `raw.hard_link_cnt`. -/
def setHardLinkCnt (ino : Inode) (v : ℕ) : Inode := ino.setRaw 26 2 v

/-- Assigns `raw.sector_cnt`. -/
def setSectorCnt (ino : Inode) (v : ℕ) : Inode := ino.setRaw 28 4 v

/-- Assigns `raw.blocks[i]`. -/
def setBlocks (ino : Inode) (i v : ℕ) : Inode := ino.setRaw (40 + 4 * i) 4 v

end Inode

/-- `inode_index - 1` in 32 bits. -/
def inodeSlot (index : ℕ) : ℕ := if index = 0 then 2 ^ 32 - 1 else index - 1

/-- Where the constructor and `write_back` find an inode. Its table is that of the descriptor.
SRCLINE: kernel/fs/ext2/inode.cpp:5-12, 21-28 -/
def inodePos (disk : Memory) (index : ℕ) : ℕ :=
  let inodeTableIndex := inodeSlot index % g.inodesPerGroup
  let inodeBgd := readBgd g disk (inodeSlot index / g.inodesPerGroup)
  inodeBgd.word 8 4 * g.blockSize + g.inodeSize * inodeTableIndex % 2 ^ 32

/-- `inode(parent, inode_index)`.
SRCLINE: kernel/fs/ext2/inode.cpp:5-12 -/
def readInode (disk : Memory) (index : ℕ) : Inode :=
  ⟨disk.load (inodePos g disk index) rawInodeSize, index⟩

namespace Inode

/-- `inode::write_back`, which is also what the copy constructor does.
SRCLINE: kernel/fs/ext2/inode.cpp:14-28 -/
def writeBack (disk : Memory) (ino : Inode) : Memory :=
  disk.store (inodePos g disk ino.index) rawInodeSize ino.raw

/-- A product of an index and `4` in 32 bits. -/
def entryOffset (i : ℕ) : ℕ := i * 4 % 2 ^ 32

/-- `inode::get_block`.
SRCLINE: kernel/fs/ext2/inode.cpp:99-133 -/
def getBlock (disk : Memory) (ino : Inode) (iblock : ℕ) : ℕ :=
  let blocksPerLevel := g.blockSize / 4
  if iblock < 12 then ino.blocks iblock
  else
    let iblock := iblock - 12
    if iblock ≥ blocksPerLevel then
      let iblock := iblock - blocksPerLevel
      let singleIndex := iblock / blocksPerLevel
      let indirectOffset := iblock % blocksPerLevel
      if singleIndex ≥ blocksPerLevel then
        let iblock := iblock - blocksPerLevel * blocksPerLevel
        let doubleIndirectIndex := iblock / blocksPerLevel
        let singleIndirectIndex :=
          disk.word (ino.blocks 14 * g.blockSize + entryOffset doubleIndirectIndex) 4
        let indirectBlock :=
          disk.word (doubleIndirectIndex * g.blockSize + entryOffset singleIndirectIndex) 4
        disk.word (indirectBlock * g.blockSize + entryOffset indirectOffset) 4
      else
        let indirectBlock := disk.word (ino.blocks 13 * g.blockSize + entryOffset singleIndex) 4
        disk.word (indirectBlock * g.blockSize + entryOffset indirectOffset) 4
    else disk.word (ino.blocks 12 * g.blockSize + entryOffset iblock) 4

/-- A missing `raw.blocks[i]` gets a new block, and the inode is written back. The last component tells
whether the block is there.
SRCLINE: kernel/fs/ext2/inode.cpp:155-161, 183-189, 203-209 -/
def ensureBlocks (disk : Memory) (ino : Inode) (i : ℕ) : Memory × Inode × Bool :=
  if ino.blocks i = 0 then
    match ext2AllocBlock g disk with
    | (disk, none) => (disk, ino, false)
    | (disk, some block) =>
      let ino := ino.setBlocks i block
      (writeBack g disk ino, ino, true)
  else (disk, ino, true)

/-- The entry at `pos` of an indirect block, which gets a new block if it is zero.
SRCLINE: kernel/fs/ext2/inode.cpp:163-170, 172-179, 191-198 -/
def ensureEntry (disk : Memory) (pos : ℕ) : Memory × Option ℕ :=
  if disk.word pos 4 = 0 then
    match ext2AllocBlock g disk with
    | (disk, none) => (disk, none)
    | (disk, some block) => (disk.setWord pos 4 block, some (block % 2 ^ 32))
  else (disk, some (disk.word pos 4))

/-- `inode::set_block`. The branch of the singly indirect blocks does not store the block.
SRCLINE: kernel/fs/ext2/inode.cpp:135-213 -/
def setBlock (disk : Memory) (ino : Inode) (iblock diskBlock : ℕ) : Memory × Inode × ℤ :=
  let blocksPerLevel := g.blockSize / 4
  if iblock < 12 then (disk, ino.setBlocks iblock diskBlock, diskBlock)
  else
    let iblock := iblock - 12
    if iblock ≥ blocksPerLevel then
      let iblock := iblock - blocksPerLevel
      let singleIndex := iblock / blocksPerLevel
      let indirectOffset := iblock % blocksPerLevel
      if singleIndex ≥ blocksPerLevel then
        let iblock := iblock - blocksPerLevel * blocksPerLevel
        let doubleIndirectIndex := iblock / blocksPerLevel
        match ensureBlocks g disk ino 14 with
        | (disk, ino, false) => (disk, ino, -1)
        | (disk, ino, true) =>
          match ensureEntry g disk (ino.blocks 14 * g.blockSize + entryOffset doubleIndirectIndex) with
          | (disk, none) => (disk, ino, -1)
          | (disk, some singleIndirectIndex) =>
            match ensureEntry g disk
              (doubleIndirectIndex * g.blockSize + entryOffset singleIndirectIndex) with
            | (disk, none) => (disk, ino, -1)
            | (disk, some indirectBlock) =>
              (disk.setWord (indirectBlock * g.blockSize + entryOffset indirectOffset) 4 diskBlock, ino,
                diskBlock)
      else
        match ensureBlocks g disk ino 13 with
        | (disk, ino, false) => (disk, ino, -1)
        | (disk, ino, true) =>
          match ensureEntry g disk (ino.blocks 13 * g.blockSize + entryOffset singleIndex) with
          | (disk, none) => (disk, ino, -1)
          | (disk, some indirectBlock) =>
            (disk.setWord (indirectBlock * g.blockSize + entryOffset indirectOffset) 4 diskBlock, ino,
              diskBlock)
    else
      match ensureBlocks g disk ino 12 with
      | (disk, ino, false) => (disk, ino, -1)
      | (disk, ino, true) => (disk, ino, diskBlock)

/-- The loop of `resize` over the blocks from `i` on, `n` of which are left. The last component tells
whether they all got a block of the disk; what `set_block` returns is ignored.
SRCLINE: kernel/fs/ext2/inode.cpp:85-92 -/
def addBlocks : ℕ → ℕ → Memory → Inode → Memory × Inode × Bool
  | 0, _, disk, ino => (disk, ino, true)
  | n + 1, i, disk, ino =>
    match ext2AllocBlock g disk with
    | (disk, none) => (disk, ino, false)
    | (disk, some diskBlock) =>
      let ino := ino.setSectorCnt (ino.sectorCnt + g.blockSize / g.sectorSize)
      let (disk, ino, _) := setBlock g disk ino i (diskBlock % 2 ^ 32)
      addBlocks n (i + 1) disk ino

/-- `inode::resize`. The size that is allocated is cast to an `int`.
SRCLINE: kernel/fs/ext2/inode.cpp:72-97 -/
def resize (disk : Memory) (ino : Inode) (start cnt : ℕ) : Memory × Inode × ℤ :=
  let allocated := ino.sectorCnt * g.sectorSize
  if ((start + cnt : ℕ) : ℤ) < toInt allocated then (disk, ino, 0)
  else
    let iblockStart := ofSigned (divRoundup allocated g.blockSize) % 2 ^ 32
    let iblockEnd := ofSigned (divRoundup (start + cnt : ℕ) g.blockSize) % 2 ^ 32
    let ino := if ino.size32l < start + cnt then ino.setSize32l (start + cnt) else ino
    match addBlocks g (iblockEnd - iblockStart) iblockStart disk ino with
    | (disk, ino, false) => (disk, ino, -1)
    | (disk, ino, true) => (writeBack g disk ino, ino, 0)

/-- The blocks that the loops of `read` and `write` visit, from `headway` on: the position in the file,
the offset in the buffer and the number of bytes. There are at most `fuel`.
SRCLINE: kernel/fs/ext2/inode.cpp:33-47, 55-69 -/
def pieces (off cnt : ℕ) : ℕ → ℕ → List (ℕ × ℕ × ℕ)
  | 0, _ => []
  | fuel + 1, headway =>
    if headway < cnt then
      let offset := (off + headway) % g.blockSize
      let size := if cnt - headway > g.blockSize - offset then g.blockSize - offset else cnt - headway
      (off + headway, headway, size) :: pieces off cnt fuel (headway + size)
    else []

/-- Where a byte of the file is on the disk.
SRCLINE: kernel/fs/ext2/inode.cpp:34, 37, 42-44 -/
def diskPos (disk : Memory) (ino : Inode) (a : ℕ) : ℕ :=
  getBlock g disk ino (a / g.blockSize % 2 ^ 32) * g.blockSize + a % g.blockSize

/-- `inode::read` into the buffer `buf`.
SRCLINE: kernel/fs/ext2/inode.cpp:30-48 -/
def read (disk : Memory) (ino : Inode) (off cnt : ℕ) (buf : Memory) : Memory :=
  (pieces g off cnt cnt 0).foldl (fun buf x =>
    buf.store x.2.1 x.2.2 (disk.load (diskPos g disk ino x.1) x.2.2)) buf

/-- `inode::write` from the buffer `buf`.
SRCLINE: kernel/fs/ext2/inode.cpp:50-70 -/
def write (disk : Memory) (ino : Inode) (off cnt : ℕ) (buf : Memory) : Memory × Inode :=
  let (disk, ino, _) := resize g disk ino off cnt
  ((pieces g off cnt cnt 0).foldl (fun disk x =>
    disk.store (diskPos g disk ino x.1) x.2.2 (buf.load x.2.1 x.2.2)) disk, ino)

/-- `inode::remove`.
SRCLINE: kernel/fs/ext2/inode.cpp:215-221 -/
def remove (disk : Memory) (ino : Inode) : Memory :=
  let cnt := ofSigned (divRoundup (ino.sectorCnt * g.sectorSize : ℕ) g.blockSize)
  freeInode g ((List.range cnt).foldl (fun disk i => freeBlock g disk (getBlock g disk ino i)) disk)
    ino.index

end Inode

/-! ### Directories -/

/-- `ext2::raw_dir`, with `name`.
SRCLINE: kernel/fs/ext2/ext2.hpp:136-142 -/
structure RawDir where
  inode : ℕ
  entrySize : ℕ
  nameLength : ℕ
  name : LibString
  deriving DecidableEq

/-- The entry at `i` of a buffer. -/
def rawDirAt (buffer : Memory) (i : ℕ) : RawDir where
  inode := buffer.word i 4
  entrySize := buffer.word (i + 4) 2
  nameLength := buffer.word (i + 6) 1
  name := buffer.bytes (i + 8) (buffer.word (i + 6) 1)

/-- `expected_size`, of an entry with a name of `n` characters.
SRCLINE: kernel/fs/ext2/dir.cpp:25, 109, 140 -/
def expectedSize (n : ℕ) : ℕ := (8 + n + 3) / 4 * 4

/-- The loop of `search_relative` and `delete_relative` from `i` on: where the entry with the name is.
SRCLINE: kernel/fs/ext2/dir.cpp:9-30, 125-145 -/
def findEntry (buffer : Memory) (size : ℕ) (name : LibString) : ℕ → ℕ → Option ℕ
  | 0, _ => none
  | fuel + 1, i =>
    if i < size then
      if (rawDirAt buffer i).name = name then some i
      else if (rawDirAt buffer i).entrySize ≠ expectedSize (rawDirAt buffer i).nameLength then none
      else findEntry buffer size name fuel (i + (rawDirAt buffer i).entrySize)
    else none

/-- `dir::search_relative` in the directory `parentInode`, with a buffer that contained `heap`; `none` is
`-1`.
SRCLINE: kernel/fs/ext2/dir.cpp:5-34 -/
def searchDir (heap disk : Memory) (parentInode : Inode) (name : LibString) : Option RawDir :=
  let buffer := parentInode.read g disk 0 parentInode.size32l heap
  match findEntry buffer parentInode.size32l name parentInode.size32l 0 with
  | none => none
  | some i => if (rawDirAt buffer i).inode = 0 then none else some (rawDirAt buffer i)

/-- The loop of the constructor `dir(parent_inode, path, true)`: `member` is `this->parent_inode`, which
`search_relative` uses, and `param` the parameter of the same name, which gets the directory that was
found.
SRCLINE: kernel/fs/ext2/dir.cpp:63-69 -/
def findLoop (heap disk : Memory) (member : Inode) :
    List LibString → Inode → Option RawDir → Option RawDir × Bool
  | [], _, raw => (raw, true)
  | name :: names, _, raw =>
    match searchDir g heap disk member name with
    | none => (raw, false)
    | some entry => findLoop heap disk member names (readInode g disk entry.inode) (some entry)

/-- `dir(parent_inode, path, true)`: the disk, `raw` and `exists`. The inode is copied, and so written
back.
SRCLINE: kernel/fs/ext2/dir.cpp:36-81 -/
def dirFind (heap disk : Memory) (parentInode : Inode) (path : LibString) :
    Memory × Option RawDir × Bool :=
  let disk := parentInode.writeBack g disk
  (disk, findLoop g heap disk parentInode (splitPath path) parentInode none)

/-- `dir::delete_relative` in the directory `parentInode`: the disk, the directory, and whether the name
was found.
SRCLINE: kernel/fs/ext2/dir.cpp:121-147 -/
def deleteRelative (heap disk : Memory) (parentInode : Inode) (name : LibString) :
    Memory × Inode × Bool :=
  let buffer := parentInode.read g disk 0 parentInode.size32l heap
  match findEntry buffer parentInode.size32l name parentInode.size32l 0 with
  | none => (disk, parentInode, false)
  | some i =>
    let buffer' := memset8 buffer (i + 8) 0 (rawDirAt buffer i).nameLength
    let disk := (readInode g disk (rawDirAt buffer i).inode).remove g disk
    let (disk, parentInode) := parentInode.write g disk 0 parentInode.size32l (buffer'.setWord i 4 0)
    (disk, parentInode, true)

/-- The loop of the constructor `dir(parent_inode, new_inode, type, name)`. It sets `exists`, which
nothing reads.
SRCLINE: kernel/fs/ext2/dir.cpp:89-118 -/
def insertLoop (newInode type : ℕ) (name : LibString) :
    ℕ → ℕ → Bool → Memory → Memory → Inode → Memory × Inode
  | 0, _, _, _, disk, parentInode => (disk, parentInode)
  | fuel + 1, i, found, buffer, disk, parentInode =>
    if i < parentInode.size32l then
      let (i, buffer, disk, parentInode) :=
        if found then
          let buffer := buffer.setWord i 4 newInode
          let buffer := buffer.setWord (i + 7) 1 type
          let buffer := buffer.setWord (i + 6) 1 name.length
          let buffer := buffer.setWord (i + 4) 2 (ofSigned (g.blockSize - i))
          let buffer := buffer.store (i + 8) (name.length % 256) fun k => name.getD k 0
          let i := i + buffer.word (i + 4) 2
          let buffer := memset8 buffer i 0 8
          let (disk, parentInode) := parentInode.write g disk 0 parentInode.size32l buffer
          (i, buffer, disk, parentInode)
        else (i, buffer, disk, parentInode)
      let expected := expectedSize (rawDirAt buffer i).nameLength
      if (rawDirAt buffer i).entrySize ≠ expected then
        insertLoop newInode type name fuel (i + expected) true (buffer.setWord (i + 4) 2 expected) disk
          parentInode
      else
        insertLoop newInode type name fuel (i + (rawDirAt buffer i).entrySize) found buffer disk
          parentInode
    else (disk, parentInode)

/-- `dir(parent_inode, new_inode, type, name)`: the disk and the directory.
SRCLINE: kernel/fs/ext2/dir.cpp:83-119 -/
def dirInsert (heap disk : Memory) (parentInode : Inode) (newInode type : ℕ) (name : LibString) :
    Memory × Inode :=
  insertLoop g newInode type name parentInode.size32l 0 false
    (parentInode.read g disk 0 parentInode.size32l heap) disk parentInode

/-! ### `ext2::fs` -/

/-- The mutable state: the device and the cached `root_inode`. -/
structure Ext2 where
  disk : Memory
  rootInode : Inode

/-- What is used of a `vfs::node`: its `relative_path` and `stat_cur->st_size`, the `relative_path` of
its parent, and the last component of its `absolute_path`. -/
structure Ext2Node where
  relativePath : LibString
  parentPath : LibString
  name : LibString
  stSize : ℕ
  deriving DecidableEq

/-- What `fs::fs` reads of the superblock, if the signature is that of ext2.
SRCLINE: kernel/fs/ext2/ext2.cpp:5-21 -/
def readSuper (sectorSize : ℕ) (disk : Memory) : Option Ext2Super :=
  let superb := sectorSize * 2
  if disk.word (superb + 56) 2 = 0xef53 then
    some {
      sectorSize := sectorSize
      blockSize := 1024 * 2 ^ disk.word (superb + 24) 4
      blocksPerGroup := disk.word (superb + 32) 4
      inodesPerGroup := disk.word (superb + 40) 4
      inodeSize := disk.word (superb + 88) 2
      bgdCnt := ofSigned (divRoundup (disk.word (superb + 4) 4) (disk.word (superb + 32) 4)) % 2 ^ 32 }
  else none

/-- `fs::fs`, after it has read the superblock.
SRCLINE: kernel/fs/ext2/ext2.cpp:5-26 -/
def mountExt2 (disk : Memory) : Ext2 := ⟨disk, readInode g disk 2⟩

/-- `fs::read`: the state, the value returned and the buffer.
SRCLINE: kernel/fs/ext2/ext2.cpp:98-115 -/
def ext2Read (heap : Memory) (s : Ext2) (node : Ext2Node) (off cnt : ℕ) (buf : Memory) :
    Ext2 × ℤ × Memory :=
  if off > node.stSize then (s, -1, buf)
  else
    let cnt := if off + cnt > node.stSize then node.stSize - off else cnt
    match dirFind g heap s.disk s.rootInode node.relativePath with
    | (disk, none, _) => ({ s with disk := disk }, -1, buf)
    | (disk, some raw, _) =>
      ({ s with disk := disk }, toInt cnt, (readInode g disk raw.inode).read g disk off cnt buf)

/-- `fs::write`: the state, the node and the value returned.
SRCLINE: kernel/fs/ext2/ext2.cpp:117-132 -/
def ext2Write (heap : Memory) (s : Ext2) (node : Ext2Node) (off cnt : ℕ) (buf : Memory) :
    Ext2 × Ext2Node × ℤ :=
  if off > node.stSize then (s, node, -1)
  else
    match dirFind g heap s.disk s.rootInode node.relativePath with
    | (disk, none, _) => ({ s with disk := disk }, node, -1)
    | (disk, some raw, _) =>
      let disk := ((readInode g disk raw.inode).write g disk off cnt buf).1
      ({ s with disk := disk }, { node with stSize := node.stSize + cnt }, toInt cnt)

/-- `fs::unlink`; a path without components has no result.
SRCLINE: kernel/fs/ext2/ext2.cpp:182-187, kernel/fs/ext2/dir.cpp:73-80 -/
def ext2Unlink (heap : Memory) (s : Ext2) (node : Ext2Node) : Option (Ext2 × ℤ) :=
  (splitPath node.relativePath).getLast?.map fun name =>
    match deleteRelative g heap s.disk s.rootInode name with
    | (disk, root, false) => (⟨disk, root⟩, -1)
    | (disk, root, true) => (⟨disk, root⟩, 0)

/-- `o_creat`.
SRCLINE: kernel/lib/types.hpp:38 -/
def createFlag : ℕ := 0x10

/-- The directory of a new file: a copy of `root_inode`, which is so written back, or what the path of
the parent leads to.
SRCLINE: kernel/fs/ext2/ext2.cpp:195-206 -/
def openParent (heap : Memory) (s : Ext2) (node : Ext2Node) : Memory × Option Inode :=
  if node.parentPath = [slash] then (s.rootInode.writeBack g s.disk, some s.rootInode)
  else
    match dirFind g heap s.disk s.rootInode node.parentPath with
    | (disk, none, _) => (disk, none)
    | (disk, some raw, _) => (disk, some (readInode g disk raw.inode))

/-- The value of an `ssize_t` that is cast to a `uint32_t`; `none` is `-1`. -/
def castIndex (i : Option ℕ) : ℕ := (i.getD (2 ^ 32 - 1)) % 2 ^ 32

/-- A new file in the directory `parentInode`: the disk and the value returned.
SRCLINE: kernel/fs/ext2/ext2.cpp:208-226 -/
def createIn (heap disk : Memory) (parentInode : Inode) (name : LibString) : Memory × ℤ :=
  let (disk, index) := ext2AllocInode g disk
  let newInode := readInode g disk (castIndex index)
  let (disk, block) := ext2AllocBlock g disk
  let (disk, newInode, ret) := newInode.setBlock g disk 0 (castIndex block)
  if ret = -1 then (disk, -1)
  else
    let newInode := newInode.setSectorCnt (g.blockSize / g.sectorSize)
    let disk := newInode.writeBack g disk
    let (disk, parentInode) := dirInsert g heap disk parentInode newInode.index 0 name
    let parentInode := parentInode.setHardLinkCnt (parentInode.hardLinkCnt + 1)
    (parentInode.writeBack g disk, 0)

/-- `fs::open` with `o_creat`.
SRCLINE: kernel/fs/ext2/ext2.cpp:193-227 -/
def ext2Create (heap : Memory) (s : Ext2) (node : Ext2Node) : Ext2 × ℤ :=
  match openParent g heap s node with
  | (disk, none) => ({ s with disk := disk }, -1)
  | (disk, some parentInode) =>
    let created := createIn g heap disk parentInode node.name
    ({ s with disk := created.1 }, created.2)

/-- `fs::open`: the state, the node and the value returned.
SRCLINE: kernel/fs/ext2/ext2.cpp:193-237 -/
def ext2Open (heap : Memory) (s : Ext2) (node : Ext2Node) (flags : ℕ) : Ext2 × Ext2Node × ℤ :=
  if flags &&& createFlag ≠ 0 then
    let created := ext2Create g heap s node
    (created.1, node, created.2)
  else
    match dirFind g heap s.disk s.rootInode node.relativePath with
    | (disk, none, _) => ({ s with disk := disk }, node, -1)
    | (disk, some raw, _) =>
      ({ s with disk := disk }, { node with stSize := (readInode g disk raw.inode).size32l }, 0)

/-! ## Writing block group descriptors back -/

/-- `bgd::write_back` of a descriptor with the bytes `raw`.
SRCLINE: kernel/fs/ext2/block.cpp:19-24 -/
def bgdWriteBack (g : Ext2Super) (disk : Memory) (bgdIndex : ℕ) (raw : Memory) : Memory :=
  disk.store (bgdPos g bgdIndex) rawBgdSize raw

end CrepOS.Model
