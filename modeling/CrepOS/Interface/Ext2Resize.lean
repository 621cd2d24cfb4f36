import CrepOS.Interface.Ext2Groups
import CrepOS.Interface.Ext2BlockMap

/-!
# What `resize` is for

`Resized` says that a file has grown: its size, its blocks, and the inode on the disk. `Unresized` says that
nothing has changed. `ResizeMeets` is the condition on the state before the call under which `resize` returns
`0` with the first or `-1` with the second; it speaks about the sizes and blocks that the inode has and about
the blocks that the allocator has to offer (`allocBlocks`). `FilePlaced` is a file on a well-formed image.
-/

set_option autoImplicit false

namespace CrepOS.Interface

open CrepOS.Library CrepOS.Model

variable (g : Ext2Super) (disk : Memory) (ino : Inode)

/-- The byte is one of the descriptor table, or of what is before it, or of a bitmap. -/
def MetaByte (a : ℕ) : Prop :=
  a < groupPos g g.bgdCnt ∨ ∃ kind : BitmapKind, ∃ G < g.bgdCnt,
    kind.bitmapPos g disk G ≤ a ∧ a < kind.bitmapPos g disk G + g.blockSize

/-- **A file on a well-formed image**: its group exists, no block of it is used twice, and neither its
inode nor its blocks share a byte with the descriptors and bitmaps or with each other. -/
structure FilePlaced : Prop where
  image : Ext2Image g disk
  blockSize : g.blockSize ≤ 2 ^ 31
  group : inodeSlot ino.index / g.inodesPerGroup < g.bgdCnt
  inode : ∀ a < rawInodeSize, ¬ MetaByte g disk (inodePos g disk ino.index + a)
  tree : FileTree g disk ino
  blocks : ∀ m ks x, UsesAt g disk ino m ks x → ∀ a < g.blockSize,
    ¬ MetaByte g disk (x * g.blockSize + a) ∧
      (x * g.blockSize + a < inodePos g disk ino.index ∨
        inodePos g disk ino.index + rawInodeSize ≤ x * g.blockSize + a)

/-! ## The blocks of a file -/

/-- The block of a logical block, if it has one. -/
def blockAt (i : ℕ) : Option ℕ :=
  pointer g disk (ino.blocks (blockPath (g.blockSize / 4) i).1) (blockPath (g.blockSize / 4) i).2

/-- The logical block has a block that is in use by the bitmaps of `used`. -/
def HasBlock (used : Memory) (i : ℕ) : Prop := ∃ b, blockAt g disk ino i = some b ∧ Allocated g used b

/-- The inode on the disk is the one in memory. -/
def OnDisk : Prop := ∀ a < rawInodeSize, disk (inodePos g disk ino.index + a) = ino.raw a

/-! ## What a call is for -/

/-- **The file has grown** to at least `size` bytes. -/
structure Resized (size : ℕ) (disk' : Memory) (ino' : Inode) : Prop where
  sized : ino'.size32l = max ino.size32l size
  blocks : ∀ i < (size + g.blockSize - 1) / g.blockSize, HasBlock g disk' ino' disk' i
  kept : ∀ i < fileCapacity (g.blockSize / 4), ∀ b, blockAt g disk ino i = some b →
    blockAt g disk' ino' i = some b
  written : OnDisk g disk' ino'

/-- **Nothing has changed**, in memory, of the inode on the disk and of the block bitmaps. -/
structure Unresized (disk' : Memory) (ino' : Inode) : Prop where
  memory : ino' = ino
  inode : ∀ a < rawInodeSize, disk' (inodePos g disk' ino.index + a) = disk (inodePos g disk ino.index + a)
  bitmaps : ∀ G < g.bgdCnt, ∀ r < 8 * g.blockSize,
    BitmapKind.groupBit g disk' .blocks G r = BitmapKind.groupBit g disk .blocks G r

/-! ## The condition -/

/-- The result of some calls of `alloc_block` in a row, if all of them find a block. -/
def allocBlocks : ℕ → Memory → Option (Memory × List ℕ)
  | 0, disk => some (disk, [])
  | n + 1, disk =>
    match ext2AllocBlock g disk with
    | (_, none) => none
    | (disk, some b) => (allocBlocks n disk).map fun r => (r.1, b :: r.2)

/-- The first block that `resize` adds.
SRCLINE: kernel/fs/ext2/inode.cpp:78 -/
def resizeStart : ℕ := ofSigned (divRoundup (ino.sectorCnt * g.sectorSize : ℕ) g.blockSize) % 2 ^ 32

/-- The end of the blocks that `resize` adds.
SRCLINE: kernel/fs/ext2/inode.cpp:79 -/
def resizeEnd (size : ℕ) : ℕ := ofSigned (divRoundup (size : ℕ) g.blockSize) % 2 ^ 32

/-- **What `resize` is for**: the file has grown, or, if there are not enough blocks, nothing has changed. -/
structure ResizeCorrect (size : ℕ) (r : Memory × Inode × ℤ) : Prop where
  grown : r.2.2 = 0 → Resized g disk ino size r.1 r.2.1
  unchanged : r.2.2 = -1 → Unresized g disk ino r.1 r.2.1
  fails : allocBlocks g (resizeEnd g size - resizeStart g ino) disk = none → r.2.2 = -1

/-- `resize` returns at once.
SRCLINE: kernel/fs/ext2/inode.cpp:75-76 -/
def ResizeSkips (size : ℕ) : Prop := (size : ℤ) < toInt (ino.sectorCnt * g.sectorSize)

instance (size : ℕ) : Decidable (ResizeSkips g ino size) := inferInstanceAs (Decidable (_ < _))

/-- The logical block is a direct one, or a singly or doubly indirect one, and the indirect blocks on the way
to it are there. -/
def SlotReady (i : ℕ) : Prop :=
  i < 12 ∨ ((blockPath (g.blockSize / 4) i).1 < 14 ∧
    pointer g disk (ino.blocks (blockPath (g.blockSize / 4) i).1)
      (blockPath (g.blockSize / 4) i).2.dropLast ≠ none)

/-- The block `b` is what the logical block is to get: `b` is in use and not `0`, and the logical block does
not have another one. -/
def SlotTakes (used : Memory) (i b : ℕ) : Prop :=
  b ≠ 0 ∧ Allocated g used b ∧ ∀ b', blockAt g disk ino i = some b' → b' = b

/-- **The condition on a call.** If `resize` returns at once, the size is there already, and so are the
blocks, the inode on the disk is the one in memory, and no block is lacking. If the allocator has too few
blocks, it has none at all, and the size is there already or has the same low 32 bits. If it has enough, the
size fits 32 bits, the blocks before the first that is added are there, no indirect block is missing on the
way to the ones that are added, a singly indirect one of these is there already, and the others can take the
blocks that the allocator has. -/
def ResizeMeets (size : ℕ) : Prop :=
  if ResizeSkips g ino size then
    size ≤ ino.size32l ∧ (∀ i < (size + g.blockSize - 1) / g.blockSize, HasBlock g disk ino disk i) ∧
      OnDisk g disk ino ∧ allocBlocks g (resizeEnd g size - resizeStart g ino) disk ≠ none
  else
    match allocBlocks g (resizeEnd g size - resizeStart g ino) disk with
    | none => (ext2AllocBlock g disk).2 = none ∧ (size ≤ ino.size32l ∨ size % 2 ^ 32 = ino.size32l)
    | some (used, bs) =>
      size < 2 ^ 32 ∧ (∀ i < resizeEnd g size, i < resizeStart g ino → HasBlock g disk ino used i) ∧
        ∀ k (hk : k < bs.length), SlotReady g disk ino (resizeStart g ino + k) ∧
          if (blockPath (g.blockSize / 4) (resizeStart g ino + k)).1 = 12 then
            HasBlock g disk ino used (resizeStart g ino + k)
          else SlotTakes g disk ino used (resizeStart g ino + k) bs[k]

/-- The loop adds no indirect block: `resize` returns at once, or the allocator has no block, or all
indirect blocks are there on the way to the ones that are added, none of which is triply indirect. -/
def AddsNoIndirect (size : ℕ) : Prop :=
  ResizeSkips g ino size ∨ (ext2AllocBlock g disk).2 = none ∨
    ∀ i, resizeStart g ino ≤ i → i < resizeEnd g size → SlotReady g disk ino i

end CrepOS.Interface
