import CrepOS.Library.BitCount
import CrepOS.Model.Ext2

/-!
# The block groups of an ext2 image

What the format says about the descriptor table and the two bitmaps of each group. `Ext2Image` is a
well-formed image, `AllocCorrect`, `FreeUndoes` and `InodeNumbersAgree` are what allocating and freeing are
for. A group is found here by its own descriptor; where the driver looks is another matter.
-/

set_option autoImplicit false

namespace CrepOS.Interface

open CrepOS.Library CrepOS.Model

/-- A group has a bitmap of its blocks and one of its inodes. -/
inductive BitmapKind
  | blocks
  | inodes
  deriving DecidableEq

namespace BitmapKind

/-- Where a descriptor has the number of the bitmap block.
SRCLINE: kernel/fs/ext2/ext2.hpp:72-74 -/
def bitmapAt : BitmapKind → ℕ
  | blocks => 0
  | inodes => 4

/-- Where a descriptor has the count of the clear bits.
SRCLINE: kernel/fs/ext2/ext2.hpp:76-77 -/
def countAt : BitmapKind → ℕ
  | blocks => 12
  | inodes => 14

/-- The number of bits that are used. -/
def perGroup (g : Ext2Super) : BitmapKind → ℕ
  | blocks => g.blocksPerGroup
  | inodes => g.inodesPerGroup

end BitmapKind

/-- The descriptor table is behind the superblock. -/
def bgdTable (g : Ext2Super) : ℕ := if g.blockSize ≥ 2048 then g.blockSize else g.blockSize * 2

/-- Where the descriptor of a group is. -/
def groupPos (g : Ext2Super) (G : ℕ) : ℕ := bgdTable g + rawBgdSize * G

namespace BitmapKind

variable (g : Ext2Super) (disk : Memory) (kind : BitmapKind) (G : ℕ)

/-- The number of the bitmap block of a group. -/
def bitmapBlock : ℕ := disk.word (groupPos g G + kind.bitmapAt) 4

/-- Where the bitmap of a group is. -/
def bitmapPos : ℕ := kind.bitmapBlock g disk G * g.blockSize

/-- A bit of the bitmap of a group. -/
def groupBit (r : ℕ) : Bool := disk.bit (kind.bitmapPos g disk G) r

/-- The count in the descriptor of a group. -/
def freeCount : ℕ := disk.word (groupPos g G + kind.countAt) 2

end BitmapKind

/-- **A well-formed image**: the bitmaps are in blocks of their own behind the descriptor table, the
counts are those of the clear bits, and the bits that are not used are set. -/
structure Ext2Image (g : Ext2Super) (disk : Memory) : Prop where
  blockSize : 1024 ≤ g.blockSize
  groups : 0 < g.bgdCnt
  perGroup_pos : ∀ kind : BitmapKind, 0 < kind.perGroup g
  perGroup_le : ∀ kind : BitmapKind, kind.perGroup g ≤ 8 * g.blockSize
  numbers : ∀ kind : BitmapKind, g.bgdCnt * kind.perGroup g < 2 ^ 32
  behind : ∀ kind G, G < g.bgdCnt → groupPos g g.bgdCnt ≤ BitmapKind.bitmapPos g disk kind G
  apart : ∀ kind G kind' G', G < g.bgdCnt → G' < g.bgdCnt →
    BitmapKind.bitmapPos g disk kind G = BitmapKind.bitmapPos g disk kind' G' → kind = kind' ∧ G = G'
  counted : ∀ kind G, G < g.bgdCnt → BitmapKind.freeCount g disk kind G +
    disk.countBits (BitmapKind.bitmapPos g disk kind G) (kind.perGroup g) = kind.perGroup g
  padding : ∀ kind G r, G < g.bgdCnt → kind.perGroup g ≤ r → r < 8 * g.blockSize →
    BitmapKind.groupBit g disk kind G r = true

/-- Every bit of the group is set. -/
def GroupFull (g : Ext2Super) (disk : Memory) (kind : BitmapKind) (G : ℕ) : Prop :=
  ∀ r < kind.perGroup g, kind.groupBit g disk G r = true

/-- The only bit of a bitmap that changes is the bit `r` of the group `G`. -/
def OnlyBit (g : Ext2Super) (disk disk' : Memory) (kind : BitmapKind) (G r : ℕ) : Prop :=
  ∀ kind' G' r', G' < g.bgdCnt → r' < 8 * g.blockSize → (kind', G', r') ≠ (kind, G, r) →
    BitmapKind.groupBit g disk' kind' G' r' = BitmapKind.groupBit g disk kind' G' r'

/-- **What `alloc_block` is for**: the block is that of a clear bit of its own group, which is now set and
counted; there is no block only if all groups are full. -/
def AllocCorrect (g : Ext2Super) (disk disk' : Memory) : Option ℕ → Prop
  | none => ∀ G < g.bgdCnt, GroupFull g disk .blocks G
  | some b =>
    b / g.blocksPerGroup < g.bgdCnt ∧
    BitmapKind.groupBit g disk .blocks (b / g.blocksPerGroup) (b % g.blocksPerGroup) = false ∧
    BitmapKind.groupBit g disk' .blocks (b / g.blocksPerGroup) (b % g.blocksPerGroup) = true ∧
    OnlyBit g disk disk' .blocks (b / g.blocksPerGroup) (b % g.blocksPerGroup) ∧
    BitmapKind.freeCount g disk' .blocks (b / g.blocksPerGroup) + 1 =
      BitmapKind.freeCount g disk .blocks (b / g.blocksPerGroup)

/-- The condition under which `alloc_block` is right: all groups are full, or one of the first
`block_size` bits of group `0` is clear, or there is one inode in each group and one of the first
`block_size` bits of some group is clear. -/
def AllocReaches (g : Ext2Super) (disk : Memory) : Prop :=
  (∀ G < g.bgdCnt, GroupFull g disk .blocks G) ∨
    (∃ r < g.blockSize, BitmapKind.groupBit g disk .blocks 0 r = false) ∨
    (g.inodesPerGroup = 1 ∧
      ∃ G < g.bgdCnt, ∃ r < g.blockSize, BitmapKind.groupBit g disk .blocks G r = false)

/-- The block is in a group and its bit is set. -/
def Allocated (g : Ext2Super) (disk : Memory) (b : ℕ) : Prop :=
  b / g.blocksPerGroup < g.bgdCnt ∧
    BitmapKind.groupBit g disk .blocks (b / g.blocksPerGroup) (b % g.blocksPerGroup) = true

/-- **What `free_block` is for**: the bit of the block is cleared and counted, and no other byte or bit
changes. -/
structure FreesOnly (g : Ext2Super) (disk disk' : Memory) (b : ℕ) : Prop where
  cleared : disk'.bit (BitmapKind.bitmapPos g disk .blocks (b / g.blocksPerGroup))
    (b % g.blocksPerGroup) = false
  counted : BitmapKind.freeCount g disk' .blocks (b / g.blocksPerGroup) =
    BitmapKind.freeCount g disk .blocks (b / g.blocksPerGroup) + 1
  bits : ∀ r, r ≠ b % g.blocksPerGroup →
    disk'.bit (BitmapKind.bitmapPos g disk .blocks (b / g.blocksPerGroup)) r =
      BitmapKind.groupBit g disk .blocks (b / g.blocksPerGroup) r
  bytes : ∀ x, x ≠ BitmapKind.bitmapPos g disk .blocks (b / g.blocksPerGroup) + b % g.blocksPerGroup / 8 →
    x ≠ groupPos g (b / g.blocksPerGroup) + 12 → x ≠ groupPos g (b / g.blocksPerGroup) + 13 →
    disk' x = disk x

/-- **`free_block` undoes `alloc_block`**, and frees only the block it is given. -/
def FreeUndoes (g : Ext2Super) (disk : Memory) : Prop :=
  (∀ disk' b, ext2AllocBlock g disk = (disk', some b) → freeBlock g disk' b = disk) ∧
    ∀ b, Allocated g disk b → FreesOnly g disk (freeBlock g disk b) b

/-- The bit that changes from clear to set is the bit `(k - 1) % inodes_per_group` of the group
`(k - 1) / inodes_per_group`. -/
def BitOfNumber (g : Ext2Super) (disk disk' : Memory) (k : ℕ) : Prop :=
  ∀ G r, G < g.bgdCnt → r < 8 * g.blockSize →
    (BitmapKind.groupBit g disk .inodes G r = false ∧ BitmapKind.groupBit g disk' .inodes G r = true ↔
      G = (k - 1) / g.inodesPerGroup ∧ r = (k - 1) % g.inodesPerGroup)

/-- **The numbering of inodes**: `alloc_inode`, which returned `k` and left `disk'`, the place of the
inode in its table, and `free_inode` all mean the same inode. -/
structure InodeNumbersAgree (g : Ext2Super) (disk disk' : Memory) (k : ℕ) : Prop where
  bit : BitOfNumber g disk disk' k
  slot : inodePos g disk' k =
    disk'.word (groupPos g ((k - 1) / g.inodesPerGroup) + 8) 4 * g.blockSize +
      g.inodeSize * ((k - 1) % g.inodesPerGroup)
  restored : freeInode g disk' k = disk

/-! ## What reading and writing a descriptor should do -/

/-- **The descriptor of the group is addressed**: just its bytes are read and written, the descriptors of the other
groups are kept by a write, and what is written is what is read afterwards. -/
structure DescriptorAddressed (g : Ext2Super) (G : ℕ) : Prop where
  reads : ∀ disk, readBgd g disk G = disk.load (groupPos g G) rawBgdSize
  writes : ∀ disk raw, bgdWriteBack g disk G raw = disk.store (groupPos g G) rawBgdSize raw
  others : ∀ disk raw H, H < g.bgdCnt → H ≠ G → readBgd g (bgdWriteBack g disk G raw) H = readBgd g disk H
  itself : ∀ disk raw, readBgd g (bgdWriteBack g disk G raw) G = raw.load 0 rawBgdSize

end CrepOS.Interface
