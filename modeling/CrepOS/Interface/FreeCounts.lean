import CrepOS.Interface.Ext2Groups
import Mathlib.Algebra.BigOperators.Group.Finset.Basic

/-!
# The three places where free blocks and inodes are counted

How many blocks and inodes of a group are free is in its bitmaps and in its descriptor, and the superblock has the
sums over the groups. A run is a list of calls of the four functions that allocate and free.
-/

set_option autoImplicit false

namespace CrepOS.Interface

open CrepOS.Library CrepOS.Model

/-- Where the superblock has the total.
SRCLINE: kernel/fs/ext2/ext2.hpp:13-14 -/
def BitmapKind.totalAt : BitmapKind → ℕ
  | blocks => 12
  | inodes => 16

/-- The total in the superblock, which is at the byte 1024 of the device. -/
def superTotal (disk : Memory) (kind : BitmapKind) : ℕ := disk.word (1024 + kind.totalAt) 4

/-- **The counts agree**, for every group and in the superblock. -/
structure CountsAgree (g : Ext2Super) (disk : Memory) : Prop where
  groups : ∀ kind G, G < g.bgdCnt → BitmapKind.freeCount g disk kind G +
    disk.countBits (BitmapKind.bitmapPos g disk kind G) (kind.perGroup g) = kind.perGroup g
  totals : ∀ kind, superTotal disk kind = ∑ G ∈ Finset.range g.bgdCnt, BitmapKind.freeCount g disk kind G

/-- The calls. -/
inductive CountCall
  | allocBlock
  | freeBlock (block : ℕ)
  | allocInode
  | freeInode (inodeIndex : ℕ)

namespace CountCall

variable (g : Ext2Super)

/-- What a call does to the device. -/
def exec (disk : Memory) : CountCall → Memory
  | allocBlock => (ext2AllocBlock g disk).1
  | freeBlock block => CrepOS.Model.freeBlock g disk block
  | allocInode => (ext2AllocInode g disk).1
  | freeInode inodeIndex => CrepOS.Model.freeInode g disk inodeIndex

/-- No descriptor that the loop reads has a clear bit that it tests. -/
def NothingFree (disk : Memory) (kind : BitmapKind) : Prop :=
  ∀ i < g.bgdCnt, kind.freeCount g disk (i / g.inodesPerGroup) = 0 ∨
    ∀ r < g.blockSize, kind.groupBit g disk (i / g.inodesPerGroup) r = true

/-- The bit that is tested for the number is clear.
SRCLINE: kernel/fs/ext2/ext2.cpp:46-50, 81-85 -/
def NotMarked (disk : Memory) (kind : BitmapKind) (index : ℕ) : Prop :=
  disk.bit (kind.bitmapBlock g disk (index / kind.perGroup g / g.inodesPerGroup)) (index % kind.perGroup g) = false

/-- **The condition on a call**: it finds nothing to allocate, or the number counts as free already. -/
def Idle (disk : Memory) : CountCall → Prop
  | allocBlock => NothingFree g disk .blocks
  | freeBlock block => NotMarked g disk .blocks block
  | allocInode => NothingFree g disk .inodes
  | freeInode inodeIndex => NotMarked g disk .inodes inodeIndex

/-- The number is one for which the source reads a descriptor of the image. -/
def InRange : CountCall → Prop
  | allocBlock => True
  | freeBlock block => block / g.blocksPerGroup / g.inodesPerGroup < g.bgdCnt
  | allocInode => True
  | freeInode inodeIndex => inodeIndex / g.inodesPerGroup / g.inodesPerGroup < g.bgdCnt

end CountCall

/-- The counts agree in every state of the run. -/
def CountsAgreeThroughout (g : Ext2Super) : List CountCall → Memory → Prop
  | [], disk => CountsAgree g disk
  | call :: calls, disk => CountsAgree g disk ∧ CountsAgreeThroughout g calls (call.exec g disk)

/-- Every call of the run meets the condition. -/
def IdleThroughout (g : Ext2Super) : List CountCall → Memory → Prop
  | [], _ => True
  | call :: calls, disk => call.Idle g disk ∧ IdleThroughout g calls (call.exec g disk)

end CrepOS.Interface
