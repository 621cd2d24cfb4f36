import CrepOS.Model.Ext2

/-!
# The block map of an ext2 inode

The format has a tree for the blocks of a file: `blockPath` is the way from `blocks` to the logical block
`i` through indirect blocks of `n` entries, and `formatBlock` what it leads to. `FileTree` says that no
block is used twice, `FreshBlocks` that the next block to be allocated is not used. `SetLawful` is what
`set_block` and `get_block` promise to each other.
-/

set_option autoImplicit false

namespace CrepOS.Interface

open CrepOS.Library CrepOS.Model

/-- The number of blocks that a file can have. -/
def fileCapacity (n : ℕ) : ℕ := 12 + n + n ^ 2 + n ^ 3

/-- The member of `blocks` and the entries of the indirect blocks that lead to a logical block. -/
def blockPath (n i : ℕ) : ℕ × List ℕ :=
  if i < 12 then (i, [])
  else if i - 12 < n then (12, [i - 12])
  else if i - 12 - n < n ^ 2 then (13, [(i - 12 - n) / n, (i - 12 - n) % n])
  else
    let j := i - 12 - n - n ^ 2
    (14, [j / n ^ 2, j / n % n, j % n])

section Map

variable (g : Ext2Super) (disk : Memory) (ino : Inode)

/-- The block to which the entries lead from the block `b`. -/
def followEntries : ℕ → List ℕ → ℕ
  | b, [] => b
  | b, k :: ks => followEntries (disk.word (b * g.blockSize + 4 * k) 4) ks

/-- **The block map of the format.** -/
def formatBlock (i : ℕ) : ℕ :=
  followEntries g disk (ino.blocks (blockPath (g.blockSize / 4) i).1) (blockPath (g.blockSize / 4) i).2

/-- The logical block is not in the range of the triply indirect blocks, and the offsets of the entries
that lead to it fit 32 bits, which they do if the block size does. -/
def EntriesFit (n i : ℕ) : Prop := i < 12 + n + n ^ 2 ∧ ∀ k ∈ (blockPath n i).2, 4 * k < 2 ^ 32

/-! ## The blocks of a file -/

/-- The block to which the entries lead from the block `b`, if none is missing on the way. -/
def pointer : ℕ → List ℕ → Option ℕ
  | b, [] => if b = 0 then none else some b
  | b, k :: ks => if b = 0 then none else pointer (disk.word (b * g.blockSize + 4 * k) 4) ks

/-- The file has the block `x`: `blocks[m]` and the entries `ks` lead to it. -/
def UsesAt (m : ℕ) (ks : List ℕ) (x : ℕ) : Prop :=
  ∃ i < fileCapacity (g.blockSize / 4), (blockPath (g.blockSize / 4) i).1 = m ∧
    ks <+: (blockPath (g.blockSize / 4) i).2 ∧ pointer g disk (ino.blocks m) ks = some x

/-- No block of the file is used twice. -/
def FileTree : Prop :=
  ∀ m ks m' ks' x, UsesAt g disk ino m ks x → UsesAt g disk ino m' ks' x → m = m' ∧ ks = ks'

/-- The logical block has a block. -/
def Mapped (i : ℕ) : Prop :=
  pointer g disk (ino.blocks (blockPath (g.blockSize / 4) i).1) (blockPath (g.blockSize / 4) i).2 ≠ none

/-- The second disk is reached from the first by allocations. -/
inductive AllocatesTo (g : Ext2Super) (disk : Memory) : Memory → Prop
  | refl : AllocatesTo g disk disk
  | step {disk' disk'' : Memory} {x : ℕ} : AllocatesTo g disk disk' →
      ext2AllocBlock g disk' = (disk'', some x) → AllocatesTo g disk disk''

/-- **The allocator returns blocks that the file does not use**, as often as it is called. -/
def FreshBlocks : Prop :=
  ∀ disk' disk'' x, AllocatesTo g disk disk' → ext2AllocBlock g disk' = (disk'', some x) →
    ∀ m ks, ¬ UsesAt g disk ino m ks x

/-! ## The law of `set_block` and `get_block` -/

/-- **What `set_block` promises**: if it does not fail, `get_block` returns the block that was set, and
for the other logical blocks that were mapped what it returned before. -/
def SetLawful (i b : ℕ) : Prop :=
  (ino.setBlock g disk i b).2.2 ≠ -1 →
    (ino.setBlock g disk i b).2.1.getBlock g (ino.setBlock g disk i b).1 i = b ∧
    ∀ j < fileCapacity (g.blockSize / 4), j < 2 ^ 32 → j ≠ i → Mapped g disk ino j →
      (ino.setBlock g disk i b).2.1.getBlock g (ino.setBlock g disk i b).1 j = ino.getBlock g disk j

/-- The places of the entries that `get_block` reads for a logical block, in order.
SRCLINE: kernel/fs/ext2/inode.cpp:99-133 -/
def entryPlaces (i : ℕ) : List ℕ :=
  let n := g.blockSize / 4
  let index := (i - 12 - n) / n
  let offset := Inode.entryOffset ((i - 12 - n) % n)
  if i < 12 then []
  else if i - 12 < n then [ino.blocks 12 * g.blockSize + Inode.entryOffset (i - 12)]
  else if index < n then
    let p := ino.blocks 13 * g.blockSize + Inode.entryOffset index
    [p, disk.word p 4 * g.blockSize + offset]
  else
    let d := (i - 12 - n - n * n) / n
    let p := ino.blocks 14 * g.blockSize + Inode.entryOffset d
    let q := d * g.blockSize + Inode.entryOffset (disk.word p 4)
    [p, q, disk.word q 4 * g.blockSize + offset]

/-- The member of `blocks` where the entries of a logical block begin. -/
def entryRoot (i : ℕ) : ℕ :=
  let n := g.blockSize / 4
  if i - 12 < n then 12 else if (i - 12 - n) / n < n then 13 else 14

/-- The last entry of a logical block is at `p`, and not read for another one or before. -/
def EntryOwn (i p : ℕ) : Prop :=
  (∀ q ∈ (entryPlaces g disk ino i).dropLast, q + 4 ≤ p ∨ p + 4 ≤ q) ∧
    ∀ j ≠ i, Mapped g disk ino j → ∀ q ∈ entryPlaces g disk ino j, q + 4 ≤ p ∨ p + 4 ≤ q

/-- **The condition on a call of `set_block`**: the logical block is a direct one; or it is doubly or
triply indirect, no indirect block is missing that `set_block` goes through, and the entry is its own; or
it is singly indirect, and its entry is already what is to be set. -/
def SetSafe (i b : ℕ) : Prop :=
  i < 12 ∨ ino.blocks (entryRoot g i) ≠ 0 ∧ ∃ places p, entryPlaces g disk ino i = places ++ [p] ∧
    (∀ q ∈ places, disk.word q 4 ≠ 0) ∧
    (if entryRoot g i = 12 then disk.word p 4 = b else EntryOwn g disk ino i p)

end Map

end CrepOS.Interface
