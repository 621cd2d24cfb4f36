import CrepOS.Interface.FdBook
import CrepOS.Interface.OpenFile
import CrepOS.Interface.Ext2Resize
import CrepOS.Interface.Ext2Run
import CrepOS.Interface.Ext2Tree

/-!
# The files of an ext2 image

`DiskFiles` is an image with some files on it, given by their inode numbers: no block is used twice, in one file
or in two, the blocks in use are marked so, and the blocks that are left are outside of all inodes and metadata. A
run is made of writes, each to one of the files; the inode is read from the disk for each of them, as `fs::write`
does. `FileWrite.Fits` is the condition on a write, and `lastByte` what a file has to contain after the run.

Above the writes are the calls of the file system, and above these the system calls on descriptors: `ext2Ops` is what
a descriptor calls, and `fsCallsOf` the calls of the file system that some system calls end in.
-/

set_option autoImplicit false

namespace CrepOS.Interface

open CrepOS.Library CrepOS.Model

/-- No byte of the block is one of the metadata or of the inodes. -/
def DataBlock (g : Ext2Super) (disk : Memory) (files : Set ℕ) (x : ℕ) : Prop :=
  ∀ a < g.blockSize, ¬ MetaByte g disk (x * g.blockSize + a) ∧
    ∀ k ∈ files, x * g.blockSize + a < inodePos g disk k ∨ inodePos g disk k + rawInodeSize ≤ x * g.blockSize + a

/-- The bytes that the sectors of an inode have room for.
SRCLINE: kernel/fs/ext2/inode.cpp:73 -/
def sectorBytes (g : Ext2Super) (ino : Inode) : ℕ := ino.sectorCnt * g.sectorSize

/-- **An image with files.** There are not more groups than inodes in a group, so that `alloc_block` finds the
descriptor of the first group; and the sectors of an inode are those of its direct blocks, or more. -/
structure DiskFiles (g : Ext2Super) (files : Set ℕ) (disk : Memory) : Prop where
  image : Ext2Image g disk
  blockSize : g.blockSize ≤ 2 ^ 16
  sectors : g.sectorSize ∣ g.blockSize
  fewGroups : g.bgdCnt ≤ g.inodesPerGroup
  group : ∀ k ∈ files, inodeSlot k / g.inodesPerGroup < g.bgdCnt
  inode : ∀ k ∈ files, ∀ a < rawInodeSize, ¬ MetaByte g disk (inodePos g disk k + a)
  apart : ∀ k ∈ files, ∀ k' ∈ files, k ≠ k' →
    inodePos g disk k + rawInodeSize ≤ inodePos g disk k' ∨ inodePos g disk k' + rawInodeSize ≤ inodePos g disk k
  once : ∀ k ∈ files, ∀ k' ∈ files, ∀ m ks m' ks' x, UsesAt g disk (readInode g disk k) m ks x →
    UsesAt g disk (readInode g disk k') m' ks' x → k = k' ∧ m = m' ∧ ks = ks'
  used : ∀ k ∈ files, ∀ m ks x, UsesAt g disk (readInode g disk k) m ks x →
    Allocated g disk x ∧ DataBlock g disk files x
  free : ∀ x < g.blocksPerGroup, BitmapKind.groupBit g disk .blocks 0 x = false → x ≠ 0 ∧ DataBlock g disk files x
  sized : ∀ k ∈ files, sectorBytes g (readInode g disk k) < 2 ^ 31 ∧ ∀ i < 12,
    ((readInode g disk k).blocks i ≠ 0 ↔ i * g.blockSize < sectorBytes g (readInode g disk k))

/-- The logical block is there, and is not in the range of the triply indirect blocks. -/
def Reaches (g : Ext2Super) (disk : Memory) (ino : Inode) (i : ℕ) : Prop :=
  i < 12 + g.blockSize / 4 + (g.blockSize / 4) ^ 2 ∧ blockAt g disk ino i ≠ none

/-- A write of `cnt` bytes of the buffer `buf` to a file, from `off` on. -/
structure FileWrite where
  file : ℕ
  off : ℕ
  cnt : ℕ
  buf : Memory

namespace FileWrite

/-- The write has the byte of the file. -/
def Has (w : FileWrite) (k a : ℕ) : Prop := w.file = k ∧ w.off ≤ a ∧ a < w.off + w.cnt

instance (w : FileWrite) (k a : ℕ) : Decidable (w.Has k a) := inferInstanceAs (Decidable (_ ∧ _ ∧ _))

/-- The disk after the write.
SRCLINE: kernel/fs/ext2/ext2.cpp:126-128 -/
def exec (g : Ext2Super) (disk : Memory) (w : FileWrite) : Memory :=
  ((readInode g disk w.file).write g disk w.off w.cnt w.buf).1

/-- **The condition on a write**: it ends in the direct blocks, and the allocator has the blocks that are missing;
or the file is long enough, and the blocks that are written are there. -/
def Fits (g : Ext2Super) (files : Set ℕ) (disk : Memory) (w : FileWrite) : Prop :=
  w.file ∈ files ∧
    (w.off + w.cnt ≤ 12 * g.blockSize ∧
        allocBlocks g (resizeEnd g (w.off + w.cnt) - resizeStart g (readInode g disk w.file)) disk ≠ none ∨
      ResizeSkips g (readInode g disk w.file) (w.off + w.cnt) ∧
        ∀ i < (w.off + w.cnt + g.blockSize - 1) / g.blockSize, Reaches g disk (readInode g disk w.file) i)

end FileWrite

/-- A run of writes that meet the condition. -/
abbrev WriteRun (g : Ext2Super) (files : Set ℕ) : Memory → List FileWrite → Memory → Prop :=
  Run (Guarded (FileWrite.Fits g files) fun disk w disk' => w.exec g disk = disk')

/-- The byte of the file that was written last, if there is one. -/
def lastByte (ws : List FileWrite) (k a : ℕ) : Option Byte :=
  ws.foldl (fun last w => if w.Has k a then some (w.buf (a - w.off)) else last) none

/-! ## Calls of the file system -/

variable {N : Type}

/-- **A mounted file system whose nodes name files**: the root directory has the entries `es`, and they list the path of
each node, within the reach of a search, for the inode `file n`. -/
structure RootServes (g : Ext2Super) (files : Set ℕ) (file : N → ℕ) (es : List RawDir) (s : Ext2System N) : Prop where
  disk : DiskFiles g files s.fs.disk
  root : 2 ∈ files
  cached : s.fs.rootInode = readInode g s.fs.disk 2
  entries : EntriesAt (fileBytes g s.fs.disk (readInode g s.fs.disk 2)) (readInode g s.fs.disk 2).size32l 0 es
  reached : ∀ a < (readInode g s.fs.disk 2).size32l, Reaches g s.fs.disk (readInode g s.fs.disk 2) (a / g.blockSize)
  named : ∀ n, file n ∈ files ∧ file n ≠ 2 ∧ RootLists es (splitPath (s.nodes n).relativePath) (file n)

namespace Ext2Call

/-- What a call writes: nothing if the offset is behind the end of the file.
SRCLINE: kernel/fs/ext2/ext2.cpp:117-132 -/
def writes (file : N → ℕ) (s : Ext2System N) : Ext2Call N → List FileWrite
  | .write _ n off cnt buf => if off ≤ (s.nodes n).stSize then [⟨file n, off, cnt, buf⟩] else []
  | _ => []

/-- The condition on a call: nothing is created, and what is written fits. -/
def Served (g : Ext2Super) (files : Set ℕ) (file : N → ℕ) (s : Ext2System N) (call : Ext2Call N) : Prop :=
  (∀ heap n flags, call = .openNode heap n flags → flags &&& createFlag = 0) ∧
    ∀ w ∈ call.writes file s, w.Fits g files s.fs.disk

/-- The range of a transfer does not end behind the largest `off_t`. -/
def InRange : Ext2Call N → Prop
  | .openNode _ _ _ => True
  | .read _ _ off cnt _ => off + cnt < 2 ^ 63
  | .write _ _ off cnt _ => off + cnt < 2 ^ 63

end Ext2Call

/-- What a run of calls writes, in order. -/
def writesOf [DecidableEq N] (g : Ext2Super) (file : N → ℕ) : Ext2System N → List (Ext2Call N) → List FileWrite
  | _, [] => []
  | s, call :: calls => call.writes file s ++ writesOf g file (call.exec g s) calls

/-! ## System calls -/

variable {P : Type}

/-- The calls of a descriptor on a node of the file system, for offsets and counts that are not negative; `heap` is what
new buffers contain. What the virtual file system does by itself is that of `vfs`. -/
def ext2Ops [DecidableEq N] (g : Ext2Super) (heap : Memory) (vfs : VfsOps (Ext2System N) P N) :
    VfsOps (Ext2System N) P N :=
  { vfs with
    stSize := fun s n => (s.nodes n).stSize
    fsOpen := fun s n flags =>
      let opened := ext2Open g heap s.fs (s.nodes n) flags
      (⟨opened.1, Function.update s.nodes n opened.2.1⟩, opened.2.2)
    fsRead := fun s n off cnt =>
      let done := ext2Read g heap s.fs (s.nodes n) off.toNat cnt.toNat fun _ => 0
      let found := (dirFind g heap s.fs.disk s.fs.rootInode (s.nodes n).relativePath).2.1.isSome
      ({ s with fs := done.1 }, done.2.1,
        if found ∧ off.toNat ≤ (s.nodes n).stSize then
          bufferBytes done.2.2 (min cnt.toNat ((s.nodes n).stSize - off.toNat))
        else [])
    fsWrite := fun s n off cnt buf =>
      let written := ext2Write g heap s.fs (s.nodes n) off.toNat cnt.toNat buf
      (⟨written.1, Function.update s.nodes n written.2.1⟩, written.2.2) }

/-- What is done with the node of the descriptor in `rdi`, if it is open. -/
def onNode {A : Type} (st : FdState (Ext2System N) N) (rdi : BitVec 64) (k : Fd N → N → List A) : List A :=
  match (st.translate (toInt rdi.toNat)).2 with
  | none => []
  | some fd =>
    match fd.vfsNode with
    | none => []
    | some n => k fd n

namespace NumberCall

/-- The flags that a system call opens a path with. -/
def openFlags (st : FdState (Ext2System N) N) : NumberCall P → List ℕ
  | .numbers (.openPath _ rsi) => [ofSigned (toInt rsi.toNat)]
  | .numbers (.dup rdi) => onNode st rdi fun fd _ => [ofSigned (toInt (st.cell fd.flags))]
  | _ => []

/-- The calls of the file system that a system call ends in.
SRCLINE: kernel/fs/fd.cpp:58-122, 143-204 -/
def fsCalls (ops : VfsOps (Ext2System N) P N) (heap : Memory) (st : FdState (Ext2System N) N) :
    NumberCall P → List (Ext2Call N)
  | .numbers (.openPath path rsi) => ((ops.searchAbsolute st.vfs path).map fun n =>
      Ext2Call.openNode heap n (ofSigned (toInt rsi.toNat))).toList
  | .numbers (.dup rdi) => onNode st rdi fun fd n =>
      ((ops.searchAbsolute st.vfs (ops.absolutePath st.vfs n)).map fun m =>
        Ext2Call.openNode heap m (ofSigned (toInt (st.cell fd.flags)))).toList
  | .numbers (.close _) => []
  | .numbers (.dup2 _ _) => []
  | .read rdi _ rdx => onNode st rdi fun fd n => [.read heap n (st.cell fd.loc) rdx.toNat fun _ => 0]
  | .write rdi rsi rdx => onNode st rdi fun fd n =>
      [.write heap n (st.cell fd.loc) rdx.toNat fun i => st.mem (rsi.toNat + i)]
  | .seek rdi rsi rdx => onNode st rdi fun fd n =>
      [.write heap n (st.cell fd.loc) rdx.toNat fun i => st.mem (rsi.toNat + i)]

/-- **The condition on a system call**: nothing is created, what is written fits, and no range ends behind the largest
`off_t`. -/
def Served (g : Ext2Super) (files : Set ℕ) (file : N → ℕ) (ops : VfsOps (Ext2System N) P N) (heap : Memory)
    (st : FdState (Ext2System N) N) (call : NumberCall P) : Prop :=
  (∀ flags ∈ call.openFlags st, flags &&& createFlag = 0) ∧
    ∀ c ∈ call.fsCalls ops heap st, c.InRange ∧ c.Served g files file st.vfs

end NumberCall

/-- The calls of the file system that the system calls of some tasks end in, in order. -/
def fsCallsOf (ops : VfsOps (Ext2System N) P N) (heap : Memory) :
    FdState (Ext2System N) N → List (ℤ × NumberCall P) → List (Ext2Call N)
  | _, [] => []
  | st, (pid, call) :: rest => call.fsCalls ops heap st ++ fsCallsOf ops heap (call.run ops pid st).1 rest

/-- A run of system calls, by any tasks, that meet the condition. -/
abbrev SyscallRun (g : Ext2Super) (files : Set ℕ) (file : N → ℕ) (ops : VfsOps (Ext2System N) P N) (heap : Memory) :
    FdState (Ext2System N) N → List (ℤ × NumberCall P) → FdState (Ext2System N) N → Prop :=
  Run (Guarded (fun st c => c.2.Served g files file ops heap st) fun st c st' => (c.2.run ops c.1 st).1 = st')

end CrepOS.Interface
