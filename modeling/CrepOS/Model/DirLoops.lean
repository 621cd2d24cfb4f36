import CrepOS.Model.Ext2

/-!
# Inserting into a directory, the constructor `dir(parent_inode, new_inode, type, name)`

Here the constructor is followed in its buffer: which ranges of it are written, and with which contents it is passed to
`inode::write`. `insertLoop` of `CrepOS.Model.Ext2` has what the calls of `inode::write` do to the device. The position
in the buffer is an `uint32_t`, which wraps in directories of nearly 4 GiB.
-/

set_option autoImplicit false

namespace CrepOS.Model

open CrepOS.Library

/-- The buffer, the offsets and lengths of the writes to it, the contents that are passed to `inode::write`, and the
member `exists`. -/
structure InsertBuffer where
  bytes : Memory
  writes : List (ℕ × ℕ)
  flushes : List Memory
  found : Bool

namespace InsertBuffer

/-- An assignment to a member of an entry, `n` bytes at `a`. -/
def assign (b : InsertBuffer) (a n v : ℕ) : InsertBuffer :=
  { b with bytes := b.bytes.setWord a n v, writes := b.writes ++ [(a, n)] }

/-- `memcpy8` of the name, whose length is a byte. -/
def copyName (b : InsertBuffer) (a : ℕ) (name : LibString) : InsertBuffer :=
  { b with
    bytes := b.bytes.store a (name.length % 256) fun k => name.getD k 0
    writes := b.writes ++ [(a, name.length % 256)] }

/-- `memset8` of an entry without its name. -/
def clearEntry (b : InsertBuffer) (a : ℕ) : InsertBuffer :=
  { b with bytes := memset8 b.bytes a 0 8, writes := b.writes ++ [(a, 8)] }

/-- `inode::write` of the whole buffer, and the assignment to `exists`. -/
def flush (b : InsertBuffer) : InsertBuffer := { b with flushes := b.flushes ++ [b.bytes], found := true }

/-- The members and the name of the new entry at `i`.
SRCLINE: kernel/fs/ext2/dir.cpp:93-98 -/
def newEntry (b : InsertBuffer) (blockSize newInode type : ℕ) (name : LibString) (i : ℕ) : InsertBuffer :=
  let b := b.assign i 4 newInode
  let b := b.assign (i + 7) 1 type
  let b := b.assign (i + 6) 1 name.length
  let b := b.assign (i + 4) 2 (ofSigned (blockSize - i))
  b.copyName (i + 8) name

/-- What is done when an entry with slack has been found: the new entry, and the `i` behind it, an `uint32_t`.
SRCLINE: kernel/fs/ext2/dir.cpp:92-107 -/
def insert (b : InsertBuffer) (blockSize newInode type : ℕ) (name : LibString) (i : ℕ) : ℕ × InsertBuffer :=
  let b := b.newEntry blockSize newInode type name i
  let i := (i + b.bytes.word (i + 4) 2) % 2 ^ 32
  (i, (b.clearEntry i).flush)

end InsertBuffer

/-- The loop, from `i` on, in at most `fuel` tests of its condition; `none` if these are not enough.
SRCLINE: kernel/fs/ext2/dir.cpp:89-118 -/
def insertWalk (blockSize size newInode type : ℕ) (name : LibString) : ℕ → ℕ → Bool → InsertBuffer → Option InsertBuffer
  | 0, _, _, _ => none
  | fuel + 1, i, slack, b =>
    if i < size then
      let r := if slack then b.insert blockSize newInode type name i else (i, b)
      let e := rawDirAt r.2.bytes r.1
      if e.entrySize ≠ expectedSize e.nameLength then
        insertWalk blockSize size newInode type name fuel ((r.1 + expectedSize e.nameLength) % 2 ^ 32) true
          (r.2.assign (r.1 + 4) 2 (expectedSize e.nameLength))
      else insertWalk blockSize size newInode type name fuel ((r.1 + e.entrySize) % 2 ^ 32) slack r.2
    else some b

/-- `dir(parent_inode, new_inode, type, name)`, in the buffer.
SRCLINE: kernel/fs/ext2/dir.cpp:83-119 -/
def dirInsertBuffer (g : Ext2Super) (heap disk : Memory) (parentInode : Inode) (newInode type : ℕ)
    (name : LibString) (fuel : ℕ) : Option InsertBuffer :=
  insertWalk g.blockSize parentInode.size32l newInode type name fuel 0 false
    ⟨parentInode.read g disk 0 parentInode.size32l heap, [], [], false⟩

/-! ## What the loops over a directory read of the buffer

The directory is in the first `size` bytes of the buffer, and behind it there is other memory. The position is an
`uint32_t`. `findEntry` of `CrepOS.Model.Ext2` has the entry that is found. A range of the buffer that is read is its
offset and its length. -/

/-- The common loop of `search_relative` and `delete_relative`, from `i` on, in at most `fuel` tests of its condition:
the ranges that are read. `found` is what is read when the name is found at a position.
SRCLINE: kernel/fs/ext2/dir.cpp:9-30, 125-145 -/
def walkReads (buffer : Memory) (size : ℕ) (path : LibString) (found : ℕ → List (ℕ × ℕ)) :
    ℕ → ℕ → Option (List (ℕ × ℕ))
  | 0, _ => none
  | fuel + 1, i =>
    if i < size then
      let dirCur := rawDirAt buffer i
      -- the name is copied, and then compared
      let reads := [(i + 6, 1), (i + 8, dirCur.nameLength)]
      if dirCur.name = path then some (reads ++ found i)
      else
        let reads := reads ++ [(i + 6, 1), (i + 4, 2)]
        if dirCur.entrySize ≠ expectedSize dirCur.nameLength then some reads
        else (walkReads buffer size path found fuel ((i + dirCur.entrySize) % 2 ^ 32)).map (reads ++ ·)
    else some []

/-- `dir::search_relative`, which tests the inode of the entry that it finds.
SRCLINE: kernel/fs/ext2/dir.cpp:5-34 -/
def searchReads (buffer : Memory) (size : ℕ) (path : LibString) (fuel : ℕ) : Option (List (ℕ × ℕ)) :=
  walkReads buffer size path (fun i => [(i, 4)]) fuel 0

/-- `dir::delete_relative`, which clears the name, removes the inode and writes the buffer.
SRCLINE: kernel/fs/ext2/dir.cpp:121-147 -/
def deleteReads (buffer : Memory) (size : ℕ) (path : LibString) (fuel : ℕ) : Option (List (ℕ × ℕ)) :=
  walkReads buffer size path (fun i => [(i + 6, 1), (i, 4), (0, size)]) fuel 0

end CrepOS.Model
