import CrepOS.Model.LibVector
import CrepOS.Model.Fd

/-!
# The file system in memory, `fs/ramfs.cpp`

A node of `ramfs` is a pointer to a node of the virtual file system and a pointer to a buffer. The nodes
are in one `lib::vector`, `node_list`, by value. `~node` removes the entries of its path from that
vector, and `vector::remove` ends with `delete elements`, which runs `~node` on the first object of the
block while the vector still has the old block and size: the two call each other. The calls of both are
counted by `fuel`, and there is no result when it is used up.

The kernel heap is a parameter, `BufferHeap`, for the buffers of the files; the blocks of `node_list` and
the objects of `new node` are not in the memory of the model. What an object is before it is written is
a parameter too: `junk` for arrays, an argument of `open` for the buffer of a new node.
-/

set_option autoImplicit false

namespace CrepOS.Model

open CrepOS.Library

/-- `ramfs::node`.
SRCLINE: kernel/fs/ramfs.hpp:8-21 -/
structure RamNode (N : Type) where
  vfsNode : N
  buf : ℕ

/-- What the files need of the kernel heap: `operator new[]` and `kmm::realloc`.
SRCLINE: kernel/mm/slab.hpp:63-69 -/
structure BufferHeap (H : Type) where
  alloc : H → ℕ → H × ℕ
  realloc : H → Memory → ℕ → ℕ → H × Memory × ℕ

/-- `node_list`, the member `st_size` of the nodes of the virtual file system, the memory and the
heap. -/
structure Ramfs (N H : Type) where
  nodeList : LibVector (RamNode N)
  stSize : N → ℤ
  mem : Memory
  heap : H

variable {N P H : Type} [DecidableEq P]

/-- The element type of `node_list`: there is no move constructor, so `std::move` copies. -/
def ramNodeType : ElementType (RamNode N) := ⟨id, false⟩

/-! ## `~node` and `node_list` -/

mutual

/-- `~node`, whose loop is at `i`. `path` is the absolute path of a node of the virtual file system.
SRCLINE: kernel/fs/ramfs.cpp:46-50 -/
def destroyNode (path : N → P) (junk : ℕ → RamNode N) :
    ℕ → LibVector (RamNode N) → RamNode N → ℕ → Option (LibVector (RamNode N))
  | 0, _, _, _ => none
  | fuel + 1, list, node, i =>
    if i < list.bufSize then do
      let entry ← (list.block junk).read i
      let list ←
        if path entry.vfsNode = path node.vfsNode then removeNode path junk fuel list i else some list
      destroyNode path junk fuel list node (i + 1)
    else some list

/-- `delete elements`: the destructor of the first object.
SRCLINE: kernel/lib/vector.hpp:118, 140 -/
def deleteNodes (path : N → P) (junk : ℕ → RamNode N) :
    ℕ → LibVector (RamNode N) → Option (LibVector (RamNode N))
  | 0, _ => none
  | fuel + 1, list =>
    match list.elements with
    | none => some list
    | some b => do
      let first ← b.read 0
      destroyNode path junk fuel list first 0

/-- `node_list.remove(index)`. The size is the one that the destructor has left.
SRCLINE: kernel/lib/vector.hpp:124-144 -/
def removeNode (path : N → P) (junk : ℕ → RamNode N) :
    ℕ → LibVector (RamNode N) → ℕ → Option (LibVector (RamNode N))
  | 0, _, _ => none
  | fuel + 1, list, index =>
    if list.bufSize < index then some list
    else do
      let (_, newArr) ← LibVector.moveElements ramNodeType (list.block junk)
        ⟨LibVector.predSize list.bufSize, junk⟩ 0 0 index
      let (_, newArr) ← LibVector.moveElements ramNodeType (list.block junk) newArr (index + 1) index
        (list.bufSize - (index + 1))
      let list ← deleteNodes path junk fuel list
      some { list with elements := some newArr, bufSize := LibVector.predSize list.bufSize }

end

/-- `elements[i].~T()` for the elements from `i` on.
SRCLINE: kernel/lib/vector.hpp:115-116 -/
def destroyNodes (path : N → P) (junk : ℕ → RamNode N) :
    ℕ → LibVector (RamNode N) → ℕ → Option (LibVector (RamNode N))
  | 0, _, _ => none
  | fuel + 1, list, i =>
    if i < list.bufSize then do
      let node ← (list.block junk).read i
      let list ← destroyNode path junk fuel list node 0
      destroyNodes path junk fuel list (i + 1)
    else some list

/-- `node_list.push(node)`.
SRCLINE: kernel/lib/vector.hpp:86-90, 105-122 -/
def pushNode (path : N → P) (junk : ℕ → RamNode N) (fuel : ℕ) (list : LibVector (RamNode N))
    (node : RamNode N) : Option (LibVector (RamNode N)) := do
  let list ←
    if list.bufSize + 1 ≤ list.bufCap then some list
    else do
      let newCap := (list.bufSize + 1) * 2
      let (_, newArr) ← LibVector.moveElements ramNodeType (list.block junk) ⟨newCap, junk⟩ 0 0
        list.bufCap
      let list ← destroyNodes path junk fuel list 0
      let list ← deleteNodes path junk fuel list
      some { list with elements := some newArr, bufCap := newCap }
  let elements ← list.elements
  let b ← elements.write list.bufSize node
  some { list with elements := some b, bufSize := list.bufSize + 1 }

/-- `vfs2ramfs`, whose loop has `n` entries left and is at `i`.
SRCLINE: kernel/fs/ramfs.cpp:8-16 -/
def vfs2ramfsFrom (path : N → P) (junk : ℕ → RamNode N) (list : LibVector (RamNode N)) (vfsNode : N)
    (i : ℕ) : ℕ → Option (Option (RamNode N))
  | 0 => some none
  | n + 1 => do
    let entry ← (list.block junk).read i
    if path entry.vfsNode = path vfsNode then some (some entry)
    else vfs2ramfsFrom path junk list vfsNode (i + 1) n

/-- `vfs2ramfs`: the copy of the entry, if there is one.
SRCLINE: kernel/fs/ramfs.cpp:8-16 -/
def vfs2ramfs (path : N → P) (junk : ℕ → RamNode N) (list : LibVector (RamNode N)) (vfsNode : N) :
    Option (Option (RamNode N)) :=
  vfs2ramfsFrom path junk list vfsNode 0 list.bufSize

namespace Ramfs

variable (path : N → P) (junk : ℕ → RamNode N)

/-! ## The methods of a node -/

omit [DecidableEq P] in
/-- `node::read`, which copies from the buffer of the caller into the file.
SRCLINE: kernel/fs/ramfs.cpp:18-28 -/
def nodeRead (st : Ramfs N H) (node : RamNode N) (off cnt : ℤ) (buf : ℕ) : Ramfs N H × ℤ :=
  if st.stSize node.vfsNode < off then (st, -1)
  else
    let cnt := if st.stSize node.vfsNode < wrapSigned (off + cnt) then
      wrapSigned (st.stSize node.vfsNode - off) else cnt
    ({ st with mem := memcpy8 st.mem (wrap (node.buf + ofSigned off)) buf (ofSigned cnt) },
      toInt (ofSigned cnt))

/-- `node::write` of a copy of an entry. A new buffer is known to the copy only.
SRCLINE: kernel/fs/ramfs.cpp:30-44 -/
def nodeWrite [DecidableEq N] (heap : BufferHeap H) (st : Ramfs N H) (node : RamNode N) (off cnt : ℤ)
    (buf : ℕ) : Ramfs N H × ℤ :=
  let stop := wrapSigned (off + cnt)
  let (st, node) :=
    if node.buf = 0 then
      let (h, addr) := heap.alloc st.heap (ofSigned stop)
      ({ st with heap := h, stSize := Function.update st.stSize node.vfsNode stop },
        { node with buf := addr })
    else (st, node)
  let (st, node) :=
    if st.stSize node.vfsNode < stop then
      let size := wrapSigned (st.stSize node.vfsNode + wrapSigned (stop - st.stSize node.vfsNode))
      let (h, mem, addr) := heap.realloc st.heap st.mem node.buf (ofSigned size)
      ({ st with heap := h, mem := mem, stSize := Function.update st.stSize node.vfsNode size },
        { node with buf := addr })
    else (st, node)
  ({ st with mem := memcpy8 st.mem (wrap (node.buf + ofSigned off)) buf (ofSigned cnt) },
    toInt (ofSigned cnt))

/-! ## The file system -/

/-- `fs::read`.
SRCLINE: kernel/fs/ramfs.cpp:56-62 -/
def fsRead (st : Ramfs N H) (vfsNode : N) (off cnt : ℤ) (buf : ℕ) : Option (Ramfs N H × ℤ) := do
  match ← vfs2ramfs path junk st.nodeList vfsNode with
  | none => some (st, -1)
  | some node => some (st.nodeRead node off cnt buf)

/-- `fs::write`.
SRCLINE: kernel/fs/ramfs.cpp:64-70 -/
def fsWrite [DecidableEq N] (heap : BufferHeap H) (st : Ramfs N H) (vfsNode : N) (off cnt : ℤ)
    (buf : ℕ) : Option (Ramfs N H × ℤ) := do
  match ← vfs2ramfs path junk st.nodeList vfsNode with
  | none => some (st, -1)
  | some node => some (st.nodeWrite heap node off cnt buf)

/-- `fs::open`. With `o_creat` the node is an object of the function, which is destroyed when the
function returns; its constructor has put a copy into `node_list`.
SRCLINE: kernel/fs/ramfs.cpp:52-54, 72-83 -/
def fsOpen (fuel : ℕ) (st : Ramfs N H) (vfsNode : N) (flags : ℕ) (newBuf : ℕ) :
    Option (Ramfs N H × ℤ) :=
  if flags &&& 0x10 ≠ 0 then do
    let newNode : RamNode N := ⟨vfsNode, newBuf⟩
    let list ← pushNode path junk fuel st.nodeList newNode
    let list ← destroyNode path junk fuel list newNode 0
    some ({ st with nodeList := list }, 0)
  else do
    match ← vfs2ramfs path junk st.nodeList vfsNode with
    | none => some (st, -1)
    | some _ => some (st, 0)

/-- `fs::unlink`.
SRCLINE: kernel/fs/ramfs.cpp:89-97 -/
def fsUnlink (fuel : ℕ) (st : Ramfs N H) (vfsNode : N) : Option (Ramfs N H × ℤ) := do
  match ← vfs2ramfs path junk st.nodeList vfsNode with
  | none => some (st, -1)
  | some node =>
    let list ← destroyNode path junk fuel st.nodeList node 0
    some ({ st with nodeList := list }, 0)

end Ramfs

end CrepOS.Model
