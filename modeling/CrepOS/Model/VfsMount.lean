import CrepOS.Model.Ext2
import CrepOS.Model.Vfs

/-!
# Mounting, `vfs::mount` and `ext2::fs::refresh_node`

The nodes are the chain of `CrepOS.Model.Vfs`; the file system and the relative path of a node, which
`create_node` sets too, are functions of its position. A file system is a number. `gates` has the `mount_gate`
of each one that is mounted.

`refresh_node` calls itself for each directory. It has as much fuel as directories may be nested, and running out
of it gives no result. Nothing reads what it returns.
-/

set_option autoImplicit false

namespace CrepOS.Model

open CrepOS.Library

/-- All nodes, and the file systems that are mounted.
SRCLINE: kernel/fs/vfs.hpp:18-50, 104-113 -/
structure MountedVfs where
  nodes : List VfsNode
  filesystem : ℕ → Option ℕ
  relativePath : ℕ → LibString
  gates : ℕ → Option LibString

namespace MountedVfs

/-- The `relative_path` that `create_node` sets, from the file system of the parent and the absolute path.
SRCLINE: kernel/fs/vfs.cpp:129-132 -/
def relativeTo (st : MountedVfs) (parent : ℕ) (absolutePath : LibString) : LibString :=
  match (st.filesystem parent).bind st.gates with
  | none => []
  | some gate => (absolutePath.drop gate.length).takeWhile (· ≠ 0)

/-- `create_node`.
SRCLINE: kernel/fs/vfs.cpp:114-154 -/
def create (st : MountedVfs) (parent : ℕ) (name : LibString) : MountedVfs :=
  let nodes := createNode st.nodes parent name
  let new := st.nodes.length
  { st with
    nodes := nodes
    filesystem := Function.update st.filesystem new (st.filesystem parent)
    relativePath := Function.update st.relativePath new (st.relativeTo parent (nodeAt nodes new).absolutePath) }

/-- The inner loop of the constructor of `node`.
SRCLINE: kernel/fs/vfs.cpp:52-56 -/
def createRest (st : MountedVfs) (parent : ℕ) : List LibString → MountedVfs
  | [] => st
  | name :: rest => createRest (st.create parent name) st.nodes.length rest

/-- The outer loop of the constructor.
SRCLINE: kernel/fs/vfs.cpp:48-59 -/
def constructComponents (st : MountedVfs) (i : ℕ) : List LibString → MountedVfs
  | [] => st
  | name :: rest =>
    match searchRelative st.nodes i name with
    | none => st.createRest i (name :: rest)
    | some j => st.constructComponents j rest

/-- `node::node(absolute_path)`.
SRCLINE: kernel/fs/vfs.cpp:20-60 -/
def construct (st : MountedVfs) (path : LibString) : MountedVfs :=
  st.constructComponents 0 (splitPath (skipSlash path))

end MountedVfs

/-- The names `.` and `..`. -/
def isDots (name : LibString) : Bool := name = [0x2e] || name = [0x2e, 0x2e]

/-- `raw.permissions & 0x4000`.
SRCLINE: kernel/fs/ext2/ext2.cpp:160 -/
def Inode.looksLikeDirectory (ino : Inode) : Bool := (BitVec.ofNat 16 (ino.raw.word 0 2)).getLsbD 14

section Refresh

variable (g : Ext2Super) (heap disk : Memory)

/-- The loop of `refresh_node` from `i` on; `recur` is `refresh_node` for a directory in this one.
SRCLINE: kernel/fs/ext2/ext2.cpp:138-176 -/
def refreshLoop (recur : Inode → LibString → MountedVfs → Option MountedVfs) (buffer : Memory) (size : ℕ)
    (mountGate : LibString) : ℕ → ℕ → MountedVfs → Option MountedVfs
  | 0, _, st => some st
  | fuel + 1, i, st =>
    if i < size then
      let dirCur := rawDirAt buffer i
      let absolutePath := mountGate ++ dirCur.name
      let published :=
        if isDots dirCur.name then some (st.construct absolutePath)
        else
          let newInode := readInode g disk dirCur.inode
          if newInode.looksLikeDirectory then
            recur newInode (absolutePath ++ [slash]) (st.construct (absolutePath ++ [slash]))
          else some (st.construct absolutePath)
      published.bind fun st =>
        if dirCur.entrySize ≠ expectedSize dirCur.nameLength then some st
        else refreshLoop recur buffer size mountGate fuel (i + dirCur.entrySize) st
    else some st

/-- `fs::refresh_node`, with a buffer that contained `heap`.
SRCLINE: kernel/fs/ext2/ext2.cpp:134-179 -/
def refreshNode : ℕ → Inode → LibString → MountedVfs → Option MountedVfs
  | 0, _, _, _ => none
  | fuel + 1, ino, mountGate, st =>
    let buffer := ino.read g disk 0 ino.size32l heap
    refreshLoop g disk (refreshNode fuel) buffer ino.size32l mountGate ino.size32l 0 st

/-- `vfs::mount` of ext2 file systems: what it returns, and the nodes after it. `devFilesystem` is the member
`filesystem` of the `dev::node` of a node, if there is one and the member is set; `f` has the root inode
`rootInode`.
SRCLINE: kernel/fs/vfs.cpp:181-203, kernel/fs/ext2/ext2.cpp:188-190 -/
def MountedVfs.mount (st : MountedVfs) (fuel : ℕ) (devFilesystem : ℕ → Option ℕ) (rootInode : Inode)
    (source target : LibString) : Option (ℤ × MountedVfs) :=
  match (searchAbsolute st.nodes source).bind devFilesystem with
  | none => some (-1, st)
  | some f =>
    match searchAbsolute st.nodes target with
    | none => some (-1, st)
    | some i =>
      let st := { st with
        filesystem := Function.update st.filesystem i (some f)
        gates := Function.update st.gates f (some target) }
      (refreshNode g heap disk fuel rootInode (nodeAt st.nodes i).absolutePath st).map fun st => (0, st)

end Refresh

end CrepOS.Model
