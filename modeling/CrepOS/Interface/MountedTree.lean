import CrepOS.Interface.Ext2Tree
import CrepOS.Interface.VfsNames
import CrepOS.Model.VfsMount

/-!
# What mounting should publish

A tree that can be mounted has files of the usual types, and its directories are not below themselves.
-/

set_option autoImplicit false

namespace CrepOS.Interface

open CrepOS.Library CrepOS.Model

/-- The types of files. -/
inductive FileType
  | fifo
  | charDevice
  | directory
  | blockDevice
  | regular
  | symlink
  | socket
  deriving DecidableEq

/-- The upper four bits of the permissions. -/
def FileType.bits : FileType → ℕ
  | fifo => 1
  | charDevice => 2
  | directory => 4
  | blockDevice => 6
  | regular => 8
  | symlink => 10
  | socket => 12

/-- The inode is that of a file of the type; only directories, regular files and links have contents. -/
structure HasType (ino : Inode) (t : FileType) : Prop where
  bits : ino.raw.word 0 2 / 2 ^ 12 = t.bits
  contents : t ≠ .directory → t ≠ .regular → t ≠ .symlink → ino.size32l = 0

/-- **A well-formed acyclic tree.** The `depth` of a directory is larger than those of the directories in it. -/
structure MountableTree (g : Ext2Super) (disk : Memory) (entries : ℕ → Option (List RawDir)) (depth : ℕ → ℕ) : Prop
    extends Ext2Tree g disk entries where
  names : ∀ d es, entries d = some es → ∀ e ∈ liveEntries es, e.name ≠ [] ∧ slash ∉ e.name ∧ 0 ∉ e.name
  types : ∀ d es, entries d = some es → ∀ e ∈ liveEntries es,
    ∃ t, HasType (readInode g disk e.inode) t ∧ (t = .directory ↔ entries e.inode ≠ none)
  acyclic : ∀ d es, entries d = some es → ∀ e ∈ liveEntries es, isDots e.name = false →
    entries e.inode ≠ none → depth e.inode < depth d

/-- The inode `k` is that of the file or directory with the path `q` in the file system. -/
def FileAt (entries : ℕ → Option (List RawDir)) (q : List LibString) (k : ℕ) : Prop :=
  q ≠ [] ∧ (∀ name ∈ q, isDots name = false) ∧ resolve entries 2 q = some k

/-- **The tree is published**: each file has a node whose absolute path is the target, `/`, and the path of the
file, the relative path leads to the file, and only directories have nodes below them. -/
def PublishesTree (entries : ℕ → Option (List RawDir)) (target : LibString) (st : MountedVfs) : Prop :=
  ∀ q k, FileAt entries q k → ∃ i < st.nodes.length,
    (nodeAt st.nodes i).absolutePath = canonical (components target ++ q) ∧
      resolve entries 2 (components (st.relativePath i)) = some k ∧
      (entries k = none → ∀ j, 0 < j → j < st.nodes.length → (nodeAt st.nodes j).parent ≠ i)

/-- What has to hold before the call: the target is the root, all entries are in use and within reach, the names of
the tree are not those of nodes, and none of them is in two directories. -/
structure MountFits (st : MountedVfs) (target : LibString) (entries : ℕ → Option (List RawDir)) : Prop where
  root : target = [slash]
  live : ∀ d es, entries d = some es → liveEntries es = es
  reached : ∀ d es, entries d = some es → reached es = es
  newNames : ∀ dir name k, FileAt entries (dir ++ [name]) k → ∀ node ∈ st.nodes, node.name ≠ name
  oneDirectory : ∀ dir dir' name k k', FileAt entries (dir ++ [name]) k → FileAt entries (dir' ++ [name]) k' →
    dir = dir'

end CrepOS.Interface
