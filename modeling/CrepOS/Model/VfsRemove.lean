import CrepOS.Model.Vfs

/-!
# Removal from the virtual file system, `fs/vfs.cpp`

`remove_cluster` follows the `child` and the `next` pointers and overwrites the `next` pointer of the node
before each node that it deletes. So the pointers are part of the state here, as functions of the position of
a node. A deleted node keeps its contents until its memory is used again; that a deleted node is read or
written is recorded.
-/

set_option autoImplicit false

namespace CrepOS.Model

open CrepOS.Library

/-- The pointers of the nodes, the nodes that are deleted, and those that were accessed after that.
SRCLINE: kernel/fs/vfs.hpp:40-43 -/
structure VfsLinks where
  next : ℕ → Option ℕ
  last : ℕ → Option ℕ
  child : ℕ → Option ℕ
  deleted : List ℕ
  stale : List ℕ

/-- The `child` pointer of a node: the constructor sets it to each child that it creates.
SRCLINE: kernel/fs/vfs.cpp:53-54 -/
def lastChild (nodes : List VfsNode) (i : ℕ) : Option ℕ :=
  (List.range nodes.length).reverse.find? fun k => decide (0 < k ∧ (nodeAt nodes k).parent = i)

/-- The pointers that `create_node` and the constructor have set.
SRCLINE: kernel/fs/vfs.cpp:141-151 -/
def linksOf (nodes : List VfsNode) : VfsLinks where
  next := fun i => if i + 1 < nodes.length then some (i + 1) else none
  last := fun i => if 0 < i then some (i - 1) else none
  child := lastChild nodes
  deleted := []
  stale := []

/-- The node is accessed. -/
def VfsLinks.touch (s : VfsLinks) (i : ℕ) : VfsLinks :=
  if i ∈ s.deleted then { s with stale := i :: s.stale } else s

/-- `i->next = 0`. -/
def VfsLinks.cut (s : VfsLinks) (i : ℕ) : VfsLinks :=
  { s.touch i with next := Function.update s.next i none }

/-- `delete i`. -/
def VfsLinks.delete (s : VfsLinks) (i : ℕ) : VfsLinks := { s with deleted := i :: s.deleted }

/-- `node::remove_cluster` with `fuel` rounds; `none` is an access through a null pointer, or the fuel is
used up.
SRCLINE: kernel/fs/vfs.cpp:170-179 -/
def removeCluster : ℕ → ℕ → VfsLinks → Option VfsLinks
  | 0, _, _ => none
  | fuel + 1, cur, s =>
    let below :=
      match s.child cur with
      | none => some (s.touch cur)
      | some child => removeCluster fuel child (s.touch cur)
    match below with
    | none => none
    | some s =>
      match s.last cur with
      | none => none
      | some last =>
        -- `cur` is read for its `next` pointer after it is deleted
        let s := (((s.touch cur).cut last).delete cur).touch cur
        match s.next cur with
        | none => some s
        | some next => removeCluster fuel next s

/-- `node::remove`.
SRCLINE: kernel/fs/vfs.cpp:162-168 -/
def removePath (fuel : ℕ) (nodes : List VfsNode) (path : LibString) : Option VfsLinks :=
  match searchAbsolute nodes path with
  | none => some (linksOf nodes)
  | some cur => removeCluster fuel cur (linksOf nodes)

/-- The loop of `search_relative` along the `next` pointers.
SRCLINE: kernel/fs/vfs.cpp:63-72 -/
def searchLinked (nodes : List VfsNode) (s : VfsLinks) (name : LibString) : ℕ → Option ℕ → Option ℕ
  | 0, _ => none
  | _ + 1, none => none
  | fuel + 1, some i =>
    if (nodeAt nodes i).name = name then some i else searchLinked nodes s name fuel (s.next i)

/-- The loop of `search_absolute` along the `next` pointers.
SRCLINE: kernel/fs/vfs.cpp:102-109 -/
def lookupComponents (nodes : List VfsNode) (s : VfsLinks) (i : ℕ) : List LibString → Option ℕ
  | [] => some i
  | name :: rest =>
    match searchLinked nodes s name (nodes.length + 1) (s.next (nodeAt nodes i).parent) with
    | none => none
    | some j => lookupComponents nodes s j rest

/-- `node::search_absolute` along the `next` pointers.
SRCLINE: kernel/fs/vfs.cpp:75-112 -/
def lookupLinked (nodes : List VfsNode) (s : VfsLinks) (path : LibString) : Option ℕ :=
  if path = [slash] then some 0 else lookupComponents nodes s 0 (splitPath (skipSlash path))

end CrepOS.Model
