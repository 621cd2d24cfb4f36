import CrepOS.Model.LibString

/-!
# The virtual file system, `fs/vfs.cpp`

All nodes are on one chain: the root is its first node, `create_node` follows the `next` pointers from
the parent to the end and appends the new node there. The chain is a list of nodes, a pointer to a node
is its position, and the `next` pointer of a node is the position after it. `search_relative` starts at
the node after the *parent* of the directory and takes the first node with the name, in whatever
directory that node is.

Of a node only what creation and search use is kept: the absolute path, the name and the parent. The
parent of the root is the root.
-/

set_option autoImplicit false

namespace CrepOS.Model

open CrepOS.Library

/-- `vfs::node`.
SRCLINE: kernel/fs/vfs.hpp:18-50 -/
structure VfsNode where
  absolutePath : LibString
  name : LibString
  parent : ℕ
  deriving DecidableEq

/-- `root_node`.
SRCLINE: kernel/fs/vfs.hpp:50, kernel/fs/vfs.cpp:6-18 -/
def rootNode : VfsNode := ⟨[slash], [slash], 0⟩

/-- The node at a position of the chain. -/
def nodeAt (nodes : List VfsNode) (i : ℕ) : VfsNode := (nodes[i]?).getD rootNode

/-- The loop of `search_relative` over the rest of the chain, which begins at position `i`.
SRCLINE: kernel/fs/vfs.cpp:65-70 -/
def searchChain (name : LibString) (i : ℕ) : List VfsNode → Option ℕ
  | [] => none
  | node :: rest => if node.name = name then some i else searchChain name (i + 1) rest

/-- `node::search_relative`, of the node at position `i`.
SRCLINE: kernel/fs/vfs.cpp:62-73 -/
def searchRelative (nodes : List VfsNode) (i : ℕ) (name : LibString) : Option ℕ :=
  searchChain name ((nodeAt nodes i).parent + 1) (nodes.drop ((nodeAt nodes i).parent + 1))

/-- The loop of `search_absolute`.
SRCLINE: kernel/fs/vfs.cpp:102-109 -/
def searchComponents (nodes : List VfsNode) (i : ℕ) : List LibString → Option ℕ
  | [] => some i
  | name :: rest =>
    match searchRelative nodes i name with
    | none => none
    | some j => searchComponents nodes j rest

/-- `node::search_absolute`.
SRCLINE: kernel/fs/vfs.cpp:75-112 -/
def searchAbsolute (nodes : List VfsNode) (path : LibString) : Option ℕ :=
  if path = [slash] then some 0 else searchComponents nodes 0 (splitPath (skipSlash path))

/-- `create_node`: the new chain; the new node is its last one.
SRCLINE: kernel/fs/vfs.cpp:114-154 -/
def createNode (nodes : List VfsNode) (parent : ℕ) (name : LibString) : List VfsNode :=
  let path := (nodeAt nodes parent).absolutePath
  nodes ++ [⟨if parent ≠ 0 then path ++ [slash] ++ name else path ++ name, name, parent⟩]

/-- The inner loop of the constructor, which creates the nodes that are left.
SRCLINE: kernel/fs/vfs.cpp:52-56 -/
def createRest (nodes : List VfsNode) (parent : ℕ) : List LibString → List VfsNode
  | [] => nodes
  | name :: rest => createRest (createNode nodes parent name) nodes.length rest

/-- The outer loop of the constructor.
SRCLINE: kernel/fs/vfs.cpp:48-59 -/
def constructComponents (nodes : List VfsNode) (i : ℕ) : List LibString → List VfsNode
  | [] => nodes
  | name :: rest =>
    match searchRelative nodes i name with
    | none => createRest nodes i (name :: rest)
    | some j => constructComponents nodes j rest

/-- `node::node(absolute_path)`.
SRCLINE: kernel/fs/vfs.cpp:20-60 -/
def constructNode (nodes : List VfsNode) (path : LibString) : List VfsNode :=
  constructComponents nodes 0 (splitPath (skipSlash path))

/-- The chain after a sequence of constructions from the bare root. -/
def constructAll (paths : List LibString) : List VfsNode := paths.foldl constructNode [rootNode]

end CrepOS.Model
