import CrepOS.Model.LibString
import CrepOS.Model.Vfs
import CrepOS.Model.VfsRemove

/-!
# Paths and what a lookup should find

The components of a path are the maximal non-empty runs of characters other than `/`, its canonical form
is `/` followed by the components joined by `/`. A path exists when it has no components, for it is the
root then, or when its components are the beginning of a constructed path.
-/

set_option autoImplicit false

namespace CrepOS.Interface

open CrepOS.Library CrepOS.Model

/-- The components of a path. -/
def components (path : LibString) : List LibString := (path.splitOn slash).filter (· ≠ [])

/-- The canonical form of a path with the given components. -/
def canonical (names : List LibString) : LibString := slash :: [slash].intercalate names

/-- The path with these components has been constructed, or a path below it. -/
def Constructed (paths : List LibString) (names : List LibString) : Prop :=
  names = [] ∨ ∃ q ∈ paths, names <+: components q

/-- **The lookup is faithful**: it finds a node exactly if the path exists, and then the one with the
canonical form of the path. -/
def FaithfulLookup (paths : List LibString) (p : LibString) : Prop :=
  (searchAbsolute (constructAll paths) p = none ↔ ¬ Constructed paths (components p)) ∧
    ∀ j, searchAbsolute (constructAll paths) p = some j →
      (nodeAt (constructAll paths) j).absolutePath = canonical (components p)

/-- No name occurs in two directories of the paths. -/
def Unambiguous (paths : List LibString) : Prop :=
  ∀ q ∈ paths, ∀ q' ∈ paths, ∀ dir dir' name, dir ++ [name] <+: components q →
    dir' ++ [name] <+: components q' → dir = dir'

/-! ## Maximal runs of characters other than `/`

A run starts at a character other than `/` that is the first one or comes after `/`, and goes on as long as
there is no `/`. -/

/-- A string that is built from a C string: no character is zero, and with the terminator it fits into memory. -/
structure PathString where
  chars : LibString
  noNull : 0 ∉ chars
  short : chars.length + 1 < 2 ^ 64

/-- A run starts at `i`, if `before` is what comes before the string. -/
def startsRun (before : Byte) (s : LibString) (i : ℕ) : Bool :=
  s.getD i slash ≠ slash && (before :: s).getD i slash = slash

/-- The runs of a string, in order. -/
def runs (s : LibString) : List LibString :=
  ((List.range s.length).filter (startsRun slash s)).map fun i => (s.drop i).takeWhile (· ≠ slash)

/-! ## What a removal should do

The nodes at a path and below it are deleted, all other nodes are still found where they were found before,
and no deleted node is accessed. -/

/-- The absolute path of the node is `p`, or it begins with `p` and a `/`. -/
def AtOrBelow (nodes : List VfsNode) (p : LibString) (i : ℕ) : Prop :=
  (nodeAt nodes i).absolutePath = p ∨ p ++ [slash] <+: (nodeAt nodes i).absolutePath

/-- **The removal of `p` is correct.** -/
def RemoveCorrect (nodes : List VfsNode) (p : LibString) : Prop :=
  ∃ fuel s, removePath fuel nodes p = some s ∧
    (∀ i < nodes.length, i ∈ s.deleted ↔ AtOrBelow nodes p i) ∧
    (∀ q i, searchAbsolute nodes q = some i → i ∉ s.deleted → lookupLinked nodes s q = some i) ∧
    s.stale = []

/-- **The removal cuts the chain at the node `j`**: it accesses this node after it has deleted it, and
afterwards every lookup finds what it found when there were only the nodes before `j`. -/
def CutsAt (nodes : List VfsNode) (p : LibString) (j : ℕ) : Prop :=
  ∃ s, removePath nodes.length nodes p = some s ∧ j ∈ s.stale ∧
    ∀ q, lookupLinked nodes s q = searchAbsolute (nodes.take j) q

end CrepOS.Interface
