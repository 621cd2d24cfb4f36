import CrepOS.Interface.DirInsertion
import CrepOS.Model.DirLoops
import CrepOS.Model.Refresh
import Mathlib.Logic.Relation

/-!
# Directories below directories

What a loop over a directory comes to, and which inodes it takes for directories in it. A loop goes on behind an entry
that is exactly as long as its name needs.
-/

set_option autoImplicit false

namespace CrepOS.Interface

open CrepOS.Library CrepOS.Model Relation

/-- The loop goes on from `i` to `j`. -/
def LoopStep (buffer : Memory) (size i j : ℕ) : Prop :=
  i < size ∧ Tight (rawDirAt buffer i) ∧ j = (i + (rawDirAt buffer i).entrySize) % 2 ^ 32

/-- The loop comes to its end from `i` on: behind the directory, or to an entry behind which it does not go on. -/
def LoopEnds (buffer : Memory) (size i : ℕ) : Prop :=
  ∃ j, ReflTransGen (LoopStep buffer size) i j ∧ (j < size → ¬ Tight (rawDirAt buffer j))

section Directories

variable (g : Ext2Super) (heap disk : Memory)

/-- The entry is one of another directory, by its inode. -/
def NamesDirectory (e : RawDir) : Prop :=
  isDots e.name = false ∧ (readInode g disk e.inode).looksLikeDirectory = true

/-- The loop over the directory comes to an entry of the directory with the number `n`. -/
def Subdirectory (ino : Inode) (n : ℕ) : Prop :=
  ∃ j, ReflTransGen (LoopStep (ino.read g disk 0 ino.size32l heap) ino.size32l) 0 j ∧ j < ino.size32l ∧
    NamesDirectory g disk (rawDirAt (ino.read g disk 0 ino.size32l heap) j) ∧
    n = (rawDirAt (ino.read g disk 0 ino.size32l heap) j).inode

/-- The same between two numbers. -/
def SubdirectoryOf (n m : ℕ) : Prop := Subdirectory g heap disk (readInode g disk n) m

/-- The directory with the number `n` is somewhere below the directory. -/
def Below (ino : Inode) (n : ℕ) : Prop :=
  ∃ m, Subdirectory g heap disk ino m ∧ ReflTransGen (SubdirectoryOf g heap disk) m n

/-- The loop over a directory ends. -/
def DirectoryEnds (ino : Inode) : Prop := LoopEnds (ino.read g disk 0 ino.size32l heap) ino.size32l 0

/-- **A proper tree**: no directory below the root is below itself, and the loop over each directory ends. -/
structure RefreshTree (root : Inode) : Prop where
  rootEnds : DirectoryEnds g heap disk root
  ends : ∀ n, Below g heap disk root n → DirectoryEnds g heap disk (readInode g disk n)
  acyclic : ∀ n, Below g heap disk root n → ¬ TransGen (SubdirectoryOf g heap disk) n n

/-- **`refresh_node` returns**, after finitely many calls. -/
def RefreshReturns (ino : Inode) : Prop := ∃ fuel calls, refreshCalls g heap disk fuel ino = some calls

end Directories

/-! ## Walks over malformed directories

What the loops should do with any bytes, and which bytes they do it with. -/

/-- All bytes that are read are bytes of the directory. -/
def ReadsInside (size : ℕ) (reads : List (ℕ × ℕ)) : Prop := ∀ r ∈ reads, ∀ k < r.2, r.1 + k < size

/-- **The three walks end**, and the first two read nothing behind the directory. -/
structure WalksSafe (buffer : Memory) (size : ℕ) (searched deleted : LibString) (blockSize newInode type : ℕ)
    (created : LibString) : Prop where
  search : ∃ fuel reads, searchReads buffer size searched fuel = some reads ∧ ReadsInside size reads
  delete : ∃ fuel reads, deleteReads buffer size deleted fuel = some reads ∧ ReadsInside size reads
  create : ∃ fuel b, insertWalk blockSize size newInode type created fuel 0 false ⟨buffer, [], [], false⟩ = some b

/-- The lengths of the entry at `i`, and its name, are in the directory. -/
def EntryInside (buffer : Memory) (size i : ℕ) : Prop :=
  i + 7 ≤ size ∧ (0 < (rawDirAt buffer i).nameLength → i + 8 + (rawDirAt buffer i).nameLength ≤ size)

/-- The entry at `i` is in the directory, is not the one that is looked for, is exactly as long as its name needs, and
ends at `j`. -/
def RowStep (buffer : Memory) (size : ℕ) (path : LibString) (i j : ℕ) : Prop :=
  EntryInside buffer size i ∧ (rawDirAt buffer i).name ≠ path ∧ Tight (rawDirAt buffer i) ∧
    j = i + (rawDirAt buffer i).entrySize

/-- **The directory begins with a row of such entries** that ends behind it, or at an entry that is in it, and is the
one that is looked for or not exactly as long as its name needs. -/
def RowEnds (buffer : Memory) (size : ℕ) (path : LibString) : Prop :=
  ∃ j < 2 ^ 32, ReflTransGen (RowStep buffer size path) 0 j ∧
    (size ≤ j ∨ EntryInside buffer size j ∧ ((rawDirAt buffer j).name = path ∨ ¬ Tight (rawDirAt buffer j)))

/-- From `i` on, with an entry that is not full before it, the creating walk is behind the directory, or the directory
is not so large that the walk is still in it when its position wraps. -/
def InsertionEnds (blockSize size i : ℕ) : Prop := size ≤ i ∨ size ≤ blockSize % 2 ^ 16 + (2 ^ 32 - 2 ^ 16) + 8

/-- **The entries that are exactly as long as their names need** lead, from the start and modulo `2 ^ 32`, behind the
directory, or to one that is not, where the insertion ends. -/
def CreationEnds (buffer : Memory) (size blockSize : ℕ) : Prop :=
  ∃ j, ReflTransGen (LoopStep buffer size) 0 j ∧ (size ≤ j ∨ ¬ Tight (rawDirAt buffer j) ∧
    InsertionEnds blockSize size ((j + expectedSize (rawDirAt buffer j).nameLength) % 2 ^ 32))

end CrepOS.Interface
