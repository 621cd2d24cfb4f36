import CrepOS.Model.Ext2

/-!
# Directories of an ext2 file system

A directory holds a row of entries that fills its bytes. `resolve` follows the components of a path
through the directories; `RootLists` is about the root directory alone, and about the part of it that a
search reaches.
-/

set_option autoImplicit false

namespace CrepOS.Interface

open CrepOS.Library CrepOS.Model

/-- The bytes of the file of an inode. -/
def fileBytes (g : Ext2Super) (disk : Memory) (ino : Inode) : Memory :=
  fun a => disk (ino.diskPos g disk a)

/-- The entries fill the bytes from `i` to `size`; each is at least as long as its name needs. -/
def EntriesAt (buffer : Memory) (size : ℕ) : ℕ → List RawDir → Prop
  | i, [] => i = size
  | i, e :: es => rawDirAt buffer i = e ∧ expectedSize e.nameLength ≤ e.entrySize ∧
      i + e.entrySize ≤ size ∧ EntriesAt buffer size (i + e.entrySize) es

instance decidableEntriesAt (buffer : Memory) (size : ℕ) :
    ∀ (i : ℕ) (es : List RawDir), Decidable (EntriesAt buffer size i es)
  | i, [] => inferInstanceAs (Decidable (i = size))
  | i, e :: es =>
    have := decidableEntriesAt buffer size (i + e.entrySize) es
    inferInstanceAs (Decidable (_ ∧ _ ∧ _ ∧ _))

/-- The entries in use. -/
def liveEntries (es : List RawDir) : List RawDir := es.filter fun e => e.inode ≠ 0

/-- The inode is a directory of one block with these entries, whose names are distinct. -/
structure DirectoryOf (g : Ext2Super) (disk : Memory) (ino : Inode) (es : List RawDir) : Prop where
  oneBlock : ino.size32l ≤ g.blockSize
  entries : EntriesAt (fileBytes g disk ino) ino.size32l 0 es
  names : ((liveEntries es).map RawDir.name).Nodup

/-- **A well-formed tree.** `entries` gives the entries of each directory, by its inode number; that of
the root is `2`. -/
structure Ext2Tree (g : Ext2Super) (disk : Memory) (entries : ℕ → Option (List RawDir)) : Prop where
  blockSize : 0 < g.blockSize
  root : entries 2 ≠ none
  directories : ∀ d es, entries d = some es → DirectoryOf g disk (readInode g disk d) es

/-- The inode number of the entry with the name. -/
def namedIn (es : List RawDir) (name : LibString) : Option ℕ :=
  ((liveEntries es).find? fun e => e.name = name).map RawDir.inode

/-- The inode number of the file that the components name from the directory `d` on. -/
def resolve (entries : ℕ → Option (List RawDir)) : ℕ → List LibString → Option ℕ
  | d, [] => some d
  | d, name :: names => (entries d).bind fun es => (namedIn es name).bind fun k =>
      resolve entries k names

/-- **What a lookup is for**: an entry is set, and `exists`, if and only if the path names a file, and
then the entry is that of the file. -/
def LooksUp (found : Option RawDir × Bool) (named : Option ℕ) : Prop :=
  ((found.2 = true ∧ found.1 ≠ none) ↔ named ≠ none) ∧
    ∀ e k, found = (some e, true) → named = some k → e.inode = k

/-- The entries that a search reaches: it ends at one that is longer than its name needs.
SRCLINE: kernel/fs/ext2/dir.cpp:25-27 -/
def reached : List RawDir → List RawDir
  | [] => []
  | e :: es => if e.entrySize = expectedSize e.nameLength then e :: reached es else [e]

/-- The entry that a search finds: the first with the name, if it is in use. -/
def searchEntries (es : List RawDir) (name : LibString) : Option RawDir :=
  ((reached es).find? fun e => e.name = name).filter fun e => e.inode ≠ 0

/-- All the names are in one directory, within reach, and the last is that of the inode `k`. -/
def RootLists (es : List RawDir) (names : List LibString) (k : ℕ) : Prop :=
  (∀ name ∈ names, searchEntries es name ≠ none) ∧
    (names.getLast?.bind (searchEntries es)).map RawDir.inode = some k

end CrepOS.Interface
