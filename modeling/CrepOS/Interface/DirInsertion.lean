import CrepOS.Interface.Ext2Tree
import CrepOS.Model.DirLoops

/-!
# Directories of several blocks

The entries of a directory fill its blocks, one block after the other, and none goes past the end of its block. An
entry may be longer than its name needs: the last one of a block goes up to its end, and one behind which another was
deleted has taken its bytes.
-/

set_option autoImplicit false

namespace CrepOS.Interface

open CrepOS.Library CrepOS.Model

/-- An entry may have this length. -/
structure EntryFits (e : RawDir) : Prop where
  aligned : 4 ∣ e.entrySize
  room : 8 + e.nameLength ≤ e.entrySize

/-- The entries fill the bytes from `i` to `stop`. -/
def FillsTo (buffer : Memory) (stop : ℕ) : ℕ → List RawDir → Prop
  | i, [] => i = stop
  | i, e :: es => rawDirAt buffer i = e ∧ EntryFits e ∧ FillsTo buffer stop (i + e.entrySize) es

instance decidableEntryFits (e : RawDir) : Decidable (EntryFits e) :=
  decidable_of_iff (4 ∣ e.entrySize ∧ 8 + e.nameLength ≤ e.entrySize) ⟨fun h => ⟨h.1, h.2⟩, fun h => ⟨h.1, h.2⟩⟩

instance decidableFillsTo (buffer : Memory) (stop : ℕ) : ∀ (i : ℕ) (es : List RawDir), Decidable (FillsTo buffer stop i es)
  | i, [] => inferInstanceAs (Decidable (i = stop))
  | i, e :: es =>
    have := decidableFillsTo buffer stop (i + e.entrySize) es
    inferInstanceAs (Decidable (_ ∧ _ ∧ _))

/-- **A well-formed directory**, with the entries of each block. -/
structure WellFormedDirectory (g : Ext2Super) (disk : Memory) (ino : Inode) (blocks : List (List RawDir)) : Prop where
  blockSize : 0 < g.blockSize
  size : ino.size32l = blocks.length * g.blockSize
  fills : ∀ k es, blocks[k]? = some es → FillsTo (fileBytes g disk ino) ((k + 1) * g.blockSize) (k * g.blockSize) es
  names : ((liveEntries blocks.flatten).map RawDir.name).Nodup

/-- **The search is exact**: it finds just the entry in use with the name. -/
def SearchExact (g : Ext2Super) (heap disk : Memory) (ino : Inode) (es : List RawDir) (name : LibString) : Prop :=
  ∀ e, searchDir g heap disk ino name = some e ↔ e ∈ liveEntries es ∧ e.name = name

/-- Before the entry in use with the name, if there is one, each entry is as long as its name needs, and none has
the name. -/
def WithinReach (es : List RawDir) (name : LibString) : Prop :=
  ∀ before e behind, es = before ++ e :: behind → e.inode ≠ 0 → e.name = name →
    ∀ e' ∈ before, e'.entrySize = expectedSize e'.nameLength ∧ e'.name ≠ name

/-! ## What inserting into a directory should do -/

/-- The bytes are those of a well-formed directory. -/
structure DirectoryBytes (blockSize : ℕ) (bytes : Memory) (blocks : List (List RawDir)) : Prop where
  fills : ∀ k es, blocks[k]? = some es → FillsTo bytes ((k + 1) * blockSize) (k * blockSize) es
  names : ((liveEntries blocks.flatten).map RawDir.name).Nodup

/-- The names of the entries in use, with their inodes. -/
def namedInodes (es : List RawDir) : List (LibString × ℕ) := (liveEntries es).map fun e => (e.name, e.inode)

/-- The entry is exactly as long as its name needs. -/
def Tight (e : RawDir) : Prop := e.entrySize = expectedSize e.nameLength

instance decidableTight (e : RawDir) : Decidable (Tight e) := inferInstanceAs (Decidable (_ = _))

/-- **The insertion is right**: it writes only to the buffer, and either `exists` is set and the bytes that are
written to the directory at last are those of a well-formed directory, of the same size, with the new name, or nothing
is written because no entry has enough slack. -/
structure InsertRight (blockSize size : ℕ) (blocks : List (List RawDir)) (newInode : ℕ) (name : LibString)
    (b : InsertBuffer) : Prop where
  inside : ∀ w ∈ b.writes, w.1 + w.2 ≤ size
  result : (b.found = true ∧ ∃ last blocks', b.flushes.getLast? = some last ∧ blocks'.length = blocks.length ∧
      DirectoryBytes blockSize last blocks' ∧
      (namedInodes blocks'.flatten).Perm ((name, newInode) :: namedInodes blocks.flatten)) ∨
    (b.found = false ∧ b.flushes = [] ∧
      ∀ e ∈ blocks.flatten, e.entrySize < expectedSize e.nameLength + expectedSize name.length)

/-- The insertion ends, and is right. -/
def InsertsRight (g : Ext2Super) (heap disk : Memory) (ino : Inode) (blocks : List (List RawDir)) (newInode type : ℕ)
    (name : LibString) : Prop :=
  ∃ fuel b, dirInsertBuffer g heap disk ino newInode type name fuel = some b ∧
    InsertRight g.blockSize ino.size32l blocks newInode name b

end CrepOS.Interface
