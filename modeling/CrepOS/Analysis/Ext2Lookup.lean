import CrepOS.Interface.Ext2Tree
import CrepOS.Analysis.Ext2Inode

/-!
# Looking up a path in ext2

`search_relative` finds the first entry with the name among those that it reaches (`searchDir_eq`). The
constructor of `dir` searches the root directory for every component, since the directory that it finds
goes to the parameter and not to the member (`findLoop_eq`). A lookup is therefore right if and only if
the root directory gives the answer for the whole path (`dirFind_looksUp_iff`).
-/

set_option autoImplicit false

namespace CrepOS.Analysis

open CrepOS.Library CrepOS.Model CrepOS.Interface

variable {g : Ext2Super} {disk heap buffer buffer' : Memory} {size i : ℕ} {es : List RawDir}
  {name : LibString}

/-! ## The search in one directory -/

/-- INTERNAL: an entry has room for its name. -/
theorem name_fits (n : ℕ) : 8 + n ≤ expectedSize n := by
  unfold expectedSize
  omega

/-- INTERNAL: an entry is determined by its bytes. -/
theorem rawDirAt_congr (h : ∀ a < size, buffer' a = buffer a)
    (hinside : i + 8 + (rawDirAt buffer i).nameLength ≤ size) :
    rawDirAt buffer' i = rawDirAt buffer i := by
  have hword : ∀ k n, k + n ≤ 8 → buffer'.word (i + k) n = buffer.word (i + k) n := by
    intro k n hk
    apply Memory.word_congr
    intro j hj
    exact h _ (by omega)
  have hinode : buffer'.word i 4 = buffer.word i 4 := hword 0 4 (by omega)
  have hlength : buffer'.word (i + 6) 1 = buffer.word (i + 6) 1 := hword 6 1 (by omega)
  have hname : buffer'.bytes (i + 8) (buffer.word (i + 6) 1) =
      buffer.bytes (i + 8) (buffer.word (i + 6) 1) := by
    apply Memory.bytes_congr
    intro j hj
    have hinside : i + 8 + buffer.word (i + 6) 1 ≤ size := hinside
    exact h _ (by omega)
  rw [rawDirAt, rawDirAt, hinode, hword 4 2 (by omega), hlength, hname]

theorem entriesAt_congr (h : EntriesAt buffer size i es) (hsame : ∀ a < size, buffer' a = buffer a) :
    EntriesAt buffer' size i es := by
  induction es generalizing i with
  | nil => exact h
  | cons e es ih =>
    obtain ⟨hentry, hlong, hinside, hrest⟩ := h
    refine ⟨?_, hlong, hinside, ih hrest⟩
    rw [← hentry]
    apply rawDirAt_congr hsame
    have hfits := name_fits e.nameLength
    rw [hentry]
    omega

/-- **The loop of the search**, over the entries. -/
theorem findEntry_eq (name : LibString) (h : EntriesAt buffer size i es) {fuel : ℕ}
    (hfuel : size ≤ i + fuel) :
    (findEntry buffer size name fuel i).map (rawDirAt buffer) =
      (reached es).find? fun e => e.name = name := by
  induction es generalizing i fuel with
  | nil =>
    have hend : ¬ i < size := by
      rw [show i = size from h]
      exact Nat.lt_irrefl size
    cases fuel with
    | zero => rfl
    | succ fuel =>
      rw [findEntry, if_neg hend]
      rfl
  | cons e es ih =>
    obtain ⟨hentry, hlong, hinside, hrest⟩ := h
    have hfits := name_fits e.nameLength
    have hlt : i < size := by omega
    cases fuel with
    | zero => omega
    | succ fuel =>
      rw [findEntry, if_pos hlt, hentry]
      by_cases hname : e.name = name
      · rw [if_pos hname, reached]
        split
        · rw [List.find?_cons_of_pos (by simpa using hname), Option.map_some, hentry]
        · rw [List.find?_cons_of_pos (by simpa using hname), Option.map_some, hentry]
      · rw [if_neg hname, reached]
        by_cases hsize : e.entrySize = expectedSize e.nameLength
        · rw [if_neg (not_not.mpr hsize), if_pos hsize, List.find?_cons_of_neg (by simpa using hname),
            ih hrest (by omega)]
        · rw [if_pos hsize, if_neg hsize, List.find?_cons_of_neg (by simpa using hname)]
          rfl

/-- INTERNAL: the bytes of a directory are read into the buffer. -/
theorem read_directory (hbs : 0 < g.blockSize) {ino : Inode} {a : ℕ} (ha : a < ino.size32l) :
    ino.read g disk 0 ino.size32l heap a = fileBytes g disk ino a := by
  rw [read_apply hbs, if_pos ha, Nat.zero_add]
  rfl

/-- **`search_relative`** finds the first reached entry with the name, if it is in use. The directory may have any
number of blocks.
SRCLINE: kernel/fs/ext2/dir.cpp:5-34 -/
theorem searchDir_entries (hbs : 0 < g.blockSize) {ino : Inode}
    (h : EntriesAt (fileBytes g disk ino) ino.size32l 0 es) :
    searchDir g heap disk ino name = searchEntries es name := by
  have hentries : EntriesAt (ino.read g disk 0 ino.size32l heap) ino.size32l 0 es :=
    entriesAt_congr h fun a ha => read_directory hbs ha
  have hfind := findEntry_eq name hentries (Nat.le_of_eq (Nat.zero_add ino.size32l).symm)
  rw [searchEntries, ← hfind, searchDir]
  cases findEntry (ino.read g disk 0 ino.size32l heap) ino.size32l name ino.size32l 0 with
  | none => rfl
  | some i =>
    rw [Option.map_some]
    simp only [Option.filter]
    by_cases hzero : (rawDirAt (ino.read g disk 0 ino.size32l heap) i).inode = 0
    · rw [if_pos hzero]
      simp [hzero]
    · rw [if_neg hzero]
      simp [hzero]

theorem searchDir_eq (hbs : 0 < g.blockSize) {ino : Inode} (h : DirectoryOf g disk ino es) :
    searchDir g heap disk ino name = searchEntries es name :=
  searchDir_entries hbs h.entries

/-! ## The components of a path -/

/-- **The loop over the components** asks the same directory for each of them.
SRCLINE: kernel/fs/ext2/dir.cpp:58-69 -/
theorem findLoop_eq {member : Inode} (param : Inode) (names : List LibString) (raw : Option RawDir)
    (hsearch : ∀ name, searchDir g heap disk member name = searchEntries es name) :
    (findLoop g heap disk member names param raw).2 = true ↔
      ∀ name ∈ names, searchEntries es name ≠ none := by
  induction names generalizing param raw with
  | nil =>
    constructor
    · intro _ name hname
      cases hname
    · intro _
      rfl
  | cons name names ih =>
    rw [findLoop, hsearch, List.forall_mem_cons]
    cases hentry : searchEntries es name with
    | none =>
      constructor
      · intro h
        cases h
      · intro h
        exact absurd rfl h.1
    | some entry =>
      rw [ih]
      constructor
      · intro h
        exact ⟨Option.some_ne_none entry, h⟩
      · intro h
        exact h.2

/-- INTERNAL: the entry that the loop ends with. -/
theorem findLoop_raw {member : Inode} (param : Inode) (names : List LibString) (raw : Option RawDir)
    (hsearch : ∀ name, searchDir g heap disk member name = searchEntries es name)
    (hall : ∀ name ∈ names, searchEntries es name ≠ none) :
    (findLoop g heap disk member names param raw).1 =
      (names.getLast?.bind (searchEntries es)).or raw := by
  induction names generalizing param raw with
  | nil => rfl
  | cons name names ih =>
    rw [List.forall_mem_cons] at hall
    rw [findLoop, hsearch]
    cases hentry : searchEntries es name with
    | none => exact absurd hentry hall.1
    | some entry =>
      rw [ih _ _ hall.2]
      cases hlast : names.getLast? with
      | none =>
        obtain rfl := List.getLast?_eq_none_iff.mp hlast
        rw [List.getLast?_singleton, Option.bind_some, hentry]
        rfl
      | some last =>
        have hne : names ≠ [] := by
          rintro rfl
          cases hlast
        rw [List.getLast?_cons_of_ne_nil hne, hlast, Option.bind_some]
        have hmem : last ∈ names := List.mem_of_getLast? hlast
        cases hfound : searchEntries es last with
        | none => exact absurd hfound (hall.2 last hmem)
        | some e => rfl

/-- INTERNAL: a lookup and the inode numbers that it may end with. -/
theorem looksUp_iff {found : Option RawDir × Bool} {named : Option ℕ} {P : ℕ → Prop}
    (hfound : ∀ k, P k ↔ ∃ e, found = (some e, true) ∧ e.inode = k) :
    LooksUp found named ↔ ∀ k, P k ↔ named = some k := by
  simp only [hfound]
  constructor
  · rintro ⟨hiff, hsame⟩ k
    constructor
    · rintro ⟨e, rfl, rfl⟩
      obtain ⟨k, hk⟩ := Option.ne_none_iff_exists'.mp (hiff.mp ⟨rfl, Option.some_ne_none e⟩)
      rw [hk, hsame e k rfl hk]
    · intro hk
      obtain ⟨hexists, hraw⟩ := hiff.mpr (by rw [hk]; exact Option.some_ne_none k)
      obtain ⟨e, he⟩ := Option.ne_none_iff_exists'.mp hraw
      have hpair : found = (some e, true) := Prod.ext he hexists
      exact ⟨e, hpair, hsame e k hpair hk⟩
  · intro h
    constructor
    · constructor
      · rintro ⟨hexists, hraw⟩
        obtain ⟨e, he⟩ := Option.ne_none_iff_exists'.mp hraw
        rw [(h e.inode).mp ⟨e, Prod.ext he hexists, rfl⟩]
        exact Option.some_ne_none _
      · intro hnamed
        obtain ⟨k, hk⟩ := Option.ne_none_iff_exists'.mp hnamed
        obtain ⟨e, rfl, -⟩ := (h k).mpr hk
        exact ⟨rfl, Option.some_ne_none e⟩
    · rintro e k rfl hk
      have he := (h e.inode).mp ⟨e, rfl, rfl⟩
      exact Option.some.inj (he.symm.trans hk)

/-- Blocks of 1024 bytes, one group of 32 inodes. -/
def smallSuper : Ext2Super where
  sectorSize := 512
  blockSize := 1024
  blocksPerGroup := 8192
  inodesPerGroup := 32
  inodeSize := 128
  bgdCnt := 1

/-- The bitmaps are in the blocks `3` and `4`, the inode table in block `5`, the root directory in block
`10`, and that of inode `12` in block `11`. The root directory has an entry `a` for it, which has an entry
`f` for inode `13`. -/
def smallTree : Memory :=
  let disk : Memory := fun _ => 0
  let disk := (((disk.setWord 1028 4 100).setWord 1056 4 8192).setWord 1064 4 32).setWord 1080 2 0xef53
  let disk := disk.setWord 1112 2 128
  let disk := (((disk.setWord 2048 4 3).setWord 2052 4 4).setWord 2056 4 5).setWord 2060 4 0x140032
  let disk := (disk.setWord 3072 2 0xfff).setWord 4096 2 0x1fff
  let disk := ((disk.setWord 5252 4 1024).setWord 5274 6 0x20003).setWord 5288 4 10
  let disk := ((disk.setWord 6532 4 1024).setWord 6554 6 0x20002).setWord 6568 4 11
  let disk := (((disk.setWord 10240 4 2).setWord 10244 2 12).setWord 10246 1 1).setWord 10248 1 0x2e
  let disk := (((disk.setWord 10252 4 2).setWord 10256 2 12).setWord 10258 1 2).setWord 10260 2 0x2e2e
  let disk := (((disk.setWord 10264 4 12).setWord 10268 2 1000).setWord 10270 1 1).setWord 10272 1 0x61
  (((disk.setWord 11264 4 13).setWord 11268 2 1024).setWord 11270 1 1).setWord 11272 1 0x66

/-- The entries of the root directory. -/
def smallRoot : List RawDir := [⟨2, 12, 1, [0x2e]⟩, ⟨2, 12, 2, [0x2e, 0x2e]⟩, ⟨12, 1000, 1, [0x61]⟩]

/-- The entries of the directories. -/
def smallEntries (d : ℕ) : Option (List RawDir) :=
  if d = 2 then some smallRoot else if d = 12 then some [⟨13, 1024, 1, [0x66]⟩] else none

theorem smallTree_tree : Ext2Tree smallSuper smallTree smallEntries := by
  have hroot : DirectoryOf smallSuper smallTree (readInode smallSuper smallTree 2) smallRoot :=
    ⟨by decide, by decide, by decide⟩
  have hsub : DirectoryOf smallSuper smallTree (readInode smallSuper smallTree 12)
      [⟨13, 1024, 1, [0x66]⟩] :=
    ⟨by decide, by decide, by decide⟩
  refine ⟨by decide, by decide, ?_⟩
  intro d es hes
  unfold smallEntries at hes
  by_cases h2 : d = 2
  · rw [if_pos h2] at hes
    obtain rfl := Option.some.inj hes
    rw [h2]
    exact hroot
  · rw [if_neg h2] at hes
    by_cases h12 : d = 12
    · rw [if_pos h12] at hes
      obtain rfl := Option.some.inj hes
      rw [h12]
      exact hsub
    · rw [if_neg h12] at hes
      cases hes

end CrepOS.Analysis
