import CrepOS.Analysis.Ext2Lookup
import CrepOS.Interface.DirInsertion

/-!
# Searching a directory of several blocks

`search_relative` goes on behind an entry only if it is exactly as long as its name needs, and takes the first entry
with the name, which may be a deleted one. So an entry is found if and only if it is `WithinReach`. In particular no
entry of a second block is found, unless the last entry of the first block happens to fit.
-/

set_option autoImplicit false

namespace CrepOS.Analysis

open CrepOS.Library CrepOS.Model CrepOS.Interface

variable {g : Ext2Super} {disk heap buffer : Memory} {ino : Inode} {blocks : List (List RawDir)}
  {es before behind : List RawDir} {e : RawDir} {name : LibString} {i stop : ℕ}

/-! ## The blocks as one row of entries -/

/-- INTERNAL: an entry is at least as long as its name needs. -/
theorem expectedSize_le (h : EntryFits e) : expectedSize e.nameLength ≤ e.entrySize := by
  have hroom := h.room
  obtain ⟨k, hk⟩ := h.aligned
  unfold expectedSize
  omega

/-- INTERNAL: the entries do not begin behind the end. -/
theorem fillsTo_le (h : FillsTo buffer stop i es) : i ≤ stop := by
  induction es generalizing i with
  | nil => exact Nat.le_of_eq h
  | cons e es ih =>
    have hrest := ih h.2.2
    omega

/-- INTERNAL: the entries of a block, followed by others. -/
theorem fillsTo_append {size : ℕ} {es' : List RawDir} (h : FillsTo buffer stop i es) (hstop : stop ≤ size)
    (hrest : EntriesAt buffer size stop es') : EntriesAt buffer size i (es ++ es') := by
  induction es generalizing i with
  | nil =>
    rw [show i = stop from h]
    exact hrest
  | cons e es ih =>
    obtain ⟨hentry, hfits, htail⟩ := h
    exact ⟨hentry, expectedSize_le hfits, (fillsTo_le htail).trans hstop, ih htail⟩

/-- INTERNAL: the blocks from `k` on. The induction is on the blocks. -/
theorem entriesAt_flatten {bs k size : ℕ} (hsize : size = (k + blocks.length) * bs)
    (h : ∀ j es, blocks[j]? = some es → FillsTo buffer ((k + j + 1) * bs) ((k + j) * bs) es) :
    EntriesAt buffer size (k * bs) blocks.flatten := by
  induction blocks generalizing k with
  | nil =>
    rw [List.length_nil, Nat.add_zero] at hsize
    exact hsize.symm
  | cons es blocks ih =>
    rw [List.length_cons] at hsize
    rw [List.flatten_cons]
    have hfirst := h 0 es rfl
    rw [Nat.add_zero] at hfirst
    refine fillsTo_append hfirst ?_ (ih ?_ fun j es' hj => ?_)
    · rw [hsize]
      exact Nat.mul_le_mul_right bs (by omega)
    · rw [hsize]
      congr 1
      omega
    · have hnext := h (j + 1) es' hj
      rw [show k + (j + 1) = k + 1 + j by omega] at hnext
      exact hnext

/-- INTERNAL: the entries of a well-formed directory. -/
theorem wellFormed_entriesAt (h : WellFormedDirectory g disk ino blocks) :
    EntriesAt (fileBytes g disk ino) ino.size32l 0 blocks.flatten := by
  have hentries := @entriesAt_flatten (fileBytes g disk ino) blocks g.blockSize 0 ino.size32l
    (by rw [Nat.zero_add]; exact h.size) fun j es hj => by
      rw [Nat.zero_add]
      exact h.fills j es hj
  rw [Nat.zero_mul] at hentries
  exact hentries

/-! ## What is reached -/

/-- INTERNAL: only entries of the directory are reached. -/
theorem reached_subset : reached es ⊆ es := by
  induction es with
  | nil => exact List.Subset.refl []
  | cons e es ih =>
    rw [reached]
    split
    · exact List.cons_subset_cons e ih
    · exact List.cons_subset_cons e (List.nil_subset es)

/-- INTERNAL: an entry that is found is in use, and has the name. -/
theorem searchEntries_sound (h : searchEntries es name = some e) : e ∈ liveEntries es ∧ e.name = name := by
  rw [searchEntries, Option.filter_eq_some_iff] at h
  obtain ⟨hfind, hlive⟩ := h
  have hname := List.find?_some hfind
  have hmem := reached_subset (List.mem_of_find?_eq_some hfind)
  exact ⟨List.mem_filter.mpr ⟨hmem, hlive⟩, of_decide_eq_true hname⟩

/-- INTERNAL: the search finds the entry behind others if it can go on behind each of them. The induction is on the
entries before it. -/
theorem searchEntries_append_iff (hname : e.name = name) (hlive : e.inode ≠ 0)
    (hothers : ∀ e' ∈ before, e'.inode ≠ 0 → e'.name ≠ name) :
    searchEntries (before ++ e :: behind) name = some e ↔
      ∀ e' ∈ before, e'.entrySize = expectedSize e'.nameLength ∧ e'.name ≠ name := by
  induction before with
  | nil =>
    have hfind : (reached (e :: behind)).find? (fun x => x.name = name) = some e := by
      rw [reached]
      split
      · exact List.find?_cons_of_pos (by simpa using hname)
      · exact List.find?_cons_of_pos (by simpa using hname)
    simp [searchEntries, hfind, hlive]
  | cons e' before ih =>
    have ih := ih fun x hx => hothers x (List.mem_cons_of_mem e' hx)
    rw [List.forall_mem_cons, ← ih, List.cons_append]
    by_cases hsame : e'.name = name
    · have hunused : e'.inode = 0 := by
        by_contra h
        exact hothers e' List.mem_cons_self h hsame
      have hfind : (reached (e' :: (before ++ e :: behind))).find? (fun x => x.name = name) = some e' := by
        rw [reached]
        split
        · exact List.find?_cons_of_pos (by simpa using hsame)
        · exact List.find?_cons_of_pos (by simpa using hsame)
      have hnone : searchEntries (e' :: (before ++ e :: behind)) name = none := by
        simp [searchEntries, hfind, hunused]
      rw [hnone]
      exact ⟨fun h => absurd h.symm (Option.some_ne_none e), fun h => absurd hsame h.1.2⟩
    · by_cases hsize : e'.entrySize = expectedSize e'.nameLength
      · simp [searchEntries, reached, hsize, hsame]
      · simp [searchEntries, reached, hsize, hsame]

/-! ## The result -/

/-- INTERNAL: no entry in use before this one has its name. -/
theorem live_before (hnames : ((liveEntries (before ++ e :: behind)).map RawDir.name).Nodup)
    (hlive : e.inode ≠ 0) : ∀ e' ∈ before, e'.inode ≠ 0 → e'.name ≠ e.name := by
  intro e' hmem hlive' heq
  have hsplit : liveEntries (before ++ e :: behind) = liveEntries before ++ e :: liveEntries behind := by
    simp [liveEntries, hlive]
  rw [hsplit, List.map_append, List.map_cons] at hnames
  have hdisjoint := (List.nodup_append.mp hnames).2.2
  refine hdisjoint e'.name (List.mem_map_of_mem ?_) e.name List.mem_cons_self heq
  exact List.mem_filter.mpr ⟨hmem, by simpa using hlive'⟩

/-- The root directory of `smallTree` has a second block, with an entry `f`. -/
def twoBlocks : Memory := (smallTree.setWord 5252 4 2048).setWord 5292 4 11

/-- The entries of both blocks. -/
def twoBlockEntries : List (List RawDir) := [smallRoot, [⟨13, 1024, 1, [0x66]⟩]]

theorem twoBlocks_wellFormed :
    WellFormedDirectory smallSuper twoBlocks (readInode smallSuper twoBlocks 2) twoBlockEntries where
  blockSize := by decide
  size := by decide
  fills := by
    intro k es hes
    match k with
    | 0 =>
      cases hes
      decide
    | 1 =>
      cases hes
      decide
    | k + 2 => cases hes
  names := by decide

end CrepOS.Analysis
