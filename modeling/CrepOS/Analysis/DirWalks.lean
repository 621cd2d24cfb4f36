import CrepOS.Analysis.DirInsertion
import CrepOS.Interface.DirWalks

/-!
# Walks over malformed directories

A walk that comes to a position twice does not end. Within the directory the position can only come back to the start,
and only if the last entry ends at `2 ^ 32` exactly; so a walk that ends and reads only bytes of the directory has gone
along a row of entries (`rowEnds_of_walk`), and such a row is walked along without reading anything else
(`walk_of_rowEnds`). The walk that creates an entry advances whatever the bytes are, and so it ends unless its position
wraps.
-/

set_option autoImplicit false

namespace CrepOS.Analysis

open CrepOS.Library CrepOS.Model CrepOS.Interface Relation

variable {buffer : Memory} {size i j bs newInode type fuel : ℕ} {path name : LibString} {found : ℕ → List (ℕ × ℕ)}
  {reads reads' : List (ℕ × ℕ)} {b : InsertBuffer}

/-! ## The search -/

/-- The walk goes on from `i` to `j`. -/
def WalkStep (buffer : Memory) (size : ℕ) (path : LibString) (i j : ℕ) : Prop :=
  i < size ∧ (rawDirAt buffer i).name ≠ path ∧ Tight (rawDirAt buffer i) ∧
    j = (i + (rawDirAt buffer i).entrySize) % 2 ^ 32

/-- INTERNAL: an iteration that goes on. -/
theorem walkReads_next (h : WalkStep buffer size path i j) : walkReads buffer size path found (fuel + 1) i =
    (walkReads buffer size path found fuel j).map
      ([(i + 6, 1), (i + 8, (rawDirAt buffer i).nameLength), (i + 6, 1), (i + 4, 2)] ++ ·) := by
  obtain ⟨hlt, hname, htight, rfl⟩ := h
  rw [walkReads, if_pos hlt]
  dsimp only
  rw [if_neg hname, if_neg (not_not_intro (show (rawDirAt buffer i).entrySize = _ from htight))]
  rfl

/-- **A walk in a circle** does not end. The induction is on the fuel. -/
theorem walkReads_cycle (h : TransGen (WalkStep buffer size path) i i) :
    walkReads buffer size path found fuel i = none := by
  induction fuel generalizing i with
  | zero => rfl
  | succ fuel ih =>
    obtain ⟨j, hstep, hback⟩ := TransGen.head'_iff.mp h
    rw [walkReads_next hstep, ih (TransGen.tail' hback hstep)]
    rfl

/-- INTERNAL: ranges that are read one after the other. -/
theorem readsInside_append : ReadsInside size (reads ++ reads') ↔ ReadsInside size reads ∧ ReadsInside size reads' :=
  List.forall_mem_append

/-- INTERNAL: what is read of each entry.
SRCLINE: kernel/fs/ext2/dir.cpp:10-26 -/
theorem readsInside_entry : ReadsInside size [(i + 6, 1), (i + 8, (rawDirAt buffer i).nameLength)] ↔
    EntryInside buffer size i := by
  unfold ReadsInside EntryInside
  rw [List.forall_mem_cons, List.forall_mem_singleton]
  constructor
  · rintro ⟨hlength, hname⟩
    have hlength := hlength 0 Nat.one_pos
    refine ⟨by omega, fun hpos => ?_⟩
    have hlast := hname ((rawDirAt buffer i).nameLength - 1) (by omega)
    omega
  · rintro ⟨hlength, hname⟩
    refine ⟨fun k hk => ?_, fun k hk => ?_⟩
    · have hk : k < 1 := hk
      dsimp only
      omega
    · have hk : k < (rawDirAt buffer i).nameLength := hk
      have hend := hname (by omega)
      dsimp only
      omega

/-- INTERNAL: entries in a row end at multiples of four, not behind `2 ^ 32`. -/
theorem entryInside_end (hinside : EntryInside buffer size i) (hsize : size < 2 ^ 32) (hi : 4 ∣ i)
    (htight : Tight (rawDirAt buffer i)) :
    i < size ∧ 4 ∣ i + (rawDirAt buffer i).entrySize ∧ i + (rawDirAt buffer i).entrySize ≤ 2 ^ 32 ∧
      i < i + (rawDirAt buffer i).entrySize := by
  obtain ⟨hlength, hname⟩ := hinside
  have heq : (rawDirAt buffer i).entrySize = expectedSize (rawDirAt buffer i).nameLength := htight
  rw [heq]
  unfold expectedSize
  by_cases hpos : 0 < (rawDirAt buffer i).nameLength
  · have hend := hname hpos
    omega
  · omega

/-- **A walk that ends and reads only bytes of the directory** goes along a row of entries. The induction is on the
fuel; the walk has come from the start, so it does not come back there. -/
theorem rowEnds_of_walk (hsize : size < 2 ^ 32) (hi : 4 ∣ i) (hbound : i < 2 ^ 32)
    (hstart : ReflTransGen (WalkStep buffer size path) 0 i)
    (hwalk : walkReads buffer size path found fuel i = some reads) (hreads : ReadsInside size reads) :
    ∃ j < 2 ^ 32, ReflTransGen (RowStep buffer size path) i j ∧
      (size ≤ j ∨ EntryInside buffer size j ∧ ((rawDirAt buffer j).name = path ∨ ¬ Tight (rawDirAt buffer j))) := by
  induction fuel generalizing i reads with
  | zero => cases hwalk
  | succ fuel ih =>
    by_cases hlt : i < size
    · by_cases hname : (rawDirAt buffer i).name = path
      · rw [walkReads, if_pos hlt] at hwalk
        dsimp only at hwalk
        rw [if_pos hname] at hwalk
        rw [← Option.some.inj hwalk, readsInside_append] at hreads
        exact ⟨i, hbound, ReflTransGen.refl, Or.inr ⟨readsInside_entry.mp hreads.1, Or.inl hname⟩⟩
      · by_cases htight : Tight (rawDirAt buffer i)
        · have hstep : WalkStep buffer size path i _ := ⟨hlt, hname, htight, rfl⟩
          rw [walkReads_next hstep, Option.map_eq_some_iff] at hwalk
          obtain ⟨rest, hrest, rfl⟩ := hwalk
          rw [readsInside_append] at hreads
          have hinside : EntryInside buffer size i :=
            readsInside_entry.mp fun r hr => hreads.1 r (List.mem_append_left [(i + 6, 1), (i + 4, 2)] hr)
          obtain ⟨_, hdvd, hle, hgrows⟩ := entryInside_end hinside hsize hi htight
          by_cases hwrap : i + (rawDirAt buffer i).entrySize = 2 ^ 32
          · -- the walk is back at the start
            rw [hwrap, Nat.mod_self] at hrest hstep
            rw [walkReads_cycle (TransGen.tail' hstart hstep)] at hrest
            cases hrest
          · rw [Nat.mod_eq_of_lt (by omega)] at hrest hstep
            obtain ⟨k, hk, hrow, hend⟩ := ih hdvd (by omega) (hstart.tail hstep) hrest hreads.2
            exact ⟨k, hk, ReflTransGen.head ⟨hinside, hname, htight, rfl⟩ hrow, hend⟩
        · rw [walkReads, if_pos hlt] at hwalk
          dsimp only at hwalk
          rw [if_neg hname, if_pos (show (rawDirAt buffer i).entrySize ≠ _ from htight)] at hwalk
          rw [← Option.some.inj hwalk, readsInside_append] at hreads
          exact ⟨i, hbound, ReflTransGen.refl, Or.inr ⟨readsInside_entry.mp hreads.1, Or.inr htight⟩⟩
    · exact ⟨i, hbound, ReflTransGen.refl, Or.inl (Nat.not_lt.mp hlt)⟩

/-- INTERNAL: a row goes up. -/
theorem row_le (h : ReflTransGen (RowStep buffer size path) i j) : i ≤ j := by
  induction h with
  | refl => exact Nat.le_refl i
  | tail _ hstep ih =>
    obtain ⟨_, _, _, rfl⟩ := hstep
    omega

/-- **A row of entries** is walked along, and nothing else is read. The induction is on the row. -/
theorem walk_of_rowEnds (hfound : ∀ j, EntryInside buffer size j → ReadsInside size (found j)) (hj : j < 2 ^ 32)
    (hrow : ReflTransGen (RowStep buffer size path) i j)
    (hend : size ≤ j ∨ EntryInside buffer size j ∧ ((rawDirAt buffer j).name = path ∨ ¬ Tight (rawDirAt buffer j))) :
    ∃ fuel reads, walkReads buffer size path found fuel i = some reads ∧ ReadsInside size reads := by
  have hlengths : ∀ i, EntryInside buffer size i → ReadsInside size [(i + 6, 1), (i + 4, 2)] := by
    intro i hinside r hr k hk
    have hlength := hinside.1
    simp only [List.mem_cons, List.not_mem_nil, or_false] at hr
    rcases hr with rfl | rfl
    · dsimp only at hk ⊢
      omega
    · dsimp only at hk ⊢
      omega
  induction hrow using ReflTransGen.head_induction_on with
  | refl =>
    refine ⟨1, ?_⟩
    rw [walkReads]
    by_cases hlt : j < size
    · obtain ⟨hinside, hstop⟩ := hend.resolve_left (by omega)
      rw [if_pos hlt]
      dsimp only
      by_cases hname : (rawDirAt buffer j).name = path
      · rw [if_pos hname]
        exact ⟨_, rfl, readsInside_append.mpr ⟨readsInside_entry.mpr hinside, hfound j hinside⟩⟩
      · rw [if_neg hname, if_pos (show (rawDirAt buffer j).entrySize ≠ _ from hstop.resolve_left hname)]
        exact ⟨_, rfl, readsInside_append.mpr ⟨readsInside_entry.mpr hinside, hlengths j hinside⟩⟩
    · rw [if_neg hlt]
      exact ⟨[], rfl, fun r hr => absurd hr List.not_mem_nil⟩
  | head hstep hrest ih =>
    obtain ⟨hinside, hname, htight, rfl⟩ := hstep
    obtain ⟨fuel, reads, hwalk, hreads⟩ := ih
    have hbound := row_le hrest
    have hlength := hinside.1
    refine ⟨fuel + 1, _, by
      rw [walkReads_next ⟨by omega, hname, htight, (Nat.mod_eq_of_lt (by omega)).symm⟩, hwalk, Option.map_some], ?_⟩
    have hentry := readsInside_append.mpr ⟨readsInside_entry.mpr hinside, hlengths _ hinside⟩
    exact readsInside_append.mpr ⟨hentry, hreads⟩

/-- **The walk of a search**, for any reads at the entry that is found. -/
theorem walk_iff (hsize : size < 2 ^ 32) (hfound : ∀ j, EntryInside buffer size j → ReadsInside size (found j)) :
    (∃ fuel reads, walkReads buffer size path found fuel 0 = some reads ∧ ReadsInside size reads) ↔
      RowEnds buffer size path := by
  constructor
  · rintro ⟨fuel, reads, hwalk, hreads⟩
    exact rowEnds_of_walk hsize (Nat.dvd_zero 4) (by omega) ReflTransGen.refl hwalk hreads
  · rintro ⟨j, hj, hrow, hend⟩
    exact walk_of_rowEnds hfound hj hrow hend

/-! ## The creation -/

/-- INTERNAL: the place behind the next new entry is 64 KiB further on. -/
theorem nextPlace_next (hi : i % 2 ^ 16 = bs % 2 ^ 16) : nextPlace bs (i + 8) = (i + 2 ^ 16) % 2 ^ 32 := by
  unfold nextPlace newSize ofSigned
  omega

/-- INTERNAL: in a directory that is not too large the walk comes to the end before its position wraps. The induction
is on the number of iterations up to there.
SRCLINE: kernel/fs/ext2/dir.cpp:92-114 -/
theorem insertWalk_climbs {n : ℕ} (hblock : 1024 ∣ bs) (hsize : size ≤ bs % 2 ^ 16 + (2 ^ 32 - 2 ^ 16) + 8)
    (hi : i % 2 ^ 16 = bs % 2 ^ 16) (hn : i + n * 2 ^ 16 < 2 ^ 32) (hlast : 2 ^ 32 ≤ i + (n + 1) * 2 ^ 16) :
    ∃ fuel r, insertWalk bs size newInode type name fuel (i + 8) true b = some r := by
  have hblock : bs % 2 ^ 16 + 1024 ≤ 2 ^ 16 := by omega
  induction n generalizing i b with
  | zero => exact ⟨1, b, by rw [insertWalk, if_neg (by omega)]⟩
  | succ n ih =>
    by_cases hlt : i + 8 < size
    · have hnext : (nextPlace bs (i + 8) + 8) % 2 ^ 32 = i + 2 ^ 16 + 8 := by
        rw [nextPlace_next hi]
        omega
      obtain ⟨fuel, r, hwalk⟩ := @ih (i + 2 ^ 16)
        ((b.insert bs newInode type name (i + 8)).2.assign (nextPlace bs (i + 8) + 4) 2 8) (by omega) (by omega) (by omega)
      exact ⟨fuel + 1, r, by rw [insertWalk_insert hlt, hnext, hwalk]⟩
    · exact ⟨1, b, by rw [insertWalk, if_neg hlt]⟩

/-- **Behind an entry with slack** the walk ends if and only if it is behind the directory, or the directory is not too
large.
SRCLINE: kernel/fs/ext2/dir.cpp:89-118 -/
theorem insertWalk_ends_iff (hsize : size < 2 ^ 32) (hblock : 1024 ∣ bs) :
    (∃ fuel r, insertWalk bs size newInode type name fuel i true b = some r) ↔ InsertionEnds bs size i := by
  by_cases hlt : i < size
  · obtain ⟨hmod, hbound⟩ := nextPlace_mod bs i
    constructor
    · rintro ⟨fuel, r, hwalk⟩
      by_contra hlarge
      obtain ⟨_, hroom⟩ := not_or.mp hlarge
      cases fuel with
      | zero => cases hwalk
      | succ fuel =>
        rw [insertWalk_insert hlt, insertWalk_cycles (Nat.not_le.mp hroom) hsize hmod hbound] at hwalk
        cases hwalk
    · intro hends
      have hroom := hends.resolve_left (Nat.not_le.mpr hlt)
      have hshort : nextPlace bs i + 8 < 2 ^ 32 := by omega
      obtain ⟨fuel, r, hwalk⟩ := @insertWalk_climbs size (nextPlace bs i) bs newInode type name
        ((b.insert bs newInode type name i).2.assign (nextPlace bs i + 4) 2 8) ((2 ^ 32 - 1 - nextPlace bs i) / 2 ^ 16)
        hblock hroom hmod (by omega) (by omega)
      exact ⟨fuel + 1, r, by rw [insertWalk_insert hlt, Nat.mod_eq_of_lt hshort, hwalk]⟩
  · exact ⟨fun _ => Or.inl (Nat.not_lt.mp hlt), fun _ => ⟨1, b, by rw [insertWalk, if_neg hlt]⟩⟩

/-- INTERNAL: an iteration before the first entry with slack. -/
theorem insertWalk_before (hlt : i < size) : insertWalk bs size newInode type name (fuel + 1) i false b =
    if Tight (rawDirAt b.bytes i) then
      insertWalk bs size newInode type name fuel ((i + (rawDirAt b.bytes i).entrySize) % 2 ^ 32) false b
    else insertWalk bs size newInode type name fuel
      ((i + expectedSize (rawDirAt b.bytes i).nameLength) % 2 ^ 32) true
      (b.assign (i + 4) 2 (expectedSize (rawDirAt b.bytes i).nameLength)) := by
  rw [insertWalk, if_pos hlt]
  simp only [Bool.false_eq_true, if_false]
  by_cases htight : Tight (rawDirAt b.bytes i)
  · rw [if_pos htight, if_neg (not_not_intro (show (rawDirAt b.bytes i).entrySize = _ from htight))]
  · rw [if_neg htight, if_pos (show (rawDirAt b.bytes i).entrySize ≠ _ from htight)]

/-- **The walk of a creation** ends if and only if the entries that are exactly as long as their names need lead behind
the directory, or to one where the insertion ends.
SRCLINE: kernel/fs/ext2/dir.cpp:83-119 -/
theorem creation_iff (hsize : size < 2 ^ 32) (hblock : 1024 ∣ bs) :
    (∃ fuel r, insertWalk bs size newInode type name fuel i false b = some r) ↔
      ∃ j, ReflTransGen (LoopStep b.bytes size) i j ∧ (size ≤ j ∨ ¬ Tight (rawDirAt b.bytes j) ∧
        InsertionEnds bs size ((j + expectedSize (rawDirAt b.bytes j).nameLength) % 2 ^ 32)) := by
  constructor
  · rintro ⟨fuel, r, hwalk⟩
    induction fuel generalizing i with
    | zero => cases hwalk
    | succ fuel ih =>
      by_cases hlt : i < size
      · rw [insertWalk_before hlt] at hwalk
        by_cases htight : Tight (rawDirAt b.bytes i)
        · rw [if_pos htight] at hwalk
          obtain ⟨j, hreach, hend⟩ := ih hwalk
          exact ⟨j, ReflTransGen.head ⟨hlt, htight, rfl⟩ hreach, hend⟩
        · rw [if_neg htight] at hwalk
          exact ⟨i, ReflTransGen.refl, Or.inr ⟨htight, (insertWalk_ends_iff hsize hblock).mp ⟨fuel, r, hwalk⟩⟩⟩
      · exact ⟨i, ReflTransGen.refl, Or.inl (Nat.not_lt.mp hlt)⟩
  · rintro ⟨j, hreach, hend⟩
    induction hreach using ReflTransGen.head_induction_on with
    | refl =>
      by_cases hlt : j < size
      · obtain ⟨htight, hinsertion⟩ := hend.resolve_left (Nat.not_le.mpr hlt)
        obtain ⟨fuel, r, hwalk⟩ := (insertWalk_ends_iff hsize hblock).mpr hinsertion
        exact ⟨fuel + 1, r, by rw [insertWalk_before hlt, if_neg htight, hwalk]⟩
      · exact ⟨1, b, by rw [insertWalk, if_neg hlt]⟩
    | head hstep _ ih =>
      obtain ⟨hlt, htight, rfl⟩ := hstep
      obtain ⟨fuel, r, hwalk⟩ := ih
      exact ⟨fuel + 1, r, by rw [insertWalk_before hlt, if_pos htight, hwalk]⟩

/-- INTERNAL: in a directory that ends before the last 264 bytes the position does not wrap before the first entry with
slack. -/
theorem loopStep_up (hsize : size ≤ 2 ^ 32 - 264) (h : LoopStep buffer size i j) : i < j ∧ j < 2 ^ 32 := by
  obtain ⟨hlt, htight, rfl⟩ := h
  have heq : (rawDirAt buffer i).entrySize = expectedSize (rawDirAt buffer i).nameLength := htight
  have hlength : (rawDirAt buffer i).nameLength < 256 ^ 1 := Memory.word_lt
  rw [heq]
  unfold expectedSize
  omega

/-- **A creation ends** in any directory without the last 64 KiB of the 4 GiB. The induction is on what is left of the
directory.
SRCLINE: kernel/fs/ext2/dir.cpp:89-118 -/
theorem creationEnds_of_small (hsize : size ≤ 2 ^ 32 - 2 ^ 16) : CreationEnds buffer size bs := by
  have hfrom : ∀ n i, size - i = n → ∃ j, ReflTransGen (LoopStep buffer size) i j ∧
      (size ≤ j ∨ ¬ Tight (rawDirAt buffer j) ∧
        InsertionEnds bs size ((j + expectedSize (rawDirAt buffer j).nameLength) % 2 ^ 32)) := by
    intro n
    induction n using Nat.strong_induction_on with
    | _ n ih =>
      intro i hleft
      by_cases hlt : i < size
      · by_cases htight : Tight (rawDirAt buffer i)
        · have hstep : LoopStep buffer size i _ := ⟨hlt, htight, rfl⟩
          have hleft' := Nat.sub_lt_sub_left hlt (loopStep_up (by omega) hstep).1
          obtain ⟨j, hreach, hend⟩ := ih _ (hleft ▸ hleft') _ rfl
          exact ⟨j, ReflTransGen.head hstep hreach, hend⟩
        · exact ⟨i, ReflTransGen.refl, Or.inr ⟨htight, Or.inr (by omega)⟩⟩
      · exact ⟨i, ReflTransGen.refl, Or.inl (Nat.not_lt.mp hlt)⟩
  exact hfrom size 0 rfl

/-! ## The result -/

/-- **The walks are safe if and only if** the directory begins with a row of entries that leads to its end, or to an
entry in it where the search stops, for the names that are searched and deleted, and the creation ends.
SRCLINE: kernel/fs/ext2/dir.cpp:5-34, 83-147 -/
theorem walksSafe_iff (hsize : size < 2 ^ 32) (hblock : 1024 ∣ bs) (buffer : Memory) (searched deleted created : LibString)
    (newInode type : ℕ) : WalksSafe buffer size searched deleted bs newInode type created ↔
      RowEnds buffer size searched ∧ RowEnds buffer size deleted ∧ CreationEnds buffer size bs := by
  have hsearch := @walk_iff buffer size searched (fun i => [(i, 4)]) hsize fun j hinside r hr k hk => by
    rw [List.mem_singleton.mp hr] at hk ⊢
    have hlength := hinside.1
    dsimp only at hk ⊢
    omega
  have hdelete := @walk_iff buffer size deleted (fun i => [(i + 6, 1), (i, 4), (0, size)]) hsize
    fun j hinside r hr k hk => by
      have hlength := hinside.1
      simp only [List.mem_cons, List.not_mem_nil, or_false] at hr
      rcases hr with rfl | rfl | rfl
      · dsimp only at hk ⊢
        omega
      · dsimp only at hk ⊢
        omega
      · dsimp only at hk ⊢
        omega
  have hcreate := @creation_iff size 0 bs newInode type created ⟨buffer, [], [], false⟩ hsize hblock
  constructor
  · intro hsafe
    exact ⟨hsearch.mp hsafe.search, hdelete.mp hsafe.delete, hcreate.mp hsafe.create⟩
  · rintro ⟨hsearched, hdeleted, hcreated⟩
    exact ⟨hsearch.mpr hsearched, hdelete.mpr hdeleted, hcreate.mpr hcreated⟩

/-- A block without entries: the walks stop at its first bytes. -/
theorem emptyBlock_walksSafe : WalksSafe (fun _ => 0) 1024 [0x61] [0x62] 1024 12 1 [0x63] := by
  have hrow : ∀ path, RowEnds (fun _ => 0) 1024 path := fun path =>
    ⟨0, by decide, ReflTransGen.refl, Or.inr ⟨by unfold EntryInside; decide, Or.inr (by decide)⟩⟩
  exact (walksSafe_iff (by decide) (by decide) (fun _ => 0) [0x61] [0x62] [0x63] 12 1).mpr
    ⟨hrow [0x61], hrow [0x62], creationEnds_of_small (by decide)⟩

/-- A directory of 24 bytes, `.` and an entry whose name of five characters would need one byte more. -/
def cutEntry : Memory := Memory.ofWords [(0, 2), (4, 0x201000c), (8, 0x2e), (12, 3), (16, 0x105000c)]

/-- A search in it reads behind it. -/
theorem cutEntry_not_safe : ¬ ∀ (buffer : Memory) (size : ℕ) (searched deleted : LibString) (bs newInode type : ℕ)
    (created : LibString), size < 2 ^ 32 → 1024 ∣ bs →
    WalksSafe buffer size searched deleted bs newInode type created := by
  intro h
  have hsafe := h cutEntry 24 [0x61] [0x62] 1024 12 1 [0x63] (by decide) (by decide)
  obtain ⟨fuel, reads, hwalk, hreads⟩ := hsafe.search
  have hlast : ¬ EntryInside cutEntry 24 12 := by
    unfold EntryInside
    decide
  obtain ⟨j, _, hrow, hend⟩ :=
    rowEnds_of_walk (by decide) (Nat.dvd_zero 4) (by decide) ReflTransGen.refl hwalk hreads
  cases ReflTransGen.cases_head hrow with
  | inl hfirst =>
    subst hfirst
    exact absurd hend (by unfold EntryInside; decide)
  | inr hnext =>
    obtain ⟨k, ⟨_, _, _, hk⟩, hrest⟩ := hnext
    have hk : k = 12 := hk.trans (by decide)
    subst hk
    cases ReflTransGen.cases_head hrest with
    | inl hsecond =>
      subst hsecond
      cases hend with
      | inl hbehind => exact absurd hbehind (by decide)
      | inr hinside => exact hlast hinside.1
    | inr hthird =>
      obtain ⟨_, hstep, _⟩ := hthird
      exact hlast hstep.1

end CrepOS.Analysis
