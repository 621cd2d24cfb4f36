import CrepOS.Analysis.Ext2Lookup
import CrepOS.Interface.DirWalks
import CrepOS.Library.Acyclic

/-!
# Whether refreshing ends

The number of nested calls that are enough is smaller for a directory than for each one that it is in, so no directory
that is reached is below itself. Conversely there are finitely many inode numbers, so in a tree without a cycle the
calls can be gone through from the innermost directories on.
-/

set_option autoImplicit false

namespace CrepOS.Analysis

open CrepOS.Library CrepOS.Model CrepOS.Interface Relation

variable {g : Ext2Super} {heap disk buffer : Memory} {ino : Inode} {recur recur' : Inode → Option (List ℕ)}
  {size fuel fuel' i j n m : ℕ} {calls : List ℕ}

/-! ## One loop -/

/-- INTERNAL: the calls for one entry. -/
def entryCalls (g : Ext2Super) (disk : Memory) (recur : Inode → Option (List ℕ)) (e : RawDir) : Option (List ℕ) :=
  if isDots e.name then some []
  else if (readInode g disk e.inode).looksLikeDirectory then (recur (readInode g disk e.inode)).map (e.inode :: ·)
  else some []

/-- INTERNAL: an iteration.
SRCLINE: kernel/fs/ext2/ext2.cpp:138-176 -/
theorem refreshEntries_succ (h : i < size) : refreshEntries g disk recur buffer size (fuel + 1) i =
    (entryCalls g disk recur (rawDirAt buffer i)).bind fun calls =>
      if ¬ Tight (rawDirAt buffer i) then some calls
      else (refreshEntries g disk recur buffer size fuel ((i + (rawDirAt buffer i).entrySize) % 2 ^ 32)).map
        (calls ++ ·) := by
  rw [refreshEntries, if_pos h]
  rfl

/-- INTERNAL: an entry can be handled if its directory can be refreshed. -/
theorem entryCalls_isSome_iff (e : RawDir) : (∃ calls, entryCalls g disk recur e = some calls) ↔
    (NamesDirectory g disk e → ∃ calls, recur (readInode g disk e.inode) = some calls) := by
  unfold entryCalls NamesDirectory
  cases hdots : isDots e.name with
  | true => simp
  | false =>
    cases hdir : (readInode g disk e.inode).looksLikeDirectory with
    | false => simp
    | true => simp

/-- INTERNAL: the calls for one entry are the same if the calls for directories are. -/
theorem entryCalls_mono (hrecur : ∀ ino calls, recur ino = some calls → recur' ino = some calls) {e : RawDir}
    (h : entryCalls g disk recur e = some calls) : entryCalls g disk recur' e = some calls := by
  unfold entryCalls at h ⊢
  by_cases hdots : isDots e.name = true
  · rw [if_pos hdots] at h ⊢
    exact h
  · rw [if_neg hdots] at h ⊢
    by_cases hdir : (readInode g disk e.inode).looksLikeDirectory = true
    · rw [if_pos hdir, Option.map_eq_some_iff] at h
      obtain ⟨there, hthere, rfl⟩ := h
      rw [if_pos hdir, hrecur _ _ hthere, Option.map_some]
    · rw [if_neg hdir] at h ⊢
      exact h

/-- **A loop that returns** has ended, and so have its calls. The induction is on the fuel. -/
theorem refreshEntries_returns (h : refreshEntries g disk recur buffer size fuel i = some calls) :
    LoopEnds buffer size i ∧ ∀ j, ReflTransGen (LoopStep buffer size) i j → j < size →
      NamesDirectory g disk (rawDirAt buffer j) →
      ∃ calls, recur (readInode g disk (rawDirAt buffer j).inode) = some calls := by
  induction fuel generalizing i calls with
  | zero => cases h
  | succ fuel ih =>
    by_cases hi : i < size
    · rw [refreshEntries_succ hi, Option.bind_eq_some_iff] at h
      obtain ⟨here, hentry, hrest⟩ := h
      have hcall := (entryCalls_isSome_iff (rawDirAt buffer i)).mp ⟨here, hentry⟩
      by_cases htight : Tight (rawDirAt buffer i)
      · rw [if_neg (not_not_intro htight), Option.map_eq_some_iff] at hrest
        obtain ⟨there, hrest, _⟩ := hrest
        obtain ⟨⟨k, hk, hstop⟩, hcalls⟩ := ih hrest
        refine ⟨⟨k, ReflTransGen.head ⟨hi, htight, rfl⟩ hk, hstop⟩, fun j hj hlt hdir => ?_⟩
        cases ReflTransGen.cases_head hj with
        | inl heq => exact heq ▸ hcall (heq ▸ hdir)
        | inr hstep =>
          obtain ⟨k, ⟨_, _, rfl⟩, hkj⟩ := hstep
          exact hcalls j hkj hlt hdir
      · refine ⟨⟨i, ReflTransGen.refl, fun _ => htight⟩, fun j hj hlt hdir => ?_⟩
        cases ReflTransGen.cases_head hj with
        | inl heq => exact heq ▸ hcall (heq ▸ hdir)
        | inr hstep =>
          obtain ⟨k, ⟨_, hstepTight, _⟩, _⟩ := hstep
          exact absurd hstepTight htight
    · refine ⟨⟨i, ReflTransGen.refl, fun hlt => absurd hlt hi⟩, fun j hj hlt _ => ?_⟩
      cases ReflTransGen.cases_head hj with
      | inl heq => exact absurd (heq ▸ hlt) hi
      | inr hstep =>
        obtain ⟨k, ⟨hlt', _, _⟩, _⟩ := hstep
        exact absurd hlt' hi

/-- **A loop that ends** returns, if its calls do. The induction is on the steps up to the end. -/
theorem refreshEntries_ends (hends : LoopEnds buffer size i)
    (hcalls : ∀ j, ReflTransGen (LoopStep buffer size) i j → j < size → NamesDirectory g disk (rawDirAt buffer j) →
      ∃ calls, recur (readInode g disk (rawDirAt buffer j).inode) = some calls) :
    ∃ fuel calls, refreshEntries g disk recur buffer size fuel i = some calls := by
  obtain ⟨k, hk, hstop⟩ := hends
  induction hk using ReflTransGen.head_induction_on with
  | refl =>
    by_cases hlt : k < size
    · obtain ⟨here, hentry⟩ := (entryCalls_isSome_iff (rawDirAt buffer k)).mpr (hcalls k ReflTransGen.refl hlt)
      refine ⟨1, here, ?_⟩
      rw [refreshEntries_succ hlt, hentry, Option.bind_some, if_pos (hstop hlt)]
    · exact ⟨1, [], by rw [refreshEntries, if_neg hlt]⟩
  | head hstep _ ih =>
    obtain ⟨hlt, htight, rfl⟩ := hstep
    obtain ⟨fuel, there, hrest⟩ := ih fun j hj => hcalls j (ReflTransGen.head ⟨hlt, htight, rfl⟩ hj)
    obtain ⟨here, hentry⟩ := (entryCalls_isSome_iff (rawDirAt buffer _)).mpr (hcalls _ ReflTransGen.refl hlt)
    refine ⟨fuel + 1, here ++ there, ?_⟩
    rw [refreshEntries_succ hlt, hentry, Option.bind_some, if_neg (not_not_intro htight), hrest, Option.map_some]

/-- INTERNAL: with more fuel a loop returns the same. -/
theorem refreshEntries_mono (hrecur : ∀ ino calls, recur ino = some calls → recur' ino = some calls)
    (hfuel : fuel ≤ fuel') (h : refreshEntries g disk recur buffer size fuel i = some calls) :
    refreshEntries g disk recur' buffer size fuel' i = some calls := by
  induction fuel generalizing i fuel' calls with
  | zero => cases h
  | succ fuel ih =>
    obtain ⟨fuel', rfl⟩ : ∃ k, fuel' = k + 1 := ⟨fuel' - 1, by omega⟩
    by_cases hi : i < size
    · rw [refreshEntries_succ hi, Option.bind_eq_some_iff] at h
      obtain ⟨here, hentry, hrest⟩ := h
      rw [refreshEntries_succ hi, entryCalls_mono hrecur hentry, Option.bind_some]
      by_cases htight : Tight (rawDirAt buffer i)
      · rw [if_neg (not_not_intro htight), Option.map_eq_some_iff] at hrest
        obtain ⟨there, hrest, rfl⟩ := hrest
        rw [if_neg (not_not_intro htight), ih (Nat.le_of_succ_le_succ hfuel) hrest, Option.map_some]
      · rw [if_pos htight] at hrest ⊢
        exact hrest
    · rw [refreshEntries, if_neg hi] at h ⊢
      exact h

/-- INTERNAL: with more fuel a call returns the same. -/
theorem refreshCalls_mono (hfuel : fuel ≤ fuel') (h : refreshCalls g heap disk fuel ino = some calls) :
    refreshCalls g heap disk fuel' ino = some calls := by
  induction fuel generalizing ino fuel' calls with
  | zero => cases h
  | succ fuel ih =>
    obtain ⟨fuel', rfl⟩ : ∃ k, fuel' = k + 1 := ⟨fuel' - 1, by omega⟩
    rw [refreshCalls] at h ⊢
    exact refreshEntries_mono (fun ino calls hcalls => ih (Nat.le_of_succ_le_succ hfuel) hcalls)
      (Nat.le_of_succ_le_succ hfuel) h

/-! ## All directories -/

/-- INTERNAL: a directory needs more nested calls than those in it. -/
theorem refreshCalls_children (h : refreshCalls g heap disk (fuel + 1) ino = some calls) :
    DirectoryEnds g heap disk ino ∧ ∀ n, Subdirectory g heap disk ino n →
      ∃ calls, refreshCalls g heap disk fuel (readInode g disk n) = some calls := by
  rw [refreshCalls] at h
  obtain ⟨hends, hcalls⟩ := refreshEntries_returns h
  refine ⟨hends, fun n hn => ?_⟩
  obtain ⟨j, hreach, hlt, hdir, hname⟩ := hn
  rw [hname]
  exact hcalls j hreach hlt hdir

/-- INTERNAL: the same for what is below. -/
theorem refreshCalls_descendant (h : refreshCalls g heap disk fuel (readInode g disk n) = some calls)
    (hbelow : TransGen (SubdirectoryOf g heap disk) n m) :
    ∃ k < fuel, ∃ calls, refreshCalls g heap disk k (readInode g disk m) = some calls := by
  have hstep : ∀ k n m, SubdirectoryOf g heap disk n m →
      (∃ calls, refreshCalls g heap disk k (readInode g disk n) = some calls) →
      ∃ l < k, ∃ calls, refreshCalls g heap disk l (readInode g disk m) = some calls := by
    intro k n m hsub hk
    obtain ⟨calls, hcalls⟩ := hk
    cases k with
    | zero => cases hcalls
    | succ k => exact ⟨k, Nat.lt_succ_self k, (refreshCalls_children hcalls).2 m hsub⟩
  induction hbelow with
  | single hsub => exact hstep fuel n _ hsub ⟨calls, h⟩
  | tail _ hsub ih =>
    obtain ⟨k, hk, hcalls⟩ := ih
    obtain ⟨l, hl, hcalls'⟩ := hstep k _ _ hsub hcalls
    exact ⟨l, hl.trans hk, hcalls'⟩

/-- **A directory that is refreshed** is not below itself. The induction is on the fuel. -/
theorem refreshCalls_acyclic (h : refreshCalls g heap disk fuel (readInode g disk n) = some calls) :
    ¬ TransGen (SubdirectoryOf g heap disk) n n := by
  intro hcycle
  induction fuel using Nat.strong_induction_on generalizing calls with
  | _ fuel ih =>
    obtain ⟨k, hk, calls', hcalls⟩ := refreshCalls_descendant h hcycle
    exact ih k hk hcalls

/-- INTERNAL: a directory can be refreshed if those in it can.
SRCLINE: kernel/fs/ext2/ext2.cpp:134-179 -/
theorem refreshReturns_of_children (hends : DirectoryEnds g heap disk ino)
    (hchildren : ∀ n, Subdirectory g heap disk ino n → RefreshReturns g heap disk (readInode g disk n)) :
    RefreshReturns g heap disk ino := by
  -- one amount of fuel is enough for all inode numbers
  obtain ⟨k, hk⟩ := @common_bound (Subdirectory g heap disk ino) (2 ^ 32)
    (fun n k => ∃ calls, refreshCalls g heap disk k (readInode g disk n) = some calls)
    (fun n k k' hle hcalls => by
      obtain ⟨calls, hcalls⟩ := hcalls
      exact ⟨calls, refreshCalls_mono hle hcalls⟩) (fun n _ hn => hchildren n hn)
  obtain ⟨l, calls, hloop⟩ := @refreshEntries_ends g disk _ (refreshCalls g heap disk k) _ 0 hends fun j hreach hlt hdir =>
    hk _ Memory.word_lt ⟨j, hreach, hlt, hdir, rfl⟩
  refine ⟨max k l + 1, calls, ?_⟩
  rw [refreshCalls]
  exact refreshEntries_mono (fun ino calls hcalls => refreshCalls_mono (Nat.le_max_left k l) hcalls)
    (Nat.le_max_right k l) hloop

/-- **Refreshing returns if and only if the directories are a proper tree.**
SRCLINE: kernel/fs/ext2/ext2.cpp:134-179 -/
theorem refreshReturns_iff (g : Ext2Super) (heap disk : Memory) (root : Inode) :
    RefreshReturns g heap disk root ↔ RefreshTree g heap disk root := by
  constructor
  · rintro ⟨fuel, calls, hcalls⟩
    cases fuel with
    | zero => cases hcalls
    | succ fuel =>
      obtain ⟨hends, hchildren⟩ := refreshCalls_children hcalls
      have hbelow : ∀ n, Below g heap disk root n →
          ∃ k calls, refreshCalls g heap disk (k + 1) (readInode g disk n) = some calls := by
        rintro n ⟨m, hm, hreach⟩
        obtain ⟨calls', hcalls'⟩ := hchildren m hm
        cases reflTransGen_iff_eq_or_transGen.mp hreach with
        | inl heq =>
          rw [heq]
          exact ⟨fuel, calls', refreshCalls_mono (Nat.le_succ fuel) hcalls'⟩
        | inr htrans =>
          obtain ⟨k, _, calls'', hcalls''⟩ := refreshCalls_descendant hcalls' htrans
          exact ⟨k, calls'', refreshCalls_mono (Nat.le_succ k) hcalls''⟩
      refine ⟨hends, fun n hn => ?_, fun n hn => ?_⟩
      · obtain ⟨k, calls', hcalls'⟩ := hbelow n hn
        exact (refreshCalls_children hcalls').1
      · obtain ⟨k, calls', hcalls'⟩ := hbelow n hn
        exact refreshCalls_acyclic hcalls'
  · intro htree
    refine refreshReturns_of_children htree.rootEnds fun n hn => ?_
    have hall := @acyclic_induction (SubdirectoryOf g heap disk) (Below g heap disk root)
      (fun n => RefreshReturns g heap disk (readInode g disk n)) (2 ^ 32)
      (fun n m hm => by
        obtain ⟨j, _, _, _, hname⟩ := hm
        rw [hname]
        exact Memory.word_lt)
      (fun n m hn hm => by
        obtain ⟨k, hk, hreach⟩ := hn
        exact ⟨k, hk, hreach.tail hm⟩)
      htree.acyclic fun n hn hchildren => refreshReturns_of_children (htree.ends n hn) hchildren
    exact hall n ⟨n, hn, ReflTransGen.refl⟩

/-! ## A directory in itself -/

/-- The root directory of `smallTree`, where the entry `a` names the root directory. -/
def selfNamed : Memory := (smallTree.setWord 5248 2 0x41ed).setWord 10264 4 2

theorem selfNamed_below : SubdirectoryOf smallSuper (fun _ => 0) selfNamed 2 2 := by
  refine ⟨24, ReflTransGen.head (b := 12) ?_ (ReflTransGen.single ?_), by decide, ?_, by decide⟩
  · unfold LoopStep
    decide
  · unfold LoopStep
    decide
  · unfold NamesDirectory
    decide

/-- It is never refreshed. -/
theorem selfNamed_never_returns : ¬ ∀ (g : Ext2Super) (heap disk : Memory) (root : Inode),
    RefreshReturns g heap disk root := by
  intro h
  obtain ⟨fuel, calls, hcalls⟩ := h smallSuper (fun _ => 0) selfNamed (readInode smallSuper selfNamed 2)
  exact refreshCalls_acyclic hcalls (TransGen.single selfNamed_below)

end CrepOS.Analysis
