import CrepOS.Interface.MunmapPages
import CrepOS.Analysis.PageHistory
import CrepOS.Analysis.TableLayers

/-!
# What `unmap_range` does to the tables

The lookup and `unmap` end at the entry of an address (`unmap_lookup`): without one, a `NULL` pointer is
followed, and otherwise the present bit of the entry is cleared. `Clears` says what that changes, for one
table after the other on the way up to the root. A run of the loop ends the translations of the pages it
arrives at and changes no others (`unmapRange_visited`).
-/

set_option autoImplicit false

namespace CrepOS.Analysis

open CrepOS.Library CrepOS.Model CrepOS.Interface

/-! ## Entries -/

section Entries

variable {n : ℕ} {e c : Word}

theorem leafStep_follows : Follows leafStep none := by
  refine ⟨?_, ?_, fun n => if_pos rfl⟩
  · intro n e c _ h
    unfold leafStep at h
    split_ifs at h with hzero hleaf
    rw [tableBelow, if_neg (not_or.mpr ⟨hzero, hleaf⟩), Sum.inl.inj h]
  · intro n e hn hp hh _
    have hbelow := tableBelow_of_not_huge hn hp hh
    have hnot : ¬ (e = 0 ∨ isLeaf n e = true) := by
      intro hor
      rw [tableBelow, if_pos hor] at hbelow
      cases hbelow
    rw [leafStep, if_neg (mt Or.inl hnot), if_neg (mt Or.inr hnot)]

/-- INTERNAL: the lookup goes on to the table below. -/
theorem leafStep_of_tableBelow (h : tableBelow n e = some c) : leafStep n e = .inl c := by
  unfold tableBelow at h
  split_ifs at h with hnot
  rw [leafStep, if_neg (mt Or.inl hnot), if_neg (mt Or.inr hnot), Option.some.inj h]

/-- INTERNAL: the walk goes on to the table below or faults. -/
theorem walkStep_of_tableBelow (hgood : GoodEntry n e) (h : tableBelow n e = some c) :
    walkStep n e = .inl c ∨ walkStep n e = .inr .fault := by
  have hp := (hgood (by rw [h]; rfl)).1
  have hcopy := h
  unfold tableBelow at h
  split_ifs at h with hnot
  have hleaf := mt Or.inr hnot
  have hn : n ≠ 0 := by
    rintro rfl
    exact hleaf rfl
  by_cases hh : e.getLsbD 7 = true
  · right
    have hhigh : ¬ n ≤ 2 := by
      intro hle
      apply hleaf
      simp [isLeaf, hle, hh]
    rw [walkStep, if_neg (by rw [hp]; exact Bool.noConfusion), if_neg hn, if_pos hh, if_neg hhigh]
  · left
    rw [walkStep_of_not_huge hn hp (Bool.eq_false_iff.mpr hh) hgood, Option.some.inj h]

theorem getLsbD_clearPresent (e : Word) (k : ℕ) :
    (clearPresent e).getLsbD k = (decide (k ≠ 0) && e.getLsbD k) :=
  getLsbD_setBit_present e k

theorem isLeaf_clearPresent (n : ℕ) (e : Word) : isLeaf n (clearPresent e) = isLeaf n e := by
  unfold isLeaf
  rw [getLsbD_clearPresent]
  rfl

theorem clearPresent_clearPresent (e : Word) : clearPresent (clearPresent e) = clearPresent e := by
  apply BitVec.eq_of_getLsbD_eq
  intro k _
  simp only [getLsbD_clearPresent, ← Bool.and_assoc, Bool.and_self]

/-- INTERNAL: what is left of an entry does not point to a table. -/
theorem tableBelow_of_leaf (h : isLeaf n e = true) : tableBelow n e = none := if_pos (Or.inr h)

end Entries

/-! ## One call of `unmap` -/

/-- The entry of `a` below the table `t` of height `n` is `e`, of level `l`, and `mem'` has it without its
present bit. -/
structure Clears (mem mem' : Word → Index → Word) (a : Word) (l : ℕ) (e : Word) (n : ℕ) (t : Word) : Prop where
  edit : Edit tableBelow GoodEntry (fun _ => False) mem mem' n t
  old : ∀ idx : ℕ → Index, (∀ k, l ≤ k → k < n → idx k = walkIndex a k) →
    descend leafStep mem n t idx = some (some (l, e))
  leaf : ∀ idx : ℕ → Index, (∀ k, l ≤ k → k < n → idx k = walkIndex a k) →
    descend leafStep mem' n t idx = some (if clearPresent e = 0 then none else some (l, clearPresent e))
  walk : ∀ idx : ℕ → Index, (∀ k, l ≤ k → k < n → idx k = walkIndex a k) →
    descend walkStep mem' n t idx = some .fault
  miss : ∀ idx : ℕ → Index, ∀ k, l ≤ k → k < n → idx k ≠ walkIndex a k →
    descend leafStep mem' n t idx = descend leafStep mem n t idx ∧
      descend walkStep mem' n t idx = descend walkStep mem n t idx

section Clears

variable {s : Vm} {mem mem' : Word → Index → Word} {a e t c : Word} {l n : ℕ}

/-- INTERNAL: the table that has the entry. -/
theorem clears_entry (htree : IsTree tableBelow GoodEntry s.mem (n + 1) t)
    (hne : s.mem t (walkIndex a n) ≠ 0) (hleaf : isLeaf n (s.mem t (walkIndex a n)) = true) :
    Clears s.mem (s.set t (walkIndex a n) (clearPresent (s.mem t (walkIndex a n)))).mem a n
      (s.mem t (walkIndex a n)) (n + 1) t := by
  have hleaf' : isLeaf n (clearPresent (s.mem t (walkIndex a n))) = true := by
    rw [isLeaf_clearPresent, hleaf]
  have hnone := tableBelow_of_leaf hleaf'
  have hgraft : Graft tableBelow GoodEntry (fun _ => False) s.mem
      (s.set t (walkIndex a n) (clearPresent (s.mem t (walkIndex a n)))).mem n t (walkIndex a n)
      (clearPresent (s.mem t (walkIndex a n))) := by
    refine ⟨?_, ?_, ?_, tableBelow_of_leaf hleaf, goodEntry_of_tableBelow_none hnone, ?_⟩
    · simp [Vm.set]
    · intro j hj
      simp [Vm.set, hj]
    · intro f hf _
      simp [Vm.set, hf]
    · intro c hc
      cases hnone.symm.trans hc
  have hfresh : ∀ f, InTree tableBelow s.mem (n + 1) t f → ¬ False := fun _ _ h => h
  have htop : ∀ idx : ℕ → Index, (∀ k, n ≤ k → k < n + 1 → idx k = walkIndex a k) →
      idx n = walkIndex a n := fun idx h => h n le_rfl (Nat.lt_succ_self n)
  refine ⟨hgraft.edit htree hfresh, ?_, ?_, ?_, ?_⟩
  · intro idx hidx
    rw [descend, htop idx hidx, leafStep, if_neg hne, if_pos hleaf]
  · intro idx hidx
    rw [descend, htop idx hidx, hgraft.entry, leafStep]
    by_cases hzero : clearPresent (s.mem t (walkIndex a n)) = 0
    · rw [if_pos hzero, if_pos hzero]
    · rw [if_neg hzero, if_neg hzero, if_pos hleaf']
  · intro idx hidx
    have habsent : (clearPresent (s.mem t (walkIndex a n))).getLsbD 0 = false := by
      rw [getLsbD_clearPresent]
      rfl
    rw [descend, htop idx hidx, hgraft.entry, walkStep, if_pos habsent]
  · intro idx k hk hkn hidx
    obtain rfl : k = n := by omega
    exact ⟨hgraft.descend_other leafStep_follows.child htree hfresh hidx,
      hgraft.descend_other follows_walkStep.child htree hfresh hidx⟩

/-- INTERNAL: one table up. -/
theorem Clears.up (h : Clears mem mem' a l e n c) (htree : IsTree tableBelow GoodEntry mem (n + 1) t)
    (hc : tableBelow n (mem t (walkIndex a n)) = some c) (hl : l < n) : Clears mem mem' a l e (n + 1) t := by
  have hfresh : ∀ f, InTree tableBelow mem (n + 1) t f → ¬ False := fun _ _ h => h
  obtain ⟨hroot, -⟩ := h.edit.siblings htree hc hfresh
  have hleaf := leafStep_of_tableBelow hc
  have htop : ∀ idx : ℕ → Index, (∀ k, l ≤ k → k < n + 1 → idx k = walkIndex a k) →
      idx n = walkIndex a n ∧ ∀ k, l ≤ k → k < n → idx k = walkIndex a k := by
    intro idx hidx
    exact ⟨hidx n (by omega) (by omega), fun k hk hkn => hidx k hk (by omega)⟩
  refine ⟨h.edit.below htree hc hfresh, ?_, ?_, ?_, ?_⟩
  · intro idx hidx
    rw [descend, (htop idx hidx).1, hleaf]
    exact h.old idx (htop idx hidx).2
  · intro idx hidx
    rw [descend, hroot, (htop idx hidx).1, hleaf]
    exact h.leaf idx (htop idx hidx).2
  · intro idx hidx
    rw [descend, hroot, (htop idx hidx).1]
    rcases walkStep_of_tableBelow (htree.1 _) hc with hstep | hstep
    · rw [hstep]
      exact h.walk idx (htop idx hidx).2
    · rw [hstep]
  · intro idx k hk hkn hne
    by_cases hidx : idx n = walkIndex a n
    · have hk' : k < n := by
        rcases Nat.lt_succ_iff_lt_or_eq.mp hkn with hlt | rfl
        · exact hlt
        · exact absurd hidx hne
      obtain ⟨hleaf', hwalk⟩ := h.miss idx k hk hk' hne
      refine ⟨?_, ?_⟩
      · rw [descend, descend, hroot, hidx, hleaf]
        exact hleaf'
      · rw [descend, descend, hroot, hidx]
        rcases walkStep_of_tableBelow (htree.1 _) hc with hstep | hstep
        · rw [hstep]
          exact hwalk
        · rw [hstep]
    · exact ⟨h.edit.descend_other leafStep_follows.child htree hc hfresh hidx,
        h.edit.descend_other follows_walkStep.child htree hc hfresh hidx⟩

/-- What the lookup of `a` from the table `t` of height `n` on and `unmap` give: no result if there is no
entry, and else the tables with the present bit of the entry cleared. -/
def Unmaps (s : Vm) (a : Word) (n : ℕ) (t : Word) (r : Option (Vm × Word)) : Prop :=
  (descend leafStep s.mem n t (walkIndex a) = some none ∧ r = none) ∨
    ∃ l e s' q, l < n ∧ r = some (s', q) ∧ Clears s.mem s'.mem a l e n t

/-- INTERNAL: at a zero entry. -/
theorem unmaps_zero (h : s.mem t (walkIndex a n) = 0) : Unmaps s a (n + 1) t none := by
  left
  rw [descend, h, leafStep, if_pos rfl]
  exact ⟨rfl, rfl⟩

/-- INTERNAL: at an entry for a page. -/
theorem unmaps_entry (htree : IsTree tableBelow GoodEntry s.mem (n + 1) t)
    (hne : s.mem t (walkIndex a n) ≠ 0) (hleaf : isLeaf n (s.mem t (walkIndex a n)) = true) :
    Unmaps s a (n + 1) t (some (s.set t (walkIndex a n) (setBit (s.mem t (walkIndex a n)) 1#64 false),
      frameOf (s.mem t (walkIndex a n)))) :=
  Or.inr ⟨n, _, _, _, Nat.lt_succ_self n, rfl, clears_entry htree hne hleaf⟩

/-- INTERNAL: one table up. -/
theorem Unmaps.up {r : Option (Vm × Word)} (h : Unmaps s a n c r)
    (htree : IsTree tableBelow GoodEntry s.mem (n + 1) t) (hc : tableBelow n (s.mem t (walkIndex a n)) = some c) :
    Unmaps s a (n + 1) t r := by
  rcases h with ⟨hnone, hr⟩ | ⟨l, e, s', q, hl, hr, hclears⟩
  · left
    rw [descend, leafStep_of_tableBelow hc]
    exact ⟨hnone, hr⟩
  · exact Or.inr ⟨l, e, s', q, by omega, hr, hclears.up htree hc hl⟩

/-- INTERNAL: an entry that is neither zero nor for a page points to a table and is present. -/
theorem pointer_of_not_leaf (htree : IsTree tableBelow GoodEntry s.mem (n + 1) t) {i : Index}
    (hne : s.mem t i ≠ 0) (hleaf : isLeaf n (s.mem t i) = false) :
    tableBelow n (s.mem t i) = some (frameOf (s.mem t i)) ∧ isPresent (s.mem t i) = true ∧
      IsTree tableBelow GoodEntry s.mem n (frameOf (s.mem t i)) := by
  have hc := tableBelow_of_isLeaf hne hleaf
  refine ⟨hc, ?_, (htree.2.1 i _ hc).1⟩
  rw [isPresent_eq]
  exact (htree.1 i (by rw [hc]; rfl)).1

/-- INTERNAL: whether an entry of a third- or second-level table is for a page. -/
theorem isLeaf_eq_isHuge (hn : n ≠ 0) (hle : n ≤ 2) (e : Word) : isLeaf n e = isHuge e := by
  rw [isHuge_eq, isLeaf]
  simp [hn, hle]

/-- INTERNAL: from the third-level table on.
SRCLINE: kernel/mm/vmm.cpp:101-122, 193-209 -/
theorem unmaps_lookupPml3 (htree : IsTree tableBelow GoodEntry s.mem 3 t) :
    Unmaps s a 3 t (unmap s (lookupPml3 s t a)) := by
  unfold lookupPml3
  simp only [tableIndex_eq_walkIndex]
  by_cases hz3 : s.mem t (walkIndex a 2) = 0
  · rw [if_pos hz3]
    exact unmaps_zero hz3
  rw [if_neg hz3]
  cases hh3 : isHuge (s.mem t (walkIndex a 2)) with
  | true =>
    rw [if_pos (by simp), unmap]
    simp only [hh3, if_true]
    exact unmaps_entry htree hz3 (by rw [isLeaf_eq_isHuge (by omega) (by omega), hh3])
  | false =>
    obtain ⟨hc3, hp3, htree2⟩ := pointer_of_not_leaf htree hz3
      (by rw [isLeaf_eq_isHuge (by omega) (by omega), hh3])
    rw [if_neg (by simp [hp3])]
    refine Unmaps.up ?_ htree hc3
    generalize frameOf (s.mem t (walkIndex a 2)) = t2 at *
    by_cases hz2 : s.mem t2 (walkIndex a 1) = 0
    · rw [if_pos hz2, unmap]
      simp only [hh3, Bool.false_eq_true, if_false]
      exact unmaps_zero hz2
    rw [if_neg hz2]
    cases hh2 : isHuge (s.mem t2 (walkIndex a 1)) with
    | true =>
      rw [if_pos (by simp), unmap]
      simp only [hh3, hh2, Bool.false_eq_true, if_false, if_true]
      exact unmaps_entry htree2 hz2 (by rw [isLeaf_eq_isHuge (by omega) (by omega), hh2])
    | false =>
      obtain ⟨hc2, hp2, htree1⟩ := pointer_of_not_leaf htree2 hz2
        (by rw [isLeaf_eq_isHuge (by omega) (by omega), hh2])
      rw [if_neg (by simp [hp2])]
      refine Unmaps.up ?_ htree2 hc2
      generalize frameOf (s.mem t2 (walkIndex a 1)) = t1 at *
      by_cases hz1 : s.mem t1 (walkIndex a 0) = 0
      · rw [if_pos hz1, unmap]
        simp only [hh3, hh2, Bool.false_eq_true, if_false]
        exact unmaps_zero hz1
      · rw [if_neg hz1, unmap]
        simp only [hh3, hh2, Bool.false_eq_true, if_false]
        exact unmaps_entry htree1 hz1 rfl

/-- INTERNAL: through a fifth- or fourth-level table.
SRCLINE: kernel/mm/vmm.cpp:40-55, 92-99 -/
theorem unmaps_lookupDirectory {k : Word → FoundEntries} (hn : 2 < n)
    (htree : IsTree tableBelow GoodEntry s.mem (n + 1) t)
    (hk : ∀ c, IsTree tableBelow GoodEntry s.mem n c → Unmaps s a n c (unmap s (k c))) :
    Unmaps s a (n + 1) t (unmap s (lookupDirectory s t (walkIndex a n) k)) := by
  unfold lookupDirectory
  by_cases hz : s.mem t (walkIndex a n) = 0
  · rw [if_pos hz]
    exact unmaps_zero hz
  · have hleaf : isLeaf n (s.mem t (walkIndex a n)) = false := by
      have hn0 : n ≠ 0 := by omega
      have hn2 : ¬ n ≤ 2 := by omega
      simp [isLeaf, hn0, hn2]
    obtain ⟨hc, hp, hbelow⟩ := pointer_of_not_leaf htree hz hleaf
    rw [if_neg hz, if_neg (by simp [hp])]
    exact (hk _ hbelow).up htree hc

/-- **What `unmap` does at a looked up address.**
SRCLINE: kernel/mm/vmm.cpp:29-123, 193-209, 290-306 -/
theorem unmap_lookup {p : Paging} {root : Word} (htree : TableTree p s.mem root) :
    Unmaps s a p.levels root (unmap s (lookup p s root a)) := by
  cases p with
  | pml4 =>
    rw [lookup, tableIndex_eq_walkIndex]
    exact unmaps_lookupDirectory (by omega) htree fun c hc => unmaps_lookupPml3 hc
  | pml5 =>
    rw [lookup, tableIndex_eq_walkIndex, tableIndex_eq_walkIndex]
    exact unmaps_lookupDirectory (by omega) htree fun c hc =>
      unmaps_lookupDirectory (by omega) hc fun c hc => unmaps_lookupPml3 hc

end Clears

/-! ## Pages -/

section Pages

variable {p : Paging} {mem mem' : Word → Index → Word} {root a b v e t : Word} {l n : ℕ}

/-- INTERNAL: the lookup reads no index below the level of the entry. -/
theorem descend_leaf_congr {idx idx' : ℕ → Index} (h : descend leafStep mem n t idx = some (some (l, e)))
    (hsame : ∀ k, l ≤ k → k < n → idx' k = idx k) :
    l < n ∧ descend leafStep mem n t idx' = some (some (l, e)) := by
  induction n generalizing t with
  | zero => cases h
  | succ n ih =>
    rw [descend] at h
    cases hstep : leafStep n (mem t (idx n)) with
    | inr r =>
      rw [hstep] at h
      obtain rfl := Option.some.inj h
      have hl : n = l := by
        unfold leafStep at hstep
        split_ifs at hstep
        · cases hstep
        · exact (Prod.mk.inj (Option.some.inj (Sum.inr.inj hstep))).1
      refine ⟨by omega, ?_⟩
      rw [descend, hsame n (by omega) (by omega), hstep]
    | inl c =>
      rw [hstep] at h
      obtain ⟨hl, hrest⟩ := ih h fun k hk hkn => hsame k hk (by omega)
      refine ⟨by omega, ?_⟩
      rw [descend, hsame n (by omega) (by omega), hstep]
      exact hrest

/-- The addresses of a page have one entry. -/
theorem entryFound_congr (h : entryFound p mem root a = some (n, e)) (hsame : SameIndices p n a b) :
    entryFound p mem root b = some (n, e) := by
  have hjoin : descend leafStep mem p.levels root (walkIndex a) = some (some (n, e)) := by
    unfold entryFound at h
    exact Option.join_eq_some_iff.mp h
  rw [entryFound, (descend_leaf_congr hjoin hsame).2]
  rfl

/-- INTERNAL: the entry of an address from the root on. -/
theorem Clears.entry (h : Clears mem mem' a l e p.levels root) (hsame : SameIndices p l a v) :
    entryFound p mem root v = some (l, e) := by
  rw [entryFound, h.old _ hsame]
  rfl

/-- INTERNAL: an address in the page that is unmapped. -/
theorem Clears.hit (h : Clears mem mem' a l e p.levels root) (hsame : SameIndices p l a v) :
    entryFound p mem' root v = (if clearPresent e = 0 then none else some (l, clearPresent e)) ∧
      translate p mem' root v = none := by
  refine ⟨?_, ?_⟩
  · rw [entryFound, h.leaf _ hsame]
    rfl
  · rw [Interface.translate, Interface.walk, h.walk _ hsame]

/-- INTERNAL: another address. -/
theorem Clears.other (h : Clears mem mem' a l e p.levels root) (hother : ¬ SameIndices p l a v) :
    entryFound p mem' root v = entryFound p mem root v ∧ translate p mem' root v = translate p mem root v := by
  unfold SameIndices at hother
  push Not at hother
  obtain ⟨k, hk, hkp, hne⟩ := hother
  obtain ⟨hleaf, hwalk⟩ := h.miss _ k hk hkp hne
  refine ⟨?_, ?_⟩
  · rw [entryFound, hleaf, entryFound]
  · rw [Interface.translate, Interface.walk, hwalk, Interface.translate, Interface.walk]

/-- INTERNAL: the page of `a` is the one that is unmapped. -/
theorem Clears.pageOf (h : Clears mem mem' a l e p.levels root) :
    PageOf p mem root a v ↔ SameIndices p l a v := by
  have hentry := h.entry (v := a) fun _ _ _ => rfl
  constructor
  · rintro ⟨n, e', he, hsame⟩
    obtain ⟨rfl, rfl⟩ := Prod.mk.inj (Option.some.inj (hentry.symm.trans he))
    exact hsame
  · intro hsame
    exact ⟨l, e, hentry, hsame⟩

/-- INTERNAL: an address has an entry after `a` is unmapped if it had one that is not gone. -/
theorem Clears.isSome_iff (h : Clears mem mem' a l e p.levels root) :
    (entryFound p mem' root b).isSome ↔ (entryFound p mem root b).isSome ∧ NotGone p mem root a b := by
  by_cases hsame : SameIndices p l a b
  · have hb := h.entry hsame
    rw [(h.hit hsame).1]
    unfold NotGone
    simp only [hb, Option.isSome_some, true_and, Option.some.injEq, Prod.mk.injEq, and_imp]
    by_cases hzero : clearPresent e = 0
    · simp only [hzero, if_true, Option.isSome_none, Bool.false_eq_true, false_iff]
      intro hgone
      exact hgone l e rfl rfl hzero hsame.symm
    · simp only [hzero, if_false, Option.isSome_some, true_iff]
      rintro n e' rfl rfl hzero'
      exact absurd hzero' hzero
  · rw [(h.other hsame).1, iff_self_and]
    intro _ n e' hb _ hba
    -- the page of `b` would be that of `a`
    have ha := entryFound_congr hb hba
    obtain ⟨rfl, rfl⟩ := Prod.mk.inj (Option.some.inj ((h.entry fun _ _ _ => rfl).symm.trans ha))
    exact hsame hba.symm

/-- INTERNAL: for an address that still has an entry, the page is the same. -/
theorem Clears.same (h : Clears mem mem' a l e p.levels root) (hb : (entryFound p mem' root b).isSome) :
    (∀ c, NotGone p mem' root c b ↔ NotGone p mem root c b) ∧
      ∀ v, PageOf p mem' root b v ↔ PageOf p mem root b v := by
  by_cases hsame : SameIndices p l a b
  · have hold := h.entry hsame
    have hnew := (h.hit hsame).1
    by_cases hzero : clearPresent e = 0
    · rw [hnew, if_pos hzero] at hb
      cases hb
    · rw [if_neg hzero] at hnew
      refine ⟨?_, ?_⟩
      · intro c
        unfold NotGone
        simp only [hold, hnew, Option.some.injEq, Prod.mk.injEq, and_imp]
        constructor
        · rintro - n e' rfl rfl hgone
          exact absurd hgone hzero
        · rintro - n e' rfl rfl hgone
          rw [clearPresent_clearPresent] at hgone
          exact absurd hgone hzero
      · intro v
        unfold PageOf
        simp only [hold, hnew, Option.some.injEq, Prod.mk.injEq]
        constructor
        · rintro ⟨n, e', ⟨rfl, rfl⟩, hv⟩
          exact ⟨l, e, ⟨rfl, rfl⟩, hv⟩
        · rintro ⟨n, e', ⟨rfl, rfl⟩, hv⟩
          exact ⟨l, _, ⟨rfl, rfl⟩, hv⟩
  · have hsame' := (h.other hsame).1
    refine ⟨fun c => ?_, fun v => ?_⟩
    · unfold NotGone
      rw [hsame']
    · unfold PageOf
      rw [hsame']

end Pages

/-! ## The loop -/

/-- No `NULL` pointer is followed at the addresses of the list: each has an entry when it is its turn. -/
def Unmappable (p : Paging) (mem : Word → Index → Word) (root : Word) (addrs : List Word) : Prop :=
  (∀ a ∈ addrs, (entryFound p mem root a).isSome) ∧ addrs.Pairwise (NotGone p mem root)

section Loop

variable {p : Paging} {s : Vm} {mem mem' : Word → Index → Word} {root a e : Word} {l : ℕ} {addrs : List Word}

/-- INTERNAL: the first address and the others. -/
theorem unmappable_cons (h : Clears mem mem' a l e p.levels root) :
    Unmappable p mem root (a :: addrs) ↔ Unmappable p mem' root addrs := by
  have ha : (entryFound p mem root a).isSome := by
    rw [h.entry fun _ _ _ => rfl]
    rfl
  unfold Unmappable
  simp only [List.forall_mem_cons, List.pairwise_cons, ha, true_and, h.isSome_iff]
  constructor
  · rintro ⟨hsome, hgone, hpairs⟩
    have hnew : ∀ b ∈ addrs, (entryFound p mem' root b).isSome :=
      fun b hb => h.isSome_iff.mpr ⟨hsome b hb, hgone b hb⟩
    exact ⟨fun b hb => ⟨hsome b hb, hgone b hb⟩,
      (List.Pairwise.iff_of_mem fun {c b} _ hb => (h.same (hnew b hb)).1 c).mpr hpairs⟩
  · rintro ⟨hboth, hpairs⟩
    refine ⟨fun b hb => (hboth b hb).1, fun b hb => (hboth b hb).2, ?_⟩
    exact (List.Pairwise.iff_of_mem fun {c b} _ hb => (h.same (h.isSome_iff.mpr (hboth b hb))).1 c).mp hpairs

/-- **What the loop does**: if an address has no entry when it is its turn there is no result, and else the
translations of the pages of all addresses end, and no others change.
SRCLINE: kernel/mm/vmm.cpp:328-341, 367-381 -/
theorem unmapRange_visited (htree : TableTree p s.mem root) (lengths : List Word) (a : Word) :
    (unmapRange p root lengths a s = none ∧ ¬ Unmappable p s.mem root (visited lengths a)) ∨
      ∃ s', unmapRange p root lengths a s = some s' ∧ Unmappable p s.mem root (visited lengths a) ∧
        ∀ v, ((∃ b ∈ visited lengths a, PageOf p s.mem root b v) → translate p s'.mem root v = none) ∧
          ((∀ b ∈ visited lengths a, ¬ PageOf p s.mem root b v) →
            translate p s'.mem root v = translate p s.mem root v) := by
  induction lengths generalizing a s with
  | nil => exact Or.inr ⟨s, rfl, ⟨by simp [visited], by simp [visited]⟩, fun v => by simp [visited]⟩
  | cons g lengths ih =>
    rw [unmapRange, visited]
    by_cases hg : g = 0
    · rw [if_pos hg, if_pos hg]
      exact Or.inr ⟨s, rfl, ⟨by simp, by simp⟩, fun v => by simp⟩
    rw [if_neg hg, if_neg hg]
    rcases unmap_lookup (a := a) htree with ⟨hnone, hr⟩ | ⟨l, e, s', q, -, hr, hclears⟩
    · left
      rw [hr]
      refine ⟨rfl, fun h => ?_⟩
      have ha := h.1 a List.mem_cons_self
      rw [entryFound, hnone] at ha
      cases ha
    · rw [hr]
      rcases ih hclears.edit.tree (a + g) with ⟨hrest, hnot⟩ | ⟨s'', hrest, hloop, hv⟩
      · exact Or.inl ⟨hrest, mt (unmappable_cons hclears).mp hnot⟩
      · refine Or.inr ⟨s'', hrest, (unmappable_cons hclears).mpr hloop, fun v => ?_⟩
        have hsame : ∀ b ∈ visited lengths (a + g), PageOf p s'.mem root b v ↔ PageOf p s.mem root b v :=
          fun b hb => (hclears.same (hloop.1 b hb)).2 v
        obtain ⟨hend, hkeep⟩ := hv v
        constructor
        · rintro ⟨b, hb, hpage⟩
          by_cases hlater : ∃ b ∈ visited lengths (a + g), PageOf p s'.mem root b v
          · exact hend hlater
          · rw [hkeep fun b hb hpage => hlater ⟨b, hb, hpage⟩]
            rcases List.mem_cons.mp hb with rfl | hb
            · exact (hclears.hit (hclears.pageOf.mp hpage)).2
            · exact absurd ⟨b, hb, (hsame b hb).mpr hpage⟩ hlater
        · intro hnone
          rw [hkeep fun b hb hpage => hnone b (List.mem_cons_of_mem _ hb) ((hsame b hb).mp hpage)]
          exact (hclears.other fun hsame => hnone a List.mem_cons_self (hclears.pageOf.mpr hsame)).2

end Loop

end CrepOS.Analysis
