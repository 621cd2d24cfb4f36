import CrepOS.Analysis.TableLayers
import Mathlib.Data.List.Nodup

/-!
# The tables after `vmm::init`

`vmm::init` maps 2 MiB pages only, and a call of `map_page_raw` for a page that is mapped already does
nothing: the first page that an address gets is the one it keeps. `HugeMap` says that the tables hold
the pages given by a function of the indices, `HugeMap.mapPage` what one call makes of it, and
`mapDirect_slots` what a loop of `vmm::init` makes of it. As in `PageHistory`, the tables are read with a
probe that tells a missing entry from one that leads nowhere.
-/

set_option autoImplicit false

namespace CrepOS.Analysis

open CrepOS.Library CrepOS.Model CrepOS.Interface

/-- What the way to a 2 MiB page finds: no entry, the entry of the page, or something else. -/
inductive HugeProbe
  | missing
  | page (e : Word)
  | blocked
  deriving DecidableEq, Repr

/-- One step of that way. -/
def hugeStep (n : ℕ) (e : Word) : Word ⊕ HugeProbe :=
  if e = 0 then .inr .missing
  else if n = 0 ∨ e.getLsbD 0 = false then .inr .blocked
  else if e.getLsbD 7 then (if n = 1 then .inr (.page e) else .inr .blocked)
  else .inl (frameOf e)

section Probe

variable {mem : Word → Index → Word} {v : Word} {idx idx' : ℕ → Index}

theorem hugeStep_zero (n : ℕ) : hugeStep n 0 = .inr .missing := if_pos rfl

/-- INTERNAL: the cases of a step. -/
theorem hugeStep_cases (n : ℕ) (e : Word) :
    (e = 0 ∧ hugeStep n e = .inr .missing) ∨
    (n = 1 ∧ e.getLsbD 0 = true ∧ e.getLsbD 7 = true ∧ hugeStep n e = .inr (.page e)) ∨
    (n ≠ 0 ∧ e.getLsbD 0 = true ∧ e.getLsbD 7 = false ∧ hugeStep n e = .inl (frameOf e)) ∨
    (e ≠ 0 ∧ hugeStep n e = .inr .blocked) := by
  by_cases hzero : e = 0
  · subst hzero
    exact Or.inl ⟨rfl, hugeStep_zero n⟩
  · by_cases hfirst : n = 0 ∨ e.getLsbD 0 = false
    · exact Or.inr (Or.inr (Or.inr ⟨hzero, by rw [hugeStep, if_neg hzero, if_pos hfirst]⟩))
    · obtain ⟨hn, hp⟩ := not_or.mp hfirst
      have hp := eq_true_of_ne_false hp
      by_cases hh : e.getLsbD 7 = true
      · by_cases h1 : n = 1
        · refine Or.inr (Or.inl ⟨h1, hp, hh, ?_⟩)
          rw [hugeStep, if_neg hzero, if_neg hfirst, if_pos hh, if_pos h1]
        · refine Or.inr (Or.inr (Or.inr ⟨hzero, ?_⟩))
          rw [hugeStep, if_neg hzero, if_neg hfirst, if_pos hh, if_neg h1]
      · refine Or.inr (Or.inr (Or.inl ⟨hn, hp, eq_false_of_ne_true hh, ?_⟩))
        rw [hugeStep, if_neg hzero, if_neg hfirst, if_neg hh]

theorem follows_hugeStep : Follows hugeStep .missing := by
  refine ⟨?_, ?_, hugeStep_zero⟩
  · intro n e c _ h
    rcases hugeStep_cases n e with ⟨-, hs⟩ | ⟨-, -, -, hs⟩ | ⟨hn, hp, hh, hs⟩ | ⟨-, hs⟩
    · cases hs.symm.trans h
    · cases hs.symm.trans h
    · rw [tableBelow_of_not_huge hn hp hh, Sum.inl.inj (hs.symm.trans h)]
    · cases hs.symm.trans h
  · intro n e hn hp hh _
    rcases hugeStep_cases n e with ⟨rfl, -⟩ | ⟨-, -, hhuge, -⟩ | ⟨-, -, -, hs⟩ | ⟨hzero, -⟩
    · exact Bool.noConfusion hp
    · exact Bool.noConfusion (hh.symm.trans hhuge)
    · exact hs
    · rw [hugeStep, if_neg hzero, if_neg (by simp [hn, hp]),
        if_neg (by rw [hh]; exact Bool.noConfusion)]

/-- INTERNAL: the cases of one step of the way down. -/
theorem descend_hugeStep {n : ℕ} {t : Word} {r : HugeProbe}
    (h : descend hugeStep mem (n + 1) t idx = some r) :
    (mem t (idx n) = 0 ∧ r = .missing) ∨
    (n = 1 ∧ (mem t (idx n)).getLsbD 0 = true ∧ (mem t (idx n)).getLsbD 7 = true ∧
      r = .page (mem t (idx n))) ∨
    (n ≠ 0 ∧ (mem t (idx n)).getLsbD 0 = true ∧ (mem t (idx n)).getLsbD 7 = false ∧
      descend hugeStep mem n (frameOf (mem t (idx n))) idx = some r) ∨
    (mem t (idx n) ≠ 0 ∧ r = .blocked) := by
  rw [descend] at h
  rcases hugeStep_cases n (mem t (idx n)) with ⟨hzero, hs⟩ | ⟨hn, hp, hh, hs⟩ | ⟨hn, hp, hh, hs⟩ |
    ⟨hne, hs⟩
  · rw [hs] at h
    exact Or.inl ⟨hzero, (Option.some.inj h).symm⟩
  · rw [hs] at h
    exact Or.inr (Or.inl ⟨hn, hp, hh, (Option.some.inj h).symm⟩)
  · rw [hs] at h
    exact Or.inr (Or.inr (Or.inl ⟨hn, hp, hh, h⟩))
  · rw [hs] at h
    exact Or.inr (Or.inr (Or.inr ⟨hne, (Option.some.inj h).symm⟩))

/-- INTERNAL: a page is found through the indices of the levels 1 and up. -/
theorem descend_hugeStep_agree {n : ℕ} {t e : Word}
    (hidx : ∀ k, 1 ≤ k → k < n → idx' k = idx k)
    (h : descend hugeStep mem n t idx = some (.page e)) :
    descend hugeStep mem n t idx' = some (.page e) := by
  induction n generalizing t with
  | zero => cases h
  | succ n ih =>
    have hn : n ≠ 0 := by
      rintro rfl
      rcases descend_hugeStep h with ⟨-, hr⟩ | ⟨hn, -⟩ | ⟨hn, -⟩ | ⟨-, hr⟩
      · cases hr
      · cases hn
      · exact hn rfl
      · cases hr
    rw [descend] at h ⊢
    rw [hidx n (by omega) (by omega)]
    cases hs : hugeStep n (mem t (idx n)) with
    | inr r =>
      rw [hs] at h
      exact h
    | inl c =>
      rw [hs] at h
      exact ih (fun k hk hk' => hidx k hk (by omega)) h

/-- How a walk ends there. -/
def HugeProbe.walkEnd : HugeProbe → WalkEnd
  | .page e => .page 1 e
  | _ => .fault

/-- **The walk ends at the page that the probe finds**, or with a fault. -/
theorem walk_of_hugeStep {n : ℕ} {t : Word} {r : HugeProbe}
    (ht : IsTree tableBelow GoodEntry mem n t) (h : descend hugeStep mem n t idx = some r)
    (hr : r ≠ .blocked) : descend walkStep mem n t idx = some r.walkEnd := by
  induction n generalizing t with
  | zero => cases h
  | succ n ih =>
    rcases descend_hugeStep h with ⟨hzero, rfl⟩ | ⟨rfl, hp, hh, rfl⟩ | ⟨hn, hp, hh, hrest⟩ |
      ⟨-, hblocked⟩
    · rw [descend, hzero, walkStep_zero]
      rfl
    · rw [descend, walkStep, if_neg (by rw [hp]; exact Bool.noConfusion), if_neg (by omega),
        if_pos hh, if_pos (by omega)]
      rfl
    · rw [descend, walkStep_of_not_huge hn hp hh (ht.1 _)]
      exact ih (ht.2.1 _ _ (tableBelow_of_not_huge hn hp hh)).1 hrest
    · exact absurd hblocked hr

/-- Where no table of the lowest level is in use, a missing entry is met above it. -/
theorem meetsZero_of_hugeStep {height : Word → ℕ} {s : Vm} {n : ℕ} {t : Word}
    (hl : Layered height s) (hsmall : ∀ f, height f ≠ 1) (ht : height t = n) (hn : 2 ≤ n)
    (h : descend hugeStep s.mem n t (walkIndex v) = some .missing) : MeetsZero 1 s.mem v n t := by
  induction n generalizing t with
  | zero => omega
  | succ n ih =>
    rcases descend_hugeStep h with ⟨hzero, -⟩ | ⟨-, -, -, hr⟩ | ⟨hn', hp, hh, hrest⟩ | ⟨-, hr⟩
    · exact Or.inl hzero
    · cases hr
    · have hc := hl.child t n (walkIndex v n) _ ht (tableBelow_of_not_huge hn' hp hh)
      have h1 : n ≠ 1 := by
        rintro rfl
        exact hsmall _ hc
      exact Or.inr ⟨by omega, hp, hh, ih hc (by omega) hrest⟩
    · cases hr

end Probe

/-! ## A page that is mapped already -/

section Mapped

variable {s : Vm} {v t e paddr flags2 flags1 flags0 : Word}

theorem mapPml2_of_page (h : descend hugeStep s.mem 2 t (walkIndex v) = some (.page e)) :
    mapPml2 s t v paddr flags1 flags0 (-1) = some s := by
  rcases descend_hugeStep h with ⟨-, hr⟩ | ⟨-, hp, hh, -⟩ | ⟨-, -, -, hrest⟩ | ⟨-, hr⟩
  · cases hr
  · have hne : s.mem t (walkIndex v 1) ≠ 0 := by
      intro hzero
      rw [hzero] at hp
      exact Bool.noConfusion hp
    simp only [mapPml2, tableIndex_eq_walkIndex]
    rw [throughTable, if_neg hne, isHuge_eq, hh, if_pos rfl, Vm.applyPa, if_pos rfl]
  · rcases descend_hugeStep hrest with ⟨-, hr⟩ | ⟨hn, -⟩ | ⟨hn, -⟩ | ⟨-, hr⟩
    · cases hr
    · cases hn
    · exact absurd rfl hn
    · cases hr
  · cases hr

/-- INTERNAL: above the level of the page, the way to it leads through a table. -/
theorem descend_page_above {n : ℕ} (hn : 2 ≤ n)
    (h : descend hugeStep s.mem (n + 1) t (walkIndex v) = some (.page e)) :
    s.mem t (walkIndex v n) ≠ 0 ∧ isHuge (s.mem t (walkIndex v n)) = false ∧
      descend hugeStep s.mem n (frameOf (s.mem t (walkIndex v n))) (walkIndex v) = some (.page e) := by
  rcases descend_hugeStep h with ⟨-, hr⟩ | ⟨h1, -⟩ | ⟨-, hp, hh, hrest⟩ | ⟨-, hr⟩
  · cases hr
  · omega
  · refine ⟨?_, by rw [isHuge_eq, hh], hrest⟩
    intro hzero
    rw [hzero] at hp
    exact Bool.noConfusion hp
  · cases hr

theorem mapPml3_of_page {join : Word → Word → Word}
    (h : descend hugeStep s.mem 3 t (walkIndex v) = some (.page e)) :
    mapPml3 join s t v paddr flags2 flags1 flags0 (-1) = some s := by
  obtain ⟨hne, hh, hrest⟩ := descend_page_above (by omega) h
  simp only [mapPml3, tableIndex_eq_walkIndex]
  rw [throughTable, if_neg hne, hh, if_neg Bool.noConfusion]
  exact mapPml2_of_page hrest

/-- `map` leaves the page as it is. -/
theorem mapPageRaw_of_page (p : Paging) {root : Word}
    (h : descend hugeStep s.mem p.levels root (walkIndex v) = some (.page e)) :
    mapPageRaw p s root v paddr flags1 flags0 (-1) = some s := by
  cases p with
  | pml4 =>
    obtain ⟨hne, -, hrest⟩ := descend_page_above (by omega) h
    have hmap : ∀ flags flags0,
        Model.Pml4.map s root v paddr flags1 flags1 flags flags0 (-1) = some s := by
      intro flags flags0
      simp only [Model.Pml4.map, tableIndex_eq_walkIndex]
      rw [throughDirectory, if_neg hne]
      exact mapPml3_of_page hrest
    simp only [mapPageRaw]
    split
    · exact hmap _ _
    · exact hmap _ _
  | pml5 =>
    obtain ⟨hne, -, hrest⟩ := descend_page_above (by omega) h
    obtain ⟨hne', -, hrest⟩ := descend_page_above (by omega) hrest
    have hmap : ∀ flags flags0,
        Model.Pml5.map s root v paddr flags1 flags1 flags1 flags flags0 (-1) = some s := by
      intro flags flags0
      simp only [Model.Pml5.map, tableIndex_eq_walkIndex]
      rw [throughDirectory, if_neg hne, throughDirectory, if_neg hne']
      exact mapPml3_of_page hrest
    simp only [mapPageRaw]
    split
    · exact hmap _ _
    · exact hmap _ _

end Mapped

/-! ## The pages of the tables -/

/-- The indices are those of the 2 MiB page of `v`. -/
def Agrees (p : Paging) (idx : ℕ → Index) (v : Word) : Prop :=
  ∀ k < p.levels, 1 ≤ k → idx k = walkIndex v k

instance instDecidableAgrees (p : Paging) (idx : ℕ → Index) (v : Word) :
    Decidable (Agrees p idx v) :=
  inferInstanceAs (Decidable (∀ k < p.levels, 1 ≤ k → idx k = walkIndex v k))

/-- What the probe finds for a page that is there or not. -/
def hugeSlot : Option Word → HugeProbe
  | none => .missing
  | some e => .page e

/-- The tables at `root` map 2 MiB pages only: those that `found` gives for the indices. -/
structure HugeMap (p : Paging) (root : Word) (found : (ℕ → Index) → Option Word)
    (height : Word → ℕ) (s : Vm) : Prop where
  tree : TableTree p s.mem root
  layers : Layered height s
  rootHeight : height root = p.levels
  noSmall : ∀ f, height f ≠ 1
  unused : ∀ f, InTables p s.mem root f → f ∉ s.free
  slots : ∀ idx, descend hugeStep s.mem p.levels root idx = some (hugeSlot (found idx))

/-- The entry that `vmm::init` makes for the page at `phys`.
SRCLINE: kernel/mm/vmm.cpp:533, 539 -/
def directEntry (phys : Word) : Word := phys ||| 0x187

/-- The page that one call of `vmm::init` maps, for indices that belong to it. -/
def directSlot (p : Paging) (v phys : Word) (idx : ℕ → Index) : Option Word :=
  if Agrees p idx v then some (directEntry phys) else none

section HugeMap

variable {p : Paging} {root v phys vma : Word} {found : (ℕ → Index) → Option Word}
  {height : Word → ℕ} {s s' : Vm}

/-- INTERNAL: the entry of a page. -/
theorem hugeStep_directEntry (phys : Word) :
    hugeStep (leafLevel 0x187) (pageEntry phys 0x187 (-1)) = .inr (.page (directEntry phys)) := by
  rw [show leafLevel 0x187 = 1 by decide, show pageEntry phys 0x187 (-1) = directEntry phys from rfl]
  have hp : (directEntry phys).getLsbD 0 = true := by
    rw [directEntry, BitVec.getLsbD_or, show (0x187 : Word).getLsbD 0 = true from rfl, Bool.or_true]
  have hh : (directEntry phys).getLsbD 7 = true := by
    rw [directEntry, BitVec.getLsbD_or, show (0x187 : Word).getLsbD 7 = true from rfl, Bool.or_true]
  rcases hugeStep_cases 1 (directEntry phys) with ⟨hzero, -⟩ | ⟨-, -, -, hs⟩ | ⟨-, -, hnot, -⟩ |
    ⟨hne, -⟩
  · rw [hzero] at hp
    exact Bool.noConfusion hp
  · exact hs
  · exact Bool.noConfusion (hnot.symm.trans hh)
  · rw [hugeStep, if_neg hne, if_neg (by simp [hp]), if_pos hh, if_pos rfl]

/-- **One call of `vmm::init`.** A page that is not there yet is mapped, one that is there stays.
SRCLINE: kernel/mm/vmm.cpp:533, 539 -/
theorem HugeMap.mapPage (h : HugeMap p root found height s)
    (hrun : mapPageRaw p s root v phys 0x7 0x187 (-1) = some s') :
    ∃ height', HugeMap p root (fun idx => (found idx).or (directSlot p v phys idx)) height' s' := by
  have hlevels : 2 ≤ p.levels := by cases p <;> simp [Paging.levels]
  cases hfound : found (walkIndex v) with
  | some e =>
    have hpage := h.slots (walkIndex v)
    rw [hfound] at hpage
    rw [mapPageRaw_of_page p hpage] at hrun
    obtain rfl := Option.some.inj hrun
    refine ⟨height, h.tree, h.layers, h.rootHeight, h.noSmall, h.unused, ?_⟩
    intro idx
    rw [h.slots idx]
    cases hidx : found idx with
    | some e' => rfl
    | none =>
      -- indices of the page of `v` find its entry
      have hno : ¬ Agrees p idx v := by
        intro hagree
        have hsame := descend_hugeStep_agree (fun k hk hk' => hagree k hk' hk) hpage
        rw [h.slots idx, hidx] at hsame
        cases hsame
      rw [directSlot, if_neg hno]
      rfl
  | none =>
    have hmissing := h.slots (walkIndex v)
    rw [hfound] at hmissing
    have hready : Ready 1 v s p.levels root :=
      ⟨h.tree, meetsZero_of_hugeStep h.layers h.noSmall h.rootHeight hlevels hmissing,
        h.layers.nodup, h.layers.aligned, h.unused⟩
    have hleaf : leafLevel 0x187 = 1 := by decide
    have hm := mapPageRaw_maps p v follows_hugeStep (show DirectoryFlags 0x7 by decide)
      (show LeafFlags 0x187 by decide) (hugeStep_directEntry phys) s s' root
      (by rw [hleaf]; exact hready) hrun
    rw [hleaf] at hm
    have hlow : 2 ≤ leafLevel 0x187 + 1 := by omega
    obtain ⟨height', hext⟩ := mapPageRaw_extends hlow (by decide) h.layers h.rootHeight hrun
    refine ⟨height', hm.edit.tree, hext.ext.layered, ?_, ?_, ?_, ?_⟩
    · rw [hext.ext.old root (by rw [h.rootHeight]; omega), h.rootHeight]
    · intro f
      rcases hext.ext.fresh f with hold | hnew
      · rw [hold]
        exact h.noSmall f
      · omega
    · intro f hf hfree
      rcases hm.edit.grows f hf with hold | htaken
      · exact h.unused f hold (hm.suffix.subset hfree)
      · exact htaken.2 hfree
    · intro idx
      by_cases hagree : Agrees p idx v
      · rw [hm.hit idx fun k hk hk' => hagree k hk' hk, directSlot, if_pos hagree]
        cases hidx : found idx with
        | none => rfl
        | some e =>
          have hpage := h.slots idx
          rw [hidx] at hpage
          have hsame := descend_hugeStep_agree (fun k hk hk' => (hagree k hk' hk).symm) hpage
          rw [hmissing] at hsame
          cases hsame
      · have hdiff : ∃ k, 1 ≤ k ∧ k < p.levels ∧ idx k ≠ walkIndex v k := by
          by_contra hsame
          push Not at hsame
          exact hagree fun k hk' hk => hsame k hk hk'
        obtain ⟨k, hk, hk', hne⟩ := hdiff
        rw [hm.miss idx k hk hk' hne, h.slots idx, directSlot, if_neg hagree, Option.or_none]

/-- The pages that a loop of `vmm::init` maps. -/
def directSlots (p : Paging) (vma : Word) : ℕ → Word → (ℕ → Index) → Option Word
  | 0, _, _ => none
  | n + 1, phys, idx =>
    (directSlot p (phys + vma) phys idx).or (directSlots p vma n (phys + 0x200000) idx)

/-- **A loop of `vmm::init`.**
SRCLINE: kernel/mm/vmm.cpp:531-541 -/
theorem HugeMap.mapDirect {n : ℕ} (h : HugeMap p root found height s)
    (hrun : Model.mapDirect p root vma n phys s = some s') :
    ∃ height', HugeMap p root (fun idx => (found idx).or (directSlots p vma n phys idx)) height' s' := by
  induction n generalizing found height s phys with
  | zero =>
    obtain rfl := Option.some.inj hrun
    refine ⟨height, ?_⟩
    simp only [directSlots, Option.or_none]
    exact h
  | succ n ih =>
    rw [Model.mapDirect] at hrun
    cases hmap : mapPageRaw p s root (phys + vma) phys 0x7 0x187 (-1) with
    | none =>
      rw [hmap] at hrun
      cases hrun
    | some s₁ =>
      rw [hmap] at hrun
      obtain ⟨height₁, h₁⟩ := h.mapPage hmap
      obtain ⟨height', h'⟩ := ih h₁ hrun
      refine ⟨height', ?_⟩
      simp only [directSlots, ← Option.or_assoc]
      exact h'

/-- The frames the allocator has for `vmm::init`. -/
structure FreshFrames (s : Vm) : Prop where
  nodup : s.free.Nodup
  aligned : ∀ f ∈ s.free, PageAligned 0 f

/-- INTERNAL: the tables when the loops of `vmm::init` start.
SRCLINE: kernel/mm/vmm.cpp:522 -/
theorem HugeMap.empty {s₁ : Vm} (hs : FreshFrames s) (hcalloc : s.calloc = some (root, s₁)) :
    ∃ height, HugeMap p root (fun _ => none) height s₁ := by
  obtain ⟨fs, hfree, rfl⟩ := calloc_eq_some hcalloc
  have hzero : ∀ i, (Function.update s.mem root fun _ => 0) root i = 0 := by simp
  have hnodup := hs.nodup
  rw [hfree, List.nodup_cons] at hnodup
  have hlevels : 2 ≤ p.levels := by cases p <;> simp [Paging.levels]
  refine ⟨Function.update (fun _ => 0) root p.levels, isTree_empty hzero _, ⟨?_, ?_, ?_, hnodup.2⟩,
    by rw [Function.update_self], ?_, ?_, ?_⟩
  · intro t n i c ht hc
    by_cases hroot : t = root
    · subst hroot
      simp only [hzero, tableBelow_zero] at hc
      cases hc
    · rw [Function.update_of_ne hroot] at ht
      cases ht
  · intro f hf
    have hne : f ≠ root := by
      rintro rfl
      exact hnodup.1 hf
    rw [Function.update_of_ne hne]
  · intro f hf
    apply hs.aligned
    rw [hfree]
    exact List.mem_cons_of_mem root hf
  · intro f
    by_cases hroot : f = root
    · subst hroot
      rw [Function.update_self]
      omega
    · rw [Function.update_of_ne hroot]
      omega
  · intro f hf
    rw [inTree_empty hzero hf]
    exact hnodup.1
  · intro idx
    obtain ⟨n, hn⟩ : ∃ n, p.levels = n + 1 := ⟨p.levels - 1, by omega⟩
    rw [hn]
    exact descend_empty follows_hugeStep hzero n idx

/-- INTERNAL: one loop after the other, on empty tables. -/
theorem HugeMap.loops {n₁ n₂ : ℕ} {vma₁ vma₂ : Word} {s₁ s₂ : Vm}
    (h : HugeMap p root (fun _ => none) height s)
    (hfirst : Model.mapDirect p root vma₁ n₁ phys s = some s₁)
    (hsecond : Model.mapDirect p root vma₂ n₂ phys s₁ = some s₂) :
    ∃ height', HugeMap p root
      (fun idx => (directSlots p vma₁ n₁ phys idx).or (directSlots p vma₂ n₂ phys idx))
      height' s₂ := by
  obtain ⟨height₁, h₁⟩ := h.mapDirect hfirst
  simp only [Option.none_or] at h₁
  exact h₁.mapDirect hsecond

/-- The pages that `vmm::init` maps: those of the kernel first, then the direct map.
SRCLINE: kernel/mm/vmm.cpp:531-541 -/
def initSlots (p : Paging) (totalMem : ℕ) (idx : ℕ → Index) : Option Word :=
  (directSlots p kernelHighVma 0x200 0 idx).or (directSlots p highVma (totalMem / 0x200000) 0 idx)

/-- INTERNAL: the steps of `vmm::init`. -/
theorem vmmInit_eq_some {totalMem : ℕ} (hrun : vmmInit p s totalMem = some (s', root)) :
    ∃ s₁ s₂, s.calloc = some (root, s₁) ∧
      Model.mapDirect p root kernelHighVma 0x200 0 s₁ = some s₂ ∧
      Model.mapDirect p root highVma (totalMem / 0x200000) 0 s₂ = some s' := by
  rw [vmmInit] at hrun
  cases hcalloc : s.calloc with
  | none =>
    rw [hcalloc] at hrun
    cases hrun
  | some r =>
    obtain ⟨root₁, s₁⟩ := r
    simp only [hcalloc] at hrun
    cases hkernel : Model.mapDirect p root₁ kernelHighVma 0x200 0 s₁ with
    | none =>
      rw [hkernel] at hrun
      cases hrun
    | some s₂ =>
      simp only [hkernel] at hrun
      cases hdirect : Model.mapDirect p root₁ highVma (totalMem / 0x200000) 0 s₂ with
      | none =>
        rw [hdirect] at hrun
        cases hrun
      | some s₃ =>
        simp only [hdirect, Option.some.injEq, Prod.mk.injEq] at hrun
        obtain ⟨rfl, rfl⟩ := hrun
        exact ⟨s₁, s₂, rfl, hkernel, hdirect⟩

/-- **The tables after `vmm::init`.**
SRCLINE: kernel/mm/vmm.cpp:519-545 -/
theorem vmmInit_hugeMap {totalMem : ℕ} (hs : FreshFrames s)
    (hrun : vmmInit p s totalMem = some (s', root)) :
    ∃ height, HugeMap p root (initSlots p totalMem) height s' := by
  obtain ⟨s₁, s₂, hcalloc, hkernel, hdirect⟩ := vmmInit_eq_some hrun
  obtain ⟨height₁, h₁⟩ := HugeMap.empty (p := p) hs hcalloc
  exact h₁.loops hkernel hdirect

/-- INTERNAL: the addresses of a loop, counted from the next one. -/
theorem add_ofNat_succ_mul (x y : Word) (k : ℕ) :
    x + BitVec.ofNat 64 (k + 1) * y = x + y + BitVec.ofNat 64 k * y := by
  rw [BitVec.ofNat_add, BitVec.add_mul, BitVec.add_comm (BitVec.ofNat 64 k * _), BitVec.one_mul,
    BitVec.add_assoc]

/-- The address of page `k` of a loop of `vmm::init`. -/
def directPhys (phys : Word) (k : ℕ) : Word := phys + BitVec.ofNat 64 k * 0x200000

theorem directPhys_zero (phys : Word) : directPhys phys 0 = phys := by
  simp [directPhys]

theorem directPhys_succ (phys : Word) (k : ℕ) :
    directPhys phys (k + 1) = directPhys (phys + 0x200000) k :=
  add_ofNat_succ_mul phys 0x200000 k

/-- **The first page that the indices belong to is the one that stays.** -/
theorem directSlots_cases (n : ℕ) (phys : Word) (idx : ℕ → Index) :
    (directSlots p vma n phys idx = none ∧ ∀ k < n, ¬ Agrees p idx (directPhys phys k + vma)) ∨
    ∃ k < n, directSlots p vma n phys idx = some (directEntry (directPhys phys k)) ∧
      Agrees p idx (directPhys phys k + vma) ∧ ∀ j < k, ¬ Agrees p idx (directPhys phys j + vma) := by
  induction n generalizing phys with
  | zero => exact Or.inl ⟨rfl, fun k hk => absurd hk (Nat.not_lt_zero k)⟩
  | succ n ih =>
    by_cases hfirst : Agrees p idx (phys + vma)
    · refine Or.inr ⟨0, Nat.succ_pos n, ?_, ?_, fun j hj => absurd hj (Nat.not_lt_zero j)⟩
      · rw [directSlots, directSlot, if_pos hfirst, directPhys_zero]
        rfl
      · rwa [directPhys_zero]
    · have hno : ¬ Agrees p idx (directPhys phys 0 + vma) := by rwa [directPhys_zero]
      rw [directSlots, directSlot, if_neg hfirst, Option.none_or]
      rcases ih (phys + 0x200000) with ⟨hnone, hall⟩ | ⟨k, hk, hsome, hagree, hmin⟩
      · refine Or.inl ⟨hnone, ?_⟩
        intro k hk
        cases k with
        | zero => exact hno
        | succ k =>
          rw [directPhys_succ]
          exact hall k (by omega)
      · refine Or.inr ⟨k + 1, by omega, ?_, ?_, ?_⟩
        · rw [hsome, directPhys_succ]
        · rwa [directPhys_succ]
        · intro j hj
          cases j with
          | zero => exact hno
          | succ j =>
            rw [directPhys_succ]
            exact hmin j (by omega)

/-- INTERNAL: the first page of a loop is there. -/
theorem directSlots_first {n : ℕ} (hn : 0 < n) :
    ∃ e, directSlots p vma n phys (walkIndex (phys + vma)) = some e := by
  cases n with
  | zero => omega
  | succ n =>
    refine ⟨directEntry phys, ?_⟩
    have hagree : Agrees p (walkIndex (phys + vma)) (phys + vma) := fun _ _ _ => rfl
    rw [directSlots, directSlot, if_pos hagree]
    rfl

/-- INTERNAL: on the way to a page the entry of the top table is there. -/
theorem HugeMap.entry_ne_zero {e : Word} (h : HugeMap p root found height s)
    (hv : found (walkIndex v) = some e) : s.mem root (walkIndex v (p.levels - 1)) ≠ 0 := by
  have hpage := h.slots (walkIndex v)
  rw [hv] at hpage
  cases p with
  | pml4 => exact (descend_page_above (n := 3) (by omega) hpage).1
  | pml5 => exact (descend_page_above (n := 4) (by omega) hpage).1

end HugeMap

/-! ## `vmm::init` has a result -/

section Frames

variable {p : Paging}

theorem mapDirect_spends (root vma : Word) (n : ℕ) (phys : Word) :
    Spends (n * (p.levels - 1)) (mapDirect p root vma n phys) := by
  induction n generalizing phys with
  | zero =>
    intro s _
    exact ⟨s, rfl, by omega⟩
  | succ n ih =>
    intro s hs
    rw [Nat.add_mul, Nat.one_mul] at hs ⊢
    obtain ⟨s₁, hs₁, hlen₁⟩ := @mapPageRaw_spends (phys + vma) phys 0x7 0x187 (-1) p root s (by omega)
    obtain ⟨s₂, hs₂, hlen₂⟩ := ih (phys + 0x200000) s₁ (by omega)
    refine ⟨s₂, ?_, by omega⟩
    simp only [mapDirect, hs₁]
    exact hs₂

/-- INTERNAL: the loops of `vmm::init`, with the numbers of their pages left open. -/
theorem loops_spend (root : Word) (n₁ n₂ : ℕ) {s : Vm}
    (hs : (n₁ + n₂) * (p.levels - 1) ≤ s.free.length) :
    ∃ s₁ s₂, mapDirect p root kernelHighVma n₁ 0 s = some s₁ ∧
      mapDirect p root highVma n₂ 0 s₁ = some s₂ ∧
      s.free.length ≤ s₂.free.length + (n₁ + n₂) * (p.levels - 1) := by
  rw [Nat.add_mul] at hs ⊢
  obtain ⟨s₁, hs₁, hlen₁⟩ := mapDirect_spends (p := p) root kernelHighVma n₁ 0 s (by omega)
  obtain ⟨s₂, hs₂, hlen₂⟩ := mapDirect_spends (p := p) root highVma n₂ 0 s₁ (by omega)
  exact ⟨s₁, s₂, hs₁, hs₂, by omega⟩

/-- **`vmm::init` has a result** when the frames suffice for a full set of tables for each page. -/
theorem vmmInit_spends {s : Vm} {totalMem : ℕ}
    (hs : 1 + (0x200 + totalMem / 0x200000) * (p.levels - 1) ≤ s.free.length) :
    ∃ s' root, vmmInit p s totalMem = some (s', root) ∧
      s.free.length ≤ s'.free.length + 1 + (0x200 + totalMem / 0x200000) * (p.levels - 1) := by
  cases hfree : s.free with
  | nil =>
    rw [hfree, List.length_nil] at hs
    omega
  | cons f fs =>
    rw [hfree, List.length_cons] at hs
    obtain ⟨s₁, s₂, hfirst, hsecond, hlen⟩ := loops_spend (p := p) f 0x200 (totalMem / 0x200000)
      (s := ⟨Function.update s.mem f fun _ => 0, fs⟩) (by simp only; omega)
    simp only at hlen
    refine ⟨s₂, f, ?_, by rw [List.length_cons]; omega⟩
    rw [vmmInit]
    simp only [Vm.calloc, hfree, hfirst, hsecond]

/-- `n` frames in a row, from the frame with number `base` on. -/
def frameRow (base n : ℕ) : List Word := (List.range n).map fun i => BitVec.ofNat 64 ((base + i) * 0x1000)

/-- INTERNAL: a frame of the row by its number. -/
theorem mem_frameRow {base n : ℕ} {f : Word} (h : base + n ≤ 2 ^ 40) (hf : f ∈ frameRow base n) :
    ∃ i < n, f.toNat = (base + i) * 0x1000 := by
  obtain ⟨i, hi, rfl⟩ := List.mem_map.mp hf
  have hin := List.mem_range.mp hi
  refine ⟨i, hin, ?_⟩
  rw [BitVec.toNat_ofNat]
  omega

/-- INTERNAL: page addresses below `2 ^ 52`. -/
theorem pageAligned_of_toNat {f : Word} {i : ℕ} (h : f.toNat = i * 0x1000) (hi : i < 2 ^ 40) :
    PageAligned 0 f := by
  refine ⟨by omega, ?_⟩
  apply BitVec.eq_of_toNat_eq
  rw [BitVec.toNat_and, pageMask, BitVec.toNat_ofNat, Nat.mod_eq_of_lt (by omega),
    Nat.and_two_pow_sub_one_eq_mod, h]
  exact Nat.mul_mod_left i 0x1000

theorem freshFrames_frameRow {base n : ℕ} (mem : Word → Index → Word) (h : base + n ≤ 2 ^ 40) :
    FreshFrames ⟨mem, frameRow base n⟩ := by
  refine ⟨?_, ?_⟩
  · apply List.Nodup.map_on _ List.nodup_range
    intro i hi j hj hij
    have hin := List.mem_range.mp hi
    have hjn := List.mem_range.mp hj
    have hnat := congrArg BitVec.toNat hij
    rw [BitVec.toNat_ofNat, BitVec.toNat_ofNat] at hnat
    omega
  · intro f hf
    obtain ⟨i, hi, hnat⟩ := mem_frameRow h hf
    exact pageAligned_of_toNat hnat (by omega)

end Frames

end CrepOS.Analysis
