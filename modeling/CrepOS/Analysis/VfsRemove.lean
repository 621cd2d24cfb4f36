import CrepOS.Interface.VfsNames
import CrepOS.Analysis.VfsLookup

/-!
# Removal in the virtual file system

`remove_cluster` reads the `next` pointer of each node after it has deleted it, and follows it: `next` is the
next node of the whole chain, not of the directory. So the removal of a path deletes everything that was
created after its node (`removeCluster_spec`), and it is correct for no path (`remove_never`).
-/

set_option autoImplicit false

namespace CrepOS.Analysis

open CrepOS.Library CrepOS.Model CrepOS.Interface

/-! ## The parents come first -/

/-- The parent of each node is before it, and the root is its own parent. -/
structure ParentsFirst (nodes : List VfsNode) : Prop where
  nonempty : 0 < nodes.length
  root : (nodeAt nodes 0).parent = 0
  parent_lt : ∀ i, 0 < i → i < nodes.length → (nodeAt nodes i).parent < i

namespace ParentsFirst

theorem parent_le {nodes : List VfsNode} (h : ParentsFirst nodes) {i : ℕ} (hi : i < nodes.length) :
    (nodeAt nodes i).parent ≤ i := by
  by_cases hpos : 0 < i
  · exact Nat.le_of_lt (h.parent_lt i hpos hi)
  · obtain rfl : i = 0 := by omega
    exact Nat.le_of_eq h.root

/-- INTERNAL: a node is created.
SRCLINE: kernel/fs/vfs.cpp:114-154 -/
theorem createNode {nodes : List VfsNode} (h : ParentsFirst nodes) {i : ℕ} (hi : i < nodes.length)
    (name : LibString) : ParentsFirst (createNode nodes i name) := by
  unfold Model.createNode
  refine ⟨by simp, ?_, ?_⟩
  · rw [nodeAt_append_of_lt h.nonempty]
    exact h.root
  · intro k hpos hk
    rw [List.length_append, List.length_singleton] at hk
    by_cases hlt : k < nodes.length
    · rw [nodeAt_append_of_lt hlt]
      exact h.parent_lt k hpos hlt
    · obtain rfl : k = nodes.length := by omega
      rw [nodeAt_append_self]
      exact hi

/-- INTERNAL: the inner loop of the constructor. -/
theorem createRest (rest : List LibString) {nodes : List VfsNode} (h : ParentsFirst nodes) {i : ℕ}
    (hi : i < nodes.length) : ParentsFirst (createRest nodes i rest) := by
  induction rest generalizing nodes i with
  | nil => exact h
  | cons name rest ih =>
    rw [Model.createRest]
    apply ih (h.createNode hi name)
    simp [Model.createNode]

/-- INTERNAL: the outer loop of the constructor. -/
theorem constructComponents (rest : List LibString) {nodes : List VfsNode} (h : ParentsFirst nodes) {i : ℕ}
    (hi : i < nodes.length) : ParentsFirst (constructComponents nodes i rest) := by
  induction rest generalizing i with
  | nil => exact h
  | cons name rest ih =>
    rw [Model.constructComponents]
    split
    · exact h.createRest _ hi
    · rename_i k hk
      exact ih (searchRelative_some hk).2.1

end ParentsFirst

theorem constructAll_parentsFirst (paths : List LibString) : ParentsFirst (constructAll paths) := by
  unfold constructAll
  induction paths using List.reverseRecOn with
  | nil =>
    refine ⟨by simp, rfl, ?_⟩
    intro i hpos hi
    simp at hi
    omega
  | append_singleton paths q ih =>
    rw [List.foldl_append, List.foldl_cons, List.foldl_nil]
    exact ih.constructComponents _ ih.nonempty

/-! ## The removal -/

/-- The `next` pointers are those of a chain of `n` nodes of which some are overwritten; the others are
those of the chain. -/
structure Pointed (n : ℕ) (s : VfsLinks) : Prop where
  next : ∀ i k, s.next i = some k → k = i + 1 ∧ k < n
  last : ∀ i, s.last i = if 0 < i then some (i - 1) else none
  child : ∀ i k, s.child i = some k → i < k ∧ k < n

/-- INTERNAL: the pointers that the creations have set. -/
theorem linksOf_pointed {nodes : List VfsNode} (h : ParentsFirst nodes) :
    Pointed nodes.length (linksOf nodes) := by
  refine ⟨?_, fun i => rfl, ?_⟩
  · intro i k hk
    simp only [linksOf, Option.ite_none_right_eq_some, Option.some.injEq] at hk
    omega
  · intro i k hk
    have hmem := List.mem_of_find?_eq_some hk
    have hparent := List.find?_some hk
    rw [List.mem_reverse, List.mem_range] at hmem
    simp only [decide_eq_true_eq] at hparent
    have hlt := h.parent_lt k hparent.1 hmem
    omega

section Touch

variable {s : VfsLinks} {i k n : ℕ}

@[simp] theorem touch_next : (s.touch i).next = s.next := by unfold VfsLinks.touch; split <;> rfl

@[simp] theorem touch_last : (s.touch i).last = s.last := by unfold VfsLinks.touch; split <;> rfl

@[simp] theorem touch_child : (s.touch i).child = s.child := by unfold VfsLinks.touch; split <;> rfl

@[simp] theorem touch_deleted : (s.touch i).deleted = s.deleted := by unfold VfsLinks.touch; split <;> rfl

theorem mem_stale_touch (h : k ∈ s.stale) : k ∈ (s.touch i).stale := by
  unfold VfsLinks.touch
  split
  · exact List.mem_cons_of_mem i h
  · exact h

theorem mem_stale_touch_self (h : i ∈ s.deleted) : i ∈ (s.touch i).stale := by
  unfold VfsLinks.touch
  rw [if_pos h]
  exact List.mem_cons_self

/-- INTERNAL: one round of the loop, without the call for the children.
SRCLINE: kernel/fs/vfs.cpp:175-177 -/
def dropNode (s : VfsLinks) (cur last : ℕ) : VfsLinks :=
  (((s.touch cur).cut last).delete cur).touch cur

theorem dropNode_next (cur last : ℕ) :
    (dropNode s cur last).next = Function.update s.next last none := by
  simp [dropNode, VfsLinks.cut, VfsLinks.delete]

theorem Pointed.touch (h : Pointed n s) : Pointed n (s.touch i) := by
  refine ⟨?_, ?_, ?_⟩ <;> simp only [touch_next, touch_last, touch_child]
  · exact h.next
  · exact h.last
  · exact h.child

theorem Pointed.dropNode (h : Pointed n s) (cur last : ℕ) : Pointed n (dropNode s cur last) := by
  refine ⟨?_, ?_, ?_⟩
  · intro j k hk
    rw [dropNode_next] at hk
    by_cases hj : j = last
    · rw [hj, Function.update_self] at hk
      cases hk
    · rw [Function.update_of_ne hj] at hk
      exact h.next j k hk
  · intro j
    simp only [Analysis.dropNode, VfsLinks.cut, VfsLinks.delete, touch_last]
    exact h.last j
  · intro j k hk
    simp only [Analysis.dropNode, VfsLinks.cut, VfsLinks.delete, touch_child] at hk
    exact h.child j k hk

end Touch

/-- INTERNAL: the rest of a round, after the call for the children.
SRCLINE: kernel/fs/vfs.cpp:175-177 -/
def removeRest (fuel cur : ℕ) (s : VfsLinks) : Option VfsLinks :=
  (s.last cur).bind fun last =>
    ((dropNode s cur last).next cur).elim (some (dropNode s cur last)) fun next =>
      removeCluster fuel next (dropNode s cur last)

theorem removeCluster_leaf {fuel cur : ℕ} {s : VfsLinks} (h : s.child cur = none) :
    removeCluster (fuel + 1) cur s = removeRest fuel cur (s.touch cur) := by
  rw [removeCluster]
  simp only [h]
  unfold removeRest dropNode
  cases (s.touch cur).last cur with
  | none => rfl
  | some last =>
    simp only [Option.bind_some]
    split <;> rename_i hnext <;> rw [hnext] <;> rfl

theorem removeCluster_node {fuel cur child : ℕ} {s : VfsLinks} (h : s.child cur = some child) :
    removeCluster (fuel + 1) cur s =
      (removeCluster fuel child (s.touch cur)).bind (removeRest fuel cur) := by
  rw [removeCluster]
  simp only [h]
  cases removeCluster fuel child (s.touch cur) with
  | none => rfl
  | some s₁ =>
    simp only [Option.bind_some]
    unfold removeRest dropNode
    cases s₁.last cur with
    | none => rfl
    | some last =>
      simp only [Option.bind_some]
      split <;> rename_i hnext <;> rw [hnext] <;> rfl

/-- What a removal of `cur` leaves: the `last` pointers are kept, and `cur` has been accessed after it was
deleted. -/
structure Leaves (cur : ℕ) (s s' : VfsLinks) : Prop where
  last : s'.last = s.last
  stale : cur ∈ s'.stale
  kept : ∀ i ∈ s.stale, i ∈ s'.stale

/-- INTERNAL: one round. -/
theorem dropNode_leaves (s : VfsLinks) (cur last : ℕ) : Leaves cur s (dropNode s cur last) := by
  refine ⟨?_, mem_stale_touch_self List.mem_cons_self, ?_⟩
  · simp [dropNode, VfsLinks.cut, VfsLinks.delete]
  · intro i hi
    have hcut : i ∈ ((s.touch cur).cut last).stale := mem_stale_touch (mem_stale_touch hi)
    exact mem_stale_touch hcut

/-- INTERNAL: the rest of a round, when the later rounds are known. -/
theorem removeRest_leaves {fuel cur : ℕ} {s s' : VfsLinks}
    (ih : ∀ {cur : ℕ} {s s' : VfsLinks}, removeCluster fuel cur s = some s' → Leaves cur s s')
    (h : removeRest fuel cur s = some s') : Leaves cur s s' := by
  unfold removeRest at h
  obtain ⟨last, -, hround⟩ := Option.bind_eq_some_iff.mp h
  have hdrop := dropNode_leaves s cur last
  cases hnext : (dropNode s cur last).next cur with
  | none =>
    rw [hnext, Option.elim_none, Option.some.injEq] at hround
    rwa [← hround]
  | some next =>
    rw [hnext, Option.elim_some] at hround
    have hrest := ih hround
    exact ⟨hrest.last.trans hdrop.last, hrest.kept _ hdrop.stale, fun i hi => hrest.kept i (hdrop.kept i hi)⟩

/-- INTERNAL: with any fuel. The induction is on the fuel.
SRCLINE: kernel/fs/vfs.cpp:170-179 -/
theorem removeCluster_leaves {fuel cur : ℕ} {s s' : VfsLinks} (h : removeCluster fuel cur s = some s') :
    Leaves cur s s' := by
  induction fuel generalizing cur s s' with
  | zero => cases h
  | succ fuel ih =>
    cases hchild : s.child cur with
    | none =>
      rw [removeCluster_leaf hchild] at h
      have hrest := removeRest_leaves ih h
      exact ⟨hrest.last.trans touch_last, hrest.stale, fun i hi => hrest.kept i (mem_stale_touch hi)⟩
    | some child =>
      rw [removeCluster_node hchild] at h
      obtain ⟨s₁, hs₁, h⟩ := Option.bind_eq_some_iff.mp h
      have hbelow := ih hs₁
      have hrest := removeRest_leaves ih h
      exact ⟨hrest.last.trans (hbelow.last.trans touch_last), hrest.stale,
        fun i hi => hrest.kept i (hbelow.kept i (mem_stale_touch hi))⟩

/-- The removal of the root writes through a null pointer.
SRCLINE: kernel/fs/vfs.cpp:175 -/
theorem removeCluster_root {fuel : ℕ} {s : VfsLinks} (hs : s.last 0 = none) :
    removeCluster fuel 0 s = none := by
  cases fuel with
  | zero => rfl
  | succ fuel =>
    cases hchild : s.child 0 with
    | none => rw [removeCluster_leaf hchild, removeRest, touch_last, hs, Option.bind_none]
    | some child =>
      rw [removeCluster_node hchild, Option.bind_eq_none_iff]
      intro s₁ hbelow
      have hlast := (removeCluster_leaves hbelow).last
      rw [removeRest, hlast, touch_last, hs, Option.bind_none]

/-- What the removal of the nodes from `cur` on does to the chain: it ends before `cur`. -/
structure CutFrom (n cur : ℕ) (s s' : VfsLinks) : Prop where
  pointed : Pointed n s'
  ends : s'.next (cur - 1) = none
  before : ∀ i, i + 1 < cur → s'.next i = s.next i

/-- INTERNAL: the rest of a round, when the later rounds are known. -/
theorem removeRest_spec {n fuel cur : ℕ} {s : VfsLinks} (hs : Pointed n s) (hpos : 0 < cur)
    (ih : ∀ next s, Pointed n s → 0 < next → next < n → n ≤ fuel + next →
      ∃ s', removeCluster fuel next s = some s' ∧ CutFrom n next s s') (hfuel : n ≤ fuel + cur + 1) :
    ∃ s', removeRest fuel cur s = some s' ∧ CutFrom n cur s s' := by
  have hpointed := hs.dropNode cur (cur - 1)
  have hbefore : ∀ i, i + 1 < cur → (dropNode s cur (cur - 1)).next i = s.next i := by
    intro i hi
    rw [dropNode_next, Function.update_of_ne (by omega)]
  have hends : (dropNode s cur (cur - 1)).next (cur - 1) = none := by
    rw [dropNode_next, Function.update_self]
  rw [removeRest, hs.last, if_pos hpos, Option.bind_some]
  cases hnext : (dropNode s cur (cur - 1)).next cur with
  | none => exact ⟨_, rfl, hpointed, hends, hbefore⟩
  | some next =>
    obtain ⟨rfl, hlt⟩ := hpointed.next _ _ hnext
    obtain ⟨s', hs', hcut⟩ := ih (cur + 1) _ hpointed (by omega) hlt (by omega)
    refine ⟨s', hs', hcut.pointed, ?_, ?_⟩
    · rw [hcut.before (cur - 1) (by omega)]
      exact hends
    · intro i hi
      rw [hcut.before i (by omega)]
      exact hbefore i hi

/-- **The removal cuts the chain**: with as much fuel as there are nodes from `cur` on it returns, and the
chain ends before `cur`. The induction is on the fuel; both calls are for later nodes.
SRCLINE: kernel/fs/vfs.cpp:170-179 -/
theorem removeCluster_spec {n : ℕ} (fuel cur : ℕ) (s : VfsLinks) (hs : Pointed n s) (hpos : 0 < cur)
    (hcur : cur < n) (hfuel : n ≤ fuel + cur) :
    ∃ s', removeCluster fuel cur s = some s' ∧ CutFrom n cur s s' := by
  induction fuel generalizing cur s with
  | zero => omega
  | succ fuel ih =>
    cases hchild : s.child cur with
    | none =>
      obtain ⟨s', hs', hcut⟩ := removeRest_spec hs.touch hpos ih (by omega)
      refine ⟨s', (removeCluster_leaf hchild).trans hs', hcut.pointed, hcut.ends, ?_⟩
      intro i hi
      rw [hcut.before i hi, touch_next]
    | some child =>
      obtain ⟨hlt, hchildlt⟩ := hs.child _ _ hchild
      obtain ⟨s₁, hs₁, hbelow⟩ := ih child (s.touch cur) hs.touch (by omega) hchildlt (by omega)
      obtain ⟨s', hs', hcut⟩ := removeRest_spec hbelow.pointed hpos ih (by omega)
      refine ⟨s', ?_, hcut.pointed, hcut.ends, ?_⟩
      · rw [removeCluster_node hchild, hs₁, Option.bind_some]
        exact hs'
      · intro i hi
        rw [hcut.before i hi, hbelow.before i (by omega), touch_next]

/-! ## Lookups along the pointers -/

/-- The chain consists of the nodes before `j`. -/
def EndsAt (s : VfsLinks) (j : ℕ) : Prop := ∀ i < j, s.next i = if i + 1 < j then some (i + 1) else none

section Lookup

variable {nodes : List VfsNode} {s : VfsLinks} {j : ℕ}

theorem nodeAt_take {i : ℕ} (hi : i < j) : nodeAt (nodes.take j) i = nodeAt nodes i := by
  rw [nodeAt, List.getElem?_take_of_lt hi, nodeAt]

/-- INTERNAL: the loop of `search_relative` along the pointers.
SRCLINE: kernel/fs/vfs.cpp:65-70 -/
theorem searchLinked_eq (hs : EndsAt s j) (hj : j ≤ nodes.length) (name : LibString) (fuel i : ℕ)
    (hi : i ≤ j) (hfuel : j < fuel + i) :
    searchLinked nodes s name fuel (if i < j then some i else none) =
      searchChain name i ((nodes.take j).drop i) := by
  induction fuel generalizing i with
  | zero => omega
  | succ fuel ih =>
    by_cases hlt : i < j
    · have hlen : i < (nodes.take j).length := by
        rw [List.length_take]
        omega
      have hget : (nodes.take j)[i] = nodeAt nodes i := by
        rw [← nodeAt_take hlt, nodeAt, List.getElem?_eq_getElem hlen, Option.getD_some]
      rw [if_pos hlt, searchLinked, List.drop_eq_getElem_cons hlen, searchChain, hget, hs i hlt,
        ih (i + 1) (by omega) (by omega)]
    · rw [if_neg hlt, searchLinked, List.drop_eq_nil_of_le (by rw [List.length_take]; omega), searchChain]

/-- INTERNAL: the loop of `search_absolute` along the pointers.
SRCLINE: kernel/fs/vfs.cpp:102-109 -/
theorem lookupComponents_eq (hnodes : ParentsFirst nodes) (hs : EndsAt s j) (hj : j ≤ nodes.length)
    (rest : List LibString) {i : ℕ} (hi : i < j) :
    lookupComponents nodes s i rest = searchComponents (nodes.take j) i rest := by
  induction rest generalizing i with
  | nil => rfl
  | cons name rest ih =>
    have hparent := hnodes.parent_le (show i < nodes.length by omega)
    have hsearch : searchLinked nodes s name (nodes.length + 1) (s.next (nodeAt nodes i).parent) =
        searchRelative (nodes.take j) i name := by
      rw [searchRelative, nodeAt_take hi, hs _ (by omega)]
      exact searchLinked_eq hs hj name _ _ (by omega) (by omega)
    rw [lookupComponents, searchComponents, hsearch]
    cases hfound : searchRelative (nodes.take j) i name with
    | none => rfl
    | some k =>
      have hk := (searchRelative_some hfound).2.1
      rw [List.length_take] at hk
      exact ih (by omega)

/-- A lookup finds what it finds when there are only the nodes before `j`. -/
theorem lookupLinked_eq (hnodes : ParentsFirst nodes) (hs : EndsAt s j) (hpos : 0 < j) (hj : j ≤ nodes.length)
    (path : LibString) : lookupLinked nodes s path = searchAbsolute (nodes.take j) path := by
  unfold lookupLinked searchAbsolute
  rw [lookupComponents_eq hnodes hs hj _ hpos]

theorem linksOf_endsAt (nodes : List VfsNode) : EndsAt (linksOf nodes) nodes.length := fun _ _ => rfl

/-- **Before a removal**, a lookup along the pointers is the lookup in the list. -/
theorem lookupLinked_linksOf (hnodes : ParentsFirst nodes) (path : LibString) :
    lookupLinked nodes (linksOf nodes) path = searchAbsolute nodes path := by
  rw [lookupLinked_eq hnodes (linksOf_endsAt nodes) hnodes.nonempty (Nat.le_refl _), List.take_length]

/-- INTERNAL: after the chain is cut. -/
theorem CutFrom.endsAt (h : CutFrom nodes.length j (linksOf nodes) s) (hj : j < nodes.length) :
    EndsAt s j := by
  intro i hi
  by_cases hlt : i + 1 < j
  · rw [if_pos hlt, h.before i hlt]
    exact if_pos (by omega)
  · obtain rfl : i = j - 1 := by omega
    rw [if_neg hlt]
    exact h.ends

/-- INTERNAL: a lookup finds a node of the chain. -/
theorem searchComponents_lt (rest : List LibString) {i : ℕ} (hi : i < nodes.length)
    (h : searchComponents nodes i rest = some j) : j < nodes.length := by
  induction rest generalizing i with
  | nil =>
    rw [searchComponents, Option.some.injEq] at h
    omega
  | cons name rest ih =>
    rw [searchComponents] at h
    split at h
    · cases h
    · rename_i k hk
      exact ih (searchRelative_some hk).2.1 h

end Lookup

/-- INTERNAL: a node that is removed has been accessed after it was deleted. -/
theorem not_removeCorrect {nodes : List VfsNode} {p : LibString} {j : ℕ}
    (hj : searchAbsolute nodes p = some j) : ¬ RemoveCorrect nodes p := by
  rintro ⟨fuel, s, hremove, -, -, hstale⟩
  simp only [removePath, hj] at hremove
  have hread := (removeCluster_leaves hremove).stale
  rw [hstale] at hread
  cases hread

/-- **A removal is never correct**: of no existing path. It reads a deleted node and cuts the chain there, so
that every node that was created later is lost; and a path that leads to the root is an access through a null
pointer.
SRCLINE: kernel/fs/vfs.cpp:162-179 -/
theorem remove_never (paths : List LibString) (p : LibString) (j : ℕ) (hp : p ≠ [slash])
    (hj : searchAbsolute (constructAll paths) p = some j) :
    ¬ RemoveCorrect (constructAll paths) p ∧ (j ≠ 0 → CutsAt (constructAll paths) p j) ∧
      (j = 0 → ∀ fuel, removePath fuel (constructAll paths) p = none) := by
  have hnodes := constructAll_parentsFirst paths
  refine ⟨not_removeCorrect hj, ?_, ?_⟩
  · intro hne
    have hlt : j < (constructAll paths).length := by
      rw [searchAbsolute, if_neg hp] at hj
      exact searchComponents_lt _ hnodes.nonempty hj
    obtain ⟨s, hs, hcut⟩ := removeCluster_spec (constructAll paths).length j (linksOf (constructAll paths))
      (linksOf_pointed hnodes) (by omega) hlt (by omega)
    refine ⟨s, ?_, (removeCluster_leaves hs).stale, ?_⟩
    · simp only [removePath, hj]
      exact hs
    · exact lookupLinked_eq hnodes (hcut.endsAt hlt) (by omega) (Nat.le_of_lt hlt)
  · rintro rfl fuel
    simp only [removePath, hj]
    exact removeCluster_root rfl

/-- `/a` is removed, with `/b` behind it. -/
theorem remove_never_siblings :
    ¬ RemoveCorrect (constructAll [[47, 97], [47, 98]]) [47, 97] ∧
      (1 ≠ 0 → CutsAt (constructAll [[47, 97], [47, 98]]) [47, 97] 1) ∧
      (1 = 0 → ∀ fuel, removePath fuel (constructAll [[47, 97], [47, 98]]) [47, 97] = none) :=
  remove_never [[47, 97], [47, 98]] [47, 97] 1 (by decide) (by decide)

/-- The removal of `/a` deletes `/b`, which is not found afterwards. -/
theorem remove_loses_sibling :
    (∃ s, removePath 3 (constructAll [[47, 97], [47, 98]]) [47, 97] = some s ∧ s.deleted = [2, 1] ∧
      s.stale ≠ [] ∧ lookupLinked (constructAll [[47, 97], [47, 98]]) s [47, 98] = none) ∧
    searchAbsolute (constructAll [[47, 97], [47, 98]]) [47, 98] = some 2 ∧
    ¬ AtOrBelow (constructAll [[47, 97], [47, 98]]) [47, 97] 2 ∧
    ¬ RemoveCorrect (constructAll [[47, 97], [47, 98]]) [47, 97] := by
  refine ⟨⟨_, rfl, by decide, by decide, by decide⟩, by decide, ?_, ?_⟩
  · rintro (heq | hbelow)
    · exact absurd heq (by decide)
    · exact absurd hbelow (by decide)
  · exact not_removeCorrect (show searchAbsolute _ _ = some 1 by decide)

end CrepOS.Analysis
