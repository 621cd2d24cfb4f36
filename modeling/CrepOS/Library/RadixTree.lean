import Mathlib.Logic.Function.Basic
import Mathlib.Tactic.Common

/-!
# Radix trees in a memory of nodes

A node is an array of entries, one for each index. Nodes have levels: an entry of a node of level
`n + 1` may point to a node of level `n`, and `child n e` says to which one. A level-`1` node has no
children. Nothing makes such a graph a tree: two entries may point to the same node, and a node may
be below itself. `IsTree` says that neither happens, so that a write below one entry is invisible
through every other; it also carries a condition `good` on the entries.

A lookup takes an index for each level and follows entries down until one tells it to stop
(`descend`); `trail` lists the entries that it reads. `Edit` is what an operation on a tree may do:
write to its nodes and to fresh ones and leave a tree. `Graft` is the elementary edit, one entry
replaced; `Edit.below` lifts an edit of one child to the node above it. `Graft.descend_other` and
`Edit.descend_other` say which lookups cannot see them.
-/

set_option autoImplicit false

namespace CrepOS.Library

variable {F I E R : Type}

/-- The nodes of the tree of height `n` at `t`. -/
def InTree (child : ℕ → E → Option F) (mem : F → I → E) : ℕ → F → F → Prop
  | 0, _, _ => False
  | n + 1, t, f => f = t ∨ ∃ i c, child n (mem t i) = some c ∧ InTree child mem n c f

/-- The nodes below `t` form a tree of height `n` with good entries: no node is below itself, and
the trees below different entries of a node share no node. -/
def IsTree (child : ℕ → E → Option F) (good : ℕ → E → Prop) (mem : F → I → E) : ℕ → F → Prop
  | 0, _ => True
  | n + 1, t =>
    (∀ i, good n (mem t i)) ∧
    (∀ i c, child n (mem t i) = some c → IsTree child good mem n c ∧ ¬ InTree child mem n c t) ∧
    ∀ i j c d, i ≠ j → child n (mem t i) = some c → child n (mem t j) = some d →
      ∀ f, InTree child mem n c f → ¬ InTree child mem n d f

/-- Follow the indices `idx` down from `t`; `step` says whether an entry of level `n` ends the lookup
with a result or leads to another node. -/
def descend (step : ℕ → E → F ⊕ R) (mem : F → I → E) : ℕ → F → (ℕ → I) → Option R
  | 0, _, _ => none
  | n + 1, t, idx =>
    match step n (mem t (idx n)) with
    | .inl c => descend step mem n c idx
    | .inr r => some r

/-- The entries that a lookup along the indices `idx` reads, from `t` on. -/
def trail (step : ℕ → E → F ⊕ R) (mem : F → I → E) : ℕ → F → (ℕ → I) → List E
  | 0, _, _ => []
  | n + 1, t, idx =>
    mem t (idx n) ::
      match step n (mem t (idx n)) with
      | .inl c => trail step mem n c idx
      | .inr _ => []

section Congr

variable {child : ℕ → E → Option F} {good : ℕ → E → Prop} {mem mem' : F → I → E}

theorem inTree_root (n : ℕ) (t : F) : InTree child mem (n + 1) t t := Or.inl rfl

theorem inTree_child {n : ℕ} {t c f : F} {i : I} (hc : child n (mem t i) = some c)
    (hf : InTree child mem n c f) : InTree child mem (n + 1) t f :=
  Or.inr ⟨i, c, hc, hf⟩

/-- The nodes of a tree are determined by the contents of the nodes of the tree. -/
theorem inTree_congr {n : ℕ} {t : F} (h : ∀ f, InTree child mem n t f → mem' f = mem f) (f : F) :
    InTree child mem' n t f ↔ InTree child mem n t f := by
  induction n generalizing t with
  | zero => exact Iff.rfl
  | succ n ih =>
    have ht : mem' t = mem t := h t (inTree_root n t)
    simp only [InTree, ht]
    apply or_congr Iff.rfl
    apply exists_congr
    intro i
    apply exists_congr
    intro c
    apply and_congr_right
    intro hc
    exact ih fun g hg => h g (inTree_child hc hg)

/-- Being a tree is determined by the contents of the nodes of the tree. -/
theorem isTree_congr {n : ℕ} {t : F} (h : ∀ f, InTree child mem n t f → mem' f = mem f)
    (ht : IsTree child good mem n t) : IsTree child good mem' n t := by
  induction n generalizing t with
  | zero => trivial
  | succ n ih =>
    obtain ⟨hgood, hchild, hapart⟩ := ht
    have hroot : mem' t = mem t := h t (inTree_root n t)
    have hbelow : ∀ i c, child n (mem t i) = some c →
        ∀ f, InTree child mem' n c f ↔ InTree child mem n c f := by
      intro i c hc f
      exact inTree_congr (fun g hg => h g (inTree_child hc hg)) f
    refine ⟨?_, ?_, ?_⟩
    · intro i
      rw [hroot]
      exact hgood i
    · intro i c hc
      rw [hroot] at hc
      refine ⟨ih (fun g hg => h g (inTree_child hc hg)) (hchild i c hc).1, ?_⟩
      rw [hbelow i c hc]
      exact (hchild i c hc).2
    · intro i j c d hij hc hd f hf
      rw [hroot] at hc hd
      rw [hbelow i c hc] at hf
      rw [hbelow j d hd]
      exact hapart i j c d hij hc hd f hf

/-- A lookup that follows only children reads only nodes of the tree. -/
theorem descend_congr {step : ℕ → E → F ⊕ R} {n : ℕ} {t : F} {idx : ℕ → I}
    (hstep : ∀ n e c, good n e → step n e = .inl c → child n e = some c)
    (ht : IsTree child good mem n t) (h : ∀ f, InTree child mem n t f → mem' f = mem f) :
    descend step mem' n t idx = descend step mem n t idx := by
  induction n generalizing t with
  | zero => rfl
  | succ n ih =>
    have hroot : mem' t = mem t := h t (inTree_root n t)
    rw [descend, descend, hroot]
    cases hs : step n (mem t (idx n)) with
    | inr r => rfl
    | inl c =>
      have hc := hstep n _ c (ht.1 (idx n)) hs
      exact ih (ht.2.1 _ c hc).1 fun f hf => h f (inTree_child hc hf)

/-- The nodes below a node with one child. -/
theorem inTree_of_single {n : ℕ} {t c f : F} {i : I} (hc : child n (mem t i) = some c)
    (hnone : ∀ j, j ≠ i → child n (mem t j) = none) :
    InTree child mem (n + 1) t f ↔ f = t ∨ InTree child mem n c f := by
  rw [InTree]
  refine or_congr Iff.rfl ⟨?_, fun hf => ⟨i, c, hc, hf⟩⟩
  rintro ⟨j, d, hd, hf⟩
  by_cases hj : j = i
  · rw [hj, hc] at hd
    rwa [Option.some.inj hd]
  · cases (hnone j hj).symm.trans hd

/-- A node with one child, which is the root of a tree. -/
theorem isTree_of_single {n : ℕ} {t c : F} {i : I} (hgood : ∀ j, good n (mem t j))
    (hc : child n (mem t i) = some c) (hnone : ∀ j, j ≠ i → child n (mem t j) = none)
    (hsub : IsTree child good mem n c) (hout : ¬ InTree child mem n c t) :
    IsTree child good mem (n + 1) t := by
  have honly : ∀ j d, child n (mem t j) = some d → j = i ∧ c = d := by
    intro j d hd
    by_cases hj : j = i
    · rw [hj, hc] at hd
      exact ⟨hj, Option.some.inj hd⟩
    · cases (hnone j hj).symm.trans hd
  refine ⟨hgood, ?_, ?_⟩
  · intro j d hd
    obtain ⟨-, rfl⟩ := honly j d hd
    exact ⟨hsub, hout⟩
  · intro j k d e hjk hd he
    exact absurd ((honly j d hd).1.trans (honly k e he).1.symm) hjk

/-- **A node whose entries are some of those of a tree** is the root of a tree that shares nodes with
it. -/
theorem isTree_of_row {n : ℕ} {t f : F} (ht : IsTree child good mem (n + 1) t) (hf : ¬ InTree child mem (n + 1) t f)
    (hmem : ∀ g, InTree child mem (n + 1) t g → mem' g = mem g)
    (hrow : ∀ i, mem' f i = mem t i ∨ good n (mem' f i) ∧ child n (mem' f i) = none) :
    IsTree child good mem' (n + 1) f := by
  obtain ⟨hgood, hchild, hapart⟩ := ht
  -- an entry with a child is one of `t`
  have hentry : ∀ i c, child n (mem' f i) = some c → child n (mem t i) = some c := by
    intro i c hc
    rcases hrow i with hsame | ⟨-, hnone⟩
    · rwa [hsame] at hc
    · cases hnone.symm.trans hc
  have hbelow : ∀ i c, child n (mem t i) = some c → ∀ g, InTree child mem n c g → mem' g = mem g :=
    fun i c hc g hg => hmem g (inTree_child hc hg)
  refine ⟨?_, ?_, ?_⟩
  · intro i
    rcases hrow i with hsame | ⟨hg, -⟩
    · rw [hsame]
      exact hgood i
    · exact hg
  · intro i c hc
    have hct := hentry i c hc
    refine ⟨isTree_congr (hbelow i c hct) (hchild i c hct).1, ?_⟩
    rw [inTree_congr (hbelow i c hct)]
    exact fun hin => hf (inTree_child hct hin)
  · intro i j c d hij hc hd g hg
    have hct := hentry i c hc
    have hdt := hentry j d hd
    rw [inTree_congr (hbelow i c hct)] at hg
    rw [inTree_congr (hbelow j d hdt)]
    exact hapart i j c d hij hct hdt g hg

end Congr

/-- What an operation on the tree at `t` may do: it writes only to nodes of the tree and to fresh
nodes, leaves a tree, and adds only fresh nodes to it. -/
structure Edit (child : ℕ → E → Option F) (good : ℕ → E → Prop) (fresh : F → Prop)
    (mem mem' : F → I → E) (n : ℕ) (t : F) : Prop where
  outside : ∀ f, ¬ InTree child mem n t f → ¬ fresh f → mem' f = mem f
  tree : IsTree child good mem' n t
  grows : ∀ f, InTree child mem' n t f → InTree child mem n t f ∨ fresh f

section Edit

variable {child : ℕ → E → Option F} {good : ℕ → E → Prop} {fresh : F → Prop}
  {mem mem' : F → I → E} {n : ℕ} {t c : F} {i : I}

/-- An edit below one entry of a node leaves the node and the trees below its other entries as they
were. -/
theorem Edit.siblings (h : Edit child good fresh mem mem' n c) (ht : IsTree child good mem (n + 1) t)
    (hc : child n (mem t i) = some c) (hfresh : ∀ f, InTree child mem (n + 1) t f → ¬ fresh f) :
    mem' t = mem t ∧ ∀ j d, j ≠ i → child n (mem t j) = some d →
      ∀ f, InTree child mem n d f → mem' f = mem f := by
  refine ⟨h.outside t (ht.2.1 i c hc).2 (hfresh t (inTree_root n t)), ?_⟩
  intro j d hj hd f hf
  apply h.outside f
  · intro hcf
    exact ht.2.2 j i d c hj hd hc f hf hcf
  · exact hfresh f (inTree_child hd hf)

/-- **An edit below one entry is an edit of the whole tree.** -/
theorem Edit.below (h : Edit child good fresh mem mem' n c) (ht : IsTree child good mem (n + 1) t)
    (hc : child n (mem t i) = some c) (hfresh : ∀ f, InTree child mem (n + 1) t f → ¬ fresh f) :
    Edit child good fresh mem mem' (n + 1) t := by
  obtain ⟨hroot, hsib⟩ := h.siblings ht hc hfresh
  have hother : ∀ j d, j ≠ i → child n (mem t j) = some d →
      ∀ f, InTree child mem' n d f ↔ InTree child mem n d f := by
    intro j d hj hd f
    exact inTree_congr (hsib j d hj hd) f
  refine ⟨?_, ⟨?_, ?_, ?_⟩, ?_⟩
  · intro f hf hfr
    apply h.outside f _ hfr
    intro hcf
    exact hf (inTree_child hc hcf)
  · intro j
    rw [hroot]
    exact ht.1 j
  · intro j d hd
    rw [hroot] at hd
    by_cases hj : j = i
    · subst hj
      obtain rfl : c = d := by rw [hc] at hd; exact Option.some.inj hd
      refine ⟨h.tree, ?_⟩
      intro hct
      rcases h.grows t hct with hct | hct
      · exact (ht.2.1 j c hc).2 hct
      · exact hfresh t (inTree_root n t) hct
    · refine ⟨isTree_congr (hsib j d hj hd) (ht.2.1 j d hd).1, ?_⟩
      rw [hother j d hj hd]
      exact (ht.2.1 j d hd).2
  · -- a node below two entries would have been below both before, or fresh and in the old tree
    have key : ∀ j d, j ≠ i → child n (mem t j) = some d →
        ∀ f, InTree child mem' n c f → ¬ InTree child mem' n d f := by
      intro j d hj hd f hcf hdf
      rw [hother j d hj hd] at hdf
      rcases h.grows f hcf with hcf | hcf
      · exact ht.2.2 i j c d (Ne.symm hj) hc hd f hcf hdf
      · exact hfresh f (inTree_child hd hdf) hcf
    intro j k d e hjk hd he f hdf hef
    rw [hroot] at hd he
    by_cases hj : j = i
    · subst hj
      obtain rfl : c = d := by rw [hc] at hd; exact Option.some.inj hd
      exact key k e (Ne.symm hjk) he f hdf hef
    · by_cases hk : k = i
      · subst hk
        obtain rfl : c = e := by rw [hc] at he; exact Option.some.inj he
        exact key j d hj hd f hef hdf
      · rw [hother j d hj hd] at hdf
        rw [hother k e hk he] at hef
        exact ht.2.2 j k d e hjk hd he f hdf hef
  · intro f hf
    rcases hf with rfl | ⟨j, d, hd, hdf⟩
    · exact Or.inl (inTree_root n f)
    · rw [hroot] at hd
      by_cases hj : j = i
      · subst hj
        obtain rfl : c = d := by rw [hc] at hd; exact Option.some.inj hd
        exact (h.grows f hdf).imp_left (inTree_child hc)
      · rw [hother j d hj hd] at hdf
        exact Or.inl (inTree_child hd hdf)

/-- A lookup that leaves the node through another entry does not see an edit below one. -/
theorem Edit.descend_other {step : ℕ → E → F ⊕ R} (h : Edit child good fresh mem mem' n c)
    (hstep : ∀ n e c, good n e → step n e = .inl c → child n e = some c)
    (ht : IsTree child good mem (n + 1) t) (hc : child n (mem t i) = some c)
    (hfresh : ∀ f, InTree child mem (n + 1) t f → ¬ fresh f) {idx : ℕ → I} (hidx : idx n ≠ i) :
    descend step mem' (n + 1) t idx = descend step mem (n + 1) t idx := by
  obtain ⟨hroot, hsib⟩ := h.siblings ht hc hfresh
  rw [descend, descend, hroot]
  cases hs : step n (mem t (idx n)) with
  | inr r => rfl
  | inl d =>
    have hd := hstep n _ d (ht.1 (idx n)) hs
    exact descend_congr hstep (ht.2.1 _ d hd).1 (hsib _ d hidx hd)

/-- One edit after another. -/
theorem Edit.trans {fresh' : F → Prop} {mem₂ : F → I → E}
    (h : Edit child good fresh mem mem' n t) (h' : Edit child good fresh' mem' mem₂ n t)
    (hle : ∀ f, fresh' f → fresh f) : Edit child good fresh mem mem₂ n t := by
  refine ⟨?_, h'.tree, ?_⟩
  · intro f hf hfr
    have hf' : ¬ InTree child mem' n t f := fun hin => (h.grows f hin).elim hf hfr
    rw [h'.outside f hf' fun hin => hfr (hle f hin), h.outside f hf hfr]
  · intro f hf
    rcases h'.grows f hf with hin | hin
    · exact h.grows f hin
    · exact Or.inr (hle f hin)

theorem Edit.mono {fresh' : F → Prop} (h : Edit child good fresh mem mem' n t)
    (hle : ∀ f, fresh f → fresh' f) : Edit child good fresh' mem mem' n t := by
  refine ⟨?_, h.tree, ?_⟩
  · intro f hf hfr
    exact h.outside f hf fun hin => hfr (hle f hin)
  · intro f hf
    exact (h.grows f hf).imp_right (hle f)

end Edit

/-- `mem'` is `mem` with the entry `i` of the node `t`, which had no child, replaced by `e`; fresh
nodes may have any contents. What `e` points to, if anything, is a tree of fresh nodes. -/
structure Graft (child : ℕ → E → Option F) (good : ℕ → E → Prop) (fresh : F → Prop)
    (mem mem' : F → I → E) (n : ℕ) (t : F) (i : I) (e : E) : Prop where
  entry : mem' t i = e
  others : ∀ j, j ≠ i → mem' t j = mem t j
  nodes : ∀ f, f ≠ t → ¬ fresh f → mem' f = mem f
  empty : child n (mem t i) = none
  goodEntry : good n e
  subtree : ∀ c, child n e = some c →
    IsTree child good mem' n c ∧ ∀ f, InTree child mem' n c f → fresh f

section Graft

variable {child : ℕ → E → Option F} {good : ℕ → E → Prop} {fresh : F → Prop}
  {mem mem' : F → I → E} {n : ℕ} {t : F} {i : I} {e : E}

/-- INTERNAL: a graft leaves the trees below the other entries as they were. -/
theorem Graft.siblings (h : Graft child good fresh mem mem' n t i e)
    (ht : IsTree child good mem (n + 1) t)
    (hfresh : ∀ f, InTree child mem (n + 1) t f → ¬ fresh f) {j : I} {d : F}
    (hd : child n (mem t j) = some d) {f : F} (hf : InTree child mem n d f) : mem' f = mem f := by
  apply h.nodes f
  · rintro rfl
    exact (ht.2.1 j d hd).2 hf
  · exact hfresh f (inTree_child hd hf)

/-- **A graft is an edit.** -/
theorem Graft.edit (h : Graft child good fresh mem mem' n t i e)
    (ht : IsTree child good mem (n + 1) t)
    (hfresh : ∀ f, InTree child mem (n + 1) t f → ¬ fresh f) :
    Edit child good fresh mem mem' (n + 1) t := by
  -- the entries of the edited node: the new one at `i`, the old ones elsewhere
  have hcases : ∀ j c, child n (mem' t j) = some c →
      (j = i ∧ child n e = some c) ∨ (j ≠ i ∧ child n (mem t j) = some c) := by
    intro j c hc
    by_cases hj : j = i
    · subst hj
      rw [h.entry] at hc
      exact Or.inl ⟨rfl, hc⟩
    · rw [h.others j hj] at hc
      exact Or.inr ⟨hj, hc⟩
  have hsame : ∀ j d, child n (mem t j) = some d →
      ∀ f, InTree child mem' n d f ↔ InTree child mem n d f := by
    intro j d hd f
    exact inTree_congr (fun g hg => h.siblings ht hfresh hd hg) f
  refine ⟨?_, ⟨?_, ?_, ?_⟩, ?_⟩
  · intro f hf hfr
    apply h.nodes f _ hfr
    rintro rfl
    exact hf (inTree_root n f)
  · intro j
    by_cases hj : j = i
    · subst hj
      rw [h.entry]
      exact h.goodEntry
    · rw [h.others j hj]
      exact ht.1 j
  · intro j c hc
    rcases hcases j c hc with ⟨rfl, he⟩ | ⟨hj, hd⟩
    · refine ⟨(h.subtree c he).1, ?_⟩
      intro hin
      exact hfresh t (inTree_root n t) ((h.subtree c he).2 t hin)
    · refine ⟨isTree_congr (fun f hf => h.siblings ht hfresh hd hf) (ht.2.1 j c hd).1, ?_⟩
      rw [hsame j c hd]
      exact (ht.2.1 j c hd).2
  · have key : ∀ c j d, child n e = some c → child n (mem t j) = some d →
        ∀ f, InTree child mem' n c f → ¬ InTree child mem' n d f := by
      intro c j d he hd f hcf hdf
      rw [hsame j d hd] at hdf
      exact hfresh f (inTree_child hd hdf) ((h.subtree c he).2 f hcf)
    intro j k c d hjk hc hd f hcf hdf
    rcases hcases j c hc with ⟨rfl, hc⟩ | ⟨-, hc⟩
    · rcases hcases k d hd with ⟨rfl, -⟩ | ⟨-, hd⟩
      · exact hjk rfl
      · exact key c k d hc hd f hcf hdf
    · rcases hcases k d hd with ⟨rfl, hd⟩ | ⟨-, hd⟩
      · exact key d j c hd hc f hdf hcf
      · rw [hsame j c hc] at hcf
        rw [hsame k d hd] at hdf
        exact ht.2.2 j k c d hjk hc hd f hcf hdf
  · intro f hf
    rcases hf with rfl | ⟨j, c, hc, hcf⟩
    · exact Or.inl (inTree_root n f)
    · rcases hcases j c hc with ⟨-, he⟩ | ⟨-, hd⟩
      · exact Or.inr ((h.subtree c he).2 f hcf)
      · rw [hsame j c hd] at hcf
        exact Or.inl (inTree_child hd hcf)

/-- A lookup that leaves the node through another entry does not see a graft. -/
theorem Graft.descend_other {step : ℕ → E → F ⊕ R} (h : Graft child good fresh mem mem' n t i e)
    (hstep : ∀ n e c, good n e → step n e = .inl c → child n e = some c)
    (ht : IsTree child good mem (n + 1) t)
    (hfresh : ∀ f, InTree child mem (n + 1) t f → ¬ fresh f) {idx : ℕ → I} (hidx : idx n ≠ i) :
    descend step mem' (n + 1) t idx = descend step mem (n + 1) t idx := by
  rw [descend, descend, h.others _ hidx]
  cases hs : step n (mem t (idx n)) with
  | inr r => rfl
  | inl d =>
    have hd := hstep n _ d (ht.1 (idx n)) hs
    exact descend_congr hstep (ht.2.1 _ d hd).1 fun f hf => h.siblings ht hfresh hd hf

end Graft

end CrepOS.Library
