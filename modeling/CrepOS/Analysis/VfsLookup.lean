import CrepOS.Analysis.PathSplit
import Mathlib.Data.List.Induction

/-!
# Lookup in the virtual file system

The search for a name in a directory runs over all nodes that were created after the parent of the
directory. If every name occurs in one directory only, it finds the right node: `NodeChain` describes the
chain by the list of the places of its nodes, and `searchRelative_chain` is the search.

Otherwise it does not, and no chain is safe from wrong lookups: the first node that was ever created,
with the name `c`, is also what a lookup of `/c/c` finds, as the search in it starts at the node after
the root, which is itself (`lookup_twice`). So all lookups are faithful only as long as there is just the
root.
-/

set_option autoImplicit false

namespace CrepOS.Analysis

open CrepOS.Library CrepOS.Model CrepOS.Interface

theorem searchAbsolute_eq (nodes : List VfsNode) (path : LibString) :
    searchAbsolute nodes path = searchComponents nodes 0 (components path) := by
  unfold searchAbsolute
  rw [splitPath_eq, components_skipSlash]
  split
  · rename_i hroot
    rw [hroot]
    rfl
  · rfl

theorem constructNode_eq (nodes : List VfsNode) (path : LibString) :
    constructNode nodes path = constructComponents nodes 0 (components path) := by
  unfold constructNode
  rw [splitPath_eq, components_skipSlash]

/-! ## The search along the chain -/

/-- INTERNAL: the loop of `search_relative`.
SRCLINE: kernel/fs/vfs.cpp:65-70 -/
theorem searchChain_some {name : LibString} {i k : ℕ} {l : List VfsNode}
    (h : searchChain name i l = some k) : i ≤ k ∧ k < i + l.length ∧ (nodeAt l (k - i)).name = name := by
  induction l generalizing i with
  | nil => cases h
  | cons node rest ih =>
    rw [searchChain] at h
    split at h
    · rename_i hname
      obtain rfl := Option.some.inj h
      refine ⟨Nat.le_refl _, by simp, ?_⟩
      rw [Nat.sub_self]
      exact hname
    · obtain ⟨hle, hlt, hname⟩ := ih h
      refine ⟨by omega, by rw [List.length_cons]; omega, ?_⟩
      rw [show k - i = k - (i + 1) + 1 by omega]
      exact hname

/-- INTERNAL: the loop of `search_relative` that finds nothing. -/
theorem searchChain_none {name : LibString} {i : ℕ} {l : List VfsNode}
    (h : searchChain name i l = none) : ∀ node ∈ l, node.name ≠ name := by
  induction l generalizing i with
  | nil => exact fun _ hmem => nomatch hmem
  | cons node rest ih =>
    rw [searchChain] at h
    split at h
    · cases h
    · rename_i hname
      intro other hmem
      rcases List.mem_cons.mp hmem with rfl | hrest
      · exact hname
      · exact ih h other hrest

/-- INTERNAL: `search_relative` finds a node after the parent.
SRCLINE: kernel/fs/vfs.cpp:62-73 -/
theorem searchRelative_some {nodes : List VfsNode} {i k : ℕ} {name : LibString}
    (h : searchRelative nodes i name = some k) :
    (nodeAt nodes i).parent < k ∧ k < nodes.length ∧ (nodeAt nodes k).name = name := by
  obtain ⟨hle, hlt, hname⟩ := searchChain_some h
  set p := (nodeAt nodes i).parent
  rw [List.length_drop] at hlt
  refine ⟨by omega, by omega, ?_⟩
  have hget : nodeAt (nodes.drop (p + 1)) (k - (p + 1)) = nodeAt nodes k := by
    unfold nodeAt
    rw [List.getElem?_drop, show p + 1 + (k - (p + 1)) = k by omega]
  rw [← hget]
  exact hname

/-- INTERNAL: `search_relative` that finds nothing.
SRCLINE: kernel/fs/vfs.cpp:62-73 -/
theorem searchRelative_none {nodes : List VfsNode} {i k : ℕ} {name : LibString}
    (h : searchRelative nodes i name = none) (hk : (nodeAt nodes i).parent < k)
    (hlt : k < nodes.length) : (nodeAt nodes k).name ≠ name := by
  refine searchChain_none h _ ?_
  set p := (nodeAt nodes i).parent
  unfold nodeAt
  rw [List.getElem?_eq_getElem hlt, Option.getD_some]
  refine List.mem_iff_getElem.mpr ⟨k - (p + 1), ?_, ?_⟩
  · rw [List.length_drop]
    omega
  · rw [List.getElem_drop]
    congr 1
    omega

/-! ## Chains whose names are unambiguous -/

/-- The node at position `i` of the chain is the node of the path with the components `place i`. -/
structure NodeChain (nodes : List VfsNode) (place : ℕ → List LibString) : Prop where
  nonempty : 0 < nodes.length
  root : nodeAt nodes 0 = rootNode
  rootPlace : place 0 = []
  parent_lt : ∀ i, 0 < i → i < nodes.length → (nodeAt nodes i).parent < i
  place_eq : ∀ i, 0 < i → i < nodes.length →
    place i = place (nodeAt nodes i).parent ++ [(nodeAt nodes i).name]
  path : ∀ i < nodes.length, (nodeAt nodes i).absolutePath = canonical (place i)
  distinct : ∀ i < nodes.length, ∀ j < nodes.length, place i = place j → i = j

/-- There is a node with these components. -/
def Holds (nodes : List VfsNode) (place : ℕ → List LibString) (names : List LibString) : Prop :=
  ∃ i < nodes.length, place i = names

section

variable {nodes : List VfsNode} {place : ℕ → List LibString}

theorem NodeChain.pos_of_place (h : NodeChain nodes place) {i : ℕ} {dir : List LibString} {name : LibString}
    (hi : place i = dir ++ [name]) : 0 < i := by
  refine Nat.pos_of_ne_zero ?_
  rintro rfl
  rw [h.rootPlace] at hi
  exact absurd hi.symm (by simp)

/-- INTERNAL: the parent of the node of `dir ++ [name]` is the node of `dir`. -/
theorem NodeChain.parent_eq (h : NodeChain nodes place) {i k : ℕ} {name : LibString} (hi : i < nodes.length)
    (hk : k < nodes.length) (hplace : place k = place i ++ [name]) :
    (nodeAt nodes k).parent = i ∧ (nodeAt nodes k).name = name := by
  have hpos := h.pos_of_place hplace
  have heq := h.place_eq k hpos hk
  rw [hplace] at heq
  obtain ⟨hdir, hname⟩ := List.append_inj' heq rfl
  have hparent := h.parent_lt k hpos hk
  exact ⟨(h.distinct i hi _ (by omega) hdir).symm, (List.cons.inj hname).1.symm⟩

theorem NodeChain.parent_le (h : NodeChain nodes place) {i : ℕ} (hi : i < nodes.length) :
    (nodeAt nodes i).parent ≤ i := by
  by_cases hzero : i = 0
  · subst hzero
    rw [h.root]
    exact Nat.le_refl _
  · exact Nat.le_of_lt (h.parent_lt i (Nat.pos_of_ne_zero hzero) hi)

/-- INTERNAL: with a node there are the nodes of the directories above it. -/
theorem NodeChain.holds_prefix (h : NodeChain nodes place) {names names' : List LibString}
    (hholds : Holds nodes place (names ++ names')) : Holds nodes place names := by
  induction names' using List.reverseRecOn with
  | nil => rwa [List.append_nil] at hholds
  | append_singleton dir name ih =>
    obtain ⟨k, hk, hplace⟩ := hholds
    rw [← List.append_assoc] at hplace
    have hpos := h.pos_of_place hplace
    have heq := h.place_eq k hpos hk
    rw [hplace] at heq
    have hparent := h.parent_lt k hpos hk
    exact ih ⟨_, by omega, (List.append_inj' heq rfl).1.symm⟩

/-- The name, if it occurs in the chain, occurs in the directory `i`. -/
def NameFits (nodes : List VfsNode) (place : ℕ → List LibString) (i : ℕ) (name : LibString) : Prop :=
  ∀ k, 0 < k → k < nodes.length → (nodeAt nodes k).name = name → place k = place i ++ [name]

/-- **The search in a directory.**
SRCLINE: kernel/fs/vfs.cpp:62-73 -/
theorem searchRelative_chain (h : NodeChain nodes place) {i : ℕ} (hi : i < nodes.length)
    {name : LibString} (hfits : NameFits nodes place i name) :
    (∀ k, searchRelative nodes i name = some k → k < nodes.length ∧ place k = place i ++ [name]) ∧
      (searchRelative nodes i name = none → ¬ Holds nodes place (place i ++ [name])) := by
  constructor
  · intro k hsome
    obtain ⟨hparent, hlt, hname⟩ := searchRelative_some hsome
    exact ⟨hlt, hfits k (by omega) hlt hname⟩
  · rintro hnone ⟨k, hk, hplace⟩
    obtain ⟨hparent, hname⟩ := h.parent_eq hi hk hplace
    have hlt := h.parent_lt k (h.pos_of_place hplace) hk
    have hle := h.parent_le hi
    exact searchRelative_none hnone (by omega) hk hname

/-- The names of a path fit, from the directory `dir` on. -/
def PathFits (nodes : List VfsNode) (place : ℕ → List LibString) (names : List LibString) : Prop :=
  ∀ dir name, dir ++ [name] <+: names → ∀ i < nodes.length, place i = dir →
    NameFits nodes place i name

/-- INTERNAL: the loop of `search_absolute`.
SRCLINE: kernel/fs/vfs.cpp:102-109 -/
theorem searchComponents_chain (h : NodeChain nodes place) (rest : List LibString) {i : ℕ}
    (hi : i < nodes.length) (hfits : PathFits nodes place (place i ++ rest)) :
    (∀ k, searchComponents nodes i rest = some k → k < nodes.length ∧ place k = place i ++ rest) ∧
      (searchComponents nodes i rest = none → ¬ Holds nodes place (place i ++ rest)) := by
  induction rest generalizing i with
  | nil =>
    refine ⟨?_, fun hnone => nomatch hnone⟩
    intro k hk
    obtain rfl := Option.some.inj hk
    exact ⟨hi, (List.append_nil _).symm⟩
  | cons name rest ih =>
    have hassoc : place i ++ name :: rest = place i ++ [name] ++ rest := by simp
    have hname : NameFits nodes place i name :=
      hfits (place i) name (by rw [hassoc]; exact List.prefix_append _ _) i hi rfl
    obtain ⟨hfound, hmissing⟩ := searchRelative_chain h hi hname
    rw [searchComponents]
    cases hsearch : searchRelative nodes i name with
    | none =>
      refine ⟨fun k hk => (nomatch hk), ?_⟩
      intro _ hholds
      rw [hassoc] at hholds
      exact hmissing hsearch (h.holds_prefix hholds)
    | some j =>
      obtain ⟨hj, hplace⟩ := hfound j hsearch
      have hrest := ih hj (by rw [hplace, ← hassoc]; exact hfits)
      rw [hplace, ← hassoc] at hrest
      exact hrest

/-! ## Construction -/

/-- INTERNAL: joining one more name. -/
theorem intercalate_append_singleton {dir : List LibString} (hdir : dir ≠ []) (name : LibString) :
    [slash].intercalate (dir ++ [name]) = [slash].intercalate dir ++ [slash] ++ name := by
  induction dir with
  | nil => exact absurd rfl hdir
  | cons first rest ih =>
    cases rest with
    | nil => simp [List.intercalate_cons_cons]
    | cons second others =>
      rw [List.cons_append, List.intercalate_cons_of_ne_nil (by simp),
        List.intercalate_cons_of_ne_nil (by simp), ih (by simp)]
      simp only [List.append_assoc]

/-- INTERNAL: the canonical form of a path in a directory.
SRCLINE: kernel/fs/vfs.cpp:118-127 -/
theorem canonical_append (dir : List LibString) (name : LibString) :
    canonical (dir ++ [name]) =
      if dir ≠ [] then canonical dir ++ [slash] ++ name else canonical dir ++ name := by
  unfold canonical
  by_cases hnil : dir = []
  · subst hnil
    simp
  · rw [if_pos hnil, intercalate_append_singleton hnil]
    simp

theorem nodeAt_mem {i : ℕ} (hi : i < nodes.length) : nodeAt nodes i ∈ nodes := by
  unfold nodeAt
  rw [List.getElem?_eq_getElem hi]
  exact List.getElem_mem hi

theorem nodeAt_append_of_lt {node : VfsNode} {i : ℕ} (hi : i < nodes.length) :
    nodeAt (nodes ++ [node]) i = nodeAt nodes i := by
  unfold nodeAt
  rw [List.getElem?_append_left hi]

theorem nodeAt_append_self (node : VfsNode) : nodeAt (nodes ++ [node]) nodes.length = node := by
  unfold nodeAt
  simp

/-- INTERNAL: `create_node` appends the node of a new path.
SRCLINE: kernel/fs/vfs.cpp:114-154 -/
theorem createNode_chain (h : NodeChain nodes place) {i : ℕ} (hi : i < nodes.length) {name : LibString}
    (hnew : ¬ Holds nodes place (place i ++ [name])) :
    NodeChain (createNode nodes i name)
        (Function.update place nodes.length (place i ++ [name])) ∧
      ∀ names, Holds (createNode nodes i name)
          (Function.update place nodes.length (place i ++ [name])) names ↔
        Holds nodes place names ∨ names = place i ++ [name] := by
  have hlen : (createNode nodes i name).length = nodes.length + 1 := by simp [createNode]
  have hold {j : ℕ} (hj : j < nodes.length) :
      nodeAt (createNode nodes i name) j = nodeAt nodes j ∧
      Function.update place nodes.length (place i ++ [name]) j = place j :=
    ⟨nodeAt_append_of_lt hj, Function.update_of_ne (by omega) _ _⟩
  have hlast : nodeAt (createNode nodes i name) nodes.length = ⟨canonical (place i ++ [name]), name, i⟩ ∧
      Function.update place nodes.length (place i ++ [name]) nodes.length = place i ++ [name] := by
    refine ⟨?_, Function.update_self _ _ _⟩
    unfold createNode
    rw [nodeAt_append_self, h.path i hi, canonical_append]
    have hroot : i ≠ 0 ↔ place i ≠ [] := by
      refine not_congr ⟨fun hz => by rw [hz, h.rootPlace], fun hz => ?_⟩
      exact h.distinct i hi 0 h.nonempty (hz.trans h.rootPlace.symm)
    simp only [hroot]
  have hcases {j : ℕ} (hj : j < (createNode nodes i name).length) :
      j < nodes.length ∨ j = nodes.length := by omega
  refine ⟨?_, ?_⟩
  · exact {
      nonempty := by omega
      root := by rw [(hold h.nonempty).1]; exact h.root
      rootPlace := by rw [(hold h.nonempty).2]; exact h.rootPlace
      parent_lt := by
        intro j hpos hj
        rcases hcases hj with hlt | rfl
        · rw [(hold hlt).1]
          exact h.parent_lt j hpos hlt
        · rw [hlast.1]
          exact hi
      place_eq := by
        intro j hpos hj
        rcases hcases hj with hlt | rfl
        · have hparent := h.parent_lt j hpos hlt
          rw [(hold hlt).1, (hold hlt).2, (hold (by omega)).2]
          exact h.place_eq j hpos hlt
        · rw [hlast.1, hlast.2, (hold hi).2]
      path := by
        intro j hj
        rcases hcases hj with hlt | rfl
        · rw [(hold hlt).1, (hold hlt).2]
          exact h.path j hlt
        · rw [hlast.1, hlast.2]
      distinct := by
        intro j hj k hk heq
        rcases hcases hj with hjlt | rfl <;> rcases hcases hk with hklt | rfl
        · rw [(hold hjlt).2, (hold hklt).2] at heq
          exact h.distinct j hjlt k hklt heq
        · rw [(hold hjlt).2, hlast.2] at heq
          exact absurd ⟨j, hjlt, heq⟩ hnew
        · rw [(hold hklt).2, hlast.2] at heq
          exact absurd ⟨k, hklt, heq.symm⟩ hnew
        · rfl }
  · intro names
    constructor
    · rintro ⟨j, hj, hplace⟩
      rcases hcases hj with hlt | rfl
      · rw [(hold hlt).2] at hplace
        exact Or.inl ⟨j, hlt, hplace⟩
      · rw [hlast.2] at hplace
        exact Or.inr hplace.symm
    · rintro (⟨j, hj, hplace⟩ | rfl)
      · exact ⟨j, by omega, by rw [(hold hj).2]; exact hplace⟩
      · exact ⟨nodes.length, by omega, hlast.2⟩

/-- INTERNAL: the inner loop of the constructor.
SRCLINE: kernel/fs/vfs.cpp:52-56 -/
theorem createRest_chain (rest : List LibString) {nodes : List VfsNode} {place : ℕ → List LibString}
    (h : NodeChain nodes place) {i : ℕ} (hi : i < nodes.length)
    (hnew : ∀ name rest', rest = name :: rest' → ¬ Holds nodes place (place i ++ [name])) :
    ∃ place', NodeChain (createRest nodes i rest) place' ∧
      ∀ names, Holds (createRest nodes i rest) place' names ↔
        Holds nodes place names ∨ names <+: place i ++ rest := by
  induction rest generalizing nodes place i with
  | nil =>
    refine ⟨place, h, fun names => ⟨Or.inl, ?_⟩⟩
    rintro (hholds | hprefix)
    · exact hholds
    · obtain ⟨tail, htail⟩ := hprefix
      rw [List.append_nil] at htail
      exact h.holds_prefix ⟨i, hi, htail.symm⟩
  | cons name rest ih =>
    have hnot := hnew name rest rfl
    obtain ⟨hchain, hholds⟩ := createNode_chain h hi hnot
    have hself : Function.update place nodes.length (place i ++ [name]) nodes.length =
        place i ++ [name] := Function.update_self _ _ _
    have hassoc : place i ++ name :: rest = place i ++ [name] ++ rest := by simp
    -- a path below the new node does not exist, as the new node did not
    have hnext : ∀ next rest', rest = next :: rest' →
        ¬ Holds (createNode nodes i name) (Function.update place nodes.length (place i ++ [name]))
          (Function.update place nodes.length (place i ++ [name]) nodes.length ++ [next]) := by
      intro next rest' _ hneg
      rw [hself] at hneg
      rcases (hholds _).mp hneg with hbefore | heq
      · exact hnot (h.holds_prefix hbefore)
      · simp at heq
    obtain ⟨place', hchain', hholds'⟩ := ih hchain (by simp [createNode]) hnext
    refine ⟨place', hchain', ?_⟩
    intro names
    rw [hself, ← hassoc] at hholds'
    rw [createRest, hholds', hholds, or_assoc]
    refine or_congr_right ⟨?_, Or.inr⟩
    rintro (rfl | hprefix)
    · rw [hassoc]
      exact List.prefix_append _ _
    · exact hprefix

/-- INTERNAL: the outer loop of the constructor.
SRCLINE: kernel/fs/vfs.cpp:48-59 -/
theorem constructComponents_chain (h : NodeChain nodes place) (rest : List LibString) {i : ℕ}
    (hi : i < nodes.length) (hfits : PathFits nodes place (place i ++ rest)) :
    ∃ place', NodeChain (constructComponents nodes i rest) place' ∧
      ∀ names, Holds (constructComponents nodes i rest) place' names ↔
        Holds nodes place names ∨ names <+: place i ++ rest := by
  induction rest generalizing i with
  | nil => exact createRest_chain [] h hi fun _ _ hneg => nomatch hneg
  | cons name rest ih =>
    have hassoc : place i ++ name :: rest = place i ++ [name] ++ rest := by simp
    have hname : NameFits nodes place i name :=
      hfits (place i) name (by rw [hassoc]; exact List.prefix_append _ _) i hi rfl
    obtain ⟨hfound, hmissing⟩ := searchRelative_chain h hi hname
    rw [constructComponents]
    cases hsearch : searchRelative nodes i name with
    | none =>
      refine createRest_chain (name :: rest) h hi ?_
      intro first rest' hcons
      obtain ⟨rfl, -⟩ := List.cons.inj hcons
      exact hmissing hsearch
    | some j =>
      obtain ⟨hj, hplace⟩ := hfound j hsearch
      have hrest := ih hj (by rw [hplace, ← hassoc]; exact hfits)
      rw [hplace, ← hassoc] at hrest
      exact hrest

/-- INTERNAL: a path of an unambiguous list fits a chain that holds only paths of the list. -/
theorem pathFits_of_unambiguous {paths : List LibString} (hpaths : Unambiguous paths)
    (h : NodeChain nodes place) (hknown : ∀ names, Holds nodes place names → Constructed paths names)
    {q : LibString} (hq : q ∈ paths) : PathFits nodes place (components q) := by
  intro dir name hprefix i hi hplace k hpos hk hname
  have heq := h.place_eq k hpos hk
  rw [hname] at heq
  have hparent := h.parent_lt k hpos hk
  rcases hknown (place k) ⟨k, hk, rfl⟩ with hnil | ⟨q', hq', hprefix'⟩
  · rw [hnil] at heq
    simp at heq
  · rw [heq] at hprefix' ⊢
    rw [hplace, hpaths q hq q' hq' _ _ name hprefix hprefix']

end

/-- INTERNAL: the chain after a sequence of constructions. -/
theorem constructAll_chain {all : List LibString} (hall : Unambiguous all) (paths : List LibString)
    (hsub : ∀ q ∈ paths, q ∈ all) :
    ∃ place, NodeChain (constructAll paths) place ∧
      ∀ names, Holds (constructAll paths) place names ↔ Constructed paths names := by
  induction paths using List.reverseRecOn with
  | nil =>
    refine ⟨fun _ => [], ?_, ?_⟩
    · exact {
        nonempty := by decide
        root := rfl
        rootPlace := rfl
        parent_lt := fun i hpos hi => absurd hi (Nat.not_lt.mpr hpos)
        place_eq := fun i hpos hi => absurd hi (Nat.not_lt.mpr hpos)
        path := by
          intro i hi
          obtain rfl : i = 0 := Nat.lt_one_iff.mp hi
          rfl
        distinct := by
          intro i hi j hj _
          rw [Nat.lt_one_iff.mp hi, Nat.lt_one_iff.mp hj] }
    · intro names
      constructor
      · rintro ⟨-, -, rfl⟩
        exact Or.inl rfl
      · rintro (rfl | ⟨q, hq, -⟩)
        · exact ⟨0, by decide, rfl⟩
        · cases hq
  | append_singleton paths q ih =>
    obtain ⟨place, hchain, hholds⟩ := ih fun q' hq' => hsub q' (List.mem_append_left _ hq')
    have hknown : ∀ names, Holds (constructAll paths) place names → Constructed all names := by
      intro names hnames
      rcases (hholds names).mp hnames with hnil | ⟨q', hq', hprefix⟩
      · exact Or.inl hnil
      · exact Or.inr ⟨q', hsub q' (List.mem_append_left _ hq'), hprefix⟩
    have hq : q ∈ all := hsub q (List.mem_append_right _ (List.mem_singleton_self q))
    have hfits := pathFits_of_unambiguous hall hchain hknown hq
    rw [show components q = place 0 ++ components q by rw [hchain.rootPlace, List.nil_append]] at hfits
    obtain ⟨place', hchain', hholds'⟩ :=
      constructComponents_chain hchain (components q) hchain.nonempty hfits
    have heq : constructAll (paths ++ [q]) =
        constructComponents (constructAll paths) 0 (components q) := by
      unfold constructAll
      rw [List.foldl_append, List.foldl_cons, List.foldl_nil, constructNode_eq]
    rw [heq]
    refine ⟨place', hchain', ?_⟩
    intro names
    rw [hholds', hholds, hchain.rootPlace, List.nil_append]
    constructor
    · rintro ((hnil | ⟨q', hq', hprefix⟩) | hprefix)
      · exact Or.inl hnil
      · exact Or.inr ⟨q', List.mem_append_left _ hq', hprefix⟩
      · exact Or.inr ⟨q, List.mem_append_right _ (List.mem_singleton_self q), hprefix⟩
    · rintro (hnil | ⟨q', hq', hprefix⟩)
      · exact Or.inl (Or.inl hnil)
      · rcases List.mem_append.mp hq' with hold | hnew
        · exact Or.inl (Or.inr ⟨q', hold, hprefix⟩)
        · rw [List.mem_singleton.mp hnew] at hprefix
          exact Or.inr hprefix

/-- INTERNAL: a lookup is faithful if no name is ambiguous. -/
theorem faithful_of_unambiguous {paths : List LibString} {p : LibString}
    (h : Unambiguous (p :: paths)) : FaithfulLookup paths p := by
  obtain ⟨place, hchain, hholds⟩ :=
    constructAll_chain h paths fun q hq => List.mem_cons_of_mem p hq
  have hknown : ∀ names, Holds (constructAll paths) place names → Constructed (p :: paths) names := by
    intro names hnames
    rcases (hholds names).mp hnames with hnil | ⟨q, hq, hprefix⟩
    · exact Or.inl hnil
    · exact Or.inr ⟨q, List.mem_cons_of_mem p hq, hprefix⟩
  have hfits := pathFits_of_unambiguous h hchain hknown List.mem_cons_self
  have hroot : components p = place 0 ++ components p := by rw [hchain.rootPlace, List.nil_append]
  rw [hroot] at hfits
  obtain ⟨hfound, hmissing⟩ := searchComponents_chain hchain (components p) hchain.nonempty hfits
  rw [← hroot] at hfound hmissing
  unfold FaithfulLookup
  rw [searchAbsolute_eq]
  refine ⟨⟨?_, ?_⟩, ?_⟩
  · intro hnone hconstructed
    exact hmissing hnone ((hholds _).mpr hconstructed)
  · intro hconstructed
    cases hsearch : searchComponents (constructAll paths) 0 (components p) with
    | none => rfl
    | some k =>
      obtain ⟨hk, hplace⟩ := hfound k hsearch
      exact absurd ((hholds _).mp ⟨k, hk, hplace⟩) hconstructed
  · intro k hsearch
    obtain ⟨hk, hplace⟩ := hfound k hsearch
    rw [hchain.path k hk, hplace]

/-! ## The first node -/

/-- INTERNAL: nodes are only appended. -/
theorem createRest_append (rest : List LibString) (nodes : List VfsNode) (i : ℕ) :
    ∃ added, createRest nodes i rest = nodes ++ added := by
  induction rest generalizing nodes i with
  | nil => exact ⟨[], (List.append_nil _).symm⟩
  | cons name rest ih =>
    obtain ⟨added, hadded⟩ := ih (createNode nodes i name) nodes.length
    rw [createRest, hadded]
    unfold createNode
    rw [List.append_assoc]
    exact ⟨_, rfl⟩

theorem constructComponents_append (rest : List LibString) (nodes : List VfsNode) (i : ℕ) :
    ∃ added, constructComponents nodes i rest = nodes ++ added := by
  induction rest generalizing i with
  | nil => exact ⟨[], (List.append_nil _).symm⟩
  | cons name rest ih =>
    rw [constructComponents]
    split
    · exact createRest_append _ _ _
    · exact ih _

/-- INTERNAL: as long as no path has components, there is only the root. -/
theorem constructAll_root {paths : List LibString} (h : ∀ q ∈ paths, components q = []) :
    constructAll paths = [rootNode] := by
  induction paths with
  | nil => rfl
  | cons q paths ih =>
    have hq : constructNode [rootNode] q = [rootNode] := by
      rw [constructNode_eq, h q List.mem_cons_self]
      rfl
    unfold constructAll
    rw [List.foldl_cons, hq]
    exact ih fun q' hq' => h q' (List.mem_cons_of_mem q hq')

/-- INTERNAL: the first node that is created is in the root. -/
theorem constructAll_first {paths : List LibString} (h : ∃ q ∈ paths, components q ≠ []) :
    ∃ name added, name ≠ [] ∧ slash ∉ name ∧
      constructAll paths = rootNode :: ⟨slash :: name, name, 0⟩ :: added := by
  induction paths using List.reverseRecOn with
  | nil =>
    obtain ⟨q, hq, -⟩ := h
    cases hq
  | append_singleton paths q ih =>
    have heq : constructAll (paths ++ [q]) =
        constructComponents (constructAll paths) 0 (components q) := by
      unfold constructAll
      rw [List.foldl_append, List.foldl_cons, List.foldl_nil, constructNode_eq]
    rw [heq]
    by_cases hbefore : ∃ q' ∈ paths, components q' ≠ []
    · obtain ⟨name, added, hne, hslash, hnodes⟩ := ih hbefore
      obtain ⟨more, hmore⟩ := constructComponents_append (components q) (constructAll paths) 0
      rw [hmore, hnodes]
      exact ⟨name, added ++ more, hne, hslash, rfl⟩
    · push Not at hbefore
      rw [constructAll_root hbefore]
      cases hq : components q with
      | nil =>
        obtain ⟨q', hq', hne⟩ := h
        rcases List.mem_append.mp hq' with hold | hnew
        · exact absurd (hbefore q' hold) hne
        · rw [List.mem_singleton.mp hnew] at hne
          exact absurd hq hne
      | cons name rest =>
        have hname : name ∈ components q := by
          rw [hq]
          exact List.mem_cons_self
        obtain ⟨hne, hslash⟩ := components_name hname
        obtain ⟨added, hadded⟩ := createRest_append rest (createNode [rootNode] 0 name) 1
        exact ⟨name, added, hne, hslash, hadded⟩

/-- INTERNAL: the first node is found in itself.
SRCLINE: kernel/fs/vfs.cpp:62-73 -/
theorem lookup_twice {nodes added : List VfsNode} {name : LibString} (hne : name ≠ [])
    (hslash : slash ∉ name) (hnodes : nodes = rootNode :: ⟨slash :: name, name, 0⟩ :: added) :
    searchAbsolute nodes (canonical [name, name]) = some 1 ∧
      (nodeAt nodes 1).absolutePath ≠ canonical [name, name] := by
  subst hnodes
  have hcomponents : components (canonical [name, name]) = [name, name] := by
    refine components_canonical ?_
    intro other hother
    obtain rfl : other = name := by simpa using hother
    exact ⟨hne, hslash⟩
  -- the search in the root and the search in the first node begin at the first node
  have hroot : searchRelative (rootNode :: ⟨slash :: name, name, 0⟩ :: added) 0 name = some 1 :=
    if_pos rfl
  have hfirst : searchRelative (rootNode :: ⟨slash :: name, name, 0⟩ :: added) 1 name = some 1 :=
    if_pos rfl
  refine ⟨?_, ?_⟩
  · rw [searchAbsolute_eq, hcomponents]
    simp only [searchComponents, hroot, hfirst]
  · intro heq
    have hlen := congrArg List.length heq
    simp [nodeAt, canonical, List.intercalate_cons_cons] at hlen

/-- INTERNAL: in the bare root there is nothing to confuse. -/
theorem faithful_of_root {paths : List LibString} (h : ∀ q ∈ paths, components q = [])
    (p : LibString) : FaithfulLookup paths p := by
  unfold FaithfulLookup
  rw [constructAll_root h, searchAbsolute_eq]
  cases hp : components p with
  | nil =>
    refine ⟨⟨fun hneg => (nomatch hneg), fun hneg => absurd (Or.inl rfl) hneg⟩, ?_⟩
    intro j hj
    obtain rfl := Option.some.inj hj
    rfl
  | cons name rest =>
    refine ⟨⟨?_, fun _ => rfl⟩, fun j hj => nomatch hj⟩
    rintro - (hneg | ⟨q, hq, hprefix⟩)
    · cases hneg
    · rw [h q hq] at hprefix
      exact absurd (List.prefix_nil.mp hprefix) (List.cons_ne_nil _ _)

/-- INTERNAL: in one path whose names are distinct nothing is ambiguous. -/
theorem unambiguous_of_nodup {p : LibString} (h : (components p).Nodup) : Unambiguous [p, p] := by
  intro q hq q' hq' dir dir' name hprefix hprefix'
  obtain rfl : q = p := by simpa using hq
  obtain rfl : q' = q := by simpa using hq'
  obtain ⟨tail, htail⟩ := hprefix
  obtain ⟨tail', htail'⟩ := hprefix'
  -- the name stands at the position after its directory, in both directories
  have hlen : dir.length = dir'.length := by
    have hget : (components q')[dir.length]? = some name := by rw [← htail]; simp
    have hget' : (components q')[dir'.length]? = some name := by rw [← htail']; simp
    have hlt : dir.length < (components q').length := (List.getElem?_eq_some_iff.mp hget).1
    exact (List.getElem?_inj hlt h).mp (hget.trans hget'.symm)
  rw [List.append_assoc] at htail htail'
  exact (List.append_inj (htail.trans htail'.symm) hlen).1

end CrepOS.Analysis
