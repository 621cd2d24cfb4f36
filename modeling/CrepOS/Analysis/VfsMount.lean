import CrepOS.Analysis.Ext2Lookup
import CrepOS.Analysis.PathTokens
import CrepOS.Analysis.VfsLookup
import CrepOS.Interface.MountedTree

/-!
# What a mount publishes

`refresh_node` constructs the node of each entry. Whatever is constructed, the chain stays a chain
(`construct_chain`), and a new node has the file system of its parent and a relative path that fits
(`NodesGrow`). If no name of the tree is ambiguous, the node of each path is found or made in its own directory, so
that a mount on the root publishes the tree (`mount_publishes`). On another target the path of the target and
the names of the root directory are joined without `/`.
-/

set_option autoImplicit false

namespace CrepOS.Analysis

open CrepOS.Library CrepOS.Model CrepOS.Interface

/-! ## Nodes that are added -/

/-- Nodes have been added, each with the file system of its parent and a relative path from that. -/
structure NodesGrow (st st' : MountedVfs) : Prop where
  length : st.nodes.length ≤ st'.nodes.length
  old : ∀ i < st.nodes.length, nodeAt st'.nodes i = nodeAt st.nodes i ∧ st'.filesystem i = st.filesystem i ∧
    st'.relativePath i = st.relativePath i
  gates : st'.gates = st.gates
  new : ∀ i, st.nodes.length ≤ i → i < st'.nodes.length → (nodeAt st'.nodes i).parent < i ∧
    st'.filesystem i = st'.filesystem (nodeAt st'.nodes i).parent ∧
    st'.relativePath i = st'.relativeTo (nodeAt st'.nodes i).parent (nodeAt st'.nodes i).absolutePath

theorem NodesGrow.refl (st : MountedVfs) : NodesGrow st st where
  length := Nat.le_refl _
  old := fun _ _ => ⟨rfl, rfl, rfl⟩
  gates := rfl
  new := fun _ hle hlt => absurd hle (Nat.not_le.mpr hlt)

/-- INTERNAL: a relative path depends on the file system of the parent. -/
theorem relativeTo_congr {st st' : MountedVfs} {parent : ℕ} (hgates : st'.gates = st.gates)
    (hfilesystem : st'.filesystem parent = st.filesystem parent) (path : LibString) :
    st'.relativeTo parent path = st.relativeTo parent path := by
  unfold MountedVfs.relativeTo
  rw [hgates, hfilesystem]

theorem NodesGrow.trans {st st₁ st₂ : MountedVfs} (h : NodesGrow st st₁) (h' : NodesGrow st₁ st₂) : NodesGrow st st₂ where
  length := Nat.le_trans h.length h'.length
  old := by
    intro i hi
    obtain ⟨hnode, hfilesystem, hrelative⟩ := h.old i hi
    obtain ⟨hnode', hfilesystem', hrelative'⟩ := h'.old i (Nat.lt_of_lt_of_le hi h.length)
    exact ⟨hnode'.trans hnode, hfilesystem'.trans hfilesystem, hrelative'.trans hrelative⟩
  gates := h'.gates.trans h.gates
  new := by
    intro i hle hlt
    by_cases hi : i < st₁.nodes.length
    · obtain ⟨hparent, hfilesystem, hrelative⟩ := h.new i hle hi
      obtain ⟨hnode', hfilesystem', hrelative'⟩ := h'.old i hi
      have hsame := (h'.old _ (Nat.lt_trans hparent hi)).2.1
      rw [hnode', hfilesystem', hrelative', hsame, relativeTo_congr h'.gates hsame]
      exact ⟨hparent, hfilesystem, hrelative⟩
    · exact h'.new i (Nat.le_of_not_lt hi) hlt

theorem length_createNode (nodes : List VfsNode) (i : ℕ) (name : LibString) :
    (createNode nodes i name).length = nodes.length + 1 := by
  simp [createNode]

/-- INTERNAL: `create_node` adds one node. -/
theorem grows_create (st : MountedVfs) {i : ℕ} (hi : i < st.nodes.length) (name : LibString) :
    NodesGrow st (st.create i name) := by
  have hlast : (nodeAt (createNode st.nodes i name) st.nodes.length).parent = i := by
    unfold createNode
    rw [nodeAt_append_self]
  constructor
  · unfold MountedVfs.create
    rw [length_createNode]
    exact Nat.le_succ _
  · intro k hk
    refine ⟨nodeAt_append_of_lt hk, ?_, ?_⟩
    · exact Function.update_of_ne (Nat.ne_of_lt hk) _ _
    · exact Function.update_of_ne (Nat.ne_of_lt hk) _ _
  · rfl
  · intro k hle hlt
    have hk : k = st.nodes.length := by
      unfold MountedVfs.create at hlt
      rw [length_createNode] at hlt
      omega
    have hfilesystem : (st.create i name).filesystem i = st.filesystem i :=
      Function.update_of_ne (Nat.ne_of_lt hi) _ _
    subst hk
    unfold MountedVfs.create
    dsimp only
    rw [hlast, Function.update_self, Function.update_self]
    exact ⟨hi, hfilesystem.symm, (@relativeTo_congr st (st.create i name) i rfl hfilesystem _).symm⟩

/-! ## Chains of any constructions -/

section Chains

variable {nodes : List VfsNode} {place : ℕ → List LibString} {i : ℕ} {name : LibString}

/-- INTERNAL: what is not found does not exist, whatever the other names are. -/
theorem not_holds_of_none (h : NodeChain nodes place) (hi : i < nodes.length)
    (hnone : searchRelative nodes i name = none) : ¬ Holds nodes place (place i ++ [name]) := by
  intro ⟨k, hk, hplace⟩
  obtain ⟨hparent, hname⟩ := h.parent_eq hi hk hplace
  have hlt := h.parent_lt k (h.pos_of_place hplace) hk
  have hle := h.parent_le hi
  exact searchRelative_none hnone (by omega) hk hname

theorem constructComponents_anyChain (h : NodeChain nodes place) (rest : List LibString) (hi : i < nodes.length) :
    ∃ place', NodeChain (constructComponents nodes i rest) place' := by
  induction rest generalizing i with
  | nil => exact ⟨place, h⟩
  | cons name rest ih =>
    rw [constructComponents]
    cases hsearch : searchRelative nodes i name with
    | none =>
      have hnew : ∀ name' rest', name :: rest = name' :: rest' → ¬ Holds nodes place (place i ++ [name']) := by
        intro name' rest' heq
        obtain ⟨rfl, _⟩ := List.cons.inj heq
        exact not_holds_of_none h hi hsearch
      obtain ⟨place', hchain, _⟩ := createRest_chain (name :: rest) h hi hnew
      exact ⟨place', hchain⟩
    | some j => exact ih (searchRelative_some hsearch).2.1

/-- After any constructions the nodes are a chain. -/
theorem constructAll_anyChain (paths : List LibString) : ∃ place, NodeChain (constructAll paths) place := by
  induction paths using List.reverseRecOn with
  | nil =>
    obtain ⟨place, hchain, _⟩ := @constructAll_chain [] (fun q hq => by cases hq) [] (fun q hq => by cases hq)
    exact ⟨place, hchain⟩
  | append_singleton paths path ih =>
    obtain ⟨place, hchain⟩ := ih
    unfold constructAll
    rw [List.foldl_append, List.foldl_cons, List.foldl_nil, constructNode_eq]
    exact constructComponents_anyChain hchain _ hchain.nonempty

end Chains

section Construct

variable {st : MountedVfs} {place : ℕ → List LibString} {i : ℕ} {name : LibString}

/-- INTERNAL: a directory that exists, with names that fit, is found. -/
theorem constructComponents_through (h : NodeChain st.nodes place) (dir tail : List LibString)
    (hi : i < st.nodes.length) (hfits : PathFits st.nodes place (place i ++ dir))
    (hholds : Holds st.nodes place (place i ++ dir)) :
    ∃ k < st.nodes.length, place k = place i ++ dir ∧
      st.constructComponents i (dir ++ tail) = st.constructComponents k tail := by
  induction dir generalizing i with
  | nil => exact ⟨i, hi, (List.append_nil _).symm, rfl⟩
  | cons name dir ih =>
    have hassoc : place i ++ name :: dir = place i ++ [name] ++ dir := by simp
    have hname : NameFits st.nodes place i name :=
      hfits (place i) name (by rw [hassoc]; exact List.prefix_append _ _) i hi rfl
    obtain ⟨hfound, hmissing⟩ := searchRelative_chain h hi hname
    rw [List.cons_append, MountedVfs.constructComponents]
    cases hsearch : searchRelative st.nodes i name with
    | none =>
      rw [hassoc] at hholds
      exact absurd (h.holds_prefix hholds) (hmissing hsearch)
    | some j =>
      obtain ⟨hj, hplace⟩ := hfound j hsearch
      rw [hassoc, ← hplace]
      rw [hassoc, ← hplace] at hfits hholds
      exact ih hj hfits hholds

/-- The constructor for a name in a directory that exists: nothing happens if the search finds a node with the name,
and otherwise the node is added in its place. -/
theorem constructNode_cases (h : NodeChain st.nodes place) {dir : List LibString}
    (hfits : PathFits st.nodes place dir) (hholds : Holds st.nodes place dir) {path : LibString}
    (hpath : components path = dir ++ [name]) :
    ∃ k < st.nodes.length, place k = dir ∧
      ((∃ j, searchRelative st.nodes k name = some j ∧ st.construct path = st) ∨
        searchRelative st.nodes k name = none ∧ st.construct path = st.create k name) := by
  have hroot : place 0 ++ dir = dir := by rw [h.rootPlace, List.nil_append]
  rw [← hroot] at hfits hholds
  obtain ⟨k, hk, hplace, heq⟩ := constructComponents_through h dir [name] h.nonempty hfits hholds
  rw [hroot] at hplace
  refine ⟨k, hk, hplace, ?_⟩
  unfold MountedVfs.construct
  rw [splitPath_eq, components_skipSlash, hpath, heq, MountedVfs.constructComponents]
  cases hsearch : searchRelative st.nodes k name with
  | none => exact Or.inr ⟨rfl, rfl⟩
  | some j => exact Or.inl ⟨j, rfl, rfl⟩

end Construct

/-! ## Paths of a tree -/

section Paths

variable {entries : ℕ → Option (List RawDir)}

theorem resolve_append (q r : List LibString) (d : ℕ) :
    resolve entries d (q ++ r) = (resolve entries d q).bind fun k => resolve entries k r := by
  induction q generalizing d with
  | nil => rfl
  | cons name q ih =>
    rw [List.cons_append, resolve, resolve]
    cases entries d with
    | none => rfl
    | some es =>
      rw [Option.bind_some, Option.bind_some]
      cases namedIn es name with
      | none => rfl
      | some k =>
        rw [Option.bind_some, Option.bind_some]
        exact ih k

/-- INTERNAL: with a file there are the directories above it. -/
theorem fileAt_dir {q : List LibString} {name : LibString} {k : ℕ} (h : FileAt entries (q ++ [name]) k) :
    ∃ d es, resolve entries 2 q = some d ∧ entries d = some es ∧ namedIn es name = some k ∧
      (∀ name ∈ q, isDots name = false) ∧ isDots name = false := by
  obtain ⟨_, hdots, hresolve⟩ := h
  rw [resolve_append] at hresolve
  obtain ⟨d, hd, hname⟩ := Option.bind_eq_some_iff.mp hresolve
  rw [resolve] at hname
  obtain ⟨es, hes, hnamed⟩ := Option.bind_eq_some_iff.mp hname
  obtain ⟨k', hk', hlast⟩ := Option.bind_eq_some_iff.mp hnamed
  obtain rfl : k' = k := Option.some.inj hlast
  exact ⟨d, es, hd, hes, hk', fun n hn => hdots n (List.mem_append_left _ hn),
    hdots name (List.mem_append_right _ (List.mem_singleton_self _))⟩

theorem fileAt_of_prefix {q q' : List LibString} {k : ℕ} (h : FileAt entries q k) (hq' : q' ≠ []) (hpre : q' <+: q) :
    ∃ k', FileAt entries q' k' := by
  obtain ⟨r, rfl⟩ := hpre
  obtain ⟨_, hdots, hresolve⟩ := h
  rw [resolve_append] at hresolve
  obtain ⟨k', hk', _⟩ := Option.bind_eq_some_iff.mp hresolve
  exact ⟨k', hq', fun n hn => hdots n (List.mem_append_left _ hn), hk'⟩

theorem namedIn_mem {es : List RawDir} {name : LibString} {k : ℕ} (h : namedIn es name = some k) :
    ∃ e ∈ liveEntries es, e.name = name ∧ e.inode = k := by
  obtain ⟨e, he, hk⟩ := Option.map_eq_some_iff.mp h
  have hname := List.find?_some he
  exact ⟨e, List.mem_of_find?_eq_some he, by simpa using hname, hk⟩

/-- INTERNAL: an entry in use is what its name leads to. -/
theorem namedIn_entry {es : List RawDir} (hnames : ((liveEntries es).map RawDir.name).Nodup) {e : RawDir}
    (he : e ∈ liveEntries es) : namedIn es e.name = some e.inode := by
  unfold namedIn
  cases hfind : (liveEntries es).find? fun e' => e'.name = e.name with
  | none =>
    have hall := List.find?_eq_none.mp hfind e he
    simp at hall
  | some e' =>
    have hmem := List.mem_of_find?_eq_some hfind
    have hname : e'.name = e.name := by simpa using List.find?_some hfind
    rw [List.inj_on_of_nodup_map hnames hmem he hname]
    rfl

end Paths

/-! ## Joined paths -/

section Joined

/-- The path that `refresh_node` passes on for a directory. -/
def gateOf (dir : List LibString) : LibString := if dir = [] then [slash] else canonical dir ++ [slash]

theorem gateOf_append (dir : List LibString) (name : LibString) : gateOf dir ++ name = canonical (dir ++ [name]) := by
  rw [canonical_append]
  unfold gateOf
  by_cases hdir : dir = []
  · rw [if_pos hdir, if_neg (not_not.mpr hdir), hdir]
    rfl
  · rw [if_neg hdir, if_pos hdir]

theorem gateOf_append_slash (dir : List LibString) (name : LibString) :
    gateOf dir ++ name ++ [slash] = gateOf (dir ++ [name]) := by
  rw [gateOf_append]
  unfold gateOf
  rw [if_neg (by simp)]

/-- INTERNAL: a slash at the end makes no difference. -/
theorem runsAfter_append_slash (before : Byte) (s : LibString) :
    runsAfter before (s ++ [slash]) = runsAfter before s := by
  have htake : ∀ l : LibString, (l ++ [slash]).takeWhile (· ≠ slash) = l.takeWhile (· ≠ slash) := by
    intro l
    induction l with
    | nil => rfl
    | cons c l ih =>
      rw [List.cons_append]
      by_cases hc : c = slash
      · rw [List.takeWhile_cons_of_neg (by simpa using hc), List.takeWhile_cons_of_neg (by simpa using hc)]
      · rw [List.takeWhile_cons_of_pos (by simpa using hc), List.takeWhile_cons_of_pos (by simpa using hc), ih]
  induction s generalizing before with
  | nil =>
    rw [List.nil_append, runsAfter_cons, if_neg (fun h => h.1 rfl)]
    rfl
  | cons c s ih => rw [List.cons_append, runsAfter_cons, runsAfter_cons, ih, ← List.cons_append, htake]

theorem components_append_slash (s : LibString) : components (s ++ [slash]) = components s := by
  rw [components_eq_runs, components_eq_runs]
  exact runsAfter_append_slash slash s

end Joined

/-! ## Publishing a directory -/

/-- The directory with the path `dir` is the inode `d` with the entries `es`. -/
structure DirectoryAt (entries : ℕ → Option (List RawDir)) (dir : List LibString) (d : ℕ) (es : List RawDir) :
    Prop where
  dots : ∀ name ∈ dir, isDots name = false
  resolved : resolve entries 2 dir = some d
  entries_eq : entries d = some es

/-- What holds while a tree is published: the nodes that are added are those of files, and of `.` and `..` in
directories. -/
structure Refreshing (entries : ℕ → Option (List RawDir)) (st₀ st : MountedVfs) (place : ℕ → List LibString) :
    Prop where
  chain : NodeChain st.nodes place
  grows : NodesGrow st₀ st
  known : ∀ i, st₀.nodes.length ≤ i → i < st.nodes.length →
    (∃ k, FileAt entries (place i) k) ∨
      ∃ dir dots d es, place i = dir ++ [dots] ∧ isDots dots = true ∧ DirectoryAt entries dir d es

section Publish

variable {g : Ext2Super} {disk : Memory} {entries : ℕ → Option (List RawDir)} {depth : ℕ → ℕ} {st₀ st : MountedVfs}
  {place : ℕ → List LibString} {target : LibString}

/-- INTERNAL: the name of a file is found in its own directory only. -/
theorem Refreshing.nameFits (h : Refreshing entries st₀ st place) (hfits : MountFits st₀ target entries)
    {dir : List LibString} {name : LibString} {k i : ℕ} (hfile : FileAt entries (dir ++ [name]) k)
    (hplace : place i = dir) : NameFits st.nodes place i name := by
  intro j hpos hj hname
  have heq := h.chain.place_eq j hpos hj
  rw [hname] at heq
  by_cases hold : j < st₀.nodes.length
  · have hnode := (h.grows.old j hold).1
    rw [hnode] at hname
    exact absurd hname (hfits.newNames dir name k hfile _ (nodeAt_mem hold))
  · cases h.known j (Nat.le_of_not_lt hold) hj with
    | inl hknown =>
      obtain ⟨k', hk'⟩ := hknown
      rw [heq] at hk' ⊢
      rw [hplace, hfits.oneDirectory _ _ name k' k hk' hfile]
    | inr hknown =>
      obtain ⟨dir', dots, d, es, hdots, hisDots, _⟩ := hknown
      rw [heq] at hdots
      have hlast : name = dots := (List.cons.inj (List.append_inj' hdots rfl).2).1
      obtain ⟨_, _, _, _, _, _, hnot⟩ := fileAt_dir hfile
      rw [hlast, hisDots] at hnot
      cases hnot

/-- INTERNAL: the names of a directory of the tree fit. -/
theorem Refreshing.pathFits (h : Refreshing entries st₀ st place) (hfits : MountFits st₀ target entries)
    {dir : List LibString} {d : ℕ} {es : List RawDir} (hdir : DirectoryAt entries dir d es) :
    PathFits st.nodes place dir := by
  intro above name hpre i hi hplace
  have hne : dir ≠ [] := by
    intro hnil
    rw [hnil, List.prefix_nil] at hpre
    simp at hpre
  have hwhole : FileAt entries dir d := ⟨hne, hdir.dots, hdir.resolved⟩
  obtain ⟨k, hk⟩ := fileAt_of_prefix hwhole (by simp) hpre
  exact h.nameFits hfits hk hplace

/-- INTERNAL: one more node. -/
theorem Refreshing.create (h : Refreshing entries st₀ st place) {i : ℕ} {name : LibString} (hi : i < st.nodes.length)
    (hnew : ¬ Holds st.nodes place (place i ++ [name]))
    (hknown : (∃ k, FileAt entries (place i ++ [name]) k) ∨
      ∃ dir dots d es, place i ++ [name] = dir ++ [dots] ∧ isDots dots = true ∧ DirectoryAt entries dir d es) :
    ∃ place', Refreshing entries st₀ (st.create i name) place' ∧
      ∀ names, Holds (st.create i name).nodes place' names ↔ Holds st.nodes place names ∨ names = place i ++ [name] := by
  obtain ⟨hchain, hholds⟩ := createNode_chain h.chain hi hnew
  refine ⟨_, ⟨hchain, h.grows.trans (grows_create st hi name), ?_⟩, hholds⟩
  intro j hle hj
  have hlength : (st.create i name).nodes.length = st.nodes.length + 1 := length_createNode _ _ _
  by_cases hold : j < st.nodes.length
  · rw [Function.update_of_ne (Nat.ne_of_lt hold)]
    exact h.known j hle hold
  · have hj : j = st.nodes.length := by omega
    rw [hj, Function.update_self]
    exact hknown

/-- INTERNAL: the constructor for a file of the tree. -/
theorem Refreshing.construct_file (h : Refreshing entries st₀ st place) (hfits : MountFits st₀ target entries)
    {dir : List LibString} {d : ℕ} {es : List RawDir} (hdir : DirectoryAt entries dir d es)
    (hholds : Holds st.nodes place dir) {name path : LibString} {k : ℕ} (hfile : FileAt entries (dir ++ [name]) k)
    (hpath : components path = dir ++ [name]) :
    ∃ place', Refreshing entries st₀ (st.construct path) place' ∧
      (∀ names, Holds st.nodes place names → Holds (st.construct path).nodes place' names) ∧
      Holds (st.construct path).nodes place' (dir ++ [name]) := by
  obtain ⟨i, hi, hplace, hcases⟩ := constructNode_cases h.chain (h.pathFits hfits hdir) hholds hpath
  cases hcases with
  | inl hfound =>
    obtain ⟨j, hsearch, heq⟩ := hfound
    obtain ⟨hj, hplacej⟩ := (searchRelative_chain h.chain hi (h.nameFits hfits hfile hplace)).1 j hsearch
    rw [heq]
    rw [hplace] at hplacej
    exact ⟨place, h, fun _ hnames => hnames, j, hj, hplacej⟩
  | inr hmissing =>
    obtain ⟨hnone, heq⟩ := hmissing
    rw [← hplace] at hfile ⊢
    obtain ⟨place', hrefreshing, hnames⟩ := h.create hi (not_holds_of_none h.chain hi hnone) (Or.inl ⟨k, hfile⟩)
    rw [heq]
    exact ⟨place', hrefreshing, fun names hold => (hnames names).mpr (Or.inl hold), (hnames _).mpr (Or.inr rfl)⟩

/-- INTERNAL: the constructor for `.` or `..` in a directory of the tree. -/
theorem Refreshing.construct_dots (h : Refreshing entries st₀ st place) (hfits : MountFits st₀ target entries)
    {dir : List LibString} {d : ℕ} {es : List RawDir} (hdir : DirectoryAt entries dir d es)
    (hholds : Holds st.nodes place dir) {name path : LibString} (hdots : isDots name = true)
    (hpath : components path = dir ++ [name]) :
    ∃ place', Refreshing entries st₀ (st.construct path) place' ∧
      ∀ names, Holds st.nodes place names → Holds (st.construct path).nodes place' names := by
  obtain ⟨i, hi, hplace, hcases⟩ := constructNode_cases h.chain (h.pathFits hfits hdir) hholds hpath
  cases hcases with
  | inl hfound =>
    obtain ⟨j, _, heq⟩ := hfound
    rw [heq]
    exact ⟨place, h, fun _ hnames => hnames⟩
  | inr hmissing =>
    obtain ⟨hnone, heq⟩ := hmissing
    have hknown : ∃ dir dots d es, place i ++ [name] = dir ++ [dots] ∧ isDots dots = true ∧
        DirectoryAt entries dir d es := ⟨dir, name, d, es, by rw [hplace], hdots, hdir⟩
    obtain ⟨place', hrefreshing, hnames⟩ := h.create hi (not_holds_of_none h.chain hi hnone) (Or.inr hknown)
    rw [heq]
    exact ⟨place', hrefreshing, fun names hold => (hnames names).mpr (Or.inl hold)⟩

/-- INTERNAL: the names of a path are those of entries. -/
theorem resolve_names {q : List LibString} {d k : ℕ} (h : resolve entries d q = some k) :
    ∀ name ∈ q, ∃ d es, ∃ e ∈ liveEntries es, entries d = some es ∧ e.name = name := by
  induction q generalizing d with
  | nil => exact fun name hname => by cases hname
  | cons first q ih =>
    rw [resolve] at h
    obtain ⟨es, hes, hrest⟩ := Option.bind_eq_some_iff.mp h
    obtain ⟨k', hk', hrest⟩ := Option.bind_eq_some_iff.mp hrest
    intro name hname
    cases List.mem_cons.mp hname with
    | inl heq =>
      obtain ⟨e, he, hfirst, _⟩ := namedIn_mem hk'
      exact ⟨d, es, e, he, hes, hfirst.trans heq.symm⟩
    | inr hmem => exact ih hrest name hmem

theorem names_valid (htree : MountableTree g disk entries depth) {q : List LibString} {d k : ℕ}
    (h : resolve entries d q = some k) : ∀ name ∈ q, name ≠ [] ∧ slash ∉ name ∧ 0 ∉ name := by
  intro name hname
  obtain ⟨d', es, e, he, hes, heq⟩ := resolve_names h name hname
  rw [← heq]
  exact htree.names d' es hes e he

/-- INTERNAL: the path that is constructed for an entry, with or without a slash at its end. -/
theorem components_entry (htree : MountableTree g disk entries depth) {dir : List LibString} {d : ℕ} {es : List RawDir}
    (hdir : DirectoryAt entries dir d es) {e : RawDir} (he : e ∈ liveEntries es) :
    components (gateOf dir ++ e.name) = dir ++ [e.name] ∧
      components (gateOf dir ++ e.name ++ [slash]) = dir ++ [e.name] := by
  have hvalid : ∀ name ∈ dir ++ [e.name], name ≠ [] ∧ slash ∉ name := by
    intro name hname
    cases List.mem_append.mp hname with
    | inl hmem =>
      obtain ⟨hne, hslash, _⟩ := names_valid htree hdir.resolved name hmem
      exact ⟨hne, hslash⟩
    | inr hmem =>
      rw [List.mem_singleton.mp hmem]
      obtain ⟨hne, hslash, _⟩ := htree.names d es hdir.entries_eq e he
      exact ⟨hne, hslash⟩
  have hcanonical : components (gateOf dir ++ e.name) = dir ++ [e.name] := by
    rw [gateOf_append, components_canonical hvalid]
  exact ⟨hcanonical, by rw [components_append_slash, hcanonical]⟩

/-- INTERNAL: an entry of a directory of the tree is a file of the tree. -/
theorem fileAt_entry (htree : MountableTree g disk entries depth) {dir : List LibString} {d : ℕ} {es : List RawDir}
    (hdir : DirectoryAt entries dir d es) {e : RawDir} (he : e ∈ liveEntries es) (hdots : isDots e.name = false) :
    FileAt entries (dir ++ [e.name]) e.inode := by
  refine ⟨by simp, ?_, ?_⟩
  · intro name hname
    cases List.mem_append.mp hname with
    | inl hmem => exact hdir.dots name hmem
    | inr hmem =>
      rw [List.mem_singleton.mp hmem]
      exact hdots
  · have hnamed := namedIn_entry (htree.directories d es hdir.entries_eq).names he
    rw [resolve_append, hdir.resolved, Option.bind_some, resolve, hdir.entries_eq, Option.bind_some, hnamed,
      Option.bind_some, resolve]

/-- INTERNAL: below a file that is no directory there is nothing. -/
theorem fileAt_below {q rest : List LibString} {k k' : ℕ} (h : resolve entries 2 q = some k)
    (hnone : entries k = none) (hfile : FileAt entries (q ++ rest) k') : rest = [] := by
  cases rest with
  | nil => rfl
  | cons name rest =>
    have hresolve := hfile.2.2
    rw [resolve_append, h, Option.bind_some, resolve, hnone] at hresolve
    cases hresolve

/-- INTERNAL: what the test for a directory says of the types of files. -/
theorem looksLikeDirectory_iff {ino : Inode} {t : FileType} (h : HasType ino t) :
    ino.looksLikeDirectory = true ↔ t = .directory ∨ t = .blockDevice ∨ t = .socket := by
  have hlt : ino.raw.word 0 2 < 2 ^ 16 := Memory.word_lt
  have hbit : ino.looksLikeDirectory = t.bits.testBit 2 := by
    unfold Inode.looksLikeDirectory
    rw [BitVec.getLsbD_ofNat, ← h.bits, Nat.testBit_div_two_pow]
    simp
  rw [hbit]
  cases t <;> decide

end Publish

/-! ## The recursion -/

section Recursion

variable {g : Ext2Super} {heap disk : Memory} {entries : ℕ → Option (List RawDir)} {depth : ℕ → ℕ}
  {st₀ st : MountedVfs} {place : ℕ → List LibString} {target : LibString}

/-- Everything from a directory on has a node. -/
def PublishedFrom (entries : ℕ → Option (List RawDir)) (st : MountedVfs) (place : ℕ → List LibString)
    (dir : List LibString) : Prop :=
  ∀ rest k, FileAt entries (dir ++ rest) k → Holds st.nodes place (dir ++ rest)

/-- INTERNAL: nodes are there, and more of them. -/
def MoreHolds (st st' : MountedVfs) (place place' : ℕ → List LibString) : Prop :=
  ∀ names, Holds st.nodes place names → Holds st'.nodes place' names

/-- What is asked of the calls for the directories in a directory. -/
structure RecurPublishes (g : Ext2Super) (disk : Memory) (entries : ℕ → Option (List RawDir)) (depth : ℕ → ℕ)
    (st₀ : MountedVfs) (d : ℕ) (recur : Inode → LibString → MountedVfs → Option MountedVfs) : Prop where
  empty : ∀ ino gate st, ino.size32l = 0 → recur ino gate st = some st
  directory : ∀ dir d' es st place, DirectoryAt entries dir d' es → depth d' < depth d →
    Refreshing entries st₀ st place → Holds st.nodes place dir →
    ∃ st' place', recur (readInode g disk d') (gateOf dir) st = some st' ∧ Refreshing entries st₀ st' place' ∧
      MoreHolds st st' place place' ∧ PublishedFrom entries st' place' dir

/-- INTERNAL: the node of an entry, and what is below it. -/
def publishEntry (g : Ext2Super) (disk : Memory) (recur : Inode → LibString → MountedVfs → Option MountedVfs)
    (gate : LibString) (e : RawDir) (st : MountedVfs) : Option MountedVfs :=
  if isDots e.name then some (st.construct (gate ++ e.name))
  else if (readInode g disk e.inode).looksLikeDirectory then
    recur (readInode g disk e.inode) (gate ++ e.name ++ [slash]) (st.construct (gate ++ e.name ++ [slash]))
  else some (st.construct (gate ++ e.name))

theorem publishEntry_spec (htree : MountableTree g disk entries depth) (hfits : MountFits st₀ target entries)
    {recur : Inode → LibString → MountedVfs → Option MountedVfs} {dir : List LibString} {d : ℕ} {es : List RawDir}
    (hrecur : RecurPublishes g disk entries depth st₀ d recur) (hdir : DirectoryAt entries dir d es)
    (h : Refreshing entries st₀ st place) (hholds : Holds st.nodes place dir) {e : RawDir} (he : e ∈ liveEntries es) :
    ∃ st' place', publishEntry g disk recur (gateOf dir) e st = some st' ∧ Refreshing entries st₀ st' place' ∧
      MoreHolds st st' place place' ∧ (isDots e.name = false → PublishedFrom entries st' place' (dir ++ [e.name])) := by
  obtain ⟨hpath, hslash⟩ := components_entry htree hdir he
  unfold publishEntry
  by_cases hdots : isDots e.name = true
  · obtain ⟨place', hrefreshing, hmore⟩ := h.construct_dots hfits hdir hholds hdots hpath
    rw [if_pos hdots]
    refine ⟨_, place', rfl, hrefreshing, hmore, ?_⟩
    intro hnot
    rw [hdots] at hnot
    cases hnot
  · have hnot : isDots e.name = false := by simpa using hdots
    have hfile := fileAt_entry htree hdir he hnot
    obtain ⟨t, htype, hkind⟩ := htree.types d es hdir.entries_eq e he
    -- a file that is no directory is published with its node
    have hsingle : ∀ st' place', entries e.inode = none → Holds st'.nodes place' (dir ++ [e.name]) →
        PublishedFrom entries st' place' (dir ++ [e.name]) := by
      intro st' place' hnone hself rest k hrest
      have hnil := fileAt_below hfile.2.2 hnone hrest
      rw [hnil, List.append_nil]
      exact hself
    rw [if_neg hdots]
    by_cases hlooks : (readInode g disk e.inode).looksLikeDirectory = true
    · rw [if_pos hlooks]
      obtain ⟨place₁, hrefreshing₁, hmore₁, hself₁⟩ := h.construct_file hfits hdir hholds hfile hslash
      cases hentries : entries e.inode with
      | none =>
        have hnotDirectory : t ≠ .directory := fun heq => hkind.mp heq hentries
        have hempty : (readInode g disk e.inode).size32l = 0 := by
          apply htype.contents hnotDirectory
          · intro heq
            rw [heq] at htype
            exact absurd ((looksLikeDirectory_iff htype).mp hlooks) (by decide)
          · intro heq
            rw [heq] at htype
            exact absurd ((looksLikeDirectory_iff htype).mp hlooks) (by decide)
        rw [hrecur.empty _ _ _ hempty]
        exact ⟨_, place₁, rfl, hrefreshing₁, hmore₁, fun _ => hsingle _ _ hentries hself₁⟩
      | some es' =>
        have hsub : DirectoryAt entries (dir ++ [e.name]) e.inode es' := ⟨hfile.2.1, hfile.2.2, hentries⟩
        have hdepth : depth e.inode < depth d :=
          htree.acyclic d es hdir.entries_eq e he hnot (by rw [hentries]; exact Option.some_ne_none _)
        obtain ⟨st', place', heq, hrefreshing, hmore, hpublished⟩ :=
          hrecur.directory _ _ _ _ _ hsub hdepth hrefreshing₁ hself₁
        rw [← gateOf_append_slash] at heq
        rw [heq]
        exact ⟨st', place', rfl, hrefreshing, fun names hnames => hmore names (hmore₁ names hnames),
          fun _ => hpublished⟩
    · rw [if_neg hlooks]
      have hnone : entries e.inode = none := by
        by_contra hsome
        exact hlooks ((looksLikeDirectory_iff htype).mpr (Or.inl (hkind.mpr hsome)))
      obtain ⟨place', hrefreshing, hmore, hself⟩ := h.construct_file hfits hdir hholds hfile hpath
      exact ⟨_, place', rfl, hrefreshing, hmore, fun _ => hsingle _ _ hnone hself⟩

/-- INTERNAL: the loop over the entries of a directory. -/
theorem refreshLoop_spec (htree : MountableTree g disk entries depth) (hfits : MountFits st₀ target entries)
    {recur : Inode → LibString → MountedVfs → Option MountedVfs} {dir : List LibString} {d : ℕ} {es : List RawDir}
    (hrecur : RecurPublishes g disk entries depth st₀ d recur) (hdir : DirectoryAt entries dir d es)
    {buffer : Memory} {size : ℕ} (es' : List RawDir) {i fuel : ℕ} (hentries : EntriesAt buffer size i es')
    (hsub : ∀ e ∈ es', e ∈ liveEntries es) (hreached : reached es' = es') (hfuel : size ≤ i + fuel)
    (h : Refreshing entries st₀ st place) (hholds : Holds st.nodes place dir) :
    ∃ st' place', refreshLoop g disk recur buffer size (gateOf dir) fuel i st = some st' ∧
      Refreshing entries st₀ st' place' ∧ MoreHolds st st' place place' ∧
      ∀ e ∈ es', isDots e.name = false → PublishedFrom entries st' place' (dir ++ [e.name]) := by
  induction es' generalizing st place i fuel with
  | nil =>
    have hend : ¬ i < size := by
      rw [show i = size from hentries]
      exact Nat.lt_irrefl size
    have hstop : refreshLoop g disk recur buffer size (gateOf dir) fuel i st = some st := by
      cases fuel with
      | zero => rfl
      | succ fuel => rw [refreshLoop, if_neg hend]
    exact ⟨st, place, hstop, h, fun _ hnames => hnames, fun e he => by cases he⟩
  | cons e es' ih =>
    obtain ⟨hentry, hlong, hinside, hrest⟩ := hentries
    have hroom := name_fits e.nameLength
    cases fuel with
    | zero => omega
    | succ fuel =>
      obtain ⟨st₁, place₁, hpublish, h₁, hmore₁, hpublished₁⟩ :=
        publishEntry_spec htree hfits hrecur hdir h hholds (hsub e List.mem_cons_self)
      have hloop : refreshLoop g disk recur buffer size (gateOf dir) (fuel + 1) i st =
          (publishEntry g disk recur (gateOf dir) e st).bind fun st =>
            if e.entrySize ≠ expectedSize e.nameLength then some st
            else refreshLoop g disk recur buffer size (gateOf dir) fuel (i + e.entrySize) st := by
        rw [refreshLoop, if_pos (by omega), hentry]
        rfl
      rw [hloop, hpublish, Option.bind_some]
      by_cases hsize : e.entrySize = expectedSize e.nameLength
      · rw [if_neg (not_not.mpr hsize)]
        rw [reached, if_pos hsize] at hreached
        have hnext : size ≤ i + e.entrySize + fuel := by omega
        obtain ⟨st', place', heq, h', hmore', hpublished'⟩ := ih hrest
          (fun e' he' => hsub e' (List.mem_cons_of_mem _ he')) (List.cons.inj hreached).2 hnext h₁ (hmore₁ _ hholds)
        refine ⟨st', place', heq, h', fun names hnames => hmore' names (hmore₁ names hnames), ?_⟩
        intro e' he' hnot rest k hfile
        cases List.mem_cons.mp he' with
        | inl hfirst =>
          rw [hfirst] at hnot hfile ⊢
          exact hmore' _ (hpublished₁ hnot rest k hfile)
        | inr hmem => exact hpublished' e' hmem hnot rest k hfile
      · rw [if_pos hsize]
        rw [reached, if_neg hsize] at hreached
        have hlast : es' = [] := (List.cons.inj hreached).2.symm
        refine ⟨st₁, place₁, rfl, h₁, hmore₁, ?_⟩
        intro e' he' hnot
        rw [hlast, List.mem_singleton] at he'
        rw [he'] at hnot ⊢
        exact hpublished₁ hnot

/-- INTERNAL: a directory without contents. -/
theorem refreshNode_empty {ino : Inode} (hempty : ino.size32l = 0) (fuel : ℕ) (gate : LibString) (st : MountedVfs) :
    refreshNode g heap disk (fuel + 1) ino gate st = some st := by
  rw [refreshNode, hempty]
  rfl

/-- **The recursion**: everything from a directory of the tree on is published. -/
theorem refreshNode_spec (htree : MountableTree g disk entries depth) (hfits : MountFits st₀ target entries) (fuel : ℕ)
    {dir : List LibString} {d : ℕ} {es : List RawDir} (hdir : DirectoryAt entries dir d es)
    (hfuel : depth d + 1 < fuel) (h : Refreshing entries st₀ st place) (hholds : Holds st.nodes place dir) :
    ∃ st' place', refreshNode g heap disk fuel (readInode g disk d) (gateOf dir) st = some st' ∧
      Refreshing entries st₀ st' place' ∧ MoreHolds st st' place place' ∧ PublishedFrom entries st' place' dir := by
  induction fuel generalizing dir d es st place with
  | zero => omega
  | succ fuel ih =>
    have hrecur : RecurPublishes g disk entries depth st₀ d (refreshNode g heap disk fuel) := by
      constructor
      · intro ino gate st hempty
        obtain ⟨m, rfl⟩ : ∃ m, fuel = m + 1 := ⟨fuel - 1, by omega⟩
        exact refreshNode_empty hempty m gate st
      · intro dir' d' es' st place hdir' hdepth h hholds
        exact ih hdir' (by omega) h hholds
    have hdirectory := htree.directories d es hdir.entries_eq
    have hentries : EntriesAt ((readInode g disk d).read g disk 0 (readInode g disk d).size32l heap)
        (readInode g disk d).size32l 0 es := by
      apply entriesAt_congr hdirectory.entries
      intro a ha
      exact read_directory htree.blockSize ha
    have hlive := hfits.live d es hdir.entries_eq
    obtain ⟨st', place', heq, h', hmore, hpublished⟩ := refreshLoop_spec htree hfits hrecur hdir es hentries
      (fun e he => by rw [hlive]; exact he) (hfits.reached d es hdir.entries_eq)
      (Nat.le_of_eq (Nat.zero_add _).symm) h hholds
    refine ⟨st', place', heq, h', hmore, ?_⟩
    intro rest k hfile
    cases rest with
    | nil =>
      rw [List.append_nil]
      exact hmore _ hholds
    | cons name rest =>
      have hassoc : dir ++ name :: rest = dir ++ [name] ++ rest := by simp
      rw [hassoc] at hfile ⊢
      obtain ⟨k', hfirst⟩ := fileAt_of_prefix hfile (by simp) (List.prefix_append _ rest)
      obtain ⟨d', es', hd', hes', hnamed, _, hnot⟩ := fileAt_dir hfirst
      obtain rfl : d' = d := Option.some.inj (hd'.symm.trans hdir.resolved)
      obtain rfl : es' = es := Option.some.inj (hes'.symm.trans hdir.entries_eq)
      obtain ⟨e, he, hname, _⟩ := namedIn_mem hnamed
      rw [hlive] at he
      rw [← hname] at hnot hfile ⊢
      exact hpublished e he hnot rest k hfile

end Recursion

/-! ## The mount -/

section Mount

variable {g : Ext2Super} {heap disk : Memory} {entries : ℕ → Option (List RawDir)} {depth : ℕ → ℕ}
  {st₀ st : MountedVfs} {place : ℕ → List LibString} {target : LibString}

/-- INTERNAL: the node of a file of the tree is new. -/
theorem Refreshing.new_node (h : Refreshing entries st₀ st place) (hfits : MountFits st₀ target entries)
    {q : List LibString} {k i : ℕ} (hfile : FileAt entries q k) (hi : i < st.nodes.length) (hplace : place i = q) :
    st₀.nodes.length ≤ i := by
  obtain ⟨dir, name, rfl⟩ : ∃ dir name, q = dir ++ [name] :=
    ⟨q.dropLast, q.getLast hfile.1, (List.dropLast_append_getLast hfile.1).symm⟩
  have hpos := h.chain.pos_of_place hplace
  have heq := h.chain.place_eq i hpos hi
  rw [hplace] at heq
  have hname : name = (nodeAt st.nodes i).name := (List.cons.inj (List.append_inj' heq rfl).2).1
  by_contra hold
  have hlt : i < st₀.nodes.length := Nat.lt_of_not_le hold
  rw [(h.grows.old i hlt).1] at hname
  exact hfits.newNames dir name k hfile _ (nodeAt_mem hlt) hname.symm

/-- INTERNAL: the nodes of the tree have the file system of the root. -/
theorem Refreshing.filesystem_eq (h : Refreshing entries st₀ st place) (hfits : MountFits st₀ target entries)
    {f : ℕ} (hroot : st₀.filesystem 0 = some f) (hnonempty : 0 < st₀.nodes.length) {q : List LibString} {k i : ℕ}
    (hfile : FileAt entries q k) (hi : i < st.nodes.length) (hplace : place i = q) :
    st.filesystem (nodeAt st.nodes i).parent = some f ∧ st.filesystem i = some f := by
  induction q using List.reverseRecOn generalizing k i with
  | nil => exact absurd rfl hfile.1
  | append_singleton dir name ih =>
    have hnew := h.new_node hfits hfile hi hplace
    obtain ⟨hlt, hinherit, _⟩ := h.grows.new i hnew hi
    have hpos := h.chain.pos_of_place hplace
    have heq := h.chain.place_eq i hpos hi
    rw [hplace] at heq
    have hparent : place (nodeAt st.nodes i).parent = dir := (List.append_inj' heq rfl).1.symm
    have hparentFs : st.filesystem (nodeAt st.nodes i).parent = some f := by
      by_cases hnil : dir = []
      · have hzero : (nodeAt st.nodes i).parent = 0 := by
          apply h.chain.distinct _ (Nat.lt_trans hlt hi) 0 h.chain.nonempty
          rw [hparent, hnil, h.chain.rootPlace]
        rw [hzero, (h.grows.old 0 hnonempty).2.1, hroot]
      · obtain ⟨k', hk'⟩ := fileAt_of_prefix hfile hnil (List.prefix_append dir [name])
        exact (ih hk' (Nat.lt_trans hlt hi) hparent).2
    exact ⟨hparentFs, hinherit.trans hparentFs⟩

theorem zero_notMem_intercalate {q : List LibString} (hvalid : ∀ name ∈ q, 0 ∉ name) :
    (0 : Byte) ∉ [slash].intercalate q := by
  induction q with
  | nil => exact List.not_mem_nil
  | cons name q ih =>
    have hname := hvalid name List.mem_cons_self
    have hrest := ih fun other hother => hvalid other (List.mem_cons_of_mem _ hother)
    cases q with
    | nil =>
      rw [List.intercalate_singleton]
      exact hname
    | cons next q =>
      rw [List.intercalate_cons_cons]
      simp only [List.mem_append, List.mem_singleton, not_or]
      exact ⟨⟨hname, by decide⟩, hrest⟩

/-- INTERNAL: the relative path below a gate that is `/`. -/
theorem components_relative {q : List LibString} (hvalid : ∀ name ∈ q, name ≠ [] ∧ slash ∉ name ∧ 0 ∉ name) :
    components (((canonical q).drop 1).takeWhile (· ≠ 0)) = q := by
  have hdrop : (canonical q).drop 1 = [slash].intercalate q := rfl
  have hzero : (0 : Byte) ∉ [slash].intercalate q := zero_notMem_intercalate fun name hname => (hvalid name hname).2.2
  have hwhole : ([slash].intercalate q).takeWhile (· ≠ 0) = [slash].intercalate q := by
    apply List.takeWhile_eq_self_iff.mpr
    intro c hc
    have hne : c ≠ 0 := fun heq => hzero (heq ▸ hc)
    simpa using hne
  rw [hdrop, hwhole, ← components_slash]
  exact components_canonical fun name hname => ⟨(hvalid name hname).1, (hvalid name hname).2.1⟩

/-- INTERNAL: when all files have nodes, the tree is published. -/
theorem Refreshing.publishes (h : Refreshing entries st₀ st place) (htree : MountableTree g disk entries depth)
    (hfits : MountFits st₀ target entries) {f : ℕ} (hroot : st₀.filesystem 0 = some f)
    (hgate : st₀.gates f = some [slash]) (hnonempty : 0 < st₀.nodes.length)
    (hpublished : PublishedFrom entries st place []) : PublishesTree entries [slash] st := by
  intro q k hfile
  obtain ⟨i, hi, hplace⟩ := hpublished q k hfile
  rw [List.nil_append] at hplace
  have hnew := h.new_node hfits hfile hi hplace
  have hpath : (nodeAt st.nodes i).absolutePath = canonical q := by
    rw [h.chain.path i hi, hplace]
  refine ⟨i, hi, hpath, ?_, ?_⟩
  · have hfilesystem := (h.filesystem_eq hfits hroot hnonempty hfile hi hplace).1
    obtain ⟨_, _, hrelative⟩ := h.grows.new i hnew hi
    unfold MountedVfs.relativeTo at hrelative
    rw [hfilesystem, Option.bind_some, h.grows.gates, hgate] at hrelative
    rw [hrelative, hpath]
    exact (components_relative (names_valid htree hfile.2.2)).symm ▸ hfile.2.2
  · intro hnone j hpos hj hparent
    have heq := h.chain.place_eq j hpos hj
    rw [hparent, hplace] at heq
    have hlt := h.chain.parent_lt j hpos hj
    cases h.known j (by omega) hj with
    | inl hknown =>
      obtain ⟨k', hk'⟩ := hknown
      rw [heq] at hk'
      have hnil := fileAt_below hfile.2.2 hnone hk'
      cases hnil
    | inr hknown =>
      obtain ⟨dir, dots, d, es, hdots, _, hdir⟩ := hknown
      rw [heq] at hdots
      have hsame : q = dir := (List.append_inj' hdots rfl).1
      have hresolved := hdir.resolved
      rw [← hsame, hfile.2.2] at hresolved
      rw [Option.some.inj hresolved, hdir.entries_eq] at hnone
      cases hnone

end Mount

/-! ## A small tree -/

/-- The small tree, with the permissions of the root directory, the directory `a` and the file `a/f`. -/
def typedTree : Memory := ((smallTree.setWord 5248 2 0x41ed).setWord 6528 2 0x41ed).setWord 6656 2 0x81a4

def smallDepth (d : ℕ) : ℕ := if d = 2 then 1 else 0

/-- INTERNAL: a property of the directories of the small tree. -/
theorem smallEntries_cases {P : ℕ → List RawDir → Prop} (hroot : P 2 smallRoot)
    (hsub : P 12 [⟨13, 1024, 1, [0x66]⟩]) (d : ℕ) (es : List RawDir) (hes : smallEntries d = some es) : P d es := by
  unfold smallEntries at hes
  by_cases h2 : d = 2
  · rw [if_pos h2] at hes
    obtain rfl := Option.some.inj hes
    rw [h2]
    exact hroot
  · rw [if_neg h2] at hes
    by_cases h12 : d = 12
    · rw [if_pos h12] at hes
      obtain rfl := Option.some.inj hes
      rw [h12]
      exact hsub
    · rw [if_neg h12] at hes
      cases hes

theorem typedTree_mountable : MountableTree smallSuper typedTree smallEntries smallDepth where
  blockSize := by decide
  root := by decide
  directories := smallEntries_cases ⟨by decide, by decide, by decide⟩ ⟨by decide, by decide, by decide⟩
  names := smallEntries_cases (by decide) (by decide)
  types := by
    apply smallEntries_cases
    · intro e he
      have hmem : e ∈ smallRoot := List.mem_of_mem_filter he
      have hinode : e.inode = 2 ∨ e.inode = 12 := by
        revert e
        decide
      refine ⟨.directory, ?_, ?_⟩
      · cases hinode with
        | inl h => rw [h]; exact ⟨by decide, fun hne => absurd rfl hne⟩
        | inr h => rw [h]; exact ⟨by decide, fun hne => absurd rfl hne⟩
      · cases hinode with
        | inl h => rw [h]; decide
        | inr h => rw [h]; decide
    · intro e he
      have hinode : e.inode = 13 := by
        revert e
        decide
      rw [hinode]
      exact ⟨.regular, ⟨by decide, fun _ hne => absurd rfl hne⟩, by decide⟩
  acyclic := smallEntries_cases (by decide) (by decide)

/-- The nodes `dev`, `dev/sd` and `mnt`; a file system is on `dev/sd`. -/
def smallVfs : MountedVfs :=
  ⟨constructAll [[slash, 0x64, 0x65, 0x76, slash, 0x73, 0x64], [slash, 0x6d, 0x6e, 0x74]], fun _ => none, fun _ => [],
    fun _ => none⟩

def smallDevices (i : ℕ) : Option ℕ := if i = 2 then some 0 else none

/-- INTERNAL: the files of the small tree. -/
theorem small_fileAt {dir : List LibString} {name : LibString} {k : ℕ} (h : FileAt smallEntries (dir ++ [name]) k) :
    dir = [] ∧ name = [0x61] ∧ k = 12 ∨ dir = [[0x61]] ∧ name = [0x66] ∧ k = 13 := by
  induction dir using List.reverseRecOn generalizing name k with
  | nil =>
    obtain ⟨d, es, hd, hes, hnamed, _, hdots⟩ := fileAt_dir h
    obtain rfl : 2 = d := Option.some.inj hd
    obtain rfl : smallRoot = es := Option.some.inj hes
    obtain ⟨e, he, hname, hinode⟩ := namedIn_mem hnamed
    have hall : ∀ e ∈ liveEntries smallRoot, isDots e.name = false → e.name = [0x61] ∧ e.inode = 12 := by decide
    obtain ⟨ha, h12⟩ := hall e he (by rw [hname]; exact hdots)
    exact Or.inl ⟨rfl, hname.symm.trans ha, hinode.symm.trans h12⟩
  | append_singleton dir above ih =>
    obtain ⟨d, es, hd, hes, hnamed, habove, hdots⟩ := fileAt_dir h
    have hparent : FileAt smallEntries (dir ++ [above]) d := ⟨by simp, habove, hd⟩
    cases ih hparent with
    | inl hfirst =>
      obtain ⟨rfl, rfl, rfl⟩ := hfirst
      obtain rfl : [⟨13, 1024, 1, [0x66]⟩] = es := Option.some.inj hes
      obtain ⟨e, he, hname, hinode⟩ := namedIn_mem hnamed
      have hall : ∀ e ∈ liveEntries [⟨13, 1024, 1, [0x66]⟩], e.name = [0x66] ∧ e.inode = 13 := by decide
      obtain ⟨hf, h13⟩ := hall e he
      exact Or.inr ⟨rfl, hname.symm.trans hf, hinode.symm.trans h13⟩
    | inr hsecond =>
      obtain ⟨_, _, rfl⟩ := hsecond
      cases hes

theorem smallVfs_fits : MountFits smallVfs [slash] smallEntries where
  root := rfl
  live := smallEntries_cases (by decide) (by decide)
  reached := smallEntries_cases (by decide) (by decide)
  newNames := by
    intro dir name k hfile
    cases small_fileAt hfile with
    | inl h => rw [h.2.1]; decide
    | inr h => rw [h.2.1]; decide
  oneDirectory := by
    intro dir dir' name k k' hfile hfile'
    cases small_fileAt hfile with
    | inl h =>
      cases small_fileAt hfile' with
      | inl h' => rw [h.1, h'.1]
      | inr h' => exact absurd (h.2.1.symm.trans h'.2.1) (by decide)
    | inr h =>
      cases small_fileAt hfile' with
      | inl h' => exact absurd (h.2.1.symm.trans h'.2.1) (by decide)
      | inr h' => rw [h.1, h'.1]

/-- The path `/dev/sd`. -/
def smallSource : LibString := [slash, 0x64, 0x65, 0x76, slash, 0x73, 0x64]

end CrepOS.Analysis
