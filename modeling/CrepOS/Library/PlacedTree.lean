import CrepOS.Library.RadixTree
import Mathlib.Data.List.Nodup

/-!
# Radix trees that share nodes at the same place

Several radix trees of one height may share nodes, as long as a shared node is at the same place in
all of them. The place of a node is the list of the indices that lead to it from a top node; `Placed`
says that nodes in use have one. A lookup then reads only nodes whose place is a part of its own route
(`trail_congr`), so that a write elsewhere does not concern it.

Trees may also share only the nodes below some entries of their top nodes, and have nodes of their own
below the others (`TreesApart`). Then a lookup in one tree below its own entries does not see operations
on another.

`Grows` is what an operation does that follows one route down: it enters nodes that are there, adds a
new node for a missing one, and at the end may replace an entry without a child. `Grows.result` says
what it leaves.
-/

set_option autoImplicit false

namespace CrepOS.Library

variable {F I E R : Type}

/-- The first `k` indices of a lookup in a tree of height `height`. -/
def route (idx : ℕ → I) (height : ℕ) : ℕ → List I
  | 0 => []
  | k + 1 => route idx height k ++ [idx (height - (k + 1))]

/-- Each node in use has a place, and a child has the place of the entry that points to it. -/
structure Placed (child : ℕ → E → Option F) (height : ℕ) (place : F → Option (List I))
    (mem : F → I → E) : Prop where
  depth : ∀ t l, place t = some l → l.length < height
  below : ∀ t l i n c, place t = some l → l.length + (n + 1) = height →
    child n (mem t i) = some c → place c = some (l ++ [i])

section Route

variable {idx idx' : ℕ → I} {height : ℕ}

theorem route_length (idx : ℕ → I) (height k : ℕ) : (route idx height k).length = k := by
  induction k with
  | zero => rfl
  | succ k ih => rw [route, List.length_append, ih, List.length_singleton]

/-- The next index of a route. -/
theorem route_succ {k n : ℕ} (h : k + (n + 1) = height) :
    route idx height (k + 1) = route idx height k ++ [idx n] := by
  rw [route]
  congr 3
  omega

/-- Lookups with the same route use the same indices. -/
theorem route_eq_iff {k : ℕ} (hk : k ≤ height) :
    route idx height k = route idx' height k ↔ ∀ n, height ≤ n + k → n < height → idx n = idx' n := by
  induction k with
  | zero =>
    refine ⟨fun _ n hn hn' => ?_, fun _ => rfl⟩
    omega
  | succ k ih =>
    rw [route, route]
    constructor
    · intro h n hn hn'
      obtain ⟨hinit, hlast⟩ := List.append_inj' h rfl
      by_cases hcase : n = height - (k + 1)
      · subst hcase
        exact List.singleton_inj.mp hlast
      · exact (ih (by omega)).mp hinit n (by omega) hn'
    · intro h
      have hinit : route idx height k = route idx' height k :=
        (ih (by omega)).mpr fun n hn hn' => h n (by omega) hn'
      have hlast : idx (height - (k + 1)) = idx' (height - (k + 1)) := h _ (by omega) (by omega)
      rw [hinit, hlast]

end Route

/-! ## Lookups -/

section Lookup

variable {child : ℕ → E → Option F} {height : ℕ} {place : F → Option (List I)}
  {mem mem' : F → I → E} {step : ℕ → E → F ⊕ R} {idx : ℕ → I}

/-- The nodes of a tree have places when its top node has one. -/
theorem Placed.of_inTree (h : Placed child height place mem) {n : ℕ} {t f : F} {l : List I}
    (ht : place t = some l) (hl : l.length + n = height) (hf : InTree child mem n t f) :
    ∃ l', place f = some l' := by
  induction n generalizing t l with
  | zero => exact hf.elim
  | succ n ih =>
    rcases hf with rfl | ⟨i, c, hc, hf⟩
    · exact ⟨l, ht⟩
    · apply ih (h.below t l i n c ht hl hc) _ hf
      rw [List.length_append, List.length_singleton]
      omega

/-- The place of a node of a tree starts with that of the top node. -/
theorem Placed.place_of_inTree (h : Placed child height place mem) {n : ℕ} {t f : F} {l : List I}
    (ht : place t = some l) (hl : l.length + n = height) (hf : InTree child mem n t f) :
    ∃ l', place f = some (l ++ l') := by
  induction n generalizing t l with
  | zero => exact hf.elim
  | succ n ih =>
    rcases hf with rfl | ⟨i, c, hc, hf⟩
    · exact ⟨[], by rw [List.append_nil, ht]⟩
    · obtain ⟨l', hl'⟩ := ih (h.below t l i n c ht hl hc)
        (by rw [List.length_append, List.length_singleton]; omega) hf
      exact ⟨[i] ++ l', by rw [hl', List.append_assoc]⟩

/-- **Nodes with places form trees.** -/
theorem Placed.isTree {good : ℕ → E → Prop} (h : Placed child height place mem)
    (hgood : ∀ t l i n, place t = some l → l.length + (n + 1) = height → good n (mem t i)) {n : ℕ}
    {t : F} {l : List I} (ht : place t = some l) (hl : l.length + n = height) :
    IsTree child good mem n t := by
  induction n generalizing t l with
  | zero => trivial
  | succ n ih =>
    have hlen : ∀ i : I, (l ++ [i]).length + n = height := by
      intro i
      rw [List.length_append, List.length_singleton]
      omega
    refine ⟨fun i => hgood t l i n ht hl, ?_, ?_⟩
    · intro i c hc
      have hplace := h.below t l i n c ht hl hc
      refine ⟨ih hplace (hlen i), ?_⟩
      intro hin
      obtain ⟨l', hl'⟩ := h.place_of_inTree hplace (hlen i) hin
      have hsame := congrArg List.length (Option.some.inj (ht.symm.trans hl'))
      simp only [List.length_append, List.length_singleton] at hsame
      omega
    · intro i j c d hij hc hd f hf hf'
      obtain ⟨l₁, hl₁⟩ := h.place_of_inTree (h.below t l i n c ht hl hc) (hlen i) hf
      obtain ⟨l₂, hl₂⟩ := h.place_of_inTree (h.below t l j n d ht hl hd) (hlen j) hf'
      have hsame := Option.some.inj (hl₁.symm.trans hl₂)
      rw [List.append_assoc, List.append_assoc] at hsame
      exact hij (List.cons.inj (List.append_cancel_left hsame)).1

/-- Children that go away leave the others at their place. -/
theorem Placed.of_fewer (h : Placed child height place mem)
    (hmem : ∀ t l i n c, place t = some l → l.length + (n + 1) = height →
      child n (mem' t i) = some c → child n (mem t i) = some c) :
    Placed child height place mem' := by
  refine ⟨h.depth, ?_⟩
  intro t l i n c ht hlen hc
  exact h.below t l i n c ht hlen (hmem t l i n c ht hlen hc)

/-- The children of a node of a tree are nodes of it. -/
theorem Placed.inTree_below (h : Placed child height place mem) (hlevel : ∀ e, child 0 e = none)
    {n m : ℕ} {t f c : F} {i : I} {l l' : List I} (ht : place t = some l) (hl : l.length + n = height)
    (hin : InTree child mem n t f) (hf : place f = some l') (hl' : l'.length + (m + 1) = height)
    (hc : child m (mem f i) = some c) : InTree child mem n t c := by
  induction n generalizing t l with
  | zero => exact hin.elim
  | succ n ih =>
    rcases hin with rfl | ⟨j, d, hd, hin⟩
    · obtain rfl := Option.some.inj (ht.symm.trans hf)
      obtain rfl : n = m := by omega
      cases n with
      | zero => cases (hlevel _).symm.trans hc
      | succ n => exact inTree_child hc (inTree_root n c)
    · apply inTree_child hd
      apply ih (h.below t l j n d ht hl hd) _ hin
      rw [List.length_append, List.length_singleton]
      omega

/-- Places are needed only for the nodes of some trees. -/
theorem Placed.restrict (h : Placed child height place mem) (hlevel : ∀ e, child 0 e = none)
    {tops : F → Prop} (htops : ∀ t, tops t → place t = some [])
    {place' : F → Option (List I)}
    (hin : ∀ f, (∃ t, tops t ∧ InTree child mem height t f) → place' f = place f)
    (hout : ∀ f, (¬ ∃ t, tops t ∧ InTree child mem height t f) → place' f = none) :
    Placed child height place' mem := by
  have hused : ∀ {f l}, place' f = some l →
      place f = some l ∧ ∃ t, tops t ∧ InTree child mem height t f := by
    intro f l hf
    by_cases hu : ∃ t, tops t ∧ InTree child mem height t f
    · rw [hin f hu] at hf
      exact ⟨hf, hu⟩
    · rw [hout f hu] at hf
      cases hf
  refine ⟨fun t l ht => h.depth t l (hused ht).1, ?_⟩
  intro f l i m c hf hlen hc
  obtain ⟨hplace, t, ht, htree⟩ := hused hf
  rw [hin c ⟨t, ht, h.inTree_below hlevel (htops t ht) (Nat.zero_add _) htree hplace hlen hc⟩]
  exact h.below f l i m c hplace hlen hc

/-- A lookup is determined by the entries that it reads. -/
theorem descend_of_trail {n : ℕ} {t t' : F}
    (h : trail step mem' n t' idx = trail step mem n t idx) :
    descend step mem' n t' idx = descend step mem n t idx := by
  induction n generalizing t t' with
  | zero => rfl
  | succ n ih =>
    rw [trail, trail] at h
    obtain ⟨hhead, htail⟩ := List.cons.inj h
    rw [descend, descend, hhead]
    rw [hhead] at htail
    cases hs : step n (mem t (idx n)) with
    | inl c =>
      rw [hs] at htail
      exact ih htail
    | inr r => rfl

/-- **A lookup reads only entries on its route.** -/
theorem trail_congr (hplaced : Placed child height place mem)
    (hstep : ∀ t l i n c, place t = some l → l.length + (n + 1) = height →
      step n (mem t i) = .inl c → child n (mem t i) = some c)
    (hsame : ∀ t k n, place t = some (route idx height k) → k + (n + 1) = height →
      mem' t (idx n) = mem t (idx n))
    {n k : ℕ} {t : F} (hk : k + n = height) (ht : place t = some (route idx height k)) :
    trail step mem' n t idx = trail step mem n t idx := by
  induction n generalizing k t with
  | zero => rfl
  | succ n ih =>
    rw [trail, trail, hsame t k n ht hk]
    congr 1
    cases hs : step n (mem t (idx n)) with
    | inr r => rfl
    | inl c =>
      have hlen : (route idx height k).length + (n + 1) = height := by
        rw [route_length]
        exact hk
      have hc := hplaced.below t _ (idx n) n c ht hlen (hstep t _ (idx n) n c ht hlen hs)
      rw [← route_succ hk] at hc
      exact ih (k := k + 1) (by omega) hc

/-- A lookup reads only nodes of the tree below its top node. -/
theorem trail_inTree (hplaced : Placed child height place mem)
    (hstep : ∀ t l i n c, place t = some l → l.length + (n + 1) = height →
      step n (mem t i) = .inl c → child n (mem t i) = some c)
    {n : ℕ} {t : F} {l : List I} (ht : place t = some l) (hl : l.length + n = height)
    (hsame : ∀ f, InTree child mem n t f → mem' f = mem f) :
    trail step mem' n t idx = trail step mem n t idx := by
  induction n generalizing t l with
  | zero => rfl
  | succ n ih =>
    rw [trail, trail, hsame t (inTree_root n t)]
    congr 1
    cases hs : step n (mem t (idx n)) with
    | inr r => rfl
    | inl c =>
      have hc := hstep t l (idx n) n c ht hl hs
      apply ih (hplaced.below t l (idx n) n c ht hl hc)
      · rw [List.length_append, List.length_singleton]
        omega
      · intro f hf
        exact hsame f (inTree_child hc hf)

end Lookup

/-! ## Growing along a route -/

/-- `mem` with the entry `i` of the node `t` replaced by `e`. -/
def setEntry [DecidableEq F] [DecidableEq I] (mem : F → I → E) (t : F) (i : I) (e : E) : F → I → E :=
  Function.update mem t (Function.update (mem t) i e)

/-- What an operation may do that goes down from the node `t` of height `n` along `idx`. New nodes are
taken from a list and get the entries `zero`; `leaf` says how an entry without a child may change, and
`pointer` what is known of a new entry with one. -/
inductive Grows [DecidableEq F] [DecidableEq I] (child : ℕ → E → Option F) (zero : E) (idx : ℕ → I)
    (leaf : ℕ → E → E → Prop) (pointer : ℕ → E → Prop) :
    ℕ → F → (F → I → E) → List F → (F → I → E) → List F → Prop
  | stop {n : ℕ} {t : F} {mem : F → I → E} {fs : List F} :
      Grows child zero idx leaf pointer n t mem fs mem fs
  | leaf {n : ℕ} {t : F} {mem : F → I → E} {fs : List F} {e : E} :
      child n (mem t (idx n)) = none → child n e = none → leaf n (mem t (idx n)) e →
      Grows child zero idx leaf pointer (n + 1) t mem fs (setEntry mem t (idx n) e) fs
  | enter {n : ℕ} {t c : F} {mem mem' : F → I → E} {fs fs' : List F} :
      child n (mem t (idx n)) = some c → Grows child zero idx leaf pointer n c mem fs mem' fs' →
      Grows child zero idx leaf pointer (n + 1) t mem fs mem' fs'
  | grow {n : ℕ} {t f : F} {mem mem' : F → I → E} {fs fs' : List F} {e : E} :
      mem t (idx n) = zero → child n e = some f → pointer n e →
      Grows child zero idx leaf pointer n f
        (setEntry (Function.update mem f fun _ => zero) t (idx n) e) fs mem' fs' →
      Grows child zero idx leaf pointer (n + 1) t mem (f :: fs) mem' fs'

/-- What such an operation leaves, from the places `place` to the places `place'`. -/
structure TreeGrown (child : ℕ → E → Option F) (zero : E) (idx : ℕ → I) (leaf : ℕ → E → E → Prop)
    (pointer : ℕ → E → Prop) (height : ℕ) (place place' : F → Option (List I))
    (mem : F → I → E) (fs : List F) (mem' : F → I → E) (fs' : List F) : Prop where
  placed : Placed child height place' mem'
  /-- Nodes in use keep their place. -/
  old : ∀ f l, place f = some l → place' f = some l
  /-- Nodes that get a place are taken from the list, and are on the route. -/
  new : ∀ f, place' f = place f ∨ f ∈ fs ∧ f ∉ fs' ∧ ∃ k, place' f = some (route idx height k)
  suffix : fs' <:+ fs
  /-- Other nodes do not change, but for those taken from the list. -/
  kept : ∀ f, place f = none → f ∉ fs → mem' f = mem f
  /-- Entries of nodes in use change only on the route, from an entry without a child. -/
  entries : ∀ f l i, place f = some l → mem' f i = mem f i ∨
    ∃ k n, l = route idx height k ∧ i = idx n ∧ k + (n + 1) = height ∧
      child n (mem f i) = none ∧
      (leaf n (mem f i) (mem' f i) ∧ child n (mem' f i) = none ∨
        mem f i = zero ∧ pointer n (mem' f i) ∧ ∃ c, child n (mem' f i) = some c ∧ place c = none)
  /-- So do those of new nodes, from `zero`. -/
  fresh : ∀ f l i, place f = none → place' f = some l → mem' f i = zero ∨
    ∃ k n, l = route idx height k ∧ i = idx n ∧ k + (n + 1) = height ∧
      (leaf n zero (mem' f i) ∧ child n (mem' f i) = none ∨
        pointer n (mem' f i) ∧ ∃ c, child n (mem' f i) = some c ∧ place c = none)

section Grows

variable [DecidableEq F] [DecidableEq I] {child : ℕ → E → Option F} {zero : E} {idx : ℕ → I}
  {leaf : ℕ → E → E → Prop} {pointer : ℕ → E → Prop} {height : ℕ} {place : F → Option (List I)}
  {mem mem' : F → I → E} {fs fs' : List F}

theorem setEntry_self (mem : F → I → E) (t : F) (i : I) (e : E) : setEntry mem t i e t i = e := by
  rw [setEntry, Function.update_self, Function.update_self]

theorem setEntry_of_ne (mem : F → I → E) {t f : F} {i j : I} (e : E) (h : ¬ (f = t ∧ j = i)) :
    setEntry mem t i e f j = mem f j := by
  unfold setEntry
  by_cases hf : f = t
  · subst hf
    rw [Function.update_self, Function.update_of_ne fun hj => h ⟨rfl, hj⟩]
  · rw [Function.update_of_ne hf]

theorem setEntry_node (mem : F → I → E) {t f : F} (i : I) (e : E) (h : f ≠ t) :
    setEntry mem t i e f = mem f :=
  Function.update_of_ne h _ _

/-- An entry is replaced by one without a child. -/
theorem Placed.setEntry (h : Placed child height place mem) {t : F} {k n : ℕ} {i : I} {e : E}
    (ht : place t = some (route idx height k)) (hk : k + (n + 1) = height)
    (he : child n e = none) : Placed child height place (setEntry mem t i e) := by
  refine ⟨h.depth, ?_⟩
  intro f l j m c hf hlen hc
  by_cases heq : f = t ∧ j = i
  · obtain ⟨rfl, rfl⟩ := heq
    rw [setEntry_self] at hc
    rw [ht] at hf
    obtain rfl := Option.some.inj hf
    rw [route_length] at hlen
    obtain rfl : n = m := by omega
    cases he.symm.trans hc
  · rw [setEntry_of_ne mem e heq] at hc
    exact h.below f l j m c hf hlen hc

/-- A node is added below an entry. -/
theorem Placed.addNode (h : Placed child height place mem) (hzero : ∀ n, child n zero = none)
    {t f : F} {k n : ℕ} {e : E} (ht : place t = some (route idx height k))
    (hk : k + (n + 1) = height) (hn : n ≠ 0) (hf : place f = none) (he : child n e = some f) :
    Placed child height (Function.update place f (some (route idx height (k + 1))))
      (CrepOS.Library.setEntry (Function.update mem f fun _ => zero) t (idx n) e) := by
  have hft : f ≠ t := by
    rintro rfl
    cases hf.symm.trans ht
  have hplace : ∀ {g l}, place g = some l →
      Function.update place f (some (route idx height (k + 1))) g = some l := by
    intro g l hg
    rw [Function.update_of_ne (by rintro rfl; cases hf.symm.trans hg), hg]
  refine ⟨?_, ?_⟩
  · intro g l hg
    by_cases hgf : g = f
    · subst hgf
      rw [Function.update_self] at hg
      obtain rfl := Option.some.inj hg
      rw [route_length]
      omega
    · rw [Function.update_of_ne hgf] at hg
      exact h.depth g l hg
  · intro g l j m c hg hlen hc
    by_cases heq : g = t ∧ j = idx n
    · obtain ⟨rfl, rfl⟩ := heq
      rw [setEntry_self] at hc
      rw [hplace ht] at hg
      obtain rfl := Option.some.inj hg
      rw [route_length] at hlen
      obtain rfl : n = m := by omega
      obtain rfl : f = c := Option.some.inj (he.symm.trans hc)
      rw [Function.update_self, route_succ hk]
    · rw [setEntry_of_ne _ e heq] at hc
      by_cases hgf : g = f
      · subst hgf
        rw [Function.update_self, hzero] at hc
        cases hc
      · rw [Function.update_of_ne hgf] at hg hc
        exact hplace (h.below g l j m c hg hlen hc)

/-- **What an operation along a route leaves.** -/
theorem Grows.result (hzero : ∀ n, child n zero = none) (hlevel : ∀ e, child 0 e = none)
    {n : ℕ} {t : F} (h : Grows child zero idx leaf pointer n t mem fs mem' fs')
    (hplaced : Placed child height place mem) {k : ℕ} (hk : k + n = height)
    (ht : place t = some (route idx height k)) (hunused : ∀ f ∈ fs, place f = none)
    (hnodup : fs.Nodup) :
    ∃ place', TreeGrown child zero idx leaf pointer height place place' mem fs mem' fs' := by
  induction h generalizing k place with
  | stop =>
    refine ⟨place, hplaced, fun _ _ h => h, fun _ => Or.inl rfl, List.suffix_rfl,
      fun _ _ _ => rfl, fun _ _ _ _ => Or.inl rfl, ?_⟩
    intro f l i hnone hsome
    cases hnone.symm.trans hsome
  | @leaf n t mem fs e hold hnew hleaf =>
    refine ⟨place, hplaced.setEntry ht hk hnew, fun _ _ h => h, fun _ => Or.inl rfl,
      List.suffix_rfl, ?_, ?_, ?_⟩
    · intro f hf _
      apply setEntry_node
      rintro rfl
      cases hf.symm.trans ht
    · intro f l i hf
      by_cases heq : f = t ∧ i = idx n
      · obtain ⟨rfl, rfl⟩ := heq
        rw [ht] at hf
        obtain rfl := Option.some.inj hf
        rw [setEntry_self]
        exact Or.inr ⟨k, n, rfl, rfl, hk, hold, Or.inl ⟨hleaf, hnew⟩⟩
      · exact Or.inl (setEntry_of_ne mem e heq)
    · intro f l i hnone hsome
      cases hnone.symm.trans hsome
  | @enter n t c mem mem' fs fs' hc _ ih =>
    have hlen : (route idx height k).length + (n + 1) = height := by
      rw [route_length]
      exact hk
    have hplace := hplaced.below t _ (idx n) n c ht hlen hc
    rw [← route_succ hk] at hplace
    exact ih hplaced (k := k + 1) (by omega) hplace hunused hnodup
  | @grow n t f mem mem' fs fs' e hzeroEntry he hpointer _ ih =>
    have hn : n ≠ 0 := by
      rintro rfl
      cases (hlevel e).symm.trans he
    have hf := hunused f List.mem_cons_self
    obtain ⟨hffs, hnodup'⟩ := List.nodup_cons.mp hnodup
    have hne : ∀ {g l}, place g = some l → g ≠ f := by
      rintro g l hg rfl
      cases hf.symm.trans hg
    -- what is not placed yet was not placed before
    have hfresh : ∀ {c}, Function.update place f (some (route idx height (k + 1))) c = none →
        place c = none := by
      intro c hc
      by_cases hcf : c = f
      · rw [hcf]
        exact hf
      · rwa [Function.update_of_ne hcf] at hc
    have hunused' : ∀ g ∈ fs, Function.update place f (some (route idx height (k + 1))) g = none := by
      intro g hg
      rw [Function.update_of_ne (by rintro rfl; exact hffs hg)]
      exact hunused g (List.mem_cons_of_mem f hg)
    obtain ⟨place', hgrown⟩ := ih (hplaced.addNode hzero ht hk hn hf he) (k := k + 1) (by omega)
      (Function.update_self _ _ _) hunused' hnodup'
    have hplacef : place' f = some (route idx height (k + 1)) :=
      hgrown.old f _ (Function.update_self _ _ _)
    refine ⟨place', hgrown.placed, ?_, ?_, ?_, ?_, ?_, ?_⟩
    · intro g l hg
      apply hgrown.old
      rw [Function.update_of_ne (hne hg), hg]
    · intro g
      by_cases hgf : g = f
      · subst hgf
        right
        exact ⟨List.mem_cons_self, fun hin => hffs (hgrown.suffix.subset hin), k + 1, hplacef⟩
      · rcases hgrown.new g with hsame | ⟨hin, hout, hroute⟩
        · left
          rw [hsame, Function.update_of_ne hgf]
        · exact Or.inr ⟨List.mem_cons_of_mem f hin, hout, hroute⟩
    · exact hgrown.suffix.trans (List.suffix_cons f fs)
    · intro g hg hgfs
      have hgf : g ≠ f := fun h => hgfs (h ▸ List.mem_cons_self)
      have hgt : g ≠ t := by
        rintro rfl
        cases hg.symm.trans ht
      rw [hgrown.kept g (by rw [Function.update_of_ne hgf, hg])
        fun hin => hgfs (List.mem_cons_of_mem f hin), setEntry_node _ _ _ hgt,
        Function.update_of_ne hgf]
    · intro g l i hg
      have hgf := hne hg
      have hentry := hgrown.entries g l i (by rw [Function.update_of_ne hgf, hg])
      by_cases heq : g = t ∧ i = idx n
      · obtain ⟨rfl, rfl⟩ := heq
        rw [setEntry_self] at hentry
        rw [ht] at hg
        obtain rfl := Option.some.inj hg
        right
        refine ⟨k, n, rfl, rfl, hk, ?_, Or.inr ?_⟩
        · rw [hzeroEntry, hzero]
        -- below the entry it is not changed again
        have hsame : mem' g (idx n) = e := by
          rcases hentry with hsame | ⟨k', n', hroute, -, hk', hnone, -⟩
          · exact hsame
          · have hlen := congrArg List.length hroute
            rw [route_length, route_length] at hlen
            obtain rfl : n = n' := by omega
            cases hnone.symm.trans he
        rw [hsame]
        exact ⟨hzeroEntry, hpointer, f, he, hf⟩
      · rw [setEntry_of_ne _ e heq, Function.update_of_ne hgf] at hentry
        rcases hentry with hsame | ⟨k', n', hroute, hi, hk', hnone, hchange⟩
        · exact Or.inl hsame
        · refine Or.inr ⟨k', n', hroute, hi, hk', hnone, hchange.imp_right ?_⟩
          rintro ⟨hz, hp, c, hc, hplace⟩
          exact ⟨hz, hp, c, hc, hfresh hplace⟩
    · intro g l i hg hg'
      by_cases hgf : g = f
      · subst hgf
        rw [hplacef] at hg'
        obtain rfl := Option.some.inj hg'
        have hgt : g ≠ t := by
          rintro rfl
          cases hg.symm.trans ht
        have hentry := hgrown.entries g _ i (Function.update_self _ _ _)
        rw [setEntry_node _ _ _ hgt, Function.update_self] at hentry
        rcases hentry with hsame | ⟨k', n', hroute, hi, hk', -, hchange⟩
        · exact Or.inl hsame
        · refine Or.inr ⟨k', n', hroute, hi, hk', hchange.imp_right ?_⟩
          rintro ⟨-, hp, c, hc, hplace⟩
          exact ⟨hp, c, hc, hfresh hplace⟩
      · rcases hgrown.fresh g l i (by rw [Function.update_of_ne hgf, hg]) hg' with
          hsame | ⟨k', n', hroute, hi, hk', hchange⟩
        · exact Or.inl hsame
        · refine Or.inr ⟨k', n', hroute, hi, hk', hchange.imp_right ?_⟩
          rintro ⟨hp, c, hc, hplace⟩
          exact ⟨hp, c, hc, hfresh hplace⟩

end Grows

/-! ## Lookups after growing -/

section TreeGrown

variable {child : ℕ → E → Option F} {zero : E} {idx idx' : ℕ → I} {leaf : ℕ → E → E → Prop}
  {pointer : ℕ → E → Prop} {height : ℕ} {place place' : F → Option (List I)}
  {mem mem' : F → I → E} {fs fs' : List F} {step : ℕ → E → F ⊕ R} {r : R}

/-- How a lookup can end after the operation, when it did not end so before: at an entry `zero`, at a
new pointer that it does not follow, or at an entry that was changed, to which the route of the
operation leads. -/
def EndsAnew (zero : E) (leaf : ℕ → E → E → Prop) (pointer : ℕ → E → Prop) (idx idx' : ℕ → I)
    (height : ℕ) (step : ℕ → E → F ⊕ R) (before : Option R) (r : R) : Prop :=
  (∃ m, step m zero = .inr r) ∨ (∃ m e, pointer m e ∧ step m e = .inr r) ∨
    ∃ m old e, m < height ∧ (∀ j, m ≤ j → j < height → idx' j = idx j) ∧ leaf m old e ∧
      step m e = .inr r ∧ (old = zero ∨ ∃ r₀, step m old = .inr r₀ ∧ before = some r₀)

/-- INTERNAL: two routes of the same length meet at an entry. -/
theorem route_agree {k k' n : ℕ} (hk : k + (n + 1) = height)
    (h : route idx' height k = route idx height k') (hi : idx' n = idx n) :
    ∀ j, n ≤ j → j < height → idx' j = idx j := by
  have hlen := congrArg List.length h
  rw [route_length, route_length] at hlen
  subst hlen
  intro j hj hj'
  by_cases hjn : j = n
  · rw [hjn]
    exact hi
  · exact (route_eq_iff (by omega)).mp h j (by omega) hj'

/-- INTERNAL: a lookup from a new node. -/
theorem TreeGrown.descend_fresh
    (h : TreeGrown child zero idx leaf pointer height place place' mem fs mem' fs')
    (hstep : ∀ t l i n c, place' t = some l → l.length + (n + 1) = height →
      step n (mem' t i) = .inl c → child n (mem' t i) = some c)
    (hzero : ∀ n, child n zero = none) (before : Option R) {n k : ℕ} {t : F} (hk : k + n = height)
    (ht : place t = none) (ht' : place' t = some (route idx' height k))
    (hr : descend step mem' n t idx' = some r) :
    EndsAnew zero leaf pointer idx idx' height step before r := by
  induction n generalizing k t with
  | zero => cases hr
  | succ n ih =>
    have hlen : (route idx' height k).length + (n + 1) = height := by
      rw [route_length]
      exact hk
    rw [descend] at hr
    have hentry := h.fresh t _ (idx' n) ht ht'
    cases hs : step n (mem' t (idx' n)) with
    | inr r' =>
      rw [hs] at hr
      obtain rfl := Option.some.inj hr
      rcases hentry with hsame | ⟨k', n', hroute, hi, hk', hchange⟩
      · rw [hsame] at hs
        exact Or.inl ⟨n, hs⟩
      · obtain rfl : n = n' := by
          have hlen' := congrArg List.length hroute
          rw [route_length, route_length] at hlen'
          omega
        rcases hchange with ⟨hleaf, -⟩ | ⟨hpointer, -⟩
        · right
          right
          exact ⟨n, zero, _, by omega, route_agree hk hroute hi, hleaf, hs, Or.inl rfl⟩
        · exact Or.inr (Or.inl ⟨n, _, hpointer, hs⟩)
    | inl c =>
      rw [hs] at hr
      have hc := hstep t _ (idx' n) n c ht' hlen hs
      have hplace := h.placed.below t _ (idx' n) n c ht' hlen hc
      rw [← route_succ hk] at hplace
      -- the entry was changed, to a pointer to a new node
      have hnew : place c = none := by
        rcases hentry with hsame | ⟨k', n', hroute, -, hk', hchange⟩
        · rw [hsame, hzero] at hc
          cases hc
        · obtain rfl : n = n' := by
            have hlen' := congrArg List.length hroute
            rw [route_length, route_length] at hlen'
            omega
          rcases hchange with ⟨-, hnone⟩ | ⟨-, c', hc', hplace'⟩
          · cases hnone.symm.trans hc
          · obtain rfl := Option.some.inj (hc.symm.trans hc')
            exact hplace'
      exact ih (k := k + 1) (by omega) hnew hplace hr

/-- **How a lookup ends after the operation**: as before, or anew. -/
theorem TreeGrown.descend_cases
    (h : TreeGrown child zero idx leaf pointer height place place' mem fs mem' fs')
    (hplaced : Placed child height place mem)
    (hstep : ∀ t l i n c, place t = some l → l.length + (n + 1) = height →
      step n (mem t i) = .inl c → child n (mem t i) = some c)
    (hstep' : ∀ t l i n c, place' t = some l → l.length + (n + 1) = height →
      step n (mem' t i) = .inl c → child n (mem' t i) = some c)
    (hzero : ∀ n, child n zero = none) {n k : ℕ} {t : F} (hk : k + n = height)
    (ht : place t = some (route idx' height k)) (hr : descend step mem' n t idx' = some r) :
    descend step mem n t idx' = some r ∨
      EndsAnew zero leaf pointer idx idx' height step (descend step mem n t idx') r := by
  induction n generalizing k t with
  | zero => cases hr
  | succ n ih =>
    have hlen : (route idx' height k).length + (n + 1) = height := by
      rw [route_length]
      exact hk
    have ht' := h.old t _ ht
    rcases h.entries t _ (idx' n) ht with hsame | ⟨k', n', hroute, hi, hk', hnone, hchange⟩
    · -- the entry is as it was
      rw [descend, hsame] at hr
      rw [descend]
      cases hs : step n (mem t (idx' n)) with
      | inr r' =>
        rw [hs] at hr
        exact Or.inl hr
      | inl c =>
        rw [hs] at hr
        have hc := hplaced.below t _ (idx' n) n c ht hlen (hstep t _ (idx' n) n c ht hlen hs)
        rw [← route_succ hk] at hc
        exact ih (k := k + 1) (by omega) hc hr
    · -- the entry was changed, and the route of the operation leads to it
      right
      obtain rfl : n = n' := by
        have hlen' := congrArg List.length hroute
        rw [route_length, route_length] at hlen'
        omega
      have hbefore : ∃ r₀, step n (mem t (idx' n)) = .inr r₀ ∧
          descend step mem (n + 1) t idx' = some r₀ := by
        cases hs : step n (mem t (idx' n)) with
        | inl c => cases hnone.symm.trans (hstep t _ (idx' n) n c ht hlen hs)
        | inr r₀ =>
          refine ⟨r₀, rfl, ?_⟩
          rw [descend, hs]
      rcases hchange with ⟨hleaf, hnone'⟩ | ⟨-, hpointer, c, hc, hnew⟩
      · rw [descend] at hr
        cases hs : step n (mem' t (idx' n)) with
        | inl c => cases hnone'.symm.trans (hstep' t _ (idx' n) n c ht' hlen hs)
        | inr r' =>
          rw [hs] at hr
          obtain rfl := Option.some.inj hr
          right
          right
          exact ⟨n, _, _, by omega, route_agree hk hroute hi, hleaf, hs, Or.inr hbefore⟩
      · rw [descend] at hr
        cases hs : step n (mem' t (idx' n)) with
        | inr r' =>
          rw [hs] at hr
          obtain rfl := Option.some.inj hr
          exact Or.inr (Or.inl ⟨n, _, hpointer, hs⟩)
        | inl d =>
          rw [hs] at hr
          obtain rfl := Option.some.inj (hc.symm.trans (hstep' t _ (idx' n) n d ht' hlen hs))
          have hplace := h.placed.below t _ (idx' n) n c ht' hlen hc
          rw [← route_succ hk] at hplace
          exact h.descend_fresh hstep' hzero _ (by omega) hnew hplace hr

/-- A lookup whose route leaves that of the operation at the top node does not see it. -/
theorem TreeGrown.trail_other
    (h : TreeGrown child zero idx leaf pointer height place place' mem fs mem' fs')
    (hplaced : Placed child height place mem)
    (hstep : ∀ t l i n c, place t = some l → l.length + (n + 1) = height →
      step n (mem t i) = .inl c → child n (mem t i) = some c)
    {t : F} (ht : place t = some []) (hidx : idx' (height - 1) ≠ idx (height - 1)) :
    trail step mem' height t idx' = trail step mem height t idx' := by
  apply trail_congr hplaced hstep (k := 0) _ (by omega) ht
  intro f k n hf hk
  rcases h.entries f _ (idx' n) hf with hsame | ⟨k', n', hroute, hi, hk', -⟩
  · exact hsame
  · obtain rfl : n = n' := by
      have hlen := congrArg List.length hroute
      rw [route_length, route_length] at hlen
      omega
    exact absurd (route_agree hk hroute hi (height - 1) (by omega) (by omega)) hidx

end TreeGrown

/-! ## Trees of their own

Trees may share the nodes below some entries of their top nodes; below the other entries each has nodes of its
own. -/

/-- The node `f` is below the entry `i` of a node of height `n + 1`. -/
def BelowEntry (child : ℕ → E → Option F) (mem : F → I → E) (n : ℕ) (t : F) (i : I) (f : F) : Prop :=
  ∃ c, child n (mem t i) = some c ∧ InTree child mem n c f

/-- The nodes below the entries `own` of a top node are in no other tree. -/
def TreesApart (child : ℕ → E → Option F) (mem : F → I → E) (n : ℕ) (own : I → Prop) (tops : List F) : Prop :=
  ∀ a ∈ tops, ∀ b ∈ tops, a ≠ b → ∀ i, own i → ∀ f,
    BelowEntry child mem n a i f → ¬ InTree child mem (n + 1) b f

section Apart

variable {child : ℕ → E → Option F} {place : F → Option (List I)} {mem mem' : F → I → E}
  {n : ℕ} {own : I → Prop} {tops : List F} {t a b f : F} {i : I} {step : ℕ → E → F ⊕ R} {idx : ℕ → I}

theorem TreesApart.subset {tops' : List F} (h : TreesApart child mem n own tops) (hsub : tops' ⊆ tops) :
    TreesApart child mem n own tops' :=
  fun a ha b hb => h a (hsub ha) b (hsub hb)

/-- INTERNAL: the place of a node below an entry begins with the index. -/
theorem Placed.place_of_below (h : Placed child (n + 1) place mem) (ht : place t = some [])
    (hf : BelowEntry child mem n t i f) : ∃ l, place f = some (i :: l) := by
  obtain ⟨c, hc, hin⟩ := hf
  have hplace := h.below t [] i n c ht (Nat.zero_add _) hc
  exact h.place_of_inTree hplace (Nat.add_comm _ _) hin

/-- INTERNAL: a tree has one top node. -/
theorem Placed.top_unique (h : Placed child (n + 1) place mem) (ht : place t = some []) (hf : place f = some [])
    (hin : InTree child mem (n + 1) t f) : f = t := by
  rcases hin with hft | ⟨i, c, hc, hin⟩
  · exact hft
  · obtain ⟨l, hl⟩ := h.place_of_below ht ⟨c, hc, hin⟩
    cases hf.symm.trans hl

/-- INTERNAL: nodes of trees that lose children. -/
theorem Placed.inTree_of_fewer {height : ℕ} (h : Placed child height place mem)
    (hmem : ∀ t l i n c, place t = some l → l.length + (n + 1) = height →
      child n (mem' t i) = some c → child n (mem t i) = some c) {m : ℕ} {l : List I} (ht : place t = some l)
    (hl : l.length + m = height) (hin : InTree child mem' m t f) : InTree child mem m t f := by
  induction m generalizing t l with
  | zero => exact hin
  | succ m ih =>
    rcases hin with hft | ⟨i, c, hc, hin⟩
    · exact Or.inl hft
    · have hold := hmem t l i m c ht hl hc
      refine inTree_child hold (ih (h.below t l i m c ht hl hold) ?_ hin)
      rw [List.length_append, List.length_singleton]
      omega

/-- Children that go away leave the trees apart. -/
theorem TreesApart.of_fewer (h : TreesApart child mem n own tops) (hplaced : Placed child (n + 1) place mem)
    (htops : ∀ t ∈ tops, place t = some [])
    (hmem : ∀ t l i m c, place t = some l → l.length + (m + 1) = n + 1 →
      child m (mem' t i) = some c → child m (mem t i) = some c) : TreesApart child mem' n own tops := by
  rintro a ha b hb hab i hi f ⟨c, hc, hin⟩ hb'
  have hold := hmem a [] i n c (htops a ha) (Nat.zero_add _) hc
  have hplace := hplaced.below a [] i n c (htops a ha) (Nat.zero_add _) hold
  refine h a ha b hb hab i hi f ⟨c, hold, ?_⟩ (hplaced.inTree_of_fewer hmem (htops b hb) (Nat.zero_add _) hb')
  exact hplaced.inTree_of_fewer hmem hplace (Nat.add_comm _ _) hin

/-- A new top node that shares the nodes below entries that are not own. -/
theorem TreesApart.addTop {r f : F} (h : TreesApart child mem n own tops)
    (hplaced : Placed child (n + 1) place mem) (htops : ∀ t ∈ tops, place t = some []) (hr : r ∈ tops)
    (hf : place f = none) (hrow : ∀ t, t ≠ f → mem' t = mem t)
    (hnew : ∀ i c, child n (mem' f i) = some c → ¬ own i ∧ child n (mem r i) = some c) :
    TreesApart child mem' n own (f :: tops) := by
  have hused : ∀ {g l}, place g = some l → mem' g = mem g := by
    intro g l hg
    apply hrow
    rintro rfl
    cases hf.symm.trans hg
  -- the trees that were there do not change
  have htree : ∀ {m t l g}, place t = some l → l.length + m = n + 1 →
      (InTree child mem' m t g ↔ InTree child mem m t g) := by
    intro m t l g ht hl
    refine inTree_congr (fun g hg => ?_) g
    obtain ⟨l', hl'⟩ := hplaced.of_inTree ht hl hg
    exact hused hl'
  have hbelow : ∀ {t i g}, t ∈ tops → BelowEntry child mem' n t i g → BelowEntry child mem n t i g := by
    rintro t i g ht ⟨c, hc, hin⟩
    rw [hused (htops t ht)] at hc
    have hplace := hplaced.below t [] i n c (htops t ht) (Nat.zero_add _) hc
    exact ⟨c, hc, (htree hplace (Nat.add_comm _ _)).mp hin⟩
  intro a ha b hb hab i hi g hg hb'
  rcases List.mem_cons.mp ha with haf | hat
  · obtain ⟨c, hc, -⟩ := hg
    exact (hnew i c (haf ▸ hc)).1 hi
  · have hold := hbelow hat hg
    obtain ⟨l, hl⟩ := hplaced.place_of_below (htops a hat) hold
    rcases List.mem_cons.mp hb with hbf | hbt
    · subst hbf
      rcases hb' with rfl | ⟨j, c, hc, hin⟩
      · cases hf.symm.trans hl
      · obtain ⟨hj, hcr⟩ := hnew j c hc
        have hplace := hplaced.below r [] j n c (htops r hr) (Nat.zero_add _) hcr
        have hshared : BelowEntry child mem n r j g := ⟨c, hcr, (htree hplace (Nat.add_comm _ _)).mp hin⟩
        by_cases har : a = r
        · subst har
          obtain ⟨l', hl'⟩ := hplaced.place_of_below (htops a hr) hshared
          obtain rfl : i = j := (List.cons.inj (Option.some.inj (hl.symm.trans hl'))).1
          exact hj hi
        · obtain ⟨d, hd, hgd⟩ := hshared
          exact h a hat r hr har i hi g hold (inTree_child hd hgd)
    · exact h a hat b hbt hab i hi g hold ((htree (htops b hbt) (Nat.zero_add _)).mp hb')

/-- **A lookup below an own entry** does not see changes in another tree. -/
theorem TreesApart.trail_eq (h : TreesApart child mem n own tops) (hplaced : Placed child (n + 1) place mem)
    (htops : ∀ t ∈ tops, place t = some [])
    (hstep : ∀ t l i m c, place t = some l → l.length + (m + 1) = n + 1 →
      step m (mem t i) = .inl c → child m (mem t i) = some c)
    (ha : a ∈ tops) (hb : b ∈ tops) (hab : a ≠ b) (hown : own (idx n))
    (hmem : ∀ f, InTree child mem (n + 1) a f → ¬ InTree child mem (n + 1) b f → mem' f = mem f) :
    trail step mem' (n + 1) a idx = trail step mem (n + 1) a idx := by
  have htop : mem' a = mem a := hmem a (inTree_root n a) fun hin =>
    hab (hplaced.top_unique (htops b hb) (htops a ha) hin)
  rw [trail, trail, htop]
  congr 1
  cases hs : step n (mem a (idx n)) with
  | inr r => rfl
  | inl c =>
    have hc := hstep a [] (idx n) n c (htops a ha) (Nat.zero_add _) hs
    have hplace := hplaced.below a [] (idx n) n c (htops a ha) (Nat.zero_add _) hc
    refine trail_inTree hplaced hstep hplace (Nat.add_comm _ _) fun f hf => ?_
    exact hmem f (inTree_child hc hf) (h a ha b hb hab _ hown f ⟨c, hc, hf⟩)

end Apart

section Grown

variable {child : ℕ → E → Option F} {zero : E} {idx : ℕ → I} {leaf : ℕ → E → E → Prop} {pointer : ℕ → E → Prop}
  {height n : ℕ} {place place' : F → Option (List I)} {mem mem' : F → I → E} {fs fs' : List F}
  {own : I → Prop} {tops : List F} {t r a b f c : F} {i : I}

/-- INTERNAL: new nodes have only new nodes below them. -/
theorem TreeGrown.inTree_fresh (h : TreeGrown child zero idx leaf pointer height place place' mem fs mem' fs')
    (hzero : ∀ n, child n zero = none) {l : List I} (ht : place t = none) (ht' : place' t = some l)
    (hl : l.length + n = height) (hin : InTree child mem' n t f) : place f = none := by
  induction n generalizing t l with
  | zero => exact hin.elim
  | succ n ih =>
    rcases hin with rfl | ⟨i, c, hc, hin⟩
    · exact ht
    · have hplace := h.placed.below t l i n c ht' hl hc
      refine ih ?_ hplace (by rw [List.length_append, List.length_singleton]; omega) hin
      rcases h.fresh t l i ht ht' with hsame | ⟨k, m, hroute, -, hk, hchange⟩
      · rw [hsame, hzero] at hc
        cases hc
      · obtain rfl : n = m := by
          rw [hroute, route_length] at hl
          omega
        rcases hchange with ⟨-, hnone⟩ | ⟨-, d, hd, hnew⟩
        · cases hnone.symm.trans hc
        · obtain rfl := Option.some.inj (hc.symm.trans hd)
          exact hnew

/-- INTERNAL: a child after the operation was there before, or is new. -/
theorem TreeGrown.child_cases (h : TreeGrown child zero idx leaf pointer height place place' mem fs mem' fs')
    {l : List I} (ht : place t = some l) (hl : l.length + (n + 1) = height) (hc : child n (mem' t i) = some c) :
    child n (mem t i) = some c ∨ place c = none := by
  rcases h.entries t l i ht with hsame | ⟨k, m, hroute, -, hk, -, hchange⟩
  · rw [hsame] at hc
    exact Or.inl hc
  · obtain rfl : n = m := by
      rw [hroute, route_length] at hl
      omega
    rcases hchange with ⟨-, hnone⟩ | ⟨-, -, d, hd, hnew⟩
    · cases hnone.symm.trans hc
    · obtain rfl := Option.some.inj (hc.symm.trans hd)
      exact Or.inr hnew

/-- INTERNAL: the nodes of a tree that were in use are those that it had. -/
theorem TreeGrown.inTree_old (h : TreeGrown child zero idx leaf pointer height place place' mem fs mem' fs')
    (hplaced : Placed child height place mem) (hzero : ∀ n, child n zero = none) {l l' : List I}
    (ht : place t = some l) (hl : l.length + n = height) (hf : place f = some l')
    (hin : InTree child mem' n t f) : InTree child mem n t f := by
  induction n generalizing t l with
  | zero => exact hin
  | succ n ih =>
    rcases hin with hft | ⟨i, c, hc, hin⟩
    · exact Or.inl hft
    · have hlen : (l ++ [i]).length + n = height := by
        rw [List.length_append, List.length_singleton]
        omega
      rcases h.child_cases ht hl hc with hold | hnew
      · exact inTree_child hold (ih (hplaced.below t l i n c ht hl hold) hlen hin)
      · have hplace := h.placed.below t l i n c (h.old t l ht) hl hc
        have hnone := h.inTree_fresh hzero hnew hplace hlen hin
        cases hf.symm.trans hnone

/-- INTERNAL: an operation below another entry of the top nodes changes no node below this one. -/
theorem TreeGrown.kept_below (h : TreeGrown child zero idx leaf pointer (n + 1) place place' mem fs mem' fs')
    {l : List I} (hf : place f = some (i :: l)) (hi : i ≠ idx n) : mem' f = mem f := by
  funext j
  rcases h.entries f _ j hf with hsame | ⟨k, m, hroute, -, hk, -⟩
  · exact hsame
  · exfalso
    have hfirst : ∀ k, route idx (n + 1) (k + 1) = idx n :: (route idx (n + 1) (k + 1)).tail := by
      intro k
      induction k with
      | zero => rfl
      | succ k ih =>
        rw [route, ih]
        rfl
    cases k with
    | zero => cases hroute
    | succ k =>
      rw [hfirst] at hroute
      exact hi (List.cons.inj hroute).1

/-- INTERNAL: nor does it change this entry. -/
theorem TreeGrown.top_kept (h : TreeGrown child zero idx leaf pointer (n + 1) place place' mem fs mem' fs')
    (ht : place t = some []) (hi : i ≠ idx n) : mem' t i = mem t i := by
  rcases h.entries t [] i ht with hsame | ⟨k, m, hroute, hidx, hk, -⟩
  · exact hsame
  · have hlength := congrArg List.length hroute
    rw [List.length_nil, route_length] at hlength
    obtain rfl : m = n := by omega
    exact absurd hidx hi

/-- **An operation on one tree leaves the trees apart.** It changes only nodes of this tree and new ones. -/
theorem TreesApart.grown (h : TreesApart child mem n own tops)
    (hgrown : TreeGrown child zero idx leaf pointer (n + 1) place place' mem fs mem' fs')
    (hplaced : Placed child (n + 1) place mem) (htops : ∀ t ∈ tops, place t = some [])
    (hzero : ∀ n, child n zero = none) (hr : r ∈ tops)
    (hkept : ∀ f l, place f = some l → ¬ InTree child mem (n + 1) r f → mem' f = mem f) :
    TreesApart child mem' n own tops := by
  -- the tree of another top node is not changed below an own entry of `r`
  have hother : ∀ b ∈ tops, r ≠ b → own (idx n) → ∀ f, InTree child mem (n + 1) b f → mem' f = mem f := by
    intro b hb hrb hown f hf
    obtain ⟨l, hl⟩ := hplaced.of_inTree (htops b hb) (Nat.zero_add _) hf
    by_cases hin : InTree child mem (n + 1) r f
    · rcases hin with rfl | ⟨j, c, hc, hin⟩
      · exact absurd (hplaced.top_unique (htops b hb) (htops _ hr) hf) hrb
      · by_cases hj : j = idx n
        · subst hj
          exact absurd hf (h r hr b hb hrb _ hown f ⟨c, hc, hin⟩)
        · obtain ⟨l', hl'⟩ := hplaced.place_of_below (htops r hr) ⟨c, hc, hin⟩
          exact hgrown.kept_below hl' hj
    · exact hkept f l hl hin
  rintro a ha b hb hab i hi f hbelow hb'
  cases hplace : place f with
  | some l =>
    -- a node that was in use was in the same trees
    have hbefore := hgrown.inTree_old hplaced hzero (htops b hb) (Nat.zero_add _) hplace hb'
    obtain ⟨c, hc, hin⟩ := hbelow
    rcases hgrown.child_cases (htops a ha) (Nat.zero_add _) hc with hold | hnew
    · have hplaceC := hplaced.below a [] i n c (htops a ha) (Nat.zero_add _) hold
      have hinOld := hgrown.inTree_old hplaced hzero hplaceC (Nat.add_comm _ _) hplace hin
      exact h a ha b hb hab i hi f ⟨c, hold, hinOld⟩ hbefore
    · have hplaceC := hgrown.placed.below a [] i n c (hgrown.old a [] (htops a ha)) (Nat.zero_add _) hc
      have hnone := hgrown.inTree_fresh hzero hnew hplaceC (Nat.add_comm _ _) hin
      cases hplace.symm.trans hnone
  | none =>
    by_cases hidx : i = idx n
    · -- one of the two trees is not that of `r`, so that it has no new node
      subst hidx
      have hold : ∀ b ∈ tops, r ≠ b → ¬ InTree child mem' (n + 1) b f := by
        intro b hb hrb hin
        obtain ⟨l, hl⟩ := hplaced.of_inTree (htops b hb) (Nat.zero_add _)
          ((inTree_congr (hother b hb hrb hi) f).mp hin)
        cases hplace.symm.trans hl
      by_cases hrb : r = b
      · obtain ⟨c, hc, hin⟩ := hbelow
        exact hold a ha (fun hra => hab (hra.symm.trans hrb)) (inTree_child hc hin)
      · exact hold b hb hrb hb'
    · -- below another entry there are no new nodes
      obtain ⟨c, hc, hin⟩ := hbelow
      have hentry := hgrown.top_kept (htops a ha) hidx
      rw [hentry] at hc
      have hbelowC : ∀ g, InTree child mem n c g → mem' g = mem g := by
        intro g hg
        obtain ⟨l, hl⟩ := hplaced.place_of_below (htops a ha) ⟨c, hc, hg⟩
        exact hgrown.kept_below hl hidx
      obtain ⟨l, hl⟩ := hplaced.place_of_below (htops a ha) ⟨c, hc, (inTree_congr hbelowC f).mp hin⟩
      cases hplace.symm.trans hl

end Grown

end CrepOS.Library
