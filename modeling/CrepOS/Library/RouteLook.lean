import CrepOS.Library.PlacedTree

/-!
# What a lookup finds after growing along a route

A lookup passes entries with a child, of which it collects a mark each, and ends at an entry without one
(`look`). An operation along a route that leaves no missing entry on it above a given level changes the
lookups in one way only: those that ended at a missing entry of the route go on, through new entries as
long as they follow the route (`fill`). `TreeGrown.look_eq` says so of what `Grows` leaves.
-/

set_option autoImplicit false

namespace CrepOS.Library

variable {F I E M V : Type}

/-- What a lookup finds: the marks of the entries that it passes, the level of the entry where it ends,
and what is seen there, which is nothing if the entry is missing. -/
structure Found (M V : Type) where
  marks : List M
  level : ℕ
  seen : Option V
  deriving DecidableEq

/-- The lookup came through another entry before. -/
def Found.under (m : M) (r : Found M V) : Found M V := ⟨m :: r.marks, r.level, r.seen⟩

/-- The lookup along `idx` from the node `t` of height `n`. -/
def look (child : ℕ → E → Option F) (mark : E → M) (view : ℕ → E → Option V) (mem : F → I → E) :
    ℕ → F → (ℕ → I) → Found M V
  | 0, _, _ => ⟨[], 0, none⟩
  | n + 1, t, idx =>
    match child n (mem t (idx n)) with
    | none => ⟨[], n, view n (mem t (idx n))⟩
    | some c => (look child mark view mem n c idx).under (mark (mem t (idx n)))

/-- What a lookup along `idx` finds at the entry of level `n` on the route `dir`, when the entries on it
down to the level `leaf` are new: pointers with the mark `m`, and `x` at the end. -/
def filled [DecidableEq I] (leaf : ℕ) (m : M) (x : V) (dir idx : ℕ → I) : ℕ → Found M V
  | 0 => ⟨[], 0, some x⟩
  | n + 1 =>
    if n + 1 = leaf then ⟨[], n + 1, some x⟩
    else if idx n = dir n then (filled leaf m x dir idx n).under m
    else ⟨[m], n, none⟩

/-- What a lookup along `idx` finds after the operation along `dir`, in a tree of height `height`. -/
def fill [DecidableEq I] (leaf : ℕ) (m : M) (x : V) (dir idx : ℕ → I) (height : ℕ) (r : Found M V) :
    Found M V :=
  if r.seen = none ∧ leaf ≤ r.level ∧ ∀ k < height, r.level ≤ k → idx k = dir k then
    let r' := filled leaf m x dir idx r.level
    ⟨r.marks ++ r'.marks, r'.level, r'.seen⟩
  else r

section Look

variable {child : ℕ → E → Option F} {mark : E → M} {view : ℕ → E → Option V} {mem mem' : F → I → E}
  {n : ℕ} {t c : F} {idx idx' dir : ℕ → I}

theorem look_of_child (h : child n (mem t (idx n)) = some c) :
    look child mark view mem (n + 1) t idx =
      (look child mark view mem n c idx).under (mark (mem t (idx n))) := by
  rw [look, h]

theorem look_of_none (h : child n (mem t (idx n)) = none) :
    look child mark view mem (n + 1) t idx = ⟨[], n, view n (mem t (idx n))⟩ := by
  rw [look, h]

/-- A lookup ends below the node where it starts. -/
theorem look_level_le : (look child mark view mem (n + 1) t idx).level ≤ n := by
  induction n generalizing t with
  | zero =>
    cases h : child 0 (mem t (idx 0)) with
    | none => exact Nat.le_of_eq (congrArg Found.level (look_of_none h))
    | some c => exact Nat.le_of_eq (congrArg Found.level (look_of_child h))
  | succ n ih =>
    cases h : child (n + 1) (mem t (idx (n + 1))) with
    | none => exact Nat.le_of_eq (congrArg Found.level (look_of_none h))
    | some c =>
      rw [look_of_child h]
      exact Nat.le_succ_of_le ih

/-- A lookup that uses the same indices as far as it goes finds the same. -/
theorem look_agree (h : ∀ k < n, (look child mark view mem n t idx).level ≤ k → idx' k = idx k) :
    look child mark view mem n t idx' = look child mark view mem n t idx := by
  induction n generalizing t with
  | zero => rfl
  | succ n ih =>
    have hn : idx' n = idx n := h n (Nat.lt_succ_self n) look_level_le
    cases hc : child n (mem t (idx n)) with
    | none => rw [look_of_none hc, look_of_none (by rw [hn]; exact hc), hn]
    | some c =>
      rw [look_of_child hc] at h ⊢
      rw [look_of_child (by rw [hn]; exact hc), hn, ih]
      intro k hk hlevel
      exact h k (Nat.lt_succ_of_lt hk) hlevel

/-- A lookup is determined by the contents of the nodes of the tree. -/
theorem look_congr (h : ∀ f, InTree child mem n t f → mem' f = mem f) :
    look child mark view mem' n t idx = look child mark view mem n t idx := by
  induction n generalizing t with
  | zero => rfl
  | succ n ih =>
    have hroot : mem' t = mem t := h t (inTree_root n t)
    cases hc : child n (mem t (idx n)) with
    | none => rw [look_of_none hc, look_of_none (by rw [hroot]; exact hc), hroot]
    | some c =>
      rw [look_of_child hc, look_of_child (by rw [hroot]; exact hc), hroot,
        ih fun f hf => h f (inTree_child hc hf)]

end Look

section Fill

variable [DecidableEq I] {leaf : ℕ} {m m₀ : M} {x : V} {dir idx : ℕ → I} {height n : ℕ}
  {r : Found M V}

/-- Filling goes on below an entry of the route. -/
theorem fill_under (hidx : idx n = dir n) : fill leaf m x dir idx (n + 1) (r.under m₀) =
    (fill leaf m x dir idx n r).under m₀ := by
  have hiff : (∀ k < n + 1, r.level ≤ k → idx k = dir k) ↔ ∀ k < n, r.level ≤ k → idx k = dir k := by
    constructor
    · intro h k hk hlevel
      exact h k (Nat.lt_succ_of_lt hk) hlevel
    · intro h k hk hlevel
      by_cases hkn : k = n
      · rw [hkn, hidx]
      · exact h k (by omega) hlevel
  simp only [fill, Found.under, hiff]
  split
  · rfl
  · rfl

theorem fill_of_seen (h : r.seen ≠ none) : fill leaf m x dir idx height r = r :=
  if_neg fun hcond => h hcond.1

/-- Filling does not concern a lookup that leaves the route. -/
theorem fill_of_ne {k : ℕ} (hk : k < height) (hlevel : r.level ≤ k) (hidx : idx k ≠ dir k) :
    fill leaf m x dir idx height r = r :=
  if_neg fun hcond => hidx (hcond.2.2 k hk hlevel)

/-- A lookup that ends at a missing entry on the route. -/
theorem fill_missing (hleaf : leaf ≤ n) (hidx : idx n = dir n) :
    fill leaf m x dir idx (n + 1) ⟨[], n, none⟩ = filled leaf m x dir idx n := by
  apply if_pos
  refine ⟨rfl, hleaf, ?_⟩
  intro k hk hlevel
  have hlevel : n ≤ k := hlevel
  obtain rfl : k = n := by omega
  exact hidx

theorem filled_leaf : filled leaf m x dir idx leaf = ⟨[], leaf, some x⟩ := by
  cases leaf with
  | zero => rfl
  | succ leaf => exact if_pos rfl

/-- INTERNAL: where a lookup through new entries ends does not depend on their mark. -/
theorem filled_mark (leaf n : ℕ) (m m' : M) (x : V) (dir idx : ℕ → I) :
    (filled leaf m' x dir idx n).level = (filled leaf m x dir idx n).level ∧
      (filled leaf m' x dir idx n).seen = (filled leaf m x dir idx n).seen := by
  induction n with
  | zero => exact ⟨rfl, rfl⟩
  | succ n ih =>
    rw [filled, filled]
    by_cases hn : n + 1 = leaf
    · rw [if_pos hn, if_pos hn]
      exact ⟨rfl, rfl⟩
    · rw [if_neg hn, if_neg hn]
      by_cases hidx : idx n = dir n
      · rw [if_pos hidx, if_pos hidx]
        exact ih
      · rw [if_neg hidx, if_neg hidx]
        exact ⟨rfl, rfl⟩

/-- A lookup through new entries follows the route to its end, or ends at a missing entry. -/
theorem filled_cases (m : M) (x : V) (dir idx : ℕ → I) (hn : leaf ≤ n) :
    ((filled leaf m x dir idx n).seen = some x ∧ (∀ k < n, leaf ≤ k → idx k = dir k) ∧
      ∀ f : M → Bool, (filled leaf m x dir idx n).marks.all f = (decide (n ≤ leaf) || f m)) ∨
    ((filled leaf m x dir idx n).seen = none ∧ ¬ n ≤ leaf ∧
      ∀ f : M → Bool, (filled leaf m x dir idx n).marks.all f = f m) := by
  induction n with
  | zero =>
    left
    obtain rfl : leaf = 0 := by omega
    exact ⟨rfl, fun k hk => absurd hk (Nat.not_lt_zero k), fun f => rfl⟩
  | succ n ih =>
    rw [filled]
    by_cases hleaf : n + 1 = leaf
    · left
      rw [if_pos hleaf]
      refine ⟨rfl, fun k hk hle => by omega, fun f => ?_⟩
      rw [decide_eq_true (Nat.le_of_eq hleaf), Bool.true_or]
      rfl
    · have hgt : ¬ n + 1 ≤ leaf := by omega
      rw [if_neg hleaf]
      by_cases hidx : idx n = dir n
      · rw [if_pos hidx]
        rcases ih (by omega) with ⟨hseen, hagree, hall⟩ | ⟨hseen, -, hall⟩
        · left
          refine ⟨hseen, ?_, fun f => ?_⟩
          · intro k hk hle
            by_cases hkn : k = n
            · rw [hkn, hidx]
            · exact hagree k (by omega) hle
          · rw [Found.under, List.all_cons, hall, decide_eq_false hgt]
            cases f m with
            | false => rfl
            | true => rw [Bool.or_true, Bool.or_true, Bool.and_true]
        · right
          refine ⟨hseen, hgt, fun f => ?_⟩
          rw [Found.under, List.all_cons, hall, Bool.and_self]
      · right
        rw [if_neg hidx]
        refine ⟨rfl, hgt, fun f => ?_⟩
        rw [List.all_cons, List.all_nil, Bool.and_true]

/-- Whether all marks satisfy `f` above a missing end, those included that the mark `m` is to be put on,
at the levels above `leaf`. -/
def Found.reach (leaf : ℕ) (m : M) (f : M → Bool) (r : Found M V) : Bool :=
  r.marks.all f && (decide (r.level ≤ leaf) || f m)

/-- What a lookup finds that found nothing before: the end of the route. -/
theorem fill_seen {y : V} (hr : r.seen = none) (h : (fill leaf m x dir idx height r).seen = some y) :
    y = x ∧ leaf ≤ r.level ∧ (∀ k < height, leaf ≤ k → idx k = dir k) ∧
      ∀ f : M → Bool, (fill leaf m x dir idx height r).marks.all f = r.reach leaf m f := by
  unfold fill at h ⊢
  by_cases hcond : r.seen = none ∧ leaf ≤ r.level ∧ ∀ k < height, r.level ≤ k → idx k = dir k
  · rw [if_pos hcond] at h ⊢
    obtain ⟨-, hleaf, hroute⟩ := hcond
    have h : (filled leaf m x dir idx r.level).seen = some y := h
    rcases filled_cases m x dir idx hleaf with
      ⟨hseen, hagree, hall⟩ | ⟨hseen, -⟩
    · refine ⟨Option.some.inj (h.symm.trans hseen), hleaf, ?_, fun f => ?_⟩
      · intro k hk hle
        by_cases hlevel : r.level ≤ k
        · exact hroute k hk hlevel
        · exact hagree k (Nat.not_le.mp hlevel) hle
      · simp only [List.all_append, hall, Found.reach]
    · rw [hseen] at h
      cases h
  · rw [if_neg hcond, hr] at h
    cases h

/-- A lookup that finds nothing found nothing before, and what is above its end has the same marks if the
entries to be made are counted. -/
theorem fill_unseen (h : (fill leaf m x dir idx height r).seen = none) : r.seen = none ∧
    (leaf ≤ (fill leaf m x dir idx height r).level → leaf ≤ r.level ∧
      ∀ f : M → Bool, (fill leaf m x dir idx height r).reach leaf m f = r.reach leaf m f) := by
  unfold fill at h ⊢
  by_cases hcond : r.seen = none ∧ leaf ≤ r.level ∧ ∀ k < height, r.level ≤ k → idx k = dir k
  · rw [if_pos hcond] at h ⊢
    obtain ⟨hr, hleaf, -⟩ := hcond
    have h : (filled leaf m x dir idx r.level).seen = none := h
    refine ⟨hr, fun _ => ⟨hleaf, fun f => ?_⟩⟩
    rcases filled_cases m x dir idx hleaf with
      ⟨hseen, -⟩ | ⟨-, hgt, hall⟩
    · cases h.symm.trans hseen
    · simp only [Found.reach, List.all_append, hall, decide_eq_false hgt, Bool.false_or,
        Bool.and_assoc]
      cases f m with
      | false => rfl
      | true => rw [Bool.or_true, Bool.and_true]
  · rw [if_neg hcond] at h ⊢
    exact ⟨h, fun hleaf => ⟨hleaf, fun _ => rfl⟩⟩

/-! ## One level more -/

/-- A lookup in a tree of height `n + 1` and one in a tree that is higher by one see the same: they end at
the same level, or at the root where they see nothing. -/
def Found.Matches (n : ℕ) (r r' : Found M V) : Prop :=
  r.seen = r'.seen ∧ (r.level = r'.level ∨ r.seen = none ∧ r.level = n ∧ r'.level = n + 1)

/-- **Filling keeps two lookups together** that use the same index at the root of the higher tree. -/
theorem Found.Matches.fill {r r' : Found M V} (h : r.Matches n r') (m m' : M) (x : V) (hleaf : leaf ≤ n)
    (htop : idx (n + 1) = dir (n + 1)) :
    (fill leaf m x dir idx (n + 1) r).Matches n (fill leaf m' x dir idx (n + 2) r') := by
  obtain ⟨hseen, hlevel | ⟨hnone, hlevel, hlevel'⟩⟩ := h
  · have hroute : (∀ k < n + 1, r.level ≤ k → idx k = dir k) ↔
        ∀ k < n + 2, r'.level ≤ k → idx k = dir k := by
      rw [← hlevel]
      constructor
      · intro h k hk hle
        by_cases hkn : k = n + 1
        · rw [hkn, htop]
        · exact h k (by omega) hle
      · intro h k hk hle
        exact h k (by omega) hle
    have hcond : (r.seen = none ∧ leaf ≤ r.level ∧ ∀ k < n + 1, r.level ≤ k → idx k = dir k) ↔
        (r'.seen = none ∧ leaf ≤ r'.level ∧ ∀ k < n + 2, r'.level ≤ k → idx k = dir k) := by
      rw [hroute, hseen, hlevel]
    unfold Library.fill
    by_cases hgoes : r.seen = none ∧ leaf ≤ r.level ∧ ∀ k < n + 1, r.level ≤ k → idx k = dir k
    · rw [if_pos hgoes, if_pos (hcond.mp hgoes), ← hlevel]
      obtain ⟨hl, hs⟩ := filled_mark leaf r.level m m' x dir idx
      exact ⟨hs.symm, Or.inl hl.symm⟩
    · rw [if_neg hgoes, if_neg (fun h => hgoes (hcond.mpr h))]
      exact ⟨hseen, Or.inl hlevel⟩
  · have hne : ¬ n + 1 = leaf := by omega
    have hcond' : r'.seen = none ∧ leaf ≤ r'.level ∧ ∀ k < n + 2, r'.level ≤ k → idx k = dir k := by
      refine ⟨hseen.symm.trans hnone, by omega, ?_⟩
      intro k hk hle
      obtain rfl : k = n + 1 := by omega
      exact htop
    have hcond : (r.seen = none ∧ leaf ≤ r.level ∧ ∀ k < n + 1, r.level ≤ k → idx k = dir k) ↔
        idx n = dir n := by
      rw [hlevel]
      constructor
      · intro h
        exact h.2.2 n (Nat.lt_succ_self n) (Nat.le_refl n)
      · intro hidx
        refine ⟨hnone, hleaf, ?_⟩
        intro k hk hle
        obtain rfl : k = n := by omega
        exact hidx
    unfold Library.fill
    rw [if_pos hcond', hlevel', filled, if_neg hne]
    by_cases hidx : idx n = dir n
    · rw [if_pos (hcond.mpr hidx), if_pos hidx, hlevel]
      obtain ⟨hl, hs⟩ := filled_mark leaf n m m' x dir idx
      exact ⟨hs.symm, Or.inl hl.symm⟩
    · rw [if_neg (fun h => hidx (hcond.mp h)), if_neg hidx]
      exact ⟨hnone, Or.inl hlevel⟩

end Fill

/-! ## Growing -/

section Grown

variable {child : ℕ → E → Option F} {zero : E} {dir idx : ℕ → I}
  {leafRel : ℕ → E → E → Prop} {pointer : ℕ → E → Prop} {height : ℕ}
  {place place' : F → Option (List I)} {mem mem' : F → I → E} {fs fs' : List F}
  {mark : E → M} {view : ℕ → E → Option V} {leaf : ℕ} {m : M} {x : V}

/-- What is known of the entries that the operation writes. -/
structure Writes (child : ℕ → E → Option F) (zero : E) (leafRel : ℕ → E → E → Prop)
    (pointer : ℕ → E → Prop) (mark : E → M) (view : ℕ → E → Option V) (leaf : ℕ) (m : M) (x : V) :
    Prop where
  childZero : ∀ n, child n zero = none
  childLevel : ∀ e, child 0 e = none
  seenZero : ∀ n, view n zero = none
  leafNew : ∀ n e, leafRel n zero e → n = leaf ∧ view n e = some x
  leafOld : ∀ n old e, leafRel n old e → old ≠ zero → view n e = view n old
  pointerMark : ∀ n e, pointer n e → mark e = m
  pointerLevel : ∀ n e, pointer n e → leaf ≤ n

/-- INTERNAL: a lookup from a node that the route of the operation does not pass. -/
theorem TreeGrown.look_other
    (h : TreeGrown child zero dir leafRel pointer height place place' mem fs mem' fs')
    (hplaced : Placed child height place mem) {n k : ℕ} {t : F} (hk : k + n = height)
    (ht : place t = some (route idx height k)) (hne : route idx height k ≠ route dir height k) :
    look child mark view mem' n t idx = look child mark view mem n t idx := by
  induction n generalizing k t with
  | zero => rfl
  | succ n ih =>
    have hsame : mem' t (idx n) = mem t (idx n) := by
      rcases h.entries t _ (idx n) ht with hsame | ⟨k', n', hroute, -, hk', -⟩
      · exact hsame
      · have hlen := congrArg List.length hroute
        rw [route_length, route_length] at hlen
        subst hlen
        exact absurd hroute hne
    cases hc : child n (mem t (idx n)) with
    | none => rw [look_of_none hc, look_of_none (by rw [hsame]; exact hc), hsame]
    | some c =>
      have hplace := hplaced.below t _ (idx n) n c ht (by rw [route_length]; exact hk) hc
      rw [← route_succ hk] at hplace
      rw [look_of_child hc, look_of_child (by rw [hsame]; exact hc), hsame,
        ih (k := k + 1) (by omega) hplace]
      intro heq
      rw [route_succ hk, route_succ hk] at heq
      exact hne (List.append_inj' heq rfl).1

/-- INTERNAL: the entries of a new node on the route. -/
theorem TreeGrown.fresh_entry
    (h : TreeGrown child zero dir leafRel pointer height place place' mem fs mem' fs')
    (hw : Writes child zero leafRel pointer mark view leaf m x) {n k : ℕ} {t : F} {i : I}
    (hk : k + (n + 1) = height) (ht : place t = none) (ht' : place' t = some (route dir height k)) :
    mem' t i = zero ∨ i = dir n ∧
      (n = leaf ∧ child n (mem' t i) = none ∧ view n (mem' t i) = some x ∨
        mark (mem' t i) = m ∧ ∃ c, child n (mem' t i) = some c ∧ place c = none ∧
          place' c = some (route dir height (k + 1))) := by
  rcases h.fresh t _ i ht ht' with hzero | ⟨k', n', hroute, hi, hk', hchange⟩
  · exact Or.inl hzero
  · right
    have hlen := congrArg List.length hroute
    rw [route_length, route_length] at hlen
    obtain rfl : n = n' := by omega
    refine ⟨hi, ?_⟩
    rcases hchange with ⟨hleaf, hnone⟩ | ⟨hpointer, c, hc, hplace⟩
    · obtain ⟨hn, hview⟩ := hw.leafNew n _ hleaf
      exact Or.inl ⟨hn, hnone, hview⟩
    · right
      refine ⟨hw.pointerMark n _ hpointer, c, hc, hplace, ?_⟩
      rw [h.placed.below t _ i n c ht' (by rw [route_length]; exact hk) hc, route_succ hk, hi]

/-- INTERNAL: the entries of a node on the route that was in use. -/
theorem TreeGrown.kept_entry
    (h : TreeGrown child zero dir leafRel pointer height place place' mem fs mem' fs')
    (hw : Writes child zero leafRel pointer mark view leaf m x) {n k : ℕ} {t : F} {i : I}
    (hk : k + (n + 1) = height) (ht : place t = some (route dir height k)) :
    mem' t i = mem t i ∨ i = dir n ∧ child n (mem t i) = none ∧
      (child n (mem' t i) = none ∧ view n (mem' t i) = view n (mem t i) ∨
        mem t i = zero ∧ child n (mem' t i) = none ∧ n = leaf ∧ view n (mem' t i) = some x ∨
        mem t i = zero ∧ leaf ≤ n ∧ mark (mem' t i) = m ∧ ∃ c, child n (mem' t i) = some c ∧
          place c = none ∧ place' c = some (route dir height (k + 1))) := by
  rcases h.entries t _ i ht with hsame | ⟨k', n', hroute, hi, hk', hnone, hchange⟩
  · exact Or.inl hsame
  · right
    have hlen := congrArg List.length hroute
    rw [route_length, route_length] at hlen
    obtain rfl : n = n' := by omega
    refine ⟨hi, hnone, ?_⟩
    rcases hchange with ⟨hleaf, hnone'⟩ | ⟨hzero, hpointer, c, hc, hplace⟩
    · by_cases hzero : mem t i = zero
      · rw [hzero] at hleaf
        obtain ⟨hn, hview⟩ := hw.leafNew n _ hleaf
        exact Or.inr (Or.inl ⟨hzero, hnone', hn, hview⟩)
      · exact Or.inl ⟨hnone', hw.leafOld n _ _ hleaf hzero⟩
    · right
      right
      refine ⟨hzero, hw.pointerLevel n _ hpointer, hw.pointerMark n _ hpointer, c, hc, hplace, ?_⟩
      rw [h.placed.below t _ i n c (h.old t _ ht) (by rw [route_length]; exact hk) hc, route_succ hk,
        hi]

variable [DecidableEq I]

/-- INTERNAL: a lookup from a new node. -/
theorem TreeGrown.look_fresh
    (h : TreeGrown child zero dir leafRel pointer height place place' mem fs mem' fs')
    (hw : Writes child zero leafRel pointer mark view leaf m x) {n k : ℕ} {t : F}
    (hk : k + (n + 1) = height) (ht : place t = none) (ht' : place' t = some (route dir height k))
    (hlevel : (look child mark view mem' (n + 1) t dir).level = leaf)
    (hseen : (look child mark view mem' (n + 1) t dir).seen = some x) :
    look child mark view mem' (n + 1) t idx =
      if idx n = dir n then filled leaf m x dir idx n else ⟨[], n, none⟩ := by
  induction n generalizing k t with
  | zero =>
    rw [look_of_none (hw.childLevel _)] at hseen
    rw [look_of_none (hw.childLevel _)]
    by_cases hidx : idx 0 = dir 0
    · rw [if_pos hidx, hidx, filled, ← hseen]
    · rw [if_neg hidx]
      rcases h.fresh_entry hw hk ht ht' with hzero | ⟨hi, -⟩
      · rw [hzero, hw.seenZero]
      · exact absurd hi hidx
  | succ n ih =>
    by_cases hidx : idx (n + 1) = dir (n + 1)
    · rw [if_pos hidx]
      rcases h.fresh_entry (i := dir (n + 1)) hw hk ht ht' with hzero | ⟨-, ⟨hn, hnone, hview⟩ |
        ⟨hmark, c, hc, hplace, hplace'⟩⟩
      · -- the route does not end at a missing entry
        rw [look_of_none (by rw [hzero]; exact hw.childZero _), hzero,
          hw.seenZero] at hseen
        cases hseen
      · rw [look_of_none (by rw [hidx]; exact hnone), hidx, hview, filled, if_pos hn]
      · rw [look_of_child hc] at hlevel hseen
        have hlt : (look child mark view mem' (n + 1) c dir).level ≤ n := look_level_le
        have hne : ¬ n + 1 = leaf := by
          intro heq
          rw [← heq] at hlevel
          have hlevel : (look child mark view mem' (n + 1) c dir).level = n + 1 := hlevel
          omega
        rw [look_of_child (by rw [hidx]; exact hc), hidx, hmark, filled, if_neg hne,
          ih (k := k + 1) (by omega) hplace hplace' hlevel hseen]
        split
        · rfl
        · rfl
    · rw [if_neg hidx]
      rcases h.fresh_entry (i := idx (n + 1)) hw hk ht ht' with hzero | ⟨hi, -⟩
      · rw [look_of_none (by rw [hzero]; exact hw.childZero _), hzero, hw.seenZero]
      · exact absurd hi hidx

/-- INTERNAL: a lookup from a node on the route of the operation. -/
theorem TreeGrown.look_route
    (h : TreeGrown child zero dir leafRel pointer height place place' mem fs mem' fs')
    (hplaced : Placed child height place mem)
    (hw : Writes child zero leafRel pointer mark view leaf m x) {n k : ℕ} {t : F}
    (hk : k + n = height) (ht : place t = some (route dir height k))
    (hroute : route idx height k = route dir height k)
    (hends : (look child mark view mem n t dir).seen = none →
      leaf ≤ (look child mark view mem n t dir).level →
      (look child mark view mem' n t dir).level = leaf ∧
        (look child mark view mem' n t dir).seen = some x) :
    look child mark view mem' n t idx =
      fill leaf m x dir idx n (look child mark view mem n t idx) := by
  induction n generalizing k t with
  | zero =>
    have hdepth := hplaced.depth t _ ht
    rw [route_length] at hdepth
    omega
  | succ n ih =>
    have hlen : (route dir height k).length + (n + 1) = height := by
      rw [route_length]
      exact hk
    by_cases hidx : idx n = dir n
    · rcases h.kept_entry (i := dir n) hw hk ht with hsame | ⟨-, hnone, hchange⟩
      · cases hc : child n (mem t (dir n)) with
        | none =>
          have hc' : child n (mem' t (dir n)) = none := by rw [hsame, hc]
          rw [look_of_none hc, look_of_none hc', hsame] at hends
          rw [look_of_none (by rw [hidx]; exact hc'), look_of_none (by rw [hidx]; exact hc), hidx,
            hsame]
          apply (if_neg _).symm
          rintro ⟨hnothing, hlevel, -⟩
          obtain ⟨-, hsome⟩ := hends hnothing hlevel
          cases hnothing.symm.trans hsome
        | some c =>
          have hc' : child n (mem' t (dir n)) = some c := by rw [hsame, hc]
          have hplace := hplaced.below t _ (dir n) n c ht hlen hc
          rw [← route_succ hk] at hplace
          rw [look_of_child hc, look_of_child hc'] at hends
          rw [look_of_child (by rw [hidx]; exact hc'), look_of_child (by rw [hidx]; exact hc), hidx,
            hsame, fill_under hidx, ih (k := k + 1) (by omega) hplace _ hends]
          rw [route_succ hk, route_succ hk, hroute, hidx]
      · rw [look_of_none hnone] at hends
        have hbefore : child n (mem t (idx n)) = none := by rw [hidx]; exact hnone
        rw [look_of_none hbefore, hidx]
        rcases hchange with ⟨hnone', hview⟩ | ⟨hzero, hnone', hn, hview⟩ |
          ⟨hzero, hleaf, hmark, c, hc, hplace, hplace'⟩
        · rw [look_of_none hnone', hview] at hends
          rw [look_of_none (by rw [hidx]; exact hnone'), hidx, hview]
          apply (if_neg _).symm
          rintro ⟨hnothing, hlevel, -⟩
          obtain ⟨-, hsome⟩ := hends hnothing hlevel
          cases hnothing.symm.trans hsome
        · have hmissing : view n (mem t (dir n)) = none := by rw [hzero, hw.seenZero]
          rw [look_of_none (by rw [hidx]; exact hnone'), hidx, hview, hmissing,
            fill_missing (by omega) hidx, hn, filled_leaf]
        · have hmissing : view n (mem t (dir n)) = none := by rw [hzero, hw.seenZero]
          obtain ⟨hlevel, hseen⟩ := hends hmissing hleaf
          rw [look_of_child hc] at hlevel hseen
          rw [look_of_child (by rw [hidx]; exact hc), hidx, hmark, hmissing, fill_missing hleaf hidx]
          cases n with
          | zero => cases (hw.childLevel _).symm.trans hc
          | succ n =>
            have hlt : (look child mark view mem' (n + 1) c dir).level ≤ n := look_level_le
            have hne : ¬ n + 1 = leaf := by
              intro heq
              rw [← heq] at hlevel
              have hlevel : (look child mark view mem' (n + 1) c dir).level = n + 1 := hlevel
              omega
            rw [filled, if_neg hne, h.look_fresh hw (k := k + 1) (by omega) hplace hplace' hlevel hseen]
            split
            · rfl
            · rfl
    · -- the lookup leaves the route here
      have hsame : mem' t (idx n) = mem t (idx n) := by
        rcases h.entries t _ (idx n) ht with hsame | ⟨k', n', hroute', hi, hk', -⟩
        · exact hsame
        · have hlen' := congrArg List.length hroute'
          rw [route_length, route_length] at hlen'
          obtain rfl : n = n' := by omega
          exact absurd hi hidx
      cases hc : child n (mem t (idx n)) with
      | none =>
        rw [look_of_none hc, look_of_none (by rw [hsame]; exact hc), hsame,
          fill_of_ne (Nat.lt_succ_self n) (Nat.le_refl n) hidx]
      | some c =>
        have hplace := hplaced.below t _ (idx n) n c ht hlen hc
        have hother : route idx height (k + 1) ≠ route dir height (k + 1) := by
          rw [route_succ hk, route_succ hk]
          intro heq
          exact hidx (List.singleton_inj.mp (List.append_inj' heq rfl).2)
        rw [← hroute, ← route_succ hk] at hplace
        have hafter : child n (mem' t (idx n)) = some c := by rw [hsame]; exact hc
        rw [look_of_child hafter, look_of_child hc, hsame,
          h.look_other hplaced (k := k + 1) (by omega) hplace hother,
          fill_of_ne (Nat.lt_succ_self n) _ hidx]
        cases n with
        | zero => exact Nat.le_refl 0
        | succ n => exact Nat.le_succ_of_le look_level_le

/-- **What lookups find after growing**: those that ended at a missing entry of the route go on. The
route itself then ends at the level `leaf`, if it ended at a missing entry there or above. -/
theorem TreeGrown.look_eq
    (h : TreeGrown child zero dir leafRel pointer height place place' mem fs mem' fs')
    (hplaced : Placed child height place mem)
    (hw : Writes child zero leafRel pointer mark view leaf m x) {root : F}
    (hroot : place root = some [])
    (hends : (look child mark view mem height root dir).seen = none →
      leaf ≤ (look child mark view mem height root dir).level →
      (look child mark view mem' height root dir).level = leaf ∧
        (look child mark view mem' height root dir).seen = some x) :
    look child mark view mem' height root idx =
      fill leaf m x dir idx height (look child mark view mem height root idx) :=
  h.look_route hplaced hw (k := 0) (Nat.zero_add height) hroot rfl hends

end Grown

end CrepOS.Library
