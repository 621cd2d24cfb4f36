import CrepOS.Library.RouteLook
import CrepOS.Interface.TwinTables
import CrepOS.Analysis.TablesKept

/-!
# What an address finds in a table

For translations and access rights it is enough to know of an address the bits 1 and 2 of the entries
that its walk passes, the level at which it ends, and the page that it sees there (`found`). A call of
`map_page_raw` changes this for all addresses in one way, `fill` of the library (`TreeSound.mapPageRaw`): the
only thing that depends on the class of the table is its height. This holds in tables all of whose
nonzero entries are present and whose pointers have bit 7 clear (`TreeSound`), which calls with the flags
that the kernel uses keep.
-/

set_option autoImplicit false

namespace CrepOS.Analysis

open CrepOS.Library CrepOS.Model CrepOS.Interface

/-- A page as a present entry of level `n` describes it: its address and bits 1 and 2. -/
def pageView (n : ℕ) (e : Word) : Option (Word × Bool × Bool) :=
  if e.getLsbD 0 then some (pageBase n e, e.getLsbD 1, e.getLsbD 2) else none

/-- The bits 1 and 2 of a pointer. -/
def rightsMark (e : Word) : Word := e &&& 0x6

/-- What the address `v` finds from the table in the frame `root` on. -/
def found (p : Paging) (mem : Word → Index → Word) (root v : Word) :
    Found Word (Word × Bool × Bool) :=
  look tableBelow rightsMark pageView mem p.levels root (walkIndex v)

/-- The tables below `root`, at their places: nonzero entries are present, and bit 7 of a pointer is
clear. -/
structure TreeSound (p : Paging) (root : Word) (place : Word → Option (List Index)) (s : Vm) : Prop where
  placed : TablesPlaced p place s
  top : place root = some []
  present : ∀ t l i n, place t = some l → l.length + (n + 1) = p.levels → s.mem t i ≠ 0 →
    (s.mem t i).getLsbD 0 = true
  pointer : ∀ t l i n, place t = some l → l.length + (n + 1) = p.levels →
    (tableBelow n (s.mem t i)).isSome → (s.mem t i).getLsbD 7 = false

/-! ## Walks -/

section Walks

variable {p : Paging} {root v t : Word} {place : Word → Option (List Index)} {s : Vm} {n : ℕ}
  {l : List Index} {bit : ℕ}

theorem getLsbD_rightsMark {e : Word} (hbit : bit = 1 ∨ bit = 2) :
    (rightsMark e).getLsbD bit = e.getLsbD bit := by
  rw [rightsMark, BitVec.getLsbD_and]
  rcases hbit with rfl | rfl
  · rw [show (0x6 : Word).getLsbD 1 = true from rfl, Bool.and_true]
  · rw [show (0x6 : Word).getLsbD 2 = true from rfl, Bool.and_true]

/-- INTERNAL: the walk at an entry without a table. -/
theorem walkStep_childless {e : Word} (hnone : tableBelow n e = none) :
    walkStep n e = .inr (if e.getLsbD 0 then .page n e else .fault) := by
  by_cases hp : e.getLsbD 0 = true
  · have hleaf : isLeaf n e = true := by
      by_contra hno
      rw [tableBelow, if_neg (not_or.mpr ⟨ne_zero_of_present hp, hno⟩)] at hnone
      cases hnone
    rw [if_pos hp, walkStep, if_neg (by rw [hp]; exact Bool.noConfusion)]
    by_cases hn : n = 0
    · rw [if_pos hn, hn]
    · rw [isLeaf, Bool.or_eq_true, Bool.and_eq_true, decide_eq_true_eq, decide_eq_true_eq] at hleaf
      obtain ⟨hn2, h7⟩ := hleaf.resolve_left hn
      rw [if_neg hn, if_pos h7, if_pos hn2]
  · rw [if_neg hp, walkStep, if_pos (eq_false_of_ne_true hp)]

/-- INTERNAL: the walk at an entry with a table. -/
theorem TreeSound.walkStep_pointer {i : Index} {c : Word} (h : TreeSound p root place s)
    (ht : place t = some l) (hl : l.length + (n + 1) = p.levels)
    (hc : tableBelow n (s.mem t i) = some c) :
    n ≠ 0 ∧ s.mem t i ≠ 0 ∧ c = frameOf (s.mem t i) ∧ (s.mem t i).getLsbD 0 = true ∧
      (s.mem t i).getLsbD 7 = false ∧ walkStep n (s.mem t i) = .inl c := by
  have hn : n ≠ 0 := by
    rintro rfl
    rw [tableBelow_level_zero] at hc
    cases hc
  have hne : s.mem t i ≠ 0 := by
    intro hzero
    rw [hzero, tableBelow_zero] at hc
    cases hc
  have hp := h.present t l i n ht hl hne
  have h7 := h.pointer t l i n ht hl (by rw [hc]; rfl)
  have hgood : GoodEntry n (s.mem t i) := fun hsome => ⟨hp, h.placed.clean t l i n ht hl hsome⟩
  have hframe : c = frameOf (s.mem t i) :=
    Option.some.inj (hc.symm.trans (tableBelow_of_not_huge hn hp h7))
  exact ⟨hn, hne, hframe, hp, h7, by rw [walkStep_of_not_huge hn hp h7 hgood, hframe]⟩

/-- **The walk ends where the lookup does**, and has read the entries that it passed. -/
theorem TreeSound.walk_look (h : TreeSound p root place s) (ht : place t = some l)
    (hl : l.length + (n + 1) = p.levels) :
    ∃ e, (look tableBelow rightsMark pageView s.mem (n + 1) t (walkIndex v)).seen =
        pageView (look tableBelow rightsMark pageView s.mem (n + 1) t (walkIndex v)).level e ∧
      descend walkStep s.mem (n + 1) t (walkIndex v) = some (if e.getLsbD 0 then
        .page (look tableBelow rightsMark pageView s.mem (n + 1) t (walkIndex v)).level e else .fault) ∧
      ∀ bit, bit = 1 ∨ bit = 2 →
        (trail walkStep s.mem (n + 1) t (walkIndex v)).all (fun e => e.getLsbD bit) =
          ((look tableBelow rightsMark pageView s.mem (n + 1) t (walkIndex v)).marks.all
            (fun e => e.getLsbD bit) && e.getLsbD bit) := by
  induction n generalizing t l with
  | zero =>
    have hnone : tableBelow 0 (s.mem t (walkIndex v 0)) = none := tableBelow_level_zero _
    have hstep := walkStep_childless hnone
    refine ⟨s.mem t (walkIndex v 0), ?_, ?_, ?_⟩
    · rw [look_of_none hnone]
    · rw [descend, hstep, look_of_none hnone]
    · intro bit _
      rw [trail, hstep, look_of_none hnone]
      simp
  | succ n ih =>
    cases hc : tableBelow (n + 1) (s.mem t (walkIndex v (n + 1))) with
    | none =>
      have hstep := walkStep_childless hc
      refine ⟨s.mem t (walkIndex v (n + 1)), ?_, ?_, ?_⟩
      · rw [look_of_none hc]
      · rw [descend, hstep, look_of_none hc]
      · intro bit _
        rw [trail, hstep, look_of_none hc]
        simp
    | some c =>
      obtain ⟨-, -, -, -, -, hstep⟩ := h.walkStep_pointer ht hl hc
      have hplace := h.placed.placed.below t l _ (n + 1) c ht hl hc
      obtain ⟨e, hseen, hwalk, hall⟩ := ih hplace
        (by rw [List.length_append, List.length_singleton]; omega)
      refine ⟨e, ?_, ?_, ?_⟩
      · rw [look_of_child hc]
        exact hseen
      · rw [descend, hstep, look_of_child hc]
        exact hwalk
      · intro bit hbit
        have hrest := hall bit hbit
        rw [trail, hstep, look_of_child hc, List.all_cons]
        simp only [Found.under, List.all_cons, getLsbD_rightsMark hbit]
        rw [hrest, Bool.and_assoc]

/-- What an address that finds `r` may do. -/
def foundAccess (v : Word) (r : Found Word (Word × Bool × Bool)) : Option (Word × Bool × Bool) :=
  r.seen.map fun x => (x.1 ||| (v &&& pageMask r.level),
    r.marks.all (fun e => e.getLsbD 1) && x.2.1, r.marks.all (fun e => e.getLsbD 2) && x.2.2)

/-- **The translation and the rights of an address** are those of what it finds. -/
theorem TreeSound.effective_eq (h : TreeSound p root place s) :
    effective p s.mem root v = foundAccess v (found p s.mem root v) := by
  have hlevels := levels_ge p
  obtain ⟨n, hn⟩ : ∃ n, p.levels = n + 1 := ⟨p.levels - 1, by omega⟩
  obtain ⟨e, hseen, hwalk, hall⟩ := h.walk_look (v := v) (n := n) h.top (by rw [hn]; exact Nat.zero_add _)
  rw [← hn] at hseen hwalk hall
  rw [effective, access, Interface.translate, walk, hwalk, foundAccess, found, hseen, pageView]
  by_cases hp : e.getLsbD 0 = true
  · rw [if_pos hp, if_pos hp]
    simp only [Option.map_some, hall 1 (Or.inl rfl), hall 2 (Or.inr rfl)]
  · rw [if_neg hp, if_neg hp]
    rfl

/-! ## Missing pages -/

/-- INTERNAL: an entry that shows no page is missing. -/
theorem TreeSound.zero_of_view {i : Index} (h : TreeSound p root place s) (ht : place t = some l)
    (hl : l.length + (n + 1) = p.levels) (hview : pageView n (s.mem t i) = none) : s.mem t i = 0 := by
  by_contra hne
  rw [pageView, if_pos (h.present t l i n ht hl hne)] at hview
  cases hview

/-- **A lookup that finds nothing** at or above a level meets a missing entry there. -/
theorem TreeSound.meetsZero {leaf : ℕ} (h : TreeSound p root place s) (ht : place t = some l)
    (hl : l.length + (n + 1) = p.levels)
    (hseen : (look tableBelow rightsMark pageView s.mem (n + 1) t (walkIndex v)).seen = none)
    (hlevel : leaf ≤ (look tableBelow rightsMark pageView s.mem (n + 1) t (walkIndex v)).level) :
    MeetsZero leaf s.mem v (n + 1) t := by
  induction n generalizing t l with
  | zero =>
    rw [look_of_none (tableBelow_level_zero _)] at hseen
    exact Or.inl (h.zero_of_view ht hl hseen)
  | succ n ih =>
    cases hc : tableBelow (n + 1) (s.mem t (walkIndex v (n + 1))) with
    | none =>
      rw [look_of_none hc] at hseen
      exact Or.inl (h.zero_of_view ht hl hseen)
    | some c =>
      obtain ⟨-, -, rfl, hp, h7, -⟩ := h.walkStep_pointer ht hl hc
      rw [look_of_child hc] at hseen hlevel
      have hlt : (look tableBelow rightsMark pageView s.mem (n + 1)
        (frameOf (s.mem t (walkIndex v (n + 1)))) (walkIndex v)).level ≤ n := look_level_le
      have hlevel' : leaf ≤ (look tableBelow rightsMark pageView s.mem (n + 1)
        (frameOf (s.mem t (walkIndex v (n + 1)))) (walkIndex v)).level := hlevel
      refine Or.inr ⟨by omega, hp, h7, ih (h.placed.placed.below t l _ (n + 1) _ ht hl hc) ?_ hseen hlevel⟩
      rw [List.length_append, List.length_singleton]
      omega

/-- INTERNAL: the condition in terms of what is found. -/
theorem TreeSound.tablesAllow_eq {leaf : ℕ} (flags1 : Word) (h : TreeSound p root place s)
    (ht : place t = some l) (hl : l.length + (n + 1) = p.levels) (hbit : bit = 1 ∨ bit = 2)
    (hseen : (look tableBelow rightsMark pageView s.mem (n + 1) t (walkIndex v)).seen = none)
    (hlevel : leaf ≤ (look tableBelow rightsMark pageView s.mem (n + 1) t (walkIndex v)).level) :
    tablesAllow bit leaf flags1 s.mem v (n + 1) t =
      (look tableBelow rightsMark pageView s.mem (n + 1) t (walkIndex v)).reach leaf flags1
        (fun e => e.getLsbD bit) := by
  induction n generalizing t l with
  | zero =>
    have hnone : tableBelow 0 (s.mem t (walkIndex v 0)) = none := tableBelow_level_zero _
    rw [look_of_none hnone] at hlevel ⊢
    have hlevel : leaf ≤ 0 := hlevel
    obtain rfl : leaf = 0 := by omega
    rw [tablesAllow, if_pos rfl]
    rfl
  | succ n ih =>
    have hle : (look tableBelow rightsMark pageView s.mem (n + 1 + 1) t (walkIndex v)).level ≤ n + 1 :=
      look_level_le
    cases hc : tableBelow (n + 1) (s.mem t (walkIndex v (n + 1))) with
    | none =>
      rw [look_of_none hc] at hseen hlevel ⊢
      have hzero := h.zero_of_view ht hl hseen
      have hlevel : leaf ≤ n + 1 := hlevel
      rw [tablesAllow, if_pos hzero, Found.reach]
      by_cases hn : n + 1 = leaf
      · rw [if_pos hn]
        simp [hn]
      · rw [if_neg hn]
        have hgt : ¬ n + 1 ≤ leaf := by omega
        simp [hgt]
    | some c =>
      obtain ⟨-, hne, rfl, -, -, -⟩ := h.walkStep_pointer ht hl hc
      rw [look_of_child hc] at hseen hlevel ⊢
      have hlt : (look tableBelow rightsMark pageView s.mem (n + 1)
        (frameOf (s.mem t (walkIndex v (n + 1)))) (walkIndex v)).level ≤ n := look_level_le
      have hlevel' : leaf ≤ (look tableBelow rightsMark pageView s.mem (n + 1)
        (frameOf (s.mem t (walkIndex v (n + 1)))) (walkIndex v)).level := hlevel
      have hn : ¬ n + 1 = leaf := by omega
      rw [tablesAllow, if_neg hn, if_neg hne,
        ih (h.placed.placed.below t l _ (n + 1) _ ht hl hc)
          (by rw [List.length_append, List.length_singleton]; omega) hseen hlevel]
      rw [Found.reach, Found.reach, Found.under, List.all_cons, getLsbD_rightsMark hbit, Bool.and_assoc]

end Walks

/-! ## One page -/

section Page

variable {p : Paging} {root v paddr flags1 flags0 : Word} {pa : ℤ}
  {place : Word → Option (List Index)} {s s' : Vm}

/-- The page that a call maps, as its entry describes it. -/
def newPage (paddr flags0 : Word) (pa : ℤ) : Word × Bool × Bool :=
  (pageBase (leafLevel flags0) (pageEntry paddr flags0 pa), (paddr ||| flags0).getLsbD 1,
    (paddr ||| flags0).getLsbD 2)

/-- INTERNAL: the low bits of the entry of a page. -/
theorem getLsbD_pageEntry {k : ℕ} (hk : k < 3) :
    (pageEntry paddr flags0 pa).getLsbD k = (paddr ||| flags0).getLsbD k := by
  rw [pageEntry, BitVec.getLsbD_or]
  split
  · exact getLsbD_leafEntry (q := 12) paddr flags0 pa (by omega) (by omega) (by omega) (by omega)
  · exact getLsbD_leafEntry (q := 7) paddr flags0 pa (by omega) (by omega) (by omega) (by omega)

theorem pageEntry_present (hp : flags0.getLsbD 0 = true) : (pageEntry paddr flags0 pa).getLsbD 0 = true := by
  rw [getLsbD_pageEntry (by omega), BitVec.getLsbD_or, hp, Bool.or_true]

/-- INTERNAL: the entry of a page points to no table. -/
theorem tableBelow_pageEntry : tableBelow (leafLevel flags0) (pageEntry paddr flags0 pa) = none := by
  by_cases h7 : flags0.getLsbD 7 = true
  · simp only [leafLevel, pageEntry, h7, if_true]
    exact tableBelow_huge paddr pa h7
  · simp only [leafLevel, h7, if_false, Bool.false_eq_true]
    exact tableBelow_level_zero _

/-- INTERNAL: a memory type does not change the bits 1 and 2 of an entry. -/
theorem getLsbD_rights_setPa {n k : ℕ} {e : Word} (hk : k < 3) :
    (setPa (if n = 0 then patSmall else patHuge) pa e).getLsbD k = e.getLsbD k := by
  by_cases hn : n = 0
  · rw [if_pos hn]
    exact getLsbD_setPa (q := 7) e pa (by omega) (by omega) (by omega) (by omega)
  · rw [if_neg hn]
    exact getLsbD_setPa (q := 12) e pa (by omega) (by omega) (by omega) (by omega)

/-- What a call of `map_page_raw` writes. -/
theorem mapPageRaw_writes (hp : flags0.getLsbD 0 = true) :
    Writes tableBelow 0 (LeafChange paddr flags0 pa) (NewPointer flags1) rightsMark pageView
      (leafLevel flags0) (rightsMark flags1) (newPage paddr flags0 pa) := by
  refine ⟨tableBelow_zero, tableBelow_level_zero, ?_, ?_, ?_, ?_, ?_⟩
  · intro n
    rfl
  · rintro n e (⟨-, rfl, -, rfl⟩ | ⟨hne, -⟩)
    · refine ⟨rfl, ?_⟩
      rw [pageView, if_pos (pageEntry_present hp), newPage, getLsbD_pageEntry (by omega),
        getLsbD_pageEntry (by omega)]
    · exact absurd rfl hne
  · rintro n old e (⟨rfl, -⟩ | ⟨-, -, -, rfl⟩) hne
    · exact absurd rfl hne
    · rw [pageView, pageView, getLsbD_zero_setPa, pageBase_setPa, getLsbD_rights_setPa (by omega),
        getLsbD_rights_setPa (by omega)]
  · rintro n e ⟨-, f, hf, rfl⟩
    apply BitVec.eq_of_getLsbD_eq
    intro k hk
    rw [rightsMark, rightsMark, BitVec.getLsbD_and, BitVec.getLsbD_and, BitVec.getLsbD_or]
    by_cases hlow : k < 12
    · rw [hf.getLsbD_low (by omega), Bool.false_or]
    · have hsix : (0x6 : Word).getLsbD k = false := by
        rw [show (0x6 : Word) = BitVec.ofNat 64 (2 ^ 3 - 1) &&& ~~~1#64 from by decide,
          BitVec.getLsbD_and, getLsbD_lowMask 3 k hk]
        have hge : ¬ k < 3 := by omega
        simp [hge]
      rw [hsix, Bool.and_false, Bool.and_false]
  · rintro n e ⟨hn, -⟩
    unfold leafLevel
    split
    · omega
    · omega

/-- INTERNAL: an entry that a call of `map_page_raw` changes. -/
theorem sound_of_change {n : ℕ} {e : Word} (old : Word) (hflags1 : DirectoryFlags flags1)
    (hp : flags0.getLsbD 0 = true) (hold : old ≠ 0 → old.getLsbD 0 = true)
    (h : LeafChange paddr flags0 pa n old e ∧ tableBelow n e = none ∨ NewPointer flags1 n e) :
    e.getLsbD 0 = true ∧ ((tableBelow n e).isSome → e.getLsbD 7 = false) := by
  rcases h with ⟨hleaf, hnone⟩ | ⟨-, f, hf, rfl⟩
  · refine ⟨?_, fun hsome => by rw [hnone] at hsome; cases hsome⟩
    rcases hleaf with ⟨-, -, -, rfl⟩ | ⟨hne, -, -, rfl⟩
    · exact pageEntry_present hp
    · rw [getLsbD_zero_setPa, hold hne]
  · refine ⟨?_, fun _ => ?_⟩
    · rw [BitVec.getLsbD_or, hflags1.1, Bool.or_true]
    · rw [← isHuge_eq, isHuge_or hf hflags1.2]

/-- INTERNAL: the entries of the tables after a call of `map_page_raw`. -/
theorem TreeSound.entries_after (h : TreeSound p root place s) (hflags1 : DirectoryFlags flags1)
    (hp : flags0.getLsbD 0 = true) {place' : Word → Option (List Index)}
    (hgrown : TreeGrown tableBelow 0 (walkIndex v) (LeafChange paddr flags0 pa) (NewPointer flags1)
      p.levels place place' s.mem s.free s'.mem s'.free)
    {t : Word} {l : List Index} {i : Index} {n : ℕ} (ht : place' t = some l)
    (hl : l.length + (n + 1) = p.levels) (hne : s'.mem t i ≠ 0) :
    (s'.mem t i).getLsbD 0 = true ∧
      ((tableBelow n (s'.mem t i)).isSome → (s'.mem t i).getLsbD 7 = false) := by
  have hlevel : ∀ {m j}, l = route (walkIndex v) p.levels j → j + (m + 1) = p.levels → m = n := by
    rintro m j rfl hj
    rw [route_length] at hl
    omega
  cases hplace : place t with
  | some l' =>
    obtain rfl : l' = l := Option.some.inj ((hgrown.old t l' hplace).symm.trans ht)
    rcases hgrown.entries t l' i hplace with hsame | ⟨j, m, hroute, -, hj, -, hchange⟩
    · rw [hsame] at hne ⊢
      exact ⟨h.present t l' i n hplace hl hne, h.pointer t l' i n hplace hl⟩
    · obtain rfl := hlevel hroute hj
      apply sound_of_change _ hflags1 hp (h.present t l' i m hplace hl)
      rcases hchange with hleaf | ⟨-, hpointer, -⟩
      · exact Or.inl hleaf
      · exact Or.inr hpointer
  | none =>
    rcases hgrown.fresh t l i hplace ht with hzero | ⟨j, m, hroute, -, hj, hchange⟩
    · exact absurd hzero hne
    · obtain rfl := hlevel hroute hj
      apply sound_of_change 0 hflags1 hp (fun hno => absurd rfl hno)
      rcases hchange with hleaf | ⟨hpointer, -⟩
      · exact Or.inl hleaf
      · exact Or.inr hpointer

/-- INTERNAL: what `map` needs for a page that is not there. -/
theorem TreeSound.ready {leaf : ℕ} (h : TreeSound p root place s)
    (hpath : MeetsZero leaf s.mem v p.levels root) : Ready leaf v s p.levels root := by
  refine ⟨h.placed.placed.isTree ?_ h.top (Nat.zero_add _), hpath, h.placed.nodup, h.placed.aligned, ?_⟩
  · intro t l i n ht hl hsome
    refine ⟨h.present t l i n ht hl ?_, h.placed.clean t l i n ht hl hsome⟩
    intro hzero
    rw [hzero, tableBelow_zero] at hsome
    cases hsome
  · intro f hf hfree
    obtain ⟨l, hl⟩ := h.placed.placed.of_inTree h.top (Nat.zero_add _) hf
    cases (h.placed.unused f hfree).symm.trans hl

/-- **`map_page_raw`** in terms of what addresses find.
SRCLINE: kernel/mm/vmm.cpp:125-191, 211-288, 399-413, 447-461 -/
theorem TreeSound.mapPageRaw (h : TreeSound p root place s) (hflags1 : DirectoryFlags flags1)
    (hflags0 : LeafFlags flags0) (hrun : mapPageRaw p s root v paddr flags1 flags0 pa = some s') :
    ∃ place', TreeSound p root place' s' ∧ ∀ w, found p s'.mem root w =
      fill (leafLevel flags0) (rightsMark flags1) (newPage paddr flags0 pa) (walkIndex v) (walkIndex w)
        p.levels (found p s.mem root w) := by
  have hlevels := levels_ge p
  obtain ⟨n, hn⟩ : ∃ n, p.levels = n + 1 := ⟨p.levels - 1, by omega⟩
  obtain ⟨place', hgrown, hplaced'⟩ := mapPageRaw_placed h.placed hflags1.2 h.top hrun
  have hentry : ∀ t l i n, place' t = some l → l.length + (n + 1) = p.levels → s'.mem t i ≠ 0 → _ :=
    fun t l i n ht hl hne => h.entries_after (i := i) (n := n) hflags1 hflags0.1 hgrown ht hl hne
  have h' : TreeSound p root place' s' := by
    refine ⟨hplaced', hgrown.old root [] h.top, fun t l i n ht hl hne => (hentry t l i n ht hl hne).1, ?_⟩
    intro t l i n ht hl hsome
    refine (hentry t l i n ht hl ?_).2 hsome
    intro hzero
    rw [hzero, tableBelow_zero] at hsome
    cases hsome
  refine ⟨place', h', fun w => ?_⟩
  apply hgrown.look_eq h.placed.placed (mapPageRaw_writes hflags0.1) h.top
  intro hseen hlevel
  -- a page that was not there is there after the call
  rw [hn] at hseen hlevel
  have hpath := h.meetsZero h.top (by rw [hn]; exact Nat.zero_add _) hseen hlevel
  rw [← hn] at hpath
  have hstep : walkStep (leafLevel flags0) (pageEntry paddr flags0 pa) =
      .inr (.page (leafLevel flags0) (pageEntry paddr flags0 pa)) := by
    rw [walkStep_childless tableBelow_pageEntry, if_pos (pageEntry_present hflags0.1)]
  have hm := mapPageRaw_maps p v follows_walkStep hflags1 hflags0 hstep s s' root (h.ready hpath) hrun
  have hhit := hm.hit (walkIndex v) fun _ _ _ => rfl
  obtain ⟨e, hseen', hwalk, -⟩ := h'.walk_look (v := v) (n := n) h'.top (by rw [hn]; exact Nat.zero_add _)
  rw [← hn] at hseen' hwalk
  have hend := Option.some.inj (hwalk.symm.trans hhit)
  by_cases hp : e.getLsbD 0 = true
  · rw [if_pos hp] at hend
    obtain ⟨hlevel', rfl⟩ := WalkEnd.page.inj hend
    refine ⟨hlevel', ?_⟩
    rw [hseen', hlevel', pageView, if_pos hp, newPage, getLsbD_pageEntry (by omega),
      getLsbD_pageEntry (by omega)]
  · rw [if_neg hp] at hend
    cases hend

/-! ## Frames for pages -/

/-- What lies outside the tables does not matter. -/
theorem TreeSound.outside (h : TreeSound p root place s) (mem : Word → Index → Word) (fs : List Word)
    (hfs : fs <:+ s.free)
    (hmem : ∀ t l i, place t = some l → mem t i = s.mem t i ∨ mem t i = 0)
    (hin : ∀ f, InTables p s.mem root f → mem f = s.mem f) :
    TreeSound p root place ⟨mem, fs⟩ ∧ ∀ w, found p mem root w = found p s.mem root w := by
  refine ⟨⟨tablesPlaced_of_entries h.placed hfs ?_, h.top, ?_, ?_⟩, ?_⟩
  · intro t l i n ht _
    rcases hmem t l i ht with hsame | hzero
    · exact Or.inl hsame
    · right
      rw [hzero, tableBelow_zero]
  · intro t l i n ht hl hne
    rcases hmem t l i ht with hsame | hzero
    · simp only [hsame] at hne ⊢
      exact h.present t l i n ht hl hne
    · exact absurd hzero hne
  · intro t l i n ht hl hsome
    rcases hmem t l i ht with hsame | hzero
    · simp only [hsame] at hsome ⊢
      exact h.pointer t l i n ht hl hsome
    · simp only [hzero, tableBelow_zero] at hsome
      cases hsome
  · intro w
    exact look_congr hin

theorem TreeSound.alloc {f : Word} (h : TreeSound p root place s) (halloc : s.alloc = some (f, s')) :
    TreeSound p root place s' ∧ (∀ w, found p s'.mem root w = found p s.mem root w) ∧
      PageAligned 0 f := by
  cases hfree : s.free with
  | nil =>
    rw [Vm.alloc, hfree] at halloc
    cases halloc
  | cons g fs =>
    simp only [Vm.alloc, hfree, Option.some.injEq, Prod.mk.injEq] at halloc
    obtain ⟨rfl, rfl⟩ := halloc
    obtain ⟨hsound, hfound⟩ := h.outside s.mem fs (by rw [hfree]; exact List.suffix_cons g fs)
      (fun _ _ _ _ => Or.inl rfl) fun _ _ => rfl
    exact ⟨hsound, hfound, h.placed.aligned g (hfree ▸ List.mem_cons_self)⟩

theorem TreeSound.calloc {f : Word} (h : TreeSound p root place s) (hcalloc : s.calloc = some (f, s')) :
    TreeSound p root place s' ∧ (∀ w, found p s'.mem root w = found p s.mem root w) ∧
      PageAligned 0 f := by
  obtain ⟨fs, hfree, rfl⟩ := calloc_eq_some hcalloc
  have hf : place f = none := h.placed.unused f (hfree ▸ List.mem_cons_self)
  have hne : ∀ g l, place g = some l → g ≠ f := by
    rintro g l hg rfl
    cases hf.symm.trans hg
  have hmem : ∀ g l, place g = some l →
      Function.update s.mem f (fun _ => 0) g = s.mem g := by
    intro g l hg
    exact Function.update_of_ne (hne g l hg) _ _
  obtain ⟨hsound, hfound⟩ := h.outside (Function.update s.mem f fun _ => 0) fs
    (by rw [hfree]; exact List.suffix_cons f fs) (fun t l i ht => Or.inl (by rw [hmem t l ht])) (by
      intro g hg
      obtain ⟨l, hl⟩ := h.placed.placed.of_inTree h.top (Nat.zero_add _) hg
      exact hmem g l hl)
  exact ⟨hsound, hfound, h.placed.aligned f (hfree ▸ List.mem_cons_self)⟩

theorem TreeSound.clearBlock {block : Word} (h : TreeSound p root place s)
    (hblock : ∀ f, InTables p s.mem root f → ¬ (f - block).toNat < 0x200000) :
    TreeSound p root place (s.clearBlock block) ∧
      ∀ w, found p (s.clearBlock block).mem root w = found p s.mem root w := by
  apply h.outside _ _ List.suffix_rfl
  · intro t l i _
    by_cases hin : (t - block).toNat < 0x200000
    · exact Or.inr (if_pos hin)
    · exact Or.inl (if_neg hin)
  · intro f hf
    funext i
    exact if_neg (hblock f hf)

/-- An empty table. -/
theorem treeSound_empty (h : EmptyTable s root) :
    (∃ place, TreeSound p root place s) ∧ ∀ w, found p s.mem root w = ⟨[], p.levels - 1, none⟩ := by
  obtain ⟨hempty, hroot, haligned, hnodup⟩ := h
  have hzero : ∀ {t : Word} {l : List Index}, (if t = root then some [] else none) = some l →
      ∀ i, s.mem t i = 0 := by
    intro t l ht i
    by_cases htr : t = root
    · rw [htr, hempty]
    · rw [if_neg htr] at ht
      cases ht
  refine ⟨⟨_, tablesPlaced_empty hempty hroot haligned hnodup, if_pos rfl, ?_, ?_⟩, ?_⟩
  · intro t l i n ht _ hne
    exact absurd (hzero ht i) hne
  · intro t l i n ht _ hsome
    rw [hzero ht, tableBelow_zero] at hsome
    cases hsome
  · intro w
    have hlevels := levels_ge p
    obtain ⟨n, hn⟩ : ∃ n, p.levels = n + 1 := ⟨p.levels - 1, by omega⟩
    rw [found, hn, look_of_none (by rw [hempty]; exact tableBelow_zero n), hempty]
    rfl

end Page

end CrepOS.Analysis
