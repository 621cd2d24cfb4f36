import CrepOS.Library.Run
import CrepOS.Analysis.MapPage

/-!
# Histories of `map_page_raw` and `unmap_page`

A history is a list of calls for 4 KiB pages on one table, empty at first. The purpose of the two
functions is that a page is mapped from a `map` to the next `unmap`, at the address of the first
`map` since then (`mapsSinceUnmap`). The code keeps this promise only in part. `unmap` clears the
present bit and leaves the rest of the entry, while `map` writes to zero entries only, so a page that
was unmapped is never mapped again; and `unmap_page` acts or not by the member `page_length`, which
the constructor before it leaves uninitialised. `PageOp.Meets` is the condition on a call, in the
state it is made in, under which neither happens.

The first-level entry of an address (`probe`) says more than the walk, which cannot tell a zero entry
from one that is not present; the invariant `PagesShow` is about that entry.
-/

set_option autoImplicit false

namespace CrepOS.Analysis

open CrepOS.Library CrepOS.Model CrepOS.Interface

/-- A call: `map_page_raw(v, q, 0x7, 0x7, -1)`, or `unmap_page(v)` with `g` as the value of the
uninitialised `page_length`. -/
inductive PageOp
  | map (v q : Word)
  | unmap (v g : Word)
  deriving DecidableEq

/-- The call on the table in frame `root`. -/
def PageOp.exec (p : Paging) (root : Word) (s : Vm) : PageOp → Option Vm
  | .map v q => mapPageRaw p s root v q 0x7 0x7 (-1)
  | .unmap v g => unmapPage p s root v g

/-- A canonical address of a 4 KiB page. -/
def PageAddress (p : Paging) (v : Word) : Prop := Canonical p v ∧ v &&& pageMask 0 = 0

/-- The calls name pages, and physical pages below `2 ^ 52`. -/
def PageOp.Valid (p : Paging) : PageOp → Prop
  | .map v q => PageAddress p v ∧ PageAligned 0 q
  | .unmap v _ => PageAddress p v

/-- The physical addresses of the maps of `v` since its most recent unmap, in order. -/
def mapsSinceUnmap (v : Word) (l : List PageOp) : List Word :=
  l.foldl (fun acc op =>
    match op with
    | .map w q => if w = v then acc ++ [q] else acc
    | .unmap w _ => if w = v then [] else acc) []

/-- The call names the page `v`. -/
def PageOp.names (v : Word) : PageOp → Bool
  | .map w _ => w = v
  | .unmap w _ => w = v

/-! ## The first-level entry of an address -/

/-- How the way to the first-level entry ends: at a zero entry, at an entry above the first level
that is huge or not present, or at a nonzero first-level entry. -/
inductive Probe
  | missing
  | blocked
  | entry (e : Word)
  deriving DecidableEq

/-- One step of the way to the first-level entry. -/
def probeStep (n : ℕ) (e : Word) : Word ⊕ Probe :=
  if e = 0 then .inr .missing
  else if n = 0 then .inr (.entry e)
  else if e.getLsbD 0 && !e.getLsbD 7 then .inl (frameOf e)
  else .inr .blocked

/-- The way to the first-level entry of `v`. -/
def probe (p : Paging) (mem : Word → Index → Word) (root v : Word) : Option Probe :=
  descend probeStep mem p.levels root (walkIndex v)

/-- The condition on a call: a page to be mapped has no first-level entry or a present one; for a
page to be unmapped that is present `page_length` is not zero, and for one without a first-level
entry it is. -/
def PageOp.Meets (p : Paging) (root : Word) (s : Vm) : PageOp → Prop
  | .map v _ =>
    match probe p s.mem root v with
    | some (.entry e) => e.getLsbD 0 = true
    | _ => True
  | .unmap v g =>
    match probe p s.mem root v with
    | some (.entry e) => e.getLsbD 0 = true → g ≠ 0
    | _ => g = 0

/-- The calls of a run that meet the condition, with a frame left for each missing table. -/
def pageStep (p : Paging) (root : Word) : Vm → PageOp → Vm → Prop :=
  Guarded (fun s op => op.Valid p ∧ op.Meets p root s ∧ p.levels ≤ s.free.length + 1)
    fun s op t => op.exec p root s = some t

section Probe

variable {mem : Word → Index → Word} {v : Word}

theorem probeStep_zero (n : ℕ) : probeStep n 0 = .inr .missing := if_pos rfl

theorem follows_probeStep : Follows probeStep .missing := by
  refine ⟨?_, ?_, probeStep_zero⟩
  · intro n e c _ h
    unfold probeStep at h
    split at h
    · cases h
    · split at h
      · cases h
      · split at h
        · next hbits =>
          rw [Bool.and_eq_true, Bool.not_eq_true'] at hbits
          rw [← Sum.inl.inj h]
          exact tableBelow_of_not_huge ‹_› hbits.1 hbits.2
        · cases h
  · intro n e hn hp hh _
    have hne : e ≠ 0 := by
      rintro rfl
      exact Bool.noConfusion hp
    rw [probeStep, if_neg hne, if_neg hn, hp, hh]
    rfl

/-- INTERNAL: the cases of one step of the way down. -/
theorem descend_probe_cases {n : ℕ} {t : Word} {r : Probe}
    (h : descend probeStep mem (n + 1) t (walkIndex v) = some r) :
    (mem t (walkIndex v n) = 0 ∧ r = .missing) ∨
    (mem t (walkIndex v n) ≠ 0 ∧ n = 0 ∧ r = .entry (mem t (walkIndex v n))) ∨
    (n ≠ 0 ∧ (mem t (walkIndex v n)).getLsbD 0 = true ∧ (mem t (walkIndex v n)).getLsbD 7 = false ∧
      descend probeStep mem n (frameOf (mem t (walkIndex v n))) (walkIndex v) = some r) ∨
    r = .blocked := by
  rw [descend] at h
  by_cases hzero : mem t (walkIndex v n) = 0
  · rw [hzero, probeStep_zero] at h
    exact Or.inl ⟨hzero, (Option.some.inj h).symm⟩
  · rw [probeStep, if_neg hzero] at h
    by_cases hn : n = 0
    · rw [if_pos hn] at h
      exact Or.inr (Or.inl ⟨hzero, hn, (Option.some.inj h).symm⟩)
    · rw [if_neg hn] at h
      split at h
      · next c hc =>
        split at hc
        · next hbits =>
          rw [Bool.and_eq_true, Bool.not_eq_true'] at hbits
          rw [← Sum.inl.inj hc] at h
          exact Or.inr (Or.inr (Or.inl ⟨hn, hbits.1, hbits.2, h⟩))
        · cases hc
      · next r' hr =>
        split at hr
        · cases hr
        · rw [← Sum.inr.inj hr] at h
          exact Or.inr (Or.inr (Or.inr (Option.some.inj h).symm))

/-- The way of `v` from the table `t` of height `n + 1` to the first-level table `t1`: all entries
are present and none is huge. -/
def PathTo (mem : Word → Index → Word) (v : Word) : ℕ → Word → Word → Prop
  | 0, t, t1 => t1 = t
  | n + 1, t, t1 =>
    (mem t (walkIndex v (n + 1))).getLsbD 0 = true ∧
      (mem t (walkIndex v (n + 1))).getLsbD 7 = false ∧
      PathTo mem v n (frameOf (mem t (walkIndex v (n + 1)))) t1

theorem pathTo_of_probe {n : ℕ} {t e : Word}
    (h : descend probeStep mem (n + 1) t (walkIndex v) = some (.entry e)) :
    ∃ t1, PathTo mem v n t t1 ∧ mem t1 (walkIndex v 0) = e ∧ e ≠ 0 := by
  induction n generalizing t with
  | zero =>
    rcases descend_probe_cases h with ⟨-, hr⟩ | ⟨hne, -, hr⟩ | ⟨hn, -⟩ | hr
    · cases hr
    · have he := Probe.entry.inj hr
      exact ⟨t, rfl, he.symm, he ▸ hne⟩
    · exact absurd rfl hn
    · cases hr
  | succ n ih =>
    rcases descend_probe_cases h with ⟨-, hr⟩ | ⟨-, hn, -⟩ | ⟨-, hp, hh, hrest⟩ | hr
    · cases hr
    · cases hn
    · obtain ⟨t1, hpath, hentry⟩ := ih hrest
      exact ⟨t1, ⟨hp, hh, hpath⟩, hentry⟩
    · cases hr

theorem meetsZero_of_probe {n : ℕ} {t : Word}
    (h : descend probeStep mem n t (walkIndex v) = some .missing) : MeetsZero 0 mem v n t := by
  induction n generalizing t with
  | zero => cases h
  | succ n ih =>
    rcases descend_probe_cases h with ⟨hzero, -⟩ | ⟨-, -, hr⟩ | ⟨hn, hp, hh, hrest⟩ | hr
    · exact Or.inl hzero
    · cases hr
    · exact Or.inr ⟨Nat.pos_of_ne_zero hn, hp, hh, ih hrest⟩
    · cases hr

/-- What the walk makes of a first-level entry. -/
def Probe.walkEnd : Probe → WalkEnd
  | .entry e => if e.getLsbD 0 then .page 0 e else .fault
  | _ => .fault

/-- **The walk ends where the first-level entry says**, if the way to it is not blocked. -/
theorem walk_of_probe {n : ℕ} {t : Word} {r : Probe} (ht : IsTree tableBelow GoodEntry mem n t)
    (h : descend probeStep mem n t (walkIndex v) = some r) (hr : r ≠ .blocked) :
    descend walkStep mem n t (walkIndex v) = some r.walkEnd := by
  induction n generalizing t with
  | zero => cases h
  | succ n ih =>
    rcases descend_probe_cases h with ⟨hzero, rfl⟩ | ⟨-, rfl, rfl⟩ | ⟨hn, hp, hh, hrest⟩ | hblocked
    · rw [descend, hzero, walkStep_zero]
      rfl
    · rw [descend, walkStep, Probe.walkEnd]
      by_cases hp : (mem t (walkIndex v 0)).getLsbD 0 = true
      · rw [if_neg (by rw [hp]; exact Bool.noConfusion), if_pos rfl, if_pos hp]
      · rw [if_pos (eq_false_of_ne_true hp), if_neg hp]
    · rw [descend, walkStep_of_not_huge hn hp hh (ht.1 _)]
      exact ih (ht.2.1 _ _ (tableBelow_of_not_huge hn hp hh)).1 hrest
    · exact absurd hblocked hr

end Probe

/-! ## Calls on a page with a first-level entry -/

section Path

variable {R : Type} {step : ℕ → Word → Word ⊕ R} {z r : R} {v t t1 e : Word} {s : Vm} {n : ℕ}

/-- INTERNAL: the write of a first-level entry, seen from the top table. -/
theorem maps_of_path (hs : Follows step z) (htree : IsTree tableBelow GoodEntry s.mem (n + 1) t)
    (hunused : ∀ f, InTree tableBelow s.mem (n + 1) t f → f ∉ s.free)
    (hpath : PathTo s.mem v n t t1) (hstep : step 0 e = .inr r) :
    Maps step r 0 v s (s.set t1 (walkIndex v 0) e) (n + 1) t := by
  induction n generalizing t with
  | zero =>
    obtain rfl : t1 = t := hpath
    exact maps_set hs htree hunused (tableBelow_level_zero _) (tableBelow_level_zero _) hstep
  | succ n ih =>
    obtain ⟨hp, hh, hpath⟩ := hpath
    have hc := tableBelow_of_not_huge (Nat.succ_ne_zero n) hp hh
    apply Maps.up hs htree hunused (Nat.succ_pos n) hp hh
    exact ih (htree.2.1 _ _ hc).1 (fun f hf => hunused f (inTree_child hc hf)) hpath

theorem maps_root {p : Paging} {root : Word} (hs : Follows step z) (htree : TableTree p s.mem root)
    (hunused : ∀ f, InTables p s.mem root f → f ∉ s.free)
    (hpath : PathTo s.mem v (p.levels - 1) root t1) (hstep : step 0 e = .inr r) :
    Maps step r 0 v s (s.set t1 (walkIndex v 0) e) p.levels root := by
  cases p with
  | pml4 => exact maps_of_path hs htree hunused hpath hstep
  | pml5 => exact maps_of_path hs htree hunused hpath hstep

theorem mapPml1_of_ne {q flags : Word} (hne : s.mem t (walkIndex v 0) ≠ 0) :
    mapPml1 s t v q flags (-1) = some s := by
  simp only [mapPml1, tableIndex_eq_walkIndex]
  rw [if_neg hne, Vm.applyPa, if_pos rfl]

theorem mapPml2_of_path {q flags1 flags0 : Word} (hpath : PathTo s.mem v 1 t t1)
    (hne : s.mem t1 (walkIndex v 0) ≠ 0) : mapPml2 s t v q flags1 flags0 (-1) = some s := by
  obtain ⟨hp, hh, rfl⟩ := hpath
  simp only [mapPml2, tableIndex_eq_walkIndex]
  rw [throughTable, if_neg (ne_zero_of_present hp), isHuge_eq, hh, if_neg Bool.noConfusion]
  exact mapPml1_of_ne hne

theorem mapPml3_of_path {join : Word → Word → Word} {q flags2 flags1 flags0 : Word}
    (hpath : PathTo s.mem v 2 t t1) (hne : s.mem t1 (walkIndex v 0) ≠ 0) :
    mapPml3 join s t v q flags2 flags1 flags0 (-1) = some s := by
  obtain ⟨hp, hh, hpath⟩ := hpath
  simp only [mapPml3, tableIndex_eq_walkIndex]
  rw [throughTable, if_neg (ne_zero_of_present hp), isHuge_eq, hh, if_neg Bool.noConfusion]
  exact mapPml2_of_path hpath hne

/-- `map` leaves a page with a first-level entry as it is. -/
theorem mapPageRaw_of_path (p : Paging) {q root : Word}
    (hpath : PathTo s.mem v (p.levels - 1) root t1) (hne : s.mem t1 (walkIndex v 0) ≠ 0) :
    mapPageRaw p s root v q 0x7 0x7 (-1) = some s := by
  have hsmall : ¬ ((0x7 : Word) &&& 0x80#64 ≠ 0) := by decide
  cases p with
  | pml4 =>
    obtain ⟨hp3, -, hpath⟩ := hpath
    rw [mapPageRaw]
    simp only [if_neg hsmall, Model.Pml4.map, tableIndex_eq_walkIndex]
    rw [throughDirectory, if_neg (ne_zero_of_present hp3)]
    exact mapPml3_of_path hpath hne
  | pml5 =>
    obtain ⟨hp4, -, hp3, -, hpath⟩ := hpath
    rw [mapPageRaw]
    simp only [if_neg hsmall, Model.Pml5.map, tableIndex_eq_walkIndex]
    rw [throughDirectory, if_neg (ne_zero_of_present hp4), throughDirectory,
      if_neg (ne_zero_of_present hp3)]
    exact mapPml3_of_path hpath hne

/-- INTERNAL: the lookup finds the three lower entries of a page with a first-level entry, and
`unmap` writes to the last. -/
theorem unmap_lookupPml3 (hpath : PathTo s.mem v 2 t t1) (hne : s.mem t1 (walkIndex v 0) ≠ 0) :
    unmap s (lookupPml3 s t v) =
      some (s.set t1 (walkIndex v 0) (setBit (s.mem t1 (walkIndex v 0)) 1#64 false),
        frameOf (s.mem t1 (walkIndex v 0))) := by
  obtain ⟨hp2, hh2, hp1, hh1, rfl⟩ := hpath
  have hz2 := ne_zero_of_present hp2
  have hz1 := ne_zero_of_present hp1
  rw [← isHuge_eq] at hh2 hh1
  rw [← isPresent_eq] at hp2 hp1
  have hlook : lookupPml3 s t v = ⟨some (t, walkIndex v 2),
      some (frameOf (s.mem t (walkIndex v 2)), walkIndex v 1),
      some (frameOf (s.mem (frameOf (s.mem t (walkIndex v 2))) (walkIndex v 1)), walkIndex v 0)⟩ := by
    simp only [lookupPml3, tableIndex_eq_walkIndex]
    rw [if_neg hz2, if_neg (by rw [hp2, hh2]; exact Bool.noConfusion), if_neg hz1,
      if_neg (by rw [hp1, hh1]; exact Bool.noConfusion), if_neg hne]
  rw [hlook, unmap]
  simp only [hh2, hh1, Bool.false_eq_true, if_false]

/-- INTERNAL: the lookup goes through a present entry. -/
theorem lookupDirectory_of_present {i : Index} {k : Word → FoundEntries}
    (hp : (s.mem t i).getLsbD 0 = true) : lookupDirectory s t i k = k (frameOf (s.mem t i)) := by
  rw [lookupDirectory, if_neg (ne_zero_of_present hp), isPresent_eq, hp]
  rfl

/-- `unmap` clears the present bit of a first-level entry. -/
theorem unmapPage_of_path (p : Paging) {g root : Word} (hg : g ≠ 0)
    (hpath : PathTo s.mem v (p.levels - 1) root t1) (hne : s.mem t1 (walkIndex v 0) ≠ 0) :
    unmapPage p s root v g =
      some (s.set t1 (walkIndex v 0) (setBit (s.mem t1 (walkIndex v 0)) 1#64 false)) := by
  rw [unmapPage, if_neg hg]
  cases p with
  | pml4 =>
    obtain ⟨hp3, -, hpath⟩ := hpath
    rw [lookup, tableIndex_eq_walkIndex, lookupDirectory_of_present hp3,
      unmap_lookupPml3 hpath hne]
    rfl
  | pml5 =>
    obtain ⟨hp4, -, hp3, -, hpath⟩ := hpath
    rw [lookup, tableIndex_eq_walkIndex, tableIndex_eq_walkIndex, lookupDirectory_of_present hp4,
      lookupDirectory_of_present hp3, unmap_lookupPml3 hpath hne]
    rfl

end Path

/-! ## One call -/

/-- What the calls so far, `m` of which mapped the page, have made of its first-level entry. -/
inductive Shows : List Word → Option Probe → Prop
  | missing : Shows [] (some .missing)
  | gone {e : Word} : e.getLsbD 0 = false → Shows [] (some (.entry e))
  | mapped {q : Word} {m : List Word} : PageAligned 0 q →
      Shows (q :: m) (some (.entry (q ||| 0x7#64)))

/-- The invariant: the tables are a tree, the frames to come are not in use, and every page shows
its history. -/
structure PagesShow (p : Paging) (root : Word) (l : List PageOp) (s : Vm) : Prop where
  tree : TableTree p s.mem root
  nodup : s.free.Nodup
  frames : ∀ f ∈ s.free, PageAligned 0 f
  unused : ∀ f, InTables p s.mem root f → f ∉ s.free
  pages : ∀ v, PageAddress p v → Shows (mapsSinceUnmap v l) (probe p s.mem root v)

theorem mapsSinceUnmap_map (v w q : Word) (l : List PageOp) :
    mapsSinceUnmap v (l ++ [.map w q]) =
      if w = v then mapsSinceUnmap v l ++ [q] else mapsSinceUnmap v l := by
  simp [mapsSinceUnmap]

theorem mapsSinceUnmap_unmap (v w g : Word) (l : List PageOp) :
    mapsSinceUnmap v (l ++ [.unmap w g]) = if w = v then [] else mapsSinceUnmap v l := by
  simp [mapsSinceUnmap]

section Step

variable {p : Paging} {root v w q g e : Word} {l : List PageOp} {s s' : Vm}

/-- INTERNAL: two page addresses that share a page are one. -/
theorem PageAddress.eq_of_samePage (hv : PageAddress p v) (hw : PageAddress p w)
    (h : SamePage 0 v w) : v = w := by
  apply BitVec.eq_of_getLsbD_eq
  intro k hk
  by_cases h12 : k < 12
  · have hlow : ∀ u : Word, u &&& pageMask 0 = 0 → u.getLsbD k = false := by
      intro u hu
      have hbit := congrArg (fun x => x.getLsbD k) hu
      simp only [BitVec.getLsbD_and, getLsbD_pageMask 0 k hk, show k < 12 + 9 * 0 by omega] at hbit
      simpa using hbit
    rw [hlow v hv.2, hlow w hw.2]
  · have hbit := congrArg (fun x => x.getLsbD (k - 12)) h
    simp only [BitVec.getLsbD_ushiftRight, show 12 + 9 * 0 + (k - 12) = k by omega] at hbit
    exact hbit

/-- INTERNAL: a different page differs in one of the indices. -/
theorem PageAddress.exists_index_ne (hv : PageAddress p v) (hw : PageAddress p w) (h : v ≠ w) :
    ∃ k, k < p.levels ∧ walkIndex w k ≠ walkIndex v k := by
  by_contra hsame
  push Not at hsame
  have hpos : 0 < p.levels := by cases p <;> decide
  exact h (hv.eq_of_samePage hw (samePage_of_walkIndex hpos hv.1 hw.1 fun k _ hk => hsame k hk))

/-- INTERNAL: a call that changes the entry of one page keeps the invariant, if that page shows its
history. -/
theorem PagesShow.of_maps {r : Probe} {op : PageOp} (h : PagesShow p root l s)
    (hv : PageAddress p v) (hm : Maps probeStep r 0 v s s' p.levels root)
    (hshow : Shows (mapsSinceUnmap v (l ++ [op])) (some r))
    (hother : ∀ w, v ≠ w → mapsSinceUnmap w (l ++ [op]) = mapsSinceUnmap w l) :
    PagesShow p root (l ++ [op]) s' := by
  refine ⟨hm.edit.tree, h.nodup.sublist hm.suffix.sublist, ?_, ?_, ?_⟩
  · intro f hf
    exact h.frames f (hm.suffix.subset hf)
  · intro f hf hfree
    rcases hm.edit.grows f hf with hold | htaken
    · exact h.unused f hold (hm.suffix.subset hfree)
    · exact htaken.2 hfree
  · intro w hw
    by_cases hvw : v = w
    · subst hvw
      rw [probe, hm.hit (walkIndex v) fun k _ _ => rfl]
      exact hshow
    · obtain ⟨k, hk, hne⟩ := hv.exists_index_ne hw hvw
      rw [probe, hm.miss (walkIndex w) k (Nat.zero_le k) hk hne, hother w hvw]
      exact h.pages w hw

/-- INTERNAL: a call that changes nothing. -/
theorem PagesShow.of_same {op : PageOp} (h : PagesShow p root l s)
    (hpages : ∀ w, PageAddress p w →
      Shows (mapsSinceUnmap w (l ++ [op])) (probe p s.mem root w)) :
    PagesShow p root (l ++ [op]) s :=
  ⟨h.tree, h.nodup, h.frames, h.unused, hpages⟩

/-- INTERNAL: the entry that a call of `map` writes. -/
theorem probeStep_new (q : Word) :
    probeStep 0 (pageEntry q 0x7 (-1)) = .inr (.entry (q ||| 0x7#64)) := by
  have hp : (q ||| 0x7#64).getLsbD 0 = true := by
    rw [BitVec.getLsbD_or]
    exact Bool.or_true _
  have hentry : pageEntry q 0x7 (-1) = q ||| 0x7#64 := rfl
  rw [hentry, probeStep, if_neg (ne_zero_of_present hp), if_pos rfl]

/-- INTERNAL: the path of a page with a first-level entry. -/
theorem pathTo_root (h : probe p s.mem root v = some (.entry e)) :
    ∃ t1, PathTo s.mem v (p.levels - 1) root t1 ∧ s.mem t1 (walkIndex v 0) = e ∧ e ≠ 0 := by
  have hpos : p.levels = p.levels - 1 + 1 := by cases p <;> rfl
  apply pathTo_of_probe
  rw [← hpos]
  exact h

/-- **A call of `map` that meets the condition keeps the invariant.** -/
theorem PagesShow.map (h : PagesShow p root l s) (hv : PageAddress p v) (hq : PageAligned 0 q)
    (hmeets : (PageOp.map v q).Meets p root s) (hlen : p.levels ≤ s.free.length + 1) :
    ∃ s', (PageOp.map v q).exec p root s = some s' ∧ PagesShow p root (l ++ [.map v q]) s' := by
  have hother : ∀ w, v ≠ w → mapsSinceUnmap w (l ++ [.map v q]) = mapsSinceUnmap w l := by
    intro w hvw
    rw [mapsSinceUnmap_map, if_neg hvw]
  have hself : mapsSinceUnmap v (l ++ [.map v q]) = mapsSinceUnmap v l ++ [q] := by
    rw [mapsSinceUnmap_map, if_pos rfl]
  have hshow := h.pages v hv
  simp only [PageOp.Meets] at hmeets
  generalize hprobe : probe p s.mem root v = r at hshow hmeets
  generalize hmaps : mapsSinceUnmap v l = m at hshow
  cases hshow with
  | missing =>
    have hready : Ready 0 v s p.levels root :=
      ⟨h.tree, meetsZero_of_probe hprobe, h.nodup, h.frames, h.unused⟩
    obtain ⟨s', hs', -⟩ := mapPageRaw_spends p root s (by omega)
    have hm := mapPageRaw_maps p v follows_probeStep (show DirectoryFlags 0x7 by decide)
      (show LeafFlags 0x7 by decide) (probeStep_new q) s s' root hready hs'
    refine ⟨s', hs', h.of_maps hv hm ?_ hother⟩
    rw [hself, hmaps]
    exact Shows.mapped hq
  | gone hgone =>
    -- the condition excludes a page that was unmapped before
    exact Bool.noConfusion (hgone.symm.trans hmeets)
  | @mapped q₀ m hq₀ =>
    obtain ⟨t1, hpath, hentry, hne⟩ := pathTo_root hprobe
    refine ⟨s, mapPageRaw_of_path p hpath (hentry ▸ hne), h.of_same ?_⟩
    intro w hw
    by_cases hvw : v = w
    · subst hvw
      rw [hself, hmaps, hprobe]
      exact Shows.mapped hq₀
    · rw [hother w hvw]
      exact h.pages w hw

/-- INTERNAL: clearing the present bit. -/
theorem getLsbD_setBit_present (e : Word) (k : ℕ) :
    (setBit e 1#64 false).getLsbD k = (decide (k ≠ 0) && e.getLsbD k) := by
  by_cases hk : k < 64
  · have hmask : (1#64).getLsbD k = decide (k < 1) := getLsbD_lowMask 1 k hk
    rw [setBit, if_neg Bool.noConfusion, BitVec.getLsbD_and, BitVec.getLsbD_not, hmask]
    by_cases h0 : k = 0
    · simp [h0]
    · have hlt : ¬ k < 1 := by omega
      simp [hk, h0, hlt]
  · rw [BitVec.getLsbD_of_ge _ _ (by omega), BitVec.getLsbD_of_ge e _ (by omega), Bool.and_false]

/-- **A call of `unmap` that meets the condition keeps the invariant**, and changes nothing if the
page is not mapped. -/
theorem PagesShow.unmap (h : PagesShow p root l s) (hv : PageAddress p v)
    (hmeets : (PageOp.unmap v g).Meets p root s) :
    ∃ s', (PageOp.unmap v g).exec p root s = some s' ∧ PagesShow p root (l ++ [.unmap v g]) s' ∧
      (mapsSinceUnmap v l = [] → s' = s) := by
  have hother : ∀ w, v ≠ w → mapsSinceUnmap w (l ++ [.unmap v g]) = mapsSinceUnmap w l := by
    intro w hvw
    rw [mapsSinceUnmap_unmap, if_neg hvw]
  have hself : mapsSinceUnmap v (l ++ [.unmap v g]) = [] := by
    rw [mapsSinceUnmap_unmap, if_pos rfl]
  -- a page that shows no map may be unmapped once more
  have hsame : Shows [] (probe p s.mem root v) → PagesShow p root (l ++ [.unmap v g]) s := by
    intro hnone
    apply h.of_same
    intro w hw
    by_cases hvw : v = w
    · subst hvw
      rw [hself]
      exact hnone
    · rw [hother w hvw]
      exact h.pages w hw
  have hshow := h.pages v hv
  simp only [PageOp.Meets] at hmeets
  generalize hprobe : probe p s.mem root v = r at hshow hmeets hsame
  generalize hmaps : mapsSinceUnmap v l = m at hshow
  cases hshow with
  | missing =>
    obtain rfl : g = 0 := hmeets
    refine ⟨s, ?_, hsame Shows.missing, fun _ => rfl⟩
    rw [PageOp.exec, unmapPage, if_pos rfl]
  | @gone e hgone =>
    by_cases hg : g = 0
    · refine ⟨s, ?_, hsame (Shows.gone hgone), fun _ => rfl⟩
      rw [PageOp.exec, unmapPage, if_pos hg]
    · obtain ⟨t1, hpath, hentry, hne⟩ := pathTo_root hprobe
      have hclear : setBit e 1#64 false = e := by
        apply BitVec.eq_of_getLsbD_eq
        intro k _
        rw [getLsbD_setBit_present]
        by_cases hk : k = 0
        · rw [hk, hgone, Bool.and_false]
        · simp [hk]
      have hset : s.set t1 (walkIndex v 0) e = s := by
        rw [← hentry]
        simp [Vm.set]
      refine ⟨s, ?_, hsame (Shows.gone hgone), fun _ => rfl⟩
      rw [PageOp.exec, unmapPage_of_path p hg hpath (hentry ▸ hne), hentry, hclear, hset]
  | @mapped q₀ m hq₀ =>
    have hp : (q₀ ||| 0x7#64).getLsbD 0 = true := by
      rw [BitVec.getLsbD_or]
      exact Bool.or_true _
    have hg : g ≠ 0 := hmeets hp
    obtain ⟨t1, hpath, hentry, hne⟩ := pathTo_root hprobe
    have hbit1 : (setBit (q₀ ||| 0x7#64) 1#64 false).getLsbD 1 = true := by
      rw [getLsbD_setBit_present, BitVec.getLsbD_or]
      exact Bool.or_true _
    have hnz : setBit (q₀ ||| 0x7#64) 1#64 false ≠ 0 := by
      intro hzero
      rw [hzero] at hbit1
      cases hbit1
    have hstep : probeStep 0 (setBit (q₀ ||| 0x7#64) 1#64 false) =
        .inr (.entry (setBit (q₀ ||| 0x7#64) 1#64 false)) := by
      rw [probeStep, if_neg hnz, if_pos rfl]
    have hm := maps_root follows_probeStep h.tree h.unused hpath hstep
    refine ⟨_, ?_, h.of_maps hv hm ?_ hother, fun hnil => by cases hnil⟩
    · rw [PageOp.exec, unmapPage_of_path p hg hpath (hentry ▸ hne), hentry]
    · rw [hself]
      apply Shows.gone
      rw [getLsbD_setBit_present]
      rfl

/-- INTERNAL: the translation of a page that shows its history. -/
theorem PagesShow.translate_eq (h : PagesShow p root l s) (hv : PageAddress p v) :
    Interface.translate p s.mem root v = (mapsSinceUnmap v l).head? := by
  have hshow := h.pages v hv
  generalize hprobe : probe p s.mem root v = r at hshow
  generalize mapsSinceUnmap v l = m at hshow
  have hopen : ∀ q, r = some q → q ≠ .blocked := by
    rintro q rfl rfl
    cases hshow
  cases hshow with
  | missing =>
    rw [Interface.translate, walk, walk_of_probe h.tree hprobe (hopen _ rfl)]
    rfl
  | gone hgone =>
    rw [Interface.translate, walk, walk_of_probe h.tree hprobe (hopen _ rfl), Probe.walkEnd, hgone]
    rfl
  | @mapped q m hq =>
    have hp : (q ||| 0x7#64).getLsbD 0 = true := by
      rw [BitVec.getLsbD_or]
      exact Bool.or_true _
    have hbase := (walkStep_small (-1) hq (show LeafFlags 0x7#64 by decide)).2
    rw [leafEntry, if_pos rfl] at hbase
    rw [Interface.translate, walk, walk_of_probe h.tree hprobe (hopen _ rfl), Probe.walkEnd, hp, if_pos rfl]
    simp only [hbase, hv.2, BitVec.ofNat_eq_ofNat, BitVec.or_zero, List.head?_cons]

/-- INTERNAL: the last call that names `v` was a map exactly if there is a map of `v` since its most
recent unmap. -/
theorem mapsSinceUnmap_ne_nil_iff (v : Word) (l : List PageOp) :
    mapsSinceUnmap v l ≠ [] ↔ ∃ q, (l.filter (PageOp.names v)).getLast? = some (.map v q) := by
  induction l using List.reverseRecOn with
  | nil => simp [mapsSinceUnmap]
  | append_singleton l op ih =>
    cases op with
    | map w q =>
      rw [mapsSinceUnmap_map, List.filter_append]
      by_cases hw : w = v
      · simp [PageOp.names, hw]
      · simpa [PageOp.names, hw] using ih
    | unmap w g =>
      rw [mapsSinceUnmap_unmap, List.filter_append]
      by_cases hw : w = v
      · simp [PageOp.names, hw]
      · simpa [PageOp.names, hw] using ih

end Step

/-! ## Whole histories -/

/-- INTERNAL: an empty table shows the empty history. -/
theorem pagesShow_empty {p : Paging} {root : Word} {s : Vm} (hempty : ∀ i, s.mem root i = 0)
    (hroot : root ∉ s.free) (hnodup : s.free.Nodup) (hframes : ∀ f ∈ s.free, PageAligned 0 f) :
    PagesShow p root [] s := by
  refine ⟨isTree_empty hempty p.levels, hnodup, hframes, ?_, ?_⟩
  · intro f hf
    rw [inTree_empty hempty hf]
    exact hroot
  · intro v _
    have hprobe : probe p s.mem root v = some .missing := by
      cases p with
      | pml4 => exact descend_empty follows_probeStep hempty 3 _
      | pml5 => exact descend_empty follows_probeStep hempty 4 _
    rw [hprobe]
    exact Shows.missing

/-- INTERNAL: every step of a run keeps the invariant. -/
theorem pagesShow_of_run {p : Paging} {root : Word} {s₀ s : Vm} {l : List PageOp}
    (hrun : Run (pageStep p root) s₀ l s) (h₀ : PagesShow p root [] s₀) : PagesShow p root l s := by
  apply hrun.history (PagesShow p root) _ h₀
  intro l s op t h hstep
  obtain ⟨⟨hvalid, hmeets, hlen⟩, hexec⟩ := hstep
  cases op with
  | map v q =>
    obtain ⟨s', hs', h'⟩ := h.map hvalid.1 hvalid.2 hmeets hlen
    obtain rfl : s' = t := Option.some.inj (hs'.symm.trans hexec)
    exact h'
  | unmap v g =>
    obtain ⟨s', hs', h', -⟩ := h.unmap hvalid hmeets
    obtain rfl : s' = t := Option.some.inj (hs'.symm.trans hexec)
    exact h'

/-- **Pages follow their history** as long as every call meets the condition: a page is present
exactly if the last call that names it was a map, it is translated to the address of the first map
since its most recent unmap, every next call that meets the condition returns, and the unmap of a
page that is not mapped changes nothing.
SRCLINE: kernel/mm/vmm.cpp:29-123, 125-306, 399-428, 447-476 -/
theorem pages_follow_history (p : Paging) (root : Word) (s₀ : Vm)
    (hempty : ∀ i, s₀.mem root i = 0) (hroot : root ∉ s₀.free) (hnodup : s₀.free.Nodup)
    (hframes : ∀ f ∈ s₀.free, PageAligned 0 f) (l : List PageOp) (s : Vm)
    (hrun : Run (pageStep p root) s₀ l s) :
    (∀ v, PageAddress p v →
      ((Interface.translate p s.mem root v).isSome ↔
        ∃ q, (l.filter (PageOp.names v)).getLast? = some (.map v q)) ∧
      Interface.translate p s.mem root v = (mapsSinceUnmap v l).head?) ∧
    (∀ op : PageOp, op.Valid p → op.Meets p root s → p.levels ≤ s.free.length + 1 →
      ∃ t, op.exec p root s = some t) ∧
    ∀ v g, PageAddress p v → (PageOp.unmap v g).Meets p root s →
      Interface.translate p s.mem root v = none → (PageOp.unmap v g).exec p root s = some s := by
  have h := pagesShow_of_run hrun (pagesShow_empty hempty hroot hnodup hframes)
  refine ⟨?_, ?_, ?_⟩
  · intro v hv
    refine ⟨?_, h.translate_eq hv⟩
    rw [h.translate_eq hv, ← mapsSinceUnmap_ne_nil_iff, List.isSome_head?]
  · intro op hvalid hmeets hlen
    cases op with
    | map v q =>
      obtain ⟨t, ht, -⟩ := h.map hvalid.1 hvalid.2 hmeets hlen
      exact ⟨t, ht⟩
    | unmap v g =>
      obtain ⟨t, ht, -⟩ := h.unmap hvalid hmeets
      exact ⟨t, ht⟩
  · intro v g hv hmeets hnone
    obtain ⟨t, ht, -, hsame⟩ := h.unmap hv hmeets
    rw [h.translate_eq hv, List.head?_eq_none_iff] at hnone
    rw [ht, hsame hnone]

/-- The table in frame `0x1000` is empty, and frames for tables follow it. -/
def emptyVm : Vm := ⟨fun _ _ => 0, [0x2000, 0x3000, 0x4000, 0x5000, 0x6000, 0x7000]⟩

/-- INTERNAL: the state after a computed call. -/
theorem exists_exec {A : Type} (s : Vm) (op : PageOp) (f : Vm → A) {a : A}
    (h : (PageOp.exec .pml4 0x1000 s op).map f = some a) :
    ∃ t, PageOp.exec .pml4 0x1000 s op = some t ∧ f t = a :=
  Option.map_eq_some_iff.mp h

/-- The page at `0x400000` is mapped and unmapped. -/
theorem map_unmap_history : ∃ s,
    Run (pageStep .pml4 0x1000) emptyVm [.map 0x400000 0x10000, .unmap 0x400000 1] s ∧
      Interface.translate .pml4 s.mem 0x1000 0x400000 = none := by
  have hv : PageAddress .pml4 0x400000 := ⟨by decide, by decide⟩
  have hprobe : probe .pml4 emptyVm.mem 0x1000 0x400000 = some .missing := by decide
  obtain ⟨s₁, hs₁, hf₁⟩ := exists_exec emptyVm (.map 0x400000 0x10000)
    (fun s => (probe .pml4 s.mem 0x1000 0x400000, s.free.length))
    (a := (some (.entry 0x10007), 3)) (by decide)
  obtain ⟨hprobe₁, hlen₁⟩ := Prod.mk.inj hf₁
  have hrun₁ : Run (pageStep .pml4 0x1000) emptyVm [.map 0x400000 0x10000] s₁ := by
    refine Run.single ⟨⟨⟨hv, by decide⟩, ?_, by decide⟩, hs₁⟩
    simp only [PageOp.Meets, hprobe]
  have hmeets₁ : (PageOp.unmap 0x400000 1).Meets .pml4 0x1000 s₁ := by
    simp only [PageOp.Meets, hprobe₁]
    decide
  have hstart : ∀ f ∈ emptyVm.free, PageAligned 0 f := by
    simp only [emptyVm, List.forall_mem_cons]
    exact ⟨by decide, by decide, by decide, by decide, by decide, by decide, nofun⟩
  obtain ⟨-, hnext, -⟩ := pages_follow_history .pml4 0x1000 emptyVm (fun _ => rfl) (by decide)
    (by decide) hstart _ s₁ hrun₁
  obtain ⟨s₂, hs₂⟩ := hnext (.unmap 0x400000 1) hv hmeets₁ (by rw [hlen₁]; decide)
  have hrun₂ : Run (pageStep .pml4 0x1000) emptyVm
      [.map 0x400000 0x10000, .unmap 0x400000 1] s₂ :=
    hrun₁.snoc ⟨⟨hv, hmeets₁, by rw [hlen₁]; decide⟩, hs₂⟩
  obtain ⟨hpages, -, -⟩ := pages_follow_history .pml4 0x1000 emptyVm (fun _ => rfl) (by decide)
    (by decide) hstart _ s₂ hrun₂
  exact ⟨s₂, hrun₂, (hpages 0x400000 hv).2.trans (by decide)⟩

/-- **A page is not mapped again after an unmap.** Whatever the uninitialised `page_length` is, a
prefix of map, unmap, map goes wrong: with `0` the page stays after the unmap, and with any other
value the second map does nothing.
SRCLINE: kernel/mm/vmm.cpp:82-123, 179-209 -/
theorem remap_after_unmap_fails :
    (∃ s, Run (fun s op t => PageOp.exec .pml4 0x1000 s op = some t) emptyVm
        [.map 0x400000 0x10000, .unmap 0x400000 0] s ∧
      Interface.translate .pml4 s.mem 0x1000 0x400000 = some 0x10000 ∧
      (mapsSinceUnmap 0x400000 [.map 0x400000 0x10000, .unmap 0x400000 0]).head? = none) ∧
    ∀ g : Word, g ≠ 0 →
      ∃ s, Run (fun s op t => PageOp.exec .pml4 0x1000 s op = some t) emptyVm
          [.map 0x400000 0x10000, .unmap 0x400000 g, .map 0x400000 0x10000] s ∧
        Interface.translate .pml4 s.mem 0x1000 0x400000 = none ∧
        (mapsSinceUnmap 0x400000
          [.map 0x400000 0x10000, .unmap 0x400000 g, .map 0x400000 0x10000]).head? =
            some 0x10000 := by
  constructor
  · obtain ⟨s, hs, htr⟩ : ∃ s, [PageOp.map 0x400000 0x10000, .unmap 0x400000 0].foldlM
        (PageOp.exec .pml4 0x1000) emptyVm = some s ∧
        Interface.translate .pml4 s.mem 0x1000 0x400000 = some 0x10000 := by
      apply Option.map_eq_some_iff.mp
      decide
    exact ⟨s, Run.of_foldlM hs, htr, by decide⟩
  · intro g hg
    have hexec : ∀ s, PageOp.exec .pml4 0x1000 s (.unmap 0x400000 g) =
        PageOp.exec .pml4 0x1000 s (.unmap 0x400000 1) := by
      intro s
      simp only [PageOp.exec, unmapPage, if_neg hg]
      rfl
    obtain ⟨s, hs, htr⟩ : ∃ s, [PageOp.map 0x400000 0x10000, .unmap 0x400000 g,
        .map 0x400000 0x10000].foldlM (PageOp.exec .pml4 0x1000) emptyVm = some s ∧
        Interface.translate .pml4 s.mem 0x1000 0x400000 = none := by
      apply Option.map_eq_some_iff.mp
      simp only [List.foldlM_cons, hexec]
      decide +kernel
    exact ⟨s, Run.of_foldlM hs, htr, rfl⟩

end CrepOS.Analysis
