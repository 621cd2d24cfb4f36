import CrepOS.Interface.PageWalk
import CrepOS.Analysis.MapFrames

/-!
# Mapping one page

`map_page_raw` goes down the tables along the indices of one address, creates the tables that are
missing and writes one entry. `Maps` says what each stretch of that way does to the tables below the
one it starts at: it edits that tree only (and frames that the allocator hands out), walks that
agree with the address down to the level of the page end at the new entry, and every other walk ends
where it did. `maps_through` carries this one level up, and the theorem for both table layouts is
four or five applications of it. The walk is a parameter (`Follows`), so that the same lemmas serve
every way of reading the tables.
-/

set_option autoImplicit false

namespace CrepOS.Analysis

open CrepOS.Library CrepOS.Model CrepOS.Interface

/-- What `map` needs on the way of `v` at the table `t` of height `n`: the tables are a tree, the path
is open, and the frames to come are not in use. -/
structure Ready (leaf : ℕ) (v : Word) (s : Vm) (n : ℕ) (t : Word) : Prop where
  tree : IsTree tableBelow GoodEntry s.mem n t
  path : MeetsZero leaf s.mem v n t
  nodup : s.free.Nodup
  frames : ∀ f ∈ s.free, PageAligned 0 f
  unused : ∀ f, InTree tableBelow s.mem n t f → f ∉ s.free

section

variable {R : Type}

/-- The frames that the allocator handed out between two states. -/
def Taken (s s' : Vm) (f : Word) : Prop := f ∈ s.free ∧ f ∉ s'.free

/-- What `map` does below the table `t` of height `n`: reading the tables along the indices of `v`
down to level `leaf` gives `r`, and along other indices what it gave before. -/
structure Maps (step : ℕ → Word → Word ⊕ R) (r : R) (leaf : ℕ) (v : Word) (s s' : Vm) (n : ℕ)
    (t : Word) : Prop where
  suffix : s'.free <:+ s.free
  edit : Edit tableBelow GoodEntry (Taken s s') s.mem s'.mem n t
  hit : ∀ idx, (∀ k, leaf ≤ k → k < n → idx k = walkIndex v k) →
    descend step s'.mem n t idx = some r
  miss : ∀ idx k, leaf ≤ k → k < n → idx k ≠ walkIndex v k →
    descend step s'.mem n t idx = descend step s.mem n t idx

end

/-! ## Tables -/

theorem tableBelow_zero (n : ℕ) : tableBelow n 0 = none := by
  simp [tableBelow]

theorem ne_zero_of_present {e : Word} (h : e.getLsbD 0 = true) : e ≠ 0 := by
  rintro rfl
  exact Bool.noConfusion h

theorem goodEntry_of_tableBelow_none {n : ℕ} {e : Word} (h : tableBelow n e = none) :
    GoodEntry n e := by
  intro hsome
  rw [h] at hsome
  cases hsome

/-- INTERNAL: an empty table is a tree of one node. -/
theorem isTree_empty {mem : Word → Index → Word} {f : Word} (h : ∀ i, mem f i = 0) (n : ℕ) :
    IsTree tableBelow GoodEntry mem n f := by
  cases n with
  | zero => trivial
  | succ n =>
    have hnone : ∀ i, tableBelow n (mem f i) = none := fun i => by rw [h, tableBelow_zero]
    refine ⟨?_, ?_, ?_⟩
    · intro i
      exact goodEntry_of_tableBelow_none (hnone i)
    · intro i c hc
      rw [hnone] at hc
      cases hc
    · intro i j c d _ hc
      rw [hnone] at hc
      cases hc

theorem inTree_empty {mem : Word → Index → Word} {f g : Word} (h : ∀ i, mem f i = 0) {n : ℕ}
    (hg : InTree tableBelow mem n f g) : g = f := by
  cases n with
  | zero => exact hg.elim
  | succ n =>
    rcases hg with rfl | ⟨i, c, hc, -⟩
    · rfl
    · rw [h, tableBelow_zero] at hc
      cases hc

theorem descend_empty {R : Type} {step : ℕ → Word → Word ⊕ R} {z : R} (hs : Follows step z)
    {mem : Word → Index → Word} {f : Word} (h : ∀ i, mem f i = 0) (n : ℕ) (idx : ℕ → Index) :
    descend step mem (n + 1) f idx = some z := by
  rw [descend, h, hs.zero]

/-! ## One level up -/

section Step

variable {R : Type} {step : ℕ → Word → Word ⊕ R} {z r : R} {leaf n : ℕ} {v t : Word} {s s' : Vm}

/-- INTERNAL: a nonzero entry on an open path leads to a table whose path is open. -/
theorem Ready.below (hr : Ready leaf v s (n + 1) t) (hne : s.mem t (walkIndex v n) ≠ 0) :
    leaf < n ∧ (s.mem t (walkIndex v n)).getLsbD 0 = true ∧
      (s.mem t (walkIndex v n)).getLsbD 7 = false ∧
      Ready leaf v s n (frameOf (s.mem t (walkIndex v n))) := by
  rcases hr.path with hzero | ⟨hlt, hp, hh, hpath⟩
  · exact absurd hzero hne
  · have hc := tableBelow_of_not_huge (n := n) (by omega) hp hh
    refine ⟨hlt, hp, hh, ?_⟩
    refine ⟨(hr.tree.2.1 _ _ hc).1, hpath, hr.nodup, hr.frames, ?_⟩
    intro f hf
    exact hr.unused f (inTree_child hc hf)

/-- **One level up through an existing entry.** -/
theorem Maps.up (hs : Follows step z) (htree : IsTree tableBelow GoodEntry s.mem (n + 1) t)
    (hunused : ∀ f, InTree tableBelow s.mem (n + 1) t f → f ∉ s.free) (hlt : leaf < n)
    (hp : (s.mem t (walkIndex v n)).getLsbD 0 = true)
    (hh : (s.mem t (walkIndex v n)).getLsbD 7 = false)
    (hm : Maps step r leaf v s s' n (frameOf (s.mem t (walkIndex v n)))) :
    Maps step r leaf v s s' (n + 1) t := by
  have hn : n ≠ 0 := by omega
  have hc := tableBelow_of_not_huge hn hp hh
  have hfresh : ∀ f, InTree tableBelow s.mem (n + 1) t f → ¬ Taken s s' f :=
    fun f hf h => hunused f hf h.1
  obtain ⟨hroot, -⟩ := hm.edit.siblings htree hc hfresh
  have hstep := hs.pointer n _ hn hp hh (htree.1 (walkIndex v n))
  refine ⟨hm.suffix, hm.edit.below htree hc hfresh, ?_, ?_⟩
  · intro idx hidx
    rw [descend, hroot, hidx n (by omega) (by omega), hstep]
    exact hm.hit idx fun k hk hk' => hidx k hk (by omega)
  · intro idx k hk hk' hki
    by_cases hidx : idx n = walkIndex v n
    · have hkn : k ≠ n := by
        rintro rfl
        exact hki hidx
      rw [descend, descend, hroot, hidx, hstep]
      exact hm.miss idx k hk (by omega) hki
    · exact hm.edit.descend_other hs.child htree hc hfresh hidx

end Step

/-! ## A new table -/

/-- An entry that points to the table in frame `f`. -/
structure PointsTo (e f : Word) : Prop where
  present : e.getLsbD 0 = true
  notHuge : e.getLsbD 7 = false
  high : ∀ k, 52 ≤ k → e.getLsbD k = false
  frame : frameOf e = f

/-- `pmm::calloc(1)` followed by the write of an entry that points to the new frame. -/
def Vm.addTable (s : Vm) (t : Word) (i : Index) (e f : Word) (fs : List Word) : Vm :=
  Vm.set ⟨Function.update s.mem f fun _ => 0, fs⟩ t i e

section NewTable

variable {R : Type} {step : ℕ → Word → Word ⊕ R} {z r : R} {leaf n : ℕ} {e v t f : Word} {i : Index}
  {s : Vm} {fs : List Word}

theorem PointsTo.tableBelow (h : PointsTo e f) (hn : n ≠ 0) : tableBelow n e = some f := by
  rw [tableBelow_of_not_huge hn h.present h.notHuge, h.frame]

theorem PointsTo.ne_zero (h : PointsTo e f) : e ≠ 0 := by
  rintro rfl
  exact Bool.noConfusion h.present

theorem PointsTo.goodEntry (h : PointsTo e f) : GoodEntry n e := fun _ => ⟨h.present, h.high⟩

theorem Vm.addTable_entry : (Vm.addTable s t i e f fs).mem t i = e := by
  simp [Vm.addTable, Vm.set]

/-- INTERNAL: the new table is empty. -/
theorem Vm.addTable_cleared (hft : f ≠ t) (j : Index) : (Vm.addTable s t i e f fs).mem f j = 0 := by
  simp [Vm.addTable, Vm.set, Function.update_of_ne hft]

/-- INTERNAL: a new table is a graft of one fresh node. -/
theorem graft_addTable (fs : List Word) (he : PointsTo e f) (hn : n ≠ 0) (hft : f ≠ t) (hzero : s.mem t i = 0) :
    Graft tableBelow GoodEntry (· = f) s.mem (Vm.addTable s t i e f fs).mem n t i e := by
  refine ⟨Vm.addTable_entry, ?_, ?_, ?_, he.goodEntry, ?_⟩
  · intro j hj
    simp [Vm.addTable, Vm.set, Function.update_of_ne hj, Function.update_of_ne (Ne.symm hft)]
  · intro g hg hgf
    simp [Vm.addTable, Vm.set, Function.update_of_ne hg, Function.update_of_ne hgf]
  · rw [hzero, tableBelow_zero]
  · intro c hc
    rw [he.tableBelow hn] at hc
    obtain rfl := Option.some.inj hc
    exact ⟨isTree_empty (Vm.addTable_cleared hft) n, fun g hg => inTree_empty (Vm.addTable_cleared hft) hg⟩

/-- INTERNAL: the frame that the allocator returns is not the table it is entered in. -/
theorem Ready.frame_ne (hr : Ready leaf v s (n + 1) t) (hfree : s.free = f :: fs) : f ≠ t := by
  rintro rfl
  apply hr.unused f (inTree_root n f)
  rw [hfree]
  exact List.mem_cons_self

/-- The path of `v` is still open after a new table is entered on it. -/
theorem Ready.addTable (hr : Ready leaf v s (n + 1) t) (hlt : leaf < n) (hfree : s.free = f :: fs)
    (hzero : s.mem t (walkIndex v n) = 0) (he : PointsTo e f) :
    Ready leaf v (Vm.addTable s t (walkIndex v n) e f fs) (n + 1) t := by
  have hft := hr.frame_ne hfree
  have hnodup := hr.nodup
  rw [hfree, List.nodup_cons] at hnodup
  have hfresh : ∀ g, InTree tableBelow s.mem (n + 1) t g → ¬ g = f := by
    rintro g hg rfl
    apply hr.unused g hg
    rw [hfree]
    exact List.mem_cons_self
  have hedit := (graft_addTable fs he (by omega : n ≠ 0) hft hzero).edit hr.tree hfresh
  refine ⟨hedit.tree, Or.inr ?_, hnodup.2, ?_, ?_⟩
  · rw [Vm.addTable_entry, he.frame]
    refine ⟨hlt, he.present, he.notHuge, ?_⟩
    obtain ⟨m, rfl⟩ : ∃ m, n = m + 1 := ⟨n - 1, by omega⟩
    exact Or.inl (Vm.addTable_cleared hft _)
  · intro g hg
    apply hr.frames g
    rw [hfree]
    exact List.mem_cons_of_mem f hg
  · intro g hg hgs
    rcases hedit.grows g hg with hold | rfl
    · apply hr.unused g hold
      rw [hfree]
      exact List.mem_cons_of_mem f hgs
    · exact hnodup.1 hgs

/-- A new table changes no walk. -/
theorem descend_addTable (hs : Follows step z) (hr : Ready leaf v s (n + 1) t) (hlt : leaf < n)
    (hfree : s.free = f :: fs) (hzero : s.mem t (walkIndex v n) = 0) (he : PointsTo e f)
    (idx : ℕ → Index) :
    descend step (Vm.addTable s t (walkIndex v n) e f fs).mem (n + 1) t idx =
      descend step s.mem (n + 1) t idx := by
  have hft := hr.frame_ne hfree
  have hn : n ≠ 0 := by omega
  by_cases hidx : idx n = walkIndex v n
  · -- both end at a zero entry: in the new table, and at the old entry
    have hstep : step n e = .inl f := by
      rw [hs.pointer n e hn he.present he.notHuge he.goodEntry, he.frame]
    rw [descend, descend, hidx, Vm.addTable_entry, hzero, hstep, hs.zero]
    obtain ⟨m, rfl⟩ : ∃ m, n = m + 1 := ⟨n - 1, by omega⟩
    exact descend_empty hs (Vm.addTable_cleared hft) m idx
  · have hgraft := graft_addTable fs he hn hft hzero
    apply hgraft.descend_other hs.child hr.tree _ hidx
    rintro g hg rfl
    apply hr.unused g hg
    rw [hfree]
    exact List.mem_cons_self

/-- **One level up through a new entry.** -/
theorem Maps.of_addTable {s' : Vm} (hs : Follows step z) (hr : Ready leaf v s (n + 1) t)
    (hlt : leaf < n) (hfree : s.free = f :: fs) (hzero : s.mem t (walkIndex v n) = 0)
    (he : PointsTo e f)
    (hm : Maps step r leaf v (Vm.addTable s t (walkIndex v n) e f fs) s' (n + 1) t) :
    Maps step r leaf v s s' (n + 1) t := by
  have hsuffix : s'.free <:+ fs := hm.suffix
  have hnodup := hr.nodup
  rw [hfree, List.nodup_cons] at hnodup
  have htaken : Taken s s' f := by
    rw [Taken, hfree]
    exact ⟨List.mem_cons_self, fun hf => hnodup.1 (hsuffix.subset hf)⟩
  refine ⟨?_, ?_, hm.hit, ?_⟩
  · rw [hfree]
    exact hsuffix.trans (List.suffix_cons f fs)
  · have hgraft := graft_addTable fs he (by omega : n ≠ 0) (hr.frame_ne hfree) hzero
    have hedit := hgraft.edit hr.tree fun g hg hgf => hr.unused g hg (hgf ▸ htaken.1)
    refine (hedit.mono fun g hg => ?_).trans hm.edit ?_
    · exact hg ▸ htaken
    · intro g hg
      refine ⟨?_, hg.2⟩
      rw [hfree]
      exact List.mem_cons_of_mem f hg.1
  · intro idx k hk hk' hki
    rw [hm.miss idx k hk hk' hki, descend_addTable hs hr hlt hfree hzero he]

end NewTable

/-- The flags of the entries above the page: the present bit and others of the bits 0 to 6. -/
def DirectoryFlags (flags : Word) : Prop := flags.getLsbD 0 = true ∧ flags &&& ~~~0x7f#64 = 0

/-- The flags of a page: the present bit and others of the bits 0 to 8 and 63. -/
def LeafFlags (flags : Word) : Prop :=
  flags.getLsbD 0 = true ∧ flags &&& ~~~0x80000000000001ff#64 = 0

instance (flags : Word) : Decidable (DirectoryFlags flags) := inferInstanceAs (Decidable (_ ∧ _))

instance (flags : Word) : Decidable (LeafFlags flags) := inferInstanceAs (Decidable (_ ∧ _))

/-! ## The way down -/

section Through

variable {R : Type} {step : ℕ → Word → Word ⊕ R} {z r : R} {leaf n : ℕ} {v t : Word} {s : Vm}

/-- INTERNAL: flags within bits 0 to 6. -/
theorem getLsbD_of_lowFlags {flags : Word} (h : flags &&& ~~~0x7f#64 = 0) {k : ℕ} (hk : 7 ≤ k) :
    flags.getLsbD k = false := by
  by_cases hk64 : k < 64
  · have hmask : (0x7f#64).getLsbD k = decide (k < 7) := getLsbD_lowMask 7 k hk64
    have hbit := congrArg (fun x => x.getLsbD k) h
    simp only [BitVec.getLsbD_and, BitVec.getLsbD_not, hmask, show ¬ k < 7 by omega, hk64] at hbit
    simpa using hbit
  · exact BitVec.getLsbD_of_ge _ _ (by omega)

theorem DirectoryFlags.getLsbD_high {flags : Word} (h : DirectoryFlags flags) {k : ℕ} (hk : 7 ≤ k) :
    flags.getLsbD k = false :=
  getLsbD_of_lowFlags h.2 hk

theorem DirectoryFlags.ne_zero {flags : Word} (h : DirectoryFlags flags) : flags ≠ 0 := by
  rintro rfl
  exact Bool.noConfusion h.1

theorem DirectoryFlags.not_huge {flags : Word} (h : DirectoryFlags flags) :
    ¬ flags &&& 0x80#64 ≠ 0 := by
  have hbit := isHuge_eq flags
  rw [h.getLsbD_high (by omega), isHuge, bne_eq_false_iff_eq] at hbit
  exact not_not_intro hbit

/-- INTERNAL: the flags do not change the frame. -/
theorem frameOf_or {f flags : Word} (hf : PageAligned 0 f) (h : flags &&& ~~~0x7f#64 = 0) :
    frameOf (f ||| flags) = f := by
  apply BitVec.eq_of_getLsbD_eq
  intro k hk
  rw [getLsbD_frameOf, BitVec.getLsbD_or]
  by_cases h12 : 12 ≤ k
  · rw [getLsbD_of_lowFlags h (by omega)]
    simp [h12]
  · rw [hf.getLsbD_low (by omega)]
    simp [h12]

/-- INTERNAL: a frame with flags is an entry that points to the frame. -/
theorem pointsTo_of_frame {f flags : Word} (hf : PageAligned 0 f) (h : DirectoryFlags flags) :
    PointsTo (f ||| flags) f := by
  refine ⟨?_, ?_, ?_, frameOf_or hf h.2⟩
  · rw [BitVec.getLsbD_or, h.1, Bool.or_true]
  · rw [BitVec.getLsbD_or, h.getLsbD_high (by omega), hf.getLsbD_low (by omega), Bool.or_false]
  · intro k hk
    rw [BitVec.getLsbD_or, h.getLsbD_high (by omega), hf.getLsbD_high hk, Bool.or_false]

/-- INTERNAL: with no bit in common, `+` builds the same entry as `|`. -/
theorem frame_add_eq_or {f flags : Word} (hf : PageAligned 0 f) (h : flags &&& ~~~0x7f#64 = 0) :
    f + flags = f ||| flags := by
  apply BitVec.add_eq_or_of_and_eq_zero
  apply BitVec.eq_of_getLsbD_eq
  intro k hk
  rw [BitVec.getLsbD_and, BitVec.getLsbD_zero]
  by_cases h12 : k < 12
  · rw [hf.getLsbD_low (by omega), Bool.false_and]
  · rw [getLsbD_of_lowFlags h (by omega), Bool.and_false]

/-- What the rest of a call achieves below the entry of level `n` on the path of `v`. -/
def RestMaps (step : ℕ → Word → Word ⊕ R) (r : R) (leaf : ℕ) (v : Word) (n : ℕ) (t : Word)
    (k : Vm → Option Vm) : Prop :=
  ∀ s s', Ready leaf v s n (frameOf (s.mem t (walkIndex v n))) →
    isHuge (s.mem t (walkIndex v n)) = false → k s = some s' →
    Maps step r leaf v s s' n (frameOf (s.mem t (walkIndex v n)))

/-- INTERNAL: the step with the missing table already in place. -/
theorem maps_existing {k : Vm → Option Vm} {s' : Vm} (hs : Follows step z)
    (hr : Ready leaf v s (n + 1) t) (hk : RestMaps step r leaf v n t k)
    (hne : s.mem t (walkIndex v n) ≠ 0) (hrun : k s = some s') :
    Maps step r leaf v s s' (n + 1) t := by
  obtain ⟨hlt, hp, hh, hbelow⟩ := hr.below hne
  have hm := hk s s' hbelow (by rw [isHuge_eq, hh]) hrun
  exact hm.up hs hr.tree hr.unused hlt hp hh

/-- **One level of the way down.** A step that enters a new table when the entry is zero and then
goes on maps the page if the rest of the call does. -/
theorem maps_through {k : Vm → Option Vm} {join : Word → Word → Word} {flags : Word} {s' : Vm}
    (hs : Follows step z) (hflags : DirectoryFlags flags)
    (hjoin : ∀ f, PageAligned 0 f → join f flags = f ||| flags)
    (hr : Ready leaf v s (n + 1) t) (hlt : leaf < n) (hk : RestMaps step r leaf v n t k)
    (hrun : (if s.mem t (walkIndex v n) = 0 then
        match s.calloc with
        | none => none
        | some (f, s) => k (s.set t (walkIndex v n) (join f flags))
      else k s) = some s') : Maps step r leaf v s s' (n + 1) t := by
  by_cases hzero : s.mem t (walkIndex v n) = 0
  · rw [if_pos hzero] at hrun
    cases hfree : s.free with
    | nil =>
      rw [Vm.calloc, hfree] at hrun
      cases hrun
    | cons f fs =>
      have hf : PageAligned 0 f := by
        apply hr.frames
        rw [hfree]
        exact List.mem_cons_self
      have hpoint := pointsTo_of_frame hf hflags
      have hready := hr.addTable hlt hfree hzero hpoint
      simp only [Vm.calloc, hfree, hjoin f hf] at hrun
      have hm := maps_existing hs hready hk (by
        rw [Vm.addTable_entry]
        exact hpoint.ne_zero) hrun
      exact hm.of_addTable hs hr hlt hfree hzero hpoint
  · rw [if_neg hzero] at hrun
    exact maps_existing hs hr hk hzero hrun

theorem throughDirectory_maps {k : Vm → Option Vm} {flags : Word} {s' : Vm} (hs : Follows step z)
    (hflags : DirectoryFlags flags) (hr : Ready leaf v s (n + 1) t) (hlt : leaf < n)
    (hk : RestMaps step r leaf v n t k)
    (hrun : throughDirectory s t (walkIndex v n) flags k = some s') :
    Maps step r leaf v s s' (n + 1) t := by
  rw [throughDirectory, if_neg hflags.ne_zero] at hrun
  exact maps_through hs hflags (fun _ _ => rfl) hr hlt hk hrun

theorem throughTable_maps {k : Vm → Option Vm} {join : Word → Word → Word} {flags paddr : Word}
    {s' : Vm} (hs : Follows step z) (hflags : DirectoryFlags flags)
    (hjoin : ∀ f, PageAligned 0 f → join f flags = f ||| flags)
    (hr : Ready leaf v s (n + 1) t) (hlt : leaf < n) (hk : RestMaps step r leaf v n t k)
    (hrun : throughTable join s t (walkIndex v n) flags paddr k = some s') :
    Maps step r leaf v s s' (n + 1) t := by
  rw [throughTable, if_neg hflags.ne_zero, if_neg hflags.not_huge] at hrun
  exact maps_through hs hflags hjoin hr hlt hk hrun

end Through

/-! ## The entry of the page -/

/-- The entry of a page: its address, its flags and, unless `pa` is `-1`, its memory type. -/
def leafEntry (pat paddr flags : Word) (pa : ℤ) : Word :=
  if pa = -1 then paddr ||| flags else setPa pat pa (paddr ||| flags)

theorem Vm.set_applyPa (s : Vm) (t : Word) (i : Index) (pat paddr flags : Word) (pa : ℤ) :
    (s.set t i (paddr ||| flags)).applyPa t i pat pa = s.set t i (leafEntry pat paddr flags pa) := by
  unfold Vm.applyPa leafEntry
  split
  · rfl
  · simp [Vm.set]

theorem getLsbD_setBit_of_ne (e : Word) (b : Bool) {j k : ℕ} (hj : j < 64) (h : j ≠ k) :
    (setBit e (BitVec.twoPow 64 k) b).getLsbD j = e.getLsbD j := by
  cases b with
  | false => simp [setBit, hj, h]
  | true => simp [setBit, BitVec.getLsbD_twoPow, Ne.symm h]

/-- INTERNAL: the memory type is in bits 3 and 4 and in the PAT bit. -/
theorem getLsbD_setPa {q j : ℕ} (e : Word) (pa : ℤ) (hj : j < 64) (h3 : j ≠ 3) (h4 : j ≠ 4)
    (hq : j ≠ q) : (setPa (BitVec.twoPow 64 q) pa e).getLsbD j = e.getLsbD j := by
  rw [setPa, show (0x8#64) = BitVec.twoPow 64 3 from rfl, getLsbD_setBit_of_ne _ _ hj h3,
    show (0x10#64) = BitVec.twoPow 64 4 from rfl, getLsbD_setBit_of_ne _ _ hj h4,
    getLsbD_setBit_of_ne _ _ hj hq]

theorem getLsbD_leafEntry {q j : ℕ} (paddr flags : Word) (pa : ℤ) (hj : j < 64) (h3 : j ≠ 3)
    (h4 : j ≠ 4) (hq : j ≠ q) :
    (leafEntry (BitVec.twoPow 64 q) paddr flags pa).getLsbD j =
      (paddr.getLsbD j || flags.getLsbD j) := by
  unfold leafEntry
  split
  · exact BitVec.getLsbD_or
  · rw [getLsbD_setPa _ pa hj h3 h4 hq]
    exact BitVec.getLsbD_or

theorem LeafFlags.getLsbD_high {flags : Word} (h : LeafFlags flags) {k : ℕ} (hk : 9 ≤ k)
    (hk63 : k < 63) : flags.getLsbD k = false := by
  have hsplit : 0x80000000000001ff#64 = 0x1ff#64 ||| BitVec.twoPow 64 63 := by decide
  have hmask : (0x1ff#64).getLsbD k = decide (k < 9) := getLsbD_lowMask 9 k (by omega)
  have hbit := congrArg (fun x => x.getLsbD k) h.2
  simp only [hsplit, BitVec.getLsbD_and, BitVec.getLsbD_not, BitVec.getLsbD_or, hmask,
    BitVec.getLsbD_twoPow, show ¬ k < 9 by omega, show k < 64 by omega,
    show ¬ 63 = k by omega] at hbit
  simpa using hbit

/-- INTERNAL: the address bits of an entry give the page back. -/
theorem pageBase_eq {n : ℕ} {e paddr : Word} (hp : PageAligned n paddr)
    (h : ∀ k, 12 + 9 * n ≤ k → k < 52 → e.getLsbD k = paddr.getLsbD k) : pageBase n e = paddr := by
  apply BitVec.eq_of_getLsbD_eq
  intro k hk
  rw [pageBase, BitVec.getLsbD_and, BitVec.getLsbD_and, BitVec.getLsbD_not,
    getLsbD_addressMask k hk, getLsbD_pageMask n k hk]
  by_cases hlow : k < 12 + 9 * n
  · simp [hlow, hp.getLsbD_low hlow]
  · by_cases hhigh : 52 ≤ k
    · have hlt : ¬ k < 52 := by omega
      simp [hlt, hp.getLsbD_high hhigh]
    · have hlt : k < 52 := by omega
      have h12 : 12 ≤ k := by omega
      rw [h k (by omega) hlt]
      simp [hlow, hlt, h12, hk]

/-- INTERNAL: a page address and an offset have no bit in common. -/
theorem pageAligned_or_eq_add {n : ℕ} {paddr : Word} (hp : PageAligned n paddr) (w : Word) :
    paddr ||| (w &&& pageMask n) = paddr + (w &&& pageMask n) := by
  symm
  apply BitVec.add_eq_or_of_and_eq_zero
  apply BitVec.eq_of_getLsbD_eq
  intro k hk
  rw [BitVec.getLsbD_and, BitVec.getLsbD_and, getLsbD_pageMask n k hk, BitVec.getLsbD_zero]
  by_cases hlow : k < 12 + 9 * n
  · rw [hp.getLsbD_low hlow, Bool.false_and]
  · simp [hlow]

section Leaf

variable {R : Type} {step : ℕ → Word → Word ⊕ R} {z r : R} {leaf : ℕ} {e v t : Word} {s : Vm}

/-- INTERNAL: at the level of the page an open path has met its zero entry. -/
theorem Ready.leaf_zero (hr : Ready leaf v s (leaf + 1) t) : s.mem t (walkIndex v leaf) = 0 := by
  rcases hr.path with hzero | ⟨hlt, -⟩
  · exact hzero
  · omega

/-- **The write of an entry that is no pointer**, over another that is none. -/
theorem maps_set (hs : Follows step z) (htree : IsTree tableBelow GoodEntry s.mem (leaf + 1) t)
    (hunused : ∀ f, InTree tableBelow s.mem (leaf + 1) t f → f ∉ s.free)
    (hold : tableBelow leaf (s.mem t (walkIndex v leaf)) = none)
    (hnew : tableBelow leaf e = none) (hstep : step leaf e = .inr r) :
    Maps step r leaf v s (s.set t (walkIndex v leaf) e) (leaf + 1) t := by
  have hfresh : ∀ f, InTree tableBelow s.mem (leaf + 1) t f →
      ¬ Taken s (s.set t (walkIndex v leaf) e) f := fun f hf h => hunused f hf h.1
  have hgraft : Graft tableBelow GoodEntry (Taken s (s.set t (walkIndex v leaf) e)) s.mem
      (s.set t (walkIndex v leaf) e).mem leaf t (walkIndex v leaf) e := by
    refine ⟨by simp [Vm.set], ?_, ?_, hold, goodEntry_of_tableBelow_none hnew, ?_⟩
    · intro j hj
      simp [Vm.set, Function.update_of_ne hj]
    · intro f hf _
      simp [Vm.set, Function.update_of_ne hf]
    · intro c hc
      rw [hnew] at hc
      cases hc
  refine ⟨List.suffix_rfl, hgraft.edit htree hfresh, ?_, ?_⟩
  · intro idx hidx
    rw [descend, hidx leaf (Nat.le_refl leaf) (Nat.lt_succ_self leaf), hgraft.entry, hstep]
  · intro idx k hk hk' hki
    obtain rfl : k = leaf := by omega
    exact hgraft.descend_other hs.child htree hfresh hki

/-- INTERNAL: the write of the page's entry at the end of an open path. -/
theorem maps_leaf (hs : Follows step z) (hr : Ready leaf v s (leaf + 1) t)
    (hnew : tableBelow leaf e = none) (hstep : step leaf e = .inr r) :
    Maps step r leaf v s (s.set t (walkIndex v leaf) e) (leaf + 1) t :=
  maps_set hs hr.tree hr.unused (by rw [hr.leaf_zero, tableBelow_zero]) hnew hstep

end Leaf

section Pages

variable {paddr flags : Word}

theorem tableBelow_level_zero (e : Word) : tableBelow 0 e = none := by
  simp [tableBelow, isLeaf]

theorem getLsbD_huge_leafEntry (paddr : Word) (pa : ℤ) (hps : flags.getLsbD 7 = true) :
    (leafEntry patHuge paddr flags pa).getLsbD 7 = true := by
  have hbit := getLsbD_leafEntry (q := 12) (j := 7) paddr flags pa (by omega) (by omega) (by omega)
    (by omega)
  rw [hps, Bool.or_true] at hbit
  exact hbit

theorem tableBelow_huge (paddr : Word) (pa : ℤ) (hps : flags.getLsbD 7 = true) :
    tableBelow 1 (leafEntry patHuge paddr flags pa) = none := by
  rw [tableBelow, isLeaf, getLsbD_huge_leafEntry paddr pa hps]
  simp

/-- The entry of a 4 KiB page. -/
theorem walkStep_small (pa : ℤ) (hp : PageAligned 0 paddr) (hflags : LeafFlags flags) :
    walkStep 0 (leafEntry patSmall paddr flags pa) =
        .inr (.page 0 (leafEntry patSmall paddr flags pa)) ∧
      pageBase 0 (leafEntry patSmall paddr flags pa) = paddr := by
  have hbit : ∀ k, k < 64 → k ≠ 3 → k ≠ 4 → k ≠ 7 →
      (leafEntry patSmall paddr flags pa).getLsbD k = (paddr.getLsbD k || flags.getLsbD k) :=
    fun k hk h3 h4 h7 => getLsbD_leafEntry (q := 7) paddr flags pa hk h3 h4 h7
  have hpresent : (leafEntry patSmall paddr flags pa).getLsbD 0 = true := by
    rw [hbit 0 (by omega) (by omega) (by omega) (by omega), hflags.1, Bool.or_true]
  refine ⟨?_, ?_⟩
  · rw [walkStep, if_neg (by rw [hpresent]; exact Bool.noConfusion), if_pos rfl]
  · apply pageBase_eq hp
    intro k hk hk'
    rw [hbit k (by omega) (by omega) (by omega) (by omega),
      hflags.getLsbD_high (by omega) (by omega), Bool.or_false]

/-- The entry of a 2 MiB page: the PAT bit is below the address field. -/
theorem walkStep_huge (pa : ℤ) (hp : PageAligned 1 paddr) (hflags : LeafFlags flags)
    (hps : flags.getLsbD 7 = true) :
    walkStep 1 (leafEntry patHuge paddr flags pa) =
        .inr (.page 1 (leafEntry patHuge paddr flags pa)) ∧
      pageBase 1 (leafEntry patHuge paddr flags pa) = paddr := by
  have hbit : ∀ k, k < 64 → k ≠ 3 → k ≠ 4 → k ≠ 12 →
      (leafEntry patHuge paddr flags pa).getLsbD k = (paddr.getLsbD k || flags.getLsbD k) :=
    fun k hk h3 h4 h12 => getLsbD_leafEntry (q := 12) paddr flags pa hk h3 h4 h12
  have hpresent : (leafEntry patHuge paddr flags pa).getLsbD 0 = true := by
    rw [hbit 0 (by omega) (by omega) (by omega) (by omega), hflags.1, Bool.or_true]
  refine ⟨?_, ?_⟩
  · rw [walkStep, if_neg (by rw [hpresent]; exact Bool.noConfusion), if_neg (by omega),
      if_pos (getLsbD_huge_leafEntry paddr pa hps), if_pos (by omega)]
  · apply pageBase_eq hp
    intro k hk hk'
    rw [hbit k (by omega) (by omega) (by omega) (by omega),
      hflags.getLsbD_high (by omega) (by omega), Bool.or_false]

end Pages

/-! ## The functions of the source -/

section Functions

variable {R : Type} {step : ℕ → Word → Word ⊕ R} {z r : R} {leaf : ℕ}
  {v paddr flags flags1 flags0 : Word} {pa : ℤ}

/-- `m` maps the page of level `leaf` at `v`, from any table of height `n` on. -/
def StretchMaps (step : ℕ → Word → Word ⊕ R) (r : R) (leaf : ℕ) (v : Word) (n : ℕ)
    (m : Vm → Word → Option Vm) : Prop :=
  ∀ s s' t, Ready leaf v s n t → m s t = some s' → Maps step r leaf v s s' n t

theorem mapPml1_maps (hs : Follows step z) (hflags : LeafFlags flags)
    (hstep : step 0 (leafEntry patSmall paddr flags pa) = .inr r) :
    StretchMaps step r 0 v 1 fun s t => mapPml1 s t v paddr flags pa := by
  intro s s' t hr hrun
  have hne : flags ≠ 0 := by
    rintro rfl
    exact Bool.noConfusion hflags.1
  simp only [mapPml1, tableIndex_eq_walkIndex] at hrun
  rw [if_pos hr.leaf_zero, if_neg hne, Vm.set_applyPa] at hrun
  obtain rfl := Option.some.inj hrun
  exact maps_leaf hs hr (tableBelow_level_zero _) hstep

theorem mapPml2_maps (hs : Follows step z) (hflags1 : DirectoryFlags flags1)
    (h : StretchMaps step r 0 v 1 fun s t => mapPml1 s t v paddr flags0 pa) :
    StretchMaps step r 0 v 2 fun s t => mapPml2 s t v paddr flags1 flags0 pa := by
  intro s s' t hr hrun
  simp only [mapPml2, tableIndex_eq_walkIndex] at hrun
  refine throughTable_maps hs hflags1 (fun _ _ => rfl) hr (by omega) ?_ hrun
  intro s s' hr hh hrun
  simp only [hh, Bool.false_eq_true, if_false] at hrun
  exact h s s' _ hr hrun

theorem mapPml2_maps_huge (hs : Follows step z) (hflags : LeafFlags flags)
    (hps : flags.getLsbD 7 = true)
    (hstep : step 1 (leafEntry patHuge paddr flags pa) = .inr r) :
    StretchMaps step r 1 v 2 fun s t => mapPml2 s t v paddr flags 0 pa := by
  intro s s' t hr hrun
  have hne : flags ≠ 0 := by
    rintro rfl
    exact Bool.noConfusion hflags.1
  have hhuge : flags &&& 0x80#64 ≠ 0 := by
    have h := isHuge_eq flags
    rw [hps, isHuge, bne_iff_ne] at h
    exact h
  have hentry : isHuge (paddr ||| flags) = true := by
    rw [isHuge_eq, BitVec.getLsbD_or, hps, Bool.or_true]
  simp only [mapPml2, tableIndex_eq_walkIndex] at hrun
  rw [throughTable, if_pos hr.leaf_zero, if_neg hne, if_pos hhuge,
    if_pos (by simpa [Vm.set] using hentry), Vm.set_applyPa] at hrun
  obtain rfl := Option.some.inj hrun
  exact maps_leaf hs hr (tableBelow_huge paddr pa hps) hstep

theorem mapPml3_maps {join : Word → Word → Word} (hs : Follows step z) (hflags1 : DirectoryFlags flags1)
    (hjoin : ∀ f, PageAligned 0 f → join f flags1 = f ||| flags1) (hleaf : leaf < 2)
    (h : StretchMaps step r leaf v 2 fun s t => mapPml2 s t v paddr flags flags0 pa) :
    StretchMaps step r leaf v 3 fun s t => mapPml3 join s t v paddr flags1 flags flags0 pa := by
  intro s s' t hr hrun
  simp only [mapPml3, tableIndex_eq_walkIndex] at hrun
  refine throughTable_maps hs hflags1 hjoin hr hleaf ?_ hrun
  intro s s' hr hh hrun
  simp only [hh, Bool.false_eq_true, if_false] at hrun
  exact h s s' _ hr hrun

/-- **`pml4_table::virtual_address::map`** -/
theorem Pml4.map_maps (hs : Follows step z) (hflags1 : DirectoryFlags flags1) (hleaf : leaf < 2)
    (h : StretchMaps step r leaf v 2 fun s t => mapPml2 s t v paddr flags flags0 pa) :
    StretchMaps step r leaf v 4
      fun s t => Model.Pml4.map s t v paddr flags1 flags1 flags flags0 pa := by
  intro s s' t hr hrun
  simp only [Model.Pml4.map, tableIndex_eq_walkIndex] at hrun
  refine throughDirectory_maps hs hflags1 hr (by omega) ?_ hrun
  intro s s' hr _ hrun
  exact mapPml3_maps hs hflags1 (fun _ _ => rfl) hleaf h s s' _ hr hrun

/-- **`pml5_table::virtual_address::map`**, where `+` builds the third-level entries. -/
theorem Pml5.map_maps (hs : Follows step z) (hflags1 : DirectoryFlags flags1) (hleaf : leaf < 2)
    (h : StretchMaps step r leaf v 2 fun s t => mapPml2 s t v paddr flags flags0 pa) :
    StretchMaps step r leaf v 5
      fun s t => Model.Pml5.map s t v paddr flags1 flags1 flags1 flags flags0 pa := by
  intro s s' t hr hrun
  simp only [Model.Pml5.map, tableIndex_eq_walkIndex] at hrun
  refine throughDirectory_maps hs hflags1 hr (by omega) ?_ hrun
  intro s s' hr _ hrun
  refine throughDirectory_maps hs hflags1 hr (by omega) ?_ hrun
  intro s s' hr _ hrun
  exact mapPml3_maps hs hflags1 (fun f hf => frame_add_eq_or hf hflags1.2) hleaf h s s' _ hr hrun

/-- The level of the page that `map_page_raw` maps: 2 MiB with bit 7 in `flags0`, else 4 KiB. -/
def leafLevel (flags0 : Word) : ℕ := if flags0.getLsbD 7 then 1 else 0

/-- The entry that `map_page_raw` writes. -/
def pageEntry (paddr flags0 : Word) (pa : ℤ) : Word :=
  leafEntry (if flags0.getLsbD 7 then patHuge else patSmall) paddr flags0 pa

/-- **`map_page_raw` of both tables**, for every way of reading them. -/
theorem mapPageRaw_maps (p : Paging) (v : Word) (hs : Follows step z)
    (hflags1 : DirectoryFlags flags1) (hflags0 : LeafFlags flags0)
    (hstep : step (leafLevel flags0) (pageEntry paddr flags0 pa) = .inr r) :
    StretchMaps step r (leafLevel flags0) v p.levels
      fun s t => mapPageRaw p s t v paddr flags1 flags0 pa := by
  have hps := isHuge_eq flags0
  by_cases h7 : flags0.getLsbD 7 = true
  · rw [h7, isHuge, bne_iff_ne] at hps
    simp only [leafLevel, pageEntry, h7, if_true] at hstep ⊢
    have h2 := mapPml2_maps_huge (v := v) hs hflags0 h7 hstep
    cases p with
    | pml4 =>
      simp only [mapPageRaw, if_pos hps]
      exact Pml4.map_maps hs hflags1 (by omega) h2
    | pml5 =>
      simp only [mapPageRaw, if_pos hps]
      exact Pml5.map_maps hs hflags1 (by omega) h2
  · have h7 := eq_false_of_ne_true h7
    rw [h7, isHuge, bne_eq_false_iff_eq] at hps
    simp only [leafLevel, pageEntry, h7, Bool.false_eq_true, if_false] at hstep ⊢
    have h2 := mapPml2_maps hs hflags1 (mapPml1_maps (v := v) hs hflags0 hstep)
    cases p with
    | pml4 =>
      simp only [mapPageRaw, if_neg (not_not_intro hps)]
      exact Pml4.map_maps hs hflags1 (by omega) h2
    | pml5 =>
      simp only [mapPageRaw, if_neg (not_not_intro hps)]
      exact Pml5.map_maps hs hflags1 (by omega) h2

/-- INTERNAL: what the walk makes of the entry of a page. -/
theorem walkStep_pageEntry (pa : ℤ) (hp : PageAligned (leafLevel flags0) paddr)
    (hflags0 : LeafFlags flags0) :
    walkStep (leafLevel flags0) (pageEntry paddr flags0 pa) =
        .inr (.page (leafLevel flags0) (pageEntry paddr flags0 pa)) ∧
      pageBase (leafLevel flags0) (pageEntry paddr flags0 pa) = paddr := by
  by_cases h7 : flags0.getLsbD 7 = true
  · simp only [leafLevel, pageEntry, h7, if_true] at hp ⊢
    exact walkStep_huge pa hp hflags0 h7
  · simp only [leafLevel, pageEntry, h7, if_false, Bool.false_eq_true] at hp ⊢
    exact walkStep_small pa hp hflags0

end Functions

/-! ## The page is mapped, and nothing else changes -/

theorem leafLevel_lt_levels (p : Paging) (flags0 : Word) : leafLevel flags0 < p.levels := by
  unfold leafLevel
  cases p <;> simp only [Paging.levels] <;> split <;> omega

/-- **`map_page_raw` is correct and local.** The page of `v` is translated to `paddr` and the page
offset, the walk of every canonical address outside the page ends where it did, and the tables are
still a tree. The alignment of `v` and the range of `pa` do not matter.
SRCLINE: kernel/mm/vmm.cpp:125-191, 211-288, 399-413, 447-461 -/
theorem mapPageRaw_correct (p : Paging) (s : Vm) (root v paddr flags1 flags0 : Word) (pa : ℤ)
    (htree : TableTree p s.mem root) (hv : Canonical p v)
    (hp : PageAligned (leafLevel flags0) paddr) (hflags1 : DirectoryFlags flags1)
    (hflags0 : LeafFlags flags0) (hpath : MeetsZero (leafLevel flags0) s.mem v p.levels root)
    (hnodup : s.free.Nodup) (hframes : ∀ f ∈ s.free, PageAligned 0 f)
    (hunused : ∀ f, InTables p s.mem root f → f ∉ s.free) (hlen : p.levels ≤ s.free.length + 1) :
    ∃ s', mapPageRaw p s root v paddr flags1 flags0 pa = some s' ∧
      (∀ w, SamePage (leafLevel flags0) v w →
        Interface.translate p s'.mem root w = some (paddr + (w &&& pageMask (leafLevel flags0)))) ∧
      (∀ w, Canonical p w → ¬ SamePage (leafLevel flags0) v w →
        walk p s'.mem root w = walk p s.mem root w) ∧
      TableTree p s'.mem root := by
  obtain ⟨hstep, hbase⟩ := walkStep_pageEntry pa hp hflags0
  obtain ⟨s', hs', -⟩ := mapPageRaw_spends p root s (by omega)
  have hm := mapPageRaw_maps p v follows_walkStep hflags1 hflags0 hstep s s' root
    ⟨htree, hpath, hnodup, hframes, hunused⟩ hs'
  refine ⟨s', hs', ?_, ?_, hm.edit.tree⟩
  · intro w hw
    have hwalk : walk p s'.mem root w =
        some (.page (leafLevel flags0) (pageEntry paddr flags0 pa)) :=
      hm.hit (walkIndex w) fun k hk _ => hw.walkIndex_eq hk
    rw [Interface.translate, hwalk]
    simp only
    rw [hbase, pageAligned_or_eq_add hp]
  · intro w hw hout
    -- a canonical address outside the page differs from `v` in one of the indices
    have hdiff : ∃ k, leafLevel flags0 ≤ k ∧ k < p.levels ∧ walkIndex w k ≠ walkIndex v k := by
      by_contra hsame
      push Not at hsame
      exact hout (samePage_of_walkIndex (leafLevel_lt_levels p flags0) hv hw hsame)
    obtain ⟨k, hk, hk', hne⟩ := hdiff
    exact hm.miss (walkIndex w) k hk hk' hne

/-- The 2 MiB page of the kernel at `kernel_high_vma + 0x200000`, in empty tables. -/
theorem mapPageRaw_kernelPage :
    ∃ s', mapPageRaw .pml4 ⟨fun _ _ => 0, [0x2000, 0x3000, 0x4000]⟩ 0x1000 0xffffffff80200000
        0x200000 0x7 0x187 (-1) = some s' ∧
      Interface.translate .pml4 s'.mem 0x1000 0xffffffff80201234 = some 0x201234 ∧
      walk .pml4 s'.mem 0x1000 0xffffffff80400000 = some .fault ∧
      TableTree .pml4 s'.mem 0x1000 := by
  obtain ⟨s', hs', hin, hout, htree⟩ :=
    mapPageRaw_correct .pml4 ⟨fun _ _ => 0, [0x2000, 0x3000, 0x4000]⟩ 0x1000 0xffffffff80200000
      0x200000 0x7 0x187 (-1) (isTree_empty (fun _ => rfl) 4) (by decide) (by decide) (by decide)
      (by decide) (Or.inl rfl) (by decide)
      (by simp only [List.forall_mem_cons]; exact ⟨by decide, by decide, by decide, nofun⟩)
      (fun f hf => by rw [inTree_empty (fun _ => rfl) hf]; decide) (by decide)
  refine ⟨s', hs', ?_, ?_, htree⟩
  · exact (hin 0xffffffff80201234 (by decide)).trans (by decide)
  · exact (hout 0xffffffff80400000 (by decide) (by decide)).trans (by decide)

end CrepOS.Analysis
