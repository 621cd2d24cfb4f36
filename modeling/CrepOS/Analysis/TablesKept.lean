import CrepOS.Analysis.MapGrowth
import CrepOS.Analysis.KernelHalfShared

/-!
# What calls leave of tables that share tables

`TablesKept` is what one call of a member of `pmlx_table` leaves of all page tables: those in use stay at
their places, the ones that are added were free frames, and walks read something else only below the
entries of the top table that the call is about. The members are gone through one after another, and
`SystemPlaced` is the invariant of the runs of them from `vmm::init` on.
-/

set_option autoImplicit false

namespace CrepOS.Analysis

open CrepOS.Library CrepOS.Model CrepOS.Interface

/-- What a call leaves of the page tables with the top tables `tops`. Walks from these read what they
read before, but for addresses whose index into the top table is `touched`. -/
structure TablesKept (p : Paging) (tops : List Word) (touched : Index → Prop)
    (place place' : Word → Option (List Index)) (s s' : Vm) : Prop where
  placed : TablesPlaced p place' s'
  top : ∀ t ∈ tops, place' t = some []
  new : ∀ f, place' f = place f ∨ f ∈ s.free ∧ f ∉ s'.free
  suffix : s'.free <:+ s.free
  trails : ∀ t ∈ tops, ∀ v, ¬ touched (topIndex p v) →
    trail walkStep s'.mem p.levels t (walkIndex v) = trail walkStep s.mem p.levels t (walkIndex v)

section TablesKept

variable {p : Paging} {tops : List Word} {touched touched' : Index → Prop}
  {place place' place'' : Word → Option (List Index)} {s s₁ s' s'' : Vm} {root v f : Word}

theorem tablesKept_refl (h : TablesPlaced p place s) (htops : ∀ t ∈ tops, place t = some []) :
    TablesKept p tops touched place place s s :=
  ⟨h, htops, fun _ => Or.inl rfl, List.suffix_rfl, fun _ _ _ _ => rfl⟩

/-- One call after another. -/
theorem TablesKept.trans (h : TablesKept p tops touched place place' s s')
    (h' : TablesKept p tops touched' place' place'' s' s'') :
    TablesKept p tops (fun i => touched i ∨ touched' i) place place'' s s'' := by
  refine ⟨h'.placed, h'.top, ?_, h'.suffix.trans h.suffix, ?_⟩
  · intro f
    rcases h'.new f with hsame | ⟨hin, hout⟩
    · rcases h.new f with hsame' | ⟨hin, hout⟩
      · exact Or.inl (hsame.trans hsame')
      · exact Or.inr ⟨hin, fun hf => hout (h'.suffix.subset hf)⟩
    · exact Or.inr ⟨h.suffix.subset hin, hout⟩
  · intro t ht v hv
    rw [not_or] at hv
    rw [h'.trails t ht v hv.2, h.trails t ht v hv.1]

theorem TablesKept.mono (h : TablesKept p tops touched place place' s s')
    (hle : ∀ i, touched i → touched' i) : TablesKept p tops touched' place place' s s' :=
  ⟨h.placed, h.top, h.new, h.suffix, fun t ht v hv => h.trails t ht v fun hi => hv (hle _ hi)⟩

/-- A translation is determined by the entries that the walk reads. -/
theorem TablesKept.translate_eq (h : TablesKept p tops touched place place' s s') {t : Word}
    (ht : t ∈ tops) (hv : ¬ touched (topIndex p v)) :
    Interface.translate p s'.mem t v = Interface.translate p s.mem t v := by
  rw [translate_eq_bind, translate_eq_bind, walk, walk, descend_of_trail (h.trails t ht v hv)]

/-- INTERNAL: changes of entries that no walk from the top tables reads. -/
theorem tablesKept_of_entries (h : TablesPlaced p place s) (htops : ∀ t ∈ tops, place t = some [])
    {mem : Word → Index → Word} {fs : List Word} (hfs : fs <:+ s.free)
    (hmem : ∀ t l i n, place t = some l → l.length + (n + 1) = p.levels →
      mem t i = s.mem t i ∨ tableBelow n (mem t i) = none)
    (htables : ∀ t ∈ tops, ∀ f, InTables p s.mem t f → mem f = s.mem f) :
    TablesKept p tops touched place place s ⟨mem, fs⟩ := by
  refine ⟨tablesPlaced_of_entries h hfs hmem, htops, fun _ => Or.inl rfl, hfs, ?_⟩
  intro t ht v _
  exact trail_inTree h.placed (walk_follows h) (htops t ht) (Nat.zero_add _) (htables t ht)

/-- Writes to memory that is no page table. -/
theorem tablesKept_of_outside (h : TablesPlaced p place s) (htops : ∀ t ∈ tops, place t = some [])
    {mem : Word → Index → Word} {fs : List Word} (hfs : fs <:+ s.free)
    (hmem : ∀ f l, place f = some l → mem f = s.mem f) :
    TablesKept p tops touched place place s ⟨mem, fs⟩ := by
  apply tablesKept_of_entries h htops hfs
  · intro t l i n ht _
    exact Or.inl (congrFun (hmem t l ht) i)
  · intro t ht f hf
    obtain ⟨l, hl⟩ := h.placed.of_inTree (htops t ht) (Nat.zero_add _) hf
    exact hmem f l hl

theorem alloc_kept (h : TablesPlaced p place s) (htops : ∀ t ∈ tops, place t = some [])
    (halloc : s.alloc = some (f, s₁)) :
    TablesKept p tops (fun _ => False) place place s s₁ ∧ s.free = f :: s₁.free := by
  cases hfree : s.free with
  | nil =>
    rw [Vm.alloc, hfree] at halloc
    cases halloc
  | cons g fs =>
    simp only [Vm.alloc, hfree, Option.some.injEq, Prod.mk.injEq] at halloc
    obtain ⟨rfl, rfl⟩ := halloc
    refine ⟨tablesKept_of_outside h htops ?_ fun _ _ _ => rfl, rfl⟩
    rw [hfree]
    exact List.suffix_cons g fs

theorem calloc_kept (h : TablesPlaced p place s) (htops : ∀ t ∈ tops, place t = some [])
    (hcalloc : s.calloc = some (f, s₁)) :
    TablesKept p tops (fun _ => False) place place s s₁ ∧ s.free = f :: s₁.free := by
  obtain ⟨fs, hfree, rfl⟩ := calloc_eq_some hcalloc
  refine ⟨tablesKept_of_outside h htops ?_ ?_, hfree⟩
  · rw [hfree]
    exact List.suffix_cons f fs
  · intro g l hg
    apply Function.update_of_ne
    rintro rfl
    have hnone := h.unused g (hfree ▸ List.mem_cons_self)
    cases hg.symm.trans hnone

/-- INTERNAL: a block that is cleared leaves the tables at their places. -/
theorem clearBlock_entries (block t : Word) (i : Index) (n : ℕ) :
    (s.clearBlock block).mem t i = s.mem t i ∨ tableBelow n ((s.clearBlock block).mem t i) = none := by
  by_cases hin : (t - block).toNat < 0x200000
  · right
    simp only [Vm.clearBlock, if_pos hin]
    exact tableBelow_zero n
  · exact Or.inl (if_neg hin)

theorem clearBlock_kept {block : Word} (h : TablesPlaced p place s)
    (htops : ∀ t ∈ tops, place t = some [])
    (hblock : ∀ t ∈ tops, ∀ f, InTables p s.mem t f → ¬ (f - block).toNat < 0x200000) :
    TablesKept p tops (fun _ => False) place place s (s.clearBlock block) := by
  apply tablesKept_of_entries h htops List.suffix_rfl
  · intro t l i n _ _
    exact clearBlock_entries block t i n
  · intro t ht f hf
    funext i
    exact if_neg (hblock t ht f hf)

/-- **`map_page_raw`.** -/
theorem mapPageRaw_kept {paddr flags1 flags0 : Word} {pa : ℤ} (h : TablesPlaced p place s)
    (htops : ∀ t ∈ tops, place t = some []) (hlow : flags1 &&& ~~~0x7f#64 = 0) (hroot : root ∈ tops)
    (hrun : mapPageRaw p s root v paddr flags1 flags0 pa = some s') :
    ∃ place', TablesKept p tops (· = topIndex p v) place place' s s' := by
  obtain ⟨place', hgrown, h'⟩ := mapPageRaw_placed h hlow (htops root hroot) hrun
  refine ⟨place', h', fun t ht => hgrown.old t [] (htops t ht), ?_, hgrown.suffix, ?_⟩
  · intro f
    rcases hgrown.new f with hsame | ⟨hin, hout, -⟩
    · exact Or.inl hsame
    · exact Or.inr ⟨hin, hout⟩
  · intro t ht w hw
    apply hgrown.trail_other h.placed (walk_follows h) (htops t ht)
    rw [← tableIndex_eq_walkIndex, ← tableIndex_eq_walkIndex]
    exact hw

/-- The pages have pairwise different frames, which the allocator gives away and which do not become
tables. -/
structure TakesFrames (place' : Word → Option (List Index)) (pages : List PageRecord) (s s' : Vm) :
    Prop where
  size : ∀ r ∈ pages, r.size = 0x1000
  taken : ∀ r ∈ pages, r.base ∈ s.free ∧ r.base ∉ s'.free
  unplaced : ∀ r ∈ pages, place' r.base = none
  apart : pages.Pairwise fun r r' => r.base ≠ r'.base

theorem takesFrames_nil : TakesFrames place' [] s s' := by
  refine ⟨?_, ?_, ?_, List.Pairwise.nil⟩
  · intro r hr
    cases hr
  · intro r hr
    cases hr
  · intro r hr
    cases hr

/-- INTERNAL: one more page, whose frame is taken first. -/
theorem TakesFrames.cons {pages : List PageRecord} {r : PageRecord}
    (h : TakesFrames place' pages s'' s') (hplaced : TablesPlaced p place s)
    (hfree : s.free = r.base :: s₁.free) (hkept : TablesKept p tops touched place place' s₁ s')
    (hsuffix : s''.free <:+ s₁.free) (hsize : r.size = 0x1000) :
    TakesFrames place' (r :: pages) s s' := by
  have hfirst : r.base ∉ s₁.free := by
    have hnodup := hplaced.nodup
    rw [hfree, List.nodup_cons] at hnodup
    exact hnodup.1
  refine ⟨List.forall_mem_cons.mpr ⟨hsize, h.size⟩, ?_, ?_, ?_⟩
  · rw [hfree, List.forall_mem_cons]
    refine ⟨⟨List.mem_cons_self, fun hin => hfirst (hkept.suffix.subset hin)⟩, ?_⟩
    intro r' hr'
    obtain ⟨hin, hout⟩ := h.taken r' hr'
    exact ⟨List.mem_cons_of_mem _ (hsuffix.subset hin), hout⟩
  · rw [List.forall_mem_cons]
    refine ⟨?_, h.unplaced⟩
    rcases hkept.new r.base with hsame | ⟨hin, -⟩
    · rw [hsame]
      exact hplaced.unused r.base (hfree ▸ List.mem_cons_self)
    · exact absurd hin hfirst
  · refine List.pairwise_cons.mpr ⟨?_, h.apart⟩
    intro r' hr' heq
    exact hfirst (heq ▸ hsuffix.subset (h.taken r' hr').1)

/-- **`map_range`.** -/
theorem mapRange_kept {flags : Word} {pa : ℤ} {cnt : ℕ} (h : TablesPlaced p place s)
    (htops : ∀ t ∈ tops, place t = some []) (hroot : root ∈ tops)
    (hrun : mapRange p root flags pa cnt v s = some s') :
    ∃ place', TablesKept p tops
      (fun i => ∃ k < cnt, topIndex p (v + BitVec.ofNat 64 k * rangeStep flags) = i)
      place place' s s' ∧ TakesFrames place' (rangePages p root flags pa cnt v s) s s' := by
  induction cnt generalizing v place s with
  | zero =>
    obtain rfl := Option.some.inj hrun
    exact ⟨place, tablesKept_refl h htops, takesFrames_nil⟩
  | succ cnt ih =>
    rw [mapRange] at hrun
    rw [rangePages]
    cases halloc : s.alloc with
    | none =>
      rw [halloc] at hrun
      cases hrun
    | some x =>
      obtain ⟨f, s₁⟩ := x
      simp only [halloc] at hrun ⊢
      cases hmap : mapPageRaw p s₁ root v f (0x3 ||| extraFlags p flags) flags pa with
      | none =>
        rw [hmap] at hrun
        cases hrun
      | some s₂ =>
        simp only [hmap] at hrun ⊢
        obtain ⟨h₁, hfree⟩ := alloc_kept h htops halloc
        obtain ⟨place₂, h₂⟩ := mapPageRaw_kept h₁.placed htops (extraFlags_low p flags) hroot hmap
        obtain ⟨place', h', htakes⟩ := ih h₂.placed h₂.top hrun
        refine ⟨place', ((h₁.trans h₂).trans h').mono ?_, ?_⟩
        · rintro i ((hfalse | rfl) | ⟨k, hk, rfl⟩)
          · exact hfalse.elim
          · exact ⟨0, by omega, by simp⟩
          · exact ⟨k + 1, by omega, by rw [add_ofNat_succ_mul]⟩
        · exact htakes.cons h hfree (h₂.trans h') h₂.suffix rfl

/-! ## The other members -/

/-- INTERNAL: the heights of tables from their places. -/
theorem layered_of_placed (h : TablesPlaced p place s) :
    Layered (fun f => (place f).elim 0 fun l => p.levels - l.length) s := by
  refine ⟨?_, ?_, h.aligned, h.nodup⟩
  · intro t n i c ht hc
    cases hplace : place t with
    | none =>
      rw [hplace] at ht
      cases ht
    | some l =>
      rw [hplace] at ht
      have hheight : p.levels - l.length = n + 1 := ht
      have hchild := h.placed.below t l i n c hplace (by omega) hc
      rw [hchild, Option.elim_some, List.length_append, List.length_singleton]
      omega
  · intro f hf
    rw [h.unused f hf, Option.elim_none]

/-- **`unmap`** leaves the tables at their places. -/
theorem unmap_placed {w : Word} (h : TablesPlaced p place s) (hroot : place root = some [])
    (hrun : unmap s (lookup p s root v) = some (s', w)) : TablesPlaced p place s' ∧ s'.free = s.free := by
  have hheight : (place root).elim 0 (fun l => p.levels - l.length) = p.levels := by
    rw [hroot]
    rfl
  obtain ⟨n, t, i, ht, hn, hh, rfl⟩ := unmap_cases (layered_of_placed h) hheight hrun
  refine ⟨?_, rfl⟩
  apply tablesPlaced_of_entries h List.suffix_rfl
  intro g l j m hg hlen
  by_cases heq : g = t ∧ j = i
  · obtain ⟨rfl, rfl⟩ := heq
    right
    rw [hg] at ht
    obtain rfl : n = m := by
      simp only [Option.elim_some] at ht
      omega
    rw [Function.update_self, Function.update_self]
    exact tableBelow_unmapped hn hh
  · left
    exact setEntry_of_ne s.mem _ heq

theorem unmapPage_placed {g : Word} (h : TablesPlaced p place s) (hroot : place root = some [])
    (hrun : unmapPage p s root v g = some s') : TablesPlaced p place s' := by
  rw [unmapPage] at hrun
  split at hrun
  · obtain rfl := Option.some.inj hrun
    exact h
  · rw [Option.map_eq_some_iff] at hrun
    obtain ⟨⟨s₁, w⟩, hunmap, rfl⟩ := hrun
    exact (unmap_placed h hroot hunmap).1

theorem unmapRange_placed {l : List Word} (h : TablesPlaced p place s) (hroot : place root = some [])
    (hrun : unmapRange p root l v s = some s') : TablesPlaced p place s' := by
  induction l generalizing v s with
  | nil =>
    obtain rfl := Option.some.inj hrun
    exact h
  | cons g l ih =>
    rw [unmapRange] at hrun
    split at hrun
    · obtain rfl := Option.some.inj hrun
      exact h
    · cases hunmap : unmap s (lookup p s root v) with
      | none =>
        rw [hunmap] at hrun
        cases hrun
      | some r =>
        obtain ⟨s₁, w⟩ := r
        simp only [hunmap] at hrun
        exact ih (unmap_placed h hroot hunmap).1 hrun

/-- INTERNAL: a call of `map_page` for a 4 KiB page. -/
theorem mapPage_small {flags block : Word} {pa : ℤ} (hps : ¬ (flags &&& 0x80#64 ≠ 0))
    (hrun : Model.mapPage p s root v flags block pa = some s') :
    ∃ f s₁, s.calloc = some (f, s₁) ∧ mapPageRaw p s₁ root v f 0x3 flags pa = some s' := by
  rw [Model.mapPage, if_neg hps] at hrun
  cases hcalloc : s.calloc with
  | none =>
    rw [hcalloc] at hrun
    cases hrun
  | some x =>
    simp only [hcalloc] at hrun
    exact ⟨x.1, x.2, rfl, hrun⟩

/-- **`map_page`** leaves the tables at their places. -/
theorem mapPage_placed {flags block : Word} {pa : ℤ} (h : TablesPlaced p place s)
    (htops : ∀ t ∈ tops, place t = some []) (hroot : root ∈ tops)
    (hrun : Model.mapPage p s root v flags block pa = some s') :
    ∃ place', TablesPlaced p place' s' ∧ ∀ t ∈ tops, place' t = some [] := by
  have hlow : (0x3 : Word) &&& ~~~0x7f#64 = 0 := rfl
  by_cases hps : flags &&& 0x80#64 ≠ 0
  · rw [Model.mapPage, if_pos hps] at hrun
    have hclear : TablesPlaced p place (s.clearBlock block) :=
      tablesPlaced_of_entries h List.suffix_rfl fun t _ i n _ _ => clearBlock_entries block t i n
    obtain ⟨place', h'⟩ := mapPageRaw_kept hclear htops hlow hroot hrun
    exact ⟨place', h'.placed, h'.top⟩
  · obtain ⟨f, s₁, hcalloc, hmap⟩ := mapPage_small hps hrun
    obtain ⟨h₁, -⟩ := calloc_kept h htops hcalloc
    obtain ⟨place', h'⟩ := mapPageRaw_kept h₁.placed htops hlow hroot hmap
    exact ⟨place', h'.placed, h'.top⟩

/-- **`create_generic`** makes a table that shares those below two entries of `kernel_mapping`. -/
theorem createGeneric_placed {kernel : Word} (h : TablesPlaced p place s)
    (hkernel : place kernel = some []) (hrun : createGeneric s kernel = some (s', f)) :
    place f = none ∧ TablesPlaced p (Function.update place f (some [])) s' := by
  have hlevels := levels_ge p
  have hunfree : kernel ∉ s.free := by
    intro hin
    cases (h.unused kernel hin).symm.trans hkernel
  obtain ⟨hfree, hrow, hnew⟩ := createGeneric_eq hunfree hrun
  have hf : place f = none := h.unused f (hfree ▸ List.mem_cons_self)
  have hnodup := h.nodup
  rw [hfree, List.nodup_cons] at hnodup
  have hold : ∀ {g l}, place g = some l → Function.update place f (some []) g = some l := by
    intro g l hg
    rw [Function.update_of_ne (by rintro rfl; cases hf.symm.trans hg), hg]
  -- an entry of the new table is one of `kernel_mapping`, or missing
  have hentry : ∀ i, s'.mem f i = s.mem kernel i ∨ s'.mem f i = 0 := by
    intro i
    rw [hnew]
    by_cases h511 : i = 511
    · rw [if_pos h511, h511]
      exact Or.inl rfl
    · rw [if_neg h511]
      by_cases h256 : i = 256
      · rw [if_pos h256, h256]
        exact Or.inl rfl
      · rw [if_neg h256]
        exact Or.inr rfl
  have hcases : ∀ g l, Function.update place f (some []) g = some l →
      g = f ∧ l = [] ∨ place g = some l ∧ s'.mem g = s.mem g := by
    intro g l hg
    by_cases hgf : g = f
    · subst hgf
      rw [Function.update_self] at hg
      exact Or.inl ⟨rfl, (Option.some.inj hg).symm⟩
    · rw [Function.update_of_ne hgf] at hg
      exact Or.inr ⟨hg, hrow g hgf⟩
  refine ⟨hf, ⟨?_, ?_⟩, ?_, ?_, ?_, hnodup.2⟩
  · intro g l hg
    rcases hcases g l hg with ⟨-, rfl⟩ | ⟨hg', -⟩
    · rw [List.length_nil]
      omega
    · exact h.placed.depth g l hg'
  · intro g l i n c hg hlen hc
    rcases hcases g l hg with ⟨rfl, rfl⟩ | ⟨hg', hmem⟩
    · rcases hentry i with hkern | hzero
      · rw [hkern] at hc
        exact hold (h.placed.below kernel [] i n c hkernel hlen hc)
      · rw [hzero, tableBelow_zero] at hc
        cases hc
    · rw [hmem] at hc
      exact hold (h.placed.below g l i n c hg' hlen hc)
  · intro g l i n hg hlen hsome
    rcases hcases g l hg with ⟨rfl, rfl⟩ | ⟨hg', hmem⟩
    · rcases hentry i with hkern | hzero
      · rw [hkern] at hsome ⊢
        exact h.clean kernel [] i n hkernel hlen hsome
      · rw [hzero, tableBelow_zero] at hsome
        cases hsome
    · rw [hmem] at hsome ⊢
      exact h.clean g l i n hg' hlen hsome
  · intro g hg
    have hgf : g ≠ f := by
      rintro rfl
      exact hnodup.1 hg
    rw [Function.update_of_ne hgf]
    exact h.unused g (hfree ▸ List.mem_cons_of_mem f hg)
  · intro g hg
    exact h.aligned g (hfree ▸ List.mem_cons_of_mem f hg)

end TablesKept

/-! ## The system -/

/-- The tables of a system share tables at the same place. -/
def SystemPlaced (p : Paging) (st : TableSystem) : Prop :=
  ∃ place, TablesPlaced p place st.vm ∧ ∀ t ∈ st.kernel :: st.tables, place t = some []

section System

variable {p : Paging} {place : Word → Option (List Index)} {st st' : TableSystem} {s s' vm₀ : Vm}
  {root vma phys f : Word}

/-- INTERNAL: one empty table. -/
theorem tablesPlaced_empty (hempty : ∀ i, s.mem root i = 0) (hroot : root ∉ s.free)
    (haligned : ∀ f ∈ s.free, PageAligned 0 f) (hnodup : s.free.Nodup) :
    TablesPlaced p (fun f => if f = root then some [] else none) s := by
  have hlevels := levels_ge p
  have hplace : ∀ {f l}, (if f = root then some [] else none) = some l →
      f = root ∧ l = ([] : List Index) := by
    intro f l hf
    by_cases hfr : f = root
    · rw [if_pos hfr] at hf
      exact ⟨hfr, (Option.some.inj hf).symm⟩
    · rw [if_neg hfr] at hf
      cases hf
  refine ⟨⟨?_, ?_⟩, ?_, ?_, haligned, hnodup⟩
  · intro f l hf
    rw [(hplace hf).2, List.length_nil]
    omega
  · intro f l i n c hf _ hc
    rw [(hplace hf).1, hempty, tableBelow_zero] at hc
    cases hc
  · intro f l i n hf _ hsome
    rw [(hplace hf).1, hempty, tableBelow_zero] at hsome
    cases hsome
  · intro f hf
    apply if_neg
    rintro rfl
    exact hroot hf

/-- **Calls leave the tables at their places.** -/
theorem SystemPlaced.step {call : TableCall} (h : SystemPlaced p st) (hallowed : call.Allowed p st)
    (hexec : st.exec p call = some st') : SystemPlaced p st' := by
  obtain ⟨place, hplaced, htops⟩ := h
  cases call with
  | create =>
    simp only [TableSystem.exec, Option.map_eq_some_iff] at hexec
    obtain ⟨⟨vm', f⟩, hrun, rfl⟩ := hexec
    obtain ⟨hf, h'⟩ := createGeneric_placed hplaced (htops _ List.mem_cons_self) hrun
    refine ⟨_, h', ?_⟩
    intro t ht
    by_cases htf : t = f
    · rw [htf, Function.update_self]
    · rw [Function.update_of_ne htf]
      apply htops
      rcases List.mem_cons.mp ht with rfl | ht
      · exact List.mem_cons_self
      · exact List.mem_cons_of_mem _ ((List.mem_cons.mp ht).resolve_left htf)
  | mapPage root vaddr flags block pa =>
    simp only [TableSystem.exec, Option.map_eq_some_iff] at hexec
    obtain ⟨vm', hrun, rfl⟩ := hexec
    exact mapPage_placed hplaced htops hallowed.1 hrun
  | mapPageRaw root vaddr paddr flags1 flags0 pa =>
    simp only [TableSystem.exec, Option.map_eq_some_iff] at hexec
    obtain ⟨vm', hrun, rfl⟩ := hexec
    obtain ⟨place', h'⟩ := mapPageRaw_kept hplaced htops hallowed.2 hallowed.1 hrun
    exact ⟨place', h'.placed, h'.top⟩
  | mapRange root vaddr flags cnt pa =>
    simp only [TableSystem.exec, Option.map_eq_some_iff] at hexec
    obtain ⟨vm', hrun, rfl⟩ := hexec
    obtain ⟨place', h', -⟩ := mapRange_kept hplaced htops hallowed hrun
    exact ⟨place', h'.placed, h'.top⟩
  | unmapPage root vaddr pageLength =>
    simp only [TableSystem.exec, Option.map_eq_some_iff] at hexec
    obtain ⟨vm', hrun, rfl⟩ := hexec
    exact ⟨place, unmapPage_placed hplaced (htops root hallowed) hrun, htops⟩
  | unmapRange root vaddr pageLengths =>
    simp only [TableSystem.exec, Option.map_eq_some_iff] at hexec
    obtain ⟨vm', hrun, rfl⟩ := hexec
    exact ⟨place, unmapRange_placed hplaced (htops root hallowed) hrun, htops⟩

/-- The loops of `vmm::init`; memory that is neither a table nor a free frame does not change. -/
theorem mapDirect_placed {n : ℕ} (h : TablesPlaced p place s) (hroot : place root = some [])
    (hrun : mapDirect p root vma n phys s = some s') :
    ∃ place', TablesPlaced p place' s' ∧ place' root = some [] ∧
      ∀ f, place f = none → f ∉ s.free → place' f = none ∧ f ∉ s'.free ∧ s'.mem f = s.mem f := by
  induction n generalizing place s phys with
  | zero =>
    obtain rfl := Option.some.inj hrun
    exact ⟨place, h, hroot, fun f hf hfree => ⟨hf, hfree, rfl⟩⟩
  | succ n ih =>
    rw [mapDirect] at hrun
    cases hmap : mapPageRaw p s root (phys + vma) phys 0x7 0x187 (-1) with
    | none =>
      rw [hmap] at hrun
      cases hrun
    | some s₁ =>
      simp only [hmap] at hrun
      obtain ⟨place₁, hgrown, h₁⟩ := mapPageRaw_placed h (by decide) hroot hmap
      obtain ⟨place', h', hroot', hout⟩ := ih h₁ (hgrown.old root [] hroot) hrun
      refine ⟨place', h', hroot', ?_⟩
      intro f hf hfree
      have hf₁ : place₁ f = none := by
        rcases hgrown.new f with hsame | ⟨hin, -⟩
        · rw [hsame, hf]
        · exact absurd hin hfree
      obtain ⟨hplace, hfree', hmem⟩ := hout f hf₁ fun hin => hfree (hgrown.suffix.subset hin)
      exact ⟨hplace, hfree', hmem.trans (hgrown.kept f hf hfree)⟩

/-- **After `vmm::init`** there is one top table; memory that was not free has not changed. -/
theorem vmmInit_placed {totalMem : ℕ} (hs : FreshFrames vm₀)
    (hrun : vmmInit p vm₀ totalMem = some (s', root)) :
    ∃ place, TablesPlaced p place s' ∧ place root = some [] ∧
      ∀ f, f ∉ vm₀.free → place f = none ∧ f ∉ s'.free ∧ s'.mem f = vm₀.mem f := by
  obtain ⟨s₁, s₂, hcalloc, hkernel, hdirect⟩ := vmmInit_eq_some hrun
  obtain ⟨fs, hfree, rfl⟩ := calloc_eq_some hcalloc
  have hnodup := hs.nodup
  rw [hfree, List.nodup_cons] at hnodup
  have h₁ : TablesPlaced p (fun f => if f = root then some [] else none)
      ⟨Function.update vm₀.mem root fun _ => 0, fs⟩ := by
    apply tablesPlaced_empty _ hnodup.1 _ hnodup.2
    · intro i
      simp only [Function.update_self]
    · intro f hf
      exact hs.aligned f (hfree ▸ List.mem_cons_of_mem root hf)
  obtain ⟨place₂, h₂, hroot₂, hout₂⟩ := mapDirect_placed h₁ (if_pos rfl) hkernel
  obtain ⟨place, h, hroot, hout⟩ := mapDirect_placed h₂ hroot₂ hdirect
  refine ⟨place, h, hroot, ?_⟩
  intro f hf
  rw [hfree, List.mem_cons, not_or] at hf
  obtain ⟨hplace₂, hfree₂, hmem₂⟩ := hout₂ f (if_neg hf.1) hf.2
  obtain ⟨hplace, hfree', hmem⟩ := hout f hplace₂ hfree₂
  refine ⟨hplace, hfree', ?_⟩
  rw [hmem, hmem₂]
  exact Function.update_of_ne hf.1 _ _

theorem systemPlaced_initial {totalMem : ℕ} (h : st.Initial p vm₀ totalMem) : SystemPlaced p st := by
  obtain ⟨hnodup, haligned, -, hinit, hnil⟩ := h
  obtain ⟨place, hplaced, hroot, -⟩ := vmmInit_placed ⟨hnodup, haligned⟩ hinit
  refine ⟨place, hplaced, ?_⟩
  intro t ht
  rw [hnil, List.mem_singleton] at ht
  rw [ht, hroot]

end System

end CrepOS.Analysis
