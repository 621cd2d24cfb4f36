import CrepOS.Analysis.TablesKept
import Mathlib.Data.List.Pairwise

/-!
# Mapped memory is exclusively owned

What a call makes reachable is the page of its entry, at the indices of its address
(`mapPageRaw_translate`), and for a page that meets the condition this is the range that was allocated
for it. Ranges are pairwise disjoint, so that a byte of two pages would be in two ranges
(`pages_exclusively_owned`).

`map_range` allocates one frame for a 2 MiB page, so that none of its 2 MiB pages that is present meets
the condition, and two of them share memory with each other and with the page tables
(`hugeRange_shared`).

The tables themselves are owned as well: below the entries that `create_generic` does not copy, no table is
reached from two top tables, so that calls on one of them are not seen in the others
(`address_spaces_isolated`).
-/

set_option autoImplicit false

namespace CrepOS.Analysis

open CrepOS.Library CrepOS.Model CrepOS.Interface

/-! ## Ranges -/

section Ranges

variable {p : Paging} {b b' f g w a : Word} {n n' : ℕ}

theorem rangesApart_comm (h : RangesApart b n b' n') : RangesApart b' n' b n :=
  fun a h' hb => h a hb h'

/-- INTERNAL: a frame is a multiple of its size. -/
theorem frame_toNat (hf : PageAligned 0 f) : f.toNat % 0x1000 = 0 ∧ f.toNat < 2 ^ 52 := by
  refine ⟨?_, hf.1⟩
  have hlow := congrArg BitVec.toNat hf.2
  rw [BitVec.toNat_and, show (pageMask 0).toNat = 2 ^ 12 - 1 from rfl,
    Nat.and_two_pow_sub_one_eq_mod] at hlow
  exact hlow

/-- Different frames have no byte in common. -/
theorem rangesApart_frames (hf : PageAligned 0 f) (hg : PageAligned 0 g) (hne : f ≠ g) :
    RangesApart f 0x1000 g 0x1000 := by
  intro a ha ha'
  obtain ⟨hf0, hf52⟩ := frame_toNat hf
  obtain ⟨hg0, hg52⟩ := frame_toNat hg
  apply hne
  apply BitVec.eq_of_toNat_eq
  rw [BitVec.toNat_sub] at ha ha'
  have hlt := a.isLt
  omega

/-- **The page of an entry that meets the condition** is in the range. -/
theorem PageAt.covers_holds {r : PageRecord} (h : PageAt p r.vaddr r.base r.flags w a) (hfits : r.Fits) :
    r.Covers p w ∧ r.Holds a := by
  refine ⟨h.route, ?_⟩
  obtain ⟨hbase, hsize⟩ := hfits h.present
  have haddr : a = r.base ||| (w &&& pageMask r.level) := h.address.trans (congrArg (· ||| _) hbase)
  have hlow : r.base &&& (w &&& pageMask r.level) = 0 := by
    rw [← hbase, pageBase]
    apply BitVec.eq_of_getLsbD_eq
    intro k hk
    simp only [BitVec.getLsbD_and, BitVec.getLsbD_not]
    cases (pageMask r.level).getLsbD k with
    | false => simp
    | true => simp
  have hsub : a - r.base = w &&& pageMask r.level := by
    rw [haddr, ← BitVec.add_eq_or_of_and_eq_zero _ _ hlow, BitVec.add_comm, BitVec.add_sub_cancel]
  have hmask : (w &&& pageMask r.level).toNat < 2 ^ (12 + 9 * r.level) := by
    apply Nat.lt_of_le_of_lt (m := (pageMask r.level).toNat)
    · rw [BitVec.toNat_and]
      exact Nat.and_le_right
    · rw [pageMask, BitVec.toNat_ofNat]
      have hpos : 0 < 2 ^ (12 + 9 * r.level) := Nat.two_pow_pos _
      exact Nat.lt_of_le_of_lt (Nat.mod_le _ _) (by omega)
  rw [PageRecord.Holds, hsub]
  omega

end Ranges

/-! ## One call -/

/-- What a call on one of `tables` leaves that maps `pages`. -/
structure MapsPages (p : Paging) (tables : List Word) (place place' : Word → Option (List Index))
    (pages : List PageRecord) (s s' : Vm) : Prop where
  kept : TablesKept p tables (fun _ => True) place place' s s'
  reach : ∀ t ∈ tables, ∀ v a, Interface.translate p s'.mem t v = some a →
    Interface.translate p s.mem t v = some a ∨ ∃ r ∈ pages, r.Covers p v ∧ r.Holds a

section Call

variable {p : Paging} {tables : List Word} {place place' place'' : Word → Option (List Index)}
  {pages pages' : List PageRecord} {s s' s'' : Vm} {root v flags : Word} {pa : ℤ}

theorem MapsPages.trans (h : MapsPages p tables place place' pages s s')
    (h' : MapsPages p tables place' place'' pages' s' s'') :
    MapsPages p tables place place'' (pages ++ pages') s s'' := by
  refine ⟨(h.kept.trans h'.kept).mono fun _ _ => trivial, ?_⟩
  intro t ht v a ha
  rcases h'.reach t ht v a ha with hbefore | ⟨r, hr, hcovers⟩
  · rcases h.reach t ht v a hbefore with hsame | ⟨r, hr, hcovers⟩
    · exact Or.inl hsame
    · exact Or.inr ⟨r, List.mem_append_left _ hr, hcovers⟩
  · exact Or.inr ⟨r, List.mem_append_right _ hr, hcovers⟩

/-- INTERNAL: a call that changes no walk maps no page. -/
theorem TablesKept.mapsPages (h : TablesKept p tables (fun _ => False) place place' s s') :
    MapsPages p tables place place' [] s s' := by
  refine ⟨h.mono fun _ hi => hi.elim, ?_⟩
  intro t ht v a ha
  left
  rw [← ha]
  exact (h.translate_eq ht id).symm

/-- **The page of one `map_page_raw`.** -/
theorem mapPageRaw_mapsPages {flags1 : Word} {r : PageRecord} (h : TablesPlaced p place s)
    (htops : ∀ t ∈ tables, place t = some []) (hlow : flags1 &&& ~~~0x7f#64 = 0) (hroot : root ∈ tables)
    (hfits : r.Fits) (hrun : mapPageRaw p s root r.vaddr r.base flags1 r.flags pa = some s') :
    ∃ place', MapsPages p tables place place' [r] s s' := by
  obtain ⟨place', hkept⟩ := mapPageRaw_kept h htops hlow hroot hrun
  refine ⟨place', hkept.mono fun _ _ => trivial, ?_⟩
  intro t ht v a ha
  rcases mapPageRaw_translate h hlow (htops root hroot) hrun (htops t ht) ha with hsame | hpage
  · exact Or.inl hsame
  · exact Or.inr ⟨r, List.mem_singleton_self r, hpage.covers_holds hfits⟩

/-- **`map_range`.** -/
theorem mapRange_mapsPages {cnt : ℕ} (h : TablesPlaced p place s)
    (htops : ∀ t ∈ tables, place t = some []) (hroot : root ∈ tables)
    (hfits : ∀ r ∈ rangePages p root flags pa cnt v s, r.Fits)
    (hrun : mapRange p root flags pa cnt v s = some s') :
    ∃ place', MapsPages p tables place place' (rangePages p root flags pa cnt v s) s s' := by
  induction cnt generalizing v place s with
  | zero =>
    obtain rfl := Option.some.inj hrun
    exact ⟨place, tablesKept_refl h htops, fun _ _ _ _ ha => Or.inl ha⟩
  | succ cnt ih =>
    rw [mapRange] at hrun
    rw [rangePages] at hfits ⊢
    cases halloc : s.alloc with
    | none =>
      rw [halloc] at hrun
      cases hrun
    | some x =>
      obtain ⟨f, s₁⟩ := x
      simp only [halloc] at hrun hfits ⊢
      cases hmap : mapPageRaw p s₁ root v f (0x3 ||| extraFlags p flags) flags pa with
      | none =>
        rw [hmap] at hrun
        cases hrun
      | some s₂ =>
        simp only [hmap, List.forall_mem_cons] at hrun hfits ⊢
        obtain ⟨h₁, -⟩ := alloc_kept h htops halloc
        obtain ⟨place₂, h₂⟩ := mapPageRaw_mapsPages (r := ⟨v, flags, f, 0x1000⟩) h₁.placed htops
          (extraFlags_low p flags) hroot hfits.1 hmap
        obtain ⟨place', h'⟩ := ih h₂.kept.placed h₂.kept.top hfits.2 hrun
        exact ⟨place', (h₁.mapsPages.trans h₂).trans h'⟩

end Call

/-! ## The run -/

/-- The invariant of the run. -/
structure OwnsPages (p : Paging) (tables : List Word) (s₀ : Vm) (st : MapState) : Prop where
  placed : ∃ place, TablesPlaced p place st.vm ∧ ∀ t ∈ tables, place t = some []
  apart : st.log.Pairwise fun r r' => RangesApart r.base r.size r'.base r'.size
  frames : ∀ f ∈ st.vm.free, ∀ r ∈ st.log, RangesApart f 0x1000 r.base r.size
  reach : ∀ t ∈ tables, ∀ v a, Interface.translate p st.vm.mem t v = some a →
    Interface.translate p s₀.mem t v = some a ∨ ∃ r ∈ st.log, r.Covers p v ∧ r.Holds a

section Runs

variable {p : Paging} {tables : List Word} {place : Word → Option (List Index)} {s₀ vm' : Vm}
  {st st' : MapState} {call : MapCall} {pages : List PageRecord}

/-- INTERNAL: the page of a call of `map_page` for a 4 KiB page. -/
theorem pages_small {root vaddr flags block f : Word} {pa : ℤ} {s s₁ : Vm}
    (hps : ¬ (flags &&& 0x80#64 ≠ 0)) (hcalloc : s.calloc = some (f, s₁)) :
    (MapCall.mapPage root vaddr flags block pa).pages p s = [⟨vaddr, flags, f, 0x1000⟩] := by
  obtain ⟨fs, hfree, -⟩ := calloc_eq_some hcalloc
  simp only [MapCall.pages, if_neg hps, Vm.alloc, hfree]

/-- INTERNAL: a block apart from the tables. -/
theorem not_in_range {block f : Word} (h : RangesApart block 0x200000 f 0x1000) :
    ¬ (f - block).toNat < 0x200000 := by
  intro hin
  apply h f hin
  rw [BitVec.sub_self]
  decide

/-- **A call maps its pages.** -/
theorem call_mapsPages (h : TablesPlaced p place st.vm) (htops : ∀ t ∈ tables, place t = some [])
    (hallowed : call.Allowed p tables st) (hfits : ∀ r ∈ call.pages p st.vm, r.Fits)
    (hexec : call.exec p st.vm = some vm') :
    ∃ place', MapsPages p tables place place' (call.pages p st.vm) st.vm vm' := by
  cases call with
  | mapPage root vaddr flags block pa =>
    obtain ⟨hroot, hblock⟩ := hallowed
    by_cases hps : flags &&& 0x80#64 ≠ 0
    · have hpages : (MapCall.mapPage root vaddr flags block pa).pages p st.vm =
          [⟨vaddr, flags, block, 0x200000⟩] := if_pos hps
      rw [hpages, List.forall_mem_singleton] at hfits
      rw [hpages]
      have hclear := clearBlock_kept h htops
        fun t ht f hf => not_in_range ((hblock hps).1 t ht f hf)
      simp only [MapCall.exec, Model.mapPage, if_pos hps] at hexec
      obtain ⟨place', hmap⟩ := mapPageRaw_mapsPages (r := ⟨vaddr, flags, block, 0x200000⟩) hclear.placed
        htops (by decide) hroot hfits hexec
      exact ⟨place', hclear.mapsPages.trans hmap⟩
    · obtain ⟨f, s₁, hcalloc, hrun⟩ := mapPage_small hps hexec
      rw [pages_small hps hcalloc, List.forall_mem_singleton] at hfits
      rw [pages_small hps hcalloc]
      obtain ⟨htake, -⟩ := calloc_kept h htops hcalloc
      obtain ⟨place', hmap⟩ := mapPageRaw_mapsPages (r := ⟨vaddr, flags, f, 0x1000⟩) htake.placed
        htops (by decide) hroot hfits hrun
      exact ⟨place', htake.mapsPages.trans hmap⟩
  | mapRange root vaddr flags cnt pa => exact mapRange_mapsPages h htops hallowed hfits hexec

/-- The ranges of a call are disjoint from each other, from those of the calls before, and from the
frames that are left. -/
structure NewRanges (pages log : List PageRecord) (free : List Word) : Prop where
  apart : pages.Pairwise fun r r' => RangesApart r.base r.size r'.base r'.size
  before : ∀ r ∈ log, ∀ r' ∈ pages, RangesApart r.base r.size r'.base r'.size
  after : ∀ f ∈ free, ∀ r ∈ pages, RangesApart f 0x1000 r.base r.size

theorem OwnsPages.newRanges_of_frames {place' : Word → Option (List Index)}
    (h : OwnsPages p tables s₀ st) (hsuffix : vm'.free <:+ st.vm.free)
    (htakes : TakesFrames place' pages st.vm vm') : NewRanges pages st.log vm'.free := by
  obtain ⟨place, hplaced, -⟩ := h.placed
  refine ⟨?_, ?_, ?_⟩
  · refine htakes.apart.imp_of_mem ?_
    intro r r' hr hr' hne
    rw [htakes.size r hr, htakes.size r' hr']
    exact rangesApart_frames (hplaced.aligned _ (htakes.taken r hr).1)
      (hplaced.aligned _ (htakes.taken r' hr').1) hne
  · intro r hr r' hr'
    rw [htakes.size r' hr']
    exact rangesApart_comm (h.frames r'.base (htakes.taken r' hr').1 r hr)
  · intro f hf r hr
    obtain ⟨hin, hout⟩ := htakes.taken r hr
    rw [htakes.size r hr]
    apply rangesApart_frames (hplaced.aligned f (hsuffix.subset hf)) (hplaced.aligned _ hin)
    rintro rfl
    exact hout hf

/-- **The ranges of a call.** -/
theorem OwnsPages.newRanges (h : OwnsPages p tables s₀ st) (hallowed : call.Allowed p tables st)
    (hexec : call.exec p st.vm = some vm') : NewRanges (call.pages p st.vm) st.log vm'.free := by
  obtain ⟨place, hplaced, htops⟩ := h.placed
  cases call with
  | mapPage root vaddr flags block pa =>
    obtain ⟨hroot, hblock⟩ := hallowed
    by_cases hps : flags &&& 0x80#64 ≠ 0
    · have hpages : (MapCall.mapPage root vaddr flags block pa).pages p st.vm =
          [⟨vaddr, flags, block, 0x200000⟩] := if_pos hps
      rw [hpages]
      obtain ⟨htables, hfree, hlog⟩ := hblock hps
      have hclear := clearBlock_kept hplaced htops
        fun t ht f hf => not_in_range (htables t ht f hf)
      simp only [MapCall.exec, Model.mapPage, if_pos hps] at hexec
      obtain ⟨_, hkept⟩ := mapPageRaw_kept hclear.placed htops (by decide) hroot hexec
      refine ⟨List.pairwise_singleton _ _, ?_, ?_⟩
      · intro r hr r' hr'
        rw [List.mem_singleton.mp hr']
        exact rangesApart_comm (hlog r hr)
      · intro f hf r hr
        rw [List.mem_singleton.mp hr]
        exact rangesApart_comm (hfree f (hkept.suffix.subset hf))
    · obtain ⟨f, s₁, hcalloc, hrun⟩ := mapPage_small hps hexec
      rw [pages_small hps hcalloc]
      obtain ⟨htake, hfree⟩ := calloc_kept hplaced htops hcalloc
      obtain ⟨place', hkept⟩ := mapPageRaw_kept htake.placed htops (by decide) hroot hrun
      apply h.newRanges_of_frames (htake.trans hkept).suffix
      exact (takesFrames_nil (s := vm')).cons hplaced hfree hkept hkept.suffix rfl
  | mapRange root vaddr flags cnt pa =>
    obtain ⟨place', hkept, htakes⟩ := mapRange_kept hplaced htops hallowed hexec
    exact h.newRanges_of_frames hkept.suffix htakes

/-- **One call keeps the invariant.** -/
theorem OwnsPages.step (h : OwnsPages p tables s₀ st) (hstep : mapStep p tables st call st') :
    OwnsPages p tables s₀ st' := by
  obtain ⟨hfits, hallowed, hexec, hlog⟩ := hstep
  obtain ⟨place, hplaced, htops⟩ := h.placed
  obtain ⟨place', hmaps⟩ := call_mapsPages hplaced htops hallowed hfits hexec
  have hranges := h.newRanges hallowed hexec
  refine ⟨⟨place', hmaps.kept.placed, hmaps.kept.top⟩, ?_, ?_, ?_⟩
  · rw [hlog]
    exact List.pairwise_append.mpr ⟨h.apart, hranges.apart, hranges.before⟩
  · intro f hf r hr
    rw [hlog, List.mem_append] at hr
    rcases hr with hr | hr
    · exact h.frames f (hmaps.kept.suffix.subset hf) r hr
    · exact hranges.after f hf r hr
  · intro t ht v a ha
    rw [hlog]
    rcases hmaps.reach t ht v a ha with hbefore | ⟨r, hr, hcovers⟩
    · rcases h.reach t ht v a hbefore with hstart | ⟨r, hr, hcovers⟩
      · exact Or.inl hstart
      · exact Or.inr ⟨r, List.mem_append_left _ hr, hcovers⟩
    · exact Or.inr ⟨r, List.mem_append_right _ hr, hcovers⟩

/-- INTERNAL: ranges of a list that share a byte are the same. -/
theorem eq_of_holds {log : List PageRecord} {r r' : PageRecord} {a : Word}
    (h : log.Pairwise fun r r' => RangesApart r.base r.size r'.base r'.size) (hr : r ∈ log)
    (hr' : r' ∈ log) (ha : r.Holds a) (ha' : r'.Holds a) : r = r' := by
  by_contra hne
  have hsymm : Std.Symm fun r r' : PageRecord => RangesApart r.base r.size r'.base r'.size :=
    ⟨fun _ _ hapart => rangesApart_comm hapart⟩
  exact h.forall hr hr' hne a ha ha'

/-- INTERNAL: at the start there are no pages. -/
theorem ownsPages_start (h : st.Start p tables) : OwnsPages p tables st.vm st := by
  obtain ⟨hlog, hplaced⟩ := h
  refine ⟨hplaced, ?_, ?_, fun _ _ _ _ ha => Or.inl ha⟩
  · rw [hlog]
    exact List.Pairwise.nil
  · intro f _ r hr
    rw [hlog] at hr
    cases hr

/-- The table in frame `0x1000` is empty. -/
def firstMap : MapState := ⟨⟨fun _ _ => 0, [0x2000, 0x3000, 0x4000, 0x5000, 0x6000, 0x7000]⟩, []⟩

theorem firstMap_start : firstMap.Start .pml4 [0x1000] := by
  have haligned : ∀ f ∈ firstMap.vm.free, PageAligned 0 f := by
    simp only [firstMap, List.forall_mem_cons]
    refine ⟨by decide, by decide, by decide, by decide, by decide, by decide, ?_⟩
    intro f hf
    cases hf
  have hplaced : TablesPlaced .pml4 (fun f => if f = 0x1000 then some [] else none) firstMap.vm :=
    tablesPlaced_empty (fun _ => rfl) (by decide) haligned (by decide)
  refine ⟨rfl, _, hplaced, ?_⟩
  intro t ht
  exact if_pos (List.mem_singleton.mp ht)

/-- INTERNAL: the state after a computed call. -/
theorem exists_mapAnyStep {A : Type} (tables : List Word) (st : MapState) (call : MapCall)
    (hallowed : call.Allowed p tables st) (f : Vm → A) {a : A}
    (h : (call.exec p st.vm).map f = some a) :
    ∃ st', mapAnyStep p tables st call st' ∧ f st'.vm = a ∧ st'.log = st.log ++ call.pages p st.vm := by
  obtain ⟨vm, hexec, hf⟩ := Option.map_eq_some_iff.mp h
  exact ⟨⟨vm, st.log ++ call.pages p st.vm⟩, ⟨hallowed, hexec, rfl⟩, hf, rfl⟩

/-- INTERNAL: the pages of a call of `map_range` for two 4 KiB pages. -/
theorem firstMap_pages : (MapCall.mapRange 0x1000 0x400000 0x7 2 (-1)).pages .pml4 firstMap.vm =
    [⟨0x400000, 0x7, 0x2000, 0x1000⟩, ⟨0x401000, 0x7, 0x6000, 0x1000⟩] := by
  decide

/-- INTERNAL: the pages of a call of `map_range` for two 2 MiB pages. -/
theorem firstMap_hugePages : (MapCall.mapRange 0x1000 0x400000 0x87 2 (-1)).pages .pml4 firstMap.vm =
    [⟨0x400000, 0x87, 0x2000, 0x1000⟩, ⟨0x600000, 0x87, 0x5000, 0x1000⟩] := by
  decide

end Runs

/-! ## Address spaces -/

/-- The tables below the own entries of a top table are in no other tree. -/
def SpacesApart (p : Paging) (tops : List Word) (mem : Word → Index → Word) : Prop :=
  TreesApart tableBelow mem (p.levels - 1) OwnIndex tops

section Spaces

variable {p : Paging} {tops : List Word} {place place' : Word → Option (List Index)} {s s₁ s' s'' : Vm}
  {root v f : Word}

theorem levels_succ (p : Paging) : p.levels - 1 + 1 = p.levels := by
  have hlevels := levels_ge p
  omega

/-- INTERNAL: the heights of the library. -/
theorem tablesPlaced_succ (h : TablesPlaced p place s) :
    Placed tableBelow (p.levels - 1 + 1) place s.mem := by
  rw [levels_succ]
  exact h.placed

/-- INTERNAL: places of the tables of one tree only. -/
theorem restrict_tree (h : TablesPlaced p place s) (hroot : place root = some []) :
    ∃ place', TablesPlaced p place' s ∧ place' root = some [] ∧
      ∀ f l, place' f = some l → InTables p s.mem root f ∧ place f = some l := by
  classical
  have hself : InTables p s.mem root root := by
    rw [InTables, ← levels_succ]
    exact inTree_root _ root
  have hsome : ∀ {f l}, (if InTables p s.mem root f then place f else none) = some l →
      InTables p s.mem root f ∧ place f = some l := by
    intro f l hf
    by_cases hin : InTables p s.mem root f
    · rw [if_pos hin] at hf
      exact ⟨hin, hf⟩
    · rw [if_neg hin] at hf
      cases hf
  refine ⟨fun f => if InTables p s.mem root f then place f else none, ⟨?_, ?_, ?_, h.aligned, h.nodup⟩, ?_, ?_⟩
  · refine @Placed.restrict _ _ _ _ _ _ _ h.placed tableBelow_level_zero (· = root) ?_ _ ?_ ?_
    · rintro t rfl
      exact hroot
    · rintro f ⟨t, rfl, hin⟩
      exact if_pos hin
    · intro f hout
      exact if_neg fun hin => hout ⟨root, rfl, hin⟩
  · intro t l i n ht
    exact h.clean t l i n (hsome ht).2
  · intro f hf
    by_cases hin : InTables p s.mem root f
    · rw [if_pos hin]
      exact h.unused f hf
    · exact if_neg hin
  · exact (if_pos hself).trans hroot
  · intro f l hf
    exact hsome hf

/-- What a call on the table in the frame `root` leaves of the address spaces: they stay apart, and in the
others addresses below own entries find the same. -/
structure SpacesKept (p : Paging) (tops : List Word) (root : Word) (s s' : Vm) : Prop where
  apart : SpacesApart p tops s'.mem
  walks : ∀ t ∈ tops, t ≠ root → ∀ v, OwnIndex (topIndex p v) → SameWalk p s.mem s'.mem t v

theorem SpacesKept.trans (h : SpacesKept p tops root s s') (h' : SpacesKept p tops root s' s'') :
    SpacesKept p tops root s s'' := by
  refine ⟨h'.apart, ?_⟩
  intro t ht hne v hv
  exact (h'.walks t ht hne v hv).trans (h.walks t ht hne v hv)

/-- INTERNAL: a call that changes tables of its own tree and frames that are in no tree. -/
theorem spacesKept_of_changes (h : TablesPlaced p place s) (htops : ∀ t ∈ tops, place t = some [])
    (hapart : SpacesApart p tops s.mem) (hroot : root ∈ tops) (hapart' : SpacesApart p tops s'.mem)
    (hmem : ∀ t ∈ tops, ∀ f, InTables p s.mem t f → ¬ InTables p s.mem root f → s'.mem f = s.mem f) :
    SpacesKept p tops root s s' := by
  refine ⟨hapart', ?_⟩
  intro t ht hne v hv
  have hidx : OwnIndex (walkIndex v (p.levels - 1)) := by
    rw [← tableIndex_eq_walkIndex]
    exact hv
  have hsame := hmem t ht
  unfold SameWalk InTables at *
  rw [← levels_succ p] at hsame ⊢
  refine hapart.trail_eq (tablesPlaced_succ h) htops ?_ ht hroot hne hidx hsame
  rw [levels_succ]
  exact walk_follows h

/-- INTERNAL: a call that changes entries to ones without a table. -/
theorem spacesKept_of_entries (h : TablesPlaced p place s) (htops : ∀ t ∈ tops, place t = some [])
    (hapart : SpacesApart p tops s.mem) (hroot : root ∈ tops)
    (hentries : ∀ t l i n, place t = some l → l.length + (n + 1) = p.levels →
      s'.mem t i = s.mem t i ∨ tableBelow n (s'.mem t i) = none)
    (hmem : ∀ t ∈ tops, ∀ f, InTables p s.mem t f → ¬ InTables p s.mem root f → s'.mem f = s.mem f) :
    SpacesKept p tops root s s' := by
  refine spacesKept_of_changes h htops hapart hroot ?_ hmem
  refine hapart.of_fewer (tablesPlaced_succ h) htops ?_
  intro t l i n c ht hl hc
  rw [levels_succ] at hl
  rcases hentries t l i n ht hl with hsame | hnone
  · rwa [hsame] at hc
  · cases hnone.symm.trans hc

/-- **`map_page_raw`.** -/
theorem mapPageRaw_spaces {paddr flags1 flags0 : Word} {pa : ℤ} (h : TablesPlaced p place s)
    (htops : ∀ t ∈ tops, place t = some []) (hapart : SpacesApart p tops s.mem) (hroot : root ∈ tops)
    (hlow : flags1 &&& ~~~0x7f#64 = 0) (hrun : mapPageRaw p s root v paddr flags1 flags0 pa = some s') :
    SpacesKept p tops root s s' := by
  obtain ⟨placeR, hR, hrootR, hin⟩ := restrict_tree h (htops root hroot)
  obtain ⟨_, hgrownR, -⟩ := mapPageRaw_placed hR hlow hrootR hrun
  obtain ⟨_, hgrown, -⟩ := mapPageRaw_placed h hlow (htops root hroot) hrun
  -- tables of other trees are not written
  have hother : ∀ f l, place f = some l → ¬ InTables p s.mem root f → s'.mem f = s.mem f := by
    intro f l hf hout
    apply hgrownR.kept
    · cases hplace : placeR f with
      | none => rfl
      | some l' => exact absurd (hin f l' hplace).1 hout
    · intro hfree
      cases hf.symm.trans (h.unused f hfree)
  have hapart' : SpacesApart p tops s'.mem := by
    have hother' := hother
    unfold InTables at hother'
    rw [← levels_succ p] at hgrown hother'
    exact hapart.grown hgrown (tablesPlaced_succ h) htops tableBelow_zero hroot hother'
  refine spacesKept_of_changes h htops hapart hroot hapart' ?_
  intro t ht f hf hout
  obtain ⟨l, hl⟩ := h.placed.of_inTree (htops t ht) (Nat.zero_add _) hf
  exact hother f l hl hout

/-- INTERNAL: a frame that is taken is in no tree. -/
theorem alloc_spaces (h : TablesPlaced p place s) (htops : ∀ t ∈ tops, place t = some [])
    (hapart : SpacesApart p tops s.mem) (hroot : root ∈ tops) (halloc : s.alloc = some (f, s₁)) :
    SpacesKept p tops root s s₁ := by
  have hmem : s₁.mem = s.mem := by
    cases hfree : s.free with
    | nil =>
      rw [Vm.alloc, hfree] at halloc
      cases halloc
    | cons g fs =>
      simp only [Vm.alloc, hfree, Option.some.injEq, Prod.mk.injEq] at halloc
      rw [← halloc.2]
  refine spacesKept_of_entries h htops hapart hroot ?_ ?_
  · intro t l i n _ _
    exact Or.inl (by rw [hmem])
  · intro t _ f _ _
    rw [hmem]

/-- **`map_range`.** -/
theorem mapRange_spaces {flags : Word} {pa : ℤ} {cnt : ℕ} (h : TablesPlaced p place s)
    (htops : ∀ t ∈ tops, place t = some []) (hapart : SpacesApart p tops s.mem) (hroot : root ∈ tops)
    (hrun : mapRange p root flags pa cnt v s = some s') : SpacesKept p tops root s s' := by
  induction cnt generalizing v place s with
  | zero =>
    obtain rfl := Option.some.inj hrun
    exact ⟨hapart, fun _ _ _ _ _ => rfl⟩
  | succ cnt ih =>
    rw [mapRange] at hrun
    cases halloc : s.alloc with
    | none =>
      rw [halloc] at hrun
      cases hrun
    | some x =>
      obtain ⟨g, s₁⟩ := x
      simp only [halloc] at hrun
      cases hmap : mapPageRaw p s₁ root v g (0x3 ||| extraFlags p flags) flags pa with
      | none =>
        rw [hmap] at hrun
        cases hrun
      | some s₂ =>
        simp only [hmap] at hrun
        have hlow := extraFlags_low p flags
        obtain ⟨h₁, -⟩ := alloc_kept h htops halloc
        obtain ⟨place₂, h₂⟩ := mapPageRaw_kept h₁.placed htops hlow hroot hmap
        have hfirst := alloc_spaces h htops hapart hroot halloc
        have hsecond := mapPageRaw_spaces h₁.placed htops hfirst.apart hroot hlow hmap
        exact (hfirst.trans hsecond).trans (ih h₂.placed h₂.top hsecond.apart hrun)

/-- **`map_page`**; the block of a 2 MiB page is in no tree. -/
theorem mapPage_spaces {flags block : Word} {pa : ℤ} (h : TablesPlaced p place s)
    (htops : ∀ t ∈ tops, place t = some []) (hapart : SpacesApart p tops s.mem) (hroot : root ∈ tops)
    (hblock : flags &&& 0x80#64 ≠ 0 → ∀ t ∈ tops, ∀ f, InTables p s.mem t f → ¬ (f - block).toNat < 0x200000)
    (hrun : Model.mapPage p s root v flags block pa = some s') : SpacesKept p tops root s s' := by
  have hlow : (0x3 : Word) &&& ~~~0x7f#64 = 0 := rfl
  by_cases hps : flags &&& 0x80#64 ≠ 0
  · rw [Model.mapPage, if_pos hps] at hrun
    have hclear : SpacesKept p tops root s (s.clearBlock block) := by
      refine spacesKept_of_entries h htops hapart hroot ?_ ?_
      · intro t l i n _ _
        exact clearBlock_entries block t i n
      · intro t ht f hf _
        funext i
        exact if_neg (hblock hps t ht f hf)
    have hplaced := (clearBlock_kept h htops (hblock hps)).placed
    exact hclear.trans (mapPageRaw_spaces hplaced htops hclear.apart hroot hlow hrun)
  · obtain ⟨g, s₁, hcalloc, hmap⟩ := mapPage_small hps hrun
    obtain ⟨hkept, -⟩ := calloc_kept h htops hcalloc
    have hmem : ∀ f l, place f = some l → s₁.mem f = s.mem f := by
      obtain ⟨fs, hfree, rfl⟩ := calloc_eq_some hcalloc
      intro f l hf
      apply Function.update_of_ne
      rintro rfl
      cases hf.symm.trans (h.unused f (hfree ▸ List.mem_cons_self))
    have hfirst : SpacesKept p tops root s s₁ := by
      refine spacesKept_of_entries h htops hapart hroot ?_ ?_
      · intro t l i n ht _
        exact Or.inl (by rw [hmem t l ht])
      · intro t ht f hf _
        obtain ⟨l, hl⟩ := h.placed.of_inTree (htops t ht) (Nat.zero_add _) hf
        exact hmem f l hl
    exact hfirst.trans (mapPageRaw_spaces hkept.placed htops hfirst.apart hroot hlow hmap)

/-- **`unmap`** writes an entry of a table of its own tree. -/
theorem unmap_spaces {w : Word} (h : TablesPlaced p place s) (htops : ∀ t ∈ tops, place t = some [])
    (hapart : SpacesApart p tops s.mem) (hroot : root ∈ tops)
    (hrun : unmap s (lookup p s root v) = some (s', w)) : SpacesKept p tops root s s' := by
  obtain ⟨placeR, hR, hrootR, hin⟩ := restrict_tree h (htops root hroot)
  have hheight : (placeR root).elim 0 (fun l => p.levels - l.length) = p.levels := by
    rw [hrootR]
    rfl
  obtain ⟨n, t, i, ht, hn, hh, rfl⟩ := unmap_cases (layered_of_placed hR) hheight hrun
  obtain ⟨l, hl⟩ : ∃ l, placeR t = some l := by
    cases hplace : placeR t with
    | none =>
      rw [hplace] at ht
      cases ht
    | some l => exact ⟨l, rfl⟩
  obtain ⟨htree, hplace⟩ := hin t l hl
  rw [hl, Option.elim_some] at ht
  refine spacesKept_of_entries h htops hapart hroot ?_ ?_
  · intro g l' j m hg hlen
    by_cases heq : g = t ∧ j = i
    · obtain ⟨rfl, rfl⟩ := heq
      obtain rfl : l = l' := Option.some.inj (hplace.symm.trans hg)
      obtain rfl : n = m := by omega
      right
      simp only [Vm.set, Function.update_self]
      exact tableBelow_unmapped hn hh
    · exact Or.inl (setEntry_of_ne s.mem _ heq)
  · intro t' _ g _ hout
    apply setEntry_node
    rintro rfl
    exact hout htree

theorem unmapPage_spaces {g : Word} (h : TablesPlaced p place s) (htops : ∀ t ∈ tops, place t = some [])
    (hapart : SpacesApart p tops s.mem) (hroot : root ∈ tops) (hrun : unmapPage p s root v g = some s') :
    SpacesKept p tops root s s' := by
  rw [unmapPage] at hrun
  split at hrun
  · obtain rfl := Option.some.inj hrun
    exact ⟨hapart, fun _ _ _ _ _ => rfl⟩
  · rw [Option.map_eq_some_iff] at hrun
    obtain ⟨⟨s₁, w⟩, hunmap, rfl⟩ := hrun
    exact unmap_spaces h htops hapart hroot hunmap

theorem unmapRange_spaces {l : List Word} (h : TablesPlaced p place s) (htops : ∀ t ∈ tops, place t = some [])
    (hapart : SpacesApart p tops s.mem) (hroot : root ∈ tops) (hrun : unmapRange p root l v s = some s') :
    SpacesKept p tops root s s' := by
  induction l generalizing v s with
  | nil =>
    obtain rfl := Option.some.inj hrun
    exact ⟨hapart, fun _ _ _ _ _ => rfl⟩
  | cons g l ih =>
    rw [unmapRange] at hrun
    split at hrun
    · obtain rfl := Option.some.inj hrun
      exact ⟨hapart, fun _ _ _ _ _ => rfl⟩
    · cases hunmap : unmap s (lookup p s root v) with
      | none =>
        rw [hunmap] at hrun
        cases hrun
      | some r =>
        obtain ⟨s₁, w⟩ := r
        simp only [hunmap] at hrun
        have hfirst := unmap_spaces h htops hapart hroot hunmap
        exact hfirst.trans (ih (unmap_placed h (htops root hroot) hunmap).1 hfirst.apart hrun)

/-- **`create_generic`** makes a table whose own entries are missing. -/
theorem createGeneric_spaces {kernel : Word} (h : TablesPlaced p place s) (htops : ∀ t ∈ tops, place t = some [])
    (hapart : SpacesApart p tops s.mem) (hkernel : kernel ∈ tops) (hrun : createGeneric s kernel = some (s', f)) :
    SpacesApart p (f :: tops) s'.mem ∧ (∀ t ∈ tops, ∀ v, SameWalk p s.mem s'.mem t v) ∧
      ∀ v, OwnIndex (topIndex p v) → Interface.translate p s'.mem f v = none := by
  have hunfree : kernel ∉ s.free := by
    intro hin
    cases (h.unused kernel hin).symm.trans (htops kernel hkernel)
  obtain ⟨hfree, hrow, hnew⟩ := createGeneric_eq hunfree hrun
  have hf : place f = none := h.unused f (hfree ▸ List.mem_cons_self)
  refine ⟨?_, ?_, ?_⟩
  · refine TreesApart.addTop hapart (tablesPlaced_succ h) htops hkernel hf hrow ?_
    intro i c hc
    rw [hnew] at hc
    by_cases h511 : i = 511
    · rw [if_pos h511] at hc
      exact ⟨fun hown => hown.2 h511, h511 ▸ hc⟩
    · rw [if_neg h511] at hc
      by_cases h256 : i = 256
      · rw [if_pos h256] at hc
        exact ⟨fun hown => hown.1 h256, h256 ▸ hc⟩
      · rw [if_neg h256, tableBelow_zero] at hc
        cases hc
  · intro t ht v
    refine trail_inTree h.placed (walk_follows h) (htops t ht) (Nat.zero_add _) fun g hg => ?_
    obtain ⟨l, hl⟩ := h.placed.of_inTree (htops t ht) (Nat.zero_add _) hg
    apply hrow
    rintro rfl
    cases hf.symm.trans hl
  · intro v hv
    have hzero : s'.mem f (walkIndex v (p.levels - 1)) = 0 := by
      have hentry := hnew (topIndex p v)
      rw [if_neg hv.2, if_neg hv.1] at hentry
      rw [← tableIndex_eq_walkIndex]
      exact hentry
    rw [translate_eq_bind, walk, ← levels_succ, descend, hzero]
    rfl

end Spaces

/-! ### The system -/

/-- The tables of a system share tables at the same place, and none below their own entries. -/
def SystemApart (p : Paging) (st : TableSystem) : Prop :=
  SystemPlaced p st ∧ SpacesApart p (st.kernel :: st.tables) st.vm.mem

/-- What calls leave that are not on the tables for which `other` holds: there, addresses below own entries find
the same, and nothing in tables that are new. -/
structure Isolated (p : Paging) (other : Word → Prop) (st st' : TableSystem) : Prop where
  apart : SystemApart p st'
  old : ∀ t ∈ st.kernel :: st.tables, t ∈ st'.kernel :: st'.tables
  walks : ∀ t ∈ st.kernel :: st.tables, other t → ∀ v, OwnIndex (topIndex p v) →
    SameWalk p st.vm.mem st'.vm.mem t v
  empty : ∀ t ∈ st'.kernel :: st'.tables, t ∉ st.kernel :: st.tables → other t → ∀ v, OwnIndex (topIndex p v) →
    Interface.translate p st'.vm.mem t v = none

section Isolation

variable {p : Paging} {vm₀ : Vm} {totalMem : ℕ} {st₀ st st' : TableSystem} {call : TableCall}

/-- INTERNAL: a call on one of the tables. -/
theorem SpacesKept.isolated {root : Word} {vm' : Vm} (h : SpacesKept p (st.kernel :: st.tables) root st.vm vm')
    (hplaced : SystemPlaced p { st with vm := vm' }) :
    Isolated p (fun t => some root ≠ some t) st { st with vm := vm' } := by
  refine ⟨⟨hplaced, h.apart⟩, fun t ht => ht, ?_, ?_⟩
  · intro t ht hne v hv
    refine h.walks t ht ?_ v hv
    rintro rfl
    exact hne rfl
  · intro t ht hout
    exact absurd ht hout

/-- **One call** is seen only in the address space that it is on. -/
theorem SystemApart.step (h : SystemApart p st) (hallowed : call.Allowed p st) (hexec : st.exec p call = some st') :
    Isolated p (fun t => call.on ≠ some t) st st' := by
  obtain ⟨hsystem, hapart⟩ := h
  have hplaced' := hsystem.step hallowed hexec
  obtain ⟨place, hplaced, htops⟩ := hsystem
  cases call with
  | create =>
    simp only [TableSystem.exec, Option.map_eq_some_iff] at hexec
    obtain ⟨⟨vm', f⟩, hrun, rfl⟩ := hexec
    obtain ⟨hapart', hwalks, hempty⟩ := createGeneric_spaces hplaced htops hapart List.mem_cons_self hrun
    have hswap : st.kernel :: f :: st.tables ⊆ f :: st.kernel :: st.tables := (List.Perm.swap f st.kernel _).subset
    refine ⟨⟨hplaced', hapart'.subset hswap⟩, ?_, ?_, ?_⟩
    · intro t ht
      exact (List.Perm.swap st.kernel f _).subset (List.mem_cons_of_mem f ht)
    · intro t ht _ v _
      exact hwalks t ht v
    · intro t ht hout _
      rcases List.mem_cons.mp (hswap ht) with rfl | ht
      · exact hempty
      · exact absurd ht hout
  | mapPage root vaddr flags block pa =>
    simp only [TableSystem.exec, Option.map_eq_some_iff] at hexec
    obtain ⟨vm', hrun, rfl⟩ := hexec
    have hblock : flags &&& 0x80#64 ≠ 0 → ∀ t ∈ st.kernel :: st.tables, ∀ f, InTables p st.vm.mem t f →
        ¬ (f - block).toNat < 0x200000 := fun hps t ht f hf => hallowed.2 hps f ⟨t, ht, hf⟩
    exact (mapPage_spaces hplaced htops hapart hallowed.1 hblock hrun).isolated hplaced'
  | mapPageRaw root vaddr paddr flags1 flags0 pa =>
    simp only [TableSystem.exec, Option.map_eq_some_iff] at hexec
    obtain ⟨vm', hrun, rfl⟩ := hexec
    exact (mapPageRaw_spaces hplaced htops hapart hallowed.1 hallowed.2 hrun).isolated hplaced'
  | mapRange root vaddr flags cnt pa =>
    simp only [TableSystem.exec, Option.map_eq_some_iff] at hexec
    obtain ⟨vm', hrun, rfl⟩ := hexec
    exact (mapRange_spaces hplaced htops hapart hallowed hrun).isolated hplaced'
  | unmapPage root vaddr pageLength =>
    simp only [TableSystem.exec, Option.map_eq_some_iff] at hexec
    obtain ⟨vm', hrun, rfl⟩ := hexec
    exact (unmapPage_spaces hplaced htops hapart hallowed hrun).isolated hplaced'
  | unmapRange root vaddr pageLengths =>
    simp only [TableSystem.exec, Option.map_eq_some_iff] at hexec
    obtain ⟨vm', hrun, rfl⟩ := hexec
    exact (unmapRange_spaces hplaced htops hapart hallowed hrun).isolated hplaced'

/-- INTERNAL: the translation is that of the walk. -/
theorem translate_eq_of_sameWalk {mem mem' : Word → Index → Word} {t v : Word} (h : SameWalk p mem mem' t v) :
    Interface.translate p mem' t v = Interface.translate p mem t v := by
  rw [translate_eq_bind, translate_eq_bind, walk, walk, descend_of_trail h]

/-- **The calls of a run**; the induction is on the run. -/
theorem isolated_run {calls : List TableCall} (h : SystemApart p st) (hrun : Run (tableAnyStep p) st calls st') :
    Isolated p (fun t => ∀ call ∈ calls, call.on ≠ some t) st st' := by
  induction hrun with
  | nil => exact ⟨h, fun t ht => ht, fun t ht _ v _ => rfl, fun t ht hout => absurd ht hout⟩
  | @snoc st₁ st₂ calls call hrun hstep ih =>
    have hlast := ih.apart.step hstep.1 hstep.2
    have hinit : ∀ {t}, (∀ c ∈ calls ++ [call], c.on ≠ some t) → ∀ c ∈ calls, c.on ≠ some t :=
      fun hother c hc => hother c (List.mem_append_left _ hc)
    have hend : ∀ {t}, (∀ c ∈ calls ++ [call], c.on ≠ some t) → call.on ≠ some t :=
      fun hother => hother call (List.mem_append_right _ List.mem_cons_self)
    refine ⟨hlast.apart, fun t ht => hlast.old t (ih.old t ht), ?_, ?_⟩
    · intro t ht hother v hv
      exact (hlast.walks t (ih.old t ht) (hend hother) v hv).trans (ih.walks t ht (hinit hother) v hv)
    · intro t ht hout hother v hv
      by_cases hmiddle : t ∈ st₁.kernel :: st₁.tables
      · rw [translate_eq_of_sameWalk (hlast.walks t hmiddle (hend hother) v hv)]
        exact ih.empty t hmiddle hout (hinit hother) v hv
      · exact hlast.empty t ht hmiddle (hend hother) v hv

/-- INTERNAL: after `vmm::init` there is one table. -/
theorem systemApart_initial (h : st.Initial p vm₀ totalMem) : SystemApart p st := by
  refine ⟨systemPlaced_initial h, ?_⟩
  obtain ⟨-, -, -, -, hnil⟩ := h
  intro a ha b hb hab
  rw [hnil, List.mem_singleton] at ha hb
  exact absurd (ha.trans hb.symm) hab

end Isolation

end CrepOS.Analysis
