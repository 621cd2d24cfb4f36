import CrepOS.Interface.PageRun
import CrepOS.Analysis.TableLayers

/-!
# Mapping follows the route of an address

`map` goes down from the top table along the indices of one address: it enters the tables that are
there, adds tables for missing entries, and in the end writes the entry of the page or sets the memory
type of one that is there. In the terms of the library this is `Grows`, and `mapPageRaw_grows` says so
of `map_page_raw`, for any flags of the page. `TablesPlaced` is the invariant of page tables that share
tables at the same place. From it follows what a call does to the translations in all of them
(`mapPageRaw_translate`).
-/

set_option autoImplicit false

namespace CrepOS.Analysis

open CrepOS.Library CrepOS.Model CrepOS.Interface

/-- How `map` changes an entry of level `n` that points to no table: a missing one becomes the entry of
the page, another one gets a memory type. -/
def LeafChange (paddr flags0 : Word) (pa : ℤ) (n : ℕ) (old e : Word) : Prop :=
  old = 0 ∧ n = leafLevel flags0 ∧ flags0 ≠ 0 ∧ e = pageEntry paddr flags0 pa ∨
    old ≠ 0 ∧ n ≤ 2 ∧ (n = 0 ∨ isHuge old = true) ∧
      e = setPa (if n = 0 then patSmall else patHuge) pa old

/-- A new entry that points to a table. -/
def NewPointer (flags1 : Word) (n : ℕ) (e : Word) : Prop :=
  n ≠ 0 ∧ ∃ f, PageAligned 0 f ∧ e = f ||| flags1

/-- `m` follows the route of `v` from any table of height `n` on. -/
def StretchGrows (v : Word) (leaf : ℕ → Word → Word → Prop) (flags1 : Word) (n : ℕ)
    (m : Vm → Word → Option Vm) : Prop :=
  ∀ s t s', (∀ f ∈ s.free, PageAligned 0 f) → m s t = some s' →
    Grows tableBelow 0 (walkIndex v) leaf (NewPointer flags1) n t s.mem s.free s'.mem s'.free

section Through

variable {v flags flags1 : Word} {leaf : ℕ → Word → Word → Prop} {n : ℕ} {pa : ℤ}

/-- INTERNAL: a missing entry gets a new table, which the rest of the call enters. -/
theorem grows_calloc {s s₁ s' : Vm} {t f e : Word} (haligned : ∀ f ∈ s.free, PageAligned 0 f)
    (hzero : s.mem t (walkIndex v n) = 0) (hcalloc : s.calloc = some (f, s₁))
    (he : PageAligned 0 f → tableBelow n e = some f ∧ NewPointer flags1 n e)
    (hk : (∀ g ∈ (s₁.set t (walkIndex v n) e).free, PageAligned 0 g) →
      Grows tableBelow 0 (walkIndex v) leaf (NewPointer flags1) n f
        (s₁.set t (walkIndex v n) e).mem (s₁.set t (walkIndex v n) e).free s'.mem s'.free) :
    Grows tableBelow 0 (walkIndex v) leaf (NewPointer flags1) (n + 1) t s.mem s.free s'.mem s'.free := by
  obtain ⟨fs, hfree, rfl⟩ := calloc_eq_some hcalloc
  have hf : PageAligned 0 f := haligned f (hfree ▸ List.mem_cons_self)
  have hgrows := hk fun g hg => haligned g (hfree ▸ List.mem_cons_of_mem f hg)
  rw [hfree]
  exact Grows.grow hzero (he hf).1 (he hf).2 hgrows

/-- INTERNAL: the entry that a new table gets. -/
theorem newTable_entry {f : Word} (hf : PageAligned 0 f) (hflags : flags1 &&& ~~~0x7f#64 = 0)
    (hne : flags1 ≠ 0) (hn : n ≠ 0) :
    tableBelow n (f ||| flags1) = some f ∧ NewPointer flags1 n (f ||| flags1) := by
  obtain ⟨m, rfl⟩ := Nat.exists_eq_succ_of_ne_zero hn
  exact ⟨tableBelow_or hf hflags hne, hn, f, hf, rfl⟩

/-- **One level of a directory.** -/
theorem throughDirectory_grows {m : Vm → Word → Option Vm} (hn : 3 ≤ n)
    (hflags : flags1 &&& ~~~0x7f#64 = 0) (hm : StretchGrows v leaf flags1 n m) :
    StretchGrows v leaf flags1 (n + 1) fun s t =>
      throughDirectory s t (tableIndex n v) flags1 fun s => m s (frameOf (s.mem t (tableIndex n v))) := by
  intro s t s' haligned hrun
  simp only [throughDirectory, tableIndex_eq_walkIndex] at hrun
  by_cases hzero : s.mem t (walkIndex v n) = 0
  · rw [if_pos hzero] at hrun
    by_cases hfl : flags1 = 0
    · rw [if_pos hfl] at hrun
      obtain rfl := Option.some.inj hrun
      exact Grows.stop
    · rw [if_neg hfl] at hrun
      cases hcalloc : s.calloc with
      | none =>
        rw [hcalloc] at hrun
        cases hrun
      | some r =>
        simp only [hcalloc] at hrun
        apply grows_calloc haligned hzero hcalloc
          fun hf => newTable_entry hf hflags hfl (by omega)
        intro haligned'
        have hf : PageAligned 0 r.1 := by
          obtain ⟨fs, hfree, -⟩ := calloc_eq_some hcalloc
          exact haligned r.1 (hfree ▸ List.mem_cons_self)
        have hentry : (r.2.set t (walkIndex v n) (r.1 ||| flags1)).mem t (walkIndex v n) =
            r.1 ||| flags1 := by
          simp [Vm.set]
        rw [hentry, frameOf_or hf hflags] at hrun
        exact hm _ _ s' haligned' hrun
  · rw [if_neg hzero] at hrun
    exact Grows.enter (tableBelow_directory hn hzero) (hm s _ s' haligned hrun)

/-- INTERNAL: a memory type keeps bit 7 of the entry of a larger page. -/
theorem isHuge_setPa {e : Word} : isHuge (setPa patHuge pa e) = isHuge e := by
  rw [isHuge_eq, isHuge_eq]
  exact getLsbD_setPa (q := 12) e pa (by omega) (by omega) (by omega) (by omega)

/-- INTERNAL: the rest of the call at an entry of a larger page. -/
theorem applyPa_grows {s : Vm} {t pat : Word} (hold : tableBelow n (s.mem t (walkIndex v n)) = none)
    (hnew : tableBelow n (setPa pat pa (s.mem t (walkIndex v n))) = none)
    (hleaf : leaf n (s.mem t (walkIndex v n)) (setPa pat pa (s.mem t (walkIndex v n)))) :
    Grows tableBelow 0 (walkIndex v) leaf (NewPointer flags1) (n + 1) t s.mem s.free
      (s.applyPa t (walkIndex v n) pat pa).mem (s.applyPa t (walkIndex v n) pat pa).free := by
  unfold Vm.applyPa
  split
  · exact Grows.stop
  · exact Grows.leaf hold hnew hleaf

/-- **One level of a table that may hold pages.** -/
theorem throughTable_grows {m : Vm → Word → Option Vm} {join : Word → Word → Word} {paddr : Word}
    (hn : n = 1 ∨ n = 2)
    (hflags : flags &&& 0x80#64 ≠ 0 ∧ leaf n 0 (leafEntry patHuge paddr flags pa) ∨
      flags = flags1 ∧ flags1 &&& ~~~0x7f#64 = 0)
    (hjoin : flags1 &&& ~~~0x7f#64 = 0 → ∀ f, PageAligned 0 f → join f flags1 = f ||| flags1)
    (hpa : ∀ e, e ≠ 0 → isHuge e = true → leaf n e (setPa patHuge pa e))
    (hm : StretchGrows v leaf flags1 n m) :
    StretchGrows v leaf flags1 (n + 1) fun s t =>
      throughTable join s t (tableIndex n v) flags paddr fun s =>
        if isHuge (s.mem t (tableIndex n v)) then some (s.applyPa t (tableIndex n v) patHuge pa)
        else m s (frameOf (s.mem t (tableIndex n v))) := by
  intro s t s' haligned hrun
  have hnone : ∀ {e : Word}, isHuge e = true → tableBelow n e = none := by
    intro e hh
    rw [isHuge_eq] at hh
    exact tableBelow_huge_none (by omega) hh
  simp only [throughTable, tableIndex_eq_walkIndex] at hrun
  by_cases hzero : s.mem t (walkIndex v n) = 0
  · rw [if_pos hzero] at hrun
    by_cases hfl : flags = 0
    · rw [if_pos hfl] at hrun
      obtain rfl := Option.some.inj hrun
      exact Grows.stop
    rw [if_neg hfl] at hrun
    by_cases hps : flags &&& 0x80#64 ≠ 0
    · -- the new entry is a page
      rw [if_pos hps] at hrun
      obtain ⟨-, hleaf⟩ | ⟨rfl, hlow⟩ := hflags
      · have hh : isHuge (paddr ||| flags) = true := by
          rw [isHuge_eq, BitVec.getLsbD_or, ← isHuge_eq flags, isHuge, bne_iff_ne.mpr hps,
            Bool.or_true]
        have hentry : (s.set t (walkIndex v n) (paddr ||| flags)).mem t (walkIndex v n) =
            paddr ||| flags := by
          simp [Vm.set]
        rw [hentry, if_pos hh, Vm.set_applyPa] at hrun
        obtain rfl := Option.some.inj hrun
        apply Grows.leaf
        · rw [hzero]
          exact tableBelow_zero n
        · apply hnone
          unfold leafEntry
          split
          · exact hh
          · rw [isHuge_setPa, hh]
        · rw [hzero]
          exact hleaf
      · have hbit := getLsbD_of_lowFlags hlow (k := 7) (by omega)
        rw [← isHuge_eq, isHuge, bne_eq_false_iff_eq] at hbit
        exact absurd hbit hps
    · obtain ⟨rfl, hlow⟩ := hflags.resolve_left fun h => hps h.1
      rw [if_neg hps] at hrun
      cases hcalloc : s.calloc with
      | none =>
        rw [hcalloc] at hrun
        cases hrun
      | some r =>
        simp only [hcalloc] at hrun
        have hf : PageAligned 0 r.1 := by
          obtain ⟨fs, hfree, -⟩ := calloc_eq_some hcalloc
          exact haligned r.1 (hfree ▸ List.mem_cons_self)
        rw [hjoin hlow r.1 hf] at hrun
        apply grows_calloc haligned hzero hcalloc
          fun hf => newTable_entry hf hlow hfl (by omega)
        intro haligned'
        have hentry : (r.2.set t (walkIndex v n) (r.1 ||| flags)).mem t (walkIndex v n) =
            r.1 ||| flags := by
          simp [Vm.set]
        rw [hentry, isHuge_or hf hlow, frameOf_or hf hlow] at hrun
        exact hm _ _ s' haligned' hrun
  · rw [if_neg hzero] at hrun
    by_cases hh : isHuge (s.mem t (walkIndex v n)) = true
    · rw [if_pos hh] at hrun
      obtain rfl := Option.some.inj hrun
      exact applyPa_grows (hnone hh) (hnone (by rw [isHuge_setPa, hh])) (hpa _ hzero hh)
    · rw [if_neg hh] at hrun
      exact Grows.enter (tableBelow_of_isHuge (by omega) hzero (eq_false_of_ne_true hh))
        (hm s _ s' haligned hrun)

end Through

/-! ## The functions of the source -/

section Functions

variable {v paddr flags1 flags0 : Word} {pa : ℤ} {p : Paging}

/-- INTERNAL: the entry of a page that is there may get a memory type. -/
theorem leafChange_setPa {n : ℕ} {e : Word} (hn : n ≠ 0 ∧ n ≤ 2) (he : e ≠ 0)
    (hh : isHuge e = true) : LeafChange paddr flags0 pa n e (setPa patHuge pa e) :=
  Or.inr ⟨he, hn.2, Or.inr hh, by rw [if_neg hn.1]⟩

theorem mapPml1_grows {flags : Word}
    (hnew : flags ≠ 0 → LeafChange paddr flags0 pa 0 0 (leafEntry patSmall paddr flags pa)) :
    StretchGrows v (LeafChange paddr flags0 pa) flags1 1 fun s t => mapPml1 s t v paddr flags pa := by
  intro s t s' _ hrun
  simp only [mapPml1, tableIndex_eq_walkIndex] at hrun
  by_cases hzero : s.mem t (walkIndex v 0) = 0
  · rw [if_pos hzero] at hrun
    by_cases hfl : flags = 0
    · rw [if_pos hfl] at hrun
      obtain rfl := Option.some.inj hrun
      exact Grows.stop
    · rw [if_neg hfl, Vm.set_applyPa] at hrun
      obtain rfl := Option.some.inj hrun
      apply Grows.leaf (tableBelow_level_zero _) (tableBelow_level_zero _)
      rw [hzero]
      exact hnew hfl
  · rw [if_neg hzero] at hrun
    obtain rfl := Option.some.inj hrun
    apply applyPa_grows (tableBelow_level_zero _) (tableBelow_level_zero _)
    exact Or.inr ⟨hzero, by omega, Or.inl rfl, by rw [if_pos rfl]⟩

/-- INTERNAL: the entry of a 4 KiB page. -/
theorem leafChange_small (h7 : flags0.getLsbD 7 = false) (hne : flags0 ≠ 0) :
    LeafChange paddr flags0 pa 0 0 (leafEntry patSmall paddr flags0 pa) := by
  refine Or.inl ⟨rfl, ?_, hne, ?_⟩
  · rw [leafLevel, h7]
    rfl
  · rw [pageEntry, h7]
    rfl

/-- INTERNAL: the entry of a 2 MiB page. -/
theorem leafChange_huge (h7 : flags0.getLsbD 7 = true) :
    LeafChange paddr flags0 pa 1 0 (leafEntry patHuge paddr flags0 pa) := by
  refine Or.inl ⟨rfl, ?_, ?_, ?_⟩
  · rw [leafLevel, if_pos h7]
  · rintro rfl
    cases h7
  · rw [pageEntry, if_pos h7]

/-- INTERNAL: the last two levels, with the flags that `map_page_raw` passes for them. -/
theorem mapPml2_grows {flags flags' : Word} (hlow : flags1 &&& ~~~0x7f#64 = 0)
    (h : flags0.getLsbD 7 = true ∧ flags = flags0 ∧ flags' = 0 ∨
      flags0.getLsbD 7 = false ∧ flags = flags1 ∧ flags' = flags0) :
    StretchGrows v (LeafChange paddr flags0 pa) flags1 2
      fun s t => mapPml2 s t v paddr flags flags' pa := by
  have hflags : flags &&& 0x80#64 ≠ 0 ∧
      LeafChange paddr flags0 pa 1 0 (leafEntry patHuge paddr flags pa) ∨
      flags = flags1 ∧ flags1 &&& ~~~0x7f#64 = 0 := by
    rcases h with ⟨h7, rfl, -⟩ | ⟨-, rfl, -⟩
    · left
      refine ⟨?_, leafChange_huge h7⟩
      have hps := isHuge_eq flags
      rw [h7, isHuge, bne_iff_ne] at hps
      exact hps
    · exact Or.inr ⟨rfl, hlow⟩
  have hlast : StretchGrows v (LeafChange paddr flags0 pa) flags1 1
      fun s t => mapPml1 s t v paddr flags' pa := by
    apply mapPml1_grows
    intro hne
    rcases h with ⟨-, -, rfl⟩ | ⟨h7, -, rfl⟩
    · exact absurd rfl hne
    · exact leafChange_small h7 hne
  intro s t s' haligned hrun
  exact throughTable_grows (Or.inl rfl) hflags (fun _ _ _ => rfl)
    (fun e he hh => leafChange_setPa ⟨by omega, by omega⟩ he hh) hlast s t s' haligned hrun

theorem mapPml3_grows {join : Word → Word → Word} {flags flags' : Word}
    (hlow : flags1 &&& ~~~0x7f#64 = 0)
    (hjoin : ∀ f, PageAligned 0 f → join f flags1 = f ||| flags1)
    (h : flags0.getLsbD 7 = true ∧ flags = flags0 ∧ flags' = 0 ∨
      flags0.getLsbD 7 = false ∧ flags = flags1 ∧ flags' = flags0) :
    StretchGrows v (LeafChange paddr flags0 pa) flags1 3
      fun s t => mapPml3 join s t v paddr flags1 flags flags' pa := by
  intro s t s' haligned hrun
  exact throughTable_grows (Or.inr rfl) (Or.inr ⟨rfl, hlow⟩) (fun _ => hjoin)
    (fun e he hh => leafChange_setPa ⟨by omega, by omega⟩ he hh) (mapPml2_grows hlow h) s t s'
    haligned hrun

/-- **`map_page_raw` follows the route of its address.**
SRCLINE: kernel/mm/vmm.cpp:125-191, 211-288, 399-413, 447-461 -/
theorem mapPageRaw_grows (hlow : flags1 &&& ~~~0x7f#64 = 0) :
    StretchGrows v (LeafChange paddr flags0 pa) flags1 p.levels
      fun s t => mapPageRaw p s t v paddr flags1 flags0 pa := by
  -- the levels from the third on, for both kinds of pages
  have hthird : ∀ {join : Word → Word → Word} {flags flags' : Word},
      (∀ f, PageAligned 0 f → join f flags1 = f ||| flags1) →
      (flags0.getLsbD 7 = true ∧ flags = flags0 ∧ flags' = 0 ∨
        flags0.getLsbD 7 = false ∧ flags = flags1 ∧ flags' = flags0) →
      StretchGrows v (LeafChange paddr flags0 pa) flags1 4 fun s t =>
        throughDirectory s t (tableIndex 3 v) flags1 fun s =>
          mapPml3 join s (frameOf (s.mem t (tableIndex 3 v))) v paddr flags1 flags flags' pa := by
    intro join flags flags' hjoin h
    exact throughDirectory_grows (by omega) hlow (mapPml3_grows hlow hjoin h)
  have hor : ∀ f, PageAligned 0 f → f ||| flags1 = f ||| flags1 := fun _ _ => rfl
  have hadd : ∀ f, PageAligned 0 f → f + flags1 = f ||| flags1 := fun f hf => frame_add_eq_or hf hlow
  have hps := isHuge_eq flags0
  by_cases h7 : flags0.getLsbD 7 = true
  · rw [h7, isHuge, bne_iff_ne] at hps
    have h : flags0.getLsbD 7 = true ∧ flags0 = flags0 ∧ (0 : Word) = 0 ∨
        flags0.getLsbD 7 = false ∧ flags0 = flags1 ∧ (0 : Word) = flags0 := Or.inl ⟨h7, rfl, rfl⟩
    cases p with
    | pml4 =>
      simp only [mapPageRaw, if_pos hps]
      exact hthird hor h
    | pml5 =>
      simp only [mapPageRaw, if_pos hps]
      exact throughDirectory_grows (by omega) hlow (hthird hadd h)
  · have h7 := eq_false_of_ne_true h7
    rw [h7, isHuge, bne_eq_false_iff_eq] at hps
    have h : flags0.getLsbD 7 = true ∧ flags1 = flags0 ∧ flags0 = 0 ∨
        flags0.getLsbD 7 = false ∧ flags1 = flags1 ∧ flags0 = flags0 := Or.inr ⟨h7, rfl, rfl⟩
    cases p with
    | pml4 =>
      simp only [mapPageRaw, if_neg (not_not_intro hps)]
      exact hthird hor h
    | pml5 =>
      simp only [mapPageRaw, if_neg (not_not_intro hps)]
      exact throughDirectory_grows (by omega) hlow (hthird hadd h)

end Functions

/-! ## Tables that share tables at the same place -/

section TablesPlaced

variable {p : Paging} {place : Word → Option (List Index)} {s s' : Vm}
  {root v paddr flags1 flags0 : Word} {pa : ℤ}

/-- INTERNAL: the walk goes from an entry with bits 52 to 63 clear to the table below. -/
theorem walkStep_inl {n : ℕ} {e c : Word}
    (hclean : (tableBelow n e).isSome → ∀ k, 52 ≤ k → e.getLsbD k = false)
    (h : walkStep n e = .inl c) : tableBelow n e = some c := by
  have hpresent : e.getLsbD 0 = true := by
    by_contra hp
    rw [walkStep, if_pos (eq_false_of_ne_true hp)] at h
    cases h
  exact walkStep_follows n e c (fun hsome => ⟨hpresent, hclean hsome⟩) h

/-- The walk follows the places. -/
theorem walk_follows (h : TablesPlaced p place s) :
    ∀ t l i n c, place t = some l → l.length + (n + 1) = p.levels →
      walkStep n (s.mem t i) = .inl c → tableBelow n (s.mem t i) = some c := by
  intro t l i n c ht hlen hstep
  exact walkStep_inl (h.clean t l i n ht hlen) hstep

/-- Frames that are taken, and entries of tables that are changed to ones without a table. -/
theorem tablesPlaced_of_entries (h : TablesPlaced p place s) {mem : Word → Index → Word}
    {fs : List Word} (hfs : fs <:+ s.free)
    (hmem : ∀ t l i n, place t = some l → l.length + (n + 1) = p.levels →
      mem t i = s.mem t i ∨ tableBelow n (mem t i) = none) : TablesPlaced p place ⟨mem, fs⟩ := by
  have hentry : ∀ t l i n, place t = some l → l.length + (n + 1) = p.levels →
      (tableBelow n (mem t i)).isSome → mem t i = s.mem t i := by
    intro t l i n ht hlen hsome
    rcases hmem t l i n ht hlen with hsame | hnone
    · exact hsame
    · rw [hnone] at hsome
      cases hsome
  refine ⟨?_, ?_, fun f hf => h.unused f (hfs.subset hf), fun f hf => h.aligned f (hfs.subset hf),
    h.nodup.sublist hfs.sublist⟩
  · apply h.placed.of_fewer
    intro t l i n c ht hlen hc
    rw [← hentry t l i n ht hlen (by rw [hc]; rfl)]
    exact hc
  · intro t l i n ht hlen hsome k hk
    have hsame := hentry t l i n ht hlen hsome
    simp only at hsome ⊢
    rw [hsame] at hsome ⊢
    exact h.clean t l i n ht hlen hsome k hk

/-- INTERNAL: a new pointer has bits 52 to 63 clear. -/
theorem newPointer_clean {n : ℕ} {e : Word} (hlow : flags1 &&& ~~~0x7f#64 = 0)
    (h : NewPointer flags1 n e) {k : ℕ} (hk : 52 ≤ k) : e.getLsbD k = false := by
  obtain ⟨-, f, hf, rfl⟩ := h
  rw [BitVec.getLsbD_or, hf.getLsbD_high hk, getLsbD_of_lowFlags hlow (by omega)]
  rfl

/-- **`map_page_raw` keeps the tables at their places.** -/
theorem mapPageRaw_placed (h : TablesPlaced p place s) (hlow : flags1 &&& ~~~0x7f#64 = 0)
    (hroot : place root = some []) (hrun : mapPageRaw p s root v paddr flags1 flags0 pa = some s') :
    ∃ place', TreeGrown tableBelow 0 (walkIndex v) (LeafChange paddr flags0 pa) (NewPointer flags1)
      p.levels place place' s.mem s.free s'.mem s'.free ∧ TablesPlaced p place' s' := by
  have hgrows := mapPageRaw_grows hlow s root s' h.aligned hrun
  obtain ⟨place', hgrown⟩ := hgrows.result tableBelow_zero tableBelow_level_zero h.placed (k := 0)
    (Nat.zero_add _) hroot h.unused h.nodup
  refine ⟨place', hgrown, hgrown.placed, ?_, ?_, fun f hf => h.aligned f (hgrown.suffix.subset hf),
    h.nodup.sublist hgrown.suffix.sublist⟩
  · intro t l i n ht hlen hsome k hk
    have hlevel : ∀ {m j}, l = route (walkIndex v) p.levels j → j + (m + 1) = p.levels → m = n := by
      rintro m j rfl hj
      rw [route_length] at hlen
      omega
    cases hold : place t with
    | some l' =>
      obtain rfl : l' = l := Option.some.inj ((hgrown.old t l' hold).symm.trans ht)
      rcases hgrown.entries t l' i hold with hsame | ⟨j, m, hroute, -, hj, -, hchange⟩
      · rw [hsame] at hsome ⊢
        exact h.clean t l' i n hold hlen hsome k hk
      · obtain rfl := hlevel hroute hj
        rcases hchange with ⟨-, hnone⟩ | ⟨-, hpointer, -⟩
        · rw [hnone] at hsome
          cases hsome
        · exact newPointer_clean hlow hpointer hk
    | none =>
      rcases hgrown.fresh t l i hold ht with hzero | ⟨j, m, hroute, -, hj, hchange⟩
      · rw [hzero, tableBelow_zero] at hsome
        cases hsome
      · obtain rfl := hlevel hroute hj
        rcases hchange with ⟨-, hnone⟩ | ⟨hpointer, -⟩
        · rw [hnone] at hsome
          cases hsome
        · exact newPointer_clean hlow hpointer hk
  · intro f hf
    rcases hgrown.new f with hsame | ⟨-, hout, -⟩
    · rw [hsame]
      exact h.unused f (hgrown.suffix.subset hf)
    · exact absurd hf hout

/-! ## Translations after the call -/

/-- The address that a walk of `w` which ended at a page gives. -/
def WalkEnd.address (w : Word) : WalkEnd → Option Word
  | .fault => none
  | .page n e => some (pageBase n e ||| (w &&& pageMask n))

theorem translate_eq_bind (p : Paging) (mem : Word → Index → Word) (t w : Word) :
    Interface.translate p mem t w = (walk p mem t w).bind (WalkEnd.address w) := by
  rw [Interface.translate]
  cases walk p mem t w with
  | none => rfl
  | some r =>
    cases r with
    | fault => rfl
    | page n e => rfl

/-- `w` is mapped to `a` by a page at `v` whose entry is made of `base` and `flags`. -/
structure PageAt (p : Paging) (v base flags w a : Word) : Prop where
  present : (base ||| flags).getLsbD 0 = true
  route : ∀ k, leafLevel flags ≤ k → k < p.levels → walkIndex w k = walkIndex v k
  address : a = pageBase (leafLevel flags) (base ||| flags) ||| (w &&& pageMask (leafLevel flags))

/-- INTERNAL: where a walk can end with an address. -/
theorem walkStep_address {n : ℕ} {e w a : Word} {r : WalkEnd} (h : walkStep n e = .inr r)
    (ha : WalkEnd.address w r = some a) :
    e.getLsbD 0 = true ∧ (n = 0 ∨ e.getLsbD 7 = true) ∧ r = .page n e := by
  unfold walkStep at h
  split at h
  · obtain rfl := Sum.inr.inj h
    cases ha
  · next hp =>
    have hp := eq_true_of_ne_false hp
    split at h
    · next hn =>
      subst hn
      exact ⟨hp, Or.inl rfl, (Sum.inr.inj h).symm⟩
    · split at h
      · next hh =>
        split at h
        · exact ⟨hp, Or.inr hh, (Sum.inr.inj h).symm⟩
        · obtain rfl := Sum.inr.inj h
          cases ha
      · cases h

/-- INTERNAL: a memory type does not change the address of a page. -/
theorem pageBase_setPa {n : ℕ} {e : Word} :
    pageBase n (setPa (if n = 0 then patSmall else patHuge) pa e) = pageBase n e := by
  apply BitVec.eq_of_getLsbD_eq
  intro k hk
  simp only [pageBase, BitVec.getLsbD_and, BitVec.getLsbD_not, getLsbD_pageMask n k hk,
    getLsbD_addressMask k hk]
  by_cases hin : 12 + 9 * n ≤ k
  · have hbit : (setPa (if n = 0 then patSmall else patHuge) pa e).getLsbD k = e.getLsbD k := by
      by_cases hn : n = 0
      · rw [if_pos hn]
        exact getLsbD_setPa (q := 7) e pa hk (by omega) (by omega) (by omega)
      · rw [if_neg hn]
        exact getLsbD_setPa (q := 12) e pa hk (by omega) (by omega) (by omega)
    rw [hbit]
  · have hlt : k < 12 + 9 * n := by omega
    simp [hlt]

/-- INTERNAL: nor does it make a page of another entry. -/
theorem getLsbD_zero_setPa {n : ℕ} {e : Word} :
    (setPa (if n = 0 then patSmall else patHuge) pa e).getLsbD 0 = e.getLsbD 0 := by
  by_cases hn : n = 0
  · rw [if_pos hn]
    exact getLsbD_setPa (q := 7) e pa (by omega) (by omega) (by omega) (by omega)
  · rw [if_neg hn]
    exact getLsbD_setPa (q := 12) e pa (by omega) (by omega) (by omega) (by omega)

/-- INTERNAL: the entry of a page, but for its memory type. -/
theorem pageEntry_eq : pageEntry paddr flags0 pa =
    if pa = -1 then paddr ||| flags0
    else setPa (if leafLevel flags0 = 0 then patSmall else patHuge) pa (paddr ||| flags0) := by
  rw [pageEntry, leafLevel]
  cases flags0.getLsbD 7 with
  | false => rfl
  | true => rfl

/-- INTERNAL: an entry that was changed gives the address of the page, or the one it gave before. -/
theorem leafChange_address {n : ℕ} {old e w a : Word} {r : WalkEnd}
    (hleaf : LeafChange paddr flags0 pa n old e) (hstep : walkStep n e = .inr r)
    (ha : WalkEnd.address w r = some a) :
    (n = leafLevel flags0 ∧ (paddr ||| flags0).getLsbD 0 = true ∧
      a = pageBase n (paddr ||| flags0) ||| (w &&& pageMask n)) ∨
    (old ≠ 0 ∧ ∀ r₀, walkStep n old = .inr r₀ → WalkEnd.address w r₀ = some a) := by
  obtain ⟨hp, hpage, rfl⟩ := walkStep_address hstep ha
  have ha : pageBase n e ||| (w &&& pageMask n) = a := Option.some.inj ha
  rcases hleaf with ⟨-, rfl, -, rfl⟩ | ⟨hne, hn, hh, rfl⟩
  · left
    rw [pageEntry_eq] at hp ha
    by_cases hpa : pa = -1
    · rw [if_pos hpa] at hp ha
      exact ⟨rfl, hp, ha.symm⟩
    · rw [if_neg hpa] at hp ha
      rw [getLsbD_zero_setPa] at hp
      rw [pageBase_setPa] at ha
      exact ⟨rfl, hp, ha.symm⟩
  · right
    rw [getLsbD_zero_setPa] at hp
    rw [pageBase_setPa] at ha
    refine ⟨hne, ?_⟩
    intro r₀ hr₀
    have hend : walkStep n old = .inr (.page n old) := by
      rw [walkStep, if_neg (by rw [hp]; exact Bool.noConfusion)]
      by_cases hn0 : n = 0
      · rw [if_pos hn0, hn0]
      · have hbit : old.getLsbD 7 = true := by
          rw [← isHuge_eq]
          exact hh.resolve_left hn0
        rw [if_neg hn0, if_pos hbit, if_pos hn]
    obtain rfl := Sum.inr.inj (hend.symm.trans hr₀)
    rw [← ha]
    rfl

/-- **What is translated after a call of `map_page_raw`**, in any of the tables: what was before, to
the same address, and the page of the call. -/
theorem mapPageRaw_translate (h : TablesPlaced p place s) (hlow : flags1 &&& ~~~0x7f#64 = 0)
    (hroot : place root = some []) (hrun : mapPageRaw p s root v paddr flags1 flags0 pa = some s')
    {t w a : Word} (ht : place t = some []) (ha : Interface.translate p s'.mem t w = some a) :
    Interface.translate p s.mem t w = some a ∨ PageAt p v paddr flags0 w a := by
  obtain ⟨place', hgrown, h'⟩ := mapPageRaw_placed h hlow hroot hrun
  rw [translate_eq_bind, Option.bind_eq_some_iff] at ha
  obtain ⟨r, hwalk, ha⟩ := ha
  rw [translate_eq_bind]
  rcases hgrown.descend_cases h.placed (walk_follows h) (walk_follows h') tableBelow_zero (k := 0)
    (Nat.zero_add _) ht hwalk with hsame | hanew
  · left
    rw [walk, hsame]
    exact ha
  rcases hanew with ⟨m, hzero⟩ | ⟨m, e, ⟨hm, f, hf, rfl⟩, hstep⟩ | ⟨m, old, e, hm, hroute, hleaf, hstep, hold⟩
  · -- a missing entry
    obtain ⟨hp, -⟩ := walkStep_address hzero ha
    cases hp
  · -- a new pointer
    obtain ⟨-, hpage, -⟩ := walkStep_address hstep ha
    have hbit := isHuge_or hf hlow
    rw [isHuge_eq] at hbit
    exact absurd (hbit.symm.trans (hpage.resolve_left hm)) Bool.noConfusion
  · rcases leafChange_address hleaf hstep ha with ⟨rfl, hp, hpage⟩ | ⟨hne, hbefore⟩
    · exact Or.inr ⟨hp, fun k hk hk' => hroute k hk hk', hpage⟩
    · left
      obtain ⟨r₀, hr₀, hwalk₀⟩ := hold.resolve_left hne
      rw [walk, hwalk₀]
      exact hbefore r₀ hr₀

end TablesPlaced

end CrepOS.Analysis
