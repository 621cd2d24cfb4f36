import CrepOS.Analysis.MapPage

/-!
# The levels of the page tables

Page tables share tables: `create_generic` copies entries of `kernel_mapping`, so the frames reached
from all roots are no tree. What they keep is that each frame is used at one level. `Layered height s`
gives each frame in use its height, and `Extends` says what mapping a page does from a table of height
`n` on: tables in use keep their height, new ones get one, and of the tables of height `n` and more only
that one is written. The theorems go down the code of `map` level by level, and `MapsBelowRoot` is what
a call of `map_page_raw` does to the top table.
-/

set_option autoImplicit false

namespace CrepOS.Analysis

open CrepOS.Library CrepOS.Model CrepOS.Interface

/-- Each frame in use as a page table has one height, an entry of a table of height `n + 1` points to
one of height `n`, and the frames to come are aligned, distinct and not in use. -/
structure Layered (height : Word → ℕ) (s : Vm) : Prop where
  child : ∀ t n i c, height t = n + 1 → tableBelow n (s.mem t i) = some c → height c = n
  unused : ∀ f ∈ s.free, height f = 0
  aligned : ∀ f ∈ s.free, PageAligned 0 f
  nodup : s.free.Nodup

/-- What a call does from the table `t` of height `n` on, when the tables it adds have height `low` or
more. -/
structure Extends (low : ℕ) (height height' : Word → ℕ) (s s' : Vm) (n : ℕ) (t : Word) : Prop where
  layered : Layered height' s'
  old : ∀ f, height f ≠ 0 → height' f = height f
  fresh : ∀ f, height' f = height f ∨ low ≤ height' f
  kept : ∀ f, n ≤ height f → f ≠ t → s'.mem f = s.mem f

section Extends

variable {low n : ℕ} {height height' : Word → ℕ} {s s' : Vm} {t c e : Word} {i : Index}

theorem Layered.extends_refl (h : Layered height s) : Extends low height height s s n t :=
  ⟨h, fun _ _ => rfl, fun _ => Or.inl rfl, fun _ _ _ => rfl⟩

/-- What happens below an entry of a table, seen from the table. -/
theorem Extends.up (h : Extends low height height' s s' n c) (hc : height c = n) :
    Extends low height height' s s' (n + 1) t := by
  refine ⟨h.layered, h.old, h.fresh, ?_⟩
  intro f hf _
  apply h.kept f (by omega)
  rintro rfl
  omega

/-- The table itself is not written from below. -/
theorem Extends.row (h : Extends low height height' s s' n c) (hc : height c = n)
    (ht : height t = n + 1) : s'.mem t = s.mem t := by
  apply h.kept t (by omega)
  rintro rfl
  omega

/-- The write of an entry that points to no table. -/
theorem Layered.extends_set (h : Layered height s) (ht : height t = n + 1)
    (he : tableBelow n e = none) : Extends low height height s (s.set t i e) (n + 1) t := by
  refine ⟨⟨?_, h.unused, h.aligned, h.nodup⟩, fun _ _ => rfl, fun _ => Or.inl rfl, ?_⟩
  · intro t' m j c ht' hc
    by_cases hrow : t' = t ∧ j = i
    · obtain ⟨rfl, rfl⟩ := hrow
      obtain rfl : m = n := by omega
      have hentry : (s.set t' j e).mem t' j = e := by simp [Vm.set]
      rw [hentry, he] at hc
      cases hc
    · have hsame : (s.set t i e).mem t' j = s.mem t' j := by
        by_cases htt : t' = t
        · subst htt
          have hj : j ≠ i := fun hji => hrow ⟨rfl, hji⟩
          simp [Vm.set, Function.update_of_ne hj]
        · simp [Vm.set, Function.update_of_ne htt]
      rw [hsame] at hc
      exact h.child t' m j c ht' hc
  · intro f _ hf
    simp [Vm.set, Function.update_of_ne hf]

/-- The write of the memory type into an entry that points to no table. -/
theorem Layered.extends_applyPa {pat : Word} {pa : ℤ} (h : Layered height s) (ht : height t = n + 1)
    (he : tableBelow n (setPa pat pa (s.mem t i)) = none) :
    Extends low height height s (s.applyPa t i pat pa) (n + 1) t := by
  unfold Vm.applyPa
  split
  · exact h.extends_refl
  · exact h.extends_set ht he

/-- A new table one level below `t`. -/
theorem Layered.addTable {f : Word} {fs : List Word} (h : Layered height s) (ht : height t = n + 2)
    (hfree : s.free = f :: fs) (he : tableBelow (n + 1) e = some f) :
    Layered (Function.update height f (n + 1)) (Vm.addTable s t i e f fs) := by
  have hmem : ∀ g ∈ fs, g ∈ s.free := by
    intro g hg
    rw [hfree]
    exact List.mem_cons_of_mem f hg
  have hf : height f = 0 := by
    apply h.unused
    rw [hfree]
    exact List.mem_cons_self
  have hft : f ≠ t := by
    rintro rfl
    omega
  have hnodup := h.nodup
  rw [hfree, List.nodup_cons] at hnodup
  -- a frame with a table above it was in use before, so it is not the new one
  have hold : ∀ g m, height g = m → m ≠ 0 → Function.update height f (n + 1) g = m := by
    intro g m hg hm
    have hgf : g ≠ f := by
      rintro rfl
      omega
    rw [Function.update_of_ne hgf, hg]
  refine ⟨?_, ?_, fun g hg => h.aligned g (hmem g hg), hnodup.2⟩
  · intro t' m j c ht' hc
    have hm : m ≠ 0 := by
      rintro rfl
      rw [tableBelow_level_zero] at hc
      cases hc
    by_cases htf : t' = f
    · subst htf
      rw [Vm.addTable_cleared hft, tableBelow_zero] at hc
      cases hc
    · rw [Function.update_of_ne htf] at ht'
      by_cases hrow : t' = t ∧ j = i
      · obtain ⟨rfl, rfl⟩ := hrow
        obtain rfl : m = n + 1 := by omega
        rw [Vm.addTable_entry, he] at hc
        obtain rfl := Option.some.inj hc
        rw [Function.update_self]
      · have hsame : (Vm.addTable s t i e f fs).mem t' j = s.mem t' j := by
          by_cases htt : t' = t
          · subst htt
            have hj : j ≠ i := fun hji => hrow ⟨rfl, hji⟩
            simp [Vm.addTable, Vm.set, Function.update_of_ne hj, Function.update_of_ne htf]
          · simp [Vm.addTable, Vm.set, Function.update_of_ne htt, Function.update_of_ne htf]
        rw [hsame] at hc
        exact hold c m (h.child t' m j c ht' hc) hm
  · intro g hg
    have hgf : g ≠ f := by
      rintro rfl
      exact hnodup.1 hg
    rw [Function.update_of_ne hgf]
    exact h.unused g (hmem g hg)

/-- A call that first adds a table. -/
theorem Extends.of_addTable {f : Word} {fs : List Word} (h : Layered height s)
    (hfree : s.free = f :: fs) (hlow : low ≤ n + 1)
    (hm : Extends low (Function.update height f (n + 1)) height' (Vm.addTable s t i e f fs) s'
      (n + 2) t) : Extends low height height' s s' (n + 2) t := by
  have hf : height f = 0 := by
    apply h.unused
    rw [hfree]
    exact List.mem_cons_self
  have hnew : height' f = n + 1 := by
    have hold := hm.old f (by rw [Function.update_self]; omega)
    rwa [Function.update_self] at hold
  refine ⟨hm.layered, ?_, ?_, ?_⟩
  · intro g hg
    have hgf : g ≠ f := by
      rintro rfl
      exact hg hf
    have hold := hm.old g (by rwa [Function.update_of_ne hgf])
    rwa [Function.update_of_ne hgf] at hold
  · intro g
    by_cases hgf : g = f
    · subst hgf
      exact Or.inr (by omega)
    · have hfresh := hm.fresh g
      rwa [Function.update_of_ne hgf] at hfresh
  · intro g hg hgt
    have hgf : g ≠ f := by
      rintro rfl
      omega
    rw [hm.kept g (by rwa [Function.update_of_ne hgf]) hgt]
    simp [Vm.addTable, Vm.set, Function.update_of_ne hgt, Function.update_of_ne hgf]

end Extends

/-! ## Entries -/

section Entries

variable {f flags : Word}

/-- INTERNAL: a nonzero entry that is no page points to a table. -/
theorem tableBelow_of_isLeaf {n : ℕ} {e : Word} (he : e ≠ 0) (hleaf : isLeaf n e = false) :
    tableBelow n e = some (frameOf e) := by
  rw [tableBelow, if_neg]
  rintro (hzero | htrue)
  · exact he hzero
  · rw [hleaf] at htrue
    cases htrue

/-- INTERNAL: above the third level every nonzero entry points to a table. -/
theorem tableBelow_directory {n : ℕ} {e : Word} (hn : 3 ≤ n) (he : e ≠ 0) :
    tableBelow n e = some (frameOf e) := by
  have h0 : n ≠ 0 := by omega
  have h2 : ¬ n ≤ 2 := by omega
  exact tableBelow_of_isLeaf he (by simp [isLeaf, h0, h2])

/-- INTERNAL: an entry without bit 7 above the lowest level points to a table. -/
theorem tableBelow_of_isHuge {n : ℕ} {e : Word} (hn : n ≠ 0) (he : e ≠ 0)
    (hh : isHuge e = false) : tableBelow n e = some (frameOf e) := by
  rw [isHuge_eq] at hh
  apply tableBelow_of_isLeaf he
  rw [isLeaf, hh]
  simp [hn]

theorem or_ne_zero (hne : flags ≠ 0) : f ||| flags ≠ 0 := by
  intro hzero
  exact hne (BitVec.or_eq_zero_iff.mp hzero).2

/-- INTERNAL: a new entry has no bit 7. -/
theorem isHuge_or (hf : PageAligned 0 f) (h : flags &&& ~~~0x7f#64 = 0) :
    isHuge (f ||| flags) = false := by
  rw [isHuge_eq, BitVec.getLsbD_or, getLsbD_of_lowFlags h (by omega), hf.getLsbD_low (by omega),
    Bool.or_false]

/-- INTERNAL: a new entry points to the frame it is made of. -/
theorem tableBelow_or {n : ℕ} (hf : PageAligned 0 f) (h : flags &&& ~~~0x7f#64 = 0)
    (hne : flags ≠ 0) : tableBelow (n + 1) (f ||| flags) = some f := by
  rw [tableBelow_of_isHuge (by omega) (or_ne_zero hne) (isHuge_or hf h), frameOf_or hf h]

/-- INTERNAL: an entry with bit 7 at a level that has pages points to no table. -/
theorem tableBelow_huge_none {n : ℕ} {e : Word} (hn : n ≤ 2) (hh : e.getLsbD 7 = true) :
    tableBelow n e = none := by
  rw [tableBelow, isLeaf, hh]
  simp [hn]

end Entries

/-! ## The way down -/

/-- `m` extends the tables from any table of height `n` on. -/
def StretchExtends (low n : ℕ) (m : Vm → Word → Option Vm) : Prop :=
  ∀ (height : Word → ℕ) s t s', Layered height s → height t = n → m s t = some s' →
    ∃ height', Extends low height height' s s' n t

section Through

variable {low n : ℕ} {height : Word → ℕ} {s s' : Vm} {t flags : Word} {i : Index}
  {k : Vm → Option Vm}

/-- INTERNAL: `calloc` in terms of the frames to come. -/
theorem calloc_eq_some {s₁ : Vm} {f : Word} (h : s.calloc = some (f, s₁)) :
    ∃ fs, s.free = f :: fs ∧ s₁ = ⟨Function.update s.mem f fun _ => 0, fs⟩ := by
  cases hfree : s.free with
  | nil =>
    rw [Vm.calloc, hfree] at h
    cases h
  | cons g fs =>
    simp only [Vm.calloc, hfree, Option.some.injEq, Prod.mk.injEq] at h
    exact ⟨fs, by rw [h.1], by rw [← h.1, h.2]⟩

/-- INTERNAL: the step of `map` through a table whose entry was missing, from what the rest of the call
does once the new table is entered. -/
theorem extends_calloc {f e : Word} {s₁ : Vm} {Q : Prop} (h : Layered height s)
    (ht : height t = n + 2) (hlow : low ≤ n + 1) (hcalloc : s.calloc = some (f, s₁))
    (he : PageAligned 0 f → tableBelow (n + 1) e = some f)
    (hk : ∀ height, Layered height (s₁.set t i e) → height t = n + 2 →
      PageAligned 0 f → (s₁.set t i e).mem t i = e →
      (∀ j, j ≠ i → (s₁.set t i e).mem t j = s.mem t j) →
      ∃ height', Extends low height height' (s₁.set t i e) s' (n + 2) t ∧ Q) :
    ∃ height', Extends low height height' s s' (n + 2) t ∧ Q := by
  obtain ⟨fs, hfree, rfl⟩ := calloc_eq_some hcalloc
  have hmem : f ∈ s.free := by
    rw [hfree]
    exact List.mem_cons_self
  have hf := h.aligned f hmem
  have hft : t ≠ f := by
    rintro rfl
    have hzero := h.unused t hmem
    omega
  have hlayers := h.addTable (i := i) ht hfree (he hf)
  obtain ⟨height', hext, hq⟩ := hk _ hlayers (by rw [Function.update_of_ne hft, ht]) hf
    Vm.addTable_entry (fun j hj => by
      simp [Vm.set, Function.update_of_ne hj, Function.update_of_ne hft])
  exact ⟨height', Extends.of_addTable h hfree hlow hext, hq⟩

/-- **One level of a directory.** Of the row of `t` only a missing entry can change. -/
theorem throughDirectory_extends {m : Vm → Word → Option Vm} (h : Layered height s)
    (ht : height t = n + 2) (hn : 2 ≤ n) (hlow : low ≤ n + 1) (hflags : flags &&& ~~~0x7f#64 = 0)
    (hm : StretchExtends low (n + 1) m)
    (hrun : throughDirectory s t i flags (fun s => m s (frameOf (s.mem t i))) = some s') :
    ∃ height', Extends low height height' s s' (n + 2) t ∧
      (∀ j, j ≠ i ∨ s.mem t j ≠ 0 → s'.mem t j = s.mem t j) ∧ (flags ≠ 0 → s'.mem t i ≠ 0) := by
  -- the rest of the call leaves the whole row of `t` alone
  have below : ∀ (height : Word → ℕ) s s', Layered height s → height t = n + 2 → s.mem t i ≠ 0 →
      m s (frameOf (s.mem t i)) = some s' →
      ∃ height', Extends low height height' s s' (n + 2) t ∧ s'.mem t = s.mem t := by
    intro height s s' h ht hne hrun
    have hc := h.child t (n + 1) i _ ht (tableBelow_directory (by omega) hne)
    obtain ⟨height', hext⟩ := hm height s _ s' h hc hrun
    exact ⟨height', hext.up hc, hext.row hc ht⟩
  by_cases hzero : s.mem t i = 0
  · rw [throughDirectory, if_pos hzero] at hrun
    by_cases hfl : flags = 0
    · rw [if_pos hfl] at hrun
      obtain rfl := Option.some.inj hrun
      exact ⟨height, h.extends_refl, fun _ _ => rfl, fun hne => absurd hfl hne⟩
    · rw [if_neg hfl] at hrun
      cases hcalloc : s.calloc with
      | none =>
        rw [hcalloc] at hrun
        cases hrun
      | some r =>
        simp only [hcalloc] at hrun
        apply extends_calloc h ht hlow hcalloc fun hf => tableBelow_or hf hflags hfl
        intro height₁ h₁ ht₁ _ hentry hothers
        have hne : (r.2.set t i (r.1 ||| flags)).mem t i ≠ 0 := by
          rw [hentry]
          exact or_ne_zero hfl
        obtain ⟨height', hext, hrow⟩ := below height₁ _ s' h₁ ht₁ hne hrun
        refine ⟨height', hext, ?_, ?_⟩
        · intro j hj
          have hji : j ≠ i := by
            rintro rfl
            exact hj.elim (fun hne => hne rfl) fun hne => hne hzero
          rw [hrow, hothers j hji]
        · intro _
          rwa [hrow]
  · rw [throughDirectory, if_neg hzero] at hrun
    obtain ⟨height', hext, hrow⟩ := below height s s' h ht hzero hrun
    exact ⟨height', hext, fun j _ => by rw [hrow], fun _ => by rwa [hrow]⟩

/-- **One level of a table that may hold pages.** -/
theorem throughTable_extends {m : Vm → Word → Option Vm} {join : Word → Word → Word} {paddr : Word}
    {pa : ℤ} (h : Layered height s) (ht : height t = n + 2) (hn : n ≤ 1)
    (hflags : flags &&& 0x80#64 ≠ 0 ∨ low ≤ n + 1 ∧ flags &&& ~~~0x7f#64 = 0)
    (hjoin : flags &&& ~~~0x7f#64 = 0 → ∀ f, PageAligned 0 f → join f flags = f ||| flags)
    (hm : StretchExtends low (n + 1) m)
    (hrun : throughTable join s t i flags paddr (fun s =>
      if isHuge (s.mem t i) then some (s.applyPa t i patHuge pa) else m s (frameOf (s.mem t i))) =
        some s') :
    ∃ height', Extends low height height' s s' (n + 2) t := by
  -- an entry that is there is a page or leads on
  have below : ∀ (height : Word → ℕ) s s', Layered height s → height t = n + 2 → s.mem t i ≠ 0 →
      (if isHuge (s.mem t i) then some (s.applyPa t i patHuge pa)
        else m s (frameOf (s.mem t i))) = some s' →
      ∃ height', Extends low height height' s s' (n + 2) t := by
    intro height s s' h ht hne hrun
    by_cases hh : isHuge (s.mem t i) = true
    · rw [if_pos hh] at hrun
      obtain rfl := Option.some.inj hrun
      refine ⟨height, h.extends_applyPa ht (tableBelow_huge_none (by omega) ?_)⟩
      rw [isHuge_eq] at hh
      rw [← hh]
      exact getLsbD_setPa (q := 12) _ pa (by omega) (by omega) (by omega) (by omega)
    · rw [if_neg hh] at hrun
      have hc := h.child t (n + 1) i _ ht
        (tableBelow_of_isHuge (by omega) hne (eq_false_of_ne_true hh))
      obtain ⟨height', hext⟩ := hm height s _ s' h hc hrun
      exact ⟨height', hext.up hc⟩
  by_cases hzero : s.mem t i = 0
  · rw [throughTable, if_pos hzero] at hrun
    by_cases hfl : flags = 0
    · rw [if_pos hfl] at hrun
      obtain rfl := Option.some.inj hrun
      exact ⟨height, h.extends_refl⟩
    · rw [if_neg hfl] at hrun
      by_cases hps : flags &&& 0x80#64 ≠ 0
      · -- the new entry is a page
        rw [if_pos hps] at hrun
        have hh : isHuge (paddr ||| flags) = true := by
          rw [isHuge_eq, BitVec.getLsbD_or, ← isHuge_eq flags, isHuge, bne_iff_ne.mpr hps,
            Bool.or_true]
        have hset : Extends low height height s (s.set t i (paddr ||| flags)) _ t :=
          h.extends_set ht (tableBelow_huge_none (by omega) (by rw [← isHuge_eq, hh]))
        have hne : (s.set t i (paddr ||| flags)).mem t i ≠ 0 := by
          simpa [Vm.set] using or_ne_zero hfl
        obtain ⟨height', hext⟩ := below height _ s' hset.layered ht hne hrun
        refine ⟨height', hext.layered, hext.old, hext.fresh, ?_⟩
        intro f hf hft
        rw [hext.kept f hf hft, hset.kept f hf hft]
      · obtain ⟨hlow, hflags⟩ := hflags.resolve_left hps
        rw [if_neg hps] at hrun
        cases hcalloc : s.calloc with
        | none =>
          rw [hcalloc] at hrun
          cases hrun
        | some r =>
          simp only [hcalloc] at hrun
          have hbelow : PageAligned 0 r.1 → tableBelow (n + 1) (join r.1 flags) = some r.1 := by
            intro hf
            rw [hjoin hflags r.1 hf]
            exact tableBelow_or hf hflags hfl
          obtain ⟨height', hext, -⟩ := extends_calloc (Q := True) h ht hlow hcalloc hbelow (by
            intro height₁ h₁ ht₁ hf hentry _
            have hne : (r.2.set t i (join r.1 flags)).mem t i ≠ 0 := by
              rw [hentry, hjoin hflags r.1 hf]
              exact or_ne_zero hfl
            obtain ⟨height', hext⟩ := below height₁ _ s' h₁ ht₁ hne hrun
            exact ⟨height', hext, trivial⟩)
          exact ⟨height', hext⟩
  · rw [throughTable, if_neg hzero] at hrun
    exact below height s s' h ht hzero hrun

end Through

/-! ## The functions of the source -/

section Functions

variable {low : ℕ} {v paddr flags1 flags0 : Word} {pa : ℤ}

theorem mapPml1_extends (flags : Word) :
    StretchExtends low 1 fun s t => mapPml1 s t v paddr flags pa := by
  intro height s t s' h ht hrun
  simp only [mapPml1] at hrun
  by_cases hzero : s.mem t (tableIndex 0 v) = 0
  · rw [if_pos hzero] at hrun
    by_cases hfl : flags = 0
    · rw [if_pos hfl] at hrun
      obtain rfl := Option.some.inj hrun
      exact ⟨height, h.extends_refl⟩
    · rw [if_neg hfl, Vm.set_applyPa] at hrun
      obtain rfl := Option.some.inj hrun
      exact ⟨height, h.extends_set ht (tableBelow_level_zero _)⟩
  · rw [if_neg hzero] at hrun
    obtain rfl := Option.some.inj hrun
    exact ⟨height, h.extends_applyPa ht (tableBelow_level_zero _)⟩

theorem mapPml2_extends {flags : Word}
    (hflags : flags &&& 0x80#64 ≠ 0 ∨ low ≤ 1 ∧ flags &&& ~~~0x7f#64 = 0) :
    StretchExtends low 2 fun s t => mapPml2 s t v paddr flags flags0 pa := by
  intro height s t s' h ht hrun
  exact throughTable_extends h ht (by omega) hflags (fun _ _ _ => rfl) (mapPml1_extends flags0) hrun

theorem mapPml3_extends {join : Word → Word → Word} {flags : Word} (hlow : low ≤ 2)
    (hflags1 : flags1 &&& ~~~0x7f#64 = 0)
    (hjoin : ∀ f, PageAligned 0 f → join f flags1 = f ||| flags1)
    (hflags : flags &&& 0x80#64 ≠ 0 ∨ low ≤ 1 ∧ flags &&& ~~~0x7f#64 = 0) :
    StretchExtends low 3 fun s t => mapPml3 join s t v paddr flags1 flags flags0 pa := by
  intro height s t s' h ht hrun
  exact throughTable_extends h ht (by omega) (Or.inr ⟨hlow, hflags1⟩) (fun _ => hjoin)
    (mapPml2_extends hflags) hrun

/-- What `map_page_raw` does to the tables, seen from the top table: of its row only the entry of `v`
can change, from zero to a new table. -/
structure MapsBelowRoot (p : Paging) (low : ℕ) (v flags1 : Word) (height height' : Word → ℕ)
    (s s' : Vm) (root : Word) : Prop where
  ext : Extends low height height' s s' p.levels root
  row : ∀ j, j ≠ tableIndex (p.levels - 1) v ∨ s.mem root j ≠ 0 → s'.mem root j = s.mem root j
  entry : flags1 ≠ 0 → s'.mem root (tableIndex (p.levels - 1) v) ≠ 0

theorem Pml4.map_extends {flags : Word} {height : Word → ℕ} {s s' : Vm} {root : Word}
    (hlow : low ≤ 2) (hflags1 : flags1 &&& ~~~0x7f#64 = 0)
    (hflags : flags &&& 0x80#64 ≠ 0 ∨ low ≤ 1 ∧ flags &&& ~~~0x7f#64 = 0)
    (h : Layered height s) (hroot : height root = 4)
    (hrun : Model.Pml4.map s root v paddr flags1 flags1 flags flags0 pa = some s') :
    ∃ height', MapsBelowRoot .pml4 low v flags1 height height' s s' root := by
  obtain ⟨height', hext, hrow, hentry⟩ := throughDirectory_extends h hroot (by omega) (by omega)
    hflags1 (mapPml3_extends hlow hflags1 (fun _ _ => rfl) hflags) hrun
  exact ⟨height', hext, hrow, hentry⟩

theorem Pml5.map_extends {flags : Word} {height : Word → ℕ} {s s' : Vm} {root : Word}
    (hlow : low ≤ 2) (hflags1 : flags1 &&& ~~~0x7f#64 = 0)
    (hflags : flags &&& 0x80#64 ≠ 0 ∨ low ≤ 1 ∧ flags &&& ~~~0x7f#64 = 0)
    (h : Layered height s) (hroot : height root = 5)
    (hrun : Model.Pml5.map s root v paddr flags1 flags1 flags1 flags flags0 pa = some s') :
    ∃ height', MapsBelowRoot .pml5 low v flags1 height height' s s' root := by
  have hfourth : StretchExtends low 4 fun s t => throughDirectory s t (tableIndex 3 v) flags1 fun s =>
      mapPml3 (· + ·) s (frameOf (s.mem t (tableIndex 3 v))) v paddr flags1 flags flags0 pa := by
    intro height s t s' h ht hrun
    obtain ⟨height', hext, -⟩ := throughDirectory_extends h ht (by omega) (by omega) hflags1
      (mapPml3_extends hlow hflags1 (fun f hf => frame_add_eq_or hf hflags1) hflags) hrun
    exact ⟨height', hext⟩
  obtain ⟨height', hext, hrow, hentry⟩ := throughDirectory_extends h hroot (by omega) (by omega)
    hflags1 hfourth hrun
  exact ⟨height', hext, hrow, hentry⟩

/-- **`map_page_raw` of both tables.** The tables it adds have the height of a table for its page, or
more. -/
theorem mapPageRaw_extends {p : Paging} {height : Word → ℕ} {s s' : Vm} {root : Word}
    (hlow : low ≤ leafLevel flags0 + 1) (hflags1 : flags1 &&& ~~~0x7f#64 = 0) (h : Layered height s)
    (hroot : height root = p.levels)
    (hrun : mapPageRaw p s root v paddr flags1 flags0 pa = some s') :
    ∃ height', MapsBelowRoot p low v flags1 height height' s s' root := by
  have hps := isHuge_eq flags0
  by_cases h7 : flags0.getLsbD 7 = true
  · rw [h7, isHuge, bne_iff_ne] at hps
    simp only [leafLevel, h7, if_true] at hlow
    cases p with
    | pml4 =>
      simp only [mapPageRaw, if_pos hps] at hrun
      exact Pml4.map_extends hlow hflags1 (Or.inl hps) h hroot hrun
    | pml5 =>
      simp only [mapPageRaw, if_pos hps] at hrun
      exact Pml5.map_extends hlow hflags1 (Or.inl hps) h hroot hrun
  · have h7 := eq_false_of_ne_true h7
    rw [h7, isHuge, bne_eq_false_iff_eq] at hps
    simp only [leafLevel, h7, Bool.false_eq_true, if_false, Nat.zero_add] at hlow
    cases p with
    | pml4 =>
      simp only [mapPageRaw, if_neg (not_not_intro hps)] at hrun
      exact Pml4.map_extends (by omega) hflags1 (Or.inr ⟨hlow, hflags1⟩) h hroot hrun
    | pml5 =>
      simp only [mapPageRaw, if_neg (not_not_intro hps)] at hrun
      exact Pml5.map_extends (by omega) hflags1 (Or.inr ⟨hlow, hflags1⟩) h hroot hrun

end Functions

end CrepOS.Analysis
