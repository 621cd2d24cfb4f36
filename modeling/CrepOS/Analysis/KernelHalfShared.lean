import CrepOS.Interface.KernelHalf
import CrepOS.Analysis.DirectMap

/-!
# The tables share the kernel half

`create_generic` copies the entries 256 and 511 of `kernel_mapping`, and no call changes a nonzero entry
of a top table (`RootsKept`): from then on the tables agree below these entries because they go on to
the same tables. An entry that is zero when it is copied breaks this. With 4 levels both entries are
there after `vmm::init`; with 5 levels `high_vma` and `kernel_high_vma` are both below entry 511, and
entry 256 is missing (`kernelHalf_diverges`). `TableCall.Settled` excludes the calls that would make
it, and in every run whose calls meet it the tables agree (`kernelHalf_coherent`).
-/

set_option autoImplicit false

namespace CrepOS.Analysis

open CrepOS.Library CrepOS.Model CrepOS.Interface

/-- The frames of `tops` are used as top tables. -/
def TopTables (p : Paging) (tops : List Word) (height : Word → ℕ) : Prop :=
  ∀ f ∈ tops, height f = p.levels

/-- What a call on the table in the frame `root` does to the top tables `tops`: only missing entries of
this table change, and of these only those that `touched` allows. -/
structure RootsKept (tops : List Word) (touched : Index → Prop) (root : Word)
    (height height' : Word → ℕ) (s s' : Vm) : Prop where
  layers : Layered height' s'
  old : ∀ f, height f ≠ 0 → height' f = height f
  kept : ∀ f ∈ tops, ∀ j, f ≠ root ∨ s.mem f j ≠ 0 ∨ ¬ touched j → s'.mem f j = s.mem f j

section RootsKept

variable {p : Paging} {tops : List Word} {touched touched' : Index → Prop} {root : Word}
  {height height' : Word → ℕ} {s s' : Vm}

theorem levels_ge (p : Paging) : 4 ≤ p.levels := by
  cases p with
  | pml4 => exact Nat.le_refl 4
  | pml5 => exact Nat.le_succ 4

theorem Layered.rootsKept_refl (h : Layered height s) : RootsKept tops touched root height height s s :=
  ⟨h, fun _ _ => rfl, fun _ _ _ _ => rfl⟩

/-- One call after another. -/
theorem RootsKept.trans {height'' : Word → ℕ} {s'' : Vm}
    (h : RootsKept tops touched root height height' s s')
    (h' : RootsKept tops touched' root height' height'' s' s'') :
    RootsKept tops (fun j => touched j ∨ touched' j) root height height'' s s'' := by
  refine ⟨h'.layers, ?_, ?_⟩
  · intro f hf
    have hold := h.old f hf
    rw [h'.old f (by rwa [hold]), hold]
  · intro f hf j hj
    have hfirst : s'.mem f j = s.mem f j := by
      apply h.kept f hf j
      rcases hj with hroot | hne | hno
      · exact Or.inl hroot
      · exact Or.inr (Or.inl hne)
      · exact Or.inr (Or.inr fun ht => hno (Or.inl ht))
    rw [h'.kept f hf j ?_, hfirst]
    rcases hj with hroot | hne | hno
    · exact Or.inl hroot
    · exact Or.inr (Or.inl (by rwa [hfirst]))
    · exact Or.inr (Or.inr fun ht => hno (Or.inr ht))

theorem RootsKept.mono (h : RootsKept tops touched root height height' s s')
    (hle : ∀ j, touched j → touched' j) : RootsKept tops touched' root height height' s s' := by
  refine ⟨h.layers, h.old, ?_⟩
  intro f hf j hj
  apply h.kept f hf j
  rcases hj with hroot | hne | hno
  · exact Or.inl hroot
  · exact Or.inr (Or.inl hne)
  · exact Or.inr (Or.inr fun ht => hno (hle j ht))

/-- INTERNAL: what happens below the top tables. -/
theorem Extends.rootsKept {low n : ℕ} {t : Word} (h : Extends low height height' s s' n t)
    (htops : TopTables p tops height) (hn : n < p.levels) (ht : height t = n) :
    RootsKept tops touched root height height' s s' := by
  refine ⟨h.layered, h.old, ?_⟩
  intro f hf j _
  have htop := htops f hf
  rw [h.kept f (by omega)]
  rintro rfl
  omega

/-- The top tables stay top tables. -/
theorem RootsKept.topTables (h : RootsKept tops touched root height height' s s')
    (htops : TopTables p tops height) : TopTables p tops height' := by
  intro f hf
  have hlevels := levels_ge p
  have htop := htops f hf
  rw [h.old f (by omega), htop]

/-- **`map_page_raw`.** -/
theorem mapPageRaw_rootsKept {v paddr flags1 flags0 : Word} {pa : ℤ} (h : Layered height s)
    (htops : TopTables p tops height) (hroot : root ∈ tops) (hflags1 : flags1 &&& ~~~0x7f#64 = 0)
    (hrun : mapPageRaw p s root v paddr flags1 flags0 pa = some s') :
    ∃ height', RootsKept tops (· = topIndex p v) root height height' s s' := by
  have hlow : 1 ≤ leafLevel flags0 + 1 := by omega
  obtain ⟨height', hext⟩ := mapPageRaw_extends hlow hflags1 h (htops root hroot) hrun
  refine ⟨height', hext.ext.layered, hext.ext.old, ?_⟩
  intro f hf j hj
  by_cases hfr : f = root
  · subst hfr
    apply hext.row
    rcases hj with hne | hne | hno
    · exact absurd rfl hne
    · exact Or.inr hne
    · exact Or.inl hno
  · have htop := htops f hf
    rw [hext.ext.kept f (by omega) hfr]

/-! ## Frames for pages -/

/-- INTERNAL: frames taken from the allocator that do not become tables. -/
theorem Layered.of_suffix (h : Layered height s) {mem : Word → Index → Word} {fs : List Word}
    (hfs : fs <:+ s.free) (hmem : ∀ t i, mem t i = s.mem t i ∨ mem t i = 0) :
    Layered height ⟨mem, fs⟩ := by
  refine ⟨?_, fun f hf => h.unused f (hfs.subset hf), fun f hf => h.aligned f (hfs.subset hf),
    h.nodup.sublist hfs.sublist⟩
  intro t n i c ht hc
  rcases hmem t i with hsame | hzero
  · simp only [hsame] at hc
    exact h.child t n i c ht hc
  · simp only [hzero, tableBelow_zero] at hc
    cases hc

theorem calloc_rootsKept {f : Word} (h : Layered height s) (htops : TopTables p tops height)
    (hcalloc : s.calloc = some (f, s')) :
    RootsKept tops touched root height height s s' := by
  obtain ⟨fs, hfree, rfl⟩ := calloc_eq_some hcalloc
  have hf : height f = 0 := by
    apply h.unused
    rw [hfree]
    exact List.mem_cons_self
  refine ⟨h.of_suffix ?_ ?_, fun _ _ => rfl, ?_⟩
  · rw [hfree]
    exact List.suffix_cons f fs
  · intro t i
    by_cases htf : t = f
    · subst htf
      exact Or.inr (by rw [Function.update_self])
    · exact Or.inl (by rw [Function.update_of_ne htf])
  · intro g hg j _
    have hlevels := levels_ge p
    have htop := htops g hg
    have hgf : g ≠ f := by
      rintro rfl
      omega
    simp only [Function.update_of_ne hgf]

theorem alloc_rootsKept {f : Word} (h : Layered height s) (halloc : s.alloc = some (f, s')) :
    RootsKept tops touched root height height s s' := by
  cases hfree : s.free with
  | nil =>
    rw [Vm.alloc, hfree] at halloc
    cases halloc
  | cons g fs =>
    simp only [Vm.alloc, hfree, Option.some.injEq, Prod.mk.injEq] at halloc
    obtain ⟨rfl, rfl⟩ := halloc
    refine ⟨h.of_suffix ?_ fun _ _ => Or.inl rfl, fun _ _ => rfl, fun _ _ _ _ => rfl⟩
    rw [hfree]
    exact List.suffix_cons g fs

theorem clearBlock_rootsKept {block : Word} (h : Layered height s)
    (hblock : ∀ f ∈ tops, ¬ (f - block).toNat < 0x200000) :
    RootsKept tops touched root height height s (s.clearBlock block) := by
  refine ⟨h.of_suffix List.suffix_rfl ?_, fun _ _ => rfl, ?_⟩
  · intro t i
    by_cases hin : (t - block).toNat < 0x200000
    · exact Or.inr (if_pos hin)
    · exact Or.inl (if_neg hin)
  · intro f hf j _
    simp only [Vm.clearBlock, if_neg (hblock f hf)]

/-! ## `unmap` -/

/-- The entry that a pointer of a `virtual_address` points to is in a table of height `n`. -/
def PointsInto (height : Word → ℕ) (n : ℕ) (ptr : Option (Word × Index)) : Prop :=
  ∀ x, ptr = some x → height x.1 = n

theorem pointsInto_none {n : ℕ} : PointsInto height n none := fun _ h => nomatch h

theorem pointsInto_some {n : ℕ} {t : Word} {i : Index} (h : height t = n) :
    PointsInto height n (some (t, i)) := by
  rintro x hx
  rw [← Option.some.inj hx, h]

/-- The pointers that the lookup leaves behind. -/
structure FoundInto (height : Word → ℕ) (a : FoundEntries) : Prop where
  pml3e : PointsInto height 3 a.pml3e
  pml2e : PointsInto height 2 a.pml2e
  pml1e : PointsInto height 1 a.pml1e

theorem foundInto_none : FoundInto height ⟨none, none, none⟩ :=
  ⟨pointsInto_none, pointsInto_none, pointsInto_none⟩

theorem lookupPml3_foundInto {t v : Word} (h : Layered height s) (ht : height t = 3) :
    FoundInto height (lookupPml3 s t v) := by
  simp only [lookupPml3]
  split
  · exact foundInto_none
  · next hne =>
    split
    · exact ⟨pointsInto_some ht, pointsInto_none, pointsInto_none⟩
    · next hgo =>
      rw [Bool.or_eq_true, not_or] at hgo
      have hc := h.child t 2 _ _ ht (tableBelow_of_isHuge (by omega) hne (eq_false_of_ne_true hgo.2))
      split
      · exact ⟨pointsInto_some ht, pointsInto_none, pointsInto_none⟩
      · next hne' =>
        split
        · exact ⟨pointsInto_some ht, pointsInto_some hc, pointsInto_none⟩
        · next hgo' =>
          rw [Bool.or_eq_true, not_or] at hgo'
          have hc' := h.child _ 1 _ _ hc
            (tableBelow_of_isHuge (by omega) hne' (eq_false_of_ne_true hgo'.2))
          split
          · exact ⟨pointsInto_some ht, pointsInto_some hc, pointsInto_none⟩
          · exact ⟨pointsInto_some ht, pointsInto_some hc, pointsInto_some hc'⟩

/-- INTERNAL: one level of a directory. -/
theorem lookupDirectory_foundInto {t : Word} {i : Index} {n : ℕ} {k : Word → FoundEntries}
    (h : Layered height s) (ht : height t = n + 1) (hn : 3 ≤ n)
    (hk : ∀ t, height t = n → FoundInto height (k t)) : FoundInto height (lookupDirectory s t i k) := by
  rw [lookupDirectory]
  split
  · exact foundInto_none
  · next hne =>
    split
    · exact foundInto_none
    · exact hk _ (h.child t n i _ ht (tableBelow_directory hn hne))

theorem lookup_foundInto {v : Word} (h : Layered height s) (hroot : height root = p.levels) :
    FoundInto height (lookup p s root v) := by
  cases p with
  | pml4 =>
    exact lookupDirectory_foundInto h hroot (by omega) fun t ht => lookupPml3_foundInto h ht
  | pml5 =>
    have hfourth : ∀ t, height t = 4 → FoundInto height
        (lookupDirectory s t (tableIndex 3 v) fun t => lookupPml3 s t v) := by
      intro t ht
      exact lookupDirectory_foundInto h ht (by omega) fun t ht => lookupPml3_foundInto h ht
    exact lookupDirectory_foundInto h hroot (by omega) hfourth

/-- INTERNAL: clearing the present bit of a page leaves a page. -/
theorem tableBelow_unmapped {n : ℕ} {e : Word} (hn : n ≤ 2) (hh : n = 0 ∨ isHuge e = true) :
    tableBelow n (setBit e 1#64 false) = none := by
  rcases hh with rfl | hh
  · exact tableBelow_level_zero _
  · apply tableBelow_huge_none hn
    rw [isHuge_eq] at hh
    rw [show (1#64) = BitVec.twoPow 64 0 from rfl, getLsbD_setBit_of_ne e false (by omega) (by omega),
      hh]

/-- **`unmap`** changes the entry of a page. -/
theorem unmap_cases {v w : Word} (h : Layered height s) (hroot : height root = p.levels)
    (hrun : unmap s (lookup p s root v) = some (s', w)) :
    ∃ n t i, height t = n + 1 ∧ n ≤ 2 ∧ (n = 0 ∨ isHuge (s.mem t i) = true) ∧
      s' = s.set t i (setBit (s.mem t i) 1#64 false) := by
  have hfound := lookup_foundInto (v := v) h hroot
  have drop : ∀ {n : ℕ} {x : Word × Index} {ptr : Option (Word × Index)},
      PointsInto height (n + 1) ptr → ptr = some x → n ≤ 2 →
      (n = 0 ∨ isHuge (s.mem x.1 x.2) = true) →
      some (s.set x.1 x.2 (setBit (s.mem x.1 x.2) 1#64 false), frameOf (s.mem x.1 x.2)) =
        some (s', w) →
      ∃ n t i, height t = n + 1 ∧ n ≤ 2 ∧ (n = 0 ∨ isHuge (s.mem t i) = true) ∧
        s' = s.set t i (setBit (s.mem t i) 1#64 false) := by
    intro n x ptr hptr hx hn hh hrun
    have hs' := congrArg Prod.fst (Option.some.inj hrun)
    exact ⟨n, x.1, x.2, hptr x hx, hn, hh, hs'.symm⟩
  rw [unmap] at hrun
  cases h3 : (lookup p s root v).pml3e with
  | none =>
    rw [h3] at hrun
    cases hrun
  | some x3 =>
    simp only [h3] at hrun
    split at hrun
    · next hh => exact drop hfound.pml3e h3 (by omega) (Or.inr hh) hrun
    · cases h2 : (lookup p s root v).pml2e with
      | none =>
        rw [h2] at hrun
        cases hrun
      | some x2 =>
        simp only [h2] at hrun
        split at hrun
        · next hh => exact drop hfound.pml2e h2 (by omega) (Or.inr hh) hrun
        · cases h1 : (lookup p s root v).pml1e with
          | none =>
            rw [h1] at hrun
            cases hrun
          | some x1 =>
            simp only [h1] at hrun
            exact drop hfound.pml1e h1 (by omega) (Or.inl rfl) hrun

theorem unmap_rootsKept {v w : Word} (h : Layered height s) (htops : TopTables p tops height)
    (hroot : root ∈ tops) (hrun : unmap s (lookup p s root v) = some (s', w)) :
    RootsKept tops touched root height height s s' := by
  have hlevels := levels_ge p
  obtain ⟨n, t, i, ht, hn, hh, rfl⟩ := unmap_cases h (htops root hroot) hrun
  have hset : Extends 1 height height s (s.set t i (setBit (s.mem t i) 1#64 false)) (n + 1) t :=
    h.extends_set ht (tableBelow_unmapped hn hh)
  exact hset.rootsKept htops (by omega) ht

/-! ## The other members -/

theorem unmapPage_rootsKept {v g : Word} (h : Layered height s) (htops : TopTables p tops height)
    (hroot : root ∈ tops) (hrun : unmapPage p s root v g = some s') :
    RootsKept tops touched root height height s s' := by
  rw [unmapPage] at hrun
  split at hrun
  · obtain rfl := Option.some.inj hrun
    exact h.rootsKept_refl
  · rw [Option.map_eq_some_iff] at hrun
    obtain ⟨⟨s₁, w⟩, hunmap, rfl⟩ := hrun
    exact unmap_rootsKept h htops hroot hunmap

theorem unmapRange_rootsKept {v : Word} {l : List Word} (h : Layered height s)
    (htops : TopTables p tops height) (hroot : root ∈ tops) (hrun : unmapRange p root l v s = some s') :
    RootsKept tops touched root height height s s' := by
  induction l generalizing v s with
  | nil =>
    obtain rfl := Option.some.inj hrun
    exact h.rootsKept_refl
  | cons g l ih =>
    rw [unmapRange] at hrun
    split at hrun
    · obtain rfl := Option.some.inj hrun
      exact h.rootsKept_refl
    · cases hunmap : unmap s (lookup p s root v) with
      | none =>
        rw [hunmap] at hrun
        cases hrun
      | some r =>
        obtain ⟨s₁, w⟩ := r
        simp only [hunmap] at hrun
        have hfirst : RootsKept tops touched root height height s s₁ :=
          unmap_rootsKept h htops hroot hunmap
        exact (hfirst.trans (ih hfirst.layers hrun)).mono fun _ hj => hj.elim id id

/-- INTERNAL: the two flags that the members pass for the upper levels. -/
theorem extraFlags_low (p : Paging) (flags : Word) :
    (0x3 ||| extraFlags p flags) &&& ~~~0x7f#64 = 0 := by
  cases p with
  | pml4 =>
    simp only [extraFlags]
    decide
  | pml5 =>
    simp only [extraFlags]
    split
    · decide
    · decide

theorem mapRange_rootsKept {v flags : Word} {pa : ℤ} {cnt : ℕ} (h : Layered height s)
    (htops : TopTables p tops height) (hroot : root ∈ tops) (hrun : mapRange p root flags pa cnt v s = some s') :
    ∃ height', RootsKept tops
      (fun j => ∃ k < cnt, topIndex p (v + BitVec.ofNat 64 k * rangeStep flags) = j)
      root height height' s s' := by
  induction cnt generalizing v height s with
  | zero =>
    obtain rfl := Option.some.inj hrun
    exact ⟨height, h.rootsKept_refl⟩
  | succ cnt ih =>
    rw [mapRange] at hrun
    cases halloc : s.alloc with
    | none =>
      rw [halloc] at hrun
      cases hrun
    | some r =>
      obtain ⟨f, s₁⟩ := r
      simp only [halloc] at hrun
      have h₁ : RootsKept tops (fun _ => False) root height height s s₁ := alloc_rootsKept h halloc
      cases hmap : mapPageRaw p s₁ root v f (0x3 ||| extraFlags p flags) flags pa with
      | none =>
        rw [hmap] at hrun
        cases hrun
      | some s₂ =>
        simp only [hmap] at hrun
        obtain ⟨height₂, h₂⟩ := mapPageRaw_rootsKept h₁.layers htops hroot
          (extraFlags_low p flags) hmap
        obtain ⟨height', h'⟩ := ih h₂.layers (h₂.topTables htops) hrun
        refine ⟨height', ((h₁.trans h₂).trans h').mono ?_⟩
        rintro j ((hfalse | rfl) | ⟨k, hk, rfl⟩)
        · exact hfalse.elim
        · exact ⟨0, by omega, by simp⟩
        · exact ⟨k + 1, by omega, by rw [add_ofNat_succ_mul]⟩

theorem mapPage_rootsKept {v flags block : Word} {pa : ℤ} (h : Layered height s)
    (htops : TopTables p tops height) (hroot : root ∈ tops)
    (hblock : flags &&& 0x80#64 ≠ 0 → ∀ f ∈ tops, ¬ (f - block).toNat < 0x200000)
    (hrun : Model.mapPage p s root v flags block pa = some s') :
    ∃ height', RootsKept tops (· = topIndex p v) root height height' s s' := by
  have hflags : (0x3 : Word) &&& ~~~0x7f#64 = 0 := rfl
  rw [Model.mapPage] at hrun
  split at hrun
  · next hps =>
    have h₁ : RootsKept tops (fun _ => False) root height height s (s.clearBlock block) :=
      clearBlock_rootsKept h (hblock hps)
    obtain ⟨height', h'⟩ := mapPageRaw_rootsKept h₁.layers htops hroot hflags hrun
    exact ⟨height', (h₁.trans h').mono fun _ hj => hj.elim False.elim id⟩
  · cases hcalloc : s.calloc with
    | none =>
      rw [hcalloc] at hrun
      cases hrun
    | some r =>
      obtain ⟨f, s₁⟩ := r
      simp only [hcalloc] at hrun
      have h₁ : RootsKept tops (fun _ => False) root height height s s₁ := calloc_rootsKept h htops hcalloc
      obtain ⟨height', h'⟩ := mapPageRaw_rootsKept h₁.layers htops hroot hflags hrun
      exact ⟨height', (h₁.trans h').mono fun _ hj => hj.elim False.elim id⟩

end RootsKept

/-! ## The invariant -/

/-- The tables share the kernel half: their entries 256 and 511 are those of `kernel_mapping`, and the
entries that have to be there are. -/
structure KernelHalfShared (p : Paging) (st : TableSystem) (height : Word → ℕ) : Prop where
  layers : Layered height st.vm
  tops : TopTables p (st.kernel :: st.tables) height
  same256 : ∀ t ∈ st.tables, st.vm.mem t 256 = st.vm.mem st.kernel 256
  same511 : ∀ t ∈ st.tables, st.vm.mem t 511 = st.vm.mem st.kernel 511
  kernel511 : st.vm.mem st.kernel 511 ≠ 0
  kernel256 : p = .pml4 → st.vm.mem st.kernel 256 ≠ 0

section Invariant

variable {p : Paging} {st st' : TableSystem} {height height' : Word → ℕ}

/-- **Tables with the same entry translate alike below it.** -/
theorem translate_eq_of_entry {mem : Word → Index → Word} {t t' v : Word} {i : Index}
    (hv : topIndex p v = i) (h : mem t i = mem t' i) :
    Interface.translate p mem t v = Interface.translate p mem t' v := by
  have hlevels := levels_ge p
  obtain ⟨n, hn⟩ : ∃ n, p.levels = n + 1 := ⟨p.levels - 1, by omega⟩
  have hidx : walkIndex v n = i := by
    rw [← hv, topIndex, tableIndex_eq_walkIndex, hn]
    rfl
  have hwalk : walk p mem t v = walk p mem t' v := by
    rw [walk, walk, hn, descend, descend, hidx, h]
  rw [Interface.translate, Interface.translate, hwalk]

theorem KernelHalfShared.coherent (h : KernelHalfShared p st height) : KernelHalfCoherent p st := by
  intro t ht v hv
  rcases hv with h256 | h511
  · exact translate_eq_of_entry h256 (h.same256 t ht)
  · exact translate_eq_of_entry h511 (h.same511 t ht)

/-- **A call that changes only missing entries keeps the invariant**, if it does not make an entry 256
that tables have missed. -/
theorem KernelHalfShared.edit {touched : Index → Prop} {root : Word} {vm' : Vm}
    (h : KernelHalfShared p st height)
    (hk : RootsKept (st.kernel :: st.tables) touched root height height' st.vm vm')
    (hsettled : p = .pml5 → touched 256 → st.vm.mem st.kernel 256 ≠ 0 ∨ st.tables = []) :
    KernelHalfShared p { st with vm := vm' } height' := by
  have hkernel : st.kernel ∈ st.kernel :: st.tables := List.mem_cons_self
  have htable : ∀ t ∈ st.tables, t ∈ st.kernel :: st.tables := fun t ht => List.mem_cons_of_mem _ ht
  have h511 : vm'.mem st.kernel 511 = st.vm.mem st.kernel 511 :=
    hk.kept _ hkernel 511 (Or.inr (Or.inl h.kernel511))
  refine ⟨hk.layers, hk.topTables h.tops, ?_, ?_, ?_, ?_⟩
  · intro t ht
    have hboth : ∀ hkept : st.vm.mem st.kernel 256 ≠ 0 ∨ ¬ touched 256,
        vm'.mem t 256 = vm'.mem st.kernel 256 := by
      intro hkept
      have hsame := h.same256 t ht
      rw [hk.kept t (htable t ht) 256 (Or.inr (by rwa [hsame])),
        hk.kept _ hkernel 256 (Or.inr hkept), hsame]
    cases p with
    | pml4 => exact hboth (Or.inl (h.kernel256 rfl))
    | pml5 =>
      by_cases htouched : touched 256
      · rcases hsettled rfl htouched with hne | hnil
        · exact hboth (Or.inl hne)
        · rw [hnil] at ht
          cases ht
      · exact hboth (Or.inr htouched)
  · intro t ht
    have hsame := h.same511 t ht
    rw [hk.kept t (htable t ht) 511 (Or.inr (Or.inl (by rw [hsame]; exact h.kernel511))), h511, hsame]
  · rw [h511]
    exact h.kernel511
  · intro hp
    rw [hk.kept _ hkernel 256 (Or.inr (Or.inl (h.kernel256 hp)))]
    exact h.kernel256 hp

/-- **`create_generic`** takes a frame and copies the two entries into it.
SRCLINE: kernel/mm/vmm.cpp:499-517 -/
theorem createGeneric_eq {s s' : Vm} {kernel f : Word} (hkernel : kernel ∉ s.free)
    (hrun : createGeneric s kernel = some (s', f)) :
    s.free = f :: s'.free ∧ (∀ t, t ≠ f → s'.mem t = s.mem t) ∧
      ∀ i, s'.mem f i = if i = 511 then s.mem kernel 511
        else if i = 256 then s.mem kernel 256 else 0 := by
  rw [createGeneric] at hrun
  cases hcalloc : s.calloc with
  | none =>
    rw [hcalloc] at hrun
    cases hrun
  | some r =>
    obtain ⟨f', s₁⟩ := r
    obtain ⟨fs, hfree, rfl⟩ := calloc_eq_some hcalloc
    simp only [hcalloc, Option.some.injEq, Prod.mk.injEq] at hrun
    obtain ⟨rfl, rfl⟩ := hrun
    have hne : kernel ≠ f' := by
      rintro rfl
      apply hkernel
      rw [hfree]
      exact List.mem_cons_self
    refine ⟨hfree, ?_, ?_⟩
    · intro t ht
      simp [Vm.set, Function.update_of_ne ht]
    · intro i
      simp [Vm.set, Function.update_apply, hne]

/-- The new table shares the kernel half. -/
theorem KernelHalfShared.create {vm' : Vm} {f : Word} (h : KernelHalfShared p st height)
    (hrun : createGeneric st.vm st.kernel = some (vm', f)) :
    KernelHalfShared p { st with vm := vm', tables := f :: st.tables }
      (Function.update height f p.levels) := by
  have hlevels := levels_ge p
  have hunfree : ∀ t ∈ st.kernel :: st.tables, t ∉ st.vm.free := by
    intro t ht hfree
    have htop := h.tops t ht
    have hzero := h.layers.unused t hfree
    omega
  obtain ⟨hfree, hrow, hnew⟩ := createGeneric_eq (hunfree _ List.mem_cons_self) hrun
  have hf : f ∈ st.vm.free := by
    rw [hfree]
    exact List.mem_cons_self
  have hfh := h.layers.unused f hf
  have hne : ∀ t ∈ st.kernel :: st.tables, t ≠ f := by
    rintro t ht rfl
    exact hunfree t ht hf
  have hnodup := h.layers.nodup
  rw [hfree, List.nodup_cons] at hnodup
  have hsuffix : ∀ g ∈ vm'.free, g ∈ st.vm.free := by
    intro g hg
    rw [hfree]
    exact List.mem_cons_of_mem f hg
  -- a table in use is not the new frame
  have hold : ∀ c n, height c = n → n ≠ 0 → Function.update height f p.levels c = n := by
    intro c n hc hn
    rw [Function.update_of_ne (by rintro rfl; omega), hc]
  have hkernel := hrow _ (hne _ List.mem_cons_self)
  have hentry : ∀ i n c, n ≠ 0 → p.levels = n + 1 → tableBelow n (st.vm.mem st.kernel i) = some c →
      Function.update height f p.levels c = n := by
    intro i n c hn hp hc
    exact hold c n (h.layers.child st.kernel n i c ((h.tops _ List.mem_cons_self).trans hp) hc) hn
  refine ⟨⟨?_, ?_, fun g hg => h.layers.aligned g (hsuffix g hg), hnodup.2⟩, ?_, ?_, ?_, ?_, ?_⟩
  · intro t n i c ht hc
    have hn : n ≠ 0 := by
      rintro rfl
      rw [tableBelow_level_zero] at hc
      cases hc
    by_cases htf : t = f
    · subst htf
      rw [Function.update_self] at ht
      rw [hnew] at hc
      split at hc
      · exact hentry _ n c hn ht hc
      · split at hc
        · exact hentry _ n c hn ht hc
        · rw [tableBelow_zero] at hc
          cases hc
    · rw [Function.update_of_ne htf] at ht
      rw [hrow t htf] at hc
      exact hold c n (h.layers.child t n i c ht hc) hn
  · intro g hg
    have hgf : g ≠ f := by
      rintro rfl
      exact hnodup.1 hg
    rw [Function.update_of_ne hgf]
    exact h.layers.unused g (hsuffix g hg)
  · intro t ht
    rcases List.mem_cons.mp ht with rfl | ht
    · exact hold _ _ (h.tops _ List.mem_cons_self) (by omega)
    · rcases List.mem_cons.mp ht with rfl | ht
      · rw [Function.update_self]
      · exact hold _ _ (h.tops t (List.mem_cons_of_mem _ ht)) (by omega)
  · intro t ht
    rw [hkernel]
    rcases List.mem_cons.mp ht with rfl | ht
    · rw [hnew]
      rfl
    · rw [hrow t (hne t (List.mem_cons_of_mem _ ht)), h.same256 t ht]
  · intro t ht
    rw [hkernel]
    rcases List.mem_cons.mp ht with rfl | ht
    · rw [hnew]
      rfl
    · rw [hrow t (hne t (List.mem_cons_of_mem _ ht)), h.same511 t ht]
  · rw [hkernel]
    exact h.kernel511
  · intro hp
    rw [hkernel]
    exact h.kernel256 hp

/-- INTERNAL: the blocks that `map_page` gets are no top tables. -/
theorem not_in_block {block : Word} {f : Word} (hf : f ∈ st.kernel :: st.tables)
    (hblock : ∀ f, st.IsTable p f → ¬ (f - block).toNat < 0x200000) :
    ¬ (f - block).toNat < 0x200000 := by
  apply hblock f
  have hlevels := levels_ge p
  obtain ⟨n, hn⟩ : ∃ n, p.levels = n + 1 := ⟨p.levels - 1, by omega⟩
  refine ⟨f, hf, ?_⟩
  rw [InTables, hn]
  exact inTree_root n f

/-- **Every call that meets the condition keeps the invariant.** -/
theorem KernelHalfShared.step {call : TableCall} (h : KernelHalfShared p st height)
    (hstep : tableStep p st call st') : ∃ height', KernelHalfShared p st' height' := by
  obtain ⟨⟨hallowed, hsettled⟩, hexec⟩ := hstep
  cases call with
  | create =>
    simp only [TableSystem.exec, Option.map_eq_some_iff] at hexec
    obtain ⟨⟨vm', f⟩, hrun, rfl⟩ := hexec
    exact ⟨_, h.create hrun⟩
  | mapPage root vaddr flags block pa =>
    simp only [TableSystem.exec, Option.map_eq_some_iff] at hexec
    obtain ⟨vm', hrun, rfl⟩ := hexec
    obtain ⟨hroot, hblock⟩ := hallowed
    obtain ⟨height', hk⟩ := mapPage_rootsKept h.layers h.tops hroot
      (fun hps f hf => not_in_block hf (hblock hps)) hrun
    exact ⟨height', h.edit hk fun hp htouched => hsettled hp htouched.symm⟩
  | mapPageRaw root vaddr paddr flags1 flags0 pa =>
    simp only [TableSystem.exec, Option.map_eq_some_iff] at hexec
    obtain ⟨vm', hrun, rfl⟩ := hexec
    obtain ⟨hroot, hflags1⟩ := hallowed
    obtain ⟨height', hk⟩ := mapPageRaw_rootsKept h.layers h.tops hroot hflags1 hrun
    exact ⟨height', h.edit hk fun hp htouched => hsettled hp htouched.symm⟩
  | mapRange root vaddr flags cnt pa =>
    simp only [TableSystem.exec, Option.map_eq_some_iff] at hexec
    obtain ⟨vm', hrun, rfl⟩ := hexec
    obtain ⟨height', hk⟩ := mapRange_rootsKept h.layers h.tops hallowed hrun
    exact ⟨height', h.edit hk hsettled⟩
  | unmapPage root vaddr pageLength =>
    simp only [TableSystem.exec, Option.map_eq_some_iff] at hexec
    obtain ⟨vm', hrun, rfl⟩ := hexec
    have hk : RootsKept _ (fun _ => False) root height height st.vm vm' :=
      unmapPage_rootsKept h.layers h.tops hallowed hrun
    exact ⟨height, h.edit hk fun _ htouched => htouched.elim⟩
  | unmapRange root vaddr pageLengths =>
    simp only [TableSystem.exec, Option.map_eq_some_iff] at hexec
    obtain ⟨vm', hrun, rfl⟩ := hexec
    have hk : RootsKept _ (fun _ => False) root height height st.vm vm' :=
      unmapRange_rootsKept h.layers h.tops hallowed hrun
    exact ⟨height, h.edit hk fun _ htouched => htouched.elim⟩

end Invariant

/-! ## The run -/

section Runs

variable {p : Paging} {st : TableSystem} {vm₀ : Vm} {totalMem : ℕ}

/-- INTERNAL: `vmm::init` maps the first page of each of its loops. -/
theorem initSlots_first (p : Paging) (hmem : 0x200000 ≤ totalMem) :
    (∃ e, initSlots p totalMem (walkIndex (0 + kernelHighVma)) = some e) ∧
      ∃ e, initSlots p totalMem (walkIndex (0 + highVma)) = some e := by
  obtain ⟨e, he⟩ := @directSlots_first p 0 kernelHighVma 0x200 (by omega)
  obtain ⟨e', he'⟩ := @directSlots_first p 0 highVma (totalMem / 0x200000) (by omega)
  refine ⟨⟨e, by rw [initSlots, he, Option.some_or]⟩, ?_⟩
  rw [initSlots, he']
  cases hd : directSlots p kernelHighVma 0x200 0 (walkIndex (0 + highVma)) with
  | none => exact ⟨e', Option.none_or⟩
  | some e'' => exact ⟨e'', Option.some_or⟩

/-- **After `vmm::init` the entries are there.** -/
theorem kernelHalfShared_initial (h : st.Initial p vm₀ totalMem) :
    ∃ height, KernelHalfShared p st height := by
  obtain ⟨hnodup, haligned, hmem, hinit, hnil⟩ := h
  obtain ⟨height, hmap⟩ := vmmInit_hugeMap ⟨hnodup, haligned⟩ hinit
  obtain ⟨⟨e, he⟩, ⟨e', he'⟩⟩ := initSlots_first p hmem
  refine ⟨height, hmap.layers, ?_, ?_, ?_, ?_, ?_⟩
  · intro t ht
    rw [hnil, List.mem_singleton] at ht
    rw [ht, hmap.rootHeight]
  · intro t ht
    rw [hnil] at ht
    cases ht
  · intro t ht
    rw [hnil] at ht
    cases ht
  · have hne := hmap.entry_ne_zero he
    cases p with
    | pml4 => exact hne
    | pml5 => exact hne
  · rintro rfl
    exact hmap.entry_ne_zero he'

/-- The memory before `vmm::init`, with `0x1000` frames for it. -/
def bootVm : Vm := ⟨fun _ _ => 0, frameRow 1 0x1000⟩

/-- INTERNAL: `vmm::init` for 2 MiB of memory leaves most of the frames. -/
theorem bootVm_initial (p : Paging) : ∃ st : TableSystem, st.Initial p bootVm 0x200000 ∧
    4 + 1 ≤ st.vm.free.length := by
  have hlen : bootVm.free.length = 0x1000 := by simp only [bootVm, frameRow, List.length_map,
    List.length_range]
  have hlevels : p.levels - 1 ≤ 4 := by cases p <;> simp [Paging.levels]
  have hpages : (0x200000 : ℕ) / 0x200000 = 1 := rfl
  have hfew : (0x200 + 0x200000 / 0x200000) * (p.levels - 1) ≤ 513 * 4 := by
    rw [hpages]
    exact Nat.mul_le_mul_left 513 hlevels
  obtain ⟨vm, root, hinit, hleft⟩ := @vmmInit_spends p bootVm 0x200000 (by omega)
  have hfresh : FreshFrames bootVm := freshFrames_frameRow _ (by omega)
  exact ⟨⟨vm, root, []⟩, ⟨hfresh.nodup, hfresh.aligned, Nat.le_refl _, hinit, rfl⟩, by
    simp only
    omega⟩

end Runs

/-! ## The missing entry -/

section Missing

variable {p : Paging} {tops : List Word} {root vma phys : Word} {height : Word → ℕ} {s s' : Vm}
  {i : Index} {n totalMem : ℕ}

/-- A loop of `vmm::init` below one entry of the top table. -/
theorem mapDirect_rootsKept (h : Layered height s) (htops : TopTables p tops height)
    (hroot : root ∈ tops)
    (hi : ∀ k < n, topIndex p (phys + BitVec.ofNat 64 k * 0x200000 + vma) = i)
    (hrun : mapDirect p root vma n phys s = some s') :
    ∃ height', RootsKept tops (· = i) root height height' s s' := by
  induction n generalizing height s phys with
  | zero =>
    obtain rfl := Option.some.inj hrun
    exact ⟨height, h.rootsKept_refl⟩
  | succ n ih =>
    rw [mapDirect] at hrun
    cases hmap : mapPageRaw p s root (phys + vma) phys 0x7 0x187 (-1) with
    | none =>
      rw [hmap] at hrun
      cases hrun
    | some s₁ =>
      simp only [hmap] at hrun
      obtain ⟨height₁, h₁⟩ := mapPageRaw_rootsKept h htops hroot (by decide) hmap
      have hfirst : topIndex p (phys + vma) = i := by
        have h0 := hi 0 (by omega)
        simpa using h0
      have hrest : ∀ k < n,
          topIndex p (phys + 0x200000 + BitVec.ofNat 64 k * 0x200000 + vma) = i := by
        intro k hk
        have hsucc := hi (k + 1) (by omega)
        rwa [add_ofNat_succ_mul] at hsucc
      obtain ⟨height', h'⟩ := ih h₁.layers (h₁.topTables htops) hrest hrun
      refine ⟨height', (h₁.trans h').mono ?_⟩
      rintro j (hj | hj)
      · rw [hj, hfirst]
      · exact hj

/-- INTERNAL: addresses of the last 2 ^ 47 bytes are below entry 511 of a fifth-level table. -/
theorem topIndex_high {v : Word} (h : 2 ^ 64 - 2 ^ 47 ≤ v.toNat) : topIndex .pml5 v = 511 := by
  apply BitVec.eq_of_toNat_eq
  have hlt := v.isLt
  rw [topIndex, tableIndex_eq_walkIndex, walkIndex, BitVec.extractLsb'_toNat,
    Nat.shiftRight_eq_div_pow]
  show v.toNat / 2 ^ 48 % 2 ^ 9 = 511
  omega

/-- INTERNAL: the pages of a loop of `vmm::init` that starts in the last 2 ^ 47 bytes and stays there. -/
theorem topIndex_direct {k : ℕ} (hvma : 2 ^ 64 - 2 ^ 47 ≤ vma.toNat)
    (hk : vma.toNat + k * 0x200000 < 2 ^ 64) :
    topIndex .pml5 (0 + BitVec.ofNat 64 k * 0x200000 + vma) = 511 := by
  apply topIndex_high
  have hphys : (BitVec.ofNat 64 k * 0x200000).toNat = k * 0x200000 := by
    rw [BitVec.toNat_mul, BitVec.toNat_ofNat]
    show k % 2 ^ 64 * 0x200000 % 2 ^ 64 = k * 0x200000
    omega
  have hzero : (0 : Word) + BitVec.ofNat 64 k * 0x200000 = BitVec.ofNat 64 k * 0x200000 :=
    BitVec.zero_add _
  rw [hzero, BitVec.toNat_add, hphys]
  omega

/-- **With 5 levels, entry 256 is missing after `vmm::init`**, if there is no more memory than the direct
map has room for. -/
theorem vmmInit_missing (hs : FreshFrames s) (hmem : totalMem ≤ 2 ^ 47)
    (hrun : vmmInit .pml5 s totalMem = some (s', root)) : s'.mem root 256 = 0 := by
  obtain ⟨s₁, s₂, hcalloc, hkernel, hdirect⟩ := vmmInit_eq_some hrun
  obtain ⟨height₁, h₁⟩ := HugeMap.empty (p := .pml5) hs hcalloc
  have htops : TopTables .pml5 [root] height₁ := by
    intro f hf
    rw [List.mem_singleton.mp hf, h₁.rootHeight]
  have hroot : root ∈ [root] := List.mem_singleton_self root
  have hhigh : highVma.toNat = 2 ^ 64 - 2 ^ 47 := rfl
  have hkernelHigh : kernelHighVma.toNat = 2 ^ 64 - 2 ^ 31 := rfl
  obtain ⟨height₂, h₂⟩ := mapDirect_rootsKept (i := 511) h₁.layers htops hroot
    (fun k hk => topIndex_direct (by omega) (by omega)) hkernel
  obtain ⟨height₃, h₃⟩ := mapDirect_rootsKept (i := 511) h₂.layers (h₂.topTables htops) hroot
    (fun k hk => topIndex_direct (by omega) (by omega)) hdirect
  have hother : ¬ (256 : Index) = 511 := by decide
  obtain ⟨fs, -, rfl⟩ := calloc_eq_some hcalloc
  rw [h₃.kept root hroot 256 (Or.inr (Or.inr hother)),
    h₂.kept root hroot 256 (Or.inr (Or.inr hother))]
  simp

/-- INTERNAL: a page mapped below a missing entry of the top table is mapped for this table. -/
theorem translate_mapped {v : Word} {s₁ s₂ : Vm} {found : (ℕ → Index) → Option Word}
    (h : HugeMap .pml5 root found height s)
    (hsame : ∀ f, InTables .pml5 s.mem root f → s₁.mem f = s.mem f) (hfree : s₁.free <:+ s.free)
    (hmissing : s.mem root (walkIndex v 4) = 0)
    (hrun : mapPageRaw .pml5 s₁ root v 0x1000 0x7 0x7 (-1) = some s₂) :
    Interface.translate .pml5 s₂.mem root v ≠ none := by
  have hready : Ready 0 v s₁ 5 root := by
    refine ⟨isTree_congr hsame h.tree, Or.inl ?_, h.layers.nodup.sublist hfree.sublist,
      fun f hf => h.layers.aligned f (hfree.subset hf), ?_⟩
    · rw [hsame root (inTree_root 4 root), hmissing]
    · intro f hf hin
      exact h.unused f ((inTree_congr hsame f).mp hf) (hfree.subset hin)
  have hleaf : leafLevel 0x7 = 0 := by decide
  have hstep := (@walkStep_pageEntry 0x1000 0x7 (-1) (by decide) (by decide)).1
  have hm := mapPageRaw_maps .pml5 v follows_walkStep (show DirectoryFlags 0x7 by decide)
    (show LeafFlags 0x7 by decide) hstep s₁ s₂ root (by rw [hleaf]; exact hready) hrun
  have hwalk : walk .pml5 s₂.mem root v =
      some (.page (leafLevel 0x7) (pageEntry 0x1000 0x7 (-1))) := hm.hit _ fun _ _ _ => rfl
  rw [Interface.translate, hwalk]
  exact Option.some_ne_none _

end Missing

end CrepOS.Analysis
