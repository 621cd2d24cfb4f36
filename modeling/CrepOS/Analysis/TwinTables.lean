import CrepOS.Analysis.TableFound

/-!
# The two kinds of tables agree

An address below `2 ^ 47` finds the same in the table with 4 levels and in the one with 5 levels, but for
the rights of the entries above its page (`FoundAgree`), after any calls: `Found.Matches.fill` of the
library says so of one page. The rights agree as long as the calls meet the condition, since a page that
is not there yet gets all entries above it from those that it finds and those that the call makes.
`twin_tables_agree` puts this together over a run. The condition is needed: `map_range` of the two classes
gives different flags to the tables that it makes (`twin_tables_disagree`).
-/

set_option autoImplicit false

namespace CrepOS.Analysis

open CrepOS.Library CrepOS.Model CrepOS.Interface

/-! ## What agrees -/

/-- The page allows the access of the bit. -/
def PageAllows (y : Word × Bool × Bool) (bit : ℕ) : Prop :=
  bit = 1 ∧ y.2.1 = true ∨ bit = 2 ∧ y.2.2 = true

/-- An address finds the same in both tables, and the entries above its page allow the same of what the
page allows. -/
def FoundAgree (r r' : Found Word (Word × Bool × Bool)) : Prop :=
  r.Matches 3 r' ∧ ∀ y, r.seen = some y → ∀ bit, PageAllows y bit →
    r.marks.all (fun e => e.getLsbD bit) = r'.marks.all fun e => e.getLsbD bit

/-- Both tables are sound, and low addresses find the same in them. -/
structure TwinSound (T : Twin) : Prop where
  four : ∃ place, TreeSound .pml4 T.root4 place T.four
  five : ∃ place, TreeSound .pml5 T.root5 place T.five
  agree : ∀ v, LowAddress v →
    FoundAgree (found .pml4 T.four.mem T.root4 v) (found .pml5 T.five.mem T.root5 v)

/-- The condition on a page at `v` whose entry is `e`, in terms of what `v` finds. -/
def GrantAt (T : Twin) (v flags4 flags5 : Word) (leaf : ℕ) (e : Word) : Prop :=
  (found .pml4 T.four.mem T.root4 v).seen = none →
    leaf ≤ (found .pml4 T.four.mem T.root4 v).level →
    ∀ bit, bit = 1 ∨ bit = 2 → e.getLsbD bit = true →
      (found .pml4 T.four.mem T.root4 v).reach leaf flags4 (fun e => e.getLsbD bit) =
        (found .pml5 T.five.mem T.root5 v).reach leaf flags5 fun e => e.getLsbD bit

section Agree

variable {T : Twin} {v w : Word}

/-- INTERNAL: rights that agree where the page allows an access. -/
theorem and_eq_of_allows {a b c : Bool} (h : c = true → a = b) : (a && c) = (b && c) := by
  cases c with
  | false => rw [Bool.and_false, Bool.and_false]
  | true => rw [h rfl]

theorem FoundAgree.access {r r' : Found Word (Word × Bool × Bool)} (h : FoundAgree r r') :
    foundAccess v r = foundAccess v r' := by
  obtain ⟨⟨hseen, hlevel⟩, hrights⟩ := h
  rw [foundAccess, foundAccess, ← hseen]
  cases hy : r.seen with
  | none => rfl
  | some y =>
    have hlevel : r.level = r'.level := by
      rcases hlevel with hlevel | ⟨hnone, -⟩
      · exact hlevel
      · cases hnone.symm.trans hy
    have h1 := and_eq_of_allows fun hw => hrights y hy 1 (Or.inl ⟨rfl, hw⟩)
    have h2 := and_eq_of_allows fun hu => hrights y hy 2 (Or.inr ⟨rfl, hu⟩)
    rw [Option.map_some, Option.map_some, hlevel, h1, h2]

theorem TwinSound.agrees (h : TwinSound T) : T.Agree := by
  obtain ⟨place4, h4⟩ := h.four
  obtain ⟨place5, h5⟩ := h.five
  intro v hv
  rw [h4.effective_eq, h5.effective_eq]
  exact (h.agree v hv).access

/-- INTERNAL: low addresses use the first entry of the fifth-level table. -/
theorem walkIndex_low (hv : LowAddress v) : walkIndex v 4 = 0 := by
  apply BitVec.eq_of_getLsbD_eq
  intro k hk
  have hbit : v.toNat.testBit (48 + k) = false := by
    apply Nat.testBit_lt_two_pow
    calc v.toNat < 2 ^ 47 := hv
      _ ≤ 2 ^ (48 + k) := Nat.pow_le_pow_right (by omega) (by omega)
  rw [getLsbD_walkIndex v 4 k hk]
  exact hbit.trans BitVec.getLsbD_zero.symm

theorem walkIndex_low_eq (hv : LowAddress v) (hw : LowAddress w) : walkIndex w 4 = walkIndex v 4 := by
  rw [walkIndex_low hv, walkIndex_low hw]

/-- INTERNAL: the lookups of addresses that use the same indices from the end of one of them on. -/
theorem found_agree {p : Paging} {mem : Word → Index → Word} {root : Word}
    (h : ∀ k < p.levels, (found p mem root v).level ≤ k → walkIndex w k = walkIndex v k) :
    found p mem root w = found p mem root v :=
  look_agree h

/-- **The condition in terms of what is found** is the condition on a page. -/
theorem TwinSound.grantAt {flags4 flags5 flags0 e : Word} (h : TwinSound T) (hv : LowAddress v)
    (hg : PageGranted T v flags4 flags5 flags0 e) :
    GrantAt T v flags4 flags5 (leafLevel flags0) e := by
  obtain ⟨place4, h4⟩ := h.four
  obtain ⟨place5, h5⟩ := h.five
  obtain ⟨⟨hsame, hlevels⟩, -⟩ := h.agree v hv
  intro hseen hlevel bit hbit he
  have hlevel' : leafLevel flags0 ≤ (found .pml5 T.five.mem T.root5 v).level := by omega
  have hmeets : MeetsZero (leafLevel flags0) T.four.mem v 4 T.root4 :=
    h4.meetsZero h4.top rfl hseen hlevel
  have hallow := hg hmeets bit hbit he
  have hallow4 := h4.tablesAllow_eq flags4 h4.top rfl hbit hseen hlevel
  have hallow5 := h5.tablesAllow_eq flags5 h5.top rfl hbit (hsame.symm.trans hseen) hlevel'
  exact hallow4.symm.trans (hallow.trans hallow5)

end Agree

/-! ## One page -/

section Page

variable {T : Twin} {v w paddr flags4 flags5 flags0 : Word} {pa : ℤ} {s4 s5 : Vm}

/-- INTERNAL: the marks of new tables have the bits of their flags. -/
theorem reach_rightsMark {leaf bit : ℕ} {m : Word} (r : Found Word (Word × Bool × Bool))
    (hbit : bit = 1 ∨ bit = 2) :
    r.reach leaf (rightsMark m) (fun e => e.getLsbD bit) = r.reach leaf m fun e => e.getLsbD bit := by
  rw [Found.reach, Found.reach, getLsbD_rightsMark hbit]

theorem leafLevel_le (flags0 : Word) : leafLevel flags0 ≤ 1 := by
  unfold leafLevel
  split
  · exact Nat.le_refl 1
  · exact Nat.zero_le 1

/-- INTERNAL: what an address finds after a page of the call was mapped. -/
theorem foundAgree_fill {r r' : Found Word (Word × Bool × Bool)} (h : FoundAgree r r')
    (hv : LowAddress v) (hw : LowAddress w)
    (hnew : r.seen = none → (∀ k < 4, leafLevel flags0 ≤ k → walkIndex w k = walkIndex v k) →
      leafLevel flags0 ≤ r.level → ∀ bit, bit = 1 ∨ bit = 2 → (paddr ||| flags0).getLsbD bit = true →
        r.reach (leafLevel flags0) flags4 (fun e => e.getLsbD bit) =
          r'.reach (leafLevel flags0) flags5 fun e => e.getLsbD bit) :
    FoundAgree
      (fill (leafLevel flags0) (rightsMark flags4) (newPage paddr flags0 pa) (walkIndex v) (walkIndex w)
        4 r)
      (fill (leafLevel flags0) (rightsMark flags5) (newPage paddr flags0 pa) (walkIndex v) (walkIndex w)
        5 r') := by
  have hleaf : leafLevel flags0 ≤ 3 := Nat.le_trans (leafLevel_le flags0) (by omega)
  have hmatch := h.1.fill (rightsMark flags4) (rightsMark flags5) (newPage paddr flags0 pa)
    hleaf (walkIndex_low_eq hv hw)
  refine ⟨hmatch, ?_⟩
  intro y hy bit hallows
  cases hr : r.seen with
  | some y' =>
    -- the address had a page before
    have hne : r.seen ≠ none := by rw [hr]; exact Option.some_ne_none y'
    have hne' : r'.seen ≠ none := by rw [← h.1.1]; exact hne
    rw [fill_of_seen hne] at hy ⊢
    rw [fill_of_seen hne']
    exact h.2 y hy bit hallows
  | none =>
    obtain ⟨rfl, hlevel, hagree, hall⟩ := fill_seen hr hy
    obtain ⟨-, -, -, hall'⟩ := fill_seen (h.1.1.symm.trans hr) (hmatch.1.symm.trans hy)
    have hbit : bit = 1 ∨ bit = 2 := hallows.imp (fun h => h.1) fun h => h.1
    have he : (paddr ||| flags0).getLsbD bit = true := by
      rcases hallows with ⟨rfl, hw⟩ | ⟨rfl, hu⟩
      · exact hw
      · exact hu
    rw [hall, hall', reach_rightsMark r hbit, reach_rightsMark r' hbit]
    exact hnew hr hagree hlevel bit hbit he

/-- **`map_page_raw` on both tables** keeps them together under the condition, and the condition on other
pages with the same flags. -/
theorem TwinSound.mapPageRaw (h : TwinSound T) (hv : LowAddress v) (hflags4 : DirectoryFlags flags4)
    (hflags5 : DirectoryFlags flags5) (hflags0 : LeafFlags flags0)
    (hg : GrantAt T v flags4 flags5 (leafLevel flags0) (paddr ||| flags0))
    (h4 : Model.mapPageRaw .pml4 T.four T.root4 v paddr flags4 flags0 pa = some s4)
    (h5 : Model.mapPageRaw .pml5 T.five T.root5 v paddr flags5 flags0 pa = some s5) :
    TwinSound { T with four := s4, five := s5 } ∧
      ∀ w e, LowAddress w → GrantAt T w flags4 flags5 (leafLevel flags0) e →
        GrantAt { T with four := s4, five := s5 } w flags4 flags5 (leafLevel flags0) e := by
  obtain ⟨place4, hs4⟩ := h.four
  obtain ⟨place5, hs5⟩ := h.five
  obtain ⟨place4', hs4', hfound4⟩ := hs4.mapPageRaw hflags4 hflags0 h4
  obtain ⟨place5', hs5', hfound5⟩ := hs5.mapPageRaw hflags5 hflags0 h5
  have hagree : ∀ w, LowAddress w →
      FoundAgree (found .pml4 s4.mem T.root4 w) (found .pml5 s5.mem T.root5 w) := by
    intro w hw
    rw [hfound4 w, hfound5 w]
    apply foundAgree_fill (h.agree w hw) hv hw
    intro hseen hroute hlevel bit hbit he
    -- the address is in the new page, so it found what the address of the call did
    have heq4 : found .pml4 T.four.mem T.root4 v = found .pml4 T.four.mem T.root4 w :=
      found_agree fun k hk hle => (hroute k hk (Nat.le_trans hlevel hle)).symm
    have heq5 : found .pml5 T.five.mem T.root5 v = found .pml5 T.five.mem T.root5 w := by
      have hmatch := (h.agree w hw).1.2
      apply found_agree
      intro k hk hle
      by_cases hk4 : k = 4
      · rw [hk4]
        exact walkIndex_low_eq hw hv
      · have hk' : k < 4 := by
          simp only [Paging.levels] at hk
          omega
        exact (hroute k hk' (by omega)).symm
    rw [← heq4] at hseen hlevel ⊢
    rw [← heq5]
    exact hg hseen hlevel bit hbit he
  refine ⟨⟨⟨place4', hs4'⟩, ⟨place5', hs5'⟩, hagree⟩, ?_⟩
  intro w e hw hgw hseen hlevel bit hbit he
  have hseen' : (found .pml5 s5.mem T.root5 w).seen = none := (hagree w hw).1.1.symm.trans hseen
  have hlevel' : leafLevel flags0 ≤ (found .pml5 s5.mem T.root5 w).level := by
    have hmatch := (hagree w hw).1.2
    have hlevel : leafLevel flags0 ≤ (found .pml4 s4.mem T.root4 w).level := hlevel
    omega
  simp only at hseen hlevel ⊢
  rw [hfound4 w] at hseen hlevel ⊢
  rw [hfound5 w] at hseen' hlevel' ⊢
  obtain ⟨hbefore, hrest⟩ := fill_unseen hseen
  obtain ⟨hbefore', hrest'⟩ := fill_unseen hseen'
  obtain ⟨hle, hreach⟩ := hrest hlevel
  obtain ⟨-, hreach'⟩ := hrest' hlevel'
  rw [← reach_rightsMark (m := flags4) _ hbit, ← reach_rightsMark (m := flags5) _ hbit, hreach, hreach',
    reach_rightsMark _ hbit, reach_rightsMark _ hbit]
  exact hgw hbefore hle bit hbit he

/-- INTERNAL: what does not change what addresses find. -/
theorem TwinSound.same_found {place4 place5 : Word → Option (List Index)} (h : TwinSound T)
    (h4 : TreeSound .pml4 T.root4 place4 s4) (h5 : TreeSound .pml5 T.root5 place5 s5)
    (hfound4 : ∀ w, found .pml4 s4.mem T.root4 w = found .pml4 T.four.mem T.root4 w)
    (hfound5 : ∀ w, found .pml5 s5.mem T.root5 w = found .pml5 T.five.mem T.root5 w) :
    TwinSound { T with four := s4, five := s5 } ∧ ∀ w leaf e, GrantAt T w flags4 flags5 leaf e →
      GrantAt { T with four := s4, five := s5 } w flags4 flags5 leaf e := by
  constructor
  · refine ⟨⟨place4, h4⟩, ⟨place5, h5⟩, ?_⟩
    intro w hw
    rw [hfound4 w, hfound5 w]
    exact h.agree w hw
  · intro w leaf e hg
    unfold GrantAt
    rw [hfound4 w, hfound5 w]
    exact hg

end Page

/-! ## The calls -/

section Calls

variable {T : Twin} {v flags flags0 : Word} {pa : ℤ} {s4 s5 : Vm}

/-- INTERNAL: the flags of pages. -/
theorem leafFlags_of_page (h : PageFlags flags) : LeafFlags flags := by
  refine ⟨h.1, ?_⟩
  have hmask : ~~~0x80000000000001ff#64 = ~~~0x1ff#64 &&& ~~~0x80000000000001ff#64 := by decide
  rw [hmask, ← BitVec.and_assoc, h.2]
  exact BitVec.zero_and

/-- INTERNAL: the flags that `map_range` gives to tables. -/
theorem directoryFlags_extra (p : Paging) (flags : Word) : DirectoryFlags (0x3 ||| extraFlags p flags) := by
  refine ⟨?_, extraFlags_low p flags⟩
  rw [BitVec.getLsbD_or, show (0x3 : Word).getLsbD 0 = true from rfl, Bool.true_or]

/-- INTERNAL: an entry at an aligned address has the low bits of its flags. -/
theorem getLsbD_or_aligned {f : Word} (hf : PageAligned 0 f) {bit : ℕ} (hbit : bit = 1 ∨ bit = 2) :
    (f ||| flags).getLsbD bit = flags.getLsbD bit := by
  rw [BitVec.getLsbD_or, hf.getLsbD_low (by omega), Bool.false_or]

/-- INTERNAL: the condition does not depend on the address bits of an entry. -/
theorem GrantAt.or_aligned {flags4 flags5 f : Word} {leaf : ℕ} (h : GrantAt T v flags4 flags5 leaf flags)
    (hf : PageAligned 0 f) : GrantAt T v flags4 flags5 leaf (f ||| flags) := by
  intro hseen hlevel bit hbit he
  rw [getLsbD_or_aligned hf hbit] at he
  exact h hseen hlevel bit hbit he

/-- INTERNAL: `map_page` of a 4 KiB page, and the frame that it takes. -/
theorem frames_mapPage_small {p : Paging} {root block : Word} {s s' : Vm} (hps : ¬ (flags &&& 0x80#64 ≠ 0))
    (hrun : Model.mapPage p s root v flags block pa = some s') : ∃ f s₁, s.calloc = some (f, s₁) ∧
      Model.mapPageRaw p s₁ root v f 0x3 flags pa = some s' ∧
      (TwinCall.mapPage v flags block pa).frames p root s = [f] := by
  obtain ⟨f, s₁, hcalloc, hraw⟩ := mapPage_small hps hrun
  obtain ⟨fs, hfree, -⟩ := calloc_eq_some hcalloc
  refine ⟨f, s₁, hcalloc, hraw, ?_⟩
  simp only [TwinCall.frames, MapCall.pages, if_neg hps, Vm.alloc, hfree]
  rfl

theorem TwinSound.mapPage {block : Word} (h : TwinSound T)
    (hallowed : (TwinCall.mapPage v flags block pa).Allowed T)
    (hg : (TwinCall.mapPage v flags block pa).Granted T)
    (h4 : Model.mapPage .pml4 T.four T.root4 v flags block pa = some s4)
    (h5 : Model.mapPage .pml5 T.five T.root5 v flags block pa = some s5) :
    TwinSound { T with four := s4, five := s5 } := by
  obtain ⟨⟨hv, hflags⟩, hframes, hblock4, hblock5⟩ := hallowed
  obtain ⟨place4, hs4⟩ := h.four
  obtain ⟨place5, hs5⟩ := h.five
  have hgrant : GrantAt T v 0x3 0x3 (leafLevel flags) flags := h.grantAt hv hg
  have hdir : DirectoryFlags 0x3 := by decide
  by_cases hps : flags &&& 0x80#64 ≠ 0
  · -- a block is cleared and mapped
    obtain ⟨haligned, hout4⟩ := hblock4 hps
    obtain ⟨-, hout5⟩ := hblock5 hps
    rw [Model.mapPage, if_pos hps] at h4 h5
    obtain ⟨hc4, hfound4⟩ := hs4.clearBlock hout4
    obtain ⟨hc5, hfound5⟩ := hs5.clearBlock hout5
    obtain ⟨hsound, hgrants⟩ := h.same_found hc4 hc5 hfound4 hfound5
    exact (hsound.mapPageRaw hv hdir hdir (leafFlags_of_page hflags)
      ((hgrants v _ flags hgrant).or_aligned haligned) h4 h5).1
  · -- both take the same frame
    obtain ⟨f, s₁, hcalloc4, hraw4, hf4⟩ := frames_mapPage_small hps h4
    obtain ⟨f', s₁', hcalloc5, hraw5, hf5⟩ := frames_mapPage_small hps h5
    rw [hf4, hf5] at hframes
    obtain rfl : f = f' := List.singleton_inj.mp hframes
    obtain ⟨hc4, hfound4, haligned⟩ := hs4.calloc hcalloc4
    obtain ⟨hc5, hfound5, -⟩ := hs5.calloc hcalloc5
    obtain ⟨hsound, hgrants⟩ := h.same_found hc4 hc5 hfound4 hfound5
    exact (hsound.mapPageRaw hv hdir hdir (leafFlags_of_page hflags)
      ((hgrants v _ flags hgrant).or_aligned haligned) hraw4 hraw5).1

/-- INTERNAL: the first page of `map_range`. -/
theorem mapRange_succ {p : Paging} {root : Word} {s s' : Vm} {cnt : ℕ}
    (hrun : Model.mapRange p root flags pa (cnt + 1) v s = some s') :
    ∃ f s₁ s₂, s.alloc = some (f, s₁) ∧
      Model.mapPageRaw p s₁ root v f (0x3 ||| extraFlags p flags) flags pa = some s₂ ∧
      Model.mapRange p root flags pa cnt (v + rangeStep flags) s₂ = some s' ∧
      (rangePages p root flags pa (cnt + 1) v s).map PageRecord.base =
        f :: (rangePages p root flags pa cnt (v + rangeStep flags) s₂).map PageRecord.base := by
  rw [Model.mapRange] at hrun
  cases halloc : s.alloc with
  | none =>
    rw [halloc] at hrun
    cases hrun
  | some x =>
    obtain ⟨f, s₁⟩ := x
    simp only [halloc] at hrun
    cases hraw : Model.mapPageRaw p s₁ root v f (0x3 ||| extraFlags p flags) flags pa with
    | none =>
      rw [hraw] at hrun
      cases hrun
    | some s₂ =>
      simp only [hraw] at hrun
      refine ⟨f, s₁, s₂, rfl, hraw, hrun, ?_⟩
      simp only [rangePages, halloc, hraw, List.map_cons]

/-- **`map_range` on both tables**, by induction on the number of pages. -/
theorem TwinSound.mapRange {cnt : ℕ} (h : TwinSound T) (hflags : PageFlags flags)
    (hlow : ∀ k < cnt, LowAddress (v + BitVec.ofNat 64 k * rangeStep flags))
    (hg : ∀ k < cnt, GrantAt T (v + BitVec.ofNat 64 k * rangeStep flags) (0x3 ||| extraFlags .pml4 flags)
      (0x3 ||| extraFlags .pml5 flags) (leafLevel flags) flags)
    (hframes : (rangePages .pml4 T.root4 flags pa cnt v T.four).map PageRecord.base =
      (rangePages .pml5 T.root5 flags pa cnt v T.five).map PageRecord.base)
    (h4 : Model.mapRange .pml4 T.root4 flags pa cnt v T.four = some s4)
    (h5 : Model.mapRange .pml5 T.root5 flags pa cnt v T.five = some s5) :
    TwinSound { T with four := s4, five := s5 } := by
  induction cnt generalizing v T with
  | zero =>
    obtain rfl : T.four = s4 := Option.some.inj h4
    obtain rfl : T.five = s5 := Option.some.inj h5
    exact h
  | succ cnt ih =>
    obtain ⟨f, four₁, four₂, halloc4, hraw4, hrest4, hf4⟩ := mapRange_succ h4
    obtain ⟨f', five₁, five₂, halloc5, hraw5, hrest5, hf5⟩ := mapRange_succ h5
    rw [hf4, hf5] at hframes
    obtain ⟨rfl, htail⟩ := List.cons.inj hframes
    obtain ⟨place4, hs4⟩ := h.four
    obtain ⟨place5, hs5⟩ := h.five
    obtain ⟨hc4, hfound4, haligned⟩ := hs4.alloc halloc4
    obtain ⟨hc5, hfound5, -⟩ := hs5.alloc halloc5
    obtain ⟨hsound₁, hgrants₁⟩ := h.same_found hc4 hc5 hfound4 hfound5
    have hfirst : v + BitVec.ofNat 64 0 * rangeStep flags = v := by
      rw [BitVec.zero_mul, BitVec.add_zero]
    have hv : LowAddress v := hfirst ▸ hlow 0 (Nat.succ_pos cnt)
    have hgv := hfirst ▸ hg 0 (Nat.succ_pos cnt)
    obtain ⟨hsound₂, hgrants₂⟩ := hsound₁.mapPageRaw hv (directoryFlags_extra .pml4 flags)
      (directoryFlags_extra .pml5 flags) (leafFlags_of_page hflags) ((hgrants₁ v _ flags hgv).or_aligned haligned)
      hraw4 hraw5
    refine ih (T := ⟨four₂, T.root4, five₂, T.root5⟩) hsound₂ ?_ ?_ htail hrest4 hrest5
    · intro k hk
      rw [← add_ofNat_succ_mul]
      exact hlow (k + 1) (Nat.succ_lt_succ hk)
    · intro k hk
      have hlow' := hlow (k + 1) (Nat.succ_lt_succ hk)
      have hgk := hgrants₁ _ _ flags (hg (k + 1) (Nat.succ_lt_succ hk))
      rw [add_ofNat_succ_mul] at hlow' hgk
      exact hgrants₂ _ flags hlow' hgk

/-- INTERNAL: the pages of a range that ends below `2 ^ 47`. -/
theorem lowAddress_range {cnt k : ℕ} (h : v.toNat + cnt * (rangeStep flags).toNat ≤ 2 ^ 47) (hk : k < cnt) :
    LowAddress (v + BitVec.ofNat 64 k * rangeStep flags) := by
  have hpos : 0 < (rangeStep flags).toNat := by
    unfold rangeStep
    split
    · decide
    · decide
  have hmul : k * (rangeStep flags).toNat < cnt * (rangeStep flags).toNat :=
    Nat.mul_lt_mul_of_pos_right hk hpos
  have hle : (v + BitVec.ofNat 64 k * rangeStep flags).toNat ≤
      v.toNat + k * (rangeStep flags).toNat := by
    rw [BitVec.toNat_add, BitVec.toNat_mul, BitVec.toNat_ofNat]
    calc (v.toNat + k % 2 ^ 64 * (rangeStep flags).toNat % 2 ^ 64) % 2 ^ 64
        ≤ v.toNat + k % 2 ^ 64 * (rangeStep flags).toNat % 2 ^ 64 := Nat.mod_le _ _
      _ ≤ v.toNat + k % 2 ^ 64 * (rangeStep flags).toNat := Nat.add_le_add_left (Nat.mod_le _ _) _
      _ ≤ v.toNat + k * (rangeStep flags).toNat :=
        Nat.add_le_add_left (Nat.mul_le_mul_right _ (Nat.mod_le _ _)) _
  exact Nat.lt_of_le_of_lt hle (Nat.lt_of_lt_of_le (Nat.add_lt_add_left hmul _) h)

/-- INTERNAL: the flags of tables. -/
theorem directoryFlags_of_table (h : TableFlags flags) : DirectoryFlags flags := h

/-- **One call** keeps the tables together. -/
theorem TwinSound.step {T' : Twin} {c : TwinCall} (h : TwinSound T) (hstep : twinStep T c T') :
    TwinSound T' := by
  obtain ⟨hg, hallowed, h4, h5, hroot4, hroot5⟩ := hstep
  obtain ⟨four, root4, five, root5⟩ := T'
  obtain rfl : root4 = T.root4 := hroot4
  obtain rfl : root5 = T.root5 := hroot5
  cases c with
  | mapPage v flags block pa => exact h.mapPage hallowed hg h4 h5
  | mapPageRaw v paddr flags1 flags0 pa =>
    obtain ⟨⟨hv, hflags1, hflags0⟩, -⟩ := hallowed
    exact (h.mapPageRaw hv (directoryFlags_of_table hflags1)
      (directoryFlags_of_table hflags1) (leafFlags_of_page hflags0)
      (h.grantAt hv hg) h4 h5).1
  | mapRange v flags cnt pa =>
    obtain ⟨⟨hend, hflags⟩, hframes, -⟩ := hallowed
    have hlow : ∀ k < cnt, LowAddress (v + BitVec.ofNat 64 k * rangeStep flags) :=
      fun k hk => lowAddress_range hend hk
    have hfour : 0x3 ||| extraFlags .pml4 flags = 0x3 := BitVec.or_zero
    refine h.mapRange hflags hlow ?_ hframes h4 h5
    intro k hk
    rw [hfour]
    exact h.grantAt (hlow k hk) (hg k hk)

end Calls

/-! ## The run -/

theorem twinSound_empty {T : Twin} (h : T.Empty) : TwinSound T := by
  obtain ⟨hfour, hfound4⟩ := treeSound_empty (p := .pml4) h.1
  obtain ⟨hfive, hfound5⟩ := treeSound_empty (p := .pml5) h.2
  refine ⟨hfour, hfive, ?_⟩
  intro v _
  rw [hfound4 v, hfound5 v]
  refine ⟨⟨rfl, Or.inr ⟨rfl, rfl, rfl⟩⟩, ?_⟩
  intro y hy
  cases hy

/-- **The two classes of tables agree** after any calls that meet the condition: every address below
`2 ^ 47` is translated to the same address and may be used in the same way.
SRCLINE: kernel/mm/vmm.cpp:125-191, 211-288, 308-326, 343-365, 383-397, 399-413, 431-445, 447-461 -/
theorem twin_tables_agree (T₀ T : Twin) (calls : List TwinCall) (h₀ : T₀.Empty)
    (h : Run twinStep T₀ calls T) : T.Agree := by
  have hsound : TwinSound T :=
    Run.invariant TwinSound (fun _ _ _ hs hstep => hs.step hstep) h (twinSound_empty h₀)
  exact hsound.agrees

/-! ## Two ranges -/

/-- Empty tables in the frame `0x1000` of either memory. -/
def emptyTwin : Twin where
  four := ⟨fun _ _ => 0, [0x2000, 0x3000, 0x4000, 0x5000, 0x9000]⟩
  root4 := 0x1000
  five := ⟨fun _ _ => 0, [0x2000, 0x3000, 0x4000, 0x5000, 0x6000, 0x9000]⟩
  root5 := 0x1000

theorem emptyTwin_empty : emptyTwin.Empty := by
  have h4 : ∀ f ∈ emptyTwin.four.free, PageAligned 0 f := by
    simp only [emptyTwin, List.forall_mem_cons]
    refine ⟨by decide, by decide, by decide, by decide, by decide, ?_⟩
    intro f hf
    cases hf
  have h5 : ∀ f ∈ emptyTwin.five.free, PageAligned 0 f := by
    simp only [emptyTwin, List.forall_mem_cons]
    refine ⟨by decide, by decide, by decide, by decide, by decide, by decide, ?_⟩
    intro f hf
    cases hf
  exact ⟨⟨fun _ => rfl, by decide, h4, by decide⟩, ⟨fun _ => rfl, by decide, h5, by decide⟩⟩

/-- INTERNAL: the tables after a computed call. -/
theorem exists_twinAnyStep {A : Type} {T : Twin} {c : TwinCall} (hallowed : c.Allowed T) (f g : Vm → A)
    {a b : A} (h4 : (c.exec .pml4 T.root4 T.four).map f = some a)
    (h5 : (c.exec .pml5 T.root5 T.five).map g = some b) : ∃ T', twinAnyStep T c T' ∧ f T'.four = a ∧
      g T'.five = b ∧ T'.root4 = T.root4 ∧ T'.root5 = T.root5 := by
  obtain ⟨four, hfour, ha⟩ := Option.map_eq_some_iff.mp h4
  obtain ⟨five, hfive, hb⟩ := Option.map_eq_some_iff.mp h5
  exact ⟨⟨four, T.root4, five, T.root5⟩, ⟨hallowed, hfour, hfive, rfl, rfl⟩, ha, hb, rfl, rfl⟩

/-- Two writable pages of the kernel at `0x400000`. -/
theorem twin_tables_agree_kernelRange : ∃ T,
    Run twinStep emptyTwin [.mapRange 0x400000 0x3 2 (-1)] T ∧
    effective .pml4 T.four.mem T.root4 0x401234 = some (0x9234, true, false) ∧ T.Agree := by
  have hallowed : (TwinCall.mapRange 0x400000 0x3 2 (-1)).Allowed emptyTwin :=
    ⟨⟨by decide, by decide⟩, by decide +kernel, trivial, trivial⟩
  obtain ⟨T, hstep, haccess, -, hroot, -⟩ := exists_twinAnyStep hallowed
    (fun s => effective .pml4 s.mem 0x1000 0x401234) (fun s => effective .pml5 s.mem 0x1000 0x401234)
    (a := some (0x9234, true, false)) (b := some (0x9234, true, false)) (by decide +kernel)
    (by decide +kernel)
  have hgranted : (TwinCall.mapRange 0x400000 0x3 2 (-1)).Granted emptyTwin := by
    intro k _ _ bit _ _
    rfl
  have hrun : Run twinStep emptyTwin [.mapRange 0x400000 0x3 2 (-1)] T := Run.single ⟨hgranted, hstep⟩
  exact ⟨T, hrun, by rw [hroot]; exact haccess, twin_tables_agree _ _ _ emptyTwin_empty hrun⟩

/-- **A user page of `map_range` can be used by the user only with 5 levels**: the tables that the call
makes for 4 levels do not get the user bit.
SRCLINE: kernel/mm/vmm.cpp:308-326, 343-365 -/
theorem twin_tables_disagree : ∃ T,
    Run twinAnyStep emptyTwin [.mapRange 0x400000 0x7 1 (-1)] T ∧ ¬ T.Agree := by
  have hallowed : (TwinCall.mapRange 0x400000 0x7 1 (-1)).Allowed emptyTwin :=
    ⟨⟨by decide, by decide⟩, by decide +kernel, trivial, trivial⟩
  obtain ⟨T, hstep, h4, h5, hroot4, hroot5⟩ := exists_twinAnyStep hallowed
    (fun s => effective .pml4 s.mem 0x1000 0x400000) (fun s => effective .pml5 s.mem 0x1000 0x400000)
    (a := some (0x2000, true, false)) (b := some (0x2000, true, true)) (by decide +kernel)
    (by decide +kernel)
  refine ⟨T, Run.single hstep, ?_⟩
  intro hagree
  have hsame := hagree 0x400000 (by decide)
  rw [hroot4, hroot5] at hsame
  have hsame := h4.symm.trans (hsame.trans h5)
  cases hsame

end CrepOS.Analysis
