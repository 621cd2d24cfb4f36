import CrepOS.Library.RadixTree
import CrepOS.Model.Vmm

/-!
# The page walk of the processor

`translate` is what the hardware does with a virtual address: it starts at the top table, takes nine
address bits as the index at each level, and ends at a page or with a fault. A level is counted from
below: level `0` entries map 4 KiB pages, level `1` entries 2 MiB pages or tables, level `2` entries
1 GiB pages or tables. Bits 12 to 51 of an entry are the address of a table or of a page; the
address of a larger page is its upper part. A set bit 7 above level `2` is reserved and faults.

`TableTree` is the shape the page tables are kept in: the non-zero entries that are not pages are
present, have bits 52 to 63 clear and point to pairwise different frames.
-/

set_option autoImplicit false

namespace CrepOS.Interface

open CrepOS.Library CrepOS.Model

/-- How a walk ends: at a page mapped by the entry `e` of level `n`, or with a fault. -/
inductive WalkEnd
  | fault
  | page (n : ℕ) (e : Word)
  deriving DecidableEq, Repr

/-- The index that a walk uses at level `n`. -/
def walkIndex (vaddr : Word) (n : ℕ) : Index := vaddr.extractLsb' (12 + 9 * n) 9

/-- What a walk does with an entry of level `n`. -/
def walkStep (n : ℕ) (e : Word) : Word ⊕ WalkEnd :=
  if e.getLsbD 0 = false then .inr .fault
  else if n = 0 then .inr (.page 0 e)
  else if e.getLsbD 7 then (if n ≤ 2 then .inr (.page n e) else .inr .fault)
  else .inl (e &&& 0x000ffffffffff000#64)

/-- The offset bits of an address in a page of level `n`. -/
def pageMask (n : ℕ) : Word := BitVec.ofNat 64 (2 ^ (12 + 9 * n) - 1)

/-- The address of the page that an entry of level `n` maps. -/
def pageBase (n : ℕ) (e : Word) : Word := e &&& 0x000ffffffffff000#64 &&& ~~~pageMask n

/-- **The walk** of a virtual address from the table in frame `root`. -/
def walk (p : Paging) (mem : Word → Index → Word) (root vaddr : Word) : Option WalkEnd :=
  descend walkStep mem p.levels root (walkIndex vaddr)

/-- **The translation of a virtual address**, `none` for a fault. -/
def translate (p : Paging) (mem : Word → Index → Word) (root vaddr : Word) : Option Word :=
  match walk p mem root vaddr with
  | some (.page n e) => some (pageBase n e ||| (vaddr &&& pageMask n))
  | _ => none

/-- A canonical address: the bits above the translated ones repeat the topmost of them. -/
def Canonical (p : Paging) (vaddr : Word) : Prop :=
  (vaddr.setWidth (12 + 9 * p.levels)).signExtend 64 = vaddr

/-- An address below `2 ^ 52` that is aligned to the pages of level `n`. -/
def PageAligned (n : ℕ) (paddr : Word) : Prop := paddr.toNat < 2 ^ 52 ∧ paddr &&& pageMask n = 0

/-- Two addresses lie in one page of level `n`. -/
def SamePage (n : ℕ) (v w : Word) : Prop := v >>> (12 + 9 * n) = w >>> (12 + 9 * n)

instance (p : Paging) (v : Word) : Decidable (Canonical p v) := inferInstanceAs (Decidable (_ = _))

instance (n : ℕ) (v w : Word) : Decidable (SamePage n v w) := inferInstanceAs (Decidable (_ = _))

instance (n : ℕ) (v : Word) : Decidable (PageAligned n v) := inferInstanceAs (Decidable (_ ∧ _))

/-- An entry of level `n` maps a page. -/
def isLeaf (n : ℕ) (e : Word) : Bool := n = 0 || (n ≤ 2 && e.getLsbD 7)

/-- The table that an entry of level `n` points to: every non-zero entry that is not a page. -/
def tableBelow (n : ℕ) (e : Word) : Option Word :=
  if e = 0 ∨ isLeaf n e then none else some (frameOf e)

/-- The condition on an entry of level `n`: if it points to a table, it is present and its bits 52
to 63 are clear. -/
def GoodEntry (n : ℕ) (e : Word) : Prop :=
  (tableBelow n e).isSome → e.getLsbD 0 = true ∧ ∀ k, 52 ≤ k → e.getLsbD k = false

/-- The frames reached from `root` are the nodes of a tree with good entries. -/
def TableTree (p : Paging) (mem : Word → Index → Word) (root : Word) : Prop :=
  IsTree tableBelow GoodEntry mem p.levels root

/-- The frames of the tables reached from `root`. -/
def InTables (p : Paging) (mem : Word → Index → Word) (root : Word) : Word → Prop :=
  InTree tableBelow mem p.levels root

/-- The path of `vaddr` from the table `t` of height `n` down to the entries of level `leaf` meets a
zero entry before any entry that is huge or not present. -/
def MeetsZero (leaf : ℕ) (mem : Word → Index → Word) (vaddr : Word) : ℕ → Word → Prop
  | 0, _ => False
  | n + 1, t =>
    mem t (walkIndex vaddr n) = 0 ∨
      leaf < n ∧ (mem t (walkIndex vaddr n)).getLsbD 0 = true ∧
        (mem t (walkIndex vaddr n)).getLsbD 7 = false ∧
        MeetsZero leaf mem vaddr n (frameOf (mem t (walkIndex vaddr n)))

/-! ## Entries -/

/-- INTERNAL: the bits of the low mask `2 ^ w - 1`. -/
theorem getLsbD_lowMask (w k : ℕ) (hk : k < 64) :
    (BitVec.ofNat 64 (2 ^ w - 1)).getLsbD k = decide (k < w) := by
  rw [BitVec.getLsbD_ofNat, Nat.testBit_two_pow_sub_one]
  simp [hk]

theorem tableIndex_eq_walkIndex (n : ℕ) (vaddr : Word) :
    tableIndex n vaddr = walkIndex vaddr n := by
  unfold tableIndex walkIndex
  apply BitVec.eq_of_getLsbD_eq
  intro i hi
  have hmask : (0x1ff#64).getLsbD i = true := by
    have h := getLsbD_lowMask 9 i (by omega)
    simpa [hi] using h
  rw [BitVec.getLsbD_setWidth, BitVec.getLsbD_and, hmask, BitVec.getLsbD_extractLsb']
  simp [hi]

/-- INTERNAL: a word meets a single bit when that bit of it is set. -/
theorem and_twoPow_ne_zero (e : Word) (k : ℕ) (hk : k < 64) :
    ((e &&& BitVec.twoPow 64 k) != 0) = e.getLsbD k := by
  rw [BitVec.and_twoPow]
  cases he : e.getLsbD k with
  | false => simp
  | true =>
    have hne : BitVec.twoPow 64 k ≠ 0#64 := by
      intro h
      have hbit := congrArg (fun x => x.getLsbD k) h
      simp [hk] at hbit
    simpa using hne

theorem isPresent_eq (e : Word) : isPresent e = e.getLsbD 0 := and_twoPow_ne_zero e 0 (by omega)

theorem isHuge_eq (e : Word) : isHuge e = e.getLsbD 7 := and_twoPow_ne_zero e 7 (by omega)

theorem getLsbD_frameOf (e : Word) (k : ℕ) :
    (frameOf e).getLsbD k = (decide (12 ≤ k) && e.getLsbD k) := by
  by_cases hk : k < 64
  · have hmask : (0xfff#64).getLsbD k = decide (k < 12) := getLsbD_lowMask 12 k hk
    rw [frameOf, BitVec.getLsbD_and, BitVec.getLsbD_not, hmask]
    by_cases h12 : 12 ≤ k
    · simp [hk, h12]
    · have hlt : k < 12 := by omega
      simp [h12, hlt]
  · rw [BitVec.getLsbD_of_ge _ _ (by omega), BitVec.getLsbD_of_ge e _ (by omega), Bool.and_false]

theorem getLsbD_pageMask (n k : ℕ) (hk : k < 64) :
    (pageMask n).getLsbD k = decide (k < 12 + 9 * n) :=
  getLsbD_lowMask (12 + 9 * n) k hk

/-- INTERNAL: the address field of an entry as the difference of two low masks. -/
theorem getLsbD_addressMask (k : ℕ) (hk : k < 64) :
    (0x000ffffffffff000#64).getLsbD k = (decide (12 ≤ k) && decide (k < 52)) := by
  have hsplit : 0x000ffffffffff000#64 = ~~~0xfff#64 &&& 0xfffffffffffff#64 := by decide
  have hlow : (0xfff#64).getLsbD k = decide (k < 12) := getLsbD_lowMask 12 k hk
  have hhigh : (0xfffffffffffff#64).getLsbD k = decide (k < 52) := getLsbD_lowMask 52 k hk
  rw [hsplit, BitVec.getLsbD_and, BitVec.getLsbD_not, hlow, hhigh]
  by_cases h12 : 12 ≤ k
  · have hlt : ¬ k < 12 := by omega
    simp [hk, h12, hlt]
  · have hlt : k < 12 := by omega
    simp [h12, hlt]

theorem PageAligned.getLsbD_low {n : ℕ} {f : Word} (h : PageAligned n f) {k : ℕ}
    (hk : k < 12 + 9 * n) : f.getLsbD k = false := by
  by_cases hk64 : k < 64
  · have hbit := congrArg (fun x => x.getLsbD k) h.2
    simp only [BitVec.getLsbD_and, getLsbD_pageMask n k hk64, hk] at hbit
    simpa using hbit
  · exact BitVec.getLsbD_of_ge _ _ (by omega)

theorem PageAligned.getLsbD_high {n : ℕ} {f : Word} (h : PageAligned n f) {k : ℕ} (hk : 52 ≤ k) :
    f.getLsbD k = false := by
  apply Nat.testBit_lt_two_pow
  exact Nat.lt_of_lt_of_le h.1 (Nat.pow_le_pow_right (by omega) hk)

theorem getLsbD_walkIndex (v : Word) (n j : ℕ) (hj : j < 9) :
    (walkIndex v n).getLsbD j = v.getLsbD (12 + 9 * n + j) := by
  rw [walkIndex, BitVec.getLsbD_extractLsb']
  simp [hj]

/-! ## The walk and the tree -/

/-- INTERNAL: without bits 52 to 63 the address field of an entry is its frame. -/
theorem addressField_eq_frameOf (e : Word) (h : ∀ k, 52 ≤ k → e.getLsbD k = false) :
    e &&& 0x000ffffffffff000#64 = frameOf e := by
  apply BitVec.eq_of_getLsbD_eq
  intro k hk
  rw [BitVec.getLsbD_and, getLsbD_addressMask k hk, getLsbD_frameOf]
  by_cases h52 : 52 ≤ k
  · simp [h k h52]
  · have hlt : k < 52 := by omega
    simp [hlt, Bool.and_comm]

theorem walkStep_zero (n : ℕ) : walkStep n 0 = .inr .fault := by
  simp [walkStep]

/-- INTERNAL: a present entry above level `0` without bit 7 is a pointer to a table. -/
theorem tableBelow_of_not_huge {n : ℕ} {e : Word} (hn : n ≠ 0) (hp : e.getLsbD 0 = true)
    (hh : e.getLsbD 7 = false) : tableBelow n e = some (frameOf e) := by
  have hne : e ≠ 0 := by
    rintro rfl
    simp at hp
  have hleaf : isLeaf n e = false := by
    rw [isLeaf, hh]
    simp [hn]
  rw [tableBelow, if_neg (by simp only [hleaf, Bool.false_eq_true, or_false]; exact hne)]

theorem walkStep_of_not_huge {n : ℕ} {e : Word} (hn : n ≠ 0) (hp : e.getLsbD 0 = true)
    (hh : e.getLsbD 7 = false) (hgood : GoodEntry n e) : walkStep n e = .inl (frameOf e) := by
  have hbelow := tableBelow_of_not_huge hn hp hh
  have hclear := (hgood (by rw [hbelow]; rfl)).2
  rw [walkStep, if_neg (by rw [hp]; exact Bool.noConfusion), if_neg hn,
    if_neg (by rw [hh]; exact Bool.noConfusion), addressField_eq_frameOf e hclear]

/-- **The walk follows the tree**: from a good entry it goes to the table below. -/
theorem walkStep_follows (n : ℕ) (e c : Word) (hgood : GoodEntry n e)
    (h : walkStep n e = .inl c) : tableBelow n e = some c := by
  have hcases : e.getLsbD 0 = true ∧ n ≠ 0 ∧ e.getLsbD 7 = false := by
    unfold walkStep at h
    split at h
    · cases h
    · split at h
      · cases h
      · split at h
        · split at h
          · cases h
          · cases h
        · simp_all
  obtain ⟨hp, hn, hh⟩ := hcases
  have hstep := walkStep_of_not_huge hn hp hh hgood
  rw [hstep] at h
  rw [tableBelow_of_not_huge hn hp hh, Sum.inl.inj h]

/-- A way of reading the tables that follows the tree, like the walk: it goes from a pointer to the
table below, from no other entry to a table, and ends with `z` at a zero entry. -/
structure Follows {R : Type} (step : ℕ → Word → Word ⊕ R) (z : R) : Prop where
  child : ∀ n e c, GoodEntry n e → step n e = .inl c → tableBelow n e = some c
  pointer : ∀ n e, n ≠ 0 → e.getLsbD 0 = true → e.getLsbD 7 = false → GoodEntry n e →
    step n e = .inl (frameOf e)
  zero : ∀ n, step n 0 = .inr z

theorem follows_walkStep : Follows walkStep .fault :=
  ⟨walkStep_follows, fun _ _ hn hp hh hgood => walkStep_of_not_huge hn hp hh hgood, walkStep_zero⟩

/-! ## Pages -/

/-- Addresses of one page of level `leaf` use the same indices down to that level. -/
theorem SamePage.walkIndex_eq {leaf : ℕ} {v w : Word} (h : SamePage leaf v w) {k : ℕ}
    (hk : leaf ≤ k) : walkIndex w k = walkIndex v k := by
  apply BitVec.eq_of_getLsbD_eq
  intro j hj
  rw [getLsbD_walkIndex w k j hj, getLsbD_walkIndex v k j hj]
  have hbit := congrArg (fun x => x.getLsbD (9 * (k - leaf) + j)) h
  simp only [BitVec.getLsbD_ushiftRight] at hbit
  have hpos : 12 + 9 * leaf + (9 * (k - leaf) + j) = 12 + 9 * k + j := by omega
  rw [hpos] at hbit
  exact hbit.symm

/-- INTERNAL: the bits above the translated ones of a canonical address. -/
theorem Canonical.getLsbD_high {p : Paging} {v : Word} (h : Canonical p v) {k : ℕ}
    (hk : 12 + 9 * p.levels ≤ k) (hk64 : k < 64) :
    v.getLsbD k = v.getLsbD (11 + 9 * p.levels) := by
  have htop := congrArg (fun x => x.getLsbD k) h
  simp only [BitVec.getLsbD_signExtend, BitVec.msb_setWidth] at htop
  rw [if_neg (by omega)] at htop
  have hpos : 12 + 9 * p.levels - 1 = 11 + 9 * p.levels := by omega
  have hwidth : 0 < 12 + 9 * p.levels := by omega
  rw [hpos] at htop
  rw [← htop]
  simp [hk64, hwidth]

/-- Canonical addresses that use the same indices down to level `leaf` lie in one page. -/
theorem samePage_of_walkIndex {p : Paging} {leaf : ℕ} {v w : Word} (hleaf : leaf < p.levels)
    (hv : Canonical p v) (hw : Canonical p w)
    (h : ∀ k, leaf ≤ k → k < p.levels → walkIndex w k = walkIndex v k) : SamePage leaf v w := by
  -- the translated bits, from the index that holds them
  have hlow : ∀ k, 12 + 9 * leaf ≤ k → k < 12 + 9 * p.levels → v.getLsbD k = w.getLsbD k := by
    intro k hk hk'
    have hidx := h ((k - 12) / 9) (by omega) (by omega)
    have hbit := congrArg (fun x => x.getLsbD ((k - 12) % 9)) hidx
    have hpos : 12 + 9 * ((k - 12) / 9) + (k - 12) % 9 = k := by omega
    simp only [getLsbD_walkIndex _ _ _ (Nat.mod_lt (k - 12) (by omega : 9 > 0)), hpos] at hbit
    exact hbit.symm
  apply BitVec.eq_of_getLsbD_eq
  intro j hj
  rw [BitVec.getLsbD_ushiftRight, BitVec.getLsbD_ushiftRight]
  by_cases h64 : 12 + 9 * leaf + j < 64
  · by_cases hin : 12 + 9 * leaf + j < 12 + 9 * p.levels
    · exact hlow _ (by omega) hin
    · rw [hv.getLsbD_high (by omega) h64, hw.getLsbD_high (by omega) h64]
      exact hlow _ (by omega) (by omega)
  · rw [BitVec.getLsbD_of_ge _ _ (by omega), BitVec.getLsbD_of_ge _ _ (by omega)]

end CrepOS.Interface
