import CrepOS.Interface.IoapicRanges

/-!
# The I/O APICs

`max_gsi` is the number of the last entry of its I/O APIC, with bit 7 cleared, but it is compared with the
numbers of interrupts, which begin with `gsi_base`. So `ioapic_validate` finds the right I/O APIC for all
interrupts only if there is just one, with base 0 and at most 128 entries (`validates_iff`), and
`mask_all_gsi` leaves out the last entry in any case (`masksAll_iff`). `unmask_gsi` keeps the mask bit and
clears all others (`restores_iff`). The redirections that `apic::init` writes are those that the tables ask for, as
far as an I/O APIC is found (`irqs_routed`).
-/

set_option autoImplicit false

namespace CrepOS.Analysis

open CrepOS.Library CrepOS.Model CrepOS.Interface

/-! ## Entries -/

theorem mask_or_self_iff (entry : BitVec 64) : entry ||| 0x10000 = entry ↔ MaskSet entry := by
  unfold MaskSet
  constructor
  · intro h
    rw [← h]
    simp
  · intro h
    apply BitVec.eq_of_getLsbD_eq
    intro i hi
    rw [BitVec.getLsbD_or]
    by_cases hbit : i = 16
    · rw [hbit, h, Bool.true_or]
    · have hzero : (0x10000 : BitVec 64).getLsbD i = false := by
        rw [show (0x10000 : BitVec 64) = BitVec.twoPow 64 16 from rfl, BitVec.getLsbD_twoPow]
        simp [Ne.symm hbit]
      rw [hzero, Bool.or_false]

theorem mask_and_mask (entry : BitVec 64) : (entry ||| 0x10000) &&& 0x10000 = 0x10000 := by
  apply BitVec.eq_of_getLsbD_eq
  intro i hi
  rw [BitVec.getLsbD_and, BitVec.getLsbD_or]
  cases (0x10000#64).getLsbD i <;> simp

/-- INTERNAL: a value is its two halves. -/
theorem halves_eq (data : BitVec 64) :
    (data.setWidth 32).setWidth 64 ||| ((data >>> 32).setWidth 32).setWidth 64 <<< 32 = data := by
  apply BitVec.eq_of_getLsbD_eq
  intro i hi
  simp only [BitVec.getLsbD_or, BitVec.getLsbD_setWidth, BitVec.getLsbD_shiftLeft, BitVec.getLsbD_ushiftRight]
  by_cases hlow : i < 32
  · simp [hlow, hi]
  · have hplus : 32 + (i - 32) = i := by omega
    simp [hlow, hi, hplus, show i - 32 < 32 by omega, show i - 32 < 64 by omega]

section Registers

variable {st : IoapicState} {a : RawMadt1} {k j : ℕ}

/-- INTERNAL: the register of an entry.
SRCLINE: kernel/int/apic.cpp:21, 26 -/
theorem gsiOf_reg : (gsiOf a k - a.gsiBase) * 2 + 16 = redirectionReg k := by
  unfold gsiOf redirectionReg
  bv_omega

theorem redirectionReg_ne (hk : k < 256) (hj : j < 256) (hne : k ≠ j) :
    redirectionReg k ≠ redirectionReg j ∧ redirectionReg k ≠ redirectionReg j + 1 ∧
      redirectionReg k + 1 ≠ redirectionReg j ∧ redirectionReg k + 1 ≠ redirectionReg j + 1 := by
  unfold redirectionReg
  refine ⟨?_, ?_, ?_, ?_⟩ <;> bv_omega

theorem redirectionReg_ne_one (hk : k < 256) : redirectionReg k ≠ 1 ∧ redirectionReg k + 1 ≠ 1 := by
  unfold redirectionReg
  constructor <;> bv_omega

theorem redirectionReg_ne_next : redirectionReg k ≠ redirectionReg k + 1 := by
  bv_omega

/-- INTERNAL: a read changes no register. -/
theorem ioapicRead_regs (st : IoapicState) (a : RawMadt1) (reg addr : BitVec 32) :
    ((ioapicRead st a reg).2 addr).regs = (st addr).regs := by
  unfold ioapicRead
  by_cases haddr : addr = a.ioapicAddr
  · rw [haddr]
    simp
  · simp [Function.update_of_ne haddr]

theorem ioapicRead_value (st : IoapicState) (a : RawMadt1) (reg : BitVec 32) :
    (ioapicRead st a reg).1 = (st a.ioapicAddr).regs reg := rfl

theorem readRedirection_regs (st : IoapicState) (a : RawMadt1) (gsi addr : BitVec 32) :
    ((readRedirection st a gsi).2 addr).regs = (st addr).regs := by
  simp only [readRedirection, ioapicRead_regs]

theorem readRedirection_value (st : IoapicState) (a : RawMadt1) (k : ℕ) :
    (readRedirection st a (gsiOf a k)).1 = redirection (st a.ioapicAddr) k := by
  simp only [readRedirection, gsiOf_reg, ioapicRead_value, ioapicRead_regs, redirection]

/-- INTERNAL: registers of other entries and of other I/O APICs are not written. -/
theorem writeRedirection_other (st : IoapicState) (a : RawMadt1) (k : ℕ) (data : BitVec 64) (addr reg : BitVec 32)
    (h : addr = a.ioapicAddr → reg ≠ redirectionReg k ∧ reg ≠ redirectionReg k + 1) :
    (writeRedirection st a (gsiOf a k) data addr).regs reg = (st addr).regs reg := by
  simp only [writeRedirection, gsiOf_reg, ioapicWrite]
  by_cases haddr : addr = a.ioapicAddr
  · obtain ⟨hlow, hhigh⟩ := h haddr
    rw [haddr]
    simp only [Function.update_self]
    rw [Function.update_of_ne hhigh, Function.update_of_ne hlow]
  · simp [Function.update_of_ne haddr]

theorem writeRedirection_entry (st : IoapicState) (a : RawMadt1) (k : ℕ) (data : BitVec 64) :
    redirection (writeRedirection st a (gsiOf a k) data a.ioapicAddr) k = data := by
  simp only [writeRedirection, gsiOf_reg, ioapicWrite, redirection, Function.update_self,
    Function.update_of_ne redirectionReg_ne_next]
  exact halves_eq data

/-- INTERNAL: an entry depends on its registers only. -/
theorem redirection_congr {d d' : IoapicDevice} (hlow : d'.regs (redirectionReg k) = d.regs (redirectionReg k))
    (hhigh : d'.regs (redirectionReg k + 1) = d.regs (redirectionReg k + 1)) :
    redirection d' k = redirection d k := by
  rw [redirection, redirection, hlow, hhigh]

/-- **`mask_gsi`** sets the mask bit of its entry.
SRCLINE: kernel/int/apic.cpp:31-33 -/
theorem maskGsi_entry (st : IoapicState) (a : RawMadt1) (k : ℕ) :
    redirection (maskGsi st a (gsiOf a k) a.ioapicAddr) k =
      redirection (st a.ioapicAddr) k ||| 0x10000 := by
  simp only [maskGsi]
  rw [writeRedirection_entry, readRedirection_value]
  rfl

theorem maskGsi_other (st : IoapicState) (a : RawMadt1) (k : ℕ) (addr reg : BitVec 32)
    (h : addr = a.ioapicAddr → reg ≠ redirectionReg k ∧ reg ≠ redirectionReg k + 1) :
    (maskGsi st a (gsiOf a k) addr).regs reg = (st addr).regs reg := by
  simp only [maskGsi]
  rw [writeRedirection_other _ _ _ _ _ _ h, readRedirection_regs]

/-- INTERNAL: other entries of the same I/O APIC. -/
theorem maskGsi_sibling (st : IoapicState) (a : RawMadt1) (hk : k < 256) (hj : j < 256) (hne : j ≠ k) :
    redirection (maskGsi st a (gsiOf a k) a.ioapicAddr) j = redirection (st a.ioapicAddr) j := by
  obtain ⟨h₁, h₂, h₃, h₄⟩ := redirectionReg_ne hj hk hne
  apply redirection_congr
  · exact maskGsi_other st a k _ _ fun _ => ⟨h₁, h₂⟩
  · exact maskGsi_other st a k _ _ fun _ => ⟨h₃, h₄⟩

/-- **`unmask_gsi` after `mask_gsi`** leaves the mask bit alone.
SRCLINE: kernel/int/apic.cpp:31-37 -/
theorem unmask_mask_entry (st : IoapicState) (a : RawMadt1) (k : ℕ) :
    redirection (unmaskGsi (maskGsi st a (gsiOf a k)) a (gsiOf a k) a.ioapicAddr) k = 0x10000 := by
  simp only [unmaskGsi]
  rw [writeRedirection_entry, readRedirection_value, maskGsi_entry]
  exact mask_and_mask _

end Registers

/-! ## The last entry -/

section MaxGsi

variable {l : List RawMadt1} {count : RawMadt1 → ℕ} {st : IoapicState} {a b : RawMadt1}

/-- INTERNAL: bit 7 is cleared. -/
theorem clear_bit_seven {x : ℕ} (hx : x < 256) :
    BitVec.ofNat 32 x &&& ~~~(1#32 <<< 7) = BitVec.ofNat 32 (x % 128) := by
  apply BitVec.eq_of_getLsbD_eq
  intro i hi
  have hmod : (x % 128).testBit i = (decide (i < 7) && x.testBit i) := Nat.testBit_mod_two_pow x 7 i
  have hmask : (~~~(1#32 <<< 7)).getLsbD i = !decide (i = 7) := by
    rw [BitVec.getLsbD_not, show 1#32 <<< 7 = BitVec.twoPow 32 7 from rfl, BitVec.getLsbD_twoPow]
    simp [hi, eq_comm]
  rw [BitVec.getLsbD_and, hmask, BitVec.getLsbD_ofNat, BitVec.getLsbD_ofNat, hmod]
  by_cases hlow : i < 7
  · simp [hlow, hi, show i ≠ 7 by omega]
  · by_cases heq : i = 7
    · simp [heq]
    · have hpow : x < 2 ^ i := Nat.lt_of_lt_of_le hx (Nat.pow_le_pow_right (by omega : 0 < 2) (show 8 ≤ i by omega))
      simp [Nat.testBit_lt_two_pow hpow]

/-- The last interrupt, as far as `max_gsi` knows. -/
def lastGsi (count : RawMadt1 → ℕ) (a : RawMadt1) : ℕ := (count a - 1) % 128

theorem maxGsi_regs (st : IoapicState) (a : RawMadt1) (addr : BitVec 32) :
    ((maxGsi st a).2 addr).regs = (st addr).regs := by
  simp only [maxGsi, ioapicRead_regs]

theorem maxGsi_value (h : (st a.ioapicAddr).regs 1 >>> 16 = BitVec.ofNat 32 (count a - 1))
    (hle : count a ≤ 256) : (maxGsi st a).1.toNat = lastGsi count a := by
  simp only [maxGsi, ioapicRead_value]
  rw [h, clear_bit_seven (by omega), lastGsi, BitVec.toNat_ofNat]
  omega

theorem gsiOf_toNat {k : ℕ} (hfits : a.gsiBase.toNat + count a ≤ 2 ^ 32) (hk : k < count a) :
    (gsiOf a k).toNat = a.gsiBase.toNat + k := by
  rw [gsiOf, BitVec.toNat_add, BitVec.toNat_ofNat]
  omega

/-! ## `ioapic_validate` -/

/-- The tests of `ioapic_validate`. -/
def Accepts (count : RawMadt1 → ℕ) (a : RawMadt1) (gsi : BitVec 32) : Prop :=
  a.gsiBase.toNat ≤ gsi.toNat ∧ gsi.toNat ≤ lastGsi count a

/-- INTERNAL: the first I/O APIC that is accepted is returned. The induction is on the list.
SRCLINE: kernel/int/apic.cpp:64-69 -/
theorem ioapicValidate_spec (gsi : BitVec 32) {st : IoapicState} (hle : ∀ a ∈ l, count a ≤ 256)
    (hversion : ∀ a ∈ l, (st a.ioapicAddr).regs 1 >>> 16 = BitVec.ofNat 32 (count a - 1)) :
    (∀ b, (ioapicValidate gsi l st).1 = some b → b ∈ l ∧ Accepts count b gsi) ∧
      ((∃ b ∈ l, Accepts count b gsi) → ∃ b, (ioapicValidate gsi l st).1 = some b) := by
  induction l generalizing st with
  | nil =>
    refine ⟨fun b hb => ?_, fun ⟨b, hb, _⟩ => absurd hb List.not_mem_nil⟩
    cases hb
  | cons a rest ih =>
    have hrest := fun (st' : IoapicState) (h : ∀ addr, (st' addr).regs = (st addr).regs) =>
      @ih st' (fun b hb => hle b (List.mem_cons_of_mem a hb)) (fun b hb => by
        rw [h]
        exact hversion b (List.mem_cons_of_mem a hb))
    have hmax := maxGsi_value (hversion a List.mem_cons_self) (hle a List.mem_cons_self)
    rw [ioapicValidate]
    by_cases hbase : a.gsiBase ≤ gsi
    · rw [if_pos hbase]
      rw [BitVec.le_def] at hbase
      by_cases hlast : gsi ≤ (maxGsi st a).1
      · simp only [if_pos hlast]
        rw [BitVec.le_def, hmax] at hlast
        refine ⟨fun b hb => ?_, fun _ => ⟨a, rfl⟩⟩
        obtain rfl : a = b := Option.some.inj hb
        exact ⟨List.mem_cons_self, hbase, hlast⟩
      · simp only [if_neg hlast]
        rw [BitVec.le_def, hmax] at hlast
        obtain ⟨hsound, hfinds⟩ := hrest (maxGsi st a).2 (maxGsi_regs st a)
        refine ⟨fun b hb => ?_, fun ⟨b, hb, haccepts⟩ => ?_⟩
        · exact ⟨List.mem_cons_of_mem a (hsound b hb).1, (hsound b hb).2⟩
        · cases List.mem_cons.mp hb with
          | inl heq => exact absurd (heq ▸ haccepts).2 hlast
          | inr hb => exact hfinds ⟨b, hb, haccepts⟩
    · rw [if_neg hbase]
      rw [BitVec.le_def] at hbase
      obtain ⟨hsound, hfinds⟩ := hrest st fun _ => rfl
      refine ⟨fun b hb => ?_, fun ⟨b, hb, haccepts⟩ => ?_⟩
      · exact ⟨List.mem_cons_of_mem a (hsound b hb).1, (hsound b hb).2⟩
      · cases List.mem_cons.mp hb with
        | inl heq => exact absurd (heq ▸ haccepts).1 hbase
        | inr hb => exact hfinds ⟨b, hb, haccepts⟩

/-- INTERNAL: an interrupt is in the range of one I/O APIC. -/
theorem range_unique (h : IoapicsPresent l count st) (ha : a ∈ l) (hb : b ∈ l) {n : ℕ}
    (hna : a.gsiBase.toNat ≤ n ∧ n < a.gsiBase.toNat + count a)
    (hnb : b.gsiBase.toNat ≤ n ∧ n < b.gsiBase.toNat + count b) : a = b := by
  by_contra hne
  have hsymm : Std.Symm fun a b : RawMadt1 => a.gsiBase.toNat + count a ≤ b.gsiBase.toNat ∨
      b.gsiBase.toNat + count b ≤ a.gsiBase.toNat := ⟨fun _ _ h => h.symm⟩
  cases h.disjoint.forall ha hb hne with
  | inl hle => omega
  | inr hle => omega

/-- **When `ioapic_validate` is right**: for I/O APICs with base 0 and at most 128 entries.
SRCLINE: kernel/int/apic.cpp:63-70 -/
theorem validates_iff (h : IoapicsPresent l count st) :
    Validates l count st ↔ ∀ a ∈ l, a.gsiBase = 0 ∧ count a ≤ 128 := by
  constructor
  · intro hvalid a ha
    have hpos := h.pos a ha
    have hfound := hvalid a ha (count a - 1) (by omega)
    obtain ⟨hlow, hhigh⟩ := ((ioapicValidate_spec _ h.le h.version).1 a hfound).2
    rw [gsiOf_toNat (h.fits a ha) (by omega)] at hhigh
    unfold lastGsi at hhigh
    refine ⟨?_, by omega⟩
    apply BitVec.eq_of_toNat_eq
    exact show a.gsiBase.toNat = 0 by omega
  · intro hbase a ha k hk
    have hgsi := gsiOf_toNat (h.fits a ha) hk
    have hself : Accepts count a (gsiOf a k) := by
      obtain ⟨hzero, hfew⟩ := hbase a ha
      have hnat : a.gsiBase.toNat = 0 := by rw [hzero]; rfl
      unfold Accepts lastGsi
      omega
    have hspec := ioapicValidate_spec (gsiOf a k) h.le h.version
    obtain ⟨b, hb⟩ := hspec.2 ⟨a, ha, hself⟩
    obtain ⟨hbl, hlow, hhigh⟩ := hspec.1 b hb
    have hposb := h.pos b hbl
    have hmod : lastGsi count b ≤ count b - 1 := Nat.mod_le _ _
    have heq := range_unique h ha hbl (n := (gsiOf a k).toNat) (by omega) (by omega)
    rw [hb, heq]

/-! ## `mask_all_gsi` -/

/-- What masking the entries from `i` on does, for an I/O APIC with base `base` whose loop ends at `last`. -/
structure MaskedFrom (a : RawMadt1) (i last : ℕ) (st st' : IoapicState) : Prop where
  covered : ∀ k, i ≤ k → a.gsiBase.toNat + k < last →
    redirection (st' a.ioapicAddr) k = redirection (st a.ioapicAddr) k ||| 0x10000
  other : ∀ addr reg, (addr = a.ioapicAddr → ∀ k, i ≤ k → a.gsiBase.toNat + k < last →
    reg ≠ redirectionReg k ∧ reg ≠ redirectionReg k + 1) → (st' addr).regs reg = (st addr).regs reg

/-- INTERNAL: an entry that is left out is as it was. -/
theorem MaskedFrom.entry_kept {st' : IoapicState} {i last k : ℕ} (h : MaskedFrom a i last st st') (hk : k < 256)
    (hout : ∀ j, i ≤ j → a.gsiBase.toNat + j < last → j < 256 ∧ k ≠ j) :
    redirection (st' a.ioapicAddr) k = redirection (st a.ioapicAddr) k := by
  have hkept : ∀ reg, (reg = redirectionReg k ∨ reg = redirectionReg k + 1) →
      (st' a.ioapicAddr).regs reg = (st a.ioapicAddr).regs reg := by
    intro reg hreg
    apply h.other
    intro _ j hj hjlast
    obtain ⟨hlt, hne⟩ := hout j hj hjlast
    obtain ⟨h₁, h₂, h₃, h₄⟩ := redirectionReg_ne hk hlt hne
    cases hreg with
    | inl heq => exact heq ▸ ⟨h₁, h₂⟩
    | inr heq => exact heq ▸ ⟨h₃, h₄⟩
  exact redirection_congr (hkept _ (.inl rfl)) (hkept _ (.inr rfl))

/-- INTERNAL: one round, below the end of the loop.
SRCLINE: kernel/int/apic.cpp:45-46 -/
theorem maskFrom_round {fuel i : ℕ} (hle : count a ≤ 256) (hfits : a.gsiBase.toNat + count a ≤ 2 ^ 32)
    (hi : i < count a) (hversion : (st a.ioapicAddr).regs 1 >>> 16 = BitVec.ofNat 32 (count a - 1)) :
    maskFrom a (fuel + 1) (gsiOf a i) st =
      if a.gsiBase.toNat + i < lastGsi count a then
        maskFrom a fuel (gsiOf a (i + 1)) (maskGsi (maxGsi st a).2 a (gsiOf a i))
      else some (maxGsi st a).2 := by
  have htest : gsiOf a i < (maxGsi st a).1 ↔ a.gsiBase.toNat + i < lastGsi count a := by
    rw [BitVec.lt_def, maxGsi_value hversion hle, gsiOf_toNat hfits hi]
  have hnext : gsiOf a i + 1 = gsiOf a (i + 1) := by
    unfold gsiOf
    bv_omega
  rw [maskFrom]
  simp only [htest, hnext]

/-- INTERNAL: the count of the entries is not changed. -/
theorem maskGsi_version {i : ℕ} (hi : i < 256)
    (hversion : (st a.ioapicAddr).regs 1 >>> 16 = BitVec.ofNat 32 (count a - 1)) :
    (maskGsi (maxGsi st a).2 a (gsiOf a i) a.ioapicAddr).regs 1 >>> 16 = BitVec.ofNat 32 (count a - 1) := by
  obtain ⟨hlow, hhigh⟩ := redirectionReg_ne_one hi
  rw [maskGsi_other _ _ _ _ _ fun _ => ⟨hlow.symm, hhigh.symm⟩, maxGsi_regs]
  exact hversion

/-- INTERNAL: what the loop does when it ends. The induction is on the fuel. -/
theorem maskFrom_masked {st' : IoapicState} (hle : count a ≤ 256)
    (hfits : a.gsiBase.toNat + count a ≤ 2 ^ 32) {fuel i : ℕ} (hi : i < count a)
    (hversion : (st a.ioapicAddr).regs 1 >>> 16 = BitVec.ofNat 32 (count a - 1))
    (h : maskFrom a fuel (gsiOf a i) st = some st') : MaskedFrom a i (lastGsi count a) st st' := by
  have hlast : lastGsi count a ≤ count a - 1 := Nat.mod_le _ _
  induction fuel generalizing i st with
  | zero => cases h
  | succ fuel ih =>
    rw [maskFrom_round hle hfits hi hversion] at h
    split at h
    · rename_i hbelow
      have hrest := ih (show i + 1 < count a by omega) (maskGsi_version (by omega) hversion) h
      have hstart : ∀ k, redirection ((maxGsi st a).2 a.ioapicAddr) k = redirection (st a.ioapicAddr) k := by
        intro k
        rw [redirection, redirection, maxGsi_regs]
      constructor
      · intro k hk hklast
        by_cases hfirst : k = i
        · -- the later rounds do not come back to this entry
          have hkept := @MaskedFrom.entry_kept _ _ _ _ _ i hrest (by omega) fun j hj hjlast => by omega
          rw [hfirst, hkept, maskGsi_entry, hstart]
        · rw [hrest.covered k (by omega) hklast, maskGsi_sibling _ _ (by omega) (by omega) hfirst, hstart]
      · intro addr reg hreg
        rw [hrest.other addr reg fun haddr k hk => hreg haddr k (by omega),
          maskGsi_other _ _ _ _ _ fun haddr => hreg haddr i (Nat.le_refl i) hbelow, maxGsi_regs]
    · rename_i hend
      cases h
      refine ⟨fun k hk hklast => absurd hklast (by omega), fun addr reg _ => ?_⟩
      rw [maxGsi_regs]

/-- INTERNAL: the loop ends. The induction is on the fuel. -/
theorem maskFrom_ends (hle : count a ≤ 256) (hfits : a.gsiBase.toNat + count a ≤ 2 ^ 32) {fuel i : ℕ}
    (hi : i < count a) (hversion : (st a.ioapicAddr).regs 1 >>> 16 = BitVec.ofNat 32 (count a - 1))
    (hfuel : lastGsi count a < fuel + i) (hpos : 0 < fuel) :
    ∃ st', maskFrom a fuel (gsiOf a i) st = some st' := by
  have hlast : lastGsi count a ≤ count a - 1 := Nat.mod_le _ _
  induction fuel generalizing i st with
  | zero => omega
  | succ fuel ih =>
    rw [maskFrom_round hle hfits hi hversion]
    split
    · exact ih (show i + 1 < count a by omega) (maskGsi_version (by omega) hversion) (by omega) (by omega)
    · exact ⟨_, rfl⟩

/-- **When `mask_all_gsi` is right**: if the entries that its loop leaves out are masked already; the last one
is always among them.
SRCLINE: kernel/int/apic.cpp:44-47 -/
theorem masksAll_iff (h : IoapicsPresent l count st) :
    MasksAll l count st ↔ ∀ a ∈ l, ∀ k < count a,
      a.gsiBase.toNat + k < lastGsi count a ∨ MaskSet (redirection (st a.ioapicAddr) k) := by
  have hfirst : ∀ a : RawMadt1, a.gsiBase = gsiOf a 0 := fun a => (BitVec.add_zero _).symm
  constructor
  · intro hmasks a ha k hk
    by_cases hlast : a.gsiBase.toNat + k < lastGsi count a
    · exact .inl hlast
    · right
      have hle := h.le a ha
      obtain ⟨fuel, st', hst', hset, -⟩ := hmasks a ha
      rw [maskAllGsi, hfirst] at hst'
      have hdone := maskFrom_masked hle (h.fits a ha) (h.pos a ha) (h.version a ha) hst'
      have hmod : lastGsi count a ≤ count a - 1 := Nat.mod_le _ _
      rw [← mask_or_self_iff, ← hset k hk]
      exact hdone.entry_kept (by omega) fun j _ hj => by omega
  · intro hmasked a ha
    obtain ⟨st', hst'⟩ := @maskFrom_ends count st a (h.le a ha) (h.fits a ha) 129 0 (h.pos a ha)
      (h.version a ha) (by unfold lastGsi; omega) (by omega)
    have hdone := maskFrom_masked (h.le a ha) (h.fits a ha) (h.pos a ha) (h.version a ha) hst'
    have hmod : lastGsi count a ≤ count a - 1 := Nat.mod_le _ _
    have hle := h.le a ha
    rw [← hfirst] at hst'
    refine ⟨129, st', hst', fun k hk => ?_, fun addr reg hreg => ?_⟩
    · by_cases hlast : a.gsiBase.toNat + k < lastGsi count a
      · exact hdone.covered k (Nat.zero_le k) hlast
      · have hentry := (hmasked a ha k hk).resolve_left hlast
        rw [(mask_or_self_iff _).mpr hentry]
        exact hdone.entry_kept (by omega) fun j _ hj => by omega
    · exact hdone.other addr reg fun haddr k _ hk => hreg haddr k (by omega)

/-! ## All of it -/

/-- **When `unmask_gsi` after `mask_gsi` restores the entries**: if there is none to restore. -/
theorem restores_iff : Restores l count st ↔ ∀ a ∈ l, ∀ k < count a,
    MaskSet (redirection (st a.ioapicAddr) k) := by
  constructor
  · intro hrestores a ha k hk
    by_contra hmask
    have hentry := hrestores a ha k hk hmask
    rw [unmask_mask_entry] at hentry
    rw [← hentry] at hmask
    exact hmask (by unfold MaskSet; decide)
  · intro hmasked a ha k hk hmask
    exact absurd (hmasked a ha k hk) hmask

/-- **When the I/O APICs are handled correctly**: there are only entries that are masked already, of I/O APICs
with base 0 and at most 128 entries.
SRCLINE: kernel/int/apic.cpp:20-47, 63-70 -/
theorem ioapics_correct_iff (h : IoapicsPresent l count st) : IoapicsCorrect l count st ↔
    ∀ a ∈ l, a.gsiBase = 0 ∧ count a ≤ 128 ∧ ∀ k < count a, MaskSet (redirection (st a.ioapicAddr) k) := by
  constructor
  · intro hcorrect a ha
    obtain ⟨hbase, hfew⟩ := (validates_iff h).mp hcorrect.validates a ha
    exact ⟨hbase, hfew, restores_iff.mp hcorrect.restores a ha⟩
  · intro hall
    refine ⟨(validates_iff h).mpr fun a ha => ⟨(hall a ha).1, (hall a ha).2.1⟩, (masksAll_iff h).mpr ?_,
      restores_iff.mpr fun a ha => (hall a ha).2.2⟩
    exact fun a ha k hk => .inr ((hall a ha).2.2 k hk)

end MaxGsi

/-- An I/O APIC with two entries, both masked. -/
def maskedIoapic : IoapicState := fun _ => ⟨0, fun _ => 0x10000⟩

theorem ioapics_correct_masked : IoapicsCorrect [⟨0, 0, 0xfec00000, 0⟩] (fun _ => 2) maskedIoapic := by
  have hpresent : IoapicsPresent [⟨0, 0, 0xfec00000, 0⟩] (fun _ => 2) maskedIoapic :=
    ⟨by simp, by simp, by decide, by decide, by simp⟩
  refine (ioapics_correct_iff hpresent).mpr fun a ha => ?_
  obtain rfl := List.mem_singleton.mp ha
  refine ⟨rfl, by decide, fun k _ => ?_⟩
  have hentry : redirection (maskedIoapic 0xfec00000) k = 0x1000000010000 := by
    unfold redirection maskedIoapic
    dsimp only
    decide
  unfold MaskSet
  rw [hentry]
  decide

/-- Two I/O APICs, with 24 and 8 entries, none of them masked. -/
def freshIoapics : IoapicState :=
  fun addr => ⟨0, fun reg => if reg = 1 then if addr = 0xfec00000 then 23 <<< 16 else 7 <<< 16 else 0⟩

/-- The last interrupt of the second I/O APIC is not found, the last entry of the first one is not masked, and
its first entry is not restored. -/
theorem ioapics_mishandled :
    IoapicsPresent [⟨0, 0, 0xfec00000, 0⟩, ⟨1, 0, 0xfec01000, 24⟩] (fun a => if a.gsiBase = 0 then 24 else 8)
      freshIoapics ∧
    (ioapicValidate 31 [⟨0, 0, 0xfec00000, 0⟩, ⟨1, 0, 0xfec01000, 24⟩] freshIoapics).1 = none ∧
    (∃ st, maskAllGsi 24 freshIoapics ⟨0, 0, 0xfec00000, 0⟩ = some st ∧
      redirection (st 0xfec00000) 22 = 0x10000 ∧ redirection (st 0xfec00000) 23 = 0) ∧
    redirection (freshIoapics 0xfec00000) 0 = 0 ∧
    redirection (unmaskGsi (maskGsi freshIoapics ⟨0, 0, 0xfec00000, 0⟩ 0) ⟨0, 0, 0xfec00000, 0⟩ 0 0xfec00000) 0 =
      0x10000 ∧
    ¬ IoapicsCorrect [⟨0, 0, 0xfec00000, 0⟩, ⟨1, 0, 0xfec01000, 24⟩]
      (fun a => if a.gsiBase = 0 then 24 else 8) freshIoapics := by
  have hlost : (ioapicValidate 31 [⟨0, 0, 0xfec00000, 0⟩, ⟨1, 0, 0xfec01000, 24⟩] freshIoapics).1 = none := by
    decide
  refine ⟨⟨by decide, by decide, by decide, by decide, by decide⟩, hlost, ⟨_, rfl, by decide, by decide⟩,
    by decide, by decide, ?_⟩
  intro hcorrect
  have hfound := hcorrect.validates ⟨1, 0, 0xfec01000, 24⟩ (by decide) 7 (by decide)
  rw [show gsiOf ⟨1, 0, 0xfec01000, 24⟩ 7 = 31 by decide, hlost] at hfound
  cases hfound

/-! ## The lines -/

section Lines

variable {l : List RawMadt1} {count : RawMadt1 → ℕ} {st st₁ st' : IoapicState} {a b : RawMadt1}
  {gsi : BitVec 32} {word : BitVec 64}

theorem ioapicValidate_regs (l : List RawMadt1) (st : IoapicState) (gsi addr : BitVec 32) :
    ((ioapicValidate gsi l st).2 addr).regs = (st addr).regs := by
  induction l generalizing st with
  | nil => rfl
  | cons a rest ih =>
    rw [ioapicValidate]
    by_cases hbase : a.gsiBase ≤ gsi
    · rw [if_pos hbase]
      by_cases hlast : gsi ≤ (maxGsi st a).1
      · simp only [if_pos hlast]
        exact maxGsi_regs st a addr
      · simp only [if_neg hlast]
        rw [ih, maxGsi_regs]
    · rw [if_neg hbase]
      exact ih st

/-- INTERNAL: which I/O APIC is found depends on the version registers only. -/
theorem ioapicValidate_congr (h : ∀ addr, (st' addr).regs 1 = (st addr).regs 1) :
    (ioapicValidate gsi l st').1 = (ioapicValidate gsi l st).1 := by
  induction l generalizing st st' with
  | nil => rfl
  | cons a rest ih =>
    have hmax : (maxGsi st' a).1 = (maxGsi st a).1 := by
      simp only [maxGsi, ioapicRead_value, h]
    have hread : ∀ addr, ((maxGsi st' a).2 addr).regs 1 = ((maxGsi st a).2 addr).regs 1 := by
      intro addr
      rw [maxGsi_regs, maxGsi_regs, h]
    rw [ioapicValidate, ioapicValidate]
    by_cases hbase : a.gsiBase ≤ gsi
    · rw [if_pos hbase, if_pos hbase]
      simp only [hmax]
      by_cases hlast : gsi ≤ (maxGsi st a).1
      · simp only [if_pos hlast]
      · simp only [if_neg hlast]
        exact ih hread
    · rw [if_neg hbase, if_neg hbase]
      exact ih h

/-- The entries of the interrupts that are served are written: `f` is what becomes of them. -/
structure EntriesWritten (l : List RawMadt1) (count : RawMadt1 → ℕ) (f : BitVec 32 → BitVec 64 → BitVec 64)
    (st st' : IoapicState) : Prop where
  version : ∀ addr, (st' addr).regs 1 = (st addr).regs 1
  entry : ∀ b ∈ l, ∀ k < count b, redirection (st' b.ioapicAddr) k =
    if Serves l st b (gsiOf b k) then f (gsiOf b k) (redirection (st b.ioapicAddr) k)
    else redirection (st b.ioapicAddr) k

theorem EntriesWritten.refl (l : List RawMadt1) (count : RawMadt1 → ℕ) (st : IoapicState) :
    EntriesWritten l count (fun _ e => e) st st :=
  ⟨fun _ => rfl, fun _ _ _ _ => (ite_self _).symm⟩

theorem EntriesWritten.trans {f g : BitVec 32 → BitVec 64 → BitVec 64} (hf : EntriesWritten l count f st st₁)
    (hg : EntriesWritten l count g st₁ st') : EntriesWritten l count (fun gsi e => g gsi (f gsi e)) st st' := by
  refine ⟨fun addr => (hg.version addr).trans (hf.version addr), fun b hb k hk => ?_⟩
  rw [hg.entry b hb k hk, hf.entry b hb k hk]
  have hserves : Serves l st₁ b (gsiOf b k) ↔ Serves l st b (gsiOf b k) := by
    unfold Serves
    rw [ioapicValidate_congr hf.version]
  by_cases h : Serves l st b (gsiOf b k)
  · rw [if_pos (hserves.mpr h), if_pos h, if_pos h]
  · rw [if_neg (mt hserves.mp h), if_neg h, if_neg h]

theorem EntriesWritten.congr {f g : BitVec 32 → BitVec 64 → BitVec 64} (h : EntriesWritten l count f st st')
    (heq : ∀ gsi e, f gsi e = g gsi e) : EntriesWritten l count g st st' := by
  obtain rfl : f = g := funext fun gsi => funext (heq gsi)
  exact h

theorem apart_of_version (h : IoapicsApart l count st) (hversion : ∀ addr, (st' addr).regs 1 = (st addr).regs 1) :
    IoapicsApart l count st' := by
  refine ⟨⟨h.present.pos, h.present.le, fun a ha => ?_, h.present.fits, h.present.disjoint⟩, h.distinct⟩
  rw [hversion]
  exact h.present.version a ha

/-- INTERNAL: the number of the entry of an interrupt that is served. -/
theorem entry_of_serves (h : IoapicsApart l count st) (hserves : Serves l st a gsi) :
    a ∈ l ∧ ∃ k < count a, gsi = gsiOf a k := by
  obtain ⟨ha, hbase, hlast⟩ := (ioapicValidate_spec gsi h.present.le h.present.version).1 a hserves
  have hpos := h.present.pos a ha
  have hmod : lastGsi count a ≤ count a - 1 := Nat.mod_le _ _
  refine ⟨ha, gsi.toNat - a.gsiBase.toNat, by omega, ?_⟩
  apply BitVec.eq_of_toNat_eq
  rw [gsiOf_toNat (h.present.fits a ha) (by omega)]
  omega

/-- INTERNAL: an entry that is not that of the interrupt has other registers. -/
theorem other_entry (h : IoapicsApart l count st) (ha : a ∈ l) (hb : b ∈ l) {k j : ℕ}
    (hk : k < count a) (hj : j < count b) (hne : ¬ (a = b ∧ k = j)) (haddr : b.ioapicAddr = a.ioapicAddr) :
    redirectionReg j ≠ redirectionReg k ∧ redirectionReg j ≠ redirectionReg k + 1 ∧
      redirectionReg j + 1 ≠ redirectionReg k ∧ redirectionReg j + 1 ≠ redirectionReg k + 1 := by
  have heq : a = b := by
    by_contra hab
    have hsymm : Std.Symm fun a b : RawMadt1 => a.ioapicAddr ≠ b.ioapicAddr := ⟨fun _ _ h => h.symm⟩
    exact h.distinct.forall ha hb hab haddr.symm
  subst heq
  have hle := h.present.le a ha
  exact redirectionReg_ne (by omega) (by omega) fun hkj => hne ⟨rfl, hkj.symm⟩

/-- INTERNAL: such an entry is kept. -/
theorem other_entry_kept (h : IoapicsApart l count st) (ha : a ∈ l) (hb : b ∈ l) {k j : ℕ} (hk : k < count a)
    (hj : j < count b) (hne : ¬ (a = b ∧ k = j)) (hregs : ∀ addr, (st₁ addr).regs = (st addr).regs) :
    redirection (writeRedirection st₁ a (gsiOf a k) word b.ioapicAddr) j = redirection (st b.ioapicAddr) j := by
  apply redirection_congr
  · rw [writeRedirection_other st₁ a k word _ _ fun haddr => ?_, hregs]
    obtain ⟨hlow, hhigh, -, -⟩ := other_entry h ha hb hk hj hne haddr
    exact ⟨hlow, hhigh⟩
  · rw [writeRedirection_other st₁ a k word _ _ fun haddr => ?_, hregs]
    obtain ⟨-, -, hlow, hhigh⟩ := other_entry h ha hb hk hj hne haddr
    exact ⟨hlow, hhigh⟩

/-- INTERNAL: two entries of an I/O APIC have different interrupts. -/
theorem gsiOf_ne (h : IoapicsApart l count st) (ha : a ∈ l) {k j : ℕ} (hk : k < count a) (hj : j < count a)
    (hne : k ≠ j) : gsiOf a j ≠ gsiOf a k := by
  intro heq
  have hvalue := congrArg BitVec.toNat heq
  rw [gsiOf_toNat (h.present.fits a ha) hj, gsiOf_toNat (h.present.fits a ha) hk] at hvalue
  omega

/-- **One entry is written**: that of the interrupt. -/
theorem entry_written {f : BitVec 64 → BitVec 64} (h : IoapicsApart l count st) (hserves : Serves l st a gsi)
    (hregs : ∀ addr, (st₁ addr).regs = (st addr).regs)
    (hword : ∀ k, gsi = gsiOf a k → word = f (redirection (st a.ioapicAddr) k)) :
    EntriesWritten l count (fun g e => if g = gsi then f e else e) st (writeRedirection st₁ a gsi word) := by
  obtain ⟨ha, k, hk, rfl⟩ := entry_of_serves h hserves
  have hle := h.present.le a ha
  refine ⟨fun addr => ?_, fun b hb j hj => ?_⟩
  · obtain ⟨hlow, hhigh⟩ := redirectionReg_ne_one (show k < 256 by omega)
    rw [writeRedirection_other st₁ a k word addr 1 fun _ => ⟨hlow.symm, hhigh.symm⟩, hregs]
  · by_cases hsame : a = b ∧ k = j
    · obtain ⟨rfl, rfl⟩ := hsame
      rw [if_pos hserves, if_pos rfl, writeRedirection_entry]
      exact hword k rfl
    · rw [other_entry_kept h ha hb hk hj hsame hregs]
      by_cases hserved : Serves l st b (gsiOf b j)
      · have hne : gsiOf b j ≠ gsiOf a k := by
          intro heq
          rw [heq] at hserved
          obtain rfl := Option.some.inj (hserves.symm.trans hserved)
          exact gsiOf_ne h ha hk hj (fun hkj => hsame ⟨rfl, hkj⟩) heq
        rw [if_pos hserved, if_neg hne]
      · rw [if_neg hserved]

/-- INTERNAL: an interrupt in the range that `max_gsi` knows is served. -/
theorem exists_serves (h : IoapicsApart l count st) (hserved : ∃ a ∈ l, Accepts count a gsi) :
    ∃ a, ioapicValidate gsi l st = (some a, (ioapicValidate gsi l st).2) ∧ Serves l st a gsi := by
  obtain ⟨a, ha⟩ := (ioapicValidate_spec gsi h.present.le h.present.version).2 hserved
  exact ⟨a, by rw [← ha], ha⟩

/-- **`redirect_gsi`** of an interrupt that is served. -/
theorem redirectLine_written (h : IoapicsApart l count st) (hserved : ∃ a ∈ l, Accepts count a gsi)
    (vector : BitVec 8) (flags : BitVec 16) : ∃ st', redirectLine l vector gsi flags st = some st' ∧
      EntriesWritten l count (fun g e => if g = gsi then redirectWord vector flags else e) st st' := by
  obtain ⟨a, hfound, hserves⟩ := exists_serves h hserved
  refine ⟨redirectGsi (ioapicValidate gsi l st).2 a vector gsi flags, ?_, ?_⟩
  · rw [redirectLine, hfound]
  · exact entry_written h hserves (ioapicValidate_regs l st gsi) fun _ _ => rfl

/-- INTERNAL: an interrupt that is redirected is served. -/
theorem redirectLine_served {vector : BitVec 8} {flags : BitVec 16} (h : IoapicsApart l count st)
    (hrun : redirectLine l vector gsi flags st = some st') : (∃ a ∈ l, Accepts count a gsi) ∧
      EntriesWritten l count (fun g e => if g = gsi then redirectWord vector flags else e) st st' := by
  have hserved : ∃ a ∈ l, Accepts count a gsi := by
    rw [redirectLine] at hrun
    cases hfound : (ioapicValidate gsi l st).1 with
    | none =>
      rw [show ioapicValidate gsi l st = (none, (ioapicValidate gsi l st).2) by rw [← hfound]] at hrun
      cases hrun
    | some a => exact ⟨a, (ioapicValidate_spec gsi h.present.le h.present.version).1 a hfound⟩
  obtain ⟨st₁, hline, hwritten⟩ := redirectLine_written h hserved vector flags
  obtain rfl := Option.some.inj (hline.symm.trans hrun)
  exact ⟨hserved, hwritten⟩

/-- **`mask_gsi`** of an interrupt that is served. -/
theorem entry_masked (h : IoapicsApart l count st) (hserves : Serves l st a gsi)
    (hregs : ∀ addr, (st₁ addr).regs = (st addr).regs) :
    EntriesWritten l count (fun g e => if g = gsi then e ||| 0x10000 else e) st (maskGsi st₁ a gsi) := by
  have hmask : maskGsi st₁ a gsi = writeRedirection (readRedirection st₁ a gsi).2 a gsi
      ((readRedirection st₁ a gsi).1 ||| 0x10000) := rfl
  rw [hmask]
  apply entry_written (f := fun e => e ||| 0x10000) h hserves
  · intro addr
    rw [readRedirection_regs, hregs]
  · rintro k rfl
    rw [readRedirection_value, redirection_congr (congrFun (hregs _) _) (congrFun (hregs _) _)]

/-- **The overrides**: the last one for an interrupt counts. The induction is on the list. -/
theorem redirectOverrides_written {overrides : List RawMadt2} (h : IoapicsApart l count st)
    (hserved : ∀ iso ∈ overrides, ∃ a ∈ l, Accepts count a iso.gsi) (mappedIrqs : ℕ → Bool) :
    ∃ st' mapped', redirectOverrides l overrides mappedIrqs st = some (st', mapped') ∧
      EntriesWritten l count (fun g e => ((overrides.reverse.find? (·.gsi = g)).map fun iso =>
        redirectWord (iso.irqSrc + 32) iso.flags).getD e) st st' ∧
      ∀ i < 16, mapped' i = (mappedIrqs i || overrides.any (·.gsi.toNat = i)) := by
  induction overrides generalizing st mappedIrqs with
  | nil =>
    exact ⟨st, mappedIrqs, rfl, EntriesWritten.refl l count st, fun i _ => (Bool.or_false _).symm⟩
  | cons iso rest ih =>
    obtain ⟨st₁, hline, hfirst⟩ := redirectLine_written h (hserved iso List.mem_cons_self) (iso.irqSrc + 32) iso.flags
    obtain ⟨st', mapped', hrest, hwritten, hmapped⟩ := ih (apart_of_version h hfirst.version)
      (fun iso' hmem => hserved iso' (List.mem_cons_of_mem iso hmem))
      (if iso.gsi < 16 then Function.update mappedIrqs iso.gsi.toNat true else mappedIrqs)
    refine ⟨st', mapped', ?_, (hfirst.trans hwritten).congr ?_, ?_⟩
    · rw [redirectOverrides, hline]
      exact hrest
    · intro g e
      rw [List.reverse_cons, List.find?_append]
      cases rest.reverse.find? (·.gsi = g) with
      | some last => rfl
      | none =>
        by_cases hg : iso.gsi = g
        · simp [hg]
        · simp [hg, Ne.symm hg]
    · intro i hi
      rw [hmapped i hi, List.any_cons]
      by_cases heq : iso.gsi.toNat = i
      · have hlt : iso.gsi < 16 := by
          rw [BitVec.lt_def]
          exact heq ▸ hi
        rw [if_pos hlt, heq, Function.update_self, decide_eq_true rfl, Bool.true_or, Bool.or_true]
      · rw [decide_eq_false heq, Bool.false_or]
        by_cases hlt : iso.gsi < 16
        · rw [if_pos hlt, Function.update_of_ne (Ne.symm heq)]
        · rw [if_neg hlt]

/-- INTERNAL: the lines from `i + 1` on, for a line other than `i`. -/
theorem later_line {m i n : ℕ} {p : Prop} (h : m ≠ i) :
    (i + 1 ≤ m ∧ m < i + 1 + n ∧ p) ↔ (i ≤ m ∧ m < i + (n + 1) ∧ p) := by
  constructor
  · rintro ⟨hle, hlt, hp⟩
    exact ⟨by omega, by omega, hp⟩
  · rintro ⟨hle, hlt, hp⟩
    exact ⟨by omega, by omega, hp⟩

/-- **The lines that are not mapped** get their own numbers. The induction is on the number of lines that are
left. -/
theorem redirectUnmapped_written (mappedIrqs : ℕ → Bool) {n i : ℕ} (h : IoapicsApart l count st)
    (hserved : ∀ j, i ≤ j → j < i + n → ∃ a ∈ l, Accepts count a (BitVec.ofNat 32 j)) (hi : i + n ≤ 16) :
    ∃ st', redirectUnmapped l mappedIrqs n i st = some st' ∧
      EntriesWritten l count (fun g e => if i ≤ g.toNat ∧ g.toNat < i + n ∧ mappedIrqs g.toNat = false then
        redirectWord (g.setWidth 8 + 32) 0 else e) st st' := by
  induction n generalizing i st with
  | zero =>
    refine ⟨st, rfl, (EntriesWritten.refl l count st).congr fun g e => ?_⟩
    rw [if_neg (by omega)]
  | succ n ih =>
    rw [redirectUnmapped]
    by_cases hmapped : mappedIrqs i = true
    · obtain ⟨st', hrest, hwritten⟩ := ih (i := i + 1) h (fun j hj hlt => hserved j (by omega) (by omega)) (by omega)
      refine ⟨st', by rw [if_pos hmapped, hrest], hwritten.congr fun g e => ?_⟩
      by_cases hg : g.toNat = i
      · simp [hg, hmapped]
      · exact if_congr (later_line hg) rfl rfl
    · obtain ⟨st₁, hline, hfirst⟩ := redirectLine_written h (hserved i (Nat.le_refl i) (by omega))
        (BitVec.ofNat 8 (i + 32)) 0
      obtain ⟨st', hrest, hwritten⟩ := ih (i := i + 1) (apart_of_version h hfirst.version)
        (fun j hj hlt => hserved j (by omega) (by omega)) (by omega)
      refine ⟨st', ?_, (hfirst.trans hwritten).congr fun g e => ?_⟩
      · rw [if_neg hmapped, hline]
        exact hrest
      · by_cases hg : g = BitVec.ofNat 32 i
        · have hvalue : g.toNat = i := by
            rw [hg, BitVec.toNat_ofNat]
            omega
          have hvector : BitVec.ofNat 8 (i + 32) = g.setWidth 8 + 32 := by
            apply BitVec.eq_of_toNat_eq
            rw [BitVec.toNat_add, BitVec.toNat_setWidth, hvalue, BitVec.toNat_ofNat]
            simp
          have hfree : mappedIrqs g.toNat = false := by
            rw [hvalue]
            exact Bool.eq_false_iff.mpr hmapped
          rw [if_neg (by omega), if_pos hg, if_pos ⟨by omega, by omega, hfree⟩, hvector]
        · have hvalue : g.toNat ≠ i := by
            rintro rfl
            exact hg (BitVec.eq_of_toNat_eq (by rw [BitVec.toNat_ofNat]; omega))
          rw [if_neg hg]
          exact if_congr (later_line hvalue) rfl rfl

/-- INTERNAL: the three parts together. -/
theorem routedEntry_eq {overrides : List RawMadt2} {mapped : ℕ → Bool}
    (hmapped : ∀ i < 16, mapped i = (false || overrides.any (·.gsi.toNat = i))) (g : BitVec 32) (e : BitVec 64) :
    (if 0 ≤ g.toNat ∧ g.toNat < 0 + 16 ∧ mapped g.toNat = false then redirectWord (g.setWidth 8 + 32) 0
      else ((overrides.reverse.find? (·.gsi = g)).map fun iso =>
        redirectWord (iso.irqSrc + 32) iso.flags).getD e) = (routeOf overrides g).getD e := by
  unfold routeOf
  have hsixteen : g < 16 ↔ g.toNat < 16 := BitVec.lt_def
  cases hfind : overrides.reverse.find? (·.gsi = g) with
  | none =>
    rw [List.find?_eq_none] at hfind
    by_cases hlt : g < 16
    · have hfree : mapped g.toNat = false := by
        rw [hmapped _ (hsixteen.mp hlt), Bool.false_or, List.any_eq_false]
        intro iso hmem heq
        refine hfind iso (List.mem_reverse.mpr hmem) ?_
        exact decide_eq_true (BitVec.eq_of_toNat_eq (of_decide_eq_true heq))
      rw [if_pos ⟨Nat.zero_le _, by rw [Nat.zero_add]; exact hsixteen.mp hlt, hfree⟩]
      show _ = Option.getD (if g < 16 then some (redirectWord (g.setWidth 8 + 32) 0) else none) e
      rw [if_pos hlt]
      rfl
    · rw [if_neg fun hcond => hlt (hsixteen.mpr (by omega))]
      show _ = Option.getD (if g < 16 then some (redirectWord (g.setWidth 8 + 32) 0) else none) e
      rw [if_neg hlt]
      rfl
  | some iso =>
    rw [if_neg]
    · rfl
    rintro ⟨-, hlt, hfree⟩
    rw [hmapped _ (by omega), Bool.false_or, List.any_eq_false] at hfree
    refine hfree iso (List.mem_reverse.mp (List.mem_of_find?_eq_some hfind)) ?_
    have hgsi := List.find?_some hfind
    exact decide_eq_true (congrArg BitVec.toNat (of_decide_eq_true hgsi))

/-- All lines, and all interrupts with an override, are in the range that `max_gsi` knows of an I/O APIC. -/
def LinesServed (l : List RawMadt1) (count : RawMadt1 → ℕ) (overrides : List RawMadt2) : Prop :=
  (∀ gsi < 16, ∃ a ∈ l, Accepts count a gsi) ∧ ∀ iso ∈ overrides, ∃ a ∈ l, Accepts count a iso.gsi

/-- INTERNAL: the three parts find their I/O APICs. -/
theorem redirectIrqs_routed (overrides : List RawMadt2) (h : IoapicsApart l count st)
    (hserved : LinesServed l count overrides) :
    ∃ st', redirectIrqs l overrides st = some st' ∧ LinesRouted l count overrides st st' := by
  obtain ⟨hlines, hoverrides⟩ := hserved
  obtain ⟨st₁, mapped, hfirst, hwritten₁, hmapped⟩ := redirectOverrides_written h hoverrides fun _ => false
  have hapart₁ := apart_of_version h hwritten₁.version
  obtain ⟨st₂, hsecond, hwritten₂⟩ := redirectUnmapped_written mapped (n := 16) (i := 0) hapart₁
    (fun j _ hlt => hlines (BitVec.ofNat 32 j) (by
      rw [BitVec.lt_def, BitVec.toNat_ofNat]
      exact Nat.lt_of_le_of_lt (Nat.mod_le _ _) (show j < 16 by omega))) (Nat.le_refl 16)
  have hapart₂ := apart_of_version hapart₁ hwritten₂.version
  obtain ⟨a, hfound, hserves⟩ := exists_serves hapart₂ (hlines 2 (by decide))
  refine ⟨maskGsi (ioapicValidate 2 l st₂).2 a 2, ?_, ?_⟩
  · rw [redirectIrqs, hfirst]
    simp only [hsecond]
    rw [hfound]
  · have hmask := entry_masked hapart₂ hserves (ioapicValidate_regs l st₂ 2)
    intro b hb k hk
    rw [((hwritten₁.trans hwritten₂).trans hmask).entry b hb k hk]
    refine if_congr Iff.rfl ?_ rfl
    simp only [routedEntry_eq hmapped, routedEntry]

/-- INTERNAL: the overrides that are done are served. -/
theorem redirectOverrides_served {overrides : List RawMadt2} {mappedIrqs : ℕ → Bool} {r : IoapicState × (ℕ → Bool)}
    (h : IoapicsApart l count st) (hrun : redirectOverrides l overrides mappedIrqs st = some r) :
    ∀ iso ∈ overrides, ∃ a ∈ l, Accepts count a iso.gsi := by
  induction overrides generalizing st mappedIrqs with
  | nil => exact fun iso hmem => absurd hmem List.not_mem_nil
  | cons iso rest ih =>
    rw [redirectOverrides] at hrun
    cases hline : redirectLine l (iso.irqSrc + 32) iso.gsi iso.flags st with
    | none =>
      rw [hline] at hrun
      cases hrun
    | some st₁ =>
      rw [hline] at hrun
      obtain ⟨hserved, hwritten⟩ := redirectLine_served h hline
      intro iso' hmem
      cases List.mem_cons.mp hmem with
      | inl heq => exact heq ▸ hserved
      | inr hmem => exact ih (apart_of_version h hwritten.version) hrun iso' hmem

/-- INTERNAL: the lines that are done are mapped or served. -/
theorem redirectUnmapped_served {mappedIrqs : ℕ → Bool} {n i : ℕ} (h : IoapicsApart l count st)
    (hrun : redirectUnmapped l mappedIrqs n i st = some st') :
    ∀ j, i ≤ j → j < i + n → mappedIrqs j = true ∨ ∃ a ∈ l, Accepts count a (BitVec.ofNat 32 j) := by
  induction n generalizing i st with
  | zero =>
    intro j hle hlt
    omega
  | succ n ih =>
    intro j hle hlt
    rw [redirectUnmapped] at hrun
    by_cases hmapped : mappedIrqs i = true
    · rw [if_pos hmapped] at hrun
      by_cases hj : j = i
      · exact Or.inl (hj ▸ hmapped)
      · exact ih h hrun j (by omega) (by omega)
    · rw [if_neg hmapped] at hrun
      cases hline : redirectLine l (BitVec.ofNat 8 (i + 32)) (BitVec.ofNat 32 i) 0 st with
      | none =>
        rw [hline] at hrun
        cases hrun
      | some st₁ =>
        rw [hline] at hrun
        obtain ⟨hserved, hwritten⟩ := redirectLine_served h hline
        by_cases hj : j = i
        · exact Or.inr (hj ▸ hserved)
        · exact ih (apart_of_version h hwritten.version) hrun j (by omega) (by omega)

/-- INTERNAL: if the loops end, they have found an I/O APIC for each line. -/
theorem redirectIrqs_served {overrides : List RawMadt2} (h : IoapicsApart l count st)
    (hrun : redirectIrqs l overrides st = some st') : LinesServed l count overrides := by
  rw [redirectIrqs] at hrun
  cases hfirst : redirectOverrides l overrides (fun _ => false) st with
  | none =>
    rw [hfirst] at hrun
    cases hrun
  | some r =>
    have hoverrides := redirectOverrides_served h hfirst
    obtain ⟨st₁, mapped, hfirst', hwritten, hmapped⟩ := redirectOverrides_written h hoverrides fun _ => false
    obtain rfl := Option.some.inj (hfirst'.symm.trans hfirst)
    rw [hfirst] at hrun
    cases hsecond : redirectUnmapped l mapped 16 0 st₁ with
    | none =>
      simp only [hsecond] at hrun
      cases hrun
    | some st₂ =>
      refine ⟨fun gsi hlt => ?_, hoverrides⟩
      have hsixteen : gsi.toNat < 16 := BitVec.lt_def.mp hlt
      cases redirectUnmapped_served (apart_of_version h hwritten.version) hsecond gsi.toNat (Nat.zero_le _) (by omega) with
      | inl hmap =>
        rw [hmapped _ hsixteen, Bool.false_or, List.any_eq_true] at hmap
        obtain ⟨iso, hmem, heq⟩ := hmap
        obtain rfl : iso.gsi = gsi := BitVec.eq_of_toNat_eq (of_decide_eq_true heq)
        exact hoverrides iso hmem
      | inr hserved =>
        have hgsi : BitVec.ofNat 32 gsi.toNat = gsi := BitVec.eq_of_toNat_eq (by rw [BitVec.toNat_ofNat]; omega)
        rwa [hgsi] at hserved

/-- **The lines are routed as the tables ask for.** The loops find an I/O APIC for each interrupt exactly if all of
them are in the ranges that `max_gsi` knows. Then each entry that is found for its interrupt has what the last
override for it says, or for one of the first 16 without override its own number; only the cascade is masked.
SRCLINE: kernel/int/apic.cpp:49-70, 151-164 -/
theorem irqs_routed (overrides : List RawMadt2) (h : IoapicsApart l count st) :
    ((∃ st', redirectIrqs l overrides st = some st') ↔ LinesServed l count overrides) ∧
      ∀ st', redirectIrqs l overrides st = some st' → LinesRouted l count overrides st st' := by
  refine ⟨⟨fun ⟨st', hrun⟩ => redirectIrqs_served h hrun, fun hserved => ?_⟩, fun st' hrun => ?_⟩
  · obtain ⟨st', hrun, -⟩ := redirectIrqs_routed overrides h hserved
    exact ⟨st', hrun⟩
  · obtain ⟨st₁, hrun₁, hrouted⟩ := redirectIrqs_routed overrides h (redirectIrqs_served h hrun)
    obtain rfl := Option.some.inj (hrun₁.symm.trans hrun)
    exact hrouted

/-- One I/O APIC with 24 entries, and a timer at line 2, which ends up masked. -/
theorem irqs_routed_timer : ∃ st', redirectIrqs [⟨0, 0, 0xfec00000, 0⟩] [⟨0, 0, 2, 0⟩, ⟨0, 9, 9, 0xd⟩] freshIoapics =
      some st' ∧
    LinesRouted [⟨0, 0, 0xfec00000, 0⟩] (fun _ => 24) [⟨0, 0, 2, 0⟩, ⟨0, 9, 9, 0xd⟩] freshIoapics st' ∧
    redirection (st' 0xfec00000) 2 = 0x10020 ∧ redirection (st' 0xfec00000) 9 = 0x8029 := by
  have hapart : IoapicsApart [⟨0, 0, 0xfec00000, 0⟩] (fun _ => 24) freshIoapics :=
    ⟨⟨by decide, by decide, by decide, by decide, by decide⟩, by decide⟩
  obtain ⟨hends, hrouted⟩ := irqs_routed [⟨0, 0, 2, 0⟩, ⟨0, 9, 9, 0xd⟩] hapart
  obtain ⟨st', hrun⟩ := hends.mpr (by
    refine ⟨fun gsi hlt => ⟨_, List.mem_cons_self, Nat.zero_le _, ?_⟩, fun iso hiso =>
      ⟨_, List.mem_cons_self, Nat.zero_le _, ?_⟩⟩
    · exact Nat.le_trans (Nat.le_of_lt (BitVec.lt_def.mp hlt)) (by decide)
    · revert iso
      decide)
  have hentries := hrouted st' hrun
  refine ⟨st', hrun, hentries, ?_, ?_⟩
  · exact (hentries _ List.mem_cons_self 2 (by decide)).trans (by decide)
  · exact (hentries _ List.mem_cons_self 9 (by decide)).trans (by decide)

end Lines

end CrepOS.Analysis
