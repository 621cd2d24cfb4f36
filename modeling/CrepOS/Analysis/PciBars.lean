import CrepOS.Interface.PciTree

/-!
# Decoding base address registers

All ones are written, what can be read then is kept, and the old value is written back, so no register
changes (`probe_eq`). The address and the size are right for 64-bit registers (`getBar_wide`). For the others
the size does not depend on the register at all (`getBar_narrow`), since `&` binds more strongly than `?`.
-/

set_option autoImplicit false

namespace CrepOS.Analysis

open CrepOS.Model CrepOS.Interface

/-! ## Registers -/

/-- What a register reads after all ones are written. -/
def readback (regs : PciRegs) (address : BitVec 32) : BitVec 32 :=
  regs.value address &&& ~~~regs.writable address ||| regs.writable address

theorem getLsbD_readback (regs : PciRegs) (address : BitVec 32) (i : ℕ) :
    (readback regs address).getLsbD i =
      ((regs.value address).getLsbD i || (regs.writable address).getLsbD i) := by
  unfold readback
  by_cases hi : i < 32
  · rw [BitVec.getLsbD_or, BitVec.getLsbD_and, BitVec.getLsbD_not]
    cases (regs.value address).getLsbD i <;> cases (regs.writable address).getLsbD i <;> simp [hi]
  · have hge : 32 ≤ i := by omega
    rw [BitVec.getLsbD_of_ge _ _ hge, BitVec.getLsbD_of_ge _ _ hge, BitVec.getLsbD_of_ge _ _ hge, Bool.or_self]

/-- INTERNAL: the bits that cannot be written keep their value, and the others get the old value back. -/
theorem merge_merge (v w ones : BitVec 32) : (v &&& ~~~w ||| ones &&& w) &&& ~~~w ||| v &&& w = v := by
  apply BitVec.eq_of_getLsbD_eq
  intro i hi
  simp only [BitVec.getLsbD_or, BitVec.getLsbD_and, BitVec.getLsbD_not]
  cases v.getLsbD i <;> cases w.getLsbD i <;> cases ones.getLsbD i <;> simp [hi]

/-- INTERNAL: writing the old value last leaves the registers as they were. -/
theorem put_put_value (regs : PciRegs) (address ones : BitVec 32) :
    (regs.put address ones).put address (regs.value address) = regs := by
  cases regs with
  | mk value writable =>
    unfold PciRegs.put
    simp only [Function.update_self, Function.update_idem, merge_merge, Function.update_eq_self]

/-- A probe returns what is read after all ones are written, and leaves the registers as they were.
SRCLINE: kernel/drivers/pci.cpp:103-105, 110-112 -/
theorem probe_eq (d : PciDevice) (regs : PciRegs) (off : BitVec 8) :
    d.probe regs off ((d.read regs off).setWidth 64) =
      ((readback regs (configAddress d.bus d.deviceCode d.func off)).setWidth 64, regs) := by
  have hnarrow : (((d.read regs off).setWidth 64).setWidth 32 : BitVec 32) = d.read regs off := by
    simp
  have hkept : d.write (d.write regs off (BitVec.allOnes 32)) off (d.read regs off) = regs :=
    put_put_value regs (configAddress d.bus d.deviceCode d.func off) (BitVec.allOnes 32)
  have hback : d.read (d.write regs off (BitVec.allOnes 32)) off =
      readback regs (configAddress d.bus d.deviceCode d.func off) := by
    unfold PciDevice.read PciDevice.write rawWrite rawRead PciRegs.put readback
    simp only [Function.update_self, BitVec.allOnes_and]
  unfold PciDevice.probe
  simp only [hnarrow, hkept, hback]

/-! ## The branches -/

theorem getLsbD_three {i : ℕ} (hi : i < 64) : (0b11 : BitVec 64).getLsbD i = decide (i < 2) := by
  revert i
  decide

theorem getLsbD_fifteen {i : ℕ} (hi : i < 64) : (0b1111 : BitVec 64).getLsbD i = decide (i < 4) := by
  revert i
  decide

/-- INTERNAL: the test for a 64-bit register looks at two bits. -/
theorem looks_wide_iff (v : BitVec 32) :
    ((v.setWidth 64 : BitVec 64) >>> 1) &&& 0b11 = 0b10 ↔ v.getLsbD 1 = false ∧ v.getLsbD 2 = true := by
  have hbit : ∀ i < 64, (((v.setWidth 64 : BitVec 64) >>> 1) &&& 0b11).getLsbD i =
      (v.getLsbD (1 + i) && decide (i < 2)) := by
    intro i hi
    rw [BitVec.getLsbD_and, getLsbD_three hi, BitVec.getLsbD_ushiftRight, BitVec.getLsbD_setWidth]
    by_cases hlow : i < 2
    · simp only [show 1 + i < 64 by omega, decide_true, Bool.true_and]
    · simp only [hlow, decide_false, Bool.and_false]
  have htwo : ∀ i < 64, (0b10 : BitVec 64).getLsbD i = decide (i = 1) := by
    decide
  constructor
  · intro h
    have hone := hbit 0 (by omega)
    have hnext := hbit 1 (by omega)
    rw [h, htwo _ (by omega)] at hone hnext
    exact ⟨by simpa using hone.symm, by simpa using hnext.symm⟩
  · intro ⟨hone, hnext⟩
    apply BitVec.eq_of_getLsbD_eq
    intro i hi
    rw [hbit i hi, htwo i hi]
    by_cases hlow : i < 2
    · have hcases : i = 0 ∨ i = 1 := by omega
      cases hcases with
      | inl h => rw [h, hone, Bool.false_and, decide_eq_false (by omega)]
      | inr h => rw [h, hnext, Bool.true_and, decide_eq_true (by omega), decide_eq_true rfl]
    · rw [decide_eq_false hlow, Bool.and_false, decide_eq_false (by omega)]

/-- INTERNAL: the test for a memory register looks at one bit. -/
theorem memory_iff (v : BitVec 32) : (v.setWidth 64 : BitVec 64) &&& 1 = 0 ↔ v.getLsbD 0 = false := by
  rw [show (1 : BitVec 64) = BitVec.twoPow 64 0 from rfl, BitVec.and_twoPow, BitVec.getLsbD_setWidth]
  cases v.getLsbD 0 <;> decide

section Branches

variable {regs : PciRegs} {d : PciDevice} {num : ℕ}

/-- INTERNAL: the low bits that `get_bar` takes for type bits. -/
def typeMask (regs : PciRegs) (d : PciDevice) (num : ℕ) : BitVec 64 :=
  if (regs.value (barAddress d num)).getLsbD 0 then 0b11 else 0b1111

/-- INTERNAL: a register and the next one as one. -/
def joined (high low : BitVec 32) : BitVec 64 := high.setWidth 64 <<< 32 ||| low.setWidth 64

theorem barAddress_next (d : PciDevice) (num : ℕ) :
    configAddress d.bus d.deviceCode d.func (BitVec.ofNat 8 (0x10 + num * 4) + 4) = barAddress d (num + 1) := by
  have hoff : BitVec.ofNat 8 (0x10 + num * 4) + 4 = BitVec.ofNat 8 (0x10 + (num + 1) * 4) := by
    rw [show (4 : BitVec 8) = BitVec.ofNat 8 4 from rfl, ← BitVec.ofNat_add]
    congr 1
    omega
  rw [hoff]
  rfl

/-- A register that looks like one half of a 64-bit BAR.
SRCLINE: kernel/drivers/pci.cpp:107-122 -/
theorem getBar_wide (hheader : getHeaderType regs.value d.bus d.deviceCode d.func = 0) (hnum : num ≤ 5)
    (hone : (regs.value (barAddress d num)).getLsbD 1 = false)
    (htwo : (regs.value (barAddress d num)).getLsbD 2 = true) :
    d.getBar regs num =
      (some ⟨joined (regs.value (barAddress d (num + 1))) (regs.value (barAddress d num)) &&& ~~~typeMask regs d num,
        ~~~(joined (readback regs (barAddress d (num + 1))) (readback regs (barAddress d num)) &&&
          ~~~typeMask regs d num) + 1⟩, regs) := by
  have hread : d.read regs (BitVec.ofNat 8 (0x10 + num * 4)) = regs.value (barAddress d num) := rfl
  have hnext : d.read regs (BitVec.ofNat 8 (0x10 + num * 4) + 4) = regs.value (barAddress d (num + 1)) := by
    unfold PciDevice.read rawRead
    rw [barAddress_next]
  have hwide := (looks_wide_iff (regs.value (barAddress d num))).mpr ⟨hone, htwo⟩
  unfold PciDevice.getBar
  rw [if_neg (by simpa using hheader), if_neg (by omega)]
  simp only [probe_eq, barAddress_next]
  rw [hread, hnext, if_pos hwide]
  unfold joined typeMask
  by_cases hmem : (regs.value (barAddress d num)).getLsbD 0 = false
  · simp only [(memory_iff _).mpr hmem, hmem]
    rfl
  · have hio : (regs.value (barAddress d num)).getLsbD 0 = true := by simpa using hmem
    simp only [mt (memory_iff _).mp hmem, hio, if_true, if_false]
    rfl

/-- INTERNAL: another register: the size does not depend on it, beyond its type.
SRCLINE: kernel/drivers/pci.cpp:124-127 -/
theorem getBar_narrow (hheader : getHeaderType regs.value d.bus d.deviceCode d.func = 0) (hnum : num ≤ 5)
    (hnot : ¬ ((regs.value (barAddress d num)).getLsbD 1 = false ∧
      (regs.value (barAddress d num)).getLsbD 2 = true)) :
    ∃ bar : PciBar, d.getBar regs num = (some bar, regs) ∧
      (bar.size = ~~~0b1111 + 1 ∨ bar.size = ~~~0b11 + 1) := by
  have hread : d.read regs (BitVec.ofNat 8 (0x10 + num * 4)) = regs.value (barAddress d num) := rfl
  have hwide := mt (looks_wide_iff (regs.value (barAddress d num))).mp hnot
  unfold PciDevice.getBar
  rw [if_neg (by simpa using hheader), if_neg (by omega)]
  simp only [probe_eq]
  rw [hread, if_neg hwide]
  have hsize : ∀ (c : Prop) [Decidable c], ~~~(if c then 0b1111 else 0b11 : BitVec 64) + 1 = ~~~0b1111 + 1 ∨
      ~~~(if c then 0b1111 else 0b11 : BitVec 64) + 1 = ~~~0b11 + 1 := by
    intro c _
    by_cases hc : c
    · exact Or.inl (by rw [if_pos hc])
    · exact Or.inr (by rw [if_neg hc])
  exact ⟨_, rfl, hsize _⟩

/-- A function of a multi-function device is refused.
SRCLINE: kernel/drivers/pci.cpp:93-94 -/
theorem getBar_refused (hheader : getHeaderType regs.value d.bus d.deviceCode d.func ≠ 0) :
    d.getBar regs num = (none, regs) := by
  unfold PciDevice.getBar
  rw [if_pos hheader]

end Branches

/-! ## Programmed registers -/

namespace ProgrammedBar

variable (b : ProgrammedBar)

theorem typeBits_lt (k : BarKind) : k.typeBits < 2 ^ k.typeWidth := by
  cases k with
  | io => decide
  | mem32 below1M prefetchable => cases below1M <;> cases prefetchable <;> decide
  | mem64 prefetchable => cases prefetchable <;> decide

/-- INTERNAL: below the size no bit of the address is set. -/
theorem base_testBit_low {i : ℕ} (hi : i < b.bits) : b.base.testBit i = false := by
  obtain ⟨q, hq⟩ := b.aligned
  rw [hq, Nat.testBit_two_pow_mul]
  simp [show ¬ b.bits ≤ i by omega]

/-- The bits of the address and the type bits. -/
theorem testBit_add (i : ℕ) :
    (b.base + b.kind.typeBits).testBit i = if i < b.bits then b.kind.typeBits.testBit i else b.base.testBit i := by
  obtain ⟨q, hq⟩ := b.aligned
  have hlt : b.kind.typeBits < 2 ^ b.bits :=
    Nat.lt_of_lt_of_le (typeBits_lt b.kind) (Nat.pow_le_pow_right (by omega) b.bitsLow)
  rw [hq, Nat.testBit_two_pow_mul_add _ hlt, Nat.testBit_two_pow_mul]
  by_cases hi : i < b.bits
  · rw [if_pos hi, if_pos hi]
  · rw [if_neg hi, if_neg hi]
    simp [show b.bits ≤ i by omega]

theorem typeBits_testBit {i : ℕ} (hi : b.kind.typeWidth ≤ i) : b.kind.typeBits.testBit i = false := by
  apply Nat.testBit_lt_two_pow
  exact Nat.lt_of_lt_of_le (typeBits_lt b.kind) (Nat.pow_le_pow_right (by omega) hi)

end ProgrammedBar

/-- INTERNAL: the negation of a mask is the size. -/
theorem not_mask_succ {n : ℕ} (hn : n < 64) : ~~~(BitVec.allOnes 64 <<< n) + 1#64 = BitVec.ofNat 64 (2 ^ n) := by
  have hlt : 2 ^ n < 2 ^ 64 := Nat.pow_lt_pow_right (by omega) hn
  rw [← BitVec.neg_eq_not_add, ← BitVec.neg_one_eq_allOnes, ← BitVec.shiftLeft_neg, BitVec.neg_neg,
    ← BitVec.twoPow_eq]
  apply BitVec.eq_of_toNat_eq
  rw [BitVec.toNat_twoPow, BitVec.toNat_ofNat]

section Programmed

variable {regs : PciRegs} {d : PciDevice} {num : ℕ} {b : ProgrammedBar}

theorem getLsbD_low (hat : BarAt regs d num b) {i : ℕ} (hi : i < 32) :
    (regs.value (barAddress d num)).getLsbD i =
      if i < b.bits then b.kind.typeBits.testBit i else b.base.testBit i := by
  rw [hat.low, BitVec.getLsbD_ofNat, ProgrammedBar.testBit_add]
  simp only [hi, decide_true, Bool.true_and]

theorem getLsbD_readback_low (hat : BarAt regs d num b) {i : ℕ} (hi : i < 32) :
    (readback regs (barAddress d num)).getLsbD i = if i < b.bits then b.kind.typeBits.testBit i else true := by
  rw [getLsbD_readback, getLsbD_low hat hi, hat.lowWritable, BitVec.getLsbD_shiftLeft, BitVec.getLsbD_allOnes]
  by_cases hlow : i < b.bits
  · simp [hlow]
  · simp only [hlow, hi, show i - b.bits < 32 by omega, if_false, decide_true, decide_false, Bool.not_false,
      Bool.and_self, Bool.or_true]

/-- INTERNAL: the bits that `get_bar` clears are the type bits. -/
theorem getLsbD_typeMask (hat : BarAt regs d num b) {i : ℕ} (hi : i < 64) :
    (typeMask regs d num).getLsbD i = decide (i < b.kind.typeWidth) := by
  have hbit : (regs.value (barAddress d num)).getLsbD 0 = b.kind.typeBits.testBit 0 := by
    have hpos : 0 < b.bits := by
      have hle := b.bitsLow
      cases hk : b.kind <;> rw [hk] at hle <;> simp only [BarKind.typeWidth] at hle <;> omega
    rw [getLsbD_low hat (by omega), if_pos hpos]
  unfold typeMask
  rw [hbit]
  cases b.kind with
  | io => exact getLsbD_three hi
  | mem32 below1M prefetchable => cases below1M <;> cases prefetchable <;> exact getLsbD_fifteen hi
  | mem64 prefetchable => cases prefetchable <;> exact getLsbD_fifteen hi

theorem getLsbD_joined (high low : BitVec 32) {i : ℕ} (hi : i < 64) :
    (joined high low).getLsbD i = if i < 32 then low.getLsbD i else high.getLsbD (i - 32) := by
  unfold joined
  rw [BitVec.getLsbD_or, BitVec.getLsbD_shiftLeft, BitVec.getLsbD_setWidth, BitVec.getLsbD_setWidth]
  by_cases hlow : i < 32
  · simp only [hlow, hi, decide_true, Bool.not_true, Bool.and_false, Bool.false_and, Bool.false_or, Bool.true_and,
      if_true]
  · have hge : low.getLsbD i = false := BitVec.getLsbD_of_ge _ _ (by omega)
    simp only [hlow, hi, hge, show i - 32 < 64 by omega, decide_true, decide_false, Bool.not_false, Bool.and_true,
      Bool.true_and, Bool.and_false, Bool.or_false, if_false]

/-- The address is right if and only if its upper half is. -/
theorem wide_base_iff (hat : BarAt regs d num b) :
    joined (regs.value (barAddress d (num + 1))) (regs.value (barAddress d num)) &&& ~~~typeMask regs d num =
        BitVec.ofNat 64 b.base ↔
      ∀ i < 32, (regs.value (barAddress d (num + 1))).getLsbD i = b.base.testBit (i + 32) := by
  have hbit : ∀ i < 64, (joined (regs.value (barAddress d (num + 1))) (regs.value (barAddress d num)) &&&
      ~~~typeMask regs d num).getLsbD i =
        if i < 32 then b.base.testBit i else (regs.value (barAddress d (num + 1))).getLsbD (i - 32) := by
    intro i hi
    have hwidth : b.kind.typeWidth ≤ 4 := by
      cases b.kind <;> simp [BarKind.typeWidth]
    rw [BitVec.getLsbD_and, BitVec.getLsbD_not, getLsbD_typeMask hat hi, getLsbD_joined _ _ hi]
    by_cases hlow : i < 32
    · rw [if_pos hlow, if_pos hlow, getLsbD_low hat hlow]
      by_cases htype : i < b.kind.typeWidth
      · have hbits : i < b.bits := Nat.lt_of_lt_of_le htype b.bitsLow
        simp [htype, ProgrammedBar.base_testBit_low b hbits]
      · by_cases hbits : i < b.bits
        · simp [hbits, ProgrammedBar.typeBits_testBit b (Nat.le_of_not_lt htype),
            ProgrammedBar.base_testBit_low b hbits]
        · simp [hbits, htype, hi]
    · simp [hlow, hi, show ¬ i < b.kind.typeWidth by omega]
  constructor
  · intro h i hi
    have hi64 := hbit (i + 32) (by omega)
    rw [h, BitVec.getLsbD_ofNat, if_neg (by omega), Nat.add_sub_cancel] at hi64
    rw [← hi64]
    simp [show i + 32 < 64 by omega]
  · intro h
    apply BitVec.eq_of_getLsbD_eq
    intro i hi
    rw [hbit i hi, BitVec.getLsbD_ofNat]
    by_cases hlow : i < 32
    · simp [hlow, hi]
    · rw [if_neg hlow, h _ (by omega), Nat.sub_add_cancel (by omega)]
      simp [hi]

/-- The size is right if and only if the upper half of what is read back is. -/
theorem wide_size_iff (hat : BarAt regs d num b) :
    ~~~(joined (readback regs (barAddress d (num + 1))) (readback regs (barAddress d num)) &&&
          ~~~typeMask regs d num) + 1 = BitVec.ofNat 64 (2 ^ b.bits) ↔
      ∀ i < 32, (readback regs (barAddress d (num + 1))).getLsbD i = decide (b.bits ≤ i + 32) := by
  have hbits : b.bits < 64 := by
    have hlt := b.bitsHigh
    cases hk : b.kind <;> rw [hk] at hlt <;> simp only [BarKind.width] at hlt <;> omega
  have hbit : ∀ i < 64, (joined (readback regs (barAddress d (num + 1))) (readback regs (barAddress d num)) &&&
      ~~~typeMask regs d num).getLsbD i =
        if i < 32 then decide (b.bits ≤ i) else (readback regs (barAddress d (num + 1))).getLsbD (i - 32) := by
    intro i hi
    have hwidth : b.kind.typeWidth ≤ 4 := by
      cases b.kind <;> simp [BarKind.typeWidth]
    rw [BitVec.getLsbD_and, BitVec.getLsbD_not, getLsbD_typeMask hat hi, getLsbD_joined _ _ hi]
    by_cases hlow : i < 32
    · rw [if_pos hlow, if_pos hlow, getLsbD_readback_low hat hlow]
      by_cases htype : i < b.kind.typeWidth
      · have hlt : i < b.bits := Nat.lt_of_lt_of_le htype b.bitsLow
        simp [htype, show ¬ b.bits ≤ i by omega]
      · by_cases hlt : i < b.bits
        · simp [hlt, ProgrammedBar.typeBits_testBit b (Nat.le_of_not_lt htype)]
        · simp [hlt, htype, hi, show b.bits ≤ i by omega]
    · simp [hlow, hi, show ¬ i < b.kind.typeWidth by omega]
  have hmask : ∀ i < 64, (BitVec.allOnes 64 <<< b.bits).getLsbD i = decide (b.bits ≤ i) := by
    intro i hi
    rw [BitVec.getLsbD_shiftLeft, BitVec.getLsbD_allOnes]
    by_cases hlt : i < b.bits
    · simp [hlt, show ¬ b.bits ≤ i by omega]
    · simp [hlt, hi, show b.bits ≤ i by omega, show i - b.bits < 64 by omega]
  rw [← not_mask_succ hbits]
  constructor
  · intro h i hi
    have heq := BitVec.not_inj.mp ((BitVec.add_left_inj 1#64).mp h)
    have hi64 := hbit (i + 32) (by omega)
    rw [heq, hmask _ (by omega), if_neg (by omega), Nat.add_sub_cancel] at hi64
    exact hi64.symm
  · intro h
    have heq : joined (readback regs (barAddress d (num + 1))) (readback regs (barAddress d num)) &&&
        ~~~typeMask regs d num = BitVec.allOnes 64 <<< b.bits := by
      apply BitVec.eq_of_getLsbD_eq
      intro i hi
      rw [hbit i hi, hmask i hi]
      by_cases hlow : i < 32
      · rw [if_pos hlow]
      · rw [if_neg hlow, h _ (by omega), Nat.sub_add_cancel (by omega)]
    rw [heq]
    rfl

/-! ## Exactly the registers that are decoded -/

/-- INTERNAL: of a register that looks like one half of a 64-bit BAR, everything hangs on the next one. -/
theorem decodes_wide_iff (hat : BarAt regs d num b)
    (hheader : getHeaderType regs.value d.bus d.deviceCode d.func = 0)
    (hone : (regs.value (barAddress d num)).getLsbD 1 = false)
    (htwo : (regs.value (barAddress d num)).getLsbD 2 = true) :
    DecodesBar regs d num b ↔
      (∀ i < 32, (regs.value (barAddress d (num + 1))).getLsbD i = b.base.testBit (i + 32)) ∧
        ∀ i < 32, (readback regs (barAddress d (num + 1))).getLsbD i = decide (b.bits ≤ i + 32) := by
  unfold DecodesBar ProgrammedBar.decoded
  rw [getBar_wide hheader hat.num_le hone htwo, ← wide_base_iff hat, ← wide_size_iff hat]
  simp only [Option.some.injEq, PciBar.mk.injEq, and_true]

/-- INTERNAL: any other register gets a size that no register of 32 bits has. -/
theorem not_decodes_narrow (hat : BarAt regs d num b) (hwidth : b.kind.width = 32)
    (hheader : getHeaderType regs.value d.bus d.deviceCode d.func = 0)
    (hnot : ¬ ((regs.value (barAddress d num)).getLsbD 1 = false ∧
      (regs.value (barAddress d num)).getLsbD 2 = true)) : ¬ DecodesBar regs d num b := by
  intro h
  obtain ⟨bar, hget, hsize⟩ := getBar_narrow hheader hat.num_le hnot
  have hbar := h.1
  rw [hget, Option.some.injEq] at hbar
  have hlt : 2 ^ b.bits < 2 ^ 32 := Nat.pow_lt_pow_right (by omega) (hwidth ▸ b.bitsHigh)
  have hnat : bar.size.toNat = 2 ^ b.bits := by
    rw [hbar]
    unfold ProgrammedBar.decoded
    rw [BitVec.toNat_ofNat, Nat.mod_eq_of_lt (by omega)]
  have hlarge : 2 ^ 32 ≤ bar.size.toNat := by
    cases hsize with
    | inl h => rw [h]; decide
    | inr h => rw [h]; decide
  omega

/-- INTERNAL: for a 64-bit register the next one is its upper half. -/
theorem decodes_mem64 (hat : BarAt regs d num b) (hkind : b.kind.width = 64)
    (hheader : getHeaderType regs.value d.bus d.deviceCode d.func = 0) : DecodesBar regs d num b := by
  have hlow := b.bitsLow
  have htype : b.kind.typeBits.testBit 1 = false ∧ b.kind.typeBits.testBit 2 = true ∧ 4 ≤ b.bits := by
    cases hk : b.kind with
    | io => rw [hk] at hkind; exact absurd hkind (by decide)
    | mem32 below1M prefetchable =>
      rw [hk] at hkind
      have hne : (32 : ℕ) ≠ 64 := by decide
      exact absurd hkind hne
    | mem64 prefetchable =>
      rw [hk] at hlow
      cases prefetchable <;> exact ⟨by decide, by decide, hlow⟩
  have hone : (regs.value (barAddress d num)).getLsbD 1 = false := by
    rw [getLsbD_low hat (by omega), if_pos (by omega), htype.1]
  have htwo : (regs.value (barAddress d num)).getLsbD 2 = true := by
    rw [getLsbD_low hat (by omega), if_pos (by omega), htype.2.1]
  rw [decodes_wide_iff hat hheader hone htwo]
  have hhigh : ∀ i < 32, (regs.value (barAddress d (num + 1))).getLsbD i = b.base.testBit (i + 32) := by
    intro i hi
    rw [hat.high hkind, BitVec.getLsbD_ofNat, Nat.testBit_div_two_pow]
    simp [hi]
  refine ⟨hhigh, ?_⟩
  intro i hi
  rw [getLsbD_readback, hhigh i hi, hat.highWritable hkind, BitVec.getLsbD_shiftLeft, BitVec.getLsbD_allOnes]
  by_cases hlt : i + 32 < b.bits
  · simp [ProgrammedBar.base_testBit_low b hlt, hi, show i < b.bits - 32 by omega, show ¬ b.bits ≤ i + 32 by omega]
  · simp [hi, show ¬ i < b.bits - 32 by omega, show b.bits ≤ i + 32 by omega, show i - (b.bits - 32) < 32 by omega]

/-- INTERNAL: an I/O register is decoded if it looks like one half of a 64-bit BAR and the next one fits. -/
theorem decodes_io_iff (hat : BarAt regs d num b) (hkind : b.kind = .io)
    (hheader : getHeaderType regs.value d.bus d.deviceCode d.func = 0) :
    DecodesBar regs d num b ↔ LooksWide regs d num b := by
  have hlow : 2 ≤ b.bits := by
    have hle := b.bitsLow
    rw [hkind] at hle
    exact hle
  have hbase : b.base < 2 ^ 32 := by
    have hlt := b.baseHigh
    rw [hkind] at hlt
    exact hlt
  have hone : (regs.value (barAddress d num)).getLsbD 1 = false := by
    rw [getLsbD_low hat (by omega), if_pos (by omega), hkind]
    decide
  have htwo : (regs.value (barAddress d num)).getLsbD 2 = b.base.testBit 2 := by
    rw [getLsbD_low hat (by omega)]
    by_cases hlt : 2 < b.bits
    · rw [if_pos hlt, ProgrammedBar.base_testBit_low b hlt, hkind]
      decide
    · rw [if_neg hlt]
  by_cases hbit : b.base.testBit 2 = true
  · have hbits : b.bits = 2 := by
      apply Nat.le_antisymm _ hlow
      apply Nat.le_of_not_lt
      intro hlt
      rw [ProgrammedBar.base_testBit_low b hlt] at hbit
      exact absurd hbit (by decide)
    have hnone : ∀ i, b.base.testBit (i + 32) = false := by
      intro i
      apply Nat.testBit_lt_two_pow
      exact Nat.lt_of_lt_of_le hbase (Nat.pow_le_pow_right (by omega) (by omega))
    rw [decodes_wide_iff hat hheader hone (htwo.trans hbit)]
    unfold LooksWide
    constructor
    · intro ⟨hvalue, hback⟩
      have hzero : regs.value (barAddress d (num + 1)) = 0 := by
        apply BitVec.eq_of_getLsbD_eq
        intro i hi
        rw [hvalue i hi, hnone]
        simp
      refine ⟨hkind, hbit, hzero, ?_⟩
      apply BitVec.eq_of_getLsbD_eq
      intro i hi
      have hread := hback i hi
      rw [getLsbD_readback, hvalue i hi, hnone, Bool.false_or] at hread
      rw [hread, BitVec.getLsbD_allOnes]
      simp [hi, show b.bits ≤ i + 32 by omega]
    · intro ⟨_, _, hzero, hones⟩
      constructor
      · intro i hi
        rw [hzero, hnone]
        simp
      · intro i hi
        rw [getLsbD_readback, hones, BitVec.getLsbD_allOnes]
        simp [hi, show b.bits ≤ i + 32 by omega]
  · have hclear : b.base.testBit 2 = false := by simpa using hbit
    constructor
    · intro h
      refine absurd h (not_decodes_narrow hat (by rw [hkind]; rfl) hheader ?_)
      rw [htwo, hclear]
      simp
    · intro h
      exact absurd h.2.1 hbit

/-- `get_bar` is right if and only if the function is not one of a multi-function device and the BAR is a 64-bit
one, or passes for one. -/
theorem decodesBar_iff (hat : BarAt regs d num b) :
    DecodesBar regs d num b ↔ getHeaderType regs.value d.bus d.deviceCode d.func = 0 ∧
      (b.kind.width = 64 ∨ LooksWide regs d num b) := by
  by_cases hheader : getHeaderType regs.value d.bus d.deviceCode d.func = 0
  · rw [and_iff_right hheader]
    cases hk : b.kind with
    | io =>
      rw [decodes_io_iff hat hk hheader]
      simp [BarKind.width]
    | mem32 below1M prefetchable =>
      have hlow := b.bitsLow
      rw [hk] at hlow
      have hnot : (regs.value (barAddress d num)).getLsbD 2 = false := by
        have hpos : 2 < b.bits := Nat.lt_of_lt_of_le (by decide : 2 < 4) hlow
        rw [getLsbD_low hat (by omega), if_pos hpos, hk]
        cases below1M <;> cases prefetchable <;> decide
      have hwrong : ¬ DecodesBar regs d num b := by
        apply not_decodes_narrow hat (by rw [hk]; rfl) hheader
        rw [hnot]
        exact fun h => absurd h.2 (by decide)
      unfold LooksWide
      simp [hwrong, hk, BarKind.width]
    | mem64 prefetchable =>
      have hright := decodes_mem64 hat (by rw [hk]; rfl) hheader
      simp [hright, BarKind.width]
  · have hwrong : ¬ DecodesBar regs d num b := by
      intro h
      have hsome := h.1
      rw [getBar_refused hheader] at hsome
      exact absurd hsome (by simp)
    constructor
    · intro h
      exact absurd h hwrong
    · intro h
      exact absurd h.1 hheader

end Programmed

/-- A function with one BAR, in the first register of it and the next. -/
def oneBar (d : PciDevice) (b : ProgrammedBar) : PciRegs where
  value := Function.update (Function.update (fun _ => 0) (barAddress d 1) (BitVec.ofNat 32 (b.base / 2 ^ 32)))
    (barAddress d 0) (BitVec.ofNat 32 (b.base + b.kind.typeBits))
  writable := Function.update (Function.update (fun _ => 0) (barAddress d 1)
    (BitVec.allOnes 32 <<< (b.bits - 32))) (barAddress d 0) (BitVec.allOnes 32 <<< b.bits)

/-- A function of the bus 0. -/
def anyFunction : PciDevice := ⟨0, 3, 0, 1, 8, 2, 0x10, 0x1b36⟩

/-- A memory BAR of 16 KiB above 4 GiB. -/
def highBar : ProgrammedBar :=
  ⟨.mem64 true, 14, 0x4febf0000, by decide, by decide, by decide, by decide⟩

theorem decodesBar_high : DecodesBar (oneBar anyFunction highBar) anyFunction 0 highBar :=
  (decodesBar_iff ⟨by decide, by decide, by decide, by decide, by decide, by decide⟩).mpr
    ⟨by decide, Or.inl (by decide)⟩

/-- A memory BAR of 4 KiB below 4 GiB. -/
def lowBar : ProgrammedBar :=
  ⟨.mem32 false false, 12, 0xfebf0000, by decide, by decide, by decide, by decide⟩

/-- The size of a 32-bit register comes out as `2 ^ 64 - 3`. -/
theorem lowBar_misread : ¬ ∀ (regs : PciRegs) (d : PciDevice) (num : ℕ) (b : ProgrammedBar),
    BarAt regs d num b → DecodesBar regs d num b := by
  intro h
  have hat : BarAt (oneBar anyFunction lowBar) anyFunction 0 lowBar :=
    ⟨by decide, by decide, by decide, by decide, by decide, by decide⟩
  have hsize : (anyFunction.getBar (oneBar anyFunction lowBar) 0).1 =
      some ⟨0xfebf0000, 0xfffffffffffffffd⟩ := by decide
  have hright := (h _ _ _ _ hat).1
  rw [hsize] at hright
  exact absurd hright (by decide)

end CrepOS.Analysis
