import CrepOS.Model.Ioapic
import Mathlib.Data.List.Pairwise

/-!
# I/O APICs and their ranges

Each I/O APIC has a number of redirection entries, one less than which is in its register 1, and serves as
many global system interrupts from its `gsi_base` on. The ranges are disjoint.
-/

set_option autoImplicit false

namespace CrepOS.Interface

open CrepOS.Model

/-- The low register of a redirection entry. -/
def redirectionReg (k : ℕ) : BitVec 32 := BitVec.ofNat 32 (16 + 2 * k)

/-- The redirection entry `k`. -/
def redirection (device : IoapicDevice) (k : ℕ) : BitVec 64 :=
  (device.regs (redirectionReg k)).setWidth 64 |||
    (device.regs (redirectionReg k + 1)).setWidth 64 <<< 32

/-- The mask bit of an entry is set. -/
def MaskSet (entry : BitVec 64) : Prop := entry.getLsbD 16 = true

/-- The number of the `k`-th interrupt of an I/O APIC. -/
def gsiOf (ioapic : RawMadt1) (k : ℕ) : BitVec 32 := ioapic.gsiBase + BitVec.ofNat 32 k

/-- The I/O APICs of a machine: `count` is the number of their entries. -/
structure IoapicsPresent (l : List RawMadt1) (count : RawMadt1 → ℕ) (st : IoapicState) : Prop where
  pos : ∀ a ∈ l, 1 ≤ count a
  le : ∀ a ∈ l, count a ≤ 256
  version : ∀ a ∈ l, (st a.ioapicAddr).regs 1 >>> 16 = BitVec.ofNat 32 (count a - 1)
  fits : ∀ a ∈ l, a.gsiBase.toNat + count a ≤ 2 ^ 32
  disjoint : l.Pairwise fun a b => a.gsiBase.toNat + count a ≤ b.gsiBase.toNat ∨
    b.gsiBase.toNat + count b ≤ a.gsiBase.toNat

/-- Each interrupt is found at its I/O APIC. -/
def Validates (l : List RawMadt1) (count : RawMadt1 → ℕ) (st : IoapicState) : Prop :=
  ∀ a ∈ l, ∀ k < count a, (ioapicValidate (gsiOf a k) l st).1 = some a

/-- `mask_all_gsi` sets the mask bit of each entry, and changes no other register. -/
def MasksAll (l : List RawMadt1) (count : RawMadt1 → ℕ) (st : IoapicState) : Prop :=
  ∀ a ∈ l, ∃ fuel st', maskAllGsi fuel st a = some st' ∧
    (∀ k < count a, redirection (st' a.ioapicAddr) k = redirection (st a.ioapicAddr) k ||| 0x10000) ∧
    ∀ addr reg, (addr = a.ioapicAddr → ∀ k < count a, reg ≠ redirectionReg k ∧ reg ≠ redirectionReg k + 1) →
      (st' addr).regs reg = (st addr).regs reg

/-- `unmask_gsi` after `mask_gsi` restores each entry that was not masked. -/
def Restores (l : List RawMadt1) (count : RawMadt1 → ℕ) (st : IoapicState) : Prop :=
  ∀ a ∈ l, ∀ k < count a, ¬ MaskSet (redirection (st a.ioapicAddr) k) →
    redirection (unmaskGsi (maskGsi st a (gsiOf a k)) a (gsiOf a k) a.ioapicAddr) k =
      redirection (st a.ioapicAddr) k

/-- **The I/O APICs are handled correctly.** -/
structure IoapicsCorrect (l : List RawMadt1) (count : RawMadt1 → ℕ) (st : IoapicState) : Prop where
  validates : Validates l count st
  masksAll : MasksAll l count st
  restores : Restores l count st

/-! ## The lines -/

/-- What the tables ask for: the last override of an interrupt, else the line with its own number. -/
def routeOf (overrides : List RawMadt2) (gsi : BitVec 32) : Option (BitVec 64) :=
  match overrides.reverse.find? (·.gsi = gsi) with
  | some iso => some (redirectWord (iso.irqSrc + 32) iso.flags)
  | none => if gsi < 16 then some (redirectWord (gsi.setWidth 8 + 32) 0) else none

/-- The entry of an interrupt that had `entry`; the cascade is masked. -/
def routedEntry (overrides : List RawMadt2) (gsi : BitVec 32) (entry : BitVec 64) : BitVec 64 :=
  let entry := (routeOf overrides gsi).getD entry
  if gsi = 2 then entry ||| 0x10000 else entry

/-- I/O APICs at different addresses. -/
structure IoapicsApart (l : List RawMadt1) (count : RawMadt1 → ℕ) (st : IoapicState) : Prop where
  present : IoapicsPresent l count st
  distinct : l.Pairwise fun a b => a.ioapicAddr ≠ b.ioapicAddr

/-- The interrupt is found at the I/O APIC. -/
def Serves (l : List RawMadt1) (st : IoapicState) (a : RawMadt1) (gsi : BitVec 32) : Prop :=
  (ioapicValidate gsi l st).1 = some a

instance (l : List RawMadt1) (st : IoapicState) (a : RawMadt1) (gsi : BitVec 32) : Decidable (Serves l st a gsi) :=
  inferInstanceAs (Decidable (_ = _))

/-- Each entry that is found for its interrupt has what the tables ask for, and the others are as before. -/
def LinesRouted (l : List RawMadt1) (count : RawMadt1 → ℕ) (overrides : List RawMadt2) (st st' : IoapicState) :
    Prop :=
  ∀ a ∈ l, ∀ k < count a, redirection (st' a.ioapicAddr) k =
    if Serves l st a (gsiOf a k) then routedEntry overrides (gsiOf a k) (redirection (st a.ioapicAddr) k)
    else redirection (st a.ioapicAddr) k

end CrepOS.Interface
