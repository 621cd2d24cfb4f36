import CrepOS.Model.Acpi

/-!
# The I/O APICs, `int/apic.cpp`

An I/O APIC is two registers in memory, at its address and 16 bytes behind: the first selects one of its
registers, the second is the one selected. `ioapic_list` is a list, the state of the devices a function of the
address. An `ioapic` is its `madt1`.
-/

set_option autoImplicit false

namespace CrepOS.Model

/-- An I/O APIC: the selected register, and the registers. -/
structure IoapicDevice where
  select : BitVec 32
  regs : BitVec 32 → BitVec 32

/-- The I/O APICs by their addresses. -/
abbrev IoapicState := BitVec 32 → IoapicDevice

section Registers

variable (st : IoapicState) (ioapic : RawMadt1)

/-- `ioapic::read`.
SRCLINE: kernel/int/apic.cpp:10-13 -/
def ioapicRead (reg : BitVec 32) : BitVec 32 × IoapicState :=
  let device := st ioapic.ioapicAddr
  (device.regs reg, Function.update st ioapic.ioapicAddr { device with select := reg })

/-- `ioapic::write`.
SRCLINE: kernel/int/apic.cpp:15-18 -/
def ioapicWrite (reg data : BitVec 32) : IoapicState :=
  let device := st ioapic.ioapicAddr
  Function.update st ioapic.ioapicAddr ⟨reg, Function.update device.regs reg data⟩

/-- `ioapic::read_redirection`.
SRCLINE: kernel/int/apic.cpp:20-23 -/
def readRedirection (gsi : BitVec 32) : BitVec 64 × IoapicState :=
  let reg := (gsi - ioapic.gsiBase) * 2 + 16
  let (low, st) := ioapicRead st ioapic reg
  let (high, st) := ioapicRead st ioapic (reg + 1)
  (low.setWidth 64 ||| high.setWidth 64 <<< 32, st)

/-- `ioapic::write_redirection`.
SRCLINE: kernel/int/apic.cpp:25-29 -/
def writeRedirection (gsi : BitVec 32) (data : BitVec 64) : IoapicState :=
  let reg := (gsi - ioapic.gsiBase) * 2 + 16
  let st := ioapicWrite st ioapic reg (data.setWidth 32)
  ioapicWrite st ioapic (reg + 1) ((data >>> 32).setWidth 32)

/-- `ioapic::mask_gsi`.
SRCLINE: kernel/int/apic.cpp:31-33 -/
def maskGsi (gsi : BitVec 32) : IoapicState :=
  let (redirection, st) := readRedirection st ioapic gsi
  writeRedirection st ioapic gsi (redirection ||| 1#64 <<< 16)

/-- `ioapic::unmask_gsi`.
SRCLINE: kernel/int/apic.cpp:35-37 -/
def unmaskGsi (gsi : BitVec 32) : IoapicState :=
  let (redirection, st) := readRedirection st ioapic gsi
  writeRedirection st ioapic gsi (redirection &&& 1#64 <<< 16)

/-- `ioapic::max_gsi`.
SRCLINE: kernel/int/apic.cpp:39-42 -/
def maxGsi : BitVec 32 × IoapicState :=
  let (data, st) := ioapicRead st ioapic 1
  ((data >>> 16) &&& ~~~(1#32 <<< 7), st)

end Registers

/-- The loop of `ioapic::mask_all_gsi` from `i` on, for `fuel` rounds at most.
SRCLINE: kernel/int/apic.cpp:45-46 -/
def maskFrom (ioapic : RawMadt1) : ℕ → BitVec 32 → IoapicState → Option IoapicState
  | 0, _, _ => none
  | fuel + 1, i, st =>
    let (maxGsi, st) := maxGsi st ioapic
    if i < maxGsi then maskFrom ioapic fuel (i + 1) (maskGsi st ioapic i) else some st

/-- `ioapic::mask_all_gsi`.
SRCLINE: kernel/int/apic.cpp:44-47 -/
def maskAllGsi (fuel : ℕ) (st : IoapicState) (ioapic : RawMadt1) : Option IoapicState :=
  maskFrom ioapic fuel ioapic.gsiBase st

/-- `ioapic_validate`; `none` is the `ioapic()` without an address. `&&` reads `max_gsi` only if the first
test holds.
SRCLINE: kernel/int/apic.cpp:63-70 -/
def ioapicValidate (gsi : BitVec 32) : List RawMadt1 → IoapicState → Option RawMadt1 × IoapicState
  | [], st => (none, st)
  | ioapic :: rest, st =>
    if ioapic.gsiBase ≤ gsi then
      let (maxGsi, st) := maxGsi st ioapic
      if gsi ≤ maxGsi then (some ioapic, st) else ioapicValidate gsi rest st
    else ioapicValidate gsi rest st

/-! ## The lines, `apic::init` -/

/-- What `ioapic::redirect_gsi` writes.
SRCLINE: kernel/int/apic.cpp:50-58 -/
def redirectWord (vector : BitVec 8) (flags : BitVec 16) : BitVec 64 :=
  let redirect := vector.setWidth 64
  let redirect := if flags &&& 1#16 <<< 1 ≠ 0 then redirect ||| 1#64 <<< 13 else redirect
  if flags &&& 1#16 <<< 3 ≠ 0 then redirect ||| 1#64 <<< 15 else redirect

/-- `ioapic::redirect_gsi`.
SRCLINE: kernel/int/apic.cpp:49-61 -/
def redirectGsi (st : IoapicState) (ioapic : RawMadt1) (vector : BitVec 8) (gsi : BitVec 32)
    (flags : BitVec 16) : IoapicState :=
  writeRedirection st ioapic gsi (redirectWord vector flags)

section Lines

variable (l : List RawMadt1)

/-- `ioapic_validate(gsi).redirect_gsi(vector, gsi, flags)`. The address of an `ioapic()` is not initialised, and
there is no result.
SRCLINE: kernel/int/apic.cpp:154, 161 -/
def redirectLine (vector : BitVec 8) (gsi : BitVec 32) (flags : BitVec 16) (st : IoapicState) :
    Option IoapicState :=
  match ioapicValidate gsi l st with
  | (none, _) => none
  | (some ioapic, st) => some (redirectGsi st ioapic vector gsi flags)

/-- The loop over `madt2_list`, with `mapped_irqs`.
SRCLINE: kernel/int/apic.cpp:152-157 -/
def redirectOverrides : List RawMadt2 → (ℕ → Bool) → IoapicState → Option (IoapicState × (ℕ → Bool))
  | [], mappedIrqs, st => some (st, mappedIrqs)
  | iso :: rest, mappedIrqs, st =>
    match redirectLine l (iso.irqSrc + 32) iso.gsi iso.flags st with
    | none => none
    | some st =>
      redirectOverrides rest
        (if iso.gsi < 16 then Function.update mappedIrqs iso.gsi.toNat true else mappedIrqs) st

/-- The loop over the lines that are not mapped, for `n` of them from `i` on.
SRCLINE: kernel/int/apic.cpp:159-162 -/
def redirectUnmapped (mappedIrqs : ℕ → Bool) : ℕ → ℕ → IoapicState → Option IoapicState
  | 0, _, st => some st
  | n + 1, i, st =>
    if mappedIrqs i then redirectUnmapped mappedIrqs n (i + 1) st
    else
      match redirectLine l (BitVec.ofNat 8 (i + 32)) (BitVec.ofNat 32 i) 0 st with
      | none => none
      | some st => redirectUnmapped mappedIrqs n (i + 1) st

/-- `apic::init` from `mapped_irqs` on, as far as the I/O APICs are concerned. The second controller is cascaded to
line 2, which is masked.
SRCLINE: kernel/int/apic.cpp:151-164 -/
def redirectIrqs (overrides : List RawMadt2) (st : IoapicState) : Option IoapicState :=
  match redirectOverrides l overrides (fun _ => false) st with
  | none => none
  | some (st, mappedIrqs) =>
    match redirectUnmapped l mappedIrqs 16 0 st with
    | none => none
    | some st =>
      match ioapicValidate 2 l st with
      | (none, _) => none
      | (some ioapic, st) => some (maskGsi st ioapic 2)

end Lines

end CrepOS.Model
