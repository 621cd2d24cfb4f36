import CrepOS.Model.Pci
import Mathlib.Algebra.Group.Nat.Defs

/-!
# The buses behind bridges

`FunctionPresent` says which functions a configuration space has: function 0 of a device answers, and another one
answers and the header of function 0 has the multi function bit. `BusForest` is what a firmware that has
numbered the buses leaves: a bus behind a bridge has a larger number than the bus of the bridge, and it is
behind no other bridge. `EnumeratedOnce` is what a scan of all buses is for.
-/

set_option autoImplicit false

namespace CrepOS.Interface

open CrepOS.Model

/-- The address of a function: bus, device and function number. -/
structure PciAddress where
  bus : BitVec 8
  device : BitVec 8
  func : BitVec 8
  deriving DecidableEq

/-- The address of a device of the list. -/
def pciAddress (d : PciDevice) : PciAddress := ⟨d.bus, d.deviceCode, d.func⟩

/-- The configuration space has a function at the address. -/
def FunctionPresent (cfg : ConfigSpace) (a : PciAddress) : Prop :=
  a.device.toNat < 32 ∧ a.func.toNat < 8 ∧ absent cfg a.bus a.device 0 = false ∧
    (a.func = 0 ∨ multiFunction cfg a.bus a.device = true ∧
      absent cfg a.bus a.device a.func = false)

/-- There is a bridge at the address, to the bus `s`. -/
def BridgeTo (cfg : ConfigSpace) (a : PciAddress) (s : BitVec 8) : Prop :=
  FunctionPresent cfg a ∧ isBridge cfg a.bus a.device a.func = true ∧
    getSecondaryBus cfg a.bus a.device a.func = s

/-- Each bus that is behind a bridge is behind one only, on a bus of smaller number. -/
def BusForest (cfg : ConfigSpace) : Prop :=
  ∀ a s, BridgeTo cfg a s → a.bus.toNat < s.toNat ∧ ∀ a', BridgeTo cfg a' s → a' = a

/-- The scan ends, with a list that has every function once and nothing else. -/
def EnumeratedOnce (cfg : ConfigSpace) : Prop :=
  ∃ l, (∃ n₀, ∀ n ≥ n₀, scanDevices cfg n = some l) ∧ (l.map pciAddress).Nodup ∧
    ∀ a, a ∈ l.map pciAddress ↔ FunctionPresent cfg a

/-- No bridge leads to a bus with a function. -/
def NothingBehindBridges (cfg : ConfigSpace) : Prop :=
  ∀ a s, BridgeTo cfg a s → ∀ a', a'.bus = s → ¬ FunctionPresent cfg a'

/-! ## Base address registers as devices implement them

The lowest bits of a register are its type bits, which are fixed. The bits above them, up to the size, are
zero, and the others hold the address. The address of a 64-bit register goes on in the next register. -/

/-- The kind of a register, with the type bits that may vary: `below1M` is the type `01` of a 32-bit
register. -/
inductive BarKind
  | io
  | mem32 (below1M prefetchable : Bool)
  | mem64 (prefetchable : Bool)
  deriving DecidableEq

namespace BarKind

/-- The type bits. -/
def typeBits : BarKind → ℕ
  | io => 1
  | mem32 below1M prefetchable => (if below1M then 2 else 0) + if prefetchable then 8 else 0
  | mem64 prefetchable => 4 + if prefetchable then 8 else 0

/-- How many low bits are not part of the address. -/
def typeWidth : BarKind → ℕ
  | io => 2
  | _ => 4

/-- How many bits an address has. -/
def width : BarKind → ℕ
  | mem64 _ => 64
  | _ => 32

end BarKind

/-- A register that has been programmed: the size is `2 ^ bits`, and the address a multiple of it. -/
structure ProgrammedBar where
  kind : BarKind
  bits : ℕ
  base : ℕ
  bitsLow : kind.typeWidth ≤ bits
  bitsHigh : bits < kind.width
  aligned : 2 ^ bits ∣ base
  baseHigh : base < 2 ^ kind.width

/-- The address and size that `get_bar` should return. -/
def ProgrammedBar.decoded (b : ProgrammedBar) : PciBar := ⟨BitVec.ofNat 64 b.base, BitVec.ofNat 64 (2 ^ b.bits)⟩

/-- The address of a BAR in the configuration space. -/
def barAddress (d : PciDevice) (num : ℕ) : BitVec 32 :=
  configAddress d.bus d.deviceCode d.func (BitVec.ofNat 8 (0x10 + num * 4))

/-- The BAR `num` of a type-0 function is implemented and programmed: the register, and for a 64-bit BAR
also the next one. -/
structure BarAt (regs : PciRegs) (d : PciDevice) (num : ℕ) (b : ProgrammedBar) : Prop where
  header : getHeaderType regs.value d.bus d.deviceCode d.func &&& 0x7f = 0
  num_le : num ≤ 5
  low : regs.value (barAddress d num) = BitVec.ofNat 32 (b.base + b.kind.typeBits)
  lowWritable : regs.writable (barAddress d num) = BitVec.allOnes 32 <<< b.bits
  high : b.kind.width = 64 → regs.value (barAddress d (num + 1)) = BitVec.ofNat 32 (b.base / 2 ^ 32)
  highWritable : b.kind.width = 64 →
    regs.writable (barAddress d (num + 1)) = BitVec.allOnes 32 <<< (b.bits - 32)

/-- **`get_bar` is right**: it returns the address and the size, and every register is as before. -/
def DecodesBar (regs : PciRegs) (d : PciDevice) (num : ℕ) (b : ProgrammedBar) : Prop :=
  (d.getBar regs num).1 = some b.decoded ∧ (d.getBar regs num).2 = regs

/-- An I/O BAR that looks like one half of a 64-bit BAR: bit 2 of its address is set, which would be the type
`10`, and the next register reads zero and can be written completely. -/
def LooksWide (regs : PciRegs) (d : PciDevice) (num : ℕ) (b : ProgrammedBar) : Prop :=
  b.kind = .io ∧ b.base.testBit 2 ∧ regs.value (barAddress d (num + 1)) = 0 ∧
    regs.writable (barAddress d (num + 1)) = BitVec.allOnes 32

end CrepOS.Interface
