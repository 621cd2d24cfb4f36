import Mathlib.Data.List.Basic
import Mathlib.Tactic.Common

/-!
# The PCI bus, `drivers/pci.cpp`

The configuration space is what a read of port `0xcfc` returns for each value of port `0xcf8`; the scan
writes to none of its registers. `device_list` is the list of the devices pushed so far; nothing else of
`lib::vector` matters here, since the list only grows.

`scan_bus` and the constructor of `device` call each other, a level of nesting for each bridge. The
functions have as much fuel as there may be levels, and running out of it gives no result.

The second loop of `scan_devices`, which prints the list and starts a driver for each disk and USB
controller in it, is left out: it only reads the list.
-/

set_option autoImplicit false

namespace CrepOS.Model

/-- What the ports return. -/
abbrev ConfigSpace := BitVec 32 → BitVec 32

/-- The value that `raw_read` writes to port `0xcf8`.
SRCLINE: kernel/drivers/pci.cpp:31-35 -/
def configAddress (bus deviceCode func off : BitVec 8) : BitVec 32 :=
  1#32 <<< 31 ||| bus.setWidth 32 <<< 16 ||| (deviceCode.setWidth 32 &&& 31#32) <<< 11 |||
    (func.setWidth 32 &&& 7#32) <<< 8 ||| (off.setWidth 32 &&& ~~~3#32)

/-- `raw_read`.
SRCLINE: kernel/drivers/pci.cpp:30-37 -/
def rawRead (cfg : ConfigSpace) (bus deviceCode func off : BitVec 8) : BitVec 32 :=
  cfg (configAddress bus deviceCode func off)

/-! ### Registers -/

section Registers

variable (cfg : ConfigSpace) (bus device func : BitVec 8)

/-- `GET_CLASS`. -/
def getClass : BitVec 8 := (rawRead cfg bus device func 0x8 >>> 24).setWidth 8

/-- `GET_SUB_CLASS`. -/
def getSubClass : BitVec 8 := (rawRead cfg bus device func 0x8 >>> 16).setWidth 8

/-- `GET_PROG_IF`. -/
def getProgIf : BitVec 8 := (rawRead cfg bus device func 0x8 >>> 8).setWidth 8

/-- `GET_DEVICE_ID`. -/
def getDeviceId : BitVec 16 := (rawRead cfg bus device func 0 >>> 16).setWidth 16

/-- `GET_VENDOR_ID`. -/
def getVendorId : BitVec 16 := (rawRead cfg bus device func 0).setWidth 16

/-- `GET_HEADER_TYPE`. -/
def getHeaderType : BitVec 8 := (rawRead cfg bus device func 0xc >>> 16).setWidth 8

/-- `GET_SECONDARY_BUS`. -/
def getSecondaryBus : BitVec 8 := (rawRead cfg bus device func 0x18 >>> 8).setWidth 8

/-- No function answers.
SRCLINE: kernel/drivers/pci.cpp:50, 57 -/
def absent : Bool := getVendorId cfg bus device func == 0xffff

/-- The test for a multi function device.
SRCLINE: kernel/drivers/pci.cpp:55 -/
def multiFunction : Bool := (getHeaderType cfg bus device 0 &&& 1#8 <<< 7) != 0

/-- The test for a PCI to PCI bridge.
SRCLINE: kernel/drivers/pci.cpp:71 -/
def isBridge : Bool := (getHeaderType cfg bus device func &&& ~~~(1#8 <<< 7)) == 1

end Registers

/-! ### The scan -/

/-- `pci::device`.
SRCLINE: kernel/drivers/pci.hpp:13-32 -/
structure PciDevice where
  bus : BitVec 8
  deviceCode : BitVec 8
  func : BitVec 8
  classCode : BitVec 8
  subClass : BitVec 8
  progIf : BitVec 8
  deviceId : BitVec 16
  vendorId : BitVec 16
  deriving DecidableEq, Repr

/-- The members that the constructor of `device` initialises.
SRCLINE: kernel/drivers/pci.cpp:63-70 -/
def pciDevice (cfg : ConfigSpace) (bus deviceCode func : BitVec 8) : PciDevice where
  bus := bus
  deviceCode := deviceCode
  func := func
  classCode := getClass cfg bus deviceCode func
  subClass := getSubClass cfg bus deviceCode func
  progIf := getProgIf cfg bus deviceCode func
  deviceId := getDeviceId cfg bus deviceCode func
  vendorId := getVendorId cfg bus deviceCode func

/-- `uint8_t` values from `0` on. -/
def bytesBelow (n : ℕ) : List (BitVec 8) := (List.range n).map (BitVec.ofNat 8)

/-- `device_list.push(device(bus, dev, func))`: the constructor scans the bus behind a bridge before the
bridge is pushed.
SRCLINE: kernel/drivers/pci.cpp:53, 58, 71-73 -/
def pushDevice (cfg : ConfigSpace) (scan : BitVec 8 → List PciDevice → Option (List PciDevice))
    (bus dev func : BitVec 8) (l : List PciDevice) : Option (List PciDevice) :=
  (if isBridge cfg bus dev func then scan (getSecondaryBus cfg bus dev func) l else some l).map
    (· ++ [pciDevice cfg bus dev func])

/-- The body of the loop of `scan_bus`.
SRCLINE: kernel/drivers/pci.cpp:50-59 -/
def scanSlot (cfg : ConfigSpace) (scan : BitVec 8 → List PciDevice → Option (List PciDevice))
    (bus : BitVec 8) (l : List PciDevice) (dev : BitVec 8) : Option (List PciDevice) :=
  if absent cfg bus dev 0 then some l
  else
    match pushDevice cfg scan bus dev 0 l with
    | none => none
    | some l =>
      if multiFunction cfg bus dev then
        (bytesBelow 8).tail.foldlM (fun l func =>
          if absent cfg bus dev func then some l else pushDevice cfg scan bus dev func l) l
      else some l

/-- `scan_bus`.
SRCLINE: kernel/drivers/pci.cpp:48-61 -/
def scanBus (cfg : ConfigSpace) : ℕ → BitVec 8 → List PciDevice → Option (List PciDevice)
  | 0, _, _ => none
  | n + 1, bus, l => (bytesBelow 32).foldlM (scanSlot cfg (scanBus cfg n) bus) l

/-- The first loop of `scan_devices`, which leaves `device_list`.
SRCLINE: kernel/drivers/pci.cpp:185-188 -/
def scanDevices (cfg : ConfigSpace) (n : ℕ) : Option (List PciDevice) :=
  (bytesBelow 256).foldlM (fun l bus => scanBus cfg n bus l) []

/-! ## Base address registers, `device::get_bar`

A configuration register has bits that a write sets and bits that it leaves alone. `size_t` is `BitVec 64`. -/

/-- The configuration registers: their values, and which of their bits can be written. -/
structure PciRegs where
  value : ConfigSpace
  writable : ConfigSpace

/-- A write to port `0xcfc` with the given value in port `0xcf8`. -/
def PciRegs.put (regs : PciRegs) (address data : BitVec 32) : PciRegs :=
  let kept := regs.value address &&& ~~~regs.writable address
  { regs with value := Function.update regs.value address (kept ||| (data &&& regs.writable address)) }

/-- `raw_write`.
SRCLINE: kernel/drivers/pci.cpp:39-46 -/
def rawWrite (regs : PciRegs) (data : BitVec 32) (bus deviceCode func off : BitVec 8) : PciRegs :=
  regs.put (configAddress bus deviceCode func off) data

/-- `pci::bar`.
SRCLINE: kernel/drivers/pci.hpp:8-11 -/
structure PciBar where
  base : BitVec 64
  size : BitVec 64
  deriving DecidableEq

/-- `device::read`.
SRCLINE: kernel/drivers/pci.cpp:76-78 -/
def PciDevice.read (d : PciDevice) (regs : PciRegs) (off : BitVec 8) : BitVec 32 :=
  rawRead regs.value d.bus d.deviceCode d.func off

/-- `device::write`.
SRCLINE: kernel/drivers/pci.cpp:80-82 -/
def PciDevice.write (d : PciDevice) (regs : PciRegs) (off : BitVec 8) (data : BitVec 32) : PciRegs :=
  rawWrite regs data d.bus d.deviceCode d.func off

/-- What is read after all ones are written, and the registers after the old value is written back.
SRCLINE: kernel/drivers/pci.cpp:103-105, 110-112 -/
def PciDevice.probe (d : PciDevice) (regs : PciRegs) (off : BitVec 8) (old : BitVec 64) :
    BitVec 64 × PciRegs :=
  let regs := d.write regs off (BitVec.allOnes 32)
  let size := (d.read regs off).setWidth 64
  (size, d.write regs off (old.setWidth 32))

/-- `device::get_bar`; no result is the return value `-1`. In the size of a 32-bit register the `&` binds
more strongly than the `?`.
SRCLINE: kernel/drivers/pci.cpp:92-130 -/
def PciDevice.getBar (d : PciDevice) (regs : PciRegs) (num : ℕ) : Option PciBar × PciRegs :=
  if getHeaderType regs.value d.bus d.deviceCode d.func ≠ 0 then (none, regs)
  else if 5 < num then (none, regs)
  else
    let barOff := BitVec.ofNat 8 (0x10 + num * 4)
    let barLow := (d.read regs barOff).setWidth 64
    let isMmio : BitVec 64 := if barLow &&& 1 = 0 then 1 else 0
    let (barSizeLow, regs) := d.probe regs barOff barLow
    if (barLow >>> 1) &&& 0b11 = 0b10 then
      let barHigh := (d.read regs (barOff + 4)).setWidth 64
      let (barSizeHigh, regs) := d.probe regs (barOff + 4) barHigh
      let mask : BitVec 64 := if isMmio ≠ 0 then 0b1111 else 0b11
      let size := (barSizeHigh <<< 32 ||| barSizeLow) &&& ~~~mask
      let base := (barHigh <<< 32 ||| barLow) &&& ~~~mask
      (some ⟨base, ~~~size + 1⟩, regs)
    else
      let size : BitVec 64 := if barSizeLow &&& isMmio ≠ 0 then 0b1111 else 0b11
      (some ⟨barLow, ~~~size + 1⟩, regs)

end CrepOS.Model
