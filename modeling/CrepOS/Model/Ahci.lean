import CrepOS.Library.ByteBuffers

/-!
# A command of an AHCI device, `device::lba_rw`

The structures that `lba_rw` fills in, with their bit fields, and the bytes that they are in memory. Each
`image` lists the fields from the lowest address on, the bits of a byte from the highest on. `size_t` and
addresses are `BitVec 64`. `lbaRw` ends where `send_cmd` begins.
-/

set_option autoImplicit false

namespace CrepOS.Model

open CrepOS.Library

/-- `sector_size`.
SRCLINE: kernel/drivers/ahci/ahci.hpp:8 -/
def ahciSectorSize : BitVec 64 := 0x200

/-- `fis_reg_h2d`.
SRCLINE: kernel/drivers/ahci/ahci.hpp:20 -/
def fisRegH2d : Byte := 0x27

/-- The bytes of a field of `n` bytes, lowest first. -/
def fieldBytes (n v : ℕ) : List Byte := (Memory.ofWord v).bytes 0 n

/-- `hba_cmd`, the header of a command.
SRCLINE: kernel/drivers/ahci/ahci.hpp:69-84 -/
structure HbaCmd where
  cfl : BitVec 5
  a : BitVec 1
  w : BitVec 1
  p : BitVec 1
  r : BitVec 1
  b : BitVec 1
  c : BitVec 1
  reserved0 : BitVec 1
  pmp : BitVec 4
  prdtl : BitVec 16
  prdbc : BitVec 32
  ctba : BitVec 32
  ctbau : BitVec 32
  rsv1 : BitVec 128

def HbaCmd.image (h : HbaCmd) : List Byte :=
  [h.p ++ h.w ++ h.a ++ h.cfl, h.pmp ++ h.reserved0 ++ h.c ++ h.b ++ h.r] ++ fieldBytes 2 h.prdtl.toNat ++
    fieldBytes 4 h.prdbc.toNat ++ fieldBytes 4 h.ctba.toNat ++ fieldBytes 4 h.ctbau.toNat ++
    fieldBytes 16 h.rsv1.toNat

/-- `fis_h2d`, the register FIS from the host to the device.
SRCLINE: kernel/drivers/ahci/ahci.hpp:86-106 -/
structure FisH2d where
  fisType : Byte := 0
  pmport : BitVec 4 := 0
  reserved0 : BitVec 3 := 0
  c : BitVec 1 := 0
  command : Byte := 0
  featurel : Byte := 0
  lba0 : Byte := 0
  lba1 : Byte := 0
  lba2 : Byte := 0
  device : Byte := 0
  lba3 : Byte := 0
  lba4 : Byte := 0
  lba5 : Byte := 0
  featureh : Byte := 0
  countl : Byte := 0
  counth : Byte := 0
  icc : Byte := 0
  control : Byte := 0
  reserved1 : BitVec 32 := 0

def FisH2d.image (f : FisH2d) : List Byte :=
  [f.fisType, f.c ++ f.reserved0 ++ f.pmport, f.command, f.featurel, f.lba0, f.lba1, f.lba2, f.device,
    f.lba3, f.lba4, f.lba5, f.featureh, f.countl, f.counth, f.icc, f.control] ++ fieldBytes 4 f.reserved1.toNat

/-- `hba_prdt`, a data buffer in memory.
SRCLINE: kernel/drivers/ahci/ahci.hpp:130-137 -/
structure HbaPrdt where
  dba : BitVec 32 := 0
  dbau : BitVec 32 := 0
  reserved0 : BitVec 32 := 0
  dbc : BitVec 22 := 0
  reserved1 : BitVec 9 := 0
  i : BitVec 1 := 0

def HbaPrdt.image (e : HbaPrdt) : List Byte :=
  fieldBytes 4 e.dba.toNat ++ fieldBytes 4 e.dbau.toNat ++ fieldBytes 4 e.reserved0.toNat ++
    fieldBytes 4 (e.i ++ e.reserved1 ++ e.dbc : BitVec 32).toNat

/-- `hba_command_table`, with the FIS at its beginning; after `memset8` all members are zero.
SRCLINE: kernel/drivers/ahci/ahci.hpp:139-144 -/
structure HbaCommandTable where
  cfis : List Byte := List.replicate 64 0
  acmd : List Byte := List.replicate 16 0
  reserved : List Byte := List.replicate 48 0
  prdt : HbaPrdt := {}

def HbaCommandTable.image (t : HbaCommandTable) : List Byte := t.cfis ++ t.acmd ++ t.reserved ++ t.prdt.image

/-- The FIS is written through a pointer to `cfis`. -/
def HbaCommandTable.putFis (t : HbaCommandTable) (f : FisH2d) : HbaCommandTable :=
  { t with cfis := f.image ++ t.cfis.drop f.image.length }

/-- A device: the number of command slots of its controller, the registers of its port that tell which slots
are in use, and the headers of the commands. -/
structure AhciDevice where
  cmdSlots : ℕ
  sact : BitVec 32
  ci : BitVec 32
  headers : ℕ → HbaCmd

/-- `device::find_cmd_slot`; no result is the return value `-1`.
SRCLINE: kernel/drivers/ahci/ahci.cpp:171-178 -/
def AhciDevice.findCmdSlot (dev : AhciDevice) : Option ℕ :=
  (List.range dev.cmdSlots).find? fun i => (dev.sact ||| dev.ci) &&& 1 <<< i == 0

/-- The FIS of a command.
SRCLINE: kernel/drivers/ahci/ahci.cpp:227-244 -/
def commandFis (start cnt : BitVec 64) (w : Bool) : FisH2d where
  fisType := fisRegH2d
  c := 1
  command := if w then 0x35 else 0x25
  device := 1 <<< 6
  lba0 := (start &&& 0xff).setWidth 8
  lba1 := (start >>> 8 &&& 0xff).setWidth 8
  lba2 := (start >>> 16 &&& 0xff).setWidth 8
  lba3 := (start >>> 24 &&& 0xff).setWidth 8
  lba4 := (start >>> 32 &&& 0xff).setWidth 8
  lba5 := (start >>> 40 &&& 0xff).setWidth 8
  countl := (cnt &&& 0xff).setWidth 8
  counth := (cnt >>> 8 &&& 0xff).setWidth 8

/-- `device::lba_rw` up to `send_cmd`: the slot, and the header and the table of the command. Without a free
slot there is no command.
SRCLINE: kernel/drivers/ahci/ahci.cpp:200-246 -/
def AhciDevice.lbaRw (dev : AhciDevice) (highVma start cnt buffer : BitVec 64) (w : Bool) :
    Option (ℕ × HbaCmd × HbaCommandTable) :=
  match dev.findCmdSlot with
  | none => none
  | some slot =>
    let header := { dev.headers slot with cfl := 5, w := 0, prdtl := 1 }
    let entry : HbaPrdt :=
      { dba := (buffer - highVma).setWidth 32, dbc := (cnt * ahciSectorSize - 1).setWidth 22, i := 1 }
    let table : HbaCommandTable := { prdt := entry }
    some (slot, header, table.putFis (commandFis start cnt w))

end CrepOS.Model
