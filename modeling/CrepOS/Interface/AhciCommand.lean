import CrepOS.Model.Ahci

/-!
# What an AHCI command means

The controller reads the bytes of the header and of the command table. The write bit and the number of data
buffers are in the header. The sector and the number of sectors are in the FIS, where `0` stands for 65536.
Each data buffer has an address of 64 bits and a length of 22 bits, which is one less than the number of bytes.
-/

set_option autoImplicit false

namespace CrepOS.Interface

open CrepOS.Library CrepOS.Model

/-- A request for sectors. -/
structure SectorRequest where
  start : ℕ
  count : ℕ
  buffers : List (ℕ × ℕ)
  write : Bool
  deriving DecidableEq

/-- The bytes of a structure in memory. -/
def imageMemory (l : List Byte) : Memory := fun i => l.getD i 0

/-- The request that a header and a command table stand for. -/
def decodeCommand (header table : List Byte) : SectorRequest :=
  let header := imageMemory header
  let table := imageMemory table
  { start := table.word 4 3 + 2 ^ 24 * table.word 8 3
    count := if table.word 12 2 = 0 then 65536 else table.word 12 2
    buffers := (List.range (header.word 2 2)).map fun k =>
      (table.word (0x80 + 16 * k) 8, table.word (0x80 + 16 * k + 12) 4 % 2 ^ 22 + 1)
    write := (header 0).getLsbD 6 }

/-- The request that `lba_rw` should make. -/
def sectorRequest (start cnt address : BitVec 64) (w : Bool) : SectorRequest :=
  ⟨start.toNat, cnt.toNat, [(address.toNat, cnt.toNat * 512)], w⟩

end CrepOS.Interface
