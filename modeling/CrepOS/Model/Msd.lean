import CrepOS.Model.Memutils

/-!
# Mass-storage devices, `drivers/ahci/ahci.cpp` and `drivers/nvme/nvme.cpp`

Both drivers transfer whole sectors between the disk and a bounce buffer, and copy bytes between the
bounce buffer and the caller's buffer. The state is the memory of the kernel and the bytes of the disk.
`transferSectors` is what is assumed of `lba_rw` and `rw_lba`: they move exactly the sectors they are
asked for. The address of the bounce buffer, which `pmm::alloc` returns, is an argument; what its pages
contain is whatever the memory holds there.
-/

set_option autoImplicit false

namespace CrepOS.Model

open CrepOS.Library

/-- The memory and the disk. -/
structure Storage where
  mem : Memory
  disk : Memory

/-- `cnt` sectors from `start` on are moved from the disk to the memory at `buffer`, or back. -/
def transferSectors (s : Storage) (sectorSize start cnt buffer : ℕ) (w : Bool) : Storage :=
  if w then
    { s with disk := fun a => if start * sectorSize ≤ a ∧ a < (start + cnt) * sectorSize then
        s.mem (buffer + (a - start * sectorSize)) else s.disk a }
  else
    { s with mem := fun a => if buffer ≤ a ∧ a < buffer + cnt * sectorSize then
        s.disk (start * sectorSize + (a - buffer)) else s.mem a }

/-- `lba_cnt`; `div_roundup` takes and returns signed words.
SRCLINE: kernel/drivers/ahci/ahci.cpp:15 -/
def lbaCnt (cnt sectorSize : ℕ) : ℕ := ofSigned (divRoundup (toSigned cnt) sectorSize)

/-- The common body of the two `read`s.
SRCLINE: kernel/drivers/ahci/ahci.cpp:13-27 -/
def msdRead (sectorSize : ℕ) (s : Storage) (off cnt buf buffer : ℕ) : Storage :=
  let s := transferSectors s sectorSize (off / sectorSize) (lbaCnt cnt sectorSize) buffer false
  { s with mem := memcpy8 s.mem buf (buffer + off % sectorSize) cnt }

/-- The common body of the two `write`s.
SRCLINE: kernel/drivers/ahci/ahci.cpp:29-43 -/
def msdWrite (sectorSize : ℕ) (s : Storage) (off cnt buf buffer : ℕ) : Storage :=
  let s := transferSectors s sectorSize (off / sectorSize) (lbaCnt cnt sectorSize) buffer false
  let s := { s with mem := memcpy8 s.mem (buffer + off % sectorSize) buf cnt }
  transferSectors s sectorSize (off / sectorSize) (lbaCnt cnt sectorSize) buffer true

/-- `ahci::msd::read`, of a device with the member `sector_size`.
SRCLINE: kernel/drivers/ahci/ahci.cpp:13-27 -/
def Ahci.read (sectorSize : ℕ) : Storage → ℕ → ℕ → ℕ → ℕ → Storage := msdRead sectorSize

/-- `ahci::msd::write`.
SRCLINE: kernel/drivers/ahci/ahci.cpp:29-43 -/
def Ahci.write (sectorSize : ℕ) : Storage → ℕ → ℕ → ℕ → ℕ → Storage := msdWrite sectorSize

/-- `nvme::msd::read`, of a namespace with the member `lba_size`.
SRCLINE: kernel/drivers/nvme/nvme.cpp:17-35 -/
def Nvme.read (lbaSize : ℕ) : Storage → ℕ → ℕ → ℕ → ℕ → Storage := msdRead lbaSize

/-- `nvme::msd::write`.
SRCLINE: kernel/drivers/nvme/nvme.cpp:37-56 -/
def Nvme.write (lbaSize : ℕ) : Storage → ℕ → ℕ → ℕ → ℕ → Storage := msdWrite lbaSize

end CrepOS.Model
