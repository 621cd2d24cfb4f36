import CrepOS.Model.LibString
import CrepOS.Model.Acpi
import CrepOS.Model.Msd

/-!
# `dev::scan_partitions` and `dev::node`, `fs/devfs.cpp`

The disk is a memory of bytes, which `device->read` reads. A node of `node_list` is given by the path of its
`vfs::node`, its offset and its number of sectors. What `ext2::fs` reads of a new node is left out. The `read`
and `write` of a node are those of its device, which is an `ahci::msd` or an `nvme::msd`.
-/

set_option autoImplicit false

namespace CrepOS.Model

open CrepOS.Library

/-- A 64-bit word of a packed structure. -/
def word64 (m : Memory) (a : ℕ) : BitVec 64 := BitVec.ofNat 64 (m.word a 8)

/-- `mbr_partition`, without the addresses in cylinders.
SRCLINE: kernel/fs/devfs.hpp:46-53 -/
structure MbrPartition where
  driveStatus : Byte
  partitionType : Byte
  startingLba : BitVec 32
  sectorCnt : BitVec 32

def readMbrPartition (m : Memory) (a : ℕ) : MbrPartition := ⟨m a, m (a + 4), word32 m (a + 8), word32 m (a + 12)⟩

/-- `gpt_partition_table_hdr`, the members that are read.
SRCLINE: kernel/fs/devfs.hpp:55-69 -/
structure GptPartitionTableHdr where
  identifier : BitVec 64
  partitionArrayLba : BitVec 64
  partitionEntCnt : BitVec 32

def readGptHdr (m : Memory) (a : ℕ) : GptPartitionTableHdr := ⟨word64 m a, word64 m (a + 72), word32 m (a + 80)⟩

/-- `gpt_partition_entry`, the members that are read.
SRCLINE: kernel/fs/devfs.hpp:71-78 -/
structure GptPartitionEntry where
  typeGuid0 : BitVec 64
  typeGuid1 : BitVec 64
  startingLba : BitVec 64
  lastLba : BitVec 64

def readGptEntry (m : Memory) (a : ℕ) : GptPartitionEntry :=
  ⟨word64 m a, word64 m (a + 8), word64 m (a + 32), word64 m (a + 40)⟩

/-- `sizeof(gpt_partition_entry)`. -/
def gptEntrySize : ℕ := 128

/-- `dev::node`.
SRCLINE: kernel/fs/devfs.hpp:28-44 -/
structure DevNode where
  absolutePath : LibString
  partitionOffset : BitVec 64
  sectorCnt : BitVec 64
  deriving DecidableEq

/-- `dev::msd` and `node_list`.
SRCLINE: kernel/fs/devfs.hpp:19-25, kernel/fs/devfs.hpp:84 -/
structure DevFs where
  devicePrefix : LibString
  deviceIndex : ℕ
  partitionCnt : ℕ
  sectorSize : BitVec 64
  nodeList : List DevNode

/-- The characters of a number, as `string::operator+` appends them.
SRCLINE: kernel/lib/string.cpp:113-126 -/
def decimal (n : ℕ) : LibString := (Nat.toDigits 10 n).map fun c => BitVec.ofNat 8 c.toNat

/-- The path of the next partition.
SRCLINE: kernel/fs/devfs.cpp:41, kernel/fs/devfs.cpp:69 -/
def DevFs.partitionPath (fs : DevFs) : LibString :=
  [0x2f, 0x64, 0x65, 0x76, 0x2f] ++ fs.devicePrefix ++ decimal fs.deviceIndex ++ [0x2d] ++ decimal fs.partitionCnt

/-- A new node, and the counter for the next one.
SRCLINE: kernel/fs/devfs.cpp:41-46, kernel/fs/devfs.cpp:69-74 -/
def DevFs.pushPartition (fs : DevFs) (partitionOffset sectorCnt : BitVec 64) : DevFs :=
  { fs with
    partitionCnt := fs.partitionCnt + 1
    nodeList := fs.nodeList ++ [⟨fs.partitionPath, partitionOffset, sectorCnt⟩] }

/-- The loop over the entries of an MBR.
SRCLINE: kernel/fs/devfs.cpp:34-49 -/
def scanMbr (disk : Memory) (fs : DevFs) : DevFs :=
  (List.range 4).foldl (fun fs i =>
    let p := readMbrPartition disk (0x1be + 16 * i)
    if p.partitionType = 0 then fs
    else fs.pushPartition (p.startingLba.setWidth 64 * fs.sectorSize) (p.sectorCnt.setWidth 64)) fs

/-- The loop over the entries of a GPT.
SRCLINE: kernel/fs/devfs.cpp:58-77 -/
def scanGpt (disk : Memory) (hdr : GptPartitionTableHdr) (fs : DevFs) : DevFs :=
  (List.range hdr.partitionEntCnt.toNat).foldl (fun fs i =>
    let e := readGptEntry disk ((hdr.partitionArrayLba * fs.sectorSize).toNat + gptEntrySize * i)
    if e.typeGuid0 = 0 ∧ e.typeGuid1 = 0 then fs
    else fs.pushPartition (e.startingLba * fs.sectorSize) (e.startingLba - e.lastLba)) fs

/-- `dev::scan_partitions`.
SRCLINE: kernel/fs/devfs.cpp:29-79 -/
def scanPartitions (disk : Memory) (fs : DevFs) : DevFs :=
  if word16 disk 510 = 0xaa55 then scanMbr disk fs
  else
    let hdr := readGptHdr disk fs.sectorSize.toNat
    if hdr.identifier = 0x4546492050415254 then scanGpt disk hdr fs else fs

/-! ## Access to a partition -/

/-- The classes that override `read` and `write` of `dev::msd`, with their `sector_size`. -/
inductive MsdDevice where
  | ahci (sectorSize : ℕ)
  | nvme (lbaSize : ℕ)
  deriving DecidableEq

def MsdDevice.sectorSize : MsdDevice → ℕ
  | .ahci sectorSize => sectorSize
  | .nvme lbaSize => lbaSize

def MsdDevice.read : MsdDevice → Storage → ℕ → ℕ → ℕ → ℕ → Storage
  | .ahci sectorSize => Ahci.read sectorSize
  | .nvme lbaSize => Nvme.read lbaSize

def MsdDevice.write : MsdDevice → Storage → ℕ → ℕ → ℕ → ℕ → Storage
  | .ahci sectorSize => Ahci.write sectorSize
  | .nvme lbaSize => Nvme.write lbaSize

/-- `node::read`; the device of a node can be missing.
SRCLINE: kernel/fs/devfs.cpp:6-11 -/
def DevNode.read (n : DevNode) (device : Option MsdDevice) (s : Storage) (start cnt ret buffer : ℕ) : ℤ × Storage :=
  match device with
  | none => (-1, s)
  | some d => (toSigned cnt, d.read s (wrap (start + n.partitionOffset.toNat)) cnt ret buffer)

/-- `node::write`.
SRCLINE: kernel/fs/devfs.cpp:13-18 -/
def DevNode.write (n : DevNode) (device : Option MsdDevice) (s : Storage) (start cnt ret buffer : ℕ) :
    ℤ × Storage :=
  match device with
  | none => (-1, s)
  | some d => (toSigned cnt, d.write s (wrap (start + n.partitionOffset.toNat)) cnt ret buffer)

end CrepOS.Model
