import CrepOS.Model.Partitions

/-!
# Partitioned disks

Both formats have a table of four entries in the first sector. On a disk with a GPT one of them stands for the
whole disk, so that it does not look unused.
-/

set_option autoImplicit false

namespace CrepOS.Interface

open CrepOS.Library CrepOS.Model

/-- The first sector has a table. -/
def HasSignature (disk : Memory) : Prop := disk 510 = 0x55 ∧ disk 511 = 0xaa

instance (disk : Memory) : Decidable (HasSignature disk) := inferInstanceAs (Decidable (_ ∧ _))

/-- The type of an entry in the first sector: `0` for an unused one, `0xee` for the one of a GPT. -/
def mbrType (disk : Memory) (i : ℕ) : Byte := disk (0x1be + 16 * i + 4)

/-- A disk with an MBR, and no GPT. -/
structure MbrDisk (disk : Memory) : Prop where
  signature : HasSignature disk
  noGpt : ∀ i < 4, mbrType disk i ≠ 0xee

/-- The number of entries of a GPT, and the address of each. -/
def gptEntryCnt (disk : Memory) (sectorSize : ℕ) : ℕ := disk.word (sectorSize + 80) 4

def gptEntryAddress (disk : Memory) (sectorSize i : ℕ) : ℕ :=
  disk.word (sectorSize + 72) 8 * sectorSize + disk.word (sectorSize + 84) 4 * i

/-- The entry has a type. -/
def gptUsed (disk : Memory) (sectorSize i : ℕ) : Bool := disk.word (gptEntryAddress disk sectorSize i) 16 ≠ 0

def gptFirst (disk : Memory) (sectorSize i : ℕ) : ℕ := disk.word (gptEntryAddress disk sectorSize i + 32) 8

def gptLast (disk : Memory) (sectorSize i : ℕ) : ℕ := disk.word (gptEntryAddress disk sectorSize i + 40) 8

/-- A disk with a GPT: the protective MBR, the header, and partitions behind it. -/
structure GptDisk (disk : Memory) (sectorSize : ℕ) : Prop where
  signature : HasSignature disk
  protective : mbrType disk 0 = 0xee
  protectiveStart : disk.word (0x1be + 8) 4 = 1
  unused : ∀ i < 3, mbrType disk (i + 1) = 0
  header : disk.bytes sectorSize 8 = [0x45, 0x46, 0x49, 0x20, 0x50, 0x41, 0x52, 0x54]
  behind : ∀ i < gptEntryCnt disk sectorSize, gptUsed disk sectorSize i →
    2 ≤ gptFirst disk sectorSize i ∧ gptFirst disk sectorSize i ≤ gptLast disk sectorSize i

/-- Offset in bytes and number of sectors of the partitions. -/
def mbrPartitions (disk : Memory) (sectorSize : ℕ) : List (ℕ × ℕ) :=
  ((List.range 4).filter fun i => mbrType disk i ≠ 0).map fun i =>
    (disk.word (0x1be + 16 * i + 8) 4 * sectorSize, disk.word (0x1be + 16 * i + 12) 4)

def gptPartitions (disk : Memory) (sectorSize : ℕ) : List (ℕ × ℕ) :=
  ((List.range (gptEntryCnt disk sectorSize)).filter (gptUsed disk sectorSize)).map fun i =>
    (gptFirst disk sectorSize i * sectorSize, gptLast disk sectorSize i - gptFirst disk sectorSize i + 1)

/-- Exactly one node is added for each of the partitions. -/
def AddsExactly (disk : Memory) (fs : DevFs) (partitions : List (ℕ × ℕ)) : Prop :=
  ∃ added, (scanPartitions disk fs).nodeList = fs.nodeList ++ added ∧
    (added.map fun n => (n.partitionOffset.toNat, n.sectorCnt.toNat)).Perm partitions

/-- **The discovery is exact** for the table that the disk has. -/
def DiscoveryExact (disk : Memory) (fs : DevFs) : Prop :=
  (MbrDisk disk → AddsExactly disk fs (mbrPartitions disk fs.sectorSize.toNat)) ∧
    (GptDisk disk fs.sectorSize.toNat → AddsExactly disk fs (gptPartitions disk fs.sectorSize.toNat))

/-- The sizes of sectors that the drivers set: `0x200`, or `1 << ds` of a namespace. -/
def SectorSize (sectorSize : BitVec 64) : Prop := 0x200 ≤ sectorSize.toNat ∧ sectorSize.toNat ≤ 2 ^ 30

instance (sectorSize : BitVec 64) : Decidable (SectorSize sectorSize) := inferInstanceAs (Decidable (_ ∧ _))

/-! ## Partitions as disks -/

/-- The nodes that are found on a disk. -/
def foundNodes (disk : Memory) (fs : DevFs) : List DevNode :=
  (scanPartitions disk fs).nodeList.drop fs.nodeList.length

/-- The number of bytes of a partition, and the address of the first. -/
def nodeSize (sectorSize : ℕ) (n : DevNode) : ℕ := n.sectorCnt.toNat * sectorSize

def nodeStart (n : DevNode) : ℕ := n.partitionOffset.toNat

/-- The table gives no sector to two partitions, and the first sector to none. -/
structure PartitionsApart (disk : Memory) (sectorSize : ℕ) : Prop where
  apart : (mbrPartitions disk sectorSize).Pairwise fun p q =>
    p.1 + p.2 * sectorSize ≤ q.1 ∨ q.1 + q.2 * sectorSize ≤ p.1
  behind : ∀ p ∈ mbrPartitions disk sectorSize, sectorSize ≤ p.1

instance (disk : Memory) (sectorSize : ℕ) : Decidable (PartitionsApart disk sectorSize) :=
  decidable_of_iff (_ ∧ _) ⟨fun h => ⟨h.1, h.2⟩, fun h => ⟨h.1, h.2⟩⟩

/-- A call of `read` or `write` of a node: what the memory contains then, the arguments, and the address of the
bounce buffer that the driver gets. -/
structure NodeCall where
  write : Bool
  node : DevNode
  mem : Memory
  start : ℕ
  cnt : ℕ
  buf : ℕ
  buffer : ℕ

/-- The call on a disk. -/
def NodeCall.exec (c : NodeCall) (device : MsdDevice) (disk : Memory) : ℤ × Storage :=
  if c.write then c.node.write (some device) ⟨c.mem, disk⟩ c.start c.cnt c.buf c.buffer
  else c.node.read (some device) ⟨c.mem, disk⟩ c.start c.cnt c.buf c.buffer

/-- The disk after some calls. -/
def diskAfter (device : MsdDevice) (disk : Memory) (calls : List NodeCall) : Memory :=
  calls.foldl (fun disk c => (c.exec device disk).2.disk) disk

/-- The call is for one of the partitions and stays inside of it, the bytes lie in as many sectors as their
number alone fills, and the bounce buffer is not the one of the caller. -/
structure NodeCall.Fits (c : NodeCall) (sectorSize : ℕ) (nodes : List DevNode) : Prop where
  mem : c.node ∈ nodes
  inside : c.start + c.cnt ≤ nodeSize sectorSize c.node
  sectors : c.cnt = 0 ∨ c.start % sectorSize + c.cnt ≤ (c.cnt + (sectorSize - 1)) / sectorSize * sectorSize
  apart : c.buf + c.cnt ≤ c.buffer ∨ c.buffer + lbaCnt c.cnt sectorSize * sectorSize ≤ c.buf

/-- One disk for each partition. -/
abbrev PartitionDisks := DevNode → Memory

/-- The bytes of the partitions of one disk. -/
def partitionDisks (disk : Memory) : PartitionDisks := fun n a => disk (nodeStart n + a)

/-- What a call does if each partition is a disk of its own. -/
def NodeCall.onDisks (d : PartitionDisks) (c : NodeCall) : PartitionDisks := fun n a =>
  if c.write ∧ n = c.node ∧ c.start ≤ a ∧ a < c.start + c.cnt then c.mem (c.buf + (a - c.start)) else d n a

def disksAfter (d : PartitionDisks) (calls : List NodeCall) : PartitionDisks := calls.foldl NodeCall.onDisks d

end CrepOS.Interface
