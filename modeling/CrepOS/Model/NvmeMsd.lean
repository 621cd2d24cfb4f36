import CrepOS.Model.Msd

/-!
# NVMe devices and their msd objects, `drivers/nvme/nvme.cpp`

What the driver keeps: the devices, the queue that each CPU uses, and the msd objects. A device is referred to
by its position in `device_list`, where it is put after its constructor; `devices` has it already while the
constructor runs. What the controller answers to the constructor, and what `scan_partitions` reads, is given.

A CPU is its index, which `core_local` reads; it may be another one at each call, since a thread may be moved.
A transfer has no result if an index is outside of its list or the CPU has no queue.
-/

set_option autoImplicit false

namespace CrepOS.Model

/-- `nvme::ns`; `nsid` is a `size_t` that holds a `uint32_t`.
SRCLINE: kernel/drivers/nvme/nvme.hpp:287-299 -/
structure NvmeNamespace where
  nsid : BitVec 32
  lbaSize : ℕ
  lbaCnt : ℕ
  deriving DecidableEq

/-- `nvme::device`.
SRCLINE: kernel/drivers/nvme/nvme.hpp:303-336 -/
structure NvmeDevice where
  qidCnt : ℕ
  namespaceList : List NvmeNamespace
  deriving DecidableEq

/-- `nvme::queue`: whose it is, and its number.
SRCLINE: kernel/drivers/nvme/nvme.hpp:265-285 -/
structure NvmeQueue where
  parent : ℕ
  qid : ℕ
  deriving DecidableEq

/-- `nvme::msd`.
SRCLINE: kernel/fs/devfs.hpp:19-25 -/
structure NvmeMsd where
  deviceIndex : ℕ
  partitionIndex : ℕ
  sectorSize : ℕ
  sectorCnt : ℕ
  deriving DecidableEq

/-- `nvme::io_rw`, the members that `rw_lba` sets.
SRCLINE: kernel/drivers/nvme/nvme.hpp:133-149 -/
structure IoRw where
  opcode : BitVec 8
  nsid : BitVec 32
  slba : BitVec 64
  length : BitVec 16
  prp1 : BitVec 64
  deriving DecidableEq

/-- A command that `rw_lba` has put on a queue, and the msd object it was for. -/
structure IssuedRw where
  msd : NvmeMsd
  queue : NvmeQueue
  command : IoRw
  deriving DecidableEq

/-- The driver. -/
structure NvmeDriver where
  devices : List NvmeDevice
  cpus : List (Option NvmeQueue)
  msds : List NvmeMsd
  issued : List IssuedRw

/-- `ns::rw_lba`, of the namespace `n`; `buffer` is a physical address.
SRCLINE: kernel/drivers/nvme/nvme.cpp:323-339 -/
def NvmeDriver.rwLba (st : NvmeDriver) (m : NvmeMsd) (n : NvmeNamespace) (core buffer start cnt : ℕ) (rw : Bool) :
    Option NvmeDriver :=
  match st.cpus[core]? with
  | some (some q) =>
    let command : IoRw :=
      { opcode := if rw then 1 else 2, nsid := n.nsid, slba := BitVec.ofNat 64 start,
        length := BitVec.ofNat 16 cnt - 1, prp1 := BitVec.ofNat 64 buffer }
    some { st with issued := st.issued ++ [⟨m, q, command⟩] }
  | _ => none

/-- The arguments of `msd::read` or `msd::write`, the buffer that `pmm::alloc` returns, and the CPUs at the calls
of `core_local`, of which those in `rw_lba` are the last two. -/
structure NvmeTransfer where
  write : Bool
  off : ℕ
  cnt : ℕ
  buffer : ℕ
  core : ℕ
  readCore : ℕ
  writeCore : ℕ

/-- `msd::read` and `msd::write`, as far as commands go; a write reads the sectors first.
SRCLINE: kernel/drivers/nvme/nvme.cpp:17-56 -/
def NvmeDriver.transfer (st : NvmeDriver) (m : NvmeMsd) (t : NvmeTransfer) : Option NvmeDriver :=
  match st.cpus[t.core]? with
  | some (some q) =>
    match st.devices[q.parent]? with
    | none => none
    | some dev =>
      match dev.namespaceList[m.partitionIndex]? with
      | none => none
      | some n =>
        let start := t.off / n.lbaSize
        let cnt := lbaCnt t.cnt n.lbaSize
        (st.rwLba m n t.readCore t.buffer start cnt false).bind fun st =>
          if t.write then st.rwLba m n t.writeCore t.buffer start cnt true else some st
  | _ => none

/-- What a controller answers: its registers, whether it gets ready, whether it identifies itself, the number and
the list of namespaces, the size and the block size (as a power of two) of each namespace that it identifies, and
the status of the command that sets the number of queues. `scan` is what `scan_partitions` reads and writes of
each namespace. -/
structure NvmeController where
  vs : BitVec 32
  cap : BitVec 64
  ready : Bool
  identifies : Bool
  nn : ℕ
  nsids : ℕ → BitVec 32
  identify : BitVec 32 → Option (ℕ × ℕ)
  queueStatus : BitVec 16
  scan : ℕ → List NvmeTransfer

/-- The versions that the driver knows.
SRCLINE: kernel/drivers/nvme/nvme.hpp:9-14, kernel/drivers/nvme/nvme.cpp:71-87 -/
def nvmeVersions : List (BitVec 32) := [0x10000, 0x10100, 0x10200, 0x10201, 0x10300, 0x10400]

namespace NvmeController

/-- `device::get_nsid_list`.
SRCLINE: kernel/drivers/nvme/nvme.cpp:231-253 -/
def nsidList (c : NvmeController) : List (BitVec 32) := ((List.range c.nn).map c.nsids).filter (· ≠ 0)

/-- `device::get_namespace_id` and `ns::ns`.
SRCLINE: kernel/drivers/nvme/nvme.cpp:215-229, 318-321 -/
def newNamespace (c : NvmeController) (nsid : BitVec 32) : Option NvmeNamespace :=
  (c.identify nsid).map fun (nsze, ds) => ⟨nsid, 2 ^ ds, nsze⟩

end NvmeController

/-- A new msd object, and what `scan_partitions` does with it.
SRCLINE: kernel/drivers/nvme/nvme.cpp:187-197 -/
def NvmeDriver.pushMsd (c : NvmeController) (st : NvmeDriver) (m : NvmeMsd) : Option NvmeDriver :=
  (c.scan m.partitionIndex).foldlM (fun st t => st.transfer m t) { st with msds := st.msds ++ [m] }

/-- `device::device`. A constructor that gives up leaves a device without I/O queues.
SRCLINE: kernel/drivers/nvme/nvme.cpp:58-199 -/
def NvmeDriver.construct (st : NvmeDriver) (c : NvmeController) : Option NvmeDriver :=
  let giveUp (qidCnt : ℕ) (l : List NvmeNamespace) : Option NvmeDriver :=
    some { st with devices := st.devices ++ [⟨qidCnt, l⟩] }
  if c.vs ∉ nvmeVersions then giveUp 0 []
  else if c.cap &&& 1 <<< 37 = 0 then giveUp 0 []
  else if !c.ready then giveUp 1 []
  else if !c.identifies then giveUp 1 []
  else
    let found := c.nsidList.map c.newNamespace
    let namespaceList := (found.takeWhile Option.isSome).reduceOption
    if found.any Option.isNone then giveUp 1 namespaceList
    else if c.queueStatus ≠ 0 then giveUp 1 namespaceList
    else
      let this := st.devices.length
      let st := { st with
        devices := st.devices ++ [⟨1 + st.cpus.length, namespaceList⟩]
        cpus := st.cpus.mapIdx fun i _ => some ⟨this, 1 + i⟩ }
      let msds := namespaceList.mapIdx fun i n => (⟨this, i, n.lbaSize, n.lbaCnt⟩ : NvmeMsd)
      msds.foldlM (NvmeDriver.pushMsd c) st

end CrepOS.Model
