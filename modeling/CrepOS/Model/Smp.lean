import CrepOS.Model.Memutils

/-!
# Starting the processors, `sched/smp.cpp`

`cpus` is a `lib::vector` of records, and here it matters where its blocks are: the base of `gs` of a
processor is the address of an element. `SmpState.records a` is the record of 56 bytes at the address `a`.
The block that `new` returns when the vector grows is an argument. `delete` leaves the old block as it
is: `kmm::free` only looks for the block in the first cache (`CrepOS.Analysis.free_correct_iff`), whose
objects have 32 bytes.

`prep_core` leaves its parameters at a fixed address, which the processor that has been sent the
interrupts reads at some later time; `core_bootstrap` sets the base of `gs` later still. The local APICs,
the timers and the page at the address `0` are left out.
-/

set_option autoImplicit false

namespace CrepOS.Model

/-- `smp::cpu`.
SRCLINE: kernel/sched/smp.hpp:11-19 -/
structure SmpCpu where
  userStack : ℕ
  kernelStack : ℕ
  errno : ℤ
  pid : ℤ
  tid : ℤ
  pageMap : ℕ
  nvmeIoQueue : ℕ
  deriving DecidableEq

/-- `sizeof(smp::cpu)`. -/
abbrev smpCpuSize : ℕ := 56

/-- `lib::vector<cpu>`.
SRCLINE: kernel/lib/vector.hpp:49-51 -/
structure CpuVector where
  elements : ℕ
  bufSize : ℕ
  bufCap : ℕ
  deriving DecidableEq

/-- `&data()[i]`. -/
def CpuVector.address (v : CpuVector) (i : ℕ) : ℕ := wrap (v.elements + i * smpCpuSize)

/-- `madt0`.
SRCLINE: kernel/acpi/madt.hpp:15-19 -/
structure Madt0 where
  apicId : BitVec 8
  flags : BitVec 32
  deriving DecidableEq

/-- The state of the boot. `parms` is the core index that `prep_core` wrote last, `coreIndex` what a
processor has read of it, `gsBase` the base of `gs` once it is set. -/
structure SmpState where
  records : ℕ → SmpCpu
  cpus : CpuVector
  entries : List Madt0
  parms : Option ℕ
  sent : BitVec 8 → Bool
  coreIndex : BitVec 8 → Option ℕ
  gsBase : BitVec 8 → Option ℕ

/-! ## The vector -/

/-- The loop of `internal_resize` that moves the elements, from `src` to `dst`.
SRCLINE: kernel/lib/vector.hpp:112-113 -/
def moveRecords (records : ℕ → SmpCpu) (src dst : ℕ) : ℕ → ℕ → SmpCpu
  | 0 => records
  | n + 1 =>
    let records := moveRecords records src dst n
    Function.update records (dst + n * smpCpuSize) (records (src + n * smpCpuSize))

/-- `internal_resize`.
SRCLINE: kernel/lib/vector.hpp:105-122 -/
def SmpState.resize (s : SmpState) (cap block : ℕ) : SmpState :=
  if cap ≤ s.cpus.bufCap then s
  else { s with
    records := moveRecords s.records s.cpus.elements block s.cpus.bufCap
    cpus := { s.cpus with elements := block, bufCap := cap * 2 } }

/-- `cpus.push`.
SRCLINE: kernel/lib/vector.hpp:86-96 -/
def SmpState.push (s : SmpState) (r : SmpCpu) (block : ℕ) : SmpState :=
  let s := s.resize (s.cpus.bufSize + 1) block
  { s with
    records := Function.update s.records (s.cpus.address s.cpus.bufSize) r
    cpus := { s.cpus with bufSize := s.cpus.bufSize + 1 } }

/-! ## `boot_aps` -/

/-- The record that `boot_aps` pushes; `stack` is what `pmm::alloc` returns and `high` is `high_vma`.
SRCLINE: kernel/sched/smp.cpp:60-67 -/
def newCpu (stack high kernelMapping : ℕ) : SmpCpu where
  userStack := 0
  kernelStack := wrap (stack + 0x2000 + high)
  errno := 0
  pid := -1
  tid := -1
  pageMap := kernelMapping
  nvmeIoQueue := 0

/-- One round of the loop of `boot_aps`; `current` is the id of the processor that executes it.
SRCLINE: kernel/sched/smp.cpp:56-89 -/
def SmpState.bootEntry (s : SmpState) (current : BitVec 8) (e : Madt0)
    (stack high kernelMapping block : ℕ) : SmpState :=
  let i := s.entries.length
  let s := { s.push (newCpu stack high kernelMapping) block with entries := s.entries ++ [e] }
  if e.apicId = current then
    { s with gsBase := Function.update s.gsBase current (some (s.cpus.address i)) }
  else if e.flags = 1 then
    { s with parms := some i, sent := Function.update s.sent e.apicId true }
  else s

/-- The code at `0x1000` reads the core index.
SRCLINE: kernel/sched/smp.real:55 -/
def SmpState.readParms (s : SmpState) (p : BitVec 8) : SmpState :=
  { s with coreIndex := Function.update s.coreIndex p s.parms }

/-- `core_bootstrap` sets the base of `gs`.
SRCLINE: kernel/sched/smp.cpp:23-26 -/
def SmpState.bootstrap (s : SmpState) (p : BitVec 8) : SmpState :=
  { s with gsBase := Function.update s.gsBase p ((s.coreIndex p).map s.cpus.address) }

/-! ## `core_local` -/

/-- `index`: the low half of the first word at `gs`, as an `int`. -/
def coreIndexAt (r : SmpCpu) : ℤ := ((r.userStack % 2 ^ 32 : ℕ) : ℤ).bmod (2 ^ 32)

/-- The address of the record that `core_local` returns on the processor `p`.
SRCLINE: kernel/sched/smp.cpp:94-98 -/
def SmpState.coreLocal (s : SmpState) (p : BitVec 8) : Option ℕ :=
  (s.gsBase p).map fun g => s.cpus.address (ofSigned (coreIndexAt (s.records g)))

end CrepOS.Model
