import CrepOS.Model.MmapTables
import CrepOS.Interface.KernelHalf
import CrepOS.Library.RadixTree

/-!
# `mmap` and the kernel half

The system of page tables, with the page maps of the tasks, and runs of the calls of the kernel, of
writes to memory and of the system call `mmap`. What is promised of a call of `mmap` is that its table is
one that `create_generic` made, that the objects of the kernel heap lie in the kernel half, in memory
that is neither a page table nor free, and that reading a file gives no more bytes than were asked for.

The registers are arbitrary. `MmapContained` is the condition on them.
-/

set_option autoImplicit false

namespace CrepOS.Interface

open CrepOS.Library CrepOS.Model

/-! ## Translations with their rights -/

/-- What the processor makes of an address. -/
structure Access where
  addr : Word
  writable : Bool
  user : Bool
  noExec : Bool
  deriving DecidableEq

/-- **The translation of an address and the access rights**, which depend on all entries on the way. -/
def access (p : Paging) (mem : Word → Index → Word) (root v : Word) : Option Access :=
  let entries := trail walkStep mem p.levels root (walkIndex v)
  (translate p mem root v).map fun a =>
    ⟨a, entries.all fun e => e.getLsbD 1, entries.all fun e => e.getLsbD 2,
      entries.any fun e => e.getLsbD 63⟩

/-! ## The system -/

/-- The page tables, and the other members of the page maps by the frame of their top table. -/
structure UserSystem where
  sys : TableSystem
  maps : Word → UserMap

/-- What happens: a call on the page tables by the kernel, a write to physical memory by anyone, and the
system call `mmap` of a task. -/
inductive UserOp
  | table (call : TableCall)
  | write (a : Word) (b : Byte)
  | mmap (root : Word) (regs : MmapRegs) (kmm : Kmm) (read : BitVec 32 → ℕ → Option (List Byte))

/-- The page map of a new table has no bitmap; its `bm_size` is not used before there is one. -/
def UserSystem.newMap (u : UserSystem) (sys : TableSystem) : TableCall → Word → UserMap
  | .create =>
    match sys.tables with
    | [] => u.maps
    | f :: _ => Function.update u.maps f ⟨none, 0⟩
  | _ => u.maps

/-- The system with another memory. -/
def UserSystem.withVm (u : UserSystem) (vm : Vm) : UserSystem := { u with sys := { u.sys with vm := vm } }

/-- What the operations do. -/
def UserSystem.exec (p : Paging) (u : UserSystem) : UserOp → Option UserSystem
  | .table call => (u.sys.exec p call).map fun sys => ⟨sys, u.newMap sys call⟩
  | .write a b => some (u.withVm (u.sys.vm.setByte a b))
  | .mmap root regs kmm read =>
    (syscallMmap p root kmm read ⟨u.sys.vm, u.maps root⟩ regs).map fun r =>
      { u.withVm r.1.vm with maps := Function.update u.maps root r.1.pm }

/-- An object of `n` bytes of the kernel heap, seen from the table in the frame `root`. -/
def HeapObject (p : Paging) (st : TableSystem) (root v : Word) (n : ℕ) : Prop :=
  ∀ i < n, 256 ≤ (topIndex p (v + BitVec.ofNat 64 i)).toNat ∧
    ∃ a, translate p st.vm.mem root (v + BitVec.ofNat 64 i) = some a ∧
      ¬ st.IsTable p (frameOf a) ∧ frameOf a ∉ st.vm.free

/-- What is promised. -/
def UserOp.Allowed (p : Paging) (u : UserSystem) : UserOp → Prop
  | .table call => call.Allowed p u.sys
  | .write a _ => ¬ u.sys.IsTable p (frameOf a)
  | .mmap root _ kmm read => root ∈ u.sys.tables ∧
      (∀ b, (u.maps root).bitmap = some b → HeapObject p u.sys root b (u.maps root).bmSize) ∧
      (∀ n ≤ 262144, HeapObject p u.sys root (kmm.object n) n) ∧
      ∀ fd n data, read fd n = some data → data.length ≤ n

/-! ## The condition -/

/-- The pages of a range lie below the kernel half. -/
def LowPages (p : Paging) (addr flags : Word) (cnt : ℕ) : Prop :=
  ∀ k < cnt, (topIndex p (addr + BitVec.ofNat 64 k * rangeStep flags)).toNat < 256

/-- The pages of a fixed range have bits in the bitmap. -/
def InBitmap (pm : UserMap) (addr : Word) (cnt : ℕ) : Prop :=
  cnt = 0 ∨ bmIndex addr.toNat + cnt ≤ 8 * if pm.bitmap.isNone then 0x1000 else pm.bmSize

/-- What a file is read into is neither a page table nor free: the flags of the pages have no address
bits and do not ask for 2 MiB pages, and the range has no page yet that is mapped to such memory. -/
def FileSafe (p : Paging) (st : TableSystem) (root addr flags : Word) (length : ℕ) : Prop :=
  flags &&& 0x000ffffffffff080#64 = 0 ∧
    ∀ j < length, ∀ a, translate p st.vm.mem root (addr + BitVec.ofNat 64 j) = some a →
      ¬ st.IsTable p (frameOf a) ∧ frameOf a ∉ st.vm.free

/-- **The condition on a call.** An anonymous mapping at a hint that `check_mmap_addr` accepts lies below
the kernel half; the pages of a fixed mapping have bits in the bitmap; and a file is read into memory
that is neither a page table nor free. -/
def MmapContained (p : Paging) (u : UserSystem) (root : Word) (kmm : Kmm) (regs : MmapRegs) :
    Prop :=
  let flags := regs.prot.signExtend 64
  (regs.flags = 0x8#32 → ∀ t, checkMmapAddrAt p root kmm ⟨u.sys.vm, u.maps root⟩ regs.rdi
      regs.rsi.toNat regs.flags = some (t, 0) → LowPages p regs.rdi flags (pageCnt regs.rsi.toNat)) ∧
  (regs.flags &&& 0x4#32 ≠ 0 → InBitmap (u.maps root) regs.rdi (pageCnt regs.rsi.toNat)) ∧
  (regs.flags &&& 0x4#32 ≠ 0 → regs.flags &&& 0x8#32 = 0 →
    FileSafe p u.sys root regs.rdi flags regs.rsi.toNat)

/-- The condition on an operation. -/
def UserOp.Contained (p : Paging) (u : UserSystem) : UserOp → Prop
  | .mmap root regs kmm _ => MmapContained p u root kmm regs
  | _ => True

/-- The operations without the condition. -/
def userAnyStep (p : Paging) : UserSystem → UserOp → UserSystem → Prop :=
  Guarded (fun u op => op.Allowed p u) fun u op u' => u.exec p op = some u'

/-- The operations that meet the condition. -/
def userStep (p : Paging) : UserSystem → UserOp → UserSystem → Prop :=
  Guarded (fun u op => op.Contained p u) (userAnyStep p)

/-- The state after `vmm::init`. -/
def UserSystem.Initial (p : Paging) (vm₀ : Vm) (totalMem : ℕ) (u : UserSystem) : Prop :=
  u.sys.Initial p vm₀ totalMem

/-- **The kernel half is untouched**: in every page table, each address whose index into the top table is
256 or more has the same translation and the same rights as before. -/
def KernelHalfKept (p : Paging) (u u' : UserSystem) : Prop :=
  ∀ t ∈ u.sys.kernel :: u.sys.tables, ∀ v, 256 ≤ (topIndex p v).toNat →
    access p u'.sys.vm.mem t v = access p u.sys.vm.mem t v

end CrepOS.Interface
