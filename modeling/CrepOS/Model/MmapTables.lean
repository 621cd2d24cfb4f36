import CrepOS.Interface.PageWalk
import CrepOS.Model.Mmap

/-!
# `mmap` and the page tables, `mm/mmap.cpp`

`CrepOS.Model.Mmap` keeps the bitmap of a page map apart from other memory and leaves the page tables
out. Here both lie in the memory of `Vm`. The bitmap is an object of the kernel heap at a virtual address;
an access to it, and each byte of a file that is read, goes to the byte that the processor translates its
address to with the page map of the caller. An address without a translation is a fault, and the call has
no result. A bit that is not in the bitmap is thus one of whatever memory lies there. The access rights
of a page do not matter, since the kernel runs without write protection.

What the kernel heap and the file return are arguments: `Kmm.object n` is the address of the object for
`n` bytes that is made in the call, and `read` gives the bytes of an open file.
-/

set_option autoImplicit false

namespace CrepOS.Model

open CrepOS.Library CrepOS.Interface

/-! ## Bytes -/

/-- The entry of its frame that holds the byte at a physical address. -/
def entryOf (a : Word) : Index := a.extractLsb' 3 9

/-- The byte at a physical address. -/
def Vm.byte (s : Vm) (a : Word) : Byte :=
  (s.mem (frameOf a) (entryOf a)).extractLsb' (8 * (a.toNat % 8)) 8

/-- A byte is written to a physical address. -/
def Vm.setByte (s : Vm) (a : Word) (b : Byte) : Vm :=
  let shift := 8 * (a.toNat % 8)
  s.set (frameOf a) (entryOf a)
    (s.mem (frameOf a) (entryOf a) &&& ~~~(0xff#64 <<< shift) ||| b.setWidth 64 <<< shift)

/-- The kernel reads a byte, with the table in the frame `root`. -/
def load (p : Paging) (root : Word) (s : Vm) (v : Word) : Option Byte :=
  (translate p s.mem root v).map s.byte

/-- The kernel writes a byte. -/
def store (p : Paging) (root : Word) (s : Vm) (v : Word) (b : Byte) : Option Vm :=
  (translate p s.mem root v).map fun a => s.setByte a b

/-- Bytes are written from `v` on. -/
def writeBytes (p : Paging) (root : Word) : List Byte → Word → Vm → Option Vm
  | [], _, s => some s
  | b :: bs, v, s =>
    match store p root s v b with
    | none => none
    | some s => writeBytes p root bs (v + 1) s

/-! ## Bits -/

/-- `bm_test`.
SRCLINE: kernel/lib/memutils.hpp:52-55 -/
def bmTestAt (p : Paging) (root bitmap : Word) (s : Vm) (i : ℕ) : Option Bool :=
  (load p root s (bitmap + BitVec.ofNat 64 (i / 8))).map fun b : Byte => (b >>> (i % 8) &&& 1#8) != 0#8

/-- `bm_set`.
SRCLINE: kernel/lib/memutils.hpp:42-45 -/
def bmSetAt (p : Paging) (root bitmap : Word) (s : Vm) (i : ℕ) : Option Vm :=
  match load p root s (bitmap + BitVec.ofNat 64 (i / 8)) with
  | none => none
  | some b => store p root s (bitmap + BitVec.ofNat 64 (i / 8)) (b ||| 1#8 <<< (i % 8))

/-- The loop that sets `n` bits from `i` on. -/
def bmSetFrom (p : Paging) (root bitmap : Word) : ℕ → ℕ → Vm → Option Vm
  | _, 0, s => some s
  | i, n + 1, s =>
    match bmSetAt p root bitmap s i with
    | none => none
    | some s => bmSetFrom p root bitmap (i + 1) n s

/-- The loop that tests `n` bits from `i` on, until one is set. -/
def anySet (p : Paging) (root bitmap : Word) (s : Vm) : ℕ → ℕ → Option Bool
  | _, 0 => some false
  | i, n + 1 =>
    match bmTestAt p root bitmap s i with
    | none => none
    | some true => some true
    | some false => anySet p root bitmap s (i + 1) n

/-- The search of `mmap_alloc`, from the bit `i` on with `n` bits left; it may find no run.
SRCLINE: kernel/mm/mmap.cpp:28-45 -/
def findRunAt (p : Paging) (root bitmap : Word) (s : Vm) (pageCnt : ℕ) :
    ℕ → ℕ → ℕ → ℕ → Option (Option ℕ)
  | 0, _, _, _ => some none
  | n + 1, i, cnt, offset =>
    match bmTestAt p root bitmap s i with
    | none => none
    | some b =>
      let offset' := if b then wrap (offset + cnt + 1) else offset
      let cnt' := if b then 0 else cnt
      if cnt' + 1 = pageCnt then some (some offset')
      else findRunAt p root bitmap s pageCnt n (i + 1) (cnt' + 1) offset'

/-! ## Page maps -/

/-- The members of `struct pmlx_table` besides the table: the address of the bitmap, which may be
`NULL`, and its size in bytes.
SRCLINE: kernel/mm/vmm.hpp:197-198 -/
structure UserMap where
  bitmap : Option Word
  bmSize : ℕ

/-- The memory, and the page map of the caller. -/
structure TaskVm where
  vm : Vm
  pm : UserMap

/-- What `kmm` returns in a call, and the bytes that it copies from behind the bitmap. -/
structure Kmm where
  object : ℕ → Word
  behind : ℕ → Byte

/-- The bitmap is made when it is first needed.
SRCLINE: kernel/mm/mmap.cpp:11-14, 59-62 -/
def TaskVm.init (p : Paging) (root : Word) (kmm : Kmm) (t : TaskVm) : Option TaskVm :=
  match t.pm.bitmap with
  | some _ => some t
  | none =>
    (writeBytes p root (List.replicate 0x1000 0) (kmm.object 0x1000) t.vm).map fun vm =>
      ⟨vm, some (kmm.object 0x1000), 0x1000⟩

/-- `kmm::recalloc` of the bitmap; there is no object of more than 262144 bytes.
SRCLINE: kernel/mm/mmap.cpp:47-48, kernel/mm/slab.cpp:224-239 -/
def TaskVm.grow (p : Paging) (root : Word) (kmm : Kmm) (t : TaskVm) (bitmap : Word) : Option TaskVm :=
  let size := grownSize t.pm.bmSize
  if 262144 < size then none
  else
    let bytes := (List.range size).map fun i =>
      if i < t.pm.bmSize then (load p root t.vm (bitmap + BitVec.ofNat 64 i)).getD 0 else kmm.behind i
    (writeBytes p root bytes (kmm.object size) t.vm).map fun vm => ⟨vm, some (kmm.object size), size⟩

/-- `mmap_alloc` up to the place where the bitmap grows: `some none` if it has to.
SRCLINE: kernel/mm/mmap.cpp:16-45 -/
def mmapTryAt (p : Paging) (root addr : Word) (length : ℕ) (flags : BitVec 32) (bitmap : Word)
    (size : ℕ) (s : Vm) : Option (Option (Vm × Word)) :=
  if flags &&& 0x4#32 ≠ 0 then
    let index := bmIndex addr.toNat
    (bmSetFrom p root bitmap index (rangeCnt index (pageCnt length)) s).map fun s => some (s, addr)
  else
    match findRunAt p root bitmap s (pageCnt length) size 0 0 0 with
    | none => none
    | some none => some none
    | some (some offset) =>
      let addr := BitVec.ofNat 64 (offset * pageSize + mmapMinAddr)
      let index := bmIndex addr.toNat
      (bmSetFrom p root bitmap index (rangeCnt index (pageCnt length)) s).map fun s => some (s, addr)

/-- The body of `mmap_alloc`; `again` is the call of itself after the bitmap has grown.
SRCLINE: kernel/mm/mmap.cpp:8-50 -/
def mmapAllocBody (p : Paging) (root : Word) (kmm : Kmm) (addr : Word) (length : ℕ)
    (flags : BitVec 32) (again : TaskVm → Option (TaskVm × Word)) (t : TaskVm) :
    Option (TaskVm × Word) :=
  match t.init p root kmm with
  | none => none
  | some t =>
    match t.pm.bitmap with
    | none => none
    | some bitmap =>
      match mmapTryAt p root addr length flags bitmap t.pm.bmSize t.vm with
      | none => none
      | some (some (vm, addr)) => some ({ t with vm := vm }, addr)
      | some none =>
        match t.grow p root kmm bitmap with
        | none => none
        | some t => again t

/-- `mmap_alloc`; 65 calls are enough, since each makes the bitmap larger.
SRCLINE: kernel/mm/mmap.cpp:8-50 -/
def mmapAllocAt (p : Paging) (root : Word) (kmm : Kmm) (addr : Word) (length : ℕ)
    (flags : BitVec 32) : ℕ → TaskVm → Option (TaskVm × Word)
  | 0, _ => none
  | n + 1, t =>
    mmapAllocBody p root kmm addr length flags
      (fun t => mmapAllocAt p root kmm addr length flags n t) t

/-- `check_mmap_addr`.
SRCLINE: kernel/mm/mmap.cpp:52-77 -/
def checkMmapAddrAt (p : Paging) (root : Word) (kmm : Kmm) (t : TaskVm) (addr : Word) (length : ℕ)
    (flags : BitVec 32) : Option (TaskVm × ℤ) :=
  if addr = 0 then some (t, -1)
  else if flags = 0x4#32 then some (t, 0)
  else
    match t.init p root kmm with
    | none => none
    | some t =>
      match t.pm.bitmap with
      | none => none
      | some bitmap =>
        let index := bmIndex addr.toNat
        (anySet p root bitmap t.vm index (rangeCnt index (pageCnt length))).map fun taken =>
          (t, if taken then -1 else 0)

/-! ## The call -/

/-- `mmap`: `prot` is both the flags and the memory type of the pages. `read fd n` are the bytes that
reading `n` bytes of an open file gives; a descriptor without one is removed.
SRCLINE: kernel/mm/mmap.cpp:79-104 -/
def mmapAt (p : Paging) (root : Word) (kmm : Kmm) (read : BitVec 32 → ℕ → Option (List Byte))
    (t : TaskVm) (addr : Word) (length : ℕ) (prot flags fd : BitVec 32) : Option (TaskVm × Word) :=
  let range := mapRange p root (prot.signExtend 64) prot.toInt (pageCnt length)
  if flags = 0x8#32 then
    match checkMmapAddrAt p root kmm t addr length flags with
    | none => none
    | some (t, ret) =>
      match if ret = -1 then mmapAllocAt p root kmm addr length flags 65 t else some (t, addr) with
      | none => none
      | some (t, addr) => (range addr t.vm).map fun vm => ({ t with vm := vm }, addr)
  else if flags &&& 0x4#32 ≠ 0 then
    match range addr t.vm with
    | none => none
    | some vm =>
      match mmapAllocAt p root kmm addr length flags 65 { t with vm := vm } with
      | none => none
      | some (t, _) =>
        if flags &&& 0x8#32 ≠ 0 then some (t, addr)
        else
          match read fd length with
          | none => some (t, addr)
          | some data => (writeBytes p root data addr t.vm).map fun vm => ({ t with vm := vm }, addr)
  else some (t, addr)

/-- The registers of the system call. -/
structure MmapRegs where
  rdi : Word
  rsi : Word
  rdx : Word
  r10 : Word
  r8 : Word
  r9 : Word

/-- The third argument that `syscall_mmap` passes.
SRCLINE: kernel/mm/mmap.cpp:127 -/
def MmapRegs.prot (regs : MmapRegs) : BitVec 32 := regs.rdx.setWidth 32 ||| 0x4#32

/-- The fourth argument. -/
def MmapRegs.flags (regs : MmapRegs) : BitVec 32 := regs.r10.setWidth 32

/-- `syscall_mmap`, with the value it leaves in `rax`.
SRCLINE: kernel/mm/mmap.cpp:125-128 -/
def syscallMmap (p : Paging) (root : Word) (kmm : Kmm) (read : BitVec 32 → ℕ → Option (List Byte))
    (t : TaskVm) (regs : MmapRegs) : Option (TaskVm × Word) :=
  mmapAt p root kmm read t regs.rdi regs.rsi.toNat regs.prot regs.flags (regs.r8.setWidth 32)

end CrepOS.Model
