import CrepOS.Model.LibMap
import CrepOS.Model.Memutils

/-!
# File descriptors, `fs/fd.cpp`

The descriptors of all tasks are in one map, `fd_list`, whose tags are the descriptor numbers; a task
has only a bitmap from which `alloc_fd` chooses a number. An entry points to a cell with the offset and
to a cell with the flags, which copies of the entry share.

The virtual file system is a parameter, `VfsOps`: what `fs::fd` needs of it. The cells come from
`kmm::calloc`, which is modelled by a counter: it returns a cell that is not in use and holds zero.
`kmm::recalloc` keeps the bits of a bitmap and clears the new ones. `translate` returns a reference to a
copy of the entry; the copy is what the system calls work on.
-/

set_option autoImplicit false

namespace CrepOS.Model

open CrepOS.Library

/-- The cast from `size_t` to `int`. -/
def toInt (n : ℕ) : ℤ := (n : ℤ).bmod (2 ^ 32)

/-- What `fs::fd` calls of the virtual file system and of the file system of a node. `V` is the state of
both, `P` the type of paths, `N` that of nodes. -/
structure VfsOps (V P N : Type) where
  /-- `root_node.search_absolute(path)`. -/
  searchAbsolute : V → P → Option N
  /-- `vfs::node(path, NULL)`. -/
  create : V → P → V
  /-- `root_node.remove(path)`. -/
  remove : V → P → V
  absolutePath : V → N → P
  /-- `stat_cur->st_size`. -/
  stSize : V → N → ℤ
  fsOpen : V → N → ℕ → V × ℤ
  /-- The value returned and the bytes put into the buffer. -/
  fsRead : V → N → ℤ → ℤ → V × ℤ × List Byte
  fsWrite : V → N → ℤ → ℤ → Memory → V × ℤ

/-- `fs::fd`.
SRCLINE: kernel/fs/fd.hpp:8-24 -/
structure Fd (N : Type) where
  status : ℕ
  backingFd : ℤ
  loc : ℕ
  flags : ℕ
  vfsNode : Option N
  deriving DecidableEq

/-- `fd()`, which leaves the pointers open.
SRCLINE: kernel/fs/fd.hpp:11 -/
def Fd.default {N : Type} : Fd N where
  status := 0
  backingFd := -1
  loc := 0
  flags := 0
  vfsNode := none

/-- `task::fd_list`.
SRCLINE: kernel/sched/scheduler.hpp:47-50 -/
structure FdBitmap where
  bits : ℕ → Bool
  size : ℕ

/-- The descriptors, the cells, the tasks, the memory of the caller and the file systems. -/
structure FdState (V N : Type) where
  vfs : V
  fdList : LibMap ℤ (Fd N)
  cell : ℕ → ℕ
  cells : ℕ
  bitmap : ℤ → FdBitmap
  mem : Memory

variable {V P N : Type}

/-! ## `alloc_fd` and `translate` -/

/-- The loop of `find_index` over the bits from `i` on, `n` of which are left.
SRCLINE: kernel/fs/fd.cpp:25-30 -/
def findClear (bits : ℕ → Bool) (i : ℕ) : ℕ → Option ℕ
  | 0 => none
  | n + 1 => if bits i then findClear bits (i + 1) n else some i

/-- `find_index`: the index and the new bitmap. When no bit is clear the bitmap grows by `0x1000`, and
the second search finds the first of the new bits.
SRCLINE: kernel/fs/fd.cpp:23-39 -/
def findIndex (b : FdBitmap) : ℕ × FdBitmap :=
  match findClear b.bits 0 b.size with
  | some i => (i, { b with bits := Function.update b.bits i true })
  | none =>
    let grown : FdBitmap := ⟨fun i => if i < b.size then b.bits i else false, b.size + 0x1000⟩
    match findClear grown.bits 0 grown.size with
    | some i => (i, { grown with bits := Function.update grown.bits i true })
    | none => (0, grown)

/-- `kmm::calloc(sizeof(size_t))`. -/
def FdState.calloc (st : FdState V N) : FdState V N × ℕ :=
  ({ st with cell := Function.update st.cell st.cells 0, cells := st.cells + 1 }, st.cells)

/-- The lambda `open` of the constructor of `fd`: the node, and `-1` or what the file system returned.
SRCLINE: kernel/fs/fd.cpp:59-83 -/
def openNode (ops : VfsOps V P N) (vfs : V) (path : P) (flags : ℕ) : V × Option N × ℤ :=
  match ops.searchAbsolute vfs path with
  | some node =>
    let (vfs, ret) := ops.fsOpen vfs node flags
    (if ret = -1 then ops.remove vfs path else vfs, some node, ret)
  | none =>
    if flags &&& 0x10 ≠ 0 then
      let vfs := ops.create vfs path
      match ops.searchAbsolute vfs path with
      | none => (vfs, none, -1)
      | some node =>
        let (vfs, ret) := ops.fsOpen vfs node flags
        (if ret = -1 then ops.remove vfs path else vfs, some node, ret)
    else (vfs, none, -1)

/-- `fd::fd(path, flags, backing_fd)`.
SRCLINE: kernel/fs/fd.cpp:58-92 -/
def FdState.construct (ops : VfsOps V P N) (st : FdState V N) (path : P) (flags : ℕ)
    (backingFd : ℤ) : FdState V N × Fd N :=
  let (vfs, node, ret) := openNode ops st.vfs path flags
  let st := { st with vfs := vfs }
  if ret = -1 then (st, ⟨0, backingFd, 0, 0, node⟩)
  else
    let (st, loc) := st.calloc
    let (st, flagsCell) := st.calloc
    (st, ⟨1, backingFd, loc, flagsCell, node⟩)

/-- `alloc_fd`, called by the task `pid`.
SRCLINE: kernel/fs/fd.cpp:19-42 -/
def FdState.allocFd (ops : VfsOps V P N) (st : FdState V N) (pid : ℤ) (path : P) (flags : ℕ) :
    FdState V N × Fd N :=
  let (index, bitmap) := findIndex (st.bitmap pid)
  let st := { st with bitmap := Function.update st.bitmap pid bitmap }
  let (st, fd) := st.construct ops path flags (toInt index)
  ({ st with fdList := st.fdList.set index fd }, fd)

/-- `translate`.
SRCLINE: kernel/fs/fd.cpp:44-56 -/
def FdState.translate (st : FdState V N) (index : ℤ) : FdState V N × Option (Fd N) :=
  let backing := st.fdList.get index Fd.default
  ({ st with fdList := st.fdList.touch index Fd.default },
    if backing.backingFd = -1 ∨ backing.status = 0 then none else some backing)

/-! ## The methods of `fd` -/

/-- The bytes of a list, from the address `addr` on. -/
def storeBytes (m : Memory) (addr : ℕ) (bytes : List Byte) : Memory :=
  fun a => if addr ≤ a then (bytes[a - addr]?).getD (m a) else m a

/-- `fd::read`. The offset advances by `cnt`, whatever was read.
SRCLINE: kernel/fs/fd.cpp:94-107 -/
def FdState.fdRead (ops : VfsOps V P N) (st : FdState V N) (fd : Fd N) (buf cnt : ℕ) :
    FdState V N × ℤ :=
  match fd.vfsNode with
  | none => (st, -1)
  | some node =>
    let (vfs, ret, bytes) := ops.fsRead st.vfs node (toSigned (st.cell fd.loc)) (toSigned cnt)
    let st := { st with vfs := vfs, mem := storeBytes st.mem buf bytes }
    if ret = -1 then (st, -1)
    else ({ st with cell := Function.update st.cell fd.loc (wrap (st.cell fd.loc + cnt)) }, ret)

/-- `fd::write`. The offset advances by `cnt`, whatever was written.
SRCLINE: kernel/fs/fd.cpp:109-122 -/
def FdState.fdWrite (ops : VfsOps V P N) (st : FdState V N) (fd : Fd N) (buf cnt : ℕ) :
    FdState V N × ℤ :=
  match fd.vfsNode with
  | none => (st, -1)
  | some node =>
    let (vfs, ret) := ops.fsWrite st.vfs node (toSigned (st.cell fd.loc)) (toSigned cnt)
      fun i => st.mem (buf + i)
    let st := { st with vfs := vfs }
    if ret = -1 then (st, -1)
    else ({ st with cell := Function.update st.cell fd.loc (wrap (st.cell fd.loc + cnt)) }, ret)

/-- `fd::seek`, which `syscall_seek` does not call.
SRCLINE: kernel/fs/fd.cpp:124-141 -/
def FdState.fdSeek (ops : VfsOps V P N) (st : FdState V N) (fd : Fd N) (off : ℤ) (whence : ℤ) :
    FdState V N × ℤ :=
  match fd.vfsNode with
  | none => (st, -1)
  | some node =>
    let moved (loc : ℕ) : FdState V N × ℤ :=
      ({ st with cell := Function.update st.cell fd.loc loc }, toInt loc)
    if whence = 3 then moved (ofSigned off)
    else if whence = 1 then moved (wrap (st.cell fd.loc + ofSigned off))
    else if whence = 2 then moved (ofSigned (ops.stSize st.vfs node + off))
    else (st, -1)

/-! ## The system calls -/

/-- `syscall_open`.
SRCLINE: kernel/fs/fd.cpp:143-157 -/
def FdState.syscallOpen (ops : VfsOps V P N) (st : FdState V N) (pid : ℤ) (path : P) (rsi : ℕ) :
    FdState V N × ℤ :=
  let (st, fd) := st.allocFd ops pid path (ofSigned (toInt rsi))
  (st, if fd.status = 0 then -1 else fd.backingFd)

/-- `syscall_close`. The bit of the number stays set in the bitmap of the task.
SRCLINE: kernel/fs/fd.cpp:159-165 -/
def FdState.syscallClose (st : FdState V N) (rdi : ℕ) : FdState V N × ℤ :=
  match st.translate (toInt rdi) with
  | (st, none) => (st, -1)
  | (st, some _) => ({ st with fdList := st.fdList.remove (toSigned rdi) }, 0)

/-- `syscall_read`.
SRCLINE: kernel/fs/fd.cpp:167-171 -/
def FdState.syscallRead (ops : VfsOps V P N) (st : FdState V N) (rdi rsi rdx : ℕ) :
    FdState V N × ℤ :=
  match st.translate (toInt rdi) with
  | (st, none) => (st, -1)
  | (st, some fd) => st.fdRead ops fd rsi rdx

/-- `syscall_write`.
SRCLINE: kernel/fs/fd.cpp:173-177 -/
def FdState.syscallWrite (ops : VfsOps V P N) (st : FdState V N) (rdi rsi rdx : ℕ) :
    FdState V N × ℤ :=
  match st.translate (toInt rdi) with
  | (st, none) => (st, -1)
  | (st, some fd) => st.fdWrite ops fd rsi rdx

/-- `syscall_seek`, which calls `fd::write` with the offset as the buffer and `whence` as the count.
SRCLINE: kernel/fs/fd.cpp:179-183 -/
def FdState.syscallSeek (ops : VfsOps V P N) (st : FdState V N) (rdi rsi rdx : ℕ) :
    FdState V N × ℤ :=
  match st.translate (toInt rdi) with
  | (st, none) => (st, -1)
  | (st, some fd) => st.fdWrite ops fd rsi rdx

/-- `syscall_dup`. A translated entry has a node.
SRCLINE: kernel/fs/fd.cpp:185-189 -/
def FdState.syscallDup (ops : VfsOps V P N) (st : FdState V N) (pid : ℤ) (rdi : ℕ) :
    FdState V N × ℤ :=
  match st.translate (toInt rdi) with
  | (st, none) => (st, -1)
  | (st, some fd) =>
    match fd.vfsNode with
    | none => (st, -1)
    | some node =>
      let (st, fd') := st.allocFd ops pid (ops.absolutePath st.vfs node)
        (ofSigned (toInt (st.cell fd.flags)))
      (st, fd'.backingFd)

/-- `syscall_dup2`.
SRCLINE: kernel/fs/fd.cpp:191-204 -/
def FdState.syscallDup2 (st : FdState V N) (rdi rsi : ℕ) : FdState V N × ℤ :=
  if rdi = rsi then (st, toInt rsi)
  else
    match st.translate (toInt rdi) with
    | (st, none) => (st, -1)
    | (st, some fd) =>
      match st.translate (toInt rsi) with
      | (st, none) => ({ st with fdList := st.fdList.set (toSigned rsi) fd }, toInt rsi)
      | (st, some _) =>
        ({ st with fdList := (st.fdList.remove (toSigned rsi)).set (toSigned rsi) fd }, toInt rsi)

end CrepOS.Model
