import CrepOS.Library.Run
import CrepOS.Model.Fd

/-!
# Descriptors of several tasks

Tasks call `open`, `close`, `dup` and `dup2` in any order. A state keeps who holds which number: a task
holds a number that a call of it has returned, as long as it denotes something after its own calls.
What a number denotes is a node and an offset; a node that has been deleted is none, and which nodes
have not been deleted is a parameter, `alive`, as the virtual file system is.
-/

set_option autoImplicit false

namespace CrepOS.Interface

open CrepOS.Library CrepOS.Model

variable {V P N : Type}

/-- The node and the offset that a descriptor number denotes. -/
def denotes (alive : V → N → Bool) (st : FdState V N) (n : ℤ) : Option (N × ℕ) :=
  let fd := st.fdList.get n Fd.default
  if fd.backingFd = -1 ∨ fd.status = 0 then none
  else
    match fd.vfsNode with
    | none => none
    | some node => if alive st.vfs node then some (node, st.cell fd.loc) else none

/-- The calls, with the contents of the registers. -/
inductive FdCall (P : Type)
  | openPath (path : P) (rsi : BitVec 64)
  | close (rdi : BitVec 64)
  | dup (rdi : BitVec 64)
  | dup2 (rdi rsi : BitVec 64)

/-- The descriptors, and the numbers that the tasks hold. -/
structure FdSystem (V N : Type) where
  code : FdState V N
  held : List (ℤ × ℤ)

/-- What a call of the task `pid` does to the descriptors, and the value it returns. -/
def FdCall.run (ops : VfsOps V P N) (pid : ℤ) (st : FdState V N) : FdCall P → FdState V N × ℤ
  | .openPath path rsi => st.syscallOpen ops pid path rsi.toNat
  | .close rdi => st.syscallClose rdi.toNat
  | .dup rdi => st.syscallDup ops pid rdi.toNat
  | .dup2 rdi rsi => st.syscallDup2 rdi.toNat rsi.toNat

/-- The number that a task obtains by a call that returned `ret`. -/
def FdCall.gained (ret : ℤ) : FdCall P → List ℤ
  | .openPath _ _ | .dup _ => if ret = -1 then [] else [ret]
  | .close _ => []
  | .dup2 rdi rsi => if rdi = rsi ∨ ret = -1 then [] else [toSigned rsi.toNat]

/-- A call of a task. -/
def FdSystem.exec (ops : VfsOps V P N) (alive : V → N → Bool) (st : FdSystem V N)
    (op : ℤ × FdCall P) : Option (FdSystem V N) :=
  let after := op.2.run ops op.1 st.code
  some ⟨after.1, (st.held ++ (op.2.gained after.2).map fun n => (op.1, n)).filter fun h =>
    h.1 ≠ op.1 ∨ (denotes alive after.1 h.2).isSome⟩

/-- No descriptor is open. -/
def FdSystem.Initial (st : FdSystem V N) : Prop :=
  (∀ n, st.code.fdList.get n Fd.default = Fd.default) ∧ st.held = []

/-! ## The condition -/

/-- `n` is the lowest number whose bit is clear in the bitmap; the bits past its end are. -/
def LowestClear (b : FdBitmap) (n : ℕ) : Prop :=
  n ≤ b.size ∧ (∀ i < n, b.bits i = true) ∧ (n < b.size → b.bits n = false)

instance LowestClear.decidable (b : FdBitmap) (n : ℕ) : Decidable (LowestClear b n) :=
  inferInstanceAs (Decidable (_ ∧ _ ∧ _))

/-- The file system fails to open the node of the path, which the constructor of `fd` answers by
removing the node. -/
def FsOpenFails (ops : VfsOps V P N) (vfs : V) (path : P) (flags : ℕ) : Prop :=
  match ops.searchAbsolute vfs path with
  | some node => (ops.fsOpen vfs node flags).2 = -1
  | none => flags &&& 0x10 ≠ 0 ∧
    match ops.searchAbsolute (ops.create vfs path) path with
    | some node => (ops.fsOpen (ops.create vfs path) node flags).2 = -1
    | none => False

instance FsOpenFails.decidable (ops : VfsOps V P N) (vfs : V) (path : P) (flags : ℕ) :
    Decidable (FsOpenFails ops vfs path flags) :=
  match h : ops.searchAbsolute vfs path with
  | some node => decidable_of_iff ((ops.fsOpen vfs node flags).2 = -1) (by simp only [FsOpenFails, h])
  | none =>
    match h' : ops.searchAbsolute (ops.create vfs path) path with
    | some node =>
      decidable_of_iff (flags &&& 0x10 ≠ 0 ∧ (ops.fsOpen (ops.create vfs path) node flags).2 = -1)
        (by simp only [FsOpenFails, h, h'])
    | none => .isFalse (by simp only [FsOpenFails, h, h', and_false, not_false_eq_true])

/-- No other task holds the number `k`. -/
def FdSystem.OthersLack (st : FdSystem V N) (pid : ℤ) (k : ℤ) : Prop :=
  ∀ h ∈ st.held, h.1 ≠ pid → h.2 ≠ k

/-- No other task holds the number that `alloc_fd` takes for the task `pid`, and the file system opens
the node. -/
def FdSystem.AllocApart (ops : VfsOps V P N) (st : FdSystem V N) (pid : ℤ) (path : P) (flags : ℕ) :
    Prop :=
  (∀ h ∈ st.held, h.1 ≠ pid → ¬ (0 ≤ h.2 ∧ LowestClear (st.code.bitmap pid) h.2.toNat)) ∧
    ¬ FsOpenFails ops st.code.vfs path flags

instance FdSystem.decidableOthersLack (st : FdSystem V N) (pid k : ℤ) :
    Decidable (st.OthersLack pid k) :=
  inferInstanceAs (Decidable (∀ h ∈ st.held, _))

instance FdSystem.decidableAllocApart (ops : VfsOps V P N) (st : FdSystem V N) (pid : ℤ) (path : P)
    (flags : ℕ) : Decidable (st.AllocApart ops pid path flags) :=
  inferInstanceAs (Decidable (_ ∧ _))

/-- The condition on `dup`, given what `translate` returned. -/
def FdSystem.DupApart (ops : VfsOps V P N) (st : FdSystem V N) (pid : ℤ) : Option (Fd N) → Prop
  | some ⟨_, _, _, flags, some node⟩ =>
    st.AllocApart ops pid (ops.absolutePath st.code.vfs node) (ofSigned (toInt (st.code.cell flags)))
  | _ => True

instance FdSystem.decidableDupApart (ops : VfsOps V P N) (st : FdSystem V N) (pid : ℤ)
    (fd : Option (Fd N)) : Decidable (st.DupApart ops pid fd) :=
  match fd with
  | some ⟨_, _, _, flags, some node⟩ => inferInstanceAs (Decidable (st.AllocApart ops pid
      (ops.absolutePath st.code.vfs node) (ofSigned (toInt (st.code.cell flags)))))
  | some ⟨_, _, _, _, none⟩ | none => .isTrue trivial

/-- **The condition on a call**: the number that it stores or removes is not held by another task, and
it does not remove a node. -/
def FdSystem.Apart (ops : VfsOps V P N) (st : FdSystem V N) (op : ℤ × FdCall P) : Prop :=
  match op.2 with
  | .openPath path rsi => st.AllocApart ops op.1 path (ofSigned (toInt rsi.toNat))
  | .close rdi => (st.code.translate (toInt rdi.toNat)).2.isSome →
      st.OthersLack op.1 (toSigned rdi.toNat)
  | .dup rdi => st.DupApart ops op.1 (st.code.translate (toInt rdi.toNat)).2
  | .dup2 rdi rsi => rdi ≠ rsi → (st.code.translate (toInt rdi.toNat)).2.isSome →
      st.OthersLack op.1 (toSigned rsi.toNat)

instance FdSystem.decidableApart (ops : VfsOps V P N) (st : FdSystem V N) (op : ℤ × FdCall P) :
    Decidable (st.Apart ops op) :=
  match op with
  | (pid, .openPath path rsi) =>
    inferInstanceAs (Decidable (st.AllocApart ops pid path (ofSigned (toInt rsi.toNat))))
  | (_, .close _) => inferInstanceAs (Decidable (_ → _))
  | (pid, .dup rdi) =>
    inferInstanceAs (Decidable (st.DupApart ops pid (st.code.translate (toInt rdi.toNat)).2))
  | (_, .dup2 _ _) => inferInstanceAs (Decidable (_ → _ → _))

/-- The calls that meet the condition. -/
def fdStep (ops : VfsOps V P N) (alive : V → N → Bool) :
    FdSystem V N → ℤ × FdCall P → FdSystem V N → Prop :=
  Guarded (FdSystem.Apart ops) fun st op st' => st.exec ops alive op = some st'

/-- The calls without the condition. -/
def fdAnyStep (ops : VfsOps V P N) (alive : V → N → Bool) :
    FdSystem V N → ℤ × FdCall P → FdSystem V N → Prop :=
  fun st op st' => st.exec ops alive op = some st'

/-- What is known of the virtual file system: only `remove` deletes nodes. -/
structure KeepsNodes (ops : VfsOps V P N) (alive : V → N → Bool) : Prop where
  create : ∀ v path m, alive v m = true → alive (ops.create v path) m = true
  fsOpen : ∀ v node flags m, alive v m = true → alive (ops.fsOpen v node flags).1 m = true

end CrepOS.Interface
