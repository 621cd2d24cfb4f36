import CrepOS.Interface.FdRun

/-!
# The descriptor numbers of one task

What the bitmap of a task and `fd_list` are to each other when only that task has descriptors: a bit is
set if and only if the number is open, and `fd_list` has no entry besides the open ones (`Bookkept`).
Beside the calls that open and close numbers a task calls `read`, `write` and `seek`, also on numbers
that are not open.
-/

set_option autoImplicit false

namespace CrepOS.Interface

open CrepOS.Library CrepOS.Model

variable {V P N : Type}

/-! ## The two structures -/

/-- The bit `i` of the bitmap is set. -/
def Marked (b : FdBitmap) (i : ℕ) : Prop := i < b.size ∧ b.bits i = true

/-- `fd_list` has an entry under the number `k`. -/
def Present (st : FdState V N) (k : ℤ) : Prop := (st.fdList.lookup k).isSome = true

/-- `fd_list` has an entry under the number `k` that is open. -/
def OpenNumber (st : FdState V N) (k : ℤ) : Prop :=
  ∃ fd, st.fdList.lookup k = some fd ∧ fd.status ≠ 0

/-- **The bookkeeping invariant** of the task `pid`: the bits of its bitmap are the open numbers, and
there are no other entries. -/
structure Bookkept (pid : ℤ) (st : FdState V N) : Prop where
  bit : ∀ i : ℕ, Marked (st.bitmap pid) i ↔ OpenNumber st i
  entry : ∀ k, Present st k → ∃ i : ℕ, k = i ∧ Marked (st.bitmap pid) i

/-- No descriptor is open, and the bitmap of the task `pid` is empty. -/
structure NoNumbers (pid : ℤ) (st : FdState V N) : Prop where
  entries : ∀ k, st.fdList.lookup k = none
  bits : ∀ i, ¬ Marked (st.bitmap pid) i

/-! ## The calls -/

/-- The calls on descriptors, with the contents of the registers. -/
inductive NumberCall (P : Type)
  | numbers (call : FdCall P)
  | read (rdi rsi rdx : BitVec 64)
  | write (rdi rsi rdx : BitVec 64)
  | seek (rdi rsi rdx : BitVec 64)

/-- What a call of the task `pid` does, and the value it returns. -/
def NumberCall.run (ops : VfsOps V P N) (pid : ℤ) (st : FdState V N) :
    NumberCall P → FdState V N × ℤ
  | .numbers call => call.run ops pid st
  | .read rdi rsi rdx => st.syscallRead ops rdi.toNat rsi.toNat rdx.toNat
  | .write rdi rsi rdx => st.syscallWrite ops rdi.toNat rsi.toNat rdx.toNat
  | .seek rdi rsi rdx => st.syscallSeek ops rdi.toNat rsi.toNat rdx.toNat

/-- The call is one that chooses a number. -/
def NumberCall.Chooses : NumberCall P → Prop
  | .numbers (.openPath _ _) | .numbers (.dup _) => True
  | _ => False

/-- `n` is the lowest number that is not open. -/
def LowestNotOpen (st : FdState V N) (n : ℤ) : Prop :=
  ¬ OpenNumber st n ∧ 0 ≤ n ∧ ∀ i, 0 ≤ i → i < n → OpenNumber st i

/-- The call succeeded: it did not return `-1`, or a number is open that was not. -/
def Succeeds (ops : VfsOps V P N) (pid : ℤ) (st : FdState V N) (call : NumberCall P) : Prop :=
  (call.run ops pid st).2 ≠ -1 ∨ ∃ k, OpenNumber (call.run ops pid st).1 k ∧ ¬ OpenNumber st k

/-- What a call is to do: the invariant holds after it, and a number that it chose is the lowest that
was not open. -/
structure BooksCall (ops : VfsOps V P N) (pid : ℤ) (st : FdState V N) (call : NumberCall P) :
    Prop where
  kept : Bookkept pid (call.run ops pid st).1
  lowest : call.Chooses → Succeeds ops pid st call → LowestNotOpen st (call.run ops pid st).2

/-- Every call of a sequence meets `ok` in the state that it starts from. -/
def EveryCall (ops : VfsOps V P N) (pid : ℤ) (ok : FdState V N → NumberCall P → Prop) :
    FdState V N → List (NumberCall P) → Prop
  | _, [] => True
  | st, call :: rest => ok st call ∧ EveryCall ops pid ok (call.run ops pid st).1 rest

/-! ## The condition -/

/-- The file system opens the node of the path, which `o_creat` may have made. -/
def opensNode (ops : VfsOps V P N) (vfs : V) (path : P) (flags : ℕ) : Bool :=
  match ops.searchAbsolute vfs path with
  | some node => decide ((ops.fsOpen vfs node flags).2 ≠ -1)
  | none =>
    if flags &&& 0x10 ≠ 0 then
      match ops.searchAbsolute (ops.create vfs path) path with
      | some node => decide ((ops.fsOpen (ops.create vfs path) node flags).2 ≠ -1)
      | none => false
    else false

/-- A number that an `int` can hold is not marked in the bitmap. -/
def HasNumber (b : FdBitmap) : Prop := ∃ i < 2 ^ 31, ¬ Marked b i

/-- **The condition on a call.** `open` and `dup` succeed; every number that is looked up has an entry;
`close` removes a number without an entry, so none at all; `dup2` replaces an entry. The last two look
up the number as an `int` and change it as a `ssize_t`. -/
def KeepsBooks (ops : VfsOps V P N) (pid : ℤ) (st : FdState V N) : NumberCall P → Prop
  | .numbers (.openPath path rsi) =>
    opensNode ops st.vfs path (ofSigned (toInt rsi.toNat)) = true ∧ HasNumber (st.bitmap pid)
  | .numbers (.close rdi) => Present st (toInt rdi.toNat) ∧ ¬ Present st (toSigned rdi.toNat)
  | .numbers (.dup rdi) =>
    (∃ fd node, st.fdList.lookup (toInt rdi.toNat) = some fd ∧ fd.vfsNode = some node ∧
      opensNode ops st.vfs (ops.absolutePath st.vfs node) (ofSigned (toInt (st.cell fd.flags))) =
        true) ∧ HasNumber (st.bitmap pid)
  | .numbers (.dup2 rdi rsi) => rdi = rsi ∨
    Present st (toInt rdi.toNat) ∧ Present st (toInt rsi.toNat) ∧ Present st (toSigned rsi.toNat)
  | .read rdi _ _ | .write rdi _ _ | .seek rdi _ _ => Present st (toInt rdi.toNat)

end CrepOS.Interface
