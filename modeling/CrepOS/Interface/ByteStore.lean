import CrepOS.Interface.OpenFile
import CrepOS.Model.Ramfs

/-!
# A store of byte strings

What `ramfs` is for: under each path there is a string of bytes or nothing. `open` with `o_creat` makes
an empty string where there is nothing, a write replaces bytes and extends the string, a read returns
those bytes of the range that the string has, and `unlink` takes the string away. `ActsAsStore` says
that `ramfs` returns what the store returns, call after call, and that a read writes only the bytes it
read, into the buffer of the caller.
-/

set_option autoImplicit false

namespace CrepOS.Interface

open CrepOS.Library CrepOS.Model

variable {N P H : Type} [DecidableEq N] [DecidableEq P]

/-- The calls of `ramfs::fs`; `newBuf` is what the object of a new node contained. -/
inductive StoreCall (N : Type)
  | openNode (vfsNode : N) (flags : BitVec 16) (newBuf : ℕ)
  | read (vfsNode : N) (off cnt : ℤ) (buf : ℕ)
  | write (vfsNode : N) (off cnt : ℤ) (buf : ℕ)
  | unlink (vfsNode : N)

/-- The strings under the paths. -/
abbrev ByteStore (P : Type) := P → Option (List Byte)

/-- What a call does to `ramfs`, and the value it returns. -/
def StoreCall.run (path : N → P) (junk : ℕ → RamNode N) (heap : BufferHeap H) (fuel : ℕ)
    (st : Ramfs N H) : StoreCall N → Option (Ramfs N H × ℤ)
  | .openNode vfsNode flags newBuf => st.fsOpen path junk fuel vfsNode flags.toNat newBuf
  | .read vfsNode off cnt buf => st.fsRead path junk vfsNode off cnt buf
  | .write vfsNode off cnt buf => st.fsWrite path junk heap vfsNode off cnt buf
  | .unlink vfsNode => st.fsUnlink path junk fuel vfsNode

/-- The bytes of the range that a string has. -/
def clippedRange (bytes : List Byte) (off cnt : ℤ) : List Byte :=
  (bytes.drop off.toNat).take cnt.toNat

/-- What a call does to the store, the value it returns and the bytes it reads; `mem` is the memory of
the caller. -/
def StoreCall.onStore (path : N → P) (mem : Memory) (store : ByteStore P) :
    StoreCall N → ByteStore P × ℤ × List Byte
  | .openNode vfsNode flags _ =>
    match store (path vfsNode) with
    | some _ => (store, 0, [])
    | none =>
      if flags.toNat &&& 0x10 ≠ 0 then (Function.update store (path vfsNode) (some []), 0, [])
      else (store, -1, [])
  | .read vfsNode off cnt _ =>
    match store (path vfsNode) with
    | none => (store, -1, [])
    | some bytes =>
      if (bytes.length : ℤ) < off then (store, -1, [])
      else (store, (clippedRange bytes off cnt).length, clippedRange bytes off cnt)
  | .write vfsNode off cnt buf =>
    match store (path vfsNode) with
    | none => (store, -1, [])
    | some bytes =>
      (Function.update store (path vfsNode) (some (overwrite bytes off.toNat
        (bufferBytes (fun i => mem (buf + i)) cnt.toNat))), cnt, [])
  | .unlink vfsNode =>
    match store (path vfsNode) with
    | none => (store, -1, [])
    | some _ => (Function.update store (path vfsNode) none, 0, [])

/-- The call returned what the store returns, and a read left the memory alone but for the bytes it
returned. -/
def AgreesWithStore (path : N → P) (store : ByteStore P) (st st' : Ramfs N H) (ret : ℤ)
    (call : StoreCall N) : Prop :=
  ret = (call.onStore path st.mem store).2.1 ∧
    match call with
    | .read _ _ _ buf => st'.mem = storeBytes st.mem buf (call.onStore path st.mem store).2.2
    | _ => True

/-- **`ramfs` acts as a store** on a sequence of calls: each returns, for some number of nested calls of
the destructor, and agrees with the store. -/
def ActsAsStore (path : N → P) (junk : ℕ → RamNode N) (heap : BufferHeap H) :
    Ramfs N H → ByteStore P → List (StoreCall N) → Prop
  | _, _, [] => True
  | st, store, call :: rest => ∃ fuel st' ret, call.run path junk heap fuel st = some (st', ret) ∧
      AgreesWithStore path store st st' ret call ∧
      ActsAsStore path junk heap st' (call.onStore path st.mem store).1 rest

/-- The call is an `open` with `o_creat`. -/
def StoreCall.Creates : StoreCall N → Prop
  | .openNode _ flags _ => flags.toNat &&& 0x10 ≠ 0
  | _ => False

end CrepOS.Interface
