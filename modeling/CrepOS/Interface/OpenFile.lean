import CrepOS.Model.Fd

/-!
# The open file

What `read`, `write` and `seek` on a descriptor are for: an open file is a string of bytes and an
offset, and every transfer moves the offset by the number of bytes transferred. How many bytes a file
system transfers is a parameter, `Transfers`; `ActsOnBytes` says that the file system acts on a string
of bytes and returns that number.
-/

set_option autoImplicit false

namespace CrepOS.Interface

open CrepOS.Library CrepOS.Model

/-- The numbers of bytes that a file system transfers, given the contents, the offset and the count. -/
structure Transfers where
  readCount : List Byte → ℕ → ℕ → ℕ
  writeCount : List Byte → ℕ → ℕ → ℕ

/-- The contents after a write of `bytes` at `off`; a gap is filled with zeros. -/
def overwrite (contents : List Byte) (off : ℕ) (bytes : List Byte) : List Byte :=
  if bytes = [] then contents
  else
    contents.take off ++ List.replicate (off - contents.length) 0 ++ bytes ++
      contents.drop (off + bytes.length)

/-- The first `n` bytes of a buffer. -/
def bufferBytes (buf : Memory) (n : ℕ) : List Byte := (List.range n).map buf

/-- **The file system of the node acts on a string of bytes.** It transfers at most what it is asked
for, a read stays inside the contents and reads something if there is something to read, and the number
is returned as an `int`. -/
structure ActsOnBytes {V P N : Type} (ops : VfsOps V P N) (node : N) (contents : V → List Byte)
    (t : Transfers) : Prop where
  readCount_le : ∀ bytes off cnt, t.readCount bytes off cnt ≤ cnt
  readCount_inside : ∀ bytes off cnt, t.readCount bytes off cnt ≤ bytes.length - off
  readCount_pos : ∀ bytes off cnt, 0 < cnt → off < bytes.length → 0 < t.readCount bytes off cnt
  readCount_int : ∀ bytes off cnt, t.readCount bytes off cnt < 2 ^ 31
  writeCount_le : ∀ bytes off cnt, t.writeCount bytes off cnt ≤ cnt
  writeCount_int : ∀ bytes off cnt, t.writeCount bytes off cnt < 2 ^ 31
  read : ∀ (v : V) (off cnt : ℕ), off < 2 ^ 64 → cnt < 2 ^ 64 →
    contents (ops.fsRead v node (toSigned off) (toSigned cnt)).1 = contents v ∧
    (ops.fsRead v node (toSigned off) (toSigned cnt)).2 =
      ((t.readCount (contents v) off cnt : ℤ),
        ((contents v).drop off).take (t.readCount (contents v) off cnt))
  write : ∀ (v : V) (off cnt : ℕ) (buf : Memory), off < 2 ^ 64 → cnt < 2 ^ 64 →
    contents (ops.fsWrite v node (toSigned off) (toSigned cnt) buf).1 =
      overwrite (contents v) off (bufferBytes buf (t.writeCount (contents v) off cnt)) ∧
    (ops.fsWrite v node (toSigned off) (toSigned cnt) buf).2 = t.writeCount (contents v) off cnt

/-- An open file, with the memory of the caller. -/
@[ext] structure OpenFile where
  contents : List Byte
  offset : ℕ
  mem : Memory

/-- A call on a descriptor, with the contents of the registers `rsi` and `rdx`. -/
inductive FileCall
  | read (buf cnt : BitVec 64)
  | write (buf cnt : BitVec 64)
  | seek (off whence : BitVec 64)
  deriving DecidableEq

/-- The call is a `seek`. -/
def FileCall.IsSeek : FileCall → Prop
  | .seek _ _ => True
  | _ => False

instance FileCall.decidableIsSeek (c : FileCall) : Decidable c.IsSeek :=
  match c with
  | .seek _ _ => .isTrue trivial
  | .read _ _ | .write _ _ => .isFalse id

/-- **The reference**: the call on the open file, and the value it returns. -/
def OpenFile.call (t : Transfers) (f : OpenFile) : FileCall → OpenFile × ℤ
  | .read buf cnt =>
    let n := t.readCount f.contents f.offset cnt.toNat
    ({ f with
      offset := wrap (f.offset + n)
      mem := storeBytes f.mem buf.toNat ((f.contents.drop f.offset).take n) }, n)
  | .write buf cnt =>
    let n := t.writeCount f.contents f.offset cnt.toNat
    ({ f with
      contents := overwrite f.contents f.offset (bufferBytes (fun i => f.mem (buf.toNat + i)) n)
      offset := wrap (f.offset + n) }, n)
  | .seek off whence =>
    let moved (offset : ℕ) : OpenFile × ℤ := ({ f with offset := offset }, toInt offset)
    if toInt whence.toNat = 3 then moved off.toNat
    else if toInt whence.toNat = 1 then moved (wrap (f.offset + off.toNat))
    else if toInt whence.toNat = 2 then moved (wrap (f.contents.length + off.toNat))
    else (f, -1)

/-- The condition on a call: it is no `seek`, and all bytes are transferred. -/
def FileCall.Full (t : Transfers) (f : OpenFile) : FileCall → Prop
  | .read _ cnt => t.readCount f.contents f.offset cnt.toNat = cnt.toNat
  | .write _ cnt => t.writeCount f.contents f.offset cnt.toNat = cnt.toNat
  | .seek _ _ => False

instance FileCall.decidableFull (t : Transfers) (f : OpenFile) (c : FileCall) :
    Decidable (c.Full t f) :=
  match c with
  | .read _ _ | .write _ _ => inferInstanceAs (Decidable (_ = _))
  | .seek _ _ => .isFalse id

/-- The condition on a sequence of calls. -/
def FullThroughout (t : Transfers) : OpenFile → List FileCall → Prop
  | _, [] => True
  | f, c :: rest => c.Full t f ∧ FullThroughout t (f.call t c).1 rest

instance FullThroughout.decidable (t : Transfers) (f : OpenFile) (calls : List FileCall) :
    Decidable (FullThroughout t f calls) :=
  match calls with
  | [] => .isTrue trivial
  | c :: rest =>
    have : Decidable (FullThroughout t (f.call t c).1 rest) := FullThroughout.decidable t _ rest
    inferInstanceAs (Decidable (c.Full t f ∧ _))

variable {V P N : Type}

/-- The system calls of the code, on the descriptor in `rdi`. -/
def fileCall (ops : VfsOps V P N) (rdi : BitVec 64) (st : FdState V N) : FileCall → FdState V N × ℤ
  | .read buf cnt => st.syscallRead ops rdi.toNat buf.toNat cnt.toNat
  | .write buf cnt => st.syscallWrite ops rdi.toNat buf.toNat cnt.toNat
  | .seek off whence => st.syscallSeek ops rdi.toNat off.toNat whence.toNat

/-- The descriptor in `rdi` is open, with the entry `fd` and the node `node`. -/
structure OpenOn (st : FdState V N) (rdi : BitVec 64) (fd : Fd N) (node : N) : Prop where
  entry : st.fdList.get (toInt rdi.toNat) Fd.default = fd
  backing : fd.backingFd ≠ -1
  status : fd.status ≠ 0
  node : fd.vfsNode = some node
  offset : st.cell fd.loc < 2 ^ 64

/-- The open file that a descriptor with the entry `fd` stands for. -/
def openFile (contents : V → List Byte) (st : FdState V N) (fd : Fd N) : OpenFile where
  contents := contents st.vfs
  offset := st.cell fd.loc
  mem := st.mem

/-- The calls of the code return what the calls of the reference return and leave the same contents, the
same offset and the same memory, after every call of the sequence. -/
def AgreesThroughout (ops : VfsOps V P N) (contents : V → List Byte) (t : Transfers)
    (rdi : BitVec 64) (fd : Fd N) : FdState V N → OpenFile → List FileCall → Prop
  | _, _, [] => True
  | st, f, c :: rest =>
    (fileCall ops rdi st c).2 = (f.call t c).2 ∧
    openFile contents (fileCall ops rdi st c).1 fd = (f.call t c).1 ∧
    AgreesThroughout ops contents t rdi fd (fileCall ops rdi st c).1 (f.call t c).1 rest

end CrepOS.Interface
