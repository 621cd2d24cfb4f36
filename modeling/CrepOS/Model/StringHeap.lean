import CrepOS.Library.ByteBuffers
import CrepOS.Model.Memutils
import CrepOS.Model.LibString

/-!
# The memory of the strings, `lib/string.cpp`

A `lib::string` is a length and a pointer. `new` has the address that it returns as an argument. The operations record
which allocations they request, and which ranges they write; a range is its address and its length.
-/

set_option autoImplicit false

namespace CrepOS.Model

open CrepOS.Library

/-- `lib::string`: `_length` and `_raw`.
SRCLINE: kernel/lib/string.hpp:43-44 -/
structure StringObject where
  length : ℕ
  raw : ℕ
  deriving DecidableEq

/-- The difference of two `size_t`. -/
def subSize (x y : ℕ) : ℕ := (x + (2 ^ 64 - y)) % 2 ^ 64

/-- The loop of `strlen`, in at most `fuel` iterations.
SRCLINE: kernel/lib/memutils.cpp:61-64 -/
def strlenLoop (m : Memory) (str : ℕ) : ℕ → ℕ → Option ℕ
  | 0, _ => none
  | fuel + 1, len => if m (str + len) = 0 then some len else strlenLoop m str fuel (len + 1)

/-- `strlen`; `none` if there is no zero byte.
SRCLINE: kernel/lib/memutils.cpp:57-65 -/
def strlen (m : Memory) (str : ℕ) : Option ℕ := if str = 0 then some 0 else strlenLoop m str (2 ^ 64) 0

/-- The memory and the allocations that are not deleted. The last two fields are about the operation that is running. -/
structure StringHeap where
  bytes : Memory
  blocks : List (ℕ × ℕ)
  requested : List (ℕ × ℕ)
  written : List (ℕ × ℕ)

namespace StringHeap

/-- The start of an operation. -/
def start (h : StringHeap) : StringHeap := { h with requested := [], written := [] }

/-- `new char[n]`, which returns `a`. -/
def new (h : StringHeap) (a n : ℕ) : StringHeap :=
  { h with blocks := (a, n) :: h.blocks, requested := (a, n) :: h.requested }

/-- `delete`. -/
def delete (h : StringHeap) (a : ℕ) : StringHeap := { h with blocks := h.blocks.filter fun r => r.1 ≠ a }

/-- `memcpy8`, and the loops that copy one character after the other. -/
def copy (h : StringHeap) (dest src n : ℕ) : StringHeap :=
  { h with bytes := memcpy8 h.bytes dest src n, written := (dest, n) :: h.written }

/-- The assignment of one character. -/
def put (h : StringHeap) (a : ℕ) (c : Byte) : StringHeap :=
  { h with bytes := Function.update h.bytes a c, written := (a, 1) :: h.written }

/-- `string(const char *raw)`.
SRCLINE: kernel/lib/string.cpp:18-27 -/
def ofCString (h : StringHeap) (a raw : ℕ) : Option (StringHeap × StringObject) :=
  (strlen h.bytes raw).map fun length =>
    (((h.new a ((length + 1) % 2 ^ 64)).copy a raw length).put (a + length) 0, ⟨length, a⟩)

/-- `string(const char *raw, size_t length)`.
SRCLINE: kernel/lib/string.cpp:29-36 -/
def ofChars (h : StringHeap) (a raw length : ℕ) : StringHeap × StringObject :=
  (((h.new a length).copy a raw length).put (a + length) 0, ⟨length, a⟩)

/-- `string(const string &other)`.
SRCLINE: kernel/lib/string.cpp:7-12 -/
def ofString (h : StringHeap) (a : ℕ) (other : StringObject) : StringHeap × StringObject :=
  (((h.new a ((other.length + 1) % 2 ^ 64)).copy a other.raw other.length).put (a + other.length) 0,
    ⟨other.length, a⟩)

/-- `operator+`, whose `new_str` is at `a`; nothing deletes it.
SRCLINE: kernel/lib/string.cpp:100-111 -/
def plus (h : StringHeap) (a b : ℕ) (s other : StringObject) : StringHeap × StringObject :=
  let h := h.new a ((other.length + s.length) % 2 ^ 64)
  let h := h.copy a s.raw ((s.length + 1) % 2 ^ 64)
  let h := h.copy (a + s.length) other.raw other.length
  let newLength := (s.length + other.length) % 2 ^ 64
  let h := h.put (a + newLength) 0
  h.ofChars b a newLength

/-- `operator+=`: the sum is swapped with the string, whose old characters the destructor of the parameter of `operator=`
deletes.
SRCLINE: kernel/lib/string.cpp:42-50 -/
def plusAssign (h : StringHeap) (a b : ℕ) (s other : StringObject) : StringHeap × StringObject :=
  let (h, sum) := h.plus a b s other
  (h.delete s.raw, sum)

/-- `string::substr`.
SRCLINE: kernel/lib/string.cpp:168-176 -/
def substr (h : StringHeap) (a : ℕ) (s : StringObject) (start size : ℕ) : StringHeap × StringObject :=
  let size := if size = npos.toNat then subSize s.length start else size
  if size = 0 then (h, ⟨0, 0⟩)
  else h.ofChars a (s.raw + start) size

/-- `string::erase`.
SRCLINE: kernel/lib/string.cpp:144-166 -/
def erase (h : StringHeap) (a : ℕ) (s : StringObject) (pos size : ℕ) : StringHeap × StringObject :=
  let size := if size = npos.toNat then subSize s.length pos else size
  let h := h.new a (subSize s.length size)
  let h := h.copy a s.raw pos
  let i := (pos + size) % 2 ^ 64
  let h := h.copy (a + pos) (s.raw + i) (s.length - i)
  (h.delete s.raw, ⟨subSize s.length size, a⟩)

end StringHeap

/-- The operations. A string is its place in the list of all strings. -/
inductive StringCall
  | ofCString (raw : ℕ)
  | ofChars (raw length : ℕ)
  | ofString (i : ℕ)
  | plus (i j : ℕ)
  | plusAssign (i j : ℕ)
  | substr (i start size : ℕ)
  | erase (i pos size : ℕ)
  deriving DecidableEq

/-- The memory and all strings. -/
structure StringState where
  heap : StringHeap
  strings : List StringObject

namespace StringState

/-- A new string. -/
def push (s : StringState) (r : StringHeap × StringObject) : StringState := ⟨r.1, s.strings ++ [r.2]⟩

/-- A string that is changed. -/
def assign (s : StringState) (i : ℕ) (r : StringHeap × StringObject) : StringState := ⟨r.1, s.strings.set i r.2⟩

/-- An operation, with the addresses that `new` returns. -/
def call (s : StringState) (a b : ℕ) : StringCall → Option StringState
  | .ofCString raw => (s.heap.start.ofCString a raw).map s.push
  | .ofChars raw length => some (s.push (s.heap.start.ofChars a raw length))
  | .ofString i => s.strings[i]?.map fun other => s.push (s.heap.start.ofString a other)
  | .plus i j => s.strings[i]?.bind fun x => s.strings[j]?.map fun other => s.push (s.heap.start.plus a b x other)
  | .plusAssign i j =>
    s.strings[i]?.bind fun x => s.strings[j]?.map fun other => s.assign i (s.heap.start.plusAssign a b x other)
  | .substr i start size => s.strings[i]?.map fun x => s.push (s.heap.start.substr a x start size)
  | .erase i pos size => s.strings[i]?.map fun x => s.assign i (s.heap.start.erase a x pos size)

end StringState

end CrepOS.Model
