import CrepOS.Model.LibString
import CrepOS.Model.Memutils

/-!
# Powers, numerals and formatted output

`pow` of `lib/memutils.hpp`, `print_integer`, `string::operator+(ssize_t)`, and `print_format` of `lib/debug.hpp`.
-/

set_option autoImplicit false

namespace CrepOS.Model

open CrepOS.Library

/-! ## `pow`

With the result the model has the exact products that are formed, before they are brought into the range of an
`ssize_t`. -/

/-- The loop of `pow`: `result`, and the products that were formed.
SRCLINE: kernel/lib/memutils.hpp:82-92 -/
def powLoop (result base exp : ℤ) (products : List ℤ) : ℤ × List ℤ :=
  let (result, products) :=
    if exp % 2 = 1 then (wrapSigned (result * base), products ++ [result * base]) else (result, products)
  if exp / 2 ≤ 0 then (result, products)
  else powLoop result (wrapSigned (base * base)) (exp / 2) (products ++ [base * base])
termination_by exp.toNat
decreasing_by omega

/-- `pow`.
SRCLINE: kernel/lib/memutils.hpp:79-95 -/
def pow (base exp : ℤ) : ℤ × List ℤ := powLoop 1 base exp []

/-! ## `print_integer` and `string::operator+(ssize_t)`

The digits are put into a static buffer of 50 characters from the end on. An access to the table of digits or to the
buffer that is out of bounds is `none`. A base between 2 and 16 and every value of the types that are supported can be
represented in the common type of both, so `%` and `/` are those of the integers, which truncate. -/

/-- The types with a formatter.
SRCLINE: kernel/lib/debug.hpp:70-89 -/
inductive IntegerType
  | int
  | unsignedInt
  | shortInt
  | unsignedShortInt
  | longInt
  | unsignedLongInt
  | longLongInt
  | unsignedLongLongInt
  | unsignedChar
  deriving DecidableEq

namespace IntegerType

/-- The number of bits. -/
def bits : IntegerType → ℕ
  | int | unsignedInt => 32
  | shortInt | unsignedShortInt => 16
  | longInt | unsignedLongInt | longLongInt | unsignedLongLongInt => 64
  | unsignedChar => 8

/-- Whether there are negative values. -/
def signed : IntegerType → Bool
  | int | shortInt | longInt | longLongInt => true
  | unsignedInt | unsignedShortInt | unsignedLongInt | unsignedLongLongInt | unsignedChar => false

/-- The value that an assignment of `z` gives. -/
def cast (T : IntegerType) (z : ℤ) : ℤ := if T.signed then z.bmod (2 ^ T.bits) else z % 2 ^ T.bits

/-- The values of the type. -/
def Holds (T : IntegerType) (z : ℤ) : Prop :=
  (if T.signed then -2 ^ (T.bits - 1) else 0) ≤ z ∧ z < if T.signed then 2 ^ (T.bits - 1) else 2 ^ T.bits

instance decidableHolds (T : IntegerType) (z : ℤ) : Decidable (T.Holds z) := inferInstanceAs (Decidable (_ ∧ _))

end IntegerType

/-- A character of a table, or nothing if the index is out of bounds. -/
def tableAt (digits : List Byte) (k : ℤ) : Option Byte := if 0 ≤ k then digits[k.toNat]? else none

/-- The loop that puts the digits before the position `str` of the buffer, and where they begin.
SRCLINE: kernel/lib/debug.hpp:59-62, kernel/lib/string.cpp:120-123 -/
def digitLoop (T : IntegerType) (digits : List Byte) (base : ℤ) :
    ℕ → ℤ → (ℕ → Byte) → Option (ℕ × (ℕ → Byte))
  | 0, _, _ => none
  | str + 1, arg, buffer =>
    (tableAt digits (arg.tmod base)).bind fun c =>
      let buffer := Function.update buffer str c
      let arg := T.cast (arg.tdiv base)
      if arg ≠ 0 then digitLoop T digits base str arg buffer else some (str, buffer)

/-- The characters from `i` on up to the zero, if there is one among the `n` that are left of the buffer.
SRCLINE: kernel/lib/debug.hpp:64-65 -/
def readOut (buffer : ℕ → Byte) : ℕ → ℕ → Option LibString
  | 0, _ => none
  | n + 1, i => if buffer i = 0 then some [] else (readOut buffer n (i + 1)).map (buffer i :: ·)

/-- The common body, with what the buffer contains before.
SRCLINE: kernel/lib/debug.hpp:52-65, kernel/lib/string.cpp:114-123 -/
def formatNumber (T : IntegerType) (digits : List Byte) (stale : ℕ → Byte) (arg base : ℤ) : Option LibString :=
  (digitLoop T digits base 49 arg (Function.update stale 49 0)).bind fun r => readOut r.2 (50 - r.1) r.1

/-- `print_integer`: the characters that are written, with the table `"0123456789ABCDEF"`.
SRCLINE: kernel/lib/debug.hpp:50-66 -/
def printInteger (T : IntegerType) (stale : ℕ → Byte) (arg base : ℤ) : Option LibString :=
  formatNumber T [0x30, 0x31, 0x32, 0x33, 0x34, 0x35, 0x36, 0x37, 0x38, 0x39, 0x41, 0x42, 0x43, 0x44, 0x45, 0x46, 0]
    stale arg base

/-- `string::operator+(ssize_t)`, with the table `"0123456789"`.
SRCLINE: kernel/lib/string.cpp:113-126 -/
def LibString.appendNumber (s : LibString) (stale : ℕ → Byte) (number : ℤ) : Option LibString :=
  (formatNumber .longInt [0x30, 0x31, 0x32, 0x33, 0x34, 0x35, 0x36, 0x37, 0x38, 0x39, 0] stale number 10).map (s ++ ·)

/-! ## `print_format`

A C string is the list of the characters before its end. The characters that `output_format.write` is called with are
the result; there is none if something is read out of bounds. -/

/-- The types of arguments with a `formatter`; a number with what its buffer contains before.
SRCLINE: kernel/lib/debug.hpp:9-48, kernel/lib/debug.hpp:70-89 -/
inductive PrintArg
  | chars (arg : LibString)
  | char (arg : Byte)
  | string (arg : LibString)
  | integer (T : IntegerType) (stale : ℕ → Byte) (arg : ℤ)

/-- `format`; only a number depends on the base.
SRCLINE: kernel/lib/debug.hpp:15-48, kernel/lib/debug.hpp:70-94 -/
def PrintArg.format : PrintArg → ℤ → Option LibString
  | chars arg, _ => some arg
  | char arg, _ => some [arg]
  | string arg, _ => some arg
  | integer T stale arg, base => printInteger T stale arg base

/-- `*(str + i)`: the characters, and the zero behind them. -/
def charAt (str : LibString) (i : ℕ) : Option Byte := if i = str.length then some 0 else str[i]?

/-- The base for a character in braces.
SRCLINE: kernel/lib/debug.hpp:106-118 -/
def braceBase (c : Byte) : ℤ := if c = 0x62 then 2 else if c = 0x64 then 10 else if c = 0x78 then 16 else 16

/-- The function that is called for each argument: what is written, and what is left of `str`.
SRCLINE: kernel/lib/debug.hpp:98-124 -/
def printArg (arg : PrintArg) : LibString → Option (LibString × LibString)
  | [] => some ([], [])
  | c :: str =>
    if c = 0x7b then
      if charAt (c :: str) 1 = some 0x7d then (arg.format 10).map fun out => (out, str.drop 1)
      else
        (charAt (c :: str) 2).bind fun e =>
          if e = 0x7d then
            (charAt (c :: str) 1).bind fun d => (arg.format (braceBase d)).map fun out => (out, str.drop 2)
          else (printArg arg str).map fun r => (c :: r.1, r.2)
    else (printArg arg str).map fun r => (c :: r.1, r.2)

/-- `print_format`.
SRCLINE: kernel/lib/debug.hpp:96-128 -/
def printFormat (str : LibString) : List PrintArg → Option LibString
  | [] => some str
  | arg :: args => (printArg arg str).bind fun r => (printFormat r.2 args).map (r.1 ++ ·)

end CrepOS.Model
