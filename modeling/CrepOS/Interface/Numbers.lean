import CrepOS.Model.Numbers
import Mathlib.Data.Nat.Digits.Lemmas

/-!
# Powers, numerals and templates
-/

set_option autoImplicit false

namespace CrepOS.Interface

open CrepOS.Model CrepOS.Library

/-! ## What `pow` should compute -/

/-- The values of an `ssize_t`. -/
def FitsSigned (z : ℤ) : Prop := -2 ^ 63 ≤ z ∧ z < 2 ^ 63

instance decidableFitsSigned (z : ℤ) : Decidable (FitsSigned z) := inferInstanceAs (Decidable (_ ∧ _))

/-- **`pow` is exact**: it returns the power, and no product that it forms overflows. -/
structure PowExact (base exp : ℤ) : Prop where
  value : (pow base exp).1 = base ^ exp.toNat
  products : ∀ p ∈ (pow base exp).2, FitsSigned p

/-! ## Numerals -/

/-- The character of a digit below 16. -/
def numeralChar (d : ℕ) : Byte := BitVec.ofNat 8 (if d < 10 then 0x30 + d else 0x37 + d)

/-- The numeral of a natural number, without leading zeros. -/
def natNumeral (base n : ℕ) : LibString :=
  if n = 0 then [numeralChar 0] else (Nat.digits base n).reverse.map numeralChar

/-- The numeral of an integer, with a minus sign if it is negative. -/
def numeral (base : ℕ) (z : ℤ) : LibString :=
  if z < 0 then 0x2d :: natNumeral base z.natAbs else natNumeral base z.natAbs

/-- `print_integer` writes the numeral, and makes no access out of bounds. -/
def PrintsNumeral (T : IntegerType) (arg : ℤ) (base : ℕ) : Prop :=
  ∀ stale, printInteger T stale arg base = some (numeral base arg)

/-- `operator+` appends the decimal numeral, and makes no access out of bounds. -/
def AppendsNumeral (s : LibString) (number : ℤ) : Prop :=
  ∀ stale, s.appendNumber stale number = some (s ++ numeral 10 number)

/-! ## Templates

The first argument of `print` is text with holes for the others. -/

/-- A place for an argument: `{}`, or a character in braces, which `}` cannot be. -/
inductive Hole
  | plain
  | letter (c : Byte) (h : c ≠ 0x7d)
  deriving DecidableEq

namespace Hole

def text : Hole → LibString
  | plain => [0x7b, 0x7d]
  | letter c _ => [0x7b, c, 0x7d]

/-- The base in which numbers are written: binary for `b`, decimal for nothing and `d`, and hexadecimal else. -/
def base : Hole → ℕ
  | plain => 10
  | letter c _ => if c = 0x62 then 2 else if c = 0x64 then 10 else 16

end Hole

/-- A hole begins at the first character. -/
def StartsHole (str : LibString) : Prop := ∃ h : Hole, h.text <+: str

/-- Text and holes. -/
inductive Template
  | last (text : LibString)
  | hole (text : LibString) (h : Hole) (rest : Template)
  deriving DecidableEq

namespace Template

/-- The characters of a template. -/
def render : Template → LibString
  | last text => text
  | hole text h rest => text ++ (h.text ++ render rest)

/-- The holes are taken from the left: none begins in a text. -/
def Leftmost : Template → Prop
  | last text => ∀ i, ¬ StartsHole (text.drop i)
  | hole text h rest => (∀ i < text.length, ¬ StartsHole ((hole text h rest).render.drop i)) ∧ Leftmost rest

end Template

/-- What an argument looks like. -/
def argText : PrintArg → ℕ → LibString
  | .chars arg, _ => arg
  | .char arg, _ => [arg]
  | .string arg, _ => arg
  | .integer _ _ arg, base => numeral base arg

/-- A number is a value of its type. -/
def ArgHolds : PrintArg → Prop
  | .integer T _ arg => T.Holds arg
  | _ => True

/-- An argument can be printed if it is not a negative number, or one of more than 49 binary digits. -/
def ArgPrintable : PrintArg → ℕ → Prop
  | .integer _ _ arg, base => 0 ≤ arg ∧ (base = 2 → arg < 2 ^ 49)
  | _, _ => True

namespace Template

/-- The arguments in the holes. Holes that are left are text, arguments that are left have no effect. -/
def substitute : Template → List PrintArg → LibString
  | last text, _ => text
  | hole text h rest, [] => render (hole text h rest)
  | hole text h rest, arg :: args => text ++ (argText arg h.base ++ substitute rest args)

/-- Each argument with a hole can be printed there; if arguments are left, the template does not end with an opening
brace. -/
def Printable : Template → List PrintArg → Prop
  | last text, args => args = [] ∨ text.getLast? ≠ some 0x7b
  | hole _ _ _, [] => True
  | hole _ h rest, arg :: args => ArgPrintable arg h.base ∧ Printable rest args

end Template

end CrepOS.Interface
