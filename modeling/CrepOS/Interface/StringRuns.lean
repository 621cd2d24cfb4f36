import CrepOS.Library.Run
import CrepOS.Model.StringHeap

/-!
# Runs of the operations on strings

What the strings should be, and which runs they are so in.
-/

set_option autoImplicit false

namespace CrepOS.Interface

open CrepOS.Library CrepOS.Model

/-- The string has the characters of the list, a zero byte behind them, and an allocation for all of these. A pointer
that is `NULL` has none. -/
structure Represents (h : StringHeap) (x : StringObject) (text : LibString) : Prop where
  chars : h.bytes.bytes x.raw x.length = text
  terminated : h.bytes (x.raw + x.length) = 0
  inMemory : 0 < x.raw ∧ x.raw + x.length < 2 ^ 64
  allocated : ∃ n, (x.raw, n) ∈ h.blocks ∧ x.length + 1 ≤ n

/-- The operation has written only to what it has requested. -/
def WritesInside (h : StringHeap) : Prop :=
  ∀ w ∈ h.written, ∀ k < w.2, ∃ r ∈ h.requested, r.1 ≤ w.1 + k ∧ w.1 + k < r.1 + r.2

/-- **The strings are right**: they represent the lists, and the last operation has written where it may. -/
structure StringsRight (s : StringState) (texts : List LibString) : Prop where
  represents : List.Forall₂ (Represents s.heap) s.strings texts
  writes : WritesInside s.heap

/-- The operations on lists. The characters of a new list are taken from the memory. -/
def listCall (m : Memory) (texts : List LibString) : StringCall → List LibString
  | .ofCString raw => texts ++ [m.bytes raw ((strlen m raw).getD 0)]
  | .ofChars raw length => texts ++ [m.bytes raw length]
  | .ofString i => texts ++ [texts.getD i []]
  | .plus i j => texts ++ [texts.getD i [] ++ texts.getD j []]
  | .plusAssign i j => texts.set i (texts.getD i [] ++ texts.getD j [])
  | .substr i start size => texts ++ [((texts.getD i []).drop start).take size]
  | .erase i pos size => texts.set i ((texts.getD i []).take pos ++ (texts.getD i []).drop (pos + size))

/-- The part of a string that is erased or taken is in the string, or `npos` stands for the rest. -/
def PartInside (length pos size : ℕ) : Prop := pos + size ≤ length ∨ size = npos.toNat ∧ pos ≤ length

/-- What the callers promise. -/
def Permitted (s : StringState) : StringCall → Prop
  | .ofCString raw => ∃ n, strlen s.heap.bytes raw = some n ∧ raw + n + 1 < 2 ^ 64
  | .ofChars raw length => raw + length < 2 ^ 64
  | .substr i start size => ∀ x ∈ s.strings[i]?, PartInside x.length start size
  | .erase i pos size => ∀ x ∈ s.strings[i]?, PartInside x.length pos size
  | _ => True

/-- The memory behind a pointer that an operation gets. -/
def StringCall.argument (m : Memory) : StringCall → Option (ℕ × ℕ)
  | .ofCString raw => (strlen m raw).map fun n => (raw, n + 1)
  | .ofChars raw length => some (raw, length)
  | _ => none

/-- Two allocations have different addresses and no common byte. -/
def RequestsApart (r r' : ℕ × ℕ) : Prop := r.1 ≠ r'.1 ∧ (r.1 + r.2 ≤ r'.1 ∨ r'.1 + r'.2 ≤ r.1)

/-- `new` returns memory that is not in use. -/
structure FreshRequests (s : StringState) (c : StringCall) (requested : List (ℕ × ℕ)) : Prop where
  apart : requested.Pairwise RequestsApart
  inMemory : ∀ r ∈ requested, 0 < r.1 ∧ r.1 + r.2 < 2 ^ 64
  fresh : ∀ r ∈ requested, ∀ r' ∈ s.heap.blocks, RequestsApart r r'
  argument : ∀ r ∈ requested, ∀ r' ∈ StringCall.argument s.heap.bytes c, r.1 + r.2 ≤ r'.1 ∨ r'.1 + r'.2 ≤ r.1

/-- An operation on the strings and on the lists. -/
structure StringStep (s : StringState × List LibString) (c : StringCall × ℕ × ℕ) (t : StringState × List LibString) :
    Prop where
  permitted : Permitted s.1 c.1
  called : s.1.call c.2.1 c.2.2 c.1 = some t.1
  fresh : FreshRequests s.1 c.1 t.1.heap.requested
  texts : t.2 = listCall s.1.heap.bytes s.2 c.1

/-- The memory before there are strings. -/
def noStrings (m : Memory) (blocks : List (ℕ × ℕ)) : StringState × List LibString := (⟨⟨m, blocks, [], []⟩, []⟩, [])

/-- **The operations that leave room for the zero byte**: the constructor from a text with a zero byte, and the copy. -/
def LeavesRoom : StringCall → Prop
  | .ofCString _ => True
  | .ofString _ => True
  | _ => False

end CrepOS.Interface
