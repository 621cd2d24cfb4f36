import CrepOS.Interface.MmapRun

/-!
# The bits that `mmap` touches

`mmapBits` are the bits of the bitmap that a call of `mmap` tests or sets, in order, each with the number of
bytes that the bitmap has at that time. The definitions follow the loops of `check_mmap_addr` and
`mmap_alloc`. `MmapInside` is the condition under which no bit is behind the end of the bitmap.
-/

set_option autoImplicit false

namespace CrepOS.Interface

open CrepOS.Library CrepOS.Model

/-- The bits that a loop of `n` iterations sets, from the bit `i` on.
SRCLINE: kernel/mm/mmap.cpp:22-24, 38-40 -/
def markedBits (i n : ℕ) : List ℕ := (List.range n).map (i + ·)

/-- The bits that `check_mmap_addr` tests: it returns at the first that is set.
SRCLINE: kernel/mm/mmap.cpp:70-74 -/
def testedBits (m : Memory) : ℕ → ℕ → List ℕ
  | _, 0 => []
  | i, n + 1 => i :: if bmTest m 0 i then [] else testedBits m (i + 1) n

/-- The bits that the search of `mmap_alloc` tests.
SRCLINE: kernel/mm/mmap.cpp:28-45 -/
def searchBits (m : Memory) (pageCnt : ℕ) : ℕ → ℕ → ℕ → List ℕ
  | 0, _, _ => []
  | n + 1, i, cnt =>
    let cnt' := if bmTest m 0 i then 0 else cnt
    i :: if cnt' + 1 = pageCnt then [] else searchBits m pageCnt n (i + 1) (cnt' + 1)

/-- The bits that `mmap_alloc` touches up to the place where the bitmap grows.
SRCLINE: kernel/mm/mmap.cpp:8-45 -/
def tryBits (addr length flags : ℕ) (m : Memory) (size : ℕ) : List ℕ :=
  if flags &&& mapFixed ≠ 0 then markedBits (bmIndex addr) (rangeCnt (bmIndex addr) (pageCnt length))
  else searchBits m (pageCnt length) size 0 0 ++
    match findRun m (pageCnt length) size 0 0 0 with
    | none => []
    | some offset =>
      let index := bmIndex (wrap (offset * pageSize + mmapMinAddr))
      markedBits index (rangeCnt index (pageCnt length))

/-- The bits that `mmap_alloc` touches, with the size of the bitmap.
SRCLINE: kernel/mm/mmap.cpp:8-50 -/
def allocBits (addr length flags : ℕ) : List Memory → PageMap → List (ℕ × ℕ)
  | [], pm =>
    match pm.init.bitmap with
    | none => []
    | some m => (tryBits addr length flags m pm.init.bmSize).map (·, pm.init.bmSize)
  | b :: behind, pm =>
    match pm.init.bitmap with
    | none => []
    | some m =>
      (tryBits addr length flags m pm.init.bmSize).map (·, pm.init.bmSize) ++
        match mmapTry addr length flags m pm.init.bmSize with
        | some _ => []
        | none =>
          match recallocBitmap m pm.init.bmSize (grownSize pm.init.bmSize) b with
          | none => []
          | some m => allocBits addr length flags behind ⟨some m, grownSize pm.init.bmSize⟩

/-- The bits that `check_mmap_addr` touches, with the size of the bitmap.
SRCLINE: kernel/mm/mmap.cpp:52-77 -/
def checkBits (pm : PageMap) (addr length flags : ℕ) : List (ℕ × ℕ) :=
  if addr = 0 ∨ flags = mapFixed then []
  else match pm.init.bitmap with
    | none => []
    | some m => (testedBits m (bmIndex addr) (rangeCnt (bmIndex addr) (pageCnt length))).map
        (·, pm.init.bmSize)

/-- The bits that `mmap` touches, with the size of the bitmap.
SRCLINE: kernel/mm/mmap.cpp:79-104 -/
def mmapBits (pm : PageMap) (addr length flags : ℕ) (behind : List Memory) : List (ℕ × ℕ) :=
  if flags = mapAnonymous then
    checkBits pm addr length flags ++
      if (checkMmapAddr pm addr length flags).2 = -1 then
        allocBits addr length flags behind (checkMmapAddr pm addr length flags).1
      else []
  else if flags &&& mapFixed ≠ 0 then allocBits addr length flags behind pm
  else []

/-- The bit is one of the allocated bytes. -/
def BitInside (x : ℕ × ℕ) : Prop := x.1 / 8 < x.2

/-- The pages of the request have bits in the bitmap. -/
def RangeInside (pm : PageMap) (addr length : ℕ) : Prop :=
  rangeCnt (bmIndex addr) (pageCnt length) = 0 ∨
    bmIndex addr + rangeCnt (bmIndex addr) (pageCnt length) ≤ 8 * pm.init.bmSize

/-- **The condition on a call**: the pages of a fixed mapping have bits in the bitmap; those of a hint do,
or one before the end of the bitmap is in use. -/
def MmapInside (pm : PageMap) (addr length flags : ℕ) : Prop :=
  if flags = mapAnonymous then
    addr = 0 ∨ RangeInside pm addr length ∨
      ∃ m, pm.init.bitmap = some m ∧ ∃ k < rangeCnt (bmIndex addr) (pageCnt length),
        bmIndex addr + k < 8 * pm.init.bmSize ∧ m.bit 0 (bmIndex addr + k) = true
  else if flags &&& mapFixed ≠ 0 then RangeInside pm addr length
  else True

end CrepOS.Interface
