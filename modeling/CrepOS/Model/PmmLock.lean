import CrepOS.Library.SpinLock
import CrepOS.Model.Pmm

/-!
# The code under `pmm_lock`, `mm/pmm.cpp`

`mem_chunk::alloc` and `mem_chunk::free` once more, one access to a bitmap byte at a time, for
processors that run them at the same time. `bm_test` loads a byte; `bm_set` and `bm_clear` load a
byte and store it back, so another store between the two would be lost. `spin_lock` and
`spin_release` are the lock of `CrepOS.Library.SpinLock`.

The headers of the chunks do not change behind `pmm::init`, so they are part of the call.
`total_used_mem` is left out here: `alloc` adds to it after it has released the lock.
-/

set_option autoImplicit false

namespace CrepOS.Model

open CrepOS.Library

/-- The calls of a chunk; `base` is relative to it. -/
inductive ChunkCall
  | alloc (c : MemChunk) (cnt align : ℕ)
  | free (c : MemChunk) (base cnt : ℕ)
  deriving DecidableEq, Repr

/-- The call divides by zero.
SRCLINE: kernel/mm/pmm.cpp:102 -/
def ChunkCall.Traps : ChunkCall → Prop
  | .alloc _ _ align => wrap (align * pageSize) = 0
  | .free _ _ _ => False

/-- The arguments are words and the chunk is one of physical pages. -/
def ChunkCall.Fits : ChunkCall → Prop
  | .alloc c _ align => align < 2 ^ 64 ∧ c.pageCnt ≤ 2 ^ 63
  | .free _ _ _ => True

/-- What they return. -/
inductive ChunkResult
  | address (a : ℕ)
  | freed
  deriving DecidableEq, Repr

/-- Where a call is, between two accesses: at the trap of the division, at the condition of the
outer loop, at that of the inner loop, before the load and before the store of a `bm_set` or of a
`bm_clear`. -/
inductive ChunkLocal
  | trap
  | outer (c : MemChunk) (cnt align i allocBase : ℕ)
  | inner (c : MemChunk) (cnt align i allocBase j count : ℕ)
  | setLoad (c : MemChunk) (cnt i allocBase z : ℕ)
  | setStore (c : MemChunk) (cnt i allocBase z : ℕ) (b : Byte)
  | clearLoad (c : MemChunk) (i stop : ℕ)
  | clearStore (c : MemChunk) (i stop : ℕ) (b : Byte)
  deriving DecidableEq, Repr

/-- What a call does before its first access.
SRCLINE: kernel/mm/pmm.cpp:102-105, 128 -/
def ChunkCall.enter : ChunkCall → ChunkLocal
  | .alloc c cnt align =>
    if wrap (align * pageSize) = 0 then .trap
    else .outer c cnt align (c.bitBase align) (c.allocBase align)
  | .free c base cnt =>
    let i := ofSigned (divRoundup (toSigned base) pageSize)
    .clearLoad c i (wrap (i + cnt))

/-- One access. A trapped processor stays in the exception handler, which does not return.
SRCLINE: kernel/mm/pmm.cpp:105-123, 128-131 -/
def chunkAccess (m : Memory) : ChunkLocal → Memory × (ChunkLocal ⊕ ChunkResult)
  | .trap => (m, .inl .trap)
  | .outer c cnt align i allocBase =>
    if i < c.pageCnt then (m, .inl (.inner c cnt align i allocBase i 0))
    else (m, .inr (.address minusOne))
  | .inner c cnt align i allocBase j count =>
    if j < wrap (i + cnt) then
      if bmTest m c.bitmap j then
        (m, .inl (.outer c cnt align (wrap (i + align)) (wrap (allocBase + align * pageSize))))
      else if count + 1 = cnt then (m, .inl (.setLoad c cnt i allocBase 0))
      else (m, .inl (.inner c cnt align i allocBase (j + 1) (count + 1)))
    else (m, .inl (.outer c cnt align (wrap (i + align)) allocBase))
  | .setLoad c cnt i allocBase z =>
    if z < cnt then (m, .inl (.setStore c cnt i allocBase z (m (c.bitmap + (i + z) / 8))))
    else (m, .inr (.address allocBase))
  | .setStore c cnt i allocBase z b =>
    (Function.update m (c.bitmap + (i + z) / 8) (b ||| 1#8 <<< ((i + z) % 8)),
      .inl (.setLoad c cnt i allocBase (z + 1)))
  | .clearLoad c i stop =>
    if i < stop then (m, .inl (.clearStore c i stop (m (c.bitmap + i / 8))))
    else (m, .inr .freed)
  | .clearStore c i stop b =>
    (Function.update m (c.bitmap + i / 8) (b &&& ~~~(1#8 <<< (i % 8))),
      .inl (.clearLoad c (i + 1) stop))

/-- The code under `pmm_lock`. -/
def chunkCode : LockedCode Memory ChunkCall ChunkLocal ChunkResult := ⟨ChunkCall.enter, chunkAccess⟩

end CrepOS.Model
