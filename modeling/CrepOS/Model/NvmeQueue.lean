import Mathlib.Data.Int.ModEq
import Mathlib.Tactic.Common

/-!
# The queues of an NVMe device, `drivers/nvme/nvme.cpp`

`queue::send_cmd` writes a command to the submission ring and rings the doorbell (`submit`), and then
polls the completion ring until the phase tag of the next entry is the one it expects (`poll`). Of a
completion only the status word is modelled: bit 0 is the phase tag. The members `sq_head` and
`cq_tail` of the queue are never used.

The controller is described by what it has to do: it executes the commands in order and posts one
completion for each at its own tail, with a phase tag that it inverts when the tail wraps.
-/

set_option autoImplicit false

namespace CrepOS.Model

/-- `nvme::queue`, with the rings and the doorbells it points to and `queue_entries` of its parent.
SRCLINE: kernel/drivers/nvme/nvme.hpp:265-285 -/
structure Queue (C : Type) where
  entries : ℕ
  submissionQueue : ℕ → C
  completionQueue : ℕ → BitVec 16
  submissionDoorbell : ℕ
  completionDoorbell : ℕ
  sqTail : ℕ
  cqHead : ℕ
  phase : ℕ

/-- `queue::queue`. The rings contain whatever their pages contained.
SRCLINE: kernel/drivers/nvme/nvme.cpp:284-289 -/
def Queue.init {C : Type} (entries : ℕ) (submissionQueue : ℕ → C)
    (completionQueue : ℕ → BitVec 16) : Queue C where
  entries := entries
  submissionQueue := submissionQueue
  completionQueue := completionQueue
  submissionDoorbell := 0
  completionDoorbell := 0
  sqTail := 0
  cqHead := 0
  phase := 1

/-- The first part of `queue::send_cmd`; the doorbells have 32 bits.
SRCLINE: kernel/drivers/nvme/nvme.cpp:292-296 -/
def Queue.submit {C : Type} (q : Queue C) (cmd : C) : Queue C :=
  let sqTail := if q.sqTail + 1 = q.entries then 0 else q.sqTail + 1
  { q with
    submissionQueue := Function.update q.submissionQueue q.sqTail cmd
    sqTail := sqTail
    submissionDoorbell := sqTail % 2 ^ 32 }

/-- One iteration of the loop of `queue::send_cmd` and, if it ends the loop, the rest of the function
with the value it returns. A command that failed leaves the head where it is.
SRCLINE: kernel/drivers/nvme/nvme.cpp:298-316 -/
def Queue.poll {C : Type} (q : Queue C) : Option (Queue C × BitVec 16) :=
  let status := q.completionQueue q.cqHead
  if (status &&& 1).toNat = q.phase then
    if status >>> 1 ≠ 0 then some (q, status)
    else
      let last := q.cqHead + 1 = q.entries
      let cqHead := if last then 0 else q.cqHead + 1
      let phase := if last then (if q.phase = 0 then 1 else 0) else q.phase
      some ({ q with cqHead := cqHead, phase := phase, completionDoorbell := cqHead % 2 ^ 32 }, 0)
  else none

/-- The controller's side of a queue. -/
structure Controller where
  sqHead : ℕ
  cqTail : ℕ
  phase : ℕ

/-- The status word of a completion. -/
def statusWord (status : BitVec 15) (phase : ℕ) : BitVec 16 :=
  status.setWidth 16 <<< 1 ||| BitVec.ofNat 16 phase

/-- The controller executes the next command, if there is one, and posts its status. -/
def Controller.complete {C : Type} (c : Controller) (q : Queue C) (status : BitVec 15) :
    Option (Controller × Queue C) :=
  if c.sqHead = q.submissionDoorbell then none
  else
    let last := c.cqTail + 1 = q.entries
    some (⟨if c.sqHead + 1 = q.entries then 0 else c.sqHead + 1,
        if last then 0 else c.cqTail + 1,
        if last then (if c.phase = 0 then 1 else 0) else c.phase⟩,
      { q with completionQueue :=
          Function.update q.completionQueue c.cqTail (statusWord status c.phase) })

end CrepOS.Model
