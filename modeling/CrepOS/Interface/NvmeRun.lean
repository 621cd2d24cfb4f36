import CrepOS.Library.Run
import CrepOS.Model.NvmeMsd
import CrepOS.Model.NvmeQueue

/-!
# Commands that go to the right controller

Controllers are initialised in any order, and between that the msd objects are read and written.
-/

set_option autoImplicit false

namespace CrepOS.Interface

open CrepOS.Library CrepOS.Model

/-- A step. -/
inductive NvmeUse
  /-- The constructor for a controller. -/
  | initialise (c : NvmeController)
  /-- A read or a write of an msd object. -/
  | use (k : ℕ) (t : NvmeTransfer)

/-- What a step does. -/
def routingStep (st : NvmeDriver) : NvmeUse → Option NvmeDriver
  | .initialise c => st.construct c
  | .use k t => (st.msds[k]?).bind fun m => st.transfer m t

/-- The driver before any controller is initialised, with `n` CPUs. -/
def noControllers (n : ℕ) : NvmeDriver := ⟨[], List.replicate n none, [], []⟩

/-- The command is on a queue of the controller of the msd object, and names the namespace that the object is
for. -/
def RoutedTo (st : NvmeDriver) (c : IssuedRw) : Prop :=
  c.queue.parent = c.msd.deviceIndex ∧ ∃ dev n, st.devices[c.msd.deviceIndex]? = some dev ∧
    dev.namespaceList[c.msd.partitionIndex]? = some n ∧ c.command.nsid = n.nsid

/-- No controller that was initialised after that of the msd object has I/O queues. -/
def OnLatest (st : NvmeDriver) : NvmeUse → Prop
  | .initialise _ => True
  | .use k _ => ∀ m ∈ st.msds[k]?, ∀ dev ∈ st.devices.drop (m.deviceIndex + 1), dev.qidCnt ≤ 1

instance (st : NvmeDriver) : (a : NvmeUse) → Decidable (OnLatest st a)
  | .initialise _ => inferInstanceAs (Decidable True)
  | .use k _ => inferInstanceAs (Decidable (∀ m ∈ st.msds[k]?, ∀ dev ∈ st.devices.drop (m.deviceIndex + 1), dev.qidCnt ≤ 1))

/-! ## Runs of a driver and a controller

The driver calls `send_cmd` again and again; the controller executes a command at any moment after its
submission. A state keeps what an observer records: the statuses of the commands that have completed,
in order, and for each return of `send_cmd` what the claims about it speak of. -/

/-- A return of `send_cmd`: the value, the status with which its command has completed, if it has, and
the indices and phases of both parties after it. -/
structure SendReturn where
  value : BitVec 16
  status : Option (BitVec 15)
  cqHead : ℕ
  phase : ℕ
  cqTail : ℕ
  controllerPhase : ℕ
  deriving DecidableEq

/-- The call returned the status of its own command, and the driver is in step with the controller. -/
def SendReturn.Correct (r : SendReturn) : Prop :=
  (∃ status, r.status = some status ∧ (r.value = 0 ↔ status = 0) ∧
    (status ≠ 0 → r.value >>> 1 = status.setWidth 16)) ∧
  r.cqHead = r.cqTail ∧ r.phase = r.controllerPhase

/-- `waiting`: the driver is in the loop of `send_cmd`. -/
structure NvmeState (C : Type) where
  queue : Queue C
  controller : Controller
  waiting : Bool
  sent : ℕ
  posted : List (BitVec 15)
  returns : List SendReturn

/-- The steps. -/
inductive NvmeOp (C : Type)
  /-- The driver calls `send_cmd`. -/
  | send (cmd : C)
  /-- The driver looks at the completion ring. -/
  | poll
  /-- The controller executes a command. -/
  | complete (status : BitVec 15)

variable {C : Type}

/-- What a step does. -/
def NvmeState.exec (st : NvmeState C) : NvmeOp C → Option (NvmeState C)
  | .send cmd =>
    if st.waiting then none
    else some { st with queue := st.queue.submit cmd, waiting := true, sent := st.sent + 1 }
  | .poll =>
    if st.waiting then
      match st.queue.poll with
      | none => some st
      | some (q, value) => some { st with
          queue := q
          waiting := false
          returns := st.returns ++ [⟨value, st.posted[st.returns.length]?, q.cqHead, q.phase,
            st.controller.cqTail, st.controller.phase⟩] }
    else none
  | .complete status =>
    match st.controller.complete st.queue status with
    | none => none
    | some (c, q) => some { st with controller := c, queue := q, posted := st.posted ++ [status] }

/-- A new queue. `queue_entries` comes from 16 bits of a register. -/
def NvmeState.Initial (st : NvmeState C) : Prop :=
  (∃ entries submission completion, 2 ≤ entries ∧ entries ≤ 0xffff ∧
    st.queue = Queue.init entries submission completion) ∧
  st.controller = ⟨0, 0, 1⟩ ∧ st.waiting = false ∧ st.sent = 0 ∧ st.posted = [] ∧ st.returns = []

/-- The condition on the ring: no entry has the phase tag of the first round. -/
def NvmeState.RingClear (st : NvmeState C) : Prop :=
  ∀ i < st.queue.entries, (st.queue.completionQueue i &&& 1).toNat = 0

/-- The condition on a step: commands do not fail. -/
def NvmeOp.Sound : NvmeOp C → Prop
  | .complete status => status = 0
  | _ => True

instance NvmeOp.decidableSound (op : NvmeOp C) : Decidable op.Sound :=
  match op with
  | .complete status => inferInstanceAs (Decidable (status = 0))
  | .send _ | .poll => .isTrue trivial

/-- The steps that meet the condition. -/
def nvmeStep : NvmeState C → NvmeOp C → NvmeState C → Prop :=
  Guarded (fun _ op => op.Sound) fun st op st' => st.exec op = some st'

end CrepOS.Interface
