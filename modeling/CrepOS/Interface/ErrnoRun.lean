import CrepOS.Interface.SchedTurns

/-!
# `errno` on one processor

The steps of one processor: those of the scheduler, and calls of `set_errno` by the thread that runs. The
log says which thread has set `errno` to what, and which one was dispatched. `lastErrno` is the value that a
thread has set last, and what `get_errno` should return to it.
-/

set_option autoImplicit false

namespace CrepOS.Interface

open CrepOS.Model

/-- The steps of one processor. -/
inductive ErrnoOp
  | sched (op : SchedOp Unit)
  | setErrno (errno : Word)

/-- What happens to a thread of a task. -/
inductive ErrnoEvent
  | set (pid tid : ℤ) (errno : Word)
  | dispatched (pid tid : ℤ)
  deriving DecidableEq

/-- The thread of an event, with its task. -/
def ErrnoEvent.thread : ErrnoEvent → ℤ × ℤ
  | .set pid tid _ => (pid, tid)
  | .dispatched pid tid => (pid, tid)

/-- The value that an event sets. -/
def ErrnoEvent.value : ErrnoEvent → Option Word
  | .set _ _ errno => some errno
  | .dispatched _ _ => none

/-- The scheduler and what has happened so far. -/
structure ErrnoTrace where
  sched : Sched Unit
  log : List ErrnoEvent

/-- The thread that runs, and its task. -/
def ErrnoTrace.current (t : ErrnoTrace) : ℤ × ℤ := ((t.sched.cpus ()).pid, (t.sched.cpus ()).tid)

/-- One step, with the event it causes. -/
def ErrnoTrace.exec (t : ErrnoTrace) : ErrnoOp → ErrnoTrace
  | .sched op =>
    ⟨op.after t.sched, t.log ++ ((op.dispatched t.sched).map fun x => ErrnoEvent.dispatched x.1 x.2).toList⟩
  | .setErrno errno =>
    ⟨Model.setErrno t.sched () errno, t.log ++ [.set t.current.1 t.current.2 errno]⟩

/-- The processor before the first step. -/
def ErrnoTrace.init (junk : Task) (cpu : Cpu) : ErrnoTrace := ⟨Sched.init junk fun _ => cpu, []⟩

/-- The trace after some steps. -/
def ErrnoTrace.run (t : ErrnoTrace) (ops : List ErrnoOp) : ErrnoTrace := ops.foldl ErrnoTrace.exec t

/-- What has happened to a thread. -/
def eventsOf (thread : ℤ × ℤ) (log : List ErrnoEvent) : List ErrnoEvent :=
  log.filter fun e => e.thread = thread

/-- The value that the thread has set last, `0` if it has not set one. -/
def lastErrno (thread : ℤ × ℤ) (log : List ErrnoEvent) : Word :=
  (((eventsOf thread log).filterMap ErrnoEvent.value).getLast?).getD 0

/-- The thread has set a value since it was dispatched last. -/
def SetSinceDispatch (thread : ℤ × ℤ) (log : List ErrnoEvent) : Prop :=
  ∃ errno, (eventsOf thread log).getLast? = some (.set thread.1 thread.2 errno)

end CrepOS.Interface
