import CrepOS.Analysis.SchedOvertaking

/-!
# Work and the choice of a task

`reschedule` chooses the task before it looks at the threads, so that it dispatches a thread if and only if
the waiting task with the largest idle counter has a thread that waits (`reschedule_conserves_iff`). A task
that was made and has no thread yet waits and becomes idle as the others do, and a dispatch never resets its
counter.
-/

set_option autoImplicit false

namespace CrepOS.Analysis

open CrepOS.Model CrepOS.Interface

variable {C : Type} {n : ℕ} {s : Sched C}

/-- INTERNAL: if a task waits, the choice is the one that has been idle for longest.
SRCLINE: kernel/sched/scheduler.cpp:127-141 -/
theorem nextPid_longestIdle (h : Orderly n s) (hn : n + 1 < 2 ^ 64) {k : ℤ} (hk : k ∈ s.taskList.tags)
    (hwait : taskStatus s k = taskWaiting) : LongestIdle s (nextPid s.taskList).2 := by
  have hwrap : ∀ k ∈ s.taskList.tags, ((s.taskList.data k).idleCnt + 1) % 2 ^ 64 =
      (s.taskList.data k).idleCnt + 1 := by
    intro k hk
    have hle := h.taskIdle k hk
    exact Nat.mod_eq_of_lt (by omega)
  have hfirst := @pickIdle_first Task Task.idleCnt (fun t n => { t with idleCnt := n }) Task.status
    Task.pid (fun _ _ => rfl) (fun _ _ => rfl) (fun _ _ => rfl) s.taskList.tags h.nodup
    s.taskList.data 0 (-1)
  rcases hfirst with ⟨-, hle⟩ | ⟨before, p, later, hsplit, hwait', hret, -, hbefore, hlater⟩
  · have hcnt := hle k hk hwait
    rw [hwrap k hk] at hcnt
    omega
  · have hp : p ∈ s.taskList.tags := by simp [hsplit]
    have hname : (nextPid s.taskList).2 = p := hret.trans (h.name_of_waiting hp hwait').1
    rw [hname]
    refine ⟨before, later, hsplit, hwait', fun j hj hj' => ?_, fun j hj hj' => ?_⟩
    · have hcnt := hbefore j hj hj'
      rw [hwrap j (by simp [hsplit, hj]), hwrap p hp] at hcnt
      omega
    · have hcnt := hlater j hj hj'
      rw [hwrap j (by simp [hsplit, hj]), hwrap p hp] at hcnt
      omega

/-- INTERNAL: of two such tasks neither comes before the other. -/
theorem longestIdle_not_before {p q : ℤ} {before later before' later' : List ℤ} (hwait : taskStatus s p = taskWaiting)
    (hwait' : taskStatus s q = taskWaiting)
    (hlater : ∀ k ∈ later, taskStatus s k = taskWaiting →
      (s.taskList.data k).idleCnt ≤ (s.taskList.data p).idleCnt)
    (hbefore' : ∀ k ∈ before', taskStatus s k = taskWaiting →
      (s.taskList.data k).idleCnt < (s.taskList.data q).idleCnt)
    {mid : List ℤ} (hsplit : before' = before ++ mid) (hrest : p :: later = mid ++ q :: later') : p = q := by
  cases mid with
  | nil => exact (List.cons.inj hrest).1
  | cons first mid =>
    obtain ⟨rfl, rfl⟩ := List.cons.inj hrest
    have hlt := hbefore' p (by simp [hsplit]) hwait
    have hle := hlater q (by simp) hwait'
    omega

/-- INTERNAL: at most one task has been idle for longest. -/
theorem longestIdle_unique {p q : ℤ} (hp : LongestIdle s p) (hq : LongestIdle s q) : p = q := by
  obtain ⟨before, later, hsplit, hwait, hbefore, hlater⟩ := hp
  obtain ⟨before', later', hsplit', hwait', hbefore', hlater'⟩ := hq
  rcases List.append_eq_append_iff.mp (hsplit.symm.trans hsplit') with ⟨mid, hmid, hrest⟩ | ⟨mid, hmid, hrest⟩
  · exact longestIdle_not_before hwait hwait' hlater hbefore' hmid hrest
  · exact (longestIdle_not_before hwait' hwait hlater' hbefore hmid hrest).symm

variable [DecidableEq C]

/-- INTERNAL: a thread of the chosen task is found if and only if one waits.
SRCLINE: kernel/sched/scheduler.cpp:158-172 -/
theorem nextTid_eq_iff {m : Map ℤ Thread} (hnodup : m.tags.Nodup)
    (hnames : ∀ t ∈ m.tags, (m.data t).tid = t ∧ 0 ≤ t) (hidle : ∀ t ∈ m.tags, (m.data t).idleCnt ≤ n)
    (hn : n + 1 < 2 ^ 64) :
    (nextTid m).2 = -1 ↔ ∀ t ∈ m.tags, (m.data t).status ≠ taskWaiting := by
  have hmax := @pickIdle_max Thread Thread.idleCnt (fun t n => { t with idleCnt := n })
    Thread.status Thread.tid (fun _ _ => rfl) (fun _ _ => rfl) (fun _ _ => rfl) m.tags hnodup
    m.data 0 (-1)
  constructor
  · intro hnone t ht hwait
    rcases hmax with ⟨-, hle⟩ | ⟨q, hq, -, hret, -, -⟩
    · have hcnt := hle t ht hwait
      have hbound := hidle t ht
      rw [Nat.mod_eq_of_lt (by omega)] at hcnt
      omega
    · have hret' : (nextTid m).2 = (m.data q).tid := hret
      rw [(hnames q hq).1] at hret'
      have hpos := (hnames q hq).2
      omega
  · intro hnowait
    rcases hmax with ⟨hret, -⟩ | ⟨q, hq, hwait, -, -, -⟩
    · exact hret
    · exact absurd hwait (hnowait q hq)

/-- INTERNAL: the call dispatches a thread if and only if one of the chosen task waits.
SRCLINE: kernel/sched/scheduler.cpp:121-218 -/
theorem dispatched_iff (h : Orderly n s) (hn : n + 1 < 2 ^ 64) {p : ℤ} (hp : p ∈ s.taskList.tags)
    (hchoice : (nextPid s.taskList).2 = p) (hne : p ≠ -1) (c : C) (regs : Regs) (m : Msrs)
    (junkTask : Task) (junk : Thread) :
    (SchedOp.reschedule c regs m junkTask junk).dispatched s ≠ none ↔ HasWaitingThread s p := by
  obtain ⟨htags, hdata, -⟩ := nextPid_turn h hn
  have hthreads : ((nextPid s.taskList).1.data p).threads = (s.taskList.data p).threads := by
    rw [hdata p hp]
  have hbusy : ¬ ((nextPid s.taskList).2 = -1 ∧ (s.cpus c).pid = -1) := by
    rw [hchoice]
    exact fun hidle => hne hidle.1
  have hchosen : (if (nextPid s.taskList).2 = -1 then (s.cpus c).pid else (nextPid s.taskList).2) = p := by
    rw [hchoice]
    exact if_neg hne
  have hp' : p ∈ (nextPid s.taskList).1.tags := htags ▸ hp
  have hfound := nextTid_eq_iff (m := (s.taskList.data p).threads) (h.threadsNodup p hp)
    (fun t ht => ⟨(h.threads p hp t ht).1, (h.threads p hp t ht).2.1⟩) (h.threadIdle p hp) hn
  rw [← hthreads] at hfound
  by_cases htid : (nextTid ((nextPid s.taskList).1.data p).threads).2 = -1
  · have hresult : ∃ s' m', reschedule s c regs m junkTask junk = (s', .resume m') := by
      simp only [reschedule, if_neg hbusy, hchosen, map_touch_of_mem hp', if_pos htid]
      exact ⟨_, _, rfl⟩
    obtain ⟨s', m', hresult⟩ := hresult
    rw [dispatched_resume hresult]
    have hnowait := hfound.mp htid
    rw [hthreads] at hnowait
    refine ⟨fun hnone => absurd rfl hnone, ?_⟩
    rintro ⟨t, ht, hwait⟩
    exact absurd hwait (hnowait t ht)
  · have hresult : ∃ s' q m', reschedule s c regs m junkTask junk = dispatch s' c p q m' := by
      simp only [reschedule, if_neg hbusy, hchosen, map_touch_of_mem hp', if_neg htid]
      exact ⟨_, _, _, rfl⟩
    obtain ⟨s', q, m', hresult⟩ := hresult
    rw [dispatched_dispatch hresult]
    refine ⟨fun _ => ?_, fun _ => Option.some_ne_none _⟩
    by_contra hno
    apply htid
    apply hfound.mpr
    rw [hthreads]
    intro t ht hwait
    exact hno ⟨t, ht, hwait⟩

/-- **Work conservation**: in a state that was reached by making tasks and threads and by rescheduling, on
any processors, and in which a thread of a waiting task waits, a call of `reschedule` dispatches a thread if
and only if a thread of the task waits that has been idle for longest.
SRCLINE: kernel/sched/scheduler.cpp:121-218 -/
theorem reschedule_conserves_iff (junk : Task) (cpus : C → Cpu) (ops : List (SchedOp C))
    (hlen : ops.length + 1 < 2 ^ 64) (hok : ∀ o ∈ ops, o.PlaceholderOk)
    (hwork : WorkWaits (afterOps (Sched.init junk cpus) ops)) (c : C) (regs : Regs) (m : Msrs)
    (junkTask : Task) (junkThread : Thread) :
    (SchedOp.reschedule c regs m junkTask junkThread).dispatched (afterOps (Sched.init junk cpus) ops) ≠
        none ↔
      ∃ p, LongestIdle (afterOps (Sched.init junk cpus) ops) p ∧
        HasWaitingThread (afterOps (Sched.init junk cpus) ops) p := by
  obtain ⟨horder, -, -⟩ := orderly_run ops (orderly_init junk cpus) (by omega) hok
  obtain ⟨k, hk, hwait, -⟩ := hwork
  have hlongest := nextPid_longestIdle horder (by omega) hk hwait
  obtain ⟨before, later, hsplit, hwait', -, -⟩ := id hlongest
  have hp : (nextPid (afterOps (Sched.init junk cpus) ops).taskList).2 ∈
      (afterOps (Sched.init junk cpus) ops).taskList.tags := by
    rw [hsplit]
    simp
  have hpos := (horder.name_of_waiting hp hwait').2
  rw [dispatched_iff horder (by omega) hp rfl (by omega)]
  constructor
  · intro hhas
    exact ⟨_, hlongest, hhas⟩
  · rintro ⟨p, hp', hhas⟩
    rwa [longestIdle_unique hlongest hp']

/-- Two tasks with their threads: there is work, and the next call dispatches a thread. -/
theorem reschedule_conserves_twoTasks :
    WorkWaits (afterOps (Sched.init zeroTask fun _ => ⟨0, 0, 0, 0⟩) twoTasks) ∧
    (tick true).dispatched (afterOps (Sched.init zeroTask fun _ => ⟨0, 0, 0, 0⟩) twoTasks) ≠ none := by
  have hwork : WorkWaits (afterOps (Sched.init zeroTask fun _ => ⟨0, 0, 0, 0⟩) twoTasks) :=
    ⟨0, by decide, by decide, 0, by decide, by decide⟩
  refine ⟨hwork, ?_⟩
  apply (reschedule_conserves_iff zeroTask (fun _ => ⟨0, 0, 0, 0⟩) twoTasks (by decide) (by decide) hwork
    true zeroRegs ⟨1, 2, 3⟩ zeroTask zeroThread).mpr
  exact ⟨0, ⟨[-1], [1], by decide, by decide, by decide, by decide⟩, 0, by decide, by decide⟩

/-- A task without a thread, and after it one with a thread. -/
def emptyTaskFirst : List (SchedOp Bool) :=
  [.createTask (-1) none 0x1000 zeroTask zeroTask,
    .createTask (-1) none 0x1000 zeroTask zeroTask,
    .createThread 1 0x200000 8 0xffff800000000000 0x5000 0 [] [] zeroTask zeroThread]

/-- The task without a thread comes first and nothing is dispatched, though a thread waits. -/
theorem reschedule_starves :
    (∀ op ∈ emptyTaskFirst, op.JunkOk) ∧
    WorkWaits (afterOps (Sched.init zeroTask fun _ => ⟨0, 0, 0, 0⟩) emptyTaskFirst) ∧
    (tick true).dispatched (afterOps (Sched.init zeroTask fun _ => ⟨0, 0, 0, 0⟩) emptyTaskFirst) = none := by
  refine ⟨?_, ⟨1, by decide, by decide, 0, by decide, by decide⟩, rfl⟩
  intro op hop
  simp only [emptyTaskFirst, List.mem_cons, List.not_mem_nil, or_false] at hop
  rcases hop with rfl | rfl | rfl
  · exact ⟨by decide, by decide⟩
  · exact ⟨by decide, by decide⟩
  · exact ⟨by decide, by decide⟩

end CrepOS.Analysis
