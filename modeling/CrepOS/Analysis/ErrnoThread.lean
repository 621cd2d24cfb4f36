import CrepOS.Interface.ErrnoRun
import CrepOS.Analysis.SchedOrder

/-!
# `errno` of a thread

`reschedule` loads the `errno` of a thread into the record of the processor, but nothing stores it when the
thread is interrupted: the member of the thread stays `0` (`ErrnoZero`). So a thread reads what it has set
last if and only if it has set it since its last dispatch, or that was `0` (`errno_own_iff`).
-/

set_option autoImplicit false

namespace CrepOS.Analysis

open CrepOS.Model CrepOS.Interface

/-! ## The member of a thread -/

section Zero

variable {C : Type}

/-- The `errno` of all threads in a list of tasks is `0`. -/
def ErrnoZero (m : Map ℤ Task) : Prop :=
  ∀ k ∈ m.tags, ∀ t ∈ (m.data k).threads.tags, ((m.data k).threads.data t).errno = 0

/-- INTERNAL: a new element has no threads. -/
theorem ErrnoZero.touch {m : Map ℤ Task} (h : ErrnoZero m) (k : ℤ) (junk : Task) :
    ErrnoZero (m.touch k (Task.new junk)) := by
  unfold Map.touch
  by_cases hk : k ∈ m.tags
  · rwa [if_pos hk]
  · rw [if_neg hk]
    intro j hj t ht
    dsimp only at ht ⊢
    by_cases hjk : j = k
    · rw [hjk, Function.update_self] at ht
      cases ht
    · rw [Function.update_of_ne hjk] at ht ⊢
      rcases List.mem_append.mp hj with hj | hj
      · exact h j hj t ht
      · exact absurd (List.mem_singleton.mp hj) hjk

/-- INTERNAL: an element is replaced. -/
theorem ErrnoZero.put {m : Map ℤ Task} (h : ErrnoZero m) (k : ℤ) {e : Task}
    (he : k ∈ m.tags → ∀ t ∈ e.threads.tags, (e.threads.data t).errno = 0) : ErrnoZero (m.put k e) := by
  intro j hj t ht
  have hj' : j ∈ m.tags := hj
  by_cases hjk : j = k
  · subst hjk
    rw [Map.put] at ht ⊢
    simp only [Function.update_self] at ht ⊢
    exact he hj' t ht
  · rw [Map.put] at ht ⊢
    simp only [Function.update_of_ne hjk] at ht ⊢
    exact h j hj' t ht

/-- INTERNAL: a new thread has `errno` `0`. -/
theorem threads_touch {m : Map ℤ Thread} (h : ∀ t ∈ m.tags, (m.data t).errno = 0) (k : ℤ) (junk : Thread) :
    ∀ t ∈ (m.touch k (Thread.new junk)).tags, ((m.touch k (Thread.new junk)).data t).errno = 0 := by
  intro t ht
  unfold Map.touch at ht ⊢
  by_cases hk : k ∈ m.tags
  · rw [if_pos hk] at ht ⊢
    exact h t ht
  · rw [if_neg hk] at ht ⊢
    by_cases htk : t = k
    · rw [htk]
      simp only [Function.update_self]
      rfl
    · simp only [Function.update_of_ne htk]
      rcases List.mem_append.mp ht with ht | ht
      · exact h t ht
      · exact absurd (List.mem_singleton.mp ht) htk

/-- INTERNAL: a thread is replaced by one with the same `errno`. -/
theorem threads_put {m : Map ℤ Thread} (h : ∀ t ∈ m.tags, (m.data t).errno = 0) (k : ℤ) {e : Thread}
    (he : e.errno = 0) : ∀ t ∈ (m.put k e).tags, ((m.put k e).data t).errno = 0 := by
  intro t ht
  rw [Map.put]
  by_cases htk : t = k
  · rw [htk]
    simp only [Function.update_self]
    exact he
  · simp only [Function.update_of_ne htk]
    exact h t ht

/-- INTERNAL: nothing but the counters changes when a task is chosen.
SRCLINE: kernel/sched/scheduler.cpp:127-141 -/
theorem ErrnoZero.nextPid {m : Map ℤ Task} (h : ErrnoZero m) : ErrnoZero (nextPid m).1 := by
  intro k hk t ht
  have hthreads : ((Model.nextPid m).1.data k).threads = (m.data k).threads :=
    pickIdle_data Task.idleCnt (fun t n => { t with idleCnt := n }) Task.status Task.pid Task.threads
      (fun _ _ => rfl) _ _ _ _ k
  rw [hthreads] at ht ⊢
  exact h k hk t ht

/-- INTERNAL: nothing but the counters changes when a thread is chosen.
SRCLINE: kernel/sched/scheduler.cpp:158-172 -/
theorem nextTid_errno {m : Map ℤ Thread} (h : ∀ t ∈ m.tags, (m.data t).errno = 0) :
    ∀ t ∈ (nextTid m).1.tags, ((nextTid m).1.data t).errno = 0 := by
  intro t ht
  have herrno : ((nextTid m).1.data t).errno = (m.data t).errno :=
    pickIdle_data Thread.idleCnt (fun t n => { t with idleCnt := n }) Thread.status Thread.tid
      Thread.errno (fun _ _ => rfl) _ _ _ _ t
  rw [herrno]
  exact h t ht

/-- INTERNAL: the interrupted context is stored without `errno`, and no thread gets lost.
SRCLINE: kernel/sched/scheduler.cpp:183-193 -/
theorem ErrnoZero.saveLast {m : Map ℤ Task} (h : ErrnoZero m) (cpu : Cpu) (regs : Regs) (msrs : Msrs)
    (junkTask : Task) (junk : Thread) :
    ErrnoZero (saveLast m cpu regs msrs junkTask junk) ∧
      ∀ k ∈ m.tags, ∀ t ∈ (m.data k).threads.tags,
        k ∈ (Model.saveLast m cpu regs msrs junkTask junk).tags ∧
          t ∈ ((Model.saveLast m cpu regs msrs junkTask junk).data k).threads.tags := by
  unfold Model.saveLast
  by_cases hrun : cpu.tid ≠ -1 ∧ cpu.pid ≠ -1
  · rw [if_pos hrun]
    dsimp only
    have htouch := h.touch cpu.pid junkTask
    have hthreads := threads_touch (htouch cpu.pid (mem_touch m cpu.pid _)) cpu.tid junk
    constructor
    · apply htouch.put
      intro _
      apply threads_put hthreads
      exact hthreads cpu.tid (mem_touch _ _ _)
    · intro k hk t ht
      obtain ⟨hk', hsame⟩ := touch_old m cpu.pid (Task.new junkTask) hk
      refine ⟨hk', ?_⟩
      by_cases hkp : k = cpu.pid
      · subst hkp
        simp only [Map.put, Function.update_self]
        apply (touch_old _ _ _ _).1
        rwa [hsame]
      · simp only [Map.put, Function.update_of_ne hkp]
        rwa [hsame]
  · rw [if_neg hrun]
    exact ⟨h, fun k hk t ht => ⟨hk, ht⟩⟩

variable {s : Sched C}

/-- INTERNAL: a new task has no threads.
SRCLINE: kernel/sched/scheduler.cpp:12-32 -/
theorem createTask_errno (h : ErrnoZero s.taskList) (ppid : ℤ) (pageMap : Option Word) (kernelMapping : Word)
    (junk₁ junk₂ : Task) :
    ErrnoZero (createTask s ppid pageMap kernelMapping junk₁ junk₂).1.taskList := by
  have htouch := (h.touch ppid junk₁).touch s.taskCnt junk₁
  apply htouch.put
  intro _ t ht
  cases ht

/-- INTERNAL: a new thread has `errno` `0`.
SRCLINE: kernel/sched/scheduler.cpp:34-119 -/
theorem createThread_errno (h : ErrnoZero s.taskList) (pid : ℤ) (rip : Word) (cs : BitVec 16)
    (highVma kernelStack mmapped : Word) (envp argv : List ℕ) (junkTask : Task) (junk : Thread) :
    ErrnoZero (createThread s pid rip cs highVma kernelStack mmapped envp argv junkTask junk).1.taskList := by
  have htouch := h.touch pid junkTask
  unfold createThread
  dsimp only
  by_cases hpid : ((s.taskList.touch pid (Task.new junkTask)).data pid).pid = -1
  · rw [if_pos hpid]
    exact htouch
  · rw [if_neg hpid]
    apply htouch.put
    intro _
    apply threads_put
    · exact threads_touch (htouch pid (mem_touch _ _ _)) _ junk
    · rfl

variable [DecidableEq C]

/-- INTERNAL: the `errno` of the thread that is dispatched gets into the record of the processor.
SRCLINE: kernel/sched/scheduler.cpp:195-217 -/
theorem dispatch_errno (h : ErrnoZero s.taskList) (c : C) {p q : ℤ} (m : Msrs) (hp : p ∈ s.taskList.tags)
    (hq : q ∈ (s.taskList.data p).threads.tags) :
    ErrnoZero (dispatch s c p q m).1.taskList ∧ ((dispatch s c p q m).1.cpus c).errno = 0 := by
  have hzero := h p hp q hq
  constructor
  · apply h.put
    intro _
    exact threads_put (h p hp) q hzero
  · simp only [dispatch, Function.update_self]
    exact hzero

/-- INTERNAL: a call of `reschedule` that dispatches a thread leaves the processor with the `errno` `0`;
otherwise it leaves the record of the processor alone.
SRCLINE: kernel/sched/scheduler.cpp:121-218 -/
theorem reschedule_errno (h : ErrnoZero s.taskList) (c : C) (regs : Regs) (m : Msrs) (junkTask : Task)
    (junk : Thread) :
    ErrnoZero (reschedule s c regs m junkTask junk).1.taskList ∧
      (((SchedOp.reschedule c regs m junkTask junk).dispatched s = none ∧
          (reschedule s c regs m junkTask junk).1.cpus c = s.cpus c) ∨
        ∃ p q, (SchedOp.reschedule c regs m junkTask junk).dispatched s = some (p, q) ∧
          ((reschedule s c regs m junkTask junk).1.cpus c).pid = p ∧
          ((reschedule s c regs m junkTask junk).1.cpus c).tid = q ∧
          ((reschedule s c regs m junkTask junk).1.cpus c).errno = 0) := by
  have hpicked := h.nextPid
  by_cases hidle : (nextPid s.taskList).2 = -1 ∧ (s.cpus c).pid = -1
  · have hresult : reschedule s c regs m junkTask junk =
        ({ s with taskList := (nextPid s.taskList).1 }, .resume ((m.swapFor regs).swapFor regs)) := by
      simp only [reschedule, if_pos hidle]
    rw [dispatched_resume hresult, hresult]
    exact ⟨hpicked, .inl ⟨rfl, rfl⟩⟩
  · obtain ⟨p, hchosen⟩ : ∃ p, (if (nextPid s.taskList).2 = -1 then (s.cpus c).pid
        else (nextPid s.taskList).2) = p := ⟨_, rfl⟩
    obtain ⟨list, hlist⟩ : ∃ list, (nextPid s.taskList).1.touch p (Task.new junkTask) = list := ⟨_, rfl⟩
    have htouch : ErrnoZero list := hlist ▸ hpicked.touch p junkTask
    have hp : p ∈ list.tags := hlist ▸ mem_touch _ _ _
    have hthreads := nextTid_errno (htouch p hp)
    by_cases htid : (nextTid (list.data p).threads).2 = -1
    · have hresult : reschedule s c regs m junkTask junk =
          ({ s with taskList := list.put p { list.data p with
              threads := (nextTid (list.data p).threads).1 } },
            .resume ((m.swapFor regs).swapFor regs)) := by
        simp only [reschedule, if_neg hidle, hchosen, hlist, if_pos htid]
      rw [dispatched_resume hresult, hresult]
      exact ⟨htouch.put p fun _ => hthreads, .inl ⟨rfl, rfl⟩⟩
    · obtain ⟨q, hq⟩ : ∃ q, (nextTid (list.data p).threads).2 = q := ⟨_, rfl⟩
      rw [hq] at htid
      obtain ⟨threads, hfound⟩ : ∃ threads,
          (nextTid (list.data p).threads).1.touch q (Thread.new junk) = threads := ⟨_, rfl⟩
      have hall := threads_touch hthreads q junk
      rw [hfound] at hall
      have hput : ErrnoZero (list.put p { list.data p with threads := threads }) := htouch.put p fun _ => hall
      have hself : (list.put p { list.data p with threads := threads }).data p =
          { list.data p with threads := threads } := Function.update_self _ _ _
      have hq' : q ∈ ((list.put p { list.data p with threads := threads }).data p).threads.tags := by
        rw [hself, ← hfound]
        exact mem_touch _ _ _
      obtain ⟨hsaved, hkept⟩ := hput.saveLast (s.cpus c) regs (m.swapFor regs) junkTask junk
      have hresult : reschedule s c regs m junkTask junk = dispatch { s with
          taskList := saveLast (list.put p { list.data p with threads := threads }) (s.cpus c) regs
            (m.swapFor regs) junkTask junk } c p q (m.swapFor regs) := by
        simp only [reschedule, if_neg hidle, hchosen, hlist, hq, if_neg htid, hfound, Map.put,
          Function.update_idem]
      obtain ⟨hmem, hmem'⟩ := hkept p hp q hq'
      obtain ⟨hzero, herrno⟩ := dispatch_errno (s := { s with
          taskList := saveLast (list.put p { list.data p with threads := threads }) (s.cpus c) regs
            (m.swapFor regs) junkTask junk }) hsaved c (m.swapFor regs) hmem hmem'
      rw [dispatched_dispatch hresult, hresult]
      refine ⟨hzero, .inr ⟨p, q, rfl, ?_, ?_, herrno⟩⟩
      · simp only [dispatch, Function.update_self]
      · simp only [dispatch, Function.update_self]

end Zero

/-! ## The log -/

theorem eventsOf_append (thread : ℤ × ℤ) (log : List ErrnoEvent) (e : ErrnoEvent) :
    eventsOf thread (log ++ [e]) = if e.thread = thread then eventsOf thread log ++ [e]
      else eventsOf thread log := by
  unfold eventsOf
  rw [List.filter_append]
  by_cases he : e.thread = thread
  · simp [he]
  · simp [he]

/-- The value that the last event of a thread has set, `0` if it has not set one. -/
def latestValue (thread : ℤ × ℤ) (log : List ErrnoEvent) : Word :=
  ((eventsOf thread log).getLast?.bind ErrnoEvent.value).getD 0

theorem latestValue_append {thread : ℤ × ℤ} (log : List ErrnoEvent) {e : ErrnoEvent} (he : e.thread = thread) :
    latestValue thread (log ++ [e]) = e.value.getD 0 := by
  unfold latestValue
  rw [eventsOf_append, if_pos he, List.getLast?_concat]
  rfl

/-- INTERNAL: the value of the last event is the last value if and only if the event sets it, or that is
`0`. -/
theorem latestValue_eq_iff (thread : ℤ × ℤ) (log : List ErrnoEvent) :
    latestValue thread log = lastErrno thread log ↔
      SetSinceDispatch thread log ∨ lastErrno thread log = 0 := by
  have hthread : ∀ e ∈ eventsOf thread log, e.thread = thread := by
    intro e he
    exact of_decide_eq_true (List.mem_filter.mp he).2
  unfold latestValue lastErrno SetSinceDispatch
  rcases List.eq_nil_or_concat (eventsOf thread log) with hnil | ⟨before, e, hlog⟩
  · simp [hnil]
  · have he := hthread e (by simp [hlog])
    rw [hlog, List.concat_eq_append, List.getLast?_concat, List.filterMap_append]
    cases e with
    | set pid tid errno =>
      subst he
      simp [ErrnoEvent.value, ErrnoEvent.thread]
    | dispatched pid tid =>
      simp only [ErrnoEvent.value, List.filterMap_cons, List.filterMap_nil, List.append_nil, Option.bind_some,
        Option.getD_none, Option.some.injEq, reduceCtorEq, exists_false, false_or]
      exact eq_comm

/-! ## Runs -/

/-- **The invariant**: the threads have the `errno` `0`, and the processor has what the last event of the
thread that runs has left. -/
structure ErrnoInv (t : ErrnoTrace) : Prop where
  zero : ErrnoZero t.sched.taskList
  current : (t.sched.cpus ()).pid ≠ -1 → getErrno t.sched () = latestValue t.current t.log

theorem errnoInv_init (junk : Task) (cpu : Cpu) : ErrnoInv (ErrnoTrace.init junk cpu) where
  zero k hk := by cases hk
  current hpid := absurd rfl hpid

/-- INTERNAL: one step keeps the invariant. -/
theorem ErrnoInv.exec {t : ErrnoTrace} (h : ErrnoInv t) (op : ErrnoOp) : ErrnoInv (t.exec op) := by
  cases op with
  | setErrno errno =>
    refine ⟨h.zero, fun _ => ?_⟩
    have hcurrent : (t.exec (.setErrno errno)).current = t.current := by
      simp [ErrnoTrace.current, ErrnoTrace.exec, setErrno]
    rw [hcurrent]
    simp only [ErrnoTrace.exec]
    rw [latestValue_append t.log (by rfl)]
    simp [getErrno, setErrno, ErrnoEvent.value]
  | sched op =>
    cases op with
    | createTask ppid pageMap kernelMapping junk₁ junk₂ =>
      refine ⟨createTask_errno h.zero ppid pageMap kernelMapping junk₁ junk₂, fun hpid => ?_⟩
      have hcurrent := h.current hpid
      simp only [ErrnoTrace.exec, SchedOp.dispatched, Option.map_none, Option.toList_none, List.append_nil]
      exact hcurrent
    | createThread pid rip cs highVma kernelStack mmapped envp argv junkTask junk =>
      have hcpus : (createThread t.sched pid rip cs highVma kernelStack mmapped envp argv junkTask
          junk).1.cpus = t.sched.cpus := by
        unfold createThread
        dsimp only
        split
        · rfl
        · rfl
      refine ⟨createThread_errno h.zero pid rip cs highVma kernelStack mmapped envp argv junkTask junk,
        fun hpid => ?_⟩
      simp only [ErrnoTrace.exec, ErrnoTrace.current, getErrno, SchedOp.after, SchedOp.dispatched,
        Option.map_none, Option.toList_none, List.append_nil, hcpus] at hpid ⊢
      exact h.current hpid
    | reschedule c regs m junkTask junk =>
      obtain ⟨hzero, hcpu⟩ := reschedule_errno h.zero c regs m junkTask junk
      refine ⟨hzero, fun hpid => ?_⟩
      rcases hcpu with ⟨hnone, hsame⟩ | ⟨p, q, hgot, hp, hq, herrno⟩
      · -- nothing is dispatched, and the processor is as before
        simp only [ErrnoTrace.exec, ErrnoTrace.current, getErrno, SchedOp.after, hnone, Option.map_none,
          Option.toList_none, List.append_nil, hsame] at hpid ⊢
        exact h.current hpid
      · simp only [ErrnoTrace.exec, ErrnoTrace.current, getErrno, SchedOp.after, hgot, Option.map_some,
          Option.toList_some, hp, hq, herrno]
        rw [latestValue_append t.log (by rfl)]
        rfl

theorem ErrnoInv.run {t : ErrnoTrace} (h : ErrnoInv t) (ops : List ErrnoOp) : ErrnoInv (t.run ops) := by
  induction ops generalizing t with
  | nil => exact h
  | cons op ops ih => exact ih (h.exec op)

/-- **`errno` of a thread**: after any steps of one processor, the thread that runs reads the value that it
has set last if and only if it has set it since it was dispatched last, or the value is `0`.
SRCLINE: kernel/lib/cpu.cpp:54-62, kernel/sched/scheduler.cpp:183-197 -/
theorem errno_own_iff (junk : Task) (cpu : Cpu) (ops : List ErrnoOp)
    (hruns : (((ErrnoTrace.init junk cpu).run ops).sched.cpus ()).pid ≠ -1) :
    getErrno ((ErrnoTrace.init junk cpu).run ops).sched () =
        lastErrno ((ErrnoTrace.init junk cpu).run ops).current ((ErrnoTrace.init junk cpu).run ops).log ↔
      SetSinceDispatch ((ErrnoTrace.init junk cpu).run ops).current ((ErrnoTrace.init junk cpu).run ops).log ∨
        lastErrno ((ErrnoTrace.init junk cpu).run ops).current ((ErrnoTrace.init junk cpu).run ops).log = 0 := by
  have hinv := (errnoInv_init junk cpu).run ops
  rw [hinv.current hruns]
  exact latestValue_eq_iff _ _

/-- Two tasks with a thread each, and the first one is dispatched. -/
def errnoStart : List ErrnoOp :=
  [.sched (.createTask (-1) none 0x1000 zeroTask zeroTask),
    .sched (.createThread 0 0x200000 8 0xffff800000000000 0x5000 0 [] [] zeroTask zeroThread),
    .sched (.createTask (-1) none 0x1000 zeroTask zeroTask),
    .sched (.createThread 1 0x200000 8 0xffff800000000000 0x6000 0 [] [] zeroTask zeroThread),
    .sched (.reschedule () zeroRegs ⟨1, 2, 3⟩ zeroTask zeroThread)]

/-- A thread that runs reads what it has set. -/
theorem errno_own_read :
    getErrno ((ErrnoTrace.init zeroTask ⟨0, 0, 0, 0⟩).run (errnoStart ++ [.setErrno 5])).sched () = 5 := by
  have hlast : lastErrno
      ((ErrnoTrace.init zeroTask ⟨0, 0, 0, 0⟩).run (errnoStart ++ [.setErrno 5])).current
      ((ErrnoTrace.init zeroTask ⟨0, 0, 0, 0⟩).run (errnoStart ++ [.setErrno 5])).log = 5 := by decide
  have hown := (errno_own_iff zeroTask ⟨0, 0, 0, 0⟩ (errnoStart ++ [.setErrno 5]) (by decide)).mpr
    (.inl ⟨5, by decide⟩)
  exact hown.trans hlast

/-- The first thread sets `errno`, and the two threads take turns. -/
def errnoTurns : List ErrnoOp :=
  errnoStart ++ [.setErrno 5, .sched (.reschedule () zeroRegs ⟨1, 2, 3⟩ zeroTask zeroThread),
    .sched (.reschedule () zeroRegs ⟨1, 2, 3⟩ zeroTask zeroThread)]

/-- The first thread runs again, and has lost what it had set. -/
theorem errno_lost :
    ((ErrnoTrace.init zeroTask ⟨0, 0, 0, 0⟩).run errnoTurns).current = (0, 0) ∧
    lastErrno (0, 0) ((ErrnoTrace.init zeroTask ⟨0, 0, 0, 0⟩).run errnoTurns).log = 5 ∧
    getErrno ((ErrnoTrace.init zeroTask ⟨0, 0, 0, 0⟩).run errnoTurns).sched () = 0 := by
  refine ⟨?_, ?_, ?_⟩
  · decide
  · decide
  · decide

end CrepOS.Analysis
