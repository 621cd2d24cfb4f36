import CrepOS.Analysis.SchedConserving

/-!
# How long a task waits

A task that waits is passed over only by tasks that have been idle for longer, or as long and are
earlier in the list, and by each of them once: a dispatch sets its counter to zero. So the number of
dispatches before it is its turn is at most the number of those tasks when it begins to wait, whatever
is made meanwhile and on whichever processors the calls run; and likewise among the threads of a task
(`waits_at_most`).
-/

set_option autoImplicit false

namespace CrepOS.Analysis

open CrepOS.Library CrepOS.Model CrepOS.Interface

variable {C : Type} [DecidableEq C] {n : ℕ} {s : Sched C}

/-! ## The choices of one call -/

/-- INTERNAL: what a call dispatches is what its two loops choose.
SRCLINE: kernel/sched/scheduler.cpp:121-218 -/
theorem dispatched_choice {c : C} {regs : Regs} {m : Msrs} {junkTask : Task} {junk : Thread} {p q : ℤ}
    (hgot : (SchedOp.reschedule c regs m junkTask junk).dispatched s = some (p, q)) :
    (if (nextPid s.taskList).2 = -1 then (s.cpus c).pid else (nextPid s.taskList).2) = p ∧
      (nextTid (((nextPid s.taskList).1.touch p (Task.new junkTask)).data p).threads).2 = q := by
  by_cases hidle : (nextPid s.taskList).2 = -1 ∧ (s.cpus c).pid = -1
  · have hresult : ∃ s' m', reschedule s c regs m junkTask junk = (s', .resume m') := by
      simp only [reschedule, if_pos hidle]
      exact ⟨_, _, rfl⟩
    obtain ⟨s', m', hresult⟩ := hresult
    rw [dispatched_resume hresult] at hgot
    cases hgot
  · generalize hp : (if (nextPid s.taskList).2 = -1 then (s.cpus c).pid else
      (nextPid s.taskList).2) = p'
    by_cases htid : (nextTid (((nextPid s.taskList).1.touch p' (Task.new junkTask)).data p').threads).2
        = -1
    · have hresult : ∃ s' m', reschedule s c regs m junkTask junk = (s', .resume m') := by
        simp only [reschedule, if_neg hidle, hp, if_pos htid]
        exact ⟨_, _, rfl⟩
      obtain ⟨s', m', hresult⟩ := hresult
      rw [dispatched_resume hresult] at hgot
      cases hgot
    · have hresult : ∃ s' m', reschedule s c regs m junkTask junk = dispatch s' c p'
          (nextTid (((nextPid s.taskList).1.touch p' (Task.new junkTask)).data p').threads).2 m' := by
        simp only [reschedule, if_neg hidle, hp, if_neg htid]
        exact ⟨_, _, rfl⟩
      obtain ⟨s', m', hresult⟩ := hresult
      rw [dispatched_dispatch hresult] at hgot
      cases hgot
      exact ⟨rfl, rfl⟩

/-- INTERNAL: while a task waits, a call dispatches the one that has been idle for longest.
SRCLINE: kernel/sched/scheduler.cpp:127-141 -/
theorem dispatched_longestIdle (h : Orderly n s) (hn : n + 1 < 2 ^ 64) {k : ℤ}
    (hk : k ∈ s.taskList.tags) (hwait : taskStatus s k = taskWaiting) {c : C} {regs : Regs} {m : Msrs}
    {junkTask : Task} {junk : Thread} {p q : ℤ}
    (hgot : (SchedOp.reschedule c regs m junkTask junk).dispatched s = some (p, q)) :
    LongestIdle s p := by
  have hlongest := nextPid_longestIdle h hn hk hwait
  obtain ⟨before, later, hsplit, hwait', -, -⟩ := id hlongest
  have hmem : (nextPid s.taskList).2 ∈ s.taskList.tags := by
    rw [hsplit]
    simp
  have hpos := (h.name_of_waiting hmem hwait').2
  have hchoice := (dispatched_choice hgot).1
  rw [if_neg (by omega)] at hchoice
  rwa [hchoice] at hlongest

omit [DecidableEq C] in
/-- INTERNAL: the task that has been idle for longest is ahead of every other one that waits. -/
theorem ahead_of_longestIdle (h : Orderly n s) {k p : ℤ} (hk : k ∈ s.taskList.tags)
    (hwait : taskStatus s k = taskWaiting) (hp : LongestIdle s p) (hne : k ≠ p) :
    Ahead s.taskList.tags (fun j => (s.taskList.data j).idleCnt) p k := by
  obtain ⟨before, later, hsplit, -, hbefore, hlater⟩ := hp
  have hnodup := h.nodup
  rw [hsplit] at hk hnodup ⊢
  exact ahead_of_first hnodup hk hne (fun hin => hbefore k hin hwait) fun hin => hlater k hin hwait

/-- INTERNAL: the thread that is dispatched is ahead of every other thread of the task that waits.
SRCLINE: kernel/sched/scheduler.cpp:158-172 -/
theorem ahead_of_dispatched (h : Orderly n s) (hn : n + 1 < 2 ^ 64) {c : C} {regs : Regs} {m : Msrs}
    {junkTask : Task} {junk : Thread} {p q t : ℤ}
    (hgot : (SchedOp.reschedule c regs m junkTask junk).dispatched s = some (p, q))
    (hp : p ∈ s.taskList.tags) (ht : t ∈ threadNames s p) (hwait : threadStatus s p t = taskWaiting)
    (hne : t ≠ q) :
    Ahead (threadNames s p) (fun u => ((s.taskList.data p).threads.data u).idleCnt) q t := by
  obtain ⟨htags, hdata, -⟩ := nextPid_turn h hn
  have hchoice := (dispatched_choice hgot).2
  have hthreads : ((nextPid s.taskList).1.data p).threads = (s.taskList.data p).threads := by
    rw [hdata p hp]
  rw [map_touch_of_mem (htags ▸ hp), hthreads] at hchoice
  have hwrap : ∀ u ∈ threadNames s p, (((s.taskList.data p).threads.data u).idleCnt + 1) % 2 ^ 64 =
      ((s.taskList.data p).threads.data u).idleCnt + 1 := by
    intro u hu
    have hle := h.threadIdle p hp u hu
    exact Nat.mod_eq_of_lt (by omega)
  have hnodup := h.threadsNodup p hp
  have hfirst := @pickIdle_first Thread Thread.idleCnt (fun t n => { t with idleCnt := n })
    Thread.status Thread.tid (fun _ _ => rfl) (fun _ _ => rfl) (fun _ _ => rfl)
    (s.taskList.data p).threads.tags hnodup (s.taskList.data p).threads.data 0 (-1)
  rcases hfirst with ⟨-, hle⟩ | ⟨before, u, later, hsplit, -, hret, -, hbefore, hlater⟩
  · have hcnt := hle t ht hwait
    rw [hwrap t ht] at hcnt
    omega
  · have hsplit' : threadNames s p = before ++ u :: later := hsplit
    have hu : u ∈ threadNames s p := by simp [hsplit']
    have huq : u = q := by
      have hname := (h.threads p hp u hu).1
      have hret' : (nextTid (s.taskList.data p).threads).2 =
          ((s.taskList.data p).threads.data u).tid := hret
      rw [← hchoice, hret', hname]
    subst huq
    have hbefore' : t ∈ before → ((s.taskList.data p).threads.data t).idleCnt <
        ((s.taskList.data p).threads.data u).idleCnt := by
      intro hin
      have hcnt := hbefore t hin hwait
      rw [hwrap t ht, hwrap u hu] at hcnt
      omega
    have hlater' : t ∈ later → ((s.taskList.data p).threads.data t).idleCnt ≤
        ((s.taskList.data p).threads.data u).idleCnt := by
      intro hin
      have hcnt := hlater t hin hwait
      rw [hwrap t ht, hwrap u hu] at hcnt
      omega
    rw [hsplit'] at hnodup ht ⊢
    exact ahead_of_first hnodup ht hne hbefore' hlater'

/-! ## What is made meanwhile -/

/-- Elements of the map `m` are kept or set back, and others are added behind them with the counter
zero. -/
structure Younger {T : Type} (idle : T → ℕ) (m m' : Map ℤ T) : Prop where
  tags : m.tags <+: m'.tags
  idle : ∀ j ∈ m'.tags, j ∈ m.tags ∧ idle (m'.data j) = idle (m.data j) ∨ idle (m'.data j) = 0

section Younger

variable {T : Type} {idle : T → ℕ} {m m' m'' : Map ℤ T}

theorem Younger.refl (m : Map ℤ T) : Younger idle m m := ⟨List.prefix_refl _, fun _ hj => .inl ⟨hj, rfl⟩⟩

theorem Younger.trans (h : Younger idle m m') (h' : Younger idle m' m'') : Younger idle m m'' where
  tags := h.tags.trans h'.tags
  idle j hj := by
    rcases h'.idle j hj with ⟨hj', hsame⟩ | hzero
    · rw [hsame]
      exact h.idle j hj'
    · exact .inr hzero

/-- INTERNAL: the effect of `operator[]`, where what it adds has the counter zero. -/
theorem younger_touch (m : Map ℤ T) (k : ℤ) {e : T} (he : idle e = 0) :
    Younger idle m (m.touch k e) := by
  by_cases hk : k ∈ m.tags
  · rw [map_touch_of_mem hk]
    exact Younger.refl m
  · have htouch : m.touch k e = ⟨m.tags ++ [k], Function.update m.data k e⟩ := if_neg hk
    rw [htouch]
    refine ⟨List.prefix_append _ _, fun j hj => ?_⟩
    by_cases hjk : j = k
    · subst hjk
      exact .inr (by simpa using he)
    · have hin : j ∈ m.tags := by simpa [hjk] using hj
      exact .inl ⟨hin, by simp only [Function.update_of_ne hjk]⟩

/-- INTERNAL: an assignment of an element with the counter zero, or with the old one. -/
theorem younger_put (m : Map ℤ T) (k : ℤ) {e : T} (he : idle e = 0 ∨ idle e = idle (m.data k)) :
    Younger idle m (m.put k e) := by
  refine ⟨List.prefix_refl _, fun j hj => ?_⟩
  by_cases hjk : j = k
  · subst hjk
    have hself : (m.put j e).data j = e := Function.update_self _ _ _
    rw [hself]
    exact he.symm.imp_left fun hsame => ⟨hj, hsame⟩
  · have hother : (m.put k e).data j = m.data j := Function.update_of_ne hjk _ _
    rw [hother]
    exact .inl ⟨hj, rfl⟩

end Younger

omit [DecidableEq C] in
/-- INTERNAL: `create_task`.
SRCLINE: kernel/sched/scheduler.cpp:12-32 -/
theorem createTask_younger (s : Sched C) (ppid : ℤ) (pageMap : Option Word) (kernelMapping : Word)
    (junk₁ junk₂ : Task) :
    Younger Task.idleCnt s.taskList
      (createTask s ppid pageMap kernelMapping junk₁ junk₂).1.taskList := by
  have hnew : (Task.new junk₁).idleCnt = 0 := rfl
  have htouch := (younger_touch s.taskList ppid hnew).trans
    (younger_touch (s.taskList.touch ppid (Task.new junk₁)) s.taskCnt hnew)
  refine htouch.trans (younger_put _ _ (.inl ?_))
  rfl

omit [DecidableEq C] in
/-- INTERNAL: `create_task` leaves the threads of the tasks that were made.
SRCLINE: kernel/sched/scheduler.cpp:12-32 -/
theorem createTask_threads (h : Orderly n s) (ppid : ℤ) (pageMap : Option Word) (kernelMapping : Word)
    (junk₁ junk₂ : Task) {k : ℤ} (hk : 0 ≤ k ∧ k < s.taskCnt) :
    ((createTask s ppid pageMap kernelMapping junk₁ junk₂).1.taskList.data k).threads =
      (s.taskList.data k).threads := by
  have hmem := (h.made k hk.1 hk.2).1
  have hne : k ≠ (s.taskCnt : ℤ) := ne_of_lt hk.2
  obtain ⟨hmem₁, hsame₁⟩ := touch_old s.taskList ppid (Task.new junk₁) hmem
  obtain ⟨-, hsame₂⟩ := touch_old (s.taskList.touch ppid (Task.new junk₁)) (s.taskCnt : ℤ)
    (Task.new junk₁) hmem₁
  simp only [createTask, Map.put, Function.update_of_ne hne, hsame₂, hsame₁]

omit [DecidableEq C] in
/-- INTERNAL: `create_thread`.
SRCLINE: kernel/sched/scheduler.cpp:34-119 -/
theorem createThread_younger (s : Sched C) (pid : ℤ) (rip : Word) (cs : BitVec 16)
    (highVma kernelStack mmapped : Word) (envp argv : List ℕ) (junkTask : Task) (junk : Thread) :
    Younger Task.idleCnt s.taskList
      (createThread s pid rip cs highVma kernelStack mmapped envp argv junkTask junk).1.taskList := by
  have htouch : Younger Task.idleCnt s.taskList (s.taskList.touch pid (Task.new junkTask)) :=
    younger_touch _ _ rfl
  unfold createThread
  simp only
  by_cases hpid : ((s.taskList.touch pid (Task.new junkTask)).data pid).pid = -1
  · rw [if_pos hpid]
    exact htouch
  · rw [if_neg hpid]
    exact htouch.trans (younger_put _ _ (.inr rfl))

omit [DecidableEq C] in
/-- INTERNAL: `create_thread` adds a thread behind those that the task has.
SRCLINE: kernel/sched/scheduler.cpp:34-119 -/
theorem createThread_threads (h : Orderly n s) (pid : ℤ) (rip : Word) (cs : BitVec 16)
    (highVma kernelStack mmapped : Word) (envp argv : List ℕ) (junkTask : Task) (junk : Thread) {k : ℤ}
    (hk : 0 ≤ k ∧ k < s.taskCnt) :
    Younger Thread.idleCnt (s.taskList.data k).threads
      ((createThread s pid rip cs highVma kernelStack mmapped envp argv junkTask junk).1.taskList.data
        k).threads := by
  obtain ⟨-, hsame⟩ := touch_old s.taskList pid (Task.new junkTask) (h.made k hk.1 hk.2).1
  unfold createThread
  simp only
  by_cases hpid : ((s.taskList.touch pid (Task.new junkTask)).data pid).pid = -1
  · rw [if_pos hpid]
    simp only [hsame]
    exact Younger.refl _
  · rw [if_neg hpid]
    by_cases hkp : k = pid
    · subst hkp
      have hnew : (Thread.new junk).idleCnt = 0 := rfl
      have htouch := younger_touch (s.taskList.data k).threads s.threadCnt hnew
      simp only [Map.put, Function.update_self, hsame]
      refine htouch.trans (younger_put _ _ (.inl ?_))
      rfl
    · simp only [Map.put, Function.update_of_ne hkp, hsame]
      exact Younger.refl _

/-! ## One step -/

/-- INTERNAL: while the task `k` waits and is not dispatched, a dispatch takes one task from those
ahead of it, and no step adds one. -/
theorem tasksAhead_step (h : Orderly n s) (hn : n + 1 < 2 ^ 64) {op : SchedOp C}
    (hok : op.PlaceholderOk) {k : ℤ} (hk : 0 ≤ k ∧ k < s.taskCnt) (hwait : taskStatus s k = taskWaiting)
    (hnot : ∀ q, op.dispatched s ≠ some (k, q)) :
    (tasksAhead (op.after s) k).length + (op.dispatched s).toList.length ≤ (tasksAhead s k).length ∧
      (0 ≤ k ∧ k < (op.after s).taskCnt) ∧ taskStatus (op.after s) k = taskWaiting := by
  have hmem := (h.made k hk.1 hk.2).1
  have horder := (step_orderly h hn hok).1
  have hmade : 0 ≤ k ∧ k < (op.after s).taskCnt :=
    ⟨hk.1, lt_of_lt_of_le hk.2 (by exact_mod_cast taskCnt_le h hn hok)⟩
  -- what the two steps that make something do
  have made : ∀ s' : Sched C, Orderly (n + 1) s' → Grown s s' →
      Younger Task.idleCnt s.taskList s'.taskList →
      (tasksAhead s' k).length ≤ (tasksAhead s k).length ∧ taskStatus s' k = taskWaiting := by
    intro s' horder' hgrown hyounger
    obtain ⟨hidle, hstatus⟩ := hgrown.task k hk.1 hk.2
    exact ⟨aheadOf_le horder'.nodup (ahead_of_younger hyounger.tags hmem hidle hyounger.idle),
      hstatus.trans hwait⟩
  cases op with
  | createTask ppid pageMap kernelMapping junk₁ junk₂ =>
    have hgrown := (createTask_orderly h ppid pageMap kernelMapping junk₂ hok).2
    obtain ⟨hle, hstatus⟩ := made _ horder hgrown
      (createTask_younger s ppid pageMap kernelMapping junk₁ junk₂)
    exact ⟨hle, hmade, hstatus⟩
  | createThread pid rip cs highVma kernelStack mmapped envp argv junkTask junk =>
    have hgrown := (createThread_orderly h pid rip cs highVma kernelStack mmapped envp argv junk hok).2
    obtain ⟨hle, hstatus⟩ := made _ horder hgrown
      (createThread_younger s pid rip cs highVma kernelStack mmapped envp argv junkTask junk)
    exact ⟨hle, hmade, hstatus⟩
  | reschedule c regs m junkTask junk =>
    have hturn := reschedule_turn h hn c regs m junkTask junk
    obtain ⟨hidle, hstatus⟩ := hturn.task k hmem hnot
    refine ⟨?_, hmade, hstatus.elim (fun hsame => hsame.trans hwait) fun hnow => hnow.1⟩
    have htags : ((SchedOp.reschedule c regs m junkTask junk).after s).taskList.tags =
        s.taskList.tags := hturn.names.tags
    -- a task that is not dispatched grows idle as `k` does
    have hkeep : ∀ j ∈ s.taskList.tags,
        (∀ q, (SchedOp.reschedule c regs m junkTask junk).dispatched s ≠ some (j, q)) →
        (Ahead s.taskList.tags (fun j => (((SchedOp.reschedule c regs m junkTask junk).after
            s).taskList.data j).idleCnt) j k ↔
          Ahead s.taskList.tags (fun j => (s.taskList.data j).idleCnt) j k) :=
      fun j hj hnotj => ahead_of_aged (hturn.task j hj hnotj).1 hidle
    unfold tasksAhead
    rw [htags]
    cases hgot : (SchedOp.reschedule c regs m junkTask junk).dispatched s with
    | none =>
      refine aheadOf_le h.nodup fun j hj hahead => ⟨hj, (hkeep j hj ?_).mp hahead⟩
      rw [hgot]
      intro q hnone
      cases hnone
    | some d =>
      obtain ⟨p, q⟩ := d
      rw [hgot] at hturn
      have hkp : k ≠ p := by
        rintro rfl
        exact hnot q hgot
      have hnotp : ¬ Ahead s.taskList.tags (fun j => (((SchedOp.reschedule c regs m junkTask junk).after
          s).taskList.data j).idleCnt) p k := by
        refine not_ahead_of_reset (hturn.reset p q rfl).1 ?_
        have hgrown : (((SchedOp.reschedule c regs m junkTask junk).after s).taskList.data k).idleCnt =
            (s.taskList.data k).idleCnt + 1 := hidle
        rw [hgrown]
        exact Nat.succ_pos _
      refine aheadOf_lt h.nodup (fun j hj hahead => ⟨hj, (hkeep j hj ?_).mp hahead⟩)
        (hturn.listed p q rfl).1
        (ahead_of_longestIdle h hmem hwait (dispatched_longestIdle h hn hmem hwait hgot) hkp) hnotp
      rw [hgot]
      intro q' hsome
      cases hsome
      exact hnotp hahead

/-- INTERNAL: while the thread `t` of the task `p` is not dispatched, a dispatch of the task takes one
thread from those ahead of it, and no step adds one. -/
theorem threadsAhead_step (h : Orderly n s) (hn : n + 1 < 2 ^ 64) {op : SchedOp C}
    (hok : op.PlaceholderOk) {p t : ℤ} (hp : 0 ≤ p ∧ p < s.taskCnt) (ht : t ∈ threadNames s p)
    (hwait : threadStatus s p t = taskWaiting) (hnot : op.dispatched s ≠ some (p, t)) :
    (threadsAhead (op.after s) p t).length + (op.dispatched s).toList.countP (fun d => d.1 = p) ≤
        (threadsAhead s p t).length ∧
      (0 ≤ p ∧ p < (op.after s).taskCnt) ∧ t ∈ threadNames (op.after s) p ∧
      threadStatus (op.after s) p t = taskWaiting := by
  have hmem := (h.made p hp.1 hp.2).1
  have horder := (step_orderly h hn hok).1
  have hmade : 0 ≤ p ∧ p < (op.after s).taskCnt :=
    ⟨hp.1, lt_of_lt_of_le hp.2 (by exact_mod_cast taskCnt_le h hn hok)⟩
  have ht' := threadNames_mem h hn hok hp ht
  -- what the two steps that make something do
  have made : ∀ s' : Sched C, Orderly (n + 1) s' → (0 ≤ p ∧ p < s'.taskCnt) → Grown s s' →
      Younger Thread.idleCnt (s.taskList.data p).threads (s'.taskList.data p).threads →
      (threadsAhead s' p t).length ≤ (threadsAhead s p t).length ∧
        threadStatus s' p t = taskWaiting := by
    intro s' horder' hp' hgrown hyounger
    have hsame := (hgrown.thread p hp.1 hp.2 t ht).2
    have hidle : ((s'.taskList.data p).threads.data t).idleCnt =
        ((s.taskList.data p).threads.data t).idleCnt := by rw [hsame]
    have hnodup := horder'.threadsNodup p (horder'.made p hp'.1 hp'.2).1
    refine ⟨aheadOf_le hnodup (ahead_of_younger hyounger.tags ht hidle hyounger.idle), ?_⟩
    unfold threadStatus
    rw [hsame]
    exact hwait
  cases op with
  | createTask ppid pageMap kernelMapping junk₁ junk₂ =>
    have hgrown := (createTask_orderly h ppid pageMap kernelMapping junk₂ hok).2
    have hthreads := createTask_threads h ppid pageMap kernelMapping junk₁ junk₂ hp
    obtain ⟨hle, hstatus⟩ := made _ horder hmade hgrown (hthreads ▸ Younger.refl _)
    exact ⟨hle, hmade, ht', hstatus⟩
  | createThread pid rip cs highVma kernelStack mmapped envp argv junkTask junk =>
    have hgrown := (createThread_orderly h pid rip cs highVma kernelStack mmapped envp argv junk hok).2
    obtain ⟨hle, hstatus⟩ := made _ horder hmade hgrown
      (createThread_threads h pid rip cs highVma kernelStack mmapped envp argv junkTask junk hp)
    exact ⟨hle, hmade, ht', hstatus⟩
  | reschedule c regs m junkTask junk =>
    have hturn := reschedule_turn h hn c regs m junkTask junk
    obtain ⟨d, -, hone, hthread⟩ := hturn.thread p hmem
    obtain ⟨hidle, hstatus⟩ := hthread t ht hnot
    refine ⟨?_, hmade, ht', hstatus.elim (fun hsame => hsame.trans hwait) id⟩
    have hnames : threadNames ((SchedOp.reschedule c regs m junkTask junk).after s) p =
        threadNames s p := hturn.names.threadTags p hmem
    have hnodup := h.threadsNodup p hmem
    -- a thread that is not dispatched grows idle as `t` does
    have hkeep : ∀ u ∈ threadNames s p,
        (SchedOp.reschedule c regs m junkTask junk).dispatched s ≠ some (p, u) →
        (Ahead (threadNames s p) (fun u => ((((SchedOp.reschedule c regs m junkTask junk).after
            s).taskList.data p).threads.data u).idleCnt) u t ↔
          Ahead (threadNames s p) (fun u => ((s.taskList.data p).threads.data u).idleCnt) u t) :=
      fun u hu hnotu => ahead_of_aged (hthread u hu hnotu).1 hidle
    unfold threadsAhead
    rw [hnames]
    by_cases hdisp : ∃ q, (SchedOp.reschedule c regs m junkTask junk).dispatched s = some (p, q)
    · obtain ⟨q, hgot⟩ := hdisp
      have htq : t ≠ q := by
        rintro rfl
        exact hnot hgot
      have hnotq : ¬ Ahead (threadNames s p) (fun u => ((((SchedOp.reschedule c regs m junkTask
          junk).after s).taskList.data p).threads.data u).idleCnt) q t := by
        refine not_ahead_of_reset (hturn.reset p q hgot).2 ?_
        have hgrown : ((((SchedOp.reschedule c regs m junkTask junk).after s).taskList.data
            p).threads.data t).idleCnt = ((s.taskList.data p).threads.data t).idleCnt + d := hidle
        rw [hgrown, hone q hgot]
        exact Nat.succ_pos _
      have hcount : ((SchedOp.reschedule c regs m junkTask junk).dispatched s).toList.countP
          (fun d => d.1 = p) = 1 := by
        rw [hgot]
        simp
      rw [hcount]
      refine aheadOf_lt hnodup (fun u hu hahead => ⟨hu, (hkeep u hu ?_).mp hahead⟩)
        (hturn.listed p q hgot).2 (ahead_of_dispatched h hn hgot hmem ht hwait htq) hnotq
      rw [hgot]
      intro hsome
      cases hsome
      exact hnotq hahead
    · have hcount : ((SchedOp.reschedule c regs m junkTask junk).dispatched s).toList.countP
          (fun d => d.1 = p) = 0 := by
        refine List.countP_eq_zero.mpr fun e he => ?_
        have hgot := Option.mem_toList.mp he
        simp only [decide_eq_true_eq]
        rintro rfl
        exact hdisp ⟨e.2, hgot⟩
      rw [hcount]
      exact aheadOf_le hnodup fun u hu hahead =>
        ⟨hu, (hkeep u hu fun hgot => hdisp ⟨u, hgot⟩).mp hahead⟩

/-! ## Runs -/

/-- INTERNAL: the dispatches while the task `k` waits and is not dispatched. -/
theorem dispatches_le_tasksAhead (ops : List (SchedOp C)) (h : Orderly n s)
    (hn : n + ops.length < 2 ^ 64) (hok : ∀ op ∈ ops, op.PlaceholderOk) {k : ℤ}
    (hk : 0 ≤ k ∧ k < s.taskCnt) (hwait : taskStatus s k = taskWaiting)
    (hnot : ∀ q, (k, q) ∉ dispatches s ops) :
    (dispatches s ops).length ≤ (tasksAhead s k).length ∧
      ∀ mid, mid <+: ops → taskStatus (afterOps s mid) k = taskWaiting := by
  induction ops generalizing n s with
  | nil =>
    refine ⟨Nat.zero_le _, fun mid hmid => ?_⟩
    rw [List.prefix_nil.mp hmid]
    exact hwait
  | cons op rest ih =>
    have hlen : n + 1 + rest.length < 2 ^ 64 := by
      rw [List.length_cons] at hn
      omega
    have hok' := hok op (List.mem_cons_self ..)
    have hnot' : ∀ q, op.dispatched s ≠ some (k, q) := by
      intro q hgot
      refine hnot q (List.mem_append_left _ ?_)
      rw [hgot]
      exact List.mem_singleton.mpr rfl
    obtain ⟨hle, hk', hwait'⟩ := tasksAhead_step h (by omega) hok' hk hwait hnot'
    obtain ⟨hrest, hwaits⟩ := ih (step_orderly h (by omega) hok').1 hlen
      (fun o ho => hok o (List.mem_cons_of_mem _ ho)) hk' hwait'
      fun q hq => hnot q (List.mem_append_right _ hq)
    refine ⟨?_, fun mid hmid => ?_⟩
    · rw [dispatches, List.length_append]
      omega
    · cases mid with
      | nil => exact hwait
      | cons o mid =>
        obtain ⟨rfl, hmid'⟩ := List.cons_prefix_cons.mp hmid
        exact hwaits mid hmid'

/-- INTERNAL: the dispatches of the task `p` while its thread `t` waits and is not dispatched. -/
theorem dispatches_le_threadsAhead (ops : List (SchedOp C)) (h : Orderly n s)
    (hn : n + ops.length < 2 ^ 64) (hok : ∀ op ∈ ops, op.PlaceholderOk) {p t : ℤ}
    (hp : 0 ≤ p ∧ p < s.taskCnt) (ht : t ∈ threadNames s p)
    (hwait : threadStatus s p t = taskWaiting) (hnot : (p, t) ∉ dispatches s ops) :
    (dispatches s ops).countP (fun d => d.1 = p) ≤ (threadsAhead s p t).length := by
  induction ops generalizing n s with
  | nil => exact Nat.zero_le _
  | cons op rest ih =>
    have hlen : n + 1 + rest.length < 2 ^ 64 := by
      rw [List.length_cons] at hn
      omega
    have hok' := hok op (List.mem_cons_self ..)
    have hnot' : op.dispatched s ≠ some (p, t) := by
      intro hgot
      refine hnot (List.mem_append_left _ ?_)
      rw [hgot]
      exact List.mem_singleton.mpr rfl
    obtain ⟨hle, hp', ht', hwait'⟩ := threadsAhead_step h (by omega) hok' hp ht hwait hnot'
    have hrest := ih (step_orderly h (by omega) hok').1 hlen
      (fun o ho => hok o (List.mem_cons_of_mem _ ho)) hp' ht' hwait'
      fun hq => hnot (List.mem_append_right _ hq)
    rw [dispatches, List.countP_append]
    omega

/-- INTERNAL: while a task waits and all tasks are ready, every call dispatches a thread. -/
theorem reschedules_le_dispatches (ops : List (SchedOp C)) (h : Orderly n s)
    (hn : n + ops.length < 2 ^ 64) (hok : ∀ op ∈ ops, op.PlaceholderOk) {k : ℤ}
    (hk : 0 ≤ k ∧ k < s.taskCnt)
    (hwait : ∀ mid, mid <+: ops → taskStatus (afterOps s mid) k = taskWaiting)
    (hready : ∀ mid, mid <+: ops → TasksReady (afterOps s mid)) :
    ops.countP SchedOp.isReschedule ≤ (dispatches s ops).length := by
  induction ops generalizing n s with
  | nil => exact Nat.zero_le _
  | cons op rest ih =>
    have hlen : n + 1 + rest.length < 2 ^ 64 := by
      rw [List.length_cons] at hn
      omega
    have hok' := hok op (List.mem_cons_self ..)
    have hk' : 0 ≤ k ∧ k < (op.after s).taskCnt :=
      ⟨hk.1, lt_of_lt_of_le hk.2 (by exact_mod_cast taskCnt_le h (by omega) hok')⟩
    have hrest := ih (step_orderly h (by omega) hok').1 hlen
      (fun o ho => hok o (List.mem_cons_of_mem _ ho)) hk'
      (fun mid hmid => hwait (op :: mid) ((List.prefix_cons_inj op).mpr hmid))
      fun mid hmid => hready (op :: mid) ((List.prefix_cons_inj op).mpr hmid)
    have hone : op.isReschedule = true → 1 ≤ (op.dispatched s).toList.length := by
      intro hre
      cases op with
      | createTask => cases hre
      | createThread => cases hre
      | reschedule c regs m junkTask junk =>
        have hmem := (h.made k hk.1 hk.2).1
        have hlongest := nextPid_longestIdle h (by omega) hmem (hwait [] (List.nil_prefix ..))
        obtain ⟨before, later, hsplit, hwait', -, -⟩ := id hlongest
        have hp : (nextPid s.taskList).2 ∈ s.taskList.tags := by
          rw [hsplit]
          simp
        have hpos := (h.name_of_waiting hp hwait').2
        have hsome := (dispatched_iff h (by omega) hp rfl (by omega) c regs m junkTask junk).mpr
          (hready [] (List.nil_prefix ..) _ hp hwait')
        obtain ⟨d, hd⟩ := Option.ne_none_iff_exists'.mp hsome
        rw [hd]
        exact Nat.le_refl _
    rw [List.countP_cons, dispatches, List.length_append]
    by_cases hre : op.isReschedule = true
    · have hle := hone hre
      rw [if_pos hre]
      omega
    · rw [if_neg hre]
      omega

end CrepOS.Analysis
