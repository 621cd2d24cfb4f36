import CrepOS.Analysis.SchedOrder

/-!
# Nobody is overtaken

Of two tasks, or two threads of a task, the one dispatched last has the smaller idle counter: a dispatch
sets it to zero, and from then on both counters grow by the same amounts. As `reschedule` takes the
largest counter among those that wait, it does not dispatch that one again while the other one waits
(`scheduler_no_overtaking`).
-/

set_option autoImplicit false

namespace CrepOS.Analysis

open CrepOS.Model CrepOS.Interface

variable {C : Type} [DecidableEq C] {n : ℕ} {s : Sched C}

/-! ## One step -/

/-- INTERNAL: every step keeps the lists in order. It is a turn, or it dispatches nothing. -/
theorem step_orderly (h : Orderly n s) (hn : n + 1 < 2 ^ 64) {op : SchedOp C} (hok : op.PlaceholderOk) :
    Orderly (n + 1) (op.after s) ∧
      (Turn s (op.after s) (op.dispatched s) ∨ op.dispatched s = none ∧ Grown s (op.after s)) := by
  have hmore : ∀ {s' : Sched C}, Orderly n s' → Orderly (n + 1) s' := by
    intro s' h'
    exact ⟨h'.nodup, h'.made, h'.other, h'.threadsNodup, h'.threads, h'.cpus,
      fun k hk => Nat.le_succ_of_le (h'.taskIdle k hk),
      fun k hk t ht => Nat.le_succ_of_le (h'.threadIdle k hk t ht)⟩
  cases op with
  | createTask ppid pageMap kernelMapping junk₁ junk₂ =>
    obtain ⟨horder, hgrown⟩ := createTask_orderly h ppid pageMap kernelMapping junk₂ hok
    exact ⟨hmore horder, .inr ⟨rfl, hgrown⟩⟩
  | createThread pid rip cs highVma kernelStack mmapped envp argv junkTask junk =>
    obtain ⟨horder, hgrown⟩ :=
      createThread_orderly h pid rip cs highVma kernelStack mmapped envp argv junk hok
    exact ⟨hmore horder, .inr ⟨rfl, hgrown⟩⟩
  | reschedule c regs m junkTask junk =>
    have hturn := reschedule_turn h hn c regs m junkTask junk
    exact ⟨h.turn hturn, .inl hturn⟩

/-- INTERNAL: tasks stay made. -/
theorem taskCnt_le (h : Orderly n s) (hn : n + 1 < 2 ^ 64) {op : SchedOp C} (hok : op.PlaceholderOk) :
    s.taskCnt ≤ (op.after s).taskCnt := by
  rcases (step_orderly h hn hok).2 with hturn | ⟨-, hgrown⟩
  · rw [hturn.taskCnt]
  · exact hgrown.taskCnt

/-- INTERNAL: the threads of a task stay in its list. -/
theorem threadNames_mem (h : Orderly n s) (hn : n + 1 < 2 ^ 64) {op : SchedOp C}
    (hok : op.PlaceholderOk) {k t : ℤ} (hk : 0 ≤ k ∧ k < s.taskCnt) (ht : t ∈ threadNames s k) :
    t ∈ threadNames (op.after s) k := by
  rcases (step_orderly h hn hok).2 with hturn | ⟨-, hgrown⟩
  · have hnames : threadNames (op.after s) k = threadNames s k :=
      hturn.names.threadTags k (h.made k hk.1 hk.2).1
    rw [hnames]
    exact ht
  · exact (hgrown.thread k hk.1 hk.2 t ht).1

/-! ## Tasks -/

/-- The tasks `k` and `u` were made, and `k` has the larger counter. -/
structure TaskAhead (s : Sched C) (k u : ℤ) : Prop where
  made : 0 ≤ k ∧ k < s.taskCnt
  made' : 0 ≤ u ∧ u < s.taskCnt
  idle : (s.taskList.data u).idleCnt < (s.taskList.data k).idleCnt

omit [DecidableEq C] in
/-- INTERNAL: after a dispatch the dispatched task has the smallest counter. -/
theorem taskAhead_of_dispatch (h : Orderly n s) {s' : Sched C} {p q : ℤ}
    (hturn : Turn s s' (some (p, q))) {k : ℤ} (hk : 0 ≤ k ∧ k < s.taskCnt) (hkp : k ≠ p) :
    TaskAhead s' k p := by
  obtain ⟨hp, hq⟩ := hturn.listed p q rfl
  have hmade : 0 ≤ p ∧ p < s.taskCnt := by
    rcases h.other p hp with hmade | ⟨-, -, hempty⟩
    · exact hmade
    · rw [hempty] at hq
      cases hq
  have hidle := (hturn.task k (h.made k hk.1 hk.2).1 fun q' hgot => by cases hgot; exact hkp rfl).1
  refine ⟨?_, ?_, ?_⟩
  · rw [hturn.taskCnt]
    exact hk
  · rw [hturn.taskCnt]
    exact hmade
  · rw [hidle, (hturn.reset p q rfl).1]
    exact Nat.succ_pos _

/-- INTERNAL: while the task `k` waits, the task `u` behind it is not dispatched, and stays behind. -/
theorem TaskAhead.step {k u : ℤ} (ha : TaskAhead s k u) (h : Orderly n s) (hn : n + 1 < 2 ^ 64)
    (hwait : taskStatus s k = taskWaiting) {op : SchedOp C} (hok : op.PlaceholderOk) :
    (∀ q, op.dispatched s ≠ some (u, q)) ∧
      (taskStatus (op.after s) k = taskWaiting → TaskAhead (op.after s) k u) := by
  have hle := taskCnt_le h hn hok
  have hmade : ∀ j : ℤ, 0 ≤ j ∧ j < s.taskCnt → 0 ≤ j ∧ j < (op.after s).taskCnt :=
    fun j hj => ⟨hj.1, lt_of_lt_of_le hj.2 (by exact_mod_cast hle)⟩
  rcases (step_orderly h hn hok).2 with hturn | ⟨hnone, hgrown⟩
  · have hk := (h.made k ha.made.1 ha.made.2).1
    have hu := (h.made u ha.made'.1 ha.made'.2).1
    have hnot : ∀ q, op.dispatched s ≠ some (u, q) := by
      intro q hgot
      have hlargest := hturn.largestTask u q hgot k hk hwait
      have hidle := ha.idle
      omega
    refine ⟨hnot, fun hwait' => ⟨hmade k ha.made, hmade u ha.made', ?_⟩⟩
    have hnot' : ∀ q, op.dispatched s ≠ some (k, q) := by
      intro q hgot
      rw [(hturn.running k q hgot).1] at hwait'
      cases hwait'
    rw [(hturn.task k hk hnot').1, (hturn.task u hu hnot).1]
    exact Nat.succ_lt_succ ha.idle
  · refine ⟨fun q hgot => ?_, fun _ => ⟨hmade k ha.made, hmade u ha.made', ?_⟩⟩
    · rw [hnone] at hgot
      cases hgot
    · rw [(hgrown.task k ha.made.1 ha.made.2).1, (hgrown.task u ha.made'.1 ha.made'.2).1]
      exact ha.idle

/-- INTERNAL: and so after any number of steps. -/
theorem TaskAhead.run {k u : ℤ} (ops : List (SchedOp C)) (h : Orderly n s)
    (hn : n + ops.length < 2 ^ 64) (hok : ∀ op ∈ ops, op.PlaceholderOk) (ha : TaskAhead s k u)
    (hwait : ∀ mid, mid <+: ops → taskStatus (afterOps s mid) k = taskWaiting) :
    Orderly (n + ops.length) (afterOps s ops) ∧ TaskAhead (afterOps s ops) k u := by
  induction ops generalizing n s with
  | nil => exact ⟨h, ha⟩
  | cons op rest ih =>
    have hlen : n + 1 + rest.length < 2 ^ 64 := by
      rw [List.length_cons] at hn
      omega
    have hok' := hok op (List.mem_cons_self ..)
    obtain ⟨-, hahead⟩ := ha.step h (by omega) (hwait [] (List.nil_prefix ..)) hok'
    have hnext := hahead (hwait [op] (List.prefix_append [op] rest))
    have hrest := ih (step_orderly h (by omega) hok').1 hlen
      (fun o ho => hok o (List.mem_cons_of_mem _ ho)) hnext
      (fun mid hmid => hwait (op :: mid) ((List.prefix_cons_inj op).mpr hmid))
    rw [List.length_cons, Nat.add_comm rest.length, ← Nat.add_assoc]
    exact hrest

/-! ## Threads of a task -/

/-- The threads `t` and `u` of the task `p` are in its list, and `t` has the larger counter. -/
structure ThreadAhead (s : Sched C) (p t u : ℤ) : Prop where
  made : 0 ≤ p ∧ p < s.taskCnt
  listed : t ∈ threadNames s p
  listed' : u ∈ threadNames s p
  idle : ((s.taskList.data p).threads.data u).idleCnt < ((s.taskList.data p).threads.data t).idleCnt
  waits : threadStatus s p t = taskWaiting

/-- INTERNAL: while the thread `t` is not dispatched it waits, and the thread `u` behind it is not
dispatched and stays behind. -/
theorem ThreadAhead.step {p t u : ℤ} (ha : ThreadAhead s p t u) (h : Orderly n s)
    (hn : n + 1 < 2 ^ 64) {op : SchedOp C} (hok : op.PlaceholderOk) :
    op.dispatched s ≠ some (p, u) ∧
      (op.dispatched s ≠ some (p, t) → ThreadAhead (op.after s) p t u) := by
  have hle := taskCnt_le h hn hok
  have hmade : 0 ≤ p ∧ p < (op.after s).taskCnt :=
    ⟨ha.made.1, lt_of_lt_of_le ha.made.2 (by exact_mod_cast hle)⟩
  have hlisted := threadNames_mem h hn hok ha.made ha.listed
  have hlisted' := threadNames_mem h hn hok ha.made ha.listed'
  rcases (step_orderly h hn hok).2 with hturn | ⟨hnone, hgrown⟩
  · have hp := (h.made p ha.made.1 ha.made.2).1
    have hnot : op.dispatched s ≠ some (p, u) := by
      intro hgot
      have hlargest := hturn.largestThread p u hgot t ha.listed ha.waits
      have hidle := ha.idle
      omega
    refine ⟨hnot, fun hnot' => ?_⟩
    obtain ⟨d, -, -, hthread⟩ := hturn.thread p hp
    obtain ⟨hidle, hstatus⟩ := hthread t ha.listed hnot'
    obtain ⟨hidle', -⟩ := hthread u ha.listed' hnot
    refine ⟨hmade, hlisted, hlisted', ?_, ?_⟩
    · rw [hidle, hidle']
      exact Nat.add_lt_add_right ha.idle d
    · rcases hstatus with hsame | hwait
      · rw [hsame]
        exact ha.waits
      · exact hwait
  · refine ⟨fun hgot => ?_, fun _ => ⟨hmade, hlisted, hlisted', ?_, ?_⟩⟩
    · rw [hnone] at hgot
      cases hgot
    · rw [(hgrown.thread p ha.made.1 ha.made.2 t ha.listed).2,
        (hgrown.thread p ha.made.1 ha.made.2 u ha.listed').2]
      exact ha.idle
    · unfold threadStatus
      rw [(hgrown.thread p ha.made.1 ha.made.2 t ha.listed).2]
      exact ha.waits

/-- INTERNAL: and so after any number of steps. -/
theorem ThreadAhead.run {p t u : ℤ} (ops : List (SchedOp C)) (h : Orderly n s)
    (hn : n + ops.length < 2 ^ 64) (hok : ∀ op ∈ ops, op.PlaceholderOk) (ha : ThreadAhead s p t u)
    (hnot : ∀ mid op, mid ++ [op] <+: ops → op.dispatched (afterOps s mid) ≠ some (p, t)) :
    Orderly (n + ops.length) (afterOps s ops) ∧ ThreadAhead (afterOps s ops) p t u := by
  induction ops generalizing n s with
  | nil => exact ⟨h, ha⟩
  | cons op rest ih =>
    have hlen : n + 1 + rest.length < 2 ^ 64 := by
      rw [List.length_cons] at hn
      omega
    have hok' := hok op (List.mem_cons_self ..)
    have hnext := (ha.step h (by omega) hok').2 (hnot [] op (List.prefix_append [op] rest))
    have hrest := ih (step_orderly h (by omega) hok').1 hlen
      (fun o ho => hok o (List.mem_cons_of_mem _ ho)) hnext
      (fun mid o hmid => hnot (op :: mid) o ((List.prefix_cons_inj op).mpr hmid))
    rw [List.length_cons, Nat.add_comm rest.length, ← Nat.add_assoc]
    exact hrest

omit [DecidableEq C] in
/-- INTERNAL: after a dispatch the dispatched thread has the smallest counter of the task. -/
theorem threadAhead_of_dispatch (h : Orderly n s) {s' : Sched C} {p q : ℤ}
    (hturn : Turn s s' (some (p, q))) {t : ℤ} (ht : t ∈ threadNames s p) (htq : t ≠ q)
    (hwait : threadStatus s p t = taskWaiting ∨ threadStatus s' p t = taskWaiting) :
    ThreadAhead s' p t q := by
  obtain ⟨hp, hq⟩ := hturn.listed p q rfl
  have hmade : 0 ≤ p ∧ p < s.taskCnt := by
    rcases h.other p hp with hmade | ⟨-, -, hempty⟩
    · exact hmade
    · rw [hempty] at hq
      cases hq
  have hnames : threadNames s' p = threadNames s p := hturn.names.threadTags p hp
  obtain ⟨d, -, hone, hthread⟩ := hturn.thread p hp
  obtain ⟨hidle, hstatus⟩ := hthread t ht fun hgot => by cases hgot; exact htq rfl
  refine ⟨?_, ?_, ?_, ?_, ?_⟩
  · rw [hturn.taskCnt]
    exact hmade
  · rw [hnames]
    exact ht
  · rw [hnames]
    exact hq
  · rw [hidle, (hturn.reset p q rfl).2, hone q rfl]
    exact Nat.succ_pos _
  · rcases hwait with hwait | hwait
    · rcases hstatus with hsame | hwait'
      · rw [hsame]
        exact hwait
      · exact hwait'
    · exact hwait

/-! ## Runs -/

omit [DecidableEq C] in
/-- INTERNAL: before the first step. -/
theorem orderly_init (junk : Task) (cpus : C → Cpu) : Orderly 0 (Sched.init junk cpus) where
  nodup := List.nodup_nil
  made k hpos hlt := absurd hlt (not_lt_of_ge hpos)
  other k hk := by cases hk
  threadsNodup k hk := by cases hk
  threads k hk := by cases hk
  cpus c := .inl rfl
  taskIdle k hk := by cases hk
  threadIdle k hk := by cases hk

/-- INTERNAL: after some steps. A task that one of them made has a number below the next one. -/
theorem orderly_run (ops : List (SchedOp C)) (h : Orderly n s) (hn : n + ops.length < 2 ^ 64)
    (hok : ∀ op ∈ ops, op.PlaceholderOk) :
    Orderly (n + ops.length) (afterOps s ops) ∧ s.taskCnt ≤ (afterOps s ops).taskCnt ∧
      ∀ k, MadeIn s ops k → 0 ≤ k ∧ k < (afterOps s ops).taskCnt := by
  induction ops generalizing n s with
  | nil => exact ⟨h, Nat.le_refl _, fun k hk => hk.elim⟩
  | cons op rest ih =>
    have hlen : n + 1 + rest.length < 2 ^ 64 := by
      rw [List.length_cons] at hn
      omega
    have hok' := hok op (List.mem_cons_self ..)
    have hle := taskCnt_le h (by omega) hok'
    obtain ⟨horder, hle', hmade⟩ := ih (step_orderly h (by omega) hok').1 hlen
      (fun o ho => hok o (List.mem_cons_of_mem _ ho))
    refine ⟨?_, Nat.le_trans hle hle', fun k hk => ?_⟩
    · rw [List.length_cons, Nat.add_comm rest.length, ← Nat.add_assoc]
      exact horder
    · rcases hk with hk | hk
      · cases op with
        | createTask ppid pageMap kernelMapping junk₁ junk₂ =>
          cases hk
          have hcnt : ((SchedOp.createTask ppid pageMap kernelMapping junk₁ junk₂).after s).taskCnt =
              s.taskCnt + 1 := rfl
          rw [hcnt] at hle'
          have hlt : (s.taskCnt : ℤ) < (afterOps s
              (SchedOp.createTask ppid pageMap kernelMapping junk₁ junk₂ :: rest)).taskCnt := by
            exact_mod_cast hle'
          exact ⟨Int.natCast_nonneg _, hlt⟩
        | createThread => cases hk
        | reschedule => cases hk
      · exact hmade k hk

omit [DecidableEq C] in
theorem afterOps_append [DecidableEq C] (s : Sched C) (before : List (SchedOp C)) (op : SchedOp C)
    (later : List (SchedOp C)) :
    afterOps s (before ++ op :: later) = afterOps (op.after (afterOps s before)) later := by
  unfold afterOps
  rw [List.foldl_append, List.foldl_cons]

/-- **No overtaking**: after a dispatch of the thread `tid` of the task `pid`, on any processor, that
task is not dispatched again while another task that was made waits, and the thread is not dispatched
again before another thread of the task that was waiting then.
SRCLINE: kernel/sched/scheduler.cpp:121-218 -/
theorem scheduler_no_overtaking (junk : Task) (cpus : C → Cpu) (before later : List (SchedOp C))
    (op op' : SchedOp C) (hlen : before.length + later.length + 2 < 2 ^ 64)
    (hok : ∀ o ∈ before ++ op :: later ++ [op'], o.PlaceholderOk) {pid tid : ℤ}
    (hgot : op.dispatched (afterOps (Sched.init junk cpus) before) = some (pid, tid)) :
    (∀ k, MadeIn (Sched.init junk cpus) before k → k ≠ pid →
      (∀ mid, mid <+: later →
        taskStatus (afterOps (Sched.init junk cpus) (before ++ op :: mid)) k = taskWaiting) →
      ∀ q, op'.dispatched (afterOps (Sched.init junk cpus) (before ++ op :: later)) ≠
        some (pid, q)) ∧
    ∀ t ∈ threadNames (afterOps (Sched.init junk cpus) before) pid, t ≠ tid →
      (threadStatus (afterOps (Sched.init junk cpus) before) pid t = taskWaiting ∨
        threadStatus (afterOps (Sched.init junk cpus) (before ++ [op])) pid t = taskWaiting) →
      (∀ mid o, mid ++ [o] <+: later →
        o.dispatched (afterOps (Sched.init junk cpus) (before ++ op :: mid)) ≠ some (pid, t)) →
      op'.dispatched (afterOps (Sched.init junk cpus) (before ++ op :: later)) ≠ some (pid, tid) := by
  obtain ⟨horder, -, hmade⟩ := orderly_run before (orderly_init junk cpus) (by omega)
    (fun o ho => hok o (by simp [ho]))
  have hop : op.PlaceholderOk := hok op (by simp)
  have hop' : op'.PlaceholderOk := hok op' (by simp)
  have hlater : ∀ o ∈ later, o.PlaceholderOk := fun o ho => hok o (by simp [ho])
  obtain ⟨hnext, hstep⟩ := step_orderly horder (by omega) hop
  have hturn : Turn (afterOps (Sched.init junk cpus) before)
      (op.after (afterOps (Sched.init junk cpus) before)) (some (pid, tid)) := by
    rcases hstep with hturn | ⟨hnone, -⟩
    · rw [hgot] at hturn
      exact hturn
    · rw [hgot] at hnone
      cases hnone
  constructor
  · intro k hk hkp hwait q
    have hahead := taskAhead_of_dispatch horder hturn (hmade k hk) hkp
    have hwaits : ∀ mid, mid <+: later → taskStatus (afterOps
        (op.after (afterOps (Sched.init junk cpus) before)) mid) k = taskWaiting := by
      intro mid hmid
      rw [← afterOps_append]
      exact hwait mid hmid
    obtain ⟨hlast, hahead'⟩ := hahead.run later hnext (by omega) hlater hwaits
    rw [afterOps_append]
    exact (hahead'.step hlast (by omega) (hwaits later (List.prefix_refl _)) hop').1 q
  · intro t ht htq hwait hnot
    have hwait' : threadStatus (afterOps (Sched.init junk cpus) before) pid t = taskWaiting ∨
        threadStatus (op.after (afterOps (Sched.init junk cpus) before)) pid t = taskWaiting := by
      rw [afterOps_append] at hwait
      exact hwait
    have hahead := threadAhead_of_dispatch horder hturn ht htq hwait'
    obtain ⟨hlast, hahead'⟩ := hahead.run later hnext (by omega) hlater (fun mid o hmid => by
      rw [← afterOps_append]
      exact hnot mid o hmid)
    rw [afterOps_append]
    exact (hahead'.step hlast (by omega) hop').1

/-- INTERNAL: two tasks with a kernel thread each, and a second thread of the first. -/
def twoTasks : List (SchedOp Bool) :=
  [.createTask (-1) none 0x1000 zeroTask zeroTask,
    .createThread 0 0x200000 8 0xffff800000000000 0x5000 0 [] [] zeroTask zeroThread,
    .createThread 0 0x200000 8 0xffff800000000000 0x6000 0 [] [] zeroTask zeroThread,
    .createTask (-1) none 0x1000 zeroTask zeroTask,
    .createThread 1 0x200000 8 0xffff800000000000 0x7000 0 [] [] zeroTask zeroThread]

/-- INTERNAL: a timer interrupt of kernel code. -/
def tick (c : Bool) : SchedOp Bool := .reschedule c zeroRegs ⟨1, 2, 3⟩ zeroTask zeroThread

/-- The first task is dispatched and interrupted at once: the other task comes next, and then the second
thread of the first task before its first thread. -/
theorem scheduler_no_overtaking_ticks :
    (∀ q, (tick true).dispatched (afterOps (Sched.init zeroTask fun _ => ⟨0, 0, 0, 0⟩)
      (twoTasks ++ [tick true])) ≠ some (0, q)) ∧
    (tick false).dispatched (afterOps (Sched.init zeroTask fun _ => ⟨0, 0, 0, 0⟩)
      (twoTasks ++ [tick true, tick true])) ≠ some (0, 0) := by
  have hgot : (tick true).dispatched (afterOps (Sched.init zeroTask fun _ => ⟨0, 0, 0, 0⟩) twoTasks) =
      some (0, 0) := by decide
  constructor
  · apply (scheduler_no_overtaking zeroTask (fun _ => ⟨0, 0, 0, 0⟩) twoTasks [] (tick true) (tick true)
      (by decide) (by decide) hgot).1 1
    · decide
    · decide
    · intro mid hmid
      rw [List.prefix_nil] at hmid
      rw [hmid]
      decide
  · apply (scheduler_no_overtaking zeroTask (fun _ => ⟨0, 0, 0, 0⟩) twoTasks [tick true] (tick true)
      (tick false) (by decide) (by decide) hgot).2 1
    · decide
    · decide
    · exact .inl (by decide)
    · intro mid o hmid
      obtain ⟨rfl, rfl⟩ : mid = [] ∧ o = tick true := by
        have hlen := hmid.length_le
        cases mid with
        | nil => exact ⟨rfl, List.head_eq_of_cons_eq (List.IsPrefix.eq_of_length hmid rfl)⟩
        | cons _ _ => simp at hlen
      decide

end CrepOS.Analysis
