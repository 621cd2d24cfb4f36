import Mathlib.Data.List.Nodup
import CrepOS.Interface.SchedTurns
import CrepOS.Analysis.SchedExclusive

/-!
# The idle counters

Every call of `reschedule` adds one to the idle counters of all tasks, and then to those of the threads
of the task that it chose; a dispatch sets the counters of the task and of the thread to zero. `Turn`
says what one call does to the counters and the statuses (`reschedule_turn`), `Grown` what the making of
tasks and threads leaves alone. `Orderly` is the invariant that the calls rely on.
-/

set_option autoImplicit false

namespace CrepOS.Analysis

open CrepOS.Model CrepOS.Interface

/-! ## The choice of the largest counter -/

section Pick

variable {α : Type} {idle : α → ℕ} {setIdle : α → ℕ → α} {status : α → ℕ} {name : α → ℤ}

/-- INTERNAL: the loop adds one to every counter.
SRCLINE: kernel/sched/scheduler.cpp:127-141 -/
theorem pickIdle_counts (tags : List ℤ) (hnodup : tags.Nodup) (data : ℤ → α) (cnt : ℕ) (ret : ℤ)
    (k : ℤ) :
    (pickIdle idle setIdle status name tags data cnt ret).1 k =
      if k ∈ tags then setIdle (data k) ((idle (data k) + 1) % 2 ^ 64) else data k := by
  induction tags generalizing data cnt ret with
  | nil => rfl
  | cons tag tags ih =>
    obtain ⟨hnew, hnodup⟩ := List.nodup_cons.mp hnodup
    have hrest : ∀ cnt ret,
        (pickIdle idle setIdle status name tags
          (Function.update data tag (setIdle (data tag) ((idle (data tag) + 1) % 2 ^ 64))) cnt ret).1 k =
        if k ∈ tag :: tags then setIdle (data k) ((idle (data k) + 1) % 2 ^ 64) else data k := by
      intro cnt ret
      rw [ih hnodup]
      by_cases hk : k = tag
      · subst hk
        rw [if_neg hnew, Function.update_self, if_pos (List.mem_cons_self ..)]
      · rw [Function.update_of_ne hk]
        simp only [List.mem_cons, hk, false_or]
    rw [pickIdle]
    split
    · exact hrest _ _
    · exact hrest _ _

/-- INTERNAL: the loop chooses the first waiting element whose new counter is the largest of those that
wait.
SRCLINE: kernel/sched/scheduler.cpp:127-141 -/
theorem pickIdle_first (hidle : ∀ e n, idle (setIdle e n) = n)
    (hstatus : ∀ e n, status (setIdle e n) = status e) (hname : ∀ e n, name (setIdle e n) = name e)
    (tags : List ℤ) (hnodup : tags.Nodup) (data : ℤ → α) (cnt : ℕ) (ret : ℤ) :
    ((pickIdle idle setIdle status name tags data cnt ret).2 = ret ∧
        ∀ k ∈ tags, status (data k) = taskWaiting → (idle (data k) + 1) % 2 ^ 64 ≤ cnt) ∨
      ∃ before p later, tags = before ++ p :: later ∧ status (data p) = taskWaiting ∧
        (pickIdle idle setIdle status name tags data cnt ret).2 = name (data p) ∧
        cnt < (idle (data p) + 1) % 2 ^ 64 ∧
        (∀ k ∈ before, status (data k) = taskWaiting →
          (idle (data k) + 1) % 2 ^ 64 < (idle (data p) + 1) % 2 ^ 64) ∧
        ∀ k ∈ later, status (data k) = taskWaiting →
          (idle (data k) + 1) % 2 ^ 64 ≤ (idle (data p) + 1) % 2 ^ 64 := by
  induction tags generalizing data cnt ret with
  | nil => exact .inl ⟨rfl, fun k hk => by cases hk⟩
  | cons tag tags ih =>
    obtain ⟨hnew, hnodup⟩ := List.nodup_cons.mp hnodup
    -- the counter of `tag` does not matter to the rest of the loop
    have hold : ∀ k ∈ tags,
        Function.update data tag (setIdle (data tag) ((idle (data tag) + 1) % 2 ^ 64)) k = data k := by
      intro k hk
      apply Function.update_of_ne
      rintro rfl
      exact hnew hk
    rw [pickIdle]
    simp only [hidle, hstatus, hname]
    by_cases htag : status (data tag) = taskWaiting ∧ cnt < (idle (data tag) + 1) % 2 ^ 64
    · rw [if_pos htag]
      rcases ih hnodup _ _ _ with ⟨hret, hle⟩ | ⟨before, p, later, hsplit, hwait, hret, hlt, hbefore, hlater⟩
      · refine .inr ⟨[], tag, tags, rfl, htag.1, hret, htag.2, (fun k hk => by cases hk), fun k hk hk' => ?_⟩
        have hcnt := hle k hk
        rw [hold k hk] at hcnt
        exact hcnt hk'
      · subst hsplit
        rw [hold p (by simp)] at hwait hret hlt hbefore hlater
        refine .inr ⟨tag :: before, p, later, rfl, hwait, hret, by omega, fun k hk hk' => ?_, fun k hk hk' => ?_⟩
        · rcases List.mem_cons.mp hk with rfl | hk
          · exact hlt
          · have hcnt := hbefore k hk
            rw [hold k (by simp [hk])] at hcnt
            exact hcnt hk'
        · have hcnt := hlater k hk
          rw [hold k (by simp [hk])] at hcnt
          exact hcnt hk'
    · rw [if_neg htag]
      have hsmall : status (data tag) = taskWaiting → (idle (data tag) + 1) % 2 ^ 64 ≤ cnt :=
        fun hwait => Nat.not_lt.mp fun hlt => htag ⟨hwait, hlt⟩
      rcases ih hnodup _ _ _ with ⟨hret, hle⟩ | ⟨before, p, later, hsplit, hwait, hret, hlt, hbefore, hlater⟩
      · refine .inl ⟨hret, fun k hk hk' => ?_⟩
        rcases List.mem_cons.mp hk with rfl | hk
        · exact hsmall hk'
        · have hcnt := hle k hk
          rw [hold k hk] at hcnt
          exact hcnt hk'
      · subst hsplit
        rw [hold p (by simp)] at hwait hret hlt hbefore hlater
        refine .inr ⟨tag :: before, p, later, rfl, hwait, hret, hlt, fun k hk hk' => ?_, fun k hk hk' => ?_⟩
        · rcases List.mem_cons.mp hk with rfl | hk
          · exact Nat.lt_of_le_of_lt (hsmall hk') hlt
          · have hcnt := hbefore k hk
            rw [hold k (by simp [hk])] at hcnt
            exact hcnt hk'
        · have hcnt := hlater k hk
          rw [hold k (by simp [hk])] at hcnt
          exact hcnt hk'

/-- INTERNAL: the counter of the choice is the largest. -/
theorem pickIdle_max (hidle : ∀ e n, idle (setIdle e n) = n)
    (hstatus : ∀ e n, status (setIdle e n) = status e) (hname : ∀ e n, name (setIdle e n) = name e)
    (tags : List ℤ) (hnodup : tags.Nodup) (data : ℤ → α) (cnt : ℕ) (ret : ℤ) :
    ((pickIdle idle setIdle status name tags data cnt ret).2 = ret ∧
        ∀ k ∈ tags, status (data k) = taskWaiting → (idle (data k) + 1) % 2 ^ 64 ≤ cnt) ∨
      ∃ p ∈ tags, status (data p) = taskWaiting ∧
        (pickIdle idle setIdle status name tags data cnt ret).2 = name (data p) ∧
        cnt < (idle (data p) + 1) % 2 ^ 64 ∧
        ∀ k ∈ tags, status (data k) = taskWaiting →
          (idle (data k) + 1) % 2 ^ 64 ≤ (idle (data p) + 1) % 2 ^ 64 := by
  rcases pickIdle_first hidle hstatus hname tags hnodup data cnt ret with
    hnone | ⟨before, p, later, rfl, hwait, hret, hlt, hbefore, hlater⟩
  · exact .inl hnone
  · refine .inr ⟨p, by simp, hwait, hret, hlt, fun k hk hk' => ?_⟩
    rcases List.mem_append.mp hk with hk | hk
    · exact Nat.le_of_lt (hbefore k hk hk')
    · rcases List.mem_cons.mp hk with rfl | hk
      · exact Nat.le_refl _
      · exact hlater k hk hk'

end Pick

/-! ## The invariant of the lists -/

variable {C : Type}

/-- Names and lists of the tasks and threads of `m` are those of `m'`. -/
structure SameNames (m m' : Map ℤ Task) : Prop where
  tags : m'.tags = m.tags
  pid : ∀ k ∈ m.tags, (m'.data k).pid = (m.data k).pid
  threadTags : ∀ k ∈ m.tags, (m'.data k).threads.tags = (m.data k).threads.tags
  tid : ∀ k ∈ m.tags, ∀ t ∈ (m.data k).threads.tags,
    ((m'.data k).threads.data t).tid = ((m.data k).threads.data t).tid

theorem SameNames.refl (m : Map ℤ Task) : SameNames m m :=
  ⟨rfl, fun _ _ => rfl, fun _ _ => rfl, fun _ _ _ _ => rfl⟩

theorem SameNames.trans {m m' m'' : Map ℤ Task} (h : SameNames m m') (h' : SameNames m' m'') :
    SameNames m m'' where
  tags := h'.tags.trans h.tags
  pid k hk := (h'.pid k (h.tags ▸ hk)).trans (h.pid k hk)
  threadTags k hk := (h'.threadTags k (h.tags ▸ hk)).trans (h.threadTags k hk)
  tid k hk t ht := (h'.tid k (h.tags ▸ hk) t (h.threadTags k hk ▸ ht)).trans (h.tid k hk t ht)

/-- **The invariant**, after `n` steps: the tags are the names of the tasks and threads, a task that was
made is in the list, what else is in it is a placeholder, the records of the processors name listed
threads, and no counter is more than `n`. -/
structure Orderly (n : ℕ) (s : Sched C) : Prop where
  nodup : s.taskList.tags.Nodup
  made : ∀ k : ℤ, 0 ≤ k → k < s.taskCnt → k ∈ s.taskList.tags ∧ (s.taskList.data k).pid = k
  other : ∀ k ∈ s.taskList.tags, 0 ≤ k ∧ k < s.taskCnt ∨ (s.taskList.data k).pid = -1 ∧
    taskStatus s k ≠ taskWaiting ∧ threadNames s k = []
  threadsNodup : ∀ k ∈ s.taskList.tags, (threadNames s k).Nodup
  threads : ∀ k ∈ s.taskList.tags, ∀ t ∈ threadNames s k,
    ((s.taskList.data k).threads.data t).tid = t ∧ 0 ≤ t ∧ t < s.threadCnt
  cpus : ∀ c, (s.cpus c).pid = -1 ∨
    (s.cpus c).pid ∈ s.taskList.tags ∧ (s.cpus c).tid ∈ threadNames s (s.cpus c).pid
  taskIdle : ∀ k ∈ s.taskList.tags, (s.taskList.data k).idleCnt ≤ n
  threadIdle : ∀ k ∈ s.taskList.tags, ∀ t ∈ threadNames s k,
    ((s.taskList.data k).threads.data t).idleCnt ≤ n

variable {n : ℕ} {s : Sched C}

/-- INTERNAL: a task that waits is one that was made. -/
theorem Orderly.name_of_waiting (h : Orderly n s) {k : ℤ} (hk : k ∈ s.taskList.tags)
    (hwait : taskStatus s k = taskWaiting) : (s.taskList.data k).pid = k ∧ 0 ≤ k := by
  rcases h.other k hk with ⟨hpos, hlt⟩ | ⟨-, hstatus, -⟩
  · exact ⟨(h.made k hpos hlt).2, hpos⟩
  · exact absurd hwait hstatus

/-! ## One call of `reschedule` -/

/-- What a call of `reschedule` does that dispatches `got`: the counters of the others become larger,
those of all tasks by the same amount and those of the threads of one task by the same amount, and
nobody else gets a status but that of waiting. -/
structure Turn (s s' : Sched C) (got : Option (ℤ × ℤ)) : Prop where
  names : SameNames s.taskList s'.taskList
  taskCnt : s'.taskCnt = s.taskCnt
  threadCnt : s'.threadCnt = s.threadCnt
  task : ∀ k ∈ s.taskList.tags, (∀ q, got ≠ some (k, q)) →
    (s'.taskList.data k).idleCnt = (s.taskList.data k).idleCnt + 1 ∧
      (taskStatus s' k = taskStatus s k ∨ taskStatus s' k = taskWaiting ∧ threadNames s k ≠ [])
  thread : ∀ k ∈ s.taskList.tags, ∃ d ≤ 1, (∀ q, got = some (k, q) → d = 1) ∧
    ∀ t ∈ threadNames s k, got ≠ some (k, t) →
      ((s'.taskList.data k).threads.data t).idleCnt =
          ((s.taskList.data k).threads.data t).idleCnt + d ∧
        (threadStatus s' k t = threadStatus s k t ∨ threadStatus s' k t = taskWaiting)
  cpus : ∀ d, s'.cpus d = s.cpus d ∨ got = some ((s'.cpus d).pid, (s'.cpus d).tid)
  listed : ∀ p q, got = some (p, q) → p ∈ s.taskList.tags ∧ q ∈ threadNames s p
  reset : ∀ p q, got = some (p, q) → (s'.taskList.data p).idleCnt = 0 ∧
    ((s'.taskList.data p).threads.data q).idleCnt = 0
  running : ∀ p q, got = some (p, q) → taskStatus s' p = taskRunning ∧
    threadStatus s' p q = taskRunning
  largestTask : ∀ p q, got = some (p, q) → ∀ k ∈ s.taskList.tags, taskStatus s k = taskWaiting →
    (s.taskList.data k).idleCnt ≤ (s.taskList.data p).idleCnt
  largestThread : ∀ p q, got = some (p, q) → ∀ t ∈ threadNames s p,
    threadStatus s p t = taskWaiting →
      ((s.taskList.data p).threads.data t).idleCnt ≤ ((s.taskList.data p).threads.data q).idleCnt

/-- INTERNAL: the choice of a task.
SRCLINE: kernel/sched/scheduler.cpp:127-141 -/
theorem nextPid_turn (h : Orderly n s) (hn : n + 1 < 2 ^ 64) :
    (nextPid s.taskList).1.tags = s.taskList.tags ∧
      (∀ k ∈ s.taskList.tags, (nextPid s.taskList).1.data k =
        { s.taskList.data k with idleCnt := (s.taskList.data k).idleCnt + 1 }) ∧
      ((nextPid s.taskList).2 = -1 ∧ (∀ k ∈ s.taskList.tags, taskStatus s k ≠ taskWaiting) ∨
        (nextPid s.taskList).2 ∈ s.taskList.tags ∧ (nextPid s.taskList).2 ≠ -1 ∧
          ∀ k ∈ s.taskList.tags, taskStatus s k = taskWaiting →
            (s.taskList.data k).idleCnt ≤ (s.taskList.data (nextPid s.taskList).2).idleCnt) := by
  have hwrap : ∀ k ∈ s.taskList.tags, ((s.taskList.data k).idleCnt + 1) % 2 ^ 64 =
      (s.taskList.data k).idleCnt + 1 := by
    intro k hk
    have hle := h.taskIdle k hk
    exact Nat.mod_eq_of_lt (by omega)
  refine ⟨rfl, fun k hk => ?_, ?_⟩
  · have hcounts := @pickIdle_counts Task Task.idleCnt (fun t n => { t with idleCnt := n }) Task.status
      Task.pid s.taskList.tags h.nodup s.taskList.data 0 (-1) k
    rw [if_pos hk, hwrap k hk] at hcounts
    exact hcounts
  · have hmax := @pickIdle_max Task Task.idleCnt (fun t n => { t with idleCnt := n }) Task.status
      Task.pid (fun _ _ => rfl) (fun _ _ => rfl) (fun _ _ => rfl) s.taskList.tags h.nodup
      s.taskList.data 0 (-1)
    rcases hmax with ⟨hret, hle⟩ | ⟨p, hp, hwait, hret, -, hle⟩
    · refine .inl ⟨hret, fun k hk hwait => ?_⟩
      have hcnt := hle k hk hwait
      rw [hwrap k hk] at hcnt
      omega
    · obtain ⟨hname, hpos⟩ := h.name_of_waiting hp hwait
      have hret' : (nextPid s.taskList).2 = p := hret.trans hname
      rw [hret']
      refine .inr ⟨hp, by omega, fun k hk hk' => ?_⟩
      have hcnt := hle k hk hk'
      rw [hwrap k hk, hwrap p hp] at hcnt
      omega

/-- INTERNAL: the choice of a thread of a task.
SRCLINE: kernel/sched/scheduler.cpp:158-172 -/
theorem nextTid_turn {m : Map ℤ Thread} (hnodup : m.tags.Nodup)
    (hnames : ∀ t ∈ m.tags, (m.data t).tid = t ∧ 0 ≤ t) (hidle : ∀ t ∈ m.tags, (m.data t).idleCnt ≤ n)
    (hn : n + 1 < 2 ^ 64) :
    (nextTid m).1.tags = m.tags ∧
      (∀ t ∈ m.tags, (nextTid m).1.data t = { m.data t with idleCnt := (m.data t).idleCnt + 1 }) ∧
      ((nextTid m).2 = -1 ∨ (nextTid m).2 ∈ m.tags ∧ (nextTid m).2 ≠ -1 ∧
        ∀ t ∈ m.tags, (m.data t).status = taskWaiting →
          (m.data t).idleCnt ≤ (m.data (nextTid m).2).idleCnt) := by
  have hwrap : ∀ t ∈ m.tags, ((m.data t).idleCnt + 1) % 2 ^ 64 = (m.data t).idleCnt + 1 := by
    intro t ht
    have hle := hidle t ht
    exact Nat.mod_eq_of_lt (by omega)
  refine ⟨rfl, fun t ht => ?_, ?_⟩
  · have hcounts := @pickIdle_counts Thread Thread.idleCnt (fun t n => { t with idleCnt := n })
      Thread.status Thread.tid m.tags hnodup m.data 0 (-1) t
    rw [if_pos ht, hwrap t ht] at hcounts
    exact hcounts
  · have hmax := @pickIdle_max Thread Thread.idleCnt (fun t n => { t with idleCnt := n })
      Thread.status Thread.tid (fun _ _ => rfl) (fun _ _ => rfl) (fun _ _ => rfl) m.tags hnodup
      m.data 0 (-1)
    rcases hmax with ⟨hret, -⟩ | ⟨q, hq, -, hret, -, hle⟩
    · exact .inl hret
    · obtain ⟨hname, hpos⟩ := hnames q hq
      have hret' : (nextTid m).2 = q := hret.trans hname
      rw [hret']
      refine .inr ⟨hq, by omega, fun t ht ht' => ?_⟩
      have hcnt := hle t ht ht'
      rw [hwrap t ht, hwrap q hq] at hcnt
      omega

/-- What the two choices do to the list of tasks `m`: the counters of all tasks, and those of the threads
of the tasks `k` with `chosen k`, become larger by one. -/
structure Aged (m m' : Map ℤ Task) (chosen : ℤ → Prop) : Prop where
  names : SameNames m m'
  idle : ∀ k ∈ m.tags, (m'.data k).idleCnt = (m.data k).idleCnt + 1
  status : ∀ k ∈ m.tags, (m'.data k).status = (m.data k).status
  threads : ∀ k ∈ m.tags, ¬ chosen k → (m'.data k).threads = (m.data k).threads
  aged : ∀ k ∈ m.tags, chosen k → ∀ t ∈ (m.data k).threads.tags, (m'.data k).threads.data t =
    { (m.data k).threads.data t with idleCnt := ((m.data k).threads.data t).idleCnt + 1 }

/-- INTERNAL: the choice of a task alone. -/
theorem aged_nextPid (h : Orderly n s) (hn : n + 1 < 2 ^ 64) :
    Aged s.taskList (nextPid s.taskList).1 fun _ => False := by
  obtain ⟨htags, hdata, -⟩ := nextPid_turn h hn
  refine ⟨⟨htags, fun k hk => ?_, fun k hk => ?_, fun k hk t _ => ?_⟩, fun k hk => ?_, fun k hk => ?_,
    fun k hk _ => ?_, fun k hk hfalse => hfalse.elim⟩
  · rw [hdata k hk]
  · rw [hdata k hk]
  · rw [hdata k hk]
  · rw [hdata k hk]
  · rw [hdata k hk]
  · rw [hdata k hk]

/-- INTERNAL: the choice of a task and of a thread of the task `p`. -/
theorem aged_nextTid (h : Orderly n s) (hn : n + 1 < 2 ^ 64) {p : ℤ} (hp : p ∈ s.taskList.tags) :
    Aged s.taskList ((nextPid s.taskList).1.put p { (nextPid s.taskList).1.data p with
      threads := (nextTid ((nextPid s.taskList).1.data p).threads).1 }) fun k => k = p := by
  obtain ⟨htags, hdata, -⟩ := nextPid_turn h hn
  have hthreads : ((nextPid s.taskList).1.data p).threads = (s.taskList.data p).threads := by
    rw [hdata p hp]
  obtain ⟨htags', hdata', -⟩ := nextTid_turn (m := (s.taskList.data p).threads)
    (h.threadsNodup p hp) (fun t ht => ⟨(h.threads p hp t ht).1, (h.threads p hp t ht).2.1⟩)
    (h.threadIdle p hp) hn
  have hself : ∀ k ∈ s.taskList.tags, k = p → ((nextPid s.taskList).1.put p
      { (nextPid s.taskList).1.data p with
        threads := (nextTid ((nextPid s.taskList).1.data p).threads).1 }).data k =
      { s.taskList.data k with
        idleCnt := (s.taskList.data k).idleCnt + 1
        threads := (nextTid (s.taskList.data k).threads).1 } := by
    rintro k hk rfl
    simp only [Map.put, Function.update_self, hdata k hk]
  have hother : ∀ k ∈ s.taskList.tags, k ≠ p → ((nextPid s.taskList).1.put p
      { (nextPid s.taskList).1.data p with
        threads := (nextTid ((nextPid s.taskList).1.data p).threads).1 }).data k =
      { s.taskList.data k with idleCnt := (s.taskList.data k).idleCnt + 1 } := by
    intro k hk hkp
    simp only [Map.put, Function.update_of_ne hkp, hdata k hk]
  refine ⟨⟨htags, fun k hk => ?_, fun k hk => ?_, fun k hk t ht => ?_⟩, fun k hk => ?_, fun k hk => ?_,
    fun k hk hkp => ?_, fun k hk hkp t ht => ?_⟩
  · by_cases hkp : k = p
    · rw [hself k hk hkp]
    · rw [hother k hk hkp]
  · by_cases hkp : k = p
    · rw [hself k hk hkp, hkp]
      exact htags'
    · rw [hother k hk hkp]
  · by_cases hkp : k = p
    · rw [hself k hk hkp]
      subst hkp
      rw [hdata' t ht]
    · rw [hother k hk hkp]
  · by_cases hkp : k = p
    · rw [hself k hk hkp]
    · rw [hother k hk hkp]
  · by_cases hkp : k = p
    · rw [hself k hk hkp]
    · rw [hother k hk hkp]
  · rw [hother k hk hkp]
  · rw [hself k hk hkp]
    subst hkp
    exact hdata' t ht

/-- INTERNAL: a call that dispatches nothing. -/
theorem Aged.turn_none {m' : Map ℤ Task} {chosen : ℤ → Prop} (h : Aged s.taskList m' chosen) :
    Turn s { s with taskList := m' } none where
  names := h.names
  taskCnt := rfl
  threadCnt := rfl
  task k hk _ := ⟨h.idle k hk, .inl (h.status k hk)⟩
  thread k hk := by
    by_cases hchosen : chosen k
    · refine ⟨1, Nat.le_refl _, fun _ _ => rfl, fun t ht _ => ?_⟩
      unfold threadStatus
      rw [h.aged k hk hchosen t ht]
      exact ⟨rfl, .inl rfl⟩
    · refine ⟨0, Nat.zero_le _, (fun q hgot => by cases hgot), fun t ht _ => ?_⟩
      unfold threadStatus
      rw [h.threads k hk hchosen]
      exact ⟨rfl, .inl rfl⟩
  cpus d := .inl rfl
  listed p q hgot := by cases hgot
  reset p q hgot := by cases hgot
  running p q hgot := by cases hgot
  largestTask p q hgot := by cases hgot
  largestThread p q hgot := by cases hgot

/-- INTERNAL: storing the context of the interrupted thread sets only statuses, to that of waiting.
SRCLINE: kernel/sched/scheduler.cpp:183-193 -/
theorem saveLast_keeps {m : Map ℤ Task} (cpu : Cpu) (regs : Regs) (msrs : Msrs) (junkTask : Task)
    (junk : Thread)
    (hcpu : cpu.pid = -1 ∨ cpu.pid ∈ m.tags ∧ cpu.tid ∈ (m.data cpu.pid).threads.tags) :
    SameNames m (saveLast m cpu regs msrs junkTask junk) ∧
      ∀ k, ((saveLast m cpu regs msrs junkTask junk).data k).idleCnt = (m.data k).idleCnt ∧
        (((saveLast m cpu regs msrs junkTask junk).data k).status = (m.data k).status ∨
          ((saveLast m cpu regs msrs junkTask junk).data k).status = taskWaiting ∧
            (m.data k).threads.tags ≠ []) ∧
        ∀ t, (((saveLast m cpu regs msrs junkTask junk).data k).threads.data t).idleCnt =
            ((m.data k).threads.data t).idleCnt ∧
          ((((saveLast m cpu regs msrs junkTask junk).data k).threads.data t).status =
              ((m.data k).threads.data t).status ∨
            (((saveLast m cpu regs msrs junkTask junk).data k).threads.data t).status =
              taskWaiting) := by
  by_cases hrun : cpu.tid ≠ -1 ∧ cpu.pid ≠ -1
  · obtain ⟨hpid, htid⟩ := hcpu.resolve_left hrun.2
    obtain ⟨e, hidle, htid', hstatus, hsaved⟩ : ∃ e : Thread,
        e.idleCnt = ((m.data cpu.pid).threads.data cpu.tid).idleCnt ∧
        e.tid = ((m.data cpu.pid).threads.data cpu.tid).tid ∧ e.status = taskWaiting ∧
        saveLast m cpu regs msrs junkTask junk = m.put cpu.pid { m.data cpu.pid with
          threads := (m.data cpu.pid).threads.put cpu.tid e
          status := taskWaiting } := by
      unfold saveLast
      simp only [if_pos hrun, map_touch_of_mem hpid, map_touch_of_mem htid]
      refine ⟨_, ?_, ?_, ?_, rfl⟩
      · rfl
      · rfl
      · rfl
    have hself : (saveLast m cpu regs msrs junkTask junk).data cpu.pid = { m.data cpu.pid with
        threads := (m.data cpu.pid).threads.put cpu.tid e
        status := taskWaiting } := by
      rw [hsaved]
      exact Function.update_self _ _ _
    have hother : ∀ k, k ≠ cpu.pid →
        (saveLast m cpu regs msrs junkTask junk).data k = m.data k := by
      intro k hk
      rw [hsaved]
      exact Function.update_of_ne hk _ _
    refine ⟨⟨by rw [hsaved]; rfl, fun k _ => ?_, fun k _ => ?_, fun k _ t _ => ?_⟩,
      fun k => ⟨?_, ?_, fun t => ?_⟩⟩
    · by_cases hk : k = cpu.pid
      · rw [hk, hself]
      · rw [hother k hk]
    · by_cases hk : k = cpu.pid
      · rw [hk, hself]
        rfl
      · rw [hother k hk]
    · by_cases hk : k = cpu.pid
      · rw [hk, hself]
        by_cases ht : t = cpu.tid
        · simp only [Map.put, ht, Function.update_self, htid']
        · simp only [Map.put, Function.update_of_ne ht]
      · rw [hother k hk]
    · by_cases hk : k = cpu.pid
      · rw [hk, hself]
      · rw [hother k hk]
    · by_cases hk : k = cpu.pid
      · rw [hk, hself]
        exact .inr ⟨rfl, List.ne_nil_of_mem htid⟩
      · rw [hother k hk]
        exact .inl rfl
    · by_cases hk : k = cpu.pid
      · rw [hk, hself]
        by_cases ht : t = cpu.tid
        · simp only [Map.put, ht, Function.update_self, hidle, hstatus, true_and, or_true]
        · simp only [Map.put, Function.update_of_ne ht, true_and, true_or]
      · rw [hother k hk]
        exact ⟨rfl, .inl rfl⟩
  · have hsame : saveLast m cpu regs msrs junkTask junk = m := if_neg hrun
    rw [hsame]
    exact ⟨SameNames.refl m, fun k => ⟨rfl, .inl rfl, fun t => ⟨rfl, .inl rfl⟩⟩⟩

variable [DecidableEq C]

/-- INTERNAL: the dispatch of the thread `q` of the task `p`, after the two choices and the store of the
interrupted context.
SRCLINE: kernel/sched/scheduler.cpp:195-217 -/
theorem dispatch_turn {c : C} {p q : ℤ} {m m' : Map ℤ Task} (msrs : Msrs)
    (haged : Aged s.taskList m fun k => k = p) (hp : p ∈ s.taskList.tags) (hq : q ∈ threadNames s p)
    (hnames : SameNames m m')
    (hkeeps : ∀ k, (m'.data k).idleCnt = (m.data k).idleCnt ∧
      ((m'.data k).status = (m.data k).status ∨
        (m'.data k).status = taskWaiting ∧ (m.data k).threads.tags ≠ []) ∧
      ∀ t, ((m'.data k).threads.data t).idleCnt = ((m.data k).threads.data t).idleCnt ∧
        (((m'.data k).threads.data t).status = ((m.data k).threads.data t).status ∨
          ((m'.data k).threads.data t).status = taskWaiting))
    (htask : ∀ k ∈ s.taskList.tags, taskStatus s k = taskWaiting →
      (s.taskList.data k).idleCnt ≤ (s.taskList.data p).idleCnt)
    (hthread : ∀ t ∈ threadNames s p, threadStatus s p t = taskWaiting →
      ((s.taskList.data p).threads.data t).idleCnt ≤ ((s.taskList.data p).threads.data q).idleCnt) :
    Turn s (dispatch { s with taskList := m' } c p q msrs).1 (some (p, q)) := by
  have hself : (dispatch { s with taskList := m' } c p q msrs).1.taskList.data p =
      { m'.data p with
        threads := (m'.data p).threads.put q
          { (m'.data p).threads.data q with idleCnt := 0, status := taskRunning }
        idleCnt := 0
        status := taskRunning } := Function.update_self _ _ _
  have hother : ∀ k, k ≠ p →
      (dispatch { s with taskList := m' } c p q msrs).1.taskList.data k = m'.data k :=
    fun k hk => Function.update_of_ne hk _ _
  have hdispatch : SameNames m' (dispatch { s with taskList := m' } c p q msrs).1.taskList := by
    refine ⟨rfl, fun k _ => ?_, fun k _ => ?_, fun k _ t _ => ?_⟩
    · by_cases hk : k = p
      · rw [hk, hself]
      · rw [hother k hk]
    · by_cases hk : k = p
      · rw [hk, hself]
        rfl
      · rw [hother k hk]
    · by_cases hk : k = p
      · rw [hk, hself]
        by_cases ht : t = q
        · simp only [Map.put, ht, Function.update_self]
        · simp only [Map.put, Function.update_of_ne ht]
      · rw [hother k hk]
  -- a thread that is not dispatched has what the two choices and the store left it
  have hkept : ∀ k t, ¬ (k = p ∧ t = q) →
      ((dispatch { s with taskList := m' } c p q msrs).1.taskList.data k).threads.data t =
        (m'.data k).threads.data t := by
    intro k t hkt
    by_cases hk : k = p
    · have ht : t ≠ q := fun ht => hkt ⟨hk, ht⟩
      rw [hk, hself]
      exact Function.update_of_ne ht _ _
    · rw [hother k hk]
  refine ⟨(haged.names.trans hnames).trans hdispatch, rfl, rfl, fun k hk hgot => ?_, fun k hk => ?_,
    fun d => ?_, ?_, ?_, ?_, ?_, ?_⟩
  · have hkp : k ≠ p := by
      rintro rfl
      exact hgot q rfl
    obtain ⟨hidle, hstatus, -⟩ := hkeeps k
    unfold taskStatus
    rw [hother k hkp, hidle, haged.idle k hk]
    rw [haged.status k hk, haged.names.threadTags k hk] at hstatus
    exact ⟨rfl, hstatus⟩
  · by_cases hkp : k = p
    · refine ⟨1, Nat.le_refl _, fun _ _ => rfl, fun t ht hgot => ?_⟩
      have hne : ¬ (k = p ∧ t = q) := by
        rintro ⟨rfl, rfl⟩
        exact hgot rfl
      obtain ⟨-, -, hthreads⟩ := hkeeps k
      obtain ⟨hidle, hstatus⟩ := hthreads t
      unfold threadStatus
      rw [hkept k t hne, hidle, haged.aged k hk hkp t ht]
      rw [haged.aged k hk hkp t ht] at hstatus
      exact ⟨rfl, hstatus⟩
    · refine ⟨0, Nat.zero_le _, (fun q' hgot => ?_), fun t ht hgot => ?_⟩
      · cases hgot
        exact absurd rfl hkp
      · obtain ⟨-, -, hthreads⟩ := hkeeps k
        obtain ⟨hidle, hstatus⟩ := hthreads t
        unfold threadStatus
        rw [hkept k t (fun hkt => hkp hkt.1), hidle, haged.threads k hk hkp]
        rw [haged.threads k hk hkp] at hstatus
        exact ⟨rfl, hstatus⟩
  · by_cases hd : d = c
    · subst hd
      simp only [dispatch, Function.update_self, or_true]
    · exact .inl (Function.update_of_ne hd _ _)
  · rintro p' q' hgot
    cases hgot
    exact ⟨hp, hq⟩
  · rintro p' q' hgot
    cases hgot
    rw [hself]
    exact ⟨rfl, by simp only [Map.put, Function.update_self]⟩
  · rintro p' q' hgot
    cases hgot
    unfold taskStatus threadStatus
    rw [hself]
    exact ⟨rfl, by simp only [Map.put, Function.update_self]⟩
  · rintro p' q' hgot
    cases hgot
    exact htask
  · rintro p' q' hgot
    cases hgot
    exact hthread

theorem dispatched_resume {s' : Sched C} {c : C} {regs : Regs} {m m' : Msrs} {junkTask : Task}
    {junk : Thread} (h : reschedule s c regs m junkTask junk = (s', .resume m')) :
    (SchedOp.reschedule c regs m junkTask junk).dispatched s = none := by
  simp only [SchedOp.dispatched, h]

theorem dispatched_dispatch {s' : Sched C} {c : C} {regs : Regs} {m m' : Msrs} {junkTask : Task}
    {junk : Thread} {p q : ℤ}
    (h : reschedule s c regs m junkTask junk = dispatch s' c p q m') :
    (SchedOp.reschedule c regs m junkTask junk).dispatched s = some (p, q) := by
  simp only [SchedOp.dispatched, h, dispatch, Function.update_self]

/-- **One call of `reschedule`** in an orderly state is a turn.
SRCLINE: kernel/sched/scheduler.cpp:121-218 -/
theorem reschedule_turn (h : Orderly n s) (hn : n + 1 < 2 ^ 64) (c : C) (regs : Regs) (m : Msrs)
    (junkTask : Task) (junk : Thread) :
    Turn s (reschedule s c regs m junkTask junk).1
      ((SchedOp.reschedule c regs m junkTask junk).dispatched s) := by
  obtain ⟨htags, hdata, hpick⟩ := nextPid_turn h hn
  -- the task that the call goes on with is in the list, unless there is none
  have hchosen : (nextPid s.taskList).2 = -1 ∧ (s.cpus c).pid = -1 ∨
      ∃ p, p ∈ s.taskList.tags ∧ ¬ ((nextPid s.taskList).2 = -1 ∧ (s.cpus c).pid = -1) ∧
        (if (nextPid s.taskList).2 = -1 then (s.cpus c).pid else (nextPid s.taskList).2) = p ∧
        ∀ k ∈ s.taskList.tags, taskStatus s k = taskWaiting →
          (s.taskList.data k).idleCnt ≤ (s.taskList.data p).idleCnt := by
    rcases hpick with ⟨hnone, hnowait⟩ | ⟨hmem, hne, hle⟩
    · rcases h.cpus c with hcpu | ⟨hmem, htid⟩
      · exact .inl ⟨hnone, hcpu⟩
      · refine .inr ⟨(s.cpus c).pid, hmem, ?_, if_pos hnone, fun k hk hwait => absurd hwait (hnowait k hk)⟩
        rintro ⟨-, hcpu⟩
        rcases h.other _ hmem with ⟨hpos, -⟩ | ⟨-, -, hempty⟩
        · omega
        · rw [hempty] at htid
          cases htid
    · exact .inr ⟨_, hmem, fun hnone => hne hnone.1, if_neg hne, hle⟩
  rcases hchosen with hidle | ⟨p, hp, hbusy, hchosen, htask⟩
  · have hresult : reschedule s c regs m junkTask junk =
        ({ s with taskList := (nextPid s.taskList).1 }, .resume ((m.swapFor regs).swapFor regs)) := by
      simp only [reschedule, if_pos hidle]
    rw [dispatched_resume hresult, hresult]
    exact (aged_nextPid h hn).turn_none
  · have haged := aged_nextTid h hn hp
    have hthreads : ((nextPid s.taskList).1.data p).threads = (s.taskList.data p).threads := by
      rw [hdata p hp]
    obtain ⟨htags', hdata', hpick'⟩ := nextTid_turn (m := (s.taskList.data p).threads)
      (h.threadsNodup p hp) (fun t ht => ⟨(h.threads p hp t ht).1, (h.threads p hp t ht).2.1⟩)
      (h.threadIdle p hp) hn
    have hp' : p ∈ (nextPid s.taskList).1.tags := htags ▸ hp
    by_cases htid : (nextTid ((nextPid s.taskList).1.data p).threads).2 = -1
    · have hresult : reschedule s c regs m junkTask junk =
          ({ s with taskList := (nextPid s.taskList).1.put p { (nextPid s.taskList).1.data p with
              threads := (nextTid ((nextPid s.taskList).1.data p).threads).1 } },
            .resume ((m.swapFor regs).swapFor regs)) := by
        simp only [reschedule, if_neg hbusy, hchosen, map_touch_of_mem hp', if_pos htid]
      rw [dispatched_resume hresult, hresult]
      exact haged.turn_none
    · have hpick'' := hpick'.resolve_left (by rw [← hthreads]; exact htid)
      rw [← hthreads] at hpick''
      obtain ⟨hq, -, hthread⟩ := hpick''
      -- the list after the two choices, in which the chosen thread is
      have hq' : (nextTid ((nextPid s.taskList).1.data p).threads).2 ∈
          (nextTid ((nextPid s.taskList).1.data p).threads).1.tags := hq
      obtain ⟨hnames, hkeeps⟩ := saveLast_keeps (m := (nextPid s.taskList).1.put p
          { (nextPid s.taskList).1.data p with
            threads := (nextTid ((nextPid s.taskList).1.data p).threads).1 })
        (s.cpus c) regs (m.swapFor regs) junkTask junk (by
          rcases h.cpus c with hcpu | ⟨hmem, htid⟩
          · exact .inl hcpu
          · refine .inr ⟨?_, ?_⟩
            · rw [haged.names.tags]
              exact hmem
            · rw [haged.names.threadTags _ hmem]
              exact htid)
      have hresult : (reschedule s c regs m junkTask junk) = dispatch { s with
          taskList := saveLast ((nextPid s.taskList).1.put p { (nextPid s.taskList).1.data p with
            threads := (nextTid ((nextPid s.taskList).1.data p).threads).1 }) (s.cpus c) regs
            (m.swapFor regs) junkTask junk } c p (nextTid ((nextPid s.taskList).1.data p).threads).2
          (m.swapFor regs) := by
        simp only [reschedule, if_neg hbusy, hchosen, map_touch_of_mem hp', if_neg htid,
          map_touch_of_mem hq', Map.put, Function.update_idem]
      have hlisted : (nextTid ((nextPid s.taskList).1.data p).threads).2 ∈ threadNames s p := by
        unfold threadNames
        rw [← hthreads]
        exact hq
      have hlargest : ∀ t ∈ threadNames s p, threadStatus s p t = taskWaiting →
          ((s.taskList.data p).threads.data t).idleCnt ≤ ((s.taskList.data p).threads.data
            (nextTid ((nextPid s.taskList).1.data p).threads).2).idleCnt := by
        unfold threadNames threadStatus
        rw [← hthreads]
        exact hthread
      rw [dispatched_dispatch hresult, hresult]
      exact dispatch_turn (m.swapFor regs) haged hp hlisted hnames hkeeps htask hlargest

/-! ## The steps keep the lists in order -/

omit [DecidableEq C] in
/-- INTERNAL: a turn. -/
theorem Orderly.turn {s' : Sched C} {got : Option (ℤ × ℤ)} (h : Orderly n s) (hturn : Turn s s' got) :
    Orderly (n + 1) s' := by
  have htags := hturn.names.tags
  have hthreadNames : ∀ k ∈ s.taskList.tags, threadNames s' k = threadNames s k :=
    hturn.names.threadTags
  refine ⟨?_, fun k hpos hlt => ?_, fun k hk => ?_, fun k hk => ?_, fun k hk t ht => ?_, fun c => ?_,
    fun k hk => ?_, fun k hk t ht => ?_⟩
  · rw [htags]
    exact h.nodup
  · rw [hturn.taskCnt] at hlt
    obtain ⟨hk, hpid⟩ := h.made k hpos hlt
    rw [htags, hturn.names.pid k hk]
    exact ⟨hk, hpid⟩
  · rw [htags] at hk
    rw [hturn.taskCnt, hturn.names.pid k hk, hthreadNames k hk]
    rcases h.other k hk with hmade | ⟨hpid, hstatus, hempty⟩
    · exact .inl hmade
    · -- a placeholder has no threads, so it is not dispatched or made to wait
      have hgot : ∀ q, got ≠ some (k, q) := by
        intro q hgot
        have hq := (hturn.listed k q hgot).2
        rw [hempty] at hq
        cases hq
      rcases (hturn.task k hk hgot).2 with hsame | ⟨-, hne⟩
      · rw [hsame]
        exact .inr ⟨hpid, hstatus, hempty⟩
      · exact absurd hempty hne
  · rw [htags] at hk
    rw [hthreadNames k hk]
    exact h.threadsNodup k hk
  · rw [htags] at hk
    rw [hthreadNames k hk] at ht
    rw [hturn.threadCnt, hturn.names.tid k hk t ht]
    exact h.threads k hk t ht
  · rcases hturn.cpus c with hsame | hgot
    · rw [hsame, htags]
      rcases h.cpus c with hcpu | ⟨hk, ht⟩
      · exact .inl hcpu
      · rw [hthreadNames _ hk]
        exact .inr ⟨hk, ht⟩
    · obtain ⟨hk, ht⟩ := hturn.listed _ _ hgot
      rw [htags, hthreadNames _ hk]
      exact .inr ⟨hk, ht⟩
  · rw [htags] at hk
    by_cases hgot : ∃ q, got = some (k, q)
    · obtain ⟨q, hgot⟩ := hgot
      rw [(hturn.reset k q hgot).1]
      exact Nat.zero_le _
    · rw [(hturn.task k hk fun q hq => hgot ⟨q, hq⟩).1]
      exact Nat.succ_le_succ (h.taskIdle k hk)
  · rw [htags] at hk
    rw [hthreadNames k hk] at ht
    by_cases hgot : got = some (k, t)
    · rw [(hturn.reset k t hgot).2]
      exact Nat.zero_le _
    · obtain ⟨d, hd, -, hthread⟩ := hturn.thread k hk
      rw [(hthread t ht hgot).1]
      exact Nat.add_le_add (h.threadIdle k hk t ht) hd

omit [DecidableEq C] in
/-- INTERNAL: a placeholder for an unknown task. -/
theorem Orderly.touch (h : Orderly n s) {junk : Task} (hjunk : junk.status ≠ taskWaiting) (k : ℤ) :
    Orderly n { s with taskList := s.taskList.touch k (Task.new junk) } := by
  unfold Map.touch
  by_cases hk : k ∈ s.taskList.tags
  · rw [if_pos hk]
    exact h
  · rw [if_neg hk]
    have hold : ∀ j ∈ s.taskList.tags,
        Function.update s.taskList.data k (Task.new junk) j = s.taskList.data j := by
      intro j hj
      apply Function.update_of_ne
      rintro rfl
      exact hk hj
    have hnew : Function.update s.taskList.data k (Task.new junk) k = Task.new junk :=
      Function.update_self _ _ _
    have hmem : ∀ j, j ∈ s.taskList.tags ++ [k] → j ∈ s.taskList.tags ∨ j = k := by
      intro j hj
      rw [List.mem_append, List.mem_singleton] at hj
      exact hj
    refine ⟨?_, fun j hpos hlt => ?_, fun j hj => ?_, fun j hj => ?_, fun j hj t ht => ?_, fun c => ?_,
      fun j hj => ?_, fun j hj t ht => ?_⟩
    · exact List.nodup_append.mpr ⟨h.nodup, List.nodup_singleton k,
        fun a ha b hb => by rintro rfl; exact hk (List.mem_singleton.mp hb ▸ ha)⟩
    · obtain ⟨hj, hpid⟩ := h.made j hpos hlt
      refine ⟨List.mem_append_left _ hj, ?_⟩
      simp only [hold j hj]
      exact hpid
    · simp only [taskStatus, threadNames]
      rcases hmem j hj with hj | rfl
      · rw [hold j hj]
        exact h.other j hj
      · rw [hnew]
        exact .inr ⟨rfl, hjunk, rfl⟩
    · simp only [threadNames]
      rcases hmem j hj with hj | rfl
      · rw [hold j hj]
        exact h.threadsNodup j hj
      · rw [hnew]
        exact List.nodup_nil
    · simp only [threadNames] at ht ⊢
      rcases hmem j hj with hj | rfl
      · rw [hold j hj] at ht ⊢
        exact h.threads j hj t ht
      · rw [hnew] at ht
        cases ht
    · rcases h.cpus c with hcpu | ⟨hj, ht⟩
      · exact .inl hcpu
      · refine .inr ⟨List.mem_append_left _ hj, ?_⟩
        simp only [threadNames, hold _ hj]
        exact ht
    · simp only
      rcases hmem j hj with hj | rfl
      · rw [hold j hj]
        exact h.taskIdle j hj
      · rw [hnew]
        exact Nat.zero_le _
    · simp only [threadNames] at ht ⊢
      rcases hmem j hj with hj | rfl
      · rw [hold j hj] at ht ⊢
        exact h.threadIdle j hj t ht
      · rw [hnew] at ht
        cases ht

omit [DecidableEq C] in
/-- INTERNAL: a task is put in the place that was made for it.
SRCLINE: kernel/sched/scheduler.cpp:28-30 -/
theorem Orderly.newTask (h : Orderly n s) (hmem : (s.taskCnt : ℤ) ∈ s.taskList.tags) {e : Task}
    (hpid : e.pid = s.taskCnt) (hidle : e.idleCnt = 0) (hempty : e.threads.tags = []) :
    Orderly n { s with taskList := s.taskList.put s.taskCnt e, taskCnt := s.taskCnt + 1 } := by
  have hnew : (s.taskList.put s.taskCnt e).data s.taskCnt = e := Function.update_self _ _ _
  have hold : ∀ j : ℤ, j ≠ s.taskCnt → (s.taskList.put s.taskCnt e).data j = s.taskList.data j :=
    fun j hj => Function.update_of_ne hj _ _
  have hplace : threadNames s s.taskCnt = [] := by
    rcases h.other _ hmem with ⟨-, hlt⟩ | ⟨-, -, hempty⟩
    · omega
    · exact hempty
  refine ⟨h.nodup, fun j hpos hlt => ?_, fun j hj => ?_, fun j hj => ?_, fun j hj t ht => ?_,
    fun c => ?_, fun j hj => ?_, fun j hj t ht => ?_⟩
  · by_cases hjc : j = s.taskCnt
    · subst hjc
      simp only [hnew, hpid]
      exact ⟨hmem, trivial⟩
    · simp only [hold j hjc]
      have hlt' : j < (s.taskCnt : ℤ) + 1 := by exact_mod_cast hlt
      exact h.made j hpos (by omega)
  · by_cases hjc : j = s.taskCnt
    · subst hjc
      exact .inl ⟨Int.natCast_nonneg _, by simp⟩
    · simp only [taskStatus, threadNames, hold j hjc]
      rcases h.other j hj with ⟨hpos, hlt⟩ | hother
      · refine .inl ⟨hpos, ?_⟩
        push_cast
        omega
      · exact .inr hother
  · by_cases hjc : j = s.taskCnt
    · subst hjc
      simp only [threadNames, hnew, hempty]
      exact List.nodup_nil
    · simp only [threadNames, hold j hjc]
      exact h.threadsNodup j hj
  · by_cases hjc : j = s.taskCnt
    · subst hjc
      simp only [threadNames, hnew, hempty] at ht
      cases ht
    · simp only [threadNames, hold j hjc] at ht ⊢
      exact h.threads j hj t ht
  · rcases h.cpus c with hcpu | ⟨hj, ht⟩
    · exact .inl hcpu
    · have hjc : (s.cpus c).pid ≠ s.taskCnt := by
        intro heq
        rw [heq, hplace] at ht
        cases ht
      refine .inr ⟨hj, ?_⟩
      simp only [threadNames, hold _ hjc]
      exact ht
  · by_cases hjc : j = s.taskCnt
    · subst hjc
      simp only [hnew, hidle]
      exact Nat.zero_le _
    · simp only [hold j hjc]
      exact h.taskIdle j hj
  · by_cases hjc : j = s.taskCnt
    · subst hjc
      simp only [threadNames, hnew, hempty] at ht
      cases ht
    · simp only [threadNames, hold j hjc] at ht ⊢
      exact h.threadIdle j hj t ht

omit [DecidableEq C] in
/-- INTERNAL: a thread is added to a task that was made.
SRCLINE: kernel/sched/scheduler.cpp:116 -/
theorem Orderly.newThread (h : Orderly n s) {pid : ℤ} (hmem : pid ∈ s.taskList.tags)
    (hpid : (s.taskList.data pid).pid ≠ -1) {e : Thread} (junk : Thread) (htid : e.tid = s.threadCnt)
    (hidle : e.idleCnt = 0) :
    Orderly n { s with
      taskList := s.taskList.put pid { s.taskList.data pid with
        threads := ((s.taskList.data pid).threads.touch s.threadCnt junk).put s.threadCnt e }
      threadCnt := s.threadCnt + 1 } := by
  have hfresh : (s.threadCnt : ℤ) ∉ threadNames s pid := fun hin =>
    absurd (h.threads pid hmem _ hin).2.2 (Int.lt_irrefl _)
  have htouch : (s.taskList.data pid).threads.touch s.threadCnt junk =
      ⟨(s.taskList.data pid).threads.tags ++ [(s.threadCnt : ℤ)],
        Function.update (s.taskList.data pid).threads.data s.threadCnt junk⟩ := if_neg hfresh
  rw [htouch]
  have hself : ∀ k, k = pid → (s.taskList.put pid { s.taskList.data pid with
      threads := (⟨(s.taskList.data pid).threads.tags ++ [(s.threadCnt : ℤ)], Function.update
        (s.taskList.data pid).threads.data s.threadCnt junk⟩ : Map ℤ Thread).put s.threadCnt e }).data
      k = { s.taskList.data pid with
        threads := ⟨(s.taskList.data pid).threads.tags ++ [(s.threadCnt : ℤ)],
          Function.update (s.taskList.data pid).threads.data s.threadCnt e⟩ } := by
    rintro k rfl
    simp only [Map.put, Function.update_self, Function.update_idem]
  have hother : ∀ k, k ≠ pid → (s.taskList.put pid { s.taskList.data pid with
      threads := (⟨(s.taskList.data pid).threads.tags ++ [(s.threadCnt : ℤ)], Function.update
        (s.taskList.data pid).threads.data s.threadCnt junk⟩ : Map ℤ Thread).put s.threadCnt e }).data
      k = s.taskList.data k := fun k hk => Function.update_of_ne hk _ _
  have hmade : 0 ≤ pid ∧ pid < s.taskCnt := by
    rcases h.other pid hmem with hmade | ⟨hneg, -⟩
    · exact hmade
    · exact absurd hneg hpid
  -- a name in the new list is an old one or the new one
  have hnames : ∀ t, t ∈ (s.taskList.data pid).threads.tags ++ [(s.threadCnt : ℤ)] →
      t ∈ threadNames s pid ∧ t ≠ s.threadCnt ∨ t = s.threadCnt := by
    intro t ht
    rw [List.mem_append, List.mem_singleton] at ht
    rcases ht with ht | ht
    · exact .inl ⟨ht, fun heq => hfresh (heq ▸ ht)⟩
    · exact .inr ht
  refine ⟨h.nodup, fun j hpos hlt => ?_, fun j hj => ?_, fun j hj => ?_, fun j hj t ht => ?_,
    fun c => ?_, fun j hj => ?_, fun j hj t ht => ?_⟩
  · obtain ⟨hj, hname⟩ := h.made j hpos hlt
    refine ⟨hj, ?_⟩
    by_cases hjp : j = pid
    · simp only [hself j hjp]
      rw [← hjp]
      exact hname
    · simp only [hother j hjp]
      exact hname
  · by_cases hjp : j = pid
    · rw [hjp]
      exact .inl hmade
    · simp only [taskStatus, threadNames, hother j hjp]
      exact h.other j hj
  · by_cases hjp : j = pid
    · simp only [threadNames, hself j hjp]
      exact List.nodup_append.mpr ⟨h.threadsNodup pid hmem, List.nodup_singleton _,
        fun a ha b hb heq => hfresh (List.mem_singleton.mp hb ▸ heq ▸ ha)⟩
    · simp only [threadNames, hother j hjp]
      exact h.threadsNodup j hj
  · by_cases hjp : j = pid
    · simp only [threadNames, hself j hjp] at ht ⊢
      rcases hnames t ht with ⟨hold, hne⟩ | rfl
      · obtain ⟨hname, hpos, hlt⟩ := h.threads pid hmem t hold
        rw [Function.update_of_ne hne]
        exact ⟨hname, hpos, by push_cast; omega⟩
      · rw [Function.update_self]
        exact ⟨htid, Int.natCast_nonneg _, by push_cast; omega⟩
    · simp only [threadNames, hother j hjp] at ht ⊢
      obtain ⟨hname, hpos, hlt⟩ := h.threads j hj t ht
      exact ⟨hname, hpos, by push_cast; omega⟩
  · rcases h.cpus c with hcpu | ⟨hj, ht⟩
    · exact .inl hcpu
    · refine .inr ⟨hj, ?_⟩
      by_cases hjp : (s.cpus c).pid = pid
      · simp only [threadNames, hself _ hjp]
        rw [hjp] at ht
        exact List.mem_append_left _ ht
      · simp only [threadNames, hother _ hjp]
        exact ht
  · by_cases hjp : j = pid
    · simp only [hself j hjp]
      exact h.taskIdle pid hmem
    · simp only [hother j hjp]
      exact h.taskIdle j hj
  · by_cases hjp : j = pid
    · simp only [threadNames, hself j hjp] at ht ⊢
      rcases hnames t ht with ⟨hold, hne⟩ | rfl
      · rw [Function.update_of_ne hne]
        exact h.threadIdle pid hmem t hold
      · rw [Function.update_self, hidle]
        exact Nat.zero_le _
    · simp only [threadNames, hother j hjp] at ht ⊢
      exact h.threadIdle j hj t ht

/-- What `create_task` and `create_thread` leave alone: the counters and statuses of what was there. -/
structure Grown (s s' : Sched C) : Prop where
  taskCnt : s.taskCnt ≤ s'.taskCnt
  task : ∀ k : ℤ, 0 ≤ k → k < s.taskCnt →
    (s'.taskList.data k).idleCnt = (s.taskList.data k).idleCnt ∧ taskStatus s' k = taskStatus s k
  thread : ∀ k : ℤ, 0 ≤ k → k < s.taskCnt → ∀ t ∈ threadNames s k, t ∈ threadNames s' k ∧
    (s'.taskList.data k).threads.data t = (s.taskList.data k).threads.data t

omit [DecidableEq C] in
theorem Grown.trans {s' s'' : Sched C} (h : Grown s s') (h' : Grown s' s'') : Grown s s'' where
  taskCnt := Nat.le_trans h.taskCnt h'.taskCnt
  task k hpos hlt := by
    have hlt' : k < s'.taskCnt := lt_of_lt_of_le hlt (by exact_mod_cast h.taskCnt)
    obtain ⟨hidle, hstatus⟩ := h'.task k hpos hlt'
    rw [hidle, hstatus]
    exact h.task k hpos hlt
  thread k hpos hlt t ht := by
    have hlt' : k < s'.taskCnt := lt_of_lt_of_le hlt (by exact_mod_cast h.taskCnt)
    obtain ⟨ht', hsame⟩ := h.thread k hpos hlt t ht
    obtain ⟨ht'', hsame'⟩ := h'.thread k hpos hlt' t ht'
    exact ⟨ht'', hsame'.trans hsame⟩

theorem mem_touch {F T : Type} [DecidableEq F] (m : Map F T) (k : F) (e : T) :
    k ∈ (m.touch k e).tags := by
  unfold Map.touch
  split
  · next hk => exact hk
  · exact List.mem_append_right _ (List.mem_singleton_self k)

theorem touch_old {F T : Type} [DecidableEq F] (m : Map F T) (k : F) (e : T) {j : F}
    (hj : j ∈ m.tags) : j ∈ (m.touch k e).tags ∧ (m.touch k e).data j = m.data j := by
  unfold Map.touch
  by_cases hk : k ∈ m.tags
  · rw [if_pos hk]
    exact ⟨hj, rfl⟩
  · rw [if_neg hk]
    refine ⟨List.mem_append_left _ hj, ?_⟩
    apply Function.update_of_ne
    rintro rfl
    exact hk hj

omit [DecidableEq C] in
/-- INTERNAL: a placeholder is not made in the place of a task. -/
theorem grown_touch (h : Orderly n s) (k : ℤ) (e : Task) :
    Grown s { s with taskList := s.taskList.touch k e } := by
  have hsame : ∀ j : ℤ, 0 ≤ j → j < s.taskCnt →
      (s.taskList.touch k e).data j = s.taskList.data j := by
    intro j hpos hlt
    exact (touch_old _ _ _ (h.made j hpos hlt).1).2
  refine ⟨Nat.le_refl _, fun j hpos hlt => ?_, fun j hpos hlt t ht => ?_⟩
  · simp only [taskStatus, hsame j hpos hlt]
    exact ⟨trivial, trivial⟩
  · simp only [threadNames, hsame j hpos hlt]
    exact ⟨ht, trivial⟩

omit [DecidableEq C] in
/-- INTERNAL: `create_task`.
SRCLINE: kernel/sched/scheduler.cpp:12-32 -/
theorem createTask_orderly (h : Orderly n s) (ppid : ℤ) (pageMap : Option Word)
    (kernelMapping : Word) {junk₁ : Task} (junk₂ : Task) (hjunk : junk₁.status ≠ taskWaiting) :
    Orderly n (createTask s ppid pageMap kernelMapping junk₁ junk₂).1 ∧
      Grown s (createTask s ppid pageMap kernelMapping junk₁ junk₂).1 := by
  have h₁ := h.touch hjunk ppid
  have h₂ := h₁.touch hjunk s.taskCnt
  have hgrown := (grown_touch h ppid (Task.new junk₁)).trans
    (grown_touch h₁ s.taskCnt (Task.new junk₁))
  refine ⟨h₂.newTask (mem_touch _ _ _) rfl rfl rfl, hgrown.trans ⟨Nat.le_succ _, ?_, ?_⟩⟩
  · intro k hpos hlt
    have hne : k ≠ (s.taskCnt : ℤ) := by
      intro heq
      rw [heq] at hlt
      exact absurd hlt (Int.lt_irrefl _)
    simp only [taskStatus, createTask, Map.put, Function.update_of_ne hne]
    exact ⟨trivial, trivial⟩
  · intro k hpos hlt t ht
    have hne : k ≠ (s.taskCnt : ℤ) := by
      intro heq
      rw [heq] at hlt
      exact absurd hlt (Int.lt_irrefl _)
    simp only [threadNames, createTask, Map.put, Function.update_of_ne hne]
    exact ⟨ht, trivial⟩

omit [DecidableEq C] in
/-- INTERNAL: `create_thread`.
SRCLINE: kernel/sched/scheduler.cpp:34-119 -/
theorem createThread_orderly (h : Orderly n s) (pid : ℤ) (rip : Word) (cs : BitVec 16)
    (highVma kernelStack mmapped : Word) (envp argv : List ℕ) {junkTask : Task} (junk : Thread)
    (hjunk : junkTask.status ≠ taskWaiting) :
    Orderly n (createThread s pid rip cs highVma kernelStack mmapped envp argv junkTask junk).1 ∧
      Grown s
        (createThread s pid rip cs highVma kernelStack mmapped envp argv junkTask junk).1 := by
  have h₁ := h.touch hjunk pid
  have hgrown := grown_touch h pid (Task.new junkTask)
  unfold createThread
  simp only
  by_cases hpid : ((s.taskList.touch pid (Task.new junkTask)).data pid).pid = -1
  · rw [if_pos hpid]
    exact ⟨h₁, hgrown⟩
  · rw [if_neg hpid]
    refine ⟨h₁.newThread (mem_touch _ _ _) hpid _ rfl rfl, hgrown.trans ⟨Nat.le_refl _, ?_, ?_⟩⟩
    · intro k hpos hlt
      by_cases hk : k = pid
      · subst hk
        simp only [taskStatus, Map.put, Function.update_self]
        exact ⟨trivial, trivial⟩
      · simp only [taskStatus, Map.put, Function.update_of_ne hk]
        exact ⟨trivial, trivial⟩
    · intro k hpos hlt t ht
      by_cases hk : k = pid
      · subst hk
        have hne : t ≠ (s.threadCnt : ℤ) := by
          rintro rfl
          exact absurd (h₁.threads k (mem_touch _ _ _) _ ht).2.2 (Int.lt_irrefl _)
        obtain ⟨hold, hsame⟩ := touch_old
          ((s.taskList.touch k (Task.new junkTask)).data k).threads (s.threadCnt : ℤ) (Thread.new junk) ht
        simp only [threadNames, Map.put, Function.update_self, Function.update_of_ne hne]
        exact ⟨hold, hsame⟩
      · simp only [threadNames, Map.put, Function.update_of_ne hk]
        exact ⟨ht, trivial⟩

end CrepOS.Analysis
