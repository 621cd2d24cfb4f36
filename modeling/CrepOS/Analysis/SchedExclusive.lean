import CrepOS.Library.Run
import CrepOS.Interface.SchedView

/-!
# No thread runs twice, and every thread gets its context back

The scheduler keeps two status flags, of the task and of the thread, and the records of the
processors. `ViewInv` ties them together: a status is "running" exactly for what some processor
records, and no two processors record one task. The context part says that a waiting thread has the
context with which it was last preempted or created, which is the one a dispatch loads.

The invariant is proved for the steps on views, and every step of the scheduler is one of these
(`reschedule_refines` and its companions).
-/

set_option autoImplicit false

namespace CrepOS.Analysis

open CrepOS.Library CrepOS.Model CrepOS.Interface

/-! ## Logs -/

theorem lastStored_append (k t : ℤ) (log : List SchedEvent) (e : SchedEvent) :
    lastStored k t (log ++ [e]) = (e.stored k t).or (lastStored k t log) := by
  unfold lastStored
  cases he : e.stored k t with
  | none => simp [List.filterMap_append, he]
  | some ctx => simp [List.filterMap_append, he]

/-- Every dispatch in the log loads the context that was stored last. -/
def LoadsStored (log : List SchedEvent) : Prop :=
  ∀ pre k t ctx post, log = pre ++ SchedEvent.dispatched k t ctx :: post →
    lastStored k t pre = some ctx

theorem LoadsStored.append {log : List SchedEvent} (h : LoadsStored log) {e : SchedEvent}
    (he : ∀ k t ctx, e = .dispatched k t ctx → lastStored k t log = some ctx) :
    LoadsStored (log ++ [e]) := by
  intro pre k t ctx post hlog
  rcases List.eq_nil_or_concat post with rfl | ⟨post, e', rfl⟩
  · obtain ⟨rfl, hlast⟩ := List.append_inj' hlog rfl
    exact he k t ctx (List.cons.inj hlast).1
  · rw [List.concat_eq_append, ← List.cons_append, ← List.append_assoc] at hlog
    exact h pre k t ctx post (List.append_inj' hlog rfl).1

/-! ## The invariant -/

section Inv

variable {C : Type}

/-- A task that was created. -/
def View.Live (v : View C) (k : ℤ) : Prop := (v.task k).pid = k ∧ 0 ≤ k ∧ k < v.taskCnt

/-- What `operator[]` leaves for an unknown task. -/
def Placeholder (t : TaskView) : Prop :=
  t.pid = -1 ∧ t.status ≠ taskWaiting ∧ t.status ≠ taskRunning ∧ t.threadTags = []

/-- The thread `t` of the task `k` is in the list. -/
def View.HasThread (v : View C) (k t : ℤ) : Prop := k ∈ v.tags ∧ t ∈ (v.task k).threadTags

/-- The names in the lists: what is listed under a tag has it as its name, or is a task without
threads, and a processor names a thread in the lists. -/
structure Listed (v : View C) : Prop where
  tasks : ∀ k ∈ v.tags, View.Live v k ∨ (v.task k).pid = -1 ∧ (v.task k).threadTags = []
  threads : ∀ k t, View.HasThread v k t →
    ((v.task k).thread t).tid = t ∧ 0 ≤ t ∧ t < v.threadCnt
  current : ∀ c, v.current c = (-1, -1) ∨ View.HasThread v (v.current c).1 (v.current c).2

structure ViewInv (v : View C) (log : List SchedEvent) : Prop where
  tasks : ∀ k ∈ v.tags, View.Live v k ∨ Placeholder (v.task k)
  threads : ∀ k t, View.HasThread v k t →
    ((v.task k).thread t).tid = t ∧ 0 ≤ t ∧ t < v.threadCnt
  current : ∀ c, v.current c = (-1, -1) ∨
    View.HasThread v (v.current c).1 (v.current c).2 ∧ View.Live v (v.current c).1 ∧
      (v.task (v.current c).1).status = taskRunning ∧
      ((v.task (v.current c).1).thread (v.current c).2).status = taskRunning
  distinct : ∀ c d, (v.current c).1 ≠ -1 → (v.current c).1 = (v.current d).1 → c = d
  taskRuns : ∀ k ∈ v.tags, (v.task k).status = taskRunning → ∃ c, (v.current c).1 = k
  threadRuns : ∀ k t, View.HasThread v k t → ((v.task k).thread t).status = taskRunning →
    ∃ c, v.current c = (k, t)
  stored : ∀ k t, View.HasThread v k t → ((v.task k).thread t).status = taskWaiting →
    lastStored k t log = some ((v.task k).thread t).context
  loads : LoadsStored log

variable {v : View C} {log : List SchedEvent}

theorem ViewInv.listed (h : ViewInv v log) : Listed v where
  tasks k hk := (h.tasks k hk).imp_right fun hph => ⟨hph.1, hph.2.2.2⟩
  threads := h.threads
  current c := (h.current c).imp_right And.left

/-- INTERNAL: a processor that is not idle has a thread in the lists. -/
theorem Listed.hasThread (h : Listed v) {c : C} (hidle : ¬ v.idle c) :
    View.HasThread v (v.current c).1 (v.current c).2 := by
  apply (h.current c).resolve_left
  intro hc
  rw [View.idle, hc] at hidle
  exact hidle (by decide)

/-- INTERNAL: a task with threads is live. -/
theorem Listed.live_of_hasThread (h : Listed v) {k t : ℤ} (hk : View.HasThread v k t) :
    View.Live v k := by
  apply (h.tasks k hk.1).resolve_right
  rintro ⟨-, hnone⟩
  have hmem := hk.2
  rw [hnone] at hmem
  cases hmem

/-- INTERNAL: an idle processor records no task and no thread. -/
theorem ViewInv.idle_iff (h : ViewInv v log) (c : C) : v.idle c ↔ v.current c = (-1, -1) := by
  constructor
  · intro hidle
    rcases h.current c with hc | ⟨hthread, hlive, -⟩
    · exact hc
    · have hpos := (h.threads _ _ hthread).2.1
      have hpos' := hlive.2.1
      exact absurd ⟨by omega, by omega⟩ hidle
  · intro hc
    rw [View.idle, hc]
    decide

/-- INTERNAL: new tasks without threads keep the invariant, in place of nothing or a placeholder. -/
theorem ViewInv.extend (h : ViewInv v log) {v' : View C} (hcur : v'.current = v.current)
    (hcnt : v.taskCnt ≤ v'.taskCnt) (hthreads : v'.threadCnt = v.threadCnt)
    (hsub : ∀ j ∈ v.tags, j ∈ v'.tags)
    (hnew : ∀ j ∈ v'.tags, (j ∈ v.tags ∧ v'.task j = v.task j) ∨
      (j ∈ v.tags → ¬ View.Live v j) ∧ (View.Live v' j ∨ Placeholder (v'.task j)) ∧
        (v'.task j).status ≠ taskRunning ∧ (v'.task j).threadTags = []) :
    ViewInv v' log := by
  -- a thread of the new view is a thread of the old one, in a task that is as it was
  have hthread : ∀ k t, View.HasThread v' k t → View.HasThread v k t ∧ v'.task k = v.task k := by
    intro k t hk
    rcases hnew k hk.1 with ⟨hold, htask⟩ | ⟨-, -, -, hnone⟩
    · exact ⟨⟨hold, htask ▸ hk.2⟩, htask⟩
    · have hmem := hk.2
      rw [hnone] at hmem
      cases hmem
  refine ⟨?_, ?_, ?_, ?_, ?_, ?_, ?_, h.loads⟩
  · intro k hk
    rcases hnew k hk with ⟨hold, htask⟩ | ⟨-, htasks, -⟩
    · rw [View.Live, htask]
      rcases h.tasks k hold with hlive | hph
      · exact Or.inl ⟨hlive.1, hlive.2.1, by have := hlive.2.2; omega⟩
      · exact Or.inr hph
    · exact htasks
  · intro k t hk
    obtain ⟨hold, htask⟩ := hthread k t hk
    rw [htask, hthreads]
    exact h.threads k t hold
  · intro c
    rw [hcur]
    rcases h.current c with hc | ⟨hk, hlive, hs, ht⟩
    · exact Or.inl hc
    · right
      have htask : v'.task (v.current c).1 = v.task (v.current c).1 := by
        rcases hnew _ (hsub _ hk.1) with ⟨-, htask⟩ | ⟨hne, -⟩
        · exact htask
        · exact absurd hlive (hne hk.1)
      rw [View.HasThread, View.Live, htask]
      exact ⟨⟨hsub _ hk.1, hk.2⟩, ⟨hlive.1, hlive.2.1, by have := hlive.2.2; omega⟩, hs, ht⟩
  · rw [hcur]
    exact h.distinct
  · intro k hk hs
    rw [hcur]
    rcases hnew k hk with ⟨hold, htask⟩ | ⟨-, -, hns, -⟩
    · exact h.taskRuns k hold (htask ▸ hs)
    · exact absurd hs hns
  · intro k t hk hs
    rw [hcur]
    obtain ⟨hold, htask⟩ := hthread k t hk
    exact h.threadRuns k t hold (htask ▸ hs)
  · intro k t hk hs
    obtain ⟨hold, htask⟩ := hthread k t hk
    rw [htask] at hs ⊢
    exact h.stored k t hold hs

theorem View.touch_tags (v : View C) (k : ℤ) (t : TaskView) : k ∈ (v.touch k t).tags := by
  unfold View.touch
  split
  · next hk => exact hk
  · exact List.mem_append_right _ (List.mem_singleton_self k)

theorem View.mem_touch (v : View C) (k : ℤ) (t : TaskView) {j : ℤ} (hj : j ∈ v.tags) :
    j ∈ (v.touch k t).tags := by
  unfold View.touch
  split
  · exact hj
  · exact List.mem_append_left _ hj

/-- INTERNAL: a placeholder keeps the invariant. -/
theorem ViewInv.touch (h : ViewInv v log) {ph : TaskView} (hph : Placeholder ph) (k : ℤ) :
    ViewInv (v.touch k ph) log := by
  unfold View.touch
  split
  · exact h
  · next hk =>
    refine h.extend rfl (Nat.le_refl _) rfl ?_ ?_
    · intro j hj
      exact List.mem_append_left _ hj
    · intro j hj
      simp only [List.mem_append, List.mem_singleton] at hj
      by_cases hjk : j = k
      · subst hjk
        right
        simp only [Function.update_self]
        exact ⟨fun hmem => absurd hmem hk, Or.inr hph, hph.2.2.1, hph.2.2.2⟩
      · left
        exact ⟨hj.resolve_right hjk, Function.update_of_ne hjk _ _⟩

/-- INTERNAL: a new task keeps the invariant. -/
theorem ViewInv.addTask (h : ViewInv v log) {t : TaskView} (hpid : t.pid = v.taskCnt)
    (hstatus : t.status = taskWaiting) (hthreads : t.threadTags = []) :
    ViewInv (v.addTask t) log := by
  refine h.extend rfl (Nat.le_succ _) rfl ?_ ?_
  · intro j hj
    exact hj
  · intro j hj
    by_cases hjk : j = v.taskCnt
    · subst hjk
      right
      simp only [View.addTask, View.Live, Function.update_self]
      refine ⟨?_, Or.inl ⟨hpid, Int.natCast_nonneg _, ?_⟩, ?_, hthreads⟩
      · intro _ hlive
        exact absurd hlive.2.2 (Int.lt_irrefl _)
      · push_cast
        omega
      · rw [hstatus]
        decide
    · left
      exact ⟨hj, Function.update_of_ne hjk _ _⟩

/-- INTERNAL: a new thread of a live task keeps the invariant. -/
theorem ViewInv.addThread (h : ViewInv v log) {k : ℤ} {e : ThreadView} (hk : k ∈ v.tags)
    (hlive : View.Live v k) (htid : e.tid = v.threadCnt) (hstatus : e.status = taskWaiting) :
    ViewInv (v.addThread k e) (log ++ [.created k v.threadCnt e.context]) := by
  have hsame : ∀ j, ((v.addThread k e).task j).pid = (v.task j).pid ∧
      ((v.addThread k e).task j).status = (v.task j).status := by
    intro j
    by_cases hjk : j = k
    · subst hjk
      simp [View.addThread]
    · simp [View.addThread, Function.update_of_ne hjk]
  -- the threads of the new view: the new one, and the old ones as they were
  have hthread : ∀ j t, View.HasThread (v.addThread k e) j t →
      (j = k ∧ t = v.threadCnt ∧ ((v.addThread k e).task j).thread t = e) ∨
      (View.HasThread v j t ∧ ((v.addThread k e).task j).thread t = (v.task j).thread t) := by
    rintro j t ⟨hj, ht⟩
    by_cases hjk : j = k
    · subst hjk
      simp only [View.addThread, Function.update_self, List.mem_append, List.mem_singleton] at ht ⊢
      by_cases htc : t = v.threadCnt
      · subst htc
        exact Or.inl ⟨trivial, rfl, Function.update_self _ _ _⟩
      · exact Or.inr ⟨⟨hj, ht.resolve_right htc⟩, Function.update_of_ne htc _ _⟩
    · simp only [View.addThread, Function.update_of_ne hjk] at ht ⊢
      exact Or.inr ⟨⟨hj, ht⟩, trivial⟩
  have hold : ∀ j t, View.HasThread v j t → View.HasThread (v.addThread k e) j t ∧
      ((v.addThread k e).task j).thread t = (v.task j).thread t := by
    rintro j t hjt
    have hlt := (h.threads j t hjt).2.2
    by_cases hjk : j = k
    · subst hjk
      simp only [View.HasThread, View.addThread, Function.update_self]
      exact ⟨⟨hjt.1, List.mem_append_left _ hjt.2⟩, Function.update_of_ne (by omega) _ _⟩
    · simp only [View.HasThread, View.addThread, Function.update_of_ne hjk]
      exact ⟨hjt, trivial⟩
  refine ⟨?_, ?_, ?_, h.distinct, ?_, ?_, ?_, ?_⟩
  · intro j hj
    by_cases hjk : j = k
    · subst hjk
      exact Or.inl ⟨(hsame j).1.trans hlive.1, hlive.2⟩
    · have htask : (v.addThread k e).task j = v.task j := Function.update_of_ne hjk _ _
      rw [View.Live, htask]
      exact h.tasks j hj
  · intro j t hjt
    rcases hthread j t hjt with ⟨-, rfl, he⟩ | ⟨hjt, he⟩
    · rw [he]
      refine ⟨htid, Int.natCast_nonneg _, ?_⟩
      simp only [View.addThread]
      push_cast
      omega
    · rw [he]
      obtain ⟨hid, hpos, hlt⟩ := h.threads j t hjt
      refine ⟨hid, hpos, ?_⟩
      simp only [View.addThread]
      push_cast
      omega
  · intro c
    rcases h.current c with hc | ⟨hjt, hl, hs, ht⟩
    · exact Or.inl hc
    · right
      obtain ⟨hjt', he⟩ := hold _ _ hjt
      exact ⟨hjt', ⟨(hsame _).1.trans hl.1, hl.2⟩, (hsame _).2.trans hs, he ▸ ht⟩
  · intro j hj hs
    exact h.taskRuns j hj ((hsame j).2 ▸ hs)
  · intro j t hjt hs
    rcases hthread j t hjt with ⟨-, -, he⟩ | ⟨hjt, he⟩
    · rw [he, hstatus] at hs
      cases hs
    · exact h.threadRuns j t hjt (he ▸ hs)
  · intro j t hjt hs
    rw [lastStored_append]
    rcases hthread j t hjt with ⟨rfl, rfl, he⟩ | ⟨hjt, he⟩
    · simp [SchedEvent.stored, he]
    · have hlt := (h.threads j t hjt).2.2
      rw [he] at hs ⊢
      rw [SchedEvent.stored, if_neg (by omega), Option.none_or]
      exact h.stored j t hjt hs
  · apply h.loads.append
    intro j t ctx hev
    cases hev

end Inv

/-! ## Preemption and dispatch -/

section Switch

variable {C : Type} [DecidableEq C] {v : View C} {log : List SchedEvent}

section Assign

variable {c : C} {k t : ℤ} {n : ℕ} {ctx : Context} {cur : ℤ × ℤ}

theorem assign_task_of_ne {j : ℤ} (h : j ≠ k) : (v.assign c k t n ctx cur).task j = v.task j :=
  Function.update_of_ne h _ _

theorem assign_task_self : (v.assign c k t n ctx cur).task k = (v.task k).set t n ctx :=
  Function.update_self _ _ _

theorem assign_current_self : (v.assign c k t n ctx cur).current c = cur :=
  Function.update_self _ _ _

theorem assign_current_of_ne {d : C} (h : d ≠ c) :
    (v.assign c k t n ctx cur).current d = v.current d :=
  Function.update_of_ne h _ _

/-- INTERNAL: a thread of another task, or another thread of the task, stays as it was. -/
theorem assign_thread_of_ne {j u : ℤ} (h : ¬ (j = k ∧ u = t)) :
    ((v.assign c k t n ctx cur).task j).thread u = (v.task j).thread u := by
  by_cases hj : j = k
  · subst hj
    rw [assign_task_self]
    exact Function.update_of_ne (fun hu => h ⟨rfl, hu⟩) _ _
  · rw [assign_task_of_ne hj]

theorem assign_thread_self : ((v.assign c k t n ctx cur).task k).thread t =
    { (v.task k).thread t with status := n, context := ctx } := by
  rw [assign_task_self]
  exact Function.update_self _ _ _

/-- INTERNAL: the assignment neither adds nor removes threads. -/
theorem assign_hasThread (j u : ℤ) :
    View.HasThread (v.assign c k t n ctx cur) j u ↔ View.HasThread v j u := by
  by_cases hj : j = k
  · subst hj
    rw [View.HasThread, assign_task_self]
    exact Iff.rfl
  · rw [View.HasThread, assign_task_of_ne hj]
    exact Iff.rfl

theorem assign_live (j : ℤ) : View.Live (v.assign c k t n ctx cur) j ↔ View.Live v j := by
  by_cases hj : j = k
  · subst hj
    rw [View.Live, assign_task_self]
    exact Iff.rfl
  · rw [View.Live, assign_task_of_ne hj]
    exact Iff.rfl

/-- INTERNAL: the part of the invariant about names, for an assignment to a live task. -/
theorem ViewInv.assign_names (h : ViewInv v log) (hlive : View.Live v k) (c : C) (t : ℤ) (n : ℕ)
    (ctx : Context) (cur : ℤ × ℤ) :
    (∀ j ∈ v.tags, View.Live (v.assign c k t n ctx cur) j ∨
      Placeholder ((v.assign c k t n ctx cur).task j)) ∧
    ∀ j u, View.HasThread (v.assign c k t n ctx cur) j u →
      (((v.assign c k t n ctx cur).task j).thread u).tid = u ∧ 0 ≤ u ∧ u < v.threadCnt := by
  constructor
  · intro j hj
    rw [assign_live]
    by_cases hjk : j = k
    · exact Or.inl (hjk ▸ hlive)
    · rw [assign_task_of_ne hjk]
      exact h.tasks j hj
  · intro j u hju
    have hold := h.threads j u ((assign_hasThread j u).mp hju)
    by_cases hjk : j = k ∧ u = t
    · obtain ⟨rfl, rfl⟩ := hjk
      rw [assign_thread_self]
      exact hold
    · rw [assign_thread_of_ne hjk]
      exact hold

end Assign

/-- The events of a preemption. -/
def preemptEvents (v : View C) (c : C) (ctx : Context) : List SchedEvent :=
  if v.idle c then [] else [.preempted (v.current c).1 (v.current c).2 ctx]

/-- INTERNAL: the preemption of the thread `u` of the task `p`, which `c` runs. -/
theorem ViewInv.preempt_current (h : ViewInv v log) {c : C} {p u : ℤ} (ctx : Context)
    (hcur : v.current c = (p, u)) (hpu : View.HasThread v p u) :
    ViewInv (v.assign c p u taskWaiting ctx (-1, -1)) (log ++ [.preempted p u ctx]) := by
  have hlive := h.listed.live_of_hasThread hpu
  have hp0 : p ≠ -1 := by have := hlive.2.1; omega
  have hother : ∀ d, d ≠ c → (v.current d).1 ≠ p := by
    intro d hd hdp
    apply hd
    apply h.distinct d c
    · rw [hdp]
      exact hp0
    · rw [hdp, hcur]
  obtain ⟨htasks, hthreads⟩ := h.assign_names hlive c u taskWaiting ctx (-1, -1)
  refine ⟨htasks, hthreads, ?_, ?_, ?_, ?_, ?_, ?_⟩
  · intro d
    by_cases hd : d = c
    · subst hd
      exact Or.inl assign_current_self
    · rw [assign_current_of_ne hd]
      rcases h.current d with hc | ⟨hthread, hl, hs, ht⟩
      · exact Or.inl hc
      · right
        rw [assign_hasThread, assign_live, assign_task_of_ne (hother d hd)]
        exact ⟨hthread, hl, hs, ht⟩
  · intro d e hd hde
    by_cases hdc : d = c
    · subst hdc
      rw [assign_current_self] at hd
      exact absurd rfl hd
    · rw [assign_current_of_ne hdc] at hd hde
      by_cases hec : e = c
      · subst hec
        rw [assign_current_self] at hde
        exact absurd hde hd
      · rw [assign_current_of_ne hec] at hde
        exact h.distinct d e hd hde
  · intro j hj hs
    by_cases hjp : j = p
    · subst hjp
      rw [assign_task_self] at hs
      cases hs
    · rw [assign_task_of_ne hjp] at hs
      obtain ⟨d, hd⟩ := h.taskRuns j hj hs
      have hdc : d ≠ c := by
        rintro rfl
        rw [hcur] at hd
        exact hjp hd.symm
      exact ⟨d, by rw [assign_current_of_ne hdc, hd]⟩
  · intro j w hjw hs
    by_cases hjp : j = p ∧ w = u
    · obtain ⟨rfl, rfl⟩ := hjp
      rw [assign_thread_self] at hs
      cases hs
    · rw [assign_thread_of_ne hjp] at hs
      obtain ⟨d, hd⟩ := h.threadRuns j w ((assign_hasThread j w).mp hjw) hs
      have hdc : d ≠ c := by
        rintro rfl
        rw [hcur] at hd
        exact hjp ⟨(Prod.mk.inj hd).1.symm, (Prod.mk.inj hd).2.symm⟩
      exact ⟨d, by rw [assign_current_of_ne hdc, hd]⟩
  · intro j w hjw hs
    rw [lastStored_append]
    by_cases hjp : j = p ∧ w = u
    · obtain ⟨rfl, rfl⟩ := hjp
      rw [assign_thread_self]
      simp [SchedEvent.stored]
    · rw [assign_thread_of_ne hjp] at hs ⊢
      rw [SchedEvent.stored, if_neg (fun hpj => hjp ⟨hpj.1.symm, hpj.2.symm⟩), Option.none_or]
      exact h.stored j w ((assign_hasThread j w).mp hjw) hs
  · apply h.loads.append
    intro j w ctx' hev
    cases hev

/-- **Preemption keeps the invariant**, and leaves the processor idle. -/
theorem ViewInv.preempt (h : ViewInv v log) (c : C) (ctx : Context) :
    ViewInv (v.preempt c ctx) (log ++ preemptEvents v c ctx) ∧
      (v.preempt c ctx).current c = (-1, -1) := by
  unfold View.preempt preemptEvents
  by_cases hidle : v.idle c
  · rw [if_pos hidle, if_pos hidle, List.append_nil]
    exact ⟨h, (h.idle_iff c).mp hidle⟩
  · rw [if_neg hidle, if_neg hidle]
    obtain ⟨hthread, -⟩ := (h.current c).resolve_left fun hc => hidle ((h.idle_iff c).mpr hc)
    exact ⟨h.preempt_current ctx rfl hthread, assign_current_self⟩

/-- **The dispatch of a waiting thread of a waiting task to an idle processor keeps the
invariant.** -/
theorem ViewInv.dispatch (h : ViewInv v log) {c : C} {k t : ℤ} (hidle : v.current c = (-1, -1))
    (hkt : View.HasThread v k t) (hs : (v.task k).status = taskWaiting)
    (ht : ((v.task k).thread t).status = taskWaiting) :
    ViewInv (v.dispatch c k t)
      (log ++ [.dispatched k t ((v.task k).thread t).context]) := by
  have hlive := h.listed.live_of_hasThread hkt
  -- the task waits, so no other processor runs it
  have hother : ∀ d, (v.current d).1 ≠ k := by
    rintro d rfl
    rcases h.current d with hc | ⟨-, -, hrun, -⟩
    · have := hlive.2.1
      rw [hc] at this
      exact absurd this (by decide)
    · rw [hs] at hrun
      cases hrun
  obtain ⟨htasks, hthreads⟩ := h.assign_names hlive c t taskRunning ((v.task k).thread t).context
    (k, t)
  refine ⟨htasks, hthreads, ?_, ?_, ?_, ?_, ?_, ?_⟩
  · intro d
    rw [View.dispatch]
    by_cases hd : d = c
    · subst hd
      right
      rw [assign_current_self, assign_hasThread, assign_live]
      refine ⟨hkt, hlive, ?_, ?_⟩
      · rw [assign_task_self]
        rfl
      · rw [assign_thread_self]
    · rw [assign_current_of_ne hd]
      rcases h.current d with hc | ⟨hthread, hl, hrun, hrun'⟩
      · exact Or.inl hc
      · right
        rw [assign_hasThread, assign_live, assign_task_of_ne (hother d)]
        exact ⟨hthread, hl, hrun, hrun'⟩
  · intro d e hd hde
    rw [View.dispatch] at hd hde
    by_cases hdc : d = c
    · subst hdc
      by_cases hec : e = d
      · exact hec.symm
      · rw [assign_current_self, assign_current_of_ne hec] at hde
        exact absurd hde.symm (hother e)
    · rw [assign_current_of_ne hdc] at hd hde
      by_cases hec : e = c
      · subst hec
        rw [assign_current_self] at hde
        exact absurd hde (hother d)
      · rw [assign_current_of_ne hec] at hde
        exact h.distinct d e hd hde
  · intro j hj hrun
    rw [View.dispatch] at hrun ⊢
    by_cases hjk : j = k
    · exact ⟨c, by rw [assign_current_self, hjk]⟩
    · rw [assign_task_of_ne hjk] at hrun
      obtain ⟨d, hd⟩ := h.taskRuns j hj hrun
      have hdc : d ≠ c := by
        rintro rfl
        rw [hidle] at hd
        -- `-1` is the tag of a placeholder at most
        rcases h.tasks j hj with hl | hph
        · have := hl.2.1
          omega
        · exact hph.2.2.1 hrun
      exact ⟨d, by rw [assign_current_of_ne hdc, hd]⟩
  · intro j w hjw hrun
    rw [View.dispatch] at hjw hrun ⊢
    by_cases hjk : j = k ∧ w = t
    · exact ⟨c, by rw [assign_current_self, hjk.1, hjk.2]⟩
    · rw [assign_thread_of_ne hjk] at hrun
      have hold := (assign_hasThread j w).mp hjw
      obtain ⟨d, hd⟩ := h.threadRuns j w hold hrun
      have hdc : d ≠ c := by
        rintro rfl
        have hpos := (h.listed.live_of_hasThread hold).2.1
        rw [hidle] at hd
        have := (Prod.mk.inj hd).1
        omega
      exact ⟨d, by rw [assign_current_of_ne hdc, hd]⟩
  · intro j w hjw hwait
    rw [View.dispatch] at hjw hwait ⊢
    rw [lastStored_append]
    by_cases hjk : j = k ∧ w = t
    · obtain ⟨rfl, rfl⟩ := hjk
      rw [assign_thread_self] at hwait
      cases hwait
    · rw [assign_thread_of_ne hjk] at hwait ⊢
      exact h.stored j w ((assign_hasThread j w).mp hjw) hwait
  · apply h.loads.append
    intro j w ctx hev
    obtain ⟨rfl, rfl, rfl⟩ := SchedEvent.dispatched.inj hev
    exact h.stored k t hkt ht

end Switch

/-! ## The functions of the source on views -/

section Create

variable {C : Type} {s : Sched C} {log : List SchedEvent}

theorem view_touch (s : Sched C) (k : ℤ) (e : Task) :
    schedView { s with taskList := s.taskList.touch k e } =
      (schedView s).touch k (taskView e) := by
  unfold View.touch Map.touch
  by_cases hk : k ∈ s.taskList.tags
  · rw [if_pos hk, if_pos (show k ∈ (schedView s).tags from hk)]
  · rw [if_neg hk, if_neg (show k ∉ (schedView s).tags from hk)]
    simp only [schedView, View.mk.injEq, true_and, and_true]
    exact Function.comp_update taskView s.taskList.data k e

theorem view_put (s : Sched C) (k : ℤ) (e : Task) :
    schedView { s with taskList := s.taskList.put k e } =
      { schedView s with task := Function.update (schedView s).task k (taskView e) } := by
  simp only [schedView, Map.put, View.mk.injEq, true_and, and_true]
  exact Function.comp_update taskView s.taskList.data k e

/-- INTERNAL: what `operator[]` inserts is a placeholder. -/
theorem placeholder_new {junk : Task} (h : junk.status ≠ taskWaiting ∧ junk.status ≠ taskRunning) :
    Placeholder (taskView (Task.new junk)) :=
  ⟨rfl, h.1, h.2, rfl⟩

/-- `create_task` keeps the invariant. -/
theorem createTask_inv (h : ViewInv (schedView s) log) (ppid : ℤ) (pageMap : Option Word)
    (kernelMapping : Word) {junk₁ : Task} (junk₂ : Task)
    (hjunk : junk₁.status ≠ taskWaiting ∧ junk₁.status ≠ taskRunning) :
    ViewInv (schedView (createTask s ppid pageMap kernelMapping junk₁ junk₂).1) log := by
  have h₁ := h.touch (placeholder_new hjunk) ppid
  rw [← view_touch] at h₁
  have h₂ := h₁.touch (placeholder_new hjunk) s.taskCnt
  rw [← view_touch] at h₂
  have h₃ := h₂.addTask (t := taskView { Task.new junk₂ with
    pid := s.taskCnt
    ppid := ppid
    status := taskWaiting
    pageMap := pageMap.getD kernelMapping }) rfl rfl rfl
  refine cast (congrArg (fun v => ViewInv v log) ?_) h₃
  simp only [View.addTask, schedView, createTask, Map.put, View.mk.injEq, true_and, and_true]
  exact (Function.comp_update taskView _ _ _).symm

/-- INTERNAL: a new thread in the view of its task. -/
theorem taskView_addThread (task : Task) {tid : ℤ} (htid : tid ∉ task.threads.tags)
    (e e' : Thread) :
    taskView { task with threads := (task.threads.touch tid e').put tid e } =
      { taskView task with
        threadTags := (taskView task).threadTags ++ [tid]
        thread := Function.update (taskView task).thread tid (threadView e) } := by
  simp only [taskView, Map.put, Map.touch, if_neg htid, Function.update_idem,
    TaskView.mk.injEq, true_and]
  exact Function.comp_update threadView task.threads.data tid e

/-- `create_thread` keeps the invariant. -/
theorem createThread_inv (h : ViewInv (schedView s) log) (pid : ℤ) (rip : Word) (cs : BitVec 16)
    (highVma kernelStack mmapped : Word) (envp argv : List ℕ) {junkTask : Task} (junk : Thread)
    (hjunk : junkTask.status ≠ taskWaiting ∧ junkTask.status ≠ taskRunning) :
    let r := createThread s pid rip cs highVma kernelStack mmapped envp argv junkTask junk
    ViewInv (schedView r.1) (if r.2 = -1 then log else log ++
      [.created pid r.2 ⟨newRegs junk.regsCur rip cs highVma kernelStack mmapped envp argv, 0, 0⟩]) := by
  have h₁ := h.touch (placeholder_new hjunk) pid
  have hmem := View.touch_tags (schedView s) pid (taskView (Task.new junkTask))
  rw [← view_touch] at h₁ hmem
  intro r
  by_cases hpid : ((s.taskList.touch pid (Task.new junkTask)).data pid).pid = -1
  · have hr : r = ({ s with taskList := s.taskList.touch pid (Task.new junkTask) }, -1) :=
      if_pos hpid
    rw [hr, if_pos rfl]
    exact h₁
  · have hr := show r = _ from if_neg hpid
    rw [hr]
    simp only [show ¬ ((s.threadCnt : ℤ) = -1) by omega, if_false]
    have hlive := (h₁.tasks pid hmem).resolve_right fun hph => hpid hph.1
    have hfresh : (s.threadCnt : ℤ) ∉
        ((s.taskList.touch pid (Task.new junkTask)).data pid).threads.tags := by
      intro hin
      have hlt := (h₁.threads pid s.threadCnt ⟨hmem, hin⟩).2.2
      exact absurd hlt (Int.lt_irrefl _)
    have h₂ := h₁.addThread hmem hlive (e := threadView { Thread.new junk with
      tid := s.threadCnt
      status := taskWaiting
      userStack := if cs &&& 3 ≠ 0 then mmapped + 0x2000 else 0
      kernelStack := kernelStack
      userGsBase := 0
      userFsBase := 0
      regsCur := newRegs junk.regsCur rip cs highVma kernelStack mmapped envp argv }) rfl rfl
    refine cast (congrArg (fun v => ViewInv v _) ?_) h₂
    simp only [View.addThread, schedView, Map.put, View.mk.injEq, true_and, and_true]
    refine Eq.trans ?_ (Function.comp_update taskView _ _ _).symm
    exact congrArg _ (taskView_addThread _ hfresh _ _).symm

end Create

section Pick

variable {α β : Type} (idle : α → ℕ) (setIdle : α → ℕ → α) (status : α → ℕ) (name : α → ℤ)

/-- INTERNAL: the loop changes only the counters. -/
theorem pickIdle_data (view : α → β) (hview : ∀ e n, view (setIdle e n) = view e) (tags : List ℤ)
    (data : ℤ → α) (cnt : ℕ) (ret : ℤ) (k : ℤ) :
    view ((pickIdle idle setIdle status name tags data cnt ret).1 k) = view (data k) := by
  induction tags generalizing data cnt ret with
  | nil => rfl
  | cons tag tags ih =>
    have hstep : ∀ n, view (Function.update data tag (setIdle (data tag) n) k) =
        view (data k) := by
      intro n
      by_cases hk : k = tag
      · rw [hk, Function.update_self, hview]
      · rw [Function.update_of_ne hk]
    rw [pickIdle]
    split
    · rw [ih, hstep]
    · rw [ih, hstep]

/-- INTERNAL: the loop returns the name of an element that waits, or what it started with. -/
theorem pickIdle_ret (hstatus : ∀ e n, status (setIdle e n) = status e)
    (hname : ∀ e n, name (setIdle e n) = name e) (tags : List ℤ) (data : ℤ → α) (cnt : ℕ)
    (ret : ℤ) :
    (pickIdle idle setIdle status name tags data cnt ret).2 = ret ∨
      ∃ k ∈ tags, status (data k) = taskWaiting ∧
        (pickIdle idle setIdle status name tags data cnt ret).2 = name (data k) := by
  induction tags generalizing data cnt ret with
  | nil => exact Or.inl rfl
  | cons tag tags ih =>
    have hk : ∀ n k, status (Function.update data tag (setIdle (data tag) n) k) = status (data k) ∧
        name (Function.update data tag (setIdle (data tag) n) k) = name (data k) := by
      intro n k
      by_cases hk : k = tag
      · rw [hk, Function.update_self, hstatus, hname]
        exact ⟨rfl, rfl⟩
      · rw [Function.update_of_ne hk]
        exact ⟨rfl, rfl⟩
    rw [pickIdle]
    split
    · next hwait =>
      rcases ih (Function.update data tag (setIdle (data tag) ((idle (data tag) + 1) % 2 ^ 64)))
        (idle (setIdle (data tag) ((idle (data tag) + 1) % 2 ^ 64)))
        (name (setIdle (data tag) ((idle (data tag) + 1) % 2 ^ 64))) with hret | ⟨k, hmem, hs, hret⟩
      · right
        rw [hret, hname]
        exact ⟨tag, List.mem_cons_self, hstatus _ _ ▸ hwait.1, rfl⟩
      · right
        rw [hret, (hk _ k).2]
        exact ⟨k, List.mem_cons_of_mem tag hmem, (hk _ k).1 ▸ hs, rfl⟩
    · rcases ih (Function.update data tag (setIdle (data tag) ((idle (data tag) + 1) % 2 ^ 64)))
        cnt ret with hret | ⟨k, hmem, hs, hret⟩
      · exact Or.inl hret
      · right
        rw [hret, (hk _ k).2]
        exact ⟨k, List.mem_cons_of_mem tag hmem, (hk _ k).1 ▸ hs, rfl⟩

end Pick

section Reschedule

variable {C : Type} {s : Sched C} {log : List SchedEvent}

theorem view_nextPid (s : Sched C) :
    schedView { s with taskList := (nextPid s.taskList).1 } = schedView s := by
  simp only [schedView, nextPid, View.mk.injEq, true_and, and_true]
  funext k
  exact pickIdle_data Task.idleCnt (fun t n => { t with idleCnt := n }) Task.status Task.pid
    taskView (fun _ _ => rfl) _ _ _ _ k

/-- INTERNAL: the task that the loop picks waits. -/
theorem nextPid_ret (h : Listed (schedView s)) (hne : (nextPid s.taskList).2 ≠ -1) :
    (nextPid s.taskList).2 ∈ (schedView s).tags ∧
      ((schedView s).task (nextPid s.taskList).2).status = taskWaiting := by
  rcases pickIdle_ret Task.idleCnt (fun t n => { t with idleCnt := n }) Task.status Task.pid
    (fun _ _ => rfl) (fun _ _ => rfl) s.taskList.tags s.taskList.data 0 (-1) with hret | ⟨k, hk, hs, hret⟩
  · exact absurd hret hne
  · have hpid : (s.taskList.data k).pid = k := by
      rcases h.tasks k hk with hlive | hph
      · exact hlive.1
      · exact absurd (hret.trans hph.1) hne
    have hk' : (nextPid s.taskList).2 = k := hret.trans hpid
    rw [hk']
    exact ⟨hk, hs⟩

theorem taskView_nextTid (task : Task) :
    taskView { task with threads := (nextTid task.threads).1 } = taskView task := by
  simp only [taskView, nextTid, TaskView.mk.injEq, true_and]
  funext k
  exact pickIdle_data Thread.idleCnt (fun t n => { t with idleCnt := n }) Thread.status Thread.tid
    threadView (fun _ _ => rfl) _ _ _ _ k

/-- INTERNAL: the thread that the loop picks waits. -/
theorem nextTid_ret (task : Task) (htid : ∀ t ∈ task.threads.tags, (task.threads.data t).tid = t)
    (hne : (nextTid task.threads).2 ≠ -1) :
    (nextTid task.threads).2 ∈ (taskView task).threadTags ∧
      ((taskView task).thread (nextTid task.threads).2).status = taskWaiting := by
  rcases pickIdle_ret Thread.idleCnt (fun t n => { t with idleCnt := n }) Thread.status Thread.tid
    (fun _ _ => rfl) (fun _ _ => rfl) task.threads.tags task.threads.data 0 (-1) with
    hret | ⟨t, ht, hs, hret⟩
  · exact absurd hret hne
  · have ht' : (nextTid task.threads).2 = t := hret.trans (htid t ht)
    rw [ht']
    exact ⟨ht, hs⟩

theorem map_touch_of_mem {F T : Type} [DecidableEq F] {m : Map F T} {k : F} (h : k ∈ m.tags)
    (new : T) : m.touch k new = m := if_pos h

variable [DecidableEq C]

/-- INTERNAL: the store of the interrupted context, on views. -/
theorem view_saveLast (h : Listed (schedView s)) (c : C) (regs : Regs) (m : Msrs)
    (junkTask : Task) (junk : Thread) :
    (saveLast s.taskList (s.cpus c) regs m junkTask junk).tags = s.taskList.tags ∧
      (fun k => taskView ((saveLast s.taskList (s.cpus c) regs m junkTask junk).data k)) =
        ((schedView s).preempt c ⟨regs, m.fsBase, m.kernelGsBase⟩).task := by
  by_cases hidle : (schedView s).idle c
  · have hnot : ¬ ((s.cpus c).tid ≠ -1 ∧ (s.cpus c).pid ≠ -1) := hidle
    rw [View.preempt, if_pos hidle, saveLast, if_neg hnot]
    exact ⟨rfl, rfl⟩
  · have hrun : (s.cpus c).tid ≠ -1 ∧ (s.cpus c).pid ≠ -1 := not_not.mp hidle
    obtain ⟨hk, ht⟩ := h.hasThread hidle
    have hk : (s.cpus c).pid ∈ s.taskList.tags := hk
    have ht : (s.cpus c).tid ∈ (s.taskList.data (s.cpus c).pid).threads.tags := ht
    rw [View.preempt, if_neg hidle, saveLast, if_pos hrun]
    simp only [map_touch_of_mem hk, map_touch_of_mem ht, View.assign, Map.put]
    refine ⟨trivial, (Function.comp_update taskView _ _ _).trans (congrArg _ ?_)⟩
    simp only [schedView, taskView, TaskView.set, TaskView.mk.injEq, true_and]
    exact Function.comp_update threadView _ _ _

/-- INTERNAL: what `dispatch` does, on views. -/
theorem view_dispatch (s : Sched C) (c : C) (pid tid : ℤ) (m : Msrs) :
    schedView (dispatch s c pid tid m).1 = (schedView s).dispatch c pid tid := by
  simp only [dispatch, schedView, View.dispatch, View.assign, Map.put, View.mk.injEq, true_and,
    and_true]
  constructor
  · refine (Function.comp_update taskView _ _ _).trans (congrArg _ ?_)
    simp only [taskView, TaskView.set, TaskView.mk.injEq, true_and]
    exact Function.comp_update threadView _ _ _
  · exact Function.comp_update (fun cpu : Cpu => (cpu.pid, cpu.tid)) s.cpus c _

/-- INTERNAL: the context that `dispatch` loads. -/
theorem dispatch_loads (s : Sched C) (c : C) (pid tid : ℤ) (m : Msrs) :
    ∃ regs m', (dispatch s c pid tid m).2 = .switchTask regs m' ∧
      Context.of regs m' = (((schedView s).task pid).thread tid).context := by
  refine ⟨_, _, rfl, ?_⟩
  simp only [Context.of, schedView, taskView, threadView, Msrs.swapFor, Context.mk.injEq, true_and]
  split
  · exact ⟨rfl, rfl⟩
  · exact ⟨rfl, rfl⟩

/-- INTERNAL: the context that `reschedule` stores is the one of the interrupted code. -/
theorem context_of_swap (regs : Regs) (m : Msrs) :
    (⟨regs, (m.swapFor regs).fsBase, (m.swapFor regs).kernelGsBase⟩ : Context) =
      Context.of regs m := by
  simp only [Context.of, Msrs.swapFor, Context.mk.injEq, true_and]
  split
  · exact ⟨rfl, rfl⟩
  · exact ⟨rfl, rfl⟩

/-- INTERNAL: a dispatch does not depend on what the processor ran before. -/
theorem dispatch_congr {v w : View C} {c : C} (k t : ℤ) (htags : v.tags = w.tags)
    (htask : v.task = w.task) (htc : v.taskCnt = w.taskCnt) (hth : v.threadCnt = w.threadCnt)
    (hcur : ∀ d, d ≠ c → v.current d = w.current d) : v.dispatch c k t = w.dispatch c k t := by
  simp only [View.dispatch, View.assign, View.mk.injEq]
  refine ⟨htags, by rw [htask], ?_, htc, hth⟩
  funext d
  by_cases hd : d = c
  · rw [hd, Function.update_self, Function.update_self]
  · rw [Function.update_of_ne hd, Function.update_of_ne hd, hcur d hd]

theorem preempt_same (v : View C) (c : C) (ctx : Context) :
    (v.preempt c ctx).tags = v.tags ∧ (v.preempt c ctx).taskCnt = v.taskCnt ∧
      (v.preempt c ctx).threadCnt = v.threadCnt ∧
      ∀ d, d ≠ c → (v.preempt c ctx).current d = v.current d := by
  unfold View.preempt
  split
  · exact ⟨rfl, rfl, rfl, fun _ _ => rfl⟩
  · exact ⟨rfl, rfl, rfl, fun d hd => assign_current_of_ne hd⟩

/-- INTERNAL: a waiting thread of a waiting task, or of the task that the processor runs itself, may
be dispatched once the processor's thread is preempted. -/
theorem ViewInv.waiting_after_preempt {v : View C} (h : ViewInv v log) {c : C} {k t : ℤ}
    (ctx : Context) (hkt : View.HasThread v k t) (ht : ((v.task k).thread t).status = taskWaiting)
    (hk : (v.task k).status = taskWaiting ∨ (v.current c).1 = k) :
    View.HasThread (v.preempt c ctx) k t ∧ ((v.preempt c ctx).task k).status = taskWaiting ∧
      (((v.preempt c ctx).task k).thread t).status = taskWaiting := by
  unfold View.preempt
  by_cases hidle : v.idle c
  · rw [if_pos hidle]
    rcases hk with hk | hk
    · exact ⟨hkt, hk, ht⟩
    · have hpos := (h.listed.live_of_hasThread hkt).2.1
      rw [(h.idle_iff c).mp hidle] at hk
      exact absurd (hk ▸ hpos) (by decide)
  · rw [if_neg hidle, assign_hasThread]
    obtain ⟨-, -, hs, hs'⟩ := (h.current c).resolve_left fun hc => hidle ((h.idle_iff c).mpr hc)
    by_cases hown : (v.current c).1 = k
    · subst hown
      refine ⟨hkt, by rw [assign_task_self]; rfl, ?_⟩
      rw [assign_thread_of_ne]
      · exact ht
      · rintro ⟨-, rfl⟩
        rw [ht] at hs'
        cases hs'
    · rw [assign_task_of_ne (Ne.symm hown)]
      exact ⟨hkt, hk.resolve_right hown, ht⟩

/-- INTERNAL: a reschedule on views. The thread that is dispatched is in the lists and waits, and its
task waits, or the processor runs a thread of it. -/
theorem reschedule_view (h : Listed (schedView s)) (c : C) (regs : Regs) (m : Msrs)
    (junkTask : Task) (junk : Thread) :
    (schedView (reschedule s c regs m junkTask junk).1 = schedView s ∧
      ∃ m', (reschedule s c regs m junkTask junk).2 = .resume m') ∨
    ∃ pid tid, View.HasThread (schedView s) pid tid ∧
      (((schedView s).task pid).thread tid).status = taskWaiting ∧
      (((schedView s).task pid).status = taskWaiting ∨ ((schedView s).current c).1 = pid) ∧
      schedView (reschedule s c regs m junkTask junk).1 =
        ((schedView s).preempt c (Context.of regs m)).dispatch c pid tid ∧
      ∃ regs' m', (reschedule s c regs m junkTask junk).2 = .switchTask regs' m' ∧
        Context.of regs' m' =
          ((((schedView s).preempt c (Context.of regs m)).task pid).thread tid).context := by
  have hview := view_nextPid s
  have hret := nextPid_ret h
  simp only [reschedule]
  generalize nextPid s.taskList = r at hview hret
  obtain ⟨taskList, pid₀⟩ := r
  simp only at hview hret ⊢
  by_cases hnone : pid₀ = -1 ∧ (s.cpus c).pid = -1
  · rw [if_pos hnone]
    exact Or.inl ⟨hview, _, rfl⟩
  rw [if_neg hnone]
  -- the chosen task waits, or it is the processor's own
  obtain ⟨pid, hpid⟩ : ∃ pid, (if pid₀ = -1 then (s.cpus c).pid else pid₀) = pid := ⟨_, rfl⟩
  rw [hpid]
  have hmem : pid ∈ (schedView s).tags ∧
      (((schedView s).task pid).status = taskWaiting ∨ ((schedView s).current c).1 = pid) := by
    by_cases hpid₀ : pid₀ = -1
    · rw [if_pos hpid₀] at hpid
      have hc : ((schedView s).current c).1 = pid := hpid
      rcases h.current c with hidle | hthread
      · rw [hidle] at hc
        exact absurd ⟨hpid₀, hpid.trans hc.symm⟩ hnone
      · exact ⟨hc ▸ hthread.1, Or.inr hc⟩
    · rw [if_neg hpid₀] at hpid
      obtain ⟨hmem, hwait⟩ := hret hpid₀
      exact ⟨hpid ▸ hmem, Or.inl (hpid ▸ hwait)⟩
  have htags : pid ∈ taskList.tags := by
    have htags : taskList.tags = s.taskList.tags := congrArg View.tags hview
    rw [htags]
    exact hmem.1
  have htask : taskView (taskList.data pid) = (schedView s).task pid :=
    congrFun (congrArg View.task hview) pid
  rw [map_touch_of_mem htags]
  have hview' := taskView_nextTid (taskList.data pid)
  have hret' := nextTid_ret (taskList.data pid) (by
    intro t ht
    have hthread : View.HasThread (schedView s) pid t := ⟨hmem.1, htask ▸ ht⟩
    have hid := (h.threads pid t hthread).1
    rw [← htask] at hid
    exact hid)
  generalize nextTid (taskList.data pid).threads = r at hview' hret'
  obtain ⟨threads, tid⟩ := r
  simp only at hview' hret' ⊢
  have hput : schedView { s with
      taskList := taskList.put pid { taskList.data pid with threads := threads } } =
      schedView s := by
    rw [view_put { s with taskList := taskList } pid, hview', hview, htask, Function.update_eq_self]
  by_cases htid : tid = -1
  · rw [if_pos htid]
    exact Or.inl ⟨hput, _, rfl⟩
  rw [if_neg htid]
  right
  obtain ⟨htmem, htwait⟩ := hret' htid
  have hthreads : tid ∈ threads.tags := by
    have htags : threads.tags = (taskView (taskList.data pid)).threadTags :=
      congrArg TaskView.threadTags hview'
    rw [htags]
    exact htmem
  have htwice : ∀ t : Task, (taskList.put pid t).put pid t = taskList.put pid t := by
    intro t
    rw [Map.put, Map.put, Function.update_idem]
  rw [map_touch_of_mem hthreads, htwice]
  rw [htask] at htmem htwait
  -- the rest of the call, from a state with the view of `s`
  generalize taskList.put pid { taskList.data pid with threads := threads } = taskList' at hput ⊢
  have hsave := view_saveLast (hput.symm ▸ h) c regs (m.swapFor regs) junkTask junk
  rw [hput, context_of_swap] at hsave
  obtain ⟨htags', htask'⟩ := hsave
  obtain ⟨hsame, htc, hth, hcur⟩ := preempt_same (schedView s) c (Context.of regs m)
  have hload := dispatch_loads
    { s with taskList := saveLast taskList' (s.cpus c) regs (m.swapFor regs) junkTask junk } c pid
    tid (m.swapFor regs)
  refine ⟨pid, tid, ⟨hmem.1, htmem⟩, htwait, hmem.2, ?_, ?_⟩
  · rw [view_dispatch]
    apply dispatch_congr pid tid
    · rw [hsame]
      exact htags'.trans (congrArg View.tags hput)
    · exact htask'
    · exact htc.symm
    · exact hth.symm
    · intro d hd
      exact (hcur d hd).symm
  · obtain ⟨regs', m', hout, hctx⟩ := hload
    refine ⟨regs', m', hout, ?_⟩
    rw [hctx, ← htask']
    rfl

/-- **A reschedule changes nothing but counters, or it preempts and dispatches.** -/
theorem reschedule_refines (h : ViewInv (schedView s) log) (c : C) (regs : Regs) (m : Msrs)
    (junkTask : Task) (junk : Thread) :
    (schedView (reschedule s c regs m junkTask junk).1 = schedView s ∧
      ∃ m', (reschedule s c regs m junkTask junk).2 = .resume m') ∨
    ∃ pid tid, View.HasThread ((schedView s).preempt c (Context.of regs m)) pid tid ∧
      (((schedView s).preempt c (Context.of regs m)).task pid).status = taskWaiting ∧
      ((((schedView s).preempt c (Context.of regs m)).task pid).thread tid).status = taskWaiting ∧
      schedView (reschedule s c regs m junkTask junk).1 =
        ((schedView s).preempt c (Context.of regs m)).dispatch c pid tid ∧
      ∃ regs' m', (reschedule s c regs m junkTask junk).2 = .switchTask regs' m' ∧
        Context.of regs' m' =
          ((((schedView s).preempt c (Context.of regs m)).task pid).thread tid).context := by
  rcases reschedule_view h.listed c regs m junkTask junk with
    hsame | ⟨pid, tid, hhas, ht, htask, hview, hload⟩
  · exact Or.inl hsame
  · obtain ⟨hhas, hs, ht⟩ := h.waiting_after_preempt (Context.of regs m) hhas ht htask
    exact Or.inr ⟨pid, tid, hhas, hs, ht, hview, hload⟩

end Reschedule

/-! ## Whole runs -/

theorem viewInv_init {C : Type} (junk : Task) (cpus : C → Cpu) :
    ViewInv (schedView (Sched.init junk cpus)) [] := by
  have hnone : ∀ k t, ¬ View.HasThread (schedView (Sched.init junk cpus)) k t :=
    fun k t h => nomatch h.1
  refine ⟨nofun, ?_, fun c => Or.inl rfl, ?_, nofun, ?_, ?_, ?_⟩
  · intro k t h
    exact absurd h (hnone k t)
  · intro c d hc
    exact absurd rfl hc
  · intro k t h
    exact absurd h (hnone k t)
  · intro k t h
    exact absurd h (hnone k t)
  · intro pre k t ctx post h
    exact absurd (congrArg List.length h) (by simp)

section Runs

variable {C : Type} [DecidableEq C]

/-- The steps of the system: any interleaving of creations and of reschedules of any processor. -/
def schedStep : Traced C → SchedOp C → Traced C → Prop :=
  Guarded (fun _ op => op.JunkOk) fun t op t' => t.exec op = t'

/-- **Every step keeps the invariant.** -/
theorem viewInv_step {t t' : Traced C} {op : SchedOp C} (h : ViewInv (schedView t.sched) t.log)
    (hstep : schedStep t op t') : ViewInv (schedView t'.sched) t'.log := by
  obtain ⟨hjunk, rfl⟩ := hstep
  cases op with
  | createTask ppid pageMap kernelMapping junk₁ junk₂ =>
    exact createTask_inv h ppid pageMap kernelMapping junk₂ hjunk
  | createThread pid rip cs highVma kernelStack mmapped envp argv junkTask junk =>
    exact createThread_inv h pid rip cs highVma kernelStack mmapped envp argv junk hjunk
  | reschedule c regs m junkTask junk =>
    simp only [Traced.exec]
    rcases reschedule_refines h c regs m junkTask junk with
      ⟨hview, m', hout⟩ | ⟨pid, tid, hhas, hs, ht, hview, regs', m', hout, hctx⟩
    · rw [hout]
      exact hview.symm ▸ h
    · rw [hout]
      simp only
      obtain ⟨hpre, hidle⟩ := h.preempt c (Context.of regs m)
      have hdisp := hpre.dispatch hidle hhas hs ht
      have hcur : ((reschedule t.sched c regs m junkTask junk).1.cpus c).pid = pid ∧
          ((reschedule t.sched c regs m junkTask junk).1.cpus c).tid = tid := by
        have hcur := congrFun (congrArg View.current hview) c
        rw [View.dispatch, assign_current_self] at hcur
        exact Prod.mk.inj hcur
      have hevents : (if (t.sched.cpus c).tid ≠ -1 ∧ (t.sched.cpus c).pid ≠ -1 then
          [SchedEvent.preempted (t.sched.cpus c).pid (t.sched.cpus c).tid (Context.of regs m)]
          else []) = preemptEvents (schedView t.sched) c (Context.of regs m) := by
        by_cases hnone : (schedView t.sched).idle c
        · rw [preemptEvents, if_pos hnone]
          exact if_neg hnone
        · rw [preemptEvents, if_neg hnone]
          exact if_pos (not_not.mp hnone)
      rw [hview, hevents, hcur.1, hcur.2, hctx]
      exact hdisp

/-- **Exclusivity and context integrity.** In every state that any interleaving reaches, no task and
no thread is current on two processors, a task and a thread have the status "running" exactly when
they are current on one, and every dispatch so far has loaded the context with which the thread was
last preempted, or created.
SRCLINE: kernel/sched/scheduler.cpp:12-218 -/
theorem scheduler_exclusive (junk : Task) (cpus : C → Cpu) (l : List (SchedOp C)) (t : Traced C)
    (hrun : Run schedStep ⟨Sched.init junk cpus, []⟩ l t) :
    (∀ c d, (t.sched.cpus c).pid ≠ -1 → (t.sched.cpus c).pid = (t.sched.cpus d).pid → c = d) ∧
    (∀ c d, (t.sched.cpus c).tid ≠ -1 → (t.sched.cpus c).pid = (t.sched.cpus d).pid →
      (t.sched.cpus c).tid = (t.sched.cpus d).tid → c = d) ∧
    (∀ k ∈ t.sched.taskList.tags, (t.sched.taskList.data k).status = taskRunning ↔
      ∃ c, (t.sched.cpus c).pid = k ∧ k ≠ -1) ∧
    (∀ k ∈ t.sched.taskList.tags, ∀ u ∈ (t.sched.taskList.data k).threads.tags,
      ((t.sched.taskList.data k).threads.data u).status = taskRunning ↔
        ∃ c, (t.sched.cpus c).pid = k ∧ (t.sched.cpus c).tid = u) ∧
    LoadsStored t.log := by
  have h : ViewInv (schedView t.sched) t.log := by
    apply hrun.invariant (fun t => ViewInv (schedView t.sched) t.log)
    · intro t op t' h hstep
      exact viewInv_step h hstep
    · exact viewInv_init junk cpus
  refine ⟨h.distinct, ?_, ?_, ?_, h.loads⟩
  · intro c d htid hpid _
    apply h.distinct c d _ hpid
    rcases h.current c with hc | ⟨-, hlive, -⟩
    · exact absurd (congrArg Prod.snd hc) htid
    · have := hlive.2.1
      omega
  · intro k hk
    constructor
    · intro hs
      obtain ⟨c, hc⟩ := h.taskRuns k hk hs
      refine ⟨c, hc, ?_⟩
      rcases h.tasks k hk with hlive | hph
      · have := hlive.2.1
        omega
      · exact absurd hs hph.2.2.1
    · rintro ⟨c, rfl, hne⟩
      rcases h.current c with hc | ⟨-, -, hs, -⟩
      · exact absurd (congrArg Prod.fst hc) hne
      · exact hs
  · intro k hk u hu
    have hlive := h.listed.live_of_hasThread (k := k) (t := u) ⟨hk, hu⟩
    constructor
    · intro hs
      obtain ⟨c, hc⟩ := h.threadRuns k u ⟨hk, hu⟩ hs
      exact ⟨c, (Prod.mk.inj hc).1, (Prod.mk.inj hc).2⟩
    · rintro ⟨c, rfl, rfl⟩
      rcases h.current c with hc | ⟨-, -, -, hs⟩
      · have hpid : (t.sched.cpus c).pid = -1 := congrArg Prod.fst hc
        have := hlive.2.1
        omega
      · exact hs

end Runs

/-- INTERNAL: memory that holds zeros. -/
def zeroRegs : Regs := ⟨0, 0, 0, 0, 0, 0, 0, 0, 0, 0, 0, 0, 0, 0, 0, 0, 0, 0, 0, 0, 0, 0⟩

def zeroThread : Thread := ⟨0, 0, 0, 0, 0, 0, 0, 0, zeroRegs⟩

def zeroTask : Task := ⟨0, 0, 0, 0, ⟨[], fun _ => zeroThread⟩, 0⟩

/-- The kernel thread of the first task is created and dispatched. -/
def firstOps : List (SchedOp Bool) :=
  [.createTask (-1) none 0x1000 zeroTask zeroTask,
    .createThread 0 0x200000 8 0xffff800000000000 0x5000 0 [] [] zeroTask zeroThread,
    .reschedule true zeroRegs ⟨1, 2, 3⟩ zeroTask zeroThread]

/-- The first of two processors runs the first task. -/
theorem scheduler_first_dispatch : ∃ t : Traced Bool,
    Run schedStep ⟨Sched.init zeroTask fun _ => ⟨0, 0, 0, 0⟩, []⟩ firstOps t ∧
      (t.sched.cpus true).pid = 0 ∧ (t.sched.taskList.data 0).status = taskRunning ∧
      (t.sched.cpus false).pid ≠ 0 := by
  have hrun : Run schedStep ⟨Sched.init zeroTask fun _ => ⟨0, 0, 0, 0⟩, []⟩ firstOps
      (firstOps.foldl Traced.exec ⟨Sched.init zeroTask fun _ => ⟨0, 0, 0, 0⟩, []⟩) :=
    ((Run.nil.snoc ⟨⟨by decide, by decide⟩, rfl⟩).snoc ⟨⟨by decide, by decide⟩, rfl⟩).snoc
      ⟨⟨by decide, by decide⟩, rfl⟩
  obtain ⟨hone, -, hstatus, -, -⟩ := scheduler_exclusive _ _ _ _ hrun
  have hpid : ((firstOps.foldl Traced.exec
      ⟨Sched.init zeroTask fun _ => ⟨0, 0, 0, 0⟩, []⟩).sched.cpus true).pid = 0 := by
    decide
  refine ⟨_, hrun, hpid, ?_, ?_⟩
  · exact (hstatus 0 (by decide)).mpr ⟨true, hpid, by decide⟩
  · intro hfalse
    exact Bool.noConfusion (hone true false (by rw [hpid]; decide) (hpid.trans hfalse.symm))

end CrepOS.Analysis
