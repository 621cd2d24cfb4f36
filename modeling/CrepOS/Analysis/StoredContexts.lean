import CrepOS.Analysis.SchedExclusive
import CrepOS.Interface.GsRun

/-!
# The contexts of the threads that do not run

`Stored v P` says that the names in the lists are right and that every thread but the one that the
processor runs has been stored with a context that has the property `P`. Tasks and threads that are
created, a preemption and a dispatch keep it, if what they store has the property; nothing is assumed
of the memory that placeholders are made of.
-/

set_option autoImplicit false

namespace CrepOS.Analysis

open CrepOS.Model CrepOS.Interface

/-- The names in the lists are right, and the contexts of the threads that do not run have the
property `P`. -/
structure Stored (v : View Unit) (P : ℤ × ℤ → Context → Prop) : Prop where
  listed : Listed v
  stored : ∀ k t, View.HasThread v k t → v.current () ≠ (k, t) →
    P (k, t) ((v.task k).thread t).context

section Stored

variable {v : View Unit} {P : ℤ × ℤ → Context → Prop}

theorem Stored.mono (h : Stored v P) {P' : ℤ × ℤ → Context → Prop}
    (himp : ∀ k t ctx, View.HasThread v k t → P (k, t) ctx → P' (k, t) ctx) : Stored v P' :=
  ⟨h.listed, fun k t hkt hcur => himp k t _ hkt (h.stored k t hkt hcur)⟩

/-- INTERNAL: new tasks without threads, in place of nothing or of a task that is not live. -/
theorem Stored.extend (h : Stored v P) {v' : View Unit} (hcur : v'.current = v.current)
    (hcnt : v.taskCnt ≤ v'.taskCnt) (hthreads : v'.threadCnt = v.threadCnt)
    (hsub : ∀ j ∈ v.tags, j ∈ v'.tags)
    (hnew : ∀ j ∈ v'.tags, (j ∈ v.tags ∧ v'.task j = v.task j) ∨
      (j ∈ v.tags → (v.task j).threadTags = []) ∧
        (View.Live v' j ∨ (v'.task j).pid = -1) ∧ (v'.task j).threadTags = []) :
    Stored v' P := by
  have hthread : ∀ k t, View.HasThread v' k t → View.HasThread v k t ∧ v'.task k = v.task k := by
    intro k t hk
    rcases hnew k hk.1 with ⟨hold, htask⟩ | ⟨-, -, hnone⟩
    · exact ⟨⟨hold, htask ▸ hk.2⟩, htask⟩
    · have hmem := hk.2
      rw [hnone] at hmem
      cases hmem
  refine ⟨⟨?_, ?_, ?_⟩, ?_⟩
  · intro k hk
    rcases hnew k hk with ⟨hold, htask⟩ | ⟨-, hpid, hnone⟩
    · rw [View.Live, htask]
      refine (h.listed.tasks k hold).imp_left ?_
      intro hlive
      exact ⟨hlive.1, hlive.2.1, lt_of_lt_of_le hlive.2.2 (by exact_mod_cast hcnt)⟩
    · exact hpid.imp_right fun hpid => ⟨hpid, hnone⟩
  · intro k t hk
    obtain ⟨hold, htask⟩ := hthread k t hk
    rw [htask, hthreads]
    exact h.listed.threads k t hold
  · intro c
    rw [hcur]
    apply (h.listed.current c).imp_right
    intro hk
    have htask : v'.task (v.current c).1 = v.task (v.current c).1 := by
      rcases hnew _ (hsub _ hk.1) with ⟨-, htask⟩ | ⟨hnone, -⟩
      · exact htask
      · have hmem := hk.2
        rw [hnone hk.1] at hmem
        cases hmem
    exact ⟨hsub _ hk.1, htask ▸ hk.2⟩
  · intro k t hk hne
    obtain ⟨hold, htask⟩ := hthread k t hk
    rw [htask]
    rw [hcur] at hne
    exact h.stored k t hold hne

/-- INTERNAL: what `operator[]` leaves for an unknown task. -/
theorem Stored.touch (h : Stored v P) (ph : TaskView) (hpid : ph.pid = -1)
    (hnone : ph.threadTags = []) (k : ℤ) : Stored (v.touch k ph) P := by
  unfold View.touch
  split
  · exact h
  · next hk =>
    refine h.extend rfl (Nat.le_refl _) rfl ?_ ?_
    · intro j hj
      exact List.mem_append_left _ hj
    · intro j hj
      simp only [List.mem_append, List.mem_singleton] at hj
      by_cases hjk : j = k
      · subst hjk
        right
        simp only [Function.update_self]
        exact ⟨fun hmem => absurd hmem hk, Or.inr hpid, hnone⟩
      · left
        exact ⟨hj.resolve_right hjk, Function.update_of_ne hjk _ _⟩

theorem Stored.addTask (h : Stored v P) {t : TaskView} (hpid : t.pid = v.taskCnt)
    (hnone : t.threadTags = []) : Stored (v.addTask t) P := by
  refine h.extend rfl (Nat.le_succ _) rfl (fun j hj => hj) ?_
  intro j hj
  by_cases hjk : j = v.taskCnt
  · subst hjk
    right
    simp only [View.addTask, View.Live, Function.update_self]
    refine ⟨?_, Or.inl ⟨hpid, Int.natCast_nonneg _, ?_⟩, hnone⟩
    · intro hmem
      rcases h.listed.tasks _ hmem with hlive | hph
      · exact absurd hlive.2.2 (Int.lt_irrefl _)
      · exact hph.2
    · push_cast
      omega
  · left
    exact ⟨hj, Function.update_of_ne hjk _ _⟩

/-- INTERNAL: the threads after one is added: the new one, and the others as they were. -/
theorem addThread_thread {k : ℤ} {e : ThreadView} {j t : ℤ}
    (h : View.HasThread (v.addThread k e) j t) :
    (j = k ∧ t = v.threadCnt ∧ ((v.addThread k e).task j).thread t = e) ∨
      (View.HasThread v j t ∧ ((v.addThread k e).task j).thread t = (v.task j).thread t) := by
  obtain ⟨hj, ht⟩ := h
  by_cases hjk : j = k
  · subst hjk
    simp only [View.addThread, Function.update_self, List.mem_append, List.mem_singleton] at ht ⊢
    by_cases htc : t = v.threadCnt
    · subst htc
      exact Or.inl ⟨trivial, rfl, Function.update_self _ _ _⟩
    · exact Or.inr ⟨⟨hj, ht.resolve_right htc⟩, Function.update_of_ne htc _ _⟩
  · simp only [View.addThread, Function.update_of_ne hjk] at ht ⊢
    exact Or.inr ⟨⟨hj, ht⟩, trivial⟩

theorem addThread_hasThread {k : ℤ} {e : ThreadView} {j t : ℤ} (h : View.HasThread v j t) :
    View.HasThread (v.addThread k e) j t := by
  refine ⟨h.1, ?_⟩
  by_cases hjk : j = k
  · subst hjk
    simp only [View.addThread, Function.update_self]
    exact List.mem_append_left _ h.2
  · simp only [View.addThread, Function.update_of_ne hjk]
    exact h.2

theorem Stored.addThread (h : Stored v P) {k : ℤ} {e : ThreadView} (hlive : View.Live v k)
    (htid : e.tid = v.threadCnt) (he : P (k, (v.threadCnt : ℤ)) e.context) :
    Stored (v.addThread k e) P := by
  refine ⟨⟨?_, ?_, ?_⟩, ?_⟩
  · intro j hj
    by_cases hjk : j = k
    · subst hjk
      left
      simp only [View.addThread, View.Live, Function.update_self]
      exact hlive
    · have htask : (v.addThread k e).task j = v.task j := Function.update_of_ne hjk _ _
      rw [View.Live, htask]
      exact h.listed.tasks j hj
  · intro j t hjt
    rcases addThread_thread hjt with ⟨-, rfl, hnew⟩ | ⟨hold, hsame⟩
    · rw [hnew]
      refine ⟨htid, Int.natCast_nonneg _, ?_⟩
      simp only [View.addThread]
      push_cast
      omega
    · rw [hsame]
      obtain ⟨hid, hpos, hlt⟩ := h.listed.threads j t hold
      refine ⟨hid, hpos, ?_⟩
      simp only [View.addThread]
      push_cast
      omega
  · intro c
    exact (h.listed.current c).imp_right addThread_hasThread
  · intro j t hjt hne
    rcases addThread_thread hjt with ⟨rfl, rfl, hnew⟩ | ⟨hold, hsame⟩
    · rw [hnew]
      exact he
    · rw [hsame]
      exact h.stored j t hold hne

/-- INTERNAL: the assignment of a thread keeps the names. -/
theorem Listed.assign (h : Listed v) (k t : ℤ) (n : ℕ) (ctx : Context) {cur : ℤ × ℤ}
    (hcur : cur = (-1, -1) ∨ View.HasThread v cur.1 cur.2) :
    Listed (v.assign () k t n ctx cur) := by
  refine ⟨?_, ?_, ?_⟩
  · intro j hj
    rw [assign_live]
    by_cases hjk : j = k
    · subst hjk
      rw [assign_task_self]
      exact h.tasks j hj
    · rw [assign_task_of_ne hjk]
      exact h.tasks j hj
  · intro j u hju
    have hold := h.threads j u ((assign_hasThread j u).mp hju)
    by_cases hjk : j = k ∧ u = t
    · obtain ⟨rfl, rfl⟩ := hjk
      rw [assign_thread_self]
      exact hold
    · rw [assign_thread_of_ne hjk]
      exact hold
  · intro c
    rw [assign_current_self, assign_hasThread]
    exact hcur

/-- INTERNAL: a change of nothing but the context of the thread that runs. -/
theorem Stored.others (h : Stored v P) {v' : View Unit} (htags : v'.tags = v.tags)
    (hcnt : v'.taskCnt = v.taskCnt) (hthreads : v'.threadCnt = v.threadCnt)
    (hcur : v'.current = v.current)
    (htask : ∀ k, (v'.task k).pid = (v.task k).pid ∧ (v'.task k).threadTags = (v.task k).threadTags)
    (htid : ∀ k t, ((v'.task k).thread t).tid = ((v.task k).thread t).tid)
    (hctx : ∀ k t, v.current () ≠ (k, t) →
      ((v'.task k).thread t).context = ((v.task k).thread t).context) : Stored v' P := by
  have hhas : ∀ k t, View.HasThread v' k t → View.HasThread v k t := by
    intro k t hkt
    exact ⟨htags ▸ hkt.1, (htask k).2 ▸ hkt.2⟩
  refine ⟨⟨?_, ?_, ?_⟩, ?_⟩
  · intro k hk
    rw [View.Live, (htask k).1, (htask k).2, hcnt]
    exact h.listed.tasks k (htags ▸ hk)
  · intro k t hkt
    rw [htid, hthreads]
    exact h.listed.threads k t (hhas k t hkt)
  · intro c
    rw [hcur]
    apply (h.listed.current c).imp_right
    intro hkt
    exact ⟨htags ▸ hkt.1, (htask _).2 ▸ hkt.2⟩
  · intro k t hkt hne
    rw [hcur] at hne
    rw [hctx k t hne]
    exact h.stored k t (hhas k t hkt) hne

theorem preempt_hasThread (ctx : Context) (k t : ℤ) :
    View.HasThread (v.preempt () ctx) k t ↔ View.HasThread v k t := by
  unfold View.preempt
  split
  · exact Iff.rfl
  · exact assign_hasThread k t

/-- INTERNAL: after a preemption all contexts have the property. -/
theorem Stored.preempt (h : Stored v P) {ctx : Context} (hctx : ¬ v.idle () → P (v.current ()) ctx) :
    Listed (v.preempt () ctx) ∧ ∀ k t, View.HasThread v k t →
      P (k, t) (((v.preempt () ctx).task k).thread t).context := by
  unfold View.preempt
  by_cases hidle : v.idle ()
  · rw [if_pos hidle]
    refine ⟨h.listed, ?_⟩
    intro k t hkt
    apply h.stored k t hkt
    intro hcur
    have ht := (h.listed.threads k t hkt).2.1
    have hk := (h.listed.live_of_hasThread hkt).2.1
    apply hidle
    rw [hcur]
    exact ⟨show t ≠ -1 by omega, show k ≠ -1 by omega⟩
  · rw [if_neg hidle]
    refine ⟨h.listed.assign _ _ _ _ (Or.inl rfl), ?_⟩
    intro k t hkt
    by_cases hown : k = (v.current ()).1 ∧ t = (v.current ()).2
    · obtain ⟨rfl, rfl⟩ := hown
      rw [assign_thread_self]
      exact hctx hidle
    · rw [assign_thread_of_ne hown]
      apply h.stored k t hkt
      intro hcur
      rw [hcur] at hown
      exact hown ⟨rfl, rfl⟩

/-- **What is dispatched after a preemption has been stored.** -/
theorem Stored.switch (h : Stored v P) (ctx : Context) (hctx : ¬ v.idle () → P (v.current ()) ctx)
    {k t : ℤ} (hkt : View.HasThread v k t) :
    P (k, t) (((v.preempt () ctx).task k).thread t).context ∧
      Stored ((v.preempt () ctx).dispatch () k t) P ∧
      ((v.preempt () ctx).dispatch () k t).current () = (k, t) := by
  obtain ⟨hlisted, hall⟩ := h.preempt hctx
  refine ⟨hall k t hkt, ⟨?_, ?_⟩, assign_current_self⟩
  · exact hlisted.assign _ _ _ _ (Or.inr ((preempt_hasThread ctx k t).mpr hkt))
  · intro j u hju hne
    have hold := (preempt_hasThread ctx j u).mp ((assign_hasThread j u).mp hju)
    rw [View.dispatch, assign_current_self] at hne
    rw [View.dispatch, assign_thread_of_ne]
    · exact hall j u hold
    · rintro ⟨rfl, rfl⟩
      exact hne rfl

end Stored

/-! ## The functions of the source -/

section Source

variable {s : Sched Unit} {P : ℤ × ℤ → Context → Prop}

theorem stored_init (junk : Task) (cpus : Unit → Cpu) :
    Stored (schedView (Sched.init junk cpus)) P := by
  have hnone : ∀ k t, ¬ View.HasThread (schedView (Sched.init junk cpus)) k t := by
    intro k t h
    cases h.1
  refine ⟨⟨?_, ?_, fun c => Or.inl rfl⟩, ?_⟩
  · intro k hk
    cases hk
  · intro k t hk
    exact absurd hk (hnone k t)
  · intro k t hk
    exact absurd hk (hnone k t)

theorem createTask_stored (h : Stored (schedView s) P) (ppid : ℤ) (pageMap : Option Word)
    (kernelMapping : Word) (junk₁ junk₂ : Task) :
    Stored (schedView (createTask s ppid pageMap kernelMapping junk₁ junk₂).1) P := by
  have h₁ := h.touch (taskView (Task.new junk₁)) rfl rfl ppid
  rw [← view_touch] at h₁
  have h₂ := h₁.touch (taskView (Task.new junk₁)) rfl rfl s.taskCnt
  rw [← view_touch] at h₂
  have h₃ := h₂.addTask (t := taskView { Task.new junk₂ with
    pid := s.taskCnt
    ppid := ppid
    status := taskWaiting
    pageMap := pageMap.getD kernelMapping }) rfl rfl
  refine cast (congrArg (fun v => Stored v P) ?_) h₃
  simp only [View.addTask, schedView, createTask, Map.put, View.mk.injEq, true_and, and_true]
  exact (Function.comp_update taskView _ _ _).symm

theorem createThread_stored (h : Stored (schedView s) P) (pid : ℤ) (rip : Word) (cs : BitVec 16)
    (highVma kernelStack mmapped : Word) (envp argv : List ℕ) (junkTask : Task) (junk : Thread)
    (hnew : P (pid, (s.threadCnt : ℤ))
      ⟨newRegs junk.regsCur rip cs highVma kernelStack mmapped envp argv, 0, 0⟩) :
    Stored (schedView
      (createThread s pid rip cs highVma kernelStack mmapped envp argv junkTask junk).1) P := by
  have h₁ := h.touch (taskView (Task.new junkTask)) rfl rfl pid
  have hmem := View.touch_tags (schedView s) pid (taskView (Task.new junkTask))
  rw [← view_touch] at h₁ hmem
  rw [createThread]
  by_cases hpid : ((s.taskList.touch pid (Task.new junkTask)).data pid).pid = -1
  · rw [if_pos hpid]
    exact h₁
  · rw [if_neg hpid]
    have hlive := (h₁.listed.tasks pid hmem).resolve_right fun hph => hpid hph.1
    have hfresh : (s.threadCnt : ℤ) ∉
        ((s.taskList.touch pid (Task.new junkTask)).data pid).threads.tags := by
      intro hin
      have hlt := (h₁.listed.threads pid s.threadCnt ⟨hmem, hin⟩).2.2
      exact absurd hlt (Int.lt_irrefl _)
    have h₂ := h₁.addThread hlive (e := threadView { Thread.new junk with
      tid := s.threadCnt
      status := taskWaiting
      userStack := if cs &&& 3 ≠ 0 then mmapped + 0x2000 else 0
      kernelStack := kernelStack
      userGsBase := 0
      userFsBase := 0
      regsCur := newRegs junk.regsCur rip cs highVma kernelStack mmapped envp argv }) rfl hnew
    refine cast (congrArg (fun v => Stored v P) ?_) h₂
    simp only [View.addThread, schedView, Map.put, View.mk.injEq, true_and, and_true]
    refine Eq.trans ?_ (Function.comp_update taskView _ _ _).symm
    exact congrArg _ (taskView_addThread _ hfresh _ _).symm

/-- The write of `syscall_set_gs_base`. -/
theorem storeGsBase_stored {p : Processor} (h : Stored (schedView p.sched) P)
    (hbusy : Sched.busy p.sched) (v : Word) (junkTask : Task) (junk : Thread) :
    Stored (schedView (p.storeGsBase v junkTask junk).sched) P := by
  obtain ⟨hk, ht⟩ := h.listed.hasThread (c := ()) (not_not.mpr hbusy)
  have hk : (p.sched.cpus ()).pid ∈ p.sched.taskList.tags := hk
  have ht : (p.sched.cpus ()).tid ∈
      (p.sched.taskList.data (p.sched.cpus ()).pid).threads.tags := ht
  rw [Processor.storeGsBase]
  simp only [map_touch_of_mem hk, map_touch_of_mem ht]
  -- the task and the thread of the record, as they are written
  refine h.others rfl rfl rfl rfl ?_ ?_ ?_
  · intro k
    by_cases hkcur : k = (p.sched.cpus ()).pid
    · subst hkcur
      simp only [schedView, Map.put, Function.update_self, taskView]
      exact ⟨trivial, trivial⟩
    · simp only [schedView, Map.put, Function.update_of_ne hkcur]
      exact ⟨trivial, trivial⟩
  · intro k t
    by_cases hkcur : k = (p.sched.cpus ()).pid
    · subst hkcur
      by_cases htcur : t = (p.sched.cpus ()).tid
      · subst htcur
        simp only [schedView, Map.put, Function.update_self, taskView, threadView]
      · simp only [schedView, Map.put, Function.update_self, taskView, Function.update_of_ne htcur]
    · simp only [schedView, Map.put, Function.update_of_ne hkcur]
  · intro k t hne
    by_cases hkcur : k = (p.sched.cpus ()).pid
    · subst hkcur
      have htcur : t ≠ (p.sched.cpus ()).tid := by
        rintro rfl
        exact hne rfl
      simp only [schedView, Map.put, Function.update_self, taskView, Function.update_of_ne htcur]
    · simp only [schedView, Map.put, Function.update_of_ne hkcur]

/-- A reschedule loads a context that was stored, or it changes nothing but counters. -/
theorem reschedule_stored (h : Stored (schedView s) P) (regs : Regs) (m : Msrs) (junkTask : Task)
    (junk : Thread) (hctx : Sched.busy s → P (Sched.thread s) (Context.of regs m)) :
    Stored (schedView (reschedule s () regs m junkTask junk).1) P ∧
      ((∃ m', (reschedule s () regs m junkTask junk).2 = .resume m' ∧
        Sched.thread (reschedule s () regs m junkTask junk).1 = Sched.thread s) ∨
      ∃ k t regs' m', (reschedule s () regs m junkTask junk).2 = .switchTask regs' m' ∧
        Sched.thread (reschedule s () regs m junkTask junk).1 = (k, t) ∧ k ≠ -1 ∧ t ≠ -1 ∧
        P (k, t) (Context.of regs' m')) := by
  rcases reschedule_view h.listed () regs m junkTask junk with
    ⟨hview, m', hout⟩ | ⟨k, t, hkt, -, -, hview, regs', m', hout, hload⟩
  · refine ⟨hview ▸ h, Or.inl ⟨m', hout, ?_⟩⟩
    exact congrFun (congrArg View.current hview) ()
  · obtain ⟨hP, hstored, hcur⟩ := h.switch (Context.of regs m)
      (fun hidle => hctx (not_not.mp hidle)) hkt
    have ht := (h.listed.threads k t hkt).2.1
    have hk := (h.listed.live_of_hasThread hkt).2.1
    refine ⟨hview ▸ hstored, Or.inr ⟨k, t, regs', m', hout, ?_, by omega, by omega, hload ▸ hP⟩⟩
    rw [← hview] at hcur
    exact hcur

end Source

end CrepOS.Analysis
