import CrepOS.Interface.NvmeRun

/-!
# Where the commands of msd objects go

Each constructor gives all CPUs a queue of its own controller. So a command goes to the last controller that has
I/O queues (`NvmeInvariant.latest`), whatever msd object it is for, and all commands are on the right queues
exactly if only msd objects of that controller are used (`routed_iff`).
-/

set_option autoImplicit false

namespace CrepOS.Analysis

open CrepOS.Library CrepOS.Model CrepOS.Interface

/-! ## The last controller with I/O queues -/

/-- The controller has I/O queues, and no later one has. -/
def LastWithQueues (st : NvmeDriver) (d : ℕ) : Prop :=
  (∃ dev, st.devices[d]? = some dev ∧ 1 < dev.qidCnt) ∧
    ∀ d', d < d' → ∀ dev, st.devices[d']? = some dev → dev.qidCnt ≤ 1

theorem LastWithQueues.unique {st : NvmeDriver} {d d' : ℕ} (h : LastWithQueues st d) (h' : LastWithQueues st d') :
    d = d' := by
  obtain ⟨⟨dev, hdev, hqueues⟩, hlast⟩ := h
  obtain ⟨⟨dev', hdev', hqueues'⟩, hlast'⟩ := h'
  have hle : ¬ d < d' := fun hlt => Nat.not_lt.mpr (hlast d' hlt dev' hdev') hqueues'
  have hge : ¬ d' < d := fun hlt => Nat.not_lt.mpr (hlast' d hlt dev hdev) hqueues
  omega

/-- What holds between the steps: all queues are those of the last controller that has any, and each msd object
is for a namespace of a controller with queues. -/
structure NvmeInvariant (st : NvmeDriver) : Prop where
  latest : ∀ q, some q ∈ st.cpus → LastWithQueues st q.parent
  msds : ∀ m ∈ st.msds, ∃ dev, st.devices[m.deviceIndex]? = some dev ∧
    (st.cpus ≠ [] → 1 < dev.qidCnt) ∧ m.partitionIndex < dev.namespaceList.length

/-! ## A transfer -/

section Transfer

variable {st st' : NvmeDriver} {m : NvmeMsd} {n : NvmeNamespace} {t : NvmeTransfer}

/-- INTERNAL: `rw_lba` puts one command on the queue of its CPU. -/
theorem rwLba_eq {core buffer start cnt : ℕ} {rw : Bool}
    (h : st.rwLba m n core buffer start cnt rw = some st') :
    ∃ c : IssuedRw, st' = { st with issued := st.issued ++ [c] } ∧
      c.msd = m ∧ some c.queue ∈ st.cpus ∧ c.command.nsid = n.nsid := by
  unfold NvmeDriver.rwLba at h
  cases hcpu : st.cpus[core]? with
  | none => rw [hcpu] at h; exact absurd h (by simp)
  | some slot =>
    cases slot with
    | none => rw [hcpu] at h; exact absurd h (by simp)
    | some q =>
      rw [hcpu] at h
      simp only [Option.some.injEq] at h
      exact ⟨_, h.symm, rfl, List.mem_of_getElem? hcpu, rfl⟩

/-- A transfer puts one or two commands on queues of CPUs, for a namespace of the controller of a CPU. -/
theorem transfer_eq (h : st.transfer m t = some st') :
    ∃ (q : NvmeQueue) (dev : NvmeDevice) (n : NvmeNamespace) (cs : List IssuedRw), some q ∈ st.cpus ∧
      st.devices[q.parent]? = some dev ∧ dev.namespaceList[m.partitionIndex]? = some n ∧
      st' = { st with issued := st.issued ++ cs } ∧ cs ≠ [] ∧
      ∀ c ∈ cs, c.msd = m ∧ some c.queue ∈ st.cpus ∧ c.command.nsid = n.nsid := by
  unfold NvmeDriver.transfer at h
  cases hcpu : st.cpus[t.core]? with
  | none => rw [hcpu] at h; exact absurd h (by simp)
  | some slot =>
    cases slot with
    | none => rw [hcpu] at h; exact absurd h (by simp)
    | some q =>
      rw [hcpu] at h
      dsimp only at h
      cases hdev : st.devices[q.parent]? with
      | none => rw [hdev] at h; exact absurd h (by simp)
      | some dev =>
        rw [hdev] at h
        dsimp only at h
        cases hn : dev.namespaceList[m.partitionIndex]? with
        | none => rw [hn] at h; exact absurd h (by simp)
        | some n =>
          rw [hn] at h
          dsimp only at h
          rw [Option.bind_eq_some_iff] at h
          obtain ⟨st₁, hread, hrest⟩ := h
          obtain ⟨c, rfl, hc⟩ := rwLba_eq hread
          cases hwrite : t.write with
          | false =>
            rw [hwrite, if_neg (by decide)] at hrest
            refine ⟨q, dev, n, [c], List.mem_of_getElem? hcpu, hdev, hn, (Option.some.inj hrest).symm,
              List.cons_ne_nil _ _, ?_⟩
            intro c' hc'
            rw [List.mem_singleton] at hc'
            rw [hc']
            exact hc
          | true =>
            rw [hwrite, if_pos rfl] at hrest
            obtain ⟨c₂, rfl, hc₂⟩ := rwLba_eq hrest
            refine ⟨q, dev, n, [c, c₂], List.mem_of_getElem? hcpu, hdev, hn, ?_, List.cons_ne_nil _ _, ?_⟩
            · simp
            · intro c' hc'
              simp only [List.mem_cons, List.not_mem_nil, or_false] at hc'
              cases hc' with
              | inl h => rw [h]; exact hc
              | inr h => rw [h]; exact hc₂

end Transfer

/-! ## What the steps keep -/

/-- All commands so far are routed. -/
def AllRouted (st : NvmeDriver) : Prop := ∀ c ∈ st.issued, RoutedTo st c

/-- INTERNAL: what a transfer keeps, and the constructor once its queues are there. -/
structure KeepsRouting (st st' : NvmeDriver) : Prop where
  invariant : NvmeInvariant st'
  devices : st'.devices = st.devices
  cpus : st'.cpus = st.cpus
  issued : st.issued <+: st'.issued
  routed : AllRouted st → AllRouted st'

theorem KeepsRouting.trans {st st₁ st₂ : NvmeDriver} (h : KeepsRouting st st₁) (h' : KeepsRouting st₁ st₂) :
    KeepsRouting st st₂ where
  invariant := h'.invariant
  devices := h'.devices.trans h.devices
  cpus := h'.cpus.trans h.cpus
  issued := h.issued.trans h'.issued
  routed := fun hst => h'.routed (h.routed hst)

section Transfers

variable {st st' : NvmeDriver} {m : NvmeMsd} {t : NvmeTransfer} {c : NvmeController}

theorem transfer_invariant (hinv : NvmeInvariant st) (h : st.transfer m t = some st') :
    NvmeInvariant st' ∧ st.issued <+: st'.issued := by
  obtain ⟨_, _, _, cs, _, _, _, rfl, _, _⟩ := transfer_eq h
  exact ⟨⟨hinv.latest, hinv.msds⟩, List.prefix_append _ _⟩

/-- A transfer of an msd object of the last controller with queues is routed to it. -/
theorem transfer_keeps (hinv : NvmeInvariant st)
    (hlast : st.cpus ≠ [] → LastWithQueues st m.deviceIndex) (h : st.transfer m t = some st') :
    KeepsRouting st st' := by
  obtain ⟨q, dev, n, cs, hq, hdev, hn, rfl, _, hcs⟩ := transfer_eq h
  refine ⟨⟨hinv.latest, hinv.msds⟩, rfl, rfl, List.prefix_append _ _, ?_⟩
  intro hold c hc
  rw [List.mem_append] at hc
  cases hc with
  | inl hc => exact hold c hc
  | inr hc =>
    obtain ⟨hmsd, hqueue, hnsid⟩ := hcs c hc
    have hmine := hlast (List.ne_nil_of_mem hq)
    have hparent : c.queue.parent = m.deviceIndex := (hinv.latest _ hqueue).unique hmine
    have hsame : q.parent = m.deviceIndex := (hinv.latest _ hq).unique hmine
    rw [hsame] at hdev
    refine ⟨by rw [hparent, hmsd], dev, n, ?_, ?_, hnsid⟩
    · rw [hmsd]
      exact hdev
    · rw [hmsd]
      exact hn

/-- If the commands of a transfer are on queues of the controller of the msd object, it is the last one. -/
theorem transfer_last (hinv : NvmeInvariant st) (h : st.transfer m t = some st')
    (hparents : ∀ c ∈ st'.issued, c.queue.parent = c.msd.deviceIndex) : LastWithQueues st m.deviceIndex := by
  obtain ⟨_, _, _, cs, _, _, _, rfl, hne, hcs⟩ := transfer_eq h
  obtain ⟨c, hc⟩ := List.exists_mem_of_ne_nil cs hne
  obtain ⟨hmsd, hqueue, _⟩ := hcs c hc
  have hparent := hparents c (List.mem_append_right _ hc)
  rw [hmsd] at hparent
  rw [← hparent]
  exact hinv.latest _ hqueue

/-- INTERNAL: several transfers of one msd object. -/
theorem transfers_keep {ts : List NvmeTransfer} (hinv : NvmeInvariant st)
    (hlast : st.cpus ≠ [] → LastWithQueues st m.deviceIndex)
    (h : ts.foldlM (fun st t => st.transfer m t) st = some st') : KeepsRouting st st' := by
  induction ts generalizing st with
  | nil =>
    obtain rfl : st = st' := Option.some.inj h
    exact ⟨hinv, rfl, rfl, List.prefix_refl _, fun hst => hst⟩
  | cons t ts ih =>
    rw [List.foldlM_cons, Option.bind_eq_bind, Option.bind_eq_some_iff] at h
    obtain ⟨st₁, hfirst, hrest⟩ := h
    have hkeep := transfer_keeps hinv hlast hfirst
    have hnext : st₁.cpus ≠ [] → LastWithQueues st₁ m.deviceIndex := by
      intro hcpus
      unfold LastWithQueues
      rw [hkeep.devices]
      exact hlast (hkeep.cpus ▸ hcpus)
    exact hkeep.trans (ih hkeep.invariant hnext hrest)

/-- INTERNAL: a new msd object of the last controller. -/
theorem pushMsd_keeps (hinv : NvmeInvariant st)
    (hmsd : ∃ dev, st.devices[m.deviceIndex]? = some dev ∧ (st.cpus ≠ [] → 1 < dev.qidCnt) ∧
      m.partitionIndex < dev.namespaceList.length)
    (hlast : st.cpus ≠ [] → LastWithQueues st m.deviceIndex) (h : st.pushMsd c m = some st') :
    KeepsRouting st st' := by
  have hpushed : NvmeInvariant { st with msds := st.msds ++ [m] } := by
    refine ⟨hinv.latest, ?_⟩
    intro m' hm'
    rw [List.mem_append, List.mem_singleton] at hm'
    cases hm' with
    | inl hold => exact hinv.msds m' hold
    | inr hnew => rw [hnew]; exact hmsd
  have hkeep := transfers_keep hpushed hlast h
  exact ⟨hkeep.invariant, hkeep.devices, hkeep.cpus, hkeep.issued, hkeep.routed⟩

/-- INTERNAL: the msd objects of a new controller. -/
theorem pushMsds_keep {l : List NvmeMsd} (hinv : NvmeInvariant st)
    (hmsds : ∀ m ∈ l, ∃ dev, st.devices[m.deviceIndex]? = some dev ∧ (st.cpus ≠ [] → 1 < dev.qidCnt) ∧
      m.partitionIndex < dev.namespaceList.length)
    (hlast : ∀ m ∈ l, st.cpus ≠ [] → LastWithQueues st m.deviceIndex)
    (h : l.foldlM (NvmeDriver.pushMsd c) st = some st') : KeepsRouting st st' := by
  induction l generalizing st with
  | nil =>
    obtain rfl : st = st' := Option.some.inj h
    exact ⟨hinv, rfl, rfl, List.prefix_refl _, fun hst => hst⟩
  | cons m l ih =>
    rw [List.foldlM_cons, Option.bind_eq_bind, Option.bind_eq_some_iff] at h
    obtain ⟨st₁, hfirst, hrest⟩ := h
    have hkeep := pushMsd_keeps hinv (hmsds m List.mem_cons_self) (hlast m List.mem_cons_self) hfirst
    have hnextMsds : ∀ m ∈ l, ∃ dev, st₁.devices[m.deviceIndex]? = some dev ∧ (st₁.cpus ≠ [] → 1 < dev.qidCnt) ∧
        m.partitionIndex < dev.namespaceList.length := by
      intro m' hm'
      rw [hkeep.devices, hkeep.cpus]
      exact hmsds m' (List.mem_cons_of_mem _ hm')
    have hnextLast : ∀ m ∈ l, st₁.cpus ≠ [] → LastWithQueues st₁ m.deviceIndex := by
      intro m' hm' hcpus
      unfold LastWithQueues
      rw [hkeep.devices]
      exact hlast m' (List.mem_cons_of_mem _ hm') (hkeep.cpus ▸ hcpus)
    exact hkeep.trans (ih hkeep.invariant hnextMsds hnextLast hrest)

end Transfers

/-! ## The constructor -/

section Construct

variable {st st' : NvmeDriver} {c : NvmeController} {dev : NvmeDevice}

/-- INTERNAL: a device that was there is there after another one is added, in the same place. -/
theorem getElem?_concat {l : List NvmeDevice} {d : ℕ} {dev' : NvmeDevice} (h : l[d]? = some dev) :
    (l ++ [dev'])[d]? = some dev := by
  have hlt : d < l.length := (List.getElem?_eq_some_iff.mp h).1
  rw [List.getElem?_append_left hlt, h]

theorem AllRouted.of_concat {cpus : List (Option NvmeQueue)} (h : AllRouted st) :
    AllRouted { st with devices := st.devices ++ [dev], cpus := cpus } := by
  intro c hc
  obtain ⟨hparent, dev', n, hdev, hn, hnsid⟩ := h c hc
  exact ⟨hparent, dev', n, getElem?_concat hdev, hn, hnsid⟩

/-- INTERNAL: a device without I/O queues changes nothing for the others. -/
theorem invariant_of_giveUp (hinv : NvmeInvariant st) (hdev : dev.qidCnt ≤ 1) :
    NvmeInvariant { st with devices := st.devices ++ [dev] } := by
  constructor
  · intro q hq
    obtain ⟨⟨dev', hdev', hqueues⟩, hlater⟩ := hinv.latest q hq
    refine ⟨⟨dev', getElem?_concat hdev', hqueues⟩, ?_⟩
    intro d hd dev'' hdev''
    by_cases hlt : d < st.devices.length
    · rw [List.getElem?_append_left hlt] at hdev''
      exact hlater d hd dev'' hdev''
    · have hmem := List.mem_of_getElem? hdev''
      rw [List.getElem?_append_right (Nat.le_of_not_lt hlt), List.getElem?_singleton] at hdev''
      split at hdev''
      · obtain rfl := Option.some.inj hdev''
        exact hdev
      · cases hdev''
  · intro m hm
    obtain ⟨dev', hdev', hrest⟩ := hinv.msds m hm
    exact ⟨dev', getElem?_concat hdev', hrest⟩

/-- INTERNAL: the queues of a new controller replace all others. -/
theorem lastWithQueues_new {l : List NvmeNamespace} {k : ℕ} (hk : 0 < k) (cpus : List (Option NvmeQueue)) :
    LastWithQueues { st with devices := st.devices ++ [⟨1 + k, l⟩], cpus := cpus } st.devices.length := by
  constructor
  · exact ⟨⟨1 + k, l⟩, by simp, by simp; omega⟩
  · intro d hd dev hdev
    have hnone : (st.devices ++ [⟨1 + k, l⟩])[d]? = none := by
      rw [List.getElem?_eq_none_iff]
      simp
      omega
    rw [hnone] at hdev
    cases hdev

theorem invariant_of_queues {l : List NvmeNamespace} (hinv : NvmeInvariant st) :
    NvmeInvariant { st with
      devices := st.devices ++ [⟨1 + st.cpus.length, l⟩]
      cpus := st.cpus.mapIdx fun i _ => some ⟨st.devices.length, 1 + i⟩ } := by
  constructor
  · intro q hq
    rw [List.mem_mapIdx] at hq
    obtain ⟨i, hi, hq⟩ := hq
    have hparent : q.parent = st.devices.length := by
      rw [← Option.some.inj hq]
    rw [hparent]
    exact lastWithQueues_new (by omega) _
  · intro m hm
    obtain ⟨dev', hdev', hqueues, hpart⟩ := hinv.msds m hm
    refine ⟨dev', getElem?_concat hdev', ?_, hpart⟩
    intro hcpus
    apply hqueues
    intro hnil
    rw [hnil] at hcpus
    exact hcpus rfl

/-- The constructor routes its own commands, and leaves the others where they are. -/
theorem construct_keeps (hinv : NvmeInvariant st) (h : st.construct c = some st') :
    NvmeInvariant st' ∧ st.issued <+: st'.issued ∧ (AllRouted st → AllRouted st') := by
  have hgiveUp : ∀ (k : ℕ) (l : List NvmeNamespace), k ≤ 1 →
      some { st with devices := st.devices ++ [⟨k, l⟩] } = some st' →
      NvmeInvariant st' ∧ st.issued <+: st'.issued ∧ (AllRouted st → AllRouted st') := by
    intro k l hk heq
    obtain rfl := Option.some.inj heq
    exact ⟨invariant_of_giveUp hinv hk, List.prefix_refl _, AllRouted.of_concat⟩
  unfold NvmeDriver.construct at h
  dsimp only at h
  split at h
  · exact hgiveUp _ _ (by omega) h
  split at h
  · exact hgiveUp _ _ (by omega) h
  split at h
  · exact hgiveUp _ _ (by omega) h
  split at h
  · exact hgiveUp _ _ (by omega) h
  split at h
  · exact hgiveUp _ _ (by omega) h
  split at h
  · exact hgiveUp _ _ (by omega) h
  have hcpus : ∀ (f : ℕ → Option NvmeQueue → Option NvmeQueue), st.cpus.mapIdx f ≠ [] → 0 < st.cpus.length := by
    intro f hf
    apply List.length_pos_iff.mpr
    intro hnil
    rw [hnil] at hf
    exact hf rfl
  have hkeep := pushMsds_keep (invariant_of_queues hinv) ?_ ?_ h
  · exact ⟨hkeep.invariant, hkeep.issued, fun hst => hkeep.routed hst.of_concat⟩
  · intro m hm
    rw [List.mem_mapIdx] at hm
    obtain ⟨i, hi, rfl⟩ := hm
    refine ⟨⟨1 + st.cpus.length, _⟩, by simp; rfl, ?_, hi⟩
    intro hne
    have hpos := hcpus _ hne
    dsimp only
    omega
  · intro m hm hne
    rw [List.mem_mapIdx] at hm
    obtain ⟨i, hi, rfl⟩ := hm
    exact lastWithQueues_new (hcpus _ hne) _

end Construct

/-! ## Runs -/

section Runs

variable {st : NvmeDriver} {ops : List NvmeUse} {n : ℕ}

/-- INTERNAL: an msd object may be used if and only if its controller is the last one. -/
theorem onLatest_of_last {k : ℕ} {t : NvmeTransfer} {m : NvmeMsd} (hm : st.msds[k]? = some m)
    (h : LastWithQueues st m.deviceIndex) : OnLatest st (.use k t) := by
  intro m' hm' dev hdev
  rw [Option.mem_def, hm] at hm'
  obtain rfl := Option.some.inj hm'
  obtain ⟨i, hi, hget⟩ := List.getElem_of_mem hdev
  rw [List.getElem_drop] at hget
  exact h.2 (m.deviceIndex + 1 + i) (by omega) dev (List.getElem?_eq_some_iff.mpr ⟨_, hget⟩)

theorem last_of_onLatest (hinv : NvmeInvariant st) {k : ℕ} {t : NvmeTransfer} {m : NvmeMsd}
    (hm : st.msds[k]? = some m) (h : OnLatest st (.use k t)) (hcpus : st.cpus ≠ []) :
    LastWithQueues st m.deviceIndex := by
  obtain ⟨dev, hdev, hqueues, _⟩ := hinv.msds m (List.mem_of_getElem? hm)
  refine ⟨⟨dev, hdev, hqueues hcpus⟩, ?_⟩
  intro d hd dev' hdev'
  apply h m hm
  obtain ⟨hlt, hget⟩ := List.getElem?_eq_some_iff.mp hdev'
  rw [List.mem_drop_iff_getElem]
  exact ⟨d - (m.deviceIndex + 1), by omega, by rw [← hget]; congr 1; omega⟩

theorem noControllers_invariant : NvmeInvariant (noControllers n) := by
  constructor
  · intro q hq
    exact absurd (List.eq_of_mem_replicate hq) (by simp)
  · intro m hm
    cases hm

/-- INTERNAL: a read or write is a transfer of an msd object. -/
theorem routingStep_use {st' : NvmeDriver} {k : ℕ} {t : NvmeTransfer} (h : routingStep st (.use k t) = some st') :
    ∃ m, st.msds[k]? = some m ∧ st.transfer m t = some st' := by
  obtain ⟨m, hm, htransfer⟩ := Option.bind_eq_some_iff.mp h
  exact ⟨m, hm, htransfer⟩

/-- INTERNAL: one step. -/
theorem routingStep_invariant {st' : NvmeDriver} {a : NvmeUse} (hinv : NvmeInvariant st)
    (h : routingStep st a = some st') : NvmeInvariant st' ∧ st.issued <+: st'.issued := by
  cases a with
  | initialise c =>
    obtain ⟨hkept, hissued, _⟩ := construct_keeps hinv h
    exact ⟨hkept, hissued⟩
  | use k t =>
    obtain ⟨m, _, h⟩ := routingStep_use h
    exact transfer_invariant hinv h

/-- INTERNAL: a step that the condition permits. -/
theorem routingStep_routed {st' : NvmeDriver} {a : NvmeUse} (hinv : NvmeInvariant st) (hok : OnLatest st a)
    (h : routingStep st a = some st') (hst : AllRouted st) : AllRouted st' := by
  cases a with
  | initialise c =>
    obtain ⟨_, _, hrouted⟩ := construct_keeps hinv h
    exact hrouted hst
  | use k t =>
    obtain ⟨m, hm, h⟩ := routingStep_use h
    exact (transfer_keeps hinv (last_of_onLatest hinv hm hok) h).routed hst

/-- INTERNAL: a step that the condition does not permit puts a command on a wrong queue. -/
theorem routingStep_onLatest {st' : NvmeDriver} {a : NvmeUse} (hinv : NvmeInvariant st)
    (h : routingStep st a = some st') (hparents : ∀ c ∈ st'.issued, c.queue.parent = c.msd.deviceIndex) :
    OnLatest st a := by
  cases a with
  | initialise c => trivial
  | use k t =>
    obtain ⟨m, hm, h⟩ := routingStep_use h
    exact onLatest_of_last hm (transfer_last hinv h hparents)

theorem run_invariant (h : Run (fun s a t => routingStep s a = some t) (noControllers n) ops st) :
    NvmeInvariant st :=
  h.invariant NvmeInvariant (fun _ _ _ hinv hstep => (routingStep_invariant hinv hstep).1) noControllers_invariant

/-- In any run, all commands go to the controllers of their msd objects if and only if no msd object is used after
a later controller has got I/O queues. -/
theorem routed_iff_onLatest (h : Run (fun s a t => routingStep s a = some t) (noControllers n) ops st) :
    (∀ c ∈ st.issued, RoutedTo st c) ↔
      Run (Guarded OnLatest fun s a t => routingStep s a = some t) (noControllers n) ops st := by
  constructor
  · intro hrouted
    have hparents : ∀ c ∈ st.issued, c.queue.parent = c.msd.deviceIndex := fun c hc => (hrouted c hc).1
    clear hrouted
    induction h with
    | nil => exact Run.nil
    | snoc hrun hstep ih =>
      have hinv := run_invariant hrun
      have hissued := (routingStep_invariant hinv hstep).2
      have hok := routingStep_onLatest hinv hstep hparents
      exact Run.snoc (ih fun c hc => hparents c (hissued.subset hc)) ⟨hok, hstep⟩
  · intro hguarded
    have hkept : NvmeInvariant st ∧ AllRouted st := by
      apply hguarded.invariant fun s => NvmeInvariant s ∧ AllRouted s
      · intro s a t hs hstep
        exact ⟨(routingStep_invariant hs.1 hstep.2).1, routingStep_routed hs.1 hstep.1 hstep.2 hs.2⟩
      · exact ⟨noControllers_invariant, fun c hc => by cases hc⟩
    exact hkept.2

end Runs

/-- A controller with one namespace, whose first sector is read. -/
def oneNamespace (nsid : BitVec 32) : NvmeController :=
  ⟨0x10400, 1 <<< 37, true, true, 1, fun _ => nsid, fun _ => some (1024, 9), 0,
    fun _ => [⟨false, 510, 2, 0x5000, 0, 0, 0⟩]⟩

/-- Two controllers on two CPUs, with a write to the second one after both are initialised. -/
def writeLatest : List NvmeUse :=
  [.initialise (oneNamespace 1), .use 0 ⟨false, 0, 512, 0x5000, 1, 1, 0⟩, .initialise (oneNamespace 7),
    .use 1 ⟨true, 4096, 512, 0x5000, 1, 0, 1⟩]

theorem writeLatest_routed : ∃ st, Run (fun s a t => routingStep s a = some t) (noControllers 2) writeLatest st ∧
    ∀ c ∈ st.issued, RoutedTo st c := by
  have hsome : (writeLatest.foldlM (fun s a => if OnLatest s a then routingStep s a else none)
      (noControllers 2)).isSome = true := by decide
  obtain ⟨st, hst⟩ := Option.isSome_iff_exists.mp hsome
  have hguarded := Run.of_guarded hst
  have hrun : Run (fun s a t => routingStep s a = some t) (noControllers 2) writeLatest st :=
    Run.mono (fun _ _ _ h => h.2) hguarded
  exact ⟨st, hrun, (routed_iff_onLatest hrun).mpr hguarded⟩

/-- After a second controller is initialised, what is read of the first one comes from the second one. -/
theorem read_from_latest : ¬ ∀ (n : ℕ) (ops : List NvmeUse) (st : NvmeDriver),
    Run (fun s a t => routingStep s a = some t) (noControllers n) ops st → ∀ c ∈ st.issued, RoutedTo st c := by
  intro h
  have hrun := h 1 [.initialise (oneNamespace 1), .initialise (oneNamespace 7), .use 0 ⟨false, 0, 512, 0x5000, 0, 0, 0⟩]
    _ (Run.of_foldlM rfl)
  have hparent := (hrun ⟨⟨0, 0, 512, 1024⟩, ⟨1, 1⟩, ⟨2, 7, 0, 0, 0x5000⟩⟩ (by decide)).1
  exact absurd hparent (by decide)

end CrepOS.Analysis
