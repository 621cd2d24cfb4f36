import CrepOS.Library.Ring
import CrepOS.Interface.NvmeRun

/-!
# Driver and controller agree on the phase

After `k` commands the driver stands `k` steps around the completion ring, and so does the controller.
The invariant `InStep` gives both positions by counting: `sent` commands were submitted, `posted`
completed, `returns` reported, each of these at most one ahead of the next, and the places and the
phases are those of `Library.Ring` for these counts. The tags of the ring are those of a ring with
`posted` marked places, so the driver sees the expected tag exactly when the controller is ahead.

Both parts of the condition are needed. A command that fails leaves the head of the driver where it is
while the controller moves on (`send_cmd_reports_stale_status`), and a tag left in the pages of a new
ring is taken for a completion (`send_cmd_reads_old_page`).
-/

set_option autoImplicit false

namespace CrepOS.Analysis

open CrepOS.Library CrepOS.Model CrepOS.Interface

variable {C : Type}

/-- INTERNAL: the phase tags of a ring. -/
def phaseTags (q : Queue C) (i : ℕ) : ℕ := (q.completionQueue i &&& 1).toNat

/-- The invariant of a run without failures.
SRCLINE: kernel/drivers/nvme/nvme.cpp:284-316 -/
structure InStep (st : NvmeState C) : Prop where
  entries_ge : 2 ≤ st.queue.entries
  entries_le : st.queue.entries ≤ 0xffff
  returned_le : st.returns.length ≤ st.posted.length
  posted_le : st.posted.length ≤ st.sent
  sent_eq : st.sent = st.returns.length + (if st.waiting then 1 else 0)
  sqTail_eq : st.queue.sqTail = st.sent % st.queue.entries
  doorbell_eq : st.queue.submissionDoorbell = st.sent % st.queue.entries
  sqHead_eq : st.controller.sqHead = st.posted.length % st.queue.entries
  cqTail_eq : st.controller.cqTail = st.posted.length % st.queue.entries
  controllerPhase_eq : st.controller.phase = ringTag st.queue.entries st.posted.length
  cqHead_eq : st.queue.cqHead = st.returns.length % st.queue.entries
  phase_eq : st.queue.phase = ringTag st.queue.entries st.returns.length
  tags : Tagged st.queue.entries st.posted.length (phaseTags st.queue)
  success : st.posted.length = st.returns.length + 1 →
    st.queue.completionQueue st.queue.cqHead >>> 1 = 0
  statuses : ∀ status ∈ st.posted, status = 0
  correct : ∀ r ∈ st.returns, r.Correct

/-! ## The status word -/

/-- INTERNAL: the phase tag of a status word. -/
theorem statusWord_tag {phase : ℕ} (hphase : phase < 2) :
    (statusWord 0 phase &&& 1).toNat = phase := by
  obtain rfl | rfl : phase = 0 ∨ phase = 1 := by omega
  · decide
  · decide

/-- INTERNAL: the status of a status word. -/
theorem statusWord_status {phase : ℕ} (hphase : phase < 2) : statusWord 0 phase >>> 1 = 0 := by
  obtain rfl | rfl : phase = 0 ∨ phase = 1 := by omega
  · decide
  · decide

theorem phaseTags_lt_two (q : Queue C) (i : ℕ) : phaseTags q i < 2 := by
  unfold phaseTags
  rw [BitVec.toNat_and]
  exact Nat.lt_of_le_of_lt Nat.and_le_right (by decide)

/-! ## The steps -/

/-- INTERNAL: the driver submits a command.
SRCLINE: kernel/drivers/nvme/nvme.cpp:292-296 -/
theorem InStep.send {st : NvmeState C} (h : InStep st) (hidle : st.waiting = false) (cmd : C) :
    InStep { st with queue := st.queue.submit cmd, waiting := true, sent := st.sent + 1 } := by
  have hn : 0 < st.queue.entries := Nat.lt_of_lt_of_le (by decide) h.entries_ge
  have hadvance := (ring_advance hn st.sent).1
  have hsmall : (st.sent + 1) % st.queue.entries < 2 ^ 32 := by
    have hlt := Nat.mod_lt (st.sent + 1) hn
    have hle := h.entries_le
    omega
  have hsent := h.sent_eq
  rw [hidle] at hsent
  have hposted := h.posted_le
  refine { h with posted_le := ?_, sent_eq := ?_, sqTail_eq := ?_, doorbell_eq := ?_ }
  · show st.posted.length ≤ st.sent + 1
    omega
  · show st.sent + 1 = st.returns.length + 1
    simpa using hsent
  · show (if st.queue.sqTail + 1 = st.queue.entries then 0 else st.queue.sqTail + 1) = _
    rw [h.sqTail_eq]
    exact hadvance.symm
  · show (if st.queue.sqTail + 1 = st.queue.entries then 0 else st.queue.sqTail + 1) % 2 ^ 32 = _
    rw [h.sqTail_eq, ← hadvance]
    exact Nat.mod_eq_of_lt hsmall

/-- INTERNAL: the controller completes a command.
SRCLINE: kernel/drivers/nvme/nvme.cpp:298-301 -/
theorem InStep.complete {st : NvmeState C} (h : InStep st) {c : Controller} {q : Queue C}
    (hcomplete : st.controller.complete st.queue 0 = some (c, q)) :
    InStep { st with controller := c, queue := q, posted := st.posted ++ [0] } := by
  have hn : 0 < st.queue.entries := Nat.lt_of_lt_of_le (by decide) h.entries_ge
  obtain ⟨hplace, hround⟩ := ring_advance hn st.posted.length
  unfold Controller.complete at hcomplete
  split at hcomplete
  · cases hcomplete
  · rename_i hbehind
    rw [h.sqHead_eq, h.doorbell_eq] at hbehind
    obtain ⟨rfl, rfl⟩ := Prod.mk.inj (Option.some.inj hcomplete)
    -- a command is waiting for its completion, and only one
    have hlt : st.posted.length < st.sent := by
      refine Nat.lt_of_le_of_ne h.posted_le ?_
      rintro heq
      exact hbehind (by rw [heq])
    have hsent := h.sent_eq
    have hreturned := h.returned_le
    have hposted : st.posted.length = st.returns.length ∧ st.sent = st.returns.length + 1 := by
      split at hsent <;> omega
    have htwo := ringTag_lt_two st.queue.entries st.posted.length
    have hlength : (st.posted ++ [(0 : BitVec 15)]).length = st.posted.length + 1 := by simp
    exact {
      entries_ge := h.entries_ge
      entries_le := h.entries_le
      returned_le := by
        show st.returns.length ≤ (st.posted ++ [0]).length
        rw [hlength]
        omega
      posted_le := by
        show (st.posted ++ [0]).length ≤ st.sent
        rw [hlength]
        omega
      sent_eq := h.sent_eq
      sqTail_eq := h.sqTail_eq
      doorbell_eq := h.doorbell_eq
      sqHead_eq := by
        show (if st.controller.sqHead + 1 = st.queue.entries then 0 else st.controller.sqHead + 1) =
          (st.posted ++ [0]).length % st.queue.entries
        rw [h.sqHead_eq, hlength, hplace]
      cqTail_eq := by
        show (if st.controller.cqTail + 1 = st.queue.entries then 0 else st.controller.cqTail + 1) =
          (st.posted ++ [0]).length % st.queue.entries
        rw [h.cqTail_eq, hlength, hplace]
      controllerPhase_eq := by
        show (if st.controller.cqTail + 1 = st.queue.entries then
            (if st.controller.phase = 0 then 1 else 0) else st.controller.phase) =
          ringTag st.queue.entries (st.posted ++ [0]).length
        rw [h.cqTail_eq, h.controllerPhase_eq, hlength, hround]
      cqHead_eq := h.cqHead_eq
      phase_eq := h.phase_eq
      tags := by
        show Tagged st.queue.entries (st.posted ++ [0]).length _
        rw [hlength]
        refine h.tags.mark hn ?_ ?_ fun i _ => phaseTags_lt_two _ i
        · unfold phaseTags
          rw [← h.cqTail_eq]
          show (Function.update st.queue.completionQueue st.controller.cqTail _
            st.controller.cqTail &&& 1).toNat = _
          rw [Function.update_self, h.controllerPhase_eq]
          exact statusWord_tag htwo
        · intro i hi
          unfold phaseTags
          show (Function.update st.queue.completionQueue st.controller.cqTail _ i &&& 1).toNat = _
          rw [Function.update_of_ne (by rw [h.cqTail_eq]; exact hi)]
      success := by
        intro _
        show Function.update st.queue.completionQueue st.controller.cqTail _ st.queue.cqHead >>> 1 = 0
        have hsame : st.queue.cqHead = st.controller.cqTail := by
          rw [h.cqHead_eq, h.cqTail_eq, hposted.1]
        rw [hsame, Function.update_self, h.controllerPhase_eq]
        exact statusWord_status htwo
      statuses := by
        intro status hmem
        rcases List.mem_append.mp hmem with hold | hnew
        · exact h.statuses status hold
        · exact List.mem_singleton.mp hnew
      correct := h.correct }

/-- INTERNAL: the driver sees the expected tag exactly when the controller is ahead.
SRCLINE: kernel/drivers/nvme/nvme.cpp:298-301 -/
theorem InStep.tag_iff {st : NvmeState C} (h : InStep st) :
    phaseTags st.queue st.queue.cqHead = st.queue.phase ↔
      st.posted.length = st.returns.length + 1 := by
  have hn : 0 < st.queue.entries := Nat.lt_of_lt_of_le (by decide) h.entries_ge
  have hle := h.returned_le
  have hposted := h.posted_le
  have hsent := h.sent_eq
  rw [h.cqHead_eq, h.phase_eq]
  constructor
  · intro htag
    by_contra hne
    have heq : st.posted.length = st.returns.length := by split at hsent <;> omega
    have hnext := h.tags.next hn
    rw [heq] at hnext
    exact hnext htag
  · intro heq
    have htags := h.tags
    rw [heq] at htags
    -- the place of the last completion: the tag of its round is the tag the driver expects
    exact htags.last hn (fun i _ => phaseTags_lt_two _ i)

/-- INTERNAL: what the driver sees when it looks at the completion ring.
SRCLINE: kernel/drivers/nvme/nvme.cpp:298-315 -/
theorem InStep.poll_eq {st : NvmeState C} (h : InStep st) :
    st.queue.poll =
      if st.posted.length = st.returns.length + 1 then
        some ({ st.queue with
          cqHead := (st.returns.length + 1) % st.queue.entries
          phase := ringTag st.queue.entries (st.returns.length + 1)
          completionDoorbell := (st.returns.length + 1) % st.queue.entries % 2 ^ 32 }, 0)
      else none := by
  have hn : 0 < st.queue.entries := Nat.lt_of_lt_of_le (by decide) h.entries_ge
  obtain ⟨hplace, hround⟩ := ring_advance hn st.returns.length
  unfold Queue.poll
  by_cases hahead : st.posted.length = st.returns.length + 1
  · have htag := h.tag_iff.mpr hahead
    unfold phaseTags at htag
    rw [if_pos hahead]
    simp only [htag, if_true]
    rw [if_neg (not_not.mpr (h.success hahead)), h.cqHead_eq, h.phase_eq, hplace, hround]
  · have htag := mt h.tag_iff.mp hahead
    unfold phaseTags at htag
    rw [if_neg hahead]
    simp only [htag, if_false]

/-- INTERNAL: the driver returns from `send_cmd`.
SRCLINE: kernel/drivers/nvme/nvme.cpp:308-315 -/
theorem InStep.poll {st : NvmeState C} (h : InStep st) (hwaiting : st.waiting = true)
    {q : Queue C} {value : BitVec 16} (hpoll : st.queue.poll = some (q, value)) :
    InStep { st with
      queue := q
      waiting := false
      returns := st.returns ++ [⟨value, st.posted[st.returns.length]?, q.cqHead, q.phase,
        st.controller.cqTail, st.controller.phase⟩] } := by
  rw [h.poll_eq] at hpoll
  split at hpoll
  · rename_i hahead
    obtain ⟨rfl, rfl⟩ := Prod.mk.inj (Option.some.inj hpoll)
    have hsent := h.sent_eq
    rw [hwaiting] at hsent
    have hlength (r : SendReturn) : (st.returns ++ [r]).length = st.returns.length + 1 := by simp
    have hlast : st.posted[st.returns.length]? = some 0 := by
      have hlt : st.returns.length < st.posted.length := by omega
      rw [List.getElem?_eq_getElem hlt, h.statuses _ (List.getElem_mem hlt)]
    exact {
      entries_ge := h.entries_ge
      entries_le := h.entries_le
      returned_le := by
        simp only [hlength]
        omega
      posted_le := h.posted_le
      sent_eq := by
        simp only [hlength]
        simpa using hsent
      sqTail_eq := h.sqTail_eq
      doorbell_eq := h.doorbell_eq
      sqHead_eq := h.sqHead_eq
      cqTail_eq := h.cqTail_eq
      controllerPhase_eq := h.controllerPhase_eq
      cqHead_eq := by simp only [hlength]
      phase_eq := by simp only [hlength]
      tags := h.tags
      success := by
        simp only [hlength]
        omega
      statuses := h.statuses
      correct := by
        intro r hr
        rcases List.mem_append.mp hr with hold | hnew
        · exact h.correct r hold
        · obtain rfl := List.mem_singleton.mp hnew
          refine ⟨⟨0, hlast, by simp, fun hne => absurd rfl hne⟩, ?_, ?_⟩
          · show (st.returns.length + 1) % st.queue.entries = st.controller.cqTail
            rw [h.cqTail_eq, hahead]
          · show ringTag st.queue.entries (st.returns.length + 1) = st.controller.phase
            rw [h.controllerPhase_eq, hahead] }
  · cases hpoll

/-- INTERNAL: one step. -/
theorem InStep.step {st st' : NvmeState C} {op : NvmeOp C} (h : InStep st)
    (hstep : nvmeStep st op st') : InStep st' := by
  obtain ⟨hsound, hexec⟩ := hstep
  cases op with
  | send cmd =>
    simp only [NvmeState.exec] at hexec
    split at hexec
    · cases hexec
    · rename_i hidle
      obtain rfl := Option.some.inj hexec
      exact h.send (Bool.eq_false_iff.mpr hidle) cmd
  | poll =>
    simp only [NvmeState.exec] at hexec
    split at hexec
    · rename_i hwaiting
      split at hexec
      · obtain rfl := Option.some.inj hexec
        exact h
      · rename_i q value hpoll
        obtain rfl := Option.some.inj hexec
        exact h.poll hwaiting hpoll
    · cases hexec
  | complete status =>
    obtain rfl : status = 0 := hsound
    simp only [NvmeState.exec] at hexec
    split at hexec
    · cases hexec
    · rename_i c q hcomplete
      obtain rfl := Option.some.inj hexec
      exact h.complete hcomplete

/-- INTERNAL: a new queue whose ring has no tag of the first round. -/
theorem InStep.initial {st : NvmeState C} (h : st.Initial) (hclear : st.RingClear) :
    InStep st := by
  obtain ⟨queue, controller, waiting, sent, posted, returns⟩ := st
  obtain ⟨⟨entries, submission, completion, hge, hle, rfl⟩, rfl, rfl, rfl, rfl, rfl⟩ := h
  have htag : ringTag entries 0 = 1 := by
    unfold ringTag
    rw [Nat.zero_div]
  exact {
    entries_ge := hge
    entries_le := hle
    returned_le := Nat.le_refl _
    posted_le := Nat.le_refl _
    sent_eq := rfl
    sqTail_eq := (Nat.zero_mod _).symm
    doorbell_eq := (Nat.zero_mod _).symm
    sqHead_eq := (Nat.zero_mod _).symm
    cqTail_eq := (Nat.zero_mod _).symm
    controllerPhase_eq := htag.symm
    cqHead_eq := (Nat.zero_mod _).symm
    phase_eq := htag.symm
    tags := by
      intro i hi
      have hzero : phaseTags (Queue.init entries submission completion) i = 0 := hclear i hi
      show (i < 0 % entries → _) ∧ (0 % entries ≤ i → _ ≠ ringTag entries 0)
      rw [hzero, htag, Nat.zero_mod]
      exact ⟨fun hneg => absurd hneg (Nat.not_lt_zero i), fun _ => by decide⟩
    success := fun hneg => absurd hneg (by simp)
    statuses := fun _ hmem => nomatch hmem
    correct := fun _ hmem => nomatch hmem }

/-! ## Every run -/

/-- **The queue protocol.** In every run from a new queue whose completion ring holds no tag of the
first round and in which no command fails, every `send_cmd` has returned the status of its own command
and left the driver in step with the controller; and a `send_cmd` that is waiting returns when the
driver next looks at the ring, as soon as its command has completed, which the controller can do if it
has not.
SRCLINE: kernel/drivers/nvme/nvme.cpp:284-316 -/
theorem send_cmd_in_step {st st' : NvmeState C} {ops : List (NvmeOp C)} (hinit : st.Initial)
    (hclear : st.RingClear) (hrun : Run nvmeStep st ops st') :
    (∀ r ∈ st'.returns, r.Correct) ∧
      (st'.waiting = true →
        (st'.posted.length = st'.sent ∧ ∃ q, st'.queue.poll = some (q, 0)) ∨
        (st'.posted.length + 1 = st'.sent ∧ st'.queue.poll = none ∧
          ∀ status, (st'.controller.complete st'.queue status).isSome)) := by
  have h : InStep st' :=
    hrun.invariant InStep (fun _ _ _ hst hstep => hst.step hstep) (InStep.initial hinit hclear)
  refine ⟨h.correct, ?_⟩
  intro hwaiting
  have hsent := h.sent_eq
  rw [hwaiting, if_pos rfl] at hsent
  have hposted := h.posted_le
  have hreturned := h.returned_le
  by_cases hahead : st'.posted.length = st'.returns.length + 1
  · left
    have hpoll := h.poll_eq
    rw [if_pos hahead] at hpoll
    exact ⟨by omega, _, hpoll⟩
  · right
    refine ⟨by omega, ?_, ?_⟩
    · rw [h.poll_eq, if_neg hahead]
    · intro status
      have hn : 0 < st'.queue.entries := Nat.lt_of_lt_of_le (by decide) h.entries_ge
      have heq : st'.sent = st'.posted.length + 1 := by omega
      -- one place further on a ring of at least two places is another place
      have hbehind : st'.controller.sqHead ≠ st'.queue.submissionDoorbell := by
        have hge := h.entries_ge
        have hlt := Nat.mod_lt st'.posted.length hn
        rw [h.sqHead_eq, h.doorbell_eq, heq, (ring_advance hn _).1]
        split_ifs <;> omega
      unfold Controller.complete
      rw [if_neg hbehind]
      rfl

/-- INTERNAL: a ring of two places, in pages that hold `old`. -/
def smallQueue (old : ℕ → BitVec 16) : NvmeState Unit where
  queue := Queue.init 2 (fun _ => ()) old
  controller := ⟨0, 0, 1⟩
  waiting := false
  sent := 0
  posted := []
  returns := []

theorem smallQueue_initial (old : ℕ → BitVec 16) : (smallQueue old).Initial :=
  ⟨⟨2, _, _, by decide, by decide, rfl⟩, rfl, rfl, rfl, rfl, rfl⟩

/-- Three commands on a ring of two places: the phase is inverted in between. -/
theorem send_cmd_in_step_wraps :
    ∃ st', Run nvmeStep (smallQueue fun _ => 0)
        [.send (), .complete 0, .poll, .send (), .poll, .complete 0, .poll, .send (), .complete 0,
          .poll] st' ∧
      st'.returns.length = 3 ∧ st'.queue.phase = 0 ∧ ∀ r ∈ st'.returns, r.Correct := by
  have hcomputed : Option.map (fun st => (st.returns.length, st.queue.phase))
      (List.foldlM (fun st op => if NvmeOp.Sound op then NvmeState.exec st op else none)
        (smallQueue fun _ => 0)
        [.send (), .complete 0, .poll, .send (), .poll, .complete 0, .poll, .send (), .complete 0,
          .poll]) = some (3, 0) := by
    decide
  obtain ⟨st', hfold, hcounts⟩ := Option.map_eq_some_iff.mp hcomputed
  obtain ⟨hlength, hphase⟩ := Prod.mk.inj hcounts
  have hrun := Run.of_guarded hfold
  have hclear : (smallQueue fun _ => 0).RingClear := by
    intro i _
    show ((0 : BitVec 16) &&& 1).toNat = 0
    decide
  exact ⟨st', hrun, hlength, hphase, (send_cmd_in_step (smallQueue_initial _) hclear hrun).1⟩

/-! ## What the condition excludes -/

/-- The system without the condition: any status, any old contents. -/
def nvmeAnyStep : NvmeState C → NvmeOp C → NvmeState C → Prop :=
  fun st op st' => st.exec op = some st'

instance SendReturn.decidableCorrect (r : SendReturn) : Decidable r.Correct :=
  match hstatus : r.status with
  | none => .isFalse fun h => by
    obtain ⟨⟨status, hsome, -⟩, -⟩ := h
    rw [hstatus] at hsome
    cases hsome
  | some status =>
    decidable_of_iff (((r.value = 0 ↔ status = 0) ∧ (status ≠ 0 → r.value >>> 1 = status.setWidth 16)) ∧
      r.cqHead = r.cqTail ∧ r.phase = r.controllerPhase) (by
      unfold SendReturn.Correct
      rw [hstatus]
      simp only [Option.some.injEq, exists_eq_left'])

/-- A command fails and the next one succeeds: its `send_cmd` returns the status of the first, before
its own command has completed.
SRCLINE: kernel/drivers/nvme/nvme.cpp:303-306 -/
theorem send_cmd_reports_stale_status :
    ∃ st', Run nvmeAnyStep (smallQueue fun _ => 0)
        [.send (), .complete 2, .poll, .send (), .poll] st' ∧
      ∃ r ∈ st'.returns, r.value = 5 ∧ r.status = none ∧ ¬ r.Correct := by
  have hcomputed : Option.map (fun st => decide (∃ r ∈ st.returns,
        r.value = 5 ∧ r.status = none ∧ ¬ r.Correct))
      (List.foldlM (fun st op => NvmeState.exec st op) (smallQueue fun _ => 0)
        [.send (), .complete 2, .poll, .send (), .poll]) = some true := by
    decide
  obtain ⟨st', hfold, hwrong⟩ := Option.map_eq_some_iff.mp hcomputed
  exact ⟨st', Run.of_foldlM hfold, of_decide_eq_true hwrong⟩

/-- A new ring in pages filled with ones: `send_cmd` returns before the controller has done anything.
SRCLINE: kernel/drivers/nvme/nvme.cpp:284-301 -/
theorem send_cmd_reads_old_page :
    ∃ st', Run nvmeAnyStep (smallQueue fun _ => 1) [.send (), .poll] st' ∧
      ∃ r ∈ st'.returns, r.status = none ∧ ¬ r.Correct := by
  have hcomputed : Option.map (fun st => decide (∃ r ∈ st.returns, r.status = none ∧ ¬ r.Correct))
      (List.foldlM (fun st op => NvmeState.exec st op) (smallQueue fun _ => 1)
        [.send (), .poll]) = some true := by
    decide
  obtain ⟨st', hfold, hwrong⟩ := Option.map_eq_some_iff.mp hcomputed
  exact ⟨st', Run.of_foldlM hfold, of_decide_eq_true hwrong⟩

end CrepOS.Analysis
