import CrepOS.Analysis.StoredContexts
import CrepOS.Analysis.SyscallContext

/-!
# The bases of `gs` in every run

The bases are exchanged in user code, before the first `swapgs` of `syscall_main` and behind the last
one; these two places and those just before the last are not reached with interrupts enabled. So the
frame of an interrupt tells by its code segment alone which bases are loaded, and `reschedule` leaves
with the bases that the frame it loads needs.

`swapgs_discipline` says what follows for every run. Within `reschedule` the record of the processor
is changed before the base of the next thread is loaded, and for a user thread the bases are exchanged
before the last statements run: `discipline_not_strict` is a run in which this shows.
-/

set_option autoImplicit false

namespace CrepOS.Analysis

open CrepOS.Library CrepOS.Model CrepOS.Interface

/-! ## Places in the code -/

/-- The bases of user code are loaded. -/
def Swapped (r : Regs) (codeBase : Word) : Prop :=
  r.user = true ∨ r.index codeBase = some 0 ∨ r.index codeBase = some 53

/-- A place of `syscall_main` at which interrupts are disabled. -/
def Masked (r : Regs) (codeBase : Word) : Prop :=
  ∃ k, r.index codeBase = some k ∧ (k = 0 ∨ 50 ≤ k ∧ k ≤ 53)

/-- Outside of these places the bases follow from the code segment. -/
theorem swapped_iff {r : Regs} {codeBase : Word} (h : ¬ Masked r codeBase) :
    Swapped r codeBase ↔ r.user = true := by
  unfold Swapped
  constructor
  · rintro (huser | hidx | hidx)
    · exact huser
    · exact absurd ⟨0, hidx, by decide⟩ h
    · exact absurd ⟨53, hidx, by decide⟩ h
  · exact Or.inl

theorem not_masked_of_user {r : Regs} {codeBase : Word} (h : r.user = true) : ¬ Masked r codeBase := by
  rintro ⟨k, hk, -⟩
  rw [Regs.user, (index_eq_some_iff.mp hk).1] at h
  exact absurd h (by decide)

theorem not_masked_of_none {r : Regs} {codeBase : Word} (h : r.index codeBase = none) :
    ¬ Masked r codeBase := by
  rintro ⟨k, hk, -⟩
  cases h.symm.trans hk

/-! ## The instructions of `syscall_main` -/

/-- The instructions that can follow instruction `k`, which is `i`. -/
def successors (k : ℕ) : Instr → List ℕ
  | .cmpJae _ target => [target, k + 1]
  | .callHandler => [handlerIndex]
  | _ => [k + 1]

/-- The flag of interrupts after an instruction. -/
def flagAfter (b : Bool) : Instr → Bool
  | .sti => true
  | .cli => false
  | _ => b

/-- INTERNAL: where the listing exchanges the bases and where it returns. -/
theorem listing_places : ∀ place ∈ syscallMain.zipIdx,
    (place.1 = .swapgs → place.2 = 0 ∨ place.2 = 52) ∧ (place.1 = .sysret → place.2 = 53) := by
  decide

/-- INTERNAL: where the other instructions lead. -/
theorem listing_successors : ∀ place ∈ syscallMain.zipIdx, place.1 ≠ .swapgs → place.1 ≠ .sysret →
    place.2 ≠ 0 ∧ place.2 ≠ 53 ∧
      ∀ k ∈ successors place.2 place.1, k ≤ 54 ∧ k ≠ 0 ∧ k ≠ 53 := by
  decide

/-- INTERNAL: interrupts are disabled where the bases are about to be exchanged for user code. -/
theorem listing_masked : ∀ place ∈ syscallMain.zipIdx, ∀ k ∈ successors place.2 place.1,
    50 ≤ k ∧ k ≤ 53 → flagAfter (decide (place.2 < 50)) place.1 = false := by
  decide

theorem set_rflags (r : Regs) (g : Gpr) (v : Word) : (r.set g v).rflags = r.rflags := by
  cases g <;> rfl

/-- What all instructions but `swapgs` and `sysret` do to the bases and to the flag. -/
structure Moves (p p' : Processor) (k : ℕ) (i : Instr) : Prop where
  msrs : p'.msrs = p.msrs
  keeps : Keeps p p'
  cs : p'.regs.cs = p.regs.cs
  place : ∃ k' ∈ successors k i, p'.regs.rip = p.address k'
  flag : p'.regs.interruptible = flagAfter p.regs.interruptible i

theorem execute_moves {p p' : Processor} {k : ℕ} {i : Instr} (hswap : i ≠ .swapgs)
    (hret : i ≠ .sysret) (h : p.execute k i = some p') : Moves p p' k i := by
  have hnext : k + 1 ∈ [k + 1] := List.mem_singleton_self _
  cases i with
  | swapgs => exact absurd rfl hswap
  | sysret => exact absurd rfl hret
  | movToGs off r =>
    obtain ⟨q, hq, rfl⟩ := Option.map_eq_some_iff.mp h
    unfold Processor.gsWrite at hq
    split_ifs at hq
    split at hq
    · obtain rfl := Option.some.inj hq
      exact ⟨rfl, ⟨rfl, rfl, rfl⟩, rfl, ⟨_, hnext, rfl⟩, rfl⟩
    · obtain rfl := Option.some.inj hq
      exact ⟨rfl, ⟨rfl, rfl, rfl⟩, rfl, ⟨_, hnext, rfl⟩, rfl⟩
    · obtain rfl := Option.some.inj hq
      exact ⟨rfl, ⟨rfl, rfl, rfl⟩, rfl, ⟨_, hnext, rfl⟩, rfl⟩
    · cases hq
  | movFromGs r off =>
    obtain ⟨v, -, rfl⟩ := Option.map_eq_some_iff.mp h
    exact ⟨rfl, ⟨rfl, rfl, rfl⟩, set_cs _ r v, ⟨_, hnext, rfl⟩,
      congrArg (fun f => BitVec.getLsbD f 9) (set_rflags p.regs r v)⟩
  | mov dst src =>
    obtain rfl := Option.some.inj h
    exact ⟨rfl, ⟨rfl, rfl, rfl⟩, set_cs _ dst _, ⟨_, hnext, rfl⟩,
      congrArg (fun f => BitVec.getLsbD f 9) (set_rflags p.regs dst _)⟩
  | push r =>
    obtain rfl := Option.some.inj h
    exact ⟨rfl, ⟨rfl, rfl, rfl⟩, rfl, ⟨_, hnext, rfl⟩, rfl⟩
  | pushImm v =>
    obtain rfl := Option.some.inj h
    exact ⟨rfl, ⟨rfl, rfl, rfl⟩, rfl, ⟨_, hnext, rfl⟩, rfl⟩
  | pushGs off =>
    obtain ⟨v, -, rfl⟩ := Option.map_eq_some_iff.mp h
    exact ⟨rfl, ⟨rfl, rfl, rfl⟩, rfl, ⟨_, hnext, rfl⟩, rfl⟩
  | pop r =>
    obtain rfl := Option.some.inj h
    exact ⟨rfl, ⟨rfl, rfl, rfl⟩, set_cs _ r _, ⟨_, hnext, rfl⟩,
      congrArg (fun f => BitVec.getLsbD f 9) (set_rflags _ r _)⟩
  | addRsp n =>
    obtain rfl := Option.some.inj h
    exact ⟨rfl, ⟨rfl, rfl, rfl⟩, rfl, ⟨_, hnext, rfl⟩, rfl⟩
  | sti =>
    obtain rfl := Option.some.inj h
    refine ⟨rfl, ⟨rfl, rfl, rfl⟩, rfl, ⟨_, hnext, rfl⟩, ?_⟩
    change (p.regs.rflags ||| 0x200).getLsbD 9 = true
    simp
  | cli =>
    obtain rfl := Option.some.inj h
    refine ⟨rfl, ⟨rfl, rfl, rfl⟩, rfl, ⟨_, hnext, rfl⟩, ?_⟩
    change (p.regs.rflags &&& ~~~0x200).getLsbD 9 = false
    simp
  | cmpJae cnt target =>
    obtain rfl := Option.some.inj h
    refine ⟨rfl, ⟨rfl, rfl, rfl⟩, rfl, ⟨_, ?_, rfl⟩, rfl⟩
    rw [successors]
    split_ifs
    · exact List.mem_cons_self
    · exact List.mem_cons_of_mem _ hnext
  | callHandler =>
    obtain rfl := Option.some.inj h
    exact ⟨rfl, ⟨rfl, rfl, rfl⟩, rfl, ⟨_, List.mem_singleton_self _, rfl⟩, rfl⟩

/-- **What an instruction does to the bases.** The first and the last `swapgs` exchange them, `sysret`
goes to user code, and all others keep them and do not go to the places where they are exchanged. -/
theorem instr_bases {p p' : Processor} {k : ℕ} (hidx : p.index = some k) (h : p.step = some p')
    (hmasked : 50 ≤ k ∧ k ≤ 53 → p.regs.interruptible = false) :
    ((k = 0 ∨ k = 52) ∧ p' = { p with msrs := p.msrs.swapgs }.jump (k + 1)) ∨
    (k = 53 ∧ p'.msrs = p.msrs ∧ Keeps p p' ∧ p'.regs.user = true ∧ p'.index = none) ∨
    (k ≠ 0 ∧ k ≠ 53 ∧ p'.msrs = p.msrs ∧ Keeps p p' ∧ ∃ k', p'.index = some k' ∧ k' ≠ 0 ∧ k' ≠ 53 ∧
      (50 ≤ k' ∧ k' ≤ 53 → p'.regs.interruptible = false)) := by
  have hcs := index_cs hidx
  rw [Processor.step, hidx] at h
  dsimp only at h
  cases hi : syscallMain[k]? with
  | none =>
    rw [hi] at h
    cases h
  | some i =>
    rw [hi] at h
    have hplace : (i, k) ∈ syscallMain.zipIdx := List.mem_zipIdx_iff_getElem?.mpr hi
    obtain ⟨hswap, hret⟩ := listing_places (i, k) hplace
    by_cases hisswap : i = .swapgs
    · subst hisswap
      exact Or.inl ⟨hswap rfl, (Option.some.inj h).symm⟩
    by_cases hisret : i = .sysret
    · subst hisret
      right
      left
      obtain rfl := Option.some.inj h
      refine ⟨hret rfl, rfl, ⟨rfl, rfl, rfl⟩, show ((0x23 : Word) &&& 3 != 0) = true by decide, ?_⟩
      rw [Processor.index, Regs.index, if_neg]
      rintro ⟨hcs, -⟩
      exact absurd (show (0x23 : Word) = 8 from hcs) (by decide)
    · right
      right
      have hmoves := execute_moves hisswap hisret h
      obtain ⟨hk, hk', hsucc⟩ := listing_successors (i, k) hplace hisswap hisret
      obtain ⟨k', hmem, hrip⟩ := hmoves.place
      obtain ⟨hle, hne, hne'⟩ := hsucc k' hmem
      have hflag := listing_masked (i, k) hplace k' hmem
      refine ⟨hk, hk', hmoves.msrs, hmoves.keeps, k', ?_, hne, hne', ?_⟩
      · rw [Processor.index, index_eq_some_iff, hmoves.keeps.2.1]
        exact ⟨hmoves.cs.trans hcs, hrip, hle⟩
      · intro hhigh
        rw [hmoves.flag]
        by_cases hlow : k < 50
        · have hset := hflag hhigh
          rw [decide_eq_true hlow] at hset
          cases i <;> first | rfl | cases hset
        · have hlen : k < 54 := (List.getElem?_eq_some_iff.mp hi).1
          rw [hmasked (by omega)]
          have hset := hflag hhigh
          rw [decide_eq_false hlow] at hset
          exact hset

/-! ## The invariant -/

/-- The invariant of the runs: the frame tells which bases are loaded, and the threads that do not run
have been stored with their base, at a place where the code segment tells it. -/
structure GsInv (st : GsState) : Prop where
  stored : Stored (schedView st.proc.sched) fun thread ctx =>
    ctx.gsBase = st.base thread ∧ ¬ Masked ctx.regs st.proc.codeBase
  masked : Masked st.proc.regs st.proc.codeBase → st.proc.regs.interruptible = false
  busy : st.proc.index ≠ none → Sched.busy st.proc.sched
  swapped : Swapped st.proc.regs st.proc.codeBase → UserBases st st.proc.sched st.proc.msrs
  kernel : ¬ Swapped st.proc.regs st.proc.codeBase → KernelBases st st.proc.sched st.proc.msrs

section Steps

variable {st st' : GsState}

theorem busy_of_view {s s' : Sched Unit} (h : schedView s' = schedView s) :
    (Sched.busy s' ↔ Sched.busy s) ∧ Sched.thread s' = Sched.thread s := by
  have hcur : Sched.thread s' = Sched.thread s := congrFun (congrArg View.current h) ()
  have hpid : (s'.cpus ()).pid = (s.cpus ()).pid := congrArg Prod.fst hcur
  have htid : (s'.cpus ()).tid = (s.cpus ()).tid := congrArg Prod.snd hcur
  refine ⟨?_, hcur⟩
  rw [Sched.busy, Sched.busy, hpid, htid]

/-- INTERNAL: kernel code outside of the places where the bases are exchanged. -/
theorem not_swapped_of_index {r : Regs} {codeBase : Word} {k : ℕ} (h : r.index codeBase = some k)
    (hne : k ≠ 0) (hne' : k ≠ 53) : ¬ Swapped r codeBase := by
  rintro (huser | hidx | hidx)
  · rw [Regs.user, (index_eq_some_iff.mp h).1] at huser
    exact absurd huser (by decide)
  · exact hne (Option.some.inj (h.symm.trans hidx))
  · exact hne' (Option.some.inj (h.symm.trans hidx))

/-- INTERNAL: the invariant in kernel code of a system call. -/
theorem GsInv.inside {k : ℕ} (hidx : st.proc.index = some k) (hne : k ≠ 0) (hne' : k ≠ 53)
    (hmasked : 50 ≤ k ∧ k ≤ 53 → st.proc.regs.interruptible = false)
    (hstored : Stored (schedView st.proc.sched) fun thread ctx =>
      ctx.gsBase = st.base thread ∧ ¬ Masked ctx.regs st.proc.codeBase)
    (hbusy : Sched.busy st.proc.sched) (hbases : KernelBases st st.proc.sched st.proc.msrs) :
    GsInv st where
  stored := hstored
  masked := by
    rintro ⟨k', hk', hplace⟩
    obtain rfl := Option.some.inj (hidx.symm.trans hk')
    exact hmasked (hplace.resolve_left hne)
  busy _ := hbusy
  swapped hsw := absurd hsw (not_swapped_of_index hidx hne hne')
  kernel _ := hbases

/-- INTERNAL: the same at a place at which interrupts may be enabled. -/
theorem GsInv.unmasked {k : ℕ} (hidx : st.proc.index = some k) (hk : 1 ≤ k ∧ k < 50 ∨ k = 54)
    (hstored : Stored (schedView st.proc.sched) fun thread ctx =>
      ctx.gsBase = st.base thread ∧ ¬ Masked ctx.regs st.proc.codeBase)
    (hbusy : Sched.busy st.proc.sched) (hbases : KernelBases st st.proc.sched st.proc.msrs) :
    GsInv st :=
  GsInv.inside hidx (by omega) (by omega) (fun hplace => by omega) hstored hbusy hbases

theorem gsInv_run (h : GsInv st) {regs : Regs} {mem : Word → Word}
    (hallowed : GsOp.Allowed st (.run regs mem)) (hexec : st.exec (.run regs mem) = some st') :
    GsInv st' := by
  obtain ⟨hidx, huser⟩ := hallowed
  simp only [GsState.exec] at hexec
  split_ifs at hexec with hnone
  obtain rfl := Option.some.inj hexec
  have hswapped : Swapped regs st.proc.codeBase ↔ Swapped st.proc.regs st.proc.codeBase := by
    rw [swapped_iff (not_masked_of_none hidx), swapped_iff (not_masked_of_none hnone), huser]
  exact {
    stored := h.stored
    masked := fun hmasked => absurd hmasked (not_masked_of_none hidx)
    busy := fun hne => absurd hidx hne
    swapped := fun hsw => ⟨(h.swapped (hswapped.mp hsw)).busy, (h.swapped (hswapped.mp hsw)).own,
      (h.swapped (hswapped.mp hsw)).other⟩
    kernel := fun hsw => ⟨(h.kernel (mt hswapped.mpr hsw)).own, (h.kernel (mt hswapped.mpr hsw)).other⟩ }

theorem gsInv_syscall (h : GsInv st) (hexec : st.exec .syscall = some st') : GsInv st' := by
  simp only [GsState.exec] at hexec
  split_ifs at hexec with hnone
  obtain ⟨p, hp, rfl⟩ := Option.map_eq_some_iff.mp hexec
  unfold Processor.syscall at hp
  split_ifs at hp with huser
  obtain rfl := Option.some.inj hp
  have hbases := h.swapped (Or.inl huser)
  have hidx : Regs.index { st.proc.regs with
      rcx := st.proc.regs.rip
      r11 := st.proc.regs.rflags
      rip := st.proc.codeBase
      rflags := st.proc.regs.rflags &&& ~~~0xfffffffd
      cs := 8
      ss := 0x10 } st.proc.codeBase = some 0 := by
    rw [index_eq_some_iff]
    exact ⟨rfl, (BitVec.add_zero _).symm, by decide⟩
  exact {
    stored := h.stored
    masked := fun _ => by
      change (st.proc.regs.rflags &&& ~~~0xfffffffd).getLsbD 9 = false
      simp
    busy := fun _ => hbases.busy
    swapped := fun _ => ⟨hbases.busy, hbases.own, hbases.other⟩
    kernel := fun hsw => absurd (Or.inr (Or.inl hidx)) hsw }

/-- INTERNAL: the first `swapgs`. -/
theorem gsInv_swapgs_in (h : GsInv st) (hidx : st.proc.index = some 0) :
    GsInv { st with proc := { st.proc with msrs := st.proc.msrs.swapgs }.jump 1 } := by
  have hbases := h.swapped (Or.inr (Or.inl hidx))
  apply GsInv.unmasked (k := 1)
  · exact jump_index (index_cs hidx) (by decide)
  · decide
  · exact h.stored
  · exact hbases.busy
  · exact ⟨hbases.other, fun _ => hbases.own⟩

/-- INTERNAL: the last `swapgs`. -/
theorem gsInv_swapgs_out (h : GsInv st) (hidx : st.proc.index = some 52) :
    GsInv { st with proc := { st.proc with msrs := st.proc.msrs.swapgs }.jump 53 } := by
  have hbases := h.kernel (not_swapped_of_index hidx (by decide) (by decide))
  have hbusy := h.busy (by rw [hidx]; exact Option.some_ne_none _)
  have hidx' : ({ st.proc with msrs := st.proc.msrs.swapgs }.jump 53).index = some 53 :=
    jump_index (index_cs hidx) (by decide)
  exact {
    stored := h.stored
    masked := fun _ => h.masked ⟨52, hidx, by decide⟩
    busy := fun _ => hbusy
    swapped := fun _ => ⟨hbusy, hbases.other hbusy, hbases.own⟩
    kernel := fun hsw => absurd (Or.inr (Or.inr hidx')) hsw }

theorem gsInv_instr (h : GsInv st) (hexec : st.exec .instr = some st') : GsInv st' := by
  obtain ⟨p, hp, rfl⟩ := Option.map_eq_some_iff.mp hexec
  cases hidx : st.proc.index with
  | none =>
    rw [Processor.step, hidx] at hp
    cases hp
  | some k =>
    have hbusy := h.busy (by rw [hidx]; exact Option.some_ne_none k)
    rcases instr_bases hidx hp (fun hk => h.masked ⟨k, hidx, Or.inr hk⟩) with
      ⟨rfl | rfl, rfl⟩ | ⟨rfl, hmsrs, ⟨hview, hcode, hrecord⟩, huser, hnone⟩ |
      ⟨hne, hne', hmsrs, ⟨hview, hcode, hrecord⟩, k', hidx', hk, hk', hmasked⟩
    · exact gsInv_swapgs_in h hidx
    · exact gsInv_swapgs_out h hidx
    · have hbases := h.swapped (Or.inr (Or.inr hidx))
      obtain ⟨hbusy', hthread⟩ := busy_of_view hview
      refine ⟨?_, ?_, fun _ => hbusy'.mpr hbusy, fun _ => ?_, ?_⟩
      · rw [hview, hcode]
        exact h.stored
      · intro hmasked
        exact absurd hmasked (not_masked_of_user huser)
      · refine ⟨hbusy'.mpr hbusy, ?_, ?_⟩
        · rw [hmsrs, hthread]
          exact hbases.own
        · rw [hmsrs, hrecord]
          exact hbases.other
      · intro hsw
        exact absurd (Or.inl huser) hsw
    · have hbases := h.kernel (not_swapped_of_index hidx hne hne')
      obtain ⟨hbusy', hthread⟩ := busy_of_view hview
      apply GsInv.inside (k := k')
      · exact hidx'
      · exact hk
      · exact hk'
      · exact hmasked
      · rw [hview, hcode]
        exact h.stored
      · exact hbusy'.mpr hbusy
      · refine ⟨?_, fun _ => ?_⟩
        · rw [hmsrs, hrecord]
          exact hbases.own
        · rw [hmsrs, hthread]
          exact hbases.other hbusy

/-- INTERNAL: what a handler knows. -/
theorem GsInv.handler (h : GsInv st) (hidx : st.proc.index = some handlerIndex) :
    Sched.busy st.proc.sched ∧ KernelBases st st.proc.sched st.proc.msrs :=
  ⟨h.busy (by rw [hidx]; exact Option.some_ne_none _),
    h.kernel (not_swapped_of_index hidx (by decide) (by decide))⟩

theorem gsInv_work (h : GsInv st) {regs : Regs} {mem : Word → Word} {fsBase : Word}
    (hallowed : GsOp.Allowed st (.work regs mem fsBase))
    (hexec : st.exec (.work regs mem fsBase) = some st') : GsInv st' := by
  simp only [GsState.exec] at hexec
  split_ifs at hexec with hidx
  obtain rfl := Option.some.inj hexec
  obtain ⟨hbusy, hbases⟩ := h.handler hidx
  apply GsInv.unmasked (k := handlerIndex)
  · exact hallowed
  · decide
  · exact h.stored
  · exact hbusy
  · exact ⟨hbases.own, hbases.other⟩

theorem gsInv_ret (h : GsInv st) {regs : Regs} (hexec : st.exec (.ret regs) = some st') :
    GsInv st' := by
  simp only [GsState.exec] at hexec
  split_ifs at hexec with hidx
  obtain rfl := Option.some.inj hexec
  obtain ⟨hbusy, hbases⟩ := h.handler hidx
  apply GsInv.unmasked (k := 31)
  · exact index_eq_some_iff.mpr ⟨rfl, rfl, by decide⟩
  · decide
  · exact h.stored
  · exact hbusy
  · exact ⟨hbases.own, hbases.other⟩

theorem gsInv_setUserGs (h : GsInv st) {v : Word} (hexec : st.exec (.setUserGs v) = some st') :
    GsInv st' := by
  simp only [GsState.exec] at hexec
  split_ifs at hexec with hidx
  obtain rfl := Option.some.inj hexec
  obtain ⟨hbusy, hbases⟩ := h.handler hidx
  apply GsInv.unmasked (k := handlerIndex)
  · exact hidx
  · decide
  · refine ⟨h.stored.listed, ?_⟩
    intro k t hkt hcur
    obtain ⟨hbase, hplace⟩ := h.stored.stored k t hkt hcur
    exact ⟨hbase.trans (Function.update_of_ne (Ne.symm hcur) _ _).symm, hplace⟩
  · exact hbusy
  · exact ⟨hbases.own, fun _ => (Function.update_self (Sched.thread st.proc.sched) v st.base).symm⟩

theorem gsInv_storeGsBase (h : GsInv st) {v : Word} {junkTask : Task} {junk : Thread}
    (hexec : st.exec (.storeGsBase v junkTask junk) = some st') : GsInv st' := by
  simp only [GsState.exec] at hexec
  split_ifs at hexec with hidx
  obtain rfl := Option.some.inj hexec
  obtain ⟨hbusy, hbases⟩ := h.handler hidx
  apply GsInv.unmasked (k := handlerIndex)
  · exact hidx
  · decide
  · exact storeGsBase_stored h.stored hbusy v junkTask junk
  · exact hbusy
  · exact ⟨hbases.own, hbases.other⟩

theorem gsInv_setErrno (h : GsInv st) {v : Word} (hexec : st.exec (.setErrno v) = some st') :
    GsInv st' := by
  simp only [GsState.exec] at hexec
  split_ifs at hexec
  obtain rfl := Option.some.inj hexec
  exact {
    stored := h.stored
    masked := h.masked
    busy := h.busy
    swapped := fun hsw => ⟨(h.swapped hsw).busy, (h.swapped hsw).own, (h.swapped hsw).other⟩
    kernel := fun hsw => ⟨(h.kernel hsw).own, (h.kernel hsw).other⟩ }

/-- INTERNAL: other memory. -/
theorem GsInv.withMem (h : GsInv st) (mem : Word → Word) :
    GsInv { st with proc := { st.proc with mem := mem } } where
  stored := h.stored
  masked := h.masked
  busy := h.busy
  swapped hsw := ⟨(h.swapped hsw).busy, (h.swapped hsw).own, (h.swapped hsw).other⟩
  kernel hsw := ⟨(h.kernel hsw).own, (h.kernel hsw).other⟩

/-- INTERNAL: another state of the scheduler, with other things asked for by other threads. -/
theorem GsInv.withSched (h : GsInv st) {s : Sched Unit} {base : ℤ × ℤ → Word}
    (hcur : s.cpus () = st.proc.sched.cpus ())
    (hbase : Sched.busy st.proc.sched →
      base (Sched.thread st.proc.sched) = st.base (Sched.thread st.proc.sched))
    (hstored : Stored (schedView s) fun thread ctx =>
      ctx.gsBase = base thread ∧ ¬ Masked ctx.regs st.proc.codeBase) :
    GsInv ⟨{ st.proc with sched := s }, base⟩ := by
  have hthread : Sched.thread s = Sched.thread st.proc.sched := by
    rw [Sched.thread, Sched.thread, hcur]
  have hbusy : Sched.busy s ↔ Sched.busy st.proc.sched := by
    rw [Sched.busy, Sched.busy, hcur]
  refine ⟨hstored, h.masked, fun hidx => hbusy.mpr (h.busy hidx), fun hsw => ?_, fun hsw => ?_⟩
  · have hbases := h.swapped hsw
    refine ⟨hbusy.mpr hbases.busy, ?_, hbases.other⟩
    change st.proc.msrs.gsBase = base (Sched.thread s)
    rw [hthread, hbase hbases.busy]
    exact hbases.own
  · have hbases := h.kernel hsw
    refine ⟨hbases.own, fun hs => ?_⟩
    change st.proc.msrs.kernelGsBase = base (Sched.thread s)
    rw [hthread, hbase (hbusy.mp hs)]
    exact hbases.other (hbusy.mp hs)

theorem gsInv_create (h : GsInv st) {op : SchedOp Unit} (hallowed : GsOp.Allowed st (.create op))
    (hexec : st.exec (.create op) = some st') : GsInv st' := by
  obtain rfl := Option.some.inj hexec
  cases op with
  | createTask ppid pageMap kernelMapping junk₁ junk₂ =>
    apply h.withSched
    · rfl
    · exact fun _ => rfl
    · exact createTask_stored h.stored ppid pageMap kernelMapping junk₁ junk₂
  | createThread pid rip cs highVma kernelStack mmapped envp argv junkTask junk =>
    -- the new thread is none of those in the lists
    have hfresh : ∀ k t, View.HasThread (schedView st.proc.sched) k t →
        (k, t) ≠ (pid, (st.proc.sched.threadCnt : ℤ)) := by
      intro k t hkt heq
      have hlt := (h.stored.listed.threads k t hkt).2.2
      rw [(Prod.mk.inj heq).2] at hlt
      exact absurd hlt (Int.lt_irrefl _)
    apply h.withSched
    · simp only [Traced.exec, createThread]
      split_ifs <;> rfl
    · intro hbusy
      apply Function.update_of_ne
      exact hfresh _ _ (h.stored.listed.hasThread (c := ()) (not_not.mpr hbusy))
    · apply createThread_stored
      · apply h.stored.mono
        intro k t ctx hkt hctx
        exact ⟨hctx.1.trans (Function.update_of_ne (hfresh k t hkt) _ _).symm, hctx.2⟩
      · refine ⟨?_, not_masked_of_none hallowed⟩
        exact (Function.update_self (pid, (st.proc.sched.threadCnt : ℤ)) 0 st.base).symm
  | reschedule c regs m junkTask junk => exact hallowed.elim

end Steps

/-! ## Interrupts -/

section Interrupt

variable {st st' : GsState}

/-- The reschedule of the code that runs, when the timer interrupts it. -/
def rescheduled (p : Processor) (junkTask : Task) (junk : Thread) : Sched Unit × Outcome :=
  reschedule p.sched () p.regs.timerFrame p.msrs junkTask junk

/-- INTERNAL: what an interrupt does, by the way in which `reschedule` ends. -/
theorem interrupt_cases {p p' : Processor} {l : List Word} {junkTask : Task} {junk : Thread}
    (h : p.interrupt l junkTask junk = some p') : p.regs.interruptible = true ∧ ∃ mem,
      ((∃ m, (rescheduled p junkTask junk).2 = .resume m ∧
        p' = { p with sched := (rescheduled p junkTask junk).1, msrs := m, mem := mem }) ∨
      ∃ regs m, (rescheduled p junkTask junk).2 = .switchTask regs m ∧
        p' = { p with
          sched := (rescheduled p junkTask junk).1, msrs := m, mem := mem, regs := regs }) := by
  by_cases hint : p.regs.interruptible = true
  · rw [Processor.interrupt, if_pos hint] at h
    refine ⟨hint, if p.regs.user then p.mem else scribble p.mem p.regs.rsp l, ?_⟩
    dsimp only at h
    split at h
    · next m hout => exact Or.inl ⟨m, hout, (Option.some.inj h).symm⟩
    · next regs m hout => exact Or.inr ⟨regs, m, hout, (Option.some.inj h).symm⟩
  · rw [Processor.interrupt, if_neg hint] at h
    cases h

/-- INTERNAL: what is known of code that can be interrupted. -/
theorem GsInv.interruptible (h : GsInv st) (hint : st.proc.regs.interruptible = true) :
    ¬ Masked st.proc.regs st.proc.codeBase ∧
      kernelBase st.proc.regs.timerFrame st.proc.msrs = st.proc.record ∧
      (Sched.busy st.proc.sched → (Context.of st.proc.regs.timerFrame st.proc.msrs).gsBase =
        st.base (Sched.thread st.proc.sched)) := by
  have hmasked : ¬ Masked st.proc.regs st.proc.codeBase := by
    intro hmasked
    rw [h.masked hmasked] at hint
    cases hint
  have hswapped := swapped_iff hmasked
  refine ⟨hmasked, ?_⟩
  unfold kernelBase
  change (if st.proc.regs.user then _ else _) = _ ∧
    (_ → (if st.proc.regs.user then _ else _) = _)
  by_cases huser : st.proc.regs.user = true
  · have hbases := h.swapped (hswapped.mpr huser)
    rw [if_pos huser, if_pos huser]
    exact ⟨hbases.other, fun _ => hbases.own⟩
  · have hbases := h.kernel (mt hswapped.mp huser)
    rw [if_neg huser, if_neg huser]
    exact ⟨hbases.own, hbases.other⟩

/-- **What `reschedule` leaves.** It goes back to the interrupted code with its bases, or it loads the
frame of a thread that was stored, with the base of that thread. -/
theorem GsInv.rescheduled (h : GsInv st) (hint : st.proc.regs.interruptible = true)
    (junkTask : Task) (junk : Thread) :
    (Stored (schedView (rescheduled st.proc junkTask junk).1) fun thread ctx =>
      ctx.gsBase = st.base thread ∧ ¬ Masked ctx.regs st.proc.codeBase) ∧
    (((rescheduled st.proc junkTask junk).2 = .resume st.proc.msrs ∧
      (rescheduled st.proc junkTask junk).1.cpus = st.proc.sched.cpus) ∨
    ∃ regs m, (rescheduled st.proc junkTask junk).2 = .switchTask regs m ∧
      Sched.busy (rescheduled st.proc junkTask junk).1 ∧
      kernelBase regs m = st.proc.record ∧
      (Context.of regs m).gsBase = st.base (Sched.thread (rescheduled st.proc junkTask junk).1) ∧
      ¬ Masked regs st.proc.codeBase) := by
  obtain ⟨hmasked, hkernel, hown⟩ := h.interruptible hint
  obtain ⟨hstored, hends⟩ := reschedule_stored h.stored st.proc.regs.timerFrame st.proc.msrs junkTask
    junk (fun hbusy => ⟨hown hbusy, hmasked⟩)
  refine ⟨hstored, ?_⟩
  rcases @reschedule_record st.proc.sched st.proc.regs.timerFrame st.proc.msrs junkTask junk with
    hresume | ⟨regs, m, hswitch, hbase⟩
  · exact Or.inl hresume
  · right
    rcases hends with ⟨m', hresume, -⟩ | ⟨k, t, regs', m', hswitch', hthread, hk, ht, hloaded⟩
    · cases hresume.symm.trans hswitch
    · obtain ⟨rfl, rfl⟩ := Outcome.switchTask.inj (hswitch'.symm.trans hswitch)
      refine ⟨regs', m', hswitch, ?_, hbase.trans hkernel, ?_, hloaded.2⟩
      · obtain ⟨hpid, htid⟩ := Prod.mk.inj hthread
        exact ⟨fun htid' => ht (htid.symm.trans htid'), fun hpid' => hk (hpid.symm.trans hpid')⟩
      · exact hloaded.1.trans (congrArg st.base hthread.symm)

theorem gsInv_interrupt (h : GsInv st) {l : List Word} {junkTask : Task} {junk : Thread}
    (hexec : st.exec (.interrupt l junkTask junk) = some st') : GsInv st' := by
  obtain ⟨p, hp, rfl⟩ := Option.map_eq_some_iff.mp hexec
  obtain ⟨hint, mem, hcases⟩ := interrupt_cases hp
  obtain ⟨hstored, hends⟩ := h.rescheduled hint junkTask junk
  rcases hends with ⟨hresume, hcpus⟩ | ⟨regs, m, hswitch, hbusy, hkernel, hown, hmasked⟩
  · rcases hcases with ⟨m, hout, rfl⟩ | ⟨regs, m, hout, -⟩
    · obtain rfl := Outcome.resume.inj (hout.symm.trans hresume)
      exact (h.withSched (congrFun hcpus ()) (fun _ => rfl) hstored).withMem mem
    · cases hout.symm.trans hresume
  · rcases hcases with ⟨m', hout, -⟩ | ⟨regs', m', hout, rfl⟩
    · cases hout.symm.trans hswitch
    · obtain ⟨rfl, rfl⟩ := Outcome.switchTask.inj (hout.symm.trans hswitch)
      have hswapped := swapped_iff hmasked
      refine ⟨hstored, fun hplace => absurd hplace hmasked, fun _ => hbusy, ?_, ?_⟩
      · intro hsw
        have huser := hswapped.mp hsw
        unfold kernelBase at hkernel
        unfold Context.of at hown
        rw [if_pos huser] at hkernel hown
        exact ⟨hbusy, hown, hkernel⟩
      · intro hsw
        have huser := mt hswapped.mpr hsw
        unfold kernelBase at hkernel
        unfold Context.of at hown
        rw [if_neg huser] at hkernel hown
        exact ⟨hkernel, fun _ => hown⟩

end Interrupt

/-! ## The points of `reschedule` -/

section Points

variable {s : Sched Unit} {regs : Regs} {m : Msrs} {junkTask : Task} {junk : Thread} {q : Point Unit}

/-- INTERNAL: what a point can be, by its place; `r` is what `reschedule` returns. -/
def PointOf (s : Sched Unit) (m : Msrs) (r : Sched Unit × Outcome) (q : Point Unit) : Prop :=
  match q.place with
  | .choosing => q.sched.cpus = s.cpus ∧ q.msrs = m
  | .recorded => q.msrs.gsBase = m.gsBase ∧ q.msrs.kernelGsBase = m.kernelGsBase
  | .loaded => q.msrs.gsBase = m.gsBase ∧ q.sched = r.1 ∧
      ∃ regs', r.2 = .switchTask regs' (q.msrs.swapFor regs')
  | .leaving => True

theorem dispatchPoints_of {pid tid : ℤ} (hq : q ∈ dispatchPoints s () pid tid m) (s₀ : Sched Unit) :
    PointOf s₀ m (dispatch s () pid tid m) q := by
  simp only [dispatchPoints, List.mem_cons, List.not_mem_nil, or_false] at hq
  rcases hq with rfl | rfl | rfl | rfl | rfl | rfl | rfl | rfl
  · exact ⟨rfl, rfl⟩
  · exact ⟨rfl, rfl⟩
  · exact ⟨rfl, rfl⟩
  · exact ⟨rfl, rfl⟩
  · exact ⟨rfl, rfl⟩
  · exact ⟨rfl, rfl⟩
  · exact ⟨rfl, rfl, _, rfl⟩
  · trivial

theorem reschedulePoints_of (hq : q ∈ reschedulePoints s () regs m junkTask junk) :
    PointOf s (m.swapFor regs) (reschedule s () regs m junkTask junk) q := by
  unfold reschedulePoints at hq
  unfold reschedule
  generalize nextPid s.taskList = next at hq ⊢
  obtain ⟨taskList, pid⟩ := next
  dsimp only at hq ⊢
  have hchoosing : ∀ {list : Map ℤ Task} {r : Sched Unit × Outcome},
      PointOf s (m.swapFor regs) r ⟨.choosing, { s with taskList := list }, m.swapFor regs⟩ :=
    ⟨rfl, rfl⟩
  rcases List.mem_cons.mp hq with rfl | hq
  · exact hchoosing
  rcases List.mem_cons.mp hq with rfl | hq
  · exact hchoosing
  by_cases hnone : pid = -1 ∧ (s.cpus ()).pid = -1
  · rw [if_pos hnone] at hq
    obtain rfl := List.mem_singleton.mp hq
    trivial
  rw [if_neg hnone] at hq ⊢
  generalize (if pid = -1 then (s.cpus ()).pid else pid) = pid at hq ⊢
  generalize nextTid ((taskList.touch pid (Task.new junkTask)).data pid).threads = next at hq ⊢
  obtain ⟨threads, tid⟩ := next
  dsimp only at hq ⊢
  rcases List.mem_cons.mp hq with rfl | hq
  · exact hchoosing
  by_cases htid : tid = -1
  · rw [if_pos htid] at hq
    obtain rfl := List.mem_singleton.mp hq
    trivial
  rw [if_neg htid] at hq ⊢
  rcases List.mem_cons.mp hq with rfl | hq
  · exact hchoosing
  rcases List.mem_cons.mp hq with rfl | hq
  · exact hchoosing
  exact dispatchPoints_of hq s

end Points

/-! ## Whole runs -/

section Runs

variable {st st' : GsState}

/-- **At every point of `reschedule` the bases are right.** -/
theorem GsInv.points (h : GsInv st) (hint : st.proc.regs.interruptible = true) (junkTask : Task)
    (junk : Thread) {q : Point Unit} (hq : q ∈ st.points junkTask junk) :
    Point.Bases st st.proc.sched q := by
  obtain ⟨-, hkernel, hown⟩ := h.interruptible hint
  -- the bases behind the first test
  have hgs : (st.proc.msrs.swapFor st.proc.regs.timerFrame).gsBase = st.proc.record :=
    (swapFor_gsBase _ _).trans hkernel
  have hother : Sched.busy st.proc.sched →
      (st.proc.msrs.swapFor st.proc.regs.timerFrame).kernelGsBase =
        st.base (Sched.thread st.proc.sched) := by
    intro hbusy
    rw [← hown hbusy, ← context_of_swap]
  have hof := reschedulePoints_of hq
  obtain ⟨place, s, m⟩ := q
  cases place with
  | choosing =>
    obtain ⟨hcpus, rfl⟩ := hof
    have hcpus : s.cpus = st.proc.sched.cpus := hcpus
    refine ⟨hgs, fun hbusy => ?_⟩
    change _ = st.base (Sched.thread s)
    rw [Sched.busy, hcpus] at hbusy
    rw [Sched.thread, hcpus]
    exact hother hbusy
  | recorded =>
    obtain ⟨hgs', hother'⟩ := hof
    exact ⟨hgs'.trans hgs, fun hbusy => hother'.trans (hother hbusy)⟩
  | loaded =>
    obtain ⟨hgs', rfl, regs, hswitch⟩ := hof
    rcases (h.rescheduled hint junkTask junk).2 with
      ⟨hresume, -⟩ | ⟨regs', m', hswitch', hbusy, -, hloaded, -⟩
    · cases hresume.symm.trans hswitch
    · obtain ⟨rfl, rfl⟩ := Outcome.switchTask.inj (hswitch.symm.trans hswitch')
      refine ⟨hgs'.trans hgs, fun _ => Eq.trans ?_ hloaded⟩
      rw [← context_of_swap, swapFor_swapFor]
  | leaving => trivial

theorem GsInv.discipline (h : GsInv st) : GsDiscipline st where
  handler hidx := (h.handler hidx).2
  reschedule hint junkTask junk _ hq := h.points hint junkTask junk hq
  user huser := h.swapped (Or.inl huser)

theorem gsInv_initial (h : st.Initial) : GsInv st := by
  obtain ⟨⟨junk, cpus, hsched⟩, hnone, huser, hgs⟩ := h
  have hmasked := not_masked_of_none hnone
  refine ⟨?_, fun hplace => absurd hplace hmasked, fun hidx => absurd hnone hidx, ?_, ?_⟩
  · rw [hsched]
    exact stored_init junk cpus
  · intro hsw
    rw [(swapped_iff hmasked).mp hsw] at huser
    cases huser
  · intro _
    refine ⟨hgs, fun hbusy => ?_⟩
    rw [hsched] at hbusy
    exact absurd rfl hbusy.1

/-- **Every step that is allowed keeps the invariant.** -/
theorem gsInv_step {op : GsOp} (h : GsInv st) (hstep : gsStep st op st') : GsInv st' := by
  obtain ⟨hallowed, hexec⟩ := hstep
  cases op with
  | run regs mem => exact gsInv_run h hallowed hexec
  | syscall => exact gsInv_syscall h hexec
  | instr => exact gsInv_instr h hexec
  | work regs mem fsBase => exact gsInv_work h hallowed hexec
  | setErrno v => exact gsInv_setErrno h hexec
  | setUserGs v => exact gsInv_setUserGs h hexec
  | storeGsBase v junkTask junk => exact gsInv_storeGsBase h hexec
  | ret regs => exact gsInv_ret h hexec
  | interrupt l junkTask junk => exact gsInv_interrupt h hexec
  | create op => exact gsInv_create h hallowed hexec

/-- **The bases of `gs` in every run.** In handlers, and in `reschedule` from its first test for
`swapgs` to its last one, the kernel has the base of its record, and the other base is that of the
thread that runs: the interrupted one until `set_user_gs`, the next one from there on. In user mode a
thread has its own base, and the other one is that of the record.
SRCLINE: kernel/sched/scheduler.cpp:121-218 -/
theorem swapgs_discipline {ops : List GsOp} (hinit : st.Initial) (hrun : Run gsStep st ops st') :
    GsDiscipline st' := by
  have hinv : GsInv st' := by
    refine hrun.invariant GsInv ?_ (gsInv_initial hinit)
    intro s op t h hstep
    exact gsInv_step h hstep
  exact hinv.discipline

end Runs

/-! ## A thread that sets its base -/

/-- The processor before the first thread is created. -/
def idleGs : GsState := ⟨idleProcessor.proc, fun _ => 0⟩

/-- Of two threads one is dispatched and calls `syscall_set_gs_base`. -/
def setBase : List GsOp :=
  [.create (.createTask (-1) none 0 zeroTask zeroTask),
    .create (.createThread 0 0x400000 0x23 0 0 0x7000 [] [] zeroTask zeroThread),
    .create (.createTask 0 none 0 zeroTask zeroTask),
    .create (.createThread 1 0x500000 0x23 0 0 0x7000 [] [] zeroTask zeroThread),
    .interrupt [] zeroTask zeroThread, .run (userRegs 0x6000 0x400100 11) fun _ => 0, .syscall] ++
    List.replicate 31 .instr ++ [.setUserGs 5, .storeGsBase 5 zeroTask zeroThread]

theorem idleGs_initial : idleGs.Initial :=
  ⟨⟨zeroTask, fun _ => ⟨0, 0, 0, 0⟩, rfl⟩, by decide, by decide, rfl⟩

/-- INTERNAL: the call, with what is computed of the state in which its handler is then. -/
theorem setBase_run {α : Type} (f : GsState → α) (b : α)
    (h : (setBase.foldlM (fun st op => if GsOp.Allowed st op then st.exec op else none) idleGs).map f =
      some b) : ∃ st, Run gsStep idleGs setBase st ∧ f st = b := by
  obtain ⟨st, hst, hf⟩ := Option.map_eq_some_iff.mp h
  exact ⟨st, Run.of_guarded hst, hf⟩

theorem swapgs_discipline_setBase : idleGs.Initial ∧ ∃ st, Run gsStep idleGs setBase st ∧
    st.proc.index = some handlerIndex ∧ st.proc.msrs.kernelGsBase = 5 ∧ GsDiscipline st := by
  obtain ⟨st, hrun, hst⟩ := setBase_run
    (fun st => (st.proc.index, st.proc.msrs.kernelGsBase)) (some 54, 5) (by decide)
  obtain ⟨hidx, hbase⟩ := Prod.mk.inj hst
  exact ⟨idleGs_initial, st, hrun, hidx, hbase, swapgs_discipline idleGs_initial hrun⟩

/-- When the timer interrupts the handler, the record names the other thread while its base is not
loaded, and the kernel has the base of that thread behind the last test. -/
theorem discipline_not_strict : idleGs.Initial ∧ ∃ st, Run gsStep idleGs setBase st ∧
    (∃ q ∈ st.points zeroTask zeroThread, q.place = .recorded ∧ Sched.busy q.sched ∧
      q.msrs.kernelGsBase ≠ st.base (Sched.thread q.sched)) ∧
    (∃ q ∈ st.points zeroTask zeroThread, q.msrs.gsBase ≠ st.proc.record) ∧ ¬ GsStrict st := by
  obtain ⟨st, hrun, hst⟩ := setBase_run (fun st => (st.proc.regs.interruptible,
    (st.points zeroTask zeroThread).any fun q => decide (q.place = .recorded ∧ Sched.busy q.sched ∧
      q.msrs.kernelGsBase ≠ st.base (Sched.thread q.sched)),
    (st.points zeroTask zeroThread).any fun q => decide (q.msrs.gsBase ≠ st.proc.record)))
    (true, true, true) (by decide)
  obtain ⟨hint, hst⟩ := Prod.mk.inj hst
  obtain ⟨hrecorded, hleaving⟩ := Prod.mk.inj hst
  obtain ⟨q, hq, hplace⟩ := List.any_eq_true.mp hrecorded
  obtain ⟨q', hq', hown⟩ := List.any_eq_true.mp hleaving
  have hown := of_decide_eq_true hown
  refine ⟨idleGs_initial, st, hrun, ⟨q, hq, of_decide_eq_true hplace⟩, ⟨q', hq', hown⟩, ?_⟩
  intro hstrict
  exact hown (hstrict.reschedule hint zeroTask zeroThread q' hq').own

end CrepOS.Analysis
