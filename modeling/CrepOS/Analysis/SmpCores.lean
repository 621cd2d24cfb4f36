import CrepOS.Interface.SmpRun
import Mathlib.Data.List.Pairwise
import Mathlib.Tactic.Ring

/-!
# Which record `core_local` returns

`core_local` takes the first word at the base of `gs` for an index, but a record starts with `user_stack`,
which is 0 and stays 0. So every processor gets the first record of the vector, wherever its base points:
into the block that the vector has now or into one that it had before (`BootInv.gs`). It is the record of
the processor only for the first entry of the MADT (`core_local_own_iff`).
-/

set_option autoImplicit false

namespace CrepOS.Analysis

open CrepOS.Library CrepOS.Model CrepOS.Interface

/-! ## Blocks of records -/

/-- Two blocks of records share no byte. -/
def BlocksApart (b c : ℕ × ℕ) : Prop :=
  b.1 + b.2 * smpCpuSize ≤ c.1 ∨ c.1 + c.2 * smpCpuSize ≤ b.1

section Blocks

variable {records : ℕ → SmpCpu} {src dst n i : ℕ}

theorem moveRecords_outside {a : ℕ} (h : ∀ i < n, a ≠ dst + i * smpCpuSize) :
    moveRecords records src dst n a = records a := by
  induction n with
  | zero => rfl
  | succ n ih =>
    rw [moveRecords, Function.update_of_ne (h n (Nat.lt_succ_self n))]
    exact ih fun i hi => h i (by omega)

theorem moveRecords_moved (hi : i < n) (hne : ∀ i < n, ∀ j < n,
    src + i * smpCpuSize ≠ dst + j * smpCpuSize) :
    moveRecords records src dst n (dst + i * smpCpuSize) = records (src + i * smpCpuSize) := by
  induction n with
  | zero => omega
  | succ n ih =>
    rw [moveRecords]
    by_cases hin : i = n
    · subst hin
      rw [Function.update_self]
      exact moveRecords_outside fun j hj => hne i (by omega) j (by omega)
    · rw [Function.update_of_ne (by simp only [smpCpuSize]; omega)]
      exact ih (by omega) fun j hj k hk => hne j (by omega) k (by omega)

/-- Places in blocks that are apart are different. -/
theorem place_ne {b c : ℕ × ℕ} {k : ℕ} (hapart : BlocksApart b c) (hi : i < b.2) (hk : k < c.2) :
    b.1 + i * smpCpuSize ≠ c.1 + k * smpCpuSize := by
  unfold BlocksApart at hapart
  simp only [smpCpuSize] at *
  omega

end Blocks

/-! ## The invariant -/

/-- What holds in every state of the boot: the blocks of the vector are apart, the records of the
processors are at its front, and the first word at the base of a processor is 0. -/
structure BootInv (s : SmpSystem) : Prop where
  size : s.smp.cpus.bufSize ≤ s.smp.cpus.bufCap
  current : s.smp.cpus.bufCap = 0 ∨ (s.smp.cpus.elements, s.smp.cpus.bufCap) ∈ s.blocks
  bounds : ∀ b ∈ s.blocks, b.1 + b.2 * smpCpuSize ≤ 2 ^ 64
  apart : s.blocks.Pairwise BlocksApart
  count : s.smp.entries.length ≤ s.smp.cpus.bufSize
  loop : s.booted = false → s.smp.entries.length = s.smp.cpus.bufSize
  zero : ∀ i < s.smp.entries.length,
    (s.smp.records (s.smp.cpus.elements + i * smpCpuSize)).userStack = 0
  parms : ∀ i, s.smp.parms = some i → i < s.smp.entries.length
  cores : ∀ p i, s.smp.coreIndex p = some i → i < s.smp.entries.length
  gs : ∀ p g, s.smp.gsBase p = some g → (s.smp.records g).userStack = 0 ∧
    ∃ b ∈ s.blocks, ∃ k < b.2, k < s.smp.entries.length ∧ g = b.1 + k * smpCpuSize

section Boot

variable {s : SmpSystem}

theorem initial_bootInv (h : s.Initial) : BootInv s := by
  obtain ⟨hcpus, hentries, hparms, hblocks, hbooted, hproc⟩ := h
  refine ⟨by rw [hcpus], Or.inl (by rw [hcpus]), ?_, ?_, by rw [hentries]; exact Nat.zero_le _, ?_,
    ?_, ?_, ?_, ?_⟩
  · rw [hblocks]
    exact fun b hb => absurd hb List.not_mem_nil
  · rw [hblocks]
    exact List.Pairwise.nil
  · intro _
    rw [hentries, hcpus]
    rfl
  · rw [hentries]
    exact fun i hi => absurd hi (Nat.not_lt_zero i)
  · intro i hi
    rw [hparms] at hi
    cases hi
  · intro p i hi
    rw [(hproc p).2.1] at hi
    cases hi
  · intro p g hg
    rw [(hproc p).2.2] at hg
    cases hg

/-- INTERNAL: an element of the vector has an address that does not wrap. -/
theorem BootInv.address_eq (h : BootInv s) {i : ℕ} (hi : i < s.smp.cpus.bufCap) :
    s.smp.cpus.address i = s.smp.cpus.elements + i * smpCpuSize := by
  rcases h.current with hzero | hin
  · omega
  · have hbound := h.bounds _ hin
    unfold CpuVector.address
    apply wrap_of_lt
    simp only [smpCpuSize] at *
    omega

/-- What a push does. -/
structure Pushed (s : SmpSystem) (t : SmpState) (r : SmpCpu) (blocks : List (ℕ × ℕ)) : Prop where
  bufSize : t.cpus.bufSize = s.smp.cpus.bufSize + 1
  room : s.smp.cpus.bufSize < t.cpus.bufCap
  current : (t.cpus.elements, t.cpus.bufCap) ∈ blocks
  bounds : ∀ b ∈ blocks, b.1 + b.2 * smpCpuSize ≤ 2 ^ 64
  apart : blocks.Pairwise BlocksApart
  older : ∀ b ∈ s.blocks, b ∈ blocks
  last : t.records (t.cpus.elements + s.smp.cpus.bufSize * smpCpuSize) = r
  front : ∀ i < s.smp.cpus.bufSize, t.records (t.cpus.elements + i * smpCpuSize) =
    s.smp.records (s.smp.cpus.elements + i * smpCpuSize)
  kept : ∀ b ∈ s.blocks, ∀ k < b.2, k < s.smp.cpus.bufSize →
    t.records (b.1 + k * smpCpuSize) = s.smp.records (b.1 + k * smpCpuSize)
  others : t.entries = s.smp.entries ∧ t.parms = s.smp.parms ∧ t.sent = s.smp.sent ∧
    t.coreIndex = s.smp.coreIndex ∧ t.gsBase = s.smp.gsBase

/-- INTERNAL: a push into the block that the vector has.
SRCLINE: kernel/lib/vector.hpp:86-96 -/
theorem BootInv.push_stay (h : BootInv s) (r : SmpCpu) (block : ℕ)
    (hroom : s.smp.cpus.bufSize + 1 ≤ s.smp.cpus.bufCap) :
    Pushed s (s.smp.push r block) r s.blocks := by
  have hin : (s.smp.cpus.elements, s.smp.cpus.bufCap) ∈ s.blocks :=
    h.current.resolve_left (by omega)
  have haddr := h.address_eq (i := s.smp.cpus.bufSize) (by omega)
  have hpush : s.smp.push r block = { s.smp with
      records := Function.update s.smp.records
        (s.smp.cpus.elements + s.smp.cpus.bufSize * smpCpuSize) r
      cpus := { s.smp.cpus with bufSize := s.smp.cpus.bufSize + 1 } } := by
    unfold SmpState.push SmpState.resize
    rw [if_pos hroom]
    simp only [haddr]
  rw [hpush]
  refine ⟨rfl, by simp only; omega, hin, h.bounds, h.apart, fun _ hb => hb, ?_, ?_, ?_,
    rfl, rfl, rfl, rfl, rfl⟩
  · exact Function.update_self _ _ _
  · intro i hi
    apply Function.update_of_ne
    simp only [smpCpuSize]
    omega
  · intro b hb k hk hlow
    apply Function.update_of_ne
    by_cases hsame : b = (s.smp.cpus.elements, s.smp.cpus.bufCap)
    · rw [hsame]
      simp only [smpCpuSize]
      omega
    · have hsymm : Std.Symm BlocksApart := ⟨fun _ _ hap => hap.symm⟩
      exact place_ne (h.apart.forall hb hin hsame) hk (show s.smp.cpus.bufSize < _ from hroom)

/-- INTERNAL: a push that needs a new block.
SRCLINE: kernel/lib/vector.hpp:86-96, 105-122 -/
theorem BootInv.push_grow (h : BootInv s) (r : SmpCpu) (block : ℕ)
    (hfull : ¬ s.smp.cpus.bufSize + 1 ≤ s.smp.cpus.bufCap) (hfresh : s.Fresh block) :
    Pushed s (s.smp.push r block) r ((block, (s.smp.cpus.bufSize + 1) * 2) :: s.blocks) := by
  obtain ⟨hbound, hapart⟩ := hfresh.resolve_left hfull
  have hsize := h.size
  have haddr : wrap (block + s.smp.cpus.bufSize * smpCpuSize) =
      block + s.smp.cpus.bufSize * smpCpuSize := by
    apply wrap_of_lt
    simp only [smpCpuSize] at *
    omega
  have hpush : s.smp.push r block = { s.smp with
      records := Function.update
        (moveRecords s.smp.records s.smp.cpus.elements block s.smp.cpus.bufCap)
        (block + s.smp.cpus.bufSize * smpCpuSize) r
      cpus := ⟨block, s.smp.cpus.bufSize + 1, (s.smp.cpus.bufSize + 1) * 2⟩ } := by
    unfold SmpState.push SmpState.resize
    rw [if_neg hfull]
    simp only [CpuVector.address, haddr]
  -- a place of an older block is no place of the new one
  have hold : ∀ b ∈ s.blocks, ∀ k < b.2, ∀ j < (s.smp.cpus.bufSize + 1) * 2,
      b.1 + k * smpCpuSize ≠ block + j * smpCpuSize := by
    intro b hb k hk j hj
    exact place_ne (b := b) (c := (block, (s.smp.cpus.bufSize + 1) * 2)) (hapart b hb).symm hk hj
  rw [hpush]
  refine ⟨rfl, by simp only; omega, List.mem_cons_self, ?_, ?_, fun _ hb => List.mem_cons_of_mem _ hb,
    ?_, ?_, ?_, rfl, rfl, rfl, rfl, rfl⟩
  · intro b hb
    rcases List.mem_cons.mp hb with rfl | hb
    · exact hbound
    · exact h.bounds b hb
  · exact List.pairwise_cons.mpr ⟨fun b hb => hapart b hb, h.apart⟩
  · exact Function.update_self _ _ _
  · intro i hi
    have hin : (s.smp.cpus.elements, s.smp.cpus.bufCap) ∈ s.blocks :=
      h.current.resolve_left (by omega)
    simp only
    rw [Function.update_of_ne (by simp only [smpCpuSize]; omega)]
    exact moveRecords_moved (by omega) fun j hj k hk => hold _ hin j hj k (by omega)
  · intro b hb k hk _
    simp only
    rw [Function.update_of_ne (hold b hb k hk _ (by omega))]
    exact moveRecords_outside fun j hj => hold b hb k hk j (by omega)

/-- INTERNAL: a push, whatever it has to do. -/
theorem BootInv.push (h : BootInv s) (r : SmpCpu) {block : ℕ} (hfresh : s.Fresh block) :
    Pushed s (s.smp.push r block) r (s.blocksAfter block) := by
  unfold SmpSystem.blocksAfter
  by_cases hroom : s.smp.cpus.bufSize + 1 ≤ s.smp.cpus.bufCap
  · rw [if_pos hroom]
    exact h.push_stay r block hroom
  · rw [if_neg hroom]
    exact h.push_grow r block hroom hfresh

/-- INTERNAL: what the processors see after a push. -/
theorem BootInv.gs_pushed (h : BootInv s) {t : SmpState} {r : SmpCpu} {blocks : List (ℕ × ℕ)}
    (hp : Pushed s t r blocks) {p : BitVec 8} {g : ℕ} (hg : s.smp.gsBase p = some g) :
    (t.records g).userStack = 0 ∧
      ∃ b ∈ blocks, ∃ k < b.2, k < s.smp.entries.length ∧ g = b.1 + k * smpCpuSize := by
  obtain ⟨hzero, b, hb, k, hk, hlow, rfl⟩ := h.gs p g hg
  have hcount := h.count
  refine ⟨?_, b, hp.older b hb, k, hk, hlow, rfl⟩
  rw [hp.kept b hb k hk (by omega)]
  exact hzero

/-- INTERNAL: the records of the processors after a push. -/
theorem BootInv.zero_pushed (h : BootInv s) {t : SmpState} {r : SmpCpu} {blocks : List (ℕ × ℕ)}
    (hp : Pushed s t r blocks) {i : ℕ} (hi : i < s.smp.entries.length) :
    (t.records (t.cpus.elements + i * smpCpuSize)).userStack = 0 := by
  have hcount := h.count
  rw [hp.front i (by omega)]
  exact h.zero i hi

/-- INTERNAL: the state after a push, with one more entry, before the processors are told. -/
theorem BootInv.entry_pushed (h : BootInv s) {e : Madt0} {t : SmpState} {r : SmpCpu}
    {blocks : List (ℕ × ℕ)} (hp : Pushed s t r blocks) (hzero : r.userStack = 0)
    (hbooted : s.booted = false) :
    BootInv { smp := { t with entries := s.smp.entries ++ [e] }, blocks := blocks, booted := s.booted } := by
  have hloop := h.loop hbooted
  have hroom := hp.room
  have hsize := hp.bufSize
  obtain ⟨-, hparms, -, hcores, hgs⟩ := hp.others
  have hlen : (s.smp.entries ++ [e]).length = s.smp.entries.length + 1 := by simp
  refine ⟨by simp only; omega, Or.inr hp.current, hp.bounds, hp.apart, by simp only; omega,
    fun _ => by simp only; omega, ?_, ?_, ?_, ?_⟩
  · intro i hi
    simp only at hi ⊢
    by_cases hlast : i = s.smp.cpus.bufSize
    · rw [hlast, hp.last]
      exact hzero
    · exact h.zero_pushed hp (by omega)
  · intro i hi
    simp only [hparms] at hi ⊢
    have hlow := h.parms i hi
    omega
  · intro p i hi
    simp only [hcores] at hi ⊢
    have hlow := h.cores p i hi
    omega
  · intro p g hg
    simp only [hgs] at hg ⊢
    obtain ⟨hz, b, hb, k, hk, hlow, heq⟩ := h.gs_pushed hp hg
    exact ⟨hz, b, hb, k, hk, by omega, heq⟩

/-- The base of `gs` of a processor is set to the address of one of the records of the processors. -/
theorem BootInv.setGs (h : BootInv s) {p : BitVec 8} {i : ℕ} (hi : i < s.smp.entries.length) :
    BootInv { s with smp := { s.smp with
      gsBase := Function.update s.smp.gsBase p (some (s.smp.cpus.address i)) } } := by
  have hcount := h.count
  have hsize := h.size
  have hin : (s.smp.cpus.elements, s.smp.cpus.bufCap) ∈ s.blocks :=
    h.current.resolve_left (by omega)
  refine ⟨h.size, h.current, h.bounds, h.apart, h.count, h.loop, h.zero, h.parms, h.cores, ?_⟩
  intro q g hg
  simp only at hg ⊢
  by_cases hq : q = p
  · rw [hq, Function.update_self, h.address_eq (by omega)] at hg
    cases hg
    exact ⟨h.zero i hi, _, hin, i, by simp only; omega, hi, rfl⟩
  · rw [Function.update_of_ne hq] at hg
    exact h.gs q g hg

/-- A round of the loop of `boot_aps`.
SRCLINE: kernel/sched/smp.cpp:56-89 -/
theorem BootInv.entry (h : BootInv s) {current : BitVec 8} {e : Madt0}
    {stack high kernelMapping block : ℕ} (hbooted : s.booted = false) (hfresh : s.Fresh block) :
    BootInv (s.exec (.entry current e stack high kernelMapping block)) := by
  have hp := h.push (newCpu stack high kernelMapping) hfresh
  have hpushed := h.entry_pushed (e := e) hp rfl hbooted
  have hlen : (s.smp.entries ++ [e]).length = s.smp.entries.length + 1 := by simp
  unfold SmpSystem.exec SmpState.bootEntry
  simp only
  by_cases hcurrent : e.apicId = current
  · simp only [if_pos hcurrent]
    apply hpushed.setGs
    rw [hlen]
    exact Nat.lt_succ_self _
  · simp only [if_neg hcurrent]
    by_cases hflags : e.flags = 1
    · simp only [if_pos hflags]
      refine ⟨hpushed.size, hpushed.current, hpushed.bounds, hpushed.apart, hpushed.count, hpushed.loop,
        hpushed.zero, ?_, hpushed.cores, hpushed.gs⟩
      intro i hi
      cases hi
      rw [hlen]
      exact Nat.lt_succ_self _
    · simp only [if_neg hflags]
      exact hpushed

/-- A processor reads its index.
SRCLINE: kernel/sched/smp.real:55 -/
theorem BootInv.readParms (h : BootInv s) (p : BitVec 8) : BootInv (s.exec (.readParms p)) := by
  refine ⟨h.size, h.current, h.bounds, h.apart, h.count, h.loop, h.zero, h.parms, ?_, h.gs⟩
  intro q i hi
  simp only [SmpSystem.exec, SmpState.readParms] at hi ⊢
  by_cases hq : q = p
  · rw [hq, Function.update_self] at hi
    exact h.parms i hi
  · rw [Function.update_of_ne hq] at hi
    exact h.cores q i hi

/-- A processor sets the base of `gs`.
SRCLINE: kernel/sched/smp.cpp:23-26 -/
theorem BootInv.bootstrap (h : BootInv s) {p : BitVec 8} (hindex : s.smp.coreIndex p ≠ none) :
    BootInv (s.exec (.bootstrap p)) := by
  obtain ⟨i, hi⟩ := Option.ne_none_iff_exists'.mp hindex
  simp only [SmpSystem.exec, SmpState.bootstrap, hi]
  exact h.setGs (h.cores p i hi)

/-- A later push.
SRCLINE: kernel/lib/vector.hpp:86-96 -/
theorem BootInv.laterPush (h : BootInv s) (r : SmpCpu) {block : ℕ} (hfresh : s.Fresh block) :
    BootInv (s.exec (.push r block)) := by
  have hp := h.push r hfresh
  have hroom := hp.room
  have hsize := hp.bufSize
  have hcount := h.count
  obtain ⟨hentries, hparms, -, hcores, hgs⟩ := hp.others
  simp only [SmpSystem.exec]
  refine ⟨by simp only; omega, Or.inr hp.current, hp.bounds, hp.apart, ?_, ?_, ?_, ?_, ?_, ?_⟩
  · simp only [hentries]
    omega
  · intro hfalse
    cases hfalse
  · intro i hi
    rw [hentries] at hi
    exact h.zero_pushed hp hi
  · intro i hi
    simp only [hparms, hentries] at hi ⊢
    exact h.parms i hi
  · intro p i hi
    simp only [hcores, hentries] at hi ⊢
    exact h.cores p i hi
  · intro p g hg
    simp only [hgs, hentries] at hg ⊢
    exact h.gs_pushed hp hg

/-- A write to a record that leaves its first word as it is. -/
theorem BootInv.write (h : BootInv s) {a : ℕ} {r : SmpCpu}
    (hword : r.userStack = (s.smp.records a).userStack) : BootInv (s.exec (.write a r)) := by
  have hsame : ∀ b, (Function.update s.smp.records a r b).userStack = (s.smp.records b).userStack := by
    intro b
    by_cases hb : b = a
    · rw [hb, Function.update_self]
      exact hword
    · rw [Function.update_of_ne hb]
  refine ⟨h.size, h.current, h.bounds, h.apart, h.count, h.loop, ?_, h.parms, h.cores, ?_⟩
  · intro i hi
    simp only [SmpSystem.exec] at hi ⊢
    rw [hsame]
    exact h.zero i hi
  · intro p g hg
    simp only [SmpSystem.exec] at hg ⊢
    rw [hsame]
    exact h.gs p g hg

theorem BootInv.step {t : SmpSystem} {op : SmpOp} (h : BootInv s) (hstep : smpStep s op t) :
    BootInv t := by
  obtain ⟨hallowed, rfl⟩ := hstep
  cases op with
  | entry current e stack high kernelMapping block => exact h.entry hallowed.1 hallowed.2
  | readParms p => exact h.readParms p
  | bootstrap p => exact h.bootstrap hallowed
  | push r block => exact h.laterPush r hallowed
  | write a r => exact h.write hallowed

theorem run_bootInv {t : SmpSystem} {ops : List SmpOp} (hinit : s.Initial)
    (hrun : Run smpStep s ops t) : BootInv t :=
  hrun.invariant BootInv (fun _ _ _ h hstep => h.step hstep) (initial_bootInv hinit)

/-! ## What `core_local` returns -/

/-- Once a processor has its base, `core_local` returns the first record there.
SRCLINE: kernel/sched/smp.cpp:94-98 -/
theorem BootInv.coreLocal_eq (h : BootInv s) {p : BitVec 8} {g : ℕ} (hgs : s.smp.gsBase p = some g) :
    s.smp.coreLocal p = some (s.smp.cpus.address 0) := by
  have hword := (h.gs p g hgs).1
  have hindex : ofSigned (coreIndexAt (s.smp.records g)) = 0 := by
    unfold coreIndexAt
    rw [hword]
    decide
  unfold SmpState.coreLocal
  rw [hgs, Option.map_some, hindex]

/-- **`core_local` returns the processor's record only for the first entry of the MADT.**
SRCLINE: kernel/sched/smp.cpp:23-98; kernel/sched/smp.hpp:11-24; kernel/lib/vector.hpp:92-122 -/
theorem core_local_own_iff {t : SmpSystem} {ops : List SmpOp} (hinit : s.Initial)
    (hrun : Run smpStep s ops t) {i g : ℕ} {e : Madt0} (he : t.smp.entries[i]? = some e)
    (hgs : t.smp.gsBase e.apicId = some g) : ReturnsOwn t.smp e.apicId i ↔ i = 0 := by
  have hinv := run_bootInv hinit hrun
  have hlow : i < t.smp.entries.length := (List.getElem?_eq_some_iff.mp he).1
  have hcount := hinv.count
  have hsize := hinv.size
  unfold ReturnsOwn
  rw [hinv.coreLocal_eq hgs, Option.some_inj, hinv.address_eq (by omega), hinv.address_eq (by omega)]
  simp only [smpCpuSize]
  omega

end Boot

/-- The state before `boot_aps`. -/
def twoCoresStart : SmpSystem where
  smp :=
    { records := fun _ => newCpu 0 0 0
      cpus := ⟨0, 0, 0⟩
      entries := []
      parms := none
      sent := fun _ => false
      coreIndex := fun _ => none
      gsBase := fun _ => none }
  blocks := []
  booted := false

/-- The bootstrap processor has the id 0, a second processor the id 1. -/
def twoCoresBoot : List SmpOp :=
  [.entry 0 ⟨0, 1⟩ 0x10000 0xffff800000000000 0x2000 0xffff800000100000,
    .entry 0 ⟨1, 1⟩ 0x20000 0xffff800000000000 0x2000 0xffff800000100000,
    .readParms 1,
    .bootstrap 1]

def twoCoresEnd : SmpSystem := twoCoresBoot.foldl SmpSystem.exec twoCoresStart

theorem twoCoresStart_initial : twoCoresStart.Initial := by
  refine ⟨rfl, rfl, rfl, rfl, rfl, fun p => ⟨rfl, rfl, rfl⟩⟩

theorem twoCores_run : Run smpStep twoCoresStart twoCoresBoot twoCoresEnd := by
  have hfirst : smpStep twoCoresStart twoCoresBoot[0] (twoCoresStart.exec twoCoresBoot[0]) := by
    refine ⟨⟨rfl, Or.inr ⟨by decide, ?_⟩⟩, rfl⟩
    exact fun b hb => absurd hb List.not_mem_nil
  have hsecond : smpStep (twoCoresStart.exec twoCoresBoot[0]) twoCoresBoot[1]
      ((twoCoresBoot.take 2).foldl SmpSystem.exec twoCoresStart) :=
    ⟨⟨rfl, Or.inl (by decide)⟩, rfl⟩
  have hthird : smpStep ((twoCoresBoot.take 2).foldl SmpSystem.exec twoCoresStart) twoCoresBoot[2]
      ((twoCoresBoot.take 3).foldl SmpSystem.exec twoCoresStart) :=
    ⟨rfl, rfl⟩
  have hfourth : smpStep ((twoCoresBoot.take 3).foldl SmpSystem.exec twoCoresStart) twoCoresBoot[3]
      twoCoresEnd := by
    refine ⟨?_, rfl⟩
    change ((twoCoresBoot.take 3).foldl SmpSystem.exec twoCoresStart).smp.coreIndex 1 ≠ none
    decide
  exact Run.snoc (Run.snoc (Run.snoc (Run.snoc Run.nil hfirst) hsecond) hthird) hfourth

/-- The first entry is the bootstrap processor's, which gets its own record. -/
theorem core_local_own_first : ReturnsOwn twoCoresEnd.smp 0 0 := by
  have hgs : twoCoresEnd.smp.gsBase 0 = some 0xffff800000100000 := by decide
  exact (core_local_own_iff twoCoresStart_initial twoCores_run (e := ⟨0, 1⟩) rfl hgs).mpr rfl

/-- The processor started for the second entry gets the record of the first one. -/
theorem core_local_not_own :
    twoCoresStart.Initial ∧ Run smpStep twoCoresStart twoCoresBoot twoCoresEnd ∧
      twoCoresEnd.smp.entries[1]? = some ⟨1, 1⟩ ∧ twoCoresEnd.smp.gsBase 1 ≠ none ∧
      twoCoresEnd.smp.coreLocal 1 = some (twoCoresEnd.smp.cpus.address 0) ∧
        ¬ ReturnsOwn twoCoresEnd.smp 1 1 := by
  refine ⟨twoCoresStart_initial, twoCores_run, rfl, by decide, by decide, ?_⟩
  unfold ReturnsOwn
  decide

end CrepOS.Analysis
