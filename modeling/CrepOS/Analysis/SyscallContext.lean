import CrepOS.Analysis.SchedExclusive
import CrepOS.Interface.SyscallRun
import Mathlib.Tactic.IntervalCases

/-!
# What a thread finds when it returns from a system call

`syscall_main` saves the stack pointer of the thread in the word at `gs:16` and takes `errno` from
`gs:24`. In `smp::cpu` these are `errno` and `pid`: the stack pointer that the thread gets back is
whatever `errno` is then, and it finds its `pid` in `rdx`. All threads of a processor use one kernel
stack, so a thread that is preempted in a system call finds the words of another one there.

`Inside` says what holds at each instruction as long as none of this shows, and
`syscalls_preserve_contexts` that then every return preserves the context.
-/

set_option autoImplicit false

namespace CrepOS.Analysis

open CrepOS.Library CrepOS.Model CrepOS.Interface

/-! ## The kernel stack -/

/-- The address of the word number `n` of a stack, counted from its top. -/
def slot (top : Word) (n : ℕ) : Word := top - BitVec.ofNat 64 (8 * n)

theorem slot_zero (top : Word) : slot top 0 = top := by
  simp [slot]

theorem slot_sub (top : Word) (n : ℕ) : slot top n - 8 = slot top (n + 1) := by
  unfold slot
  have h : BitVec.ofNat 64 (8 * (n + 1)) = BitVec.ofNat 64 (8 * n) + 8 := by
    rw [Nat.mul_add, BitVec.ofNat_add]
    rfl
  rw [h]
  bv_omega

theorem slot_add (top : Word) (n j : ℕ) :
    slot top (n + j) + BitVec.ofNat 64 (8 * j) = slot top n := by
  unfold slot
  rw [Nat.mul_add, BitVec.ofNat_add]
  generalize BitVec.ofNat 64 (8 * n) = a
  generalize BitVec.ofNat 64 (8 * j) = b
  bv_omega

theorem slot_ne (top : Word) {n m : ℕ} (hn : n < 2 ^ 60) (hm : m < 2 ^ 60) (hne : n ≠ m) :
    slot top n ≠ slot top m := by
  intro heq
  have hsub : BitVec.ofNat 64 (8 * n) = BitVec.ofNat 64 (8 * m) := by
    unfold slot at heq
    generalize BitVec.ofNat 64 (8 * n) = a at *
    generalize BitVec.ofNat 64 (8 * m) = b at *
    bv_omega
  have hnat := congrArg BitVec.toNat hsub
  rw [BitVec.toNat_ofNat, BitVec.toNat_ofNat] at hnat
  omega

/-- What is written below the stack pointer does not change the words above. -/
theorem scribble_above (m : Word → Word) (top : Word) {n j : ℕ} (l : List Word) (hj : j ≤ n)
    (hl : n + l.length < 2 ^ 60) : scribble m (slot top n) l (slot top j) = m (slot top j) := by
  induction l generalizing m n with
  | nil => rfl
  | cons v l ih =>
    rw [List.length_cons] at hl
    rw [scribble, slot_sub, ih _ (by omega) (by omega), Function.update_of_ne]
    exact slot_ne top (by omega) (by omega) (by omega)

/-! ## Places in the code -/

section Index

variable {p : Processor} {k : ℕ}

theorem index_eq_some_iff {r : Regs} {base : Word} :
    r.index base = some k ↔ r.cs = 8 ∧ r.rip = base + BitVec.ofNat 64 k ∧ k ≤ 54 := by
  unfold Regs.index
  constructor
  · intro h
    split_ifs at h with hcond
    obtain rfl := Option.some.inj h
    refine ⟨hcond.1, ?_, hcond.2⟩
    rw [BitVec.ofNat_toNat, BitVec.setWidth_eq]
    bv_omega
  · rintro ⟨hcs, hrip, hk⟩
    have hdiff : (r.rip - base).toNat = k := by
      rw [hrip]
      have h : base + BitVec.ofNat 64 k - base = BitVec.ofNat 64 k := by bv_omega
      rw [h, BitVec.toNat_ofNat]
      omega
    rw [if_pos ⟨hcs, by rw [hdiff]; exact hk⟩, hdiff]

theorem jump_index (hcs : p.regs.cs = 8) (hk : k ≤ 54) : (p.jump k).index = some k :=
  index_eq_some_iff.mpr ⟨hcs, rfl, hk⟩

theorem index_cs (h : p.index = some k) : p.regs.cs = 8 := (index_eq_some_iff.mp h).1

/-- Code in `syscall_main` is kernel code. -/
theorem index_not_user (h : p.index = some k) : p.regs.user = false := by
  rw [Regs.user, index_cs h]
  decide

end Index

/-! ## What the instructions do -/

section Listing

variable {p : Processor} {k : ℕ}

theorem step_eq (h : p.index = some k) {i : Instr} (hi : syscallMain[k]? = some i) :
    p.step = p.execute k i := by
  rw [Processor.step, h]
  simp only [hi]

/-- The word that an instruction pushes, if it is a push. -/
def pushedWord (p : Processor) : Instr → Option Word
  | .push g => some (p.regs.get g)
  | .pushImm v => some v
  | .pushGs off => p.gsRead off
  | _ => none

theorem execute_push {i : Instr} {v : Word} (hi : pushedWord p i = some v) :
    p.execute k i = some ((p.pushWord v).jump (k + 1)) := by
  cases i with
  | push g => rw [Processor.execute, Option.some.inj hi]
  | pushImm w => rw [Processor.execute, Option.some.inj hi]
  | pushGs off =>
    have hread : p.gsRead off = some v := hi
    rw [Processor.execute, hread]
    rfl
  | _ => cases hi

/-- The pushes; the first two are those of `rcx` and `r11`.
SRCLINE: kernel/int/syscall.asm:87-99 -/
theorem step_push (h : p.index = some k) (hlow : 4 ≤ k) (hhigh : k < 28)
    (hgs : p.msrs.gsBase = p.record) :
    ∃ v, p.step = some ((p.pushWord v).jump (k + 1)) ∧ (k = 4 → v = p.regs.rcx) ∧
      (k = 5 → v = p.regs.r11) := by
  obtain ⟨i, v, hi, hv, h4, h5⟩ : ∃ i v, syscallMain[k]? = some i ∧ pushedWord p i = some v ∧
      (k = 4 → v = p.regs.rcx) ∧ (k = 5 → v = p.regs.r11) := by
    have hread : p.gsRead 16 = some (p.sched.cpus ()).errno := by
      rw [Processor.gsRead, if_pos hgs]
    interval_cases k <;> refine ⟨_, _, rfl, (by first | rfl | exact hread), ?_, ?_⟩ <;> intro hk <;>
      first
        | rfl
        | exact absurd hk (by decide)
  exact ⟨v, (step_eq h hi).trans (execute_push hv), h4, h5⟩

/-- The pops of `popall`.
SRCLINE: kernel/int/syscall.asm:107 -/
theorem step_pop (h : p.index = some k) (hlow : 31 ≤ k) (hhigh : k < 46) :
    ∃ g, g ≠ Gpr.rsp ∧ p.step = some ({ p with
      regs := { p.regs with rsp := p.regs.rsp + 8 }.set g (p.mem p.regs.rsp) }.jump (k + 1)) := by
  obtain ⟨g, hi, hg⟩ : ∃ g, syscallMain[k]? = some (.pop g) ∧ g ≠ Gpr.rsp := by
    interval_cases k <;> exact ⟨_, rfl, by decide⟩
  exact ⟨g, hg, step_eq h hi⟩

end Listing

/-! ## What holds at each instruction -/

/-- The number of words on the kernel stack before instruction `k`, or in the handler. -/
def depthAt (k : ℕ) : ℕ :=
  if k ≤ 4 then 0
  else if k ≤ 28 then k - 4
  else if k ≤ 31 then 24
  else if k ≤ 46 then 55 - k
  else if k = 47 then 2
  else if k = 48 then 1
  else if k = 54 then 24
  else 0

theorem depthAt_le (k : ℕ) : depthAt k ≤ 24 := by
  unfold depthAt
  split_ifs <;> omega

/-- What holds before instruction `k`, for a thread that entered with `e`. -/
structure Inside (p : Processor) (e : Entry) (k : ℕ) : Prop where
  userRsp : k ≤ 2 ∨ k = 52 ∨ k = 53 → p.regs.rsp = e.rsp
  kernelRsp : 3 ≤ k ∧ k ≤ 51 ∨ k = 54 → p.regs.rsp = slot p.kernelStack (depthAt k)
  rcx : k ≤ 4 ∨ 49 ≤ k ∧ k ≤ 53 → p.regs.rcx = e.rip
  r11 : k ≤ 5 ∨ 48 ≤ k ∧ k ≤ 53 → p.regs.r11 = e.rflags
  savedRip : 1 ≤ depthAt k → p.mem (slot p.kernelStack 1) = e.rip
  savedFlags : 2 ≤ depthAt k → p.mem (slot p.kernelStack 2) = e.rflags
  errno : 2 ≤ k → (p.sched.cpus ()).errno = e.rsp
  pid : BitVec.ofInt 64 (p.sched.cpus ()).pid = e.rsp
  rdx : 51 ≤ k ∧ k ≤ 53 → p.regs.rdx = e.rsp
  gs : 1 ≤ k ∧ k ≤ 52 ∨ k = 54 → p.msrs.gsBase = p.record
  userGs : k = 0 ∨ k = 53 → p.msrs.kernelGsBase = p.record
  masked : k ≤ 3 ∨ 50 ≤ k ∧ k ≤ 53 → p.regs.interruptible = false

section Inside

variable {p : Processor} {e : Entry} {k : ℕ}

theorem Inside.push (h : Inside p e k) (hlow : 4 ≤ k) (hhigh : k < 28) {v : Word}
    (h4 : k = 4 → v = p.regs.rcx) (h5 : k = 5 → v = p.regs.r11) :
    Inside ((p.pushWord v).jump (k + 1)) e (k + 1) := by
  have hdepth : depthAt k = k - 4 := by
    unfold depthAt
    split_ifs <;> omega
  have hdepth' : depthAt (k + 1) = k - 3 := by
    unfold depthAt
    split_ifs <;> omega
  have hrsp : p.regs.rsp - 8 = slot p.kernelStack (k - 3) := by
    rw [h.kernelRsp (by omega), hdepth, slot_sub]
    congr 1
    omega
  refine ⟨?_, ?_, ?_, ?_, ?_, ?_, ?_, h.pid, ?_, ?_, ?_, ?_⟩
  · omega
  · intro _
    rw [hdepth']
    exact hrsp
  · omega
  · intro hk
    exact h.r11 (by omega)
  · intro _
    change Function.update p.mem (p.regs.rsp - 8) v (slot p.kernelStack 1) = e.rip
    rw [hrsp]
    by_cases hk : k = 4
    · subst hk
      rw [Function.update_self, h4 rfl]
      exact h.rcx (by omega)
    · rw [Function.update_of_ne (slot_ne _ (by omega) (by omega) (by omega))]
      exact h.savedRip (by omega)
  · rw [hdepth']
    intro hk
    change Function.update p.mem (p.regs.rsp - 8) v (slot p.kernelStack 2) = e.rflags
    rw [hrsp]
    by_cases hk : k = 5
    · subst hk
      rw [Function.update_self, h5 rfl]
      exact h.r11 (by omega)
    · rw [Function.update_of_ne (slot_ne _ (by omega) (by omega) (by omega))]
      exact h.savedFlags (by omega)
  · intro _
    exact h.errno (by omega)
  · omega
  · intro _
    exact h.gs (by omega)
  · omega
  · omega

theorem set_rsp_of_ne (r : Regs) {g : Gpr} (v : Word) (hg : g ≠ .rsp) : (r.set g v).rsp = r.rsp := by
  cases g <;> first | rfl | exact absurd rfl hg

theorem set_cs (r : Regs) (g : Gpr) (v : Word) : (r.set g v).cs = r.cs := by
  cases g <;> rfl

theorem Inside.pop (h : Inside p e k) (hlow : 31 ≤ k) (hhigh : k < 46) {g : Gpr} (v : Word)
    (hg : g ≠ .rsp) : Inside ({ p with
      regs := { p.regs with rsp := p.regs.rsp + 8 }.set g v }.jump (k + 1)) e (k + 1) := by
  have hdepth : depthAt k = depthAt (k + 1) + 1 := by
    unfold depthAt
    split_ifs <;> omega
  have hdepth' : depthAt (k + 1) = 54 - k := by
    unfold depthAt
    split_ifs <;> omega
  refine ⟨?_, ?_, ?_, ?_, ?_, ?_, ?_, h.pid, ?_, ?_, ?_, ?_⟩
  · omega
  · intro _
    change ({ p.regs with rsp := p.regs.rsp + 8 }.set g v).rsp = _
    rw [set_rsp_of_ne _ v hg]
    change p.regs.rsp + 8 = slot p.kernelStack (depthAt (k + 1))
    rw [h.kernelRsp (by omega), hdepth]
    exact slot_add p.kernelStack (depthAt (k + 1)) 1
  · omega
  · omega
  · intro _
    exact h.savedRip (by omega)
  · intro _
    exact h.savedFlags (by omega)
  · intro _
    exact h.errno (by omega)
  · omega
  · intro _
    exact h.gs (by omega)
  · omega
  · omega

theorem Inside.swapgs_in (h : Inside p e 0) :
    Inside ({ p with msrs := p.msrs.swapgs }.jump 1) e 1 where
  userRsp _ := h.userRsp (by decide)
  kernelRsp hk := absurd hk (by decide)
  rcx _ := h.rcx (by decide)
  r11 _ := h.r11 (by decide)
  savedRip hk := absurd hk (by decide)
  savedFlags hk := absurd hk (by decide)
  errno hk := absurd hk (by decide)
  pid := h.pid
  rdx hk := absurd hk (by decide)
  gs _ := h.userGs (by decide)
  userGs hk := absurd hk (by decide)
  masked _ := h.masked (by decide)

theorem Inside.save_rsp (h : Inside p e 1) :
    Inside ((p.setErrno p.regs.rsp).jump 2) e 2 where
  userRsp _ := h.userRsp (by decide)
  kernelRsp hk := absurd hk (by decide)
  rcx _ := h.rcx (by decide)
  r11 _ := h.r11 (by decide)
  savedRip hk := absurd hk (by decide)
  savedFlags hk := absurd hk (by decide)
  errno _ := h.userRsp (by decide)
  pid := h.pid
  rdx hk := absurd hk (by decide)
  gs _ := h.gs (by decide)
  userGs hk := absurd hk (by decide)
  masked _ := h.masked (by decide)

theorem Inside.load_stack (h : Inside p e 2) :
    Inside ({ p with regs := p.regs.set .rsp p.kernelStack }.jump 3) e 3 where
  userRsp hk := absurd hk (by decide)
  kernelRsp _ := (slot_zero p.kernelStack).symm
  rcx _ := h.rcx (by decide)
  r11 _ := h.r11 (by decide)
  savedRip hk := absurd hk (by decide)
  savedFlags hk := absurd hk (by decide)
  errno _ := h.errno (by decide)
  pid := h.pid
  rdx hk := absurd hk (by decide)
  gs _ := h.gs (by decide)
  userGs hk := absurd hk (by decide)
  masked _ := h.masked (by decide)

theorem Inside.sti (h : Inside p e 3) :
    Inside ({ p with regs := { p.regs with rflags := p.regs.rflags ||| 0x200 } }.jump 4) e 4 where
  userRsp hk := absurd hk (by decide)
  kernelRsp _ := h.kernelRsp (by decide)
  rcx _ := h.rcx (by decide)
  r11 _ := h.r11 (by decide)
  savedRip hk := absurd hk (by decide)
  savedFlags hk := absurd hk (by decide)
  errno _ := h.errno (by decide)
  pid := h.pid
  rdx hk := absurd hk (by decide)
  gs _ := h.gs (by decide)
  userGs hk := absurd hk (by decide)
  masked hk := absurd hk (by decide)

theorem Inside.mov_rdi (h : Inside p e 29) :
    Inside ({ p with regs := p.regs.set .rdi (p.regs.get .rsp) }.jump 30) e 30 where
  userRsp hk := absurd hk (by decide)
  kernelRsp _ := h.kernelRsp (by decide)
  rcx hk := absurd hk (by decide)
  r11 hk := absurd hk (by decide)
  savedRip _ := h.savedRip (by decide)
  savedFlags _ := h.savedFlags (by decide)
  errno _ := h.errno (by decide)
  pid := h.pid
  rdx hk := absurd hk (by decide)
  gs _ := h.gs (by decide)
  userGs hk := absurd hk (by decide)
  masked hk := absurd hk (by decide)

theorem Inside.call (h : Inside p e 30) :
    Inside (p.jump 54) e 54 where
  userRsp hk := absurd hk (by decide)
  kernelRsp _ := h.kernelRsp (by decide)
  rcx hk := absurd hk (by decide)
  r11 hk := absurd hk (by decide)
  savedRip _ := h.savedRip (by decide)
  savedFlags _ := h.savedFlags (by decide)
  errno _ := h.errno (by decide)
  pid := h.pid
  rdx hk := absurd hk (by decide)
  gs _ := h.gs (by decide)
  userGs hk := absurd hk (by decide)
  masked hk := absurd hk (by decide)

theorem Inside.add_rsp (h : Inside p e 46) :
    Inside ({ p with regs := { p.regs with rsp := p.regs.rsp + 56 } }.jump 47) e 47 where
  userRsp hk := absurd hk (by decide)
  kernelRsp _ := by
    change p.regs.rsp + 56 = slot p.kernelStack 2
    rw [h.kernelRsp (by decide)]
    exact slot_add p.kernelStack 2 7
  rcx hk := absurd hk (by decide)
  r11 hk := absurd hk (by decide)
  savedRip _ := h.savedRip (by decide)
  savedFlags _ := h.savedFlags (by decide)
  errno _ := h.errno (by decide)
  pid := h.pid
  rdx hk := absurd hk (by decide)
  gs _ := h.gs (by decide)
  userGs hk := absurd hk (by decide)
  masked hk := absurd hk (by decide)

theorem Inside.pop_r11 (h : Inside p e 47) :
    Inside ({ p with
      regs := { p.regs with rsp := p.regs.rsp + 8 }.set .r11 (p.mem p.regs.rsp) }.jump 48) e 48 where
  userRsp hk := absurd hk (by decide)
  kernelRsp _ := by
    change p.regs.rsp + 8 = slot p.kernelStack 1
    rw [h.kernelRsp (by decide)]
    exact slot_add p.kernelStack 1 1
  rcx hk := absurd hk (by decide)
  r11 _ := by
    change p.mem p.regs.rsp = e.rflags
    rw [h.kernelRsp (by decide)]
    exact h.savedFlags (by decide)
  savedRip _ := h.savedRip (by decide)
  savedFlags hk := absurd hk (by decide)
  errno _ := h.errno (by decide)
  pid := h.pid
  rdx hk := absurd hk (by decide)
  gs _ := h.gs (by decide)
  userGs hk := absurd hk (by decide)
  masked hk := absurd hk (by decide)

theorem Inside.pop_rcx (h : Inside p e 48) :
    Inside ({ p with
      regs := { p.regs with rsp := p.regs.rsp + 8 }.set .rcx (p.mem p.regs.rsp) }.jump 49) e 49 where
  userRsp hk := absurd hk (by decide)
  kernelRsp _ := by
    change p.regs.rsp + 8 = slot p.kernelStack 0
    rw [h.kernelRsp (by decide)]
    exact slot_add p.kernelStack 0 1
  rcx _ := by
    change p.mem p.regs.rsp = e.rip
    rw [h.kernelRsp (by decide)]
    exact h.savedRip (by decide)
  r11 _ := h.r11 (by decide)
  savedRip hk := absurd hk (by decide)
  savedFlags hk := absurd hk (by decide)
  errno _ := h.errno (by decide)
  pid := h.pid
  rdx hk := absurd hk (by decide)
  gs _ := h.gs (by decide)
  userGs hk := absurd hk (by decide)
  masked hk := absurd hk (by decide)

theorem Inside.cli (h : Inside p e 49) :
    Inside ({ p with regs := { p.regs with rflags := p.regs.rflags &&& ~~~0x200 } }.jump 50) e 50 where
  userRsp hk := absurd hk (by decide)
  kernelRsp _ := h.kernelRsp (by decide)
  rcx _ := h.rcx (by decide)
  r11 _ := h.r11 (by decide)
  savedRip hk := absurd hk (by decide)
  savedFlags hk := absurd hk (by decide)
  errno _ := h.errno (by decide)
  pid := h.pid
  rdx hk := absurd hk (by decide)
  gs _ := h.gs (by decide)
  userGs hk := absurd hk (by decide)
  masked _ := by
    change (p.regs.rflags &&& ~~~0x200).getLsbD 9 = false
    simp

theorem Inside.load_rdx (h : Inside p e 50) :
    Inside ({ p with
      regs := p.regs.set .rdx (BitVec.ofInt 64 (p.sched.cpus ()).pid) }.jump 51) e 51 where
  userRsp hk := absurd hk (by decide)
  kernelRsp _ := h.kernelRsp (by decide)
  rcx _ := h.rcx (by decide)
  r11 _ := h.r11 (by decide)
  savedRip hk := absurd hk (by decide)
  savedFlags hk := absurd hk (by decide)
  errno _ := h.errno (by decide)
  pid := h.pid
  rdx _ := h.pid
  gs _ := h.gs (by decide)
  userGs hk := absurd hk (by decide)
  masked _ := h.masked (by decide)

theorem Inside.load_rsp (h : Inside p e 51) :
    Inside ({ p with
      regs := p.regs.set .rsp (p.sched.cpus ()).errno }.jump 52) e 52 where
  userRsp _ := h.errno (by decide)
  kernelRsp hk := absurd hk (by decide)
  rcx _ := h.rcx (by decide)
  r11 _ := h.r11 (by decide)
  savedRip hk := absurd hk (by decide)
  savedFlags hk := absurd hk (by decide)
  errno _ := h.errno (by decide)
  pid := h.pid
  rdx _ := h.rdx (by decide)
  gs _ := h.gs (by decide)
  userGs hk := absurd hk (by decide)
  masked _ := h.masked (by decide)

theorem Inside.swapgs_out (h : Inside p e 52) :
    Inside ({ p with msrs := p.msrs.swapgs }.jump 53) e 53 where
  userRsp _ := h.userRsp (by decide)
  kernelRsp hk := absurd hk (by decide)
  rcx _ := h.rcx (by decide)
  r11 _ := h.r11 (by decide)
  savedRip hk := absurd hk (by decide)
  savedFlags hk := absurd hk (by decide)
  errno _ := h.errno (by decide)
  pid := h.pid
  rdx _ := h.rdx (by decide)
  gs hk := absurd hk (by decide)
  userGs _ := h.gs (by decide)
  masked _ := h.masked (by decide)

theorem Inside.compare (h : Inside p e 28) {k : ℕ} (hk : k = 31 ∨ k = 29) :
    Inside (p.jump k) e k := by
  rcases hk with rfl | rfl
  · exact {
      userRsp := fun hk => absurd hk (by decide)
      kernelRsp := fun _ => h.kernelRsp (by decide)
      rcx := fun hk => absurd hk (by decide)
      r11 := fun hk => absurd hk (by decide)
      savedRip := fun _ => h.savedRip (by decide)
      savedFlags := fun _ => h.savedFlags (by decide)
      errno := fun _ => h.errno (by decide)
      pid := h.pid
      rdx := fun hk => absurd hk (by decide)
      gs := fun _ => h.gs (by decide)
      userGs := fun hk => absurd hk (by decide)
      masked := fun hk => absurd hk (by decide) }
  · exact {
      userRsp := fun hk => absurd hk (by decide)
      kernelRsp := fun _ => h.kernelRsp (by decide)
      rcx := fun hk => absurd hk (by decide)
      r11 := fun hk => absurd hk (by decide)
      savedRip := fun _ => h.savedRip (by decide)
      savedFlags := fun _ => h.savedFlags (by decide)
      errno := fun _ => h.errno (by decide)
      pid := h.pid
      rdx := fun hk => absurd hk (by decide)
      gs := fun _ => h.gs (by decide)
      userGs := fun hk => absurd hk (by decide)
      masked := fun hk => absurd hk (by decide) }

/-- What instructions keep of the scheduler and of the addresses. -/
def Keeps (p p' : Processor) : Prop :=
  schedView p'.sched = schedView p.sched ∧ p'.codeBase = p.codeBase ∧ p'.record = p.record

/-- **An instruction leads from its place to the next.** -/
theorem Inside.instr (h : Inside p e k) (hidx : p.index = some k) (hk : k ≠ 53) {p' : Processor}
    (hstep : p.step = some p') :
    Keeps p p' ∧ ∃ k', p'.index = some k' ∧ Inside p' e k' := by
  have hcs := index_cs hidx
  have hle := (index_eq_some_iff.mp hidx).2.2
  -- an instruction that goes to `k'` and keeps the code segment
  have finish : ∀ {q : Processor} {k' : ℕ}, p.step = some (q.jump k') → q.regs.cs = 8 → k' ≤ 54 →
      Keeps p (q.jump k') → Inside (q.jump k') e k' →
      Keeps p p' ∧ ∃ k', p'.index = some k' ∧ Inside p' e k' := by
    intro q k' hv hq hk' hkeep hin
    obtain rfl := Option.some.inj (hstep.symm.trans hv)
    exact ⟨hkeep, k', jump_index hq hk', hin⟩
  have hkeep : ∀ {r : Regs} {m : Msrs} {mem : Word → Word},
      Keeps p { p with regs := r, msrs := m, mem := mem } := ⟨rfl, rfl, rfl⟩
  by_cases hpush : 4 ≤ k ∧ k < 28
  · obtain ⟨v, hv, h4, h5⟩ := step_push hidx hpush.1 hpush.2 (h.gs (by omega))
    exact finish hv hcs (by omega) hkeep (h.push hpush.1 hpush.2 h4 h5)
  by_cases hpop : 31 ≤ k ∧ k < 46
  · obtain ⟨g, hg, hv⟩ := step_pop hidx hpop.1 hpop.2
    exact finish hv ((set_cs _ g _).trans hcs) (by omega) hkeep (h.pop hpop.1 hpop.2 _ hg)
  have hgs := h.gs
  obtain rfl | rfl | rfl | rfl | rfl | rfl | rfl | rfl | rfl | rfl | rfl | rfl | rfl | rfl | rfl :
      k = 0 ∨ k = 1 ∨ k = 2 ∨ k = 3 ∨ k = 28 ∨ k = 29 ∨ k = 30 ∨ k = 46 ∨ k = 47 ∨ k = 48 ∨ k = 49 ∨
        k = 50 ∨ k = 51 ∨ k = 52 ∨ k = 54 := by
    omega
  · exact finish (step_eq hidx rfl) hcs (by decide) hkeep h.swapgs_in
  · have hv : p.step = some ((p.setErrno p.regs.rsp).jump 2) := by
      rw [step_eq hidx rfl, Processor.execute, Processor.gsWrite, if_pos (hgs (by decide))]
      rfl
    exact finish hv hcs (by decide) ⟨rfl, rfl, rfl⟩ h.save_rsp
  · have hv : p.step = some ({ p with regs := p.regs.set .rsp p.kernelStack }.jump 3) := by
      rw [step_eq hidx rfl, Processor.execute, Processor.gsRead, if_pos (hgs (by decide))]
      rfl
    exact finish hv hcs (by decide) hkeep h.load_stack
  · exact finish (step_eq hidx rfl) hcs (by decide) hkeep h.sti
  · have hor : (if syscallCnt ≤ p.regs.rax then 31 else 28 + 1) = 31 ∨
        (if syscallCnt ≤ p.regs.rax then 31 else 28 + 1) = 29 := by
      split_ifs
      · exact Or.inl rfl
      · exact Or.inr rfl
    refine finish (step_eq hidx rfl) hcs ?_ hkeep (h.compare hor)
    split_ifs <;> decide
  · exact finish (step_eq hidx rfl) hcs (by decide) hkeep h.mov_rdi
  · exact finish (step_eq hidx rfl) hcs (by decide) hkeep h.call
  · exact finish (step_eq hidx rfl) hcs (by decide) hkeep h.add_rsp
  · exact finish (step_eq hidx rfl) hcs (by decide) hkeep h.pop_r11
  · exact finish (step_eq hidx rfl) hcs (by decide) hkeep h.pop_rcx
  · exact finish (step_eq hidx rfl) hcs (by decide) hkeep h.cli
  · have hv : p.step = some ({ p with
        regs := p.regs.set .rdx (BitVec.ofInt 64 (p.sched.cpus ()).pid) }.jump 51) := by
      rw [step_eq hidx rfl, Processor.execute, Processor.gsRead, if_pos (hgs (by decide))]
      rfl
    exact finish hv hcs (by decide) hkeep h.load_rdx
  · have hv : p.step = some ({ p with
        regs := p.regs.set .rsp (p.sched.cpus ()).errno }.jump 52) := by
      rw [step_eq hidx rfl, Processor.execute, Processor.gsRead, if_pos (hgs (by decide))]
      rfl
    exact finish hv hcs (by decide) hkeep h.load_rsp
  · exact finish (step_eq hidx rfl) hcs (by decide) hkeep h.swapgs_out
  · have hnone : p.step = none := by
      rw [Processor.step, hidx]
      rfl
    rw [hnone] at hstep
    cases hstep

/-- `sysret` returns to the context of the entry. -/
theorem Inside.sysret (h : Inside p e 53) (hidx : p.index = some 53) (hflags : userFlags e.rflags)
    {p' : Processor} (hstep : p.step = some p') :
    Keeps p p' ∧ p'.index = none ∧ p'.regs.user = true ∧ Regs.entry p'.regs = e ∧
      p'.regs.rdx = (p'.sched.cpus ()).errno ∧ p'.msrs.kernelGsBase = p'.record := by
  have hv : p.step = p.execute 53 .sysret := step_eq hidx rfl
  obtain rfl := Option.some.inj (hstep.symm.trans hv)
  have huser : ((0x23 : Word) &&& 3 != 0) = true := by decide
  refine ⟨⟨rfl, rfl, rfl⟩, ?_, huser, ?_, ?_, h.userGs (by decide)⟩
  · rw [Processor.index, Regs.index, if_neg]
    rintro ⟨hcs, -⟩
    exact absurd (show (0x23 : Word) = 8 from hcs) (by decide)
  · obtain ⟨rsp, rip, rflags⟩ := e
    change (⟨p.regs.rsp, p.regs.rcx, p.regs.r11 &&& 0x3c7fd7 ||| 2⟩ : Entry) = ⟨rsp, rip, rflags⟩
    rw [h.userRsp (by decide), h.rcx (by decide), h.r11 (by decide), hflags]
  · exact (h.rdx (by decide)).trans (h.errno (by decide)).symm

/-! ### Handlers -/

theorem Inside.setErrno (h : Inside p e 54) : Inside (p.setErrno e.rsp) e 54 :=
  { h with errno := fun _ => rfl }

/-- INTERNAL: other memory with the two words that `syscall_main` needs. -/
theorem Inside.withMem (h : Inside p e k) {mem : Word → Word}
    (hmem : ∀ j, 1 ≤ j → j ≤ 2 → j ≤ depthAt k →
      mem (slot p.kernelStack j) = p.mem (slot p.kernelStack j)) :
    Inside { p with mem := mem } e k :=
  { h with
    savedRip := fun hk => (hmem 1 le_rfl (by decide) hk).trans (h.savedRip hk)
    savedFlags := fun hk => (hmem 2 (by decide) le_rfl hk).trans (h.savedFlags hk) }

/-- The frame of the handler does not contain the two words. -/
theorem Inside.frame (h : Inside p e 54) {i : ℕ} (hi : i < 22) (v : Word) :
    Inside { p with
      mem := Function.update p.mem (p.regs.rsp + BitVec.ofNat 64 (8 * i)) v } e 54 := by
  apply h.withMem
  intro j hj₁ hj₂ _
  have haddr : p.regs.rsp + BitVec.ofNat 64 (8 * i) = slot p.kernelStack (24 - i) := by
    rw [h.kernelRsp (by decide)]
    have hsplit : depthAt 54 = (24 - i) + i := by
      rw [Nat.sub_add_cancel (by omega)]
      decide
    rw [hsplit, slot_add]
  rw [haddr]
  exact Function.update_of_ne (slot_ne _ (by omega) (by omega) (by omega)) _ _

/-- The stack below the stack pointer can be used. -/
theorem Inside.scratch (h : Inside p e k) (hk : 3 ≤ k ∧ k ≤ 51 ∨ k = 54) {l : List Word}
    (hl : l.length ≤ 512) : Inside { p with mem := scribble p.mem p.regs.rsp l } e k := by
  have hdepth := depthAt_le k
  apply h.withMem
  intro j _ _ hj
  rw [h.kernelRsp hk]
  exact scribble_above p.mem p.kernelStack l hj (by omega)

theorem Inside.bases (h : Inside p e 54) (fs gs : Word) :
    Inside { p with msrs := { p.msrs with fsBase := fs, kernelGsBase := gs } } e 54 :=
  { h with userGs := fun hk => absurd hk (by decide) }

theorem Inside.ret (h : Inside p e 54) (r : Regs) (ss : Word) : Inside { p with
    regs := { r with rsp := p.regs.rsp, rip := p.address 31, cs := 8, ss := ss } } e 31 where
  userRsp hk := absurd hk (by decide)
  kernelRsp _ := h.kernelRsp (by decide)
  rcx hk := absurd hk (by decide)
  r11 hk := absurd hk (by decide)
  savedRip _ := h.savedRip (by decide)
  savedFlags _ := h.savedFlags (by decide)
  errno _ := h.errno (by decide)
  pid := h.pid
  rdx hk := absurd hk (by decide)
  gs _ := h.gs (by decide)
  userGs hk := absurd hk (by decide)
  masked hk := absurd hk (by decide)

/-- INTERNAL: another state of the scheduler with the same record. -/
theorem Inside.withSched (h : Inside p e k) {s : Sched Unit} (hs : s.cpus () = p.sched.cpus ()) :
    Inside { p with sched := s } e k :=
  { h with
    errno := fun hk => (congrArg Cpu.errno hs).trans (h.errno hk)
    pid := (congrArg (fun c => BitVec.ofInt 64 c.pid) hs).trans h.pid }

end Inside

/-! ## Interrupts -/

/-- The base of the kernel for code with the registers `r`. -/
def kernelBase (r : Regs) (m : Msrs) : Word := if r.user then m.kernelGsBase else m.gsBase

theorem swapFor_gsBase (r : Regs) (m : Msrs) : (m.swapFor r).gsBase = kernelBase r m := by
  unfold Msrs.swapFor kernelBase
  split_ifs <;> rfl

theorem kernelBase_swapFor (r : Regs) (m : Msrs) : kernelBase r (m.swapFor r) = m.gsBase := by
  unfold Msrs.swapFor kernelBase
  split_ifs <;> rfl

theorem swapFor_swapFor (r : Regs) (m : Msrs) : (m.swapFor r).swapFor r = m := by
  unfold Msrs.swapFor
  split_ifs <;> rfl

section Interrupt

variable {s : Sched Unit} {r : Regs} {m : Msrs} {junkTask : Task} {junk : Thread}

/-- What a reschedule does to the record and to the base of the kernel.
SRCLINE: kernel/sched/scheduler.cpp:121-218 -/
theorem reschedule_record :
    ((reschedule s () r m junkTask junk).2 = .resume m ∧
      (reschedule s () r m junkTask junk).1.cpus = s.cpus) ∨
    ∃ r' m', (reschedule s () r m junkTask junk).2 = .switchTask r' m' ∧
      kernelBase r' m' = kernelBase r m := by
  unfold reschedule
  generalize nextPid s.taskList = t
  obtain ⟨taskList, pid⟩ := t
  dsimp only
  by_cases hnone : pid = -1 ∧ (s.cpus ()).pid = -1
  · left
    rw [if_pos hnone, swapFor_swapFor]
    exact ⟨rfl, rfl⟩
  rw [if_neg hnone]
  generalize (if pid = -1 then (s.cpus ()).pid else pid) = pid
  generalize nextTid ((taskList.touch pid (Task.new junkTask)).data pid).threads = t
  obtain ⟨threads, tid⟩ := t
  dsimp only
  by_cases htid : tid = -1
  · left
    rw [if_pos htid, swapFor_swapFor]
    exact ⟨rfl, rfl⟩
  · right
    rw [if_neg htid]
    refine ⟨_, _, rfl, ?_⟩
    rw [kernelBase_swapFor]
    exact swapFor_gsBase r m

/-- INTERNAL: a reschedule keeps the invariant of the scheduler. -/
theorem reschedule_viewInv {log : List SchedEvent} (h : ViewInv (schedView s) log) (r : Regs)
    (m : Msrs) (junk : Thread)
    (hjunk : junkTask.status ≠ taskWaiting ∧ junkTask.status ≠ taskRunning) :
    ViewInv (schedView ((Traced.mk s log).exec (.reschedule () r m junkTask junk)).sched)
      ((Traced.mk s log).exec (.reschedule () r m junkTask junk)).log := by
  have hstep : schedStep (Traced.mk s log) (.reschedule () r m junkTask junk)
      ((Traced.mk s log).exec (.reschedule () r m junkTask junk)) := ⟨hjunk, rfl⟩
  exact viewInv_step h hstep

end Interrupt

/-! ## Runs -/

/-- The contexts that the events store are outside of `syscall_main`. -/
def StoredOutside (log : List SchedEvent) (codeBase : Word) : Prop :=
  ∀ ev ∈ log, ∀ pid tid ctx, SchedEvent.stored pid tid ev = some ctx →
    ctx.regs.index codeBase = none

/-- The invariant of the runs that meet the condition: preempted threads are outside of system calls,
the running one is where `Inside` says, and all returns have preserved the context. -/
structure SyscallInv (st : SyscallState) : Prop where
  view : ViewInv (schedView st.proc.sched) st.log
  stored : StoredOutside st.log st.proc.codeBase
  outside : st.proc.index = none → kernelBase st.proc.regs st.proc.msrs = st.proc.record
  inside : ∀ k, st.proc.index = some k →
    Inside st.proc (st.entries st.thread) k ∧ userFlags (st.entries st.thread).rflags
  returns : ∀ r ∈ st.returns, r.Preserved

theorem StoredOutside.lastStored {log : List SchedEvent} {base : Word} (h : StoredOutside log base)
    {pid tid : ℤ} {ctx : Context} (hlast : lastStored pid tid log = some ctx) :
    ctx.regs.index base = none := by
  unfold Interface.lastStored at hlast
  obtain ⟨ev, hev, hstored⟩ := List.mem_filterMap.mp (List.mem_of_getLast? hlast)
  exact h ev hev pid tid ctx hstored

theorem StoredOutside.append {log : List SchedEvent} {base : Word} (h : StoredOutside log base)
    {ev : SchedEvent} (hev : ∀ pid tid ctx, SchedEvent.stored pid tid ev = some ctx →
      ctx.regs.index base = none) : StoredOutside (log ++ [ev]) base := by
  intro ev' hin
  rcases List.mem_append.mp hin with hold | hnew
  · exact h ev' hold
  · rw [List.mem_singleton.mp hnew]
    exact hev

section Steps

variable {st st' : SyscallState}

/-- INTERNAL: a step inside of a system call that leaves the log and the returns alone. -/
theorem SyscallInv.move (h : SyscallInv st) {p : Processor} {k : ℕ} (hkeep : Keeps st.proc p)
    (hidx : p.index = some k) (hin : Inside p (st.entries st.thread) k)
    (hflags : userFlags (st.entries st.thread).rflags) : SyscallInv { st with proc := p } := by
  obtain ⟨hview, hbase, -⟩ := hkeep
  have hthread : SyscallState.thread { st with proc := p } = st.thread :=
    congrFun (congrArg View.current hview) ()
  refine ⟨hview.symm ▸ h.view, ?_, ?_, ?_, h.returns⟩
  · change StoredOutside st.log p.codeBase
    rw [hbase]
    exact h.stored
  · intro hnone
    cases hidx.symm.trans hnone
  · intro k' hk'
    obtain rfl := Option.some.inj (hidx.symm.trans hk')
    rw [hthread]
    exact ⟨hin, hflags⟩

theorem syscallInv_run (h : SyscallInv st) {regs : Regs} {mem : Word → Word}
    (hallowed : SyscallOp.Allowed st (.run regs mem)) (hexec : st.exec (.run regs mem) = some st') :
    SyscallInv st' := by
  obtain ⟨hidx, huser⟩ := hallowed
  unfold SyscallState.exec at hexec
  dsimp only at hexec
  split_ifs at hexec with hnone
  obtain rfl := Option.some.inj hexec
  refine ⟨h.view, h.stored, ?_, ?_, h.returns⟩
  · intro _
    change kernelBase regs st.proc.msrs = st.proc.record
    rw [← h.outside hnone, kernelBase, kernelBase, huser]
  · intro k hk
    cases hidx.symm.trans hk

/-- INTERNAL: the entry. -/
theorem syscall_inside {p p' : Processor} (hexec : p.syscall = some p')
    (hbase : kernelBase p.regs p.msrs = p.record)
    (hpid : p.regs.rsp = BitVec.ofInt 64 (p.sched.cpus ()).pid) :
    Keeps p p' ∧ p'.index = some 0 ∧ Inside p' (Regs.entry p.regs) 0 := by
  unfold Processor.syscall at hexec
  split_ifs at hexec with huser
  obtain rfl := Option.some.inj hexec
  rw [kernelBase, if_pos huser] at hbase
  refine ⟨⟨rfl, rfl, rfl⟩, ?_, ?_⟩
  · exact index_eq_some_iff.mpr ⟨rfl, by simp, by decide⟩
  · exact {
      userRsp := fun _ => rfl
      kernelRsp := fun hk => absurd hk (by decide)
      rcx := fun _ => rfl
      r11 := fun _ => rfl
      savedRip := fun hk => absurd hk (by decide)
      savedFlags := fun hk => absurd hk (by decide)
      errno := fun hk => absurd hk (by decide)
      pid := hpid.symm
      rdx := fun hk => absurd hk (by decide)
      gs := fun hk => absurd hk (by decide)
      userGs := fun _ => hbase
      masked := fun _ => by
        change (p.regs.rflags &&& ~~~0xfffffffd).getLsbD 9 = false
        simp }

theorem syscallInv_syscall (h : SyscallInv st) (hallowed : SyscallOp.Allowed st .syscall)
    (hsound : SyscallOp.Sound st .syscall) (hexec : st.exec .syscall = some st') :
    SyscallInv st' := by
  unfold SyscallState.exec at hexec
  dsimp only at hexec
  split_ifs at hexec with hnone
  obtain ⟨p, hp, rfl⟩ := Option.map_eq_some_iff.mp hexec
  obtain ⟨hkeep, hidx, hin⟩ := syscall_inside hp (h.outside hnone) hsound
  have hthread : ∀ entries, SyscallState.thread { st with proc := p, entries := entries } =
      st.thread := fun _ => congrFun (congrArg View.current hkeep.1) ()
  refine ⟨hkeep.1.symm ▸ h.view, ?_, ?_, ?_, h.returns⟩
  · change StoredOutside st.log p.codeBase
    rw [hkeep.2.1]
    exact h.stored
  · intro hout
    cases hidx.symm.trans hout
  · intro k hk
    obtain rfl := Option.some.inj (hidx.symm.trans hk)
    rw [hthread]
    change Inside p (Function.update st.entries st.thread (Regs.entry st.proc.regs) st.thread) 0 ∧
      userFlags (Function.update st.entries st.thread (Regs.entry st.proc.regs) st.thread).rflags
    rw [Function.update_self]
    exact ⟨hin, hallowed⟩

theorem syscallInv_instr (h : SyscallInv st) (hexec : st.exec .instr = some st') :
    SyscallInv st' := by
  obtain ⟨p, hp, rfl⟩ := Option.map_eq_some_iff.mp hexec
  cases hidx : st.proc.index with
  | none =>
    rw [Processor.step, hidx] at hp
    cases hp
  | some k =>
    obtain ⟨hin, hflags⟩ := h.inside k hidx
    by_cases hk : k = 53
    · subst hk
      obtain ⟨hkeep, hnone, huser, hentry, hrdx, hbase⟩ := hin.sysret hidx hflags hp
      refine ⟨hkeep.1.symm ▸ h.view, ?_, ?_, ?_, ?_⟩
      · change StoredOutside st.log p.codeBase
        rw [hkeep.2.1]
        exact h.stored
      · intro _
        change kernelBase p.regs p.msrs = p.record
        rw [kernelBase, if_pos huser]
        exact hbase
      · intro k hk
        cases hnone.symm.trans hk
      · intro r hr
        change r ∈ st.logReturn p at hr
        rw [SyscallState.logReturn, if_pos hnone] at hr
        rcases List.mem_cons.mp hr with rfl | hold
        · exact ⟨hentry, hrdx⟩
        · exact h.returns r hold
    · obtain ⟨hkeep, k', hidx', hin'⟩ := hin.instr hidx hk hp
      have hsame : st.logReturn p = st.returns := if_neg (by rw [hidx']; exact nofun)
      rw [hsame]
      exact h.move hkeep hidx' hin' hflags

theorem syscallInv_setErrno (h : SyscallInv st) {v : Word}
    (hsound : SyscallOp.Sound st (.setErrno v)) (hexec : st.exec (.setErrno v) = some st') :
    SyscallInv st' := by
  unfold SyscallState.exec at hexec
  dsimp only at hexec
  split_ifs at hexec with hcond
  obtain rfl := Option.some.inj hexec
  by_cases hidx : st.proc.index = some handlerIndex
  · obtain ⟨hin, hflags⟩ := h.inside _ hidx
    rw [hsound hidx]
    exact h.move ⟨rfl, rfl, rfl⟩ hidx hin.setErrno hflags
  · have hnone := (hcond.resolve_left hidx).1
    refine ⟨h.view, h.stored, fun _ => h.outside hnone, ?_, h.returns⟩
    intro k hk
    cases hnone.symm.trans hk

/-- The steps of a handler other than `set_errno`. -/
theorem syscallInv_handler (h : SyscallInv st) {op : SyscallOp} (hallowed : op.Allowed st)
    (hop : (∃ i v, op = .frame i v) ∨ (∃ l, op = .scratch l) ∨ (∃ fs gs, op = .bases fs gs) ∨
      ∃ regs, op = .ret regs) (hexec : st.exec op = some st') : SyscallInv st' := by
  obtain ⟨i, v, rfl⟩ | ⟨l, rfl⟩ | ⟨fs, gs, rfl⟩ | ⟨regs, rfl⟩ := hop <;>
    unfold SyscallState.exec at hexec <;> dsimp only at hexec <;> split_ifs at hexec with hidx <;>
    obtain rfl := Option.some.inj hexec
  · obtain ⟨hin, hflags⟩ := h.inside _ hidx.1
    exact h.move ⟨rfl, rfl, rfl⟩ hidx.1 (hin.frame hidx.2 v) hflags
  · obtain ⟨hin, hflags⟩ := h.inside _ hidx
    exact h.move ⟨rfl, rfl, rfl⟩ hidx (hin.scratch (Or.inr rfl) hallowed) hflags
  · obtain ⟨hin, hflags⟩ := h.inside _ hidx
    exact h.move ⟨rfl, rfl, rfl⟩ hidx (hin.bases fs gs) hflags
  · obtain ⟨hin, hflags⟩ := h.inside _ hidx
    refine h.move ⟨rfl, rfl, rfl⟩ ?_ (hin.ret regs st.proc.regs.ss) hflags
    exact index_eq_some_iff.mpr ⟨rfl, rfl, by decide⟩

/-- An interrupt that does not switch to another thread. -/
theorem syscallInv_resume (h : SyscallInv st) {l : List Word} {junkTask : Task} {junk : Thread}
    (hallowed : SyscallOp.Allowed st (.interrupt l junkTask junk))
    (hint : st.proc.regs.interruptible = true)
    (hout : (reschedule st.proc.sched () st.proc.regs.timerFrame st.proc.msrs junkTask junk).2 =
      .resume st.proc.msrs)
    (hcpus : (reschedule st.proc.sched () st.proc.regs.timerFrame st.proc.msrs junkTask junk).1.cpus =
      st.proc.sched.cpus)
    (hexec : st.exec (.interrupt l junkTask junk) = some st') : SyscallInv st' := by
  obtain ⟨hl, hjunk⟩ := hallowed
  obtain ⟨p, hp, rfl⟩ := Option.map_eq_some_iff.mp hexec
  have hview := reschedule_viewInv h.view st.proc.regs.timerFrame st.proc.msrs junk hjunk
  simp only [Traced.exec, hout] at hview ⊢
  rw [Processor.interrupt, if_pos hint] at hp
  simp only [hout] at hp
  obtain rfl := Option.some.inj hp
  refine ⟨hview, h.stored, fun hnone => h.outside hnone, ?_, h.returns⟩
  intro k hk
  have hidx : st.proc.index = some k := hk
  obtain ⟨hin, hflags⟩ := h.inside k hidx
  have hthread : SyscallState.thread { st with proc := { st.proc with
      sched := (reschedule st.proc.sched () st.proc.regs.timerFrame st.proc.msrs junkTask junk).1
      mem := if st.proc.regs.user = true then st.proc.mem
        else scribble st.proc.mem st.proc.regs.rsp l } } = st.thread := by
    simp only [SyscallState.thread, hcpus]
  -- interrupts are masked until the stack is set up and after the last use of it
  have hrange : 3 ≤ k ∧ k ≤ 51 ∨ k = 54 := by
    have hle := (index_eq_some_iff.mp hidx).2.2
    by_contra hnot
    have hmask := hin.masked (by omega)
    rw [hint] at hmask
    cases hmask
  have huser := index_not_user hidx
  rw [hthread]
  refine ⟨?_, hflags⟩
  simp only [huser, Bool.false_eq_true, if_false]
  exact (hin.scratch hrange hl).withSched (congrFun hcpus ())

/-- An interrupt outside of system calls that switches to another thread. -/
theorem syscallInv_switch (h : SyscallInv st) {l : List Word} {junkTask : Task} {junk : Thread}
    (hallowed : SyscallOp.Allowed st (.interrupt l junkTask junk)) (hnone : st.proc.index = none)
    (hint : st.proc.regs.interruptible = true) {r' : Regs} {m' : Msrs}
    (hout : (reschedule st.proc.sched () st.proc.regs.timerFrame st.proc.msrs junkTask junk).2 =
      .switchTask r' m')
    (hbase : kernelBase r' m' = kernelBase st.proc.regs.timerFrame st.proc.msrs)
    (hexec : st.exec (.interrupt l junkTask junk) = some st') : SyscallInv st' := by
  obtain ⟨-, hjunk⟩ := hallowed
  obtain ⟨p, hp, rfl⟩ := Option.map_eq_some_iff.mp hexec
  have hview := reschedule_viewInv h.view st.proc.regs.timerFrame st.proc.msrs junk hjunk
  simp only [Traced.exec, hout] at hview ⊢
  rw [Processor.interrupt, if_pos hint] at hp
  simp only [hout] at hp
  obtain rfl := Option.some.inj hp
  -- the context of the interrupted code is stored, and a stored one is loaded
  have hpreempted : StoredOutside (st.log ++
      (if (st.proc.sched.cpus ()).tid ≠ -1 ∧ (st.proc.sched.cpus ()).pid ≠ -1 then
        [SchedEvent.preempted (st.proc.sched.cpus ()).pid (st.proc.sched.cpus ()).tid
          (Context.of st.proc.regs.timerFrame st.proc.msrs)] else [])) st.proc.codeBase := by
    split_ifs
    · refine h.stored.append ?_
      intro pid tid ctx hctx
      simp only [SchedEvent.stored] at hctx
      split_ifs at hctx
      rw [← Option.some.inj hctx]
      exact hnone
    · rw [List.append_nil]
      exact h.stored
  have hloaded : r'.index st.proc.codeBase = none :=
    hpreempted.lastStored (hview.loads _ _ _ _ [] rfl)
  refine ⟨hview, ?_, ?_, ?_, h.returns⟩
  · refine hpreempted.append ?_
    intro pid tid ctx hctx
    cases hctx
  · intro _
    exact hbase.trans (h.outside hnone)
  · intro k hk
    cases hloaded.symm.trans hk

theorem syscallInv_interrupt (h : SyscallInv st) {l : List Word} {junkTask : Task} {junk : Thread}
    (hallowed : SyscallOp.Allowed st (.interrupt l junkTask junk))
    (hsound : SyscallOp.Sound st (.interrupt l junkTask junk))
    (hexec : st.exec (.interrupt l junkTask junk) = some st') : SyscallInv st' := by
  have hint : st.proc.regs.interruptible = true := by
    by_contra hnot
    obtain ⟨p, hp, -⟩ := Option.map_eq_some_iff.mp hexec
    rw [Processor.interrupt, if_neg hnot] at hp
    cases hp
  rcases reschedule_record (s := st.proc.sched) (r := st.proc.regs.timerFrame) (m := st.proc.msrs)
    with ⟨hout, hcpus⟩ | ⟨r', m', hout, hbase⟩
  · exact syscallInv_resume h hallowed hint hout hcpus hexec
  · cases hidx : st.proc.index with
    | none => exact syscallInv_switch h hallowed hidx hint hout hbase hexec
    | some k =>
      have hres := hsound (by rw [hidx]; exact nofun)
      rw [hout] at hres
      cases hres

/-- INTERNAL: another state of the scheduler with the same record, outside or inside of a system
call. -/
theorem SyscallInv.withSched (h : SyscallInv st) {s : Sched Unit} {log : List SchedEvent}
    (hview : ViewInv (schedView s) log) (hstored : StoredOutside log st.proc.codeBase)
    (hs : s.cpus () = st.proc.sched.cpus ()) :
    SyscallInv { st with proc := { st.proc with sched := s }, log := log } := by
  have hthread : SyscallState.thread { st with proc := { st.proc with sched := s }, log := log } =
      st.thread := by
    simp only [SyscallState.thread, hs]
  refine ⟨hview, hstored, h.outside, ?_, h.returns⟩
  intro k hk
  obtain ⟨hin, hflags⟩ := h.inside k hk
  rw [hthread]
  exact ⟨hin.withSched hs, hflags⟩

theorem syscallInv_create (h : SyscallInv st) {op : SchedOp Unit}
    (hallowed : SyscallOp.Allowed st (.create op)) (hexec : st.exec (.create op) = some st') :
    SyscallInv st' := by
  obtain rfl := Option.some.inj hexec
  cases op with
  | createTask ppid pageMap kernelMapping junk₁ junk₂ =>
    exact h.withSched (createTask_inv h.view ppid pageMap kernelMapping junk₂ hallowed) h.stored rfl
  | createThread pid rip cs highVma kernelStack mmapped envp argv junkTask junk =>
    obtain ⟨hjunk, hout⟩ := hallowed
    refine h.withSched
      (createThread_inv h.view pid rip cs highVma kernelStack mmapped envp argv junk hjunk) ?_ ?_
    · simp only [Traced.exec]
      split_ifs
      · exact h.stored
      · refine h.stored.append ?_
        intro pid' tid' ctx hctx
        simp only [SchedEvent.stored] at hctx
        split_ifs at hctx
        rw [← Option.some.inj hctx]
        exact hout
    · simp only [Traced.exec, createThread]
      split_ifs <;> rfl
  | reschedule c regs m junkTask junk => exact hallowed.elim

/-- **Every step that is allowed and meets the condition keeps the invariant.** -/
theorem syscallInv_step {op : SyscallOp} (h : SyscallInv st) (hstep : syscallStep st op st') :
    SyscallInv st' := by
  obtain ⟨⟨hallowed, hsound⟩, hexec⟩ := hstep
  cases op with
  | run regs mem => exact syscallInv_run h hallowed hexec
  | syscall => exact syscallInv_syscall h hallowed hsound hexec
  | instr => exact syscallInv_instr h hexec
  | setErrno v => exact syscallInv_setErrno h hsound hexec
  | frame i v => exact syscallInv_handler h hallowed (Or.inl ⟨i, v, rfl⟩) hexec
  | scratch l => exact syscallInv_handler h hallowed (Or.inr (Or.inl ⟨l, rfl⟩)) hexec
  | bases fs gs => exact syscallInv_handler h hallowed (Or.inr (Or.inr (Or.inl ⟨fs, gs, rfl⟩))) hexec
  | ret regs => exact syscallInv_handler h hallowed (Or.inr (Or.inr (Or.inr ⟨regs, rfl⟩))) hexec
  | interrupt l junkTask junk => exact syscallInv_interrupt h hallowed hsound hexec
  | create op => exact syscallInv_create h hallowed hexec

end Steps

theorem syscallInv_initial {st : SyscallState} (h : st.Initial) : SyscallInv st := by
  obtain ⟨⟨junk, cpus, hsched⟩, hlog, hreturns, hidx, hbase⟩ := h
  refine ⟨?_, ?_, fun _ => hbase, ?_, ?_⟩
  · rw [hsched, hlog]
    exact viewInv_init junk cpus
  · rw [hlog]
    exact nofun
  · intro k hk
    cases hidx.symm.trans hk
  · rw [hreturns]
    exact nofun

/-- **Returns preserve the context.** In every run in which threads enter the kernel with their `pid`
in `rsp`, handlers call `set_errno` with that value only, and no thread is dispatched between `sti`
and `cli`, every return to user mode gives the thread its `rsp`, `rip` and `rflags` back, and the
`errno` of the record in `rdx`.
SRCLINE: kernel/int/syscall.asm:79-122 -/
theorem syscalls_preserve_contexts {st st' : SyscallState} {ops : List SyscallOp}
    (hinit : st.Initial) (hrun : Run syscallStep st ops st') :
    ∀ r ∈ st'.returns, r.Preserved := by
  have hinv : SyscallInv st' := by
    refine hrun.invariant SyscallInv ?_ (syscallInv_initial hinit)
    intro s op t h hstep
    exact syscallInv_step h hstep
  exact hinv.returns

/-! ## Two threads -/

/-- A processor in kernel code that can be interrupted, before the first thread is created. -/
def idleProcessor : SyscallState where
  proc :=
    { regs := { zeroRegs with cs := 8, rip := 0x1000, rflags := 0x202 }
      msrs := ⟨0, 0xe000, 0⟩
      mem := fun _ => 0
      sched := Sched.init zeroTask fun _ => ⟨0, 0, 0, 0⟩
      userStack := 0
      kernelStack := 0x9000
      codeBase := 0x2000
      record := 0xe000 }
  log := []
  entries := fun _ => ⟨0, 0, 0⟩
  returns := []

/-- Two tasks with one user thread each, of which one is dispatched. -/
def startThreads : List SyscallOp :=
  [.create (.createTask (-1) none 0 zeroTask zeroTask),
    .create (.createThread 0 0x400000 0x23 0 0 0x7000 [] [] zeroTask zeroThread),
    .create (.createTask 0 none 0 zeroTask zeroTask),
    .create (.createThread 1 0x500000 0x23 0 0 0x7000 [] [] zeroTask zeroThread),
    .interrupt [1, 2, 3] zeroTask zeroThread]

/-- User code with the given registers and the number of a system call in `rax`. -/
def userRegs (rsp rip rax : Word) : Regs :=
  { zeroRegs with rsp := rsp, rip := rip, rax := rax, rflags := 0x202, cs := 0x23, ss := 0x1b }

/-- A call with the `pid` in `rsp` whose handler writes a result into its frame. -/
def usualCall : List SyscallOp :=
  startThreads ++ [.run (userRegs 0 0x400100 0) fun _ => 0, .syscall] ++
    List.replicate 31 .instr ++ [.setErrno 0, .frame 14 5, .ret zeroRegs] ++
    List.replicate 23 .instr

theorem idleProcessor_initial : idleProcessor.Initial :=
  ⟨⟨zeroTask, fun _ => ⟨0, 0, 0, 0⟩, rfl⟩, rfl, rfl, by decide, by decide⟩

theorem syscalls_preserve_contexts_usualCall : idleProcessor.Initial ∧ ∃ st,
    Run syscallStep idleProcessor usualCall st ∧
      st.returns = [⟨⟨0, 0x400100, 0x202⟩, ⟨0, 0x400100, 0x202⟩, 0, 0⟩] ∧
      ∀ r ∈ st.returns, r.Preserved := by
  have hinit : idleProcessor.Initial := idleProcessor_initial
  have hcall : (usualCall.foldlM
      (fun st op => if op.Allowed st ∧ op.Sound st then st.exec op else none) idleProcessor).map
      SyscallState.returns = some [⟨⟨0, 0x400100, 0x202⟩, ⟨0, 0x400100, 0x202⟩, 0, 0⟩] := by
    decide
  obtain ⟨st, hst, hreturns⟩ := Option.map_eq_some_iff.mp hcall
  have hrun : Run syscallStep idleProcessor usualCall st := Run.of_guarded hst
  exact ⟨hinit, st, hrun, hreturns, syscalls_preserve_contexts hinit hrun⟩

/-- A call that fails with `errno` 2. -/
def failingCall : List SyscallOp :=
  startThreads ++ [.run (userRegs 0x6000 0x400100 0) fun _ => 0, .syscall] ++
    List.replicate 31 .instr ++ [.setErrno 2, .ret zeroRegs] ++ List.replicate 23 .instr

/-- A thread is preempted while it pushes its context, and another one makes a whole call on the same
stack before the first goes on. Neither number is that of a handler. -/
def preemptedCall : List SyscallOp :=
  startThreads ++ [.run (userRegs 0x6000 0x400100 100) fun _ => 0, .syscall] ++
    List.replicate 10 .instr ++
    [.interrupt [] zeroTask zeroThread, .run (userRegs 0x5000 0x500100 100) fun _ => 0, .syscall] ++
    List.replicate 52 .instr ++ [.interrupt [] zeroTask zeroThread] ++ List.replicate 42 .instr

/-- Without the condition a failing call returns with `errno` as the stack of the thread, and a
preempted one returns to the code of another thread. -/
theorem syscall_returns_elsewhere : idleProcessor.Initial ∧
    (∃ st, Run (Guarded (fun st op => SyscallOp.Allowed st op) fun st op st' =>
        st.exec op = some st') idleProcessor failingCall st ∧
      st.returns = [⟨⟨0x6000, 0x400100, 0x202⟩, ⟨2, 0x400100, 0x202⟩, 0, 2⟩] ∧
      ¬ ∀ r ∈ st.returns, r.Preserved) ∧
    ∃ st, Run (Guarded (fun st op => SyscallOp.Allowed st op) fun st op st' =>
        st.exec op = some st') idleProcessor preemptedCall st ∧
      ∃ r ∈ st.returns, r.entered.rip = 0x400100 ∧ r.left.rip = 0x500100 := by
  have hfailing : (failingCall.foldlM
      (fun st op => if SyscallOp.Allowed st op then st.exec op else none) idleProcessor).map
      SyscallState.returns = some [⟨⟨0x6000, 0x400100, 0x202⟩, ⟨2, 0x400100, 0x202⟩, 0, 2⟩] := by
    decide
  have hpreempted : (preemptedCall.foldlM
      (fun st op => if SyscallOp.Allowed st op then st.exec op else none) idleProcessor).map
      (fun st => st.returns.any fun r =>
        decide (r.entered.rip = 0x400100 ∧ r.left.rip = 0x500100)) = some true := by
    decide +kernel
  obtain ⟨st, hst, hreturns⟩ := Option.map_eq_some_iff.mp hfailing
  obtain ⟨st₂, hst₂, hany⟩ := Option.map_eq_some_iff.mp hpreempted
  refine ⟨idleProcessor_initial, ⟨st, Run.of_guarded hst, hreturns, ?_⟩,
    st₂, Run.of_guarded hst₂, ?_⟩
  · rw [hreturns]
    decide
  · obtain ⟨r, hr, helsewhere⟩ := List.any_eq_true.mp hany
    exact ⟨r, hr, of_decide_eq_true helsewhere⟩

end CrepOS.Analysis
