import CrepOS.Library.Run
import CrepOS.Model.Smp

/-!
# Runs of the boot of the processors

A step is a round of the loop of `boot_aps`, a processor that reads its parameters or sets the base of
`gs`, a later push, or a write to members of a record. The processors run at their own pace, so the steps
come in any order in which a processor has been sent the interrupts before it reads the parameters and
has read them before it sets the base.

`blocks` are the blocks that the vector has had; no other object of the heap is in them.
-/

set_option autoImplicit false

namespace CrepOS.Interface

open CrepOS.Library CrepOS.Model

/-- The boot, with the blocks of the vector and whether `boot_aps` has returned. -/
structure SmpSystem where
  smp : SmpState
  blocks : List (ℕ × ℕ)
  booted : Bool

inductive SmpOp
  | entry (current : BitVec 8) (e : Madt0) (stack high kernelMapping block : ℕ)
  | readParms (p : BitVec 8)
  | bootstrap (p : BitVec 8)
  | push (r : SmpCpu) (block : ℕ)
  | write (a : ℕ) (r : SmpCpu)

/-- The blocks after a push. -/
def SmpSystem.blocksAfter (s : SmpSystem) (block : ℕ) : List (ℕ × ℕ) :=
  if s.smp.cpus.bufSize + 1 ≤ s.smp.cpus.bufCap then s.blocks
  else (block, (s.smp.cpus.bufSize + 1) * 2) :: s.blocks

/-- What a step does. -/
def SmpSystem.exec (s : SmpSystem) : SmpOp → SmpSystem
  | .entry current e stack high kernelMapping block =>
    { s with
      smp := s.smp.bootEntry current e stack high kernelMapping block
      blocks := s.blocksAfter block }
  | .readParms p => { s with smp := s.smp.readParms p }
  | .bootstrap p => { s with smp := s.smp.bootstrap p }
  | .push r block =>
    { s with
      smp := s.smp.push r block
      blocks := s.blocksAfter block
      booted := true }
  | .write a r => { s with smp := { s.smp with records := Function.update s.smp.records a r } }

/-- The block that `new` returns, if the vector grows, is on the heap and apart from the other ones. -/
def SmpSystem.Fresh (s : SmpSystem) (block : ℕ) : Prop :=
  s.smp.cpus.bufSize + 1 ≤ s.smp.cpus.bufCap ∨
    block + (s.smp.cpus.bufSize + 1) * 2 * smpCpuSize ≤ 2 ^ 64 ∧
      ∀ b ∈ s.blocks, block + (s.smp.cpus.bufSize + 1) * 2 * smpCpuSize ≤ b.1 ∨
        b.1 + b.2 * smpCpuSize ≤ block

/-- When a step may be taken. Other pushes come after `boot_aps`, and nothing writes to `user_stack`. -/
def SmpOp.Allowed (s : SmpSystem) : SmpOp → Prop
  | .entry _ _ _ _ _ block => s.booted = false ∧ s.Fresh block
  | .readParms p => s.smp.sent p = true
  | .bootstrap p => s.smp.coreIndex p ≠ none
  | .push _ block => s.Fresh block
  | .write a r => r.userStack = (s.smp.records a).userStack

/-- The steps. -/
def smpStep : SmpSystem → SmpOp → SmpSystem → Prop :=
  Guarded (fun s op => op.Allowed s) fun s op t => s.exec op = t

/-- Before `boot_aps`: the vector is empty and no processor has been started. -/
def SmpSystem.Initial (s : SmpSystem) : Prop :=
  s.smp.cpus = ⟨0, 0, 0⟩ ∧ s.smp.entries = [] ∧ s.smp.parms = none ∧ s.blocks = [] ∧
    s.booted = false ∧ ∀ p, s.smp.sent p = false ∧ s.smp.coreIndex p = none ∧ s.smp.gsBase p = none

/-- On the processor `p`, `core_local` returns the record that the vector holds at `i`. -/
def ReturnsOwn (s : SmpState) (p : BitVec 8) (i : ℕ) : Prop :=
  s.coreLocal p = some (s.cpus.address i)

end CrepOS.Interface
