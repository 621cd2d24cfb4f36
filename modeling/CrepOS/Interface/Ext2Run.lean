import CrepOS.Library.Run
import CrepOS.Model.Ext2

/-!
# Calls on a mounted ext2 file system

A run is made of calls of `fs::open`, `fs::read` and `fs::write` on some nodes. `Ext2Call.Quiet` is the
condition under which a lookup, which is a read or an open without `o_creat`, does not write to the
device.
-/

set_option autoImplicit false

namespace CrepOS.Interface

open CrepOS.Library CrepOS.Model

variable {N : Type}

/-- The file system and the nodes of the virtual file system. -/
structure Ext2System (N : Type) where
  fs : Ext2
  nodes : N → Ext2Node

/-- The calls. `heap` is what new buffers contain. -/
inductive Ext2Call (N : Type)
  | openNode (heap : Memory) (n : N) (flags : ℕ)
  | read (heap : Memory) (n : N) (off cnt : ℕ) (buf : Memory)
  | write (heap : Memory) (n : N) (off cnt : ℕ) (buf : Memory)

/-- What a call does. -/
def Ext2Call.exec [DecidableEq N] (g : Ext2Super) (s : Ext2System N) : Ext2Call N → Ext2System N
  | .openNode heap n flags =>
    let opened := ext2Open g heap s.fs (s.nodes n) flags
    ⟨opened.1, Function.update s.nodes n opened.2.1⟩
  | .read heap n off cnt buf => { s with fs := (ext2Read g heap s.fs (s.nodes n) off cnt buf).1 }
  | .write heap n off cnt buf =>
    let written := ext2Write g heap s.fs (s.nodes n) off cnt buf
    ⟨written.1, Function.update s.nodes n written.2.1⟩

/-- A call as a step. -/
def ext2Step [DecidableEq N] (g : Ext2Super) : Ext2System N → Ext2Call N → Ext2System N → Prop :=
  fun s call s' => call.exec g s = s'

/-- The file system was just mounted. -/
def Ext2System.Mounted (g : Ext2Super) (s : Ext2System N) : Prop :=
  readSuper g.sectorSize s.fs.disk = some g ∧ s.fs = mountExt2 g s.fs.disk

/-- The call is a read, or an open without `o_creat`. -/
def Ext2Call.IsLookup : Ext2Call N → Prop
  | .openNode _ _ flags => flags &&& createFlag = 0
  | .read _ _ _ _ _ => True
  | .write _ _ _ _ _ => False

/-- The bytes of the root inode on the disk are those that it had before. -/
def RootInodeKept (g : Ext2Super) (before disk : Memory) : Prop :=
  ∀ i < rawInodeSize, disk (inodePos g disk 2 + i) = before (inodePos g before 2 + i)

/-- **The condition on a lookup**: the root inode on the disk is as it was when the file system was
mounted, or the call is a read behind the end of the file. -/
def Ext2Call.Quiet (g : Ext2Super) (mounted : Memory) (s : Ext2System N) : Ext2Call N → Prop
  | .read _ n off _ _ => (s.nodes n).stSize < off ∨ RootInodeKept g mounted s.fs.disk
  | _ => RootInodeKept g mounted s.fs.disk

end CrepOS.Interface
