import CrepOS.Interface.Ext2Run
import CrepOS.Analysis.Ext2Lookup

/-!
# Lookups that write

Every lookup copies the cached root inode, and the copy constructor writes it to the disk. The cached
copy is that of the time of mounting, since no call of a run changes it (`exec_rootInode`). So a lookup
leaves the device unchanged if and only if the root inode on the disk still is what it was then
(`lookup_quiet_iff`); after a file was created in the root directory it is not (`lookup_reverts_create`).
-/

set_option autoImplicit false

namespace CrepOS.Analysis

open CrepOS.Library CrepOS.Model CrepOS.Interface

variable {N : Type} {g : Ext2Super} {heap buf : Memory} {node : Ext2Node} {fs : Ext2}

/-! ## The cached root inode -/

/-- INTERNAL: a new disk, and the same cached inode. -/
theorem rootInode_withDisk (fs : Ext2) (disk : Memory) : ({ fs with disk := disk } : Ext2).rootInode = fs.rootInode :=
  rfl

theorem ext2Read_rootInode (off cnt : ℕ) : (ext2Read g heap fs node off cnt buf).1.rootInode = fs.rootInode := by
  rw [ext2Read]
  by_cases hoff : off > node.stSize
  · rw [if_pos hoff]
  · rw [if_neg hoff]
    obtain ⟨disk, raw, found⟩ := dirFind g heap fs.disk fs.rootInode node.relativePath
    cases raw with
    | none => rfl
    | some raw => rfl

theorem ext2Write_rootInode (off cnt : ℕ) :
    (ext2Write g heap fs node off cnt buf).1.rootInode = fs.rootInode := by
  rw [ext2Write]
  by_cases hoff : off > node.stSize
  · rw [if_pos hoff]
  · rw [if_neg hoff]
    obtain ⟨disk, raw, found⟩ := dirFind g heap fs.disk fs.rootInode node.relativePath
    cases raw with
    | none => rfl
    | some raw => exact rootInode_withDisk fs _

theorem ext2Create_rootInode : (ext2Create g heap fs node).1.rootInode = fs.rootInode := by
  rw [ext2Create]
  obtain ⟨disk, parent⟩ := openParent g heap fs node
  cases parent with
  | none => rfl
  | some parent => rfl

theorem ext2Open_rootInode (flags : ℕ) : (ext2Open g heap fs node flags).1.rootInode = fs.rootInode := by
  rw [ext2Open]
  by_cases hflags : flags &&& createFlag ≠ 0
  · rw [if_pos hflags]
    exact ext2Create_rootInode
  · rw [if_neg hflags]
    obtain ⟨disk, raw, found⟩ := dirFind g heap fs.disk fs.rootInode node.relativePath
    cases raw with
    | none => rfl
    | some raw => rfl

/-- **No call changes the cached root inode.** -/
theorem exec_rootInode [DecidableEq N] (s : Ext2System N) (call : Ext2Call N) :
    (call.exec g s).fs.rootInode = s.fs.rootInode := by
  cases call with
  | openNode heap n flags => exact ext2Open_rootInode flags
  | read heap n off cnt buf => exact ext2Read_rootInode off cnt
  | write heap n off cnt buf => exact ext2Write_rootInode off cnt

theorem run_rootInode [DecidableEq N] {s₀ s : Ext2System N} {calls : List (Ext2Call N)}
    (h₀ : s₀.Mounted g) (hrun : Run (ext2Step g) s₀ calls s) :
    s.fs.rootInode = readInode g s₀.fs.disk 2 := by
  apply Run.invariant (fun s => s.fs.rootInode = readInode g s₀.fs.disk 2) _ hrun
  · rw [h₀.2, mountExt2]
  · rintro s call s' hs rfl
    rw [exec_rootInode, hs]

/-! ## What a lookup writes -/

theorem ext2Read_disk {off cnt : ℕ} (hoff : ¬ node.stSize < off) :
    (ext2Read g heap fs node off cnt buf).1.disk = fs.rootInode.writeBack g fs.disk := by
  unfold ext2Read
  rw [if_neg hoff]
  dsimp only [dirFind]
  split
  · next heq =>
    obtain ⟨rfl, -⟩ := Prod.mk.inj heq
    rfl
  · next heq =>
    obtain ⟨rfl, -⟩ := Prod.mk.inj heq
    rfl

theorem ext2Open_disk {flags : ℕ} (hflags : flags &&& createFlag = 0) :
    (ext2Open g heap fs node flags).1.disk = fs.rootInode.writeBack g fs.disk := by
  unfold ext2Open
  rw [if_neg (not_not.mpr hflags)]
  dsimp only [dirFind]
  split
  · next heq =>
    obtain ⟨rfl, -⟩ := Prod.mk.inj heq
    rfl
  · next heq =>
    obtain ⟨rfl, -⟩ := Prod.mk.inj heq
    rfl

/-- **Writing the root inode of the time of mounting back** changes nothing if and only if it still is
what is on the disk. -/
theorem writeBack_eq_iff (mounted disk : Memory) :
    (readInode g mounted 2).writeBack g disk = disk ↔ RootInodeKept g mounted disk := by
  rw [Inode.writeBack, Memory.store_eq_self_iff, RootInodeKept]
  refine forall_congr' fun i => forall_congr' fun hi => ?_
  have hraw : (readInode g mounted 2).raw i = mounted (inodePos g mounted 2 + i) := Memory.load_of_lt hi
  rw [hraw]
  exact Iff.rfl

/-- **A lookup leaves the device unchanged**, after any calls, if and only if the root inode on the disk
is that of the time of mounting, or it is a read behind the end of the file.
SRCLINE: kernel/fs/ext2/inode.cpp:14-28, kernel/fs/ext2/dir.cpp:58-61, kernel/fs/ext2/ext2.cpp:98-115, 229-237 -/
theorem lookup_quiet_iff [DecidableEq N] (g : Ext2Super) (s₀ s : Ext2System N)
    (calls : List (Ext2Call N)) (h₀ : s₀.Mounted g) (hrun : Run (ext2Step g) s₀ calls s)
    (call : Ext2Call N) (hcall : call.IsLookup) :
    (call.exec g s).fs.disk = s.fs.disk ↔ call.Quiet g s₀.fs.disk s := by
  have hroot := run_rootInode h₀ hrun
  cases call with
  | openNode heap n flags =>
    have hdisk : ((Ext2Call.openNode heap n flags).exec g s).fs.disk =
        s.fs.rootInode.writeBack g s.fs.disk := ext2Open_disk hcall
    rw [hdisk, hroot]
    exact writeBack_eq_iff s₀.fs.disk s.fs.disk
  | read heap n off cnt buf =>
    by_cases hoff : (s.nodes n).stSize < off
    · have hsame : ((Ext2Call.read heap n off cnt buf).exec g s).fs.disk = s.fs.disk := by
        simp only [Ext2Call.exec, ext2Read, gt_iff_lt, if_pos hoff]
      exact iff_of_true hsame (Or.inl hoff)
    · have hdisk : ((Ext2Call.read heap n off cnt buf).exec g s).fs.disk =
          s.fs.rootInode.writeBack g s.fs.disk := ext2Read_disk hoff
      rw [hdisk, hroot, writeBack_eq_iff, Ext2Call.Quiet, or_iff_right hoff]
  | write heap n off cnt buf => cases hcall

/-! ## A file in the root directory -/

/-- A node for the new file `n` of the root directory, and one for the directory `a`. -/
def smallNodes (creates : Bool) : Ext2Node := ⟨if creates then [0x6e] else [0x61], [slash], [0x6e], 0⟩

/-- The small tree, mounted. -/
def smallSystem : Ext2System Bool := ⟨mountExt2 smallSuper smallTree, smallNodes⟩

theorem smallSystem_mounted : smallSystem.Mounted smallSuper := by
  refine ⟨?_, rfl⟩
  decide

/-- Opening the directory `a` after mounting. -/
theorem lookup_quiet_first :
    ((Ext2Call.openNode (fun _ => 0) false 0).exec smallSuper smallSystem).fs.disk =
      smallSystem.fs.disk :=
  (lookup_quiet_iff smallSuper smallSystem smallSystem [] smallSystem_mounted Run.nil
    (.openNode (fun _ => 0) false 0) rfl).mpr fun _ _ => rfl

/-- **A lookup takes back what a create did**: the count of links of the root directory.
SRCLINE: kernel/fs/ext2/ext2.cpp:199-200, 222-223, kernel/fs/ext2/inode.cpp:14-19 -/
theorem lookup_reverts_create : ∃ s,
    Run (ext2Step smallSuper) smallSystem [.openNode (fun _ => 0) true createFlag] s ∧
    ((Ext2Call.openNode (fun _ => 0) false 0).exec smallSuper s).fs.disk ≠ s.fs.disk := by
  refine ⟨_, Run.single rfl, ?_⟩
  intro hsame
  have hbefore : ((Ext2Call.openNode (fun _ => 0) true createFlag).exec smallSuper
      smallSystem).fs.disk 5274 = 4 := by decide
  have hafter : ((Ext2Call.openNode (fun _ => 0) false 0).exec smallSuper
      ((Ext2Call.openNode (fun _ => 0) true createFlag).exec smallSuper smallSystem)).fs.disk 5274 = 3 := by
    decide
  rw [hsame, hbefore] at hafter
  cases hafter

end CrepOS.Analysis
