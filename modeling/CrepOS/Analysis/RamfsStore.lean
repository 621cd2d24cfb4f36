import CrepOS.Interface.ByteStore

/-!
# No file is ever made in memory

`node_list.remove` runs the destructor of the first node while that node is still in the vector, and the
destructor looks for a node of its path: it finds the node itself and calls `remove`. So `remove` of a
vector with nodes never returns (`removal_never_returns`), nor does the destructor of a node whose path
is in the vector. `open` with `o_creat` puts a node into `node_list` and then destroys its own copy. A
sequence of calls therefore acts as a store exactly when it makes no file (`ramfs_acts_as_store_iff`).
-/

set_option autoImplicit false

namespace CrepOS.Analysis

open CrepOS.Library CrepOS.Model CrepOS.Interface

variable {N P H : Type} [DecidableEq P] {path : N → P} {junk : ℕ → RamNode N}

/-! ## The destructor of a listed node -/

/-- INTERNAL: with a node in the vector, the destructor of the first node, `delete elements` and
`remove` call each other without end.
SRCLINE: kernel/fs/ramfs.cpp:46-50, kernel/lib/vector.hpp:124-144 -/
theorem removal_never_returns {list : LibVector (RamNode N)} {b : Block (RamNode N)} {first : RamNode N}
    (helements : list.elements = some b) (hfirst : b.read 0 = some first) (hsize : 0 < list.bufSize)
    (fuel : ℕ) :
    destroyNode path junk fuel list first 0 = none ∧ deleteNodes path junk fuel list = none ∧
      ∀ index ≤ list.bufSize, removeNode path junk fuel list index = none := by
  have hread : (list.block junk).read 0 = some first := by
    unfold LibVector.block
    rw [helements]
    exact hfirst
  induction fuel with
  | zero =>
    refine ⟨?_, ?_, fun index _ => ?_⟩
    · rw [destroyNode]
    · rw [deleteNodes]
    · rw [removeNode]
  | succ fuel ih =>
    obtain ⟨hdestroy, hdelete, hremove⟩ := ih
    refine ⟨?_, ?_, fun index hindex => ?_⟩
    · -- the first entry has the path of the first node
      rw [destroyNode, if_pos hsize, hread]
      simp only [Option.bind_eq_bind, Option.bind_some, if_true, hremove 0 (Nat.zero_le _),
        Option.bind_none]
    · rw [deleteNodes, helements]
      simp only [Option.bind_eq_bind, hfirst, Option.bind_some]
      exact hdestroy
    · rw [removeNode, if_neg (Nat.not_lt.mpr hindex)]
      simp only [Option.bind_eq_bind, hdelete, Option.bind_none, Option.bind_fun_none]

/-- INTERNAL: a new node in an empty vector.
SRCLINE: kernel/lib/vector.hpp:86-90 -/
theorem pushNode_empty (fuel : ℕ) (node : RamNode N) {list : LibVector (RamNode N)}
    (h : pushNode path junk fuel LibVector.empty node = some list) :
    ∃ b, list.elements = some b ∧ b.read 0 = some node ∧ list.bufSize = 1 := by
  cases fuel with
  | zero => cases h
  | succ fuel =>
    have hnone : destroyNodes path junk (fuel + 1) (LibVector.empty : LibVector (RamNode N)) 0 =
        some LibVector.empty := by
      rw [destroyNodes]
      rfl
    have hdelete : deleteNodes path junk (fuel + 1) (LibVector.empty : LibVector (RamNode N)) =
        some LibVector.empty := by
      rw [deleteNodes]
      rfl
    have hgrown : pushNode path junk (fuel + 1) LibVector.empty node =
        some ⟨some ⟨2, Function.update junk 0 node⟩, 1, 2⟩ := by
      unfold pushNode
      rw [hnone]
      simp only [Option.bind_eq_bind, Option.bind_some, hdelete]
      rfl
    rw [hgrown] at h
    cases h
    refine ⟨_, rfl, ?_, rfl⟩
    simp [Block.read]

/-- INTERNAL: making a file in an empty `node_list` never returns.
SRCLINE: kernel/fs/ramfs.cpp:72-77 -/
theorem create_never_returns (fuel : ℕ) {st : Ramfs N H} (hempty : st.nodeList = LibVector.empty)
    (vfsNode : N) {flags newBuf : ℕ} (hcreat : flags &&& 0x10 ≠ 0) :
    st.fsOpen path junk fuel vfsNode flags newBuf = none := by
  unfold Ramfs.fsOpen
  rw [if_pos hcreat, hempty]
  simp only [Option.bind_eq_bind]
  cases hpush : pushNode path junk fuel LibVector.empty (⟨vfsNode, newBuf⟩ : RamNode N) with
  | none => rfl
  | some list =>
    obtain ⟨b, helements, hfirst, hsize⟩ := pushNode_empty fuel _ hpush
    have hsize' : 0 < list.bufSize := by omega
    obtain ⟨hdestroy, -, -⟩ := @removal_never_returns N P _ path junk list b _ helements hfirst hsize' fuel
    rw [Option.bind_some, hdestroy, Option.bind_none]

/-! ## The other calls -/

/-- INTERNAL: in an empty `node_list` no node is found.
SRCLINE: kernel/fs/ramfs.cpp:8-16 -/
theorem vfs2ramfs_empty (path : N → P) (junk : ℕ → RamNode N) (vfsNode : N) :
    vfs2ramfs path junk (LibVector.empty : LibVector (RamNode N)) vfsNode = some none := rfl

/-- INTERNAL: a call that makes no file finds none, and changes nothing. -/
theorem call_without_nodes [DecidableEq N] (heap : BufferHeap H) (fuel : ℕ) {st : Ramfs N H}
    (hempty : st.nodeList = LibVector.empty) {call : StoreCall N} (hcreates : ¬ call.Creates) :
    call.run path junk heap fuel st = some (st, -1) := by
  have hfound : ∀ vfsNode, vfs2ramfs path junk st.nodeList vfsNode = some none := by
    intro vfsNode
    rw [hempty]
    exact vfs2ramfs_empty path junk vfsNode
  cases call with
  | openNode vfsNode flags newBuf =>
    have hflags : ¬ flags.toNat &&& 0x10 ≠ 0 := hcreates
    simp only [StoreCall.run, Ramfs.fsOpen, if_neg hflags, hfound]
    rfl
  | read vfsNode off cnt buf =>
    simp only [StoreCall.run, Ramfs.fsRead, hfound]
    rfl
  | write vfsNode off cnt buf =>
    simp only [StoreCall.run, Ramfs.fsWrite, hfound]
    rfl
  | unlink vfsNode =>
    simp only [StoreCall.run, Ramfs.fsUnlink, hfound]
    rfl

/-- INTERNAL: nor does the store find a string. -/
theorem store_without_strings (mem : Memory) {call : StoreCall N} (hcreates : ¬ call.Creates) :
    call.onStore path mem (fun _ => none) = (fun _ => none, -1, []) := by
  cases call with
  | openNode vfsNode flags newBuf => exact if_neg hcreates
  | read vfsNode off cnt buf => rfl
  | write vfsNode off cnt buf => rfl
  | unlink vfsNode => rfl

/-! ## Sequences of calls -/

/-- **`ramfs` acts as a store of byte strings exactly when no call is an `open` with `o_creat`**: for
all paths, heaps and sequences of calls from an empty `node_list`.
SRCLINE: kernel/fs/ramfs.cpp:56-97 -/
theorem ramfs_acts_as_store_iff [DecidableEq N] (path : N → P) (junk : ℕ → RamNode N)
    (heap : BufferHeap H) (stSize : N → ℤ) (mem : Memory) (h : H) (calls : List (StoreCall N)) :
    ActsAsStore path junk heap ⟨LibVector.empty, stSize, mem, h⟩ (fun _ => none) calls ↔
      ∀ call ∈ calls, ¬ call.Creates := by
  induction calls with
  | nil =>
    constructor
    · intro _ call hcall
      cases hcall
    · intro _
      trivial
  | cons call rest ih =>
    rw [List.forall_mem_cons]
    by_cases hcreates : call.Creates
    · refine ⟨fun hacts => ?_, fun hcond => absurd hcreates hcond.1⟩
      obtain ⟨fuel, st', ret, hrun, -⟩ := hacts
      cases call with
      | openNode vfsNode flags newBuf =>
        have hnone := @create_never_returns N P H _ path junk fuel
          ⟨LibVector.empty, stSize, mem, h⟩ rfl vfsNode flags.toNat newBuf hcreates
        exact absurd (hrun.symm.trans hnone) (Option.some_ne_none _)
      | read vfsNode off cnt buf => cases hcreates
      | write vfsNode off cnt buf => cases hcreates
      | unlink vfsNode => cases hcreates
    · have hstore := @store_without_strings N P _ path mem call hcreates
      have hcall := fun fuel => @call_without_nodes N P H _ path junk _ heap fuel
        ⟨LibVector.empty, stSize, mem, h⟩ rfl call hcreates
      constructor
      · rintro ⟨fuel, st', ret, hrun, -, hrest⟩
        rw [hcall fuel] at hrun
        cases hrun
        rw [hstore] at hrest
        exact ⟨hcreates, ih.mp hrest⟩
      · rintro ⟨-, hrest⟩
        refine ⟨0, _, _, hcall 0, ⟨?_, ?_⟩, ?_⟩
        · rw [hstore]
        · cases call with
          | read vfsNode off cnt buf => exact funext fun a => by simp [storeBytes, StoreCall.onStore]
          | _ => trivial
        · rw [hstore]
          exact ih.mpr hrest

/-- INTERNAL: a heap that gives one block after another. -/
def growingBuffers : BufferHeap ℕ where
  alloc h n := (h + n, h)
  realloc h mem _ n := (h + n, mem, h)

/-- A file is made and then opened: the first call does not return.
SRCLINE: kernel/fs/ramfs.cpp:46-54, 72-77 -/
theorem made_file_not_opened :
    ¬ ActsAsStore id (fun _ => ⟨0, 0⟩) growingBuffers ⟨LibVector.empty, fun _ => 0, fun _ => 0, 0x1000⟩
      (fun _ => none) [.openNode 7 0x10 0, .openNode 7 0 0] := by
  rintro ⟨fuel, st', ret, hrun, -⟩
  have hnone := @create_never_returns ℕ ℕ ℕ _ id (fun _ => ⟨0, 0⟩) fuel
    ⟨LibVector.empty, fun _ => 0, fun _ => 0, 0x1000⟩ rfl 7 0x10 0 (by decide)
  exact absurd (hrun.symm.trans hnone) (Option.some_ne_none _)

end CrepOS.Analysis
