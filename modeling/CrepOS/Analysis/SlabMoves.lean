import CrepOS.Analysis.SlabAlloc
import CrepOS.Interface.SlabMoves

/-!
# Moving a slab between lists

The slab is taken out of its list, but its own link to the next slab is reset only if the other list is empty. So the
rest of the one list comes to be on the other as well, unless there is none behind the slab.
-/

set_option autoImplicit false

namespace CrepOS.Analysis

open CrepOS.Library CrepOS.Model CrepOS.Interface

variable {x x' : SlabLists} {slabs : ℕ → Slab} {ds ss before behind : List ℕ} {s y head fuel : ℕ}

/-! ## The links after each step -/

/-- INTERNAL: what writing one link does to both. -/
theorem writeNext (a v : ℕ) :
    (fun t => (Function.update slabs a { slabs a with next := v } t).next) =
        Function.update (fun t => (slabs t).next) a v ∧
      (fun t => (Function.update slabs a { slabs a with next := v } t).last) = fun t => (slabs t).last := by
  refine ⟨Function.comp_update Slab.next slabs a _, ?_⟩
  exact (Function.comp_update Slab.last slabs a _).trans (Function.update_eq_self a _)

theorem writeLast (a v : ℕ) :
    (fun t => (Function.update slabs a { slabs a with last := v } t).last) =
        Function.update (fun t => (slabs t).last) a v ∧
      (fun t => (Function.update slabs a { slabs a with last := v } t).next) = fun t => (slabs t).next := by
  refine ⟨Function.comp_update Slab.last slabs a _, ?_⟩
  exact (Function.comp_update Slab.next slabs a _).trans (Function.update_eq_self a _)

/-- INTERNAL: the write to the slab behind. -/
theorem unlink_behind (slabs : ℕ → Slab) (s : ℕ) : ∃ slabs₁ : ℕ → Slab,
    (if (slabs s).next ≠ 0 then
      Function.update slabs (slabs s).next { slabs (slabs s).next with last := (slabs s).last } else slabs) = slabs₁ ∧
    (fun t => (slabs₁ t).next) = (fun t => (slabs t).next) ∧
    (fun t => (slabs₁ t).last) = unlinkLast 0 (fun t => (slabs t).next) (fun t => (slabs t).last) s := by
  unfold unlinkLast
  by_cases hn : (slabs s).next = 0
  · exact ⟨slabs, if_neg (not_not_intro hn), rfl, by rw [if_pos hn]⟩
  · exact ⟨_, if_pos hn, (writeLast _ _).2, by rw [if_neg hn]; exact (writeLast _ _).1⟩

/-- **The slab is unlinked.**
SRCLINE: kernel/mm/slab.cpp:108-111 -/
theorem unlinkSlab_links (h : LinkedSlabs slabs head (before ++ s :: behind)) :
    (fun t => (unlinkSlab slabs s t).next) =
        unlinkNext 0 (fun t => (slabs t).next) (fun t => (slabs t).last) s ∧
      (fun t => (unlinkSlab slabs s t).last) =
        unlinkLast 0 (fun t => (slabs t).next) (fun t => (slabs t).last) s := by
  obtain ⟨slabs₁, hfirst, hnext, hlast⟩ := unlink_behind slabs s
  have hnodup := h.chain.nodup
  have hs : s ∉ behind := fun hmem => (List.nodup_cons.mp (List.nodup_append.mp hnodup).2.1).1 hmem
  have hself : (slabs₁ s).last = (slabs s).last := (congrFun hlast s).trans (unlinkLast_outside h hs)
  unfold unlinkSlab
  dsimp only
  rw [hfirst, hself, show (slabs₁ s).next = (slabs s).next from congrFun hnext s]
  unfold unlinkNext
  by_cases hl : (slabs s).last = 0
  · rw [if_neg (not_not_intro hl), if_pos hl]
    exact ⟨hnext, hlast⟩
  · rw [if_pos hl, if_neg hl, (writeNext _ _).1, (writeNext _ _).2, hnext]
    exact ⟨rfl, hlast⟩

/-- INTERNAL: the link of the slab itself stays. -/
theorem unlinkSlab_self (h : LinkedSlabs slabs head (before ++ s :: behind)) :
    (unlinkSlab slabs s s).next = (slabs s).next := by
  have hs : s ∉ before := fun hmem => (List.nodup_append.mp h.chain.nodup).2.2 s hmem s List.mem_cons_self rfl
  exact (congrFun (unlinkSlab_links h).1 s).trans (unlinkNext_outside h hs)

/-- **The rest of the list** is well-formed, and a list apart from it has not changed. -/
theorem unlinkSlab_lists (h : TwoLists x ds (before ++ s :: behind)) :
    LinkedSlabs (unlinkSlab x.slabs s) (if x.src = s then (x.slabs s).next else x.src) (before ++ behind) ∧
      LinkedSlabs (unlinkSlab x.slabs s) x.dest ds := by
  obtain ⟨hnext, hlast⟩ := unlinkSlab_links h.src
  constructor
  · rw [LinkedSlabs, hnext, hlast]
    exact h.src.unlink
  · refine h.dest.congr (fun t ht => (congrFun hnext t).trans (unlinkNext_outside h.src fun hmem => ?_))
      fun t ht => (congrFun hlast t).trans (unlinkLast_outside h.src fun hmem => ?_)
    · exact h.apart ht (List.mem_append_left _ hmem)
    · exact h.apart ht (List.mem_append_right before (List.mem_cons_of_mem s hmem))

/-- INTERNAL: the links after the slab has been put behind another.
SRCLINE: kernel/mm/slab.cpp:125-126 -/
theorem linkSlab_links (slabs : ℕ → Slab) (s y : ℕ) :
    (fun t => (linkSlab slabs s y t).next) = Function.update (fun t => (slabs t).next) y s ∧
      (fun t => (linkSlab slabs s y t).last) = Function.update (fun t => (slabs t).last) s y := by
  unfold linkSlab
  dsimp only
  rw [(writeLast _ _).1, (writeLast _ _).2, (writeNext _ _).1, (writeNext _ _).2]
  exact ⟨rfl, rfl⟩

/-! ## The call -/

/-- INTERNAL: the call for a slab on the list, without the early return. -/
theorem moveSlabs_eq (h : LinkedSlabs x.slabs x.src (before ++ s :: behind)) : moveSlabs fuel x s =
    (if x.dest = 0 then some (⟨Function.update (unlinkSlab x.slabs s) s
        { unlinkSlab x.slabs s s with last := 0, next := 0 }, s, if x.src = s then (x.slabs s).next else x.src⟩, 0)
      else (lastNode 0 (fun t => (unlinkSlab x.slabs s t).next) fuel x.dest).map fun node =>
        (⟨linkSlab (unlinkSlab x.slabs s) s node, x.dest, if x.src = s then (x.slabs s).next else x.src⟩, 0)) := by
  have hs : s ≠ 0 := h.chain.ne_null (List.mem_append_right before List.mem_cons_self)
  have hsrc : x.src ≠ 0 := by
    cases before with
    | nil => exact fun hnull => hs (h.chain.1.symm.trans hnull)
    | cons t before => exact fun hnull => h.chain.2.1 (h.chain.1.symm.trans hnull)
  unfold moveSlabs
  dsimp only
  rw [if_neg (not_or.mpr ⟨hs, hsrc⟩), unlinkSlab_self h]

/-- INTERNAL: the lists are the ones that they should be. -/
theorem erase_split (h : (before ++ s :: behind).Nodup) : (before ++ s :: behind).erase s = before ++ behind := by
  have hs : s ∉ before := fun hmem => (List.nodup_append.mp h).2.2 s hmem s List.mem_cons_self rfl
  rw [List.erase_append_right _ hs, List.erase_cons_head]

/-- INTERNAL: moved to an empty list. -/
theorem moved_empty (h : TwoLists x [] (before ++ s :: behind)) : Moved x [] (before ++ s :: behind) s := by
  obtain ⟨hrest, -⟩ := unlinkSlab_lists h
  have hnodup := h.src.chain.nodup
  have hs : s ∉ before ++ behind := by
    have hmiddle := List.nodup_middle.mp hnodup
    exact (List.nodup_cons.mp hmiddle).1
  have hother : ∀ t ∈ before ++ behind, t ≠ s := fun t ht heq => hs (heq ▸ ht)
  refine ⟨0, _, by rw [moveSlabs_eq h.src, if_pos (show x.dest = 0 from h.dest.chain)], ?_⟩
  rw [erase_split hnodup]
  refine ⟨DoublyLinked.singleton (h.src.chain.ne_null (List.mem_append_right before List.mem_cons_self)) ?_ ?_, ?_, ?_⟩
  · dsimp only
    rw [Function.update_self]
  · dsimp only
    rw [Function.update_self]
  · refine hrest.congr (fun t ht => ?_) fun t ht => ?_
    · dsimp only
      rw [Function.update_of_ne (hother t ht)]
    · dsimp only
      rw [Function.update_of_ne (hother t ht)]
  · exact List.singleton_disjoint.mpr hs

/-- INTERNAL: the last slab of a list is moved to the end of another.
SRCLINE: kernel/mm/slab.cpp:122-128 -/
theorem moved_last (h : TwoLists x (ds ++ [y]) (before ++ [s])) : Moved x (ds ++ [y]) (before ++ [s]) s := by
  obtain ⟨hrest, hdest⟩ := unlinkSlab_lists h
  have hnodup := h.src.chain.nodup
  rw [List.append_nil] at hrest
  have hs : s ∉ before := fun hmem => (List.nodup_append.mp hnodup).2.2 s hmem s List.mem_cons_self rfl
  have hsd : s ∉ ds ++ [y] := fun hmem => h.apart hmem (List.mem_append_right before List.mem_cons_self)
  have hyb : y ∉ before := fun hmem =>
    h.apart (List.mem_append_right ds List.mem_cons_self) (List.mem_append_left _ hmem)
  have hend : (unlinkSlab x.slabs s s).next = 0 := (unlinkSlab_self h.src).trans h.src.chain.suffix.2.2
  have hnull : s ≠ 0 := h.src.chain.ne_null (List.mem_append_right before List.mem_cons_self)
  have hhead : x.dest ≠ 0 := by
    cases ds with
    | nil => exact fun hzero => hdest.chain.2.1 (hdest.chain.1.symm.trans hzero)
    | cons t ds => exact fun hzero => hdest.chain.2.1 (hdest.chain.1.symm.trans hzero)
  obtain ⟨hnext, hlast⟩ := linkSlab_links (unlinkSlab x.slabs s) s y
  refine ⟨ds.length + 1, _, by
    rw [moveSlabs_eq h.src, if_neg hhead, hdest.chain.lastNode (Nat.lt_succ_self ds.length), Option.map_some], ?_⟩
  rw [erase_split hnodup, List.append_nil]
  refine ⟨?_, ?_, ?_⟩
  · rw [LinkedSlabs, hnext, hlast]
    exact hdest.append hnull hsd hend
  · rw [LinkedSlabs, hnext, hlast]
    refine hrest.congr (fun t ht => Function.update_of_ne ?_ _ _) fun t ht => Function.update_of_ne ?_ _ _
    · exact fun heq => hyb (heq ▸ ht)
    · exact fun heq => hs (heq ▸ ht)
  · intro t ht hmem
    cases List.mem_append.mp ht with
    | inl hold => exact h.apart hold (List.mem_append_left _ hmem)
    | inr hnew => exact hs (List.mem_singleton.mp hnew ▸ hmem)

/-- INTERNAL: a slab that is moved to the end of a list keeps its link, which must be reset already.
SRCLINE: kernel/mm/slab.cpp:122-128 -/
theorem moved_nothing_behind (h : TwoLists x ds (before ++ s :: behind)) (hds : ds ≠ [])
    (hmoved : Moved x ds (before ++ s :: behind) s) : behind = [] := by
  obtain ⟨fuel, x', hrun, htwo⟩ := hmoved
  have hhead : x.dest ≠ 0 := by
    cases ds with
    | nil => exact absurd rfl hds
    | cons t ds => exact fun hzero => h.dest.chain.2.1 (h.dest.chain.1.symm.trans hzero)
  rw [moveSlabs_eq h.src, if_neg hhead, Option.map_eq_some_iff] at hrun
  obtain ⟨node, _, hx'⟩ := hrun
  have hslabs : x'.slabs = linkSlab (unlinkSlab x.slabs s) s node := by rw [← (Prod.mk.inj hx').1]
  have hend : (x'.slabs s).next = 0 := htwo.dest.chain.suffix.2.2
  rw [hslabs, congrFun (linkSlab_links (unlinkSlab x.slabs s) s node).1 s] at hend
  have hs : s ≠ 0 := h.src.chain.ne_null (List.mem_append_right before List.mem_cons_self)
  have hlast : (x.slabs s).next = 0 := by
    by_cases hnode : s = node
    · rw [hnode, Function.update_self] at hend
      exact absurd (hnode.trans hend) hs
    · rw [Function.update_of_ne hnode] at hend
      exact (unlinkSlab_self h.src).symm.trans hend
  have hbehind : Chain 0 (fun s => (x.slabs s).next) (x.slabs s).next behind := h.src.chain.suffix.2.2
  cases behind with
  | nil => rfl
  | cons t behind =>
    rw [hlast] at hbehind
    exact absurd hbehind.1.symm hbehind.2.1

/-- **A slab is moved if and only if the other list is empty or nothing is behind the slab.**
SRCLINE: kernel/mm/slab.cpp:104-129 -/
theorem moved_iff (h : TwoLists x ds ss) (hs : s ∈ ss) : Moved x ds ss s ↔ ds = [] ∨ ss.getLast? = some s := by
  obtain ⟨before, behind, rfl⟩ := List.append_of_mem hs
  constructor
  · intro hmoved
    by_cases hds : ds = []
    · exact Or.inl hds
    · rw [moved_nothing_behind h hds hmoved]
      exact Or.inr List.getLast?_concat
  · intro hcase
    cases List.eq_nil_or_concat ds with
    | inl hempty =>
      rw [hempty] at h ⊢
      exact moved_empty h
    | inr hsome =>
      obtain ⟨ds, y, rfl⟩ := hsome
      rw [List.concat_eq_append] at h hcase ⊢
      have hbehind : behind = [] := by
        cases List.eq_nil_or_concat behind with
        | inl hnil => exact hnil
        | inr hcons =>
          obtain ⟨behind, t, rfl⟩ := hcons
          have hlast := hcase.resolve_left (List.append_ne_nil_of_right_ne_nil ds (List.cons_ne_nil y []))
          rw [List.concat_eq_append, ← List.cons_append, ← List.append_assoc, List.getLast?_concat] at hlast
          have hnodup := (List.nodup_append.mp h.src.chain.nodup).2.1
          rw [List.concat_eq_append, Option.some.inj hlast] at hnodup
          exact absurd (List.mem_append_right behind List.mem_cons_self) (List.nodup_cons.mp hnodup).1
      rw [hbehind] at h ⊢
      exact moved_last h

/-! ## Lists of a cache -/

/-- INTERNAL: writing a head back. -/
theorem setHead_head (e : Cache) (l : SlabList) : e.setHead l (e.head l) = e := by
  cases l <;> rfl

/-- The heap with these headers, and these heads of two lists of the cache. -/
def withLists (h : Heap) (c : ℕ) (dest src : SlabList) (x : SlabLists) : Heap :=
  { h with
    slabs := x.slabs
    caches := Function.update h.caches c (((h.caches c).setHead src x.src).setHead dest x.dest) }

/-- INTERNAL: the heap after the slab has been unlinked. -/
theorem unlinkSlab_heap (h : Heap) (s : ℕ) :
    (let next := (h.slabs s).next
     let h := if next ≠ 0 then h.setSlab next { h.slabs next with last := (h.slabs s).last } else h
     let last := (h.slabs s).last
     if last ≠ 0 then h.setSlab last { h.slabs last with next := (h.slabs s).next } else h) =
    { h with slabs := unlinkSlab h.slabs s } := by
  unfold unlinkSlab Heap.setSlab
  dsimp only
  by_cases hn : (h.slabs s).next = 0
  · simp only [hn, ne_eq, not_true_eq_false, if_false]
    split <;> rfl
  · simp only [hn, ne_eq, not_false_eq_true, if_true]
    split <;> rfl

/-- **The call with two lists of a cache.**
SRCLINE: kernel/mm/slab.cpp:104-129 -/
theorem moveSlab_eq {h : Heap} {c s : ℕ} {dest src : SlabList} (hne : dest ≠ src) :
    moveSlab h c dest src s =
      (moveSlabs h.slabCnt ⟨h.slabs, (h.caches c).head dest, (h.caches c).head src⟩ s).map
        fun r => withLists h c dest src r.1 := by
  have hheap := unlinkSlab_heap h s
  dsimp only at hheap
  have hhead : ∀ v, ((h.caches c).setHead src v).head dest = (h.caches c).head dest :=
    fun v => head_setHead_of_ne (h.caches c) hne v
  have hback : ∀ v, ((h.caches c).setHead src v).setHead dest ((h.caches c).head dest) = (h.caches c).setHead src v := by
    intro v
    rw [← hhead v, setHead_head]
  unfold moveSlab moveSlabs
  dsimp only
  by_cases hearly : s = 0 ∨ (h.caches c).head src = 0
  · rw [if_pos hearly, if_pos hearly, Option.map_some, withLists]
    dsimp only
    rw [setHead_head, setHead_head, Function.update_eq_self]
  · rw [if_neg hearly, if_neg hearly, hheap]
    by_cases hsrc : (h.caches c).head src = s
    · simp only [Heap.setCache, Heap.setSlab, Heap.lastSlab, hsrc, if_true, Function.update_self, hhead]
      by_cases hdest : (h.caches c).head dest = 0
      · simp only [hdest, if_true, Option.map_some, withLists, Function.update_idem]
      · simp only [hdest, if_false, Option.map_map]
        cases lastNode 0 (fun t => (unlinkSlab h.slabs s t).next) h.slabCnt ((h.caches c).head dest) with
        | none => rfl
        | some node => simp only [Option.map_some, Function.comp, withLists, linkSlab, hback]
    · simp only [Heap.setCache, Heap.setSlab, Heap.lastSlab, hsrc, if_false]
      by_cases hdest : (h.caches c).head dest = 0
      · simp only [hdest, if_true, Option.map_some, withLists, setHead_head]
      · simp only [hdest, if_false, Option.map_map]
        cases lastNode 0 (fun t => (unlinkSlab h.slabs s t).next) h.slabCnt ((h.caches c).head dest) with
        | none => rfl
        | some node =>
          simp only [Option.map_some, Function.comp, withLists, linkSlab, setHead_head, Function.update_eq_self]
/-! ## A list of two slabs and one of one -/

/-- The slabs 1 and 2 are on one list, the slab 3 is on the other. -/
def threeSlabs : SlabLists where
  slabs s := ⟨256, 0, 0, 0, if s = 1 then 2 else 0, if s = 2 then 1 else 0⟩
  dest := 3
  src := 1

theorem threeSlabs_lists : TwoLists threeSlabs [3] [1, 2] where
  dest := ⟨⟨rfl, by decide, rfl⟩, rfl, trivial⟩
  src := ⟨⟨rfl, by decide, rfl, by decide, rfl⟩, rfl, rfl, trivial⟩
  apart := by simp

theorem threeSlabs_moved_iff : Moved threeSlabs [3] [1, 2] 2 ↔ [3] = [] ∨ [1, 2].getLast? = some 2 :=
  moved_iff threeSlabs_lists (by decide)

/-- When the slab 1 is moved, the slab 2 goes with it. -/
theorem first_slab_takes_second : ¬ ∀ (x : SlabLists) (ds ss : List ℕ) (s : ℕ), TwoLists x ds ss → s ∈ ss →
    Moved x ds ss s := by
  intro h
  have hnone := @moved_nothing_behind threeSlabs [3] [] [2] 1 threeSlabs_lists (by decide)
    (h threeSlabs [3] [1, 2] 1 threeSlabs_lists (by decide))
  cases hnone

end CrepOS.Analysis
