import CrepOS.Interface.MapBindings

/-!
# Maps as finite maps

The entries of the two vectors are the list of pairs of `LibMap`, and the operations of the vectors are
those of the list of pairs. The loop of `remove` needs this for every position it is at: what is behind
the position is a list of pairs of its own, from which `removeEntry` removes.
-/

set_option autoImplicit false

namespace CrepOS.Analysis

open CrepOS.Model CrepOS.Interface

/-- The two vectors are in step: no tag is there twice, and each has its value. -/
structure InStepVectors {F T : Type} (m : MapVectors F T) : Prop where
  distinct : m.tags.Nodup
  length : m.tags.length = m.data.length

variable {F T : Type} [DecidableEq F] {d : T} {m : MapVectors F T} {k : F} {v : T}

omit [DecidableEq F] in
theorem InStepVectors.entries_tags (h : InStepVectors m) : (entries m).map Prod.fst = m.tags :=
  List.map_fst_zip (Nat.le_of_eq h.length)

omit [DecidableEq F] in
theorem InStepVectors.entries_length (h : InStepVectors m) : (entries m).length = m.tags.length := by
  rw [← h.entries_tags, List.length_map]

/-! ## `operator[]` -/

/-- INTERNAL: the position that `operator[]` finds. -/
theorem place_cases (d : T) (m : MapVectors F T) (k : F) :
    (∃ i, ∃ hi : i < m.tags.length, m.place d k = (m, i) ∧ m.tags[i] = k) ∨
      m.place d k = (⟨m.tags ++ [k], m.data ++ [d]⟩, m.data.length) ∧ k ∉ m.tags := by
  cases hfind : m.tags.findIdx? (· = k) with
  | some i =>
    obtain ⟨hi, htag, -⟩ := List.findIdx?_eq_some_iff_getElem.mp hfind
    refine Or.inl ⟨i, hi, ?_, of_decide_eq_true htag⟩
    rw [MapVectors.place, hfind]
  | none =>
    refine Or.inr ⟨?_, ?_⟩
    · rw [MapVectors.place, hfind]
    · intro hmem
      have hne := List.findIdx?_eq_none_iff.mp hfind k hmem
      simp at hne

/-- INTERNAL: the value of a tag is the one at its position. -/
theorem lookupEntry_getElem {l : List (F × T)} (hnodup : (l.map Prod.fst).Nodup) {i : ℕ}
    (hi : i < l.length) : lookupEntry l[i].1 l = some l[i].2 := by
  induction l generalizing i with
  | nil => exact absurd hi (Nat.not_lt_zero i)
  | cons entry rest ih =>
    rw [List.map_cons, List.nodup_cons] at hnodup
    cases i with
    | zero => simp [lookupEntry]
    | succ i =>
      have hi' : i < rest.length := Nat.lt_of_succ_lt_succ hi
      have hne : entry.1 ≠ rest[i].1 := by
        intro heq
        apply hnodup.1
        rw [heq]
        exact List.mem_map_of_mem (List.getElem_mem hi')
      rw [List.getElem_cons_succ, lookupEntry, if_neg hne]
      exact ih hnodup.2 hi'

/-- INTERNAL: a tag that is not there has no value. -/
theorem lookupEntry_of_notMem {l : List (F × T)} (h : k ∉ l.map Prod.fst) : lookupEntry k l = none := by
  induction l with
  | nil => rfl
  | cons entry rest ih =>
    rw [List.map_cons, List.mem_cons, not_or] at h
    rw [lookupEntry, if_neg (Ne.symm h.1)]
    exact ih h.2

theorem InStepVectors.place (h : InStepVectors m) : InStepVectors (m.place d k).1 := by
  rcases place_cases d m k with ⟨i, hi, hplace, -⟩ | ⟨hplace, hnew⟩
  · rw [hplace]
    exact h
  · rw [hplace]
    refine ⟨?_, ?_⟩
    · apply List.nodup_append.mpr
      refine ⟨h.distinct, List.nodup_singleton k, ?_⟩
      intro a ha b hb
      rw [List.mem_singleton.mp hb]
      rintro rfl
      exact hnew ha
    · simp only [List.length_append, List.length_singleton, h.length]

omit [DecidableEq F] in
/-- INTERNAL: the entry at the place of a tag. -/
theorem entry_place (h : InStepVectors m) {i : ℕ} (hi : i < m.tags.length) (htag : m.tags[i] = k) :
    ∃ (hlen : i < (entries m).length) (hdata : i < m.data.length), (entries m)[i] = (k, m.data[i]) := by
  have hlen : i < (entries m).length := by
    rw [h.entries_length]
    exact hi
  have hdata : i < m.data.length := by
    rw [← h.length]
    exact hi
  refine ⟨hlen, hdata, ?_⟩
  rw [← htag]
  exact List.getElem_zip

/-- **`m[k]` returns the value of `k`**, and the default value if there is none.
SRCLINE: kernel/lib/map.hpp:52-62 -/
theorem read_value (h : InStepVectors m) : (m.read d k).2 = some ((bindings m k).getD d) := by
  rcases place_cases d m k with ⟨i, hi, hplace, htag⟩ | ⟨hplace, hnew⟩
  · obtain ⟨hlen, hdata, hentry⟩ := entry_place h hi htag
    have hvalue := lookupEntry_getElem (h.entries_tags ▸ h.distinct) hlen
    rw [hentry] at hvalue
    rw [MapVectors.read, hplace, bindings, hvalue]
    exact List.getElem?_eq_getElem _
  · have hnone : bindings m k = none := lookupEntry_of_notMem (h.entries_tags ▸ hnew)
    rw [MapVectors.read, hplace, hnone]
    simp

/-! ## `m[k] = v` -/

/-- INTERNAL: the entries after `m[k] = v`. -/
theorem setEntry_append {l : List (F × T)} (h : k ∉ l.map Prod.fst) :
    setEntry k v l = l ++ [(k, v)] := by
  induction l with
  | nil => rfl
  | cons entry rest ih =>
    rw [List.map_cons, List.mem_cons, not_or] at h
    rw [setEntry, if_neg (Ne.symm h.1), ih h.2]
    rfl

theorem setEntry_getElem {l : List (F × T)} (hnodup : (l.map Prod.fst).Nodup) {i : ℕ}
    (hi : i < l.length) : setEntry l[i].1 v l = l.set i (l[i].1, v) := by
  induction l generalizing i with
  | nil => exact absurd hi (Nat.not_lt_zero i)
  | cons entry rest ih =>
    rw [List.map_cons, List.nodup_cons] at hnodup
    cases i with
    | zero => simp [setEntry]
    | succ i =>
      have hi' : i < rest.length := Nat.lt_of_succ_lt_succ hi
      have hne : entry.1 ≠ rest[i].1 := by
        intro heq
        apply hnodup.1
        rw [heq]
        exact List.mem_map_of_mem (List.getElem_mem hi')
      rw [List.getElem_cons_succ, setEntry, if_neg hne, ih hnodup.2 hi', List.set_cons_succ]

/-- **`m[k] = v` on the vectors is the assignment on the pairs.**
SRCLINE: kernel/lib/map.hpp:52-62 -/
theorem entries_assign (h : InStepVectors m) : entries (m.assign d k v) = setEntry k v (entries m) := by
  rcases place_cases d m k with ⟨i, hi, hplace, htag⟩ | ⟨hplace, hnew⟩
  · obtain ⟨hlen, hdata, hentry⟩ := entry_place h hi htag
    have hset := @setEntry_getElem _ _ _ v _ (h.entries_tags ▸ h.distinct) i hlen
    rw [hentry] at hset
    rw [hset, MapVectors.assign, hplace]
    apply List.ext_getElem
    · simp [entries]
    · intro j hj hj'
      simp only [entries, List.getElem_zip, List.getElem_set]
      by_cases hij : i = j
      · subst hij
        simp [htag]
      · simp [hij]
  · rw [setEntry_append (h.entries_tags ▸ hnew), MapVectors.assign, hplace]
    simp only [entries, List.set_append_right _ _ (Nat.le_refl _), Nat.sub_self, List.set_cons_zero]
    rw [List.zip_append h.length]
    rfl

theorem InStepVectors.assign (h : InStepVectors m) : InStepVectors (m.assign d k v) := by
  have hplace := @InStepVectors.place _ _ _ d m k h
  exact ⟨hplace.distinct, by simp only [MapVectors.assign, List.length_set]; exact hplace.length⟩

/-- INTERNAL: reading a value enters it. -/
theorem entries_read (h : InStepVectors m) :
    entries (m.read d k).1 = setEntry k ((bindings m k).getD d) (entries m) := by
  rcases place_cases d m k with ⟨i, hi, hplace, htag⟩ | ⟨hplace, hnew⟩
  · obtain ⟨hlen, hdata, hentry⟩ := entry_place h hi htag
    have hnodup : ((entries m).map Prod.fst).Nodup := h.entries_tags ▸ h.distinct
    have hvalue := lookupEntry_getElem hnodup hlen
    have hset := @setEntry_getElem _ _ _ (entries m)[i].2 _ hnodup i hlen
    rw [List.set_getElem_self, hentry] at hset
    rw [hentry] at hvalue
    rw [MapVectors.read, hplace, bindings, hvalue]
    exact hset.symm
  · have hnone : bindings m k = none := lookupEntry_of_notMem (h.entries_tags ▸ hnew)
    rw [MapVectors.read, hplace, hnone, setEntry_append (h.entries_tags ▸ hnew)]
    simp only [entries]
    rw [List.zip_append h.length]
    rfl

/-! ## `remove` -/

/-- INTERNAL: the loop of `remove` leaves what it has passed and removes from what is to come. -/
theorem entries_removeFrom (k : F) (m : MapVectors F T) (i : ℕ) (hlen : m.tags.length = m.data.length) :
    entries (MapVectors.removeFrom k m i) =
        (entries m).take i ++ removeEntry k ((entries m).drop i) ∧
      (MapVectors.removeFrom k m i).tags.length = (MapVectors.removeFrom k m i).data.length := by
  have hzip : (entries m).length = m.tags.length := by simp [entries, hlen]
  fun_induction MapVectors.removeFrom k m i with
  | case1 m i hi htag ih =>
    have hdata : i < m.data.length := hlen ▸ hi
    have herase : entries ⟨m.tags.eraseIdx i, m.data.eraseIdx i⟩ = (entries m).eraseIdx i := by
      simp only [entries, List.eraseIdx_eq_take_drop_succ]
      rw [List.zip_append (by simp [hlen])]
      simp only [List.zip_eq_zipWith, List.take_zipWith, List.drop_zipWith]
    have hlen' : (m.tags.eraseIdx i).length = (m.data.eraseIdx i).length := by
      rw [List.length_eraseIdx_of_lt hi, List.length_eraseIdx_of_lt hdata, hlen]
    obtain ⟨hentries, hsame⟩ := ih hlen' (by rw [herase, List.length_eraseIdx_of_lt (hzip ▸ hi), hzip, List.length_eraseIdx_of_lt hi])
    refine ⟨?_, hsame⟩
    have hhead : (entries m).drop i = (k, m.data[i]) :: (entries m).drop (i + 1) := by
      rw [List.drop_eq_getElem_cons (hzip ▸ hi)]
      simp only [entries, List.getElem_zip, htag]
    rw [hentries, herase, hhead, List.eraseIdx_eq_take_drop_succ]
    have htake : ((entries m).take i).length = i := by
      rw [List.length_take, hzip]
      omega
    -- the entry behind the removed one is not looked at
    cases hrest : (entries m).drop (i + 1) with
    | nil =>
      rw [List.append_nil, List.take_of_length_le (by omega), List.drop_of_length_le (by omega)]
      simp [removeEntry]
    | cons next rest =>
      rw [removeEntry, if_pos rfl, List.take_append, List.drop_append, htake, List.take_of_length_le (by omega),
        List.drop_of_length_le (by omega)]
      simp
  | case2 m i hi htag ih =>
    obtain ⟨hentries, hsame⟩ := ih hlen hzip
    refine ⟨?_, hsame⟩
    have hdata : i < m.data.length := hlen ▸ hi
    have hhead : (entries m).drop i = (m.tags[i], m.data[i]) :: (entries m).drop (i + 1) := by
      rw [List.drop_eq_getElem_cons (hzip ▸ hi)]
      simp only [entries, List.getElem_zip]
    have htake : (entries m).take (i + 1) = (entries m).take i ++ [(m.tags[i], m.data[i])] := by
      rw [List.take_succ_eq_append_getElem (hzip ▸ hi)]
      simp only [entries, List.getElem_zip]
    rw [hentries, hhead, htake]
    cases hrest : (entries m).drop (i + 1) with
    | nil => simp [removeEntry, htag]
    | cons next rest =>
      rw [removeEntry, if_neg htag, List.append_assoc]
      rfl
  | case3 m i hi =>
    refine ⟨?_, hlen⟩
    rw [List.take_of_length_le (by omega), List.drop_of_length_le (by omega), removeEntry,
      List.append_nil]

/-- **`remove` on the vectors is the removal from the pairs.**
SRCLINE: kernel/lib/map.hpp:64-72 -/
theorem entries_remove (h : InStepVectors m) : entries (m.remove k) = removeEntry k (entries m) := by
  rw [MapVectors.remove, (entries_removeFrom k m 0 h.length).1]
  rfl

theorem InStepVectors.remove (h : InStepVectors m) : InStepVectors (m.remove k) := by
  have hlen := (entries_removeFrom k m 0 h.length).2
  refine ⟨?_, hlen⟩
  have htags : (entries (m.remove k)).map Prod.fst = (m.remove k).tags :=
    List.map_fst_zip (Nat.le_of_eq hlen)
  rw [← htags, entries_remove h]
  exact (h.entries_tags ▸ h.distinct : ((entries m).map Prod.fst).Nodup).sublist
    ((removeEntry_sublist k (entries m)).map Prod.fst)

/-- **`remove` deletes exactly the entry of its tag.** -/
theorem removeEntry_eq_filter {l : List (F × T)} (hnodup : (l.map Prod.fst).Nodup) :
    removeEntry k l = l.filter fun entry => entry.1 ≠ k := by
  fun_induction removeEntry k l with
  | case1 => rfl
  | case2 value => simp
  | case3 tag value hne => simp [hne]
  | case4 value next rest ih =>
    simp only [List.map_cons, List.nodup_cons, List.mem_cons, not_or] at hnodup
    obtain ⟨⟨hnext, -⟩, -, hrest⟩ := hnodup
    rw [ih hrest]
    simp [Ne.symm hnext]
  | case5 tag value next rest hne ih =>
    rw [List.map_cons, List.nodup_cons] at hnodup
    rw [ih hnodup.2]
    simp [List.filter_cons, hne]

/-! ## The run -/

/-- INTERNAL: one operation keeps the vectors in step and acts as on the finite map. -/
theorem exec_bindings (h : InStepVectors m) (op : MapOp F T) :
    InStepVectors (op.exec d m) ∧ bindings (op.exec d m) = op.onBindings d (bindings m) := by
  have hnodup : ((entries m).map Prod.fst).Nodup := h.entries_tags ▸ h.distinct
  cases op with
  | assign k v =>
    refine ⟨h.assign, ?_⟩
    funext j
    simp only [MapOp.exec, MapOp.onBindings, bindings, entries_assign h, lookupEntry_setEntry,
      Function.update_apply]
  | read k =>
    refine ⟨h.place, ?_⟩
    funext j
    simp only [MapOp.exec, MapOp.onBindings, bindings, entries_read h, lookupEntry_setEntry,
      Function.update_apply]
  | remove k =>
    refine ⟨h.remove, ?_⟩
    funext j
    simp only [MapOp.exec, MapOp.onBindings, bindings, entries_remove h,
      lookupEntry_removeEntry k j hnodup, Function.update_apply]

/-- INTERNAL: a run of operations, from any vectors in step. -/
theorem run_bindings (ops : List (MapOp F T)) (h : InStepVectors m) :
    InStepVectors (ops.foldl (MapOp.exec d) m) ∧
      bindings (ops.foldl (MapOp.exec d) m) = ops.foldl (MapOp.onBindings d) (bindings m) := by
  induction ops generalizing m with
  | nil => exact ⟨h, rfl⟩
  | cons op ops ih =>
    obtain ⟨hstep, hbindings⟩ := @exec_bindings _ _ _ d m h op
    obtain ⟨hin, heq⟩ := ih hstep
    refine ⟨hin, ?_⟩
    rw [List.foldl_cons, heq, hbindings]
    rfl

/-- **A map is a finite map.** After any operations on an empty map the tags are distinct and each has
its value; `m[k]` returns the value of `k` in the finite map, or the default value, which it enters; and
`remove` deletes the entry of its tag and no other.
SRCLINE: kernel/lib/map.hpp:52-72 -/
theorem map_is_finite_map (d : T) (ops : List (MapOp F T)) :
    let m := ops.foldl (MapOp.exec d) MapVectors.empty
    let f := ops.foldl (MapOp.onBindings d) fun _ => none
    InStepVectors m ∧ bindings m = f ∧ ∀ k,
      (m.read d k).2 = some ((f k).getD d) ∧
      bindings (m.read d k).1 k = some ((f k).getD d) ∧
      entries (m.remove k) = (entries m).filter fun entry => entry.1 ≠ k := by
  have hempty : InStepVectors (MapVectors.empty : MapVectors F T) := ⟨List.nodup_nil, rfl⟩
  obtain ⟨hin, hbindings⟩ := @run_bindings _ _ _ d _ ops hempty
  refine ⟨hin, hbindings, ?_⟩
  intro k
  have hf := congrFun hbindings k
  refine ⟨?_, ?_, ?_⟩
  · rw [read_value hin, hf]
    rfl
  · have hread := congrFun (@exec_bindings _ _ _ d _ hin (.read k)).2 k
    rw [MapOp.onBindings, Function.update_self, hf] at hread
    exact hread
  · rw [entries_remove hin, removeEntry_eq_filter (hin.entries_tags ▸ hin.distinct)]

end CrepOS.Analysis
