import CrepOS.Interface.VfsNames

/-!
# Splitting a path

The tokeniser finds one separator after the other and takes what is between two of them, if it is not
empty. `splitLoop_eq` is its invariant: what is still to be split are the components of the rest of the
string. That it ends is part of it, as `splitPath` gives it one iteration for every character.
-/

set_option autoImplicit false

namespace CrepOS.Analysis

open CrepOS.Library CrepOS.Model CrepOS.Interface

/-- INTERNAL: a token that is not empty is appended. -/
theorem pushToken_eq (ret : List LibString) (token : LibString) :
    pushToken ret token = ret ++ [token].filter (· ≠ []) := by
  unfold pushToken
  cases token <;> simp

/-- INTERNAL: the loop of the tokeniser splits the rest of the string.
SRCLINE: kernel/fs/vfs.cpp:30-42 -/
theorem splitLoop_eq (s : LibString) (fuel start : ℕ) (ret : List LibString)
    (hfuel : s.length < start + fuel) :
    splitLoop s fuel start (LibString.findFirst s slash start) ret =
      ret ++ components (s.drop start) ∨ s.length < start := by
  induction fuel generalizing start ret with
  | zero => exact Or.inr (by omega)
  | succ fuel ih =>
    unfold LibString.findFirst
    cases hfind : (s.drop start).findIdx? (· == slash) with
    | none =>
      left
      have hnot : slash ∉ s.drop start := by
        intro hmem
        have hall := List.findIdx?_eq_none_iff.mp hfind slash hmem
        simp at hall
      show pushToken ret (s.drop start) = _
      unfold components
      rw [pushToken_eq, List.splitOn_eq_singleton hnot]
    | some k =>
      left
      obtain ⟨hk, hsep, hbefore⟩ := List.findIdx?_eq_some_iff_getElem.mp hfind
      have hlen : k < s.length - start := by rwa [List.length_drop] at hk
      have hsplit : s.drop start = (s.drop start).take k ++ slash :: s.drop (start + k + 1) := by
        have hget : (s.drop start)[k] = slash := by simpa using hsep
        rw [← hget, show start + k + 1 = start + (k + 1) by omega, ← List.drop_drop,
          List.getElem_cons_drop, List.take_append_drop]
      have hnot : slash ∉ (s.drop start).take k := by
        intro hmem
        obtain ⟨i, hi, hget⟩ := List.mem_iff_getElem.mp hmem
        rw [List.length_take] at hi
        have hne := hbefore i (by omega)
        rw [List.getElem_take] at hget
        simp [hget] at hne
      show splitLoop s fuel (start + k + 1) (LibString.findFirst s slash (start + k + 1))
        (pushToken ret ((s.drop start).take (start + k - start))) = _
      rw [show start + k - start = k by omega]
      rcases ih (start + k + 1) (pushToken ret ((s.drop start).take k)) (by omega) with hrest | hneg
      · rw [hrest, pushToken_eq, List.append_assoc]
        congr 1
        conv_rhs => rw [hsplit]
        unfold components
        rw [List.splitOn_append_cons_self_of_not_mem hnot, List.filter_cons, List.filter_cons]
        split <;> simp
      · exact absurd hneg (by omega)

/-- The tokeniser returns the components.
SRCLINE: kernel/fs/vfs.cpp:24-43, kernel/fs/vfs.cpp:82-100 -/
theorem splitPath_eq (s : LibString) : splitPath s = components s := by
  rcases splitLoop_eq s (s.length + 1) 0 [] (by omega) with heq | hneg
  · unfold splitPath
    rw [heq, List.drop_zero, List.nil_append]
  · exact absurd hneg (Nat.not_lt_zero _)

/-- A separator at the beginning makes no difference. -/
theorem components_slash (s : LibString) : components (slash :: s) = components s := by
  unfold components
  rw [show slash :: s = [] ++ slash :: s from rfl,
    List.splitOn_append_cons_self_of_not_mem List.not_mem_nil]
  simp

theorem components_skipSlash (s : LibString) : components (skipSlash s) = components s := by
  cases s with
  | nil => rfl
  | cons c rest =>
    rw [skipSlash]
    split
    · rename_i hc
      rw [hc, components_slash]
    · rfl

/-- INTERNAL: the pieces between separators have no separator in them. -/
theorem slash_notMem_splitOn {s name : LibString} (h : name ∈ s.splitOn slash) : slash ∉ name := by
  induction s generalizing name with
  | nil =>
    obtain rfl : name = [] := by simpa using h
    exact List.not_mem_nil
  | cons c rest ih =>
    rw [List.splitOn_cons_eq_if_modifyHead] at h
    cases hsplit : rest.splitOn slash with
    | nil => exact absurd hsplit (List.splitOn_ne_nil _ _)
    | cons first others =>
      rw [hsplit] at h ih
      by_cases hc : c = slash
      · rw [if_pos (by simpa using hc)] at h
        rcases List.mem_cons.mp h with rfl | hmem
        · exact List.not_mem_nil
        · exact ih hmem
      · rw [if_neg (by simpa using hc), List.modifyHead_cons] at h
        rcases List.mem_cons.mp h with rfl | hmem
        · exact List.not_mem_cons_of_ne_of_not_mem (Ne.symm hc) (ih List.mem_cons_self)
        · exact ih (List.mem_cons_of_mem first hmem)

/-- Components are not empty and have no separator in them. -/
theorem components_name {s name : LibString} (h : name ∈ components s) : name ≠ [] ∧ slash ∉ name := by
  obtain ⟨hmem, hne⟩ := List.mem_filter.mp h
  exact ⟨of_decide_eq_true hne, slash_notMem_splitOn hmem⟩

/-- INTERNAL: the components of a canonical path. -/
theorem components_canonical {names : List LibString}
    (h : ∀ name ∈ names, name ≠ [] ∧ slash ∉ name) : components (canonical names) = names := by
  unfold canonical
  rw [components_slash]
  unfold components
  by_cases hnil : names = []
  · subst hnil
    rfl
  · rw [List.splitOn_intercalate slash (fun name hname => (h name hname).2) hnil]
    exact List.filter_eq_self.mpr fun name hname => decide_eq_true (h name hname).1

end CrepOS.Analysis
