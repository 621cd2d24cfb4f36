import CrepOS.Interface.VfsNames
import CrepOS.Analysis.PathSplit
import Mathlib.Data.List.TakeWhile

/-!
# The tokenisers are exact

With positions that are `size_t` the loop does what `splitLoop` does, since no string is as long as `npos`
(`tokenLoop_eq`). Its result are the components (`splitLoop_eq`), and the components are the maximal runs
(`components_eq_runs`).
-/

set_option autoImplicit false

namespace CrepOS.Analysis

open CrepOS.Library CrepOS.Model CrepOS.Interface

/-! ## Runs -/

/-- INTERNAL: the runs of a string that comes after `before`. -/
def runsAfter (before : Byte) (s : LibString) : List LibString :=
  ((List.range s.length).filter (startsRun before s)).map fun i => (s.drop i).takeWhile (· ≠ slash)

theorem runsAfter_cons (before c : Byte) (s : LibString) :
    runsAfter before (c :: s) =
      (if c ≠ slash ∧ before = slash then [(c :: s).takeWhile (· ≠ slash)] else []) ++ runsAfter c s := by
  have hshift : (startsRun before (c :: s)) ∘ Nat.succ = startsRun c s := by
    funext i
    rfl
  unfold runsAfter
  rw [List.length_cons, List.range_succ_eq_map, List.filter_cons, List.filter_map, hshift]
  have hfirst : startsRun before (c :: s) 0 = true ↔ c ≠ slash ∧ before = slash := by
    simp [startsRun]
  by_cases h : c ≠ slash ∧ before = slash
  · rw [if_pos (hfirst.mpr h), if_pos h, List.map_cons, List.map_map]
    rfl
  · rw [if_neg (mt hfirst.mp h), if_neg h, List.map_map]
    rfl

/-- INTERNAL: the first component, and those of the rest. -/
theorem components_cons {c : Byte} {s : LibString} (hc : c ≠ slash) :
    components (c :: s) = (c :: s).takeWhile (· ≠ slash) :: components (s.dropWhile (· ≠ slash)) := by
  have hnot : slash ∉ (c :: s).takeWhile (· ≠ slash) := by
    intro hmem
    have hne := List.mem_takeWhile_imp hmem
    simp at hne
  have hfirst : (c :: s).takeWhile (· ≠ slash) ≠ [] := by
    rw [List.takeWhile_cons_of_pos (by simpa using hc)]
    exact List.cons_ne_nil _ _
  have hdrop : (c :: s).dropWhile (· ≠ slash) = s.dropWhile (· ≠ slash) :=
    List.dropWhile_cons_of_pos (by simpa using hc)
  have hsplit : (c :: s).takeWhile (· ≠ slash) ++ s.dropWhile (· ≠ slash) = c :: s := by
    rw [← hdrop, List.takeWhile_append_dropWhile]
  cases hrest : s.dropWhile (· ≠ slash) with
  | nil =>
    rw [hrest, List.append_nil] at hsplit
    rw [hsplit] at hnot ⊢
    unfold components
    rw [List.splitOn_eq_singleton hnot]
    simp
  | cons d rest =>
    have hd : d = slash := by
      have hhead := List.head?_dropWhile_not (· ≠ slash) s
      rw [hrest] at hhead
      simpa using hhead
    rw [hrest, hd] at hsplit
    rw [hd, components_slash]
    conv_lhs => rw [← hsplit]
    unfold components
    rw [List.splitOn_append_cons_self_of_not_mem hnot, List.filter_cons, if_pos (by simpa using hfirst)]

/-- INTERNAL: in the middle of a run the rest of it does not count. -/
theorem runsAfter_eq (before : Byte) (s : LibString) :
    runsAfter before s = components (if before = slash then s else s.dropWhile (· ≠ slash)) := by
  induction s generalizing before with
  | nil =>
    unfold runsAfter
    split <;> rfl
  | cons c s ih =>
    rw [runsAfter_cons, ih c]
    by_cases hc : c = slash
    · have hnone : ¬ (c ≠ slash ∧ before = slash) := fun h => h.1 hc
      rw [if_neg hnone, if_pos hc, List.nil_append]
      split
      · rw [hc, components_slash]
      · rw [List.dropWhile_cons_of_neg (by simpa using hc), hc, components_slash]
    · rw [if_neg hc]
      by_cases hbefore : before = slash
      · rw [if_pos ⟨hc, hbefore⟩, if_pos hbefore, components_cons hc]
        rfl
      · rw [if_neg (fun h => hbefore h.2), if_neg hbefore, List.dropWhile_cons_of_pos (by simpa using hc),
          List.nil_append]

/-- The components are the maximal runs. -/
theorem components_eq_runs (s : LibString) : components s = runs s := by
  have h := runsAfter_eq slash s
  rw [if_pos rfl] at h
  exact h.symm

/-! ## Positions -/

section Positions

variable {s : LibString} {start fuel k : ℕ}

theorem findFirst_bounds (h : LibString.findFirst s slash start = some k) : start ≤ k ∧ k < s.length := by
  unfold LibString.findFirst at h
  obtain ⟨i, hi, hk⟩ := Option.map_eq_some_iff.mp h
  obtain ⟨hlt, _⟩ := List.findIdx?_eq_some_iff_getElem.mp hi
  rw [List.length_drop] at hlt
  omega

/-- INTERNAL: `find_first` at a position that is a `size_t`. -/
theorem findFirstPos_eq (hs : s.length + 1 < 2 ^ 64) (hstart : start ≤ s.length) :
    findFirstPos s slash (BitVec.ofNat 64 start) =
      (LibString.findFirst s slash start).elim npos (BitVec.ofNat 64) := by
  unfold findFirstPos
  rw [BitVec.toNat_ofNat, Nat.mod_eq_of_lt (by omega)]

theorem npos_toNat : npos.toNat = 2 ^ 64 - 1 := rfl

/-- INTERNAL: no position in a string is `npos`. -/
theorem position_ne_npos (hs : s.length + 1 < 2 ^ 64) (hk : k ≤ s.length) : BitVec.ofNat 64 k ≠ npos := by
  intro h
  have hnat := congrArg BitVec.toNat h
  rw [BitVec.toNat_ofNat, Nat.mod_eq_of_lt (by omega), npos_toNat] at hnat
  omega

/-- INTERNAL: a token between two positions. -/
theorem substrAt_between (hs : s.length + 1 < 2 ^ 64) (hstart : start ≤ k) (hk : k < s.length) :
    substrAt s (BitVec.ofNat 64 start) (BitVec.ofNat 64 k - BitVec.ofNat 64 start) =
      some (LibString.substr s start (some (k - start))) := by
  have hsize : BitVec.ofNat 64 k - BitVec.ofNat 64 start = BitVec.ofNat 64 (k - start) := by
    apply BitVec.eq_of_toNat_eq
    rw [BitVec.toNat_sub_of_le (by rw [BitVec.le_def]; simp; omega)]
    simp
    omega
  have hnat : (BitVec.ofNat 64 (k - start)).toNat = k - start := by
    rw [BitVec.toNat_ofNat, Nat.mod_eq_of_lt (by omega)]
  have hfirst : (BitVec.ofNat 64 start).toNat = start := by
    rw [BitVec.toNat_ofNat, Nat.mod_eq_of_lt (by omega)]
  unfold substrAt LibString.substr
  rw [hsize]
  simp only [position_ne_npos hs (by omega : k - start ≤ s.length), if_false, hnat, hfirst]
  by_cases hzero : BitVec.ofNat 64 (k - start) = 0
  · have hempty : k - start = 0 := by
      rw [← hnat, hzero]
      rfl
    rw [if_pos hzero, hempty, List.take_zero]
  · rw [if_neg hzero, if_pos (by omega)]

/-- INTERNAL: the last token. -/
theorem substrAt_npos (hs : s.length + 1 < 2 ^ 64) (hstart : start ≤ s.length) :
    substrAt s (BitVec.ofNat 64 start) npos = some (LibString.substr s start none) := by
  have hsize : BitVec.ofNat 64 s.length - BitVec.ofNat 64 start = BitVec.ofNat 64 (s.length - start) := by
    apply BitVec.eq_of_toNat_eq
    rw [BitVec.toNat_sub_of_le (by rw [BitVec.le_def]; simp; omega)]
    simp
    omega
  have hnat : (BitVec.ofNat 64 (s.length - start)).toNat = s.length - start := by
    rw [BitVec.toNat_ofNat, Nat.mod_eq_of_lt (by omega)]
  have hfirst : (BitVec.ofNat 64 start).toNat = start := by
    rw [BitVec.toNat_ofNat, Nat.mod_eq_of_lt (by omega)]
  unfold substrAt LibString.substr
  simp only [if_true, hsize, hnat, hfirst]
  by_cases hzero : BitVec.ofNat 64 (s.length - start) = 0
  · have hempty : s.length - start = 0 := by
      rw [← hnat, hzero]
      rfl
    rw [if_pos hzero, List.drop_eq_nil_of_le (by omega)]
  · rw [if_neg hzero, if_pos (by omega), List.take_of_length_le (by rw [List.length_drop])]

/-- The loop with positions that are `size_t` does what the loop with `none` for `npos` does, it ends, and it reads
nothing behind the string. -/
theorem tokenLoop_eq (hs : s.length + 1 < 2 ^ 64) (ret : List LibString) (hstart : start ≤ s.length)
    (hfuel : s.length < start + fuel) :
    tokenLoop s fuel (BitVec.ofNat 64 start) (findFirstPos s slash (BitVec.ofNat 64 start)) ret =
      some (splitLoop s fuel start (LibString.findFirst s slash start) ret) := by
  induction fuel generalizing start ret with
  | zero => omega
  | succ fuel ih =>
    rw [findFirstPos_eq hs hstart]
    cases hfind : LibString.findFirst s slash start with
    | none =>
      rw [Option.elim_none]
      unfold tokenLoop splitLoop
      rw [if_neg (by simp), substrAt_npos hs hstart]
      rfl
    | some k =>
      obtain ⟨hle, hlt⟩ := findFirst_bounds hfind
      have hnext : BitVec.ofNat 64 k + 1 = BitVec.ofNat 64 (k + 1) := by
        rw [BitVec.ofNat_add]
        rfl
      rw [Option.elim_some]
      unfold tokenLoop splitLoop
      rw [if_pos (position_ne_npos hs (by omega)), substrAt_between hs hle hlt, hnext]
      exact ih _ (by omega) (by omega)

end Positions

/-- INTERNAL: the lambda returns the runs, with one iteration for each character and one more. -/
theorem subPaths_eq_runs {s : LibString} {fuel : ℕ} (hs : s.length + 1 < 2 ^ 64) (hfuel : s.length < fuel) :
    subPaths s fuel = some (runs s) := by
  have hloop := tokenLoop_eq hs [] (Nat.zero_le _) (by omega : s.length < 0 + fuel)
  unfold subPaths
  rw [show (0 : BitVec 64) = BitVec.ofNat 64 0 from rfl, hloop]
  cases splitLoop_eq s fuel 0 [] (by omega) with
  | inl heq => rw [heq, List.nil_append, List.drop_zero, components_eq_runs]
  | inr hneg => exact absurd hneg (Nat.not_lt_zero _)

theorem length_skipSlash_le (s : LibString) : (skipSlash s).length ≤ s.length := by
  cases s with
  | nil => exact Nat.le_refl _
  | cons c s =>
    rw [skipSlash]
    split
    · exact Nat.le_succ _
    · exact Nat.le_refl _

example : runs [slash, slash, 0x61, 0x62, slash, 0x63, slash] = [[0x61, 0x62], [0x63]] := by decide

end CrepOS.Analysis
