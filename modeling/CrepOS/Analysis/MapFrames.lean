import CrepOS.Model.Vmm

/-!
# The frames that mapping a page takes

A call of `map_page_raw` takes at most one frame for each table below the top, and it has a result when
these frames are left. The lemmas go down the code of `map` as those of `MapPage` do.
-/

set_option autoImplicit false

namespace CrepOS.Analysis

open CrepOS.Model

/-- `m` has a result when `k` frames are left, and takes no more than these. -/
def Spends (k : ℕ) (m : Vm → Option Vm) : Prop :=
  ∀ s, k ≤ s.free.length → ∃ s', m s = some s' ∧ s.free.length ≤ s'.free.length + k

section Spends

variable {k : ℕ} {t v paddr flags flags1 flags0 : Word} {i : Index} {pa : ℤ}

theorem Spends.mono {j : ℕ} {m : Vm → Option Vm} (h : Spends j m) (hjk : j ≤ k) : Spends k m := by
  intro s hs
  obtain ⟨s', hs', hlen⟩ := h s (by omega)
  exact ⟨s', hs', by omega⟩

theorem spends_some {f : Vm → Vm} (h : ∀ s, (f s).free = s.free) : Spends k fun s => some (f s) := by
  intro s _
  exact ⟨f s, rfl, by rw [h]; omega⟩

/-- INTERNAL: a new table costs one frame. -/
theorem spends_calloc {m : Vm → Option Vm} (hm : Spends k m) (e : Word → Word) :
    Spends (k + 1) fun s =>
      match s.calloc with
      | none => none
      | some (f, s) => m (s.set t i (e f)) := by
  intro s hs
  cases hfree : s.free with
  | nil =>
    rw [hfree, List.length_nil] at hs
    omega
  | cons f fs =>
    rw [hfree, List.length_cons] at hs
    simp only [Vm.calloc, hfree]
    obtain ⟨s', hs', hlen⟩ := hm (Vm.set ⟨Function.update s.mem f fun _ => 0, fs⟩ t i (e f))
      (by simpa [Vm.set] using hs)
    refine ⟨s', hs', ?_⟩
    have hset : fs.length ≤ s'.free.length + k := hlen
    rw [List.length_cons]
    omega

theorem throughDirectory_spends {m : Vm → Option Vm} (hm : Spends k m) :
    Spends (k + 1) fun s => throughDirectory s t i flags m := by
  intro s hs
  simp only [throughDirectory]
  split
  · split
    · exact ⟨s, rfl, by omega⟩
    · exact spends_calloc hm (fun f => f ||| flags) s hs
  · exact hm.mono (by omega) s hs

theorem throughTable_spends {m : Vm → Option Vm} {join : Word → Word → Word} (hm : Spends k m) :
    Spends (k + 1) fun s => throughTable join s t i flags paddr m := by
  intro s hs
  simp only [throughTable]
  split
  · split
    · exact ⟨s, rfl, by omega⟩
    · split
      · exact hm.mono (by omega) (s.set t i (paddr ||| flags)) hs
      · exact spends_calloc hm (fun f => join f flags) s hs
  · exact hm.mono (by omega) s hs

theorem applyPa_free (s : Vm) (pat : Word) : (s.applyPa t i pat pa).free = s.free := by
  unfold Vm.applyPa
  split
  · rfl
  · rfl

theorem mapPml1_spends (t : Word) : Spends 0 fun s => mapPml1 s t v paddr flags pa := by
  intro s hs
  simp only [mapPml1]
  split
  · split
    · exact ⟨s, rfl, by omega⟩
    · exact spends_some (f := fun s => (s.set t (tableIndex 0 v) (paddr ||| flags)).applyPa t
        (tableIndex 0 v) patSmall pa) (fun s => applyPa_free _ _) s hs
  · exact spends_some (f := fun s => s.applyPa t (tableIndex 0 v) patSmall pa)
      (fun s => applyPa_free _ _) s hs

/-- INTERNAL: at an entry the call ends with a page or goes on in the table below. -/
theorem spends_entry {m : Vm → Word → Option Vm} (hm : ∀ t, Spends k fun s => m s t) :
    Spends k fun s =>
      if isHuge (s.mem t i) then some (s.applyPa t i patHuge pa) else m s (frameOf (s.mem t i)) := by
  intro s hs
  by_cases hh : isHuge (s.mem t i) = true
  · simp only [if_pos hh]
    exact ⟨_, rfl, by rw [applyPa_free]; omega⟩
  · simp only [if_neg hh]
    exact hm _ s hs

theorem mapPml2_spends (t : Word) : Spends 1 fun s => mapPml2 s t v paddr flags flags0 pa := by
  simp only [mapPml2]
  exact throughTable_spends (spends_entry mapPml1_spends)

theorem mapPml3_spends {join : Word → Word → Word} (t : Word) :
    Spends 2 fun s => mapPml3 join s t v paddr flags1 flags flags0 pa := by
  simp only [mapPml3]
  exact throughTable_spends (spends_entry mapPml2_spends)

/-- **`map_page_raw` has a result** when one frame is left for each level below the top. -/
theorem mapPageRaw_spends (p : Paging) (root : Word) :
    Spends (p.levels - 1) fun s => mapPageRaw p s root v paddr flags1 flags0 pa := by
  have h4 : ∀ flags flags0, Spends 3 fun s =>
      Model.Pml4.map s root v paddr flags1 flags1 flags flags0 pa :=
    fun _ _ => throughDirectory_spends fun s => mapPml3_spends _ s
  have h5 : ∀ flags flags0, Spends 4 fun s =>
      Model.Pml5.map s root v paddr flags1 flags1 flags1 flags flags0 pa :=
    fun _ _ => throughDirectory_spends fun s =>
      throughDirectory_spends (fun s => mapPml3_spends _ s) s
  intro s hs
  cases p with
  | pml4 =>
    simp only [mapPageRaw]
    split
    · exact h4 _ _ s hs
    · exact h4 _ _ s hs
  | pml5 =>
    simp only [mapPageRaw]
    split
    · exact h5 _ _ s hs
    · exact h5 _ _ s hs

end Spends

end CrepOS.Analysis
