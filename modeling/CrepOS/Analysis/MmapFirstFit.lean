import CrepOS.Analysis.MmapDisjoint

/-!
# When `mmap_alloc` returns the first free pages

`findRun_firstRun` gives the index of the pages that `mmap_alloc` returns, for a bitmap of any size.
They are the first free ones exactly if the occupied pages that the search counts twice make up for the
distance between the run at which it stops and the first free pages (`mmapAlloc_firstFit_iff`). With a
free bitmap there are none and the distance is zero; with the first page occupied and the second one
free the search is right for one page; with both occupied it returns the second one
(`mmapAlloc_not_firstFit`).
-/

set_option autoImplicit false

namespace CrepOS.Analysis

open CrepOS.Library CrepOS.Model CrepOS.Interface

section FirstFit

variable {m : Memory} {size n s e : ℕ}

/-- INTERNAL: the page index of the address that `mmap_alloc` computes.
SRCLINE: kernel/mm/mmap.cpp:35-36 -/
theorem bmIndex_offset (o : ℕ) : bmIndex (wrap (o * pageSize + mmapMinAddr)) = o % 2 ^ 52 := by
  unfold bmIndex wrap
  simp only [mmapMinAddr, pageSize]
  omega

/-- Free pages are the end of a run. -/
theorem runEnd_of_free (h : FreePages m s n) : RunEnd m n (s + n) := by
  refine ⟨by omega, ?_⟩
  intro k hk hlow
  exact h k (by omega) hk

/-- INTERNAL: the first run ends no later than the first free pages. -/
theorem firstRun_le_of_free (hrun : FirstRun m n e) (h : FreePages m s n) : e ≤ s + n := by
  by_contra hlt
  exact hrun.2 (s + n) (by omega) (runEnd_of_free h)

/-- There is one first run. -/
theorem firstRun_unique {e' : ℕ} (h : FirstRun m n e) (h' : FirstRun m n e') : e = e' := by
  rcases Nat.lt_trichotomy e e' with hlt | heq | hlt
  · exact absurd h.1 (h'.2 e hlt)
  · exact heq
  · exact absurd h'.1 (h.2 e' hlt)

/-- What `mmap_alloc` does without `map_fixed` if it finds a run in the bitmap it has.
SRCLINE: kernel/mm/mmap.cpp:8-45 -/
theorem mmapAlloc_from_bitmap {addr length flags a : ℕ} {pm pm' : PageMap}
    (hflags : flags &&& mapFixed = 0) (hm : pm.init.bitmap = some m)
    (h : mmapAlloc addr length flags [] pm = some (pm', a)) :
    ∃ e ≤ pm.init.bmSize, FirstRun m (pageCnt length) e ∧
      bmIndex a = (e + occupied m e - pageCnt length) % 2 ^ 52 ∧
      pm' = ⟨some (m.setRun 0 (bmIndex a) (rangeCnt (bmIndex a) (pageCnt length))),
        pm.init.bmSize⟩ := by
  simp only [mmapAlloc, hm, mmapTry, hflags, ne_eq, not_true_eq_false, if_false] at h
  cases hfind : findRun m (pageCnt length) pm.init.bmSize 0 0 0 with
  | none =>
    rw [hfind] at h
    cases h
  | some o =>
    rw [hfind] at h
    simp only [Option.some.injEq, Prod.mk.injEq] at h
    obtain ⟨rfl, rfl⟩ := h
    obtain ⟨-, e, hle, hrun, ho⟩ := findRun_firstRun hfind
    refine ⟨e, hle, hrun, ?_, rfl⟩
    rw [bmIndex_offset, ho]
    unfold wrap
    omega

/-- **When the search is first fit.** For every bitmap, every size of it and every number of pages, an
address that `mmap_alloc` returns from the bitmap it has is the one of the first free pages, whose bits
it sets and no others, if and only if the runs meet.
SRCLINE: kernel/mm/mmap.cpp:8-50 -/
theorem mmapAlloc_firstFit_iff {addr length flags a : ℕ} {pm pm' : PageMap}
    (hflags : flags &&& mapFixed = 0) (hm : pm.init.bitmap = some m)
    (hsize : pm.init.bmSize < 2 ^ 64)
    (h : mmapAlloc addr length flags [] pm = some (pm', a)) :
    FirstFit m pm.init.bmSize (pageCnt length) pm' a ↔
      RunsMeet m pm.init.bmSize (pageCnt length) := by
  obtain ⟨e, hle, hrun, hindex, hpm⟩ := mmapAlloc_from_bitmap hflags hm h
  have hstart := hrun.1.1
  constructor
  · intro hfit
    have hbound := firstRun_le_of_free hrun hfit.free
    refine ⟨bmIndex a, e, ⟨hfit.free, hfit.lowest⟩, hfit.below, hrun, by omega, by omega⟩
  · rintro ⟨s, e', hfree, hbelow, hrun', hlt, hmeet⟩
    obtain rfl := firstRun_unique hrun hrun'
    have hbound := firstRun_le_of_free hrun hfree.1
    have hs : bmIndex a = s := by omega
    refine ⟨hs ▸ hfree.1, hs ▸ hbelow, hs ▸ hfree.2, _, hpm, ?_⟩
    intro k
    rw [Memory.bit_setRun, rangeCnt_of_lt (by omega)]

end FirstFit

/-! ## Examples -/

/-- A page map whose bitmap of `0x1000` bytes has the given first byte. -/
def markedMap (b : Byte) : PageMap := ⟨some fun a => if a = 0 then b else 0, 0x1000⟩

/-- With the first page occupied the second one is returned, as it should be. -/
theorem mmapAlloc_second_page : ∃ pm', mmapAlloc 0 1 mapAnonymous [] (markedMap 1) = some (pm', 0x11000) ∧
    FirstFit (fun a => if a = 0 then 1 else 0) 0x1000 1 pm' 0x11000 := by
  have hmeet : RunsMeet (fun a => if a = 0 then 1 else 0) 0x1000 1 := by
    refine ⟨1, 1, ⟨?_, ?_⟩, by decide, ⟨⟨le_rfl, ?_⟩, ?_⟩, by decide, by decide⟩
    · intro k hlow hhigh
      obtain rfl : k = 1 := by omega
      decide
    · intro s' hs' hfree
      obtain rfl : s' = 0 := by omega
      have hbit := hfree 0 le_rfl (by decide)
      revert hbit
      decide
    · intro k hk hlow
      omega
    · intro e' he' hend
      have hle := hend.1
      omega
  have hcall : mmapAlloc 0 1 mapAnonymous [] (markedMap 1) = some (_, 0x11000) := rfl
  exact ⟨_, hcall, (mmapAlloc_firstFit_iff (by decide) rfl (by decide) hcall).mpr hmeet⟩

/-- With the first two pages occupied the second one is returned.
SRCLINE: kernel/mm/mmap.cpp:28-45 -/
theorem mmapAlloc_not_firstFit :
    ¬ ∀ addr length flags (pm pm' : PageMap) (m : Memory) a, flags &&& mapFixed = 0 →
      pm.init.bitmap = some m → pm.init.bmSize < 2 ^ 64 → 1 ≤ pageCnt length →
      mmapAlloc addr length flags [] pm = some (pm', a) →
      FirstFit m pm.init.bmSize (pageCnt length) pm' a := by
  intro hall
  have hcall : mmapAlloc 0 1 mapAnonymous [] (markedMap 3) = some (_, 0x11000) := rfl
  have hfit := hall 0 1 mapAnonymous (markedMap 3) _ _ _ (by decide) rfl (by decide) (by decide) hcall
  have hbit := hfit.free 1 (by decide) (by decide)
  revert hbit
  decide

end CrepOS.Analysis
