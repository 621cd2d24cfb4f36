import CrepOS.Model.PmmLock
import CrepOS.Analysis.PmmExclusive

/-!
# The page allocator under `pmm_lock`

`chunkCode` takes the calls of a chunk apart into accesses to the bitmap bytes. Left alone a call
does what the atomic `MemChunk.alloc` and `MemChunk.free` do (`alloc_alone`, `free_alone`), so by the
library any interleaving of the accesses of any number of processors comes to the atomic calls, one
after another (`chunk_calls_atomic`). With that the page ranges that the processors hold stay apart
(`held_ranges_exclusive`).
-/

set_option autoImplicit false

namespace CrepOS.Analysis

open CrepOS.Library CrepOS.Model

/-! ## A call left alone -/

/-- Where the inner loop of `mem_chunk::alloc` goes.
SRCLINE: kernel/mm/pmm.cpp:106-119 -/
def behindWindow (c : MemChunk) (cnt align i allocBase : ℕ) : WindowScan → ChunkLocal
  | .taken => .outer c cnt align (wrap (i + align)) (wrap (allocBase + align * pageSize))
  | .fits => .setLoad c cnt i allocBase 0
  | .unread => .outer c cnt align (wrap (i + align)) allocBase

section Alone

variable {c : MemChunk} {cnt align : ℕ} {m t : Memory} {r : ChunkResult}

/-- INTERNAL: the inner loop, with `n` iterations left.
SRCLINE: kernel/mm/pmm.cpp:106-119 -/
theorem inner_ends {i a n j count : ℕ} (hn : n = wrap (i + cnt) - j)
    (h : chunkCode.Ends m (behindWindow c cnt align i a (scanWindow m c.bitmap cnt n j count)) t r) :
    chunkCode.Ends m (.inner c cnt align i a j count) t r := by
  induction n generalizing j count with
  | zero =>
    refine .more ?_ h
    simp only [chunkCode, chunkAccess, scanWindow, behindWindow]
    rw [if_neg (by omega)]
  | succ n ih =>
    have hlt : j < wrap (i + cnt) := by omega
    rw [scanWindow] at h
    by_cases hb : bmTest m c.bitmap j = true
    · rw [if_pos hb] at h
      refine .more ?_ h
      simp only [chunkCode, chunkAccess, behindWindow, if_pos hlt, if_pos hb]
    · rw [if_neg hb] at h
      by_cases hcnt : count + 1 = cnt
      · rw [if_pos hcnt] at h
        refine .more ?_ h
        simp only [chunkCode, chunkAccess, behindWindow, if_pos hlt, if_neg hb, if_pos hcnt]
      · rw [if_neg hcnt] at h
        refine .more ?_ (ih (by omega) h)
        simp only [chunkCode, chunkAccess, if_pos hlt, if_neg hb, if_neg hcnt]

/-- INTERNAL: one load and store of the loop that sets the bits.
SRCLINE: kernel/mm/pmm.cpp:114-115 -/
theorem setLoad_ends {i a z : ℕ} (hz : z < cnt)
    (h : chunkCode.Ends (m.setBit c.bitmap (i + z)) (.setLoad c cnt i a (z + 1)) t r) :
    chunkCode.Ends m (.setLoad c cnt i a z) t r := by
  have hload : chunkCode.access m (.setLoad c cnt i a z) =
      (m, .inl (.setStore c cnt i a z (m (c.bitmap + (i + z) / 8)))) := by
    simp only [chunkCode, chunkAccess, if_pos hz]
  exact .more hload (.more rfl h)

/-- INTERNAL: the loop that sets the bits, with `z` of them set, leaves them all set.
SRCLINE: kernel/mm/pmm.cpp:114-118 -/
theorem set_ends {i a z n : ℕ} (hz : z + n = cnt) :
    chunkCode.Ends (m.setRun c.bitmap i z) (.setLoad c cnt i a z) (m.setRun c.bitmap i cnt)
      (.address a) := by
  induction n generalizing z with
  | zero =>
    obtain rfl : z = cnt := hz
    refine .last ?_
    simp only [chunkCode, chunkAccess, if_neg (lt_irrefl z)]
  | succ n ih => exact setLoad_ends (by omega) (ih (z := z + 1) (by omega))

/-- INTERNAL: the loop of `mem_chunk::free`, with `z` of the bits cleared.
SRCLINE: kernel/mm/pmm.cpp:128-131 -/
theorem clear_ends {i stop z n : ℕ} (hz : i + z + n = stop) :
    chunkCode.Ends (m.clearRun c.bitmap i z) (.clearLoad c (i + z) stop)
      (m.clearRun c.bitmap i (stop - i)) .freed := by
  induction n generalizing z with
  | zero =>
    obtain rfl : i + z = stop := hz
    rw [Nat.add_sub_cancel_left]
    refine .last ?_
    simp only [chunkCode, chunkAccess, if_neg (lt_irrefl (i + z))]
  | succ n ih =>
    have hload : chunkCode.access (m.clearRun c.bitmap i z) (.clearLoad c (i + z) stop) =
        (m.clearRun c.bitmap i z, .inl (.clearStore c (i + z) stop
          (m.clearRun c.bitmap i z (c.bitmap + (i + z) / 8)))) := by
      simp only [chunkCode, chunkAccess]
      rw [if_pos (by omega)]
    exact .more hload (.more rfl (ih (z := z + 1) (by omega)))

/-- INTERNAL: the whole loop of `mem_chunk::free`.
SRCLINE: kernel/mm/pmm.cpp:128-131 -/
theorem clear_all_ends (m : Memory) (c : MemChunk) (i stop : ℕ) :
    chunkCode.Ends m (.clearLoad c i stop) (m.clearRun c.bitmap i (stop - i)) .freed := by
  by_cases hle : i ≤ stop
  · have h := clear_ends (m := m) (c := c) (i := i) (z := 0) (Nat.add_sub_of_le hle)
    rwa [Nat.add_zero] at h
  · rw [Nat.sub_eq_zero_of_le (by omega)]
    refine .last ?_
    simp only [chunkCode, chunkAccess, Memory.clearRun]
    rw [if_neg (by omega)]

/-- INTERNAL: the outer loop where it finds a window.
SRCLINE: kernel/mm/pmm.cpp:105-120 -/
theorem outer_found {fuel i a i' a' : ℕ}
    (h : allocLoop m c cnt align fuel i a = some (i', a')) :
    chunkCode.Ends m (.outer c cnt align i a) (m.setRun c.bitmap i' cnt) (.address a') := by
  induction fuel generalizing i a with
  | zero => simp [allocLoop] at h
  | succ fuel ih =>
    rw [allocLoop] at h
    split_ifs at h with hlt
    have hstep : chunkCode.access m (.outer c cnt align i a) =
        (m, .inl (.inner c cnt align i a i 0)) := by
      simp only [chunkCode, chunkAccess, if_pos hlt]
    refine .more hstep (inner_ends rfl ?_)
    cases hs : scanWindow m c.bitmap cnt (wrap (i + cnt) - i) i 0 with
    | fits =>
      simp only [hs, Option.some.injEq, Prod.mk.injEq] at h
      obtain ⟨rfl, rfl⟩ := h
      exact set_ends (z := 0) (n := cnt) (Nat.zero_add cnt)
    | taken =>
      simp only [hs] at h
      exact ih h
    | unread =>
      simp only [hs] at h
      exact ih h

/-- INTERNAL: the outer loop where it finds nothing before the index leaves the chunk.
SRCLINE: kernel/mm/pmm.cpp:105-123 -/
theorem outer_none {fuel i a : ℕ} (hi : i < 2 ^ 64)
    (h : allocLoop m c cnt align fuel i a = none)
    (hleave : ∃ k ≤ fuel, c.pageCnt ≤ wrap (i + k * align)) :
    chunkCode.Ends m (.outer c cnt align i a) m (.address minusOne) := by
  have hi0 : wrap (i + 0 * align) = i := by rw [Nat.zero_mul, Nat.add_zero, wrap_of_lt hi]
  induction fuel generalizing i a with
  | zero =>
    obtain ⟨k, hk, hle⟩ := hleave
    obtain rfl : k = 0 := Nat.le_zero.mp hk
    refine .last ?_
    simp only [chunkCode, chunkAccess]
    rw [if_neg (by omega)]
  | succ fuel ih =>
    by_cases hlt : i < c.pageCnt
    · have hnext : ∃ k ≤ fuel, c.pageCnt ≤ wrap (wrap (i + align) + k * align) := by
        obtain ⟨k, hk, hle⟩ := hleave
        cases k with
        | zero => omega
        | succ k => exact ⟨k, by omega, by rwa [wrap_stride]⟩
      have hw : wrap (wrap (i + align) + 0 * align) = wrap (i + align) := by
        rw [Nat.zero_mul, Nat.add_zero, wrap_of_lt (wrap_lt _)]
      have hstep : chunkCode.access m (.outer c cnt align i a) =
          (m, .inl (.inner c cnt align i a i 0)) := by
        simp only [chunkCode, chunkAccess, if_pos hlt]
      rw [allocLoop, if_pos hlt] at h
      refine .more hstep (inner_ends rfl ?_)
      cases hs : scanWindow m c.bitmap cnt (wrap (i + cnt) - i) i 0 with
      | fits => simp [hs] at h
      | taken =>
        simp only [hs] at h
        exact ih (wrap_lt _) h hnext hw
      | unread =>
        simp only [hs] at h
        exact ih (wrap_lt _) h hnext hw
    · refine .last ?_
      simp only [chunkCode, chunkAccess, if_neg hlt]

/-- **`mem_chunk::alloc` left alone** ends as the atomic call does.
SRCLINE: kernel/mm/pmm.cpp:99-124 -/
theorem alloc_alone {s s' : Pmm} {a : ℕ} (halign : align < 2 ^ 64) (hpage : c.pageCnt ≤ 2 ^ 63)
    (h : c.alloc s cnt align = some (s', a)) :
    chunkCode.Alone s.mem (.alloc c cnt align) s'.mem (.address a) := by
  unfold MemChunk.alloc at h
  split_ifs at h with htrap
  have henter : chunkCode.enter (.alloc c cnt align) =
      .outer c cnt align (c.bitBase align) (c.allocBase align) := by
    simp only [chunkCode, ChunkCall.enter, if_neg htrap]
  have hpos : 1 ≤ align := by
    by_contra h0
    obtain rfl : align = 0 := by omega
    simp [wrap] at htrap
  unfold LockedCode.Alone
  rw [henter]
  cases hloop : allocLoop s.mem c cnt align c.pageCnt (c.bitBase align) (c.allocBase align) with
  | some w =>
    obtain ⟨i, b⟩ := w
    simp only [hloop, Option.some.injEq, Prod.mk.injEq] at h
    obtain ⟨rfl, rfl⟩ := h
    exact outer_found hloop
  | none =>
    simp only [hloop, Option.some.injEq, Prod.mk.injEq] at h
    obtain ⟨rfl, rfl⟩ := h
    -- the index leaves the chunk, since it stays in it fewer than `page_cnt` times
    have hleave : ∃ k ≤ c.pageCnt, c.pageCnt ≤ wrap (c.bitBase align + k * align) := by
      by_contra hno
      push Not at hno
      exact lt_irrefl _ (Looks.lt_pageCnt hpos halign hpage hno)
    exact outer_none (lt_of_le_of_lt (Nat.div_le_self _ _) (wrap_lt _)) hloop hleave

/-- INTERNAL: a call that traps does not end.
SRCLINE: kernel/mm/pmm.cpp:102 -/
theorem trap_ends_not : ¬ chunkCode.Ends m .trap t r := by
  intro h
  generalize hl : ChunkLocal.trap = l at h
  induction h with
  | last ha =>
    subst hl
    simp [chunkCode, chunkAccess] at ha
  | more ha _ ih =>
    subst hl
    simp only [chunkCode, chunkAccess, Prod.mk.injEq, Sum.inl.injEq] at ha
    exact ih ha.2

/-- **`mem_chunk::free` left alone** ends as the atomic call does.
SRCLINE: kernel/mm/pmm.cpp:126-133 -/
theorem free_alone (c : MemChunk) (s : Pmm) (base cnt : ℕ) :
    chunkCode.Alone s.mem (.free c base cnt) (c.free s base cnt).mem .freed := by
  have h := clear_all_ends s.mem c (ofSigned (divRoundup (toSigned base) pageSize))
    (wrap (ofSigned (divRoundup (toSigned base) pageSize) + cnt))
  simpa only [LockedCode.Alone, MemChunk.free, chunkCode, ChunkCall.enter] using h

end Alone

/-! ## Any number of processors -/

/-- The processors, the bitmaps, and the finished calls in order. -/
abbrev Processors (P : Type) := LockState P Memory ChunkCall ChunkLocal ChunkResult

/-- The allocator with the bitmaps alone. -/
def bitmapsOnly (m : Memory) : Pmm := ⟨m, [], 0⟩

/-- A finished call, as the atomic `MemChunk.alloc` and `MemChunk.free` perform it. -/
inductive AtomicCall {P : Type} : Memory → P × ChunkCall × ChunkResult → Memory → Prop
  | alloc {m : Memory} {p : P} {c : MemChunk} {cnt align a : ℕ} {s : Pmm}
      (h : c.alloc (bitmapsOnly m) cnt align = some (s, a)) :
      AtomicCall m (p, .alloc c cnt align, .address a) s.mem
  | free (m : Memory) (p : P) (c : MemChunk) (base cnt : ℕ) :
      AtomicCall m (p, .free c base cnt, .freed) (c.free (bitmapsOnly m) base cnt).mem

section Processors

variable {P : Type}

/-- INTERNAL: a call that ends alone is an atomic call. -/
theorem AtomicCall.of_alone {m t : Memory} {p : P} {call : ChunkCall} {r : ChunkResult}
    (hfits : call.Fits) (h : chunkCode.Alone m call t r) : AtomicCall m (p, call, r) t := by
  cases call with
  | alloc c cnt align =>
    cases hatomic : c.alloc (bitmapsOnly m) cnt align with
    | none =>
      have htrap : wrap (align * pageSize) = 0 := by
        by_contra hne
        unfold MemChunk.alloc at hatomic
        rw [if_neg hne] at hatomic
        split at hatomic <;> cases hatomic
      have henter : chunkCode.enter (.alloc c cnt align) = .trap := by
        simp only [chunkCode, ChunkCall.enter, if_pos htrap]
      unfold LockedCode.Alone at h
      rw [henter] at h
      exact (trap_ends_not h).elim
    | some w =>
      obtain ⟨s, a⟩ := w
      have halone : chunkCode.Alone m (.alloc c cnt align) s.mem (.address a) :=
        alloc_alone hfits.1 hfits.2 hatomic
      obtain ⟨rfl, rfl⟩ := h.unique halone
      exact .alloc hatomic
  | free c base cnt =>
    have halone : chunkCode.Alone m (.free c base cnt) (c.free (bitmapsOnly m) base cnt).mem .freed :=
      free_alone c (bitmapsOnly m) base cnt
    obtain ⟨ht, hr⟩ := h.unique halone
    rw [ht, hr]
    exact AtomicCall.free m p c base cnt

/-- INTERNAL: a call that does not trap ends, left alone. -/
theorem alone_ends (m : Memory) {call : ChunkCall} (hfits : call.Fits) (htrap : ¬ call.Traps) :
    ∃ t r, chunkCode.Alone m call t r := by
  cases call with
  | alloc c cnt align =>
    cases hatomic : c.alloc (bitmapsOnly m) cnt align with
    | none =>
      have hne : ¬ wrap (align * pageSize) = 0 := htrap
      unfold MemChunk.alloc at hatomic
      rw [if_neg hne] at hatomic
      split at hatomic <;> cases hatomic
    | some w => exact ⟨_, _, alloc_alone hfits.1 hfits.2 hatomic⟩
  | free c base cnt => exact ⟨_, _, free_alone c (bitmapsOnly m) base cnt⟩

variable [DecidableEq P]

/-- **The chunk calls are atomic.** Whatever the interleaving of the bitmap accesses of any number of
processors: the finished calls are atomic calls, performed one after another in the order of their
releases, with the results they had; the bitmaps are those that these calls leave whenever the lock
is free; at most one processor is in the section; every processor's calls are finished in the
order in which it made them, each once; and unless the call that has the lock traps, the lock
can be released.
SRCLINE: kernel/mm/pmm.cpp:99-133 -/
theorem chunk_calls_atomic {m : Memory} {l : List (LockAction P ChunkCall)} {s : Processors P}
    (hfits : ∀ p, ∀ call ∈ callsOf p l, call.Fits)
    (h : Run (LockStep chunkCode) (LockState.start m) l s) :
    ∃ base, Run AtomicCall m s.done base ∧ (s.locked = false → s.shared = base) ∧
      (∀ p q, (s.phase p).InSection → (s.phase q).InSection → p = q) ∧
      (∀ p, callsOf p l = doneOf p s.done ++ (s.phase p).pending) ∧
      (s.locked = true →
        (∀ p, (s.phase p).InSection → ∀ call ∈ (s.phase p).pending, ¬ call.Traps) →
        ∃ l' t, Run (LockStep chunkCode) s l' t ∧ t.locked = false) := by
  have hguard := (LockState.guarded_of_calls h hfits).mono
    fun s a t hs => And.intro hs.1.2 hs.2
  obtain ⟨base, hrun, hinv⟩ := LockState.serial hguard
  have horder := fun p => LockState.program_order h p
  refine ⟨base, hrun.mono ?_, hinv.free, hinv.one, horder, fun hl htrap => ?_⟩
  · rintro u ⟨p, call, r⟩ v ⟨hok, halone⟩
    exact AtomicCall.of_alone hok halone
  · refine hinv.frees hl fun p hp call hcall => ?_
    refine alone_ends base (hfits p call ?_) (htrap p hp call hcall)
    rw [horder p]
    exact List.mem_append_right _ hcall

end Processors

/-! ## The ranges that the processors hold -/

/-- What a finished call makes of the ranges that are handed out. -/
def afterCall (live : List PageRange) : ChunkCall → ChunkResult → List PageRange
  | .alloc _ cnt _, .address a => if a = minusOne then live else ⟨a, cnt⟩ :: live
  | .alloc _ _ _, .freed => live
  | .free c base cnt, _ => live.erase ⟨c.base + base, cnt⟩

/-- The page ranges that the finished calls have handed out and not taken back. -/
def held {P : Type} (done : List (P × ChunkCall × ChunkResult)) : List PageRange :=
  done.foldl (fun live e => afterCall live e.2.1 e.2.2) []

/-- No first clear window of the chunk runs past its end. -/
def WindowSafe (m : Memory) : ChunkCall → Prop
  | .alloc c cnt align => ∀ n, Looks c align n → FitsAt m c cnt (start c align n) →
      c.pageCnt < start c align n + cnt → ∃ k < n, FitsAt m c cnt (start c align k)
  | .free _ _ _ => True

/-- The range that a call gives back. -/
def givenBack : ChunkCall → Option PageRange
  | .alloc _ _ _ => none
  | .free c base cnt => some ⟨c.base + base, cnt⟩

/-- The callers ask for at least one page, of a chunk of the list, and give a range back to the
chunk in which `pmm::free` finds it.
SRCLINE: kernel/mm/pmm.cpp:141-149, 162-170 -/
def CalledFor (chunks : List MemChunk) : ChunkCall → Prop
  | .alloc c cnt align => c ∈ chunks ∧ 1 ≤ cnt ∧ cnt < 2 ^ 64 ∧ 1 ≤ align ∧ align < 2 ^ 64
  | .free c base cnt => (chunks.find? fun d => d.holds (c.base + base) cnt) = some c

/-- What the callers keep to: they give back only what they hold and what nobody else is giving
back. -/
def CallerOk {P : Type} (chunks : List MemChunk) (s : Processors P) (a : LockAction P ChunkCall) :
    Prop :=
  ∀ p call, a = .call p call → CalledFor chunks call ∧ ∀ r, givenBack call = some r →
    r ∈ held s.done ∧ ∀ q, ∀ call' ∈ (s.phase q).pending, givenBack call' ≠ some r

/-- A step of the processors in which the callers keep to `CallerOk`, and every `mem_chunk::alloc`
finds a `WindowSafe` bitmap when it takes the lock. -/
def PagesOk {P : Type} (chunks : List MemChunk) (s : Processors P) (a : LockAction P ChunkCall) :
    Prop :=
  CallerOk chunks s a ∧ TakesOk WindowSafe s a

/-- INTERNAL: from the base on which the section began, the held ranges occupy their pages, and the
ranges that calls are giving back are held, each by one call. -/
structure HeldInv {P : Type} (chunks : List MemChunk) (base : Memory) (s : Processors P) : Prop where
  lock : s.Inv chunkCode WindowSafe base
  pages : PmmInv ⟨⟨base, chunks, 0⟩, held s.done⟩
  calls : ∀ p, ∀ call ∈ (s.phase p).pending, CalledFor chunks call
  returned : ∀ p, ∀ call ∈ (s.phase p).pending, ∀ r, givenBack call = some r → r ∈ held s.done
  once : ∀ p q, ∀ call ∈ (s.phase p).pending, ∀ call' ∈ (s.phase q).pending, ∀ r,
    givenBack call = some r → givenBack call' = some r → p = q

section Held

variable {P : Type} {chunks : List MemChunk}

theorem held_append (done : List (P × ChunkCall × ChunkResult)) (e : P × ChunkCall × ChunkResult) :
    held (done ++ [e]) = afterCall (held done) e.2.1 e.2.2 := by
  unfold held
  rw [List.foldl_append]
  rfl

/-- INTERNAL: the window that a chunk takes from a `WindowSafe` bitmap lies inside the chunk.
SRCLINE: kernel/mm/pmm.cpp:99-124 -/
theorem atomic_alloc_took {m : Memory} {c : MemChunk} {cnt align a : ℕ} {s : Pmm} (hok : ChunksOk chunks)
    (hfor : CalledFor chunks (.alloc c cnt align)) (hsafe : WindowSafe m (.alloc c cnt align))
    (h : c.alloc (bitmapsOnly m) cnt align = some (s, a)) :
    (s.mem = m ∧ a = minusOne) ∨
      ∃ i, TookAt ⟨m, chunks, 0⟩ ⟨s.mem, chunks, 0⟩ c i cnt a := by
  obtain ⟨hc, hcnt, hcnt', halign, halign'⟩ := hfor
  have hbound := hok.bound c hc
  rcases chunk_alloc_cases hcnt hcnt' halign halign' (by simp only [pageSize] at hbound; omega)
    h with ⟨rfl, rfl, -⟩ | ⟨n, hlook, hfit, hmin, hloop, rfl⟩
  · exact Or.inl ⟨rfl, rfl⟩
  · refine Or.inr ⟨start c align n, ?_⟩
    have hinside : start c align n + cnt ≤ c.pageCnt := by
      by_contra hpast
      obtain ⟨k, hk, hf⟩ := hsafe n hlook hfit (by omega)
      exact hmin k hk hf
    have haddr := allocLoop_address m c hcnt (by simp only [pageSize] at hbound; omega)
      (hok.allocBase_eq hc align) hloop
    rw [hok.wrap_address hc (hlook n le_rfl)] at haddr
    exact ⟨hc, hinside, hfit.2, haddr, rfl, rfl⟩

/-- INTERNAL: the atomic `mem_chunk::free` changes the bitmaps alike whatever the rest is. -/
theorem free_mem (c : MemChunk) (s : Pmm) (base cnt : ℕ) :
    (c.free s base cnt).mem = (c.free (bitmapsOnly s.mem) base cnt).mem := by
  unfold MemChunk.free bitmapsOnly
  rfl

/-- INTERNAL: a finished call keeps the held ranges on their pages. -/
theorem PmmInv.finished {m t : Memory} {done : List (P × ChunkCall × ChunkResult)} {p : P}
    {call : ChunkCall} {r : ChunkResult} (h : PmmInv ⟨⟨m, chunks, 0⟩, held done⟩)
    (hfor : CalledFor chunks call) (hsafe : WindowSafe m call)
    (hheld : ∀ r, givenBack call = some r → r ∈ held done)
    (hcall : AtomicCall m (p, call, r) t) :
    PmmInv ⟨⟨t, chunks, 0⟩, held (done ++ [(p, call, r)])⟩ := by
  rw [held_append]
  cases hcall with
  | @alloc _ c cnt align a s hatomic =>
    simp only [afterCall]
    rcases atomic_alloc_took h.chunks hfor hsafe hatomic with ⟨hmem, rfl⟩ | ⟨i, htook⟩
    · rw [if_pos rfl, hmem]
      exact h
    · rw [if_neg (htook.ne_minusOne h.chunks)]
      exact h.alloc hfor.2.1 htook
  | free _ c base cnt =>
    simp only [afterCall]
    have hrel : c.base + base - c.base = base := Nat.add_sub_cancel_left _ _
    have hfind : (chunks.find? fun d => d.holds (c.base + base) cnt) = some c := hfor
    have hne : chunks ≠ [] := by
      rintro rfl
      simp at hfind
    have hfree : Pmm.free ⟨m, chunks, 0⟩ (c.base + base) cnt =
        some (c.free ⟨m, chunks, 0⟩ base cnt) := by
      unfold Pmm.free
      simp only [if_neg hne, hfind, hrel]
    have hinv := h.free (hheld _ rfl) hfree
    have hmem := free_mem c ⟨m, chunks, 0⟩ base cnt
    refine ⟨hinv.chunks, fun q hq => ?_, hinv.apart⟩
    simp only [← hmem]
    exact hinv.occupied q hq

variable [DecidableEq P] {base : Memory} {s t : Processors P} {a : LockAction P ChunkCall}

/-- INTERNAL: the beginning of a call that keeps to the rules. -/
theorem HeldInv.call (h : HeldInv chunks base s) {p : P} {call : ChunkCall}
    (hok : CallerOk chunks s (.call p call)) (hlock : t.Inv chunkCode WindowSafe base)
    (hnow : (t.phase p).pending = [call])
    (hother : ∀ q, q ≠ p → (t.phase q).pending = (s.phase q).pending) (hdone : t.done = s.done) :
    HeldInv chunks base t := by
  obtain ⟨hfor, hback⟩ := hok p call rfl
  have hcases : ∀ q, ∀ call' ∈ (t.phase q).pending,
      (q = p ∧ call' = call) ∨ (q ≠ p ∧ call' ∈ (s.phase q).pending) := by
    intro q call' hq
    by_cases hqp : q = p
    · subst hqp
      rw [hnow] at hq
      exact Or.inl ⟨rfl, List.mem_singleton.mp hq⟩
    · rw [hother q hqp] at hq
      exact Or.inr ⟨hqp, hq⟩
  refine ⟨hlock, hdone ▸ h.pages, fun q call' hq => ?_, fun q call' hq r hr => ?_,
    fun q q' call' hq call'' hq' r hr hr' => ?_⟩
  · rcases hcases q call' hq with ⟨-, rfl⟩ | ⟨-, hq⟩
    · exact hfor
    · exact h.calls q call' hq
  · rw [hdone]
    rcases hcases q call' hq with ⟨-, rfl⟩ | ⟨-, hq⟩
    · exact (hback r hr).1
    · exact h.returned q call' hq r hr
  · rcases hcases q call' hq with ⟨rfl, rfl⟩ | ⟨-, hq⟩ <;>
      rcases hcases q' call'' hq' with ⟨rfl, rfl⟩ | ⟨-, hq'⟩
    · rfl
    · exact absurd hr' ((hback r hr).2 q' call'' hq')
    · exact absurd hr ((hback r hr').2 q call' hq)
    · exact h.once q q' call' hq call'' hq' r hr hr'

omit [DecidableEq P] in
/-- INTERNAL: the end of a call of a processor. -/
theorem HeldInv.release (h : HeldInv chunks base s) {p : P} {call : ChunkCall} {r : ChunkResult}
    (hlock : t.Inv chunkCode WindowSafe t.shared) (hwas : (s.phase p).pending = [call])
    (hnone : (t.phase p).pending = [])
    (hother : ∀ q, q ≠ p → (t.phase q).pending = (s.phase q).pending)
    (hdone : t.done = s.done ++ [(p, call, r)]) (hsafe : WindowSafe base call)
    (hcall : AtomicCall base (p, call, r) t.shared) : HeldInv chunks t.shared t := by
  have hmem : call ∈ (s.phase p).pending := by rw [hwas]; exact List.mem_singleton.mpr rfl
  have hold : ∀ q, ∀ call' ∈ (t.phase q).pending, q ≠ p ∧ call' ∈ (s.phase q).pending := by
    intro q call' hq
    by_cases hqp : q = p
    · subst hqp
      rw [hnone] at hq
      cases hq
    · exact ⟨hqp, by rwa [hother q hqp] at hq⟩
  have hpages := h.pages.finished (h.calls p call hmem) hsafe (h.returned p call hmem) hcall
  refine ⟨hlock, hdone ▸ hpages, fun q call' hq => h.calls q call' (hold q call' hq).2,
    fun q call' hq g hg => ?_, fun q q' call' hq call'' hq' g hg hg' =>
      h.once q q' call' (hold q call' hq).2 call'' (hold q' call'' hq').2 g hg hg'⟩
  -- what another processor is giving back is not what this call gave back
  obtain ⟨hqp, hq⟩ := hold q call' hq
  have hin := h.returned q call' hq g hg
  rw [hdone, held_append]
  cases call with
  | alloc c cnt align =>
    cases r with
    | address a =>
      simp only [afterCall]
      split_ifs
      · exact hin
      · exact List.mem_cons_of_mem _ hin
    | freed => exact hin
  | free c b cnt =>
    refine (List.mem_erase_of_ne ?_).mpr hin
    rintro rfl
    exact hqp (h.once q p call' hq _ hmem _ hg rfl)

/-- INTERNAL: one action of one processor. -/
theorem HeldInv.step (hfits : ∀ c ∈ chunks, c.pageCnt ≤ 2 ^ 63) (h : HeldInv chunks base s)
    (hok : PagesOk chunks s a) (hstep : LockStep chunkCode s a t) :
    ∃ base', HeldInv chunks base' t := by
  obtain ⟨hcaller, htakes⟩ := hok
  have hlock := h.lock.step htakes hstep
  rcases hstep.pending_cases with ⟨p, call, rfl, -, hnow, hother, hdone⟩ |
    ⟨p, call, r, rfl, hleave, hnone, hother, hdone⟩ | ⟨hrel, hcall, hsame, hdone⟩
  · rcases hlock with ⟨hinv, -⟩ | ⟨_, _, _, heq, -⟩
    · exact ⟨base, h.call hcaller hinv hnow hother hdone⟩
    · cases heq
  · rcases hlock with ⟨-, hsame⟩ | ⟨p', call', r', heq, hleave', hinv, -, hsafe, halone⟩
    · rw [hdone] at hsame
      simp at hsame
    · cases heq
      rw [hleave] at hleave'
      cases hleave'
      have hwas : (s.phase p).pending = [call] := by rw [hleave]; rfl
      have hfor : CalledFor chunks call := h.calls p call (by rw [hwas]; simp)
      have hfit : call.Fits := by
        cases call with
        | alloc c cnt align => exact ⟨hfor.2.2.2.2, hfits c hfor.1⟩
        | free => trivial
      exact ⟨t.shared, h.release hinv hwas hnone hother hdone hsafe (.of_alone hfit halone)⟩
  · rcases hlock with ⟨hinv, -⟩ | ⟨_, _, _, heq, -⟩
    · refine ⟨base, hinv, hdone ▸ h.pages, fun q call hq => h.calls q call (hsame q ▸ hq),
        fun q call hq r hr => hdone ▸ h.returned q call (hsame q ▸ hq) r hr,
        fun q q' call hq call' hq' => h.once q q' call (hsame q ▸ hq) call' (hsame q' ▸ hq')⟩
    · exact absurd heq (hrel _)

/-- **Page ranges are exclusive under concurrency.** Whatever the interleaving of the bitmap accesses
of any number of processors that give back only what they hold, if every `mem_chunk::alloc` finds a
`WindowSafe` bitmap when it takes the lock: the ranges handed out and not taken back lie each inside
one chunk, and no two of them share a byte.
SRCLINE: kernel/mm/pmm.cpp:99-170 -/
theorem held_ranges_exclusive {m : Memory} (hchunks : ChunksOk chunks)
    {l : List (LockAction P ChunkCall)}
    (h : Run (Guarded (PagesOk chunks) (LockStep chunkCode)) (LockState.start m) l s) :
    (∀ r ∈ held s.done, ∃ c ∈ chunks, r.Inside c) ∧ (held s.done).Pairwise PageRange.Apart := by
  have hfits : ∀ c ∈ chunks, c.pageCnt ≤ 2 ^ 63 := by
    intro c hc
    have := hchunks.bound c hc
    simp only [pageSize] at this
    omega
  have hinv : ∃ base, HeldInv chunks base s := by
    refine h.invariant (fun s => ∃ base, HeldInv chunks base s) ?_ ⟨m, ?_⟩
    · rintro s a t ⟨base, hs⟩ ⟨hok, hstep⟩
      exact hs.step hfits hok hstep
    · refine ⟨LockState.Inv.start chunkCode WindowSafe m, ⟨hchunks, ?_, List.Pairwise.nil⟩, ?_, ?_, ?_⟩
      · intro r hr
        cases hr
      · intro p call hcall
        cases hcall
      · intro p call hcall
        cases hcall
      · intro p q call hcall
        cases hcall
  obtain ⟨base, hinv⟩ := hinv
  exact hinv.pages.exclusive

/-- INTERNAL: a window of one page ends where the index it starts at does. -/
theorem windowSafe_one (m : Memory) (c : MemChunk) (align : ℕ) :
    WindowSafe m (.alloc c 1 align) := by
  intro n hlook _ hpast
  have := hlook n le_rfl
  omega

/-- INTERNAL: allocations of single pages always keep to the rules. -/
theorem pagesOk_of_single {m : Memory} {l : List (LockAction P ChunkCall)}
    (hcalls : ∀ p, ∀ call ∈ callsOf p l, ∃ c ∈ chunks, ∃ align, 1 ≤ align ∧ align < 2 ^ 64 ∧
      call = .alloc c 1 align)
    (h : Run (LockStep chunkCode) (LockState.start m) l s) :
    Run (Guarded (PagesOk chunks) (LockStep chunkCode)) (LockState.start m) l s := by
  refine (LockState.guarded_of_calls h hcalls).mono ?_
  rintro u a v ⟨⟨hcall, htakes⟩, hstep⟩
  refine ⟨⟨fun p call ha => ?_, fun p call ha hp hl => ?_⟩, hstep⟩
  · obtain ⟨c, hc, align, hpos, hlt, rfl⟩ := hcall p call ha
    exact ⟨⟨hc, le_rfl, by decide, hpos, hlt⟩, fun r hr => by cases hr⟩
  · obtain ⟨c, _, align, _, _, rfl⟩ := htakes p call ha hp hl
    exact windowSafe_one u.shared c align

end Held

/-! ## Two processors -/

/-- A chunk of two pages with its bitmap at address `0`. -/
def twoPages : MemChunk := ⟨0x1000, 2, 1, 0⟩

/-- Both processors ask for a page; the second one tests the lock word while the first one is
between the load and the store of a bitmap byte. -/
def twoCalls : List (LockAction Bool ChunkCall) :=
  [.call false (.alloc twoPages 1 1), .call true (.alloc twoPages 1 1), .test false,
    .access false, .access false, .access false, .test true, .access false, .access false,
    .release false, .test true, .access true, .access true, .access true, .access true,
    .access true, .access true, .access true, .release true]

theorem twoCalls_run : ∃ s : Processors Bool,
    Run (LockStep chunkCode) (LockState.start fun _ => 0) twoCalls s ∧
      (s.locked, s.done) = (false, [(false, .alloc twoPages 1 1, .address 0x1000),
        (true, .alloc twoPages 1 1, .address 0x2000)]) := by
  have hend : ((twoCalls.foldlM (LockState.next chunkCode) (LockState.start fun _ => 0)).map
      fun s => (s.locked, s.done)) = some (false, [(false, .alloc twoPages 1 1, .address 0x1000),
        (true, .alloc twoPages 1 1, .address 0x2000)]) := by
    decide +kernel
  obtain ⟨s, hrun, hs⟩ := Option.map_eq_some_iff.mp hend
  exact ⟨s, (Run.of_foldlM hrun).mono fun _ _ _ => LockState.next_sound, hs⟩

theorem twoCalls_calls (p : Bool) : ∀ call ∈ callsOf p twoCalls, call = .alloc twoPages 1 1 := by
  cases p <;> decide

theorem twoPages_chunksOk : ChunksOk [twoPages] where
  aligned := by simp [twoPages]
  bound := by simp [twoPages, pageSize]
  pages := by simp
  bitmapSize := by simp [twoPages]
  bitmaps := by simp

/-- The two allocations are atomic, one after the other. -/
theorem chunk_calls_atomic_twoCalls : ∃ s : Processors Bool, ∃ base,
    s.done = [(false, .alloc twoPages 1 1, .address 0x1000),
      (true, .alloc twoPages 1 1, .address 0x2000)] ∧
    Run AtomicCall (fun _ => 0) s.done base ∧ s.shared = base := by
  obtain ⟨s, hrun, hs⟩ := twoCalls_run
  obtain ⟨hfree, hdone⟩ := Prod.mk.inj hs
  have hfits : ∀ p, ∀ call ∈ callsOf p twoCalls, call.Fits := by
    intro p call hcall
    rw [twoCalls_calls p call hcall]
    exact ⟨by decide, by decide⟩
  obtain ⟨base, hserial, hbase, -⟩ := chunk_calls_atomic hfits hrun
  exact ⟨s, base, hdone, hserial, hbase hfree⟩

/-- The two pages are held apart. -/
theorem held_ranges_exclusive_twoCalls : ∃ s : Processors Bool,
    held s.done = [⟨0x2000, 1⟩, ⟨0x1000, 1⟩] ∧ (held s.done).Pairwise PageRange.Apart := by
  obtain ⟨s, hrun, hs⟩ := twoCalls_run
  obtain ⟨-, hdone⟩ := Prod.mk.inj hs
  have hcalls : ∀ p, ∀ call ∈ callsOf p twoCalls, ∃ c ∈ [twoPages], ∃ align, 1 ≤ align ∧
      align < 2 ^ 64 ∧ call = .alloc c 1 align := by
    intro p call hcall
    exact ⟨twoPages, List.mem_singleton.mpr rfl, 1, le_rfl, by decide, twoCalls_calls p call hcall⟩
  refine ⟨s, by rw [hdone]; decide, ?_⟩
  exact (held_ranges_exclusive twoPages_chunksOk (pagesOk_of_single hcalls hrun)).2

end CrepOS.Analysis
