import CrepOS.Interface.StringRuns
import Mathlib.Data.List.Forall2

/-!
# Runs of the operations on strings

The constructor from a text with a zero byte and the copy allocate one byte more than there are characters, and keep what
should hold of all strings. All other operations break it: the constructor from a pointer and a length, and `operator+`,
write the zero byte behind their allocation; `erase` writes none and leaves no room for it; `substr` is the constructor
from a pointer and a length, or a string without an allocation.
-/

set_option autoImplicit false

namespace CrepOS.Analysis

open CrepOS.Library CrepOS.Model CrepOS.Interface

variable {s t : StringState} {h h' : StringHeap} {x y : StringObject} {c : StringCall} {text : LibString}
  {texts texts' : List LibString} {a b n src : ℕ}

/-! ## The operations that leave room -/

/-- A string does not change when its characters and its allocation do not. -/
theorem represents_frame (hx : Represents h x text)
    (hbytes : ∀ k ≤ x.length, h'.bytes (x.raw + k) = h.bytes (x.raw + k)) (hblocks : ∀ r ∈ h.blocks, r ∈ h'.blocks) :
    Represents h' x text where
  chars := by
    rw [← hx.chars]
    exact Memory.bytes_congr fun k hk => hbytes k (Nat.le_of_lt hk)
  terminated := by
    rw [hbytes x.length (Nat.le_refl _)]
    exact hx.terminated
  inMemory := hx.inMemory
  allocated := by
    obtain ⟨n, hmem, hroom⟩ := hx.allocated
    exact ⟨n, hblocks _ hmem, hroom⟩

/-- INTERNAL: the bytes of a new string, and the other ones. -/
theorem copy_put_bytes (hsrc : a + (n + 1) ≤ src ∨ src + n ≤ a) :
    (((h.copy a src n).put (a + n) 0).bytes.bytes a n = h.bytes.bytes src n) ∧
      ((h.copy a src n).put (a + n) 0).bytes (a + n) = 0 ∧
      ∀ k, k < a ∨ a + (n + 1) ≤ k → ((h.copy a src n).put (a + n) 0).bytes k = h.bytes k := by
  refine ⟨Memory.bytes_congr fun k hk => ?_, Function.update_self .., fun k hk => ?_⟩
  · have hcopied : memcpy8 h.bytes a src n (a + k) = h.bytes (src + k) := memcpy8_copied h.bytes hk (by omega)
    exact (Function.update_of_ne (by omega) ..).trans hcopied
  · have houtside : memcpy8 h.bytes a src n k = h.bytes k := memcpy8_outside h.bytes (by omega)
    exact (Function.update_of_ne (by omega) ..).trans houtside

/-- **A new string** with one byte more than it has characters.
SRCLINE: kernel/lib/string.cpp:7-12, 18-27 -/
theorem stringsRight_push (hs : StringsRight s texts) (hmemory : 0 < a ∧ a + (n + 1) < 2 ^ 64)
    (hfresh : ∀ r ∈ s.heap.blocks, RequestsApart (a, n + 1) r) (hsrc : a + (n + 1) ≤ src ∨ src + n ≤ a) :
    StringsRight (s.push ((((s.heap.start.new a (n + 1)).copy a src n).put (a + n) 0), ⟨n, a⟩))
      (texts ++ [s.heap.bytes.bytes src n]) := by
  obtain ⟨hchars, hzero, hkept⟩ := copy_put_bytes (h := s.heap.start.new a (n + 1)) hsrc
  have hnew : Represents (((s.heap.start.new a (n + 1)).copy a src n).put (a + n) 0) ⟨n, a⟩
      (s.heap.bytes.bytes src n) :=
    { chars := hchars
      terminated := hzero
      inMemory := ⟨hmemory.1, by dsimp only; omega⟩
      allocated := ⟨n + 1, List.mem_cons_self, Nat.le_refl _⟩ }
  constructor
  · refine List.rel_append (hs.represents.imp fun x text hx => ?_) (List.Forall₂.cons hnew List.Forall₂.nil)
    obtain ⟨m, hmem, hroom⟩ := hx.allocated
    obtain ⟨_, hapart⟩ := hfresh _ hmem
    refine represents_frame hx (fun k hk => hkept _ ?_) fun r hr => List.mem_cons_of_mem _ hr
    dsimp only at hapart
    omega
  · intro w hw k hk
    refine ⟨(a, n + 1), List.mem_cons_self, ?_⟩
    have hranges : w = (a + n, 1) ∨ w = (a, n) := by simpa [StringState.push, StringHeap.put, StringHeap.copy,
      StringHeap.new, StringHeap.start] using hw
    cases hranges with
    | inl hzero =>
      subst hzero
      dsimp only at hk ⊢
      omega
    | inr hcopied =>
      subst hcopied
      dsimp only at hk ⊢
      omega

/-- INTERNAL: the string at a place represents the list at that place. -/
theorem represents_at {i : ℕ} (hs : StringsRight s texts) (hx : s.strings[i]? = some x) :
    Represents s.heap x (texts.getD i []) := by
  obtain ⟨hlt, rfl⟩ := List.getElem?_eq_some_iff.mp hx
  have hlt' : i < texts.length := hs.represents.length_eq ▸ hlt
  rw [List.getD_eq_getElem?_getD, List.getElem?_eq_getElem hlt', Option.getD_some]
  exact hs.represents.get hlt hlt'

/-- **The step lemma.** The operations that leave room keep the strings right. -/
theorem stringsRight_step (hs : StringsRight s texts) (hstep : StringStep (s, texts) (c, a, b) (t, texts'))
    (hroom : LeavesRoom c) : StringsRight t texts' := by
  have hcalled := hstep.called
  have hpermitted := hstep.permitted
  have hfresh := hstep.fresh
  have htexts : texts' = listCall s.heap.bytes texts c := hstep.texts
  dsimp only at hcalled hpermitted hfresh
  rw [htexts]
  cases c with
  | ofCString raw =>
    obtain ⟨n, hn, hbound⟩ := hpermitted
    rw [StringState.call, StringHeap.ofCString, show s.heap.start.bytes = s.heap.bytes from rfl, hn, Option.map_some,
      Option.map_some, Nat.mod_eq_of_lt (by omega)] at hcalled
    rw [listCall, hn, Option.getD_some]
    rw [← Option.some.inj hcalled] at hfresh ⊢
    have hargument := hfresh.argument (a, n + 1) List.mem_cons_self (raw, n + 1)
      (by rw [StringCall.argument, hn]; rfl)
    dsimp only at hargument
    exact stringsRight_push hs (hfresh.inMemory (a, n + 1) List.mem_cons_self)
      (hfresh.fresh (a, n + 1) List.mem_cons_self) (by omega)
  | ofString i =>
    rw [StringState.call, Option.map_eq_some_iff] at hcalled
    obtain ⟨x, hx, rfl⟩ := hcalled
    have hrep := represents_at hs hx
    have hmemory := hrep.inMemory
    obtain ⟨m, hmem, hlarge⟩ := hrep.allocated
    rw [StringHeap.ofString, Nat.mod_eq_of_lt (by omega)] at hfresh ⊢
    rw [listCall, ← hrep.chars]
    obtain ⟨_, hapart⟩ := hfresh.fresh (a, x.length + 1) List.mem_cons_self _ hmem
    dsimp only at hapart
    exact stringsRight_push hs (hfresh.inMemory (a, x.length + 1) List.mem_cons_self)
      (hfresh.fresh (a, x.length + 1) List.mem_cons_self) (by omega)
  | ofChars => exact hroom.elim
  | plus => exact hroom.elim
  | plusAssign => exact hroom.elim
  | substr => exact hroom.elim
  | erase => exact hroom.elim

/-! ## The other operations -/

/-- **A pointer and a length**: the zero byte is behind the allocation.
SRCLINE: kernel/lib/string.cpp:29-36 -/
theorem ofChars_writes (hrequested : h.requested = []) : ¬ WritesInside (h.ofChars a src n).1 := by
  intro hinside
  obtain ⟨r, hr, hfrom, hto⟩ := hinside (a + n, 1) List.mem_cons_self 0 Nat.one_pos
  have hr : r ∈ (a, n) :: h.requested := hr
  rw [hrequested, List.mem_singleton] at hr
  subst hr
  dsimp only at hfrom hto
  omega

/-- **A sum**: the zero byte is behind the allocation in `new_str`, and in the string that is returned. One of them can be
in the allocation of the other.
SRCLINE: kernel/lib/string.cpp:100-111 -/
theorem plus_writes (hrequested : h.requested = []) : ¬ WritesInside (h.plus a b x y).1 := by
  intro hinside
  obtain ⟨n, hn⟩ : ∃ n, n = (x.length + y.length) % 2 ^ 64 := ⟨_, rfl⟩
  have hrequests : ∀ r ∈ (h.plus a b x y).1.requested, r = (b, n) ∨ r = (a, n) := by
    intro r hr
    have hr : r ∈ (b, (x.length + y.length) % 2 ^ 64) :: (a, (y.length + x.length) % 2 ^ 64) :: h.requested := hr
    rw [hrequested, Nat.add_comm y.length, ← hn] at hr
    simpa using hr
  obtain ⟨r, hr, hfrom, hto⟩ := hinside (b + (x.length + y.length) % 2 ^ 64, 1) List.mem_cons_self 0 Nat.one_pos
  obtain ⟨r', hr', hfrom', hto'⟩ := hinside (a + (x.length + y.length) % 2 ^ 64, 1)
    (List.mem_cons_of_mem _ (List.mem_cons_of_mem _ List.mem_cons_self)) 0 Nat.one_pos
  rw [← hn] at hfrom hto hfrom' hto'
  cases hrequests r hr with
  | inl hsame =>
    subst hsame
    dsimp only at hfrom hto
    omega
  | inr hother =>
    cases hrequests r' hr' with
    | inl hother' =>
      subst hother hother'
      dsimp only at hfrom hto hfrom' hto'
      omega
    | inr hsame' =>
      subst hsame'
      dsimp only at hfrom' hto'
      omega

/-- **An erased part**: there is no room for the zero byte.
SRCLINE: kernel/lib/string.cpp:144-166 -/
theorem erase_short {pos size : ℕ} (hfresh : ∀ r ∈ h.blocks, a ≠ r.1) :
    ¬ Represents (h.erase a x pos size).1 (h.erase a x pos size).2 text := by
  intro hx
  obtain ⟨n, hmem, hroom⟩ := hx.allocated
  have hmem := List.mem_of_mem_filter hmem
  cases List.mem_cons.mp hmem with
  | inl hnew =>
    have hn := congrArg Prod.snd hnew
    dsimp only [StringHeap.erase] at hn hroom
    omega
  | inr hold => exact absurd rfl (hfresh _ hold)

/-- INTERNAL: a part is a string without an allocation, or the constructor from a pointer and a length.
SRCLINE: kernel/lib/string.cpp:168-176 -/
theorem substr_cases (first size : ℕ) : h.substr a x first size = (h, ⟨0, 0⟩) ∨
    ∃ n, h.substr a x first size = h.ofChars a (x.raw + first) n := by
  rw [StringHeap.substr]
  by_cases hsize : (if size = npos.toNat then subSize x.length first else size) = 0
  · exact Or.inl (if_pos hsize)
  · exact Or.inr ⟨_, if_neg hsize⟩

/-- **The other operations break what should hold**, for every memory, every string and all arguments. -/
theorem leavesRoom_of_right (hstep : StringStep (s, texts) (c, a, b) (t, texts')) (ht : StringsRight t texts') :
    LeavesRoom c := by
  have hcalled := hstep.called
  have hfresh := hstep.fresh.fresh
  dsimp only at hcalled hfresh
  cases c with
  | ofCString => trivial
  | ofString => trivial
  | ofChars raw length =>
    rw [← Option.some.inj hcalled] at ht
    exact absurd ht.writes (ofChars_writes rfl)
  | plus i j =>
    rw [StringState.call, Option.bind_eq_some_iff] at hcalled
    obtain ⟨x, _, hcalled⟩ := hcalled
    obtain ⟨y, _, rfl⟩ := Option.map_eq_some_iff.mp hcalled
    exact absurd ht.writes (plus_writes rfl)
  | plusAssign i j =>
    rw [StringState.call, Option.bind_eq_some_iff] at hcalled
    obtain ⟨x, _, hcalled⟩ := hcalled
    obtain ⟨y, _, rfl⟩ := Option.map_eq_some_iff.mp hcalled
    exact absurd ht.writes (plus_writes rfl)
  | substr i start size =>
    rw [StringState.call, Option.map_eq_some_iff] at hcalled
    obtain ⟨x, _, rfl⟩ := hcalled
    cases @substr_cases s.heap.start x a start size with
    | inl hempty =>
      rw [hempty] at ht
      have hrep := represents_at ht List.getElem?_concat_length
      exact absurd hrep.inMemory.1 (Nat.lt_irrefl 0)
    | inr hpart =>
      obtain ⟨n, hn⟩ := hpart
      rw [hn] at ht
      exact absurd ht.writes (ofChars_writes rfl)
  | erase i pos size =>
    rw [StringState.call, Option.map_eq_some_iff] at hcalled
    obtain ⟨x, hx, rfl⟩ := hcalled
    have hlt := (List.getElem?_eq_some_iff.mp hx).1
    have hrep := represents_at ht (List.getElem?_set_self hlt)
    refine absurd hrep (erase_short fun r hr => ?_)
    exact (hfresh _ List.mem_cons_self r hr).1

/-! ## The result -/

variable {m : Memory} {blocks : List (ℕ × ℕ)} {l : List (StringCall × ℕ × ℕ)} {u : StringState × List LibString}

/-- INTERNAL: a run of operations that leave room, by the invariant rule. -/
theorem stringsRight_of_leavesRoom (hrun : Run StringStep (noStrings m blocks) l u) (hroom : ∀ c ∈ l, LeavesRoom c.1) :
    StringsRight u.1 u.2 := by
  induction hrun with
  | nil => exact ⟨List.Forall₂.nil, fun w hw => absurd hw List.not_mem_nil⟩
  | snoc _ hstep ih =>
    have hs := ih fun c hc => hroom c (List.mem_append_left _ hc)
    exact stringsRight_step hs hstep (hroom _ (List.mem_append_right _ List.mem_cons_self))

/-- **The strings are right after each operation of a run if and only if** all operations are constructors from texts with a
zero byte, and copies. The induction is on the run.
SRCLINE: kernel/lib/string.cpp:7-50, 100-111, 144-176 -/
theorem stringsRight_iff (hrun : Run StringStep (noStrings m blocks) l u) :
    (∀ l₁ u₁, l₁ <+: l → Run StringStep (noStrings m blocks) l₁ u₁ → StringsRight u₁.1 u₁.2) ↔
      ∀ c ∈ l, LeavesRoom c.1 := by
  constructor
  · intro hright
    induction hrun with
    | nil => exact fun c hc => absurd hc List.not_mem_nil
    | snoc hrun hstep ih =>
      intro c hc
      cases List.mem_append.mp hc with
      | inl hbefore => exact ih (fun l₁ u₁ hl => hright l₁ u₁ (hl.trans (List.prefix_append _ _))) c hbefore
      | inr hlast =>
        rw [List.mem_singleton.mp hlast]
        exact leavesRoom_of_right hstep (hright _ _ (List.prefix_refl _) (Run.snoc hrun hstep))
  · intro hroom l₁ u₁ hl hrun'
    exact stringsRight_of_leavesRoom hrun' fun c hc => hroom c (hl.subset hc)

/-- INTERNAL: an operation with a single allocation, at `a`. -/
theorem freshRequests_single (hmemory : 0 < a ∧ a + n < 2 ^ 64) (hfresh : ∀ r ∈ s.heap.blocks, RequestsApart (a, n) r)
    (hargument : ∀ r ∈ StringCall.argument s.heap.bytes c, a + n ≤ r.1 ∨ r.1 + r.2 ≤ a) : FreshRequests s c [(a, n)] where
  apart := List.pairwise_singleton _ _
  inMemory := fun r hr => by
    rw [List.mem_singleton.mp hr]
    exact hmemory
  fresh := fun r hr => by
    rw [List.mem_singleton.mp hr]
    exact hfresh
  argument := fun r hr => by
    rw [List.mem_singleton.mp hr]
    exact hargument

/-- A memory with the text `ab` at 16. -/
def abText : Memory := Memory.ofWords [(16, 0x6261)]

/-- The text is a string at 100. -/
def abString : StringState × List LibString :=
  ((noStrings abText []).1.push ((((noStrings abText []).1.heap.new 100 3).copy 100 16 2).put 102 0, ⟨2, 100⟩),
    [[0x61, 0x62]])

/-- The string is copied to 200. -/
def abTwice : StringState × List LibString :=
  (abString.1.push (((abString.1.heap.start.new 200 3).copy 200 100 2).put 202 0, ⟨2, 200⟩), [[0x61, 0x62], [0x61, 0x62]])

theorem abString_step : StringStep (noStrings abText []) (.ofCString 16, 100, 0) abString where
  permitted := ⟨2, by decide, by decide⟩
  called := rfl
  fresh := freshRequests_single (by decide) (fun r hr => absurd hr List.not_mem_nil) (by decide)
  texts := by decide

theorem abTwice_step : StringStep abString (.ofString 0, 200, 0) abTwice where
  permitted := trivial
  called := rfl
  fresh := freshRequests_single (by decide) (by unfold RequestsApart; decide) (by decide)
  texts := by decide

/-- Both strings are right. -/
theorem abTwice_right_iff : (∀ l₁ u₁, l₁ <+: [(.ofCString 16, 100, 0), (.ofString 0, 200, 0)] →
    Run StringStep (noStrings abText []) l₁ u₁ → StringsRight u₁.1 u₁.2) ↔
      ∀ c ∈ [(StringCall.ofCString 16, 100, 0), (.ofString 0, 200, 0)], LeavesRoom c.1 :=
  stringsRight_iff (Run.snoc (Run.single abString_step) abTwice_step)

/-- The first two bytes at 16 are a string of two characters at 100. -/
def abChars : StringState × List LibString :=
  ((noStrings abText []).1.push ((noStrings abText []).1.heap.ofChars 100 16 2), [[0x61, 0x62]])

theorem abChars_step : StringStep (noStrings abText []) (.ofChars 16 2, 100, 0) abChars where
  permitted := by
    unfold Permitted
    decide
  called := rfl
  fresh := freshRequests_single (by decide) (fun r hr => absurd hr List.not_mem_nil) (by decide)
  texts := by decide

/-- The zero byte of `abChars` is behind its allocation. -/
theorem abChars_not_right : ¬ ∀ (m : Memory) (blocks : List (ℕ × ℕ)) (l : List (StringCall × ℕ × ℕ))
    (u : StringState × List LibString), Run StringStep (noStrings m blocks) l u → StringsRight u.1 u.2 := by
  intro h
  have hright := h abText [] [(.ofChars 16 2, 100, 0)] abChars (Run.single abChars_step)
  exact leavesRoom_of_right abChars_step hright

end CrepOS.Analysis
