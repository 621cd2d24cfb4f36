import CrepOS.Library.Run
import Mathlib.Logic.Function.Basic

/-!
# Code under a spin lock

Several parties run the same code on a shared state. The code is taken apart into its accesses:
`access` makes one access to the shared state and goes on with a new local state, or ends with a
result. A party takes the lock before its first access, by testing and setting the lock word until
it finds it clear, and clears it after its last access. The accesses of the parties interleave in
any order.

The finished calls are recorded in the order in which they release the lock. **Locked code is
atomic**: performing those calls one after another, each alone and to its end, gives the same
results, and whenever the lock is free it gives the shared state (`LockState.Inv.serial`); no call
is lost, repeated or taken out of its party's order (`LockState.program_order`); and if the code
ends when it is left alone, the party that has the lock can always finish (`LockState.Inv.frees`).
-/

set_option autoImplicit false

namespace CrepOS.Library

variable {P S C L R : Type}

/-! ## The code -/

/-- Code for calls `C` with results `R`: the local state in which a call starts, and what the next
access does to the shared state `S` and the local state `L`. -/
structure LockedCode (S C L R : Type) where
  enter : C → L
  access : S → L → S × (L ⊕ R)

/-- `code.Ends s l t r`: the accesses from the local state `l` on, alone on the shared state `s`,
end with the result `r` and leave `t`. -/
inductive LockedCode.Ends (code : LockedCode S C L R) : S → L → S → R → Prop
  | last {s t : S} {l : L} {r : R} : code.access s l = (t, .inr r) → code.Ends s l t r
  | more {s t u : S} {l l' : L} {r : R} :
      code.access s l = (t, .inl l') → code.Ends t l' u r → code.Ends s l u r

/-- A call performed alone on the shared state. -/
def LockedCode.Alone (code : LockedCode S C L R) (s : S) (call : C) (t : S) (r : R) : Prop :=
  code.Ends s (code.enter call) t r

/-- INTERNAL: code left alone has one outcome. -/
theorem LockedCode.Ends.unique {code : LockedCode S C L R} {s t t' : S} {l : L} {r r' : R}
    (h : code.Ends s l t r) (h' : code.Ends s l t' r') : t = t' ∧ r = r' := by
  induction h with
  | last hl =>
    cases h' with
    | last hl' =>
      rw [hl] at hl'
      simpa using hl'
    | more hm' _ =>
      rw [hl] at hm'
      simp at hm'
  | more hm _ ih =>
    cases h' with
    | last hl' =>
      rw [hm] at hl'
      simp at hl'
    | more hm' he' =>
      rw [hm] at hm'
      simp only [Prod.mk.injEq, Sum.inl.injEq] at hm'
      obtain ⟨rfl, rfl⟩ := hm'
      exact ih he'

/-- INTERNAL: a call left alone has one outcome. -/
theorem LockedCode.Alone.unique {code : LockedCode S C L R} {s t t' : S} {call : C} {r r' : R}
    (h : code.Alone s call t r) (h' : code.Alone s call t' r') : t = t' ∧ r = r' :=
  Ends.unique h h'

/-- INTERNAL: an access that is not the last one is followed by the rest. -/
theorem LockedCode.Ends.access_iff {code : LockedCode S C L R} {s t u : S} {l l' : L} {r : R}
    (h : code.access s l = (t, .inl l')) : code.Ends s l u r ↔ code.Ends t l' u r := by
  refine ⟨fun he => ?_, .more h⟩
  cases he with
  | last hl =>
    rw [h] at hl
    simp at hl
  | more hm he =>
    rw [h] at hm
    simp only [Prod.mk.injEq, Sum.inl.injEq] at hm
    obtain ⟨rfl, rfl⟩ := hm
    exact he

/-! ## The parties -/

/-- Where a party is: in no call, testing the lock word, between two accesses, or behind the last
access with the lock still taken. -/
inductive Phase (C L R : Type)
  | outside
  | spinning (call : C)
  | inside (call : C) (l : L)
  | leaving (call : C) (r : R)

/-- The party has the lock. -/
def Phase.InSection : Phase C L R → Prop
  | .outside => False
  | .spinning _ => False
  | .inside _ _ => True
  | .leaving _ _ => True

/-- The call the party has not finished. -/
def Phase.pending : Phase C L R → List C
  | .outside => []
  | .spinning call => [call]
  | .inside call _ => [call]
  | .leaving call _ => [call]

/-- The shared state, the lock word, the parties, and the finished calls in order of release. -/
structure LockState (P S C L R : Type) where
  shared : S
  locked : Bool
  phase : P → Phase C L R
  done : List (P × C × R)

/-- What a party does next: begin a call, test and set the lock word, make an access, clear the lock
word. -/
inductive LockAction (P C : Type)
  | call (p : P) (call : C)
  | test (p : P)
  | access (p : P)
  | release (p : P)

variable [DecidableEq P]

/-- One action of one party. A test that finds the lock word set changes nothing. -/
inductive LockStep (code : LockedCode S C L R) :
    LockState P S C L R → LockAction P C → LockState P S C L R → Prop
  | call {s : LockState P S C L R} {p : P} (call : C) (h : s.phase p = .outside) :
      LockStep code s (.call p call)
        { s with phase := Function.update s.phase p (.spinning call) }
  | spin {s : LockState P S C L R} {p : P} {call : C} (h : s.phase p = .spinning call)
      (hl : s.locked = true) : LockStep code s (.test p) s
  | take {s : LockState P S C L R} {p : P} {call : C} (h : s.phase p = .spinning call)
      (hl : s.locked = false) :
      LockStep code s (.test p) { s with
        locked := true
        phase := Function.update s.phase p (.inside call (code.enter call)) }
  | access {s : LockState P S C L R} {p : P} {call : C} {l l' : L} {t : S}
      (h : s.phase p = .inside call l) (ha : code.access s.shared l = (t, .inl l')) :
      LockStep code s (.access p) { s with
        shared := t
        phase := Function.update s.phase p (.inside call l') }
  | finish {s : LockState P S C L R} {p : P} {call : C} {l : L} {t : S} {r : R}
      (h : s.phase p = .inside call l) (ha : code.access s.shared l = (t, .inr r)) :
      LockStep code s (.access p) { s with
        shared := t
        phase := Function.update s.phase p (.leaving call r) }
  | release {s : LockState P S C L R} {p : P} {call : C} {r : R}
      (h : s.phase p = .leaving call r) :
      LockStep code s (.release p) { s with
        locked := false
        phase := Function.update s.phase p .outside
        done := s.done ++ [(p, call, r)] }

/-- The lock is free, no party has begun a call, and no call is finished. -/
def LockState.start (s : S) : LockState P S C L R := ⟨s, false, fun _ => .outside, []⟩

/-- The condition `ok` on the shared state that a call finds when it takes the lock. -/
def TakesOk (ok : S → C → Prop) (s : LockState P S C L R) (a : LockAction P C) : Prop :=
  ∀ p call, a = .test p → s.phase p = .spinning call → s.locked = false → ok s.shared call

/-- A finished call performed alone, from a state that meets the condition. -/
def SerialStep (code : LockedCode S C L R) (ok : S → C → Prop) (s : S) (e : P × C × R) (t : S) :
    Prop :=
  ok s e.2.1 ∧ code.Alone s e.2.1 t e.2.2

/-! ## The invariant -/

/-- `base` is the shared state when the lock was taken last, or the shared state itself while the
lock is free. The party with the lock is on its way from `base`, alone. -/
structure LockState.Inv (code : LockedCode S C L R) (ok : S → C → Prop) (base : S)
    (s : LockState P S C L R) : Prop where
  free : s.locked = false → s.shared = base
  held : s.locked = true → ∃ p, (s.phase p).InSection
  locked : ∀ p, (s.phase p).InSection → s.locked = true
  one : ∀ p q, (s.phase p).InSection → (s.phase q).InSection → p = q
  inside : ∀ p call l, s.phase p = .inside call l → ok base call ∧
    ∀ t r, code.Ends s.shared l t r ↔ code.Alone base call t r
  leaving : ∀ p call r, s.phase p = .leaving call r → ok base call ∧
    code.Alone base call s.shared r

section Invariant

variable {code : LockedCode S C L R} {ok : S → C → Prop} {base : S}
  {s t : LockState P S C L R} {p q : P}

omit [DecidableEq P] in
/-- INTERNAL: beside the party that has the lock nobody is in the section. -/
theorem LockState.Inv.others (h : s.Inv code ok base) (hp : (s.phase p).InSection) :
    ∀ q, q ≠ p → ¬ (s.phase q).InSection :=
  fun _ hne hq => hne (h.one _ _ hq hp)

variable {f : P → Phase C L R} {ph ph' : Phase C L R}

/-- INTERNAL: only the party that acts changes its place. -/
theorem Phase.of_update (h : Function.update f p ph q = ph') (hne : q ≠ p) : f q = ph' := by
  rwa [Function.update_of_ne hne] at h

/-- INTERNAL: a party that steps out of the section, or stays out of it, is not there. -/
theorem InSection.of_update (h : (Function.update f p ph q).InSection) (hout : ¬ ph.InSection) :
    q ≠ p ∧ (f q).InSection := by
  by_cases hq : q = p
  · subst hq
    rw [Function.update_self] at h
    exact absurd h hout
  · rw [Function.update_of_ne hq] at h
    exact ⟨hq, h⟩

/-- INTERNAL: a party that moves inside the section, or into it, is the only one there. -/
theorem InSection.only (hother : ∀ q, q ≠ p → ¬ (f q).InSection)
    (h : (Function.update f p ph q).InSection) : q = p := by
  by_contra hq
  rw [Function.update_of_ne hq] at h
  exact hother q hq h

omit [DecidableEq P] in
/-- INTERNAL: while the section is empty no party is at a place in it. -/
theorem InSection.nowhere (hnone : ∀ q, ¬ (f q).InSection) (h : f q = ph) : ¬ ph.InSection := by
  rw [← h]
  exact hnone q

/-- INTERNAL: where the party in the section then is. -/
theorem InSection.eq_of_update (hother : ∀ q, q ≠ p → ¬ (f q).InSection)
    (h : Function.update f p ph q = ph') (hin : ph'.InSection) : q = p ∧ ph = ph' := by
  have hsection : (Function.update f p ph q).InSection := by rw [h]; exact hin
  obtain rfl := InSection.only hother hsection
  rw [Function.update_self] at h
  exact ⟨rfl, h⟩

/-- INTERNAL: the beginning of a call leaves the section as it is. -/
theorem LockState.Inv.call (h : s.Inv code ok base) (call : C) (hp : s.phase p = .outside) :
    LockState.Inv code ok base
      { s with phase := Function.update s.phase p (.spinning call) } := by
  have hne : ∀ q, (s.phase q).InSection → q ≠ p := by
    rintro q hq rfl
    rw [hp] at hq
    exact hq
  have hstay : ∀ q ph', Function.update s.phase p (.spinning call) q = ph' → ph'.InSection →
      s.phase q = ph' := by
    intro q ph' hq hin
    by_cases hqp : q = p
    · subst hqp
      rw [Function.update_self] at hq
      subst hq
      exact hin.elim
    · exact Phase.of_update hq hqp
  refine ⟨h.free, fun hl => ?_, fun q hq => ?_, fun q q' hq hq' => ?_, fun q c l hq => ?_,
    fun q c r hq => ?_⟩
  · obtain ⟨q, hq⟩ := h.held hl
    refine ⟨q, ?_⟩
    simpa only [Function.update_of_ne (hne q hq)] using hq
  · exact h.locked q (InSection.of_update hq id).2
  · exact h.one q q' (InSection.of_update hq id).2 (InSection.of_update hq' id).2
  · exact h.inside q c l (hstay q _ hq trivial)
  · exact h.leaving q c r (hstay q _ hq trivial)

/-- INTERNAL: a test that finds the lock word clear begins the section at the state it finds. -/
theorem LockState.Inv.take (h : s.Inv code ok base) {call : C} (hl : s.locked = false)
    (hok : ok s.shared call) :
    LockState.Inv code ok base { s with
      locked := true
      phase := Function.update s.phase p (.inside call (code.enter call)) } := by
  have hother : ∀ q, q ≠ p → ¬ (s.phase q).InSection := by
    intro q _ hq
    rw [h.locked q hq] at hl
    cases hl
  have hbase := h.free hl
  refine ⟨fun hf => by simp at hf, fun _ => ⟨p, by simp [Phase.InSection]⟩, fun _ _ => rfl,
    fun q q' hq hq' => ?_, fun q c l hq => ?_, fun q c r hq => ?_⟩
  · rw [InSection.only hother hq, InSection.only hother hq']
  · obtain ⟨rfl, heq⟩ := InSection.eq_of_update hother hq trivial
    simp only [Phase.inside.injEq] at heq
    obtain ⟨rfl, rfl⟩ := heq
    subst hbase
    exact ⟨hok, fun _ _ => Iff.rfl⟩
  · obtain ⟨rfl, heq⟩ := InSection.eq_of_update hother hq trivial
    cases heq

/-- INTERNAL: an access of the party with the lock is the next access of its call alone. -/
theorem LockState.Inv.access (h : s.Inv code ok base) {call : C} {l l' : L} {u : S}
    (hp : s.phase p = .inside call l) (ha : code.access s.shared l = (u, .inl l')) :
    LockState.Inv code ok base
      { s with shared := u, phase := Function.update s.phase p (.inside call l') } := by
  have hsec : (s.phase p).InSection := by rw [hp]; trivial
  have hother := h.others hsec
  have hlocked := h.locked p hsec
  refine ⟨fun hf => by simp [hlocked] at hf, fun _ => ⟨p, by simp [Phase.InSection]⟩,
    fun _ _ => hlocked, fun q q' hq hq' => ?_, fun q c m hq => ?_, fun q c r hq => ?_⟩
  · rw [InSection.only hother hq, InSection.only hother hq']
  · obtain ⟨rfl, heq⟩ := InSection.eq_of_update hother hq trivial
    simp only [Phase.inside.injEq] at heq
    obtain ⟨rfl, rfl⟩ := heq
    obtain ⟨hok, hends⟩ := h.inside q call l hp
    exact ⟨hok, fun v r => (LockedCode.Ends.access_iff ha).symm.trans (hends v r)⟩
  · obtain ⟨rfl, heq⟩ := InSection.eq_of_update hother hq trivial
    cases heq

/-- INTERNAL: with the last access the call has ended as it ends alone. -/
theorem LockState.Inv.finish (h : s.Inv code ok base) {call : C} {l : L} {u : S} {r : R}
    (hp : s.phase p = .inside call l) (ha : code.access s.shared l = (u, .inr r)) :
    LockState.Inv code ok base
      { s with shared := u, phase := Function.update s.phase p (.leaving call r) } := by
  have hsec : (s.phase p).InSection := by rw [hp]; trivial
  have hother := h.others hsec
  have hlocked := h.locked p hsec
  refine ⟨fun hf => by simp [hlocked] at hf, fun _ => ⟨p, by simp [Phase.InSection]⟩,
    fun _ _ => hlocked, fun q q' hq hq' => ?_, fun q c m hq => ?_, fun q c r' hq => ?_⟩
  · rw [InSection.only hother hq, InSection.only hother hq']
  · obtain ⟨rfl, heq⟩ := InSection.eq_of_update hother hq trivial
    cases heq
  · obtain ⟨rfl, heq⟩ := InSection.eq_of_update hother hq trivial
    simp only [Phase.leaving.injEq] at heq
    obtain ⟨rfl, rfl⟩ := heq
    obtain ⟨hok, hends⟩ := h.inside q call l hp
    exact ⟨hok, (hends u r).mp (.last ha)⟩

/-- INTERNAL: behind the release nobody is in the section. -/
theorem LockState.Inv.release (h : s.Inv code ok base) {call : C} {r : R}
    (hp : s.phase p = .leaving call r) :
    LockState.Inv code ok s.shared { s with
      locked := false
      phase := Function.update s.phase p .outside
      done := s.done ++ [(p, call, r)] } := by
  have hother := h.others (p := p) (by rw [hp]; trivial)
  have hnone : ∀ q, ¬ (Function.update s.phase p .outside q).InSection := by
    intro q hq
    obtain ⟨hne, hq⟩ := InSection.of_update hq id
    exact hother q hne hq
  refine ⟨fun _ => rfl, fun hf => by simp at hf, fun q hq => absurd hq (hnone q),
    fun q _ hq => absurd hq (hnone q), fun q c l hq => ?_, fun q c m hq => ?_⟩
  · exact (InSection.nowhere hnone hq trivial).elim
  · exact (InSection.nowhere hnone hq trivial).elim

/-- **One action of one party.** Either the finished calls and the base stay, or the party that has
the lock releases it, having ended its call from the base as it ends alone. -/
theorem LockState.Inv.step (h : s.Inv code ok base) {a : LockAction P C}
    (hok : TakesOk ok s a) (hstep : LockStep code s a t) :
    (t.Inv code ok base ∧ t.done = s.done) ∨
      ∃ p call r, a = .release p ∧ s.phase p = .leaving call r ∧ t.Inv code ok t.shared ∧
        t.done = s.done ++ [(p, call, r)] ∧ SerialStep code ok base (p, call, r) t.shared := by
  cases hstep with
  | call c hp => exact Or.inl ⟨h.call c hp, rfl⟩
  | spin => exact Or.inl ⟨h, rfl⟩
  | take hp hl => exact Or.inl ⟨h.take hl (hok _ _ rfl hp hl), rfl⟩
  | access hp ha => exact Or.inl ⟨h.access hp ha, rfl⟩
  | finish hp ha => exact Or.inl ⟨h.finish hp ha, rfl⟩
  | release hp =>
    exact Or.inr ⟨_, _, _, rfl, hp, h.release hp, rfl, h.leaving _ _ _ hp⟩

omit [DecidableEq P] in
/-- The state in which nobody has called yet meets the invariant. -/
theorem LockState.Inv.start (code : LockedCode S C L R) (ok : S → C → Prop) (s₀ : S) :
    (LockState.start s₀ : LockState P S C L R).Inv code ok s₀ := by
  refine ⟨fun _ => rfl, fun hf => by simp [LockState.start] at hf, fun p hp => ?_,
    fun p q hp => ?_, fun p c l hp => ?_, fun p c r hp => ?_⟩
  · exact hp.elim
  · exact hp.elim
  · simp [LockState.start] at hp
  · simp [LockState.start] at hp

end Invariant

/-! ## The order of the finished calls -/

variable {code : LockedCode S C L R} {ok : S → C → Prop} {s₀ : S} {l : List (LockAction P C)}
  {s : LockState P S C L R}

/-- **Locked code is atomic.** In every interleaving of the accesses of any number of parties, the
finished calls, performed alone one after another in the order of their releases, have the results
they had, and lead from the first state to a state from which the party with the lock is on its
way: the shared state itself while the lock is free. -/
theorem LockState.serial
    (h : Run (Guarded (TakesOk ok) (LockStep code)) (LockState.start s₀) l s) :
    ∃ base, Run (SerialStep code ok) s₀ s.done base ∧ s.Inv code ok base := by
  refine h.invariant (fun s => ∃ base, Run (SerialStep code ok) s₀ s.done base ∧
    s.Inv code ok base) ?_ ⟨s₀, Run.nil, LockState.Inv.start code ok s₀⟩
  rintro s a t ⟨base, hrun, hinv⟩ ⟨hok, hstep⟩
  rcases hinv.step hok hstep with ⟨hinv', hdone⟩ | ⟨p, call, r, -, -, hinv', hdone, hserial⟩
  · exact ⟨base, hdone ▸ hrun, hinv'⟩
  · exact ⟨t.shared, hdone ▸ Run.snoc hrun hserial, hinv'⟩

/-- The calls that a party began, in order. -/
def callsOf (p : P) (l : List (LockAction P C)) : List C :=
  l.filterMap fun
    | .call q call => if q = p then some call else none
    | _ => none

/-- The calls that a party finished, in order of release. -/
def doneOf (p : P) (done : List (P × C × R)) : List C :=
  done.filterMap fun e => if e.1 = p then some e.2.1 else none

theorem callsOf_append (p : P) (l l' : List (LockAction P C)) :
    callsOf p (l ++ l') = callsOf p l ++ callsOf p l' :=
  List.filterMap_append

theorem doneOf_append (p : P) (d d' : List (P × C × R)) :
    doneOf p (d ++ d') = doneOf p d ++ doneOf p d' :=
  List.filterMap_append

/-- INTERNAL: a party that moves within its call does not change what is pending. -/
theorem pending_update {f : P → Phase C L R} {q : P} {ph ph' : Phase C L R} (h : f q = ph)
    (hph : ph'.pending = ph.pending) (p : P) :
    (Function.update f q ph' p).pending = (f p).pending := by
  by_cases hpq : p = q
  · subst hpq
    rw [Function.update_self, h, hph]
  · rw [Function.update_of_ne hpq]

/-- INTERNAL: what one action changes of the pending and the finished calls: a call begins, a call
is finished, or nothing. -/
theorem LockStep.pending_cases {a : LockAction P C} {t : LockState P S C L R}
    (h : LockStep code s a t) :
    (∃ p call, a = .call p call ∧ (s.phase p).pending = [] ∧ (t.phase p).pending = [call] ∧
        (∀ q, q ≠ p → (t.phase q).pending = (s.phase q).pending) ∧ t.done = s.done) ∨
      (∃ p call r, a = .release p ∧ s.phase p = .leaving call r ∧ (t.phase p).pending = [] ∧
        (∀ q, q ≠ p → (t.phase q).pending = (s.phase q).pending) ∧
        t.done = s.done ++ [(p, call, r)]) ∨
      ((∀ p, a ≠ .release p) ∧ (∀ p call, a ≠ .call p call) ∧
        (∀ q, (t.phase q).pending = (s.phase q).pending) ∧ t.done = s.done) := by
  cases h with
  | @call p call hp =>
    refine Or.inl ⟨p, call, rfl, by rw [hp]; rfl, by simp [Phase.pending], fun q hq => ?_, rfl⟩
    simp only [Function.update_of_ne hq]
  | @release p call r hp =>
    refine Or.inr (Or.inl ⟨p, call, r, rfl, hp, by simp [Phase.pending], fun q hq => ?_, rfl⟩)
    simp only [Function.update_of_ne hq]
  | spin => exact Or.inr (Or.inr ⟨by simp, by simp, fun _ => rfl, rfl⟩)
  | take hp =>
    exact Or.inr (Or.inr ⟨by simp, by simp, fun q => pending_update hp (by rfl) q, rfl⟩)
  | access hp =>
    exact Or.inr (Or.inr ⟨by simp, by simp, fun q => pending_update hp (by rfl) q, rfl⟩)
  | finish hp =>
    exact Or.inr (Or.inr ⟨by simp, by simp, fun q => pending_update hp (by rfl) q, rfl⟩)

/-- **Program order.** Of every party, the calls it began are the calls it finished, in the same
order, and then the one it is in: no call is lost, performed twice or moved before another one. -/
theorem LockState.program_order (h : Run (LockStep code) (LockState.start s₀) l s) (p : P) :
    callsOf p l = doneOf p s.done ++ (s.phase p).pending := by
  refine h.history (fun l s => callsOf p l = doneOf p s.done ++ (s.phase p).pending) ?_ rfl
  intro l s a t hl hstep
  rw [callsOf_append, hl]
  rcases hstep.pending_cases with ⟨q, call, rfl, hnone, hnow, hother, hdone⟩ |
    ⟨q, call, r, rfl, hleave, hnone, hother, hdone⟩ | ⟨hrel, hcall, hsame, hdone⟩
  · rw [hdone]
    by_cases hpq : p = q
    · subst hpq
      rw [hnone, hnow]
      simp [callsOf]
    · rw [hother p hpq]
      simp [callsOf, Ne.symm hpq]
  · rw [hdone, doneOf_append]
    by_cases hpq : p = q
    · subst hpq
      rw [hnone, hleave]
      simp [callsOf, doneOf, Phase.pending]
    · rw [hother p hpq]
      simp [callsOf, doneOf, Ne.symm hpq]
  · rw [hdone, hsame p]
    cases a with
    | call q call => exact absurd rfl (hcall q call)
    | release q => exact absurd rfl (hrel q)
    | test q => simp [callsOf]
    | access q => simp [callsOf]

/-! ## Progress -/

/-- INTERNAL: the accesses of a call that ends alone, made by the party with the lock while the
others rest, bring it to its release. -/
theorem LockedCode.Ends.drive {p : P} {call : C} {m : L} {u v : S} {r : R}
    (h : code.Ends u m v r) {s : LockState P S C L R} (hu : s.shared = u)
    (hp : s.phase p = .inside call m) :
    ∃ l t, Run (LockStep code) s l t ∧ t.phase p = .leaving call r := by
  induction h generalizing s with
  | last hl =>
    subst hu
    exact ⟨_, _, Run.single (.finish hp hl), by simp⟩
  | more hm _ ih =>
    subst hu
    obtain ⟨l, t, hrun, hph⟩ := ih (s := { s with
        shared := _
        phase := Function.update s.phase p (.inside call _) }) rfl (Function.update_self ..)
    exact ⟨_, t, Run.cons (.access hp hm) hrun, hph⟩

/-- **The lock is released.** In a reachable state with the lock taken, if the call that took it ends
when it is left alone, then the party that has the lock can go on, without the others, to its
release. -/
theorem LockState.Inv.frees {base : S} (h : s.Inv code ok base) (hl : s.locked = true)
    (hends : ∀ p, (s.phase p).InSection → ∀ call ∈ (s.phase p).pending,
      ∃ t r, code.Alone base call t r) :
    ∃ l t, Run (LockStep code) s l t ∧ t.locked = false := by
  obtain ⟨p, hp⟩ := h.held hl
  have hend := hends p hp
  cases hph : s.phase p with
  | outside => exact (hph ▸ hp : (Phase.outside : Phase C L R).InSection).elim
  | spinning call => exact (hph ▸ hp : (Phase.spinning call : Phase C L R).InSection).elim
  | inside call m =>
    obtain ⟨t, r, halone⟩ := hend call (by simp [hph, Phase.pending])
    obtain ⟨l, u, hrun, hleave⟩ := (((h.inside p call m hph).2 t r).mpr halone).drive rfl hph
    exact ⟨l ++ [.release p], _, Run.snoc hrun (.release hleave), rfl⟩
  | leaving call r => exact ⟨[.release p], _, Run.single (.release hph), rfl⟩

/-! ## Conditions on the calls alone -/

/-- The call that begins, or takes the lock, meets the condition. -/
def CallsGood (good : C → Prop) (s : LockState P S C L R) (a : LockAction P C) : Prop :=
  (∀ p call, a = .call p call → good call) ∧ TakesOk (fun _ call => good call) s a

/-- INTERNAL: a condition on the calls that the parties begin holds of every call that takes the
lock. -/
theorem LockState.guarded_of_calls {good : C → Prop}
    (h : Run (LockStep code) (LockState.start s₀) l s)
    (hgood : ∀ p, ∀ call ∈ callsOf p l, good call) :
    Run (Guarded (CallsGood good) (LockStep code)) (LockState.start s₀) l s := by
  induction h with
  | nil => exact Run.nil
  | @snoc t u l a ht ha ih =>
    have hgood' : ∀ p, ∀ call ∈ callsOf p l, good call := by
      intro p call hcall
      exact hgood p call (by rw [callsOf_append]; exact List.mem_append_left _ hcall)
    refine Run.snoc (ih hgood') ⟨⟨fun p call hcall => hgood p call ?_, fun p call _ hp _ =>
      hgood' p call ?_⟩, ha⟩
    · rw [callsOf_append, hcall]
      simp [callsOf]
    · rw [LockState.program_order ht p, hp]
      simp [Phase.pending]

/-! ## Computed steps -/

/-- The next state, where the action is possible. -/
def LockState.next (code : LockedCode S C L R) (s : LockState P S C L R) :
    LockAction P C → Option (LockState P S C L R)
  | .call p call =>
    match s.phase p with
    | .outside => some { s with phase := Function.update s.phase p (.spinning call) }
    | _ => none
  | .test p =>
    match s.phase p, s.locked with
    | .spinning _, true => some s
    | .spinning call, false => some { s with
        locked := true
        phase := Function.update s.phase p (.inside call (code.enter call)) }
    | _, _ => none
  | .access p =>
    match s.phase p with
    | .inside call l =>
      match code.access s.shared l with
      | (t, .inl l') =>
        some { s with shared := t, phase := Function.update s.phase p (.inside call l') }
      | (t, .inr r) =>
        some { s with shared := t, phase := Function.update s.phase p (.leaving call r) }
    | _ => none
  | .release p =>
    match s.phase p with
    | .leaving call r => some { s with
        locked := false
        phase := Function.update s.phase p .outside
        done := s.done ++ [(p, call, r)] }
    | _ => none

/-- INTERNAL: a computed step is a step. -/
theorem LockState.next_sound {a : LockAction P C} {t : LockState P S C L R}
    (h : s.next code a = some t) : LockStep code s a t := by
  cases a with
  | call p call =>
    simp only [LockState.next] at h
    split at h
    · cases h
      exact .call call ‹_›
    · cases h
  | test p =>
    simp only [LockState.next] at h
    split at h
    · cases h
      exact .spin ‹_› ‹_›
    · cases h
      exact .take ‹_› ‹_›
    · cases h
  | access p =>
    simp only [LockState.next] at h
    split at h
    · split at h
      · cases h
        exact .access ‹_› ‹_›
      · cases h
        exact .finish ‹_› ‹_›
    · cases h
  | release p =>
    simp only [LockState.next] at h
    split at h
    · cases h
      exact .release ‹_›
    · cases h

end CrepOS.Library
