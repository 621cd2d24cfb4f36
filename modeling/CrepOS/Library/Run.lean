import Mathlib.Data.List.Induction

/-!
# Runs of a labelled step relation

A system is a relation `step s a t`: in state `s` the action `a` may lead to `t`. `Run step s l t`
says that the actions of `l`, performed in order from `s`, may lead to `t`. Every state a system
reaches is the end of a run, so a property of all reachable states is a property of the ends of
runs, and it is proved with one step lemma through `Run.invariant`.

`Guarded ok step` keeps only the steps whose action and starting state satisfy `ok`: a run of it is
a run of the system all of whose steps meet the condition `ok`.
-/

set_option autoImplicit false

namespace CrepOS.Library

variable {σ α : Type}

/-- `Run step s l t`: performing the actions `l` from `s` may end in `t`. -/
inductive Run (step : σ → α → σ → Prop) (s : σ) : List α → σ → Prop
  | nil : Run step s [] s
  | snoc {t u : σ} {l : List α} {a : α} :
      Run step s l t → step t a u → Run step s (l ++ [a]) u

/-- The steps of `step` whose action is permitted by `ok` in the state it starts from. -/
def Guarded (ok : σ → α → Prop) (step : σ → α → σ → Prop) (s : σ) (a : α) (t : σ) : Prop :=
  ok s a ∧ step s a t

/-- **The invariant rule.** What holds at the start and is preserved by every step holds at the
end of every run. -/
theorem Run.invariant {step : σ → α → σ → Prop} (I : σ → Prop)
    (hstep : ∀ s a t, I s → step s a t → I t) {s t : σ} {l : List α}
    (h : Run step s l t) (hs : I s) : I t := by
  induction h with
  | nil => exact hs
  | snoc _ ha ih => exact hstep _ _ _ ih ha

/-- **The history rule.** An invariant that also speaks about the actions performed so far. -/
theorem Run.history {step : σ → α → σ → Prop} (I : List α → σ → Prop)
    (hstep : ∀ l s a t, I l s → step s a t → I (l ++ [a]) t) {s t : σ} {l : List α}
    (h : Run step s l t) (hs : I [] s) : I l t := by
  induction h with
  | nil => exact hs
  | snoc _ ha ih => exact hstep _ _ _ _ ih ha

/-- One step is a run of one action. -/
theorem Run.single {step : σ → α → σ → Prop} {s t : σ} {a : α} (h : step s a t) :
    Run step s [a] t :=
  Run.snoc Run.nil h

/-- A step before a run. -/
theorem Run.cons {step : σ → α → σ → Prop} {s t u : σ} {a : α} {l : List α} (h : step s a t)
    (hr : Run step t l u) : Run step s (a :: l) u := by
  induction hr with
  | nil => exact Run.single h
  | snoc _ hb ih => exact Run.snoc ih hb

/-- A computed run of a partial step function. -/
theorem Run.of_foldlM {f : σ → α → Option σ} {s t : σ} {l : List α} (h : l.foldlM f s = some t) :
    Run (fun s a t => f s a = some t) s l t := by
  induction l using List.reverseRecOn generalizing t with
  | nil =>
    obtain rfl : s = t := Option.some.inj h
    exact Run.nil
  | append_singleton l a ih =>
    rw [List.foldlM_append, Option.bind_eq_bind, Option.bind_eq_some_iff] at h
    obtain ⟨u, hu, ha⟩ := h
    rw [List.foldlM_cons, Option.bind_eq_bind, Option.bind_eq_some_iff] at ha
    obtain ⟨t', ht', hnil⟩ := ha
    obtain rfl : t' = t := Option.some.inj hnil
    exact Run.snoc (ih hu) ht'

/-- A run of one system is a run of another that can do its steps. -/
theorem Run.mono {step step' : σ → α → σ → Prop} (hstep : ∀ s a t, step s a t → step' s a t)
    {s t : σ} {l : List α} (h : Run step s l t) : Run step' s l t := by
  induction h with
  | nil => exact Run.nil
  | snoc _ ha ih => exact Run.snoc ih (hstep _ _ _ ha)

/-- A computed run of a partial step function whose steps are all permitted. -/
theorem Run.of_guarded {ok : σ → α → Prop} [∀ s a, Decidable (ok s a)] {f : σ → α → Option σ}
    {s t : σ} {l : List α} (h : l.foldlM (fun s a => if ok s a then f s a else none) s = some t) :
    Run (Guarded ok fun s a t => f s a = some t) s l t := by
  refine Run.mono ?_ (Run.of_foldlM h)
  intro s a t hstep
  by_cases hok : ok s a
  · rw [if_pos hok] at hstep
    exact ⟨hok, hstep⟩
  · rw [if_neg hok] at hstep
    cases hstep

end CrepOS.Library
