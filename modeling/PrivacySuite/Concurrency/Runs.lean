import Mathlib

/-!
# Interleavings as runs of events

A system of concurrent parties is a partial step function on its shared state:
`step s e` is the state after the atomic event `e`, and `none` when `e` cannot
happen in `s`. A run is a list of events; an interleaving of several parties is
just the order in which their events stand in it.

`run_invariant` is the induction every safety argument uses. `run_cons_split` cuts a run at
one of its events, so that a statement can speak of what came before a moment
and of what follows it.
-/

namespace Concurrency

variable {σ ε : Type} {step : σ → ε → Option σ}

/-- The state after a run, when every event of it could happen. -/
def run (step : σ → ε → Option σ) (s : σ) (events : List ε) : Option σ := events.foldlM step s

@[simp] theorem run_nil (s : σ) : run step s [] = some s := rfl

@[simp] theorem run_cons (s : σ) (e : ε) (events : List ε) :
    run step s (e :: events) = (step s e).bind fun s' => run step s' events := rfl

theorem run_append (s : σ) (first second : List ε) :
    run step s (first ++ second) = (run step s first).bind fun s' => run step s' second := by
  simp [run, List.foldlM_append]

variable {s s' : σ} {events : List ε} {I : σ → Prop}

theorem run_trans {s₁ s₂ : σ} {first second : List ε} (h₁ : run step s first = some s₁)
    (h₂ : run step s₁ second = some s₂) : run step s (first ++ second) = some s₂ := by
  rw [run_append, h₁]
  exact h₂

theorem run_concat (h : run step s events = some s') (e : ε) :
    run step s (events ++ [e]) = step s' e := by
  rw [run_append, h]
  simp

theorem run_step {s₁ s₂ : σ} {e : ε} (h : run step s events = some s₁) (he : step s₁ e = some s₂) :
    run step s (events ++ [e]) = some s₂ :=
  (run_concat h e).trans he

theorem run_append_split {first second : List ε} (h : run step s (first ++ second) = some s') :
    ∃ mid, run step s first = some mid ∧ run step mid second = some s' := by
  rw [run_append, Option.bind_eq_some_iff] at h
  exact h

theorem run_cons_split {before after : List ε} {e : ε}
    (h : run step s (before ++ e :: after) = some s') :
    ∃ s₁ s₂, run step s before = some s₁ ∧ step s₁ e = some s₂ ∧ run step s₂ after = some s' := by
  obtain ⟨s₁, hbefore, hrest⟩ := run_append_split h
  rw [run_cons, Option.bind_eq_some_iff] at hrest
  obtain ⟨s₂, hstep, hafter⟩ := hrest
  exact ⟨s₁, s₂, hbefore, hstep, hafter⟩

/-- The invariant rule: what holds at the start and is kept by every event holds
after every run. -/
theorem run_invariant (hstep : ∀ s e s', I s → step s e = some s' → I s') (h0 : I s)
    (h : run step s events = some s') : I s' := by
  induction events generalizing s with
  | nil =>
    cases h
    exact h0
  | cons e rest ih =>
    rw [run_cons, Option.bind_eq_some_iff] at h
    obtain ⟨s₁, he, hrest⟩ := h
    exact ih (hstep s e s₁ h0 he) hrest

/-- What holds before a run and not after it is undone by one of the events. -/
theorem run_undoes {P : σ → Prop} (hbefore : P s) (hafter : ¬ P s')
    (h : run step s events = some s') :
    ∃ first e rest s₁ s₂, events = first ++ e :: rest ∧ run step s first = some s₁ ∧ P s₁ ∧
      step s₁ e = some s₂ ∧ ¬ P s₂ := by
  induction events generalizing s with
  | nil =>
    cases h
    exact absurd hbefore hafter
  | cons e rest ih =>
    rw [run_cons, Option.bind_eq_some_iff] at h
    obtain ⟨s₁, he, hrest⟩ := h
    by_cases hkept : P s₁
    · obtain ⟨first, e', rest', s₂, s₃, rfl, hfirst, hundone⟩ := ih hkept hrest
      refine ⟨e :: first, e', rest', s₂, s₃, rfl, ?_, hundone⟩
      rw [run_cons, he]
      exact hfirst
    · exact ⟨[], e, rest, s, s₁, rfl, rfl, hbefore, he, hkept⟩

/-! ## Schedules -/

/-- A run whose every event the schedule allows where it happens. -/
inductive RunsUnder (allows : σ → ε → Prop) (step : σ → ε → Option σ) : σ → List ε → σ → Prop where
  | nil (s : σ) : RunsUnder allows step s [] s
  | cons {s s₁ s' : σ} {e : ε} {rest : List ε} (hallows : allows s e) (hstep : step s e = some s₁)
      (hrest : RunsUnder allows step s₁ rest s') : RunsUnder allows step s (e :: rest) s'

/-- The invariant rule under a schedule: only allowed events have to keep it. -/
theorem RunsUnder.invariant {allows : σ → ε → Prop}
    (hstep : ∀ s e s', I s → allows s e → step s e = some s' → I s') (h0 : I s)
    (h : RunsUnder allows step s events s') : I s' := by
  induction h with
  | nil s => exact h0
  | cons hallows he _ ih => exact ih (hstep _ _ _ h0 hallows he)

/-- A run of events that are all of one kind is allowed, if along the invariant such
events are. -/
theorem RunsUnder.of_run {allows : σ → ε → Prop} {P : ε → Prop}
    (hstep : ∀ s e s', I s → P e → step s e = some s' → allows s e ∧ I s') (h0 : I s)
    (hevents : ∀ e ∈ events, P e) (h : run step s events = some s') :
    RunsUnder allows step s events s' := by
  induction events generalizing s with
  | nil =>
    cases h
    exact .nil _
  | cons e rest ih =>
    rw [run_cons, Option.bind_eq_some_iff] at h
    obtain ⟨s₁, he, hrest⟩ := h
    obtain ⟨hallows, h1⟩ := hstep s e s₁ h0 (hevents e List.mem_cons_self) he
    exact .cons hallows he (ih h1 (fun e' he' => hevents e' (List.mem_cons_of_mem e he')) hrest)

end Concurrency
