import Mathlib.Data.List.Basic
import Mathlib.Data.List.Induction
import Mathlib.Data.Option.Basic

/-!
# Runs of a partial step function

A system is a step function `σ → ε → Option σ`: the state after an event, or `none` when the event
is not enabled.  A run is a list of events that are enabled one after the other.  The rules below
carry an invariant over whole runs, with or without the events that led to the state, and carry
the runs of one system to those of another along a projection of the states.
-/

namespace Reasoning

variable {σ ε τ η : Type*}

/-- The state after the events, or `none` as soon as one of them is not enabled. -/
def run (step : σ → ε → Option σ) : σ → List ε → Option σ
  | s, [] => some s
  | s, e :: es => (step s e).bind fun s' ↦ run step s' es

section Rules

variable {step : σ → ε → Option σ}

theorem run_nil_some {s s' : σ} : run step s [] = some s' ↔ s = s' := by
  simp only [run, Option.some.injEq]

theorem run_cons_some {s s' : σ} {e : ε} {es : List ε} :
    run step s (e :: es) = some s' ↔ ∃ m, step s e = some m ∧ run step m es = some s' := by
  simp only [run, Option.bind_eq_some_iff]

theorem run_append_some {s s' : σ} {es₁ es₂ : List ε} :
    run step s (es₁ ++ es₂) = some s' ↔
      ∃ m, run step s es₁ = some m ∧ run step m es₂ = some s' := by
  induction es₁ generalizing s with
  | nil => simp only [List.nil_append, run_nil_some, exists_eq_left']
  | cons e es₁ ih =>
      simp only [List.cons_append, run_cons_some, ih]
      constructor
      · rintro ⟨m, hm, n, hn, hr⟩
        exact ⟨n, ⟨m, hm, hn⟩, hr⟩
      · rintro ⟨n, ⟨m, hm, hn⟩, hr⟩
        exact ⟨m, hm, n, hn, hr⟩

theorem run_concat_some {s s' : σ} {e : ε} {es : List ε} :
    run step s (es ++ [e]) = some s' ↔ ∃ m, run step s es = some m ∧ step m e = some s' := by
  simp only [run_append_some, run_cons_some, run_nil_some, exists_eq_right]

/-- What holds before the first event and is carried on by every step of the run holds of the
whole run; the events so far may take part in it. -/
theorem run_induct {s₀ : σ} {P : List ε → σ → Prop} (init : P [] s₀)
    (next : ∀ es s e s', run step s₀ es = some s → P es s → step s e = some s' → P (es ++ [e]) s')
    {es : List ε} {s : σ} (h : run step s₀ es = some s) : P es s := by
  induction es using List.reverseRecOn generalizing s with
  | nil =>
      rw [run_nil_some] at h
      exact h ▸ init
  | append_singleton es e ih =>
      obtain ⟨m, hm, hs⟩ := run_concat_some.mp h
      exact next es m e s hm (ih hm) hs

/-- An invariant that the steps on allowed events keep holds after every run of such events. -/
theorem run_invariant_of {A : ε → Prop} {I : σ → Prop}
    (keep : ∀ {s e s'}, A e → I s → step s e = some s' → I s')
    {s s' : σ} {es : List ε} (hA : ∀ e ∈ es, A e) (hI : I s) (h : run step s es = some s') :
    I s' := by
  induction es generalizing s with
  | nil =>
      rw [run_nil_some] at h
      exact h ▸ hI
  | cons e es ih =>
      obtain ⟨m, hm, hr⟩ := run_cons_some.mp h
      exact ih (fun e' he' ↦ hA e' (List.mem_cons_of_mem e he'))
        (keep (hA e List.mem_cons_self) hI hm) hr

theorem run_invariant {I : σ → Prop} (keep : ∀ {s e s'}, I s → step s e = some s' → I s')
    {s s' : σ} {es : List ε} (hI : I s) (h : run step s es = some s') : I s' :=
  run_invariant_of (A := fun _ ↦ True) (fun _ ↦ keep) (fun _ _ ↦ trivial) hI h

/-- A run whose last state passes a check that can be evaluated. -/
theorem exists_run_of_check (step : σ → ε → Option σ) (s : σ) (es : List ε) (p : σ → Prop)
    [DecidablePred p] (h : ((run step s es).map fun s' ↦ decide (p s')) = some true) :
    ∃ s', run step s es = some s' ∧ p s' := by
  obtain ⟨s', hs', hp⟩ := Option.map_eq_some_iff.mp h
  exact ⟨s', hs', of_decide_eq_true hp⟩

end Rules

/-! ## Projections -/

/-- The steps of `step₁`, seen through `π`, are runs of `step₂` on the events `obs` lets through. -/
structure Projects (step₁ : σ → ε → Option σ) (step₂ : τ → η → Option τ)
    (π : σ → τ) (obs : σ → ε → List η) : Prop where
  step : ∀ {s e s'}, step₁ s e = some s' → Reasoning.run step₂ (π s) (obs s e) = some (π s')

/-- What is observed along a run. -/
def trace (step : σ → ε → Option σ) (obs : σ → ε → List η) : σ → List ε → List η
  | _, [] => []
  | s, e :: es => obs s e ++ ((step s e).elim [] fun s' ↦ trace step obs s' es)

theorem Projects.run {step₁ : σ → ε → Option σ} {step₂ : τ → η → Option τ} {π : σ → τ}
    {obs : σ → ε → List η} (p : Projects step₁ step₂ π obs) {s s' : σ} {es : List ε}
    (h : Reasoning.run step₁ s es = some s') :
    Reasoning.run step₂ (π s) (trace step₁ obs s es) = some (π s') := by
  induction es generalizing s with
  | nil =>
      rw [run_nil_some] at h
      rw [h, trace, run_nil_some]
  | cons e es ih =>
      obtain ⟨m, hm, hr⟩ := run_cons_some.mp h
      rw [trace, hm, Option.elim_some, run_append_some]
      exact ⟨π m, p.step hm, ih hr⟩

/-- A projection for the states of an invariant. -/
structure ProjectsOn (I : σ → Prop) (step₁ : σ → ε → Option σ) (step₂ : τ → η → Option τ)
    (π : σ → τ) (obs : σ → ε → List η) : Prop where
  keep : ∀ {s e s'}, I s → step₁ s e = some s' → I s'
  step : ∀ {s e s'}, I s → step₁ s e = some s' → Reasoning.run step₂ (π s) (obs s e) = some (π s')

theorem ProjectsOn.run {I : σ → Prop} {step₁ : σ → ε → Option σ} {step₂ : τ → η → Option τ}
    {π : σ → τ} {obs : σ → ε → List η} (p : ProjectsOn I step₁ step₂ π obs) {s s' : σ}
    {es : List ε} (hI : I s) (h : Reasoning.run step₁ s es = some s') :
    Reasoning.run step₂ (π s) (trace step₁ obs s es) = some (π s') := by
  induction es generalizing s with
  | nil =>
      rw [run_nil_some] at h
      rw [h, trace, run_nil_some]
  | cons e es ih =>
      obtain ⟨m, hm, hr⟩ := run_cons_some.mp h
      rw [trace, hm, Option.elim_some, run_append_some]
      exact ⟨π m, p.step hI hm, ih (p.keep hI hm) hr⟩

/-- A projection of a projection; the inner system is observed along the events let through. -/
theorem Projects.trans {υ θ : Type*} {I : τ → Prop} {step₁ : σ → ε → Option σ}
    {step₂ : τ → η → Option τ} {step₃ : υ → θ → Option υ} {π : σ → τ} {ρ : τ → υ}
    {obs : σ → ε → List η} {obs' : τ → η → List θ} (p : Projects step₁ step₂ π obs)
    (q : ProjectsOn I step₂ step₃ ρ obs') :
    ProjectsOn (fun s ↦ I (π s)) step₁ step₃ (fun s ↦ ρ (π s))
      (fun s e ↦ trace step₂ obs' (π s) (obs s e)) where
  keep := fun hI hs ↦ run_invariant q.keep hI (p.step hs)
  step := fun hI hs ↦ q.run hI (p.step hs)

theorem forall_mem_trace {step : σ → ε → Option σ} {obs : σ → ε → List η} {A : ε → Prop}
    {B : η → Prop} (hobs : ∀ s e, A e → ∀ x ∈ obs s e, B x) {s : σ} {es : List ε}
    (hA : ∀ e ∈ es, A e) : ∀ x ∈ trace step obs s es, B x := by
  induction es generalizing s with
  | nil => exact fun x hx ↦ absurd hx List.not_mem_nil
  | cons e es ih =>
      intro x hx
      rw [trace, List.mem_append] at hx
      rcases hx with hx | hx
      · exact hobs s e (hA e List.mem_cons_self) x hx
      · cases hs : step s e with
        | none =>
            rw [hs, Option.elim_none] at hx
            exact absurd hx List.not_mem_nil
        | some m =>
            rw [hs, Option.elim_some] at hx
            exact ih (fun e' he' ↦ hA e' (List.mem_cons_of_mem e he')) x hx

end Reasoning
