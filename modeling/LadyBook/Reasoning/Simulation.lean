import LadyBook.Reasoning.Runs

/-!
# Simulations

An abstract system is a relation between a state, an event and the next state.  A system with a step
function is simulated by it when every step has an abstract step that keeps the two states related;
then every run has an abstract run.
-/

namespace Reasoning

variable {σ ε α : Type*}

/-- The runs of a relation; the last step is the outermost. -/
inductive Steps (A : α → ε → α → Prop) (a : α) : List ε → α → Prop where
  | nil : Steps A a [] a
  | concat {es : List ε} {m : α} {e : ε} {a' : α} (run : Steps A a es m) (step : A m e a') :
      Steps A a (es ++ [e]) a'

variable {A : α → ε → α → Prop} {a a' : α} {es : List ε}

theorem Steps.invariant {I : α → Prop} (keep : ∀ {a e a'}, I a → A a e a' → I a') (hI : I a)
    (h : Steps A a es a') : I a' := by
  induction h with
  | nil => exact hI
  | concat _ hstep ih => exact keep ih hstep

/-- What holds at the start and is carried on by every step of the run holds of the whole run. -/
theorem Steps.induct {P : List ε → α → Prop} (init : P [] a)
    (next : ∀ es m e a', Steps A a es m → P es m → A m e a' → P (es ++ [e]) a')
    (h : Steps A a es a') : P es a' := by
  induction h with
  | nil => exact init
  | concat hrun hstep ih => exact next _ _ _ _ hrun ih hstep

theorem exists_steps {step : σ → ε → Option σ} {R : σ → α → Prop}
    (simulates : ∀ {s a e s'}, R s a → step s e = some s' → ∃ a', A a e a' ∧ R s' a')
    {s s' : σ} (hR : R s a) (h : run step s es = some s') : ∃ a', Steps A a es a' ∧ R s' a' := by
  refine run_induct (P := fun es s' ↦ ∃ a', Steps A a es a' ∧ R s' a') ⟨a, .nil, hR⟩ ?_ h
  rintro es m e s' - ⟨b, hb, hm⟩ hstep
  obtain ⟨a', ha', hs'⟩ := simulates hm hstep
  exact ⟨a', hb.concat ha', hs'⟩

end Reasoning
