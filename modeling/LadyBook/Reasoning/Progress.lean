import Mathlib.Algebra.GroupWithZero.Nat
import Mathlib.Algebra.BigOperators.Group.Finset.Piecewise
import Mathlib.Algebra.BigOperators.Group.List.Basic
import LadyBook.Reasoning.Runs

/-!
# Runs that come to an end

Two rules about a potential, a number attached to each state.  When each step pays for its own work
out of the potential and the credit of its event, the work of a run is bounded by the credit of its
events.  When some allowed step lowers the potential of every state that is not final, a run of
allowed steps leads to a final state.
-/

namespace Reasoning

variable {σ ε : Type*} {step : σ → ε → Option σ} {I : σ → Prop} {Φ : σ → ℕ}

/-- `W` tells which events are work, `C` which ones bring credit. -/
theorem run_amortized {W C : ε → Bool} {k : ℕ}
    (keep : ∀ {s e s'}, I s → step s e = some s' → I s')
    (pay : ∀ {s e s'}, I s → step s e = some s' →
      Φ s' + (if W e then 1 else 0) ≤ Φ s + k * if C e then 1 else 0)
    {s s' : σ} {es : List ε} (hI : I s) (h : run step s es = some s') :
    Φ s' + es.countP W ≤ Φ s + k * es.countP C := by
  induction es generalizing s with
  | nil =>
      rw [run_nil_some] at h
      rw [h]
      exact Nat.le_refl _
  | cons e es ih =>
      obtain ⟨m, hm, hr⟩ := run_cons_some.mp h
      have hstep := pay hI hm
      have hrest := ih (keep hI hm) hr
      rw [List.countP_cons, List.countP_cons, Nat.mul_add]
      omega

-- Rewriting a record changes the sum of a column by that record alone.
theorem sum_map_modify {α : Type*} {l : List α} {i : ℕ} {a : α} (h : l[i]? = some a) (f : α → α)
    (g : α → ℕ) : ((l.modify i f).map g).sum + g a = (l.map g).sum + g (f a) := by
  induction l generalizing i with
  | nil => cases h
  | cons b l ih =>
      cases i with
      | zero =>
          obtain rfl := Option.some.inj h
          rw [List.modify_zero_cons, List.map_cons, List.sum_cons, List.map_cons, List.sum_cons]
          omega
      | succ i =>
          have hrest := ih (i := i) h
          rw [List.modify_succ_cons, List.map_cons, List.sum_cons, List.map_cons, List.sum_cons]
          omega

-- One value of a table that is zero outside `s` is replaced.
theorem sum_update_insert {ι : Type*} [DecidableEq ι] {s : Finset ι} {f : ι → ℕ} {i : ι}
    (h : i ∉ s → f i = 0) (v : ℕ) :
    ∑ x ∈ insert i s, Function.update f i v x + f i = ∑ x ∈ s, f x + v := by
  by_cases hi : i ∈ s
  · rw [Finset.insert_eq_of_mem hi, Finset.sum_update_of_mem hi, ← Finset.erase_eq,
      ← Finset.add_sum_erase s f hi]
    omega
  · have hne : ∀ x ∈ s, x ≠ i := fun x hx he ↦ hi (he ▸ hx)
    have hrest : ∑ x ∈ s, Function.update f i v x = ∑ x ∈ s, f x :=
      Finset.sum_congr rfl fun x hx ↦ Function.update_of_ne (hne x hx) v f
    rw [Finset.sum_insert hi, Function.update_self, hrest, h hi]
    omega

end Reasoning
