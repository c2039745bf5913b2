import Mathlib.Data.List.Basic

/-!
# Folds over part of a list

A fold over the elements that matter is the fold over all of them, and a fold seen through a
function is a fold of what is seen, as long as the elements of the list allow it.
-/

namespace Reasoning

variable {α β γ : Type*} {l : List α}

section Folds

variable {g : β → α → β}

theorem foldl_filter_of_fixed {p : α → Prop} [DecidablePred p]
    (h : ∀ x ∈ l, ¬ p x → ∀ b, g b x = b) (b : β) :
    (l.filter fun x ↦ p x).foldl g b = l.foldl g b := by
  induction l generalizing b with
  | nil => rfl
  | cons x l ih =>
      have ih := ih fun y hy ↦ h y (List.mem_cons_of_mem x hy)
      by_cases hp : p x
      · rw [List.filter_cons_of_pos (by simpa using hp)]
        exact ih (g b x)
      · rw [List.filter_cons_of_neg (by simpa using hp), List.foldl_cons,
          h x List.mem_cons_self hp]
        exact ih b

theorem foldl_fixed_of_mem (h : ∀ x ∈ l, ∀ b, g b x = b) (b : β) : l.foldl g b = b := by
  rw [← foldl_filter_of_fixed (p := fun _ ↦ False) fun x hx _ ↦ h x hx]
  simp

theorem foldl_hom_of_mem {f : β → γ} {g' : γ → α → γ}
    (h : ∀ x ∈ l, ∀ b, f (g b x) = g' (f b) x) (b : β) :
    f (l.foldl g b) = l.foldl g' (f b) := by
  induction l generalizing b with
  | nil => rfl
  | cons x l ih =>
      rw [List.foldl_cons, List.foldl_cons, ih fun y hy ↦ h y (List.mem_cons_of_mem x hy),
        h x List.mem_cons_self]

end Folds

/-- A monadic map that never fails. -/
theorem mapM_eq_ok {ε : Type*} {f : α → Except ε β} {g : α → β} (h : ∀ x ∈ l, f x = .ok (g x)) :
    l.mapM f = .ok (l.map g) := by
  induction l with
  | nil => rfl
  | cons x l ih =>
      rw [List.mapM_cons, h x List.mem_cons_self, ih fun y hy ↦ h y (List.mem_cons_of_mem x hy)]
      rfl

end Reasoning
