import LadyBook.Reasoning.Records

/-!
# Stacks over a table

A stack holds places of an append-only table.  A push appends a record and puts its place on top; a
pop takes the top away.  Some records need a support, a record that lies beneath them as long as
they are on the stack.
-/

namespace Reasoning

variable {α : Type*} {N : α → Prop} {S S' : ℕ → α → α → Prop} {l : List α} {stack : List ℕ}

/-- `N a` says that `a` needs a support, `S j b a` that the record `b` at place `j` is one. -/
structure Stacked (N : α → Prop) (S : ℕ → α → α → Prop) (l : List α) (stack : List ℕ) : Prop where
  descending : stack.Pairwise (· > ·)
  inRange : ∀ i ∈ stack, i < l.length
  supported : ∀ i ∈ stack, ∀ a, l[i]? = some a → N a →
    ∃ j ∈ stack, j < i ∧ ∃ b, l[j]? = some b ∧ S j b a

theorem stacked_nil : Stacked N S l [] where
  descending := List.Pairwise.nil
  inRange := fun _ hi ↦ absurd hi List.not_mem_nil
  supported := fun _ hi ↦ absurd hi List.not_mem_nil

theorem Stacked.imp (h : Stacked N S l stack) (hS : ∀ j b a, S j b a → S' j b a) :
    Stacked N S' l stack where
  descending := h.descending
  inRange := h.inRange
  supported := fun i hi a ha hn ↦ by
    obtain ⟨j, hj, hlt, b, hb, hs⟩ := h.supported i hi a ha hn
    exact ⟨j, hj, hlt, b, hb, hS j b a hs⟩

theorem Stacked.push (h : Stacked N S l stack) {a : α}
    (ha : N a → ∃ j ∈ stack, ∃ b, l[j]? = some b ∧ S j b a) :
    Stacked N S (l ++ [a]) (l.length :: stack) where
  descending := List.pairwise_cons.mpr ⟨h.inRange, h.descending⟩
  inRange := by
    intro i hi
    rw [List.length_append, List.length_singleton]
    rcases List.mem_cons.mp hi with rfl | hi
    · exact Nat.lt_succ_self _
    · exact Nat.lt_succ_of_lt (h.inRange i hi)
  supported := by
    intro i hi c hc hn
    have hold : ∀ j b, l[j]? = some b → (l ++ [a])[j]? = some b :=
      fun j b hb ↦ getElem?_concat_of_some hb
    rcases List.mem_cons.mp hi with rfl | hi
    · rw [List.getElem?_concat_length] at hc
      obtain rfl := Option.some.inj hc
      obtain ⟨j, hj, b, hb, hs⟩ := ha hn
      exact ⟨j, List.mem_cons_of_mem _ hj, h.inRange j hj, b, hold j b hb, hs⟩
    · rw [List.getElem?_append_left (h.inRange i hi)] at hc
      obtain ⟨j, hj, hlt, b, hb, hs⟩ := h.supported i hi c hc hn
      exact ⟨j, List.mem_cons_of_mem _ hj, hlt, b, hold j b hb, hs⟩

-- The support of what stays is beneath it, so it is not the entry that goes.
theorem Stacked.pop {i : ℕ} (h : Stacked N S l (i :: stack)) : Stacked N S l stack where
  descending := (List.pairwise_cons.mp h.descending).2
  inRange := fun j hj ↦ h.inRange j (List.mem_cons_of_mem i hj)
  supported := by
    intro k hk a ha hn
    obtain ⟨j, hj, hlt, b, hb, hs⟩ := h.supported k (List.mem_cons_of_mem i hk) a ha hn
    rcases List.mem_cons.mp hj with rfl | hj
    · have hgt := (List.pairwise_cons.mp h.descending).1 k hk
      omega
    · exact ⟨j, hj, hlt, b, hb, hs⟩

theorem Stacked.tail (h : Stacked N S l stack) : Stacked N S l stack.tail := by
  cases stack with
  | nil => exact h
  | cons i stack => exact h.pop

-- A record is rewritten; it needs and gives support as before.
theorem Stacked.modify (h : Stacked N S l stack) {i : ℕ} {f : α → α}
    (hN : ∀ a, l[i]? = some a → N (f a) → N a)
    (hself : ∀ a, l[i]? = some a → ∀ j b, S j b a → S j b (f a))
    (hothers : ∀ a, l[i]? = some a → ∀ c, S i a c → S i (f a) c) :
    Stacked N S (l.modify i f) stack where
  descending := h.descending
  inRange := fun j hj ↦ by
    rw [List.length_modify]
    exact h.inRange j hj
  supported := by
    intro k hk c hc hn
    obtain ⟨a, ha, rfl⟩ := getElem?_modify_some.mp hc
    have hneeds : N a := by
      split at hn
      next hik => exact hN a (hik ▸ ha) hn
      next => exact hn
    obtain ⟨j, hj, hlt, b, hb, hs⟩ := h.supported k hk a ha hneeds
    have hbelow : ∃ b', (l.modify i f)[j]? = some b' ∧ S j b' a := by
      by_cases hij : i = j
      · subst hij
        exact ⟨f b, getElem?_modify_self hb, hothers b hb a hs⟩
      · exact ⟨b, by rw [getElem?_modify_ne hij, hb], hs⟩
    obtain ⟨b', hb', hs'⟩ := hbelow
    refine ⟨j, hj, hlt, b', hb', ?_⟩
    split
    next hik => exact hself a (hik ▸ ha) j b' hs'
    next => exact hs'

end Reasoning
