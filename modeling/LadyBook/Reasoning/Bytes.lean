import Mathlib.Data.List.Lex
import Mathlib.Data.UInt

/-!
# Byte strings

Strings over an ordered alphabet in lexicographic order, a proper prefix first, and the byte strings
among them, in the order of their unsigned bytes.
-/

namespace Reasoning

abbrev Bytes := List UInt8

instance instLinearOrderUInt8 : LinearOrder UInt8 where
  le_refl := UInt8.le_refl
  le_trans _ _ _ := UInt8.le_trans
  le_antisymm _ _ := UInt8.le_antisymm
  le_total := UInt8.le_total
  toDecidableLE := inferInstance
  toDecidableEq := inferInstance
  toDecidableLT := inferInstance
  lt_iff_le_not_ge a b := by
    rw [UInt8.lt_iff_toNat_lt, UInt8.le_iff_toNat_le, UInt8.le_iff_toNat_le]
    omega

variable {α : Type*} [LinearOrder α] {a b c : List α}

theorem nil_le_list (l : List α) : [] ≤ l :=
  not_lt.mp (List.not_lt_nil l)

theorem cons_le_cons_list {x y : α} : x :: a ≤ y :: b ↔ x < y ∨ x = y ∧ a ≤ b := by
  rw [← not_lt, List.cons_lt_cons_iff, not_or, not_and, not_lt, not_lt]
  constructor
  · rintro ⟨hle, h⟩
    rcases hle.lt_or_eq with hlt | rfl
    · exact Or.inl hlt
    · exact Or.inr ⟨rfl, h rfl⟩
  · rintro (hlt | ⟨rfl, h⟩)
    · exact ⟨hlt.le, fun he ↦ absurd he hlt.ne'⟩
    · exact ⟨le_rfl, fun _ ↦ h⟩

theorem append_le_append_left_list (p : List α) : p ++ a ≤ p ++ b ↔ a ≤ b := by
  induction p with
  | nil => rfl
  | cons x p ih =>
      show x :: (p ++ a) ≤ x :: (p ++ b) ↔ a ≤ b
      rw [cons_le_cons_list, ih]
      simp

theorem append_lt_append_left_list (p : List α) : p ++ a < p ++ b ↔ a < b := by
  rw [← not_le, append_le_append_left_list, not_le]

theorem le_of_isPrefix (h : a <+: b) : a ≤ b := by
  obtain ⟨t, rfl⟩ := h
  have := (append_le_append_left_list (b := t) a).mpr (nil_le_list t)
  rwa [List.append_nil] at this

/-- The strings with a prefix are neighbours. -/
theorem isPrefix_of_le_of_le (hab : a ≤ b) (hbc : b ≤ c) (h : a <+: c) : a <+: b := by
  induction a generalizing b c with
  | nil => exact List.nil_prefix
  | cons x a ih =>
      obtain ⟨t, rfl⟩ := h
      cases b with
      | nil => exact absurd hab (not_le.mpr (List.nil_lt_cons x a))
      | cons y b =>
          have hxy := cons_le_cons_list.mp hab
          have hyx : y < x ∨ y = x ∧ b ≤ a ++ t := cons_le_cons_list.mp hbc
          rcases hxy with hlt | ⟨rfl, hab'⟩
          · rcases hyx with hlt' | ⟨rfl, -⟩
            · exact absurd hlt hlt'.not_gt
            · exact absurd hlt (lt_irrefl _)
          · rcases hyx with hlt' | ⟨-, hbc'⟩
            · exact absurd hlt' (lt_irrefl _)
            · rw [List.prefix_cons_inj]
              exact ih hab' hbc' ⟨t, rfl⟩

end Reasoning
