import Mathlib.Data.List.Basic
import Mathlib.Data.List.Nodup

/-!
# Append-only tables of records

A record is named by its place in the table, which never changes: records are added at the end and
rewritten in place.  A property of every record then has two rules, one for each operation.
-/

namespace Reasoning

variable {α β : Type*} {P Q : ℕ → α → Prop} {l : List α}

/-- Every record of the table has the property, which may name the record's place. -/
def Records (P : ℕ → α → Prop) (l : List α) : Prop :=
  ∀ i a, l[i]? = some a → P i a

theorem records_nil : Records P [] := by
  intro i a h
  rw [List.getElem?_nil] at h
  cases h

theorem Records.imp (h : Records P l) (hPQ : ∀ i a, P i a → Q i a) : Records Q l :=
  fun i a hi ↦ hPQ i a (h i a hi)

theorem getElem?_concat_some {a b : α} {i : ℕ} :
    (l ++ [a])[i]? = some b ↔ l[i]? = some b ∨ i = l.length ∧ a = b := by
  rw [List.getElem?_append]
  split
  next hlt =>
    constructor
    · exact Or.inl
    · rintro (h | ⟨h, -⟩)
      · exact h
      · omega
  next hge =>
    rw [List.getElem?_eq_none (by omega : l.length ≤ i)]
    constructor
    · intro h
      obtain ⟨hz, he⟩ := List.getElem?_eq_some_iff.mp h
      rw [List.length_singleton] at hz
      exact Or.inr ⟨by omega, by simpa only [List.getElem_singleton] using he⟩
    · rintro (h | ⟨rfl, rfl⟩)
      · cases h
      · rw [Nat.sub_self]
        rfl

theorem getElem?_concat_of_some {a b : α} {i : ℕ} (h : l[i]? = some b) :
    (l ++ [a])[i]? = some b :=
  getElem?_concat_some.mpr (Or.inl h)

theorem Records.concat (h : Records P l) {a : α} (ha : P l.length a) : Records P (l ++ [a]) := by
  intro i b hi
  rcases getElem?_concat_some.mp hi with hi | ⟨rfl, rfl⟩
  · exact h i b hi
  · exact ha

theorem getElem?_modify_some {i j : ℕ} {f : α → α} {b : α} :
    (l.modify i f)[j]? = some b ↔ ∃ a, l[j]? = some a ∧ (if i = j then f a else a) = b := by
  rw [List.getElem?_modify]
  exact Option.map_eq_some_iff

theorem getElem?_modify_self {i : ℕ} {f : α → α} {a : α} (h : l[i]? = some a) :
    (l.modify i f)[i]? = some (f a) :=
  getElem?_modify_some.mpr ⟨a, h, if_pos rfl⟩

theorem getElem?_modify_ne {i j : ℕ} {f : α → α} (h : i ≠ j) : (l.modify i f)[j]? = l[j]? := by
  rw [List.getElem?_modify, Option.map_eq_map]
  simp only [if_neg h, Option.map_id']

theorem Records.modify {i : ℕ} {f : α → α} (h : Records P l)
    (hf : ∀ a, l[i]? = some a → P i a → P i (f a)) : Records P (l.modify i f) := by
  intro j b hj
  obtain ⟨a, ha, rfl⟩ := getElem?_modify_some.mp hj
  split
  next hij =>
    subst hij
    exact hf a ha (h i a ha)
  next => exact h j a ha

-- Rewriting a record does not touch a column that the rewriting keeps.
theorem map_modify_of_eq {i : ℕ} {f : α → α} {g : α → β}
    (h : ∀ a, l[i]? = some a → g (f a) = g a) : (l.modify i f).map g = l.map g := by
  apply List.ext_getElem?
  intro j
  rw [List.getElem?_map, List.getElem?_map, List.getElem?_modify]
  cases hj : l[j]? with
  | none => rfl
  | some a =>
      simp only [Option.map_eq_map, Option.map_some, Option.some.injEq]
      split
      next hij =>
        subst hij
        exact h a hj
      next => rfl

-- In a column without repetitions an entry names its record.
theorem getElem?_inj_of_nodup {g : α → β} (hn : (l.map g).Nodup) {i j : ℕ} {a b : α}
    (hi : l[i]? = some a) (hj : l[j]? = some b) (h : g a = g b) : i = j := by
  obtain ⟨hil, rfl⟩ := List.getElem?_eq_some_iff.mp hi
  obtain ⟨hjl, rfl⟩ := List.getElem?_eq_some_iff.mp hj
  have hmi : i < (l.map g).length := by rwa [List.length_map]
  have hmj : j < (l.map g).length := by rwa [List.length_map]
  have he : (l.map g)[i] = (l.map g)[j] := by
    rw [List.getElem_map, List.getElem_map, h]
  exact (List.Nodup.getElem_inj_iff hn).mp he

end Reasoning
