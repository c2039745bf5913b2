import Mathlib.Data.Finset.Sort
import Mathlib.Data.Prod.Lex
import Mathlib.Order.WithBot
import LadyBook.Reasoning.DocumentStore

/-!
# Listing a store by a field

The keys whose documents carry a field, by descending value of the field.  Keys with equal values
are listed in descending order too, so the list depends on the store alone.
-/

namespace Reasoning.DocumentStore

variable {κ φ ν : Type*} [DecidableEq φ] [LinearOrder κ] [LinearOrder ν]

/-- The field's value at a key, below every value where there is none. -/
def fieldAt (c : Store κ φ ν) (f : φ) (k : κ) : WithBot ν :=
  (c.lookup k).bind (Finmap.lookup f)

/-- The position of a key in the list: its value first, then the key itself. -/
def rank (c : Store κ φ ν) (f : φ) (k : κ) : WithBot ν ×ₗ κ :=
  toLex (fieldAt c f k, k)

def Precedes (c : Store κ φ ν) (f : φ) (j k : κ) : Prop := rank c f k ≤ rank c f j

instance (c : Store κ φ ν) (f : φ) : DecidableRel (Precedes c f) :=
  fun j k ↦ inferInstanceAs (Decidable (rank c f k ≤ rank c f j))

omit [LinearOrder ν] in
theorem rank_injective (c : Store κ φ ν) (f : φ) : Function.Injective (rank c f) := by
  intro j k h
  exact (Prod.mk.injEq .. ▸ toLex_inj.mp h).2

instance (c : Store κ φ ν) (f : φ) : IsTrans κ (Precedes c f) :=
  ⟨fun _ _ _ hij hjk ↦ le_trans hjk hij⟩

instance (c : Store κ φ ν) (f : φ) : Std.Antisymm (Precedes c f) :=
  ⟨fun _ _ hjk hkj ↦ rank_injective c f (le_antisymm hkj hjk)⟩

instance (c : Store κ φ ν) (f : φ) : Std.Total (Precedes c f) :=
  ⟨fun j k ↦ le_total (rank c f k) (rank c f j)⟩

/-- `Finset.sort` through insertion sort, which evaluates by structural recursion. -/
def sortKeys (r : κ → κ → Prop) [DecidableRel r] [IsTrans κ r] [Std.Antisymm r] [Std.Total r]
    (s : Finset κ) : List κ :=
  Quot.liftOn s.val (List.insertionSort r) fun l₁ l₂ h ↦ by
    rw [← List.mergeSort_eq_insertionSort, ← List.mergeSort_eq_insertionSort]
    exact congrArg (Multiset.sort · r) (Quot.sound h : (l₁ : Multiset κ) = l₂)

omit [LinearOrder κ] in
theorem sortKeys_eq_sort (r : κ → κ → Prop) [DecidableRel r] [IsTrans κ r] [Std.Antisymm r]
    [Std.Total r] (s : Finset κ) : sortKeys r s = s.sort r := by
  obtain ⟨⟨l⟩, hl⟩ := s
  exact (List.mergeSort_eq_insertionSort r l).symm

def orderedKeys (c : Store κ φ ν) (f : φ) : List κ :=
  sortKeys (Precedes c f) (c.keys.filter fun k ↦ (fieldAt c f k).isSome)

/-- The documents that carry the field, with their keys, in the order of their keys. -/
def orderedBy (c : Store κ φ ν) (f : φ) : List (κ × Fields φ ν) :=
  (orderedKeys c f).filterMap fun k ↦ (c.lookup k).map (k, ·)

end Reasoning.DocumentStore
