import LadyBook.Reasoning.OrderedKeys

/-!
# Scans of sorted sets

A sorted set is read from a position on, in ascending order, and the reader stops at the first
element that is not in the block it looks for.  When the block starts at the position and has no
gap, the elements read are the elements of the block.
-/

namespace Reasoning

open DocumentStore

variable {α : Type*} [LinearOrder α]

/-- The elements in ascending order. -/
def ascending (s : Finset α) : List α := sortKeys (· ≤ ·) s

/-- The elements from `start` on, in ascending order. -/
def valuesFrom (s : Finset α) (start : α) : List α :=
  (ascending s).dropWhile fun x ↦ decide (x < start)

theorem mem_ascending {s : Finset α} {x : α} : x ∈ ascending s ↔ x ∈ s := by
  rw [ascending, sortKeys_eq_sort, Finset.mem_sort]

theorem ascending_pairwise (s : Finset α) : (ascending s).Pairwise (· < ·) := by
  rw [ascending, sortKeys_eq_sort]
  exact (Finset.sortedLT_sort s).pairwise

-- Two ascending lists of the same elements are equal.
theorem eq_of_pairwise_lt {l l' : List α} (h : l.Pairwise (· < ·)) (h' : l'.Pairwise (· < ·))
    (hmem : ∀ x, x ∈ l ↔ x ∈ l') : l = l' := by
  apply List.Perm.eq_of_pairwise' (h.imp le_of_lt) (h'.imp le_of_lt)
  apply (List.perm_ext_iff_of_nodup _ _).mpr hmem
  · exact h.imp ne_of_lt
  · exact h'.imp ne_of_lt

theorem ascending_eq {s : Finset α} {l : List α} (h : l.Pairwise (· < ·))
    (hmem : ∀ x, x ∈ s ↔ x ∈ l) : ascending s = l := by
  apply eq_of_pairwise_lt (ascending_pairwise s) h
  intro x
  rw [mem_ascending, hmem]

theorem filter_ascending (s : Finset α) (p : α → Prop) [DecidablePred p] :
    (ascending s).filter p = ascending (s.filter p) := by
  symm
  apply ascending_eq ((ascending_pairwise s).filter _)
  intro x
  rw [Finset.mem_filter, List.mem_filter, mem_ascending, decide_eq_true_eq]

/-- A block of the set that nothing but its own elements separates from `start`. -/
structure Block (s : Finset α) (start : α) (p : α → Prop) : Prop where
  start_le : ∀ {x}, x ∈ s → p x → start ≤ x
  no_gap : ∀ {x y}, start ≤ x → x ≤ y → p y → p x

-- Behind an element outside the block there is none inside it.
theorem takeWhile_eq_filter {s : Finset α} {start : α} {p : α → Prop} [DecidablePred p]
    (hb : Block s start p) {l : List α} (hl : l.Pairwise (· < ·)) (hs : ∀ x ∈ l, start ≤ x) :
    l.takeWhile p = l.filter p := by
  induction l with
  | nil => rfl
  | cons x l ih =>
      obtain ⟨hx, hl⟩ := List.pairwise_cons.mp hl
      by_cases hp : p x
      · rw [List.takeWhile_cons_of_pos (by simpa using hp),
          List.filter_cons_of_pos (by simpa using hp),
          ih hl fun y hy ↦ hs y (List.mem_cons_of_mem x hy)]
      · rw [List.takeWhile_cons_of_neg (by simpa using hp),
          List.filter_cons_of_neg (by simpa using hp)]
        symm
        apply List.filter_eq_nil_iff.mpr
        intro y hy hpy
        rw [decide_eq_true_eq] at hpy
        exact hp (hb.no_gap (hs x List.mem_cons_self) (hx y hy).le hpy)

theorem mem_dropWhile_lt {l : List α} (hl : l.Pairwise (· < ·)) {start x : α} :
    (x ∈ l.dropWhile fun y ↦ decide (y < start)) ↔ x ∈ l ∧ start ≤ x := by
  induction l with
  | nil => simp
  | cons y l ih =>
      obtain ⟨hy, hl⟩ := List.pairwise_cons.mp hl
      by_cases hlt : y < start
      · rw [List.dropWhile_cons_of_pos (by simpa using hlt), ih hl, List.mem_cons]
        constructor
        · exact fun h ↦ ⟨Or.inr h.1, h.2⟩
        · rintro ⟨rfl | h, hle⟩
          · exact absurd hlt (not_lt.mpr hle)
          · exact ⟨h, hle⟩
      · rw [List.dropWhile_cons_of_neg (by simpa using hlt), iff_self_and, List.mem_cons]
        rintro (rfl | h)
        · exact not_lt.mp hlt
        · exact (not_lt.mp hlt).trans (hy x h).le

theorem mem_valuesFrom {s : Finset α} {start x : α} :
    x ∈ valuesFrom s start ↔ x ∈ s ∧ start ≤ x := by
  rw [valuesFrom, mem_dropWhile_lt (ascending_pairwise s), mem_ascending]

/-- A scan that stops at the first element outside the block reads the whole block. -/
theorem takeWhile_valuesFrom {s : Finset α} {start : α} {p : α → Prop} [DecidablePred p]
    (hb : Block s start p) : (valuesFrom s start).takeWhile p = ascending (s.filter p) := by
  have hl : (valuesFrom s start).Pairwise (· < ·) :=
    (ascending_pairwise s).sublist (List.dropWhile_sublist _)
  rw [takeWhile_eq_filter hb hl fun x hx ↦ (mem_valuesFrom.mp hx).2]
  symm
  apply ascending_eq (hl.filter _)
  intro x
  rw [Finset.mem_filter, List.mem_filter, mem_valuesFrom, decide_eq_true_eq]
  constructor
  · exact fun h ↦ ⟨⟨h.1, hb.start_le h.1 h.2⟩, h.2⟩
  · exact fun h ↦ ⟨h.1.1, h.2⟩

end Reasoning
