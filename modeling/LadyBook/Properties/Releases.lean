import LadyBook.Properties.Feeds
import LadyBook.System.Outcomes

/-!
# What a release leaves behind

The first write of a release has no completion handler, so the end of its chain says nothing about
it.  A chain that succeeds leaves a complete article exactly when the first write was accepted; a
chain that stops leaves an article without a picture exactly when it was.
-/

open Reasoning Reasoning.DocumentStore

namespace LadyBook.World

variable {P : Platform} {w : World P}

/-! ## Success -/

/-- The server decides the writes of each device in the order of their issue. -/
def Event.InOrder : Event P → Prop
  | .decide _ n _ => n = 0
  | _ => True

theorem Event.InOrder.published {e : Event P} (he : e.InOrder) (w : World P) :
    ∀ x ∈ published w e, x.InOrder := by
  intro x hx
  cases e with
  | decide d n accepted =>
      obtain rfl := List.mem_singleton.mp hx
      exact he
  | tapReleaseButton d self documentID timestamp date encoderThrows =>
      obtain ⟨t, -, rfl⟩ := Option.map_eq_some_iff.mp (Option.mem_toList.mp hx)
      trivial
  | device d e => cases hx
  | putData i stored =>
      obtain rfl := List.mem_singleton.mp hx
      trivial
  | putDataCompletion i =>
      obtain rfl := List.mem_singleton.mp hx
      trivial
  | downloadURLCompletion i url =>
      obtain rfl := List.mem_singleton.mp hx
      trivial
  | setDataCompletion i =>
      obtain rfl := List.mem_singleton.mp hx
      trivial

theorem inOrder_published {es : List (Event P)} (h : ∀ e ∈ es, e.InOrder) :
    ∀ x ∈ trace step published init es, x.InOrder :=
  forall_mem_trace (fun w _ he ↦ he.published w) h

end LadyBook.World
