import Mathlib.Data.List.Perm.Subperm
import Mathlib.Data.List.ReduceOption
import LadyBook.System.History

/-!
# Repeated taps of the release button

Each tap starts a release of its own, and nothing joins the chains that one screen has started.  So
a screen creates at most one article and pushes at most one article screen for each of its taps, and
two taps of an unchanged draft may both do so.
-/

open Reasoning Reasoning.DocumentStore

namespace LadyBook

variable {P : Platform}

/-- The release that opened the controller, by its id. -/
def Controller.released (c : Controller P) : Option DocumentID :=
  match c.opening with
  | some (.release articleId) => some articleId
  | _ => none

namespace World

variable {w w' : World P} {es : List (Event P)}

/-- The article screens of a device that releases have opened, by the ids of the releases. -/
def released (w : World P) (d : ℕ) : List DocumentID :=
  ((w.device d).controllers.map Controller.released).reduceOption

theorem succeeded_step (h : w.Consistent) {e : Event P} (hs : w.step e = some w') {i : ℕ}
    {r : Release P} (hi : w.publishing.releases[i]? = some r) (hr : r.stage = .succeeded) :
    w'.publishing.releases[i]? = some r := by
  rcases published_cases hs with hsame | ⟨x, -, hstep⟩
  · rw [hsame, hi]
  · exact h.publishing.succeeded_step hstep hi hr

/-- A screen opened by a release is there only once the release has succeeded, and each release
opens one. -/
structure OpensOnce (w : World P) (d : ℕ) : Prop where
  nodup : (w.released d).Nodup
  succeeded : ∀ id ∈ w.released d, ∃ (i : ℕ) (r : Release P),
    w.publishing.releases[i]? = some r ∧ r.articleId = id ∧ r.stage = .succeeded

theorem released_step {e : Event P} (h : w.step e = some w') (d : ℕ) :
    w'.released d = w.released d ∨ ∃ (i : ℕ) (r : Release P), e = .setDataCompletion i ∧
      w.publishing.releases[i]? = some r ∧ r.stage = .setDataCompletion false ∧
        w'.released d = w.released d ++ [r.articleId] := by
  have hstep := step_controllers h d
  unfold released
  generalize (w'.device d).controllers = cs at hstep ⊢
  have hconcat : ∀ c : Controller P,
      (((w.device d).controllers ++ [c]).map Controller.released).reduceOption =
        ((w.device d).controllers.map Controller.released).reduceOption ++ c.released.toList := by
    intro c
    rw [List.map_append, List.reduceOption_append, List.map_singleton, List.reduceOption_singleton]
  cases hstep with
  | same => exact Or.inl rfl
  | push hp =>
      rw [hconcat]
      cases hp with
      | opens ho =>
          refine Or.inl ?_
          cases ho with
          | login => exact List.append_nil _
          | writingAdd => exact List.append_nil _
          | article => exact List.append_nil _
      | welcome => exact Or.inl (List.append_nil _)
      | @release i r hr hs => exact Or.inr ⟨i, r, rfl, hr, hs, rfl⟩
  | change he hc hch =>
      refine Or.inl (congrArg List.reduceOption (map_modify_of_eq fun a ha ↦ ?_))
      obtain rfl := Option.mem_unique ha hc
      unfold Controller.released
      rw [hch.opening]

theorem OpensOnce.step {d : ℕ} (ho : w.OpensOnce d) (h : w.Consistent) {e : Event P}
    (hs : w.step e = some w') : w'.OpensOnce d := by
  have hkeep : ∀ id ∈ w.released d, ∃ (i : ℕ) (r : Release P),
      w'.publishing.releases[i]? = some r ∧ r.articleId = id ∧ r.stage = .succeeded := by
    intro id hid
    obtain ⟨i, r, hi, hr, hstage⟩ := ho.succeeded id hid
    exact ⟨i, r, succeeded_step h hs hi hstage, hr, hstage⟩
  rcases released_step hs d with hsame | ⟨i, r, rfl, hi, hstage, hnew⟩
  · exact ⟨hsame ▸ ho.nodup, hsame ▸ hkeep⟩
  · -- a release that has opened a screen has succeeded, this one is about to
    have hfresh : r.articleId ∉ w.released d := by
      intro hid
      obtain ⟨j, r', hj, hr', hstage'⟩ := ho.succeeded _ hid
      obtain ⟨-, rfl⟩ := h.publishing.release_inj hj hi hr'
      rw [hstage] at hstage'
      cases hstage'
    obtain ⟨r', error, hi', hstage', hp, -⟩ := setDataCompletion_some hs
    obtain rfl := Option.mem_unique hi hi'
    obtain ⟨r', error', hi'', hstage'', hp'⟩ := Publishing.setDataCompletion_some hp
    obtain rfl := Option.mem_unique hi hi''
    obtain rfl := Stage.setDataCompletion.inj (hstage.symm.trans hstage'')
    constructor
    · rw [hnew]
      exact ho.nodup.append (List.nodup_singleton _) (List.disjoint_singleton.mpr hfresh)
    · rw [hnew]
      intro id hid
      rcases List.mem_append.mp hid with hid | hid
      · exact hkeep id hid
      · obtain rfl := List.mem_singleton.mp hid
        refine ⟨i, r.setDataCompletion false, ?_, rfl, rfl⟩
        rw [hp']
        exact getElem?_modify_self hi

end World

end LadyBook
