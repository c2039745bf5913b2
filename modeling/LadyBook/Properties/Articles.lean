import LadyBook.System.Screens

/-!
# Opening an article

A release opens its article through the storyboard and hands over the id; a row of a feed opens a
bare controller.  The screens work exactly as long as no controller of the second kind is loaded.
-/

open Reasoning

namespace LadyBook.World

variable {P : Platform} {w : World P}

/-- `viewDidLoad` of the controller runs on the device in the course of the events. -/
def Loads (es : List (Event P)) (d : ℕ) (vc : ArticleViewController P) : Prop :=
  ∃ es₁ self es₂ w₁, es = es₁ ++ .device d (.articleViewDidLoad self) :: es₂ ∧
    run step init es₁ = some w₁ ∧ (w₁.device d).controllers[self]? = some (.article vc)

theorem Loads.concat {es : List (Event P)} {d : ℕ} {vc : ArticleViewController P}
    (h : Loads es d vc) (e : Event P) : Loads (es ++ [e]) d vc := by
  obtain ⟨es₁, self, es₂, w₁, rfl, hw₁, hc⟩ := h
  exact ⟨es₁, self, es₂ ++ [e], w₁, by rw [List.append_assoc, List.cons_append], hw₁, hc⟩

theorem Loads.sound {es : List (Event P)} {d : ℕ} {vc : ArticleViewController P}
    (h : Loads es d vc) : vc.Sound := by
  obtain ⟨es₁, self, es₂, w₁, -, hw₁, hc⟩ := h
  exact (consistent_run hw₁).controllers d self _ hc

/-- A release whose article screen loads the document. -/
def releasedArticle : List (Event Platform.sample) :=
  launch 0 "a@example.com" "secret" ⟨"title", "text", some "cat"⟩ ++
    [.tapReleaseButton 0 2 "A" (.ofSeconds 1) "5.0" false, .putData 0 true, .putDataCompletion 0,
      .downloadURLCompletion 0 (some "posts/5.0.jpg"), .decide 0 0 true, .decide 0 0 true,
      .setDataCompletion 0, .device 0 (.articleViewDidLoad 3), .device 0 (.getDocument 3 false),
      .device 0 (.getDocumentCompletion 3)]

end LadyBook.World
