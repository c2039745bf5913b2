import LadyBook.Properties.Articles
import LadyBook.Properties.Releases
import LadyBook.System.Navigation
import LadyBook.System.Presented

/-!
# What the screens show

The screen that a release opens shows the article and the picture of that release.  A controller on
the navigation stack has the one that opened it beneath it, so the release button always finds the
views it reads.
-/

open Reasoning Reasoning.DocumentStore

namespace LadyBook.World

variable {P : Platform} {w w' : World P} {es : List (Event P)}

/-! ## Articles -/

/-- The screens of released articles present what their releases left. -/
def Presented (w : World P) : Prop :=
  ∀ d, Records (fun _ c ↦ w.publishing.Presented d c) (w.device d).controllers

theorem presented_step (hw : w.Consistent) (ho : w.publishing.Ordered) {e : Event P}
    (he : e.InOrder) (h : w.Presented) (hs : w.step e = some w') : w'.Presented := by
  intro d
  have hrun := projects.step hs
  refine controllers_step hs (fun c hp ↦ ?_) (fun e' self c c' he' hc hch hpres ↦ ?_)
    ((h d).imp fun _ c hc ↦ hc.run ho hw.publishing (he.published w) hrun)
  · cases hp with
    | opens hopens =>
        cases hopens with
        | login => trivial
        | writingAdd => trivial
        | article => exact fun articleId hopening ↦ by cases hopening
    | welcome => trivial
    | @release i r hr hst =>
        intro articleId hopening
        obtain ⟨r', error, hr', hst', hp', -⟩ := setDataCompletion_some hs
        obtain rfl := Option.mem_unique hr hr'
        obtain rfl := Stage.setDataCompletion.inj (hst.symm.trans hst')
        obtain ⟨r', error, hr', hst', hw'⟩ := Publishing.setDataCompletion_some hp'
        obtain rfl := Option.mem_unique hr hr'
        obtain rfl := Stage.setDataCompletion.inj (hst.symm.trans hst')
        refine ⟨i, r.setDataCompletion false, ?_, rfl, rfl, rfl, (fun _ hd ↦ by cases hd),
          (fun _ _ _ hd ↦ by cases hd)⟩
        rw [hw']
        exact getElem?_modify_self hr
  · subst he'
    obtain ⟨dev, -, -, rfl⟩ := deviceStep_some hs
    exact hpres.changes ho hw.publishing hch ((hw.controllers d) self c hc)

theorem ordered_step (hw : w.Consistent) (ho : w.publishing.Ordered) {e : Event P}
    (he : e.InOrder) (hs : w.step e = some w') : w'.publishing.Ordered := by
  have hall : w'.publishing.Consistent ∧ w'.publishing.Ordered := by
    refine run_invariant_of (I := fun s : Publishing P ↦ s.Consistent ∧ s.Ordered) ?_
      (he.published w) ⟨hw.publishing, ho⟩ (projects.step hs)
    exact fun he hI hs ↦ ⟨hI.1.step hs, hI.2.step hI.1 he hs⟩
  exact hall.2

theorem presented_run (ho : ∀ e ∈ es, e.InOrder) (h : run step init es = some w) :
    w.Presented := by
  have hall : w.Consistent ∧ w.publishing.Ordered ∧ w.Presented := by
    refine run_invariant_of (I := fun w : World P ↦ w.Consistent ∧ w.publishing.Ordered ∧
      w.Presented) ?_ ho ⟨consistent_init, Publishing.ordered_init, fun _ ↦ records_nil⟩ h
    exact fun he hI hs ↦ ⟨hI.1.step hs, ordered_step hI.1 hI.2.1 he hs,
      presented_step hI.1 hI.2.1 he hI.2.2 hs⟩
  exact hall.2.2

/-- With the writes of each device decided in order, every screen that a release has opened belongs
to a release of its device that has succeeded; once loaded, it shows the picture of that release,
and its title and text exactly when the server accepted its first write. -/
theorem screen_shows (ho : ∀ e ∈ es, e.InOrder) (h : run step init es = some w) {d : ℕ} {self : Ref}
    {vc : ArticleViewController P} (hc : (w.device d).controllers[self]? = some (.article vc))
    {articleId : DocumentID} (hopening : vc.opening = .release articleId) :
    ∃ (i : ℕ) (r : Release P) (u : P.URL), w.publishing.releases[i]? = some r ∧
      r.articleId = articleId ∧ r.tap.device = d ∧ r.stage = .succeeded ∧ r.downloadUrl = some u ∧
      ∀ title text url, vc.view = .loaded title text url →
        url = P.urlOfString (P.absoluteString u) ∧
        (w.publishing.FirstAccepted r → title = some r.tap.views.titleTextView ∧
          text = some r.tap.views.articleTextView) ∧
        (¬ w.publishing.FirstAccepted r → title = none ∧ text = none) := by
  have hw := (consistent_run h).publishing
  have hordered := Publishing.ordered_run (inOrder_published ho) (publishing_run h)
  obtain ⟨i, r, hp⟩ := presented_run ho h d self _ hc articleId hopening
  obtain ⟨u, hu⟩ := Option.isSome_iff_exists.mp
    ((hw.coherent i r hp.release).late (Or.inr (Or.inr hp.stage)))
  refine ⟨i, r, u, hp.release, Opening.release.inj (hp.opening.symm.trans hopening), hp.device,
    hp.stage, hu, fun title text url hv ↦ ?_⟩
  obtain ⟨rfl, rfl, rfl⟩ := hp.loaded title text url hv
  obtain ⟨hboth, halone⟩ := hw.lookup_merged hordered hp.release (Or.inr hp.stage)
  have hpatch : Publishing.patchOf r = Release.imageFields (P.absoluteString u) := by
    rw [Publishing.patchOf, hu]
    rfl
  have himage := DocumentData.string?_of_lookup
    (Release.imageFields_lookup_self (P.absoluteString u))
  have hother : ∀ field, field ≠ "imageURL" →
      DocumentData.string? (Release.imageFields (P.absoluteString u)) field = none := by
    intro field hne
    rw [DocumentData.string?, Release.imageFields_lookup_ne _ hne, Option.bind_none]
  rw [hpatch] at hboth halone
  by_cases hfirst : w.publishing.FirstAccepted r
  · have hwrote := r.wrote_document.merge (P.absoluteString u)
    rw [hboth hfirst]
    refine ⟨?_, fun _ ↦ ⟨?_, ?_⟩, fun hn ↦ absurd hfirst hn⟩
    · rw [Option.bind_some, DocumentData.string?_of_lookup (s := P.absoluteString u)
        (by rw [lookup_union, Release.imageFields_lookup_self, Option.some_or]), Option.bind_some]
    · exact DocumentData.string?_of_lookup hwrote.title
    · exact DocumentData.string?_of_lookup hwrote.text
  · rw [halone hfirst]
    refine ⟨?_, fun hf ↦ absurd hf hfirst, fun _ ↦ ⟨?_, ?_⟩⟩
    · rw [Option.bind_some, himage, Option.bind_some]
    · exact hother "title" (by decide)
    · exact hother "text" (by decide)

/-- The id, the title and the picture of a loaded screen that a release has opened. -/
def shownBy : Controller Platform.sample → Option (DocumentID × Option String × Option String)
  | .article ⟨_, _, .release articleId, .loaded title _ url⟩ => some (articleId, title, url)
  | _ => none

theorem screen_shows_releasedArticle :
    ∃ w, run step init releasedArticle = some w ∧ ∃ vc r title text,
      (w.device 0).controllers[3]? = some (.article vc) ∧
      w.publishing.releases[0]? = some r ∧ vc.view = .loaded title text (some "posts/5.0.jpg") ∧
      title = some r.tap.views.titleTextView := by
  obtain ⟨w, hw, ⟨c, hc, hshown⟩, r, hr, hid, hthrows, hd⟩ :=
    exists_run_of_check step init releasedArticle (fun w ↦
      (∃ c ∈ (w.device 0).controllers[3]?,
        shownBy c = some ("A", some "title", some "posts/5.0.jpg")) ∧
      ∃ r ∈ w.publishing.releases[0]?, r.articleId = "A" ∧ r.tap.encoderThrows = false ∧
        (setData r.articleId r.tap.document, true) ∈ w.publishing.decided) (by decide)
  unfold shownBy at hshown
  split at hshown
  next a o articleId title text url =>
    simp only [Option.some.injEq, Prod.mk.injEq] at hshown
    obtain ⟨rfl, rfl, rfl⟩ := hshown
    obtain ⟨i, r', u, hr', hid', -, -, -, hloaded⟩ :=
      screen_shows (by simp [releasedArticle, launch, Event.InOrder]) hw hc rfl
    obtain ⟨-, rfl⟩ := (consistent_run hw).publishing.release_inj hr' hr (hid'.trans hid.symm)
    have hfirst : w.publishing.FirstAccepted r' :=
      ⟨_, Release.firstWrite_some.mpr ⟨hthrows, rfl⟩, hd⟩
    exact ⟨w, hw, _, r', _, text, hc, hr, rfl, ((hloaded _ _ _ rfl).2.1 hfirst).1⟩
  next => cases hshown

/-! ## The navigation stack -/

/-- In every run the controllers on a navigation stack lie in the order in which they were pushed,
each one that another controller has opened above its opener, and a tap of the release button reads
the views of an editor that is still on the stack. -/
theorem opener_beneath (h : run step init es = some w) (d : ℕ) :
    (w.device d).stack.Pairwise (· > ·) ∧
    (∀ self ∈ (w.device d).stack, ∃ c, (w.device d).controllers[self]? = some c ∧
      (c.NeedsOpener → ∃ j ∈ (w.device d).stack, j < self ∧
        ∃ b, (w.device d).controllers[j]? = some b ∧
          Opener (w.publishing.releases.map Release.tap) d j b c)) ∧
    ∀ self ∈ (w.device d).stack, ∀ writing category style,
      (w.device d).controllers[self]? = some (.writingAdd writing category style) →
        ∃ views, writing ∈ (w.device d).stack ∧ writing < self ∧
          (w.device d).controllers[writing]? = some (.writing views) ∧
          ∀ documentID timestamp date encoderThrows,
            (w.device d).tap d self documentID timestamp date encoderThrows =
              some ⟨d, self, views, category, style, documentID, timestamp, date, encoderThrows⟩ := by
  have hstack := (navigable_run h).stack d
  refine ⟨hstack.descending, fun self hself ↦ ?_, fun self hself writing category style hc ↦ ?_⟩
  · have hc := List.getElem?_eq_getElem (hstack.inRange self hself)
    exact ⟨_, hc, hstack.supported self hself _ hc⟩
  · obtain ⟨j, hj, hlt, b, hb, hopener⟩ := hstack.supported self hself _ hc trivial
    cases hopener with
    | @writing _ views =>
        refine ⟨views, hj, hlt, hb, fun documentID timestamp date encoderThrows ↦ ?_⟩
        simp only [Device.tap, hc, hb]

/-- What a form with the release button holds. -/
def formOf : Controller P → Option (Ref × Option String × Option String)
  | .writingAdd writing category style => some (writing, category, style)
  | _ => none

theorem opener_beneath_releasedArticle :
    ∃ w, run step init releasedArticle = some w ∧ (w.device 0).stack = [3, 2, 1, 0] ∧
      ∃ views, (w.device 0).controllers[1]? = some (.writing views) ∧
        (w.device 0).tap 0 2 "B" (.ofSeconds 2) "6.0" true =
          some ⟨0, 2, views, some "", some "", "B", .ofSeconds 2, "6.0", true⟩ := by
  obtain ⟨w, hw, hs, hform⟩ := exists_run_of_check step init releasedArticle (fun w ↦
    (w.device 0).stack = [3, 2, 1, 0] ∧
      ((w.device 0).controllers[2]?.bind formOf) = some (1, some "", some "")) (by decide)
  obtain ⟨c, hc, hform⟩ := Option.bind_eq_some_iff.mp hform
  cases c with
  | writingAdd writing category style =>
      simp only [formOf, Option.some.injEq, Prod.mk.injEq] at hform
      obtain ⟨rfl, rfl, rfl⟩ := hform
      obtain ⟨views, -, -, hviews, htap⟩ := (opener_beneath hw 0).2.2 2 (by simp [hs]) _ _ _ hc
      exact ⟨w, hw, hs, views, hviews, htap _ _ _ _⟩
  | _ => cases hform

end LadyBook.World
