import LadyBook.System.History
import LadyBook.System.Views

/-!
# The screens of released articles

When the writes of each device are decided in order, both writes of a release are decided before
its screen is pushed.  Its document is final then, and the same for every device, so the screen
shows what the release has left.
-/

open Reasoning Reasoning.DocumentStore

namespace LadyBook

variable {P : Platform}

namespace Publishing

variable {s s' : Publishing P} {i : ℕ} {r : Release P}

-- The first write of a release is decided before its merge.
theorem Ordered.queued_ne (ho : s.Ordered) (h : s.Consistent) (hi : s.releases[i]? = some r)
    (hm : r.Merged) {d : ℕ} {q : QueuedWrite} (hq : q ∈ s.queue d) :
    q.write.key ≠ r.articleId := by
  intro hk
  have hd := h.queue_device hi hq hk
  subst hd
  obtain ⟨j, r', hj, -, hc⟩ := h.queued _ q hq
  obtain ⟨-, rfl⟩ := h.release_inj hj hi (hc.key.symm.trans hk)
  cases hc with
  | merge hw hst => simp [Release.Merged, hst] at hm
  | first hw =>
      obtain ⟨w', hw', hk', hm'⟩ := wrote_iff.mp ((h.wrote_merge hi).mpr hm)
      have hbefore := (List.pairwise_append.mp (ho r'.tap.device r'.articleId)).2.2 w'
        (List.mem_map_of_mem (f := Prod.fst) (mem_accepted.mp hw')) _ (List.mem_map_of_mem hq)
        hk' hk hm'
      rw [Release.firstWrite_merge hw] at hbefore
      cases hbefore

theorem Ordered.lookup_localView_merged (ho : s.Ordered) (h : s.Consistent)
    (hi : s.releases[i]? = some r) (hm : r.Merged) (d : ℕ) :
    (s.localView d).lookup r.articleId = s.articles.lookup r.articleId :=
  lookup_localView_of_forall_ne fun _ hq ↦ ho.queued_ne h hi hm hq

-- The document of a release does not change once its merge is accepted.
theorem Ordered.lookup_step (ho : s.Ordered) (h : s.Consistent) (hi : s.releases[i]? = some r)
    (hm : r.Merged) {e : Event P} (hs : s.step e = some s') :
    s'.articles.lookup r.articleId = s.articles.lookup r.articleId := by
  rcases step_articles hs with ha | ⟨d, n, q, -, hq, ha⟩
  · rw [ha]
  · rw [ha, lookup_apply_of_ne (ho.queued_ne h hi hm (List.mem_of_getElem? hq))]

/-- The controller shows, or has been answered, the document of the release that opened it. -/
structure Presents (s : Publishing P) (d : ℕ) (vc : ArticleViewController P) (i : ℕ)
    (r : Release P) : Prop where
  release : s.releases[i]? = some r
  opening : vc.opening = .release r.articleId
  device : r.tap.device = d
  stage : r.stage = .succeeded
  answer : ∀ data, vc.view = .getDocumentCompletion (some data) →
    data = s.articles.lookup r.articleId
  loaded : ∀ title text url, vc.view = .loaded title text url →
    title = (s.articles.lookup r.articleId).bind (DocumentData.string? · "title") ∧
    text = (s.articles.lookup r.articleId).bind (DocumentData.string? · "text") ∧
    url = ((s.articles.lookup r.articleId).bind (DocumentData.string? · "imageURL")).bind
      P.urlOfString

theorem Presents.step {d : ℕ} {vc : ArticleViewController P} (hp : s.Presents d vc i r)
    (ho : s.Ordered) (h : s.Consistent) {e : Event P} (hs : s.step e = some s') :
    s'.Presents d vc i r := by
  have hdocument := ho.lookup_step h hp.release (Or.inr hp.stage) hs
  exact ⟨h.succeeded_step hs hp.release hp.stage, hp.opening, hp.device, hp.stage,
    hdocument ▸ hp.answer, hdocument ▸ hp.loaded⟩

theorem Presents.run {d : ℕ} {vc : ArticleViewController P} (hp : s.Presents d vc i r)
    (ho : s.Ordered) (h : s.Consistent) {es : List (Event P)} (he : ∀ e ∈ es, e.InOrder)
    (hs : run Publishing.step s es = some s') : s'.Presents d vc i r :=
  (run_invariant_of (I := fun s ↦ s.Consistent ∧ s.Ordered ∧ s.Presents d vc i r)
    (fun he hI hs ↦ ⟨hI.1.step hs, hI.2.1.step hI.1 he hs, hI.2.2.step hI.2.1 hI.1 hs⟩) he
    ⟨h, ho, hp⟩ hs).2.2

/-- An article controller of the device that a release has opened presents that release. -/
def Presented (s : Publishing P) (d : ℕ) : Controller P → Prop
  | .article vc => ∀ articleId, vc.opening = .release articleId → ∃ i r, s.Presents d vc i r
  | _ => True

theorem Presented.run {d : ℕ} {c : Controller P} (hc : s.Presented d c) (ho : s.Ordered)
    (h : s.Consistent) {es : List (Event P)} (he : ∀ e ∈ es, e.InOrder)
    (hs : run Publishing.step s es = some s') : s'.Presented d c := by
  cases c with
  | article vc =>
      intro articleId hopening
      obtain ⟨i, r, hp⟩ := hc articleId hopening
      exact ⟨i, r, hp.run ho h he hs⟩
  | _ => trivial

-- The events of an app keep what its screens present.
theorem Presented.changes {d : ℕ} {e : Device.Event P} {self : Ref} {c c' : Controller P}
    (ho : s.Ordered) (h : s.Consistent) (hch : Device.Changes (s.localView d) e self c c')
    (hsound : c.Sound) (hc : s.Presented d c) : s.Presented d c' := by
  cases hch with
  | edit => trivial
  | select => trivial
  | viewDidLoad hv hl =>
      obtain ⟨rfl, -⟩ := ArticleViewController.viewDidLoad_eq_ok hl
      intro articleId hopening
      obtain ⟨i, r, hp⟩ := hc articleId hopening
      exact ⟨i, r, hp.release, hp.opening, hp.device, hp.stage, (fun _ hd ↦ by cases hd),
        (fun _ _ _ hd ↦ by cases hd)⟩
  | @getDocument _ vc articleId' error hv ha =>
      intro articleId hopening
      obtain ⟨i, r, hp⟩ := hc articleId hopening
      refine ⟨i, r, hp.release, hp.opening, hp.device, hp.stage, fun data hd ↦ ?_,
        (fun _ _ _ hd ↦ by cases hd)⟩
      have hanswer := ArticleView.getDocumentCompletion.inj hd
      cases error with
      | true => cases hanswer
      | false =>
          -- the id that was asked for is the one that the release handed over
          have hid : vc.articleId = some r.articleId := (hsound.release _ hp.opening).1
          obtain rfl := Option.some.inj (ha.symm.trans hid)
          rw [← ho.lookup_localView_merged h hp.release (Or.inr hp.stage) d]
          exact (Option.some.inj hanswer).symm
  | @getDocumentCompletion _ vc vc' answer hv hl =>
      obtain ⟨view, rfl, hview⟩ := ArticleViewController.getDocumentCompletion_eq_ok hl
      intro articleId hopening
      obtain ⟨i, r, hp⟩ := hc articleId hopening
      refine ⟨i, r, hp.release, hp.opening, hp.device, hp.stage, fun data hd ↦ absurd hd (hview _),
        fun title text url hd ↦ ?_⟩
      obtain ⟨data, rfl, htitle, htext, hurl⟩ :=
        ArticleViewController.getDocumentCompletion_view hl hd
      rw [hp.answer data hv] at htitle htext hurl
      exact ⟨htitle, htext, hurl⟩

end Publishing

end LadyBook
