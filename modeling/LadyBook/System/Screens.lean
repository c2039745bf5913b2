import LadyBook.System.Documents
import LadyBook.System.World

/-!
# The screens of all devices

Which controllers a step adds or changes, and what then holds of every controller and feed in every
run: the feeds hold what they read, and an article screen has its id and its outlets exactly when a
release opened it.
-/

open Reasoning Reasoning.DocumentStore

namespace LadyBook

variable {P : Platform}

/-- An image URL in a document is a download URL. -/
def Genuine (P : Platform) (data : DocumentData) : Prop :=
  ∀ imageURL, DocumentData.string? data "imageURL" = some imageURL →
    ∃ u, imageURL = P.absoluteString u

theorem Release.Depicts.genuine {r : Release P} {data : DocumentData} (h : r.Depicts data) :
    Genuine P data := by
  intro imageURL hi
  obtain ⟨u, -, hv⟩ := h _ (DocumentData.lookup_of_string? hi)
  exact ⟨u, FieldValue.string.inj hv⟩

namespace ArticleViewController

/-- A row opens a controller without id and outlets, which never loads; a release opens one with
both. -/
structure Sound (vc : ArticleViewController P) : Prop where
  row : ∀ target, vc.opening = .row target → vc.articleId = none ∧ vc.view = .notLoaded
  release : ∀ articleId, vc.opening = .release articleId →
    vc.articleId = some articleId ∧ vc.outlets = true
  answer : ∀ data, vc.view = .getDocumentCompletion (some (some data)) → Genuine P data

theorem sound_ofRow (target : Option DocumentID) :
    (ofRow target : ArticleViewController P).Sound where
  row := fun _ _ ↦ ⟨rfl, rfl⟩
  release := fun _ h ↦ by cases h
  answer := fun _ h ↦ by cases h

theorem sound_ofRelease (articleId : DocumentID) :
    (ofRelease articleId : ArticleViewController P).Sound where
  row := fun _ h ↦ by cases h
  release := fun _ h ↦ by
    obtain rfl := Opening.release.inj h
    exact ⟨rfl, rfl⟩
  answer := fun _ h ↦ by cases h

variable {vc : ArticleViewController P}

-- A controller whose view is past its loading was opened by a release.
theorem Sound.release_of_loaded (h : vc.Sound) (hv : vc.view ≠ .notLoaded) :
    ∃ articleId, vc.opening = .release articleId := by
  cases ho : vc.opening with
  | row target => exact absurd (h.row target ho).2 hv
  | release articleId => exact ⟨articleId, rfl⟩

theorem Sound.release_of_articleId (h : vc.Sound) (hid : vc.articleId ≠ none) :
    ∃ articleId, vc.opening = .release articleId := by
  cases ho : vc.opening with
  | row target => exact absurd (h.row target ho).1 hid
  | release articleId => exact ⟨articleId, rfl⟩

theorem Sound.loaded (h : vc.Sound) {articleId : DocumentID} (ho : vc.opening = .release articleId)
    (view : ArticleView P)
    (hv : ∀ data, view = .getDocumentCompletion (some (some data)) → Genuine P data) :
    Sound { vc with view := view } where
  row := fun target hr ↦ by
    rw [show vc.opening = .row target from hr] at ho
    cases ho
  release := h.release
  answer := hv

-- The handler of a released article neither traps nor touches anything but the view.
theorem Sound.getDocumentCompletion (hP : P.ParsesURLs) (h : vc.Sound)
    {answer : Option (Option DocumentData)} (hv : vc.view = .getDocumentCompletion answer) :
    ∃ view, vc.getDocumentCompletion answer = .ok { vc with view := view } := by
  obtain ⟨articleId, ho⟩ := h.release_of_loaded (by rw [hv]; simp)
  refine getDocumentCompletion_ok (h.release articleId ho).2 fun data hdata imageURL hi ↦ ?_
  obtain ⟨u, rfl⟩ := h.answer data (by rw [hv, hdata]) imageURL hi
  exact hP u

end ArticleViewController

/-- The articles of a controller are sound; the other controllers hold none. -/
def Controller.Sound : Controller P → Prop
  | .article vc => vc.Sound
  | _ => True

theorem Device.Changes.sound {localView : Collection} {e : Device.Event P} {self : Ref}
    {c c' : Controller P} (h : Device.Changes localView e self c c')
    (hview : ∀ id data, localView.lookup id = some data → Genuine P data) (hc : c.Sound) :
    c'.Sound := by
  cases h with
  | edit => trivial
  | select => trivial
  | @viewDidLoad self vc vc' hv hl =>
      -- the id was there, so the controller is not one of a row
      obtain ⟨rfl, hid⟩ := ArticleViewController.viewDidLoad_eq_ok hl
      obtain ⟨articleId, ho⟩ := hc.release_of_articleId hid
      exact hc.loaded ho .getDocument fun data hd ↦ by cases hd
  | @getDocument self vc articleId error hv ha =>
      obtain ⟨articleId', ho⟩ := hc.release_of_loaded (by rw [hv]; simp)
      refine hc.loaded ho _ fun data hd ↦ ?_
      cases error with
      | true =>
          have hanswer := ArticleView.getDocumentCompletion.inj hd
          cases hanswer
      | false =>
          have hanswer := ArticleView.getDocumentCompletion.inj hd
          exact hview articleId data (Option.some.inj hanswer)
  | @getDocumentCompletion self vc vc' answer hv hl =>
      obtain ⟨articleId', ho⟩ := hc.release_of_loaded (by rw [hv]; simp)
      obtain ⟨view, rfl, hview'⟩ := ArticleViewController.getDocumentCompletion_eq_ok hl
      exact hc.loaded ho view fun data hd ↦ absurd hd (hview' _)

namespace World

variable {w w' : World P}

/-- The controllers that an event pushes on the stack of a device. -/
inductive Pushes (w : World P) : Event P → ℕ → Controller P → Prop where
  | opens {d : ℕ} {e : Device.Event P} {c : Controller P} (h : (w.device d).Opens e c) :
      Pushes w (.device d e) d c
  | welcome {d k : ℕ} {s : SignUp} (hs : (w.device d).signUps[k]? = some s)
      (he : s.error = none) :
      Pushes w (.device d (.createUserCompletion k false)) d (.writing Device.writingView)
  | release {i : ℕ} {r : Release P} (hr : w.publishing.releases[i]? = some r)
      (hs : r.stage = .setDataCompletion false) :
      Pushes w (.setDataCompletion i) r.tap.device (.article (.ofRelease r.articleId))

/-- What a step does to the controllers of a device. -/
inductive ControllersStep (w : World P) (e : Event P) (d : ℕ) : List (Controller P) → Prop where
  | same : ControllersStep w e d (w.device d).controllers
  | push {c : Controller P} (h : w.Pushes e d c) :
      ControllersStep w e d ((w.device d).controllers ++ [c])
  | change {e' : Device.Event P} {self : Ref} {c c' : Controller P} (he : e = .device d e')
      (hc : (w.device d).controllers[self]? = some c)
      (h : Device.Changes (w.publishing.localView d) e' self c c') :
      ControllersStep w e d ((w.device d).controllers.modify self fun _ ↦ c')

theorem finish_controllers {α : Type} {dev : Device P} {k : α → Device P}
    (h : ∀ x, (k x).controllers = dev.controllers) (outcome : Except Trap α) :
    (dev.finish outcome k).controllers = dev.controllers := by
  cases outcome with
  | ok x => exact h x
  | error trap => rfl

theorem step_controllers {e : Event P} (h : w.step e = some w') (d : ℕ) :
    w.ControllersStep e d (w'.device d).controllers := by
  have hstep := step_device h d
  generalize w'.device d = dev at hstep ⊢
  cases hstep with
  | same => exact .same
  | flash hud => exact .same
  | release he hr hd hs =>
      subst he hd
      rcases Device.pushFrom_cases ((w.device _).flash .success) _ _ with hp | hp
      · rw [hp]
        exact .same
      · rw [hp]
        exact .push (.release hr hs)
  | event he htrap heffect =>
      subst he
      cases heffect with
      | screens scene stack => exact .same
      | push h => exact .push (.opens h)
      | change hc h => exact .change rfl hc h
      | @feed e kind outcome h =>
          rw [finish_controllers (k := (w.device d).updateFeed kind) fun _ ↦ rfl]
          exact .same
      | createUser => exact .same
      | createUserCompletion hs he => exact .same
      | welcome hs he => exact .push (.welcome hs he)
      | trap h => exact .same

-- A property of controllers that the pushed ones have and the changes keep.
theorem controllers_step {e : Event P} (h : w.step e = some w') {Q : Controller P → Prop} {d : ℕ}
    (hpush : ∀ c, w.Pushes e d c → Q c)
    (hchange : ∀ e' self c c', e = .device d e' → (w.device d).controllers[self]? = some c →
      Device.Changes (w.publishing.localView d) e' self c c' → Q c → Q c')
    (hQ : Records (fun _ c ↦ Q c) (w.device d).controllers) :
    Records (fun _ c ↦ Q c) (w'.device d).controllers := by
  have hstep := step_controllers h d
  generalize (w'.device d).controllers = cs at hstep ⊢
  cases hstep with
  | same => exact hQ
  | push hp => exact hQ.concat (hpush _ hp)
  | change he hc hch =>
      refine hQ.modify fun a ha hqa ↦ ?_
      obtain rfl := Option.mem_unique ha hc
      exact hchange _ _ _ _ he hc hch hqa

-- A step leaves a feed as it is or is one of its moves.
theorem step_feed {e : Event P} (h : w.step e = some w') (d : ℕ) (kind : FeedKind) :
    (w'.device d).feed kind = (w.device d).feed kind ∨
      ∃ (e' : Device.Event P) (f' : Feed), e = .device d e' ∧
        Device.FeedMoves (w.publishing.localView d) kind ((w.device d).feed kind) e' (.ok f') ∧
        (w'.device d).feed kind = f' := by
  have hstep := step_device h d
  generalize w'.device d = dev at hstep ⊢
  cases hstep with
  | same => exact Or.inl rfl
  | flash hud => exact Or.inl rfl
  | release he hr hd hs =>
      rw [Device.pushFrom_feed]
      exact Or.inl rfl
  | event he htrap heffect =>
      cases heffect with
      | screens scene stack => exact Or.inl rfl
      | push h => exact Or.inl rfl
      | change hc h => exact Or.inl rfl
      | @feed e' kind' outcome h =>
          cases outcome with
          | error trap => exact Or.inl rfl
          | ok f' =>
              -- the other feed of the device is not touched
              by_cases hk : kind = kind'
              · subst hk
                exact Or.inr ⟨_, f', he, h, Device.updateFeed_self _ kind f'⟩
              · exact Or.inl (Device.updateFeed_ne _ hk f')
      | createUser => exact Or.inl rfl
      | createUserCompletion hs he => exact Or.inl rfl
      | welcome hs he => exact Or.inl rfl
      | trap h => exact Or.inl rfl

structure Consistent (w : World P) : Prop where
  publishing : w.publishing.Consistent
  feeds : ∀ d kind, ((w.device d).feed kind).Sound kind
  snapshots : ∀ d kind c, ((w.device d).feed kind).query.snapshot = some c →
    (plan w.publishing.releases).Accounts c
  controllers : ∀ d, Records (fun _ c ↦ c.Sound) (w.device d).controllers

theorem consistent_init : (init : World P).Consistent where
  publishing := Publishing.consistent_init
  feeds := fun _ kind ↦ Feed.sound_init kind
  snapshots := fun _ _ _ h ↦ by cases h
  controllers := fun _ ↦ records_nil

theorem Consistent.genuine (h : w.Consistent) (d : ℕ) (id : DocumentID) (data : DocumentData)
    (hd : (w.publishing.localView d).lookup id = some data) : Genuine P data := by
  obtain ⟨i, r, -, -, hdep, -⟩ := h.publishing.document (h.publishing.accounts_localView d) hd
  exact hdep.genuine

theorem Consistent.step (h : w.Consistent) {e : Event P} (hs : w.step e = some w') :
    w'.Consistent := by
  have hrun := projects.step hs
  have hgrows : (plan w'.publishing.releases).Extends (plan w.publishing.releases) :=
    (Publishing.grows_run h.publishing hrun).extends
  refine ⟨run_invariant (fun hI hs ↦ hI.step hs) h.publishing hrun, ?_, ?_, ?_⟩
  · intro d kind
    rcases step_feed hs d kind with hf | ⟨e', f', -, hm, hf⟩
    · exact hf ▸ h.feeds d kind
    · obtain ⟨f'', hok, hsound, -⟩ := hm.sound (h.feeds d kind)
      rw [hf, Except.ok.inj hok]
      exact hsound
  · intro d kind c hc
    rcases step_feed hs d kind with hf | ⟨e', f', -, hm, hf⟩
    · rw [hf] at hc
      exact (h.snapshots d kind c hc).extend hgrows
    · obtain ⟨f'', hok, -, hsnap⟩ := hm.sound (h.feeds d kind)
      rw [hf, Except.ok.inj hok] at hc
      rcases hsnap c hc with hold | ⟨-, rfl⟩
      · exact (h.snapshots d kind c hold).extend hgrows
      · exact (h.publishing.accounts_localView d).extend hgrows
  · intro d
    refine controllers_step hs (fun c hp ↦ ?_) (fun e' self c c' he hc hch ↦ ?_) (h.controllers d)
    · cases hp with
      | opens ho =>
          cases ho with
          | login => trivial
          | writingAdd => trivial
          | article => exact ArticleViewController.sound_ofRow _
      | welcome => trivial
      | release => exact ArticleViewController.sound_ofRelease _
    · exact hch.sound (h.genuine d)

theorem consistent_run {es : List (Event P)} (h : run step init es = some w) : w.Consistent :=
  run_invariant (fun hI hs ↦ hI.step hs) consistent_init h

/-! ## What can stop an app -/

-- The feeds never stop an app; an article screen may.
theorem Consistent.step_trap (h : w.Consistent) {e : Event P} (hs : w.step e = some w') (d : ℕ) :
    (w'.device d).trap = (w.device d).trap ∨
      ∃ e' trap, e = .device d e' ∧ (w.device d).Traps e' trap ∧
        (w'.device d).trap = some trap := by
  have hstep := step_device hs d
  generalize w'.device d = dev at hstep ⊢
  cases hstep with
  | same => exact Or.inl rfl
  | flash hud => exact Or.inl rfl
  | release he hr hd hs =>
      rw [Device.pushFrom_trap]
      exact Or.inl rfl
  | @event e' _ he htrap heffect =>
      cases heffect with
      | screens scene stack => exact Or.inl rfl
      | push h => exact Or.inl rfl
      | change hc h => exact Or.inl rfl
      | feed hm =>
          -- a sound feed never ends in a trap
          obtain ⟨f', rfl, -, -⟩ := hm.sound (h.feeds d _)
          exact Or.inl rfl
      | createUser => exact Or.inl rfl
      | createUserCompletion hs he => exact Or.inl rfl
      | welcome hs he => exact Or.inl rfl
      | trap h => exact Or.inr ⟨e', _, he, h, rfl⟩

end World

end LadyBook
