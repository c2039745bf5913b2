import LadyBook.Controller.Device

/-!
# What an event does to an app

Each event has one of a few effects: it opens a controller, changes one, moves a feed on, adds or
completes a `createUser` call, stops the app, or only moves the screens.  `step_effect` is the one
place where the handlers are unfolded; the invariants of the app follow from the effects.
-/

open Reasoning

namespace LadyBook.Device

variable {P : Platform}

/-- The controllers that an event pushes, those of `createUser` apart. -/
inductive Opens (dev : Device P) : Event P → Controller P → Prop where
  | login : Opens dev .tapWritingButton .login
  | writingAdd {self : Ref} {views : WritingViews P}
      (h : dev.controllers[self]? = some (.writing views)) (hself : self ∈ dev.stack) :
      Opens dev (.editBarButton1Tapped self) (.writingAdd self (some "") (some ""))
  | article {kind : FeedKind} {row : ℕ} :
      Opens dev (.didSelectRowAt kind row) (.article (.ofRow
        ((dev.feed kind).articles[row]?.map Article.articleId)))

/-- The changes of a controller. -/
inductive Changes (localView : Collection) :
    Event P → Ref → Controller P → Controller P → Prop where
  | edit {self : Ref} {views views' : WritingViews P} :
      Changes localView (.edit self views') self (.writing views) (.writing views')
  | select {self writing : Ref} {category style category' style' : Option String} :
      Changes localView (.select self category' style') self
        (.writingAdd writing category style) (.writingAdd writing category' style')
  | viewDidLoad {self : Ref} {vc vc' : ArticleViewController P} (hv : vc.view = .notLoaded)
      (h : vc.viewDidLoad = .ok vc') :
      Changes localView (.articleViewDidLoad self) self (.article vc) (.article vc')
  | getDocument {self : Ref} {vc : ArticleViewController P} {articleId : DocumentID}
      {error : Bool} (hv : vc.view = .getDocument) (ha : vc.articleId = some articleId) :
      Changes localView (.getDocument self error) self (.article vc) (.article { vc with
        view := .getDocumentCompletion
          (if error then none else some (localView.lookup articleId)) })
  | getDocumentCompletion {self : Ref} {vc vc' : ArticleViewController P}
      {answer : Option (Option DocumentData)} (hv : vc.view = .getDocumentCompletion answer)
      (h : vc.getDocumentCompletion answer = .ok vc') :
      Changes localView (.getDocumentCompletion self) self (.article vc) (.article vc')

/-- The moves of a feed. -/
inductive FeedMoves (localView : Collection) (kind : FeedKind) (f : Feed) :
    Event P → Except Trap Feed → Prop where
  | viewDidLoad {f' : Feed} (h : f.viewDidLoad = some f') :
      FeedMoves localView kind f (.feedViewDidLoad kind) (.ok f')
  | getDocuments {error : Bool} {f' : Feed}
      (h : f.getDocuments (if error then none else some localView) = some f') :
      FeedMoves localView kind f (.getDocuments kind error) (.ok f')
  | readArticlesFromFirestore {asks : List (List TableRequest)} {outcome : Except Trap Feed}
      (h : f.readArticlesFromFirestore kind asks = some outcome) :
      FeedMoves localView kind f (.readArticlesFromFirestore kind asks) outcome
  | table {request : TableRequest} :
      FeedMoves localView kind f (.table kind request) (f.request kind request)

/-- The ways an article screen stops the app. -/
inductive Traps (dev : Device P) : Event P → Trap → Prop where
  | viewDidLoad {self : Ref} {vc : ArticleViewController P} {trap : Trap}
      (hc : dev.controllers[self]? = some (.article vc)) (hv : vc.view = .notLoaded)
      (h : vc.viewDidLoad = .error trap) : Traps dev (.articleViewDidLoad self) trap
  | getDocumentCompletion {self : Ref} {vc : ArticleViewController P}
      {answer : Option (Option DocumentData)} {trap : Trap}
      (hc : dev.controllers[self]? = some (.article vc))
      (hv : vc.view = .getDocumentCompletion answer)
      (h : vc.getDocumentCompletion answer = .error trap) :
      Traps dev (.getDocumentCompletion self) trap

-- The call is told its outcome.
def completeSignUp (dev : Device P) (k : ℕ) (error : Bool) : Device P :=
  { dev with signUps := dev.signUps.modify k fun s ↦ { s with error := some error } }

inductive Effect (localView : Collection) (dev : Device P) : Event P → Device P → Prop where
  | screens {e : Event P} (scene : Scene) (stack : List Ref)
      (h : stack = dev.stack ∨ stack = dev.stack.tail) :
      Effect localView dev e { dev with scene := scene, stack := stack }
  | push {e : Event P} {c : Controller P} (h : dev.Opens e c) :
      Effect localView dev e (dev.pushViewController c)
  | change {e : Event P} {self : Ref} {c c' : Controller P}
      (hc : dev.controllers[self]? = some c) (h : Changes localView e self c c') :
      Effect localView dev e (dev.update self c')
  | feed {e : Event P} {kind : FeedKind} {outcome : Except Trap Feed}
      (h : FeedMoves localView kind (dev.feed kind) e outcome) :
      Effect localView dev e (dev.finish outcome (dev.updateFeed kind))
  | createUser {self : Ref} {email password : String}
      (hc : dev.controllers[self]? = some .login) :
      Effect localView dev (.tappedSignUpButton self (some email) (some password))
        { dev with signUps := dev.signUps ++ [⟨self, email, password, none⟩] }
  | createUserCompletion {k : ℕ} {error : Bool} {s : SignUp} (hs : dev.signUps[k]? = some s)
      (he : s.error = none) :
      Effect localView dev (.createUserCompletion k error) (dev.completeSignUp k error)
  | welcome {k : ℕ} {s : SignUp} (hs : dev.signUps[k]? = some s) (he : s.error = none)
      (hself : s.screen ∈ dev.stack) :
      Effect localView dev (.createUserCompletion k false)
        ((dev.completeSignUp k false).pushViewController (.writing writingView))
  | trap {e : Event P} {trap : Trap} (h : dev.Traps e trap) :
      Effect localView dev e { dev with trap := some trap }

variable {dev dev' : Device P} {localView : Collection}

theorem pushFrom_cases (dev : Device P) (self : Ref) (c : Controller P) :
    dev.pushFrom self c = dev ∨ dev.pushFrom self c = dev.pushViewController c := by
  unfold pushFrom
  split
  · exact Or.inr rfl
  · exact Or.inl rfl

theorem pushFrom_feed (dev : Device P) (self : Ref) (c : Controller P) :
    (dev.pushFrom self c).feed = dev.feed := by
  rcases pushFrom_cases dev self c with h | h <;> rw [h]
  rfl

theorem pushFrom_trap (dev : Device P) (self : Ref) (c : Controller P) :
    (dev.pushFrom self c).trap = dev.trap := by
  rcases pushFrom_cases dev self c with h | h <;> rw [h]
  rfl

theorem tappedSignUpButton_effect {self : Ref} {email password : Option String}
    (h : dev.tappedSignUpButton self email password = some dev') :
    dev.Effect localView (.tappedSignUpButton self email password) dev' := by
  unfold tappedSignUpButton at h
  split at h
  next hc =>
    split at h
    next =>
      split at h
      next email password =>
        obtain rfl := Option.some.inj h
        exact .createUser hc
      next =>
        obtain rfl := Option.some.inj h
        exact .screens dev.scene dev.stack (Or.inl rfl)
    next => cases h
  next => cases h

theorem createUserCompletion_effect {k : ℕ} {error : Bool}
    (h : dev.createUserCompletion k error = some dev') :
    dev.Effect localView (.createUserCompletion k error) dev' := by
  unfold createUserCompletion at h
  split at h
  next self email password hs =>
    cases error with
    | true =>
        obtain rfl := Option.some.inj h
        exact .createUserCompletion hs rfl
    | false =>
        obtain rfl := Option.some.inj h
        by_cases hself : self ∈ dev.stack
        · have hp : (dev.completeSignUp k false).pushFrom self (.writing writingView) = _ :=
            if_pos hself
          exact hp.symm ▸ .welcome hs rfl hself
        · have hp : (dev.completeSignUp k false).pushFrom self (.writing writingView) = _ :=
            if_neg hself
          exact hp.symm ▸ .createUserCompletion hs rfl
  next => cases h

theorem edit_effect {self : Ref} {views : WritingViews P} (h : dev.edit self views = some dev') :
    dev.Effect localView (.edit self views) dev' := by
  unfold edit at h
  split at h
  next views' hc =>
    split at h
    next =>
      obtain rfl := Option.some.inj h
      exact .change hc .edit
    next => cases h
  next => cases h

theorem select_effect {self : Ref} {category style : Option String}
    (h : dev.select self category style = some dev') :
    dev.Effect localView (.select self category style) dev' := by
  unfold select at h
  split at h
  next writing category' style' hc =>
    split at h
    next =>
      obtain rfl := Option.some.inj h
      exact .change hc .select
    next => cases h
  next => cases h

theorem editBarButton1Tapped_effect {self : Ref} (h : dev.editBarButton1Tapped self = some dev') :
    dev.Effect localView (.editBarButton1Tapped self) dev' := by
  unfold editBarButton1Tapped at h
  split at h
  next views hc =>
    split at h
    next hself =>
      obtain rfl := Option.some.inj h
      rw [pushFrom, if_pos hself]
      exact .push (.writingAdd hc hself)
    next => cases h
  next => cases h

theorem didSelectRowAt_effect {kind : FeedKind} {row : ℕ}
    (h : dev.didSelectRowAt kind row = some dev') :
    dev.Effect localView (.didSelectRowAt kind row) dev' := by
  unfold didSelectRowAt at h
  split at h
  next =>
    obtain rfl := Option.some.inj h
    exact .push .article
  next => cases h

theorem articleViewDidLoad_effect {self : Ref} (h : dev.articleViewDidLoad self = some dev') :
    dev.Effect localView (.articleViewDidLoad self) dev' := by
  unfold articleViewDidLoad at h
  split at h
  next vc hc =>
    split at h
    next hv =>
      split at h
      next =>
        obtain rfl := Option.some.inj h
        cases hl : vc.viewDidLoad with
        | ok vc' => exact .change hc (.viewDidLoad hv hl)
        | error trap => exact .trap (.viewDidLoad hc hv hl)
      next => cases h
    next => cases h
  next => cases h

theorem getDocument_effect {self : Ref} {error : Bool}
    (h : dev.getDocument localView self error = some dev') :
    dev.Effect localView (.getDocument self error) dev' := by
  unfold getDocument at h
  split at h
  next vc hc =>
    split at h
    next articleId hv ha =>
      obtain rfl := Option.some.inj h
      exact .change hc (.getDocument hv ha)
    next => cases h
  next => cases h

theorem getDocumentCompletion_effect {self : Ref}
    (h : dev.getDocumentCompletion self = some dev') :
    dev.Effect localView (.getDocumentCompletion self) dev' := by
  unfold getDocumentCompletion at h
  split at h
  next vc hc =>
    split at h
    next answer hv =>
      obtain rfl := Option.some.inj h
      cases hl : vc.getDocumentCompletion answer with
      | ok vc' => exact .change hc (.getDocumentCompletion hv hl)
      | error trap => exact .trap (.getDocumentCompletion hc hv hl)
    next => cases h
  next => cases h

theorem handle_effect {e : Event P} (h : dev.handle localView e = some dev') :
    dev.Effect localView e dev' := by
  cases e with
  | performSegue => cases h
  | tapWritingButton =>
      obtain rfl := Option.some.inj h
      exact .push .login
  | tappedSignUpButton self email password => exact tappedSignUpButton_effect h
  | createUserCompletion k error => exact createUserCompletion_effect h
  | popViewController =>
      cases hs : dev.stack with
      | nil => simp [handle, popViewController, hs] at h
      | cons ref stack =>
          simp only [handle, popViewController, hs] at h
          obtain rfl := Option.some.inj h
          exact .screens dev.scene stack (Or.inr (by rw [hs, List.tail_cons]))
  | edit self views => exact edit_effect h
  | select self category style => exact select_effect h
  | editBarButton1Tapped self => exact editBarButton1Tapped_effect h
  | feedViewDidLoad kind =>
      obtain ⟨f', hf, rfl⟩ := Option.map_eq_some_iff.mp h
      exact .feed (.viewDidLoad hf)
  | getDocuments kind error =>
      obtain ⟨f', hf, rfl⟩ := Option.map_eq_some_iff.mp h
      exact .feed (.getDocuments hf)
  | readArticlesFromFirestore kind asks =>
      obtain ⟨outcome, ho, rfl⟩ := Option.map_eq_some_iff.mp h
      exact .feed (.readArticlesFromFirestore ho)
  | table kind request =>
      obtain rfl := Option.some.inj h
      exact .feed .table
  | didSelectRowAt kind row => exact didSelectRowAt_effect h
  | articleViewDidLoad self => exact articleViewDidLoad_effect h
  | getDocument self error => exact getDocument_effect h
  | getDocumentCompletion self => exact getDocumentCompletion_effect h

theorem performSegue_effect (h : dev.performSegue = some dev') :
    dev.Effect localView .performSegue dev' := by
  unfold performSegue at h
  split at h
  next =>
    obtain ⟨scene, -, rfl⟩ := Option.map_eq_some_iff.mp h
    exact .screens scene dev.stack (Or.inl rfl)
  next => cases h

/-- Every step of an app that has not been stopped has one of the effects. -/
theorem step_effect {e : Event P} (h : dev.step localView e = some dev') :
    dev.trap = none ∧ dev.Effect localView e dev' := by
  by_cases hsegue : e = .performSegue
  · subst hsegue
    refine ⟨?_, performSegue_effect h⟩
    simp only [step, performSegue] at h
    split at h
    next htrap => exact htrap
    next => cases h
  · have hstep : (if dev.Running then dev.handle localView e else none) = some dev' := by
      cases e <;> first | exact h | exact absurd rfl hsegue
    split at hstep
    next hrun => exact ⟨hrun.2, handle_effect hstep⟩
    next => cases hstep

theorem Changes.opening {e : Event P} {self : Ref} {c c' : Controller P}
    (h : Changes localView e self c c') : c'.opening = c.opening := by
  cases h with
  | edit => rfl
  | select => rfl
  | viewDidLoad hv hl =>
      obtain ⟨rfl, -⟩ := ArticleViewController.viewDidLoad_eq_ok hl
      rfl
  | getDocument hv ha => rfl
  | getDocumentCompletion hv hl =>
      obtain ⟨view, rfl, -⟩ := ArticleViewController.getDocumentCompletion_eq_ok hl
      rfl

-- A feed that is sound moves to a sound one; a new snapshot is what the client sees.
theorem FeedMoves.sound {kind : FeedKind} {f : Feed} {e : Event P} {outcome : Except Trap Feed}
    (h : FeedMoves localView kind f e outcome) (hf : f.Sound kind) :
    ∃ f', outcome = .ok f' ∧ f'.Sound kind ∧
      ∀ c, f'.query.snapshot = some c → f.query.snapshot = some c ∨
        e = .getDocuments kind false ∧ c = localView := by
  cases h with
  | @viewDidLoad f' h =>
      have hq : f'.query = .issued := Feed.viewDidLoad_query h
      exact ⟨f', rfl, hf.viewDidLoad h, fun c hc ↦ by rw [hq] at hc; cases hc⟩
  | @getDocuments error f' h =>
      have hq := Feed.getDocuments_query h
      refine ⟨f', rfl, hf.getDocuments h, fun c hc ↦ Or.inr ?_⟩
      rw [hq] at hc
      cases error with
      | true => cases hc
      | false => exact ⟨rfl, (Option.some.inj hc).symm⟩
  | readArticlesFromFirestore h =>
      obtain ⟨f', querySnapShot, rfl, hf', hq, hq'⟩ := hf.readArticlesFromFirestore h
      refine ⟨f', rfl, hf', fun c hc ↦ Or.inl ?_⟩
      rw [hq'] at hc
      rw [hq]
      exact hc
  | table =>
      obtain ⟨f', hok, hf', hq⟩ := hf.request _
      exact ⟨f', hok, hf', fun c hc ↦ Or.inl (hq ▸ hc)⟩

theorem Traps.unwrappedNil {e : Device.Event P} {trap : Trap}
    (h : dev.Traps e trap) : ∃ what, trap = .unwrappedNil what := by
  cases h with
  | viewDidLoad hc hv hl => exact ⟨_, (ArticleViewController.viewDidLoad_eq_error hl).2⟩
  | getDocumentCompletion hc hv hl =>
      exact ArticleViewController.getDocumentCompletion_eq_error hl

end LadyBook.Device
