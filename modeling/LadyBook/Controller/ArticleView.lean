import LadyBook.Model.Document
import LadyBook.Platform

/-!
# `ArticleViewController`

The screen of one article.  `viewDidLoad` asks for the document of `articleId`, and the completion
handler of `getDocument` fills the outlets.
-/

namespace LadyBook

variable {P : Platform}

/-- Which way a controller was opened: from a row of a feed, with the id of the article of that
row, or after a release. -/
inductive Opening where
  | row (articleId : Option DocumentID)
  | release (articleId : DocumentID)
  deriving DecidableEq, Repr

/-- The article that the user asked for. -/
def Opening.target : Opening → Option DocumentID
  | row articleId => articleId
  | release articleId => some articleId

/-- What the view has got to; `getDocumentCompletion` has an answer whose handler has not run, none
after an error. -/
inductive ArticleView (P : Platform) where
  | notLoaded
  | getDocument
  | getDocumentCompletion (answer : Option (Option DocumentData))
  | failed
  | loaded (titleLabel articleLabel : Option String) (imageURL : Option P.URL)

/-- `outlets` tells whether the storyboard instantiated the controller and connected them; `opening`
is history. -/
structure ArticleViewController (P : Platform) where
  articleId : Option DocumentID
  outlets : Bool
  opening : Opening
  view : ArticleView P

namespace ArticleViewController

-- `ArticleViewController()` in `tableView(_:didSelectRowAt:)`.
def ofRow (target : Option DocumentID) : ArticleViewController P where
  -- the row hands over nothing, and no nib has the name of the class
  articleId := none
  outlets := false
  opening := .row target
  view := .notLoaded

-- `instantiateViewController(identifier: "ArticleView")` in `tapReleaseButton`.
def ofRelease (articleId : DocumentID) : ArticleViewController P where
  articleId := some articleId
  outlets := true
  opening := .release articleId
  view := .notLoaded

-- A forced unwrap.
def unwrap {α : Type} (what : Unwrapped) : Option α → Except Trap α
  | some x => .ok x
  | none => .error (.unwrappedNil what)

-- The use of an implicitly unwrapped outlet.
def outlet (a : ArticleViewController P) (what : Unwrapped) : Except Trap Unit :=
  if a.outlets then .ok () else .error (.unwrappedNil what)

def viewDidLoad (a : ArticleViewController P) : Except Trap (ArticleViewController P) := do
  let _ ← unwrap .articleId a.articleId
  return { a with view := .getDocument }

-- The completion handler of `getDocument`.
def getDocumentCompletion (a : ArticleViewController P) :
    Option (Option DocumentData) → Except Trap (ArticleViewController P)
  -- an error is printed and the handler returns
  | none => return { a with view := .failed }
  | some data => do
      a.outlet .titleLabel
      let titleLabel := data.bind (·.string? "title")
      a.outlet .articleLabel
      let articleLabel := data.bind (·.string? "text")
      match data.bind (·.string? "imageURL") with
      | some imageURL =>
          -- the URL is parsed once for each of the two `loadImage` calls
          let url ← unwrap .url (P.urlOfString imageURL)
          a.outlet .writingImageView
          return { a with view := .loaded titleLabel articleLabel (some url) }
      | none => return { a with view := .loaded titleLabel articleLabel none }

variable {a : ArticleViewController P}

theorem viewDidLoad_some {articleId : DocumentID} (h : a.articleId = some articleId) :
    a.viewDidLoad = .ok { a with view := .getDocument } := by
  unfold viewDidLoad
  rw [h]
  rfl

theorem viewDidLoad_none (h : a.articleId = none) :
    a.viewDidLoad = .error (.unwrappedNil .articleId) := by
  unfold viewDidLoad
  rw [h]
  rfl

theorem viewDidLoad_eq_ok {vc : ArticleViewController P} (h : a.viewDidLoad = .ok vc) :
    vc = { a with view := .getDocument } ∧ a.articleId ≠ none := by
  by_cases ha : a.articleId = none
  · rw [viewDidLoad_none ha] at h
    cases h
  · obtain ⟨articleId, hs⟩ := Option.ne_none_iff_exists'.mp ha
    rw [viewDidLoad_some hs] at h
    exact ⟨(Except.ok.inj h).symm, ha⟩

-- With its outlets, the handler fills them from the document if the image URL parses.
theorem getDocumentCompletion_data (h : a.outlets = true) (data : Option DocumentData)
    (hurl : ∀ imageURL, data.bind (·.string? "imageURL") = some imageURL →
      (P.urlOfString imageURL).isSome = true) :
    ∃ url, a.getDocumentCompletion (some data) = .ok { a with
      view := .loaded (data.bind (·.string? "title")) (data.bind (·.string? "text")) url } := by
  have houtlet : ∀ what, a.outlet what = .ok () := fun what ↦ if_pos h
  unfold getDocumentCompletion
  simp only [houtlet]
  cases hi : data.bind (·.string? "imageURL") with
  | none => exact ⟨none, rfl⟩
  | some imageURL =>
      obtain ⟨url, hu⟩ := Option.isSome_iff_exists.mp (hurl imageURL hi)
      refine ⟨some url, ?_⟩
      show (unwrap .url (P.urlOfString imageURL) >>= _ : Except Trap (ArticleViewController P)) = _
      rw [hu]
      rfl

theorem getDocumentCompletion_ok (h : a.outlets = true) {answer : Option (Option DocumentData)}
    (hurl : ∀ data, answer = some (some data) → ∀ imageURL, data.string? "imageURL" =
      some imageURL → (P.urlOfString imageURL).isSome = true) :
    ∃ view, a.getDocumentCompletion answer = .ok { a with view := view } := by
  cases answer with
  | none => exact ⟨.failed, rfl⟩
  | some data =>
      have hdata : ∀ imageURL, data.bind (·.string? "imageURL") = some imageURL →
          (P.urlOfString imageURL).isSome = true := by
        intro imageURL hi
        obtain ⟨data', rfl, hi⟩ := Option.bind_eq_some_iff.mp hi
        exact hurl data' rfl imageURL hi
      obtain ⟨url, hview⟩ := getDocumentCompletion_data h data hdata
      exact ⟨_, hview⟩

-- Whatever the handler returns, only the view is new, and no answer waits any more.
theorem getDocumentCompletion_eq_ok {vc : ArticleViewController P}
    {answer : Option (Option DocumentData)} (h : a.getDocumentCompletion answer = .ok vc) :
    ∃ view, vc = { a with view := view } ∧ ∀ x, view ≠ .getDocumentCompletion x := by
  cases answer with
  | none =>
      obtain rfl := Except.ok.inj h
      exact ⟨.failed, rfl, by simp⟩
  | some data =>
      cases ho : a.outlets with
      | false =>
          simp only [ArticleViewController.getDocumentCompletion, outlet, ho] at h
          cases h
      | true =>
          simp only [ArticleViewController.getDocumentCompletion, outlet, ho, if_true] at h
          cases hi : data.bind (·.string? "imageURL") with
          | none =>
              rw [hi] at h
              obtain rfl := Except.ok.inj h
              exact ⟨_, rfl, by simp⟩
          | some imageURL =>
              rw [hi] at h
              cases hu : P.urlOfString imageURL with
              | none =>
                  simp only [hu, unwrap] at h
                  cases h
              | some url =>
                  simp only [hu, unwrap] at h
                  obtain rfl := Except.ok.inj h
                  exact ⟨_, rfl, by simp⟩

-- What the handler puts on the screen comes from the document it was given.
theorem getDocumentCompletion_view {vc : ArticleViewController P}
    {answer : Option (Option DocumentData)} (h : a.getDocumentCompletion answer = .ok vc)
    {title text : Option String} {url : Option P.URL} (hv : vc.view = .loaded title text url) :
    ∃ data, answer = some data ∧ title = data.bind (·.string? "title") ∧
      text = data.bind (·.string? "text") ∧
      url = (data.bind (·.string? "imageURL")).bind P.urlOfString := by
  cases answer with
  | none =>
      obtain rfl := Except.ok.inj h
      cases hv
  | some data =>
      refine ⟨data, rfl, ?_⟩
      cases ho : a.outlets with
      | false =>
          simp only [ArticleViewController.getDocumentCompletion, outlet, ho] at h
          cases h
      | true =>
          simp only [ArticleViewController.getDocumentCompletion, outlet, ho, if_true] at h
          cases hi : data.bind (·.string? "imageURL") with
          | none =>
              rw [hi] at h
              obtain rfl := Except.ok.inj h
              obtain ⟨rfl, rfl, rfl⟩ := ArticleView.loaded.inj hv
              exact ⟨rfl, rfl, rfl⟩
          | some imageURL =>
              rw [hi] at h
              cases hu : P.urlOfString imageURL with
              | none =>
                  simp only [hu, unwrap] at h
                  cases h
              | some url' =>
                  simp only [hu, unwrap] at h
                  obtain rfl := Except.ok.inj h
                  obtain ⟨rfl, rfl, rfl⟩ := ArticleView.loaded.inj hv
                  exact ⟨rfl, rfl, hu.symm⟩

theorem viewDidLoad_eq_error {trap : Trap} (h : a.viewDidLoad = .error trap) :
    a.articleId = none ∧ trap = .unwrappedNil .articleId := by
  cases ha : a.articleId with
  | none =>
      rw [viewDidLoad_none ha] at h
      exact ⟨rfl, (Except.error.inj h).symm⟩
  | some articleId =>
      rw [viewDidLoad_some ha] at h
      cases h

theorem getDocumentCompletion_eq_error {answer : Option (Option DocumentData)} {trap : Trap}
    (h : a.getDocumentCompletion answer = .error trap) : ∃ what, trap = .unwrappedNil what := by
  cases answer with
  | none => cases h
  | some data =>
      cases ho : a.outlets with
      | false =>
          simp only [ArticleViewController.getDocumentCompletion, outlet, ho] at h
          exact ⟨_, (Except.error.inj h).symm⟩
      | true =>
          simp only [ArticleViewController.getDocumentCompletion, outlet, ho, if_true] at h
          cases hi : data.bind (·.string? "imageURL") with
          | none =>
              rw [hi] at h
              cases h
          | some imageURL =>
              rw [hi] at h
              cases hu : P.urlOfString imageURL with
              | none =>
                  simp only [hu, unwrap] at h
                  exact ⟨_, (Except.error.inj h).symm⟩
              | some url =>
                  simp only [hu, unwrap] at h
                  cases h

end ArticleViewController

end LadyBook
