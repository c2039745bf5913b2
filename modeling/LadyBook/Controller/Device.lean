import Mathlib.Logic.Function.Basic
import LadyBook.Controller.ArticleView
import LadyBook.Controller.Feed
import LadyBook.Controller.WritingAdd
import LadyBook.Reasoning.Records

/-!
# One running app

The navigation stack over `MainViewController` with the controllers it shows, the two feeds, and the
`createUser` calls.  A step is one event on the main thread: a tap, an edit, a view that loads, a
completion handler.  The screens where nothing is published or read are left out.
-/

open Reasoning

namespace LadyBook

variable {P : Platform}

/-- The screens from the launch to the tab bar, each presented by a segue of the one before. -/
inductive Scene where
  | viewController
  | message1
  | message2
  | message3
  | tabBar
  deriving DecidableEq, Repr

def Scene.performSegue : Scene → Option Scene
  | viewController => some message1
  | message1 => some message2
  | message2 => some message3
  | message3 => some tabBar
  | tabBar => none

/-- A controller by its place in the list of all controllers that were pushed. -/
abbrev Ref := ℕ

/-- The controllers above the root.  A `WritingAddViewController` uses the views of the
`WritingViewController` that pushed it. -/
inductive Controller (P : Platform) where
  | login
  | writing (views : WritingViews P)
  | writingAdd (writing : Ref) (categoryTextField styleTextField : Option String)
  | article (vc : ArticleViewController P)

/-- How the article of a controller was opened. -/
def Controller.opening : Controller P → Option Opening
  | article vc => some vc.opening
  | _ => none

/-- A `createUser` call of a `LoginViewController`; `error` is there once it has completed. -/
structure SignUp where
  screen : Ref
  email : String
  password : String
  error : Option Bool
  deriving DecidableEq, Repr

inductive HUD where
  | labeledError (subtitle : String)
  | success
  deriving DecidableEq, Repr

structure Device (P : Platform) where
  scene : Scene
  controllers : List (Controller P)
  stack : List Ref
  signUps : List SignUp
  feed : FeedKind → Feed
  flashes : List HUD
  trap : Option Trap

namespace Device

def init : Device P where
  scene := .viewController
  controllers := []
  stack := []
  signUps := []
  feed _ := Feed.init
  flashes := []
  trap := none

/-- The app shows the tab bar and has not been stopped. -/
def Running (dev : Device P) : Prop := dev.scene = .tabBar ∧ dev.trap = none

instance (dev : Device P) : Decidable dev.Running :=
  inferInstanceAs (Decidable (_ ∧ _))

variable (dev : Device P)

def pushViewController (c : Controller P) : Device P :=
  { dev with
    controllers := dev.controllers ++ [c]
    stack := dev.controllers.length :: dev.stack }

/-- `self.navigationController?.pushViewController`: a controller that is not on the stack has no
navigation controller, and the new one is dropped. -/
def pushFrom (self : Ref) (c : Controller P) : Device P :=
  if self ∈ dev.stack then dev.pushViewController c else dev

def update (self : Ref) (c : Controller P) : Device P :=
  { dev with controllers := dev.controllers.modify self fun _ ↦ c }

def flash (hud : HUD) : Device P := { dev with flashes := dev.flashes ++ [hud] }

def updateFeed (kind : FeedKind) (f : Feed) : Device P :=
  { dev with feed := Function.update dev.feed kind f }

theorem updateFeed_self (kind : FeedKind) (f : Feed) : (dev.updateFeed kind f).feed kind = f :=
  Function.update_self ..

theorem updateFeed_ne {kind kind' : FeedKind} (h : kind' ≠ kind) (f : Feed) :
    (dev.updateFeed kind f).feed kind' = dev.feed kind' :=
  Function.update_of_ne h ..

-- Goes on with the result of a handler, or stops the app.
def finish {α : Type} (outcome : Except Trap α) (k : α → Device P) : Device P :=
  match outcome with
  | .ok x => k x
  | .error trap => { dev with trap := some trap }

inductive Event (P : Platform) where
  | performSegue
  | tapWritingButton
  | tappedSignUpButton (self : Ref) (email password : Option String)
  | createUserCompletion (k : ℕ) (error : Bool)
  | popViewController
  | edit (self : Ref) (views : WritingViews P)
  | select (self : Ref) (categoryTextField styleTextField : Option String)
  | editBarButton1Tapped (self : Ref)
  | feedViewDidLoad (kind : FeedKind)
  | getDocuments (kind : FeedKind) (error : Bool)
  | readArticlesFromFirestore (kind : FeedKind) (asks : List (List TableRequest))
  | table (kind : FeedKind) (request : TableRequest)
  | didSelectRowAt (kind : FeedKind) (row : ℕ)
  | articleViewDidLoad (self : Ref)
  | getDocument (self : Ref) (error : Bool)
  | getDocumentCompletion (self : Ref)

-- The launch screens follow each other by their segues.
def performSegue : Option (Device P) :=
  if dev.trap = none then
    dev.scene.performSegue.map fun scene ↦ { dev with scene := scene }
  else
    none

-- `FirstViewController.tapWritingButton`.
def tapWritingButton : Option (Device P) := some (dev.pushViewController .login)

-- `LoginViewController.tappedSignUpButton`.
def tappedSignUpButton (self : Ref) (email password : Option String) : Option (Device P) :=
  match dev.controllers[self]? with
  | some .login =>
      if self ∈ dev.stack then
        match email, password with
        | some email, some password =>
            some { dev with signUps := dev.signUps ++ [⟨self, email, password, none⟩] }
        -- the `guard` returns
        | _, _ => some dev
      else
        none
  | _ => none

/-- The views of a new `WritingViewController`, as the storyboard sets them up. -/
def writingView : WritingViews P where
  titleTextView := ""
  articleTextView := ""
  writingImageView := some P.image

-- The completion handler of `createUser` in `LoginViewController.emailSignUp`.
def createUserCompletion (k : ℕ) (error : Bool) : Option (Device P) :=
  match dev.signUps[k]? with
  -- a call that has completed does not complete again
  | some ⟨self, _, _, none⟩ =>
      let dev := { dev with signUps := dev.signUps.modify k fun s ↦ { s with error := some error } }
      -- the branch for an error is empty
      if error then some dev else some (dev.pushFrom self (.writing writingView))
  | _ => none

def popViewController : Option (Device P) :=
  match dev.stack with
  -- `MainViewController` stays
  | [] => none
  | _ :: stack => some { dev with stack := stack }

-- The user edits the text views or picks an image.
def edit (self : Ref) (views : WritingViews P) : Option (Device P) :=
  match dev.controllers[self]? with
  | some (.writing _) => if self ∈ dev.stack then some (dev.update self (.writing views)) else none
  | _ => none

-- The user fills the category and style fields.
def select (self : Ref) (categoryTextField styleTextField : Option String) : Option (Device P) :=
  match dev.controllers[self]? with
  | some (.writingAdd writing _ _) =>
      if self ∈ dev.stack then
        some (dev.update self (.writingAdd writing categoryTextField styleTextField))
      else
        none
  | _ => none

-- `WritingViewController.editBarButton1Tapped`; an empty `UITextField` has the text `""`.
def editBarButton1Tapped (self : Ref) : Option (Device P) :=
  match dev.controllers[self]? with
  | some (.writing _) =>
      if self ∈ dev.stack then
        some (dev.pushFrom self (.writingAdd self (some "") (some "")))
      else
        none
  | _ => none

def feedViewDidLoad (kind : FeedKind) : Option (Device P) :=
  (dev.feed kind).viewDidLoad.map (dev.updateFeed kind)

-- The query is answered with what the device's client sees.
def getDocuments (localView : Collection) (kind : FeedKind) (error : Bool) : Option (Device P) :=
  ((dev.feed kind).getDocuments (if error then none else some localView)).map (dev.updateFeed kind)

def readArticlesFromFirestore (kind : FeedKind) (asks : List (List TableRequest)) :
    Option (Device P) :=
  ((dev.feed kind).readArticlesFromFirestore kind asks).map fun outcome ↦
    dev.finish outcome (dev.updateFeed kind)

def table (kind : FeedKind) (request : TableRequest) : Option (Device P) :=
  some (dev.finish (Feed.request kind (dev.feed kind) request) (dev.updateFeed kind))

-- `tableView(_:didSelectRowAt:)` of both feeds, for a row that the table shows.
def didSelectRowAt (kind : FeedKind) (row : ℕ) : Option (Device P) :=
  if row < (dev.feed kind).rows.getD 0 then
    some (dev.pushViewController (.article (ArticleViewController.ofRow
      ((dev.feed kind).articles[row]?.map Article.articleId))))
  else
    none

-- The view of a pushed controller is loaded once.
def articleViewDidLoad (self : Ref) : Option (Device P) :=
  match dev.controllers[self]? with
  | some (.article vc) =>
      match vc.view with
      | .notLoaded =>
          if self ∈ dev.stack then
            some (dev.finish vc.viewDidLoad fun vc ↦ dev.update self (.article vc))
          else
            none
      | _ => none
  | _ => none

-- `getDocument` is answered with the document that the device's client sees.
def getDocument (localView : Collection) (self : Ref) (error : Bool) : Option (Device P) :=
  match dev.controllers[self]? with
  | some (.article vc) =>
      match vc.view, vc.articleId with
      | .getDocument, some articleId =>
          let answer := if error then none else some (localView.lookup articleId)
          some (dev.update self (.article { vc with view := .getDocumentCompletion answer }))
      | _, _ => none
  | _ => none

def getDocumentCompletion (self : Ref) : Option (Device P) :=
  match dev.controllers[self]? with
  | some (.article vc) =>
      match vc.view with
      | .getDocumentCompletion answer =>
          some (dev.finish (vc.getDocumentCompletion answer) fun vc ↦ dev.update self (.article vc))
      | _ => none
  | _ => none

-- An event once the tab bar is shown.
def handle (localView : Collection) : Event P → Option (Device P)
  | .performSegue => none
  | .tapWritingButton => dev.tapWritingButton
  | .tappedSignUpButton self email password => dev.tappedSignUpButton self email password
  | .createUserCompletion k error => dev.createUserCompletion k error
  | .popViewController => dev.popViewController
  | .edit self views => dev.edit self views
  | .select self category style => dev.select self category style
  | .editBarButton1Tapped self => dev.editBarButton1Tapped self
  | .feedViewDidLoad kind => dev.feedViewDidLoad kind
  | .getDocuments kind error => dev.getDocuments localView kind error
  | .readArticlesFromFirestore kind asks => dev.readArticlesFromFirestore kind asks
  | .table kind request => dev.table kind request
  | .didSelectRowAt kind row => dev.didSelectRowAt kind row
  | .articleViewDidLoad self => dev.articleViewDidLoad self
  | .getDocument self error => dev.getDocument localView self error
  | .getDocumentCompletion self => dev.getDocumentCompletion self

def step (localView : Collection) (e : Event P) : Option (Device P) :=
  match e with
  | .performSegue => dev.performSegue
  | e => if dev.Running then dev.handle localView e else none

end Device

end LadyBook
