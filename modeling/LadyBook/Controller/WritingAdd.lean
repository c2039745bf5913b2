import LadyBook.Model.Article
import LadyBook.Platform

/-!
# `WritingAddViewController`

One tap of the release button starts a chain of asynchronous steps: the first `setData`, `putData`,
`downloadURL` and the merging `setData`.  A `Release` is the activation of `tapReleaseButton` that
the completion handlers of the chain share: what the tap read, the stage the chain is at, and the
download URL once it is known.
-/

namespace LadyBook

variable {P : Platform}

/-- The views of a `WritingViewController`; the `WritingAddViewController`s it pushes use the same
objects.  The text of a `UITextView` is never nil. -/
structure WritingViews (P : Platform) where
  titleTextView : String
  articleTextView : String
  writingImageView : Option P.UIImage

/-- What a tap of the release button reads: its screen, the fields at that moment, and what
`document()`, `Timestamp()`, `Date()` and the encoder answer. -/
structure Tap (P : Platform) where
  device : ℕ
  screen : ℕ
  views : WritingViews P
  categoryTextField : Option String
  styleTextField : Option String
  documentID : DocumentID
  timestamp : Timestamp
  date : P.TimeInterval
  encoderThrows : Bool

/-- The id that `createToFirestore` returns, and the write it issues unless the encoder throws.
The argument is not used: the title is read from the view again. -/
def createToFirestore (t : Tap P) (_title : String) : DocumentID × Option DocumentWrite :=
  let articleId := t.documentID
  let article := Article.make articleId t.views.titleTextView t.views.articleTextView t.timestamp
  match encode t.encoderThrows article with
  | .ok encodedArticle =>
      let encodedArticle := encodedArticle.setIfPresent "category" t.categoryTextField
      let encodedArticle := encodedArticle.setIfPresent "style" t.styleTextField
      (articleId, some (setData articleId encodedArticle))
  -- the `catch` branch prints the error, and the id is returned all the same
  | .error _ => (articleId, none)

/-- The document that the first write of a tap carries. -/
def Tap.document (t : Tap P) : DocumentData :=
  ((Article.make t.documentID t.views.titleTextView t.views.articleTextView
    t.timestamp).encoded.setIfPresent "category" t.categoryTextField).setIfPresent "style"
      t.styleTextField

theorem createToFirestore_eq (t : Tap P) (title : String) :
    createToFirestore t title =
      (t.documentID, if t.encoderThrows then none else some (setData t.documentID t.document)) := by
  unfold createToFirestore encode
  cases t.encoderThrows <;> rfl

-- The `putData` that a tap issues: the path of the reference and the bytes.  There is none without
-- an image or without JPEG data.
def Tap.putData (t : Tap P) : Option (String × P.Data) :=
  match t.views.writingImageView with
  | some selectImage =>
      let imageName := P.interpolate t.date ++ ".jpg"
      let reference := "posts/" ++ imageName
      match P.jpegData selectImage with
      | some imageData => some (reference, imageData)
      | none => none
  -- the `else` branch is empty
  | none => none

/-- Where the chain of a tap stands: a request that has not been answered, an answer whose
completion handler has not run, or the end. -/
inductive Stage where
  | putData
  | putDataCompletion (metadata : Bool)
  | downloadURL
  | setData
  | setDataCompletion (error : Bool)
  | succeeded
  | stopped
  deriving DecidableEq, Repr

/-- The taps that start a chain are those with a title. -/
structure Release (P : Platform) where
  tap : Tap P
  titled : tap.views.titleTextView.isEmpty = false
  stage : Stage
  downloadUrl : Option P.URL

namespace Release

-- The chain as the tap leaves it.
def start (t : Tap P) (h : t.views.titleTextView.isEmpty = false) : Release P where
  tap := t
  titled := h
  stage := if t.putData.isSome then .putData else .stopped
  downloadUrl := none

def articleId (r : Release P) : DocumentID := r.tap.documentID

-- The first write of the release.
def firstWrite (r : Release P) : Option DocumentWrite :=
  (createToFirestore r.tap r.tap.views.titleTextView).2

theorem firstWrite_some {r : Release P} {w : DocumentWrite} :
    r.firstWrite = some w ↔
      r.tap.encoderThrows = false ∧ w = setData r.articleId r.tap.document := by
  rw [firstWrite, createToFirestore_eq]
  cases r.tap.encoderThrows with
  | false => simp [articleId, eq_comm]
  | true => simp

-- `["imageURL": downloadUrlStr]`.
def imageFields (downloadUrlStr : String) : DocumentData :=
  (∅ : DocumentData).insert "imageURL" (.string downloadUrlStr)

-- The completion handler of `putData`.
def putDataCompletion (r : Release P) (metadata : Bool) : Release P :=
  -- nothing is done about an upload that failed, nor about a URL that is not there
  if metadata then { r with stage := .downloadURL } else { r with stage := .stopped }

/-- The merging write of the release, once it has a download URL. -/
def mergeWrite (r : Release P) : Option DocumentWrite :=
  r.downloadUrl.map fun u ↦ setDataMerge r.articleId (imageFields (P.absoluteString u))

-- The completion handler of `downloadURL`, with the merging write it issues.
def downloadURLCompletion (r : Release P) (url : Option P.URL) :
    Release P × Option DocumentWrite :=
  match url with
  | some downloadUrl =>
      let downloadUrlStr := P.absoluteString downloadUrl
      ({ r with stage := .setData, downloadUrl := some downloadUrl },
        some (setDataMerge r.articleId (imageFields downloadUrlStr)))
  | none => ({ r with stage := .stopped }, none)

-- The completion handler of the merging `setData`, without the screen it pushes.
def setDataCompletion (r : Release P) (error : Bool) : Release P :=
  -- an error is printed
  { r with stage := if error then .stopped else .succeeded }

end Release

/-! ## The fields of the document -/

section Fields

variable (t : Tap P)

theorem Tap.document_articleId :
    t.document.lookup "articleId" = some (.string t.documentID) := by
  simp [Tap.document, Article.encoded, Article.make, DocumentData.lookup_setIfPresent_ne]

theorem Tap.document_title :
    t.document.lookup "title" = some (.string t.views.titleTextView) := by
  simp [Tap.document, Article.encoded, Article.make, DocumentData.lookup_setIfPresent_ne,
    DocumentData.lookup_setIfPresent_self]

theorem Tap.document_text :
    t.document.lookup "text" = some (.string t.views.articleTextView) := by
  simp [Tap.document, Article.encoded, Article.make, DocumentData.lookup_setIfPresent_ne,
    DocumentData.lookup_setIfPresent_self]

theorem Tap.document_createdAt :
    t.document.lookup "createdAt" = some (.timestamp t.timestamp) := by
  simp [Tap.document, Article.encoded, Article.make, DocumentData.lookup_setIfPresent_ne]

theorem Tap.document_category :
    t.document.lookup "category" = t.categoryTextField.map .string := by
  simp [Tap.document, Article.encoded, Article.make, DocumentData.lookup_setIfPresent_ne,
    DocumentData.lookup_setIfPresent_self]

theorem Tap.document_style :
    t.document.lookup "style" = t.styleTextField.map .string := by
  simp [Tap.document, Article.encoded, Article.make, DocumentData.lookup_setIfPresent_ne,
    DocumentData.lookup_setIfPresent_self]

theorem Tap.document_imageURL : t.document.lookup "imageURL" = none := by
  simp [Tap.document, Article.encoded, Article.make, DocumentData.lookup_setIfPresent_ne]

end Fields

end LadyBook
