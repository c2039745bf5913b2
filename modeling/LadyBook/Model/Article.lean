import LadyBook.Model.Document

/-! The class `Article` and its encoding by `Firestore.Encoder`. -/

namespace LadyBook

-- `if let value = value { data[field] = value }`, which is `encodeIfPresent` as well.
def DocumentData.setIfPresent (data : DocumentData) (field : String) (value : Option String) :
    DocumentData :=
  match value with
  | some value => data.insert field (.string value)
  | none => data

theorem DocumentData.lookup_setIfPresent_self (data : DocumentData) (field : String)
    (value : Option String) :
    (data.setIfPresent field value).lookup field =
      (value.map FieldValue.string).or (data.lookup field) := by
  cases value with
  | none => rfl
  | some value => exact Finmap.lookup_insert data

theorem DocumentData.lookup_setIfPresent_ne {data : DocumentData} {field field' : String}
    (h : field' ≠ field) (value : Option String) :
    (data.setIfPresent field value).lookup field' = data.lookup field' := by
  cases value with
  | none => rfl
  | some value => exact Finmap.lookup_insert_of_ne data h

/-- One article is one document of `Articles`. -/
structure Article where
  articleId : String
  title : Option String
  text : Option String
  createdAt : Timestamp
  deriving DecidableEq

namespace Article

-- The initializer.  `""` is the default of `title` and of `text` there.
def make (articleId title text : String) (createdAt : Timestamp) : Article where
  articleId := articleId
  title := some title
  text := some text
  createdAt := createdAt

/-- The synthesized `encode(to:)`: optional properties go through `encodeIfPresent`, and the
encoder passes a `Timestamp` on as it is. -/
def encoded (a : Article) : DocumentData :=
  let data : DocumentData := (∅ : DocumentData).insert "articleId" (.string a.articleId)
  let data := data.setIfPresent "title" a.title
  let data := data.setIfPresent "text" a.text
  data.insert "createdAt" (.timestamp a.createdAt)

end Article

inductive EncodingError where
  | invalidValue
  deriving DecidableEq, Repr

-- `Firestore.Encoder().encode(article)`, which may throw.
def encode (throws : Bool) (a : Article) : Except EncodingError DocumentData :=
  if throws then .error .invalidValue else .ok a.encoded

end LadyBook
