import LadyBook.Model.Document
import LadyBook.Reasoning.Bytes

/-!
# The documents of the Firestore client

The client that the app links keeps documents under keys, which are paths of an even number of
segments, and tells a document that exists from one that is known to be missing and from one whose
contents it does not know.
-/

open Reasoning

namespace LadyBook.Firestore

/-- A segment is a `std::string`, compared byte by byte. -/
abbrev ResourcePath := List Bytes

namespace ResourcePath

def isPrefixOf (path child : ResourcePath) : Bool := List.isPrefixOf path child

def isImmediateParentOf (path child : ResourcePath) : Bool :=
  path.length + 1 == child.length && List.isPrefixOf path child

theorem isPrefixOf_iff {path child : ResourcePath} :
    path.isPrefixOf child = true ↔ path <+: child :=
  List.isPrefixOf_iff_prefix

theorem isImmediateParentOf_iff {path child : ResourcePath} :
    path.isImmediateParentOf child = true ↔ path <+: child ∧ child.length = path.length + 1 := by
  rw [isImmediateParentOf, Bool.and_eq_true, beq_iff_eq, List.isPrefixOf_iff_prefix, and_comm,
    eq_comm (a := path.length + 1)]

end ResourcePath

/-- The constructor asserts that the path has an even number of segments. -/
@[ext] structure DocumentKey where
  path : ResourcePath
  isDocumentKey : path.length % 2 = 0

instance : LinearOrder DocumentKey :=
  LinearOrder.lift' DocumentKey.path fun _ _ h ↦ DocumentKey.ext h

theorem DocumentKey.le_iff {a b : DocumentKey} : a ≤ b ↔ a.path ≤ b.path := Iff.rfl

theorem DocumentKey.lt_iff {a b : DocumentKey} : a < b ↔ a.path < b.path := Iff.rfl

-- A collection path is completed by an empty segment, which sorts before all others.
def startKey (path : ResourcePath) : DocumentKey :=
  if h : path.length % 2 = 0 then
    ⟨path, h⟩
  else
    ⟨path ++ [[]], by rw [List.length_append, List.length_singleton]; omega⟩

theorem startKey_le {path : ResourcePath} (hodd : path.length % 2 = 1) {key : DocumentKey}
    (h : path <+: key.path) : startKey path ≤ key := by
  have heven := key.isDocumentKey
  obtain ⟨t, ht⟩ := h
  rw [startKey, dif_neg (by omega), DocumentKey.le_iff, ← ht]
  apply (append_le_append_left_list path).mpr
  cases t with
  | nil =>
      rw [← ht, List.append_nil] at heven
      omega
  | cons segment t =>
      rw [cons_le_cons_list]
      rcases (nil_le_list segment).lt_or_eq with hlt | heq
      · exact Or.inl hlt
      · exact Or.inr ⟨heq, nil_le_list t⟩

theorem isPrefix_startKey (path : ResourcePath) : path <+: (startKey path).path := by
  unfold startKey
  split
  · exact List.prefix_rfl
  · exact List.prefix_append _ _

abbrev SnapshotVersion := Timestamp

-- `SnapshotVersion::None()`, the default timestamp.
def SnapshotVersion.none : SnapshotVersion := Timestamp.ofSeconds 0

inductive DocumentState where
  | localMutations
  | committedMutations
  | synced
  deriving DecidableEq, Repr

structure Document where
  data : DocumentData
  version : SnapshotVersion
  state : DocumentState
  deriving DecidableEq

/-- The key of a document is the key it is kept under; the C++ class repeats it. -/
inductive MaybeDocument where
  | document (doc : Document)
  | noDocument (version : SnapshotVersion) (hasCommittedMutations : Bool)
  | unknownDocument (version : SnapshotVersion)
  deriving DecidableEq

namespace MaybeDocument

def version : MaybeDocument → SnapshotVersion
  | document doc => doc.version
  | noDocument version _ => version
  | unknownDocument version => version

-- An unknown document has pending writes by definition.
def hasPendingWrites : MaybeDocument → Bool
  | document doc => doc.state != .synced
  | noDocument _ hasCommittedMutations => hasCommittedMutations
  | unknownDocument _ => true

-- `is_document()`, and the document then.
def asDocument : MaybeDocument → Option Document
  | document doc => some doc
  | _ => Option.none

end MaybeDocument

-- The document among what may be known of a key.
def asDocument (maybeDoc : Option MaybeDocument) : Option Document :=
  maybeDoc.bind MaybeDocument.asDocument

/-- The fields that a reader sees: none for a document that is missing or unknown. -/
def contents (maybeDoc : Option MaybeDocument) : Option DocumentData :=
  (asDocument maybeDoc).map Document.data

@[simp] theorem asDocument_none : asDocument Option.none = Option.none := rfl

@[simp] theorem asDocument_document (doc : Document) :
    asDocument (some (.document doc)) = some doc := rfl

@[simp] theorem asDocument_noDocument (version : SnapshotVersion) (b : Bool) :
    asDocument (some (.noDocument version b)) = Option.none := rfl

@[simp] theorem asDocument_unknownDocument (version : SnapshotVersion) :
    asDocument (some (.unknownDocument version)) = Option.none := rfl

@[simp] theorem contents_none : contents Option.none = Option.none := rfl

@[simp] theorem contents_document (doc : Document) :
    contents (some (.document doc)) = some doc.data := rfl

@[simp] theorem contents_noDocument (version : SnapshotVersion) (b : Bool) :
    contents (some (.noDocument version b)) = Option.none := rfl

@[simp] theorem contents_unknownDocument (version : SnapshotVersion) :
    contents (some (.unknownDocument version)) = Option.none := rfl

theorem contents_isSome (maybeDoc : Option MaybeDocument) :
    (contents maybeDoc).isSome = (asDocument maybeDoc).isSome :=
  Option.isSome_map

/-! ## Queries -/

inductive Direction where
  | ascending
  | descending
  deriving DecidableEq, Repr

-- `FieldPath::KeyFieldPath()`.
def keyFieldPath : String := "__name__"

structure OrderBy where
  field : String
  direction : Direction
  deriving DecidableEq

/-- A query on one collection; the app sets an order and no filters, bounds or limits. -/
structure Query where
  path : ResourcePath
  explicitOrderBys : List OrderBy
  deriving DecidableEq

namespace Query

variable (query : Query)

def isDocumentQuery : Bool := query.path.length % 2 == 0

def matchesPath (key : DocumentKey) : Bool :=
  if query.path.length % 2 = 0 then
    query.path == key.path
  else
    ResourcePath.isImmediateParentOf query.path key.path

-- Ordering by the key always matches.
def matchesOrderBy (data : DocumentData) : Bool :=
  query.explicitOrderBys.all fun orderBy ↦
    orderBy.field == keyFieldPath || (data.lookup orderBy.field).isSome

-- `Matches`; it looks at the key and the fields only.
def matchesDocument (key : DocumentKey) (data : DocumentData) : Bool :=
  query.matchesPath key && query.matchesOrderBy data

theorem matchesPath_of_odd {query : Query} (h : query.path.length % 2 = 1) (key : DocumentKey) :
    query.matchesPath key = ResourcePath.isImmediateParentOf query.path key.path :=
  if_neg (by omega)

end Query

end LadyBook.Firestore
