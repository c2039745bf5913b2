import LadyBook.Firestore.Documents

/-!
# Mutations

What the client keeps of a write until the server has decided it.  A mutation is applied twice: to
the local view while it is pending, and to the remote document once it is acknowledged.
-/

open Reasoning Reasoning.DocumentStore

namespace LadyBook.Firestore

inductive Precondition where
  | none
  | exists (exist : Bool)
  | updateTime (version : SnapshotVersion)
  deriving DecidableEq

def Precondition.isValidFor (p : Precondition) (maybeDoc : Option MaybeDocument) : Bool :=
  match p with
  | none => true
  | «exists» exist => exist == (asDocument maybeDoc).isSome
  | updateTime version => (asDocument maybeDoc).any fun doc ↦ doc.version == version

/-- The mutations without transforms; the mask of a patch lists the fields it writes. -/
inductive Mutation where
  | set (key : DocumentKey) (value : DocumentData) (precondition : Precondition)
  | patch (key : DocumentKey) (value : DocumentData) (mask : List String)
      (precondition : Precondition)
  | delete (key : DocumentKey) (precondition : Precondition)
  deriving DecidableEq

-- A field of the mask that the value lacks is deleted.
def patchField (value : DocumentData) (obj : DocumentData) (path : String) : DocumentData :=
  match value.lookup path with
  | some newValue => obj.insert path newValue
  | none => obj.erase path

def patchObject (value : DocumentData) (mask : List String) (obj : DocumentData) : DocumentData :=
  mask.foldl (patchField value) obj

def patchDocument (value : DocumentData) (mask : List String)
    (maybeDoc : Option MaybeDocument) : DocumentData :=
  patchObject value mask ((contents maybeDoc).getD ∅)

-- `GetPostMutationVersion`.
def postMutationVersion (maybeDoc : Option MaybeDocument) : SnapshotVersion :=
  (asDocument maybeDoc).elim SnapshotVersion.none Document.version

namespace Mutation

def key : Mutation → DocumentKey
  | set key _ _ | patch key _ _ _ | delete key _ => key

def precondition : Mutation → Precondition
  | set _ _ precondition | patch _ _ _ precondition | delete _ precondition => precondition

def isPatch : Mutation → Bool
  | patch .. => true
  | _ => false

def applyToLocalView (m : Mutation) (maybeDoc : Option MaybeDocument) : Option MaybeDocument :=
  if m.precondition.isValidFor maybeDoc then
    match m with
    | set _ value _ =>
        some (.document ⟨value, postMutationVersion maybeDoc, .localMutations⟩)
    | patch _ value mask _ =>
        some (.document ⟨patchDocument value mask maybeDoc, postMutationVersion maybeDoc,
          .localMutations⟩)
    | delete _ _ => some (.noDocument SnapshotVersion.none false)
  else
    maybeDoc

-- The server has accepted the mutation, so a precondition that fails here tells that the cached
-- document is not the one the server had.
def applyToRemoteDocument (m : Mutation) (maybeDoc : Option MaybeDocument)
    (version : SnapshotVersion) : MaybeDocument :=
  match m with
  | set _ value _ => .document ⟨value, version, .committedMutations⟩
  | patch _ value mask precondition =>
      if precondition.isValidFor maybeDoc then
        .document ⟨patchDocument value mask maybeDoc, version, .committedMutations⟩
      else
        .unknownDocument version
  | delete _ _ => .noDocument version true

end Mutation

/-! ## What the app's calls issue -/

-- `ParsedSetData::ToMutations`, without field transforms.
def ParsedSetData.toMutations (patch : Bool) (data : DocumentData) (fieldMask : List String)
    (key : DocumentKey) (precondition : Precondition) : List Mutation :=
  if patch then [.patch key data fieldMask precondition] else [.set key data precondition]

-- `ParsedUpdateData::ToMutations`.
def ParsedUpdateData.toMutations (data : DocumentData) (fieldMask : List String)
    (key : DocumentKey) (precondition : Precondition) : List Mutation :=
  [.patch key data fieldMask precondition]

namespace DocumentReference

def setData (patch : Bool) (data : DocumentData) (fieldMask : List String)
    (key : DocumentKey) : List Mutation :=
  ParsedSetData.toMutations patch data fieldMask key .none

def updateData (data : DocumentData) (fieldMask : List String) (key : DocumentKey) :
    List Mutation :=
  ParsedUpdateData.toMutations data fieldMask key (.exists true)

def deleteDocument (key : DocumentKey) : List Mutation := [.delete key .none]

end DocumentReference

/-- The mutations that the calls on a document reference or a write batch issue. -/
inductive Mutation.Issued : Mutation → Prop where
  | setData {patch : Bool} {data : DocumentData} {fieldMask : List String} {key : DocumentKey}
      {m : Mutation} (h : m ∈ DocumentReference.setData patch data fieldMask key) : Issued m
  | updateData {data : DocumentData} {fieldMask : List String} {key : DocumentKey} {m : Mutation}
      (h : m ∈ DocumentReference.updateData data fieldMask key) : Issued m
  | deleteDocument {key : DocumentKey} {m : Mutation}
      (h : m ∈ DocumentReference.deleteDocument key) : Issued m

/-- The four forms they have. -/
theorem Mutation.issued_iff {m : Mutation} :
    m.Issued ↔ (∃ key value, m = .set key value .none) ∨
      (∃ key value mask, m = .patch key value mask .none) ∨
      (∃ key value mask, m = .patch key value mask (.exists true)) ∨
      ∃ key, m = .delete key .none := by
  constructor
  · rintro (h | h | h)
    next patch data fieldMask key =>
      cases patch with
      | true => exact Or.inr (Or.inl ⟨key, data, fieldMask, List.mem_singleton.mp h⟩)
      | false => exact Or.inl ⟨key, data, List.mem_singleton.mp h⟩
    next data fieldMask key =>
      exact Or.inr (Or.inr (Or.inl ⟨key, data, fieldMask, List.mem_singleton.mp h⟩))
    next key => exact Or.inr (Or.inr (Or.inr ⟨key, List.mem_singleton.mp h⟩))
  · rintro (⟨key, value, rfl⟩ | ⟨key, value, mask, rfl⟩ | ⟨key, value, mask, rfl⟩ | ⟨key, rfl⟩)
    · exact @Issued.setData false value [] key _ (List.mem_singleton_self _)
    · exact @Issued.setData true value mask key _ (List.mem_singleton_self _)
    · exact .updateData (List.mem_singleton_self _)
    · exact .deleteDocument (List.mem_singleton_self _)

instance : (m : Mutation) → Decidable m.Issued
  | .set _ _ precondition | .delete _ precondition =>
      decidable_of_iff (precondition = .none) (by rw [Mutation.issued_iff]; simp)
  | .patch _ _ _ precondition =>
      decidable_of_iff (precondition = .none ∨ precondition = .exists true)
        (by rw [Mutation.issued_iff]; simp)

/-! ## The effect on the fields -/

theorem lookup_patchField_self (value obj : DocumentData) (path : String) :
    (patchField value obj path).lookup path = value.lookup path := by
  unfold patchField
  split
  next newValue h => rw [h, Finmap.lookup_insert]
  next h => rw [h, Finmap.lookup_erase]

theorem lookup_patchField_ne {value obj : DocumentData} {path f : String} (h : f ≠ path) :
    (patchField value obj path).lookup f = obj.lookup f := by
  unfold patchField
  split
  next newValue _ => rw [Finmap.lookup_insert_of_ne obj h]
  next => rw [Finmap.lookup_erase_ne h]

theorem lookup_patchObject (value : DocumentData) (mask : List String) (obj : DocumentData)
    (f : String) :
    (patchObject value mask obj).lookup f =
      if f ∈ mask then value.lookup f else obj.lookup f := by
  induction mask generalizing obj with
  | nil => rfl
  | cons path mask ih =>
      show (patchObject value mask (patchField value obj path)).lookup f = _
      rw [ih]
      by_cases hmask : f ∈ mask
      · rw [if_pos hmask, if_pos (List.mem_cons_of_mem path hmask)]
      · rw [if_neg hmask]
        by_cases hf : f = path
        · rw [hf, lookup_patchField_self, if_pos List.mem_cons_self]
        · rw [lookup_patchField_ne hf, if_neg (List.not_mem_cons_of_ne_of_not_mem hf hmask)]

/-- What a mutation does to the fields of a document, or to its absence. -/
def Mutation.effect (m : Mutation) (old : Option DocumentData) : Option DocumentData :=
  match m with
  | set _ value _ => some value
  | patch _ value mask .none => some (patchObject value mask (old.getD ∅))
  | patch _ value mask _ => old.map (patchObject value mask)
  | delete _ _ => none

theorem isValidFor_exists_true (maybeDoc : Option MaybeDocument) :
    (Precondition.exists true).isValidFor maybeDoc = (asDocument maybeDoc).isSome :=
  Bool.true_beq _

/-- Locally and remotely an issued mutation has the same effect, which depends on the fields
alone. -/
theorem Mutation.Issued.contents_applyToLocalView {m : Mutation} (h : m.Issued)
    (maybeDoc : Option MaybeDocument) :
    contents (m.applyToLocalView maybeDoc) = m.effect (contents maybeDoc) := by
  rcases issued_iff.mp h with
    ⟨key, value, rfl⟩ | ⟨key, value, mask, rfl⟩ | ⟨key, value, mask, rfl⟩ | ⟨key, rfl⟩
  · rfl
  · rfl
  · -- an update of a document that does not exist changes nothing
    unfold applyToLocalView
    rw [show (patch key value mask (.exists true)).precondition = .exists true from rfl,
      isValidFor_exists_true]
    cases hd : asDocument maybeDoc with
    | none => simp [effect, contents, hd]
    | some doc => simp [effect, contents, hd, patchDocument]
  · rfl

theorem Mutation.Issued.contents_applyToRemoteDocument {m : Mutation} (h : m.Issued)
    (maybeDoc : Option MaybeDocument) (version : SnapshotVersion) :
    contents (some (m.applyToRemoteDocument maybeDoc version)) = m.effect (contents maybeDoc) := by
  rcases issued_iff.mp h with
    ⟨key, value, rfl⟩ | ⟨key, value, mask, rfl⟩ | ⟨key, value, mask, rfl⟩ | ⟨key, rfl⟩
  · rfl
  · rfl
  · simp only [applyToRemoteDocument, isValidFor_exists_true]
    cases hd : asDocument maybeDoc with
    | none => simp [effect, contents, hd]
    | some doc => simp [effect, contents, hd, patchDocument]
  · rfl

theorem Mutation.version_applyToRemoteDocument (m : Mutation) (maybeDoc : Option MaybeDocument)
    (version : SnapshotVersion) : (m.applyToRemoteDocument maybeDoc version).version = version := by
  cases m with
  | set => rfl
  | patch =>
      simp only [applyToRemoteDocument]
      split <;> rfl
  | delete => rfl

end LadyBook.Firestore
