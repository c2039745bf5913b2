import LadyBook.Firestore.Mutations
import LadyBook.Reasoning.Folds

/-!
# Mutation batches

The mutations of one call wait, are sent and are decided together.
-/

open Reasoning Reasoning.DocumentStore

namespace LadyBook.Firestore

-- `kBatchIdUnknown`.
def batchIdUnknown : ℤ := -1

/-- The constructor asserts that there is a mutation. -/
structure MutationBatch where
  batchId : ℤ
  mutations : List Mutation
  nonempty : mutations ≠ []
  deriving DecidableEq

/-- The server's answer to a batch: a version for each mutation. -/
structure MutationBatchResult where
  batch : MutationBatch
  commitVersion : SnapshotVersion
  mutationResults : List SnapshotVersion
  size_eq : batch.mutations.length = mutationResults.length

abbrev DocumentVersionMap := Finmap fun _ : DocumentKey ↦ SnapshotVersion

namespace MutationBatch

variable (batch : MutationBatch)

def keys : Finset DocumentKey := (batch.mutations.map Mutation.key).toFinset

def applyToLocalDocument (maybeDoc : Option MaybeDocument) (key : DocumentKey) :
    Option MaybeDocument :=
  batch.mutations.foldl (fun maybeDoc m ↦
    if m.key = key then m.applyToLocalView maybeDoc else maybeDoc) maybeDoc

def Issued : Prop := ∀ m ∈ batch.mutations, m.Issued

def effect (key : DocumentKey) (old : Option DocumentData) : Option DocumentData :=
  batch.mutations.foldl (fun old m ↦ if m.key = key then m.effect old else old) old

end MutationBatch

namespace MutationBatchResult

variable (result : MutationBatchResult)

-- The last mutation of a key gives its version.
def docVersions : DocumentVersionMap :=
  (result.batch.mutations.zip result.mutationResults).foldl
    (fun versions p ↦ versions.insert p.1.key p.2) ∅

def applyToRemoteDocument (maybeDoc : Option MaybeDocument) (key : DocumentKey) :
    Option MaybeDocument :=
  (result.batch.mutations.zip result.mutationResults).foldl (fun maybeDoc p ↦
    if p.1.key = key then some (p.1.applyToRemoteDocument maybeDoc p.2) else maybeDoc) maybeDoc

end MutationBatchResult

namespace MutationBatch

variable {batch : MutationBatch} {key : DocumentKey}

theorem mem_keys : key ∈ batch.keys ↔ ∃ m ∈ batch.mutations, m.key = key := by
  rw [keys, List.mem_toFinset, List.mem_map]

theorem applyToLocalDocument_of_notMem (h : key ∉ batch.keys) (maybeDoc : Option MaybeDocument) :
    batch.applyToLocalDocument maybeDoc key = maybeDoc :=
  foldl_fixed_of_mem (fun m hm _ ↦ if_neg fun hk ↦ h (mem_keys.mpr ⟨m, hm, hk⟩)) maybeDoc

theorem effect_of_notMem (h : key ∉ batch.keys) (old : Option DocumentData) :
    batch.effect key old = old :=
  foldl_fixed_of_mem (fun m hm _ ↦ if_neg fun hk ↦ h (mem_keys.mpr ⟨m, hm, hk⟩)) old

theorem Issued.contents_applyToLocalDocument (h : batch.Issued) (maybeDoc : Option MaybeDocument)
    (key : DocumentKey) :
    contents (batch.applyToLocalDocument maybeDoc key) = batch.effect key (contents maybeDoc) := by
  apply foldl_hom_of_mem
  intro m hm old
  split
  · exact (h m hm).contents_applyToLocalView old
  · rfl

end MutationBatch

namespace MutationBatchResult

variable {result : MutationBatchResult} {key : DocumentKey}

-- The mutations of the batch, each with its version.
theorem map_fst_zip :
    (result.batch.mutations.zip result.mutationResults).map Prod.fst = result.batch.mutations :=
  List.map_fst_zip result.size_eq.le

theorem contents_applyToRemoteDocument (h : result.batch.Issued)
    (maybeDoc : Option MaybeDocument) (key : DocumentKey) :
    contents (result.applyToRemoteDocument maybeDoc key) =
      result.batch.effect key (contents maybeDoc) := by
  rw [MutationBatch.effect, ← map_fst_zip, List.foldl_map]
  apply foldl_hom_of_mem
  intro p hp old
  split
  · have hm : p.1 ∈ result.batch.mutations := (List.of_mem_zip hp).1
    exact (h p.1 hm).contents_applyToRemoteDocument old p.2
  · rfl

/-- Every key of the batch has a version, and the acknowledged document has that version. -/
theorem exists_version (h : key ∈ result.batch.keys) (maybeDoc : Option MaybeDocument) :
    ∃ version doc, result.docVersions.lookup key = some version ∧
      result.applyToRemoteDocument maybeDoc key = some doc ∧ doc.version = version := by
  rw [MutationBatch.mem_keys, ← @map_fst_zip result] at h
  unfold docVersions applyToRemoteDocument
  generalize result.batch.mutations.zip result.mutationResults = ps at h ⊢
  induction ps using List.reverseRecOn with
  | nil => simp at h
  | append_singleton ps p ih =>
      rw [List.foldl_concat, List.foldl_concat]
      by_cases hk : p.1.key = key
      · subst hk
        rw [Finmap.lookup_insert, if_pos rfl]
        exact ⟨p.2, _, rfl, rfl, Mutation.version_applyToRemoteDocument _ _ _⟩
      · rw [Finmap.lookup_insert_of_ne _ (Ne.symm hk), if_neg hk]
        apply ih
        obtain ⟨m, hm, hmk⟩ := h
        rw [List.map_append, List.mem_append] at hm
        rcases hm with hm | hm
        · exact ⟨m, hm, hmk⟩
        · rw [List.map_singleton, List.mem_singleton] at hm
          exact absurd (hm ▸ hmk) hk

end MutationBatchResult

end LadyBook.Firestore
