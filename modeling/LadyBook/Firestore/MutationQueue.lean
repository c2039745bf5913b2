import LadyBook.Firestore.MutationBatches
import LadyBook.Reasoning.SortedScan

/-!
# Mutation queues

The batches of a user that the server has not decided.  `MutationQueue` is the interface of the
queues that the client can run on, `Pending` what a queue is for: the batches in the order of their
ids.  A lawful queue answers every question as a plain search of these batches would.
-/

open Reasoning

namespace LadyBook.Firestore

/-- The assertions that stop the client. -/
inductive HardAssert where
  | emptyBatch
  | acknowledgeOnEmptyQueue
  | queueOrderingFailure
  | batchIdsNotIncreasing
  | removeFromEmptyQueue
  | removeNotFirst
  | indexedBatchMissing
  | foundBatchMismatch
  | documentLeak
  | batchDidNotExist
  | documentVersionMissing
  | appliedToNothing
  | rejectNonexistentBatch
  | remoteVersionZero
  | watchStreamReverted
  | okIsNoError
  | alreadyStarted
  | stillStarting
  | stillStarted
  | notInError
  | notInBackoff
  | notStarted
  | closeOfStopped
  | readOfStopped
  | streamNotOpen
  | handshakeIncomplete
  | handshakeCompleted
  | pipelineFull
  | startNotNeeded
  | stoppedWhileNeeded
  | resultForEmptyPipeline
  | resultsNotMutations
  deriving DecidableEq, Repr

def hardAssert (condition : Bool) (failure : HardAssert) : Except HardAssert Unit :=
  if condition then .ok () else .error failure

/-- `local/mutation_queue.h`. -/
class MutationQueue (Q : Type) where
  start : Q → Q
  isEmpty : Q → Bool
  acknowledgeBatch : Q → MutationBatch → Except HardAssert Q
  addMutationBatch : Q → List Mutation → Except HardAssert (MutationBatch × Q)
  removeMutationBatch : Q → MutationBatch → Except HardAssert Q
  allMutationBatches : Q → List MutationBatch
  allMutationBatchesAffectingDocumentKeys :
    Q → Finset DocumentKey → Except HardAssert (List MutationBatch)
  allMutationBatchesAffectingDocumentKey : Q → DocumentKey → Except HardAssert (List MutationBatch)
  allMutationBatchesAffectingQuery : Q → Query → Except HardAssert (List MutationBatch)
  lookupMutationBatch : Q → ℤ → Except HardAssert (Option MutationBatch)
  nextMutationBatchAfterBatchId : Q → ℤ → Except HardAssert (Option MutationBatch)
  getHighestUnacknowledgedBatchId : Q → ℤ
  performConsistencyCheck : Q → Except HardAssert Unit

/-! ## The batches of a queue -/

/-- The pending batches in the order of their ids. -/
@[ext] structure Pending where
  batches : List MutationBatch
  increasing : batches.Pairwise fun b b' ↦ b.batchId < b'.batchId
  positive : ∀ b ∈ batches, 0 < b.batchId

namespace Pending

variable (p : Pending)

def empty : Pending := ⟨[], List.Pairwise.nil, fun _ h ↦ absurd h List.not_mem_nil⟩

/-- A batch with a new id is put behind the others. -/
def push (b : MutationBatch) (hpos : 0 < b.batchId)
    (hnew : ∀ b' ∈ p.batches, b'.batchId < b.batchId) : Pending where
  batches := p.batches ++ [b]
  increasing := by
    apply List.pairwise_append.mpr ⟨p.increasing, List.pairwise_singleton _ _, _⟩
    intro b' hb' x hx
    rw [List.mem_singleton.mp hx]
    exact hnew b' hb'
  positive b' hb' := by
    rcases List.mem_append.mp hb' with h | h
    · exact p.positive b' h
    · rw [List.mem_singleton.mp h]
      exact hpos

/-- The first batch leaves. -/
def pop : Pending where
  batches := p.batches.tail
  increasing := p.increasing.sublist (List.tail_sublist _)
  positive b hb := p.positive b (List.mem_of_mem_tail hb)

def affectingKeys (keys : Finset DocumentKey) : List MutationBatch :=
  p.batches.filter fun b ↦ (b.keys ∩ keys).Nonempty

def affectingKey (key : DocumentKey) : List MutationBatch :=
  p.batches.filter fun b ↦ key ∈ b.keys

def affectingQuery (query : Query) : List MutationBatch :=
  p.batches.filter fun b ↦ ∃ key ∈ b.keys, ResourcePath.isImmediateParentOf query.path key.path

def lookup (id : ℤ) : Option MutationBatch :=
  p.batches.find? fun b ↦ b.batchId = id

/-- The first batch behind an id. -/
def after (id : ℤ) : Option MutationBatch :=
  p.batches.find? fun b ↦ id < b.batchId

def highest : ℤ :=
  p.batches.getLast?.elim batchIdUnknown MutationBatch.batchId

variable {p}

theorem map_batchId_pairwise : (p.batches.map MutationBatch.batchId).Pairwise (· < ·) :=
  List.pairwise_map.mpr p.increasing

theorem batchId_inj {b b' : MutationBatch} (h : b ∈ p.batches) (h' : b' ∈ p.batches)
    (he : b.batchId = b'.batchId) : b = b' := by
  have hnodup : (p.batches.map MutationBatch.batchId).Nodup := map_batchId_pairwise.imp ne_of_lt
  exact List.inj_on_of_nodup_map hnodup h h' he

theorem lookup_eq_some {id : ℤ} {b : MutationBatch} :
    p.lookup id = some b ↔ b ∈ p.batches ∧ b.batchId = id := by
  constructor
  · intro h
    exact ⟨List.mem_of_find?_eq_some h, by simpa using List.find?_some h⟩
  · rintro ⟨hb, rfl⟩
    obtain ⟨b', hb'⟩ := Option.isSome_iff_exists.mp
      (List.find?_isSome (p := fun x ↦ x.batchId = b.batchId) |>.mpr ⟨b, hb, by simp⟩)
    have hid : b'.batchId = b.batchId := by simpa using List.find?_some hb'
    rw [← batchId_inj (List.mem_of_find?_eq_some hb') hb hid]
    rw [hid]
    exact hb'

/-- The batches of a set of ids, read in the order of the ids. -/
theorem ascending_ids {ids : Finset ℤ} (h : ∀ id ∈ ids, ∃ b ∈ p.batches, b.batchId = id) :
    ascending ids = (p.batches.filter fun b ↦ b.batchId ∈ ids).map MutationBatch.batchId := by
  apply ascending_eq
  · exact List.pairwise_map.mpr (p.increasing.filter _)
  · intro id
    rw [List.mem_map]
    constructor
    · intro hid
      obtain ⟨b, hb, rfl⟩ := h id hid
      exact ⟨b, List.mem_filter.mpr ⟨hb, by simpa using hid⟩, rfl⟩
    · rintro ⟨b, hb, rfl⟩
      simpa using (List.mem_filter.mp hb).2

end Pending

/-! ## Lawful queues -/

class LawfulMutationQueue (Q : Type) extends MutationQueue Q where
  Represents : Q → Pending → Prop
  start_eq : ∀ {q p}, Represents q p → Represents (start q) p
  isEmpty_eq : ∀ {q p}, Represents q p → isEmpty q = p.batches.isEmpty
  acknowledge : ∀ {q p b rest}, Represents q p → p.batches = b :: rest →
    ∃ q', acknowledgeBatch q b = .ok q' ∧ Represents q' p
  add : ∀ {q p} {ms : List Mutation}, Represents q p → ms ≠ [] →
    ∃ b q' hpos hnew, addMutationBatch q ms = .ok (b, q') ∧ b.mutations = ms ∧
      Represents q' (p.push b hpos hnew)
  remove : ∀ {q p b rest}, Represents q p → p.batches = b :: rest →
    ∃ q', removeMutationBatch q b = .ok q' ∧ Represents q' p.pop
  all_eq : ∀ {q p}, Represents q p → allMutationBatches q = p.batches
  affectingKeys_eq : ∀ {q p} (keys : Finset DocumentKey), Represents q p →
    allMutationBatchesAffectingDocumentKeys q keys = .ok (p.affectingKeys keys)
  affectingKey_eq : ∀ {q p} (key : DocumentKey), Represents q p →
    allMutationBatchesAffectingDocumentKey q key = .ok (p.affectingKey key)
  affectingQuery_eq : ∀ {q p} {query : Query}, Represents q p → query.isDocumentQuery = false →
    allMutationBatchesAffectingQuery q query = .ok (p.affectingQuery query)
  lookup_eq : ∀ {q p} (id : ℤ), Represents q p →
    lookupMutationBatch q id = .ok (p.lookup id)
  after_eq : ∀ {q p} (id : ℤ), Represents q p →
    nextMutationBatchAfterBatchId q id = .ok (p.after id)
  highest_eq : ∀ {q p}, Represents q p → getHighestUnacknowledgedBatchId q = p.highest
  consistent : ∀ {q p}, Represents q p → performConsistencyCheck q = .ok ()

end LadyBook.Firestore
