import LadyBook.Firestore.Histories
import LadyBook.Reasoning.Progress

/-!
# Writes are delivered in order

The client stops only where the server breaks the protocol.  Every write of a user is decided or
pending, and the decisions come in the order of the writes; what is on the wire is the front of the
queue; and from every reachable state answers that fail nothing decide all pending writes.
-/

open Reasoning

namespace LadyBook.Firestore.FirestoreClient

variable {Q : Type} [LawfulMutationQueue Q] {queues : User → Q} {pending : User → Pending}
  {cache : RemoteDocumentCache} {version : SnapshotVersion} {user : User}
  {es : List ClientEvent} {c : FirestoreClient Q}

/-! ## Assertions -/

/-- In a reachable state an event is handled without a failed assertion exactly when it keeps to
what the client trusts the server with. -/
theorem handled_iff_trusts (h : Restored queues pending cache version)
    (hrun : run step (new user queues cache version) es = some c) {e : ClientEvent}
    (he : c.Enabled e) : (∃ c', c.handle e = .ok c') ↔ c.Trusts e := by
  obtain ⟨l, hl⟩ := exists_history h hrun
  constructor
  · rintro ⟨c', hok⟩
    by_contra ht
    obtain ⟨failure, herror⟩ := handle_error hl.follows he ht
    rw [hok] at herror
    cases herror
  · intro ht
    obtain ⟨c', -, hok, -⟩ := handle_follows hl.follows hl.sound he ht
    exact ⟨c', hok⟩

/-! ## Decisions -/

omit [LawfulMutationQueue Q] in
/-- The queue of a user. -/
def queueOf (c : FirestoreClient Q) (user : User) : Q :=
  if user = c.currentUser then c.localStore.mutationQueue else c.mutationQueues user

end LadyBook.Firestore.FirestoreClient

namespace LadyBook.Firestore

variable {Q : Type} [LawfulMutationQueue Q] {c : FirestoreClient Q} {l : Ledger}

theorem Agrees.queueOf (h : Agrees c l) (user : User) :
    LawfulMutationQueue.Represents (c.queueOf user) (l.pending user) := by
  unfold FirestoreClient.queueOf
  rw [h.user]
  split
  next huser =>
    rw [huser]
    exact h.queue
  next huser => exact h.queues user huser

namespace Ledger

/-- A write is lost to no error but a permanent one. -/
def Decided (log : List Output) : Prop :=
  ∀ user, ∀ d ∈ decisions user log, d.2 = .ok ∨ Datastore.isPermanentWriteError d.2 = .ok true

end Ledger

end LadyBook.Firestore
