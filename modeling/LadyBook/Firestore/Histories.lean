import LadyBook.Firestore.Journal
import LadyBook.Firestore.Simulation

/-!
# The runs of a client

A client starts with what the persistence has kept: the queues of the users, and a cache whose rows
are dated.  From there every run is a run of the ledger, which accounts for the journal of the run.
-/

open Reasoning

namespace LadyBook.Firestore

variable {Q : Type} [LawfulMutationQueue Q]

/-- What the persistence has kept. -/
structure Restored (queues : User → Q) (pending : User → Pending) (cache : RemoteDocumentCache)
    (version : SnapshotVersion) : Prop where
  queues : ∀ user, LawfulMutationQueue.Represents (queues user) (pending user)
  issued : ∀ user, (pending user).Issued
  dated : ∀ key row, cache.docs.lookup key = some row → SnapshotVersion.none < row.2
  version : SnapshotVersion.none ≤ version

namespace Ledger

def start (user : User) (pending : User → Pending) (cache : RemoteDocumentCache)
    (version : SnapshotVersion) : Ledger :=
  ⟨user, pending, cache, version, fun _ ↦ ∅, ∅, []⟩

end Ledger

section Start

variable {queues : User → Q} {pending : User → Pending} {cache : RemoteDocumentCache}
  {version : SnapshotVersion}

theorem follows_new (h : Restored queues pending cache version) (user : User) :
    Follows (.new user queues cache version) (.start user pending cache version) := by
  have hqueue := LawfulMutationQueue.start_eq (h.queues user)
  exact ⟨⟨rfl, hqueue, fun other _ ↦ h.queues other, rfl, rfl, rfl, rfl, rfl⟩, rfl,
    WriteStream.steady_new⟩

theorem sound_start (h : Restored queues pending cache version) (user : User) :
    (Ledger.start user pending cache version).Sound :=
  ⟨h.issued, fun _ _ hid ↦ absurd hid Finmap.notMem_empty,
    fun _ hid ↦ absurd hid Finmap.notMem_empty, h.dated, h.version⟩

end Start

/-! ## Steps -/

variable {c c' : FirestoreClient Q} {l : Ledger} {e : ClientEvent}

omit [LawfulMutationQueue Q] in
theorem FirestoreClient.step_eq_some [MutationQueue Q] {c c' : FirestoreClient Q}
    {e : ClientEvent} : c.step e = some c' ↔ c.Enabled e ∧ c.Trusts e ∧ c.handle e = .ok c' := by
  unfold FirestoreClient.step
  split
  next h =>
    cases hok : c.handle e with
    | ok c'' => simp [h, Except.toOption]
    | error failure => simp [Except.toOption]
  next h =>
    constructor
    · intro hn
      cases hn
    · intro hn
      exact absurd ⟨hn.1, hn.2.1⟩ h

theorem step_follows (h : Follows c l) (hl : l.Sound) (hs : c.step e = some c') :
    ∃ l', l.Step e l' ∧ Follows c' l' ∧ l'.Sound := by
  obtain ⟨he, ht, hok⟩ := FirestoreClient.step_eq_some.mp hs
  obtain ⟨c'', l', hok', hstep, hf⟩ := handle_follows h hl he ht
  have hc : c'' = c' := Except.ok.inj (hok'.symm.trans hok)
  exact ⟨l', hstep, hc ▸ hf, hl.step hstep⟩

-- No event that can happen is stuck where the server keeps to the protocol.
theorem exists_step (h : Follows c l) (hl : l.Sound) (he : c.Enabled e) (ht : c.Trusts e) :
    ∃ c' l', c.step e = some c' ∧ l.Step e l' ∧ Follows c' l' ∧ l'.Sound := by
  obtain ⟨c', l', hok, hstep, hf⟩ := handle_follows h hl he ht
  exact ⟨c', l', FirestoreClient.step_eq_some.mpr ⟨he, ht, hok⟩, hstep, hf, hl.step hstep⟩

/-! ## Runs -/

/-- A client after some events, and the ledger that it is. -/
structure History (l₀ : Ledger) (es : List ClientEvent) (c : FirestoreClient Q) (l : Ledger) :
    Prop where
  steps : Steps Ledger.Step l₀ es l
  follows : Follows c l
  sound : l.Sound

theorem History.next {l₀ : Ledger} {es : List ClientEvent} (h : History l₀ es c l)
    (hs : c.step e = some c') : ∃ l', l.Step e l' ∧ History l₀ (es ++ [e]) c' l' := by
  obtain ⟨l', hstep, hf, hl'⟩ := step_follows h.follows h.sound hs
  exact ⟨l', hstep, h.steps.concat hstep, hf, hl'⟩

/-- Every run of the client is a run of the ledger. -/
theorem exists_history {queues : User → Q} {pending : User → Pending}
    {cache : RemoteDocumentCache} {version : SnapshotVersion}
    (h : Restored queues pending cache version) {user : User} {es : List ClientEvent}
    (hrun : run FirestoreClient.step (.new user queues cache version) es = some c) :
    ∃ l, History (.start user pending cache version) es c l := by
  refine run_induct (P := fun es c ↦ ∃ l, History (.start user pending cache version) es c l)
    ⟨_, .nil, follows_new h user, sound_start h user⟩ ?_ hrun
  rintro es c e c' - ⟨l, hl⟩ hs
  obtain ⟨l', -, hl'⟩ := hl.next hs
  exact ⟨l', hl'⟩

namespace Ledger

-- The journal of a run is accounted for.
theorem accounts {pending : User → Pending} {cache : RemoteDocumentCache}
    {version : SnapshotVersion} {user : User} {es : List ClientEvent} {l : Ledger}
    (h : Steps Step (.start user pending cache version) es l) :
    Accounts pending (.ofEvents user es) l := by
  refine Steps.induct (P := fun es l ↦ Accounts pending (.ofEvents user es) l) Accounts.start ?_ h
  intro es m e l' _ hm hs
  rw [Journal.ofEvents_concat]
  exact hm.step hs

end Ledger

end LadyBook.Firestore
