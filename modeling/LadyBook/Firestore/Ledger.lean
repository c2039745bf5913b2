import LadyBook.Firestore.Pipeline
import LadyBook.Reasoning.Simulation

/-!
# The ledger

What the client is for, without streams, pipelines and timers: every user has a queue of pending
batches, a write joins it at the end, a decision takes its first batch away and tells the app of it,
and the documents that the app sees are those of the cache under the queue of the current user.
The client is a ledger whose decisions come over a stream.
-/

open Reasoning

namespace LadyBook.Firestore

structure Ledger where
  user : User
  pending : User → Pending
  cache : RemoteDocumentCache
  version : SnapshotVersion
  callbacks : User → Finmap fun _ : ℤ ↦ ℕ
  waiting : Finmap fun _ : ℤ ↦ List ℕ
  log : List Output

namespace Ledger

variable (l : Ledger)

def current : Pending := l.pending l.user

/-- The fields of a document as the app sees them. -/
def fields (key : DocumentKey) : Option DocumentData :=
  l.current.overlay key (contents (l.cache.get key))

-- The callbacks that wait for a batch.
def waitingFor (batchId : ℤ) : List ℕ := (l.waiting.lookup batchId).getD []

def empty (callback : ℕ) : Ledger := { l with log := l.log ++ [.emptyWrite callback] }

def write (b : MutationBatch) (hpos : 0 < b.batchId)
    (hnew : ∀ b' ∈ l.current.batches, b'.batchId < b.batchId) (callback : ℕ)
    (changes : MaybeDocumentMap) : Ledger :=
  { l with
    pending := Function.update l.pending l.user (l.current.push b hpos hnew)
    callbacks := Function.update l.callbacks l.user
      ((l.callbacks l.user).insert b.batchId callback)
    log := l.log ++ [.viewSnapshots changes] }

def wait (callback : ℕ) : Ledger :=
  match l.current.batches.getLast? with
  | none => { l with log := l.log ++ [.pendingWrites callback .ok] }
  | some b =>
      { l with waiting := l.waiting.insert b.batchId (l.waitingFor b.batchId ++ [callback]) }

def decide (b : MutationBatch) (status : Error) (cache : RemoteDocumentCache)
    (changes : MaybeDocumentMap) : Ledger :=
  { l with
    pending := Function.update l.pending l.user l.current.pop
    cache := cache
    callbacks := Function.update l.callbacks l.user ((l.callbacks l.user).erase b.batchId)
    waiting := l.waiting.erase b.batchId
    log := l.log ++ [.notifyUser l.user b.batchId ((l.callbacks l.user).lookup b.batchId) status] ++
      (l.waitingFor b.batchId).map (.pendingWrites · .ok) ++ [.viewSnapshots changes] }

def switch (user : User) (changes : MaybeDocumentMap) : Ledger :=
  { l with
    user := user
    waiting := ∅
    log := l.log ++ ((ascending l.waiting.keys).flatMap fun batchId ↦
      (l.waitingFor batchId).map (.pendingWrites · .cancelled)) ++ [.viewSnapshots changes] }

def receive (cache : RemoteDocumentCache) (version : SnapshotVersion)
    (changes : MaybeDocumentMap) : Ledger :=
  { l with cache := cache, version := version, log := l.log ++ [.viewSnapshots changes] }

/-- The events that may leave the ledger as it is. -/
def Silent : ClientEvent → Prop
  | .writeMutations _ _ | .waitForPendingWrites _ | .rejectedListen _
  | .streamRead (.mutations _) _ _ => False
  | .credentialChange user => user = l.user
  | .watchStreamChange event =>
      event.snapshotVersion = SnapshotVersion.none ∨ event.snapshotVersion < l.version
  | _ => True

-- The event of a document that is taken for missing.
def missing (limboKey : DocumentKey) : RemoteEvent :=
  ⟨SnapshotVersion.none, Finmap.singleton limboKey (.noDocument SnapshotVersion.none false)⟩

-- The rows of the cache after an event of the watch stream.
def Received (event : RemoteEvent) (cache cache' : RemoteDocumentCache) : Prop :=
  ∀ key, cache'.docs.lookup key = LocalStore.eventRow event key (cache.docs.lookup key)

-- The rows of the cache after an acknowledgement.
def Acknowledged (result : MutationBatchResult) (cache cache' : RemoteDocumentCache) : Prop :=
  ∀ key, cache'.docs.lookup key =
    if key ∈ result.batch.keys then
      (LocalStore.ackRow result key (cache.docs.lookup key)).or (cache.docs.lookup key)
    else
      cache.docs.lookup key

/-- What an event does to the ledger.  The changes that the app is told of are those of the
fields. -/
inductive Step (l : Ledger) : ClientEvent → Ledger → Prop where
  | silent {e : ClientEvent} (h : l.Silent e) : Step l e l
  | empty (callback : ℕ) : Step l (.writeMutations [] callback) (l.empty callback)
  | write {b : MutationBatch} {callback : ℕ} {changes : MaybeDocumentMap} {hpos : 0 < b.batchId}
      {hnew : ∀ b' ∈ l.current.batches, b'.batchId < b.batchId} (hissued : b.Issued)
      (hchanges : (b.mutations.map Mutation.key).Nodup →
        LocalStore.Changes changes l.fields (l.write b hpos hnew callback changes).fields) :
      Step l (.writeMutations b.mutations callback) (l.write b hpos hnew callback changes)
  | wait (callback : ℕ) : Step l (.waitForPendingWrites callback) (l.wait callback)
  | acknowledge {result : MutationBatchResult} {rest : List MutationBatch}
      {updateTimes : List (Option SnapshotVersion)} {cache : RemoteDocumentCache}
      {changes : MaybeDocumentMap} (hfirst : l.current.batches = result.batch :: rest)
      (hdate : SnapshotVersion.none < result.commitVersion)
      (hresults : result.mutationResults =
        RemoteStore.decodeMutationResults result.commitVersion updateTimes)
      (hcache : Acknowledged result l.cache cache)
      (hchanges : LocalStore.Changes changes l.fields
        (l.decide result.batch .ok cache changes).fields) :
      Step l (.streamRead (.mutations result.batch.mutations) result.commitVersion updateTimes)
        (l.decide result.batch .ok cache changes)
  | reject {b : MutationBatch} {rest : List MutationBatch} {status : Error}
      {changes : MaybeDocumentMap} (hfirst : l.current.batches = b :: rest)
      (hstatus : Datastore.isPermanentWriteError status = .ok true)
      (hchanges : LocalStore.Changes changes l.fields (l.decide b status l.cache changes).fields) :
      Step l (.streamFinish status) (l.decide b status l.cache changes)
  | switch {user : User} {changes : MaybeDocumentMap} (huser : user ≠ l.user)
      (hchanges : LocalStore.Changes changes l.fields (l.switch user changes).fields) :
      Step l (.credentialChange user) (l.switch user changes)
  | receive {event : RemoteEvent} {cache : RemoteDocumentCache} {changes : MaybeDocumentMap}
      (hversion : event.snapshotVersion ≠ SnapshotVersion.none)
      (hpast : l.version ≤ event.snapshotVersion) (hcache : Received event l.cache cache)
      (hchanges : LocalStore.Changes changes l.fields
        (l.receive cache event.snapshotVersion changes).fields) :
      Step l (.watchStreamChange event) (l.receive cache event.snapshotVersion changes)
  | limbo {limboKey : DocumentKey} {cache : RemoteDocumentCache} {changes : MaybeDocumentMap}
      (hcache : Received (missing limboKey) l.cache cache)
      (hchanges : LocalStore.Changes changes l.fields
        (l.receive cache l.version changes).fields) :
      Step l (.rejectedListen limboKey) (l.receive cache l.version changes)

/-! ## What holds in every ledger -/

/-- Callbacks belong to pending batches, and the rows of the cache are dated. -/
structure Sound (l : Ledger) : Prop where
  issued : ∀ user, (l.pending user).Issued
  callbacks : ∀ user id, id ∈ l.callbacks user →
    ∃ b ∈ (l.pending user).batches, b.batchId = id
  waiting : ∀ id ∈ l.waiting, ∃ b ∈ l.current.batches, b.batchId = id
  dated : ∀ key row, l.cache.docs.lookup key = some row → SnapshotVersion.none < row.2
  version : SnapshotVersion.none ≤ l.version

variable {l}

theorem current_update (p : Pending) : ({ l with
    pending := Function.update l.pending l.user p } : Ledger).current = p := by
  show Function.update l.pending l.user p l.user = p
  exact Function.update_self _ _ _

-- A row of the cache after an event is the row of before, or it is as new as the event.
theorem eventRow_eq_some {event : RemoteEvent} {key : DocumentKey}
    {row : Option (MaybeDocument × SnapshotVersion)} {row' : MaybeDocument × SnapshotVersion}
    (h : LocalStore.eventRow event key row = some row') :
    row = some row' ∨ row'.2 = event.snapshotVersion ∧ ∃ doc,
      event.documentUpdates.lookup key = some doc ∧
        LocalStore.remoteUpdate doc (row.map Prod.fst) = .add := by
  unfold LocalStore.eventRow at h
  cases hdoc : event.documentUpdates.lookup key with
  | none =>
      rw [hdoc] at h
      exact Or.inl h
  | some doc =>
      rw [hdoc, Option.elim_some, LocalStore.updatedRow] at h
      split at h
      next => cases h
      next hadd =>
        rw [← Option.some.inj h]
        exact Or.inr ⟨rfl, doc, rfl, hadd⟩
      next => exact Or.inl h

theorem remoteUpdate_missing {limboKey key : DocumentKey} {doc : MaybeDocument}
    (h : (missing limboKey).documentUpdates.lookup key = some doc)
    (existingDoc : Option MaybeDocument) : LocalStore.remoteUpdate doc existingDoc = .remove := by
  have hkey : key = limboKey := by
    have hmem : key ∈ (missing limboKey).documentUpdates :=
      Finmap.lookup_isSome.mp (by rw [h]; rfl)
    exact Finmap.mem_singleton key limboKey _ |>.mp hmem
  subst hkey
  have hdoc : doc = .noDocument SnapshotVersion.none false :=
    Option.some.inj (h.symm.trans Finmap.lookup_singleton_eq)
  subst hdoc
  simp [LocalStore.remoteUpdate]

theorem ackRow_eq_some {result : MutationBatchResult} {key : DocumentKey}
    {row : Option (MaybeDocument × SnapshotVersion)} {row' : MaybeDocument × SnapshotVersion}
    (h : LocalStore.ackRow result key row = some row') : row'.2 = result.commitVersion := by
  obtain ⟨version, -, h⟩ := Option.bind_eq_some_iff.mp h
  split at h
  next =>
    obtain ⟨doc, -, rfl⟩ := Option.map_eq_some_iff.mp h
    rfl
  next => cases h

namespace Sound

theorem dated_acknowledged (h : l.Sound) {result : MutationBatchResult}
    {cache : RemoteDocumentCache} (hdate : SnapshotVersion.none < result.commitVersion)
    (hcache : Acknowledged result l.cache cache) (key : DocumentKey)
    (row : MaybeDocument × SnapshotVersion) (hrow : cache.docs.lookup key = some row) :
    SnapshotVersion.none < row.2 := by
  rw [hcache] at hrow
  split at hrow
  next =>
    rcases Option.or_eq_some_iff.mp hrow with hack | ⟨-, hold⟩
    · rw [ackRow_eq_some hack]
      exact hdate
    · exact h.dated key row hold
  next => exact h.dated key row hrow

-- What is left belongs to the batches that are left.
theorem decide (h : l.Sound) {b : MutationBatch} {rest : List MutationBatch}
    (hfirst : l.current.batches = b :: rest) (status : Error) {cache : RemoteDocumentCache}
    (hdated : ∀ key row, cache.docs.lookup key = some row → SnapshotVersion.none < row.2)
    (changes : MaybeDocumentMap) : (l.decide b status cache changes).Sound := by
  have htail : ∀ b' ∈ l.current.batches, b'.batchId ≠ b.batchId → b' ∈ l.current.pop.batches := by
    intro b' hb' hne
    show b' ∈ l.current.batches.tail
    rw [hfirst] at hb' ⊢
    exact (List.mem_cons.mp hb').resolve_left fun he ↦ hne (he ▸ rfl)
  constructor
  · intro user
    by_cases huser : user = l.user
    · subst huser
      show (Function.update l.pending l.user l.current.pop l.user).Issued
      rw [Function.update_self]
      exact (h.issued l.user).pop
    · show (Function.update l.pending l.user l.current.pop user).Issued
      rw [Function.update_of_ne huser]
      exact h.issued user
  · intro user id hid
    by_cases huser : user = l.user
    · subst huser
      change id ∈ Function.update l.callbacks l.user _ l.user at hid
      show ∃ b' ∈ (Function.update l.pending l.user l.current.pop l.user).batches, _
      rw [Function.update_self] at hid ⊢
      obtain ⟨hne, hmem⟩ := Finmap.mem_erase.mp hid
      obtain ⟨b', hb', rfl⟩ := h.callbacks l.user id hmem
      exact ⟨b', htail b' hb' hne, rfl⟩
    · change id ∈ Function.update l.callbacks l.user _ user at hid
      show ∃ b' ∈ (Function.update l.pending l.user l.current.pop user).batches, _
      rw [Function.update_of_ne huser] at hid ⊢
      exact h.callbacks user id hid
  · intro id hid
    obtain ⟨hne, hmem⟩ := Finmap.mem_erase.mp hid
    obtain ⟨b', hb', rfl⟩ := h.waiting id hmem
    refine ⟨b', ?_, rfl⟩
    show b' ∈ (Function.update l.pending l.user l.current.pop l.user).batches
    rw [Function.update_self]
    exact htail b' hb' hne
  · exact hdated
  · exact h.version

theorem write (h : l.Sound) {b : MutationBatch} {callback : ℕ} {changes : MaybeDocumentMap}
    {hpos : 0 < b.batchId} {hnew : ∀ b' ∈ l.current.batches, b'.batchId < b.batchId}
    (hissued : b.Issued) : (l.write b hpos hnew callback changes).Sound := by
  have hpending : (l.write b hpos hnew callback changes).pending l.user =
      l.current.push b hpos hnew := Function.update_self _ _ _
  have hold : ∀ b' ∈ l.current.batches, b' ∈ (l.current.push b hpos hnew).batches :=
    fun b' hb' ↦ List.mem_append_left _ hb'
  constructor
  · intro user
    by_cases huser : user = l.user
    · subst huser
      rw [hpending]
      exact (h.issued l.user).push hissued
    · show (Function.update l.pending l.user _ user).Issued
      rw [Function.update_of_ne huser]
      exact h.issued user
  · intro user id hid
    by_cases huser : user = l.user
    · subst huser
      change id ∈ Function.update l.callbacks l.user _ l.user at hid
      rw [hpending]
      rw [Function.update_self] at hid
      rcases Finmap.mem_insert.mp hid with rfl | hmem
      · exact ⟨b, List.mem_append_right _ (List.mem_singleton_self b), rfl⟩
      · obtain ⟨b', hb', rfl⟩ := h.callbacks l.user id hmem
        exact ⟨b', hold b' hb', rfl⟩
    · change id ∈ Function.update l.callbacks l.user _ user at hid
      show ∃ b' ∈ (Function.update l.pending l.user _ user).batches, _
      rw [Function.update_of_ne huser] at hid ⊢
      exact h.callbacks user id hid
  · intro id hid
    obtain ⟨b', hb', rfl⟩ := h.waiting id hid
    refine ⟨b', ?_, rfl⟩
    show b' ∈ ((l.write b hpos hnew callback changes).pending l.user).batches
    rw [hpending]
    exact hold b' hb'
  · exact h.dated
  · exact h.version

theorem wait (h : l.Sound) (callback : ℕ) : (l.wait callback).Sound := by
  unfold Ledger.wait
  split
  next => exact ⟨h.issued, h.callbacks, h.waiting, h.dated, h.version⟩
  next b hlast =>
    refine ⟨h.issued, h.callbacks, fun id hid ↦ ?_, h.dated, h.version⟩
    rcases Finmap.mem_insert.mp hid with rfl | hmem
    · exact ⟨b, List.mem_of_getLast? hlast, rfl⟩
    · exact h.waiting id hmem

theorem step (h : l.Sound) {e : ClientEvent} {l' : Ledger} (hs : l.Step e l') : l'.Sound := by
  cases hs with
  | silent => exact h
  | empty => exact ⟨h.issued, h.callbacks, h.waiting, h.dated, h.version⟩
  | write hissued => exact h.write hissued
  | wait callback => exact h.wait callback
  | acknowledge hfirst hdate hresults hcache =>
      exact h.decide hfirst .ok (h.dated_acknowledged hdate hcache) _
  | reject hfirst => exact h.decide hfirst _ h.dated _
  | switch => exact ⟨h.issued, h.callbacks, fun id hid ↦ absurd hid Finmap.notMem_empty, h.dated,
      h.version⟩
  | @receive event cache changes hversion hpast hcache =>
      have hlt : SnapshotVersion.none < event.snapshotVersion :=
        lt_of_le_of_ne (h.version.trans hpast) hversion.symm
      refine ⟨h.issued, h.callbacks, h.waiting, fun key row hrow ↦ ?_, hlt.le⟩
      have hrow' : LocalStore.eventRow event key (l.cache.docs.lookup key) = some row :=
        (hcache key).symm.trans hrow
      rcases eventRow_eq_some hrow' with hold | ⟨hnew, -⟩
      · exact h.dated key row hold
      · rw [hnew]
        exact hlt
  | @limbo limboKey cache changes hcache =>
      refine ⟨h.issued, h.callbacks, h.waiting, fun key row hrow ↦ ?_, h.version⟩
      have hrow' : LocalStore.eventRow (missing limboKey) key (l.cache.docs.lookup key) =
          some row := (hcache key).symm.trans hrow
      rcases eventRow_eq_some hrow' with hold | ⟨-, doc, hdoc, hadd⟩
      · exact h.dated key row hold
      · rw [remoteUpdate_missing hdoc] at hadd
        cases hadd

end Sound

end Ledger

end LadyBook.Firestore
