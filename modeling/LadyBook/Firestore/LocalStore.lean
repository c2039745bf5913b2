import LadyBook.Firestore.LocalDocuments

/-!
# `LocalStore`

The queue of the user and the cache of remote documents, and the four things that happen to them: a
write is queued, a batch is acknowledged or rejected, and the watch stream brings documents.  Each
answers with the documents whose local view it may have changed.
-/

open Reasoning Reasoning.DocumentStore

namespace LadyBook.Firestore

structure LocalStore (Q : Type) where
  mutationQueue : Q
  remoteDocumentCache : RemoteDocumentCache
  lastRemoteSnapshotVersion : SnapshotVersion

/-- The documents of a snapshot of the watch stream. -/
structure RemoteEvent where
  snapshotVersion : SnapshotVersion
  documentUpdates : MaybeDocumentMap

structure LocalWriteResult where
  batchId : ℤ
  changes : MaybeDocumentMap

-- The batch is applied once for each of its mutations.
def MutationBatch.applyToLocalDocumentSet (batch : MutationBatch) (documentSet : MaybeDocumentMap) :
    MaybeDocumentMap :=
  rewriteRows (fun key previousDocument ↦ batch.applyToLocalDocument previousDocument key)
    (batch.mutations.map Mutation.key) documentSet

namespace LocalStore

variable {Q : Type} [MutationQueue Q] (store : LocalStore Q)

def localDocuments : LocalDocumentsView Q := ⟨store.remoteDocumentCache, store.mutationQueue⟩

-- The queue is the one that the persistence has for the new user.
def handleUserChange (mutationQueue : Q) : Except HardAssert (MaybeDocumentMap × LocalStore Q) := do
  let oldBatches := MutationQueue.allMutationBatches store.mutationQueue
  let store := { store with mutationQueue := MutationQueue.start mutationQueue }
  let newBatches := MutationQueue.allMutationBatches store.mutationQueue
  let changedKeys :=
    (((oldBatches ++ newBatches).flatMap MutationBatch.mutations).map Mutation.key).toFinset
  return (← store.localDocuments.getDocuments changedKeys, store)

-- The batch that follows one in the queue.
def getNextMutationBatch (batchId : ℤ) : Except HardAssert (Option MutationBatch) :=
  MutationQueue.nextMutationBatchAfterBatchId store.mutationQueue batchId

def getHighestUnacknowledgedBatchId : ℤ :=
  MutationQueue.getHighestUnacknowledgedBatchId store.mutationQueue

def writeLocally (mutations : List Mutation) :
    Except HardAssert (LocalWriteResult × MutationBatch × LocalStore Q) := do
  let keys := (mutations.map Mutation.key).toFinset
  let existingDocuments ← store.localDocuments.getDocuments keys
  let (batch, mutationQueue) ← MutationQueue.addMutationBatch store.mutationQueue mutations
  let changedDocuments := batch.applyToLocalDocumentSet existingDocuments
  return (⟨batch.batchId, changedDocuments⟩, batch, { store with mutationQueue })

-- The row of a key after an acknowledgement; `none` leaves it as it is.
def acknowledgedRow (result : MutationBatchResult) (key : DocumentKey)
    (row : Option (MaybeDocument × SnapshotVersion)) :
    Except HardAssert (Option (MaybeDocument × SnapshotVersion)) := do
  let remoteDoc := row.map Prod.fst
  match result.docVersions.lookup key with
  | none => throw .documentVersionMissing
  | some ackVersion =>
      if remoteDoc.all fun doc ↦ doc.version < ackVersion then
        match result.applyToRemoteDocument remoteDoc key with
        | none =>
            hardAssert remoteDoc.isNone .appliedToNothing
            return none
        | some doc => return some (doc, result.commitVersion)
      else
        return none

def applyBatchResult (result : MutationBatchResult) : Except HardAssert (LocalStore Q) := do
  let docs ← updateRows (acknowledgedRow result) (ascending result.batch.keys)
    store.remoteDocumentCache.docs
  let mutationQueue ← MutationQueue.removeMutationBatch store.mutationQueue result.batch
  return { store with mutationQueue, remoteDocumentCache := ⟨docs⟩ }

def acknowledgeBatch (result : MutationBatchResult) :
    Except HardAssert (MaybeDocumentMap × LocalStore Q) := do
  let mutationQueue ← MutationQueue.acknowledgeBatch store.mutationQueue result.batch
  let store ← { store with mutationQueue }.applyBatchResult result
  MutationQueue.performConsistencyCheck store.mutationQueue
  return (← store.localDocuments.getDocuments result.batch.keys, store)

def rejectBatch (batchId : ℤ) : Except HardAssert (MaybeDocumentMap × LocalStore Q) := do
  match ← MutationQueue.lookupMutationBatch store.mutationQueue batchId with
  | none => throw .rejectNonexistentBatch
  | some toReject =>
      let mutationQueue ← MutationQueue.removeMutationBatch store.mutationQueue toReject
      MutationQueue.performConsistencyCheck mutationQueue
      let store := { store with mutationQueue }
      return (← store.localDocuments.getDocuments toReject.keys, store)

/-- What a document of the watch stream does to the row of its key. -/
inductive RemoteUpdate where
  | remove
  | add
  | ignore
  deriving DecidableEq

-- A missing document without a version removes: access to it was lost.  An outdated document is
-- ignored, one of the same version ends the pending writes of the row.
def remoteUpdate (doc : MaybeDocument) (existingDoc : Option MaybeDocument) : RemoteUpdate :=
  match doc with
  | .noDocument version hasCommittedMutations =>
      if version = SnapshotVersion.none then .remove
      else newerUpdate (.noDocument version hasCommittedMutations) existingDoc
  | doc => newerUpdate doc existingDoc
where
  newerUpdate (doc : MaybeDocument) (existingDoc : Option MaybeDocument) : RemoteUpdate :=
    if existingDoc.all fun existing ↦ existing.version < doc.version ∨
        existing.version = doc.version ∧ existing.hasPendingWrites = true then
      .add
    else
      .ignore

-- One document of the event; `existingDocs` were read before the loop.
def applyDocumentUpdate (event : RemoteEvent) (existingDocs : OptionalMaybeDocumentMap)
    (rows : RemoteDocumentCache × OptionalMaybeDocumentMap) (key : DocumentKey) :
    Except HardAssert (RemoteDocumentCache × OptionalMaybeDocumentMap) :=
  match event.documentUpdates.lookup key with
  | none => .ok rows
  | some doc =>
      match remoteUpdate doc ((existingDocs.lookup key).bind id) with
      | .remove => .ok (rows.1.remove key, rows.2.insert key (some doc))
      | .add => do
          hardAssert (event.snapshotVersion ≠ SnapshotVersion.none) .remoteVersionZero
          return (rows.1.add key doc event.snapshotVersion, rows.2.insert key (some doc))
      | .ignore => .ok rows

def applyRemoteEvent (event : RemoteEvent) :
    Except HardAssert (MaybeDocumentMap × LocalStore Q) := do
  let updatedKeys := event.documentUpdates.keys
  let existingDocs := store.remoteDocumentCache.getAll updatedKeys
  let (remoteDocumentCache, changedDocs) ← (ascending updatedKeys).foldlM
    (applyDocumentUpdate event existingDocs) (store.remoteDocumentCache, ∅)
  let remoteVersion := event.snapshotVersion
  let store := { store with remoteDocumentCache }
  let store ← if remoteVersion ≠ SnapshotVersion.none then do
      hardAssert (store.lastRemoteSnapshotVersion ≤ remoteVersion) .watchStreamReverted
      pure { store with lastRemoteSnapshotVersion := remoteVersion }
    else
      pure store
  return (← store.localDocuments.getLocalViewOfDocuments changedDocs, store)

end LocalStore

/-! ## What each of them does -/

namespace Pending

variable {p : Pending}

theorem overlay_push {b : MutationBatch} {hpos : 0 < b.batchId}
    {hnew : ∀ b' ∈ p.batches, b'.batchId < b.batchId} (key : DocumentKey)
    (old : Option DocumentData) :
    (p.push b hpos hnew).overlay key old = b.effect key (p.overlay key old) :=
  List.foldl_concat _ _ _ _

theorem overlay_cons {b : MutationBatch} {rest : List MutationBatch} (h : p.batches = b :: rest)
    (key : DocumentKey) (old : Option DocumentData) :
    p.overlay key old = p.pop.overlay key (b.effect key old) := by
  show p.batches.foldl _ old = p.batches.tail.foldl _ _
  rw [h]
  rfl

theorem Issued.push (h : p.Issued) {b : MutationBatch} (hb : b.Issued) {hpos : 0 < b.batchId}
    {hnew : ∀ b' ∈ p.batches, b'.batchId < b.batchId} : (p.push b hpos hnew).Issued := by
  intro b' hb'
  rcases List.mem_append.mp hb' with h' | h'
  · exact h b' h'
  · exact List.mem_singleton.mp h' ▸ hb

theorem Issued.pop (h : p.Issued) : p.pop.Issued :=
  fun b hb ↦ h b (List.mem_of_mem_tail hb)

end Pending

namespace LocalStore

variable {Q : Type} [LawfulMutationQueue Q] {store : LocalStore Q} {p : Pending}

/-- The fields of a document as the app sees them. -/
def fields (store : LocalStore Q) (p : Pending) (key : DocumentKey) : Option DocumentData :=
  p.overlay key (contents (store.remoteDocumentCache.get key))

/-- The changes tell the new fields of the documents that they name, and name every document whose
fields are not the old ones. -/
structure Changes (changes : MaybeDocumentMap) (old new : DocumentKey → Option DocumentData) :
    Prop where
  named : ∀ {key doc}, changes.lookup key = some doc → contents (some doc) = new key
  unnamed : ∀ {key}, changes.lookup key = none → new key = old key

theorem contents_getD_noDocument (maybeDoc : Option MaybeDocument) (version : SnapshotVersion)
    (b : Bool) : contents (some (maybeDoc.getD (.noDocument version b))) = contents maybeDoc := by
  cases maybeDoc <;> rfl

-- The documents that are fetched are those that the app sees.
theorem changes_getDocuments
    (h : LawfulMutationQueue.Represents store.mutationQueue p) (hi : p.Issued)
    (keys : Finset DocumentKey) {old : DocumentKey → Option DocumentData}
    (hold : ∀ key ∉ keys, store.fields p key = old key) :
    ∃ changes, store.localDocuments.getDocuments keys = .ok changes ∧
      Changes changes old (store.fields p) := by
  obtain ⟨changes, hok, hlookup⟩ :=
    @LocalDocumentsView.getDocuments_eq Q _ store.localDocuments p h keys
  refine ⟨changes, hok, ?_, ?_⟩
  · intro key doc hdoc
    rw [hlookup] at hdoc
    split at hdoc
    next =>
      rw [← Option.some.inj hdoc, contents_getD_noDocument, hi.contents_localView]
      rfl
    next => cases hdoc
  · intro key hnone
    rw [hlookup] at hnone
    split at hnone
    next => cases hnone
    next hkey => exact hold key hkey

-- A document that neither queue touches looks the same to both users.
theorem handleUserChange_eq (h : LawfulMutationQueue.Represents store.mutationQueue p)
    {q : Q} {p' : Pending} (hq : LawfulMutationQueue.Represents q p') (hi : p'.Issued) :
    ∃ changes store', store.handleUserChange q = .ok (changes, store') ∧
      LawfulMutationQueue.Represents store'.mutationQueue p' ∧
      store'.lastRemoteSnapshotVersion = store.lastRemoteSnapshotVersion ∧
      store'.remoteDocumentCache = store.remoteDocumentCache ∧
      Changes changes (store.fields p) (store'.fields p') := by
  have hstart := LawfulMutationQueue.start_eq hq
  let store' : LocalStore Q := { store with mutationQueue := MutationQueue.start q }
  let changedKeys := (((MutationQueue.allMutationBatches store.mutationQueue ++
    MutationQueue.allMutationBatches (MutationQueue.start q)).flatMap
      MutationBatch.mutations).map Mutation.key).toFinset
  have hmem : ∀ b ∈ p.batches ++ p'.batches, ∀ key ∈ b.keys, key ∈ changedKeys := by
    intro b hb key hkey
    obtain ⟨m, hm, hk⟩ := MutationBatch.mem_keys.mp hkey
    rw [List.mem_toFinset, LawfulMutationQueue.all_eq h, LawfulMutationQueue.all_eq hstart]
    exact List.mem_map.mpr ⟨m, List.mem_flatMap.mpr ⟨b, hb, hm⟩, hk⟩
  have hold : ∀ key ∉ changedKeys, store'.fields p' key = store.fields p key := by
    intro key hkey
    have hfixed : ∀ {ps : Pending}, (∀ b ∈ ps.batches, b ∈ p.batches ++ p'.batches) →
        ∀ old, ps.overlay key old = old := by
      intro ps hsub old
      apply foldl_fixed_of_mem
      exact fun b hb old ↦
        MutationBatch.effect_of_notMem (fun hk ↦ hkey (hmem b (hsub b hb) key hk)) old
    rw [fields, fields, hfixed fun b hb ↦ List.mem_append_right _ hb,
      hfixed fun b hb ↦ List.mem_append_left _ hb]
  obtain ⟨changes, hchanges, hspec⟩ :=
    @changes_getDocuments Q _ store' p' hstart hi changedKeys _ hold
  refine ⟨changes, store', ?_, hstart, rfl, rfl, hspec⟩
  unfold handleUserChange
  exact congrArg (·.map (·, store')) hchanges

/-! ### Acknowledgements -/

/-- The server's version of a document is newer than that of the cache. -/
def Newer (store : LocalStore Q) (result : MutationBatchResult) (key : DocumentKey) : Prop :=
  ∀ doc version, store.remoteDocumentCache.get key = some doc →
    result.docVersions.lookup key = some version → doc.version < version

-- The row that an acknowledgement writes.
def ackRow (result : MutationBatchResult) (key : DocumentKey)
    (row : Option (MaybeDocument × SnapshotVersion)) : Option (MaybeDocument × SnapshotVersion) :=
  (result.docVersions.lookup key).bind fun ackVersion ↦
    if (row.map Prod.fst).all fun doc ↦ doc.version < ackVersion then
      (result.applyToRemoteDocument (row.map Prod.fst) key).map (·, result.commitVersion)
    else
      none

theorem acknowledgedRow_eq {result : MutationBatchResult} {key : DocumentKey}
    (hkey : key ∈ result.batch.keys) (row : Option (MaybeDocument × SnapshotVersion)) :
    acknowledgedRow result key row = .ok (ackRow result key row) := by
  obtain ⟨version, doc, hversion, hdoc, -⟩ :=
    MutationBatchResult.exists_version hkey (row.map Prod.fst)
  unfold acknowledgedRow ackRow
  simp only [hversion, hdoc, Option.bind_some, Option.map_some]
  split <;> rfl

theorem acknowledgeBatch_eq (h : LawfulMutationQueue.Represents store.mutationQueue p)
    (hi : p.Issued) {result : MutationBatchResult} {rest : List MutationBatch}
    (hb : p.batches = result.batch :: rest) :
    ∃ changes store', store.acknowledgeBatch result = .ok (changes, store') ∧
      LawfulMutationQueue.Represents store'.mutationQueue p.pop ∧
      store'.lastRemoteSnapshotVersion = store.lastRemoteSnapshotVersion ∧
      (∀ key, store'.remoteDocumentCache.docs.lookup key =
        if key ∈ result.batch.keys then
          (ackRow result key (store.remoteDocumentCache.docs.lookup key)).or
            (store.remoteDocumentCache.docs.lookup key)
        else
          store.remoteDocumentCache.docs.lookup key) ∧
      Changes changes (store.fields p) (store'.fields p.pop) := by
  obtain ⟨q, hack, hq⟩ := LawfulMutationQueue.acknowledge h hb
  obtain ⟨q', hremove, hq'⟩ := LawfulMutationQueue.remove hq hb
  have hrows := updateRows_eq_ok ((ascending_pairwise result.batch.keys).imp ne_of_lt)
    (fun key hkey row ↦ @acknowledgedRow_eq result key (mem_ascending.mp hkey) row)
    store.remoteDocumentCache.docs
  let store' : LocalStore Q := { store with
    mutationQueue := q'
    remoteDocumentCache := ⟨collectFrom store.remoteDocumentCache.docs
      (ascending result.batch.keys) fun key ↦
        ackRow result key (store.remoteDocumentCache.docs.lookup key)⟩ }
  have hlookup : ∀ key, store'.remoteDocumentCache.docs.lookup key =
      if key ∈ result.batch.keys then
        (ackRow result key (store.remoteDocumentCache.docs.lookup key)).or
          (store.remoteDocumentCache.docs.lookup key)
      else
        store.remoteDocumentCache.docs.lookup key := by
    intro key
    rw [lookup_collectFrom]
    simp only [mem_ascending]
  have hold : ∀ key ∉ result.batch.keys, store'.fields p.pop key = store.fields p key := by
    intro key hkey
    rw [fields, fields, Pending.overlay_cons hb, MutationBatch.effect_of_notMem hkey,
      RemoteDocumentCache.get, hlookup, if_neg hkey]
    rfl
  obtain ⟨changes, hchanges, hspec⟩ :=
    @changes_getDocuments Q _ store' _ hq' hi.pop result.batch.keys _ hold
  refine ⟨changes, store', ?_, hq', rfl, hlookup, hspec⟩
  unfold acknowledgeBatch applyBatchResult
  simp only [hack, hrows, hremove, bind, Except.bind, pure, Except.pure,
    LawfulMutationQueue.consistent hq']
  exact congrArg (·.map (·, store')) hchanges

omit [LawfulMutationQueue Q] in
-- What the acknowledged document of a key is, when the answer is newer than the cache.
theorem ackRow_of_newer {result : MutationBatchResult} {key : DocumentKey}
    (hkey : key ∈ result.batch.keys) (hnew : store.Newer result key) :
    ∃ doc, ackRow result key (store.remoteDocumentCache.docs.lookup key) =
        some (doc, result.commitVersion) ∧
      result.applyToRemoteDocument (store.remoteDocumentCache.get key) key = some doc := by
  obtain ⟨version, doc, hversion, hdoc, -⟩ :=
    MutationBatchResult.exists_version hkey (store.remoteDocumentCache.get key)
  refine ⟨doc, ?_, hdoc⟩
  rw [RemoteDocumentCache.get] at hdoc
  rw [ackRow, hversion, Option.bind_some, if_pos, hdoc, Option.map_some]
  rw [Option.all_eq_true]
  intro cached hcached
  exact decide_eq_true (hnew cached version hcached hversion)

omit [LawfulMutationQueue Q] in
/-- A batch that leaves the queue for the cache is still seen. -/
theorem fields_acknowledged {store' : LocalStore Q} (hi : p.Issued)
    {result : MutationBatchResult} {rest : List MutationBatch}
    (hb : p.batches = result.batch :: rest)
    (hdocs : ∀ key, store'.remoteDocumentCache.docs.lookup key =
      if key ∈ result.batch.keys then
        (ackRow result key (store.remoteDocumentCache.docs.lookup key)).or
          (store.remoteDocumentCache.docs.lookup key)
      else
        store.remoteDocumentCache.docs.lookup key)
    {key : DocumentKey} (hnew : store.Newer result key) :
    store'.fields p.pop key = store.fields p key := by
  have hissued : result.batch.Issued := hi result.batch (hb ▸ List.mem_cons_self)
  rw [fields, fields, Pending.overlay_cons hb]
  congr 1
  rw [RemoteDocumentCache.get, hdocs]
  split
  next hkey =>
    obtain ⟨doc, hrow, hdoc⟩ := ackRow_of_newer hkey hnew
    rw [hrow, Option.some_or, Option.map_some, ← hdoc,
      MutationBatchResult.contents_applyToRemoteDocument hissued]
  next hkey =>
    rw [MutationBatch.effect_of_notMem hkey]
    rfl

/-! ### Rejections and writes -/

theorem rejectBatch_eq (h : LawfulMutationQueue.Represents store.mutationQueue p)
    (hi : p.Issued) {b : MutationBatch} {rest : List MutationBatch} (hb : p.batches = b :: rest) :
    ∃ changes store', store.rejectBatch b.batchId = .ok (changes, store') ∧
      LawfulMutationQueue.Represents store'.mutationQueue p.pop ∧
      store'.lastRemoteSnapshotVersion = store.lastRemoteSnapshotVersion ∧
      store'.remoteDocumentCache = store.remoteDocumentCache ∧
      Changes changes (store.fields p) (store'.fields p.pop) := by
  obtain ⟨q', hremove, hq'⟩ := LawfulMutationQueue.remove h hb
  have hlookup :
      MutationQueue.lookupMutationBatch store.mutationQueue b.batchId = .ok (some b) := by
    rw [LawfulMutationQueue.lookup_eq b.batchId h,
      Pending.lookup_eq_some.mpr ⟨hb ▸ List.mem_cons_self, rfl⟩]
  let store' : LocalStore Q := { store with mutationQueue := q' }
  have hold : ∀ key ∉ b.keys, store'.fields p.pop key = store.fields p key := by
    intro key hkey
    rw [fields, fields, Pending.overlay_cons hb, MutationBatch.effect_of_notMem hkey]
  obtain ⟨changes, hchanges, hspec⟩ :=
    @changes_getDocuments Q _ store' _ hq' hi.pop b.keys _ hold
  refine ⟨changes, store', ?_, hq', rfl, rfl, hspec⟩
  unfold rejectBatch
  simp only [hlookup, hremove, bind, Except.bind, pure, Except.pure,
    LawfulMutationQueue.consistent hq']
  exact congrArg (·.map (·, store')) hchanges

theorem applyToLocalDocument_isSome (b : MutationBatch) (doc : MaybeDocument)
    (key : DocumentKey) : (b.applyToLocalDocument (some doc) key).isSome = true := by
  unfold MutationBatch.applyToLocalDocument
  induction b.mutations generalizing doc with
  | nil => rfl
  | cons m ms ih =>
      have hstep : ∃ doc', (if m.key = key then m.applyToLocalView (some doc) else some doc) =
          some doc' := by
        split
        · unfold Mutation.applyToLocalView
          split
          · cases m <;> exact ⟨_, rfl⟩
          · exact ⟨doc, rfl⟩
        · exact ⟨doc, rfl⟩
      obtain ⟨doc', hdoc'⟩ := hstep
      rw [List.foldl_cons, hdoc']
      exact ih doc'

/-- While no two mutations of the call are on one key, its changes are the new fields. -/
theorem writeLocally_eq (h : LawfulMutationQueue.Represents store.mutationQueue p)
    (hi : p.Issued) {ms : List Mutation} (hms : ms ≠ []) (hissued : ∀ m ∈ ms, m.Issued) :
    ∃ (result : LocalWriteResult) (b : MutationBatch) (store' : LocalStore Q)
      (hpos : 0 < b.batchId) (hnew : ∀ b' ∈ p.batches, b'.batchId < b.batchId),
      store.writeLocally ms = .ok (result, b, store') ∧ result.batchId = b.batchId ∧
      b.mutations = ms ∧
      LawfulMutationQueue.Represents store'.mutationQueue (p.push b hpos hnew) ∧
      store'.lastRemoteSnapshotVersion = store.lastRemoteSnapshotVersion ∧
      store'.remoteDocumentCache = store.remoteDocumentCache ∧
      ((ms.map Mutation.key).Nodup →
        Changes result.changes (store.fields p) (store'.fields (p.push b hpos hnew))) := by
  obtain ⟨existing, hexisting, hlookup⟩ := @LocalDocumentsView.getDocuments_eq
    Q _ store.localDocuments p h (ms.map Mutation.key).toFinset
  obtain ⟨b, q', hpos, hnew, hadd, hb, hq'⟩ := LawfulMutationQueue.add h hms
  refine ⟨⟨b.batchId, b.applyToLocalDocumentSet existing⟩, b, { store with mutationQueue := q' },
    hpos, hnew, ?_, rfl, hb, hq', rfl, rfl, fun hn ↦ ?_⟩
  · unfold writeLocally
    simp only [hexisting, hadd, bind, Except.bind, pure, Except.pure]
  · have hbi : b.Issued := fun m hm ↦ hissued m (hb ▸ hm)
    have hkeys : ∀ key, key ∈ ms.map Mutation.key ↔ key ∈ (ms.map Mutation.key).toFinset :=
      fun key ↦ List.mem_toFinset.symm
    have hset : ∀ key, (b.applyToLocalDocumentSet existing).lookup key =
        if key ∈ (ms.map Mutation.key).toFinset then
          (b.applyToLocalDocument (existing.lookup key) key).or (existing.lookup key)
        else existing.lookup key := by
      intro key
      rw [MutationBatch.applyToLocalDocumentSet, hb, rewriteRows_eq hn, lookup_collectFrom]
      simp only [hkeys]
    constructor
    · intro key doc hdoc
      rw [hset] at hdoc
      split at hdoc
      next hkey =>
        rw [hlookup, if_pos hkey] at hdoc
        obtain ⟨doc', hdoc'⟩ := Option.isSome_iff_exists.mp (applyToLocalDocument_isSome b
          ((p.localView key (store.localDocuments.remoteDocumentCache.get key)).getD
            (.noDocument SnapshotVersion.none false)) key)
        rw [hdoc', Option.some_or] at hdoc
        rw [← hdoc, ← hdoc', hbi.contents_applyToLocalDocument, contents_getD_noDocument,
          hi.contents_localView, fields, Pending.overlay_push]
        rfl
      next hkey =>
        rw [hlookup, if_neg hkey] at hdoc
        cases hdoc
    · intro key hnone
      have hkey : key ∉ b.keys := by
        intro hkey
        have hmem : key ∈ (ms.map Mutation.key).toFinset := hb ▸ hkey
        rw [hset, if_pos hmem, hlookup, if_pos hmem, Option.or_eq_none_iff] at hnone
        cases hnone.2
      rw [fields, Pending.overlay_push, MutationBatch.effect_of_notMem hkey]
      rfl

/-! ### Remote events -/

-- The row of a document that the watch stream brings.
def updatedRow (event : RemoteEvent) (doc : MaybeDocument)
    (row : Option (MaybeDocument × SnapshotVersion)) : Option (MaybeDocument × SnapshotVersion) :=
  match remoteUpdate doc (row.map Prod.fst) with
  | .remove => none
  | .add => some (doc, event.snapshotVersion)
  | .ignore => row

-- Only a missing document removes.
theorem contents_of_remove {doc : MaybeDocument} {existingDoc : Option MaybeDocument}
    (h : remoteUpdate doc existingDoc = .remove) : contents (some doc) = none := by
  cases doc with
  | document doc =>
      simp only [remoteUpdate, remoteUpdate.newerUpdate] at h
      split at h <;> cases h
  | noDocument => rfl
  | unknownDocument => rfl

-- What is reported of it.
def changedDoc (doc : MaybeDocument) (existingDoc : Option MaybeDocument) :
    Option (Option MaybeDocument) :=
  match remoteUpdate doc existingDoc with
  | .ignore => none
  | _ => some (some doc)

-- The row of a key after an event, and the report of the key.
def eventRow (event : RemoteEvent) (key : DocumentKey)
    (row : Option (MaybeDocument × SnapshotVersion)) : Option (MaybeDocument × SnapshotVersion) :=
  (event.documentUpdates.lookup key).elim row fun doc ↦ updatedRow event doc row

def eventChange (event : RemoteEvent) (key : DocumentKey) (existingDoc : Option MaybeDocument) :
    Option (Option MaybeDocument) :=
  (event.documentUpdates.lookup key).bind fun doc ↦ changedDoc doc existingDoc

/-- The snapshot version is there when a document is added to the row. -/
def Dated (event : RemoteEvent) (key : DocumentKey) (existingDoc : Option MaybeDocument) : Prop :=
  ∀ doc, event.documentUpdates.lookup key = some doc → remoteUpdate doc existingDoc = .add →
    event.snapshotVersion ≠ SnapshotVersion.none

section Loop

variable {event : RemoteEvent} {existingDocs : OptionalMaybeDocumentMap}
  {rows : RemoteDocumentCache × OptionalMaybeDocumentMap}

theorem applyDocumentUpdate_eq {key : DocumentKey}
    (hrow : existingDocs.lookup key = some (rows.1.get key))
    (hdated : Dated event key (rows.1.get key)) :
    ∃ rows', applyDocumentUpdate event existingDocs rows key = .ok rows' ∧
      (∀ k, rows'.1.docs.lookup k =
        if k = key then eventRow event k (rows.1.docs.lookup k) else rows.1.docs.lookup k) ∧
      ∀ k, rows'.2.lookup k =
        if k = key then (eventChange event k (rows.1.get k)).or (rows.2.lookup k)
        else rows.2.lookup k := by
  have hget : (rows.1.docs.lookup key).map Prod.fst = rows.1.get key := rfl
  have hsame : ∀ k, k ≠ key → ∀ (doc : MaybeDocument) (readTime : SnapshotVersion),
      (rows.1.add key doc readTime).docs.lookup k = rows.1.docs.lookup k :=
    fun k hk doc readTime ↦ Finmap.lookup_insert_of_ne rows.1.docs hk
  unfold applyDocumentUpdate
  cases hdoc : event.documentUpdates.lookup key with
  | none =>
      refine ⟨rows, rfl, fun k ↦ ?_, fun k ↦ ?_⟩
      · split
        next hk => rw [hk, eventRow, hdoc]; rfl
        next => rfl
      · split
        next hk => rw [hk, eventChange, hdoc]; rfl
        next => rfl
  | some doc =>
      simp only [hrow, Option.bind_some, id]
      cases hu : remoteUpdate doc (rows.1.get key) with
      | remove =>
          refine ⟨(rows.1.remove key, rows.2.insert key (some doc)), rfl, fun k ↦ ?_, fun k ↦ ?_⟩
          · split
            next hk =>
              rw [hk, eventRow, hdoc, Option.elim_some, updatedRow, hget, hu]
              exact Finmap.lookup_erase key rows.1.docs
            next hk => exact Finmap.lookup_erase_ne hk
          · split
            next hk =>
              rw [hk, eventChange, hdoc, Option.bind_some, changedDoc, hu, Finmap.lookup_insert]
              rfl
            next hk => exact Finmap.lookup_insert_of_ne rows.2 hk
      | add =>
          have hver := hdated doc hdoc hu
          refine ⟨(rows.1.add key doc event.snapshotVersion, rows.2.insert key (some doc)), ?_,
            fun k ↦ ?_, fun k ↦ ?_⟩
          · simp [hardAssert, hver, bind, Except.bind, pure, Except.pure]
          · split
            next hk =>
              rw [hk, eventRow, hdoc, Option.elim_some, updatedRow, hget, hu]
              exact Finmap.lookup_insert rows.1.docs
            next hk => exact hsame k hk doc _
          · split
            next hk =>
              rw [hk, eventChange, hdoc, Option.bind_some, changedDoc, hu, Finmap.lookup_insert]
              rfl
            next hk => exact Finmap.lookup_insert_of_ne rows.2 hk
      | ignore =>
          refine ⟨rows, rfl, fun k ↦ ?_, fun k ↦ ?_⟩
          · split
            next hk => rw [hk, eventRow, hdoc, Option.elim_some, updatedRow, hget, hu]
            next => rfl
          · split
            next hk =>
              rw [hk, eventChange, hdoc, Option.bind_some, changedDoc, hu]
              rfl
            next => rfl

-- The loop rewrites the row of each key once, from what was read before it.
theorem foldlM_applyDocumentUpdate {keys : List DocumentKey} (hn : keys.Nodup)
    (hrows : ∀ key ∈ keys, existingDocs.lookup key = some (rows.1.get key))
    (hdated : ∀ key ∈ keys, Dated event key (rows.1.get key)) :
    ∃ rows', keys.foldlM (applyDocumentUpdate event existingDocs) rows = .ok rows' ∧
      (∀ k, rows'.1.docs.lookup k =
        if k ∈ keys then eventRow event k (rows.1.docs.lookup k) else rows.1.docs.lookup k) ∧
      ∀ k, rows'.2.lookup k =
        if k ∈ keys then (eventChange event k (rows.1.get k)).or (rows.2.lookup k)
        else rows.2.lookup k := by
  induction keys generalizing rows with
  | nil => exact ⟨rows, rfl, fun _ ↦ rfl, fun _ ↦ rfl⟩
  | cons key keys ih =>
      obtain ⟨hkey, hn⟩ := List.nodup_cons.mp hn
      have hne : ∀ k ∈ keys, k ≠ key := fun k hk he ↦ hkey (he ▸ hk)
      obtain ⟨rows₁, hok, hcache₁, hchanged₁⟩ :=
        applyDocumentUpdate_eq (hrows key List.mem_cons_self) (hdated key List.mem_cons_self)
      have hget : ∀ k ∈ keys, rows₁.1.docs.lookup k = rows.1.docs.lookup k := fun k hk ↦ by
        rw [hcache₁, if_neg (hne k hk)]
      have hget' : ∀ k ∈ keys, rows₁.1.get k = rows.1.get k := fun k hk ↦
        congrArg (Option.map Prod.fst) (hget k hk)
      obtain ⟨rows', hok', hcache', hchanged'⟩ := @ih rows₁ hn
        (fun k hk ↦ by rw [hget' k hk]; exact hrows k (List.mem_cons_of_mem key hk))
        (fun k hk ↦ by rw [hget' k hk]; exact hdated k (List.mem_cons_of_mem key hk))
      refine ⟨rows', ?_, fun k ↦ ?_, fun k ↦ ?_⟩
      · rw [List.foldlM_cons, hok]
        exact hok'
      · rw [hcache']
        by_cases hk : k ∈ keys
        · rw [if_pos hk, if_pos (List.mem_cons_of_mem key hk), hget k hk]
        · rw [if_neg hk, hcache₁]
          simp only [List.mem_cons, hk, or_false]
      · rw [hchanged']
        by_cases hk : k ∈ keys
        · rw [if_pos hk, if_pos (List.mem_cons_of_mem key hk), hget' k hk, hchanged₁,
            if_neg (hne k hk)]
        · rw [if_neg hk, hchanged₁]
          simp only [List.mem_cons, hk, or_false]

end Loop

-- A removal reports a missing document.
theorem contents_eventRow {event : RemoteEvent} {key : DocumentKey}
    {row : Option (MaybeDocument × SnapshotVersion)} {reported : Option MaybeDocument}
    (h : eventChange event key (row.map Prod.fst) = some reported) :
    contents ((eventRow event key row).map Prod.fst) = contents reported := by
  unfold eventChange at h
  unfold eventRow
  cases hdoc : event.documentUpdates.lookup key with
  | none =>
      rw [hdoc] at h
      cases h
  | some doc =>
      rw [hdoc, Option.bind_some, changedDoc] at h
      rw [Option.elim_some, updatedRow]
      cases hu : remoteUpdate doc (row.map Prod.fst) with
      | remove =>
          rw [hu] at h
          rw [← Option.some.inj h, contents_of_remove hu]
          rfl
      | add =>
          rw [hu] at h
          rw [← Option.some.inj h]
          rfl
      | ignore =>
          rw [hu] at h
          cases h

theorem eventRow_of_unreported {event : RemoteEvent} {key : DocumentKey}
    {row : Option (MaybeDocument × SnapshotVersion)}
    (h : eventChange event key (row.map Prod.fst) = none) : eventRow event key row = row := by
  unfold eventChange at h
  unfold eventRow
  cases hdoc : event.documentUpdates.lookup key with
  | none => rfl
  | some doc =>
      rw [hdoc, Option.bind_some, changedDoc] at h
      rw [Option.elim_some, updatedRow]
      cases hu : remoteUpdate doc (row.map Prod.fst) with
      | remove => rw [hu] at h; cases h
      | add => rw [hu] at h; cases h
      | ignore => rfl

/-- The fields of the documents that are not reported are those of before. -/
theorem applyRemoteEvent_eq (h : LawfulMutationQueue.Represents store.mutationQueue p)
    (hi : p.Issued) {event : RemoteEvent}
    (hdated : ∀ key, Dated event key (store.remoteDocumentCache.get key))
    (hver : event.snapshotVersion ≠ SnapshotVersion.none →
      store.lastRemoteSnapshotVersion ≤ event.snapshotVersion) :
    ∃ changes store', store.applyRemoteEvent event = .ok (changes, store') ∧
      store'.mutationQueue = store.mutationQueue ∧
      store'.lastRemoteSnapshotVersion =
        (if event.snapshotVersion ≠ SnapshotVersion.none then event.snapshotVersion
        else store.lastRemoteSnapshotVersion) ∧
      (∀ key, store'.remoteDocumentCache.docs.lookup key =
        eventRow event key (store.remoteDocumentCache.docs.lookup key)) ∧
      Changes changes (store.fields p) (store'.fields p) := by
  obtain ⟨⟨cache', changedDocs⟩, hloop, hcache, hchanged⟩ :=
    @foldlM_applyDocumentUpdate event
      (store.remoteDocumentCache.getAll event.documentUpdates.keys)
      (store.remoteDocumentCache, ∅) (ascending event.documentUpdates.keys)
      ((ascending_pairwise event.documentUpdates.keys).imp ne_of_lt)
      (fun key hkey ↦ by
        rw [LocalDocumentsView.lookup_getAll, if_pos (mem_ascending.mp hkey)])
      (fun key _ ↦ hdated key)
  have hrow : ∀ key, cache'.docs.lookup key =
      eventRow event key (store.remoteDocumentCache.docs.lookup key) := by
    intro key
    rw [hcache]
    split
    next => rfl
    next hkey =>
      rw [mem_ascending, Finmap.mem_keys, ← Finmap.lookup_eq_none] at hkey
      rw [eventRow, hkey]
      rfl
  have hreport : ∀ key, changedDocs.lookup key =
      eventChange event key (store.remoteDocumentCache.get key) := by
    intro key
    rw [hchanged, Finmap.lookup_empty, Option.or_none]
    split
    next => rfl
    next hkey =>
      rw [mem_ascending, Finmap.mem_keys, ← Finmap.lookup_eq_none] at hkey
      rw [eventChange, hkey]
      rfl
  let store' : LocalStore Q := { store with
    remoteDocumentCache := cache'
    lastRemoteSnapshotVersion :=
      if event.snapshotVersion ≠ SnapshotVersion.none then event.snapshotVersion
      else store.lastRemoteSnapshotVersion }
  obtain ⟨changes, hok, hlookup⟩ :=
    @LocalDocumentsView.getLocalViewOfDocuments_eq Q _ store'.localDocuments p h changedDocs
  refine ⟨changes, store', ?_, rfl, rfl, hrow, ?_⟩
  · unfold applyRemoteEvent
    simp only [hloop, bind, Except.bind, pure, Except.pure]
    split
    next hne =>
      simp only [hardAssert, decide_eq_true (hver hne), if_true]
      have hstore : store' = { store with
          remoteDocumentCache := cache'
          lastRemoteSnapshotVersion := event.snapshotVersion } := by
        simp only [store', if_pos hne]
      rw [← hstore]
      exact congrArg (·.map (·, store')) hok
    next hnone =>
      have hstore : store' = { store with remoteDocumentCache := cache' } := by
        simp only [store', if_neg hnone]
      rw [← hstore]
      exact congrArg (·.map (·, store')) hok
  · constructor
    · intro key doc hdoc
      rw [hlookup, hreport] at hdoc
      obtain ⟨reported, hchange, hview⟩ := Option.map_eq_some_iff.mp hdoc
      rw [← hview, contents_getD_noDocument, hi.contents_localView, fields,
        RemoteDocumentCache.get]
      rw [hrow]
      exact congrArg (p.overlay key) (contents_eventRow hchange).symm
    · intro key hnone
      rw [hlookup, hreport, Option.map_eq_none_iff] at hnone
      rw [fields, fields, RemoteDocumentCache.get, hrow, eventRow_of_unreported hnone]
      rfl

end LocalStore

end LadyBook.Firestore
