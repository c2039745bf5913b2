import LadyBook.Firestore.LocalStore
import LadyBook.Firestore.WriteStream
import LadyBook.Reasoning.Runs

/-!
# The client

`SyncEngine` and `RemoteStore` around the local store and the write stream.  What is written goes
into the queue of the user at once, up to ten batches of it are sent over the stream, and the first
of them leaves when the server has answered or the stream ends with an error that will not go away.
Everything runs on one queue of operations, so a run is a list of events.
-/

open Reasoning

namespace LadyBook.Firestore

/-- The uid of a user who is signed in. -/
abbrev User := Option String

/-- What the client calls back.  Callbacks are told apart by numbers. -/
inductive Output where
  -- the arguments of `NotifyUser`, and the callback that it has found
  | notifyUser (user : User) (batchId : ℤ) (callback : Option ℕ) (status : Error)
  | emptyWrite (callback : ℕ)
  | pendingWrites (callback : ℕ) (status : Error)
  | viewSnapshots (changes : MaybeDocumentMap)
  deriving DecidableEq

/-- `mutationQueues` holds the queues of the users other than the current one. -/
structure FirestoreClient (Q : Type) where
  currentUser : User
  mutationQueues : User → Q
  localStore : LocalStore Q
  mutationCallbacks : User → Finmap fun _ : ℤ ↦ ℕ
  pendingWritesCallbacks : Finmap fun _ : ℤ ↦ List ℕ
  isNetworkEnabled : Bool
  writePipeline : List MutationBatch
  writeStream : WriteStream
  log : List Output

-- `kMaxPendingWrites`.
def maxPendingWrites : ℕ := 10

variable {Q : Type} [MutationQueue Q]

/-! ## The write pipeline -/

namespace RemoteStore

variable (c : FirestoreClient Q)

def canUseNetwork : Bool := c.isNetworkEnabled

def canAddToWritePipeline : Bool :=
  canUseNetwork c && c.writePipeline.length < maxPendingWrites

def shouldStartWriteStream : Bool :=
  canUseNetwork c && !c.writeStream.isStarted && !c.writePipeline.isEmpty

def startWriteStream : Except HardAssert (FirestoreClient Q) := do
  hardAssert (shouldStartWriteStream c) .startNotNeeded
  return { c with writeStream := ← c.writeStream.start }

def addToWritePipeline (batch : MutationBatch) : Except HardAssert (FirestoreClient Q) := do
  hardAssert (canAddToWritePipeline c) .pipelineFull
  let c := { c with writePipeline := c.writePipeline ++ [batch] }
  if c.writeStream.isOpen && c.writeStream.handshakeComplete then
    return { c with writeStream := ← c.writeStream.writeMutations batch.mutations }
  else
    return c

-- The loop of `FillWritePipeline`; a pass that goes on has put a batch into the pipeline, so that
-- there are at most `maxPendingWrites` of them.
def fillFrom (c : FirestoreClient Q) (lastBatchIdRetrieved : ℤ) :
    ℕ → Except HardAssert (FirestoreClient Q)
  | 0 => .ok c
  | n + 1 =>
      if canAddToWritePipeline c then do
        match ← c.localStore.getNextMutationBatch lastBatchIdRetrieved with
        | none =>
            if c.writePipeline.isEmpty then
              return { c with writeStream := c.writeStream.markIdle }
            else
              return c
        | some batch => fillFrom (← addToWritePipeline c batch) batch.batchId n
      else
        .ok c

def fillWritePipeline : Except HardAssert (FirestoreClient Q) := do
  let lastBatchIdRetrieved := c.writePipeline.getLast?.elim batchIdUnknown MutationBatch.batchId
  let c ← fillFrom c lastBatchIdRetrieved maxPendingWrites
  if shouldStartWriteStream c then
    startWriteStream c
  else
    return c

end RemoteStore

/-! ## Callbacks of the app -/

namespace SyncEngine

variable (c : FirestoreClient Q)

def emitNewSnapshots (changes : MaybeDocumentMap) : FirestoreClient Q :=
  { c with log := c.log ++ [.viewSnapshots changes] }

def notifyUser (batchId : ℤ) (status : Error) : FirestoreClient Q :=
  let callbacks := c.mutationCallbacks c.currentUser
  { c with
    mutationCallbacks :=
      Function.update c.mutationCallbacks c.currentUser (callbacks.erase batchId)
    log := c.log ++ [.notifyUser c.currentUser batchId (callbacks.lookup batchId) status] }

def triggerPendingWriteCallbacks (batchId : ℤ) : FirestoreClient Q :=
  { c with
    pendingWritesCallbacks := c.pendingWritesCallbacks.erase batchId
    log := c.log ++
      ((c.pendingWritesCallbacks.lookup batchId).getD []).map (.pendingWrites · .ok) }

def failOutstandingPendingWriteCallbacks : FirestoreClient Q :=
  { c with
    pendingWritesCallbacks := ∅
    log := c.log ++ (ascending c.pendingWritesCallbacks.keys).flatMap fun batchId ↦
      ((c.pendingWritesCallbacks.lookup batchId).getD []).map (.pendingWrites · .cancelled) }

def registerPendingWritesCallback (callback : ℕ) : FirestoreClient Q :=
  let largestPendingBatchId := c.localStore.getHighestUnacknowledgedBatchId
  if largestPendingBatchId = batchIdUnknown then
    { c with log := c.log ++ [.pendingWrites callback .ok] }
  else
    { c with
      pendingWritesCallbacks := c.pendingWritesCallbacks.insert largestPendingBatchId
        ((c.pendingWritesCallbacks.lookup largestPendingBatchId).getD [] ++ [callback]) }

/-! ## Writes and what the server answers -/

def writeMutations (mutations : List Mutation) (callback : ℕ) :
    Except HardAssert (FirestoreClient Q) := do
  let (result, _, localStore) ← c.localStore.writeLocally mutations
  let callbacks := c.mutationCallbacks c.currentUser
  -- `insert` keeps what is there
  let callbacks :=
    if result.batchId ∈ callbacks then callbacks else callbacks.insert result.batchId callback
  let c := { c with
    localStore
    mutationCallbacks := Function.update c.mutationCallbacks c.currentUser callbacks }
  RemoteStore.fillWritePipeline (emitNewSnapshots c result.changes)

def handleSuccessfulWrite (result : MutationBatchResult) :
    Except HardAssert (FirestoreClient Q) := do
  let c := triggerPendingWriteCallbacks (notifyUser c result.batch.batchId .ok) result.batch.batchId
  let (changes, localStore) ← c.localStore.acknowledgeBatch result
  return emitNewSnapshots { c with localStore } changes

def handleRejectedWrite (batchId : ℤ) (error : Error) : Except HardAssert (FirestoreClient Q) := do
  let (changes, localStore) ← c.localStore.rejectBatch batchId
  let c := triggerPendingWriteCallbacks (notifyUser { c with localStore } batchId error) batchId
  return emitNewSnapshots c changes

def applyRemoteEvent (event : RemoteEvent) : Except HardAssert (FirestoreClient Q) := do
  let (changes, localStore) ← c.localStore.applyRemoteEvent event
  return emitNewSnapshots { c with localStore } changes

-- A listen for a document in limbo was rejected: the document counts as missing.
def handleRejectedListen (limboKey : DocumentKey) : Except HardAssert (FirestoreClient Q) :=
  applyRemoteEvent c
    ⟨SnapshotVersion.none, Finmap.singleton limboKey (.noDocument SnapshotVersion.none false)⟩

end SyncEngine

/-! ## The life of the stream -/

namespace RemoteStore

variable (c : FirestoreClient Q)

-- Asks only whether the error is permanent: the stream token, which is reset then, is not modelled.
def handleHandshakeError (status : Error) : Except HardAssert (FirestoreClient Q) := do
  let _ ← Datastore.isPermanentError status
  return c

-- The caller has checked that the pipeline is not empty.
def handleWriteError (status : Error) : Except HardAssert (FirestoreClient Q) := do
  if ← Datastore.isPermanentWriteError status then
    match c.writePipeline with
    | [] => return c
    | batch :: rest =>
        let writeStream ← c.writeStream.inhibitBackoff
        let c := { c with writePipeline := rest, writeStream }
        fillWritePipeline (← SyncEngine.handleRejectedWrite c batch.batchId status)
  else
    return c

-- The callbacks of the error, when there are pending writes.
def handleStreamError (status : Error) : Except HardAssert (FirestoreClient Q) :=
  if status ≠ .ok ∧ c.writePipeline ≠ [] then
    if c.writeStream.handshakeComplete then
      handleWriteError c status
    else
      handleHandshakeError c status
  else
    .ok c

def onWriteStreamClose (status : Error) : Except HardAssert (FirestoreClient Q) := do
  hardAssert (status ≠ .ok || !shouldStartWriteStream c) .stoppedWhileNeeded
  let c ← handleStreamError c status
  if shouldStartWriteStream c then
    startWriteStream c
  else
    return c

-- `Stream::Close`; that the handshake was completed is forgotten behind the callback.
def close (status : Error) : Except HardAssert (FirestoreClient Q) :=
  if status = .ok ∧ c.writeStream.isStarted = false then
    .ok c
  else do
    hardAssert c.writeStream.isStarted .closeOfStopped
    let c ← onWriteStreamClose { c with writeStream := c.writeStream.closed status } status
    return { c with writeStream := { c.writeStream with handshakeComplete := false } }

def resumeStartWithCredentials (status : Error) : Except HardAssert (FirestoreClient Q) := do
  hardAssert (c.writeStream.state = .starting) .stillStarting
  if status = .ok then
    return { c with writeStream := { c.writeStream with grpcStream := some [] } }
  else
    close c status

-- A callback of `GetToken`; the stream may have been closed since.
def onToken (initialCloseCount : ℕ) (status : Error) : Except HardAssert (FirestoreClient Q) :=
  let writeStream :=
    { c.writeStream with tokenRequests := c.writeStream.tokenRequests.erase initialCloseCount }
  let c := { c with writeStream }
  if c.writeStream.closeCount = initialCloseCount then
    resumeStartWithCredentials c status
  else
    .ok c

def onStreamStart : Except HardAssert (FirestoreClient Q) := do
  let writeStream ← { c.writeStream with state := .open }.writeHandshake
  return { c with writeStream }

def onWriteStreamHandshakeComplete : Except HardAssert (FirestoreClient Q) := do
  let writeStream ← c.writePipeline.foldlM
    (fun (s : WriteStream) batch ↦ s.writeMutations batch.mutations) c.writeStream
  return { c with writeStream }

def onWriteStreamMutationResult (commitVersion : SnapshotVersion)
    (mutationResults : List SnapshotVersion) : Except HardAssert (FirestoreClient Q) :=
  match c.writePipeline with
  | [] => .error .resultForEmptyPipeline
  | batch :: rest =>
      if h : batch.mutations.length = mutationResults.length then do
        let c ← SyncEngine.handleSuccessfulWrite { c with writePipeline := rest }
          ⟨batch, commitVersion, mutationResults, h⟩
        fillWritePipeline c
      else
        .error .resultsNotMutations

-- A result without an update time, as that of a delete, has the version of the commit.
def decodeMutationResults (commitVersion : SnapshotVersion)
    (updateTimes : List (Option SnapshotVersion)) : List SnapshotVersion :=
  updateTimes.map (·.getD commitVersion)

-- The first response is the handshake response.
def onStreamRead (commitVersion : SnapshotVersion) (updateTimes : List (Option SnapshotVersion)) :
    Except HardAssert (FirestoreClient Q) := do
  hardAssert c.writeStream.isStarted .readOfStopped
  if c.writeStream.handshakeComplete then
    onWriteStreamMutationResult c commitVersion (decodeMutationResults commitVersion updateTimes)
  else
    onWriteStreamHandshakeComplete
      { c with writeStream := { c.writeStream with handshakeComplete := true } }

/-! ## The network -/

def enableNetwork : Except HardAssert (FirestoreClient Q) :=
  fillWritePipeline { c with isNetworkEnabled := true }

def disableNetworkInternal : Except HardAssert (FirestoreClient Q) := do
  return { ← close c .ok with writePipeline := [] }

def disableNetwork : Except HardAssert (FirestoreClient Q) :=
  disableNetworkInternal { c with isNetworkEnabled := false }

def restartNetwork : Except HardAssert (FirestoreClient Q) := do
  let c ← disableNetworkInternal { c with isNetworkEnabled := false }
  enableNetwork { c with writeStream := ← c.writeStream.inhibitBackoff }

-- The connectivity callback, when the network has not become unavailable, and `HandleCredentialChange`.
def restartIfEnabled : Except HardAssert (FirestoreClient Q) :=
  if canUseNetwork c then restartNetwork c else .ok c

-- A snapshot is raised when its version is a version and has not been passed.
def onWatchStreamChange (event : RemoteEvent) : Except HardAssert (FirestoreClient Q) :=
  if event.snapshotVersion ≠ SnapshotVersion.none ∧
      c.localStore.lastRemoteSnapshotVersion ≤ event.snapshotVersion then
    SyncEngine.applyRemoteEvent c event
  else
    .ok c

end RemoteStore

namespace SyncEngine

variable (c : FirestoreClient Q)

-- The queues of the two users change places.
def handleUserChange (user : User) : Except HardAssert (FirestoreClient Q) := do
  let oldQueue := c.localStore.mutationQueue
  let c := failOutstandingPendingWriteCallbacks { c with
    currentUser := user
    mutationQueues := Function.update c.mutationQueues c.currentUser oldQueue }
  let (changes, localStore) ← c.localStore.handleUserChange (c.mutationQueues user)
  return emitNewSnapshots { c with localStore } changes

def handleCredentialChange (user : User) : Except HardAssert (FirestoreClient Q) := do
  let c ← if c.currentUser ≠ user then handleUserChange c user else .ok c
  RemoteStore.restartIfEnabled c

end SyncEngine

/-! ## Runs -/

/-- What happens on the queue of the client. -/
inductive ClientEvent where
  | writeMutations (mutations : List Mutation) (callback : ℕ)
  | waitForPendingWrites (callback : ℕ)
  | credentialChange (user : User)
  | enableNetwork
  | disableNetwork
  | networkAvailable
  | token (initialCloseCount : ℕ) (status : Error)
  | streamStart
  | streamRead (request : WriteRequest) (commitVersion : SnapshotVersion)
      (updateTimes : List (Option SnapshotVersion))
  | streamFinish (status : Error)
  | backoffElapsed
  | idleTimeout
  | watchStreamChange (event : RemoteEvent)
  | rejectedListen (limboKey : DocumentKey)

namespace FirestoreClient

-- `FirestoreClient::WriteMutations` answers a write of nothing itself.
def writeMutations (c : FirestoreClient Q) (mutations : List Mutation) (callback : ℕ) :
    Except HardAssert (FirestoreClient Q) :=
  if mutations = [] then
    .ok { c with log := c.log ++ [.emptyWrite callback] }
  else
    SyncEngine.writeMutations c mutations callback

def handle (c : FirestoreClient Q) : ClientEvent → Except HardAssert (FirestoreClient Q)
  | .writeMutations mutations callback => c.writeMutations mutations callback
  | .waitForPendingWrites callback => .ok (SyncEngine.registerPendingWritesCallback c callback)
  | .credentialChange user => SyncEngine.handleCredentialChange c user
  | .enableNetwork => RemoteStore.enableNetwork c
  | .disableNetwork => RemoteStore.disableNetwork c
  | .networkAvailable => RemoteStore.restartIfEnabled c
  | .token initialCloseCount status => RemoteStore.onToken c initialCloseCount status
  | .streamStart => RemoteStore.onStreamStart c
  | .streamRead _ commitVersion updateTimes =>
      -- the answered request leaves the wire
      let writeStream := { c.writeStream with grpcStream := c.writeStream.grpcStream.map List.tail }
      RemoteStore.onStreamRead { c with writeStream } commitVersion updateTimes
  | .streamFinish status => RemoteStore.close c status
  | .backoffElapsed => do return { c with writeStream := ← c.writeStream.backoffElapsed }
  | .idleTimeout =>
      RemoteStore.close { c with writeStream := { c.writeStream with idlenessTimer := false } } .ok
  | .watchStreamChange event => RemoteStore.onWatchStreamChange c event
  | .rejectedListen limboKey => SyncEngine.handleRejectedListen c limboKey

/-- What can happen: the app writes what its calls issue, a callback comes for what was asked for, a
timer fires while it runs, and the server answers the requests of a stream one after the other. -/
def Enabled (c : FirestoreClient Q) : ClientEvent → Prop
  | .writeMutations mutations _ => ∀ m ∈ mutations, m.Issued
  | .token initialCloseCount _ => initialCloseCount ∈ c.writeStream.tokenRequests
  | .streamStart => c.writeStream.state = .starting ∧ c.writeStream.grpcStream = some []
  | .streamRead request commitVersion _ =>
      c.writeStream.grpcStream.bind List.head? = some request ∧ SnapshotVersion.none < commitVersion
  | .streamFinish _ => c.writeStream.grpcStream.isSome = true
  | .backoffElapsed => c.writeStream.backoffTimer = true
  | .idleTimeout => c.writeStream.idlenessTimer = true
  | _ => True

/-- What the client trusts the server with: there is a result for each mutation, and a stream ends
with an error while writes are pending. -/
def Trusts (c : FirestoreClient Q) : ClientEvent → Prop
  | .streamRead (.mutations ms) _ updateTimes => updateTimes.length = ms.length
  | .streamFinish status => status = .ok → c.writePipeline = []
  | _ => True

instance (c : FirestoreClient Q) : (e : ClientEvent) → Decidable (c.Enabled e)
  | .writeMutations mutations _ => inferInstanceAs (Decidable (∀ m ∈ mutations, m.Issued))
  | .token _ _ => inferInstanceAs (Decidable (_ ∈ c.writeStream.tokenRequests))
  | .streamStart => inferInstanceAs (Decidable (_ ∧ _))
  | .streamRead _ commitVersion _ =>
      inferInstanceAs (Decidable (_ ∧ SnapshotVersion.none < commitVersion))
  | .streamFinish _ => inferInstanceAs (Decidable (_ = true))
  | .backoffElapsed | .idleTimeout => inferInstanceAs (Decidable (_ = true))
  | .waitForPendingWrites _ | .credentialChange _ | .enableNetwork | .disableNetwork
  | .networkAvailable | .watchStreamChange _ | .rejectedListen _ => .isTrue trivial

instance (c : FirestoreClient Q) : (e : ClientEvent) → Decidable (c.Trusts e)
  | .streamRead (.mutations ms) _ updateTimes =>
      inferInstanceAs (Decidable (updateTimes.length = ms.length))
  | .streamFinish status => inferInstanceAs (Decidable (status = .ok → c.writePipeline = []))
  | .streamRead .handshake _ _ | .writeMutations _ _ | .waitForPendingWrites _
  | .credentialChange _ | .enableNetwork | .disableNetwork | .networkAvailable | .token _ _
  | .streamStart | .backoffElapsed | .idleTimeout | .watchStreamChange _ | .rejectedListen _ =>
      .isTrue trivial

def step (c : FirestoreClient Q) (e : ClientEvent) : Option (FirestoreClient Q) :=
  if c.Enabled e ∧ c.Trusts e then (c.handle e).toOption else none

/-- The client as `RemoteStore::Start` finds it. -/
def new (user : User) (mutationQueues : User → Q) (cache : RemoteDocumentCache)
    (version : SnapshotVersion) : FirestoreClient Q where
  currentUser := user
  mutationQueues := mutationQueues
  localStore := ⟨MutationQueue.start (mutationQueues user), cache, version⟩
  mutationCallbacks _ := ∅
  pendingWritesCallbacks := ∅
  isNetworkEnabled := false
  writePipeline := []
  writeStream := .new
  log := []

end FirestoreClient

end LadyBook.Firestore
