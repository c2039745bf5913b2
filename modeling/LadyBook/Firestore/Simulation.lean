import LadyBook.Firestore.Ledger

/-!
# The client is a ledger

Every event that can happen to the client is a step of the ledger, and none of them runs into an
assertion as long as the server gives a result for each mutation and does not end a stream
gracefully while writes are pending.
-/

open Reasoning

namespace LadyBook.Firestore

open WriteStream

variable {Q : Type} [LawfulMutationQueue Q]

/-- The queues, the documents and the callbacks of the client are those of the ledger. -/
structure Agrees (c : FirestoreClient Q) (l : Ledger) : Prop where
  user : c.currentUser = l.user
  queue : LawfulMutationQueue.Represents c.localStore.mutationQueue l.current
  queues : ∀ user, user ≠ l.user →
    LawfulMutationQueue.Represents (c.mutationQueues user) (l.pending user)
  cache : c.localStore.remoteDocumentCache = l.cache
  version : c.localStore.lastRemoteSnapshotVersion = l.version
  callbacks : c.mutationCallbacks = l.callbacks
  waiting : c.pendingWritesCallbacks = l.waiting
  log : c.log = l.log

/-- Between two events the pipeline is the front of the queue and the stream is in a phase. -/
structure Follows (c : FirestoreClient Q) (l : Ledger) : Prop extends Agrees c l where
  pipeline : c.writePipeline =
    if c.isNetworkEnabled then l.current.batches.take maxPendingWrites else []
  steady : Steady c.isNetworkEnabled c.writePipeline c.writeStream

variable {c : FirestoreClient Q} {l : Ledger}

-- The ledger does not see the network.
theorem Agrees.network (h : Agrees c l) (enabled : Bool) (pipeline : List MutationBatch)
    (s : WriteStream) : Agrees { c with
      isNetworkEnabled := enabled
      writePipeline := pipeline
      writeStream := s } l :=
  ⟨h.user, h.queue, h.queues, h.cache, h.version, h.callbacks, h.waiting, h.log⟩

theorem Agrees.fields_eq (h : Agrees c l) : c.localStore.fields l.current = l.fields := by
  ext key
  rw [LocalStore.fields, h.cache]
  rfl

theorem Follows.network (h : Follows c l) {enabled : Bool} {pipeline : List MutationBatch}
    {s : WriteStream}
    (hpipe : pipeline = if enabled then l.current.batches.take maxPendingWrites else [])
    (hs : Steady enabled pipeline s) : Follows { c with
      isNetworkEnabled := enabled
      writePipeline := pipeline
      writeStream := s } l :=
  ⟨h.toAgrees.network enabled pipeline s, hpipe, hs⟩

theorem Follows.stream (h : Follows c l) {s : WriteStream}
    (hs : Steady c.isNetworkEnabled c.writePipeline s) : Follows { c with writeStream := s } l :=
  h.network h.pipeline hs

/-! ## The network is switched on and off -/

namespace RemoteStore

theorem enabled_of_ne (h : Follows c l) (hne : c.writePipeline ≠ []) :
    c.isNetworkEnabled = true := by
  by_contra hnet
  rw [h.pipeline, if_neg hnet] at hne
  exact hne rfl

theorem pipeline_disabled (h : Follows c l) (hnet : c.isNetworkEnabled = false) :
    c.writePipeline = [] := by
  rw [h.pipeline, hnet]
  rfl

-- While the network is disabled nothing is filled.
theorem fillWritePipeline_disabled (hnet : c.isNetworkEnabled = false) :
    fillWritePipeline c = .ok c := by
  have hcan : canAddToWritePipeline c = false := by
    rw [canAddToWritePipeline, canUseNetwork, hnet, Bool.false_and]
  have hshould : shouldStartWriteStream c = false := by
    rw [shouldStartWriteStream, canUseNetwork, hnet, Bool.false_and, Bool.false_and]
  simp [fillWritePipeline, maxPendingWrites, fillFrom, hcan, hshould, bind, Except.bind, pure,
    Except.pure]

/-- Once the pipeline is filled it is the front of the queue, if it was a part of it before. -/
theorem fillWritePipeline_follows (h : Agrees c l) {k : ℕ} (hk : k ≤ maxPendingWrites)
    (hpipe : c.writePipeline = if c.isNetworkEnabled then l.current.batches.take k else [])
    (hs : Steady c.isNetworkEnabled c.writePipeline c.writeStream) :
    ∃ c', fillWritePipeline c = .ok c' ∧ Follows c' l := by
  cases hnet : c.isNetworkEnabled with
  | false =>
      rw [hnet, if_neg Bool.false_ne_true] at hpipe
      exact ⟨c, fillWritePipeline_disabled hnet, h, by rw [hnet, hpipe]; rfl, hs⟩
  | true =>
      rw [hnet] at hs
      rw [hnet, if_pos rfl, List.take_eq_take_min] at hpipe
      rw [hpipe] at hs
      obtain ⟨s, hfill, hs'⟩ := fill_steady h.queue hnet (Nat.min_le_right _ _) hpipe
        ((Nat.min_le_left _ _).trans hk) hs
      refine ⟨_, hfill, ?_⟩
      exact ⟨h.network c.isNetworkEnabled _ s, by rw [hnet]; rfl, by rw [hnet]; exact hs'⟩

theorem enableNetwork_follows (h : Follows c l) :
    ∃ c', enableNetwork c = .ok c' ∧ Follows c' l := by
  have hagrees := h.toAgrees.network true c.writePipeline c.writeStream
  have hs : Steady true c.writePipeline c.writeStream :=
    ⟨h.steady.attached, h.steady.tokens, fun _ ↦ rfl⟩
  cases hnet : c.isNetworkEnabled with
  | true =>
      refine fillWritePipeline_follows hagrees le_rfl ?_ hs
      rw [if_pos rfl, h.pipeline, hnet, if_pos rfl]
  | false =>
      refine fillWritePipeline_follows hagrees (Nat.zero_le _) ?_ hs
      rw [if_pos rfl, List.take_zero, h.pipeline, hnet]
      rfl

theorem disableNetwork_eq (h : Agrees c l)
    (hs : Steady c.isNetworkEnabled c.writePipeline c.writeStream) :
    disableNetwork c = .ok { c with
      isNetworkEnabled := false
      writePipeline := []
      writeStream := c.writeStream.stop } ∧
    Follows { c with
      isNetworkEnabled := false
      writePipeline := []
      writeStream := c.writeStream.stop } l := by
  refine ⟨?_, h.network _ _ _, rfl, hs.stop⟩
  unfold disableNetwork disableNetworkInternal
  rw [close_ok fun hnet ↦ by cases hnet]
  rfl

/-- The streams are restarted for the queue of the ledger, whatever the pipeline was filled with. -/
theorem restartIfEnabled_follows (h : Agrees c l)
    (hoff : c.isNetworkEnabled = false → c.writePipeline = [])
    (hs : Steady c.isNetworkEnabled c.writePipeline c.writeStream) :
    ∃ c', restartIfEnabled c = .ok c' ∧ Follows c' l := by
  unfold restartIfEnabled
  split
  next =>
    obtain ⟨hdisable, hf⟩ := disableNetwork_eq h hs
    have hstopped : c.writeStream.stop.isStarted = false := stop_stopped
    have hinitial : Steady false [] { c.writeStream.stop with state := .initial } := by
      obtain ⟨hattached, htokens, -⟩ := hs.stop
      generalize c.writeStream.stop = s at hattached htokens hstopped
      cases hattached with
      | stopped hstate hempty htoken =>
          exact ⟨.stopped (.inl rfl) rfl htoken, htokens, fun hn ↦ by cases hn⟩
      | ready => cases hstopped
      | _ => contradiction
    obtain ⟨c', henable, hf'⟩ := enableNetwork_follows (hf.network rfl hinitial)
    refine ⟨c', ?_, hf'⟩
    unfold restartNetwork
    show (disableNetwork c >>= _) = _
    rw [hdisable]
    simp only [inhibitBackoff, hardAssert, hstopped, Bool.not_false, if_true, bind, Except.bind,
      pure, Except.pure]
    exact henable
  next hnet =>
    have hnet' : c.isNetworkEnabled = false := Bool.eq_false_iff.mpr hnet
    exact ⟨c, rfl, h, by rw [hoff hnet', hnet']; rfl, hs⟩

/-! ## The stream opens -/

-- A token is used by the stream that has asked for it, and by no other.
theorem onToken_follows (h : Follows c l) {n : ℕ} (hn : n ∈ c.writeStream.tokenRequests)
    (status : Error) : ∃ c', onToken c n status = .ok c' ∧ Follows c' l := by
  obtain ⟨hattached, htokens, henabled⟩ := h.steady
  have herased := htokens.erase n
  unfold onToken
  by_cases hcount : c.writeStream.closeCount = n
  · -- only a stream that waits for its token has asked for one
    rw [if_pos hcount]
    subst hcount
    have hgone : c.writeStream.closeCount ∉
        c.writeStream.tokenRequests.erase c.writeStream.closeCount :=
      htokens.nodup.not_mem_erase
    generalize hs : c.writeStream = s at hattached htokens henabled herased hgone hn
    cases hattached with
    | @credentials closeCount tokenRequests hne htoken =>
        have hnet := enabled_of_ne h hne
        unfold resumeStartWithCredentials
        by_cases hstatus : status = .ok
        · refine ⟨{ c with writeStream := ⟨.starting, false, false, false, closeCount,
            tokenRequests.erase closeCount, some []⟩ }, ?_,
            h.stream ⟨.connecting hne hgone, herased, henabled⟩⟩
          simp [hardAssert, hstatus, bind, Except.bind, pure, Except.pure]
        · refine ⟨{ c with writeStream := ⟨.backoff, false, false, true, closeCount + 1,
            tokenRequests.erase closeCount, none⟩ }, ?_, h.stream ?_⟩
          · have hclose := close_retried (c := { c with
              writeStream := ⟨.starting, false, false, false, closeCount,
                tokenRequests.erase closeCount, none⟩ }) hstatus rfl hnet hne
              (fun hcomplete ↦ by cases hcomplete)
            simp only [hardAssert, decide_true, if_true, hstatus, if_false, bind, Except.bind]
            exact hclose
          · rw [hnet]
            exact herased.retried hne
    | stopped hstate hempty htoken => exact absurd hn htoken
    | backoff hne htoken => exact absurd hn htoken
    | connecting hne htoken => exact absurd hn htoken
    | handshaking hne htoken => exact absurd hn htoken
    | ready hidle htoken => exact absurd hn htoken
  · -- the stream that has asked for it is closed
    rw [if_neg hcount]
    refine ⟨_, rfl, h.stream ⟨?_, herased, henabled⟩⟩
    have hkeep : c.writeStream.closeCount ∈ c.writeStream.tokenRequests →
        c.writeStream.closeCount ∈ c.writeStream.tokenRequests.erase n :=
      (List.mem_erase_of_ne hcount).mpr
    have hlose : c.writeStream.closeCount ∉ c.writeStream.tokenRequests →
        c.writeStream.closeCount ∉ c.writeStream.tokenRequests.erase n :=
      fun hfresh hmem ↦ hfresh (List.mem_of_mem_erase hmem)
    generalize c.writeStream = s at hattached hkeep hlose
    cases hattached with
    | stopped hstate hempty htoken => exact .stopped hstate hempty (hlose htoken)
    | backoff hne htoken => exact .backoff hne (hlose htoken)
    | credentials hne htoken => exact .credentials hne (hkeep htoken)
    | connecting hne htoken => exact .connecting hne (hlose htoken)
    | handshaking hne htoken => exact .handshaking hne (hlose htoken)
    | ready hidle htoken => exact .ready hidle (hlose htoken)

theorem onStreamStart_follows (h : Follows c l) (hstate : c.writeStream.state = .starting)
    (hgrpc : c.writeStream.grpcStream = some []) :
    ∃ c', onStreamStart c = .ok c' ∧ Follows c' l := by
  obtain ⟨hattached, htokens, -⟩ := h.steady
  generalize hs : c.writeStream = s at hattached htokens hstate hgrpc
  cases hattached with
  | @connecting closeCount tokenRequests hne htoken =>
      refine ⟨{ c with writeStream :=
        ⟨.open, false, false, false, closeCount, tokenRequests, some [.handshake]⟩ }, ?_,
        h.stream ⟨.handshaking hne htoken, htokens, fun _ ↦ enabled_of_ne h hne⟩⟩
      unfold onStreamStart
      rw [hs]
      rfl
  | stopped => cases hgrpc
  | backoff => cases hgrpc
  | credentials => cases hgrpc
  | handshaking => cases hstate
  | ready => cases hstate

theorem backoffElapsed_follows (h : Follows c l) (htimer : c.writeStream.backoffTimer = true) :
    ∃ s, c.writeStream.backoffElapsed = .ok s ∧ Follows { c with writeStream := s } l := by
  obtain ⟨hattached, htokens, -⟩ := h.steady
  generalize hs : c.writeStream = s at hattached htokens htimer
  cases hattached with
  | @backoff closeCount tokenRequests hne htoken =>
      refine ⟨⟨.starting, false, false, false, closeCount, closeCount :: tokenRequests, none⟩, rfl,
        h.stream ⟨.credentials hne List.mem_cons_self, htokens.request htoken,
          fun _ ↦ enabled_of_ne h hne⟩⟩
  | stopped => cases htimer
  | credentials => cases htimer
  | connecting => cases htimer
  | handshaking => cases htimer
  | ready => cases htimer

-- The timer runs while nothing is pending.
theorem idleTimeout_follows (h : Follows c l) (htimer : c.writeStream.idlenessTimer = true) :
    ∃ c', close { c with writeStream := { c.writeStream with idlenessTimer := false } } .ok =
      .ok c' ∧ Follows c' l := by
  obtain ⟨hattached, htokens, -⟩ := h.steady
  have hempty : c.writePipeline = [] := by
    generalize c.writeStream = s at hattached htimer
    cases hattached with
    | ready hidle => exact hidle htimer
    | stopped => cases htimer
    | backoff => cases htimer
    | credentials => cases htimer
    | connecting => cases htimer
    | handshaking => cases htimer
  have hstop : Steady c.isNetworkEnabled c.writePipeline
      ({ c.writeStream with idlenessTimer := false } : WriteStream).stop := by
    generalize c.writeStream = s at hattached htokens htimer
    cases hattached with
    | ready hidle htoken =>
        rw [hempty]
        exact htokens.closed (.inl rfl) _
    | stopped => cases htimer
    | backoff => cases htimer
    | credentials => cases htimer
    | connecting => cases htimer
    | handshaking => cases htimer
  exact ⟨_, close_ok fun _ ↦ hempty, h.stream hstop⟩

theorem onStreamRead_handshake (h : Follows c l)
    (hhead : c.writeStream.grpcStream.bind List.head? = some .handshake)
    (commitVersion : SnapshotVersion) (updateTimes : List (Option SnapshotVersion)) :
    ∃ c', onStreamRead { c with writeStream := { c.writeStream with
        grpcStream := c.writeStream.grpcStream.map List.tail } } commitVersion updateTimes =
        .ok c' ∧ Follows c' l := by
  obtain ⟨hattached, htokens, -⟩ := h.steady
  generalize hs : c.writeStream = s at hattached htokens hhead
  cases hattached with
  | @handshaking closeCount tokenRequests hne htoken =>
      -- the requests of the pipeline follow the handshake
      have hfeed : (⟨.open, true, false, false, closeCount, tokenRequests, some []⟩ :
          WriteStream).feed c.writePipeline =
          ⟨.open, true, false, false, closeCount, tokenRequests,
            some (c.writePipeline.map fun b ↦ .mutations b.mutations)⟩ := by
        rw [feed, if_pos ⟨rfl, rfl⟩]
        rfl
      have hwrite := foldlM_writeMutations
        (s := ⟨.open, true, false, false, closeCount, tokenRequests, some []⟩) ⟨rfl, rfl⟩
        c.writePipeline
      rw [hfeed] at hwrite
      refine ⟨{ c with writeStream := ⟨.open, true, false, false, closeCount, tokenRequests,
          some (c.writePipeline.map fun b ↦ .mutations b.mutations)⟩ }, ?_,
        h.stream ⟨.ready (fun hidle ↦ by cases hidle) htoken, htokens,
          fun _ ↦ enabled_of_ne h hne⟩⟩
      show onWriteStreamHandshakeComplete _ = _
      unfold onWriteStreamHandshakeComplete
      show (List.foldlM _ _ _ >>= _) = _
      exact congrArg (· >>= fun s ↦ Except.ok { c with writeStream := s }) hwrite
  | stopped => cases hhead
  | backoff => cases hhead
  | credentials => cases hhead
  | connecting => cases hhead
  | ready =>
      cases hpipe : c.writePipeline with
      | nil =>
          rw [hpipe] at hhead
          cases hhead
      | cons b rest =>
          rw [hpipe] at hhead
          cases hhead

-- The request that is answered first is that of the first pending batch.
theorem first_of_head (h : Follows c l) {ms : List Mutation}
    (hhead : c.writeStream.grpcStream.bind List.head? = some (.mutations ms)) :
    ∃ b rest closeCount tokenRequests, l.current.batches = b :: rest ∧ b.mutations = ms ∧
      c.isNetworkEnabled = true ∧
      c.writePipeline = b :: rest.take 9 ∧
      c.writeStream = ⟨.open, true, false, false, closeCount, tokenRequests,
        some (.mutations ms :: (rest.take 9).map fun b ↦ .mutations b.mutations)⟩ ∧
      closeCount ∉ tokenRequests ∧ Tokens closeCount tokenRequests := by
  obtain ⟨hattached, htokens, -⟩ := h.steady
  generalize hs : c.writeStream = s at hattached htokens hhead
  cases hattached with
  | @ready idle closeCount tokenRequests hidle htoken =>
      have hne : c.writePipeline ≠ [] := by
        intro hnil
        rw [hnil] at hhead
        cases hhead
      have hnet := enabled_of_ne h hne
      have hpipe := h.pipeline
      rw [hnet, if_pos rfl] at hpipe
      cases hb : l.current.batches with
      | nil =>
          rw [hb, List.take_nil] at hpipe
          exact absurd hpipe hne
      | cons b rest =>
          have hpipe' : c.writePipeline = b :: rest.take 9 := by
            rw [hpipe, hb]
            rfl
          have hrunning : idle = false := by
            apply Bool.eq_false_iff.mpr
            exact fun hi ↦ hne (hidle hi)
          rw [hpipe'] at hhead
          have hms : b.mutations = ms := by
            injection hhead with hhead
            injection hhead
          exact ⟨b, rest, closeCount, tokenRequests, rfl, hms, hnet, hpipe', by
            rw [hpipe', hrunning, ← hms]; rfl, htoken, htokens⟩
  | stopped => cases hhead
  | backoff => cases hhead
  | credentials => cases hhead
  | connecting => cases hhead
  | handshaking => cases hhead

end RemoteStore

/-! ## Decisions -/

theorem Agrees.decided (h : Agrees c l) {b : MutationBatch} {store' : LocalStore Q}
    (hqueue : LawfulMutationQueue.Represents store'.mutationQueue l.current.pop)
    (hversion : store'.lastRemoteSnapshotVersion = c.localStore.lastRemoteSnapshotVersion)
    (status : Error) (changes : MaybeDocumentMap) :
    Agrees (SyncEngine.decided { c with localStore := store' } b.batchId status changes)
      (l.decide b status store'.remoteDocumentCache changes) := by
  have hcurrent : (l.decide b status store'.remoteDocumentCache changes).current =
      l.current.pop := Function.update_self _ _ _
  constructor
  · exact h.user
  · rw [hcurrent]
    exact hqueue
  · intro user huser
    have huser' : user ≠ l.user := huser
    show LawfulMutationQueue.Represents _ (Function.update l.pending l.user _ user)
    rw [Function.update_of_ne huser']
    exact h.queues user huser'
  · rfl
  · exact hversion.trans h.version
  · show Function.update c.mutationCallbacks c.currentUser _ = _
    rw [h.callbacks, h.user]
    rfl
  · show c.pendingWritesCallbacks.erase _ = _
    rw [h.waiting]
    rfl
  · show c.log ++ _ ++ _ ++ _ = _
    rw [h.log, h.user, h.callbacks]
    show _ ++ ((c.pendingWritesCallbacks.lookup _).getD []).map _ ++ _ = _
    rw [h.waiting]
    rfl

namespace RemoteStore

omit [LawfulMutationQueue Q] in
theorem onWriteStreamMutationResult_cons [MutationQueue Q] {c : FirestoreClient Q}
    {b : MutationBatch} {rest : List MutationBatch} (hpipe : c.writePipeline = b :: rest)
    {commitVersion : SnapshotVersion} {mutationResults : List SnapshotVersion}
    (hsize : b.mutations.length = mutationResults.length) :
    onWriteStreamMutationResult c commitVersion mutationResults =
      SyncEngine.handleSuccessfulWrite { c with writePipeline := rest }
        ⟨b, commitVersion, mutationResults, hsize⟩ >>= fillWritePipeline := by
  unfold onWriteStreamMutationResult
  split
  next hnil =>
    rw [hpipe] at hnil
    cases hnil
  next b' rest' hcons =>
    obtain ⟨rfl, rfl⟩ := List.cons.inj (hcons.symm.trans hpipe)
    exact dif_pos hsize

/-- The answer to the first request of the wire acknowledges the first pending batch. -/
theorem onStreamRead_mutations (h : Follows c l) (hl : l.Sound) {ms : List Mutation}
    (hhead : c.writeStream.grpcStream.bind List.head? = some (.mutations ms))
    {commitVersion : SnapshotVersion} (hdate : SnapshotVersion.none < commitVersion)
    {updateTimes : List (Option SnapshotVersion)} (hlength : updateTimes.length = ms.length) :
    ∃ c' l', onStreamRead { c with writeStream := { c.writeStream with
        grpcStream := c.writeStream.grpcStream.map List.tail } } commitVersion updateTimes =
        .ok c' ∧
      l.Step (.streamRead (.mutations ms) commitVersion updateTimes) l' ∧ Follows c' l' := by
  obtain ⟨b, rest, closeCount, tokenRequests, hb, hms, hnet, hpipe, hs, htoken, htokens⟩ :=
    first_of_head h hhead
  have hsize : b.mutations.length = (decodeMutationResults commitVersion updateTimes).length := by
    rw [decodeMutationResults, List.length_map, hlength, hms]
  let result : MutationBatchResult :=
    ⟨b, commitVersion, decodeMutationResults commitVersion updateTimes, hsize⟩
  obtain ⟨changes, store', hack, hqueue, hversion, hcache, hchanges⟩ :=
    @LocalStore.acknowledgeBatch_eq Q _ c.localStore l.current h.queue (hl.issued l.user) result
      rest hb
  -- the client when the pipeline is filled again
  let s : WriteStream := ⟨.open, true, false, false, closeCount, tokenRequests,
    some ((rest.take 9).map fun b ↦ .mutations b.mutations)⟩
  let c₁ : FirestoreClient Q := { c with writePipeline := rest.take 9, writeStream := s }
  have hagrees : Agrees (SyncEngine.decided { c₁ with localStore := store' } b.batchId .ok changes)
      (l.decide b .ok store'.remoteDocumentCache changes) :=
    (h.toAgrees.network c.isNetworkEnabled (rest.take 9) s).decided hqueue hversion .ok changes
  have hcurrent : (l.decide b .ok store'.remoteDocumentCache changes).current.batches = rest := by
    show (Function.update l.pending l.user _ l.user).batches = rest
    rw [Function.update_self]
    show l.current.batches.tail = rest
    rw [hb]
    rfl
  obtain ⟨c', hfill, hf⟩ := fillWritePipeline_follows (k := 9) hagrees (by decide)
    (by
      show rest.take 9 = if c.isNetworkEnabled then _ else []
      rw [hnet, if_pos rfl, hcurrent])
    ⟨.ready (fun hi ↦ by cases hi) htoken, htokens, fun _ ↦ hnet⟩
  refine ⟨c', _, ?_, ?_, hf⟩
  · rw [hs]
    show onWriteStreamMutationResult { c with writeStream := s } commitVersion
      (decodeMutationResults commitVersion updateTimes) = _
    rw [onWriteStreamMutationResult_cons (c := { c with writeStream := s }) hpipe hsize]
    show SyncEngine.handleSuccessfulWrite c₁ result >>= _ = _
    rw [SyncEngine.handleSuccessfulWrite_eq (c := c₁) hack]
    exact hfill
  · rw [← hms]
    refine @Ledger.Step.acknowledge l result rest updateTimes _ _ hb hdate rfl ?_ ?_
    · rw [← h.cache]
      exact hcache
    · rw [← h.fields_eq, ← hagrees.fields_eq]
      have hpop : (l.decide b .ok store'.remoteDocumentCache changes).current = l.current.pop :=
        Function.update_self _ _ _
      rw [hpop]
      exact hchanges

/-- A stream that ends with an error is tried again, and takes the first pending batch with it when
the error is permanent. -/
theorem streamFinish_follows (h : Follows c l) (hl : l.Sound)
    (hgrpc : c.writeStream.grpcStream.isSome = true) {status : Error}
    (htrust : status = .ok → c.writePipeline = []) :
    ∃ c' l', close c status = .ok c' ∧ l.Step (.streamFinish status) l' ∧ Follows c' l' := by
  obtain ⟨hattached, htokens, henabled⟩ := h.steady
  have hstarted : c.writeStream.isStarted = true := by
    generalize c.writeStream = s at hattached hgrpc
    cases hattached with
    | stopped => cases hgrpc
    | _ => rfl
  have hnet := henabled hstarted
  by_cases hstatus : status = .ok
  · -- a graceful end while nothing is pending
    subst hstatus
    have hempty := htrust rfl
    have hstop : Steady c.isNetworkEnabled c.writePipeline c.writeStream.stop := by
      rw [hempty, WriteStream.stop, if_pos hstarted]
      exact htokens.closed (.inl rfl) _
    exact ⟨_, l, close_ok fun _ ↦ hempty, .silent trivial, h.stream hstop⟩
  by_cases hempty : c.writePipeline = []
  · refine ⟨_, l, close_empty hstatus hstarted hempty, .silent trivial, h.stream ?_⟩
    rw [hempty]
    exact htokens.closed (.inr rfl) _
  obtain ⟨permanent, hpermanent⟩ := Datastore.isPermanentWriteError_of_ne_ok hstatus
  have hretried : Follows { c with writeStream := c.writeStream.retried } l := by
    apply h.stream
    rw [hnet]
    exact htokens.retried hempty
  cases hcomplete : c.writeStream.handshakeComplete with
  | false =>
      refine ⟨_, l, close_retried hstatus hstarted hnet hempty (fun hc ↦ ?_), .silent trivial,
        hretried⟩
      rw [hcomplete] at hc
      cases hc
  | true =>
      cases permanent with
      | false =>
          exact ⟨_, l, close_retried hstatus hstarted hnet hempty fun _ ↦ hpermanent,
            .silent trivial, hretried⟩
      | true =>
          have hpipe := h.pipeline
          rw [hnet, if_pos rfl] at hpipe
          cases hb : l.current.batches with
          | nil =>
              rw [hb, List.take_nil] at hpipe
              exact absurd hpipe hempty
          | cons b rest =>
              have hsteady : Steady true c.writePipeline c.writeStream := by
                rw [← hnet]
                exact h.steady
              obtain ⟨changes, store', s, hclose, hqueue, hversion, hcache, hchanges, hs⟩ :=
                close_rejected h.queue (hl.issued l.user) hnet hpipe hsteady hcomplete hstarted
                  hstatus hpermanent hb
              have hagrees := h.toAgrees.decided (b := b) hqueue hversion status changes
              have hpop : (l.decide b status store'.remoteDocumentCache changes).current =
                  l.current.pop := Function.update_self _ _ _
              rw [hcache, h.cache] at hagrees hpop
              refine ⟨_, l.decide b status l.cache changes, hclose, .reject hb hpermanent ?_, ?_⟩
              · rw [← h.fields_eq, ← hagrees.fields_eq, hpop]
                exact hchanges
              · refine ⟨hagrees.network c.isNetworkEnabled _ s, ?_, ?_⟩
                · show rest.take maxPendingWrites = if c.isNetworkEnabled then _ else []
                  rw [hnet, if_pos rfl, hpop]
                  show _ = l.current.batches.tail.take _
                  rw [hb]
                  rfl
                · show Steady c.isNetworkEnabled _ s
                  rw [hnet]
                  exact hs

end RemoteStore

/-! ## Writes, users and documents -/

namespace SyncEngine

theorem writeMutations_follows (h : Follows c l) (hl : l.Sound) {ms : List Mutation}
    (hms : ms ≠ []) (hissued : ∀ m ∈ ms, m.Issued) (callback : ℕ) :
    ∃ c' l', writeMutations c ms callback = .ok c' ∧
      l.Step (.writeMutations ms callback) l' ∧ Follows c' l' := by
  obtain ⟨result, b, store', hpos, hnew, hwrite, hid, rfl, hqueue, hversion, hcache, hchanges⟩ :=
    LocalStore.writeLocally_eq h.queue (hl.issued l.user) hms hissued
  -- no callback is there for the id of a new batch
  have hfresh : result.batchId ∉ c.mutationCallbacks c.currentUser := by
    intro hmem
    rw [h.callbacks, h.user] at hmem
    obtain ⟨b', hb', he⟩ := hl.callbacks l.user _ hmem
    have := hnew b' hb'
    omega
  let c₁ : FirestoreClient Q := emitNewSnapshots { c with
    localStore := store'
    mutationCallbacks := Function.update c.mutationCallbacks c.currentUser
      ((c.mutationCallbacks c.currentUser).insert result.batchId callback) } result.changes
  have hcurrent : (l.write b hpos hnew callback result.changes).current =
      l.current.push b hpos hnew := Function.update_self _ _ _
  have hagrees : Agrees c₁ (l.write b hpos hnew callback result.changes) := by
    constructor
    · exact h.user
    · rw [hcurrent]
      exact hqueue
    · intro user huser
      have huser' : user ≠ l.user := huser
      show LawfulMutationQueue.Represents _ (Function.update l.pending l.user _ user)
      rw [Function.update_of_ne huser']
      exact h.queues user huser'
    · exact hcache.trans h.cache
    · exact hversion.trans h.version
    · show Function.update c.mutationCallbacks c.currentUser _ = _
      rw [h.callbacks, h.user, hid]
      rfl
    · exact h.waiting
    · show c.log ++ _ = _
      rw [h.log]
      rfl
  have hpipe : c₁.writePipeline = if c₁.isNetworkEnabled then
      (l.write b hpos hnew callback result.changes).current.batches.take
        (min maxPendingWrites l.current.batches.length) else [] := by
    show c.writePipeline = if c.isNetworkEnabled then _ else []
    rw [h.pipeline, hcurrent]
    show _ = if _ then (l.current.batches ++ [b]).take _ else _
    rw [List.take_append_of_le_length (Nat.min_le_right _ _), ← List.take_eq_take_min]
  obtain ⟨c', hfill, hf⟩ :=
    RemoteStore.fillWritePipeline_follows hagrees (Nat.min_le_left _ _) hpipe h.steady
  refine ⟨c', _, ?_, .write (fun m hm ↦ hissued m hm) fun hn ↦ ?_, hf⟩
  · unfold writeMutations
    rw [hwrite]
    simp only [bind, Except.bind, if_neg hfresh]
    exact hfill
  · rw [← h.fields_eq, ← hagrees.fields_eq, hcurrent]
    exact hchanges hn

theorem registerPendingWritesCallback_follows (h : Follows c l) (callback : ℕ) :
    Follows (registerPendingWritesCallback c callback) (l.wait callback) := by
  have hhighest : c.localStore.getHighestUnacknowledgedBatchId = l.current.highest :=
    LawfulMutationQueue.highest_eq h.queue
  rw [Pending.highest] at hhighest
  cases hlast : l.current.batches.getLast? with
  | none =>
      rw [hlast, Option.elim_none] at hhighest
      simp only [registerPendingWritesCallback, Ledger.wait, hlast, hhighest, if_true]
      refine ⟨⟨h.user, h.queue, h.queues, h.cache, h.version, h.callbacks, h.waiting, ?_⟩,
        h.pipeline, h.steady⟩
      show c.log ++ _ = l.log ++ _
      rw [h.log]
  | some b =>
      have hpos := l.current.positive b (List.mem_of_getLast? hlast)
      have hknown : b.batchId ≠ batchIdUnknown := by
        show b.batchId ≠ -1
        omega
      rw [hlast, Option.elim_some] at hhighest
      simp only [registerPendingWritesCallback, Ledger.wait, hlast, hhighest, if_neg hknown]
      refine ⟨⟨h.user, h.queue, h.queues, h.cache, h.version, h.callbacks, ?_, h.log⟩,
        h.pipeline, h.steady⟩
      show c.pendingWritesCallbacks.insert _ _ = l.waiting.insert _ _
      rw [h.waiting, hhighest]
      rfl

-- The cache and its version are all that a remote event changes.
theorem receive_follows (h : Follows c l) {store' : LocalStore Q} {version : SnapshotVersion}
    (hqueue : store'.mutationQueue = c.localStore.mutationQueue)
    (hversion : store'.lastRemoteSnapshotVersion = version) (changes : MaybeDocumentMap) :
    Follows (emitNewSnapshots { c with localStore := store' } changes)
      (l.receive store'.remoteDocumentCache version changes) := by
  refine ⟨⟨h.user, ?_, h.queues, rfl, hversion, h.callbacks, h.waiting, ?_⟩, h.pipeline, h.steady⟩
  · show LawfulMutationQueue.Represents store'.mutationQueue _
    rw [hqueue]
    exact h.queue
  · show c.log ++ _ = l.log ++ _
    rw [h.log]

theorem onWatchStreamChange_follows (h : Follows c l) (hl : l.Sound) (event : RemoteEvent) :
    ∃ c' l', RemoteStore.onWatchStreamChange c event = .ok c' ∧
      l.Step (.watchStreamChange event) l' ∧ Follows c' l' := by
  unfold RemoteStore.onWatchStreamChange
  rw [h.version]
  split
  next hcond =>
    obtain ⟨hversion, hpast⟩ := hcond
    obtain ⟨changes, store', happly, hqueue, hversion', hcache, hchanges⟩ :=
      @LocalStore.applyRemoteEvent_eq Q _ c.localStore l.current h.queue (hl.issued l.user) event
        (fun _ _ _ _ ↦ hversion) (fun _ ↦ by rw [h.version]; exact hpast)
    rw [if_pos hversion] at hversion'
    have hf := receive_follows h hqueue hversion' changes
    refine ⟨_, _, ?_, .receive hversion hpast ?_ ?_, hf⟩
    · unfold applyRemoteEvent
      rw [happly]
      rfl
    · intro key
      rw [hcache, h.cache]
    · rw [← h.fields_eq, ← hf.fields_eq]
      exact hchanges
  next hcond =>
    refine ⟨c, l, rfl, .silent ?_, h⟩
    by_cases hnone : event.snapshotVersion = SnapshotVersion.none
    · exact Or.inl hnone
    · exact Or.inr (not_le.mp fun hpast ↦ hcond ⟨hnone, hpast⟩)

theorem handleRejectedListen_follows (h : Follows c l) (hl : l.Sound) (limboKey : DocumentKey) :
    ∃ c' l', handleRejectedListen c limboKey = .ok c' ∧
      l.Step (.rejectedListen limboKey) l' ∧ Follows c' l' := by
  obtain ⟨changes, store', happly, hqueue, hversion, hcache, hchanges⟩ :=
    @LocalStore.applyRemoteEvent_eq Q _ c.localStore l.current h.queue (hl.issued l.user)
      (Ledger.missing limboKey)
      (fun _ doc hdoc hadd ↦ by rw [Ledger.remoteUpdate_missing hdoc] at hadd; cases hadd)
      (fun hne ↦ absurd rfl hne)
  rw [if_neg fun hne ↦ hne rfl, h.version] at hversion
  have hf := receive_follows h hqueue hversion changes
  refine ⟨_, _, ?_, .limbo ?_ ?_, hf⟩
  · unfold handleRejectedListen applyRemoteEvent
    show (c.localStore.applyRemoteEvent (Ledger.missing limboKey) >>= _) = _
    rw [happly]
    rfl
  · intro key
    rw [hcache, h.cache]
  · rw [← h.fields_eq, ← hf.fields_eq]
    exact hchanges

/-- The queues of the two users change places, and the streams are restarted. -/
theorem handleCredentialChange_follows (h : Follows c l) (hl : l.Sound) (user : User) :
    ∃ c' l', handleCredentialChange c user = .ok c' ∧
      l.Step (.credentialChange user) l' ∧ Follows c' l' := by
  unfold handleCredentialChange
  rw [h.user]
  by_cases huser : user = l.user
  · subst huser
    obtain ⟨c', hrestart, hf⟩ :=
      RemoteStore.restartIfEnabled_follows h.toAgrees (RemoteStore.pipeline_disabled h) h.steady
    refine ⟨c', l, ?_, .silent rfl, hf⟩
    rw [if_neg fun hne ↦ hne rfl]
    exact hrestart
  · have hqueue : LawfulMutationQueue.Represents (c.mutationQueues user) (l.pending user) :=
      h.queues user huser
    obtain ⟨changes, store', hchange, hqueue', hversion, hcache, hchanges⟩ :=
      LocalStore.handleUserChange_eq h.queue hqueue (hl.issued user)
    have hoff : c.isNetworkEnabled = false → c.writePipeline = [] :=
      RemoteStore.pipeline_disabled h
    have hagrees : Agrees (emitNewSnapshots { failOutstandingPendingWriteCallbacks { c with
        currentUser := user
        mutationQueues :=
          Function.update c.mutationQueues c.currentUser c.localStore.mutationQueue } with
        localStore := store' } changes) (l.switch user changes) := by
      constructor
      · rfl
      · exact hqueue'
      · intro other hother
        have hother' : other ≠ user := hother
        show LawfulMutationQueue.Represents
          (Function.update c.mutationQueues c.currentUser c.localStore.mutationQueue other)
          (l.pending other)
        by_cases hold : other = l.user
        · rw [hold, h.user, Function.update_self]
          exact h.queue
        · rw [h.user, Function.update_of_ne hold]
          exact h.queues other hold
      · exact hcache.trans h.cache
      · exact hversion.trans h.version
      · exact h.callbacks
      · rfl
      · show c.log ++ (ascending c.pendingWritesCallbacks.keys).flatMap _ ++ _ = _
        rw [h.log, h.waiting]
        rfl
    obtain ⟨c', hrestart, hf⟩ := RemoteStore.restartIfEnabled_follows hagrees hoff h.steady
    refine ⟨c', _, ?_, .switch huser ?_, hf⟩
    · rw [if_pos fun he ↦ huser he.symm]
      unfold handleUserChange
      show ((c.localStore.handleUserChange
        (Function.update c.mutationQueues c.currentUser c.localStore.mutationQueue user) >>= _) >>=
          _) = _
      rw [h.user, Function.update_of_ne huser, hchange]
      rw [h.user] at hrestart
      exact hrestart
    · rw [← h.fields_eq, ← hagrees.fields_eq]
      exact hchanges

end SyncEngine

/-! ## Every event -/

/-- An event that the client is right to trust is handled, as a step of the ledger. -/
theorem handle_follows (h : Follows c l) (hl : l.Sound) {e : ClientEvent} (he : c.Enabled e)
    (ht : c.Trusts e) : ∃ c' l', c.handle e = .ok c' ∧ l.Step e l' ∧ Follows c' l' := by
  have hsilent : l.Silent e → (∃ c', c.handle e = .ok c' ∧ Follows c' l) →
      ∃ c' l', c.handle e = .ok c' ∧ l.Step e l' ∧ Follows c' l' := by
    rintro hs ⟨c', hok, hf⟩
    exact ⟨c', l, hok, .silent hs, hf⟩
  cases e with
  | writeMutations mutations callback =>
      by_cases hms : mutations = []
      · subst hms
        refine ⟨{ c with log := c.log ++ [.emptyWrite callback] }, _, rfl, .empty callback,
          ⟨h.user, h.queue, h.queues, h.cache, h.version, h.callbacks, h.waiting, ?_⟩, h.pipeline,
          h.steady⟩
        show c.log ++ _ = l.log ++ _
        rw [h.log]
      · obtain ⟨c', l', hok, hrest⟩ := SyncEngine.writeMutations_follows h hl hms he callback
        exact ⟨c', l', (if_neg hms).trans hok, hrest⟩
  | waitForPendingWrites callback =>
      exact ⟨_, _, rfl, .wait callback, SyncEngine.registerPendingWritesCallback_follows h callback⟩
  | credentialChange user => exact SyncEngine.handleCredentialChange_follows h hl user
  | enableNetwork => exact hsilent trivial (RemoteStore.enableNetwork_follows h)
  | disableNetwork =>
      exact hsilent trivial ⟨_, RemoteStore.disableNetwork_eq h.toAgrees h.steady⟩
  | networkAvailable =>
      exact hsilent trivial (RemoteStore.restartIfEnabled_follows h.toAgrees
        (RemoteStore.pipeline_disabled h) h.steady)
  | token initialCloseCount status =>
      exact hsilent trivial (RemoteStore.onToken_follows h he status)
  | streamStart => exact hsilent trivial (RemoteStore.onStreamStart_follows h he.1 he.2)
  | streamRead request commitVersion updateTimes =>
      cases request with
      | handshake =>
          exact hsilent trivial
            (RemoteStore.onStreamRead_handshake h he.1 commitVersion updateTimes)
      | mutations ms => exact RemoteStore.onStreamRead_mutations h hl he.1 he.2 ht
  | streamFinish status => exact RemoteStore.streamFinish_follows h hl he ht
  | backoffElapsed =>
      obtain ⟨s, hs, hf⟩ := RemoteStore.backoffElapsed_follows h he
      refine hsilent trivial ⟨_, ?_, hf⟩
      show (c.writeStream.backoffElapsed >>= _) = _
      rw [hs]
      rfl
  | idleTimeout => exact hsilent trivial (RemoteStore.idleTimeout_follows h he)
  | watchStreamChange event => exact SyncEngine.onWatchStreamChange_follows h hl event
  | rejectedListen limboKey => exact SyncEngine.handleRejectedListen_follows h hl limboKey

-- Where the server breaks the trust the client stops.
theorem handle_error (h : Follows c l) {e : ClientEvent} (he : c.Enabled e) (ht : ¬c.Trusts e) :
    ∃ failure, c.handle e = .error failure := by
  cases e with
  | streamRead request commitVersion updateTimes =>
      cases request with
      | handshake => exact absurd trivial ht
      | mutations ms =>
          obtain ⟨b, rest, closeCount, tokenRequests, -, hms, -, hpipe, hs, -⟩ :=
            RemoteStore.first_of_head h he.1
          have hsize : b.mutations.length ≠
              (RemoteStore.decodeMutationResults commitVersion updateTimes).length := by
            rw [RemoteStore.decodeMutationResults, List.length_map, hms]
            exact fun hsize ↦ ht hsize.symm
          refine ⟨.resultsNotMutations, ?_⟩
          show RemoteStore.onStreamRead _ _ _ = _
          rw [hs]
          show RemoteStore.onWriteStreamMutationResult { c with writeStream := _ } _ _ = _
          unfold RemoteStore.onWriteStreamMutationResult
          split
          next hnil =>
            rw [hpipe] at hnil
            cases hnil
          next b' rest' hcons =>
            obtain ⟨rfl, rfl⟩ := List.cons.inj (hcons.symm.trans hpipe)
            exact dif_neg hsize
  | streamFinish status =>
      obtain ⟨hstatus, hne⟩ := Classical.not_imp.mp ht
      subst hstatus
      obtain ⟨hattached, -, henabled⟩ := h.steady
      have hstarted : c.writeStream.isStarted = true := by
        have hgrpc : c.writeStream.grpcStream.isSome = true := he
        generalize c.writeStream = s at hattached hgrpc
        cases hattached with
        | stopped => cases hgrpc
        | _ => rfl
      have hshould : RemoteStore.shouldStartWriteStream
          { c with writeStream := c.writeStream.closed .ok } = true :=
        RemoteStore.shouldStart_iff.mpr ⟨henabled hstarted, RemoteStore.isStarted_closed, hne⟩
      refine ⟨.stoppedWhileNeeded, ?_⟩
      show RemoteStore.close c .ok = _
      unfold RemoteStore.close
      rw [if_neg fun hn ↦ absurd (hstarted.symm.trans hn.2) (by decide)]
      simp [RemoteStore.onWriteStreamClose, hardAssert, hstarted, hshould, bind, Except.bind]
  | _ => exact absurd trivial ht

end LadyBook.Firestore
