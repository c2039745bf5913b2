import LadyBook.Firestore.Client

/-!
# The pipeline and the stream

What each function of `RemoteStore` does to the pipeline and the stream, stated once for each of
them.  Between two events the pipeline is the front of the queue, the stream is in one of six
phases, and an established stream has the requests of the pipeline to answer, in their order.
-/

open Reasoning

namespace LadyBook.Firestore

/-! ## The front of the queue -/

theorem find?_eq_getElem? {α : Type*} {P : α → Bool} {l : List α} {k : ℕ}
    (hbefore : ∀ x ∈ l.take k, P x = false) (hat : ∀ x, l[k]? = some x → P x = true) :
    l.find? P = l[k]? := by
  induction l generalizing k with
  | nil => rfl
  | cons x l ih =>
      cases k with
      | zero => exact List.find?_cons_of_pos (hat x rfl)
      | succ k =>
          rw [List.find?_cons_of_neg (by simp [hbefore x List.mem_cons_self])]
          exact ih (fun y hy ↦ hbefore y (List.mem_cons_of_mem x hy)) hat

namespace Pending

variable {p : Pending} {k : ℕ} {b : MutationBatch}

-- The batch behind an id that lies between two neighbours.
theorem after_eq_getElem? {id : ℤ} (hbefore : ∀ b ∈ p.batches.take k, b.batchId ≤ id)
    (hat : ∀ b, p.batches[k]? = some b → id < b.batchId) : p.after id = p.batches[k]? := by
  apply find?_eq_getElem?
  · intro b hb
    exact decide_eq_false (not_lt.mpr (hbefore b hb))
  · intro b hb
    exact decide_eq_true (hat b hb)

theorem after_batchId (h : p.batches[k]? = some b) : p.after b.batchId = p.batches[k + 1]? := by
  have hlt := (List.getElem?_eq_some_iff.mp h).1
  have hb := (List.getElem?_eq_some_iff.mp h).2
  apply after_eq_getElem?
  · intro b' hb'
    obtain ⟨i, hi, rfl⟩ := List.mem_take_iff_getElem.mp hb'
    rcases Nat.lt_or_ge i k with hik | hik
    · have := List.pairwise_iff_getElem.mp p.increasing i k (by omega) hlt hik
      rw [hb] at this
      exact this.le
    · rw [← hb]
      have : i = k := by omega
      subst this
      exact le_rfl
  · intro b' hb'
    obtain ⟨hlt', rfl⟩ := List.getElem?_eq_some_iff.mp hb'
    rw [← hb]
    exact List.pairwise_iff_getElem.mp p.increasing k (k + 1) hlt hlt' (by omega)

theorem after_batchIdUnknown : p.after batchIdUnknown = p.batches[0]? := by
  apply after_eq_getElem?
  · intro b hb
    cases hb
  · intro b hb
    have := p.positive b (List.mem_of_getElem? hb)
    show (-1 : ℤ) < b.batchId
    omega

-- The batch that follows the last one of a part of the queue.
theorem after_getLast? (hk : k ≤ p.batches.length) :
    p.after ((p.batches.take k).getLast?.elim batchIdUnknown MutationBatch.batchId) =
      p.batches[k]? := by
  cases k with
  | zero => exact after_batchIdUnknown
  | succ k =>
      have hlt : k < p.batches.length := by omega
      have hlast : (p.batches.take (k + 1)).getLast? = some p.batches[k] := by
        rw [List.getLast?_eq_getElem?, List.length_take, Nat.min_eq_left hk,
          List.getElem?_take_of_lt (by omega)]
        exact List.getElem?_eq_getElem hlt
      rw [hlast]
      exact after_batchId (List.getElem?_eq_getElem hlt)

end Pending

/-! ## What is written to the stream -/

namespace WriteStream

variable (s : WriteStream)

def Established : Prop := s.isOpen = true ∧ s.handshakeComplete = true

instance : Decidable s.Established := inferInstanceAs (Decidable (_ ∧ _))

-- The requests of some batches on the wire.
def feed (batches : List MutationBatch) : WriteStream :=
  if s.Established then
    { s with
      idlenessTimer := s.idlenessTimer && batches.isEmpty
      grpcStream := s.grpcStream.map (· ++ batches.map fun b ↦ .mutations b.mutations) }
  else
    s

variable {s}

theorem feed_nil : s.feed [] = s := by
  unfold feed
  split
  · cases s with
    | mk state handshakeComplete idlenessTimer backoffTimer closeCount tokenRequests grpcStream =>
        cases grpcStream <;> simp
  · rfl

theorem established_feed {batches : List MutationBatch} :
    (s.feed batches).Established ↔ s.Established := by
  unfold feed
  split
  · rfl
  · rfl

theorem feed_append (batches batches' : List MutationBatch) :
    (s.feed batches).feed batches' = s.feed (batches ++ batches') := by
  by_cases h : s.Established
  · have h' : (s.feed batches).Established := established_feed.mpr h
    rw [feed, if_pos h', feed, feed, if_pos h, if_pos h]
    have hempty : (batches ++ batches').isEmpty = (batches.isEmpty && batches'.isEmpty) := by
      cases batches <;> rfl
    rw [hempty]
    cases s.grpcStream with
    | none => simp [Bool.and_assoc]
    | some requests => simp [Bool.and_assoc]
  · rw [feed, if_neg (established_feed.not.mpr h), feed, if_neg h, feed, if_neg h]

theorem writeMutations_eq (h : s.Established) (b : MutationBatch) :
    s.writeMutations b.mutations = .ok (s.feed [b]) := by
  obtain ⟨hopen, hcomplete⟩ := h
  rw [feed, if_pos ⟨hopen, hcomplete⟩]
  simp [writeMutations, write, hardAssert, hopen, hcomplete, bind, Except.bind, pure, Except.pure]

theorem foldlM_writeMutations (h : s.Established) (batches : List MutationBatch) :
    batches.foldlM (fun (s : WriteStream) batch ↦ s.writeMutations batch.mutations) s =
      .ok (s.feed batches) := by
  induction batches generalizing s with
  | nil => exact congrArg Except.ok feed_nil.symm
  | cons b batches ih =>
      rw [List.foldlM_cons, writeMutations_eq h]
      show List.foldlM _ (s.feed [b]) batches = _
      rw [ih (established_feed.mpr h), feed_append]
      rfl

theorem isOpen_feed (batches : List MutationBatch) : (s.feed batches).isOpen = s.isOpen := by
  unfold feed
  split <;> rfl

theorem isStarted_feed (batches : List MutationBatch) :
    (s.feed batches).isStarted = s.isStarted := by
  unfold feed
  split <;> rfl

theorem isStarted_markIdle : s.markIdle.isStarted = s.isStarted := by
  unfold markIdle
  split <;> rfl

theorem start_of_initial (h : s.state = .initial) :
    s.start = .ok { s with state := .starting }.requestCredentials := by
  simp [start, hardAssert, h, bind, Except.bind, pure, Except.pure]

theorem start_of_error (h : s.state = .error) :
    s.start = .ok { s with state := .backoff, backoffTimer := true } := by
  simp [start, backoffAndTryRestarting, hardAssert, h, bind, Except.bind, pure, Except.pure]

end WriteStream

/-! ## Filling the pipeline -/

namespace RemoteStore

variable {Q : Type}

-- The stream once the pipeline is the front of the queue, of which `k` batches were there before.
def filled (s : WriteStream) (p : Pending) (k : ℕ) : WriteStream :=
  if p.batches = [] then s.markIdle else s.feed ((p.batches.take maxPendingWrites).drop k)

variable [LawfulMutationQueue Q] {c : FirestoreClient Q} {p : Pending}

omit [LawfulMutationQueue Q] in
theorem addToWritePipeline_eq [MutationQueue Q] {c : FirestoreClient Q}
    (h : canAddToWritePipeline c = true) (b : MutationBatch) :
    addToWritePipeline c b = .ok { c with
      writePipeline := c.writePipeline ++ [b]
      writeStream := c.writeStream.feed [b] } := by
  unfold addToWritePipeline
  simp only [hardAssert, h, if_true, bind, Except.bind, pure, Except.pure, Bool.and_eq_true]
  split
  next hs => rw [WriteStream.writeMutations_eq hs]
  next hs => rw [WriteStream.feed, if_neg (show ¬c.writeStream.Established from hs)]

theorem fillFrom_eq (h : LawfulMutationQueue.Represents c.localStore.mutationQueue p)
    (hnet : c.isNetworkEnabled = true) {k : ℕ} (hk : k ≤ p.batches.length)
    (hpipe : c.writePipeline = p.batches.take k) {last : ℤ} (hlast : p.after last = p.batches[k]?)
    {n : ℕ} (hk' : k ≤ maxPendingWrites) (hn : maxPendingWrites ≤ n + k) :
    fillFrom c last n = .ok { c with
      writePipeline := p.batches.take maxPendingWrites
      writeStream := filled c.writeStream p k } := by
  induction n generalizing c k last with
  | zero =>
      have hk₀ : k = maxPendingWrites := by omega
      subst hk₀
      have hne : p.batches ≠ [] := by
        intro hnil
        rw [hnil] at hk
        exact absurd hk (by decide)
      rw [filled, if_neg hne, List.drop_take_self, WriteStream.feed_nil, ← hpipe]
      rfl
  | succ n ih =>
      have hlen : c.writePipeline.length = k := by
        rw [hpipe, List.length_take, Nat.min_eq_left hk]
      have hcan : canAddToWritePipeline c = decide (k < maxPendingWrites) := by
        rw [canAddToWritePipeline, canUseNetwork, hnet, hlen, Bool.true_and]
      rw [fillFrom, hcan]
      by_cases hlt : k < maxPendingWrites
      · rw [if_pos (decide_eq_true hlt), LocalStore.getNextMutationBatch,
          LawfulMutationQueue.after_eq last h, hlast]
        cases hb : p.batches[k]? with
        | none =>
            -- the queue has ended before the pipeline is full
            have hk₁ : k = p.batches.length := by
              have := List.getElem?_eq_none_iff.mp hb
              omega
            have htake : p.batches.take maxPendingWrites = p.batches :=
              List.take_of_length_le (by omega)
            have hpipe' : c.writePipeline = p.batches := by
              rw [hpipe, hk₁, List.take_length]
            rw [filled, htake, ← hpipe', hlen.symm, List.drop_length, WriteStream.feed_nil]
            show (if c.writePipeline.isEmpty then _ else _) = _
            by_cases hc : c.writePipeline = []
            · rw [if_pos (List.isEmpty_iff.mpr hc), if_pos hc]
              rfl
            · rw [if_neg (List.isEmpty_iff.not.mpr hc), if_neg hc]
              rfl
        | some b =>
            have hcan' : canAddToWritePipeline c = true := by rw [hcan, decide_eq_true hlt]
            have hklt := (List.getElem?_eq_some_iff.mp hb).1
            have hgetb := (List.getElem?_eq_some_iff.mp hb).2
            have htake : p.batches.take k ++ [b] = p.batches.take (k + 1) := by
              rw [← hgetb]
              exact List.take_append_getElem hklt
            have hne : p.batches ≠ [] := List.ne_nil_of_length_pos (by omega)
            have hdrop : (p.batches.take maxPendingWrites).drop k =
                b :: (p.batches.take maxPendingWrites).drop (k + 1) := by
              have hlt' : k < (p.batches.take maxPendingWrites).length := by
                rw [List.length_take]
                omega
              rw [List.drop_eq_getElem_cons hlt', List.getElem_take, hgetb]
            show (addToWritePipeline c b >>= fun c ↦ fillFrom c b.batchId n) = _
            rw [addToWritePipeline_eq hcan']
            show fillFrom _ b.batchId n = _
            have hrec := ih (c := { c with
                writePipeline := c.writePipeline ++ [b]
                writeStream := c.writeStream.feed [b] }) h hnet (k := k + 1) (by omega)
              (by rw [hpipe, htake]) (Pending.after_batchId hb) (by omega) (by omega)
            rw [hrec, filled, filled, if_neg hne, if_neg hne, WriteStream.feed_append, hdrop]
            rfl
      · rw [if_neg (by rw [decide_eq_false hlt]; exact Bool.false_ne_true)]
        have hk₀ : k = maxPendingWrites := by omega
        subst hk₀
        have hne : p.batches ≠ [] := by
          intro hnil
          rw [hnil] at hk
          exact absurd hk (by decide)
        rw [filled, if_neg hne, List.drop_take_self, WriteStream.feed_nil, ← hpipe]

/-- `FillWritePipeline` puts the front of the queue into the pipeline and on the wire, and starts
the stream when it does not run. -/
theorem fillWritePipeline_eq (h : LawfulMutationQueue.Represents c.localStore.mutationQueue p)
    (hnet : c.isNetworkEnabled = true) {k : ℕ} (hk : k ≤ p.batches.length)
    (hpipe : c.writePipeline = p.batches.take k) (hk' : k ≤ maxPendingWrites) :
    fillWritePipeline c =
      if p.batches ≠ [] ∧ c.writeStream.isStarted = false then
        (filled c.writeStream p k).start.map fun s ↦
          { c with writePipeline := p.batches.take maxPendingWrites, writeStream := s }
      else
        .ok { c with
          writePipeline := p.batches.take maxPendingWrites
          writeStream := filled c.writeStream p k } := by
  have hlast : p.after (c.writePipeline.getLast?.elim batchIdUnknown MutationBatch.batchId) =
      p.batches[k]? := by
    rw [hpipe]
    exact Pending.after_getLast? hk
  have hstarted : (filled c.writeStream p k).isStarted = c.writeStream.isStarted := by
    unfold filled
    split
    · exact WriteStream.isStarted_markIdle
    · exact WriteStream.isStarted_feed _
  simp only [fillWritePipeline]
  rw [fillFrom_eq h hnet hk hpipe hlast hk' (Nat.le_add_right _ k)]
  let c' : FirestoreClient Q := { c with
    writePipeline := p.batches.take maxPendingWrites
    writeStream := filled c.writeStream p k }
  have hshould : shouldStartWriteStream c' = true ↔
      p.batches ≠ [] ∧ c.writeStream.isStarted = false := by
    have hempty : (p.batches.take maxPendingWrites).isEmpty = p.batches.isEmpty := by
      cases p.batches <;> rfl
    show (c.isNetworkEnabled && !(filled c.writeStream p k).isStarted &&
      !(p.batches.take maxPendingWrites).isEmpty) = true ↔ _
    rw [hnet, hstarted, hempty]
    cases hb : p.batches <;> cases c.writeStream.isStarted <;> simp
  show (if shouldStartWriteStream c' then startWriteStream c' else Except.ok c') = _
  split
  next hs =>
    rw [if_pos (hshould.mp hs)]
    unfold startWriteStream
    simp only [hardAssert, hs, if_true, bind, Except.bind, pure, Except.pure, c']
    cases (filled c.writeStream p k).start <;> rfl
  next hs => rw [if_neg fun hn ↦ hs (hshould.mpr hn)]

end RemoteStore

/-! ## Phases of the stream -/

namespace WriteStream

/-- The phases of a stream between two events, for what is in the pipeline. -/
inductive Attached (pipeline : List MutationBatch) : WriteStream → Prop where
  | stopped {state : StreamState} {closeCount : ℕ} {tokenRequests : List ℕ}
      (hstate : state = .initial ∨ state = .error) (hempty : pipeline = [])
      (htoken : closeCount ∉ tokenRequests) :
      Attached pipeline ⟨state, false, false, false, closeCount, tokenRequests, none⟩
  | backoff {closeCount : ℕ} {tokenRequests : List ℕ} (hne : pipeline ≠ [])
      (htoken : closeCount ∉ tokenRequests) :
      Attached pipeline ⟨.backoff, false, false, true, closeCount, tokenRequests, none⟩
  | credentials {closeCount : ℕ} {tokenRequests : List ℕ} (hne : pipeline ≠ [])
      (htoken : closeCount ∈ tokenRequests) :
      Attached pipeline ⟨.starting, false, false, false, closeCount, tokenRequests, none⟩
  | connecting {closeCount : ℕ} {tokenRequests : List ℕ} (hne : pipeline ≠ [])
      (htoken : closeCount ∉ tokenRequests) :
      Attached pipeline ⟨.starting, false, false, false, closeCount, tokenRequests, some []⟩
  | handshaking {closeCount : ℕ} {tokenRequests : List ℕ} (hne : pipeline ≠ [])
      (htoken : closeCount ∉ tokenRequests) :
      Attached pipeline
        ⟨.open, false, false, false, closeCount, tokenRequests, some [.handshake]⟩
  | ready {idle : Bool} {closeCount : ℕ} {tokenRequests : List ℕ}
      (hidle : idle = true → pipeline = []) (htoken : closeCount ∉ tokenRequests) :
      Attached pipeline ⟨.open, true, idle, false, closeCount, tokenRequests,
        some (pipeline.map fun b ↦ .mutations b.mutations)⟩

/-- The tokens that are still to come were asked for once each, and none of them by a stream that
has not been started yet. -/
structure Tokens (closeCount : ℕ) (tokenRequests : List ℕ) : Prop where
  nodup : tokenRequests.Nodup
  past : ∀ n ∈ tokenRequests, n ≤ closeCount

/-- A stream between two events. -/
structure Steady (enabled : Bool) (pipeline : List MutationBatch) (s : WriteStream) : Prop where
  attached : Attached pipeline s
  tokens : Tokens s.closeCount s.tokenRequests
  enabled : s.isStarted = true → enabled = true

-- The stream that waits before it is tried again, and the stream that was stopped.
def retried (s : WriteStream) : WriteStream :=
  ⟨.backoff, false, false, true, s.closeCount + 1, s.tokenRequests, none⟩

def stop (s : WriteStream) : WriteStream :=
  if s.isStarted then
    ⟨.initial, false, false, false, s.closeCount + 1, s.tokenRequests, none⟩
  else
    s

variable {enabled : Bool} {pipeline : List MutationBatch} {s : WriteStream}

theorem steady_new : Steady false [] new :=
  ⟨.stopped (.inl rfl) rfl List.not_mem_nil,
    ⟨List.nodup_nil, fun _ h ↦ absurd h List.not_mem_nil⟩, fun h ↦ by cases h⟩

namespace Tokens

variable {closeCount : ℕ} {tokenRequests : List ℕ} (h : Tokens closeCount tokenRequests)
include h

theorem fresh : closeCount + 1 ∉ tokenRequests := by
  intro hmem
  have := h.past _ hmem
  omega

theorem next : Tokens (closeCount + 1) tokenRequests :=
  ⟨h.nodup, fun n hn ↦ (h.past n hn).trans (Nat.le_succ _)⟩

theorem request (hfresh : closeCount ∉ tokenRequests) :
    Tokens closeCount (closeCount :: tokenRequests) := by
  refine ⟨List.nodup_cons.mpr ⟨hfresh, h.nodup⟩, fun n hn ↦ ?_⟩
  rcases List.mem_cons.mp hn with rfl | hn
  · exact le_rfl
  · exact h.past n hn

theorem erase (n : ℕ) : Tokens closeCount (tokenRequests.erase n) :=
  ⟨h.nodup.erase n, fun m hm ↦ h.past m (List.mem_of_mem_erase hm)⟩

-- A stream that is closed and tried again, asks for a new token or stays closed.
theorem retried (hne : pipeline ≠ []) : Steady true pipeline
    ⟨.backoff, false, false, true, closeCount + 1, tokenRequests, none⟩ :=
  ⟨.backoff hne h.fresh, h.next, fun _ ↦ rfl⟩

theorem restarted (hne : pipeline ≠ []) : Steady true pipeline ⟨.starting, false, false, false,
    closeCount + 1, (closeCount + 1) :: tokenRequests, none⟩ :=
  ⟨.credentials hne List.mem_cons_self, h.next.request h.fresh, fun _ ↦ rfl⟩

theorem closed {state : StreamState} (hstate : state = .initial ∨ state = .error)
    (enabled : Bool) :
    Steady enabled [] ⟨state, false, false, false, closeCount + 1, tokenRequests, none⟩ := by
  refine ⟨.stopped hstate rfl h.fresh, h.next, fun hs ↦ ?_⟩
  rcases hstate with rfl | rfl <;> cases hs

end Tokens

theorem Steady.stop (h : Steady enabled pipeline s) : Steady false [] s.stop := by
  unfold WriteStream.stop
  split
  next => exact h.tokens.closed (.inl rfl) false
  next hs =>
    obtain ⟨hattached, htokens, -⟩ := h
    cases hattached with
    | stopped hstate hempty htoken =>
        exact ⟨.stopped hstate rfl htoken, htokens, fun h ↦ absurd h hs⟩
    | backoff => exact absurd rfl hs
    | credentials => exact absurd rfl hs
    | connecting => exact absurd rfl hs
    | handshaking => exact absurd rfl hs
    | ready => exact absurd rfl hs

theorem stop_stopped : s.stop.isStarted = false := by
  unfold WriteStream.stop
  split
  next => rfl
  next hs => exact Bool.eq_false_iff.mpr hs

end WriteStream

namespace RemoteStore

open WriteStream

variable {Q : Type} [LawfulMutationQueue Q] {c : FirestoreClient Q} {p : Pending}

/-- The pipeline is filled and the stream stays in one of its phases. -/
theorem fill_steady (h : LawfulMutationQueue.Represents c.localStore.mutationQueue p)
    (hnet : c.isNetworkEnabled = true) {k : ℕ} (hk : k ≤ p.batches.length)
    (hpipe : c.writePipeline = p.batches.take k) (hk' : k ≤ maxPendingWrites)
    (hs : Steady true (p.batches.take k) c.writeStream) :
    ∃ s, fillWritePipeline c = .ok { c with
        writePipeline := p.batches.take maxPendingWrites
        writeStream := s } ∧
      Steady true (p.batches.take maxPendingWrites) s := by
  have hne : ∀ n, p.batches.take n ≠ [] → p.batches ≠ [] := by
    intro n hn hnil
    rw [hnil, List.take_nil] at hn
    exact hn rfl
  have hne' : p.batches ≠ [] → p.batches.take maxPendingWrites ≠ [] := by
    cases p.batches with
    | nil => exact id
    | cons b rest => exact fun _ hnil ↦ by cases hnil
  rw [fillWritePipeline_eq h hnet hk hpipe hk']
  obtain ⟨hattached, htokens, henabled⟩ := hs
  generalize c.writeStream = s at hattached htokens henabled ⊢
  -- a started stream that is not established is left alone
  have hkeep : ∀ s : WriteStream, p.batches ≠ [] → ¬s.Established → filled s p k = s :=
    fun s hn hs ↦ by rw [filled, if_neg hn, feed, if_neg hs]
  cases hattached with
  | stopped hstate hempty htoken =>
      by_cases hp : p.batches = []
      · rcases hstate with rfl | rfl <;>
          exact ⟨_, by rw [if_neg fun hn ↦ hn.1 hp, filled, if_pos hp]; rfl,
            .stopped (by simp) (by rw [hp]; rfl) htoken, htokens, henabled⟩
      · rcases hstate with rfl | rfl
        · refine ⟨_, by
              rw [if_pos ⟨hp, rfl⟩, hkeep _ hp (fun hn ↦ by cases hn.1), start_of_initial rfl]; rfl,
            .credentials (hne' hp) List.mem_cons_self, htokens.request htoken, fun _ ↦ rfl⟩
        · exact ⟨_, by
              rw [if_pos ⟨hp, rfl⟩, hkeep _ hp (fun hn ↦ by cases hn.1), start_of_error rfl]; rfl,
            .backoff (hne' hp) htoken, htokens, fun _ ↦ rfl⟩
  | backoff hpipe htoken =>
      have hp := hne k hpipe
      exact ⟨_, by rw [if_neg (fun hn ↦ by cases hn.2), hkeep _ hp (fun hn ↦ by cases hn.1)],
        .backoff (hne' hp) htoken, htokens, henabled⟩
  | credentials hpipe htoken =>
      have hp := hne k hpipe
      exact ⟨_, by rw [if_neg (fun hn ↦ by cases hn.2), hkeep _ hp (fun hn ↦ by cases hn.1)],
        .credentials (hne' hp) htoken, htokens, henabled⟩
  | connecting hpipe htoken =>
      have hp := hne k hpipe
      exact ⟨_, by rw [if_neg (fun hn ↦ by cases hn.2), hkeep _ hp (fun hn ↦ by cases hn.1)],
        .connecting (hne' hp) htoken, htokens, henabled⟩
  | handshaking hpipe htoken =>
      have hp := hne k hpipe
      exact ⟨_, by rw [if_neg (fun hn ↦ by cases hn.2), hkeep _ hp (fun hn ↦ by cases hn.2)],
        .handshaking (hne' hp) htoken, htokens, henabled⟩
  | @ready idle closeCount tokenRequests hidle htoken =>
      rw [if_neg (fun hn ↦ by cases hn.2)]
      by_cases hp : p.batches = []
      · have hmark : filled ⟨.open, true, idle, false, closeCount, tokenRequests,
            some ((p.batches.take k).map fun b ↦ .mutations b.mutations)⟩ p k =
            ⟨.open, true, true, false, closeCount, tokenRequests,
              some ((p.batches.take maxPendingWrites).map fun b ↦ .mutations b.mutations)⟩ := by
          rw [filled, if_pos hp, hp, List.take_nil, List.take_nil]
          cases idle <;> rfl
        exact ⟨_, by rw [hmark], .ready (fun _ ↦ by rw [hp, List.take_nil]) htoken, htokens,
          fun _ ↦ rfl⟩
      · have hsplit : p.batches.take k ++ (p.batches.take maxPendingWrites).drop k =
            p.batches.take maxPendingWrites := by
          conv_rhs => rw [← List.take_append_drop k (p.batches.take maxPendingWrites)]
          rw [List.take_take, Nat.min_eq_left hk']
        have hfeed : filled ⟨.open, true, idle, false, closeCount, tokenRequests,
            some ((p.batches.take k).map fun b ↦ .mutations b.mutations)⟩ p k =
            ⟨.open, true, idle && ((p.batches.take maxPendingWrites).drop k).isEmpty, false,
              closeCount, tokenRequests,
              some ((p.batches.take maxPendingWrites).map fun b ↦ .mutations b.mutations)⟩ := by
          rw [filled, if_neg hp, feed, if_pos ⟨rfl, rfl⟩]
          simp only [Option.map_some, ← List.map_append, hsplit]
        refine ⟨_, by rw [hfeed], .ready (fun hand ↦ ?_) htoken, htokens, fun _ ↦ rfl⟩
        obtain ⟨hi, he⟩ := Bool.and_eq_true_iff.mp hand
        rw [← hsplit, hidle hi, List.isEmpty_iff.mp he, List.append_nil]

end RemoteStore

/-! ## A batch is decided -/

namespace SyncEngine

variable {Q : Type} [MutationQueue Q] (c : FirestoreClient Q)

-- What the app is told of a decision.
def decided (batchId : ℤ) (status : Error) (changes : MaybeDocumentMap) : FirestoreClient Q :=
  emitNewSnapshots (triggerPendingWriteCallbacks (notifyUser c batchId status) batchId) changes

variable {c} {changes : MaybeDocumentMap} {store' : LocalStore Q}

theorem handleRejectedWrite_eq {batchId : ℤ}
    (h : c.localStore.rejectBatch batchId = .ok (changes, store')) (error : Error) :
    handleRejectedWrite c batchId error =
      .ok (decided { c with localStore := store' } batchId error changes) := by
  unfold handleRejectedWrite
  rw [h]
  rfl

theorem handleSuccessfulWrite_eq {result : MutationBatchResult}
    (h : c.localStore.acknowledgeBatch result = .ok (changes, store')) :
    handleSuccessfulWrite c result =
      .ok (decided { c with localStore := store' } result.batch.batchId .ok changes) := by
  unfold handleSuccessfulWrite
  show (c.localStore.acknowledgeBatch result >>= _) = _
  rw [h]
  rfl

end SyncEngine

/-! ## The stream closes -/

theorem Datastore.isPermanentWriteError_of_ne_ok {error : Error} (h : error ≠ .ok) :
    ∃ b, Datastore.isPermanentWriteError error = .ok b := by
  cases error <;> first | exact absurd rfl h | exact ⟨_, rfl⟩

theorem Datastore.isPermanentError_of_ne_ok {error : Error} (h : error ≠ .ok) :
    ∃ b, Datastore.isPermanentError error = .ok b := by
  cases error <;> first | exact absurd rfl h | exact ⟨_, rfl⟩

namespace RemoteStore

open WriteStream

variable {Q : Type} {c : FirestoreClient Q} {p : Pending} {status : Error}

theorem shouldStart_iff : shouldStartWriteStream c = true ↔
    c.isNetworkEnabled = true ∧ c.writeStream.isStarted = false ∧ c.writePipeline ≠ [] := by
  simp [shouldStartWriteStream, canUseNetwork, and_assoc]

theorem state_closed_of_error (hstatus : status ≠ .ok) :
    (c.writeStream.closed status).state = .error := by
  simp [WriteStream.closed, hstatus]

theorem isStarted_closed : (c.writeStream.closed status).isStarted = false := by
  unfold WriteStream.closed WriteStream.isStarted WriteStream.isOpen
  by_cases h : status = .ok <;> simp [h]

variable [LawfulMutationQueue Q]

-- `Close` forgets the handshake.
def forgetHandshake (c : FirestoreClient Q) : FirestoreClient Q :=
  { c with writeStream := { c.writeStream with handshakeComplete := false } }

theorem close_of_error (hstatus : status ≠ .ok) (hs : c.writeStream.isStarted = true) :
    close c status =
      (handleStreamError { c with writeStream := c.writeStream.closed status } status >>= fun c ↦
        if shouldStartWriteStream c then startWriteStream c else .ok c).map forgetHandshake := by
  unfold close onWriteStreamClose
  rw [if_neg fun h ↦ hstatus h.1]
  simp only [hardAssert, hs, if_true, ne_eq, hstatus, not_false_eq_true, decide_true, Bool.true_or,
    bind, Except.bind, pure, Except.pure]
  cases handleStreamError { c with writeStream := c.writeStream.closed status } status with
  | error failure => rfl
  | ok c' =>
      dsimp only
      by_cases hshould : shouldStartWriteStream c' = true
      · rw [if_pos hshould]
        cases startWriteStream c' <;> rfl
      · rw [if_neg hshould]
        rfl

-- An error that may go away, or that came before a write was sent: the stream is tried again.
theorem close_retried (hstatus : status ≠ .ok) (hs : c.writeStream.isStarted = true)
    (hnet : c.isNetworkEnabled = true) (hne : c.writePipeline ≠ [])
    (hretry : c.writeStream.handshakeComplete = true →
      Datastore.isPermanentWriteError status = .ok false) :
    close c status = .ok { c with writeStream := c.writeStream.retried } := by
  have herror : handleStreamError { c with writeStream := c.writeStream.closed status } status =
      .ok { c with writeStream := c.writeStream.closed status } := by
    unfold handleStreamError
    rw [if_pos ⟨hstatus, hne⟩]
    split
    next hcomplete =>
      unfold handleWriteError
      rw [hretry hcomplete]
      rfl
    next =>
      obtain ⟨b, hb⟩ := Datastore.isPermanentError_of_ne_ok hstatus
      unfold handleHandshakeError
      rw [hb]
      rfl
  have hshould : shouldStartWriteStream { c with writeStream := c.writeStream.closed status } =
      true := shouldStart_iff.mpr ⟨hnet, isStarted_closed, hne⟩
  rw [close_of_error hstatus hs, herror]
  show Except.map _ (if _ then startWriteStream _ else _) = _
  rw [if_pos hshould]
  unfold startWriteStream
  simp only [hardAssert, hshould, if_true, bind, Except.bind, pure, Except.pure,
    start_of_error (state_closed_of_error hstatus)]
  rfl

-- An error while nothing is pending: the stream stays closed.
theorem close_empty (hstatus : status ≠ .ok) (hs : c.writeStream.isStarted = true)
    (hempty : c.writePipeline = []) :
    close c status = .ok { c with writeStream := ⟨.error, false, false, false,
      c.writeStream.closeCount + 1, c.writeStream.tokenRequests, none⟩ } := by
  have hshould : shouldStartWriteStream { c with writeStream := c.writeStream.closed status } =
      false := by
    apply Bool.eq_false_iff.mpr
    exact fun h ↦ (shouldStart_iff.mp h).2.2 hempty
  have herror : handleStreamError { c with writeStream := c.writeStream.closed status } status =
      .ok { c with writeStream := c.writeStream.closed status } := by
    unfold handleStreamError
    exact if_neg fun h ↦ h.2 hempty
  rw [close_of_error hstatus hs, herror]
  show Except.map _ (if _ then startWriteStream _ else _) = _
  rw [hshould, if_neg Bool.false_ne_true]
  simp [Except.map, forgetHandshake, WriteStream.closed, hstatus]

-- A graceful stop, when the stream is not needed any more.
theorem close_ok (hneeded : c.isNetworkEnabled = true → c.writePipeline = []) :
    close c .ok = .ok { c with writeStream := c.writeStream.stop } := by
  unfold close WriteStream.stop
  by_cases hs : c.writeStream.isStarted = true
  · have hshould : ∀ c' : FirestoreClient Q, c'.isNetworkEnabled = c.isNetworkEnabled →
        c'.writePipeline = c.writePipeline → shouldStartWriteStream c' = false := by
      intro c' hnet hpipe
      apply Bool.eq_false_iff.mpr
      intro h
      obtain ⟨hnet', -, hne⟩ := shouldStart_iff.mp h
      exact hne (hpipe.trans (hneeded (hnet ▸ hnet')))
    rw [if_neg fun h ↦ absurd (hs.symm.trans h.2) (by decide), if_pos hs]
    simp [onWriteStreamClose, handleStreamError, hardAssert, hs, hshould, bind, Except.bind, pure,
      Except.pure, WriteStream.closed]
  · rw [if_pos ⟨rfl, Bool.eq_false_iff.mpr hs⟩, if_neg hs]

/-- A permanent error takes the first batch of the pipeline with it. -/
theorem close_rejected (h : LawfulMutationQueue.Represents c.localStore.mutationQueue p)
    (hi : p.Issued) (hnet : c.isNetworkEnabled = true)
    (hpipe : c.writePipeline = p.batches.take maxPendingWrites)
    (hsteady : Steady true c.writePipeline c.writeStream)
    (hs : c.writeStream.handshakeComplete = true) (hstarted : c.writeStream.isStarted = true)
    (hstatus : status ≠ .ok) (hpermanent : Datastore.isPermanentWriteError status = .ok true)
    {b : MutationBatch} {rest : List MutationBatch} (hb : p.batches = b :: rest) :
    ∃ changes store' s,
      close c status = .ok { SyncEngine.decided { c with localStore := store' } b.batchId status
          changes with
        writePipeline := rest.take maxPendingWrites
        writeStream := s } ∧
      LawfulMutationQueue.Represents store'.mutationQueue p.pop ∧
      store'.lastRemoteSnapshotVersion = c.localStore.lastRemoteSnapshotVersion ∧
      store'.remoteDocumentCache = c.localStore.remoteDocumentCache ∧
      LocalStore.Changes changes (c.localStore.fields p) (store'.fields p.pop) ∧
      Steady true (rest.take maxPendingWrites) s := by
  obtain ⟨changes, store', hreject, hq', hversion, hcache, hchanges⟩ :=
    LocalStore.rejectBatch_eq h hi hb
  have hpop : p.pop.batches = rest := by
    show p.batches.tail = rest
    rw [hb]
    rfl
  have hcons : c.writePipeline = b :: rest.take 9 := by
    rw [hpipe, hb]
    rfl
  -- the client when the pipeline is filled again
  let s₁ : WriteStream := { c.writeStream.closed status with state := .initial }
  let c₁ : FirestoreClient Q := { SyncEngine.decided { c with localStore := store' } b.batchId status
      changes with
    writePipeline := rest.take 9
    writeStream := s₁ }
  have hs₁ : s₁.isStarted = false := rfl
  have hk : (rest.take 9).length ≤ p.pop.batches.length := by
    rw [hpop, List.length_take]
    exact Nat.min_le_right 9 _
  have hk' : (rest.take 9).length ≤ maxPendingWrites := by
    rw [List.length_take]
    exact (Nat.min_le_left 9 _).trans (by decide)
  have hpipe₁ : c₁.writePipeline = p.pop.batches.take (rest.take 9).length := by
    show rest.take 9 = _
    rw [hpop, List.length_take, ← List.take_eq_take_min]
  have hfill := fillWritePipeline_eq (c := c₁) hq' hnet hk hpipe₁ hk'
  have hfilled : filled c₁.writeStream p.pop (rest.take 9).length = s₁ := by
    unfold filled
    split
    next => exact if_neg (by simp [c₁, s₁, WriteStream.isOpen])
    next => exact if_neg (fun hn ↦ by cases hn.1)
  rw [hfilled, hpop] at hfill
  have herror : handleStreamError { c with writeStream := c.writeStream.closed status } status =
      fillWritePipeline c₁ := by
    unfold handleStreamError
    rw [if_pos ⟨hstatus, by rw [hcons]; exact List.cons_ne_nil _ _⟩]
    show (if c.writeStream.handshakeComplete = true then _ else _) = _
    rw [if_pos hs]
    unfold handleWriteError
    simp only [hpermanent, hcons, inhibitBackoff, hardAssert, isStarted_closed, Bool.not_false,
      if_true, bind, Except.bind, pure, Except.pure]
    rw [SyncEngine.handleRejectedWrite_eq (c := { c with
      writePipeline := rest.take 9
      writeStream := s₁ }) hreject]
    rfl
  rw [close_of_error hstatus hstarted, herror, hfill]
  cases hrest : rest with
  | nil =>
      refine ⟨changes, store', ⟨.initial, false, false, false, c.writeStream.closeCount + 1,
        c.writeStream.tokenRequests, none⟩, ?_, hq', hversion, hcache, hchanges,
        hsteady.tokens.closed (.inl rfl) true⟩
      rw [if_neg fun hn ↦ hn.1 rfl]
      show Except.map _ (if _ then startWriteStream _ else _) = _
      rw [if_neg fun hn ↦ (shouldStart_iff.mp hn).2.2 rfl]
      rfl
  | cons b' rest' =>
      refine ⟨changes, store', ⟨.starting, false, false, false, c.writeStream.closeCount + 1,
        (c.writeStream.closeCount + 1) :: c.writeStream.tokenRequests, none⟩, ?_, hq', hversion,
        hcache, hchanges, hsteady.tokens.restarted (by simp [maxPendingWrites])⟩
      rw [if_pos ⟨List.cons_ne_nil _ _, hs₁⟩, start_of_initial rfl]
      show Except.map _ (if _ then startWriteStream _ else _) = _
      split
      next hn =>
        have hrunning : true = false := (shouldStart_iff.mp hn).2.1
        cases hrunning
      next => rfl

end RemoteStore

end LadyBook.Firestore
