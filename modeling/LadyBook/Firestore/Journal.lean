import LadyBook.Firestore.Ledger

/-!
# The journal

What can be read off the events of a run alone: who was signed in, what each user has written, and
which of the writes the server has answered.  The ledger accounts for it: of the writes of a user,
the first are decided, each once and in their order, and the others are pending.
-/

open Reasoning

namespace LadyBook.Firestore

structure Journal where
  user : User
  writes : List (User × List Mutation × ℕ)
  answers : List (User × List Mutation)

namespace Journal

def note (j : Journal) : ClientEvent → Journal
  | .credentialChange user => { j with user := user }
  | .writeMutations mutations callback =>
      if mutations = [] then j
      else { j with writes := j.writes ++ [(j.user, mutations, callback)] }
  | .streamRead (.mutations mutations) _ _ =>
      { j with answers := j.answers ++ [(j.user, mutations)] }
  | _ => j

/-- The journal of some events, which begin with a user. -/
def ofEvents (user : User) (es : List ClientEvent) : Journal := es.foldl note ⟨user, [], []⟩

/-- The writes of a user with their callbacks, and the writes that were answered. -/
def writesOf (j : Journal) (user : User) : List (List Mutation × Option ℕ) :=
  j.writes.filterMap fun w ↦ if w.1 = user then some (w.2.1, some w.2.2) else none

def answersOf (j : Journal) (user : User) : List (List Mutation) :=
  j.answers.filterMap fun a ↦ if a.1 = user then some a.2 else none

theorem ofEvents_concat (user : User) (es : List ClientEvent) (e : ClientEvent) :
    ofEvents user (es ++ [e]) = (ofEvents user es).note e :=
  List.foldl_concat _ _ _ _

theorem note_silent {j : Journal} {l : Ledger} (huser : j.user = l.user) {e : ClientEvent}
    (h : l.Silent e) : j.note e = j := by
  cases e with
  | writeMutations => exact absurd h id
  | credentialChange user =>
      have hsame : user = j.user := h.trans huser.symm
      rw [hsame]
      rfl
  | streamRead request =>
      cases request with
      | handshake => rfl
      | mutations => exact absurd h id
  | _ => rfl

end Journal

/-! ## Decisions -/

/-- What a user was told of the decisions on the writes: the callback, if there was one, and the
status. -/
def decisions (user : User) (log : List Output) : List (Option ℕ × Error) :=
  log.filterMap fun
    | .notifyUser user' _ callback status => if user' = user then some (callback, status) else none
    | _ => none

section Decisions

variable {user : User}

theorem decisions_append (log log' : List Output) :
    decisions user (log ++ log') = decisions user log ++ decisions user log' :=
  List.filterMap_append

theorem decisions_pendingWrites (callbacks : List ℕ) (status : Error) :
    decisions user (callbacks.map (.pendingWrites · status)) = [] := by
  induction callbacks with
  | nil => rfl
  | cons callback callbacks ih => exact ih

theorem decisions_flatMap_pendingWrites (ids : List ℤ) (callbacks : ℤ → List ℕ) (status : Error) :
    decisions user (ids.flatMap fun id ↦ (callbacks id).map (.pendingWrites · status)) = [] := by
  induction ids with
  | nil => rfl
  | cons id ids ih =>
      rw [List.flatMap_cons, decisions_append, decisions_pendingWrites, ih]
      rfl

theorem decisions_viewSnapshots (log : List Output) (changes : MaybeDocumentMap) :
    decisions user (log ++ [.viewSnapshots changes]) = decisions user log := by
  rw [decisions_append]
  exact List.append_nil _

theorem decisions_decide (l : Ledger) (b : MutationBatch) (status : Error)
    (cache : RemoteDocumentCache) (changes : MaybeDocumentMap) :
    decisions user (l.decide b status cache changes).log = decisions user l.log ++
      if user = l.user then [((l.callbacks l.user).lookup b.batchId, status)] else [] := by
  show decisions user (l.log ++ [.notifyUser l.user b.batchId _ status] ++ _ ++ [_]) = _
  rw [decisions_viewSnapshots, decisions_append, decisions_pendingWrites, decisions_append,
    List.append_nil]
  congr 1
  by_cases huser : user = l.user
  · rw [if_pos huser]
    simp [decisions, huser]
  · rw [if_neg huser]
    simp [decisions, Ne.symm huser]

theorem decisions_wait (l : Ledger) (callback : ℕ) :
    decisions user (l.wait callback).log = decisions user l.log := by
  unfold Ledger.wait
  split
  next =>
    rw [decisions_append]
    exact List.append_nil _
  next => rfl

theorem decisions_switch (l : Ledger) (user' : User) (changes : MaybeDocumentMap) :
    decisions user (l.switch user' changes).log = decisions user l.log := by
  show decisions user (l.log ++ _ ++ [_]) = _
  rw [decisions_viewSnapshots, decisions_append, decisions_flatMap_pendingWrites, List.append_nil]

end Decisions

/-! ## Accounts -/

/-- What a user has written, starting with the batches that were restored, which have no
callbacks. -/
def allWrites (restored : User → Pending) (j : Journal) (user : User) :
    List (List Mutation × Option ℕ) :=
  (restored user).batches.map (fun b ↦ (b.mutations, none)) ++ j.writesOf user

-- The writes that were decided with success.
def succeeded (ds : List (Option ℕ × Error)) (writes : List (List Mutation × Option ℕ)) :
    List (List Mutation) :=
  (ds.zip writes).filterMap fun p ↦ if p.1.2 = .ok then some p.2.1 else none

/-- Every write of a user is decided or pending: the decisions come in the order of the writes, with
the callbacks of the writes, and the server has answered those that have succeeded. -/
structure Accounts (restored : User → Pending) (j : Journal) (l : Ledger) : Prop where
  user : j.user = l.user
  callbacks : ∀ user, (decisions user l.log).map Prod.fst ++
      (l.pending user).batches.map (fun b ↦ (l.callbacks user).lookup b.batchId) =
    (allWrites restored j user).map Prod.snd
  mutations : ∀ user, (l.pending user).batches.map MutationBatch.mutations =
    ((allWrites restored j user).drop (decisions user l.log).length).map Prod.fst
  answers : ∀ user, succeeded (decisions user l.log) (allWrites restored j user) = j.answersOf user

namespace Accounts

variable {restored : User → Pending} {j : Journal} {l : Ledger}

theorem start {user : User} {cache : RemoteDocumentCache} {version : SnapshotVersion} :
    Accounts restored ⟨user, [], []⟩ ⟨user, restored, cache, version, fun _ ↦ ∅, ∅, []⟩ := by
  have hwrites : ∀ other, allWrites restored ⟨user, [], []⟩ other =
      (restored other).batches.map (fun b ↦ (b.mutations, none)) :=
    fun other ↦ List.append_nil _
  refine ⟨rfl, fun other ↦ ?_, fun other ↦ ?_, fun other ↦ rfl⟩
  · rw [hwrites, List.map_map]
    exact List.map_congr_left fun b _ ↦ Finmap.lookup_empty _
  · rw [hwrites]
    show _ = ((List.map _ _).drop 0).map _
    rw [List.drop_zero, List.map_map]
    rfl

theorem length_decisions_le (h : Accounts restored j l) (user : User) :
    (decisions user l.log).length ≤ (allWrites restored j user).length := by
  have := congrArg List.length (h.callbacks user)
  simp only [List.length_append, List.length_map] at this
  omega

-- The first pending batch is the next write to be decided.
theorem first (h : Accounts restored j l) {b : MutationBatch} {rest : List MutationBatch}
    (hfirst : l.current.batches = b :: rest) :
    ∃ ws, (allWrites restored j l.user).drop (decisions l.user l.log).length =
      (b.mutations, (l.callbacks l.user).lookup b.batchId) :: ws := by
  have hm := h.mutations l.user
  have hc := congrArg (List.drop (decisions l.user l.log).length) (h.callbacks l.user)
  rw [List.drop_left' (by rw [List.length_map]), ← List.map_drop] at hc
  change l.current.batches.map _ = _ at hm hc
  rw [hfirst] at hm hc
  cases hw : (allWrites restored j l.user).drop (decisions l.user l.log).length with
  | nil =>
      rw [hw] at hm
      cases hm
  | cons w ws =>
      rw [hw] at hm hc
      rw [List.map_cons, List.map_cons, List.cons.injEq] at hm hc
      exact ⟨ws, by rw [hm.1, hc.1]⟩

end Accounts

theorem zip_append_of_length_le {α β : Type*} {xs : List α} {ys : List β}
    (h : xs.length ≤ ys.length) (zs : List β) : xs.zip (ys ++ zs) = xs.zip ys := by
  induction xs generalizing ys with
  | nil => rfl
  | cons x xs ih =>
      cases ys with
      | nil => cases h
      | cons y ys =>
          show (x, y) :: xs.zip (ys ++ zs) = (x, y) :: xs.zip ys
          rw [ih (Nat.le_of_succ_le_succ h)]

theorem succeeded_concat {ds : List (Option ℕ × Error)} {d : Option ℕ × Error}
    {writes ws : List (List Mutation × Option ℕ)} {w : List Mutation × Option ℕ}
    (h : writes.drop ds.length = w :: ws) : succeeded (ds ++ [d]) writes =
      succeeded ds writes ++ if d.2 = .ok then [w.1] else [] := by
  have hlen : ds.length = (writes.take ds.length).length := by
    have := congrArg List.length h
    rw [List.length_drop, List.length_cons] at this
    rw [List.length_take]
    omega
  have hsplit : writes = writes.take ds.length ++ w :: ws := by
    rw [← h, List.take_append_drop]
  have hzip : (ds ++ [d]).zip writes = ds.zip writes ++ [(d, w)] := by
    rw [hsplit, List.zip_append hlen, zip_append_of_length_le hlen.le]
    rfl
  rw [succeeded, hzip, List.filterMap_append]
  congr 1
  by_cases hd : d.2 = .ok <;> simp [hd]

theorem succeeded_append {ds : List (Option ℕ × Error)}
    {writes : List (List Mutation × Option ℕ)} (h : ds.length ≤ writes.length)
    (ws : List (List Mutation × Option ℕ)) :
    succeeded ds (writes ++ ws) = succeeded ds writes := by
  rw [succeeded, zip_append_of_length_le h]
  rfl

namespace Accounts

variable {restored : User → Pending} {j : Journal} {l : Ledger}

/-- A decision on the first pending batch. -/
theorem decide (h : Accounts restored j l) {b : MutationBatch} {rest : List MutationBatch}
    (hfirst : l.current.batches = b :: rest) (status : Error) (cache : RemoteDocumentCache)
    (changes : MaybeDocumentMap) : Accounts restored { j with answers := j.answers ++
      if status = .ok then [(j.user, b.mutations)] else [] } (l.decide b status cache changes) := by
  obtain ⟨ws, hws⟩ := h.first hfirst
  have htail : l.current.pop.batches = rest := by
    show l.current.batches.tail = rest
    rw [hfirst]
    rfl
  refine ⟨h.user, fun user ↦ ?_, fun user ↦ ?_, fun user ↦ ?_⟩
  · rw [decisions_decide]
    show _ ++ (Function.update l.pending l.user l.current.pop user).batches.map
      (fun b' ↦ (Function.update l.callbacks l.user _ user).lookup b'.batchId) =
        (allWrites restored j user).map Prod.snd
    by_cases huser : user = l.user
    · subst huser
      rw [if_pos rfl, Function.update_self, Function.update_self, htail]
      -- the other batches keep their callbacks
      have hkeep : rest.map (fun b' ↦ ((l.callbacks l.user).erase b.batchId).lookup b'.batchId) =
          rest.map fun b' ↦ (l.callbacks l.user).lookup b'.batchId := by
        apply List.map_congr_left
        intro b' hb'
        have hlt := (List.pairwise_cons.mp (hfirst ▸ l.current.increasing)).1 b' hb'
        exact Finmap.lookup_erase_ne hlt.ne'
      have hold := h.callbacks l.user
      change _ ++ l.current.batches.map _ = _ at hold
      rw [hfirst] at hold
      rw [hkeep, ← hold, List.map_append, List.append_assoc]
      rfl
    · rw [if_neg huser, List.append_nil, Function.update_of_ne huser, Function.update_of_ne huser]
      exact h.callbacks user
  · rw [decisions_decide]
    show (Function.update l.pending l.user l.current.pop user).batches.map _ =
      ((allWrites restored j user).drop _).map Prod.fst
    by_cases huser : user = l.user
    · subst huser
      have hold := h.mutations l.user
      change l.current.batches.map _ = _ at hold
      rw [hfirst, hws] at hold
      rw [if_pos rfl, Function.update_self, htail, List.length_append, List.length_singleton,
        ← List.drop_drop, hws]
      exact (List.cons.inj hold).2
    · rw [if_neg huser, List.append_nil, Function.update_of_ne huser]
      exact h.mutations user
  · rw [decisions_decide]
    show succeeded _ (allWrites restored j user) = List.filterMap _ (j.answers ++ _)
    rw [List.filterMap_append]
    by_cases huser : user = l.user
    · subst huser
      rw [if_pos rfl, succeeded_concat hws, h.answers]
      congr 1
      by_cases hstatus : status = .ok
      · simp [hstatus, h.user]
      · simp [hstatus]
    · rw [if_neg huser, List.append_nil, h.answers]
      have hnone : List.filterMap (fun a : User × List Mutation ↦
          if a.1 = user then some a.2 else none)
          (if status = .ok then [(j.user, b.mutations)] else []) = [] := by
        split
        · simp [h.user, Ne.symm huser]
        · rfl
      rw [hnone, List.append_nil]
      rfl

theorem write (h : Accounts restored j l) {b : MutationBatch} {callback : ℕ}
    {changes : MaybeDocumentMap} {hpos : 0 < b.batchId}
    {hnew : ∀ b' ∈ l.current.batches, b'.batchId < b.batchId} :
    Accounts restored { j with writes := j.writes ++ [(j.user, b.mutations, callback)] }
      (l.write b hpos hnew callback changes) := by
  have hdecisions : ∀ user, decisions user (l.write b hpos hnew callback changes).log =
      decisions user l.log := fun user ↦ decisions_viewSnapshots _ _
  have hwrites : ∀ user, allWrites restored
      { j with writes := j.writes ++ [(j.user, b.mutations, callback)] } user =
      allWrites restored j user ++ if user = l.user then [(b.mutations, some callback)] else [] := by
    intro user
    rw [allWrites, allWrites, Journal.writesOf, List.filterMap_append, List.append_assoc]
    by_cases huser : user = l.user
    · simp [huser, h.user, Journal.writesOf]
    · simp [huser, h.user, Journal.writesOf, Ne.symm huser]
  refine ⟨h.user, fun user ↦ ?_, fun user ↦ ?_, fun user ↦ ?_⟩
  · rw [hdecisions, hwrites, List.map_append, ← h.callbacks]
    show _ ++ (Function.update l.pending l.user (l.current.push b hpos hnew) user).batches.map
      (fun b' ↦ (Function.update l.callbacks l.user _ user).lookup b'.batchId) = _
    by_cases huser : user = l.user
    · subst huser
      rw [if_pos rfl, Function.update_self, Function.update_self]
      show _ ++ (l.current.batches ++ [b]).map _ = _
      have hkeep : l.current.batches.map (fun b' ↦
          ((l.callbacks l.user).insert b.batchId callback).lookup b'.batchId) =
          l.current.batches.map fun b' ↦ (l.callbacks l.user).lookup b'.batchId := by
        apply List.map_congr_left
        exact fun b' hb' ↦ Finmap.lookup_insert_of_ne _ (hnew b' hb').ne
      rw [List.map_append, hkeep, ← List.append_assoc]
      show _ ++ [((l.callbacks l.user).insert b.batchId callback).lookup b.batchId] = _
      rw [Finmap.lookup_insert]
      rfl
    · rw [if_neg huser, Function.update_of_ne huser, Function.update_of_ne huser]
      exact (List.append_nil _).symm
  · rw [hdecisions, hwrites, List.drop_append_of_le_length (h.length_decisions_le user),
      List.map_append, ← h.mutations]
    show (Function.update l.pending l.user (l.current.push b hpos hnew) user).batches.map _ = _
    by_cases huser : user = l.user
    · subst huser
      rw [if_pos rfl, Function.update_self]
      show (l.current.batches ++ [b]).map _ = _
      rw [List.map_append]
      rfl
    · rw [if_neg huser, Function.update_of_ne huser]
      exact (List.append_nil _).symm
  · rw [hdecisions, hwrites, succeeded_append (h.length_decisions_le user)]
    exact h.answers user

theorem step (h : Accounts restored j l) {e : ClientEvent} {l' : Ledger} (hs : l.Step e l') :
    Accounts restored (j.note e) l' := by
  cases hs with
  | silent hsilent =>
      rw [Journal.note_silent h.user hsilent]
      exact h
  | empty callback =>
      have hdecisions : ∀ user, decisions user (l.empty callback).log = decisions user l.log := by
        intro user
        show decisions user (l.log ++ [_]) = _
        rw [decisions_append]
        exact List.append_nil _
      refine ⟨h.user, fun user ↦ ?_, fun user ↦ ?_, fun user ↦ ?_⟩
      · rw [hdecisions]
        exact h.callbacks user
      · rw [hdecisions]
        exact h.mutations user
      · rw [hdecisions]
        exact h.answers user
  | @write b callback changes hpos hnew =>
      show Accounts restored (if b.mutations = [] then _ else _) _
      rw [if_neg b.nonempty]
      exact h.write
  | wait callback =>
      have hpending : (l.wait callback).pending = l.pending := by
        unfold Ledger.wait
        split <;> rfl
      have hcallbacks : (l.wait callback).callbacks = l.callbacks := by
        unfold Ledger.wait
        split <;> rfl
      have huser : (l.wait callback).user = l.user := by
        unfold Ledger.wait
        split <;> rfl
      refine ⟨h.user.trans huser.symm, fun user ↦ ?_, fun user ↦ ?_, fun user ↦ ?_⟩
      · rw [decisions_wait, hpending, hcallbacks]
        exact h.callbacks user
      · rw [decisions_wait, hpending]
        exact h.mutations user
      · rw [decisions_wait]
        exact h.answers user
  | acknowledge hfirst => exact h.decide hfirst .ok _ _
  | @reject b rest status changes hfirst hstatus =>
      have hne : status ≠ .ok := by
        rintro rfl
        cases hstatus
      have hdecide := h.decide hfirst status l.cache changes
      rw [if_neg hne, List.append_nil] at hdecide
      exact hdecide
  | @switch user changes huser =>
      refine ⟨rfl, fun other ↦ ?_, fun other ↦ ?_, fun other ↦ ?_⟩
      · rw [decisions_switch]
        exact h.callbacks other
      · rw [decisions_switch]
        exact h.mutations other
      · rw [decisions_switch]
        exact h.answers other
  | receive =>
      refine ⟨h.user, fun user ↦ ?_, fun user ↦ ?_, fun user ↦ ?_⟩
      · rw [Ledger.receive, decisions_viewSnapshots]
        exact h.callbacks user
      · rw [Ledger.receive, decisions_viewSnapshots]
        exact h.mutations user
      · rw [Ledger.receive, decisions_viewSnapshots]
        exact h.answers user
  | limbo =>
      refine ⟨h.user, fun user ↦ ?_, fun user ↦ ?_, fun user ↦ ?_⟩
      · rw [Ledger.receive, decisions_viewSnapshots]
        exact h.callbacks user
      · rw [Ledger.receive, decisions_viewSnapshots]
        exact h.mutations user
      · rw [Ledger.receive, decisions_viewSnapshots]
        exact h.answers user

end Accounts

end LadyBook.Firestore
