import LadyBook.Firestore.MutationQueue
import LadyBook.Reasoning.Folds
import LadyBook.Reasoning.Records

/-!
# `MemoryMutationQueue`

The queue of a client without persistence.  Batch ids are consecutive, so a batch is found by the
distance of its id from the first one; a sorted index of pairs of a key and an id finds the batches
of a key or of a collection.
-/

open Reasoning

namespace LadyBook.Firestore

structure MemoryMutationQueue where
  queue : List MutationBatch
  nextBatchId : ℤ
  batchesByDocumentKey : Finset (DocumentKey ×ₗ ℤ)

namespace MemoryMutationQueue

-- `Start()` of an empty queue.
def empty : MemoryMutationQueue := ⟨[], 1, ∅⟩

variable (q : MemoryMutationQueue)

def isEmpty : Bool := q.queue.isEmpty

-- A queue that is empty counts from one again.
def start : MemoryMutationQueue := if q.isEmpty then { q with nextBatchId := 1 } else q

def acknowledgeBatch (batch : MutationBatch) : Except HardAssert MemoryMutationQueue :=
  match q.queue with
  | [] => .error .acknowledgeOnEmptyQueue
  | check :: _ =>
      if batch.batchId = check.batchId then .ok q else .error .queueOrderingFailure

-- The references of a batch in the index.
def references (batch : MutationBatch) : Finset (DocumentKey ×ₗ ℤ) :=
  batch.keys.image fun key ↦ toLex (key, batch.batchId)

def addMutationBatch (mutations : List Mutation) :
    Except HardAssert (MutationBatch × MemoryMutationQueue) :=
  if h : mutations = [] then
    .error .emptyBatch
  else
    let batch : MutationBatch := ⟨q.nextBatchId, mutations, h⟩
    if q.queue.getLast?.all fun prior ↦ prior.batchId < batch.batchId then
      .ok (batch,
        { queue := q.queue ++ [batch]
          nextBatchId := q.nextBatchId + 1
          batchesByDocumentKey := q.batchesByDocumentKey ∪ references batch })
    else
      .error .batchIdsNotIncreasing

def removeMutationBatch (batch : MutationBatch) : Except HardAssert MemoryMutationQueue :=
  match q.queue with
  | [] => .error .removeFromEmptyQueue
  | head :: rest =>
      if head.batchId = batch.batchId then
        .ok { q with
          queue := rest
          batchesByDocumentKey := q.batchesByDocumentKey \ references batch }
      else
        .error .removeNotFirst

def indexOfBatchId (batchId : ℤ) : ℤ :=
  match q.queue with
  | [] => 0
  | firstBatch :: _ => batchId - firstBatch.batchId

def lookupMutationBatch (batchId : ℤ) : Except HardAssert (Option MutationBatch) :=
  if q.queue.isEmpty then
    .ok none
  else
    let index := q.indexOfBatchId batchId
    if index < 0 then
      .ok none
    else
      match q.queue[index.toNat]? with
      | none => .ok none
      | some batch =>
          if batch.batchId = batchId then .ok (some batch) else .error .foundBatchMismatch

-- An id below the queue is normalized to its start.
def nextMutationBatchAfterBatchId (batchId : ℤ) : Option MutationBatch :=
  let rawIndex := q.indexOfBatchId (batchId + 1)
  let index := if rawIndex < 0 then 0 else rawIndex.toNat
  q.queue[index]?

def getHighestUnacknowledgedBatchId : ℤ :=
  if q.isEmpty then batchIdUnknown else q.nextBatchId - 1

def allMutationBatchesWithIds (batchIds : Finset ℤ) :
    Except HardAssert (List MutationBatch) := do
  let batches ← (ascending batchIds).mapM q.lookupMutationBatch
  return batches.reduceOption

-- The scan starts at the key with id 0 and stops at the next key.
def referencesFrom (key : DocumentKey) : List (DocumentKey ×ₗ ℤ) :=
  (valuesFrom q.batchesByDocumentKey (toLex (key, 0))).takeWhile fun reference ↦
    (ofLex reference).1 = key

def allMutationBatchesAffectingDocumentKey (key : DocumentKey) :
    Except HardAssert (List MutationBatch) :=
  (q.referencesFrom key).mapM fun reference ↦ do
    match ← q.lookupMutationBatch (ofLex reference).2 with
    | some batch => return batch
    | none => throw .indexedBatchMissing

def allMutationBatchesAffectingDocumentKeys (documentKeys : Finset DocumentKey) :
    Except HardAssert (List MutationBatch) :=
  q.allMutationBatchesWithIds <| documentKeys.biUnion fun key ↦
    ((q.referencesFrom key).map fun reference ↦ (ofLex reference).2).toFinset

def allMutationBatchesAffectingQuery (query : Query) : Except HardAssert (List MutationBatch) :=
  let rows := (valuesFrom q.batchesByDocumentKey (toLex (startKey query.path, 0))).takeWhile
    fun reference ↦ ResourcePath.isPrefixOf query.path (ofLex reference).1.path
  let children := rows.filter fun reference ↦
    (ofLex reference).1.path.length = query.path.length + 1
  q.allMutationBatchesWithIds (children.map fun reference ↦ (ofLex reference).2).toFinset

def performConsistencyCheck : Except HardAssert Unit :=
  hardAssert (!q.isEmpty || q.batchesByDocumentKey = ∅) .documentLeak

instance : MutationQueue MemoryMutationQueue where
  start := start
  isEmpty := isEmpty
  acknowledgeBatch := acknowledgeBatch
  addMutationBatch := addMutationBatch
  removeMutationBatch := removeMutationBatch
  allMutationBatches := queue
  allMutationBatchesAffectingDocumentKeys := allMutationBatchesAffectingDocumentKeys
  allMutationBatchesAffectingDocumentKey := allMutationBatchesAffectingDocumentKey
  allMutationBatchesAffectingQuery := allMutationBatchesAffectingQuery
  lookupMutationBatch := lookupMutationBatch
  nextMutationBatchAfterBatchId q id := .ok (q.nextMutationBatchAfterBatchId id)
  getHighestUnacknowledgedBatchId := getHighestUnacknowledgedBatchId
  performConsistencyCheck := performConsistencyCheck

/-! ## Consecutive ids -/

/-- The ids of the batches are consecutive from `first` on. -/
def Consecutive (first : ℤ) (bs : List MutationBatch) : Prop :=
  Records (fun i b ↦ b.batchId = first + i) bs

section Consecutive

variable {first : ℤ} {b : MutationBatch} {bs : List MutationBatch}

theorem Consecutive.head (h : Consecutive first (b :: bs)) : b.batchId = first := by
  have := h 0 b rfl
  omega

theorem Consecutive.tail (h : Consecutive first (b :: bs)) : Consecutive (first + 1) bs := by
  intro i b' hi
  have : b'.batchId = first + (i + 1 : ℕ) := h (i + 1) b' hi
  show b'.batchId = first + 1 + i
  omega

theorem Consecutive.find?_eq (h : Consecutive first bs) (id : ℤ) :
    (bs.find? fun b ↦ b.batchId = id) = if id < first then none else bs[(id - first).toNat]? := by
  induction bs generalizing first with
  | nil => simp
  | cons b bs ih =>
      have hb := h.head
      by_cases hid : b.batchId = id
      · rw [List.find?_cons_of_pos (by simpa using hid), if_neg (by omega),
          show (id - first).toNat = 0 by omega]
        rfl
      · rw [List.find?_cons_of_neg (by simpa using hid), ih h.tail]
        by_cases hlt : id < first
        · rw [if_pos (by omega), if_pos hlt]
        · rw [if_neg (by omega), if_neg hlt,
            show (id - first).toNat = (id - (first + 1)).toNat + 1 by omega]
          rfl

theorem Consecutive.find?_after (h : Consecutive first bs) (id : ℤ) :
    (bs.find? fun b ↦ id < b.batchId) = bs[(id + 1 - first).toNat]? := by
  induction bs generalizing first with
  | nil => simp
  | cons b bs ih =>
      have hb := h.head
      by_cases hid : id < b.batchId
      · rw [List.find?_cons_of_pos (by simpa using hid),
          show (id + 1 - first).toNat = 0 by omega]
        rfl
      · rw [List.find?_cons_of_neg (by simpa using hid), ih h.tail,
          show (id + 1 - first).toNat = (id + 1 - (first + 1)).toNat + 1 by omega]
        rfl

end Consecutive

/-! ## The queue is lawful -/

/-- The queue holds the pending batches, under consecutive ids that end below the next one, and the
index holds their references and no others. -/
structure Represents (q : MemoryMutationQueue) (p : Pending) : Prop where
  queue : q.queue = p.batches
  consecutive : Consecutive (q.nextBatchId - q.queue.length) q.queue
  positive : 0 < q.nextBatchId - q.queue.length
  index : ∀ key id, toLex (key, id) ∈ q.batchesByDocumentKey ↔
    ∃ b ∈ q.queue, b.batchId = id ∧ key ∈ b.keys

theorem represents_empty : Represents empty Pending.empty where
  queue := rfl
  consecutive := records_nil
  positive := by decide
  index key id := by simp [empty]

section Lawful

variable {q : MemoryMutationQueue} {p : Pending}

theorem mem_references {batch : MutationBatch} {key : DocumentKey} {id : ℤ} :
    toLex (key, id) ∈ references batch ↔ id = batch.batchId ∧ key ∈ batch.keys := by
  simp only [references, Finset.mem_image, toLex_inj, Prod.mk.injEq]
  constructor
  · rintro ⟨k, hk, rfl, rfl⟩
    exact ⟨rfl, hk⟩
  · rintro ⟨rfl, hk⟩
    exact ⟨key, hk, rfl, rfl⟩

theorem Represents.indexOfBatchId (h : Represents q p) {b : MutationBatch}
    {rest : List MutationBatch} (hq : q.queue = b :: rest) (id : ℤ) :
    q.indexOfBatchId id = id - (q.nextBatchId - q.queue.length) := by
  have hc := h.consecutive
  rw [MemoryMutationQueue.indexOfBatchId, hq]
  rw [hq] at hc
  rw [← hc.head]

theorem Represents.lookup (h : Represents q p) (id : ℤ) :
    q.lookupMutationBatch id = .ok (p.lookup id) := by
  have hc := h.consecutive
  rw [Pending.lookup, ← h.queue, hc.find?_eq]
  cases hq : q.queue with
  | nil => simp [lookupMutationBatch, hq]
  | cons b rest =>
      have hne : q.queue.isEmpty = false := by rw [hq]; rfl
      rw [← hq]
      simp only [lookupMutationBatch, hne, Bool.false_eq_true, if_false, h.indexOfBatchId hq]
      by_cases hlt : id < q.nextBatchId - q.queue.length
      · rw [if_pos (by omega), if_pos hlt]
      · rw [if_neg (by omega), if_neg hlt]
        cases hb : q.queue[(id - (q.nextBatchId - q.queue.length)).toNat]? with
        | none => rfl
        | some b' =>
            have : b'.batchId = _ := hc _ b' hb
            exact if_pos (by omega)

theorem Represents.after (h : Represents q p) (id : ℤ) :
    q.nextMutationBatchAfterBatchId id = p.after id := by
  rw [Pending.after, ← h.queue, h.consecutive.find?_after]
  cases hq : q.queue with
  | nil => simp [nextMutationBatchAfterBatchId, hq]
  | cons b rest =>
      rw [← hq]
      simp only [nextMutationBatchAfterBatchId, h.indexOfBatchId hq]
      split
      next hlt => rw [show (id + 1 - (q.nextBatchId - q.queue.length)).toNat = 0 by omega]
      next => rfl

theorem Represents.highest (h : Represents q p) :
    q.getHighestUnacknowledgedBatchId = p.highest := by
  have hc := h.consecutive
  rw [getHighestUnacknowledgedBatchId, Pending.highest, ← h.queue, isEmpty]
  cases hl : q.queue.getLast? with
  | none =>
      rw [List.getLast?_eq_none_iff.mp hl]
      rfl
  | some b =>
      rw [List.getLast?_eq_getElem?] at hl
      have hb : b.batchId = _ := hc _ b hl
      have hlt := (List.getElem?_eq_some_iff.mp hl).1
      rw [if_neg (by rw [List.isEmpty_iff]; rintro he; rw [he] at hlt; simp at hlt)]
      show q.nextBatchId - 1 = b.batchId
      omega

theorem Represents.allMutationBatchesWithIds (h : Represents q p) {ids : Finset ℤ}
    (hids : ∀ id ∈ ids, ∃ b ∈ p.batches, b.batchId = id) :
    q.allMutationBatchesWithIds ids = .ok (p.batches.filter fun b ↦ b.batchId ∈ ids) := by
  have hmap : (ascending ids).mapM q.lookupMutationBatch =
      .ok ((ascending ids).map p.lookup) := mapM_eq_ok fun id _ ↦ h.lookup id
  rw [MemoryMutationQueue.allMutationBatchesWithIds, hmap, Pending.ascending_ids hids,
    List.map_map]
  show Except.ok (List.reduceOption _) = _
  congr 1
  have hlookup : ∀ b ∈ p.batches.filter fun b ↦ b.batchId ∈ ids,
      (p.lookup ∘ MutationBatch.batchId) b = some b := fun b hb ↦
    Pending.lookup_eq_some.mpr ⟨(List.mem_filter.mp hb).1, rfl⟩
  rw [List.map_congr_left hlookup]
  show (List.map some _).filterMap id = _
  rw [List.filterMap_map]
  exact List.filterMap_some

theorem Represents.mem_referencesFrom (h : Represents q p) {key key' : DocumentKey} {id : ℤ} :
    toLex (key', id) ∈ q.referencesFrom key ↔
      key' = key ∧ ∃ b ∈ p.batches, b.batchId = id ∧ key ∈ b.keys := by
  have hblock : Block q.batchesByDocumentKey (toLex (key, 0)) fun reference ↦
      (ofLex reference).1 = key := by
    constructor
    · rintro x hx rfl
      obtain ⟨b, hb, hid, -⟩ := (h.index (ofLex x).1 (ofLex x).2).mp hx
      have := p.positive b (h.queue ▸ hb)
      exact Prod.Lex.le_iff.mpr (Or.inr ⟨rfl, by show 0 ≤ (ofLex x).2; omega⟩)
    · intro x y hx hxy hy
      apply le_antisymm
      · exact hy ▸ Prod.Lex.monotone_fst _ _ hxy
      · exact Prod.Lex.monotone_fst _ _ hx
  rw [referencesFrom, takeWhile_valuesFrom hblock, mem_ascending, Finset.mem_filter, h.index,
    h.queue]
  show _ ∧ key' = key ↔ _
  constructor
  · rintro ⟨hb, rfl⟩
    exact ⟨rfl, hb⟩
  · rintro ⟨rfl, hb⟩
    exact ⟨hb, rfl⟩

-- The ids of the batches on a key, in their order.
theorem Represents.referencesFrom_eq (h : Represents q p) (key : DocumentKey) :
    q.referencesFrom key = (p.affectingKey key).map fun b ↦ toLex (key, b.batchId) := by
  apply eq_of_pairwise_lt
  · exact ((ascending_pairwise _).sublist (List.dropWhile_sublist _)).sublist
      (List.takeWhile_sublist _)
  · apply List.pairwise_map.mpr
    apply (p.increasing.filter _).imp
    intro b b' hlt
    exact Prod.Lex.lt_iff.mpr (Or.inr ⟨rfl, hlt⟩)
  · intro x
    obtain ⟨⟨key', id⟩, rfl⟩ := toLex.surjective x
    rw [h.mem_referencesFrom, List.mem_map]
    simp only [Pending.affectingKey, List.mem_filter, decide_eq_true_eq, toLex_inj, Prod.mk.injEq]
    constructor
    · rintro ⟨rfl, b, hb, rfl, hk⟩
      exact ⟨b, ⟨hb, hk⟩, rfl, rfl⟩
    · rintro ⟨b, ⟨hb, hk⟩, rfl, rfl⟩
      exact ⟨rfl, b, hb, rfl, hk⟩

theorem Represents.affectingKey (h : Represents q p) (key : DocumentKey) :
    q.allMutationBatchesAffectingDocumentKey key = .ok (p.affectingKey key) := by
  rw [allMutationBatchesAffectingDocumentKey, h.referencesFrom_eq, List.mapM_map, mapM_eq_ok,
    List.map_id]
  intro b hb
  have hlookup : p.lookup b.batchId = some b :=
    Pending.lookup_eq_some.mpr ⟨(List.mem_filter.mp hb).1, rfl⟩
  show (q.lookupMutationBatch b.batchId >>= _) = _
  rw [h.lookup, hlookup]
  rfl

-- A search through the ids of an index agrees with the search through the batches.
theorem Represents.withIds_of_mem_iff (h : Represents q p) {ids : Finset ℤ}
    {P : MutationBatch → Prop} [DecidablePred P]
    (hids : ∀ id, id ∈ ids ↔ ∃ b ∈ p.batches, b.batchId = id ∧ P b) :
    q.allMutationBatchesWithIds ids = .ok (p.batches.filter fun b ↦ P b) := by
  rw [h.allMutationBatchesWithIds]
  · congr 1
    apply List.filter_congr
    intro b hb
    rw [decide_eq_decide, hids]
    constructor
    · rintro ⟨b', hb', hid, hP⟩
      exact Pending.batchId_inj hb' hb hid ▸ hP
    · exact fun hP ↦ ⟨b, hb, rfl, hP⟩
  · intro id hid
    obtain ⟨b, hb, he, -⟩ := (hids id).mp hid
    exact ⟨b, hb, he⟩

theorem Represents.affectingKeys (h : Represents q p) (keys : Finset DocumentKey) :
    q.allMutationBatchesAffectingDocumentKeys keys = .ok (p.affectingKeys keys) := by
  apply h.withIds_of_mem_iff
  intro id
  simp only [Finset.mem_biUnion, List.mem_toFinset, List.mem_map]
  constructor
  · rintro ⟨key, hkey, x, hx, rfl⟩
    obtain ⟨⟨key', id⟩, rfl⟩ := toLex.surjective x
    obtain ⟨-, b, hb, hid, hk⟩ := h.mem_referencesFrom.mp hx
    exact ⟨b, hb, hid, key, Finset.mem_inter.mpr ⟨hk, hkey⟩⟩
  · rintro ⟨b, hb, hid, key, hk⟩
    obtain ⟨hk, hkey⟩ := Finset.mem_inter.mp hk
    exact ⟨key, hkey, toLex (key, id), h.mem_referencesFrom.mpr ⟨rfl, b, hb, hid, hk⟩, rfl⟩

theorem Represents.affectingQuery (h : Represents q p) {query : Query}
    (hq : query.isDocumentQuery = false) :
    q.allMutationBatchesAffectingQuery query = .ok (p.affectingQuery query) := by
  have hodd : query.path.length % 2 = 1 := by
    have : query.path.length % 2 ≠ 0 := by simpa [Query.isDocumentQuery] using hq
    omega
  have hblock : Block q.batchesByDocumentKey (toLex (startKey query.path, 0)) fun reference ↦
      ResourcePath.isPrefixOf query.path (ofLex reference).1.path = true := by
    constructor
    · intro x hx hp
      rw [ResourcePath.isPrefixOf_iff] at hp
      obtain ⟨b, hb, hid, -⟩ := (h.index (ofLex x).1 (ofLex x).2).mp hx
      have := p.positive b (h.queue ▸ hb)
      rcases (startKey_le hodd hp).lt_or_eq with hlt | heq
      · exact Prod.Lex.le_iff.mpr (Or.inl hlt)
      · exact Prod.Lex.le_iff.mpr (Or.inr ⟨heq, by show 0 ≤ (ofLex x).2; omega⟩)
    · intro x y hx hxy hy
      rw [ResourcePath.isPrefixOf_iff] at hy ⊢
      have hle : (startKey query.path).path ≤ (ofLex x).1.path := Prod.Lex.monotone_fst _ _ hx
      exact isPrefix_of_le_of_le ((le_of_isPrefix (isPrefix_startKey _)).trans hle)
        (Prod.Lex.monotone_fst _ _ hxy) hy
  apply h.withIds_of_mem_iff
  intro id
  have hscan := takeWhile_valuesFrom hblock
  simp only [Bool.decide_eq_true] at hscan
  rw [hscan]
  simp only [List.mem_toFinset, List.mem_map, List.mem_filter, mem_ascending, Finset.mem_filter,
    decide_eq_true_eq]
  constructor
  · rintro ⟨x, ⟨⟨hx, hp⟩, hlen⟩, rfl⟩
    obtain ⟨b, hb, hid, hk⟩ := (h.index (ofLex x).1 (ofLex x).2).mp hx
    exact ⟨b, h.queue ▸ hb, hid, (ofLex x).1, hk, ResourcePath.isImmediateParentOf_iff.mpr
      ⟨ResourcePath.isPrefixOf_iff.mp hp, hlen⟩⟩
  · rintro ⟨b, hb, hid, key, hk, hp⟩
    obtain ⟨hp, hlen⟩ := ResourcePath.isImmediateParentOf_iff.mp hp
    exact ⟨toLex (key, id), ⟨⟨(h.index key id).mpr ⟨b, h.queue ▸ hb, hid, hk⟩,
      ResourcePath.isPrefixOf_iff.mpr hp⟩, hlen⟩, rfl⟩

/-! ## What changes the queue -/

theorem Represents.start (h : Represents q p) : Represents q.start p := by
  unfold MemoryMutationQueue.start
  split
  next hempty =>
    have hq : q.queue = [] := List.isEmpty_iff.mp hempty
    refine ⟨h.queue, ?_, ?_, h.index⟩
    · intro i b hi
      rw [hq] at hi
      cases hi
    · show (0 : ℤ) < 1 - q.queue.length
      rw [hq, List.length_nil]
      omega
  next => exact h

theorem Represents.acknowledge (h : Represents q p) {b : MutationBatch}
    {rest : List MutationBatch} (hb : p.batches = b :: rest) :
    ∃ q', q.acknowledgeBatch b = .ok q' ∧ Represents q' p := by
  refine ⟨q, ?_, h⟩
  rw [acknowledgeBatch, h.queue, hb]
  exact if_pos rfl

theorem Represents.add (h : Represents q p) {ms : List Mutation} (hms : ms ≠ []) :
    ∃ b q' hpos hnew, q.addMutationBatch ms = .ok (b, q') ∧ b.mutations = ms ∧
      Represents q' (p.push b hpos hnew) := by
  have hnew : ∀ b' ∈ p.batches, b'.batchId < q.nextBatchId := by
    intro b' hb'
    rw [← h.queue] at hb'
    obtain ⟨i, hi⟩ := List.mem_iff_getElem?.mp hb'
    have hid : b'.batchId = _ := h.consecutive i b' hi
    have := (List.getElem?_eq_some_iff.mp hi).1
    omega
  have hpos := h.positive
  let b : MutationBatch := ⟨q.nextBatchId, ms, hms⟩
  refine ⟨b, ⟨q.queue ++ [b], q.nextBatchId + 1, q.batchesByDocumentKey ∪ references b⟩,
    by show 0 < q.nextBatchId; omega, hnew, ?_, rfl, ?_⟩
  · rw [addMutationBatch, dif_neg hms]
    apply if_pos
    rw [Option.all_eq_true]
    intro prior hprior
    rw [decide_eq_true_eq]
    exact hnew prior (h.queue ▸ List.mem_of_getLast? hprior)
  · constructor
    · show q.queue ++ _ = p.batches ++ _
      rw [h.queue]
    · show Consecutive (q.nextBatchId + 1 - (q.queue ++ [_]).length) (q.queue ++ [_])
      rw [List.length_append, List.length_singleton,
        show q.nextBatchId + 1 - (q.queue.length + 1 : ℕ) = q.nextBatchId - q.queue.length by omega]
      apply Records.concat h.consecutive
      show q.nextBatchId = q.nextBatchId - q.queue.length + q.queue.length
      omega
    · show 0 < q.nextBatchId + 1 - (q.queue ++ [_]).length
      rw [List.length_append, List.length_singleton]
      omega
    · intro key id
      show _ ∈ q.batchesByDocumentKey ∪ references _ ↔ ∃ b ∈ q.queue ++ [_], _
      rw [Finset.mem_union, h.index, mem_references]
      simp only [List.mem_append, List.mem_singleton, or_and_right, exists_or, exists_eq_left,
        eq_comm (a := id)]

theorem Represents.remove (h : Represents q p) {b : MutationBatch} {rest : List MutationBatch}
    (hb : p.batches = b :: rest) :
    ∃ q', q.removeMutationBatch b = .ok q' ∧ Represents q' p.pop := by
  have hq : q.queue = b :: rest := h.queue.trans hb
  have hc := h.consecutive
  have hpos := h.positive
  refine ⟨{ q with queue := rest, batchesByDocumentKey := q.batchesByDocumentKey \ references b },
    ?_, ?_, ?_, ?_, ?_⟩
  · rw [removeMutationBatch, hq]
    exact if_pos rfl
  · show rest = p.batches.tail
    rw [hb, List.tail_cons]
  · rw [hq] at hc
    have := hc.tail
    rw [List.length_cons] at this
    show Consecutive (q.nextBatchId - rest.length) rest
    rwa [show q.nextBatchId - (rest.length + 1 : ℕ) + 1 = q.nextBatchId - rest.length by omega]
      at this
  · rw [hq, List.length_cons] at hpos
    show 0 < q.nextBatchId - rest.length
    omega
  · intro key id
    show _ ∈ q.batchesByDocumentKey \ references b ↔ ∃ b' ∈ rest, _
    rw [Finset.mem_sdiff, h.index, mem_references, hq]
    constructor
    · rintro ⟨⟨b', hb', rfl, hk⟩, hnot⟩
      rcases List.mem_cons.mp hb' with rfl | hb'
      · exact absurd ⟨rfl, hk⟩ hnot
      · exact ⟨b', hb', rfl, hk⟩
    · rintro ⟨b', hb', rfl, hk⟩
      refine ⟨⟨b', List.mem_cons_of_mem b hb', rfl, hk⟩, fun hid ↦ ?_⟩
      have hlt := (List.pairwise_cons.mp (hb ▸ p.increasing)).1 b' hb'
      omega

theorem Represents.consistencyCheck (h : Represents q p) : q.performConsistencyCheck = .ok () := by
  apply if_pos
  rw [Bool.or_eq_true, isEmpty, decide_eq_true_eq]
  cases hq : q.queue with
  | cons b rest => exact Or.inl rfl
  | nil =>
      right
      apply Finset.eq_empty_of_forall_notMem
      intro x hx
      obtain ⟨⟨key, id⟩, rfl⟩ := toLex.surjective x
      obtain ⟨b, hb, -⟩ := (h.index key id).mp hx
      rw [hq] at hb
      exact List.not_mem_nil hb

end Lawful

instance : LawfulMutationQueue MemoryMutationQueue where
  Represents := Represents
  start_eq h := h.start
  isEmpty_eq h := congrArg List.isEmpty h.queue
  acknowledge h hb := h.acknowledge hb
  add h hms := h.add hms
  remove h hb := h.remove hb
  all_eq h := h.queue
  affectingKeys_eq keys h := h.affectingKeys keys
  affectingKey_eq key h := h.affectingKey key
  affectingQuery_eq h hq := h.affectingQuery hq
  lookup_eq id h := h.lookup id
  after_eq id h := congrArg Except.ok (h.after id)
  highest_eq h := h.highest
  consistent h := h.consistencyCheck

end MemoryMutationQueue

end LadyBook.Firestore
