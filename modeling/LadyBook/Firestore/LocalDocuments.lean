import LadyBook.Firestore.MutationQueue
import LadyBook.Reasoning.Collect
import LadyBook.Reasoning.Folds

/-!
# Remote documents and the local view of them

The cache holds what the server is known to have, `LocalDocumentsView` shows it under the pending
mutations.  A single document is the fold of its batches; a query goes through the mutations of the
collection once, over the documents of the cache that match already, and fetches only what a patch
will need.  It finds the same documents.
-/

open Reasoning Reasoning.DocumentStore

namespace LadyBook.Firestore

abbrev DocumentMap := Finmap fun _ : DocumentKey ↦ Document

abbrev MaybeDocumentMap := Finmap fun _ : DocumentKey ↦ MaybeDocument

abbrev OptionalMaybeDocumentMap := Finmap fun _ : DocumentKey ↦ Option MaybeDocument

/-- A document and the time it was read at. -/
structure RemoteDocumentCache where
  docs : Finmap fun _ : DocumentKey ↦ MaybeDocument × SnapshotVersion

namespace RemoteDocumentCache

variable (cache : RemoteDocumentCache)

def add (key : DocumentKey) (document : MaybeDocument) (readTime : SnapshotVersion) :
    RemoteDocumentCache :=
  ⟨cache.docs.insert key (document, readTime)⟩

def remove (key : DocumentKey) : RemoteDocumentCache := ⟨cache.docs.erase key⟩

def get (key : DocumentKey) : Option MaybeDocument := (cache.docs.lookup key).map Prod.fst

-- Each key has an entry, also when there is no document.
def getAll (keys : Finset DocumentKey) : OptionalMaybeDocumentMap :=
  collect keys fun key ↦ some (cache.get key)

-- The document of a row, when it was read after `sinceReadTime` and matches.
def matchingDocument (query : Query) (sinceReadTime : SnapshotVersion) (key : DocumentKey) :
    Option Document :=
  match cache.docs.lookup key with
  | some (.document doc, readTime) =>
      if readTime ≤ sinceReadTime then
        none
      else if query.matchesDocument key doc.data then
        some doc
      else
        none
  | _ => none

-- The rows are in the order of their keys, so the scan stops behind the collection.
def getMatching (query : Query) (sinceReadTime : SnapshotVersion) : DocumentMap :=
  let rows := (valuesFrom cache.docs.keys (startKey query.path)).takeWhile fun key ↦
    ResourcePath.isPrefixOf query.path key.path
  collectFrom ∅ rows (cache.matchingDocument query sinceReadTime)

end RemoteDocumentCache

/-- The cache and the queue of the user. -/
structure LocalDocumentsView (Q : Type) where
  remoteDocumentCache : RemoteDocumentCache
  mutationQueue : Q

namespace LocalDocumentsView

variable {Q : Type} [MutationQueue Q] (view : LocalDocumentsView Q)

def getDocument (key : DocumentKey) : Except HardAssert (Option MaybeDocument) := do
  let batches ← MutationQueue.allMutationBatchesAffectingDocumentKey view.mutationQueue key
  return batches.foldl (fun document batch ↦ batch.applyToLocalDocument document key)
    (view.remoteDocumentCache.get key)

def applyLocalMutationsToDocuments (docs : OptionalMaybeDocumentMap)
    (batches : List MutationBatch) : OptionalMaybeDocumentMap :=
  collect docs.keys fun key ↦ (docs.lookup key).map fun localView ↦
    batches.foldl (fun localView batch ↦ batch.applyToLocalDocument localView key) localView

def getLocalViewOfDocuments (baseDocs : OptionalMaybeDocumentMap) :
    Except HardAssert MaybeDocumentMap := do
  let batches ←
    MutationQueue.allMutationBatchesAffectingDocumentKeys view.mutationQueue baseDocs.keys
  let docs := applyLocalMutationsToDocuments baseDocs batches
  return collect docs.keys fun key ↦ (docs.lookup key).map fun maybeDoc ↦
    maybeDoc.getD (.noDocument SnapshotVersion.none false)

def getDocuments (keys : Finset DocumentKey) : Except HardAssert MaybeDocumentMap :=
  view.getLocalViewOfDocuments (view.remoteDocumentCache.getAll keys)

-- The documents that a patch of the batches needs and that are not there yet.
def missingDocKeys (matchingBatches : List MutationBatch) (existingDocs : DocumentMap) :
    Finset DocumentKey :=
  (((matchingBatches.flatMap MutationBatch.mutations).filter fun m ↦
    m.isPatch && !decide (m.key ∈ existingDocs)).map Mutation.key).toFinset

def addMissingBaseDocuments (matchingBatches : List MutationBatch) (existingDocs : DocumentMap) :
    DocumentMap :=
  let missingDocs := view.remoteDocumentCache.getAll (missingDocKeys matchingBatches existingDocs)
  collectFrom existingDocs (ascending missingDocs.keys) fun key ↦
    (missingDocs.lookup key).bind asDocument

-- One mutation of a batch; only documents of the collection are processed.
def applyMutation (query : Query) (results : DocumentMap) (m : Mutation) : DocumentMap :=
  if ResourcePath.isImmediateParentOf query.path m.key.path then
    match m.applyToLocalView ((results.lookup m.key).map .document) with
    | some (.document mutatedDoc) => results.insert m.key mutatedDoc
    | _ => results.erase m.key
  else
    results

def getDocumentsMatchingCollectionQuery (query : Query) (sinceReadTime : SnapshotVersion) :
    Except HardAssert DocumentMap := do
  let results := view.remoteDocumentCache.getMatching query sinceReadTime
  let matchingBatches ← MutationQueue.allMutationBatchesAffectingQuery view.mutationQueue query
  let results := view.addMissingBaseDocuments matchingBatches results
  let unfiltered := matchingBatches.foldl
    (fun results batch ↦ batch.mutations.foldl (applyMutation query) results) results
  return collect unfiltered.keys fun key ↦
    (unfiltered.lookup key).filter fun doc ↦ query.matchesDocument key doc.data

def getDocumentsMatchingDocumentQuery (key : DocumentKey) : Except HardAssert DocumentMap := do
  let doc ← view.getDocument key
  return (asDocument doc).elim ∅ fun doc ↦ (∅ : DocumentMap).insert key doc

end LocalDocumentsView

/-! ## The view of one document -/

namespace Pending

variable (p : Pending)

def Issued : Prop := ∀ b ∈ p.batches, b.Issued

/-- What is known of a document, under every pending batch. -/
def localView (key : DocumentKey) (remote : Option MaybeDocument) : Option MaybeDocument :=
  p.batches.foldl (fun document batch ↦ batch.applyToLocalDocument document key) remote

/-- The fields of a document under every pending batch. -/
def overlay (key : DocumentKey) (old : Option DocumentData) : Option DocumentData :=
  p.batches.foldl (fun old batch ↦ batch.effect key old) old

variable {p}

theorem Issued.contents_localView (h : p.Issued) (key : DocumentKey)
    (remote : Option MaybeDocument) :
    contents (p.localView key remote) = p.overlay key (contents remote) :=
  foldl_hom_of_mem (fun _ hb document ↦ (h _ hb).contents_applyToLocalDocument document key) remote

-- The batches on other keys do not matter.
theorem foldl_affectingKey (key : DocumentKey) (remote : Option MaybeDocument) :
    (p.affectingKey key).foldl (fun document batch ↦ batch.applyToLocalDocument document key)
      remote = p.localView key remote :=
  foldl_filter_of_fixed (fun _ _ hk ↦ MutationBatch.applyToLocalDocument_of_notMem hk) remote

theorem foldl_affectingKeys {keys : Finset DocumentKey} {key : DocumentKey} (hkey : key ∈ keys)
    (remote : Option MaybeDocument) :
    (p.affectingKeys keys).foldl (fun document batch ↦ batch.applyToLocalDocument document key)
      remote = p.localView key remote := by
  apply foldl_filter_of_fixed
  intro b _ hnone
  apply MutationBatch.applyToLocalDocument_of_notMem
  exact fun hk ↦ hnone ⟨key, Finset.mem_inter.mpr ⟨hk, hkey⟩⟩

theorem foldl_affectingQuery {query : Query} {key : DocumentKey}
    (hkey : ResourcePath.isImmediateParentOf query.path key.path = true)
    (old : Option DocumentData) :
    (p.affectingQuery query).foldl (fun old batch ↦ batch.effect key old) old =
      p.overlay key old := by
  apply foldl_filter_of_fixed
  intro b _ hnone
  apply MutationBatch.effect_of_notMem
  exact fun hk ↦ hnone ⟨key, hk, hkey⟩

end Pending

namespace LocalDocumentsView

variable {Q : Type} [LawfulMutationQueue Q] {view : LocalDocumentsView Q} {p : Pending}

theorem getDocument_eq (h : LawfulMutationQueue.Represents view.mutationQueue p)
    (key : DocumentKey) :
    view.getDocument key = .ok (p.localView key (view.remoteDocumentCache.get key)) := by
  rw [getDocument, LawfulMutationQueue.affectingKey_eq key h, ← Pending.foldl_affectingKey]
  rfl

theorem lookup_getAll (cache : RemoteDocumentCache) (keys : Finset DocumentKey)
    (key : DocumentKey) :
    (cache.getAll keys).lookup key = if key ∈ keys then some (cache.get key) else none :=
  lookup_collect keys _ key

theorem keys_getAll (cache : RemoteDocumentCache) (keys : Finset DocumentKey) :
    (cache.getAll keys).keys = keys := by
  ext key
  rw [mem_keys_iff, lookup_getAll]
  split
  next h => exact iff_of_true rfl h
  next h => exact iff_of_false (by simp) h

theorem getLocalViewOfDocuments_eq
    (h : LawfulMutationQueue.Represents view.mutationQueue p)
    (baseDocs : OptionalMaybeDocumentMap) :
    ∃ docs, view.getLocalViewOfDocuments baseDocs = .ok docs ∧ ∀ key, docs.lookup key =
      (baseDocs.lookup key).map fun maybeDoc ↦
        (p.localView key maybeDoc).getD (.noDocument SnapshotVersion.none false) := by
  unfold getLocalViewOfDocuments
  rw [LawfulMutationQueue.affectingKeys_eq _ h]
  refine ⟨_, rfl, fun key ↦ ?_⟩
  rw [lookup_collect_map, applyLocalMutationsToDocuments, lookup_collect_map]
  cases hbase : baseDocs.lookup key with
  | none => rfl
  | some maybeDoc =>
      have hkey : key ∈ baseDocs.keys := mem_keys_iff.mpr (by rw [hbase]; rfl)
      simp only [Option.map_some, Pending.foldl_affectingKeys hkey]

/-- The documents of a set of keys, fetched together, are the documents fetched one by one. -/
theorem getDocuments_eq (h : LawfulMutationQueue.Represents view.mutationQueue p)
    (keys : Finset DocumentKey) :
    ∃ docs, view.getDocuments keys = .ok docs ∧ ∀ key, docs.lookup key =
      if key ∈ keys then
        some ((p.localView key (view.remoteDocumentCache.get key)).getD
          (.noDocument SnapshotVersion.none false))
      else
        none := by
  obtain ⟨docs, hok, hdocs⟩ :=
    getLocalViewOfDocuments_eq h (view.remoteDocumentCache.getAll keys)
  refine ⟨docs, hok, fun key ↦ ?_⟩
  rw [hdocs, lookup_getAll]
  split <;> rfl

/-! ## The view of a collection -/

-- The scan of the cache finds what matches in it.
theorem lookup_getMatching (cache : RemoteDocumentCache) {query : Query}
    (hq : query.path.length % 2 = 1) (sinceReadTime : SnapshotVersion) (key : DocumentKey) :
    (cache.getMatching query sinceReadTime).lookup key =
      cache.matchingDocument query sinceReadTime key := by
  have hblock : Block cache.docs.keys (startKey query.path) fun key ↦
      ResourcePath.isPrefixOf query.path key.path = true := by
    constructor
    · exact fun {x} _ hp ↦ startKey_le hq (ResourcePath.isPrefixOf_iff.mp hp)
    · intro x y hx hxy hy
      rw [ResourcePath.isPrefixOf_iff] at hy ⊢
      exact isPrefix_of_le_of_le ((le_of_isPrefix (isPrefix_startKey _)).trans hx) hxy hy
  have hscan := takeWhile_valuesFrom hblock
  simp only [Bool.decide_eq_true] at hscan
  rw [RemoteDocumentCache.getMatching, hscan, lookup_collectFrom, Finmap.lookup_empty,
    Option.or_none]
  split
  next => rfl
  next hrow =>
    rw [mem_ascending, Finset.mem_filter, mem_keys_iff] at hrow
    unfold RemoteDocumentCache.matchingDocument
    split
    next doc readTime hdoc =>
      rw [hdoc] at hrow
      have hpath : query.matchesPath key = false := by
        rw [Query.matchesPath_of_odd hq, Bool.eq_false_iff, Ne,
          ResourcePath.isImmediateParentOf_iff]
        exact fun h ↦ hrow ⟨rfl, ResourcePath.isPrefixOf_iff.mpr h.1⟩
      simp [Query.matchesDocument, hpath]
    next => rfl

theorem matchingDocument_eq_some {cache : RemoteDocumentCache} {query : Query}
    {sinceReadTime : SnapshotVersion} {key : DocumentKey} {doc : Document}
    (h : cache.matchingDocument query sinceReadTime key = some doc) :
    asDocument (cache.get key) = some doc := by
  unfold RemoteDocumentCache.matchingDocument at h
  split at h
  next doc' readTime hdoc =>
    rw [RemoteDocumentCache.get, hdoc]
    split at h
    next => cases h
    next =>
      split at h
      next => exact h
      next => cases h
  next => cases h

-- What the scan leaves out does not match.
theorem matchesDocument_of_matchingDocument_none {cache : RemoteDocumentCache} {query : Query}
    {sinceReadTime : SnapshotVersion} {key : DocumentKey} {doc : Document}
    (hread : ∀ doc readTime, cache.docs.lookup key = some (doc, readTime) →
      sinceReadTime < readTime)
    (h : cache.matchingDocument query sinceReadTime key = none)
    (hdoc : asDocument (cache.get key) = some doc) :
    query.matchesDocument key doc.data = false := by
  rw [RemoteDocumentCache.get] at hdoc
  unfold RemoteDocumentCache.matchingDocument at h
  split at h
  next doc' readTime hlook =>
    rw [hlook] at hdoc
    obtain rfl := Option.some.inj hdoc
    rw [if_neg (not_le.mpr (hread _ _ hlook))] at h
    split at h
    next => cases h
    next hm => exact Bool.eq_false_iff.mpr hm
  next hlook =>
    exfalso
    cases hl : cache.docs.lookup key with
    | none => simp [hl] at hdoc
    | some row =>
        obtain ⟨maybeDoc, readTime⟩ := row
        cases maybeDoc with
        | document doc' => exact hlook doc' readTime hl
        | noDocument => simp [hl] at hdoc
        | unknownDocument => simp [hl] at hdoc

omit [LawfulMutationQueue Q] in
theorem lookup_addMissingBaseDocuments (matchingBatches : List MutationBatch)
    (existingDocs : DocumentMap) (key : DocumentKey) :
    (view.addMissingBaseDocuments matchingBatches existingDocs).lookup key =
      if key ∈ missingDocKeys matchingBatches existingDocs then
        (asDocument (view.remoteDocumentCache.get key)).or (existingDocs.lookup key)
      else
        existingDocs.lookup key := by
  rw [addMissingBaseDocuments, lookup_collectFrom, keys_getAll, lookup_getAll]
  simp only [mem_ascending]
  split
  next => rfl
  next => rfl

theorem mem_missingDocKeys {matchingBatches : List MutationBatch} {existingDocs : DocumentMap}
    {key : DocumentKey} : key ∈ missingDocKeys matchingBatches existingDocs ↔
      existingDocs.lookup key = none ∧
        ∃ b ∈ matchingBatches, ∃ m ∈ b.mutations, m.key = key ∧ m.isPatch = true := by
  simp only [missingDocKeys, List.mem_toFinset, List.mem_map, List.mem_filter, List.mem_flatMap,
    Bool.and_eq_true, Bool.not_eq_true', decide_eq_false_iff_not, ← Finmap.lookup_eq_none]
  constructor
  · rintro ⟨m, ⟨⟨b, hb, hm⟩, hpatch, hnone⟩, rfl⟩
    exact ⟨hnone, b, hb, m, hm, rfl, hpatch⟩
  · rintro ⟨hnone, b, hb, m, hm, rfl, hpatch⟩
    exact ⟨m, ⟨⟨b, hb, hm⟩, hpatch, hnone⟩, rfl⟩

theorem map_data_filter (doc : Option Document) (P : DocumentData → Bool) :
    (doc.filter fun doc ↦ P doc.data).map Document.data = (doc.map Document.data).filter P :=
  Option.filter_map.symm

-- On the documents of the collection a mutation has its effect.
theorem lookup_applyMutation {query : Query} {m : Mutation} (hm : m.Issued)
    {key : DocumentKey} (hkey : ResourcePath.isImmediateParentOf query.path key.path = true)
    (results : DocumentMap) :
    ((applyMutation query results m).lookup key).map Document.data =
      if m.key = key then m.effect ((results.lookup key).map Document.data)
      else (results.lookup key).map Document.data := by
  split
  next hk =>
    subst hk
    rw [applyMutation, if_pos hkey]
    have hcontents : contents ((results.lookup m.key).map MaybeDocument.document) =
        (results.lookup m.key).map Document.data := by
      cases results.lookup m.key <;> rfl
    rw [← hcontents, ← hm.contents_applyToLocalView]
    cases m.applyToLocalView ((results.lookup m.key).map .document) with
    | none => simp
    | some maybeDoc => cases maybeDoc <;> simp
  next hk =>
    rw [applyMutation]
    split
    next =>
      split
      next => rw [Finmap.lookup_insert_of_ne _ (Ne.symm hk)]
      next => rw [Finmap.lookup_erase_ne (Ne.symm hk)]
    next => rfl

theorem lookup_foldl_applyMutation {query : Query} {batches : List MutationBatch}
    (hb : ∀ b ∈ batches, b.Issued) {key : DocumentKey}
    (hkey : ResourcePath.isImmediateParentOf query.path key.path = true)
    (results : DocumentMap) :
    ((batches.foldl (fun results batch ↦ batch.mutations.foldl (applyMutation query) results)
        results).lookup key).map Document.data =
      batches.foldl (fun old batch ↦ batch.effect key old)
        ((results.lookup key).map Document.data) := by
  apply foldl_hom_of_mem (f := fun results : DocumentMap ↦
    (results.lookup key).map Document.data)
  intro b hmem results
  apply foldl_hom_of_mem (f := fun results : DocumentMap ↦
    (results.lookup key).map Document.data)
  exact fun m hm results ↦ lookup_applyMutation (hb b hmem m hm) hkey results

end LocalDocumentsView

namespace Pending

variable {p : Pending}

-- Without a patch on the key its oldest mutation hides what was there before.
theorem Issued.overlay_congr (h : p.Issued) {key : DocumentKey}
    (hpatch : ∀ b ∈ p.batches, ∀ m ∈ b.mutations, m.key = key → m.isPatch = false) :
    (∀ old, p.overlay key old = old) ∨ ∀ old old', p.overlay key old = p.overlay key old' := by
  have hflat : ∀ old, p.overlay key old =
      ((p.batches.flatMap MutationBatch.mutations).filter fun m ↦ m.key = key).foldl
        (fun old m ↦ if m.key = key then m.effect old else old) old := by
    intro old
    rw [foldl_filter_of_fixed fun m _ hk old ↦ if_neg hk, List.foldl_flatMap]
    rfl
  have hnonpatch : ∀ m ∈ (p.batches.flatMap MutationBatch.mutations).filter fun m ↦ m.key = key,
      m.Issued ∧ m.key = key ∧ m.isPatch = false := by
    intro m hm
    obtain ⟨hm, hk⟩ := List.mem_filter.mp hm
    obtain ⟨b, hb, hmb⟩ := List.mem_flatMap.mp hm
    rw [decide_eq_true_eq] at hk
    exact ⟨h b hb m hmb, hk, hpatch b hb m hmb hk⟩
  cases hl : (p.batches.flatMap MutationBatch.mutations).filter fun m ↦ m.key = key with
  | nil =>
      left
      intro old
      rw [hflat, hl]
      rfl
  | cons m ms =>
      right
      intro old old'
      obtain ⟨hissued, hk, hnp⟩ := hnonpatch m (hl ▸ List.mem_cons_self)
      have heffect : m.effect old = m.effect old' := by
        cases m with
        | set => rfl
        | patch => cases hnp
        | delete => rfl
      rw [hflat, hflat, hl, List.foldl_cons, List.foldl_cons, if_pos hk, if_pos hk, heffect]

end Pending

namespace LocalDocumentsView

variable {Q : Type} [LawfulMutationQueue Q] {view : LocalDocumentsView Q} {p : Pending}

omit [LawfulMutationQueue Q] in
-- What the cache holds and the scan leaves out is hidden by the mutations or does not match.
theorem filter_overlay_eq (hi : p.Issued) {query : Query} (hq : query.path.length % 2 = 1)
    {key : DocumentKey}
    (hkey : ResourcePath.isImmediateParentOf query.path key.path = true)
    {sinceReadTime : SnapshotVersion}
    (hread : ∀ doc readTime, view.remoteDocumentCache.docs.lookup key = some (doc, readTime) →
      sinceReadTime < readTime) :
    (p.overlay key (((view.addMissingBaseDocuments (p.affectingQuery query)
        (view.remoteDocumentCache.getMatching query sinceReadTime)).lookup key).map
          Document.data)).filter (query.matchesDocument key) =
      (p.overlay key (contents (view.remoteDocumentCache.get key))).filter
        (query.matchesDocument key) := by
  rw [lookup_addMissingBaseDocuments, lookup_getMatching _ hq]
  cases hmatch : view.remoteDocumentCache.matchingDocument query sinceReadTime key with
  | some doc =>
      have hdoc := matchingDocument_eq_some hmatch
      rw [contents, hdoc]
      split <;> rfl
  | none =>
      split
      next => rw [Option.or_none, contents]
      next hmissing =>
        cases hdoc : asDocument (view.remoteDocumentCache.get key) with
        | none => rw [contents, hdoc]
        | some doc =>
            -- the cached document does not match, and no patch wants it
            have hnot := matchesDocument_of_matchingDocument_none hread hmatch hdoc
            have hpatch : ∀ b ∈ p.batches, ∀ m ∈ b.mutations, m.key = key →
                m.isPatch = false := by
              intro b hb m hm hk
              apply Bool.eq_false_iff.mpr
              intro hp
              apply hmissing
              rw [mem_missingDocKeys, lookup_getMatching _ hq]
              refine ⟨hmatch, b, List.mem_filter.mpr ⟨hb, ?_⟩, m, hm, hk, hp⟩
              exact decide_eq_true
                ⟨key, MutationBatch.mem_keys.mpr ⟨m, hm, hk⟩, hkey⟩
            rw [contents, hdoc]
            rcases hi.overlay_congr hpatch with hid | hcongr
            · rw [hid, hid]
              symm
              apply Option.filter_eq_none_iff.mpr
              intro data hdata
              rw [← Option.some.inj hdata]
              exact Bool.eq_false_iff.mp hnot
            · rw [hcongr]

/-- The query finds the documents whose own local view matches, with the fields of that view. -/
theorem getDocumentsMatchingCollectionQuery_eq
    (h : LawfulMutationQueue.Represents view.mutationQueue p) (hi : p.Issued) {query : Query}
    (hq : query.isDocumentQuery = false) {sinceReadTime : SnapshotVersion}
    (hread : ∀ key doc readTime, view.remoteDocumentCache.docs.lookup key = some (doc, readTime) →
      sinceReadTime < readTime) :
    ∃ result, view.getDocumentsMatchingCollectionQuery query sinceReadTime = .ok result ∧
      ∀ key, (result.lookup key).map Document.data =
        (contents (p.localView key (view.remoteDocumentCache.get key))).filter
          (query.matchesDocument key) := by
  have hodd : query.path.length % 2 = 1 := by
    have : query.path.length % 2 ≠ 0 := by simpa [Query.isDocumentQuery] using hq
    omega
  unfold getDocumentsMatchingCollectionQuery
  rw [LawfulMutationQueue.affectingQuery_eq h hq]
  refine ⟨_, rfl, fun key ↦ ?_⟩
  rw [lookup_collect_filter, map_data_filter, hi.contents_localView]
  cases hkey : ResourcePath.isImmediateParentOf query.path key.path with
  | false =>
      have hno : ∀ data, query.matchesDocument key data = false := by
        intro data
        rw [Query.matchesDocument, Query.matchesPath_of_odd hodd, hkey, Bool.false_and]
      have hnone : ∀ old : Option DocumentData, old.filter (query.matchesDocument key) = none :=
        fun old ↦ Option.filter_eq_none_iff.mpr fun data _ ↦ Bool.eq_false_iff.mp (hno data)
      rw [hnone, hnone]
  | true =>
      have hb : ∀ b ∈ p.affectingQuery query, b.Issued := fun b hb ↦ hi b (List.mem_filter.mp hb).1
      rw [lookup_foldl_applyMutation hb hkey, Pending.foldl_affectingQuery hkey]
      exact filter_overlay_eq hi hodd hkey (hread key)

end LocalDocumentsView

end LadyBook.Firestore
