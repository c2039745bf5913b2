import LadyBook.System.Consistency

/-!
# What a document holds

A document of the collection, or of a client's view of it, is the article of the release that
generated its id, the image URL of that release, or both.  One that carries `createdAt` is an
article.
-/

open Reasoning Reasoning.DocumentStore

namespace LadyBook

variable {P : Platform}

namespace Release

variable {r : Release P} {data : DocumentData}

/-- The fields are those that the tap of the release read. -/
structure Wrote (r : Release P) (data : DocumentData) : Prop where
  articleId : data.lookup "articleId" = some (.string r.articleId)
  title : data.lookup "title" = some (.string r.tap.views.titleTextView)
  text : data.lookup "text" = some (.string r.tap.views.articleTextView)
  createdAt : data.lookup "createdAt" = some (.timestamp r.tap.timestamp)
  category : data.lookup "category" = r.tap.categoryTextField.map .string
  style : data.lookup "style" = r.tap.styleTextField.map .string

/-- An image URL is the one that the release obtained for its upload. -/
def Depicts (r : Release P) (data : DocumentData) : Prop :=
  ∀ v, data.lookup "imageURL" = some v →
    ∃ u, r.downloadUrl = some u ∧ v = .string (P.absoluteString u)

theorem imageFields_lookup_self (url : String) :
    (imageFields url).lookup "imageURL" = some (.string url) :=
  Finmap.lookup_insert _

theorem imageFields_lookup_ne (url : String) {field : String} (h : field ≠ "imageURL") :
    (imageFields url).lookup field = none := by
  unfold imageFields
  rw [Finmap.lookup_insert_of_ne _ h, Finmap.lookup_empty]

theorem wrote_document (r : Release P) : r.Wrote r.tap.document where
  articleId := r.tap.document_articleId
  title := r.tap.document_title
  text := r.tap.document_text
  createdAt := r.tap.document_createdAt
  category := r.tap.document_category
  style := r.tap.document_style

theorem Wrote.merge (h : r.Wrote data) (url : String) : r.Wrote (imageFields url ∪ data) := by
  have hkeep : ∀ field, field ≠ "imageURL" →
      (imageFields url ∪ data).lookup field = data.lookup field := by
    intro field hne
    rw [lookup_union, imageFields_lookup_ne url hne, Option.none_or]
  constructor
  · rw [hkeep _ (by decide), h.articleId]
  · rw [hkeep _ (by decide), h.title]
  · rw [hkeep _ (by decide), h.text]
  · rw [hkeep _ (by decide), h.createdAt]
  · rw [hkeep _ (by decide), h.category]
  · rw [hkeep _ (by decide), h.style]

theorem depicts_document (r : Release P) : r.Depicts r.tap.document := by
  intro v hv
  rw [r.tap.document_imageURL] at hv
  cases hv

theorem depicts_merge {u : P.URL} (hu : r.downloadUrl = some u) (data : DocumentData) :
    r.Depicts (imageFields (P.absoluteString u) ∪ data) := by
  intro v hv
  rw [lookup_union, imageFields_lookup_self, Option.some_or] at hv
  exact ⟨u, hu, (Option.some.inj hv).symm⟩

end Release

-- A document that its plan accounts for comes from one release, and is its article if it carries
-- `createdAt`.
theorem plan_document {rs : List (Release P)} (hn : (rs.map Release.articleId).Nodup)
    {k : DocumentID} {data : DocumentData} (h : (plan rs).Document k data) :
    ∃ (i : ℕ) (r : Release P), rs[i]? = some r ∧ r.articleId = k ∧ r.Depicts data ∧
      (∀ v, data.lookup "createdAt" = some v → r.Wrote data) := by
  cases h with
  | base hb =>
      obtain ⟨i, r, hi, hw⟩ := hb
      obtain ⟨hk, rfl⟩ := Release.firstWrite_key hw
      exact ⟨i, r, hi, hk, r.depicts_document, fun _ _ ↦ r.wrote_document⟩
  | patch ha =>
      obtain ⟨i, r, hi, hw⟩ := ha
      obtain ⟨hk, u, hu, rfl⟩ := Release.mergeWrite_key hw
      refine ⟨i, r, hi, hk, ?_, fun v hv ↦ ?_⟩
      · have hempty := Release.depicts_merge hu ∅
        rwa [Finmap.union_empty] at hempty
      · rw [Release.imageFields_lookup_ne _ (by decide)] at hv
        cases hv
  | both ha hb =>
      obtain ⟨i, r, hi, hw⟩ := ha
      obtain ⟨j, r', hj, hw'⟩ := hb
      obtain ⟨hk, u, hu, rfl⟩ := Release.mergeWrite_key hw
      obtain ⟨hk', rfl⟩ := Release.firstWrite_key hw'
      -- both writes are on the id of one release
      have hij : i = j := getElem?_inj_of_nodup hn hi hj (hk.trans hk'.symm)
      subst hij
      obtain rfl := Option.mem_unique hi hj
      exact ⟨i, r, hi, hk, Release.depicts_merge hu _, fun _ _ ↦ r.wrote_document.merge _⟩

namespace Publishing

variable {s : Publishing P}

theorem Consistent.document (h : s.Consistent) {c : Collection}
    (hc : (plan s.releases).Accounts c) {id : DocumentID} {data : DocumentData}
    (hd : c.lookup id = some data) :
    ∃ (i : ℕ) (r : Release P), s.releases[i]? = some r ∧ r.articleId = id ∧ r.Depicts data ∧
      (∀ v, data.lookup "createdAt" = some v → r.Wrote data) :=
  plan_document h.ids (hc id data hd)

end Publishing

end LadyBook
