import LadyBook.Controller.Feed
import LadyBook.System.Documents

/-!
# The readers and the writer

The two feeds decode documents with different required fields.  On the documents that releases write
they agree: every document with `createdAt` is read, in the order of the query.
-/

open Reasoning Reasoning.DocumentStore

namespace LadyBook

variable {P : Platform}

/-- The article read from a document shows what the release wrote. -/
structure Release.Shown (r : Release P) (kind : FeedKind) (a : Article) : Prop where
  articleId : a.articleId = r.articleId
  title : a.title = some r.tap.views.titleTextView
  text : kind = .first2 → a.text = some r.tap.views.articleTextView
  createdAt : a.createdAt = r.tap.timestamp

theorem Release.Wrote.readDocument {r : Release P} {data : DocumentData} (h : r.Wrote data)
    (kind : FeedKind) : ∃ a, kind.readDocument r.articleId data = some a ∧ r.Shown kind a := by
  have htitle := DocumentData.string?_of_lookup h.title
  have htext := DocumentData.string?_of_lookup h.text
  have hcreatedAt := DocumentData.timestamp?_of_lookup h.createdAt
  cases kind with
  | first =>
      refine ⟨Article.make r.articleId r.tap.views.titleTextView "" r.tap.timestamp, ?_,
        rfl, rfl, (fun hk ↦ by cases hk), rfl⟩
      show FirstViewController.readDocument _ _ = _
      rw [FirstViewController.readDocument, htitle, hcreatedAt]
  | first2 =>
      refine ⟨Article.make r.articleId r.tap.views.titleTextView r.tap.views.articleTextView
        r.tap.timestamp, ?_, rfl, rfl, fun _ ↦ rfl, rfl⟩
      show FirstView2Controller.readDocument _ _ = _
      rw [FirstView2Controller.readDocument, htitle, htext, hcreatedAt]

namespace Publishing

variable {s : Publishing P} {c : Collection}

end Publishing

end LadyBook
