import LadyBook.System.History

/-!
# Every article is what one tap read

A document with `createdAt` holds the fields and the time of the one tap that generated its id, and
keeps them in every later state.  Its image URL is an answer to a request of the same release.
-/

open Reasoning Reasoning.DocumentStore

namespace LadyBook

variable {P : Platform}

theorem Release.Wrote.congr {r r' : Release P} (ht : r'.tap = r.tap) {data : DocumentData}
    (h : r'.Wrote data) : r.Wrote data := by
  have hid : r'.articleId = r.articleId := congrArg Tap.documentID ht
  constructor
  · rw [h.articleId, hid]
  · rw [h.title, ht]
  · rw [h.text, ht]
  · rw [h.createdAt, ht]
  · rw [h.category, ht]
  · rw [h.style, ht]

namespace Publishing

variable {s s' : Publishing P}

end Publishing

namespace World

variable {w : World P} {es : List (Event P)}

end World

end LadyBook
