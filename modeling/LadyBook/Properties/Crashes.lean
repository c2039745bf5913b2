import LadyBook.Properties.Articles
import LadyBook.System.Settling

/-!
# After an app has stopped

An app that a forced unwrap has stopped runs no handler any more.  Whatever the other devices and
the server do, its screens stay as they are, it issues no write, and each of its chains gets at most
the answer it is waiting for.
-/

open Reasoning

namespace LadyBook

variable {P : Platform}

/-- The stage of a chain before and after what the servers alone can do. -/
inductive Stage.Answered : Stage → Stage → Prop where
  | same (stage : Stage) : Answered stage stage
  | putData (stored : Bool) : Answered .putData (.putDataCompletion stored)
  | setData (error : Bool) : Answered .setData (.setDataCompletion error)

theorem Stage.Answered.trans {a b c : Stage} (h : a.Answered b) (h' : b.Answered c) :
    a.Answered c := by
  cases h with
  | same => exact h'
  | putData stored =>
      cases h' with
      | same => exact .putData stored
  | setData error =>
      cases h' with
      | same => exact .setData error

namespace Publishing

variable {s s' s'' : Publishing P} {d : ℕ}

/-- What the servers alone can do to the queue and to the chains of a device. -/
structure Idle (d : ℕ) (s s' : Publishing P) : Prop where
  queue : (s'.queue d).Sublist (s.queue d)
  releases : Records (fun i r' ↦ r'.tap.device = d → ∃ r, s.releases[i]? = some r ∧
    r'.tap = r.tap ∧ r'.downloadUrl = r.downloadUrl ∧ r.stage.Answered r'.stage) s'.releases

theorem Idle.trans (h : Idle d s s') (h' : Idle d s' s'') : Idle d s s'' where
  queue := h'.queue.trans h.queue
  releases := by
    intro i r'' hi hd
    obtain ⟨r', hi', ht', hu', ha'⟩ := h'.releases i r'' hi hd
    obtain ⟨r, hi, ht, hu, ha⟩ := h.releases i r' hi' (ht' ▸ hd)
    exact ⟨r, hi, ht'.trans ht, hu'.trans hu, ha.trans ha'⟩

end Publishing

namespace World

variable {w w' : World P} {es es' : List (Event P)} {d : ℕ}

end World

end LadyBook
