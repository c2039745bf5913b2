import LadyBook.System.Readers
import LadyBook.System.Writes

/-!
# What a device sees

The client of a device shows the collection under the writes in its queue.  On the ids of its own
releases it shows what they wrote and the server has not rejected; on every other id it shows what
the server has.
-/

open Reasoning Reasoning.DocumentStore

namespace LadyBook.Publishing

variable {P : Platform} {s : Publishing P}

/-- The writes that make up the view of a device: the accepted ones, then those of its queue. -/
def shown (s : Publishing P) (d : ℕ) : List DocumentWrite :=
  s.accepted ++ (s.queue d).map QueuedWrite.write

theorem shown_sublist (s : Publishing P) (d : ℕ) : (s.shown d).Sublist (s.known d) :=
  (List.filter_sublist.map Prod.fst).append_right _

theorem Ordered.shown (ho : s.Ordered) (d : ℕ) (k : DocumentID) : BasesFirst k (s.shown d) :=
  (ho d k).sublist (shown_sublist s d)

/-- On an id that no queued write of the device is on, the view is the collection. -/
theorem lookup_localView_of_forall_ne {d : ℕ} {k : DocumentID}
    (hk : ∀ q ∈ s.queue d, q.write.key ≠ k) : (s.localView d).lookup k = s.articles.lookup k := by
  refine lookup_replay_of_forall_ne fun w hw ↦ ?_
  obtain ⟨q, hq, rfl⟩ := List.mem_map.mp hw
  exact hk q hq

-- The accepted writes of one kind on an id are one write.
theorem Consistent.agree_accepted (h : s.Consistent) : Agree s.accepted := by
  intro w hw w' hw' hk hm
  obtain ⟨i, r, hi, hkey, -⟩ := allows_key (h.decided w true (mem_accepted.mp hw))
  have hown := h.accepted_write hi hw hkey.symm
  have hown' := h.accepted_write hi hw' (hk.symm.trans hkey.symm)
  rw [← hm] at hown'
  split at hown
  next hmerge =>
    rw [if_pos hmerge] at hown'
    rw [Option.some.inj (hown.symm.trans hown')]
  next hmerge =>
    rw [if_neg hmerge] at hown'
    rw [Option.some.inj (hown.symm.trans hown')]

/-! ## What a query lists -/

end LadyBook.Publishing
