import LadyBook.Reasoning.Progress
import LadyBook.System.Chains

/-!
# What is left to do

A chain has a bounded number of events before it and a queue a bounded number of writes.  Every
answer of a server and every handler lowers what is left; only a tap raises it, by six events.  A
chain that waits for its merging write finds it in the queue of its device, so no chain is stuck.
-/

open Reasoning

namespace LadyBook

variable {P : Platform}

/-- The events that a chain has before it.  The merging write of a chain at `setData` is queued, and
counts there. -/
def Stage.remaining : Stage → ℕ
  | putData => 5
  | putDataCompletion _ => 4
  | downloadURL => 3
  | setData => 1
  | setDataCompletion _ => 1
  | succeeded => 0
  | stopped => 0

theorem Release.remaining_start (t : Tap P) (h : t.views.titleTextView.isEmpty = false) :
    (Release.start t h).stage.remaining ≤ 5 := by
  unfold Release.start
  split
  · exact Nat.le_refl 5
  · exact Nat.zero_le 5

namespace Publishing

variable {s s' : Publishing P}

def devices (rs : List (Release P)) : Finset ℕ := (rs.map fun r ↦ r.tap.device).toFinset

/-- The steps that the chains have before them and the writes that the queues hold. -/
def left (rs : List (Release P)) (queue : ℕ → List QueuedWrite) : ℕ :=
  (rs.map fun r ↦ r.stage.remaining).sum + ∑ d ∈ devices rs, (queue d).length

def pending (s : Publishing P) : ℕ := left s.releases s.queue

def Event.isTap : Event P → Bool
  | .tapReleaseButton _ => true
  | _ => false

/-- An answer of a server, or a completion handler. -/
def Event.isAnswer : Event P → Bool
  | .tapReleaseButton _ => false
  | _ => true

theorem mem_devices {rs : List (Release P)} {d : ℕ} :
    d ∈ devices rs ↔ ∃ r ∈ rs, r.tap.device = d := by
  simp only [devices, List.mem_toFinset, List.mem_map]

theorem devices_concat (rs : List (Release P)) (r : Release P) :
    devices (rs ++ [r]) = insert r.tap.device (devices rs) := by
  rw [devices, List.map_append, List.toFinset_append, Finset.union_comm]
  rfl

theorem devices_modify {rs : List (Release P)} {i : ℕ} {f : Release P → Release P}
    (ht : ∀ r, (f r).tap = r.tap) : devices (rs.modify i f) = devices rs :=
  congrArg List.toFinset (map_modify_of_eq fun r _ ↦ congrArg Tap.device (ht r))

theorem Consistent.queue_eq_nil (h : s.Consistent) {d : ℕ} (hd : d ∉ devices s.releases) :
    s.queue d = [] := by
  rw [List.eq_nil_iff_forall_not_mem]
  intro q hq
  obtain ⟨i, r, hi, hr, -⟩ := h.queued d q hq
  exact hd (mem_devices.mpr ⟨r, List.mem_of_getElem? hi, hr⟩)

-- One queue is replaced; its device may be a new one.
theorem Consistent.sum_queue (h : s.Consistent) (d : ℕ) (l : List QueuedWrite) :
    ∑ x ∈ insert d (devices s.releases), (Function.update s.queue d l x).length +
        (s.queue d).length = ∑ x ∈ devices s.releases, (s.queue x).length + l.length := by
  have hlength : ∀ x, (Function.update s.queue d l x).length =
      Function.update (fun x ↦ (s.queue x).length) d l.length x :=
    fun x ↦ Function.apply_update (fun _ ↦ List.length) s.queue d l x
  rw [Finset.sum_congr rfl fun x _ ↦ hlength x]
  exact sum_update_insert (f := fun x ↦ (s.queue x).length)
    (fun hd ↦ by rw [h.queue_eq_nil hd, List.length_nil]) l.length

-- A chain moves on while the queue of a device with releases is replaced.
theorem Consistent.left_modify (h : s.Consistent) {i : ℕ} {r : Release P}
    (hi : s.releases[i]? = some r) (f : Release P → Release P) (ht : ∀ r, (f r).tap = r.tap)
    {d : ℕ} (hd : d ∈ devices s.releases) (l : List QueuedWrite) :
    left (s.releases.modify i f) (Function.update s.queue d l) + r.stage.remaining +
        (s.queue d).length = s.pending + (f r).stage.remaining + l.length := by
  have hsum := sum_map_modify hi f fun r ↦ r.stage.remaining
  have hqueue := h.sum_queue d l
  rw [Finset.insert_eq_of_mem hd] at hqueue
  unfold pending left
  rw [devices_modify ht]
  omega

-- A handler or an answer of Storage moves one chain on.
theorem Consistent.pending_advance (h : s.Consistent) {i : ℕ} {r : Release P}
    (hi : s.releases[i]? = some r) (f : Release P → Release P) (ht : ∀ r, (f r).tap = r.tap)
    (hf : (f r).stage.remaining + 1 ≤ r.stage.remaining) :
    left (s.releases.modify i f) s.queue + 1 ≤ s.pending := by
  have hd : r.tap.device ∈ devices s.releases :=
    mem_devices.mpr ⟨r, List.mem_of_getElem? hi, rfl⟩
  have hleft := h.left_modify hi f ht hd (s.queue r.tap.device)
  rw [Function.update_eq_self] at hleft
  omega

theorem Consistent.pending_tapReleaseButton (h : s.Consistent) {t : Tap P}
    (hs : s.tapReleaseButton t = some s') : s'.pending ≤ s.pending + 6 := by
  rcases tapReleaseButton_some hs with ⟨-, rfl⟩ | ⟨ht, -, rfl⟩
  · omega
  have hqueue := h.sum_queue t.device (s.queue t.device ++
    (Release.start t ht).firstWrite.toList.map (⟨·, none⟩))
  have hwrites : ((Release.start t ht).firstWrite.toList.map
      fun w ↦ QueuedWrite.mk w none).length ≤ 1 := by
    cases (Release.start t ht).firstWrite <;> simp
  have hstage := Release.remaining_start t ht
  show left (s.releases ++ [Release.start t ht]) (Function.update s.queue t.device _) ≤ _
  have hdevice : (Release.start t ht).tap.device = t.device := rfl
  unfold pending left
  rw [devices_concat, hdevice, List.map_append, List.sum_append, List.map_singleton,
    List.sum_singleton]
  rw [List.length_append] at hqueue
  omega

theorem Consistent.pending_downloadURLCompletion (h : s.Consistent) {i : ℕ} {url : Option P.URL}
    (hs : s.downloadURLCompletion i url = some s') : s'.pending + 1 ≤ s.pending := by
  obtain ⟨r, hi, hst, -, rfl⟩ := downloadURLCompletion_some hs
  have hdevice : r.tap.device ∈ devices s.releases :=
    mem_devices.mpr ⟨r, List.mem_of_getElem? hi, rfl⟩
  have hleft := h.left_modify hi (fun r ↦ (r.downloadURLCompletion url).1)
    (fun r ↦ by cases url <;> rfl) hdevice (s.queue r.tap.device ++
      (r.downloadURLCompletion url).2.toList.map (⟨·, some i⟩))
  -- the chain stops, or has its merging write queued
  have hstage : (r.downloadURLCompletion url).1.stage.remaining +
      ((r.downloadURLCompletion url).2.toList.map fun w ↦ QueuedWrite.mk w (some i)).length + 1 ≤
        r.stage.remaining := by
    rw [hst]
    cases url with
    | none => exact Nat.le_add_left 1 2
    | some u => exact Nat.le_refl 3
  show left (s.releases.modify i fun r ↦ (r.downloadURLCompletion url).1)
    (Function.update s.queue r.tap.device _) + 1 ≤ _
  rw [List.length_append] at hleft
  omega

theorem Consistent.pending_decide (h : s.Consistent) {d n : ℕ} {b : Bool}
    (hs : s.decide d n b = some s') : s'.pending + 1 ≤ s.pending := by
  obtain ⟨q, hq, rfl⟩ := decide_some hs
  have hmem := List.mem_of_getElem? hq
  have hdevice : d ∈ devices s.releases := by
    by_contra hd
    rw [h.queue_eq_nil hd] at hmem
    cases hmem
  have hlength := (decide_queue hq).length_eq
  rw [List.length_cons] at hlength
  cases hc : q.completion with
  | none =>
      have hqueue := h.sum_queue d ((s.queue d).eraseIdx n)
      rw [Finset.insert_eq_of_mem hdevice] at hqueue
      show left s.releases (Function.update s.queue d _) + 1 ≤ _
      unfold pending left
      omega
  | some i =>
      -- the release waited for this write, and is told now
      obtain ⟨r, hi, -, hst, -⟩ := h.completion hmem hc
      have hleft : left (s.releases.modify i fun r ↦ { r with stage := .setDataCompletion !b })
          (Function.update s.queue d ((s.queue d).eraseIdx n)) + r.stage.remaining +
            (s.queue d).length = s.pending + 1 + ((s.queue d).eraseIdx n).length :=
        h.left_modify hi (fun r ↦ { r with stage := .setDataCompletion !b }) (fun _ ↦ rfl) hdevice _
      have hstage : r.stage.remaining = 1 := congrArg Stage.remaining hst
      show left (s.releases.modify i fun r ↦ { r with stage := .setDataCompletion !b })
        (Function.update s.queue d _) + 1 ≤ _
      omega

theorem Consistent.pending_step (h : s.Consistent) {e : Event P} (hs : s.step e = some s') :
    s'.pending + (if e.isAnswer then 1 else 0) ≤ s.pending + 6 * if e.isTap then 1 else 0 := by
  cases e with
  | tapReleaseButton t => exact h.pending_tapReleaseButton hs
  | putData i stored =>
      obtain ⟨r, reference, imageData, hi, hst, -, rfl⟩ := putData_some hs
      exact h.pending_advance hi ({ · with stage := .putDataCompletion stored }) (fun _ ↦ rfl)
        (by rw [hst]; exact Nat.le_refl 5)
  | putDataCompletion i =>
      obtain ⟨r, m, hi, hst, rfl⟩ := putDataCompletion_some hs
      refine h.pending_advance hi (·.putDataCompletion m) (fun a ↦ by cases m <;> rfl) ?_
      rw [hst]
      cases m with
      | true => exact Nat.le_refl 4
      | false => exact Nat.le_add_left 1 3
  | downloadURLCompletion i url => exact h.pending_downloadURLCompletion hs
  | decide d n b => exact h.pending_decide hs
  | setDataCompletion i =>
      obtain ⟨r, error, hi, hst, rfl⟩ := setDataCompletion_some hs
      refine h.pending_advance hi (·.setDataCompletion error) (fun _ ↦ rfl) ?_
      rw [hst]
      cases error <;> exact Nat.le_refl 1

/-- The answers and handlers of a run are paid for by its taps. -/
theorem Consistent.pending_run (h : s.Consistent) {es : List (Event P)}
    (hs : run Publishing.step s es = some s') :
    s'.pending + es.countP Event.isAnswer ≤ s.pending + 6 * es.countP Event.isTap :=
  run_amortized (I := Publishing.Consistent) (W := Event.isAnswer) (C := Event.isTap)
    (fun hI hs ↦ hI.step hs) (fun hI hs ↦ hI.pending_step hs) h hs

/-! ## No chain is stuck -/

/-- A chain that waits for its merging write finds it in the queue of its device. -/
def Waits (s : Publishing P) : Prop :=
  Records (fun i r ↦ r.stage = .setData → ∃ q ∈ s.queue r.tap.device, q.completion = some i)
    s.releases

-- A chain moves to another stage than that of the wait.
theorem Waits.advance (hw : s.Waits) (i : ℕ) (f : Release P → Release P)
    (hf : ∀ r, (f r).stage ≠ .setData) (storage : String → Option P.Data) :
    Waits { s with releases := s.releases.modify i f, storage := storage } :=
  Records.modify hw fun r _ _ hst ↦ absurd hst (hf r)

theorem Waits.step (hw : s.Waits) {e : Event P} (hs : s.step e = some s') : s'.Waits := by
  cases e with
  | tapReleaseButton t =>
      rcases tapReleaseButton_some hs with ⟨-, rfl⟩ | ⟨ht, -, rfl⟩
      · exact hw
      · refine Records.concat (hw.imp fun j r hr hst ↦ ?_) fun hst ↦ ?_
        · obtain ⟨q, hq, hqc⟩ := hr hst
          exact ⟨q, s.mem_enqueue.mpr (Or.inl hq), hqc⟩
        · unfold Release.start at hst
          split at hst <;> cases hst
  | putData i stored =>
      obtain ⟨r, reference, imageData, hi, -, -, rfl⟩ := putData_some hs
      exact hw.advance i ({ · with stage := .putDataCompletion stored }) (fun _ ↦ by simp) _
  | putDataCompletion i =>
      obtain ⟨r, m, hi, -, rfl⟩ := putDataCompletion_some hs
      exact hw.advance i (·.putDataCompletion m)
        (fun _ ↦ by cases m <;> simp [Release.putDataCompletion]) s.storage
  | downloadURLCompletion i url =>
      obtain ⟨r, hi, -, -, rfl⟩ := downloadURLCompletion_some hs
      intro j r' hj hst
      obtain ⟨a, ha, rfl⟩ := getElem?_modify_some.mp hj
      by_cases hij : i = j
      · -- the chain itself: its write is the one that is queued
        subst hij
        obtain rfl := Option.mem_unique ha hi
        rw [if_pos rfl] at hst ⊢
        cases url with
        | none => cases hst
        | some u =>
            exact ⟨⟨setDataMerge a.articleId (Release.imageFields (P.absoluteString u)), some i⟩,
              s.mem_enqueue.mpr (Or.inr ⟨rfl, List.mem_singleton_self _⟩), rfl⟩
      · rw [if_neg hij] at hst ⊢
        obtain ⟨q, hq, hqc⟩ := hw j a ha hst
        exact ⟨q, s.mem_enqueue.mpr (Or.inl hq), hqc⟩
  | decide d n b =>
      obtain ⟨q, hq, rfl⟩ := decide_some hs
      have hkeep : ∀ (j : ℕ) (r : Release P), s.releases[j]? = some r → r.stage = .setData →
          q.completion ≠ some j → ∃ q' ∈ Function.update s.queue d ((s.queue d).eraseIdx n)
            r.tap.device, q'.completion = some j := by
        intro j r hj hst hne
        obtain ⟨q', hq', hqc⟩ := hw j r hj hst
        rcases mem_decide hq hq' with hin | rfl
        · exact ⟨q', hin, hqc⟩
        · exact absurd hqc hne
      cases hc : q.completion with
      | none => exact fun j r hj hst ↦ hkeep j r hj hst (by rw [hc]; simp)
      | some i =>
          intro j r' hj hst
          obtain ⟨a, ha, rfl⟩ := getElem?_modify_some.mp hj
          by_cases hij : i = j
          · -- the release that is told does not wait any more
            rw [if_pos hij] at hst
            cases hst
          · rw [if_neg hij] at hst ⊢
            exact hkeep j a ha hst (by rw [hc]; simpa using hij)
  | setDataCompletion i =>
      obtain ⟨r, error, hi, -, rfl⟩ := setDataCompletion_some hs
      exact hw.advance i (·.setDataCompletion error)
        (fun _ ↦ by cases error <;> simp [Release.setDataCompletion]) s.storage

theorem Event.Favourable.isAnswer {e : Event P} (he : e.Favourable) :
    e.isAnswer = true ∧ e.isTap = false := by
  cases e with
  | tapReleaseButton t => exact absurd he not_false
  | _ => exact ⟨rfl, rfl⟩

end Publishing

end LadyBook
