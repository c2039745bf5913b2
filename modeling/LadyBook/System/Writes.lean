import LadyBook.System.Outcomes

/-!
# No write is lost or decided twice

A write that a release has issued is in the queue of its device or has been decided, and in one of
the two places once.
-/

open Reasoning Reasoning.DocumentStore

namespace LadyBook.Publishing

variable {P : Platform} {s s' : Publishing P}

/-- The writes that a device knows or the server has decided. -/
def known (s : Publishing P) (d : ℕ) : List DocumentWrite :=
  s.decided.map Prod.fst ++ (s.queue d).map QueuedWrite.write

/-- A release has one write of each kind. -/
def slot (w : DocumentWrite) : DocumentID × Bool := (w.key, w.merge)

theorem mem_known {d : ℕ} {w : DocumentWrite} :
    w ∈ s.known d ↔ (∃ b, (w, b) ∈ s.decided) ∨ ∃ q ∈ s.queue d, q.write = w := by
  simp only [known, List.mem_append, List.mem_map, Prod.exists, exists_and_right, exists_eq_right]

theorem Consistent.known_allows (h : s.Consistent) {d : ℕ} {w : DocumentWrite}
    (hw : w ∈ s.known d) : (plan s.releases).Allows w := by
  rcases mem_known.mp hw with ⟨b, hb⟩ | ⟨q, hq, rfl⟩
  · exact h.decided w b hb
  · exact (h.queued d q hq).allows

-- A known write on the id of a release is one of its own two.
theorem Consistent.known_write (h : s.Consistent) {i : ℕ} {r : Release P}
    (hi : s.releases[i]? = some r) {d : ℕ} {w : DocumentWrite} (hw : w ∈ s.known d)
    (hk : w.key = r.articleId) :
    if w.merge then r.mergeWrite = some w else r.firstWrite = some w := by
  obtain ⟨j, r', hj, hk', hown⟩ := allows_key (h.known_allows hw)
  obtain ⟨-, rfl⟩ := h.release_inj hj hi (hk'.trans hk)
  exact hown

-- Only the device of a release has writes on its id in its queue.
theorem Consistent.queue_device (h : s.Consistent) {i : ℕ} {r : Release P}
    (hi : s.releases[i]? = some r) {d : ℕ} {q : QueuedWrite} (hq : q ∈ s.queue d)
    (hk : q.write.key = r.articleId) : d = r.tap.device := by
  obtain ⟨j, r', hj, hd, hc⟩ := h.queued d q hq
  obtain ⟨-, rfl⟩ := h.release_inj hj hi (hc.key.symm.trans hk)
  exact hd.symm

-- A step keeps what is known: a write leaves a queue when it is decided.
theorem known_step {e : Event P} (hs : s.step e = some s') {d : ℕ} {w : DocumentWrite}
    (hw : w ∈ s.known d) : w ∈ s'.known d := by
  have henqueue : ∀ d' ws, w ∈ s.decided.map Prod.fst ++
      (s.enqueue d' ws d).map QueuedWrite.write := by
    intro d' ws
    rw [map_enqueue, ← List.append_assoc]
    exact List.mem_append_left _ hw
  cases e with
  | tapReleaseButton t =>
      rcases tapReleaseButton_some hs with ⟨-, rfl⟩ | ⟨ht, -, rfl⟩
      · exact hw
      · exact henqueue _ _
  | putData i stored =>
      obtain ⟨r, reference, imageData, -, -, -, rfl⟩ := putData_some hs
      exact hw
  | putDataCompletion i =>
      obtain ⟨r, m, -, -, rfl⟩ := putDataCompletion_some hs
      exact hw
  | downloadURLCompletion i url =>
      obtain ⟨r, -, -, -, rfl⟩ := downloadURLCompletion_some hs
      exact henqueue _ _
  | decide d' n b =>
      obtain ⟨q, hq, rfl⟩ := decide_some hs
      rw [mem_known] at hw ⊢
      rcases hw with ⟨b', hb'⟩ | ⟨q', hq', rfl⟩
      · exact Or.inl ⟨b', List.mem_append_left _ hb'⟩
      · rcases mem_decide hq hq' with hin | rfl
        · exact Or.inr ⟨q', hin, rfl⟩
        · exact Or.inl ⟨b, List.mem_append_right _ (List.mem_singleton_self _)⟩
  | setDataCompletion i =>
      obtain ⟨r, error, -, -, rfl⟩ := setDataCompletion_some hs
      exact hw

structure Conserved (s : Publishing P) : Prop where
  once : ∀ d, ((s.known d).map slot).Nodup
  merges : Records (fun _ r ↦ ∀ w, r.mergeWrite = some w → w ∈ s.known r.tap.device) s.releases

theorem conserved_init : (init : Publishing P).Conserved where
  once := fun _ ↦ List.nodup_nil
  merges := records_nil

-- A queue of a device grows by writes of kinds that were not known.
theorem once_enqueue (h : ∀ d, ((s.known d).map slot).Nodup) {d : ℕ} {ws : List QueuedWrite}
    (hlength : ws.length ≤ 1) (hws : ∀ q ∈ ws, ∀ w ∈ s.known d, slot w ≠ slot q.write) (d' : ℕ) :
    ((s.decided.map Prod.fst ++ (s.enqueue d ws d').map QueuedWrite.write).map slot).Nodup := by
  rw [map_enqueue, ← List.append_assoc, List.map_append]
  split
  next hd =>
    subst hd
    refine (h d').append ?_ fun x hx hx' ↦ ?_
    · match ws, hlength with
      | [], _ => exact List.nodup_nil
      | [q], _ => exact List.nodup_singleton _
    · obtain ⟨w, hw, rfl⟩ := List.mem_map.mp hx
      obtain ⟨w', hw', heq⟩ := List.mem_map.mp hx'
      obtain ⟨q, hq, rfl⟩ := List.mem_map.mp hw'
      exact hws q hq w hw heq.symm
  next =>
    rw [List.map_nil, List.append_nil]
    exact h d'

theorem Conserved.once_tapReleaseButton (hc : s.Conserved) (h : s.Consistent) {t : Tap P}
    (hs : s.tapReleaseButton t = some s') (d : ℕ) : ((s'.known d).map slot).Nodup := by
  rcases tapReleaseButton_some hs with ⟨-, rfl⟩ | ⟨ht, hid, rfl⟩
  · exact hc.once d
  refine once_enqueue hc.once ?_ (fun q hq w hw heq ↦ hid ?_) d
  · cases (Release.start t ht).firstWrite <;> simp
  · -- the id of the tap is fresh, and a known write is on the id of a release
    obtain ⟨w', hw', rfl⟩ := List.mem_map.mp hq
    have hkey : w.key = t.documentID :=
      (congrArg Prod.fst heq).trans (Release.firstWrite_articleId (Option.mem_toList.mp hw'))
    exact hkey ▸ h.known_key hw

theorem Conserved.once_downloadURLCompletion (hc : s.Conserved) (h : s.Consistent) {i : ℕ}
    {url : Option P.URL} (hs : s.downloadURLCompletion i url = some s') (d : ℕ) :
    ((s'.known d).map slot).Nodup := by
  obtain ⟨r, hi, hst, -, rfl⟩ := downloadURLCompletion_some hs
  refine once_enqueue hc.once ?_ (fun q hq w hw heq ↦ ?_) d
  · cases url <;> simp [Release.downloadURLCompletion]
  · -- a merging write of the release would have come with a URL
    cases url with
    | none => cases hq
    | some u =>
        obtain rfl := List.mem_singleton.mp hq
        have hmerge : w.merge = true := congrArg Prod.snd heq
        have hown := h.known_write hi hw (congrArg Prod.fst heq)
        rw [if_pos hmerge] at hown
        obtain ⟨v, hv, -⟩ := Release.mergeWrite_some.mp hown
        rw [((h.coherent i r hi).early (Or.inr (Or.inr hst))).1] at hv
        cases hv

theorem Conserved.once_decide (hc : s.Conserved) (h : s.Consistent) {d n : ℕ} {b : Bool}
    (hs : s.decide d n b = some s') (d' : ℕ) : ((s'.known d').map slot).Nodup := by
  obtain ⟨q, hq, rfl⟩ := decide_some hs
  have hdecided : (s.decided ++ [(q.write, b)]).map Prod.fst =
      s.decided.map Prod.fst ++ [q.write] := List.map_append
  show (((s.decided ++ [(q.write, b)]).map Prod.fst ++ (Function.update s.queue d
    ((s.queue d).eraseIdx n) d').map QueuedWrite.write).map slot).Nodup
  rw [hdecided]
  have hperm : (s.known d).Perm (s.decided.map Prod.fst ++ [q.write] ++
      ((s.queue d).eraseIdx n).map QueuedWrite.write) := by
    rw [List.append_assoc]
    exact List.Perm.append_left _ ((decide_queue hq).map QueuedWrite.write)
  have honce := ((hperm.map slot).nodup_iff).mp (hc.once d)
  by_cases hd : d' = d
  · subst hd
    rw [Function.update_self]
    exact honce
  · -- the queue of another device has no write on this id
    rw [Function.update_of_ne hd]
    rw [List.map_append, List.map_append] at honce ⊢
    refine (List.nodup_append'.mp honce).1.append
      (List.nodup_append'.mp ((List.map_append ..) ▸ hc.once d')).2.1 ?_
    intro x hx hx'
    rw [List.mem_append, List.map_singleton, List.mem_singleton] at hx
    rcases hx with hx | rfl
    · exact List.disjoint_of_nodup_append ((List.map_append ..) ▸ hc.once d') hx hx'
    · obtain ⟨w, hw, heq⟩ := List.mem_map.mp hx'
      obtain ⟨q', hq', rfl⟩ := List.mem_map.mp hw
      obtain ⟨i, r, hi, hri, hcar⟩ := h.queued d q (List.mem_of_getElem? hq)
      have hkey : q'.write.key = r.articleId := (congrArg Prod.fst heq).trans hcar.key
      exact hd ((h.queue_device hi hq' hkey).trans hri)

-- A release keeps its merging write, and gets one together with its place in the queue.
theorem Conserved.merges_step (hc : s.Conserved) (h : s.Consistent) {e : Event P}
    (hs : s.step e = some s') :
    Records (fun _ r ↦ ∀ w, r.mergeWrite = some w → w ∈ s'.known r.tap.device) s'.releases := by
  have hold : Records (fun _ r ↦ ∀ w, r.mergeWrite = some w → w ∈ s'.known r.tap.device)
      s.releases := hc.merges.imp fun _ r hr w hw ↦ known_step hs (hr w hw)
  have hreleases := h.step_releases hs
  generalize s'.releases = rs at hreleases ⊢
  cases hreleases with
  | same => exact hold
  | start he ht hid =>
      refine hold.concat fun w hw ↦ ?_
      obtain ⟨u, hu, -⟩ := Release.mergeWrite_some.mp hw
      cases hu
  | stage hi hr stage => exact hold.modify fun a _ ha ↦ ha
  | @downloaded i r u he hi hst =>
      subst he
      refine hold.modify fun a ha _ w hw ↦ ?_
      obtain ⟨r', hi', -, -, rfl⟩ := downloadURLCompletion_some hs
      obtain rfl := Option.mem_unique ha hi'
      obtain ⟨v, hv, rfl⟩ := Release.mergeWrite_some.mp hw
      obtain rfl := Option.some.inj hv
      exact mem_known.mpr (Or.inr ⟨_, s.mem_enqueue.mpr
        (Or.inr ⟨rfl, List.mem_singleton_self _⟩), rfl⟩)

theorem Conserved.step (hc : s.Conserved) (h : s.Consistent) {e : Event P}
    (hs : s.step e = some s') : s'.Conserved where
  once := by
    cases e with
    | tapReleaseButton t => exact hc.once_tapReleaseButton h hs
    | putData i stored =>
        obtain ⟨r, reference, imageData, -, -, -, rfl⟩ := putData_some hs
        exact hc.once
    | putDataCompletion i =>
        obtain ⟨r, m, -, -, rfl⟩ := putDataCompletion_some hs
        exact hc.once
    | downloadURLCompletion i url => exact hc.once_downloadURLCompletion h hs
    | decide d n b => exact hc.once_decide h hs
    | setDataCompletion i =>
        obtain ⟨r, error, -, -, rfl⟩ := setDataCompletion_some hs
        exact hc.once
  merges := hc.merges_step h hs

theorem conserved_run {es : List (Event P)} (hs : run step init es = some s) : s.Conserved :=
  (run_invariant (I := fun s : Publishing P ↦ s.Consistent ∧ s.Conserved)
    (fun hI hs ↦ ⟨hI.1.step hs, hI.2.step hI.1 hs⟩) ⟨consistent_init, conserved_init⟩ hs).2

/-! ## What follows for the writes of a release -/

/-- The release has issued the write. -/
def Issued (r : Release P) (w : DocumentWrite) : Prop :=
  r.firstWrite = some w ∨ r.mergeWrite = some w

theorem Issued.key {r : Release P} {w : DocumentWrite} (h : Issued r w) : w.key = r.articleId := by
  rcases h with h | h
  · exact Release.firstWrite_articleId h
  · exact Release.mergeWrite_articleId h

theorem Conserved.mem_known (hc : s.Conserved) (h : s.Consistent) {i : ℕ} {r : Release P}
    (hi : s.releases[i]? = some r) {w : DocumentWrite} (hw : Issued r w) :
    w ∈ s.known r.tap.device := by
  rcases hw with hw | hw
  · rcases h.issued i r hi w hw with hq | hd
    · exact Publishing.mem_known.mpr (Or.inr hq)
    · exact Publishing.mem_known.mpr (Or.inl hd)
  · exact hc.merges i r hi w hw

theorem Conserved.verdict_unique (hc : s.Conserved) {w : DocumentWrite}
    (ha : (w, true) ∈ s.decided) : (w, false) ∉ s.decided := by
  intro hr
  have honce := hc.once 0
  rw [known, List.map_append] at honce
  have hnodup : (s.decided.map fun x ↦ slot x.1).Nodup := by
    have hleft := (List.nodup_append'.mp honce).1
    rwa [List.map_map] at hleft
  have heq := List.inj_on_of_nodup_map hnodup ha hr rfl
  cases heq

/-- A write that a release has issued is known to its device once. -/
theorem Conserved.count_known (hc : s.Conserved) (h : s.Consistent) {i : ℕ} {r : Release P}
    (hi : s.releases[i]? = some r) {w : DocumentWrite} (hw : Issued r w) :
    (s.known r.tap.device).count w = 1 :=
  List.count_eq_one_of_mem (hc.once r.tap.device).of_map (hc.mem_known h hi hw)

end LadyBook.Publishing
