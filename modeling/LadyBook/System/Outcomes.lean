import LadyBook.System.Consistency

/-!
# What the verdicts leave

The document of an id follows from the verdicts on the two writes of its release.  In every order a
chain that does not reach the merge leaves the document of the first write or none; when each
client's writes are decided in the order of their issue, the first write never overtakes the merge.
-/

open Reasoning Reasoning.DocumentStore

namespace LadyBook.Publishing

variable {P : Platform} {s s' : Publishing P}

/-- The server accepted the first write of the release. -/
def FirstAccepted (s : Publishing P) (r : Release P) : Prop :=
  ∃ w, r.firstWrite = some w ∧ (w, true) ∈ s.decided

theorem mem_accepted {w : DocumentWrite} : w ∈ s.accepted ↔ (w, true) ∈ s.decided := by
  unfold accepted
  rw [List.mem_map]
  constructor
  · rintro ⟨⟨w', b⟩, hx, rfl⟩
    obtain ⟨hx, hb⟩ := List.mem_filter.mp hx
    rw [show b = true from hb] at hx
    exact hx
  · intro h
    exact ⟨(w, true), List.mem_filter.mpr ⟨h, rfl⟩, rfl⟩

-- An accepted write on the id of a release is one of its own two.
theorem Consistent.accepted_write (h : s.Consistent) {i : ℕ} {r : Release P}
    (hi : s.releases[i]? = some r) {w : DocumentWrite} (hw : w ∈ s.accepted)
    (hk : w.key = r.articleId) :
    if w.merge then r.mergeWrite = some w else r.firstWrite = some w := by
  obtain ⟨j, r', hj, hk', hw'⟩ := allows_key (h.decided w true (mem_accepted.mp hw))
  obtain ⟨-, rfl⟩ := h.release_inj hj hi (hk'.trans hk)
  exact hw'

theorem Consistent.wrote_first (h : s.Consistent) {i : ℕ} {r : Release P}
    (hi : s.releases[i]? = some r) :
    wrote r.articleId false s.accepted = true ↔ s.FirstAccepted r := by
  rw [wrote_iff]
  constructor
  · rintro ⟨w, hw, hk, hm⟩
    have hown := h.accepted_write hi hw hk
    rw [hm, if_neg Bool.false_ne_true] at hown
    exact ⟨w, hown, mem_accepted.mp hw⟩
  · rintro ⟨w, hw, hd⟩
    exact ⟨w, mem_accepted.mpr hd, Release.firstWrite_articleId hw, Release.firstWrite_merge hw⟩

theorem Consistent.wrote_merge (h : s.Consistent) {i : ℕ} {r : Release P}
    (hi : s.releases[i]? = some r) : wrote r.articleId true s.accepted = true ↔ r.Merged := by
  rw [wrote_iff]
  constructor
  · rintro ⟨w, hw, hk, hm⟩
    have hown := h.accepted_write hi hw hk
    rw [hm, if_pos rfl] at hown
    exact (h.merged i r hi w hown).mp (mem_accepted.mp hw)
  · intro hm
    have hurl : r.downloadUrl.isSome = true := by
      rcases hm with hm | hm
      · exact (h.coherent i r hi).late (Or.inr (Or.inl ⟨false, hm⟩))
      · exact (h.coherent i r hi).late (Or.inr (Or.inr hm))
    obtain ⟨u, hu⟩ := Option.isSome_iff_exists.mp hurl
    have hw := Release.mergeWrite_some.mpr ⟨u, hu, rfl⟩
    exact ⟨_, mem_accepted.mpr ((h.merged i r hi _ hw).mpr hm), rfl, rfl⟩

/-- The fields of the merging write of a release, none while there is no URL. -/
def patchOf (r : Release P) : DocumentData :=
  (r.downloadUrl.map fun u ↦ Release.imageFields (P.absoluteString u)).getD ∅

-- The document of a release, when no merging write came before its first write.
theorem Consistent.lookup_of_basesFirst (h : s.Consistent) {i : ℕ} {r : Release P}
    (hi : s.releases[i]? = some r) (ho : BasesFirst r.articleId s.accepted) :
    s.articles.lookup r.articleId = outcome r.tap.document (patchOf r)
      (wrote r.articleId false s.accepted) (wrote r.articleId true s.accepted) := by
  rw [h.articles]
  refine lookup_replay_outcome (fun w hw hk hm ↦ ?_) (fun w hw hk hm ↦ ?_) ho
  · have hown := h.accepted_write hi hw hk
    rw [hm, if_neg Bool.false_ne_true] at hown
    rw [(Release.firstWrite_some.mp hown).2]
    rfl
  · have hown := h.accepted_write hi hw hk
    rw [hm, if_pos rfl] at hown
    obtain ⟨u, hu, rfl⟩ := Release.mergeWrite_some.mp hown
    rw [patchOf, hu]
    rfl

/-! ## Without the merge -/

theorem Consistent.basesFirst_unmerged (h : s.Consistent) {i : ℕ} {r : Release P}
    (hi : s.releases[i]? = some r) (hm : ¬ r.Merged) : BasesFirst r.articleId s.accepted := by
  refine basesFirst_of_forall fun w hw hk ↦ ?_
  rw [← Bool.not_eq_true]
  intro hmerge
  exact hm ((h.wrote_merge hi).mp (wrote_iff.mpr ⟨w, hw, hk, hmerge⟩))

theorem Consistent.lookup_unmerged (h : s.Consistent) {i : ℕ} {r : Release P}
    (hi : s.releases[i]? = some r) (hm : ¬ r.Merged) :
    (s.FirstAccepted r → s.articles.lookup r.articleId = some r.tap.document) ∧
      (¬ s.FirstAccepted r → s.articles.lookup r.articleId = none) := by
  rw [h.lookup_of_basesFirst hi (h.basesFirst_unmerged hi hm)]
  rw [← h.wrote_merge hi, Bool.not_eq_true] at hm
  rw [hm, ← h.wrote_first hi]
  cases wrote r.articleId false s.accepted with
  | false => exact ⟨fun hf ↦ absurd hf Bool.false_ne_true, fun _ ↦ rfl⟩
  | true => exact ⟨fun _ ↦ rfl, fun hf ↦ absurd rfl hf⟩

/-! ## Writes decided in the order of their issue -/

/-- The server decides a client's writes in the order in which the client issued them. -/
def Event.InOrder : Event P → Prop
  | .decide _ n _ => n = 0
  | _ => True

/-- The writes of a device, decided or not, in the order of their issue. -/
def Ordered (s : Publishing P) : Prop :=
  ∀ d k, BasesFirst k (s.decided.map Prod.fst ++ (s.queue d).map QueuedWrite.write)

theorem ordered_init : (init : Publishing P).Ordered := fun _ _ ↦ List.Pairwise.nil

theorem map_enqueue {d d' : ℕ} {ws : List QueuedWrite} :
    (s.enqueue d ws d').map QueuedWrite.write =
      (s.queue d').map QueuedWrite.write ++
        if d' = d then ws.map QueuedWrite.write else [] := by
  unfold enqueue
  by_cases hd : d' = d
  · rw [hd, Function.update_self, List.map_append, if_pos rfl]
  · rw [Function.update_of_ne hd, if_neg hd, List.append_nil]

-- The known writes are on ids of releases.
theorem Consistent.known_key (h : s.Consistent) {d : ℕ} {w : DocumentWrite}
    (hw : w ∈ s.decided.map Prod.fst ++ (s.queue d).map QueuedWrite.write) :
    w.key ∈ s.releases.map Release.articleId := by
  have hallows : (plan s.releases).Allows w := by
    rcases List.mem_append.mp hw with hw | hw
    · obtain ⟨⟨w', b⟩, hx, rfl⟩ := List.mem_map.mp hw
      exact h.decided w' b hx
    · obtain ⟨q, hq, rfl⟩ := List.mem_map.mp hw
      exact (h.queued d q hq).allows
  obtain ⟨i, r, hi, hk, -⟩ := allows_key hallows
  exact List.mem_map.mpr ⟨r, List.mem_of_getElem? hi, hk⟩

theorem Ordered.tapReleaseButton (ho : s.Ordered) (h : s.Consistent) {t : Tap P}
    (hs : s.tapReleaseButton t = some s') : s'.Ordered := by
  rcases tapReleaseButton_some hs with ⟨-, rfl⟩ | ⟨ht, hid, rfl⟩
  · exact ho
  intro d k
  show BasesFirst k (_ ++ List.map _ (s.enqueue _ _ d))
  rw [map_enqueue, ← List.append_assoc]
  split
  next =>
    cases hw : (Release.start t ht).firstWrite with
    | none =>
        rw [Option.toList_none, List.map_nil, List.map_nil, List.append_nil]
        exact ho d k
    | some w =>
        -- no older write is on the fresh id
        refine (ho d k).concat (Or.inr fun w' hw' he ↦ hid ?_)
        have hk := h.known_key hw'
        rw [he, Release.firstWrite_articleId hw] at hk
        exact hk
  next =>
    rw [List.append_nil]
    exact ho d k

theorem Ordered.downloadURLCompletion (ho : s.Ordered) {i : ℕ} {url : Option P.URL}
    (hs : s.downloadURLCompletion i url = some s') : s'.Ordered := by
  obtain ⟨r, -, -, -, rfl⟩ := downloadURLCompletion_some hs
  intro d k
  show BasesFirst k (_ ++ List.map _ (s.enqueue _ _ d))
  rw [map_enqueue, ← List.append_assoc]
  split
  next =>
    cases url with
    | none => exact (List.append_nil _).symm ▸ ho d k
    -- a merging write may come last
    | some u => exact (ho d k).concat (Or.inl rfl)
  next =>
    rw [List.append_nil]
    exact ho d k

theorem Ordered.decide (ho : s.Ordered) (h : s.Consistent) {d : ℕ} {b : Bool}
    (hs : s.decide d 0 b = some s') : s'.Ordered := by
  obtain ⟨q, hq, rfl⟩ := decide_some hs
  cases hqueue : s.queue d with
  | nil =>
      rw [hqueue] at hq
      cases hq
  | cons q' rest =>
      rw [hqueue] at hq
      obtain rfl := Option.some.inj hq
      intro d' k
      show BasesFirst k ((s.decided ++ [(q'.write, b)]).map Prod.fst ++
        (Function.update s.queue d ((q' :: rest).eraseIdx 0) d').map QueuedWrite.write)
      rw [List.map_append, List.map_singleton]
      have hd := ho d k
      rw [hqueue, List.map_cons, List.append_cons] at hd
      by_cases hdd : d' = d
      · -- the write moves from the front of the queue to the end of the decided ones
        rw [hdd, Function.update_self]
        exact hd
      · -- the other device's writes are on the ids of its own releases
        rw [Function.update_of_ne hdd]
        refine (ho d' k).insert (List.pairwise_append.mp hd).1 fun u hu he ↦ hdd ?_
        obtain ⟨q, hq, rfl⟩ := List.mem_map.mp hu
        obtain ⟨i, r, hi, hri, hc⟩ := h.queued d' q hq
        obtain ⟨j, r', hj, hrj, hc'⟩ := h.queued d q' (hqueue ▸ List.mem_cons_self)
        obtain ⟨-, rfl⟩ := h.release_inj hi hj (hc.key.symm.trans (he.trans hc'.key))
        exact hri.symm.trans hrj

theorem Ordered.step (ho : s.Ordered) (h : s.Consistent) {e : Event P} (he : e.InOrder)
    (hs : s.step e = some s') : s'.Ordered := by
  cases e with
  | tapReleaseButton t => exact ho.tapReleaseButton h hs
  | putData i stored =>
      obtain ⟨r, reference, imageData, -, -, -, rfl⟩ := putData_some hs
      exact ho
  | putDataCompletion i =>
      obtain ⟨r, m, -, -, rfl⟩ := putDataCompletion_some hs
      exact ho
  | downloadURLCompletion i url => exact ho.downloadURLCompletion hs
  | decide d n b =>
      have hn : n = 0 := he
      subst hn
      exact ho.decide h hs
  | setDataCompletion i =>
      obtain ⟨r, error, -, -, rfl⟩ := setDataCompletion_some hs
      exact ho

theorem ordered_run {es : List (Event P)} (he : ∀ e ∈ es, e.InOrder)
    (hs : run step init es = some s) : s.Ordered :=
  (run_invariant_of (I := fun s ↦ s.Consistent ∧ s.Ordered)
    (fun he hI hs ↦ ⟨hI.1.step hs, hI.2.step hI.1 he hs⟩) he
    ⟨consistent_init, ordered_init⟩ hs).2

theorem Ordered.accepted (ho : s.Ordered) (k : DocumentID) : BasesFirst k s.accepted :=
  (List.pairwise_append.mp (ho 0 k)).1.sublist (List.filter_sublist.map Prod.fst)

-- Once the merge is accepted, the document is the article with its image URL if the first write
-- was accepted, and the image URL alone otherwise.
theorem Consistent.lookup_merged (h : s.Consistent) (ho : s.Ordered) {i : ℕ} {r : Release P}
    (hi : s.releases[i]? = some r) (hm : r.Merged) :
    (s.FirstAccepted r →
        s.articles.lookup r.articleId = some (patchOf r ∪ r.tap.document)) ∧
      (¬ s.FirstAccepted r → s.articles.lookup r.articleId = some (patchOf r)) := by
  rw [h.lookup_of_basesFirst hi (ho.accepted _)]
  rw [← h.wrote_merge hi] at hm
  rw [hm, ← h.wrote_first hi]
  cases wrote r.articleId false s.accepted with
  | false => exact ⟨fun hf ↦ absurd hf Bool.false_ne_true, fun _ ↦ rfl⟩
  | true => exact ⟨fun _ ↦ rfl, fun hf ↦ absurd rfl hf⟩

end LadyBook.Publishing
