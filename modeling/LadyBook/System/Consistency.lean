import Mathlib.Data.List.Perm.Basic
import LadyBook.System.Ownership

/-!
# Every step keeps the protocol consistent

One lemma for each kind of step, in any order of the steps; the collection and what each client sees
of it are then accounted for by the releases.
-/

open Reasoning Reasoning.DocumentStore

namespace LadyBook.Publishing

variable {P : Platform} {s s' : Publishing P}

theorem Consistent.release_inj (h : s.Consistent) {i j : ℕ} {r r' : Release P}
    (hi : s.releases[i]? = some r) (hj : s.releases[j]? = some r')
    (he : r.articleId = r'.articleId) : i = j ∧ r = r' := by
  have hij := getElem?_inj_of_nodup h.ids hi hj he
  exact ⟨hij, Option.some.inj (hi.symm.trans (hij ▸ hj))⟩

-- An entry that reports to release `i` is its merging write, waited for.
theorem Consistent.completion (h : s.Consistent) {d i : ℕ} {q : QueuedWrite}
    (hq : q ∈ s.queue d) (hc : q.completion = some i) :
    ∃ r, s.releases[i]? = some r ∧ r.tap.device = d ∧ r.stage = .setData ∧
      r.mergeWrite = some q.write := by
  obtain ⟨j, r, hj, hd, hcar⟩ := h.queued d q hq
  cases hcar with
  | first hw => cases hc
  | merge hw hs =>
      obtain rfl := Option.some.inj hc
      exact ⟨r, hj, hd, hs, hw⟩

theorem Consistent.completion_ne (h : s.Consistent) {i : ℕ} {r : Release P}
    (hi : s.releases[i]? = some r) (hs : r.stage ≠ .setData) {d : ℕ} {q : QueuedWrite}
    (hq : q ∈ s.queue d) : q.completion ≠ some i := by
  intro hc
  obtain ⟨r', hi', -, hs', -⟩ := h.completion hq hc
  obtain rfl := Option.mem_unique hi hi'
  exact hs hs'

theorem Consistent.ids_modify (h : s.Consistent) {i : ℕ} {f : Release P → Release P}
    (ht : ∀ r, (f r).tap = r.tap) : ((s.releases.modify i f).map Release.articleId).Nodup := by
  have hmap : (s.releases.modify i f).map Release.articleId = s.releases.map Release.articleId :=
    map_modify_of_eq fun a _ ↦ congrArg Tap.documentID (ht a)
  rw [hmap]
  exact h.ids

-- The stages before the URL, and the last one, change nothing but the chain itself.
theorem Consistent.advance (h : s.Consistent) {i : ℕ} {r : Release P}
    (hi : s.releases[i]? = some r) (hs : r.stage ≠ .setData) (f : Release P → Release P)
    (ht : ∀ r, (f r).tap = r.tap) (hu : ∀ r, (f r).downloadUrl = r.downloadUrl)
    (hc : (f r).Coherent) (hm : (f r).Merged ↔ r.Merged) (storage : String → Option P.Data) :
    Consistent { s with releases := s.releases.modify i f, storage := storage } where
  ids := h.ids_modify ht
  coherent := h.coherent.modify fun a ha _ ↦ by
    rw [Option.mem_unique ha hi]
    exact hc
  queued := fun d q hq ↦ (h.queued d q hq).modify ht (h.completion_ne hi hs hq)
  once := h.once
  issued := h.issued.modify fun a _ hw w hfw ↦ by
    rw [ht]
    exact hw w ((Release.firstWrite_congr (ht a)).symm.trans hfw)
  merged := h.merged.modify fun a ha hw w hmw ↦ by
    have hra : a = r := Option.mem_unique ha hi
    rw [hra, hm, ← hra]
    exact hw w ((Release.mergeWrite_congr (ht a) (hu a)).symm.trans hmw)
  decided := fun w b hwb ↦
    (h.decided w b hwb).extend (grows_modify ht fun a _ u hau ↦ (hu a).trans hau).extends
  articles := h.articles

theorem filterMap_enqueue {d d' : ℕ} {ws : List QueuedWrite} :
    (s.enqueue d ws d').filterMap QueuedWrite.completion =
      (s.queue d').filterMap QueuedWrite.completion ++
        if d' = d then ws.filterMap QueuedWrite.completion else [] := by
  unfold enqueue
  by_cases hd : d' = d
  · rw [hd, Function.update_self, List.filterMap_append, if_pos rfl]
  · rw [Function.update_of_ne hd, if_neg hd, List.append_nil]

theorem Consistent.tapReleaseButton (h : s.Consistent) {t : Tap P}
    (hs : s.tapReleaseButton t = some s') : s'.Consistent := by
  rcases tapReleaseButton_some hs with ⟨-, rfl⟩ | ⟨ht, hid, rfl⟩
  · exact h
  have hfirst : ∀ q ∈ (Release.start t ht).firstWrite.toList.map fun w ↦ QueuedWrite.mk w none,
      ∃ w, (Release.start t ht).firstWrite = some w ∧ q = ⟨w, none⟩ := by
    intro q hq
    obtain ⟨w, hw, rfl⟩ := List.mem_map.mp hq
    exact ⟨w, Option.mem_toList.mp hw, rfl⟩
  exact {
    ids := by
      rw [List.map_append, List.nodup_append]
      refine ⟨h.ids, List.nodup_singleton _, ?_⟩
      intro a ha b hb hab
      -- the id of the tap is fresh
      rw [List.map_singleton, List.mem_singleton] at hb
      rw [hab, hb] at ha
      exact hid ha
    coherent := h.coherent.concat (Release.coherent_start t ht)
    queued := by
      intro d q hq
      rcases s.mem_enqueue.mp hq with hold | ⟨rfl, hnew⟩
      · exact (h.queued d q hold).concat _
      · obtain ⟨w, hw, rfl⟩ := hfirst q hnew
        exact ⟨_, _, getElem?_concat_some.mpr (Or.inr ⟨rfl, rfl⟩), rfl, .first hw⟩
    once := by
      intro d
      have hnone : ((Release.start t ht).firstWrite.toList.map fun w ↦
          QueuedWrite.mk w none).filterMap QueuedWrite.completion = [] := by
        rw [List.filterMap_eq_nil_iff]
        intro q hq
        obtain ⟨w, -, rfl⟩ := hfirst q hq
        rfl
      show (List.filterMap _ (s.enqueue _ _ d)).Nodup
      rw [filterMap_enqueue, hnone, ite_self, List.append_nil]
      exact h.once d
    issued := by
      refine Records.concat (h.issued.imp fun j r hr w hw ↦ ?_) ?_
      · rcases hr w hw with ⟨q, hq, hqw⟩ | hd
        · exact Or.inl ⟨q, s.mem_enqueue.mpr (Or.inl hq), hqw⟩
        · exact Or.inr hd
      · intro w hw
        refine Or.inl ⟨⟨w, none⟩, s.mem_enqueue.mpr (Or.inr ⟨rfl, ?_⟩), rfl⟩
        exact List.mem_map.mpr ⟨w, Option.mem_toList.mpr hw, rfl⟩
    -- a new release has no URL, so it has no merging write
    merged := h.merged.concat fun w hw ↦ by
      obtain ⟨u, hu, -⟩ := Release.mergeWrite_some.mp hw
      cases hu
    decided := fun w b hwb ↦ (h.decided w b hwb).extend (grows_concat _ _).extends
    articles := h.articles }

theorem Consistent.downloadURLCompletion (h : s.Consistent) {i : ℕ} {url : Option P.URL}
    (hs : s.downloadURLCompletion i url = some s') : s'.Consistent := by
  obtain ⟨r, hi, hst, hurl, rfl⟩ := downloadURLCompletion_some hs
  have hne : r.stage ≠ .setData := by
    rw [hst]
    decide
  have hco := (h.coherent i r hi).downloadURLCompletion hst hurl
  cases url with
  | none =>
      -- the chain stops and nothing is enqueued
      have hq : s.enqueue r.tap.device ((r.downloadURLCompletion none).2.toList.map
          (⟨·, some i⟩)) = s.queue := by
        show Function.update s.queue _ (_ ++ []) = s.queue
        rw [List.append_nil, Function.update_eq_self]
      rw [hq]
      exact h.advance hi hne (fun r ↦ (r.downloadURLCompletion none).1) (fun _ ↦ rfl)
        (fun _ ↦ rfl) hco (iff_of_false (by simp [Release.Merged, Release.downloadURLCompletion])
          (by simp [Release.Merged, hst])) s.storage
  | some u =>
      have hnone : r.downloadUrl = none := ((h.coherent i r hi).early (Or.inr (Or.inr hst))).1
      have hgrows : Grows s.releases
          (s.releases.modify i fun r ↦ (r.downloadURLCompletion (some u)).1) :=
        grows_modify (fun _ ↦ rfl) fun a ha v hv ↦ by
          rw [Option.mem_unique ha hi, hnone] at hv
          cases hv
      exact {
        ids := h.ids_modify fun _ ↦ rfl
        coherent := h.coherent.modify fun a ha _ ↦ by
          rw [Option.mem_unique ha hi]
          exact hco
        queued := by
          intro d q hq
          rcases s.mem_enqueue.mp hq with hold | ⟨rfl, hnew⟩
          · exact (h.queued d q hold).modify (fun _ ↦ rfl) (h.completion_ne hi hne hold)
          · obtain ⟨w, hw, rfl⟩ := List.mem_map.mp hnew
            exact ⟨i, _, getElem?_modify_self hi, rfl, .merge (Option.mem_toList.mp hw) rfl⟩
        once := by
          intro d
          show (List.filterMap _ (s.enqueue _ _ d)).Nodup
          rw [filterMap_enqueue]
          split
          next =>
            -- the chain was not waiting for its merging write before
            refine List.Nodup.append (h.once d) (List.nodup_singleton i) ?_
            refine List.disjoint_singleton.mpr fun hmem ↦ ?_
            obtain ⟨q, hq, hqc⟩ := List.mem_filterMap.mp hmem
            exact h.completion_ne hi hne hq hqc
          next =>
            rw [List.append_nil]
            exact h.once d
        issued := by
          refine Records.modify (h.issued.imp fun j a ha w hw ↦ ?_) fun a _ ha ↦ ha
          rcases ha w hw with ⟨q, hq, hqw⟩ | hd
          · exact Or.inl ⟨q, s.mem_enqueue.mpr (Or.inl hq), hqw⟩
          · exact Or.inr hd
        merged := h.merged.modify fun a ha _ w hw ↦ by
          obtain rfl := Option.mem_unique ha hi
          refine iff_of_false (fun hd ↦ ?_)
            (by simp [Release.Merged, Release.downloadURLCompletion])
          -- a decided merge of this id would come from the release itself, which had none
          obtain ⟨j, b, hj, hk, hb⟩ := allows_key (h.decided w true hd)
          have hid := Release.mergeWrite_articleId hw
          obtain ⟨-, rfl⟩ := h.release_inj hj ha (hk.trans hid)
          rw [if_pos (Release.mergeWrite_merge hw), Release.mergeWrite_some] at hb
          obtain ⟨v, hv, -⟩ := hb
          rw [hnone] at hv
          cases hv
        decided := fun w b hwb ↦ (h.decided w b hwb).extend hgrows.extends
        articles := h.articles }

-- Deciding an entry takes it out of its queue and leaves every other one.
theorem decide_queue {d n : ℕ} {q : QueuedWrite} (hq : (s.queue d)[n]? = some q) :
    (s.queue d).Perm (q :: (s.queue d).eraseIdx n) := by
  obtain ⟨hn, rfl⟩ := List.getElem?_eq_some_iff.mp hq
  exact (List.getElem_cons_eraseIdx_perm hn).symm

theorem mem_decide {d d' n : ℕ} {q q' : QueuedWrite} (hq : (s.queue d)[n]? = some q)
    (hq' : q' ∈ s.queue d') :
    q' ∈ Function.update s.queue d ((s.queue d).eraseIdx n) d' ∨ q' = q := by
  by_cases hd : d' = d
  · subst hd
    rw [Function.update_self]
    exact (List.mem_cons.mp ((decide_queue hq).mem_iff.mp hq')).symm
  · rw [Function.update_of_ne hd]
    exact Or.inl hq'

theorem of_mem_decide {d d' n : ℕ} {q' : QueuedWrite}
    (hq' : q' ∈ Function.update s.queue d ((s.queue d).eraseIdx n) d') : q' ∈ s.queue d' := by
  by_cases hd : d' = d
  · subst hd
    rw [Function.update_self] at hq'
    exact List.mem_of_mem_eraseIdx hq'
  · rwa [Function.update_of_ne hd] at hq'

-- No entry but the decided one reports to the release that the decided one reports to.
theorem Consistent.decide_completion (h : s.Consistent) {d d' n i : ℕ} {q q' : QueuedWrite}
    (hq : (s.queue d)[n]? = some q) (hc : q.completion = some i)
    (hq' : q' ∈ Function.update s.queue d ((s.queue d).eraseIdx n) d') :
    q'.completion ≠ some i := by
  intro hc'
  obtain ⟨r, hi, hd, -, -⟩ := h.completion (List.mem_of_getElem? hq) hc
  obtain ⟨r', hi', hd', -, -⟩ := h.completion (of_mem_decide hq') hc'
  obtain rfl := Option.mem_unique hi hi'
  have hdd : d' = d := hd'.symm.trans hd
  subst hdd
  rw [Function.update_self] at hq'
  -- both entries are in one queue, where each release is reported to once
  have hnodup := ((decide_queue hq).filterMap QueuedWrite.completion).nodup_iff.mp (h.once d')
  rw [List.filterMap_cons_some hc, List.nodup_cons] at hnodup
  exact hnodup.1 (List.mem_filterMap.mpr ⟨q', hq', hc'⟩)

theorem accepted_concat {w : DocumentWrite} {b : Bool} {ws : List (DocumentWrite × Bool)} :
    ((ws ++ [(w, b)]).filter fun x ↦ x.2).map Prod.fst =
      (ws.filter fun x ↦ x.2).map Prod.fst ++ if b then [w] else [] := by
  cases b <;> simp

theorem Consistent.once_decide (h : s.Consistent) (d n d' : ℕ) :
    ((Function.update s.queue d ((s.queue d).eraseIdx n) d').filterMap
      QueuedWrite.completion).Nodup := by
  by_cases hd : d' = d
  · subst hd
    rw [Function.update_self]
    exact (h.once d').sublist (List.Sublist.filterMap _ (List.eraseIdx_sublist _ n))
  · rw [Function.update_of_ne hd]
    exact h.once d'

theorem Consistent.issued_decide (h : s.Consistent) {d n : ℕ} {q : QueuedWrite}
    (hq : (s.queue d)[n]? = some q) (b : Bool) :
    Records (fun _ r ↦ ∀ w, r.firstWrite = some w →
      (∃ q' ∈ Function.update s.queue d ((s.queue d).eraseIdx n) r.tap.device, q'.write = w) ∨
        ∃ b', (w, b') ∈ s.decided ++ [(q.write, b)]) s.releases := by
  intro j r hj w hw
  rcases h.issued j r hj w hw with ⟨q', hq', rfl⟩ | ⟨b', hb'⟩
  · rcases mem_decide hq hq' with hin | rfl
    · exact Or.inl ⟨q', hin, rfl⟩
    · exact Or.inr ⟨b, List.mem_append_right _ List.mem_cons_self⟩
  · exact Or.inr ⟨b', List.mem_append_left _ hb'⟩

theorem Consistent.allows_decide (h : s.Consistent) {d : ℕ} {q : QueuedWrite}
    (hq : q ∈ s.queue d) (b : Bool) (w : DocumentWrite) (b' : Bool)
    (hw : (w, b') ∈ s.decided ++ [(q.write, b)]) : (plan s.releases).Allows w := by
  rcases List.mem_append.mp hw with hold | hnew
  · exact h.decided w b' hold
  · obtain ⟨rfl, -⟩ := Prod.mk.inj (List.mem_singleton.mp hnew)
    exact (h.queued d q hq).allows

theorem Consistent.articles_decide (h : s.Consistent) (w : DocumentWrite) (b : Bool) :
    (if b then w.apply s.articles else s.articles) =
      replay ∅ (((s.decided ++ [(w, b)]).filter fun x ↦ x.2).map Prod.fst) := by
  rw [accepted_concat, h.articles]
  cases b with
  | true => exact (replay_concat ∅ s.accepted w).symm
  | false =>
      rw [if_neg Bool.false_ne_true, if_neg Bool.false_ne_true, List.append_nil]
      rfl

-- A first write is not the merging write of any release.
theorem Consistent.merged_decide_first (h : s.Consistent) {d : ℕ} {q : QueuedWrite}
    (hq : q ∈ s.queue d) (hc : q.completion = none) (b : Bool) :
    Records (fun _ r ↦ ∀ w, r.mergeWrite = some w →
      ((w, true) ∈ s.decided ++ [(q.write, b)] ↔ r.Merged)) s.releases := by
  refine h.merged.imp fun j r hr w hw ↦ ?_
  have hwq : w ≠ q.write := by
    rintro rfl
    obtain ⟨i, r', -, -, hcar⟩ := h.queued d q hq
    cases hcar with
    | first hf =>
        have hfalse := Release.firstWrite_merge hf
        rw [Release.mergeWrite_merge hw] at hfalse
        cases hfalse
    | merge _ _ => cases hc
  rw [← hr w hw, List.mem_append, List.mem_singleton, Prod.mk.injEq]
  exact or_iff_left fun hn ↦ hwq hn.1

-- The verdict on a merging write is the one that its own release is told, and no other.
theorem Consistent.merged_decide_merge (h : s.Consistent) {i : ℕ} {r : Release P}
    (hi : s.releases[i]? = some r) (hst : r.stage = .setData) {w : DocumentWrite}
    (hw : r.mergeWrite = some w) (b : Bool) :
    Records (fun _ r ↦ ∀ w', r.mergeWrite = some w' →
      ((w', true) ∈ s.decided ++ [(w, b)] ↔ r.Merged))
      (s.releases.modify i ({ · with stage := .setDataCompletion !b })) := by
  intro j r' hj w' hw'
  obtain ⟨a, ha, rfl⟩ := getElem?_modify_some.mp hj
  rw [List.mem_append, List.mem_singleton, Prod.mk.injEq]
  by_cases hij : i = j
  · -- the release itself: its merging write had not been decided before
    subst hij
    obtain rfl := Option.mem_unique ha hi
    rw [if_pos rfl] at hw' ⊢
    have hww : w' = w := Option.mem_unique hw' hw
    have hold : ¬ (w', true) ∈ s.decided := by
      rw [h.merged i a hi w' (hww ▸ hw)]
      simp [Release.Merged, hst]
    rw [or_iff_right hold, and_iff_right hww]
    cases b <;> simp [Release.Merged]
  · -- another release: its merging write is on another id
    rw [if_neg hij] at hw' ⊢
    have hww : w' ≠ w := by
      rintro rfl
      have hk := (Release.mergeWrite_articleId hw').symm.trans (Release.mergeWrite_articleId hw)
      exact hij (h.release_inj ha hi hk).1.symm
    rw [← h.merged j a ha w' hw']
    exact or_iff_left fun hn ↦ hww hn.1

theorem Consistent.decide (h : s.Consistent) {d n : ℕ} {b : Bool}
    (hs : s.decide d n b = some s') : s'.Consistent := by
  obtain ⟨q, hq, rfl⟩ := decide_some hs
  have hmem := List.mem_of_getElem? hq
  cases hc : q.completion with
  | none =>
      exact {
        ids := h.ids
        coherent := h.coherent
        queued := fun d' q' hq' ↦ h.queued d' q' (of_mem_decide hq')
        once := h.once_decide d n
        issued := h.issued_decide hq b
        merged := h.merged_decide_first hmem hc b
        decided := h.allows_decide hmem b
        articles := h.articles_decide q.write b }
  | some i =>
      obtain ⟨r, hi, -, hst, hw⟩ := h.completion hmem hc
      have hco := h.coherent i r hi
      have hurl : r.downloadUrl.isSome = true := hco.late (Or.inl hst)
      have hgrows : Grows s.releases
          (s.releases.modify i fun r ↦ { r with stage := .setDataCompletion !b }) :=
        grows_modify (fun _ ↦ rfl) fun _ _ _ hu ↦ hu
      exact {
        ids := h.ids_modify fun _ ↦ rfl
        coherent := h.coherent.modify fun a ha hca ↦ by
          rw [Option.mem_unique ha hi]
          exact ⟨by simp, fun _ ↦ hurl, hco.designates⟩
        queued := fun d' q' hq' ↦ (h.queued d' q' (of_mem_decide hq')).modify (fun _ ↦ rfl)
          (h.decide_completion hq hc hq')
        once := h.once_decide d n
        issued := Records.modify (h.issued_decide hq b) fun _ _ ha ↦ ha
        merged := h.merged_decide_merge hi hst hw b
        decided := fun w' b' hwb ↦ (h.allows_decide hmem b w' b' hwb).extend hgrows.extends
        articles := h.articles_decide q.write b }

theorem Consistent.step (h : s.Consistent) {e : Event P} (hs : s.step e = some s') :
    s'.Consistent := by
  cases e with
  | tapReleaseButton t => exact h.tapReleaseButton hs
  | putData i stored =>
      obtain ⟨r, reference, imageData, hi, hst, hp, rfl⟩ := putData_some hs
      exact h.advance hi (by rw [hst]; simp) ({ · with stage := .putDataCompletion stored })
        (fun _ ↦ rfl) (fun _ ↦ rfl) ((h.coherent i r hi).putData hst stored)
        (by simp [Release.Merged, hst]) _
  | putDataCompletion i =>
      obtain ⟨r, m, hi, hst, rfl⟩ := putDataCompletion_some hs
      refine h.advance hi (by rw [hst]; simp) (·.putDataCompletion m) (fun a ↦ ?_) (fun a ↦ ?_)
        ((h.coherent i r hi).putDataCompletion hst m) ?_ s.storage
      · unfold Release.putDataCompletion
        split <;> rfl
      · unfold Release.putDataCompletion
        split <;> rfl
      · cases m <;> simp [Release.Merged, Release.putDataCompletion, hst]
  | downloadURLCompletion i url => exact h.downloadURLCompletion hs
  | decide d n b => exact h.decide hs
  | setDataCompletion i =>
      obtain ⟨r, error, hi, hst, rfl⟩ := setDataCompletion_some hs
      refine h.advance hi (by rw [hst]; simp) (·.setDataCompletion error) (fun _ ↦ rfl)
        (fun _ ↦ rfl) ((h.coherent i r hi).setDataCompletion hst error) ?_ s.storage
      cases error <;> simp [Release.Merged, Release.setDataCompletion, hst]

theorem consistent_run {es : List (Event P)} (h : run step init es = some s) : s.Consistent :=
  run_invariant (fun hI hs ↦ hI.step hs) consistent_init h

/-- The documents of the collection, and those a client sees, are accounted for by the releases. -/
theorem Consistent.accounts (h : s.Consistent) : (plan s.releases).Accounts s.articles := by
  rw [h.articles]
  refine Plan.accounts_empty.replay (plan_uniquePatches h.ids) fun w hw ↦ ?_
  obtain ⟨x, hx, rfl⟩ := List.mem_map.mp hw
  exact h.decided x.1 x.2 (List.mem_filter.mp hx).1

theorem Consistent.accounts_localView (h : s.Consistent) (d : ℕ) :
    (plan s.releases).Accounts (s.localView d) := by
  refine h.accounts.replay (plan_uniquePatches h.ids) fun w hw ↦ ?_
  obtain ⟨q, hq, rfl⟩ := List.mem_map.mp hw
  exact (h.queued d q hq).allows

/-! ## What a step does to the releases -/

inductive ReleasesStep (s : Publishing P) (e : Event P) : List (Release P) → Prop where
  | same : ReleasesStep s e s.releases
  | start {t : Tap P} (he : e = .tapReleaseButton t) (ht : t.views.titleTextView.isEmpty = false)
      (hid : t.documentID ∉ s.releases.map Release.articleId) :
      ReleasesStep s e (s.releases ++ [Release.start t ht])
  | stage {i : ℕ} {r : Release P} (hi : s.releases[i]? = some r) (hr : r.stage ≠ .succeeded)
      (stage : Stage) : ReleasesStep s e (s.releases.modify i ({ · with stage := stage }))
  | downloaded {i : ℕ} {r : Release P} {u : P.URL} (he : e = .downloadURLCompletion i (some u))
      (hi : s.releases[i]? = some r) (hr : r.stage = .downloadURL) :
      ReleasesStep s e
        (s.releases.modify i ({ · with stage := .setData, downloadUrl := some u }))

theorem Consistent.step_releases (h : s.Consistent) {e : Event P} (hs : s.step e = some s') :
    s.ReleasesStep e s'.releases := by
  cases e with
  | tapReleaseButton t =>
      rcases tapReleaseButton_some hs with ⟨-, rfl⟩ | ⟨ht, hid, rfl⟩
      · exact .same
      · exact .start rfl ht hid
  | putData i stored =>
      obtain ⟨r, reference, imageData, hi, hst, -, rfl⟩ := putData_some hs
      exact .stage hi (by simp [hst]) _
  | putDataCompletion i =>
      obtain ⟨r, m, hi, hst, rfl⟩ := putDataCompletion_some hs
      cases m with
      | true => exact .stage hi (by simp [hst]) .downloadURL
      | false => exact .stage hi (by simp [hst]) .stopped
  | downloadURLCompletion i url =>
      obtain ⟨r, hi, hst, -, rfl⟩ := downloadURLCompletion_some hs
      cases url with
      | none => exact .stage hi (by simp [hst]) .stopped
      | some u => exact .downloaded rfl hi hst
  | decide d n b =>
      obtain ⟨q, hq, rfl⟩ := decide_some hs
      cases hc : q.completion with
      | none => exact .same
      | some i =>
          obtain ⟨r, hi, -, hst, -⟩ := h.completion (List.mem_of_getElem? hq) hc
          exact .stage hi (by simp [hst]) _
  | setDataCompletion i =>
      obtain ⟨r, error, hi, hst, rfl⟩ := setDataCompletion_some hs
      exact .stage hi (by simp [hst]) _

theorem grows_step {e : Event P} (h : s.Consistent) (hs : s.step e = some s') :
    Grows s.releases s'.releases := by
  have hstep := h.step_releases hs
  generalize s'.releases = rs at hstep ⊢
  cases hstep with
  | same => exact grows_refl _
  | start he ht hid => exact grows_concat _ _
  | stage hi hr stage => exact grows_modify (fun _ ↦ rfl) fun _ _ _ hu ↦ hu
  | @downloaded i r u he hi hr =>
      -- the chain was waiting for its URL, so it had none
      refine grows_modify (fun _ ↦ rfl) fun a ha v hv ↦ ?_
      have hnone := ((h.coherent i r hi).early (Or.inr (Or.inr hr))).1
      rw [Option.mem_unique ha hi, hnone] at hv
      cases hv

theorem grows_run {es : List (Event P)} (h : s.Consistent) (hs : run step s es = some s') :
    Grows s.releases s'.releases := by
  induction es generalizing s with
  | nil =>
      rw [run_nil_some] at hs
      exact hs ▸ grows_refl _
  | cons e es ih =>
      obtain ⟨m, hm, hr⟩ := run_cons_some.mp hs
      exact (grows_step h hm).trans (ih (h.step hm) hr)

end LadyBook.Publishing
