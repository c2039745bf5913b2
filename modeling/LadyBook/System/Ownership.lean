import LadyBook.System.Publishing

/-!
# Every write belongs to one release

The releases plan the writes on their ids: a first write with the fields of the tap, and a merging
one with the download URL once there is one.  `Consistent` relates the queues, the decided writes
and the stages of the chains to this plan.
-/

open Reasoning Reasoning.DocumentStore

namespace LadyBook

variable {P : Platform}

namespace Release

variable {r r' : Release P}

theorem firstWrite_key {k : DocumentID} {d : DocumentData}
    (h : r.firstWrite = some (setData k d)) : r.articleId = k ∧ r.tap.document = d := by
  obtain ⟨-, hw⟩ := firstWrite_some.mp h
  have hk : k = r.articleId := congrArg Write.key hw
  have hd : d = r.tap.document := congrArg Write.data hw
  exact ⟨hk.symm, hd.symm⟩

theorem mergeWrite_some {w : DocumentWrite} :
    r.mergeWrite = some w ↔ ∃ u, r.downloadUrl = some u ∧
      setDataMerge r.articleId (imageFields (P.absoluteString u)) = w :=
  Option.map_eq_some_iff

theorem mergeWrite_key {k : DocumentID} {d : DocumentData}
    (h : r.mergeWrite = some (setDataMerge k d)) :
    r.articleId = k ∧ ∃ u, r.downloadUrl = some u ∧ imageFields (P.absoluteString u) = d := by
  obtain ⟨u, hu, hw⟩ := mergeWrite_some.mp h
  exact ⟨congrArg Write.key hw, u, hu, congrArg Write.data hw⟩

theorem firstWrite_congr (h : r'.tap = r.tap) : r'.firstWrite = r.firstWrite := by
  unfold firstWrite
  rw [h]

theorem mergeWrite_congr (h : r'.tap = r.tap) (hu : r'.downloadUrl = r.downloadUrl) :
    r'.mergeWrite = r.mergeWrite := by
  unfold mergeWrite articleId
  rw [h, hu]

theorem firstWrite_merge {w : DocumentWrite} (h : r.firstWrite = some w) : w.merge = false := by
  rw [(firstWrite_some.mp h).2]
  rfl

theorem mergeWrite_merge {w : DocumentWrite} (h : r.mergeWrite = some w) : w.merge = true := by
  obtain ⟨u, -, hw⟩ := mergeWrite_some.mp h
  rw [← hw]
  rfl

theorem firstWrite_articleId {w : DocumentWrite} (h : r.firstWrite = some w) :
    w.key = r.articleId := by
  rw [(firstWrite_some.mp h).2]
  rfl

theorem mergeWrite_articleId {w : DocumentWrite} (h : r.mergeWrite = some w) :
    w.key = r.articleId := by
  obtain ⟨u, -, hw⟩ := mergeWrite_some.mp h
  rw [← hw]
  rfl

/-- What the stage of a chain says about its download URL, and the URL about its path. -/
structure Coherent (r : Release P) : Prop where
  early : r.stage = .putData ∨ (∃ b, r.stage = .putDataCompletion b) ∨ r.stage = .downloadURL →
    r.downloadUrl = none ∧ r.tap.putData.isSome = true
  late : r.stage = .setData ∨ (∃ b, r.stage = .setDataCompletion b) ∨ r.stage = .succeeded →
    r.downloadUrl.isSome = true
  designates : ∀ u, r.downloadUrl = some u →
    r.tap.putData.isSome = true ∧
      P.objectPath (P.absoluteString u) = r.tap.putData.map Prod.fst

/-- The server has accepted the merging write. -/
def Merged (r : Release P) : Prop := r.stage = .setDataCompletion false ∨ r.stage = .succeeded

theorem coherent_start (t : Tap P) (h : t.views.titleTextView.isEmpty = false) :
    (start t h).Coherent := by
  cases hp : t.putData.isSome with
  | true => constructor <;> simp [start, hp]
  | false => constructor <;> simp [start, hp]

theorem Coherent.stop (h : r.Coherent) : ({ r with stage := .stopped } : Release P).Coherent where
  early := by simp
  late := by simp
  designates := h.designates

theorem Coherent.putData (h : r.Coherent) (hs : r.stage = .putData) (stored : Bool) :
    ({ r with stage := .putDataCompletion stored } : Release P).Coherent where
  early := fun _ ↦ h.early (Or.inl hs)
  late := by simp
  designates := h.designates

theorem Coherent.putDataCompletion (h : r.Coherent) {m : Bool}
    (hs : r.stage = .putDataCompletion m) (m' : Bool) : (r.putDataCompletion m').Coherent := by
  unfold Release.putDataCompletion
  split
  next =>
    exact ⟨fun _ ↦ h.early (Or.inr (Or.inl ⟨m, hs⟩)), by simp, h.designates⟩
  next => exact h.stop

theorem Coherent.downloadURLCompletion (h : r.Coherent) (hs : r.stage = .downloadURL)
    {url : Option P.URL}
    (hu : ∀ u ∈ url, P.objectPath (P.absoluteString u) = r.tap.putData.map Prod.fst) :
    (r.downloadURLCompletion url).1.Coherent := by
  cases url with
  | none => exact h.stop
  | some u =>
      have hp := (h.early (Or.inr (Or.inr hs))).2
      refine ⟨by simp [Release.downloadURLCompletion], fun _ ↦ rfl, ?_⟩
      intro v hv
      rw [← Option.some.inj hv]
      exact ⟨hp, hu u rfl⟩

theorem Coherent.setDataCompletion (h : r.Coherent) {e : Bool}
    (hs : r.stage = .setDataCompletion e) (e' : Bool) : (r.setDataCompletion e').Coherent := by
  cases e' with
  | true => exact h.stop
  | false =>
      exact ⟨by simp [Release.setDataCompletion],
        fun _ ↦ h.late (Or.inr (Or.inl ⟨e, hs⟩)), h.designates⟩

/-- The queue entries that carry a write of release `i`; the merging one is there only while the
chain waits for it. -/
inductive Carries (i : ℕ) (r : Release P) : QueuedWrite → Prop where
  | first {w : DocumentWrite} (h : r.firstWrite = some w) : Carries i r ⟨w, none⟩
  | merge {w : DocumentWrite} (h : r.mergeWrite = some w) (hs : r.stage = .setData) :
      Carries i r ⟨w, some i⟩

theorem Carries.key {i : ℕ} {q : QueuedWrite} (h : r.Carries i q) : q.write.key = r.articleId := by
  cases h with
  | first h => exact firstWrite_articleId h
  | merge h hs => exact mergeWrite_articleId h

end Release

/-! ## The plan of the releases -/

def plan (rs : List (Release P)) : Plan DocumentID String FieldValue where
  base k d := ∃ (i : ℕ) (r : Release P), rs[i]? = some r ∧ r.firstWrite = some (setData k d)
  patch k d := ∃ (i : ℕ) (r : Release P), rs[i]? = some r ∧
    r.mergeWrite = some (setDataMerge k d)

theorem plan_uniquePatches {rs : List (Release P)} (h : (rs.map Release.articleId).Nodup) :
    (plan rs).UniquePatches := by
  rintro k a b ⟨i, r, hi, ha⟩ ⟨j, r', hj, hb⟩
  obtain ⟨hka, -⟩ := Release.mergeWrite_key ha
  obtain ⟨hkb, -⟩ := Release.mergeWrite_key hb
  have hij : i = j := getElem?_inj_of_nodup h hi hj (hka.trans hkb.symm)
  have hr : r = r' := Option.some.inj (hi.symm.trans (hij ▸ hj))
  rw [hr, hb] at ha
  exact (congrArg Write.data (Option.some.inj ha)).symm

/-- Releases are kept with their taps, and a download URL is kept once it is there. -/
def Grows (rs rs' : List (Release P)) : Prop :=
  Records (fun i r ↦ ∃ r', rs'[i]? = some r' ∧ r'.tap = r.tap ∧
    ∀ u, r.downloadUrl = some u → r'.downloadUrl = some u) rs

theorem grows_refl (rs : List (Release P)) : Grows rs rs :=
  fun _ r hi ↦ ⟨r, hi, rfl, fun _ hu ↦ hu⟩

theorem Grows.trans {rs rs' rs'' : List (Release P)} (h : Grows rs rs') (h' : Grows rs' rs'') :
    Grows rs rs'' := by
  intro i r hi
  obtain ⟨r', hi', ht, hu⟩ := h i r hi
  obtain ⟨r'', hi'', ht', hu'⟩ := h' i r' hi'
  exact ⟨r'', hi'', ht'.trans ht, fun u h ↦ hu' u (hu u h)⟩

theorem grows_concat (rs : List (Release P)) (r : Release P) : Grows rs (rs ++ [r]) :=
  fun _ r' hi ↦ ⟨r', getElem?_concat_of_some hi, rfl, fun _ hu ↦ hu⟩

theorem grows_modify {rs : List (Release P)} {i : ℕ} {f : Release P → Release P}
    (ht : ∀ r, (f r).tap = r.tap)
    (hu : ∀ r, rs[i]? = some r → ∀ u, r.downloadUrl = some u → (f r).downloadUrl = some u) :
    Grows rs (rs.modify i f) := by
  intro j r hj
  by_cases hij : i = j
  · subst hij
    exact ⟨f r, getElem?_modify_self hj, ht r, hu r hj⟩
  · exact ⟨r, by rw [getElem?_modify_ne hij, hj], rfl, fun _ h ↦ h⟩

theorem Grows.extends {rs rs' : List (Release P)} (h : Grows rs rs') :
    (plan rs').Extends (plan rs) where
  base := by
    rintro k d ⟨i, r, hi, hw⟩
    obtain ⟨r', hi', ht, -⟩ := h i r hi
    exact ⟨i, r', hi', (Release.firstWrite_congr ht).trans hw⟩
  patch := by
    rintro k d ⟨i, r, hi, hw⟩
    obtain ⟨r', hi', ht, hu⟩ := h i r hi
    obtain ⟨u, hru, -⟩ := Release.mergeWrite_some.mp hw
    exact ⟨i, r', hi', (Release.mergeWrite_congr ht ((hu u hru).trans hru.symm)).trans hw⟩

/-! ## The invariant -/

namespace Publishing

/-- The entry carries a write of a release of the device. -/
def Queued (rs : List (Release P)) (d : ℕ) (q : QueuedWrite) : Prop :=
  ∃ (i : ℕ) (r : Release P), rs[i]? = some r ∧ r.tap.device = d ∧ r.Carries i q

/-- The writes the server has accepted, oldest first. -/
def accepted (s : Publishing P) : List DocumentWrite :=
  (s.decided.filter fun x ↦ x.2).map Prod.fst

structure Consistent (s : Publishing P) : Prop where
  ids : (s.releases.map Release.articleId).Nodup
  coherent : Records (fun _ r ↦ r.Coherent) s.releases
  queued : ∀ d, ∀ q ∈ s.queue d, Queued s.releases d q
  once : ∀ d, ((s.queue d).filterMap QueuedWrite.completion).Nodup
  issued : Records (fun _ r ↦ ∀ w, r.firstWrite = some w →
    (∃ q ∈ s.queue r.tap.device, q.write = w) ∨ ∃ b, (w, b) ∈ s.decided) s.releases
  merged : Records (fun _ r ↦ ∀ w, r.mergeWrite = some w →
    ((w, true) ∈ s.decided ↔ r.Merged)) s.releases
  decided : ∀ w b, (w, b) ∈ s.decided → (plan s.releases).Allows w
  articles : s.articles = replay ∅ s.accepted

theorem consistent_init : (init : Publishing P).Consistent where
  ids := List.nodup_nil
  coherent := records_nil
  queued := fun _ _ hq ↦ absurd hq List.not_mem_nil
  once := fun _ ↦ List.nodup_nil
  issued := records_nil
  merged := records_nil
  decided := fun _ _ h ↦ absurd h List.not_mem_nil
  articles := rfl

theorem Queued.allows {rs : List (Release P)} {d : ℕ} {q : QueuedWrite} (h : Queued rs d q) :
    (plan rs).Allows q.write := by
  obtain ⟨i, r, hi, -, hc⟩ := h
  unfold Plan.Allows
  cases hc with
  | first h =>
      rw [if_neg (by rw [Release.firstWrite_merge h]; exact Bool.false_ne_true)]
      refine ⟨i, r, hi, ?_⟩
      rw [h, (Release.firstWrite_some.mp h).2]
      rfl
  | merge h hs =>
      rw [if_pos (Release.mergeWrite_merge h)]
      refine ⟨i, r, hi, ?_⟩
      obtain ⟨u, -, hw⟩ := Release.mergeWrite_some.mp h
      rw [h, ← hw]
      rfl

-- An allowed write is on the id of a release.
theorem allows_key {rs : List (Release P)} {w : DocumentWrite} (h : (plan rs).Allows w) :
    ∃ (i : ℕ) (r : Release P), rs[i]? = some r ∧ r.articleId = w.key ∧
      (if w.merge then r.mergeWrite = some w else r.firstWrite = some w) := by
  unfold Plan.Allows at h
  split at h
  next hm =>
    obtain ⟨i, r, hi, hw⟩ := h
    refine ⟨i, r, hi, (Release.mergeWrite_key hw).1, ?_⟩
    rw [if_pos hm, hw]
    cases w
    simp only at hm
    rw [hm]
    rfl
  next hm =>
    obtain ⟨i, r, hi, hw⟩ := h
    refine ⟨i, r, hi, (Release.firstWrite_key hw).1, ?_⟩
    rw [if_neg hm, hw]
    cases w
    simp only [Bool.not_eq_true] at hm
    rw [hm]
    rfl

-- A queued write stays a write of its release when another entry's release moves on.
theorem Queued.modify {rs : List (Release P)} {d i : ℕ} {q : QueuedWrite} (h : Queued rs d q)
    {f : Release P → Release P} (ht : ∀ r, (f r).tap = r.tap) (hq : q.completion ≠ some i) :
    Queued (rs.modify i f) d q := by
  obtain ⟨j, r, hj, hd, hc⟩ := h
  by_cases hij : i = j
  · -- only the first write can be queued under this release
    subst hij
    refine ⟨i, f r, getElem?_modify_self hj, by rw [ht, hd], ?_⟩
    cases hc with
    | first h => exact .first ((Release.firstWrite_congr (ht r)).trans h)
    | merge h hs => exact absurd rfl hq
  · exact ⟨j, r, by rw [getElem?_modify_ne hij, hj], hd, hc⟩

theorem Queued.concat {rs : List (Release P)} {d : ℕ} {q : QueuedWrite} (h : Queued rs d q)
    (r : Release P) : Queued (rs ++ [r]) d q := by
  obtain ⟨j, r', hj, hd, hc⟩ := h
  exact ⟨j, r', getElem?_concat_of_some hj, hd, hc⟩

end Publishing

end LadyBook
