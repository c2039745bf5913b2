import LadyBook.System.Documents

/-!
# The pictures in Storage

An object name is made from a clock reading alone.  While the readings of the uploading taps differ,
every path has one release that puts to it, and the object keeps what that release put.
-/

open Reasoning Reasoning.DocumentStore

namespace LadyBook

variable {P : Platform}

theorem Tap.putData_some {t : Tap P} {reference : String} {imageData : P.Data} :
    t.putData = some (reference, imageData) ↔
      reference = "posts/" ++ (P.interpolate t.date ++ ".jpg") ∧
        t.views.writingImageView.bind P.jpegData = some imageData := by
  unfold Tap.putData
  cases t.views.writingImageView with
  | none => simp
  | some selectImage =>
      rw [Option.bind_some]
      cases hj : P.jpegData selectImage with
      | none => simp [hj]
      | some imageData' => simp [hj, eq_comm]

-- Two uploads use the same path exactly when their clock readings are equal.
theorem Tap.path_eq_iff (hP : P.InterpolatesFaithfully) {t t' : Tap P} {path path' : String}
    {imageData imageData' : P.Data} (h : t.putData = some (path, imageData))
    (h' : t'.putData = some (path', imageData')) : path = path' ↔ t.date = t'.date := by
  rw [(Tap.putData_some.mp h).1, (Tap.putData_some.mp h').1, String.append_right_inj,
    String.append_left_inj]
  exact hP.eq_iff

/-- The upload of the release has been stored. -/
def Release.Stored (r : Release P) : Prop :=
  r.stage = .putDataCompletion true ∨ r.stage = .downloadURL ∨ r.downloadUrl.isSome = true

/-- Every stored upload is what its path holds. -/
def Kept (rs : List (Release P)) (storage : String → Option P.Data) : Prop :=
  Records (fun _ r ↦ r.Stored → ∀ path imageData, r.tap.putData = some (path, imageData) →
    storage path = some imageData) rs

/-- No two releases put to the same path. -/
def PathsDistinct (rs : List (Release P)) : Prop :=
  ∀ (i j : ℕ) (r r' : Release P), rs[i]? = some r → rs[j]? = some r' →
    ∀ path imageData imageData', r.tap.putData = some (path, imageData) →
      r'.tap.putData = some (path, imageData') → i = j

/-- No two uploading releases read the same clock value. -/
def DatesDistinct (rs : List (Release P)) : Prop :=
  ∀ (i j : ℕ) (r r' : Release P), rs[i]? = some r → rs[j]? = some r' →
    r.tap.putData.isSome = true → r'.tap.putData.isSome = true → r.tap.date = r'.tap.date → i = j

theorem pathsDistinct_iff (hP : P.InterpolatesFaithfully) {rs : List (Release P)} :
    PathsDistinct rs ↔ DatesDistinct rs := by
  constructor
  · intro h i j r r' hi hj hp hp' hd
    obtain ⟨⟨path, imageData⟩, hp⟩ := Option.isSome_iff_exists.mp hp
    obtain ⟨⟨path', imageData'⟩, hp'⟩ := Option.isSome_iff_exists.mp hp'
    have hpath : path = path' := (Tap.path_eq_iff hP hp hp').mpr hd
    subst hpath
    exact h i j r r' hi hj path imageData imageData' hp hp'
  · intro h i j r r' hi hj path imageData imageData' hp hp'
    exact h i j r r' hi hj (by rw [hp]; rfl) (by rw [hp']; rfl)
      ((Tap.path_eq_iff hP hp hp').mp rfl)

theorem datesDistinct_of_nodup {rs : List (Release P)}
    (h : (rs.map fun r ↦ r.tap.date).Nodup) : DatesDistinct rs :=
  fun _ _ _ _ hi hj _ _ hd ↦ getElem?_inj_of_nodup (g := fun r ↦ r.tap.date) h hi hj hd

theorem PathsDistinct.of_grows {rs rs' : List (Release P)} (h : PathsDistinct rs')
    (hg : Grows rs rs') : PathsDistinct rs := by
  intro i j r r' hi hj path imageData imageData' hp hp'
  obtain ⟨q, hqi, hq, -⟩ := hg i r hi
  obtain ⟨q', hqj, hq', -⟩ := hg j r' hj
  exact h i j q q' hqi hqj path imageData imageData' (hq ▸ hp) (hq' ▸ hp')

theorem Kept.advance {rs : List (Release P)} {storage : String → Option P.Data}
    (h : Kept rs storage) {i : ℕ} {f : Release P → Release P} (ht : ∀ r, (f r).tap = r.tap)
    (hf : ∀ r, rs[i]? = some r → (f r).Stored → r.Stored) : Kept (rs.modify i f) storage :=
  Records.modify h fun r hr hk hs path imageData hp ↦ hk (hf r hr hs) path imageData (ht r ▸ hp)

namespace Publishing

variable {s s' : Publishing P}

/-- Every image URL of a document designates an object that holds the image its release put. -/
def OwnPictures (s : Publishing P) : Prop :=
  ∀ (id : DocumentID) (data : DocumentData) (url : String), s.articles.lookup id = some data →
    data.string? "imageURL" = some url →
      ∃ (i : ℕ) (r : Release P) (path : String) (imageData : P.Data),
        s.releases[i]? = some r ∧ r.articleId = id ∧
        r.tap.views.writingImageView.bind P.jpegData = some imageData ∧
        P.objectPath url = some path ∧ s.storage path = some imageData

theorem Kept.step (hk : Kept s.releases s.storage) (h : s.Consistent) {e : Event P}
    (hd : PathsDistinct s'.releases) (hs : s.step e = some s') : Kept s'.releases s'.storage := by
  cases e with
  | tapReleaseButton t =>
      rcases tapReleaseButton_some hs with ⟨-, rfl⟩ | ⟨ht, -, rfl⟩
      · exact hk
      · refine hk.concat fun hst ↦ absurd hst ?_
        cases hp : t.putData.isSome <;> simp [Release.Stored, Release.start, hp]
  | putData i stored =>
      have hg := grows_step h hs
      obtain ⟨r, reference, imageData, hi, hst, hp, rfl⟩ := putData_some hs
      intro j r' hj hst' path imageData' hp'
      obtain ⟨a, ha, rfl⟩ := getElem?_modify_some.mp hj
      by_cases hij : i = j
      · -- the upload itself, which had not been stored before
        subst hij
        obtain rfl := Option.mem_unique ha hi
        rw [if_pos rfl] at hst' hp'
        have hnone := ((h.coherent i a hi).early (Or.inl hst)).1
        have hstored : stored = true := by simpa [Release.Stored, hnone] using hst'
        obtain ⟨rfl, rfl⟩ := Prod.mk.inj (Option.mem_unique hp hp')
        show (if stored = true then Function.update s.storage reference (some imageData)
          else s.storage) reference = _
        rw [if_pos hstored, Function.update_self]
      · -- the upload of another release goes to another path
        rw [if_neg hij] at hst' hp'
        have hold := hk j a ha hst' path imageData' hp'
        have hne : path ≠ reference := by
          rintro rfl
          exact hij ((hd.of_grows hg) i j r a hi ha path imageData imageData' hp hp')
        show (if stored = true then Function.update s.storage reference (some imageData)
          else s.storage) path = _
        split
        next => rw [Function.update_of_ne hne, hold]
        next => exact hold
  | putDataCompletion i =>
      obtain ⟨r, m, hi, hst, rfl⟩ := putDataCompletion_some hs
      refine hk.advance (fun a ↦ by cases m <;> rfl) fun a ha hsa ↦ ?_
      obtain rfl := Option.mem_unique ha hi
      cases m with
      | true => exact Or.inl hst
      | false =>
          exact Or.inr (Or.inr (by simpa [Release.Stored, Release.putDataCompletion] using hsa))
  | downloadURLCompletion i url =>
      obtain ⟨r, hi, hst, -, rfl⟩ := downloadURLCompletion_some hs
      refine hk.advance (fun a ↦ by cases url <;> rfl) fun a ha _ ↦ ?_
      obtain rfl := Option.mem_unique ha hi
      exact Or.inr (Or.inl hst)
  | decide d n b =>
      obtain ⟨q, -, rfl⟩ := decide_some hs
      cases hc : q.completion with
      | none => exact hk
      | some i =>
          exact hk.advance (fun _ ↦ rfl) fun a _ hsa ↦
            Or.inr (Or.inr (by simpa [Release.Stored] using hsa))
  | setDataCompletion i =>
      obtain ⟨r, error, -, -, rfl⟩ := setDataCompletion_some hs
      refine hk.advance (fun _ ↦ rfl) fun a _ hsa ↦ Or.inr (Or.inr ?_)
      cases error <;> simpa [Release.Stored, Release.setDataCompletion] using hsa

theorem kept_run {es : List (Event P)} (hd : PathsDistinct s.releases)
    (hs : run step init es = some s) : Kept s.releases s.storage := by
  have hall : s.Consistent ∧ (PathsDistinct s.releases → Kept s.releases s.storage) :=
    run_invariant (I := fun s ↦ s.Consistent ∧
        (PathsDistinct s.releases → Kept s.releases s.storage))
      (fun hI hs ↦ ⟨hI.1.step hs, fun hd ↦
        Kept.step (hI.2 (hd.of_grows (grows_step hI.1 hs))) hI.1 hd hs⟩)
      ⟨consistent_init, fun _ _ _ h ↦ by cases h⟩ hs
  exact hall.2 hd

-- Every object was put by a release.
theorem storage_run {es : List (Event P)} (hs : run step init es = some s) {path : String}
    {imageData : P.Data} (hp : s.storage path = some imageData) :
    ∃ (i : ℕ) (r : Release P), s.releases[i]? = some r ∧
      r.tap.putData = some (path, imageData) := by
  have hall : s.Consistent ∧ ∀ path imageData, s.storage path = some imageData →
      ∃ (i : ℕ) (r : Release P), s.releases[i]? = some r ∧
        r.tap.putData = some (path, imageData) := by
    refine run_invariant (I := fun s ↦ s.Consistent ∧ ∀ path imageData,
      s.storage path = some imageData → ∃ (i : ℕ) (r : Release P), s.releases[i]? = some r ∧
        r.tap.putData = some (path, imageData)) (fun {m e m'} hI hs ↦ ⟨hI.1.step hs, ?_⟩)
      ⟨consistent_init, fun _ _ h ↦ by cases h⟩ hs
    intro path imageData hp
    have hold : m.storage path = some imageData → ∃ (i : ℕ) (r : Release P),
        m'.releases[i]? = some r ∧ r.tap.putData = some (path, imageData) := by
      intro hm
      obtain ⟨i, r, hi, hr⟩ := hI.2 path imageData hm
      obtain ⟨r', hi', htap, -⟩ := grows_step hI.1 hs i r hi
      exact ⟨i, r', hi', htap ▸ hr⟩
    rcases step_storage hs with hsame | ⟨i, r, reference, imageData', hi, hput, hnew⟩
    · exact hold (hsame ▸ hp)
    · rw [hnew] at hp
      by_cases hpath : path = reference
      · rw [hpath, Function.update_self] at hp
        obtain rfl := Option.some.inj hp
        obtain ⟨r', hi', htap, -⟩ := grows_step hI.1 hs i r hi
        exact ⟨i, r', hi', by rw [htap, hpath, hput]⟩
      · rw [Function.update_of_ne hpath] at hp
        exact hold hp
  exact hall.2 path imageData hp

theorem Consistent.ownPictures (h : s.Consistent) (hk : Kept s.releases s.storage) :
    s.OwnPictures := by
  intro id data url hd hurl
  obtain ⟨i, r, hi, hid, hdep, -⟩ := h.document h.accounts hd
  obtain ⟨u, hu, hv⟩ := hdep _ (DocumentData.lookup_of_string? hurl)
  obtain rfl : url = P.absoluteString u := FieldValue.string.inj hv
  obtain ⟨hp, hpath⟩ := (h.coherent i r hi).designates u hu
  obtain ⟨⟨path, imageData⟩, hp⟩ := Option.isSome_iff_exists.mp hp
  rw [hp] at hpath
  have hkept := hk i r hi (Or.inr (Or.inr (by rw [hu]; rfl))) path imageData hp
  exact ⟨i, r, path, imageData, hi, hid, (Tap.putData_some.mp hp).2, hpath, hkept⟩

end Publishing

end LadyBook
