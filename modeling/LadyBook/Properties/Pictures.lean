import LadyBook.System.Pictures
import LadyBook.System.Screens

/-!
# Each article keeps its own picture

The name of a Storage object is a clock reading.  Articles keep their pictures exactly as long as no
two uploading taps, on any devices, have read the same value.
-/

open Reasoning

namespace LadyBook.World

variable {P : Platform} {w w₁ : World P}

-- The releases of an earlier state of a run are still there.
theorem grows_append {es₁ es₂ : List (Event P)} (h₁ : run step init es₁ = some w₁)
    (h : run step init (es₁ ++ es₂) = some w) :
    Grows w₁.publishing.releases w.publishing.releases := by
  obtain ⟨m, hm, hr⟩ := run_append_some.mp h
  obtain rfl := Option.mem_unique h₁ hm
  exact Publishing.grows_run (consistent_run h₁).publishing (projects.run hr)

/-- In every state of a run the objects hold the pictures of their articles and no path is used
twice, if and only if the uploading taps of the run read different clock values. -/
theorem ownPictures_iff_datesDistinct (hP : P.InterpolatesFaithfully) {es : List (Event P)}
    (h : run step init es = some w) :
    (∀ es₁ es₂ w₁, es = es₁ ++ es₂ → run step init es₁ = some w₁ →
      w₁.publishing.OwnPictures ∧ PathsDistinct w₁.publishing.releases) ↔
        DatesDistinct w.publishing.releases := by
  constructor
  · intro hall
    have hpaths := (hall es [] w (List.append_nil es).symm h).2
    exact (pathsDistinct_iff hP).mp hpaths
  · rintro hdates es₁ es₂ w₁ rfl h₁
    have hpaths : PathsDistinct w₁.publishing.releases :=
      ((pathsDistinct_iff hP).mpr hdates).of_grows (grows_append h₁ h)
    have hkept := Publishing.kept_run hpaths (publishing_run h₁)
    exact ⟨(consistent_run h₁).publishing.ownPictures hkept, hpaths⟩

/-- Two devices release one after the other; the first article is complete when the second upload
is stored.  The second device reads `date`. -/
def twoReleases (date : String) : List (Event Platform.sample) :=
  launch 0 "a@example.com" "secret" ⟨"first", "", some "cat"⟩ ++
    launch 1 "b@example.com" "secret" ⟨"second", "", some "dog"⟩ ++
    [.tapReleaseButton 0 2 "A" (.ofSeconds 1) "5.0" false, .putData 0 true, .putDataCompletion 0,
      .downloadURLCompletion 0 (some "posts/5.0.jpg"), .decide 0 0 true, .decide 0 0 true,
      .setDataCompletion 0, .tapReleaseButton 1 2 "B" (.ofSeconds 1) date false, .putData 1 true]

theorem ownPictures_of_distinct_readings :
    ∃ w, run step init (twoReleases "5.5") = some w ∧ w.publishing.OwnPictures := by
  obtain ⟨w, hw, hnodup⟩ := exists_run_of_check step init (twoReleases "5.5")
    (fun w ↦ (w.publishing.releases.map fun r ↦ r.tap.date).Nodup) (by decide)
  have hall := (ownPictures_iff_datesDistinct Platform.sample_interpolatesFaithfully hw).mpr
    (datesDistinct_of_nodup hnodup)
  exact ⟨w, hw, (hall _ [] w (List.append_nil _).symm hw).1⟩

/-- With equal readings the second upload replaces the picture of the first article. -/
theorem not_forall_ownPictures :
    ¬ ∀ (es : List (Event Platform.sample)) (w : World Platform.sample),
      run step init es = some w →
        w.publishing.OwnPictures ∧ PathsDistinct w.publishing.releases := by
  intro hall
  obtain ⟨w, hw, ⟨data, hdata⟩, hreleases, hstorage⟩ := exists_run_of_check step init
    (twoReleases "5.0") (fun w ↦
      (∃ data ∈ w.publishing.articles.lookup "A",
        DocumentData.string? data "imageURL" = some "posts/5.0.jpg") ∧
      (∀ r ∈ w.publishing.releases, r.articleId = "A" →
        r.tap.views.writingImageView = some "cat") ∧
      w.publishing.storage "posts/5.0.jpg" = some "dog") (by decide)
  obtain ⟨i, r, path, imageData, hi, hid, himage, hpath, hkept⟩ :=
    (hall _ w hw).1 "A" data "posts/5.0.jpg" hdata.1 hdata.2
  rw [hreleases r (List.mem_of_getElem? hi) hid] at himage
  obtain rfl := Option.some.inj himage
  obtain rfl := Option.some.inj hpath
  rw [hstorage] at hkept
  exact absurd hkept (by decide)

end LadyBook.World
