import LadyBook.Properties.Pictures
import LadyBook.Properties.Releases

/-!
# Which objects are shown

Nothing deletes an object.  While the clock readings differ, an object has one release, and an
article shows it exactly when the server has accepted the merge of that release: the other objects
are what failed chains have left.
-/

open Reasoning Reasoning.DocumentStore

namespace LadyBook

variable {P : Platform}

namespace Publishing

variable {s : Publishing P}

/-- The image URL of some article designates the path. -/
def ShowsObject (s : Publishing P) (path : String) : Prop :=
  ∃ id data url, s.articles.lookup id = some data ∧
    DocumentData.string? data "imageURL" = some url ∧ P.objectPath url = some path

-- An image URL is in a document when the merge has been accepted, and not before.
theorem Consistent.merged_of_imageURL (h : s.Consistent) {i : ℕ} {r : Release P}
    (hi : s.releases[i]? = some r) {data : DocumentData} {url : String}
    (hd : s.articles.lookup r.articleId = some data)
    (hurl : DocumentData.string? data "imageURL" = some url) : r.Merged := by
  by_contra hm
  obtain ⟨hfirst, hnone⟩ := h.lookup_unmerged hi hm
  by_cases hf : s.FirstAccepted r
  · rw [hfirst hf] at hd
    obtain rfl := Option.some.inj hd
    have hlookup := DocumentData.lookup_of_string? hurl
    rw [r.tap.document_imageURL] at hlookup
    cases hlookup
  · rw [hnone hf] at hd
    cases hd

theorem Consistent.imageURL_of_merged (h : s.Consistent) (ho : s.Ordered) {i : ℕ} {r : Release P}
    (hi : s.releases[i]? = some r) (hm : r.Merged) :
    ∃ data u, s.articles.lookup r.articleId = some data ∧ r.downloadUrl = some u ∧
      DocumentData.string? data "imageURL" = some (P.absoluteString u) := by
  have hurl : r.downloadUrl.isSome = true := by
    rcases hm with hm | hm
    · exact (h.coherent i r hi).late (Or.inr (Or.inl ⟨false, hm⟩))
    · exact (h.coherent i r hi).late (Or.inr (Or.inr hm))
  obtain ⟨u, hu⟩ := Option.isSome_iff_exists.mp hurl
  have hpatch : patchOf r = Release.imageFields (P.absoluteString u) := by
    rw [patchOf, hu]
    rfl
  obtain ⟨hboth, halone⟩ := h.lookup_merged ho hi hm
  rw [hpatch] at hboth halone
  by_cases hf : s.FirstAccepted r
  · refine ⟨_, u, hboth hf, hu, DocumentData.string?_of_lookup ?_⟩
    rw [lookup_union, Release.imageFields_lookup_self, Option.some_or]
  · exact ⟨_, u, halone hf, hu,
      DocumentData.string?_of_lookup (Release.imageFields_lookup_self _)⟩

theorem Consistent.showsObject_iff (h : s.Consistent) (ho : s.Ordered)
    (hd : PathsDistinct s.releases) {i : ℕ} {r : Release P} (hi : s.releases[i]? = some r)
    {path : String} {imageData : P.Data} (hput : r.tap.putData = some (path, imageData)) :
    s.ShowsObject path ↔ r.Merged := by
  constructor
  · rintro ⟨id, data, url, hlookup, hurl, hpath⟩
    obtain ⟨j, r', hj, rfl, hdep, -⟩ := h.document h.accounts hlookup
    obtain ⟨u, hu, hv⟩ := hdep _ (DocumentData.lookup_of_string? hurl)
    obtain rfl : url = P.absoluteString u := FieldValue.string.inj hv
    obtain ⟨-, hdesignates⟩ := (h.coherent j r' hj).designates u hu
    rw [hpath] at hdesignates
    obtain ⟨⟨path', imageData'⟩, hput', hpath'⟩ := Option.map_eq_some_iff.mp hdesignates.symm
    obtain rfl : path' = path := hpath'
    -- both releases put to the path
    have hij := hd j i r' r hj hi path' imageData' imageData hput' hput
    subst hij
    obtain rfl := Option.mem_unique hj hi
    exact h.merged_of_imageURL hi hlookup hurl
  · intro hm
    obtain ⟨data, u, hlookup, hu, hurl⟩ := h.imageURL_of_merged ho hi hm
    refine ⟨r.articleId, data, P.absoluteString u, hlookup, hurl, ?_⟩
    rw [((h.coherent i r hi).designates u hu).2, hput, Option.map_some]

end Publishing

namespace World

variable {w : World P} {es : List (Event P)}

/-- When the clock readings of the uploading taps differ and the writes of each device are decided
in order, each object in Storage holds the picture of one release, and an article shows it if and
only if the server has accepted the merge of that release. -/
theorem object_shown_iff (hP : P.InterpolatesFaithfully) (ho : ∀ e ∈ es, e.InOrder)
    (h : run step init es = some w) (hd : DatesDistinct w.publishing.releases) {path : String}
    {imageData : P.Data} (hstored : w.publishing.storage path = some imageData) :
    ∃ (i : ℕ) (r : Release P), w.publishing.releases[i]? = some r ∧
      r.tap.putData = some (path, imageData) ∧
      (∀ (j : ℕ) (r' : Release P) imageData', w.publishing.releases[j]? = some r' →
        r'.tap.putData = some (path, imageData') → j = i) ∧
      (w.publishing.ShowsObject path ↔ r.Merged) := by
  have hw := (consistent_run h).publishing
  have hordered := Publishing.ordered_run (inOrder_published ho) (publishing_run h)
  have hpaths := (pathsDistinct_iff hP).mpr hd
  obtain ⟨i, r, hi, hput⟩ := Publishing.storage_run (publishing_run h) hstored
  exact ⟨i, r, hi, hput, fun j r' imageData' hj hput' ↦
    hpaths j i r' r hj hi path imageData' imageData hput' hput,
    hw.showsObject_iff hordered hpaths hi hput⟩

/-- The picture of one article is shown, that of the other one is stored and its chain has failed
after the upload. -/
def orphan : List (Event Platform.sample) :=
  launch 0 "a@example.com" "secret" ⟨"title", "text", some "cat"⟩ ++
    [.tapReleaseButton 0 2 "A" (.ofSeconds 1) "5.0" false, .putData 0 true, .putDataCompletion 0,
      .downloadURLCompletion 0 (some "posts/5.0.jpg"), .decide 0 0 true, .decide 0 0 true,
      .tapReleaseButton 0 2 "B" (.ofSeconds 2) "6.0" false, .putData 1 true, .putDataCompletion 1,
      .downloadURLCompletion 1 none]

theorem object_shown_iff_orphan :
    ∃ w, run step init orphan = some w ∧ w.publishing.storage "posts/6.0.jpg" = some "cat" ∧
      ¬ w.publishing.ShowsObject "posts/6.0.jpg" := by
  obtain ⟨w, hw, hnodup, hstored, hstopped⟩ := exists_run_of_check step init orphan (fun w ↦
    (w.publishing.releases.map fun r ↦ r.tap.date).Nodup ∧
      w.publishing.storage "posts/6.0.jpg" = some "cat" ∧
      ∀ r ∈ w.publishing.releases, r.tap.putData = some ("posts/6.0.jpg", "cat") →
        r.stage = .stopped) (by decide)
  obtain ⟨i, r, hi, hput, -, hiff⟩ := object_shown_iff Platform.sample_interpolatesFaithfully
    (by simp [orphan, launch, Event.InOrder]) hw (datesDistinct_of_nodup hnodup) hstored
  refine ⟨w, hw, hstored, fun hshown ↦ ?_⟩
  have hmerged := hiff.mp hshown
  simp [Release.Merged, hstopped r (List.mem_of_getElem? hi) hput] at hmerged

end World

end LadyBook
