import LadyBook.Properties.Releases
import LadyBook.System.Views

/-!
# Every device's view

No issued write is lost, kept twice or told two verdicts.  A device sees its own articles from the
tap until a rejection and those of the other devices as the server has them; a feed shows what its
device saw at one moment.  The server's collection depends on the set of the accepted writes alone.
-/

open Reasoning Reasoning.DocumentStore

namespace LadyBook.World

variable {P : Platform} {w w' : World P} {es es' : List (Event P)}

/-! ## Writes on their way -/

theorem conserved_run (h : run step init es = some w) : w.publishing.Conserved :=
  Publishing.conserved_run (publishing_run h)

/-- In every run each write that a release has issued is in the queue of its device or decided, in
one place and once, and these are all writes there are. -/
theorem writes_conserved (h : run step init es = some w) :
    (∀ (i : ℕ) (r : Release P), w.publishing.releases[i]? = some r →
      ∀ wr, Publishing.Issued r wr →
        (w.publishing.known r.tap.device).count wr = 1 ∧
        (∀ d, d ≠ r.tap.device → ∀ q ∈ w.publishing.queue d, q.write ≠ wr) ∧
        ¬ ((wr, true) ∈ w.publishing.decided ∧ (wr, false) ∈ w.publishing.decided)) ∧
    ∀ d, ∀ wr ∈ w.publishing.known d, ∃ r ∈ w.publishing.releases, Publishing.Issued r wr := by
  have hw := (consistent_run h).publishing
  have hc := conserved_run h
  refine ⟨fun i r hi wr hwr ↦ ⟨hc.count_known hw hi hwr, ?_, ?_⟩, fun d wr hwr ↦ ?_⟩
  · rintro d hd q hq rfl
    exact hd (hw.queue_device hi hq hwr.key)
  · rintro ⟨ha, hr⟩
    exact hc.verdict_unique ha hr
  · obtain ⟨i, r, hi, hk, hown⟩ := Publishing.allows_key (hw.known_allows hwr)
    refine ⟨r, List.mem_of_getElem? hi, ?_⟩
    split at hown
    next => exact Or.inr hown
    next => exact Or.inl hown

/-- Two devices; the first write of one article is rejected while its merge waits, and the other
article is still in its device's queue. -/
def underTwoDevices : List (Event Platform.sample) :=
  launch 0 "a@example.com" "secret" ⟨"title", "text", some "cat"⟩ ++
    launch 1 "b@example.com" "secret" ⟨"other", "words", some "dog"⟩ ++
    [.tapReleaseButton 0 2 "A" (.ofSeconds 1) "5.0" false,
      .tapReleaseButton 1 2 "B" (.ofSeconds 2) "6.0" false, .putData 0 true, .putDataCompletion 0,
      .downloadURLCompletion 0 (some "posts/5.0.jpg"), .decide 0 0 false]

theorem writes_conserved_underTwoDevices :
    ∃ w, run step init underTwoDevices = some w ∧ ∃ r ∈ w.publishing.releases[1]?,
      r.tap.device = 1 ∧
        (w.publishing.known 1).count (setData r.articleId r.tap.document) = 1 := by
  obtain ⟨w, hw, r, hr, hd, hthrows⟩ := exists_run_of_check step init underTwoDevices (fun w ↦
    ∃ r ∈ w.publishing.releases[1]?, r.tap.device = 1 ∧ r.tap.encoderThrows = false) (by decide)
  have hissued : Publishing.Issued r (setData r.articleId r.tap.document) :=
    Or.inl (Release.firstWrite_some.mpr ⟨hthrows, rfl⟩)
  exact ⟨w, hw, r, hr, hd, hd ▸ ((writes_conserved hw).1 1 r hr _ hissued).1⟩

/-! ## One article, seen from every device -/

/-- With the writes of each device decided in order, two runs in which the server accepted the same
writes end with the same collection, however the devices' writes and the taps were interleaved; the
feeds read the same articles from it. -/
theorem articles_determined (ho : ∀ e ∈ es, e.InOrder) (ho' : ∀ e ∈ es', e.InOrder)
    (h : run step init es = some w) (h' : run step init es' = some w')
    (haccepted : ∀ wr, (wr, true) ∈ w.publishing.decided ↔ (wr, true) ∈ w'.publishing.decided) :
    w.publishing.articles = w'.publishing.articles := by
  have hw := (consistent_run h).publishing
  have hw' := (consistent_run h').publishing
  have hordered := Publishing.ordered_run (inOrder_published ho) (publishing_run h)
  have hordered' := Publishing.ordered_run (inOrder_published ho') (publishing_run h')
  rw [hw.articles, hw'.articles]
  exact replay_eq_of_mem_iff (fun wr ↦ by rw [Publishing.mem_accepted, haccepted,
    Publishing.mem_accepted]) hw.agree_accepted hordered.accepted hordered'.accepted

def tapOf (d : ℕ) (id : DocumentID) (views : WritingViews Platform.sample) : Tap Platform.sample :=
  ⟨d, 2, views, some "", some "", id, .ofSeconds 1, "5.0", false⟩

/-- The first writes of two devices, decided in either order. -/
def decidedInTurn (d d' : ℕ) : List (Event Platform.sample) :=
  launch 0 "a@example.com" "secret" ⟨"title", "text", some "cat"⟩ ++
    launch 1 "b@example.com" "secret" ⟨"other", "words", some "dog"⟩ ++
    [.tapReleaseButton 0 2 "A" (.ofSeconds 1) "5.0" false,
      .tapReleaseButton 1 2 "B" (.ofSeconds 1) "5.0" false, .decide d 0 true, .decide d' 0 true]

theorem articles_determined_decidedInTurn :
    ∃ w w', run step init (decidedInTurn 0 1) = some w ∧
      run step init (decidedInTurn 1 0) = some w' ∧
      w.publishing.decided = w'.publishing.decided.reverse ∧
      w.publishing.articles = w'.publishing.articles := by
  have ho : ∀ d d', ∀ e ∈ decidedInTurn d d', e.InOrder := by
    simp [decidedInTurn, launch, Event.InOrder]
  obtain ⟨w, hw, hd⟩ := exists_run_of_check step init (decidedInTurn 0 1) (fun w ↦
    w.publishing.decided =
      [(setData "A" (tapOf 0 "A" ⟨"title", "text", some "cat"⟩).document, true),
        (setData "B" (tapOf 1 "B" ⟨"other", "words", some "dog"⟩).document, true)]) (by decide)
  obtain ⟨w', hw', hd'⟩ := exists_run_of_check step init (decidedInTurn 1 0) (fun w ↦
    w.publishing.decided =
      [(setData "B" (tapOf 1 "B" ⟨"other", "words", some "dog"⟩).document, true),
        (setData "A" (tapOf 0 "A" ⟨"title", "text", some "cat"⟩).document, true)]) (by decide)
  have hrev : w.publishing.decided = w'.publishing.decided.reverse := by
    rw [hd, hd']
    rfl
  refine ⟨w, w', hw, hw', hrev, articles_determined (ho 0 1) (ho 1 0) hw hw' fun wr ↦ ?_⟩
  rw [hrev, List.mem_reverse]

end LadyBook.World
