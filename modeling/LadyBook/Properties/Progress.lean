import LadyBook.System.Screens
import LadyBook.System.Settling

/-!
# Every release comes to an end

In every interleaving a release goes through the program of its tap and nothing else, the taps bound
the number of all answers and handlers, and from every reachable state answers that fail nothing lead
each chain to its end.
-/

open Reasoning

namespace LadyBook.World

variable {P : Platform} {w w' : World P} {es : List (Event P)}

/-! ## One release among many -/

/-- The events of release `i` along a run. -/
def chainOf (i : ℕ) (es : List (Event P)) : List (Chain.Event P) :=
  trace step (fun w e ↦ trace Publishing.step (Publishing.observed i) w.publishing (published w e))
    init es

/-- In every run the events of a release come in the order of the source, each of them once at most,
and they alone say where the release stands. -/
theorem chain_run (h : run step init es = some w) (i : ℕ) :
    run Chain.step none (chainOf i es) = some w.publishing.releases[i]? ∧
      (chainOf i es).map Chain.Event.place = List.range (chainOf i es).length ∧
      Chain.Passed (chainOf i es).length w.publishing.releases[i]? := by
  have hrun : run Chain.step none (chainOf i es) = some w.publishing.releases[i]? :=
    (projects.trans (Publishing.projects_chain i)).run Publishing.consistent_init h
  exact ⟨hrun, Chain.place_run hrun⟩

/-- Two releases of one device; the upload of the first one fails while the second one goes on. -/
def interleaved : List (Event Platform.sample) :=
  launch 0 "a@example.com" "secret" ⟨"title", "text", some "cat"⟩ ++
    [.tapReleaseButton 0 2 "A" (.ofSeconds 1) "5.0" false,
      .tapReleaseButton 0 2 "B" (.ofSeconds 2) "6.0" false, .putData 1 true, .putData 0 false,
      .putDataCompletion 1, .decide 0 1 true, .downloadURLCompletion 1 (some "posts/6.0.jpg"),
      .putDataCompletion 0, .decide 0 1 true, .decide 0 0 true, .setDataCompletion 1]

theorem chain_run_interleaved :
    ∃ w, run step init interleaved = some w ∧
      (chainOf 1 interleaved).map Chain.Event.place = [0, 1, 2, 3, 4, 5] ∧
      Chain.Passed 3 w.publishing.releases[0]? := by
  obtain ⟨w, hw, -⟩ := exists_run_of_check step init interleaved (fun _ ↦ True) (by decide)
  have hlength : (chainOf 0 interleaved).length = 3 := by decide
  have hlength' : (chainOf 1 interleaved).length = 6 := by decide
  refine ⟨w, hw, ?_, hlength ▸ (chain_run hw 0).2.2⟩
  rw [(chain_run hw 1).2.1, hlength']
  rfl

/-! ## Bounded work -/

def Event.isTap : Event P → Bool
  | .tapReleaseButton _ _ _ _ _ _ => true
  | _ => false

/-- An answer of a server, or a completion handler of a chain. -/
def Event.isAnswer : Event P → Bool
  | .device _ _ => false
  | .tapReleaseButton _ _ _ _ _ _ => false
  | _ => true

theorem published_count {e : Event P} (h : w.step e = some w') :
    (published w e).countP Publishing.Event.isAnswer = (if e.isAnswer then 1 else 0) ∧
      (published w e).countP Publishing.Event.isTap = if e.isTap then 1 else 0 := by
  cases e with
  | tapReleaseButton d self documentID timestamp date encoderThrows =>
      obtain ⟨t, dev, ht, -, -, -⟩ := tapReleaseButton_some h
      simp only [published, ht]
      exact ⟨rfl, rfl⟩
  | _ => exact ⟨rfl, rfl⟩

/-- The taps of a run bound its answers and handlers: six for each tap, less what is left to do. -/
theorem answers_le (h : run step init es = some w) :
    w.publishing.pending + es.countP Event.isAnswer ≤ 6 * es.countP Event.isTap := by
  have hpaid := run_amortized (I := fun w : World P ↦ w.publishing.Consistent)
    (Φ := fun w ↦ w.publishing.pending) (W := Event.isAnswer) (C := Event.isTap) (k := 6)
    (fun hI hs ↦ run_invariant (fun hI hs ↦ hI.step hs) hI (projects.step hs))
    (fun {w e w'} hI hs ↦ by
      have hrun := hI.pending_run (projects.step hs)
      obtain ⟨hanswers, htaps⟩ := published_count hs
      rwa [hanswers, htaps] at hrun)
    (Publishing.consistent_init (P := P)) h
  have hinit : (init : World P).publishing.pending = 0 := rfl
  omega

/-- Nine answers and handlers follow two taps: the failed upload leaves out three. -/
theorem answers_le_interleaved :
    ∃ w, run step init interleaved = some w ∧ w.publishing.pending + 9 ≤ 12 := by
  obtain ⟨w, hw, -⟩ := exists_run_of_check step init interleaved (fun _ ↦ True) (by decide)
  have hanswers : interleaved.countP Event.isAnswer = 9 := by decide
  have htaps : interleaved.countP Event.isTap = 2 := by decide
  exact ⟨w, hw, by simpa only [hanswers, htaps] using answers_le hw⟩

/-! ## Nothing is stuck -/

/-- Answers that fail nothing, and handlers; the user does nothing. -/
def Event.Favourable : Event P → Prop
  | .device _ _ => False
  | .tapReleaseButton _ _ _ _ _ _ => False
  | .putData _ stored => stored = true
  | .putDataCompletion _ => True
  | .downloadURLCompletion _ url => url.isSome = true
  | .decide _ n accepted => n = 0 ∧ accepted = true
  | .setDataCompletion _ => True

theorem Consistent.favourable_trap (h : w.Consistent) {e : Event P} (he : e.Favourable)
    (hs : w.step e = some w') (d : ℕ) : (w'.device d).trap = (w.device d).trap := by
  rcases h.step_trap hs d with htrap | ⟨e', trap, rfl, -, -⟩
  · exact htrap
  · exact absurd he not_false

/-- The state was reached from `w` by favourable events: the same apps run, and the releases are
there, those that had failed and no others. -/
structure Continues (w w' : World P) : Prop where
  consistent : w'.Consistent
  waits : w'.publishing.Waits
  trap : ∀ d, (w'.device d).trap = (w.device d).trap
  kept : ∀ (i : ℕ) (r : Release P), w.publishing.releases[i]? = some r →
    ∃ r', w'.publishing.releases[i]? = some r' ∧ r'.tap = r.tap ∧ (r'.Failed ↔ r.Failed)

theorem Continues.step {w'' : World P} (h : w.Continues w') {e : Event P} (he : e.Favourable)
    (hs : w'.step e = some w'') {x : Publishing.Event P} (hx : x.Favourable)
    (hpublished : published w' e = [x]) : w.Continues w'' where
  consistent := h.consistent.step hs
  waits := by
    have hrun := projects.step hs
    exact run_invariant (fun hI hs ↦ hI.step hs) h.waits hrun
  trap := fun d ↦ (h.consistent.favourable_trap he hs d).trans (h.trap d)
  kept := by
    intro i r hi
    obtain ⟨r', hi', htap, hfailed⟩ := h.kept i r hi
    have hrun := projects.step hs
    rw [hpublished, run_cons_some] at hrun
    obtain ⟨m, hm, hr⟩ := hrun
    rw [run_nil_some] at hr
    subst hr
    obtain ⟨r'', hi'', htap', hfailed'⟩ := h.consistent.publishing.favourable_step hx hm hi'
    exact ⟨r'', hi'', htap'.trans htap, hfailed'.trans hfailed⟩

end LadyBook.World
