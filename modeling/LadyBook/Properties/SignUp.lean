import LadyBook.System.History
import LadyBook.System.Pictures

/-!
# Only a registered user can publish

Nothing checks the user where the writes are issued.  They are out of reach before: the writing
screens are pushed by the completion handler of `createUser` alone.
-/

open Reasoning

namespace LadyBook

variable {P : Platform}

/-- The screens from which an article is written. -/
def Controller.Writes : Controller P → Prop
  | .writing _ => True
  | .writingAdd _ _ _ => True
  | _ => False

theorem Device.Changes.writes {localView : Collection} {e : Device.Event P} {self : Ref}
    {c c' : Controller P} (h : Device.Changes localView e self c c') (hc : c'.Writes) :
    c.Writes := by
  cases h with
  | edit => trivial
  | select => trivial
  | viewDidLoad => exact hc
  | getDocument => exact hc
  | getDocumentCompletion => exact hc

namespace World

variable {w : World P} {es : List (Event P)} {d : ℕ}

/-- A `createUser` call of the device, made earlier in the events, has completed without an
error. -/
def SignedUp (es : List (Event P)) (d : ℕ) : Prop :=
  ∃ es₁ k es₂ w₁ s, es = es₁ ++ .device d (.createUserCompletion k false) :: es₂ ∧
    run step init es₁ = some w₁ ∧ (w₁.device d).signUps[k]? = some s ∧ s.error = none

theorem SignedUp.concat (h : SignedUp es d) (e : Event P) : SignedUp (es ++ [e]) d := by
  obtain ⟨es₁, k, es₂, w₁, s, rfl, hw₁, hs, he⟩ := h
  exact ⟨es₁, k, es₂ ++ [e], w₁, s, by rw [List.append_assoc, List.cons_append], hw₁, hs, he⟩

-- The writing screens of a device are there only after a sign-up.
theorem writes_run (h : run step init es = some w) (d : ℕ) :
    Records (fun _ c ↦ c.Writes → SignedUp es d) (w.device d).controllers := by
  have hall : ∀ d, Records (fun _ c ↦ c.Writes → SignedUp es d) (w.device d).controllers := by
    refine run_induct (P := fun es w ↦ ∀ d, Records (fun _ c ↦ c.Writes → SignedUp es d)
      (w.device d).controllers) (fun _ ↦ records_nil) (fun es m e m' hm ih hs d ↦ ?_) h
    have hkeep : Records (fun _ c ↦ c.Writes → SignedUp (es ++ [e]) d)
        (m.device d).controllers := (ih d).imp fun _ c hc hw ↦ (hc hw).concat e
    refine controllers_step hs (fun c hp ↦ ?_)
      (fun e' self c c' _ _ hch hc hw ↦ hc (hch.writes hw)) hkeep
    cases hp with
    | opens ho =>
        cases ho with
        | login => exact fun hw ↦ hw.elim
        -- the screen below is a writing screen already
        | writingAdd hself => exact fun _ ↦ hkeep _ _ hself trivial
        | article => exact fun hw ↦ hw.elim
    -- the event itself is the completion
    | welcome hcall hnone => exact fun _ ↦ ⟨es, _, [], m, _, rfl, hm, hcall, hnone⟩
    | release => exact fun hw ↦ hw.elim
  exact hall d

theorem TapAt.signedUp {t : Tap P} {es₁ es₂ : List (Event P)} {w₁ : World P}
    (h : TapAt es t es₁ es₂ w₁) : SignedUp es t.device := by
  obtain ⟨writing, views, category, style, hself, -, -⟩ := tap_some h.reads
  obtain ⟨es₁', k, es₂', w₁', s, rfl, hw₁', hs, he⟩ :=
    writes_run h.before t.device _ _ hself trivial
  refine ⟨es₁', k, es₂' ++ t.event :: es₂, w₁', s, ?_, hw₁', hs, he⟩
  rw [h.split, List.append_assoc, List.cons_append]

/-- In every run a writing screen is on the stack of a device, and a write to the collection or to
Storage has been issued by it, only after a sign-up there. -/
theorem signedUp_of_publishing (h : run step init es = some w) :
    (∀ d, ∀ self ∈ (w.device d).stack, ∀ c, (w.device d).controllers[self]? = some c →
      c.Writes → SignedUp es d) ∧
    (∀ r ∈ w.publishing.releases, SignedUp es r.tap.device) ∧
    (∀ d, ∀ q ∈ w.publishing.queue d, SignedUp es d) ∧
    (∀ x ∈ w.publishing.decided, ∃ r ∈ w.publishing.releases,
      r.articleId = x.1.key ∧ SignedUp es r.tap.device) ∧
    ∀ path imageData, w.publishing.storage path = some imageData →
      ∃ r ∈ w.publishing.releases, r.tap.putData = some (path, imageData) ∧
        SignedUp es r.tap.device := by
  have hreleases : ∀ (i : ℕ) (r : Release P), w.publishing.releases[i]? = some r →
      SignedUp es r.tap.device := by
    intro i r hi
    obtain ⟨es₁, es₂, w₁, htap, -⟩ := tapAt_run h i r hi
    exact htap.signedUp
  have hw := (consistent_run h).publishing
  refine ⟨fun d self _ c hc hwrites ↦ writes_run h d self c hc hwrites, fun r hr ↦ ?_,
    fun d q hq ↦ ?_, fun x hx ↦ ?_, fun path imageData hp ↦ ?_⟩
  · obtain ⟨i, hi⟩ := List.mem_iff_getElem?.mp hr
    exact hreleases i r hi
  · obtain ⟨i, r, hi, rfl, -⟩ := hw.queued d q hq
    exact hreleases i r hi
  · obtain ⟨i, r, hi, hk, -⟩ := Publishing.allows_key (hw.decided x.1 x.2 hx)
    exact ⟨r, List.mem_of_getElem? hi, hk, hreleases i r hi⟩
  · obtain ⟨i, r, hi, hput⟩ := Publishing.storage_run (publishing_run h) hp
    exact ⟨r, List.mem_of_getElem? hi, hput, hreleases i r hi⟩

/-- The user signs up, and releases an article after the login screen was tapped once more. -/
def signUpAndRelease : List (Event Platform.sample) :=
  launch 0 "a@example.com" "secret" ⟨"title", "text", some "cat"⟩ ++
    [.tapReleaseButton 0 2 "A" (.ofSeconds 1) "5.0" false, .device 0 .tapWritingButton,
      .putData 0 true]

theorem signedUp_signUpAndRelease :
    ∃ w, run step init signUpAndRelease = some w ∧ w.publishing.releases.length = 1 ∧
      SignedUp signUpAndRelease 0 := by
  obtain ⟨w, hw, hlength, q, hq, -⟩ := exists_run_of_check step init signUpAndRelease
    (fun w ↦ w.publishing.releases.length = 1 ∧ ∃ q ∈ w.publishing.queue 0, q.completion = none)
    (by decide)
  exact ⟨w, hw, hlength, (signedUp_of_publishing hw).2.2.1 0 q hq⟩

end World

end LadyBook
