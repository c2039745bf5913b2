import LadyBook.Reasoning.Stacks
import LadyBook.System.History

/-!
# The navigation stack

A controller that handed something on to the next one stays beneath it: the sign-up beneath the
editor, the editor beneath the form with the release button, and the form beneath the article that
its release has opened.
-/

open Reasoning

namespace LadyBook

variable {P : Platform}

/-- The controllers that another one has opened with something in hand. -/
def Controller.NeedsOpener : Controller P → Prop
  | .login => False
  | .article vc => ∃ articleId, vc.opening = .release articleId
  | _ => True

/-- The controller at place `j` that opened another one; `ts` are the taps of all releases. -/
inductive Opener (ts : List (Tap P)) (d : ℕ) : Ref → Controller P → Controller P → Prop where
  | login {j : Ref} {views : WritingViews P} : Opener ts d j .login (.writing views)
  | writing {j : Ref} {views : WritingViews P} {category style : Option String} :
      Opener ts d j (.writing views) (.writingAdd j category style)
  | writingAdd {writing : Ref} {category style : Option String} {t : Tap P}
      {vc : ArticleViewController P} (ht : t ∈ ts) (hd : t.device = d)
      (ho : vc.opening = .release t.documentID) :
      Opener ts d t.screen (.writingAdd writing category style) (.article vc)

theorem Opener.mono {ts ts' : List (Tap P)} (h : ts ⊆ ts') {d : ℕ} {j : Ref} {b a : Controller P}
    (ho : Opener ts d j b a) : Opener ts' d j b a := by
  cases ho with
  | login => exact .login
  | writing => exact .writing
  | writingAdd ht hd ho => exact .writingAdd (h ht) hd ho

-- A controller stays what it is for the others: the edits only change its fields.
theorem Device.Changes.opener {localView : Collection} {e : Device.Event P} {self : Ref}
    {c c' : Controller P} (h : Device.Changes localView e self c c') :
    (c'.NeedsOpener → c.NeedsOpener) ∧
    (∀ ts d j b, Opener ts d j b c → Opener ts d j b c') ∧
    ∀ ts d j a, Opener ts d j c a → Opener ts d j c' a := by
  have harticle : ∀ {vc vc' : ArticleViewController P}, vc'.opening = vc.opening →
      ((Controller.article vc').NeedsOpener → (Controller.article vc).NeedsOpener) ∧
      (∀ ts d j b, Opener ts d j b (.article vc) → Opener ts d j b (.article vc')) ∧
      ∀ ts d j a, Opener ts d j (.article vc) a → Opener ts d j (.article vc') a := by
    intro vc vc' ho
    refine ⟨fun ⟨articleId, hn⟩ ↦ ⟨articleId, ho ▸ hn⟩, fun ts d j b hb ↦ ?_,
      fun ts d j a ha ↦ by cases ha⟩
    cases hb with
    | writingAdd ht hd hvc => exact .writingAdd ht hd (ho.trans hvc)
  cases h with
  | edit =>
      refine ⟨id, fun ts d j b hb ↦ ?_, fun ts d j a ha ↦ ?_⟩
      · cases hb
        exact .login
      · cases ha
        exact .writing
  | select =>
      refine ⟨id, fun ts d j b hb ↦ ?_, fun ts d j a ha ↦ ?_⟩
      · cases hb
        exact .writing
      · cases ha with
        | writingAdd ht hd ho => exact .writingAdd ht hd ho
  | viewDidLoad hv hl =>
      obtain ⟨rfl, -⟩ := ArticleViewController.viewDidLoad_eq_ok hl
      exact harticle rfl
  | getDocument hv ha => exact harticle rfl
  | getDocumentCompletion hv hl =>
      obtain ⟨view, rfl, -⟩ := ArticleViewController.getDocumentCompletion_eq_ok hl
      exact harticle rfl

theorem Device.Changes.login {localView : Collection} {e : Device.Event P} {self : Ref}
    {c c' : Controller P} (h : Device.Changes localView e self c c') : c ≠ .login := by
  cases h <;> exact fun hc ↦ by cases hc

def Controller.FormOf (writing : Ref) (c : Controller P) : Prop :=
  ∃ category style, c = .writingAdd writing category style

theorem Device.Changes.formOf {localView : Collection} {e : Device.Event P} {self : Ref}
    {c c' : Controller P} (h : Device.Changes localView e self c c') {writing : Ref}
    (hc : c.FormOf writing) : c'.FormOf writing := by
  obtain ⟨category, style, rfl⟩ := hc
  cases h with
  | select => exact ⟨_, _, rfl⟩

namespace World

variable {w w' : World P}

-- A controller keeps its place and what its changes keep.
theorem step_controller {e : Event P} (h : w.step e = some w') {d : ℕ} {Q : Controller P → Prop}
    (hchange : ∀ e' self c c', Device.Changes (w.publishing.localView d) e' self c c' → Q c → Q c')
    {i : Ref} {c : Controller P} (hc : (w.device d).controllers[i]? = some c) (hq : Q c) :
    ∃ c', (w'.device d).controllers[i]? = some c' ∧ Q c' := by
  have hstep := step_controllers h d
  generalize (w'.device d).controllers = cs at hstep ⊢
  cases hstep with
  | same => exact ⟨c, hc, hq⟩
  | push hp => exact ⟨c, getElem?_concat_of_some hc, hq⟩
  | @change e' self a a' he ha hch =>
      by_cases hi : self = i
      · subst hi
        obtain rfl := Option.mem_unique ha hc
        exact ⟨a', getElem?_modify_self ha, hchange _ _ _ _ hch hq⟩
      · exact ⟨c, by rw [getElem?_modify_ne hi, hc], hq⟩

/-- What holds of the navigation stacks, with the screens that releases and sign-ups refer to. -/
structure Navigable (w : World P) : Prop where
  stack : ∀ d, Stacked Controller.NeedsOpener (Opener (w.publishing.releases.map Release.tap) d)
    (w.device d).controllers (w.device d).stack
  screens : ∀ t ∈ w.publishing.releases.map Release.tap, ∃ c writing,
    (w.device t.device).controllers[t.screen]? = some c ∧ c.FormOf writing
  signUps : ∀ d, ∀ s ∈ (w.device d).signUps, (w.device d).controllers[s.screen]? = some .login

theorem navigable_init : (init : World P).Navigable where
  stack := fun _ ↦ stacked_nil
  screens := fun _ ht ↦ absurd ht List.not_mem_nil
  signUps := fun _ _ hs ↦ absurd hs List.not_mem_nil

theorem Navigable.screens_step (h : w.Navigable) (hw : w.Consistent) {e : Event P}
    (hs : w.step e = some w') : ∀ t ∈ w'.publishing.releases.map Release.tap, ∃ c writing,
      (w'.device t.device).controllers[t.screen]? = some c ∧ c.FormOf writing := by
  intro t ht
  have hkeep : ∀ c writing, (w.device t.device).controllers[t.screen]? = some c →
      c.FormOf writing → ∃ c writing, (w'.device t.device).controllers[t.screen]? = some c ∧
        c.FormOf writing := by
    intro c writing hc hform
    obtain ⟨c', hc', hform'⟩ := step_controller hs (fun _ _ _ _ hch ↦ hch.formOf) hc hform
    exact ⟨c', writing, hc', hform'⟩
  rcases hw.step_taps hs with hsame | ⟨t', ht', he, hreads, hreleases⟩
  · obtain ⟨c, writing, hc, hform⟩ := h.screens t (hsame ▸ ht)
    exact hkeep c writing hc hform
  · rw [hreleases, List.map_append] at ht
    rcases List.mem_append.mp ht with ht | ht
    · obtain ⟨c, writing, hc, hform⟩ := h.screens t ht
      exact hkeep c writing hc hform
    · -- the tap has just read its screen
      obtain rfl := List.mem_singleton.mp ht
      obtain ⟨writing, views, category, style, hself, -, -⟩ := tap_some hreads
      exact hkeep _ writing hself ⟨category, style, rfl⟩

theorem Navigable.signUps_step (h : w.Navigable) {e : Event P} (hs : w.step e = some w') (d : ℕ) :
    ∀ s ∈ (w'.device d).signUps, (w'.device d).controllers[s.screen]? = some .login := by
  have hkeep : ∀ i : ℕ, (w.device d).controllers[i]? = some .login →
      (w'.device d).controllers[i]? = some .login := by
    intro i hi
    obtain ⟨c, hc, rfl⟩ := step_controller hs (Q := fun c ↦ c = .login)
      (fun _ _ _ _ hch hlogin ↦ absurd hlogin hch.login) hi rfl
    exact hc
  have hold : ∀ s ∈ (w.device d).signUps, (w'.device d).controllers[s.screen]? = some .login :=
    fun s hs ↦ hkeep _ (h.signUps d s hs)
  have hcompleted : ∀ k error, ∀ s ∈ ((w.device d).completeSignUp k error).signUps,
      (w'.device d).controllers[s.screen]? = some .login := by
    intro k error s hmem
    obtain ⟨j, hj⟩ := List.mem_iff_getElem?.mp hmem
    obtain ⟨a, ha, rfl⟩ := getElem?_modify_some.mp hj
    have hscreen := hold a (List.mem_of_getElem? ha)
    split <;> exact hscreen
  have hstep := step_device hs d
  generalize w'.device d = dev at hstep hkeep hold hcompleted ⊢
  cases hstep with
  | same => exact hold
  | flash hud => exact hold
  | release he hr hd hst =>
      rcases Device.pushFrom_cases ((w.device _).flash .success) _ _ with hp | hp
      · rw [hp] at hold ⊢
        exact hold
      · rw [hp] at hold ⊢
        exact hold
  | event he htrap heffect =>
      cases heffect with
      | screens scene stack hstack => exact hold
      | push ho => exact hold
      | change hc hch => exact hold
      | @feed e kind outcome hm =>
          cases outcome with
          | ok f => exact hold
          | error trap => exact hold
      | @createUser self email password hc =>
          intro s hmem
          rcases List.mem_append.mp hmem with hmem | hmem
          · exact hold s hmem
          · obtain rfl := List.mem_singleton.mp hmem
            exact hc
      | createUserCompletion hsk he => exact hcompleted _ _
      | welcome hsk he hself => exact hcompleted _ _
      | trap ht => exact hold

theorem Navigable.stack_step (h : w.Navigable) {e : Event P} (hs : w.step e = some w') (d : ℕ)
    (hts : w.publishing.releases.map Release.tap ⊆ w'.publishing.releases.map Release.tap) :
    Stacked Controller.NeedsOpener (Opener (w'.publishing.releases.map Release.tap) d)
      (w'.device d).controllers (w'.device d).stack := by
  have hstep := step_device hs d
  generalize w'.device d = dev at hstep ⊢
  generalize w'.publishing.releases.map Release.tap = ts at hts ⊢
  have hold : Stacked Controller.NeedsOpener (Opener ts d) (w.device d).controllers
      (w.device d).stack := (h.stack d).imp fun _ _ _ ho ↦ ho.mono hts
  cases hstep with
  | same => exact hold
  | flash hud => exact hold
  | @release i r he hr hd hst =>
      subst hd
      unfold Device.pushFrom
      split
      next hself =>
        refine hold.push fun _ ↦ ?_
        have ht : r.tap ∈ w.publishing.releases.map Release.tap :=
          List.mem_map_of_mem (List.mem_of_getElem? hr)
        obtain ⟨c, writing, hc, category, style, rfl⟩ := h.screens r.tap ht
        exact ⟨r.tap.screen, hself, _, hc, .writingAdd (hts ht) rfl rfl⟩
      next => exact hold
  | event he htrap heffect =>
      cases heffect with
      | screens scene stack hstack =>
          rcases hstack with rfl | rfl
          · exact hold
          · exact hold.tail
      | push ho =>
          refine hold.push fun hn ↦ ?_
          cases ho with
          | login => exact hn.elim
          | writingAdd hc hself => exact ⟨_, hself, _, hc, .writing⟩
          | article =>
              obtain ⟨articleId, ho⟩ := hn
              cases ho
      | change hc hch =>
          obtain ⟨hneeds, hopened, hopens⟩ := hch.opener
          refine hold.modify (fun a ha ↦ ?_) (fun a ha ↦ ?_) (fun a ha ↦ ?_)
          · exact Option.mem_unique ha hc ▸ hneeds
          · exact Option.mem_unique ha hc ▸ hopened ts d
          · exact Option.mem_unique ha hc ▸ hopens ts d _
      | @feed e kind outcome hm =>
          cases outcome with
          | ok f => exact hold
          | error trap => exact hold
      | createUser => exact hold
      | createUserCompletion hs he => exact hold
      | @welcome k s hsk he hself =>
          refine hold.push fun _ ↦ ⟨s.screen, hself, .login, ?_, .login⟩
          exact h.signUps d s (List.mem_of_getElem? hsk)
      | trap ht => exact hold

theorem Navigable.step (h : w.Navigable) (hw : w.Consistent) {e : Event P}
    (hs : w.step e = some w') : w'.Navigable where
  stack := fun d ↦ by
    refine h.stack_step hs d ?_
    rcases hw.step_taps hs with hsame | ⟨t, ht, -, -, hreleases⟩
    · rw [hsame]
      exact fun _ hx ↦ hx
    · rw [hreleases, List.map_append]
      exact List.subset_append_left _ _
  screens := h.screens_step hw hs
  signUps := h.signUps_step hs

theorem navigable_run {es : List (Event P)} (h : run step init es = some w) : w.Navigable :=
  (run_invariant (I := fun w : World P ↦ w.Consistent ∧ w.Navigable)
    (fun hI hs ↦ ⟨hI.1.step hs, hI.2.step hI.1 hs⟩) ⟨consistent_init, navigable_init⟩ h).2

end World

end LadyBook
