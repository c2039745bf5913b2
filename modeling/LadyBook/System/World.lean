import LadyBook.Controller.Effects
import LadyBook.System.Publishing

/-!
# All devices and the server

A world is the app on every device together with the publishing protocol.  The handlers of the
protocol run in the app of the release's device; the ones that show something are the message for
an empty title and the end of a chain.
-/

open Reasoning

namespace LadyBook

variable {P : Platform}

/-- What a tap of the release button of the screen `self` reads. -/
def Device.tap (dev : Device P) (device : ℕ) (self : Ref) (documentID : DocumentID)
    (timestamp : Timestamp) (date : P.TimeInterval) (encoderThrows : Bool) : Option (Tap P) :=
  match dev.controllers[self]? with
  | some (.writingAdd writing categoryTextField styleTextField) =>
      match dev.controllers[writing]? with
      | some (.writing views) =>
          some {
            device := device
            screen := self
            views := views
            categoryTextField := categoryTextField
            styleTextField := styleTextField
            documentID := documentID
            timestamp := timestamp
            date := date
            encoderThrows := encoderThrows }
      | _ => none
  | _ => none

structure World (P : Platform) where
  device : ℕ → Device P
  publishing : Publishing P

namespace World

def init : World P where
  device _ := Device.init
  publishing := Publishing.init

inductive Event (P : Platform) where
  | device (d : ℕ) (e : Device.Event P)
  | tapReleaseButton (d : ℕ) (self : Ref) (documentID : DocumentID) (timestamp : Timestamp)
      (date : P.TimeInterval) (encoderThrows : Bool)
  | putData (i : ℕ) (stored : Bool)
  | putDataCompletion (i : ℕ)
  | downloadURLCompletion (i : ℕ) (url : Option P.URL)
  | decide (d n : ℕ) (accepted : Bool)
  | setDataCompletion (i : ℕ)

variable (w : World P)

def updateDevice (d : ℕ) (dev : Device P) : World P :=
  { w with device := Function.update w.device d dev }

/-- Completion handlers run in an app that has not been stopped. -/
def RunsHandlers (i : ℕ) : Prop :=
  ∀ r ∈ w.publishing.releases[i]?, (w.device r.tap.device).trap = none

instance (i : ℕ) : Decidable (w.RunsHandlers i) :=
  inferInstanceAs (Decidable (∀ r ∈ w.publishing.releases[i]?, _))

def deviceStep (d : ℕ) (e : Device.Event P) : Option (World P) :=
  ((w.device d).step (w.publishing.localView d) e).map (w.updateDevice d)

-- `WritingAddViewController.tapReleaseButton`.
def tapReleaseButton (d : ℕ) (self : Ref) (documentID : DocumentID) (timestamp : Timestamp)
    (date : P.TimeInterval) (encoderThrows : Bool) : Option (World P) :=
  let dev := w.device d
  match dev.tap d self documentID timestamp date encoderThrows with
  | none => none
  | some t =>
      -- the button is on the screen, and nothing disables it while a chain is under way
      if dev.Running ∧ self ∈ dev.stack then
        (w.publishing.tapReleaseButton t).map fun publishing ↦
          if t.views.titleTextView.isEmpty then
            { w with publishing := publishing }.updateDevice d
              (dev.flash (.labeledError "タイトルが入力されていません！"))
          else
            { w with publishing := publishing }
      else
        none

-- A handler that only moves its chain on.
def handlerStep (i : ℕ) (next : Option (Publishing P)) : Option (World P) :=
  if w.RunsHandlers i then next.map fun publishing ↦ { w with publishing := publishing } else none

-- The completion handler of the merging `setData`: without an error the screen shows a message and
-- pushes the article.
def setDataCompletion (i : ℕ) : Option (World P) :=
  if w.RunsHandlers i then
    match w.publishing.releases[i]?, w.publishing.setDataCompletion i with
    | some r, some publishing =>
        let w' : World P := { w with publishing := publishing }
        -- the screen may have been popped; the message is shown in any case
        if r.stage = .setDataCompletion false then
          some (w'.updateDevice r.tap.device (((w.device r.tap.device).flash .success).pushFrom
            r.tap.screen (.article (.ofRelease r.articleId))))
        else
          some w'
    | _, _ => none
  else
    none

def step : Event P → Option (World P)
  | .device d e => w.deviceStep d e
  | .tapReleaseButton d self documentID timestamp date encoderThrows =>
      w.tapReleaseButton d self documentID timestamp date encoderThrows
  | .putData i stored =>
      (w.publishing.putData i stored).map fun publishing ↦ { w with publishing := publishing }
  | .putDataCompletion i => w.handlerStep i (w.publishing.putDataCompletion i)
  | .downloadURLCompletion i url => w.handlerStep i (w.publishing.downloadURLCompletion i url)
  | .decide d n accepted =>
      (w.publishing.decide d n accepted).map fun publishing ↦ { w with publishing := publishing }
  | .setDataCompletion i => w.setDataCompletion i

/-- The step of the publishing protocol that an event is. -/
def published (w : World P) : Event P → List (Publishing.Event P)
  | .device _ _ => []
  | .tapReleaseButton d self documentID timestamp date encoderThrows =>
      (((w.device d).tap d self documentID timestamp date encoderThrows).map
        Publishing.Event.tapReleaseButton).toList
  | .putData i stored => [.putData i stored]
  | .putDataCompletion i => [.putDataCompletion i]
  | .downloadURLCompletion i url => [.downloadURLCompletion i url]
  | .decide d n accepted => [.decide d n accepted]
  | .setDataCompletion i => [.setDataCompletion i]

/-! ## What each step does -/

section Steps

variable {w} {w' : World P}

theorem deviceStep_some {d : ℕ} {e : Device.Event P} (h : w.deviceStep d e = some w') :
    ∃ dev, (w.device d).trap = none ∧
      (w.device d).Effect (w.publishing.localView d) e dev ∧ w' = w.updateDevice d dev := by
  obtain ⟨dev, hdev, rfl⟩ := Option.map_eq_some_iff.mp h
  obtain ⟨htrap, heffect⟩ := Device.step_effect hdev
  exact ⟨dev, htrap, heffect, rfl⟩

theorem tap_some {dev : Device P} {d : ℕ} {self : Ref} {documentID : DocumentID}
    {timestamp : Timestamp} {date : P.TimeInterval} {encoderThrows : Bool} {t : Tap P}
    (h : dev.tap d self documentID timestamp date encoderThrows = some t) :
    ∃ writing views category style,
      dev.controllers[self]? = some (.writingAdd writing category style) ∧
      dev.controllers[writing]? = some (.writing views) ∧
      t = ⟨d, self, views, category, style, documentID, timestamp, date, encoderThrows⟩ := by
  unfold Device.tap at h
  split at h
  next writing category style hself =>
    split at h
    next views hwriting =>
      exact ⟨writing, views, category, style, hself, hwriting, (Option.some.inj h).symm⟩
    next => cases h
  next => cases h

theorem tapReleaseButton_some {d : ℕ} {self : Ref} {documentID : DocumentID}
    {timestamp : Timestamp} {date : P.TimeInterval} {encoderThrows : Bool}
    (h : w.tapReleaseButton d self documentID timestamp date encoderThrows = some w') :
    ∃ t dev, (w.device d).tap d self documentID timestamp date encoderThrows = some t ∧
      w.publishing.tapReleaseButton t = some w'.publishing ∧
      w' = { device := Function.update w.device d dev, publishing := w'.publishing } ∧
      (dev = w.device d ∨
        dev = (w.device d).flash (.labeledError "タイトルが入力されていません！")) := by
  unfold tapReleaseButton at h
  dsimp only at h
  split at h
  next => cases h
  next t ht =>
    split at h
    next =>
      obtain ⟨publishing, hp, rfl⟩ := Option.map_eq_some_iff.mp h
      cases hempty : t.views.titleTextView.isEmpty with
      | true => exact ⟨t, _, ht, hp, rfl, Or.inr rfl⟩
      | false =>
          -- no device has changed
          refine ⟨t, w.device d, ht, hp, ?_, Or.inl rfl⟩
          rw [Function.update_eq_self]
          rfl
    next => cases h

theorem handlerStep_some {i : ℕ} {next : Option (Publishing P)}
    (h : w.handlerStep i next = some w') :
    ∃ publishing, next = some publishing ∧ w' = { w with publishing := publishing } := by
  unfold handlerStep at h
  split at h
  next =>
    obtain ⟨publishing, hp, rfl⟩ := Option.map_eq_some_iff.mp h
    exact ⟨publishing, hp, rfl⟩
  next => cases h

theorem setDataCompletion_some {i : ℕ} (h : w.setDataCompletion i = some w') :
    ∃ r error, w.publishing.releases[i]? = some r ∧ r.stage = .setDataCompletion error ∧
      w.publishing.setDataCompletion i = some w'.publishing ∧
      (error = true ∧ w' = { w with publishing := w'.publishing } ∨
        error = false ∧ w' = {
          device := Function.update w.device r.tap.device
            (((w.device r.tap.device).flash .success).pushFrom r.tap.screen
              (.article (.ofRelease r.articleId)))
          publishing := w'.publishing }) := by
  unfold setDataCompletion at h
  split at h
  next =>
    split at h
    next r publishing hr hp =>
      obtain ⟨r', error, hr', hstage, -⟩ := Publishing.setDataCompletion_some hp
      obtain rfl := Option.mem_unique hr hr'
      refine ⟨r, error, hr, hstage, ?_⟩
      split at h
      next hfalse =>
        obtain rfl := Option.some.inj h
        refine ⟨hp, Or.inr ⟨?_, rfl⟩⟩
        rw [hstage] at hfalse
        exact Stage.setDataCompletion.inj hfalse
      next htrue =>
        obtain rfl := Option.some.inj h
        refine ⟨hp, Or.inl ⟨?_, rfl⟩⟩
        cases error with
        | true => rfl
        | false => exact absurd hstage htrue
    next => cases h
  next => cases h

/-- What a step does to one device. -/
inductive DeviceStep (w : World P) (e : Event P) (d : ℕ) : Device P → Prop where
  | same : DeviceStep w e d (w.device d)
  | event {e' : Device.Event P} {dev : Device P} (he : e = .device d e')
      (htrap : (w.device d).trap = none)
      (h : (w.device d).Effect (w.publishing.localView d) e' dev) : DeviceStep w e d dev
  | flash (hud : HUD) : DeviceStep w e d ((w.device d).flash hud)
  | release {i : ℕ} {r : Release P} (he : e = .setDataCompletion i)
      (hr : w.publishing.releases[i]? = some r) (hd : r.tap.device = d)
      (hs : r.stage = .setDataCompletion false) :
      DeviceStep w e d (((w.device d).flash .success).pushFrom r.tap.screen
        (.article (.ofRelease r.articleId)))

theorem deviceStep_update {e : Event P} {d d' : ℕ} {dev : Device P}
    (h : w.DeviceStep e d dev) : w.DeviceStep e d' (Function.update w.device d dev d') := by
  by_cases hd : d' = d
  · subst hd
    rw [Function.update_self]
    exact h
  · rw [Function.update_of_ne hd]
    exact .same

theorem step_device {e : Event P} (h : w.step e = some w') (d : ℕ) :
    w.DeviceStep e d (w'.device d) := by
  cases e with
  | device d' e =>
      obtain ⟨dev, htrap, heffect, rfl⟩ := deviceStep_some h
      exact deviceStep_update (.event rfl htrap heffect)
  | tapReleaseButton d' self documentID timestamp date encoderThrows =>
      obtain ⟨t, dev, -, -, hw, hdev⟩ := tapReleaseButton_some h
      rw [hw]
      refine deviceStep_update ?_
      rcases hdev with rfl | rfl
      · exact .same
      · exact .flash _
  | putData i stored =>
      obtain ⟨publishing, -, rfl⟩ := Option.map_eq_some_iff.mp h
      exact .same
  | putDataCompletion i =>
      obtain ⟨publishing, -, rfl⟩ := handlerStep_some h
      exact .same
  | downloadURLCompletion i url =>
      obtain ⟨publishing, -, rfl⟩ := handlerStep_some h
      exact .same
  | decide d' n accepted =>
      obtain ⟨publishing, -, rfl⟩ := Option.map_eq_some_iff.mp h
      exact .same
  | setDataCompletion i =>
      obtain ⟨r, error, hr, hstage, -, ⟨-, hw⟩ | ⟨rfl, hw⟩⟩ := setDataCompletion_some h
      · rw [hw]
        exact .same
      · rw [hw]
        exact deviceStep_update (.release rfl hr rfl hstage)

end Steps

/-! ## The protocol inside the world -/

/-- Every step of the world is a step of the protocol or leaves it as it is. -/
theorem projects : Projects step Publishing.step publishing (published (P := P)) where
  step := by
    intro w e w' h
    cases e with
    | device d e =>
        obtain ⟨dev, -, -, rfl⟩ := deviceStep_some h
        exact run_nil_some.mpr rfl
    | tapReleaseButton d self documentID timestamp date encoderThrows =>
        obtain ⟨t, dev, ht, hp, -, -⟩ := tapReleaseButton_some h
        show Reasoning.run _ _ (Option.toList (Option.map _ _)) = _
        rw [ht]
        exact run_cons_some.mpr ⟨_, hp, run_nil_some.mpr rfl⟩
    | putData i stored =>
        obtain ⟨publishing, hp, rfl⟩ := Option.map_eq_some_iff.mp h
        exact run_cons_some.mpr ⟨_, hp, run_nil_some.mpr rfl⟩
    | putDataCompletion i =>
        obtain ⟨publishing, hp, rfl⟩ := handlerStep_some h
        exact run_cons_some.mpr ⟨_, hp, run_nil_some.mpr rfl⟩
    | downloadURLCompletion i url =>
        obtain ⟨publishing, hp, rfl⟩ := handlerStep_some h
        exact run_cons_some.mpr ⟨_, hp, run_nil_some.mpr rfl⟩
    | decide d n accepted =>
        obtain ⟨publishing, hp, rfl⟩ := Option.map_eq_some_iff.mp h
        exact run_cons_some.mpr ⟨_, hp, run_nil_some.mpr rfl⟩
    | setDataCompletion i =>
        obtain ⟨r, error, -, -, hp, -⟩ := setDataCompletion_some h
        exact run_cons_some.mpr ⟨_, hp, run_nil_some.mpr rfl⟩

theorem publishing_run {es : List (Event P)} {w : World P} (h : run step init es = some w) :
    run Publishing.step Publishing.init (trace step published init es) = some w.publishing :=
  projects.run h

/-- The events that lead a fresh app to the release button of the controller `2`, with the given
views. -/
def launch (d : ℕ) (email password : String) (views : WritingViews P) : List (Event P) :=
  [.device d .performSegue, .device d .performSegue, .device d .performSegue,
    .device d .performSegue, .device d .tapWritingButton,
    .device d (.tappedSignUpButton 0 (some email) (some password)),
    .device d (.createUserCompletion 0 false), .device d (.edit 1 views),
    .device d (.editBarButton1Tapped 1)]

end World

end LadyBook
