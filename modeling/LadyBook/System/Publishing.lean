import Mathlib.Logic.Function.Basic
import LadyBook.Controller.WritingAdd
import LadyBook.Reasoning.Records
import LadyBook.Reasoning.Runs

/-!
# The publishing protocol

The releases of all devices, the write queue of each device's Firestore client, the `Articles`
collection and the Storage objects.  A step is one tap that reads its fields, one answer of a
server, or one completion handler run on the main thread.
-/

open Reasoning Reasoning.DocumentStore

namespace LadyBook

variable {P : Platform}

/-- A write in a client's queue; `completion` is the release whose handler is told the outcome. -/
structure QueuedWrite where
  write : DocumentWrite
  completion : Option ℕ

/-- `decided` is history: the writes the server has decided, oldest first, with its verdicts. -/
structure Publishing (P : Platform) where
  releases : List (Release P)
  queue : ℕ → List QueuedWrite
  articles : Collection
  storage : String → Option P.Data
  decided : List (DocumentWrite × Bool)

namespace Publishing

def init : Publishing P where
  releases := []
  queue _ := []
  articles := ∅
  storage _ := none
  decided := []

inductive Event (P : Platform) where
  | tapReleaseButton (t : Tap P)
  | putData (i : ℕ) (stored : Bool)
  | putDataCompletion (i : ℕ)
  | downloadURLCompletion (i : ℕ) (url : Option P.URL)
  | decide (device n : ℕ) (accepted : Bool)
  | setDataCompletion (i : ℕ)

variable (s : Publishing P)

def enqueue (device : ℕ) (ws : List QueuedWrite) : ℕ → List QueuedWrite :=
  Function.update s.queue device (s.queue device ++ ws)

-- A tap on an empty title returns after the message; otherwise `document()` yields an id that it
-- has not yielded before.
def tapReleaseButton (t : Tap P) : Option (Publishing P) :=
  match h : t.views.titleTextView.isEmpty with
  | true => some s
  | false =>
      if t.documentID ∈ s.releases.map Release.articleId then
        none
      else
        -- the first write has no completion handler
        let (_, write) := createToFirestore t t.views.titleTextView
        some { s with
          releases := s.releases ++ [Release.start t h]
          queue := s.enqueue t.device (write.toList.map (⟨·, none⟩)) }

-- Storage keeps the last bytes put to a path.
def putData (i : ℕ) (stored : Bool) : Option (Publishing P) :=
  match s.releases[i]? with
  | none => none
  | some r =>
      match r.stage, r.tap.putData with
      | .putData, some (reference, imageData) =>
          some { s with
            releases := s.releases.modify i fun r ↦ { r with stage := .putDataCompletion stored }
            storage := if stored then Function.update s.storage reference (some imageData)
              else s.storage }
      | _, _ => none

def putDataCompletion (i : ℕ) : Option (Publishing P) :=
  match s.releases[i]? with
  | none => none
  | some r =>
      match r.stage with
      | .putDataCompletion metadata =>
          some { s with releases := s.releases.modify i (·.putDataCompletion metadata) }
      | _ => none

-- `downloadURL` fails or yields a URL that designates the path of the reference.
def downloadURLCompletion (i : ℕ) (url : Option P.URL) : Option (Publishing P) :=
  match s.releases[i]? with
  | none => none
  | some r =>
      if r.stage = .downloadURL ∧
          ∀ u ∈ url, P.objectPath (P.absoluteString u) = r.tap.putData.map Prod.fst then
        some { s with
          releases := s.releases.modify i fun r ↦ (r.downloadURLCompletion url).1
          queue := s.enqueue r.tap.device
            ((r.downloadURLCompletion url).2.toList.map (⟨·, some i⟩)) }
      else
        none

/-- The server applies or rejects a queued write of the device, the oldest one for `n = 0`. -/
def decide (device n : ℕ) (accepted : Bool) : Option (Publishing P) :=
  match (s.queue device)[n]? with
  | none => none
  | some q =>
      some { s with
        -- only a merging write has a release that is told
        releases := match q.completion with
          | some i => s.releases.modify i fun r ↦ { r with stage := .setDataCompletion !accepted }
          | none => s.releases
        queue := Function.update s.queue device ((s.queue device).eraseIdx n)
        articles := if accepted then q.write.apply s.articles else s.articles
        decided := s.decided ++ [(q.write, accepted)] }

def setDataCompletion (i : ℕ) : Option (Publishing P) :=
  match s.releases[i]? with
  | none => none
  | some r =>
      match r.stage with
      | .setDataCompletion error =>
          some { s with releases := s.releases.modify i (·.setDataCompletion error) }
      | _ => none

def step : Event P → Option (Publishing P)
  | .tapReleaseButton t => s.tapReleaseButton t
  | .putData i stored => s.putData i stored
  | .putDataCompletion i => s.putDataCompletion i
  | .downloadURLCompletion i url => s.downloadURLCompletion i url
  | .decide device n accepted => s.decide device n accepted
  | .setDataCompletion i => s.setDataCompletion i

/-- What the device's client sees: the collection under its own queued writes. -/
def localView (device : ℕ) : Collection :=
  replay s.articles ((s.queue device).map QueuedWrite.write)

/-! ## What each step does -/

section Steps

variable {s} {s' : Publishing P}

theorem tapReleaseButton_some {t : Tap P} (h : s.tapReleaseButton t = some s') :
    (t.views.titleTextView.isEmpty = true ∧ s' = s) ∨
      ∃ ht : t.views.titleTextView.isEmpty = false,
        t.documentID ∉ s.releases.map Release.articleId ∧
        s' = { s with
          releases := s.releases ++ [Release.start t ht]
          queue := s.enqueue t.device
            ((Release.start t ht).firstWrite.toList.map (⟨·, none⟩)) } := by
  unfold tapReleaseButton at h
  split at h
  next ht => exact Or.inl ⟨ht, (Option.some.inj h).symm⟩
  next ht =>
    split at h
    next => cases h
    next hid => exact Or.inr ⟨ht, hid, (Option.some.inj h).symm⟩

theorem putData_some {i : ℕ} {stored : Bool} (h : s.putData i stored = some s') :
    ∃ r reference imageData, s.releases[i]? = some r ∧ r.stage = .putData ∧
      r.tap.putData = some (reference, imageData) ∧
      s' = { s with
        releases := s.releases.modify i fun r ↦ { r with stage := .putDataCompletion stored }
        storage := if stored then Function.update s.storage reference (some imageData)
          else s.storage } := by
  unfold putData at h
  split at h
  next => cases h
  next r hr =>
    split at h
    next reference imageData hs hp =>
      exact ⟨r, reference, imageData, hr, hs, hp, (Option.some.inj h).symm⟩
    next => cases h

theorem putDataCompletion_some {i : ℕ} (h : s.putDataCompletion i = some s') :
    ∃ r metadata, s.releases[i]? = some r ∧ r.stage = .putDataCompletion metadata ∧
      s' = { s with releases := s.releases.modify i (·.putDataCompletion metadata) } := by
  unfold putDataCompletion at h
  split at h
  next => cases h
  next r hr =>
    split at h
    next metadata hs => exact ⟨r, metadata, hr, hs, (Option.some.inj h).symm⟩
    next => cases h

theorem downloadURLCompletion_some {i : ℕ} {url : Option P.URL}
    (h : s.downloadURLCompletion i url = some s') :
    ∃ r, s.releases[i]? = some r ∧ r.stage = .downloadURL ∧
      (∀ u ∈ url, P.objectPath (P.absoluteString u) = r.tap.putData.map Prod.fst) ∧
      s' = { s with
        releases := s.releases.modify i fun r ↦ (r.downloadURLCompletion url).1
        queue := s.enqueue r.tap.device
          ((r.downloadURLCompletion url).2.toList.map (⟨·, some i⟩)) } := by
  unfold downloadURLCompletion at h
  split at h
  next => cases h
  next r hr =>
    split at h
    next hc => exact ⟨r, hr, hc.1, hc.2, (Option.some.inj h).symm⟩
    next => cases h

theorem decide_some {d n : ℕ} {accepted : Bool} (h : s.decide d n accepted = some s') :
    ∃ q, (s.queue d)[n]? = some q ∧
      s' = { s with
        releases := match q.completion with
          | some i => s.releases.modify i fun r ↦ { r with stage := .setDataCompletion !accepted }
          | none => s.releases
        queue := Function.update s.queue d ((s.queue d).eraseIdx n)
        articles := if accepted then q.write.apply s.articles else s.articles
        decided := s.decided ++ [(q.write, accepted)] } := by
  unfold decide at h
  split at h
  next => cases h
  next q hq => exact ⟨q, hq, (Option.some.inj h).symm⟩

theorem setDataCompletion_some {i : ℕ} (h : s.setDataCompletion i = some s') :
    ∃ r error, s.releases[i]? = some r ∧ r.stage = .setDataCompletion error ∧
      s' = { s with releases := s.releases.modify i (·.setDataCompletion error) } := by
  unfold setDataCompletion at h
  split at h
  next => cases h
  next r hr =>
    split at h
    next error hs => exact ⟨r, error, hr, hs, (Option.some.inj h).symm⟩
    next => cases h

/-- Only an accepted write changes the collection. -/
theorem step_articles {e : Event P} (h : s.step e = some s') :
    s'.articles = s.articles ∨ ∃ d n q, e = .decide d n true ∧ (s.queue d)[n]? = some q ∧
      s'.articles = q.write.apply s.articles := by
  cases e with
  | tapReleaseButton t =>
      rcases tapReleaseButton_some h with ⟨-, rfl⟩ | ⟨ht, -, rfl⟩
      · exact Or.inl rfl
      · exact Or.inl rfl
  | putData i stored =>
      obtain ⟨r, reference, imageData, -, -, -, rfl⟩ := putData_some h
      exact Or.inl rfl
  | putDataCompletion i =>
      obtain ⟨r, metadata, -, -, rfl⟩ := putDataCompletion_some h
      exact Or.inl rfl
  | downloadURLCompletion i url =>
      obtain ⟨r, -, -, -, rfl⟩ := downloadURLCompletion_some h
      exact Or.inl rfl
  | decide d n accepted =>
      obtain ⟨q, hq, rfl⟩ := decide_some h
      cases accepted with
      | true => exact Or.inr ⟨d, n, q, rfl, hq, rfl⟩
      | false => exact Or.inl rfl
  | setDataCompletion i =>
      obtain ⟨r, error, -, -, rfl⟩ := setDataCompletion_some h
      exact Or.inl rfl

/-- Only a stored upload changes an object. -/
theorem step_storage {e : Event P} (h : s.step e = some s') :
    s'.storage = s.storage ∨ ∃ (i : ℕ) (r : Release P) (reference : String) (imageData : P.Data),
      s.releases[i]? = some r ∧ r.tap.putData = some (reference, imageData) ∧
        s'.storage = Function.update s.storage reference (some imageData) := by
  cases e with
  | tapReleaseButton t =>
      rcases tapReleaseButton_some h with ⟨-, rfl⟩ | ⟨ht, -, rfl⟩
      · exact Or.inl rfl
      · exact Or.inl rfl
  | putData i stored =>
      obtain ⟨r, reference, imageData, hi, -, hput, rfl⟩ := putData_some h
      cases stored with
      | true => exact Or.inr ⟨i, r, reference, imageData, hi, hput, rfl⟩
      | false => exact Or.inl rfl
  | putDataCompletion i =>
      obtain ⟨r, metadata, -, -, rfl⟩ := putDataCompletion_some h
      exact Or.inl rfl
  | downloadURLCompletion i url =>
      obtain ⟨r, -, -, -, rfl⟩ := downloadURLCompletion_some h
      exact Or.inl rfl
  | decide d n accepted =>
      obtain ⟨q, -, rfl⟩ := decide_some h
      exact Or.inl rfl
  | setDataCompletion i =>
      obtain ⟨r, error, -, -, rfl⟩ := setDataCompletion_some h
      exact Or.inl rfl

end Steps

theorem mem_enqueue {d d' : ℕ} {ws : List QueuedWrite} {q : QueuedWrite} :
    q ∈ s.enqueue d ws d' ↔ q ∈ s.queue d' ∨ d' = d ∧ q ∈ ws := by
  unfold enqueue
  by_cases hd : d' = d
  · rw [hd, Function.update_self, List.mem_append]
    simp only [true_and]
  · rw [Function.update_of_ne hd]
    simp only [hd, false_and, or_false]

end Publishing

end LadyBook
