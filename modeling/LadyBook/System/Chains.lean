import LadyBook.System.Consistency

/-!
# One release on its own

`tapReleaseButton` reads as one sequential program: its completion handlers are nested in each
other, and each is handed over with the request before it.  `Chain.step` runs this program for one
release.  In the protocol the chains of all releases are interleaved, and their merging writes wait
in the queues of the devices; seen from one release, every run is a run of the program.
-/

open Reasoning

namespace LadyBook

variable {P : Platform}

namespace Chain

/-- What happens to one release. -/
inductive Event (P : Platform) where
  | tapReleaseButton (t : Tap P)
  | putData (stored : Bool)
  | putDataCompletion
  | downloadURLCompletion (url : Option P.URL)
  | setData (accepted : Bool)
  | setDataCompletion

/-- The place of an event in the text of `tapReleaseButton`. -/
def Event.place : Event P → ℕ
  | .tapReleaseButton _ => 0
  | .putData _ => 1
  | .putDataCompletion => 2
  | .downloadURLCompletion _ => 3
  | .setData _ => 4
  | .setDataCompletion => 5

def advance (r : Release P) : Event P → Option (Release P)
  | .tapReleaseButton _ => none
  | .putData stored =>
      if r.stage = .putData then some { r with stage := .putDataCompletion stored } else none
  | .putDataCompletion =>
      match r.stage with
      | .putDataCompletion metadata => some (r.putDataCompletion metadata)
      | _ => none
  | .downloadURLCompletion url =>
      if r.stage = .downloadURL then some (r.downloadURLCompletion url).1 else none
  | .setData accepted =>
      if r.stage = .setData then some { r with stage := .setDataCompletion !accepted } else none
  | .setDataCompletion =>
      match r.stage with
      | .setDataCompletion error => some (r.setDataCompletion error)
      | _ => none

/-- There is no release before its tap. -/
def start (t : Tap P) : Option (Option (Release P)) :=
  if h : t.views.titleTextView.isEmpty = false then some (some (Release.start t h)) else none

def step : Option (Release P) → Event P → Option (Option (Release P))
  | none, .tapReleaseButton t => start t
  | none, _ => none
  | some r, e => (advance r e).map some

theorem start_titled (t : Tap P) (h : t.views.titleTextView.isEmpty = false) :
    start t = some (some (Release.start t h)) :=
  dif_pos h

theorem start_some {t : Tap P} {o : Option (Release P)} (h : start t = some o) :
    ∃ ht, o = some (Release.start t ht) := by
  unfold start at h
  split at h
  next ht => exact ⟨ht, (Option.some.inj h).symm⟩
  next => cases h

theorem step_some {r r' : Release P} {e : Event P} (h : advance r e = some r') :
    step (some r) e = some (some r') := by
  cases e <;> exact congrArg (Option.map some) h

/-- How many events of its chain a release has behind it; a chain stops at its tap, at a failed
upload, at a missing URL or at a failed write. -/
def Passed (n : ℕ) (o : Option (Release P)) : Prop :=
  match o.map Release.stage with
  | none => n = 0
  | some .putData => n = 1
  | some (.putDataCompletion _) => n = 2
  | some .downloadURL => n = 3
  | some .setData => n = 4
  | some (.setDataCompletion _) => n = 5
  | some .succeeded => n = 6
  | some .stopped => n = 1 ∨ n = 3 ∨ n = 4 ∨ n = 6

-- The next event of a chain is the one at the place it has come to.
theorem Passed.advance {n : ℕ} {r r' : Release P} {e : Event P} (h : Passed n (some r))
    (he : advance r e = some r') : e.place = n ∧ Passed (n + 1) (some r') := by
  cases e with
  | tapReleaseButton t => cases he
  | putData stored =>
      simp only [Chain.advance, Option.ite_none_right_eq_some, Option.some.injEq] at he
      obtain ⟨hs, rfl⟩ := he
      simp only [Passed, Option.map_some, hs] at h
      exact ⟨h.symm, congrArg (· + 1) h⟩
  | putDataCompletion =>
      simp only [Chain.advance] at he
      split at he
      next metadata hs =>
        obtain rfl := Option.some.inj he
        simp only [Passed, Option.map_some, hs] at h
        refine ⟨h.symm, ?_⟩
        cases metadata with
        | true => exact congrArg (· + 1) h
        | false => exact Or.inr (Or.inl (congrArg (· + 1) h))
      next => cases he
  | downloadURLCompletion url =>
      simp only [Chain.advance, Option.ite_none_right_eq_some, Option.some.injEq] at he
      obtain ⟨hs, rfl⟩ := he
      simp only [Passed, Option.map_some, hs] at h
      refine ⟨h.symm, ?_⟩
      cases url with
      | some u => exact congrArg (· + 1) h
      | none => exact Or.inr (Or.inr (Or.inl (congrArg (· + 1) h)))
  | setData accepted =>
      simp only [Chain.advance, Option.ite_none_right_eq_some, Option.some.injEq] at he
      obtain ⟨hs, rfl⟩ := he
      simp only [Passed, Option.map_some, hs] at h
      exact ⟨h.symm, congrArg (· + 1) h⟩
  | setDataCompletion =>
      simp only [Chain.advance] at he
      split at he
      next error hs =>
        obtain rfl := Option.some.inj he
        simp only [Passed, Option.map_some, hs] at h
        refine ⟨h.symm, ?_⟩
        cases error with
        | true => exact Or.inr (Or.inr (Or.inr (congrArg (· + 1) h)))
        | false => exact congrArg (· + 1) h
      next => cases he

theorem Passed.step {n : ℕ} {o o' : Option (Release P)} {e : Event P} (h : Passed n o)
    (he : step o e = some o') : e.place = n ∧ Passed (n + 1) o' := by
  cases o with
  | some r =>
      have hmap : (Chain.advance r e).map some = some o' := by
        cases e <;> exact he
      obtain ⟨r', hr', rfl⟩ := Option.map_eq_some_iff.mp hmap
      exact h.advance hr'
  | none =>
      have hn : n = 0 := h
      subst hn
      cases e with
      | tapReleaseButton t =>
          obtain ⟨ht, rfl⟩ := start_some he
          refine ⟨rfl, ?_⟩
          cases hp : t.putData.isSome with
          | true => simp [Passed, Release.start, hp]
          | false => simp [Passed, Release.start, hp]
      | _ => cases he

/-- The events of a chain come in the order of the source, each of them once at most. -/
theorem place_run {es : List (Event P)} {o : Option (Release P)} (h : run step none es = some o) :
    es.map Event.place = List.range es.length ∧ Passed es.length o := by
  have hinit : Passed 0 (none : Option (Release P)) := rfl
  refine run_induct (P := fun es o ↦ es.map Event.place = List.range es.length ∧
    Passed es.length o) ⟨rfl, hinit⟩ (fun es o e o' _ ih hs ↦ ?_) h
  obtain ⟨hplace, hpassed⟩ := ih.2.step hs
  rw [List.map_append, ih.1, List.length_append, List.map_singleton, hplace, List.length_singleton,
    List.range_succ]
  exact ⟨rfl, hpassed⟩

theorem Passed.le {n : ℕ} {o : Option (Release P)} (h : Passed n o) : n ≤ 6 := by
  unfold Passed at h
  split at h <;> omega

/-! ## Answers that fail nothing -/

/-- The answers of the servers that let a chain go on; a handler only passes them on. -/
def Event.Favourable : Event P → Prop
  | .tapReleaseButton _ => True
  | .putData stored => stored = true
  | .putDataCompletion => True
  | .downloadURLCompletion url => url.isSome = true
  | .setData accepted => accepted = true
  | .setDataCompletion => True

end Chain

/-- The chain has stopped, or its next handler stops it. -/
def Release.Failed (r : Release P) : Prop :=
  r.stage = .putDataCompletion false ∨ r.stage = .setDataCompletion true ∨ r.stage = .stopped

namespace Chain

theorem advance_favourable {r r' : Release P} {e : Event P} (he : e.Favourable)
    (h : advance r e = some r') : r'.tap = r.tap ∧ (r'.Failed ↔ r.Failed) := by
  cases e with
  | tapReleaseButton t => cases h
  | putData stored =>
      obtain rfl : stored = true := he
      simp only [advance, Option.ite_none_right_eq_some, Option.some.injEq] at h
      obtain ⟨hs, rfl⟩ := h
      exact ⟨rfl, by simp [Release.Failed, hs]⟩
  | putDataCompletion =>
      simp only [advance] at h
      split at h
      next metadata hs =>
        obtain rfl := Option.some.inj h
        cases metadata <;> exact ⟨rfl, by simp [Release.Failed, Release.putDataCompletion, hs]⟩
      next => cases h
  | downloadURLCompletion url =>
      obtain ⟨u, rfl⟩ := Option.isSome_iff_exists.mp he
      simp only [advance, Option.ite_none_right_eq_some, Option.some.injEq] at h
      obtain ⟨hs, rfl⟩ := h
      exact ⟨rfl, by simp [Release.Failed, Release.downloadURLCompletion, hs]⟩
  | setData accepted =>
      obtain rfl : accepted = true := he
      simp only [advance, Option.ite_none_right_eq_some, Option.some.injEq] at h
      obtain ⟨hs, rfl⟩ := h
      exact ⟨rfl, by simp [Release.Failed, hs]⟩
  | setDataCompletion =>
      simp only [advance] at h
      split at h
      next error hs =>
        obtain rfl := Option.some.inj h
        cases error <;> exact ⟨rfl, by simp [Release.Failed, Release.setDataCompletion, hs]⟩
      next => cases h

-- Favourable answers neither fail a chain nor mend one.
theorem run_favourable {r : Release P} {es : List (Event P)} {o : Option (Release P)}
    (he : ∀ e ∈ es, e.Favourable) (h : run step (some r) es = some o) :
    ∃ r', o = some r' ∧ r'.tap = r.tap ∧ (r'.Failed ↔ r.Failed) := by
  refine run_invariant_of (I := fun o ↦ ∃ r', o = some r' ∧ r'.tap = r.tap ∧
    (r'.Failed ↔ r.Failed)) (fun {o e o'} he hI hs ↦ ?_) he ⟨r, rfl, rfl, Iff.rfl⟩ h
  obtain ⟨m, rfl, htap, hfailed⟩ := hI
  have hmap : (advance m e).map some = some o' := by
    cases e <;> exact hs
  obtain ⟨r', hr', rfl⟩ := Option.map_eq_some_iff.mp hmap
  obtain ⟨htap', hfailed'⟩ := advance_favourable he hr'
  exact ⟨r', rfl, htap'.trans htap, hfailed'.trans hfailed⟩

end Chain

namespace Publishing

/-- The events of release `i` among those of the protocol. -/
def observed (i : ℕ) (s : Publishing P) : Event P → List (Chain.Event P)
  | .tapReleaseButton t =>
      if t.views.titleTextView.isEmpty = false ∧ i = s.releases.length then
        [.tapReleaseButton t]
      else
        []
  | .putData j stored => if j = i then [.putData stored] else []
  | .putDataCompletion j => if j = i then [.putDataCompletion] else []
  | .downloadURLCompletion j url => if j = i then [.downloadURLCompletion url] else []
  | .decide d n accepted =>
      if (s.queue d)[n]?.bind QueuedWrite.completion = some i then [.setData accepted] else []
  | .setDataCompletion j => if j = i then [.setDataCompletion] else []

variable {s : Publishing P}

-- Moving a release on is a step of its own chain and of no other.
theorem run_modify {i j : ℕ} {r : Release P} {e : Chain.Event P} {f : Release P → Release P}
    (hj : s.releases[j]? = some r) (h : Chain.advance r e = some (f r)) :
    run Chain.step s.releases[i]? (if j = i then [e] else []) =
      some (s.releases.modify j f)[i]? := by
  split
  next hji =>
    subst hji
    rw [hj, getElem?_modify_self hj, run_cons_some]
    exact ⟨_, Chain.step_some h, run_nil_some.mpr rfl⟩
  next hji => rw [getElem?_modify_ne hji, run_nil_some]

/-- Seen from one release, the protocol is the program of its tap. -/
theorem projects_chain (i : ℕ) :
    ProjectsOn Consistent step Chain.step (fun s : Publishing P ↦ s.releases[i]?) (observed i) where
  keep := fun hI hs ↦ hI.step hs
  step := by
    intro s e s' h hs
    cases e with
    | tapReleaseButton t =>
        rcases tapReleaseButton_some hs with ⟨ht, rfl⟩ | ⟨ht, -, rfl⟩
        · show run Chain.step _ (if _ then _ else _) = _
          rw [if_neg (by rw [ht]; simp), run_nil_some]
        · show run Chain.step _ (if _ then _ else _) = some (s.releases ++ [_])[i]?
          split
          next hi =>
            rw [hi.2, List.getElem?_eq_none (Nat.le_refl _), List.getElem?_concat_length,
              run_cons_some]
            exact ⟨_, Chain.start_titled t ht, run_nil_some.mpr rfl⟩
          next hi =>
            have hne : i ≠ s.releases.length := fun he ↦ hi ⟨ht, he⟩
            rw [run_nil_some]
            by_cases hlt : i < s.releases.length
            · rw [List.getElem?_append_left hlt]
            · rw [List.getElem?_eq_none (by omega), List.getElem?_eq_none]
              rw [List.length_append, List.length_singleton]
              omega
    | putData j stored =>
        obtain ⟨r, reference, imageData, hj, hst, -, rfl⟩ := putData_some hs
        exact run_modify hj (if_pos hst)
    | putDataCompletion j =>
        obtain ⟨r, m, hj, hst, rfl⟩ := putDataCompletion_some hs
        exact run_modify hj (by rw [Chain.advance, hst])
    | downloadURLCompletion j url =>
        obtain ⟨r, hj, hst, -, rfl⟩ := downloadURLCompletion_some hs
        exact run_modify (f := fun r ↦ (r.downloadURLCompletion url).1) hj (if_pos hst)
    | decide d n accepted =>
        obtain ⟨q, hq, rfl⟩ := decide_some hs
        show run Chain.step _ (if (s.queue d)[n]?.bind _ = _ then _ else _) = _
        rw [hq, Option.bind_some]
        cases hc : q.completion with
        | none =>
            rw [if_neg (by simp), run_nil_some]
        | some j =>
            -- the entry is the merging write that release `j` waits for
            obtain ⟨r, hj, -, hst, -⟩ := h.completion (List.mem_of_getElem? hq) hc
            simp only [Option.some.injEq]
            exact run_modify (f := fun r ↦ { r with stage := .setDataCompletion !accepted }) hj
              (if_pos hst)
    | setDataCompletion j =>
        obtain ⟨r, error, hj, hst, rfl⟩ := setDataCompletion_some hs
        exact run_modify hj (by rw [Chain.advance, hst])

/-- The answers that fail nothing; the writes of a device are decided in the order of their
issue. -/
def Event.Favourable : Event P → Prop
  | .tapReleaseButton _ => False
  | .putData _ stored => stored = true
  | .putDataCompletion _ => True
  | .downloadURLCompletion _ url => url.isSome = true
  | .decide _ n accepted => n = 0 ∧ accepted = true
  | .setDataCompletion _ => True

theorem observed_favourable {e : Event P} (he : e.Favourable) (i : ℕ) :
    ∀ x ∈ observed i s e, x.Favourable := by
  intro x hx
  cases e with
  | tapReleaseButton t => exact absurd he not_false
  | decide d n accepted =>
      obtain ⟨-, rfl⟩ := he
      simp only [observed, List.mem_ite_nil_right, List.mem_singleton] at hx
      rw [hx.2]
      exact rfl
  | _ =>
      simp only [observed, List.mem_ite_nil_right, List.mem_singleton] at hx
      rw [hx.2]
      exact he

theorem Consistent.favourable_step {s' : Publishing P} (h : s.Consistent) {e : Event P}
    (he : e.Favourable) (hs : s.step e = some s') {i : ℕ} {r : Release P}
    (hi : s.releases[i]? = some r) :
    ∃ r', s'.releases[i]? = some r' ∧ r'.tap = r.tap ∧ (r'.Failed ↔ r.Failed) := by
  have hrun := (projects_chain i).step h hs
  rw [hi] at hrun
  exact Chain.run_favourable (observed_favourable he i) hrun

end Publishing

end LadyBook
