import LadyBook.System.Screens

/-!
# Where the releases of a run come from

Every release goes back to one tap of the run, the only one that used its id; its download URL goes
back to an answer that came after that tap.
-/

open Reasoning

namespace LadyBook

variable {P : Platform}

namespace Publishing

variable {s s' : Publishing P}

-- A step adds the release of a tap, or keeps the taps of all releases.
theorem Consistent.step_taps (h : s.Consistent) {e : Event P} (hs : s.step e = some s') :
    s'.releases.map Release.tap = s.releases.map Release.tap ∨
      ∃ t ht, e = .tapReleaseButton t ∧ s'.releases = s.releases ++ [Release.start t ht] := by
  have hstep := h.step_releases hs
  generalize s'.releases = rs at hstep ⊢
  cases hstep with
  | same => exact Or.inl rfl
  | @start t he ht hid => exact Or.inr ⟨t, ht, he, rfl⟩
  | stage hi hr stage => exact Or.inl (map_modify_of_eq fun _ _ ↦ rfl)
  | downloaded he hi hr => exact Or.inl (map_modify_of_eq fun _ _ ↦ rfl)

-- A download URL is there before a step or is the answer that the step brings.
theorem Consistent.step_downloadUrl (h : s.Consistent) {e : Event P} (hs : s.step e = some s')
    {i : ℕ} {r : Release P} {u : P.URL} (hi : s'.releases[i]? = some r)
    (hu : r.downloadUrl = some u) :
    (∃ r', s.releases[i]? = some r' ∧ r'.tap = r.tap ∧ r'.downloadUrl = some u) ∨
      e = .downloadURLCompletion i (some u) := by
  have hstep := h.step_releases hs
  generalize s'.releases = rs at hstep hi
  cases hstep with
  | same => exact Or.inl ⟨r, hi, rfl, hu⟩
  | start he ht hid =>
      rcases getElem?_concat_some.mp hi with hi | ⟨-, rfl⟩
      · exact Or.inl ⟨r, hi, rfl, hu⟩
      · cases hu
  | @stage j r' hj hr stage =>
      obtain ⟨a, ha, rfl⟩ := getElem?_modify_some.mp hi
      refine Or.inl ⟨a, ha, ?_⟩
      split at hu
      next hji => exact ⟨by rw [if_pos hji], hu⟩
      next hji => exact ⟨by rw [if_neg hji], hu⟩
  | @downloaded j r' u' he hj hr =>
      obtain ⟨a, ha, rfl⟩ := getElem?_modify_some.mp hi
      by_cases hji : j = i
      · subst hji
        rw [if_pos rfl] at hu
        obtain rfl := Option.some.inj hu
        exact Or.inr he
      · rw [if_neg hji] at hu ⊢
        exact Or.inl ⟨a, ha, rfl, hu⟩

-- A release that has succeeded stays as it is.
theorem Consistent.succeeded_step (h : s.Consistent) {e : Event P} (hs : s.step e = some s')
    {i : ℕ} {r : Release P} (hi : s.releases[i]? = some r) (hr : r.stage = .succeeded) :
    s'.releases[i]? = some r := by
  have hother : ∀ {j : ℕ} {r' : Release P} (f : Release P → Release P),
      s.releases[j]? = some r' → r'.stage ≠ .succeeded →
        (s.releases.modify j f)[i]? = some r := by
    intro j r' f hj hne
    have hij : j ≠ i := by
      rintro rfl
      exact hne (Option.mem_unique hj hi ▸ hr)
    rw [getElem?_modify_ne hij, hi]
  have hstep := h.step_releases hs
  generalize s'.releases = rs at hstep ⊢
  cases hstep with
  | same => exact hi
  | start he ht hid => exact getElem?_concat_of_some hi
  | stage hj hne stage => exact hother _ hj hne
  | downloaded he hj hst => exact hother _ hj (by simp [hst])

end Publishing

-- The event that the tap is.
def Tap.event (t : Tap P) : World.Event P :=
  .tapReleaseButton t.device t.screen t.documentID t.timestamp t.date t.encoderThrows

namespace World

variable {w w' : World P}

/-- The tap reads what the screens of the world show. -/
def Reads (w : World P) (t : Tap P) : Prop :=
  (w.device t.device).tap t.device t.screen t.documentID t.timestamp t.date t.encoderThrows = some t

theorem published_cases {e : Event P} (h : w.step e = some w') :
    w'.publishing = w.publishing ∨
      ∃ x ∈ published w e, w.publishing.step x = some w'.publishing := by
  have hrun := projects.step h
  have hlength : (published w e).length ≤ 1 := by
    cases e with
    | tapReleaseButton d self documentID timestamp date encoderThrows =>
        unfold published
        cases (w.device d).tap d self documentID timestamp date encoderThrows <;> simp
    | _ => simp [published]
  match hp : published w e, hlength with
  | [], _ =>
      rw [hp, run_nil_some] at hrun
      exact Or.inl hrun.symm
  | [x], _ =>
      rw [hp, run_cons_some] at hrun
      obtain ⟨m, hm, hr⟩ := hrun
      rw [run_nil_some.mp hr] at hm
      exact Or.inr ⟨x, List.mem_cons_self, hm⟩

theorem published_tapReleaseButton {e : Event P} {t : Tap P}
    (h : .tapReleaseButton t ∈ published w e) : e = t.event ∧ w.Reads t := by
  cases e with
  | tapReleaseButton d self documentID timestamp date encoderThrows =>
      obtain ⟨t', ht', he⟩ := Option.map_eq_some_iff.mp (Option.mem_toList.mp h)
      obtain rfl := Publishing.Event.tapReleaseButton.inj he
      obtain ⟨writing, views, category, style, -, -, rfl⟩ := tap_some ht'
      exact ⟨rfl, ht'⟩
  | device d e => cases h
  | putData i stored => cases List.mem_singleton.mp h
  | putDataCompletion i => cases List.mem_singleton.mp h
  | downloadURLCompletion i url => cases List.mem_singleton.mp h
  | decide d n accepted => cases List.mem_singleton.mp h
  | setDataCompletion i => cases List.mem_singleton.mp h

theorem published_downloadURLCompletion {e : Event P} {i : ℕ} {url : Option P.URL}
    (h : .downloadURLCompletion i url ∈ published w e) : e = .downloadURLCompletion i url := by
  cases e with
  | tapReleaseButton d self documentID timestamp date encoderThrows =>
      obtain ⟨t', -, he⟩ := Option.map_eq_some_iff.mp (Option.mem_toList.mp h)
      cases he
  | device d e => cases h
  | putData i stored => cases List.mem_singleton.mp h
  | putDataCompletion i => cases List.mem_singleton.mp h
  | downloadURLCompletion i url =>
      cases List.mem_singleton.mp h
      rfl
  | decide d n accepted => cases List.mem_singleton.mp h
  | setDataCompletion i => cases List.mem_singleton.mp h

theorem Consistent.step_taps (hw : w.Consistent) {e : Event P} (h : w.step e = some w') :
    w'.publishing.releases.map Release.tap = w.publishing.releases.map Release.tap ∨
      ∃ t ht, e = t.event ∧ w.Reads t ∧
        w'.publishing.releases = w.publishing.releases ++ [Release.start t ht] := by
  rcases published_cases h with hsame | ⟨x, hx, hstep⟩
  · exact Or.inl (by rw [hsame])
  · rcases hw.publishing.step_taps hstep with hsame | ⟨t, ht, rfl, hr⟩
    · exact Or.inl hsame
    · obtain ⟨he, hreads⟩ := published_tapReleaseButton hx
      exact Or.inr ⟨t, ht, he, hreads, hr⟩

theorem Consistent.step_downloadUrl (hw : w.Consistent) {e : Event P} (h : w.step e = some w')
    {i : ℕ} {r : Release P} {u : P.URL} (hi : w'.publishing.releases[i]? = some r)
    (hu : r.downloadUrl = some u) :
    (∃ r', w.publishing.releases[i]? = some r' ∧ r'.tap = r.tap ∧ r'.downloadUrl = some u) ∨
      e = .downloadURLCompletion i (some u) := by
  rcases published_cases h with hsame | ⟨x, hx, hstep⟩
  · exact Or.inl ⟨r, hsame ▸ hi, rfl, hu⟩
  · rcases hw.publishing.step_downloadUrl hstep hi hu with hold | rfl
    · exact Or.inl hold
    · exact Or.inr (published_downloadURLCompletion hx)

/-! ## The tap of a release -/

/-- The events are those before the tap, the tap of a titled article, and those after it. -/
structure TapAt (es : List (Event P)) (t : Tap P) (es₁ es₂ : List (Event P)) (w₁ : World P) :
    Prop where
  split : es = es₁ ++ t.event :: es₂
  before : run step init es₁ = some w₁
  reads : w₁.Reads t
  titled : t.views.titleTextView.isEmpty = false

variable {es es₁ es₂ : List (Event P)} {w₁ : World P} {t : Tap P}

theorem TapAt.concat (h : TapAt es t es₁ es₂ w₁) (e : Event P) :
    TapAt (es ++ [e]) t es₁ (es₂ ++ [e]) w₁ where
  split := by rw [h.split, List.append_assoc, List.cons_append]
  before := h.before
  reads := h.reads
  titled := h.titled

/-- Every release has its tap in the run, and the answer with its download URL after the tap. -/
theorem tapAt_run (h : run step init es = some w) :
    Records (fun i r ↦ ∃ es₁ es₂ w₁, TapAt es r.tap es₁ es₂ w₁ ∧
      ∀ u, r.downloadUrl = some u → .downloadURLCompletion i (some u) ∈ es₂)
      w.publishing.releases := by
  refine run_induct (P := fun es w ↦ Records (fun i r ↦ ∃ es₁ es₂ w₁,
    TapAt es r.tap es₁ es₂ w₁ ∧ ∀ u, r.downloadUrl = some u →
      .downloadURLCompletion i (some u) ∈ es₂) w.publishing.releases)
    records_nil (fun es m e m' hm ih hs ↦ ?_) h
  have hcons := consistent_run hm
  have hold : ∀ i r r', m.publishing.releases[i]? = some r → m'.publishing.releases[i]? = some r' →
      r.tap = r'.tap → ∃ es₁ es₂ w₁, TapAt (es ++ [e]) r'.tap es₁ es₂ w₁ ∧
        ∀ u, r'.downloadUrl = some u → .downloadURLCompletion i (some u) ∈ es₂ := by
    intro i r r' hi hi' ht
    obtain ⟨es₁, es₂, w₁, htap, hurl⟩ := ih i r hi
    refine ⟨es₁, es₂ ++ [e], w₁, ht ▸ htap.concat e, fun u hu ↦ ?_⟩
    rcases hcons.step_downloadUrl hs hi' hu with ⟨r'', hi'', -, hu''⟩ | rfl
    · obtain rfl := Option.mem_unique hi hi''
      exact List.mem_append_left _ (hurl u hu'')
    · exact List.mem_append_right _ List.mem_cons_self
  intro i r' hi'
  rcases hcons.step_taps hs with hsame | ⟨t, ht, he, hreads, hr⟩
  · have hmap : (m.publishing.releases.map Release.tap)[i]? = some r'.tap := by
      rw [← hsame, List.getElem?_map, hi', Option.map_some]
    rw [List.getElem?_map] at hmap
    obtain ⟨r, hi, htap⟩ := Option.map_eq_some_iff.mp hmap
    exact hold i r r' hi hi' htap
  · rw [hr] at hi'
    rcases getElem?_concat_some.mp hi' with hi | ⟨-, rfl⟩
    · exact hold i r' r' hi (hr ▸ hi') rfl
    · -- the new release: its tap is the last event
      refine ⟨es, [], m, ⟨by rw [he]; rfl, hm, hreads, ht⟩, fun u hu ↦ by cases hu⟩

end World

end LadyBook
