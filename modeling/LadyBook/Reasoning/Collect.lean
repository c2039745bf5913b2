import Mathlib.Data.Finmap
import LadyBook.Reasoning.SortedScan

/-!
# Maps built by a loop

A loop over keys that puts a value under some of them: what the map holds then depends on the key
alone.
-/

namespace Reasoning

variable {κ β : Type*}

section

variable [DecidableEq κ]

/-- The loop: a key without a value is passed over. -/
def collectFrom (init : Finmap fun _ : κ ↦ β) (keys : List κ) (f : κ → Option β) :
    Finmap fun _ : κ ↦ β :=
  keys.foldl (fun results key ↦ (f key).elim results (results.insert key)) init

theorem lookup_collectFrom (init : Finmap fun _ : κ ↦ β) (keys : List κ) (f : κ → Option β)
    (k : κ) : (collectFrom init keys f).lookup k =
      if k ∈ keys then (f k).or (init.lookup k) else init.lookup k := by
  induction keys generalizing init with
  | nil => rfl
  | cons key keys ih =>
      show (collectFrom _ keys f).lookup k = _
      rw [ih]
      by_cases hk : k = key
      · subst hk
        rw [if_pos List.mem_cons_self]
        cases hf : f k with
        | none => simp [hf]
        | some value => simp [hf]
      · have hinit : ((f key).elim init (init.insert key)).lookup k = init.lookup k := by
          cases f key with
          | none => rfl
          | some value => exact Finmap.lookup_insert_of_ne init hk
        rw [hinit]
        simp only [List.mem_cons, hk, false_or]

/-- A loop that rewrites the rows of some keys; `none` leaves a row as it is. -/
def rewriteRows (f : κ → Option β → Option β) (keys : List κ) (m : Finmap fun _ : κ ↦ β) :
    Finmap fun _ : κ ↦ β :=
  keys.foldl (fun m key ↦ (f key (m.lookup key)).elim m (m.insert key)) m

theorem rewriteRows_eq {f : κ → Option β → Option β} {keys : List κ} (hn : keys.Nodup)
    (m : Finmap fun _ : κ ↦ β) :
    rewriteRows f keys m = collectFrom m keys fun key ↦ f key (m.lookup key) := by
  unfold rewriteRows collectFrom
  suffices h : ∀ m' : Finmap fun _ : κ ↦ β, (∀ key ∈ keys, m'.lookup key = m.lookup key) →
      keys.foldl (fun m key ↦ (f key (m.lookup key)).elim m (m.insert key)) m' =
        keys.foldl (fun m' key ↦ (f key (m.lookup key)).elim m' (m'.insert key)) m' from
    h m fun _ _ ↦ rfl
  induction keys with
  | nil => exact fun _ _ ↦ rfl
  | cons key keys ih =>
      intro m' hm'
      obtain ⟨hkey, hn⟩ := List.nodup_cons.mp hn
      rw [List.foldl_cons, List.foldl_cons, hm' key List.mem_cons_self]
      apply ih hn
      intro k hk
      rw [← hm' k (List.mem_cons_of_mem key hk)]
      cases f key (m.lookup key) with
      | none => rfl
      | some value => exact Finmap.lookup_insert_of_ne m' fun he ↦ hkey (he ▸ hk)

/-- A loop that rewrites the rows of some keys and may fail; `none` leaves a row as it is. -/
def updateRows {ε : Type*} (f : κ → Option β → Except ε (Option β)) (keys : List κ)
    (m : Finmap fun _ : κ ↦ β) : Except ε (Finmap fun _ : κ ↦ β) :=
  keys.foldlM (fun m key ↦
    match f key (m.lookup key) with
    | .ok row => .ok (row.elim m (m.insert key))
    | .error e => .error e) m

theorem updateRows_eq_rewriteRows {ε : Type*} {f : κ → Option β → Except ε (Option β)}
    {g : κ → Option β → Option β} {keys : List κ}
    (h : ∀ key ∈ keys, ∀ row, f key row = .ok (g key row))
    (m : Finmap fun _ : κ ↦ β) : updateRows f keys m = .ok (rewriteRows g keys m) := by
  induction keys generalizing m with
  | nil => rfl
  | cons key keys ih =>
      rw [updateRows, List.foldlM_cons, h key List.mem_cons_self]
      exact ih (fun k hk ↦ h k (List.mem_cons_of_mem key hk)) _

/-- The rows are rewritten one by one, each as it was before the loop. -/
theorem updateRows_eq_ok {ε : Type*} {f : κ → Option β → Except ε (Option β)}
    {g : κ → Option β → Option β} {keys : List κ} (hn : keys.Nodup)
    (h : ∀ key ∈ keys, ∀ row, f key row = .ok (g key row)) (m : Finmap fun _ : κ ↦ β) :
    updateRows f keys m = .ok (collectFrom m keys fun key ↦ g key (m.lookup key)) := by
  rw [updateRows_eq_rewriteRows h, rewriteRows_eq hn]

end

variable [LinearOrder κ]

/-- A new map over the keys of a set. -/
def collect (keys : Finset κ) (f : κ → Option β) : Finmap fun _ : κ ↦ β :=
  collectFrom ∅ (ascending keys) f

theorem lookup_collect (keys : Finset κ) (f : κ → Option β) (k : κ) :
    (collect keys f).lookup k = if k ∈ keys then f k else none := by
  rw [collect, lookup_collectFrom, Finmap.lookup_empty]
  simp only [mem_ascending, Option.or_none]

/-- A map rewritten entry by entry. -/
theorem lookup_collect_bind {β' : Type*} (m : Finmap fun _ : κ ↦ β) (f : κ → β → Option β')
    (k : κ) : (collect m.keys fun key ↦ (m.lookup key).bind (f key)).lookup k =
      (m.lookup k).bind (f k) := by
  rw [lookup_collect]
  split
  next => rfl
  next h =>
    rw [Finmap.mem_keys, ← Finmap.lookup_eq_none] at h
    rw [h]
    rfl

theorem lookup_collect_map {β' : Type*} (m : Finmap fun _ : κ ↦ β) (f : κ → β → β') (k : κ) :
    (collect m.keys fun key ↦ (m.lookup key).map (f key)).lookup k = (m.lookup k).map (f k) := by
  simp only [Option.map_eq_bind]
  exact lookup_collect_bind m (fun key v ↦ some (f key v)) k

theorem lookup_collect_filter (m : Finmap fun _ : κ ↦ β) (P : κ → β → Bool) (k : κ) :
    (collect m.keys fun key ↦ (m.lookup key).filter (P key)).lookup k =
      (m.lookup k).filter (P k) := by
  simp only [← Option.bind_guard]
  exact lookup_collect_bind m (fun key v ↦ Option.guard (P key) v) k

theorem mem_keys_iff {m : Finmap fun _ : κ ↦ β} {k : κ} :
    k ∈ m.keys ↔ (m.lookup k).isSome = true := by
  rw [Finmap.mem_keys, Finmap.mem_iff, Option.isSome_iff_exists]

end Reasoning
