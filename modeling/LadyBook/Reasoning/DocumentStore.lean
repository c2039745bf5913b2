import Mathlib.Data.Finmap

/-!
# Keyed stores of documents under replacing and merging writes

A document is a finite map from field names to values, a store a finite map from keys to documents.
A write replaces the document of its key or merges its fields into it; both create a missing
document.  The document of a key is the fold of the writes on that key alone.

A `Plan` assigns to a key the document that a replacing write may give it and the fields that a
merging one may add.  Stores reached by planned writes hold, at each key, one of three documents.
-/

namespace Reasoning.DocumentStore

abbrev Fields (φ ν : Type*) := Finmap fun _ : φ ↦ ν

abbrev Store (κ φ ν : Type*) := Finmap fun _ : κ ↦ Fields φ ν

/-- A write of a document: `merge` tells the two kinds apart. -/
structure Write (κ φ ν : Type*) where
  key : κ
  data : Fields φ ν
  merge : Bool
  deriving DecidableEq

variable {κ φ ν : Type*} [DecidableEq φ]

/-- The document that the write leaves at a key that held `old`. -/
def Write.result (w : Write κ φ ν) (old : Option (Fields φ ν)) : Fields φ ν :=
  if w.merge then w.data ∪ old.getD ∅ else w.data

theorem Write.result_replace {w : Write κ φ ν} (h : w.merge = false)
    (old : Option (Fields φ ν)) : w.result old = w.data := by
  rw [Write.result, if_neg (by rw [h]; exact Bool.false_ne_true)]

theorem Write.result_merge {w : Write κ φ ν} (h : w.merge = true)
    (old : Option (Fields φ ν)) : w.result old = w.data ∪ old.getD ∅ :=
  if_pos h

theorem lookup_union (f : φ) (a b : Fields φ ν) :
    (a ∪ b).lookup f = (a.lookup f).or (b.lookup f) := by
  by_cases h : f ∈ a
  · rw [Finmap.lookup_union_left h]
    obtain ⟨v, hv⟩ := Finmap.mem_iff.mp h
    rw [hv, Option.some_or]
  · rw [Finmap.lookup_union_right h, Finmap.lookup_eq_none.mpr h, Option.none_or]

theorem union_self (a : Fields φ ν) : a ∪ a = a := by
  apply Finmap.ext_lookup
  intro f
  rw [lookup_union, Option.or_self]

theorem union_union_self (a b : Fields φ ν) : a ∪ (a ∪ b) = a ∪ b := by
  rw [← Finmap.union_assoc, union_self]

variable [DecidableEq κ]

def Write.apply (w : Write κ φ ν) (c : Store κ φ ν) : Store κ φ ν :=
  c.insert w.key (w.result (c.lookup w.key))

/-- The store after the writes, oldest first. -/
def replay (c : Store κ φ ν) (ws : List (Write κ φ ν)) : Store κ φ ν :=
  ws.foldl (fun c w ↦ w.apply c) c

theorem lookup_apply_self (w : Write κ φ ν) (c : Store κ φ ν) :
    (w.apply c).lookup w.key = some (w.result (c.lookup w.key)) :=
  Finmap.lookup_insert c

theorem lookup_apply_of_ne {w : Write κ φ ν} {k : κ} (h : w.key ≠ k) (c : Store κ φ ν) :
    (w.apply c).lookup k = c.lookup k :=
  Finmap.lookup_insert_of_ne c h.symm

theorem replay_cons (c : Store κ φ ν) (w : Write κ φ ν) (ws : List (Write κ φ ν)) :
    replay c (w :: ws) = replay (w.apply c) ws := rfl

theorem replay_append (c : Store κ φ ν) (ws ws' : List (Write κ φ ν)) :
    replay c (ws ++ ws') = replay (replay c ws) ws' :=
  List.foldl_append

theorem replay_concat (c : Store κ φ ν) (ws : List (Write κ φ ν)) (w : Write κ φ ν) :
    replay c (ws ++ [w]) = w.apply (replay c ws) :=
  replay_append c ws [w]

/-- A key's document comes from the writes on that key, in their order. -/
theorem lookup_replay (c : Store κ φ ν) (ws : List (Write κ φ ν)) (k : κ) :
    (replay c ws).lookup k =
      (ws.filter fun w ↦ w.key = k).foldl (fun old w ↦ some (w.result old)) (c.lookup k) := by
  induction ws generalizing c with
  | nil => rfl
  | cons w ws ih =>
      rw [replay_cons, ih]
      by_cases h : w.key = k
      · rw [List.filter_cons_of_pos (by simpa using h), List.foldl_cons, ← h, lookup_apply_self]
      · rw [List.filter_cons_of_neg (by simpa using h), lookup_apply_of_ne h]

theorem lookup_replay_of_forall_ne {c : Store κ φ ν} {ws : List (Write κ φ ν)} {k : κ}
    (h : ∀ w ∈ ws, w.key ≠ k) : (replay c ws).lookup k = c.lookup k := by
  rw [lookup_replay, List.filter_eq_nil_iff.mpr]
  · rfl
  · intro w hw
    simpa using h w hw

/-- What each key's owner means to write: a whole document, and fields to be merged into it. -/
structure Plan (κ φ ν : Type*) where
  base : κ → Fields φ ν → Prop
  patch : κ → Fields φ ν → Prop

variable {p q : Plan κ φ ν}

/-- A key has one patch at most. -/
def Plan.UniquePatches (p : Plan κ φ ν) : Prop :=
  ∀ {k a b}, p.patch k a → p.patch k b → a = b

structure Plan.Extends (q p : Plan κ φ ν) : Prop where
  base : ∀ {k d}, p.base k d → q.base k d
  patch : ∀ {k d}, p.patch k d → q.patch k d

def Plan.Allows (p : Plan κ φ ν) (w : Write κ φ ν) : Prop :=
  if w.merge then p.patch w.key w.data else p.base w.key w.data

/-- The documents a key can hold: the base, the patch alone, or the base with the patch. -/
inductive Plan.Document (p : Plan κ φ ν) (k : κ) : Fields φ ν → Prop where
  | base {b : Fields φ ν} (hb : p.base k b) : Document p k b
  | patch {a : Fields φ ν} (ha : p.patch k a) : Document p k a
  | both {a b : Fields φ ν} (ha : p.patch k a) (hb : p.base k b) : Document p k (a ∪ b)

/-- Every document of the store is one its key's plan accounts for. -/
def Plan.Accounts (p : Plan κ φ ν) (c : Store κ φ ν) : Prop :=
  ∀ k d, c.lookup k = some d → p.Document k d

omit [DecidableEq φ] [DecidableEq κ] in
theorem Plan.Allows.extend {w : Write κ φ ν} (h : p.Allows w) (e : q.Extends p) : q.Allows w := by
  unfold Plan.Allows at h ⊢
  split
  next hm =>
    rw [if_pos hm] at h
    exact e.patch h
  next hm =>
    rw [if_neg hm] at h
    exact e.base h

omit [DecidableEq κ] in
theorem Plan.Document.extend {k : κ} {d : Fields φ ν} (h : p.Document k d) (e : q.Extends p) :
    q.Document k d := by
  cases h with
  | base hb => exact .base (e.base hb)
  | patch ha => exact .patch (e.patch ha)
  | both ha hb => exact .both (e.patch ha) (e.base hb)

theorem Plan.Accounts.extend {c : Store κ φ ν} (h : p.Accounts c) (e : q.Extends p) :
    q.Accounts c :=
  fun k d hd ↦ (h k d hd).extend e

theorem Plan.accounts_empty : p.Accounts (∅ : Store κ φ ν) := by
  intro k d h
  rw [Finmap.lookup_empty] at h
  cases h

omit [DecidableEq κ] in
theorem Plan.Document.result (u : p.UniquePatches) {w : Write κ φ ν} (hw : p.Allows w)
    {old : Option (Fields φ ν)} (ho : ∀ d, old = some d → p.Document w.key d) :
    p.Document w.key (w.result old) := by
  unfold Plan.Allows at hw
  by_cases hm : w.merge = true
  · rw [if_pos hm] at hw
    rw [w.result_merge hm]
    cases old with
    | none =>
        rw [Option.getD_none, Finmap.union_empty]
        exact .patch hw
    | some d =>
        rw [Option.getD_some]
        cases ho d rfl with
        | base hb => exact .both hw hb
        | patch ha =>
            rw [u ha hw, union_self]
            exact .patch hw
        | both ha hb =>
            rw [u ha hw, union_union_self]
            exact .both hw hb
  · rw [if_neg hm] at hw
    rw [w.result_replace (Bool.eq_false_iff.mpr hm)]
    exact .base hw

theorem Plan.Accounts.apply {c : Store κ φ ν} (h : p.Accounts c) (u : p.UniquePatches)
    {w : Write κ φ ν} (hw : p.Allows w) : p.Accounts (w.apply c) := by
  intro k d hd
  by_cases hk : w.key = k
  · subst hk
    rw [lookup_apply_self, Option.some.injEq] at hd
    exact hd ▸ Plan.Document.result u hw (h w.key)
  · rw [lookup_apply_of_ne hk] at hd
    exact h k d hd

theorem Plan.Accounts.replay {c : Store κ φ ν} (h : p.Accounts c) (u : p.UniquePatches)
    {ws : List (Write κ φ ν)} (hws : ∀ w ∈ ws, p.Allows w) :
    p.Accounts (DocumentStore.replay c ws) := by
  induction ws generalizing c with
  | nil => exact h
  | cons w ws ih =>
      exact ih (h.apply u (hws w List.mem_cons_self))
        (fun w' hw' ↦ hws w' (List.mem_cons_of_mem w hw'))

/-! ## Bases before patches -/

/-- No merging write of the key comes before a replacing one. -/
def BasesFirst (k : κ) (ws : List (Write κ φ ν)) : Prop :=
  ws.Pairwise fun w w' ↦ w.key = k → w'.key = k → w.merge = true → w'.merge = true

omit [DecidableEq φ] [DecidableEq κ] in
theorem basesFirst_of_forall {k : κ} {ws : List (Write κ φ ν)}
    (h : ∀ w ∈ ws, w.key = k → w.merge = false) : BasesFirst k ws := by
  refine List.pairwise_of_forall_mem_list fun w hw w' _ hk _ hm ↦ ?_
  rw [h w hw hk] at hm
  cases hm

omit [DecidableEq φ] [DecidableEq κ] in
-- A write may be put behind the others when it merges or is the first one of its key.
theorem BasesFirst.concat {k : κ} {ws : List (Write κ φ ν)} (h : BasesFirst k ws)
    {w : Write κ φ ν} (hw : w.merge = true ∨ ∀ w' ∈ ws, w'.key ≠ w.key) :
    BasesFirst k (ws ++ [w]) := by
  refine List.pairwise_append.mpr ⟨h, List.pairwise_singleton _ _, ?_⟩
  intro w' hw' x hx hk' hk hm
  obtain rfl := List.mem_singleton.mp hx
  rcases hw with hw | hw
  · exact hw
  · exact absurd (hk'.trans hk.symm) (hw w' hw')

omit [DecidableEq φ] [DecidableEq κ] in
-- A write may be put before writes on other keys.
theorem BasesFirst.insert {k : κ} {ws us : List (Write κ φ ν)} {w : Write κ φ ν}
    (h : BasesFirst k (ws ++ us)) (hw : BasesFirst k (ws ++ [w]))
    (hu : ∀ u ∈ us, u.key ≠ w.key) : BasesFirst k (ws ++ [w] ++ us) := by
  obtain ⟨-, hus, hcross⟩ := List.pairwise_append.mp h
  refine List.pairwise_append.mpr ⟨hw, hus, ?_⟩
  intro x hx u hmem hkx hku hm
  rcases List.mem_append.mp hx with hx | hx
  · exact hcross x hx u hmem hkx hku hm
  · obtain rfl := List.mem_singleton.mp hx
    exact absurd (hku.trans hkx.symm) (hu u hmem)

/-- The document of a key with base `b` and patch `a`, by which of the two writes were applied. -/
def outcome (b a : Fields φ ν) : Bool → Bool → Option (Fields φ ν)
  | false, false => none
  | true, false => some b
  | false, true => some a
  | true, true => some (a ∪ b)

def wrote (k : κ) (merge : Bool) (ws : List (Write κ φ ν)) : Bool :=
  ws.any fun w ↦ decide (w.key = k) && w.merge == merge

omit [DecidableEq φ] in
theorem wrote_iff {k : κ} {m : Bool} {ws : List (Write κ φ ν)} :
    wrote k m ws = true ↔ ∃ w ∈ ws, w.key = k ∧ w.merge = m := by
  simp only [wrote, List.any_eq_true, Bool.and_eq_true, decide_eq_true_eq, beq_iff_eq]

omit [DecidableEq φ] in
theorem wrote_concat {k : κ} {m : Bool} {ws : List (Write κ φ ν)} {w : Write κ φ ν} :
    wrote k m (ws ++ [w]) = (wrote k m ws || (decide (w.key = k) && w.merge == m)) := by
  simp only [wrote, List.any_append, List.any_cons, List.any_nil, Bool.or_false]

theorem lookup_replay_outcome {k : κ} {a b : Fields φ ν} {ws : List (Write κ φ ν)}
    (hb : ∀ w ∈ ws, w.key = k → w.merge = false → w.data = b)
    (ha : ∀ w ∈ ws, w.key = k → w.merge = true → w.data = a) (ho : BasesFirst k ws) :
    (replay ∅ ws).lookup k = outcome b a (wrote k false ws) (wrote k true ws) := by
  induction ws using List.reverseRecOn with
  | nil => exact Finmap.lookup_empty k
  | append_singleton ws w ih =>
      obtain ⟨ho₁, -, hlast⟩ := List.pairwise_append.mp ho
      have ih := ih (fun x hx ↦ hb x (List.mem_append_left _ hx))
        (fun x hx ↦ ha x (List.mem_append_left _ hx)) ho₁
      rw [replay_concat, wrote_concat, wrote_concat]
      by_cases hk : w.key = k
      · have hmem : w ∈ ws ++ [w] := List.mem_append_right _ List.mem_cons_self
        rw [← hk, lookup_apply_self, hk, ih]
        cases hm : w.merge with
        | false =>
            -- a replacing write: no merging write of the key can be older
            have hold : wrote k true ws = false := by
              rw [Bool.eq_false_iff, Ne, wrote_iff]
              rintro ⟨w', hw', hk', hm'⟩
              have := hlast w' hw' w List.mem_cons_self hk' hk hm'
              rw [hm] at this
              cases this
            rw [w.result_replace hm, hb w hmem hk hm, hold]
            simp [outcome]
        | true =>
            rw [w.result_merge hm, ha w hmem hk hm]
            cases wrote k false ws <;> cases wrote k true ws <;>
              simp [outcome, Finmap.union_empty, union_self, union_union_self]
      · rw [lookup_apply_of_ne hk, ih]
        simp [hk]

/-- The writes of one kind on one key agree. -/
def Agree (ws : List (Write κ φ ν)) : Prop :=
  ∀ w ∈ ws, ∀ w' ∈ ws, w.key = w'.key → w.merge = w'.merge → w.data = w'.data

omit [DecidableEq φ] [DecidableEq κ] in
-- One document stands for all writes of a kind on a key.
theorem Agree.exists_data {ws : List (Write κ φ ν)} (h : Agree ws) (k : κ) (m : Bool) :
    ∃ d, ∀ w ∈ ws, w.key = k → w.merge = m → w.data = d := by
  by_cases hex : ∃ w ∈ ws, w.key = k ∧ w.merge = m
  · obtain ⟨w, hw, hk, hm⟩ := hex
    exact ⟨w.data, fun w' hw' hk' hm' ↦ h w' hw' w hw (hk'.trans hk.symm) (hm'.trans hm.symm)⟩
  · exact ⟨∅, fun w hw hk hm ↦ absurd ⟨w, hw, hk, hm⟩ hex⟩

/-- The store depends on the set of the writes alone, while on each key the replacing ones come
first and the writes of one kind agree. -/
theorem replay_eq_of_mem_iff {ws ws' : List (Write κ φ ν)} (hmem : ∀ w, w ∈ ws ↔ w ∈ ws')
    (h : Agree ws) (ho : ∀ k, BasesFirst k ws) (ho' : ∀ k, BasesFirst k ws') :
    replay ∅ ws = replay ∅ ws' := by
  apply Finmap.ext_lookup
  intro k
  obtain ⟨b, hb⟩ := h.exists_data k false
  obtain ⟨a, ha⟩ := h.exists_data k true
  have hwrote : ∀ m, wrote k m ws = wrote k m ws' := by
    intro m
    rw [Bool.eq_iff_iff, wrote_iff, wrote_iff]
    simp only [hmem]
  rw [lookup_replay_outcome hb ha (ho k), hwrote, hwrote]
  exact (lookup_replay_outcome (fun w hw ↦ hb w ((hmem w).mpr hw))
    (fun w hw ↦ ha w ((hmem w).mpr hw)) (ho' k)).symm

end Reasoning.DocumentStore
