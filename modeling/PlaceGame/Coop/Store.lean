import Mathlib.Data.List.Dedup
import PlaceGame.Coop.System

/-!
# Coop.Store

What the shared world of a database client is made of.

* `Table κ ρ`: a keyed table. Rows are replaced or added, the newest write of a key counts.
* `Locks κ`: exclusive locks by key. A lock is free, or held by one task until it is released.
-/

namespace Coop

structure Table (κ ρ : Type) where
  rows : List (κ × ρ) := []

namespace Table

variable {κ ρ : Type} [DecidableEq κ]

def get (T : Table κ ρ) (k : κ) : Option ρ := T.rows.lookup k

def set (T : Table κ ρ) (k : κ) (r : ρ) : Table κ ρ := ⟨(k, r) :: T.rows⟩

def keys (T : Table κ ρ) : List κ := (T.rows.map Prod.fst).dedup

def update (T : Table κ ρ) (k : κ) (f : ρ → ρ) : Table κ ρ :=
  match T.get k with
  | some r => T.set k (f r)
  | none => T

/-- The first live row, newest write first, that satisfies `p`. -/
def find (T : Table κ ρ) (p : κ → ρ → Bool) : Option κ :=
  (T.rows.map Prod.fst).find? fun k => (T.get k).any (p k)

@[simp] theorem get_set_self (T : Table κ ρ) (k : κ) (r : ρ) : (T.set k r).get k = some r := by
  simp [get, set]

theorem get_set (T : Table κ ρ) (k k' : κ) (r : ρ) :
    (T.set k r).get k' = if k' = k then some r else T.get k' := by
  by_cases h : k' = k
  · subst h; simp
  · simp [get, set, List.lookup_cons, beq_eq_false_iff_ne.mpr h, h]

theorem get_set_ne (T : Table κ ρ) {k k' : κ} (r : ρ) (h : k' ≠ k) :
    (T.set k r).get k' = T.get k' := by rw [get_set, if_neg h]

theorem mem_keys {T : Table κ ρ} {k : κ} {r : ρ} (h : T.get k = some r) :
    k ∈ T.rows.map Prod.fst := by
  unfold get at h
  generalize T.rows = rows at h ⊢
  induction rows with
  | nil => simp at h
  | cons row rows ih =>
    by_cases hk : k = row.1
    · subst hk; simp
    · rw [List.lookup_cons, beq_eq_false_iff_ne.mpr hk] at h
      simp only [List.map_cons, List.mem_cons]
      exact .inr (ih h)

theorem mem_keys_iff {T : Table κ ρ} {k : κ} : k ∈ T.keys ↔ ∃ r, T.get k = some r := by
  unfold keys
  rw [List.mem_dedup]
  constructor
  · unfold get
    generalize T.rows = rows
    intro h
    induction rows with
    | nil => simp at h
    | cons row rows ih =>
      by_cases hk : k = row.1
      · exact ⟨row.2, by rw [List.lookup_cons, beq_iff_eq.mpr hk]⟩
      · rw [List.map_cons, List.mem_cons] at h
        obtain ⟨r, hr⟩ := ih (h.resolve_left hk)
        exact ⟨r, by rw [List.lookup_cons, beq_eq_false_iff_ne.mpr hk, hr]⟩
  · rintro ⟨r, hr⟩
    exact mem_keys hr

theorem get_update (T : Table κ ρ) (k k' : κ) (f : ρ → ρ) :
    (T.update k f).get k' = if k' = k then (T.get k).map f else T.get k' := by
  unfold update
  cases h : T.get k with
  | none =>
    by_cases hk : k' = k
    · subst hk; simp [h]
    · simp [hk]
  | some r => simp [get_set]

section Updates

variable {ι β : Type} (key : ι → κ) (f : ι → ρ → ρ) (g : ρ → β)

/-- Updates keep what each of them keeps of a row. -/
theorem map_updates (hg : ∀ i r, g (f i r) = g r) (is : List ι) (T : Table κ ρ) (k : κ) :
    ((is.foldl (fun T i => T.update (key i) (f i)) T).get k).map g = (T.get k).map g := by
  induction is generalizing T with
  | nil => rfl
  | cons i is ih =>
    rw [List.foldl_cons, ih, get_update]
    split
    · rename_i hk
      subst hk
      rw [Option.map_map]
      congr 1
      funext r
      exact hg i r
    · rfl

/-- Updates leave alone the rows that none of them is about. -/
theorem filter_updates (hg : ∀ i r, g (f i r) = g r) (q : β → Bool) (is : List ι) (T : Table κ ρ)
    (h : ∀ i ∈ is, ∀ b, (T.get (key i)).map g = some b → q b = false) (k : κ) :
    ((is.foldl (fun T i => T.update (key i) (f i)) T).get k).filter (fun r => q (g r)) =
      (T.get k).filter fun r => q (g r) := by
  induction is generalizing T with
  | nil => rfl
  | cons i is ih =>
    have hrest : ∀ j ∈ is, ∀ b, ((T.update (key i) (f i)).get (key j)).map g = some b →
        q b = false := fun j hj b hb =>
      h j (List.mem_cons_of_mem _ hj) b ((map_updates key f g hg [i] T (key j)).symm.trans hb)
    rw [List.foldl_cons, ih _ hrest, get_update]
    split
    · rename_i hk
      subst hk
      have hi := h i List.mem_cons_self
      cases hget : T.get (key i) with
      | none => rfl
      | some r =>
        rw [hget] at hi
        have hq := hi (g r) rfl
        simp [Option.filter, hg, hq]
    · rfl

end Updates

theorem find_some {T : Table κ ρ} {p : κ → ρ → Bool} {k : κ} (h : T.find p = some k) :
    ∃ r, T.get k = some r ∧ p k r = true := by
  have := List.find?_some h
  rw [Option.any_eq_true] at this
  obtain ⟨r, hr, hp⟩ := this
  exact ⟨r, hr, hp⟩

theorem find_none {T : Table κ ρ} {p : κ → ρ → Bool} (h : T.find p = none) {k : κ} {r : ρ}
    (hr : T.get k = some r) : p k r = false := by
  have := List.find?_eq_none.mp h k (mem_keys hr)
  rw [hr] at this
  simpa using this

end Table

abbrev Locks (κ : Type) : Type := κ → Option TaskId

namespace Locks

variable {κ : Type}

/-- The task may take the lock: nobody else holds it. -/
def available (l : Locks κ) (t : TaskId) (k : κ) : Bool := l k == none || l k == some t

def take [DecidableEq κ] (l : Locks κ) (t : TaskId) (k : κ) : Locks κ := Function.update l k (some t)

def drop [DecidableEq κ] (l : Locks κ) (k : κ) : Locks κ := Function.update l k none

/-- The locks after the task gave up all of its own. -/
def release (l : Locks κ) (t : TaskId) : Locks κ := fun k => if l k = some t then none else l k

@[simp] theorem take_self [DecidableEq κ] (l : Locks κ) (t : TaskId) (k : κ) : l.take t k k = some t := by
  simp [take]

theorem available_iff {l : Locks κ} {t : TaskId} {k : κ} :
    l.available t k = true ↔ l k = none ∨ l k = some t := by
  simp [available]

/-- Taking an available lock leaves every lock of another task where it is. -/
theorem take_other [DecidableEq κ] {l : Locks κ} {t u : TaskId} {k k' : κ} (h : l.available t k = true)
    (hu : u ≠ t) : l.take t k k' = some u ↔ l k' = some u := by
  by_cases hk : k' = k
  · subst hk
    rw [take_self]
    constructor
    · intro h'; cases h'; exact absurd rfl hu
    · intro h'
      rcases available_iff.mp h with h0 | h0 <;> rw [h0] at h' <;> cases h'
      exact absurd rfl hu
  · simp [take, hk]

theorem take_mono [DecidableEq κ] {l : Locks κ} {t : TaskId} {k k' : κ} (h : l k' = some t) :
    l.take t k k' = some t := by
  by_cases hk : k' = k
  · subst hk; simp
  · simp [take, hk, h]

theorem release_other {l : Locks κ} {t u : TaskId} {k : κ} (hu : u ≠ t) :
    l.release t k = some u ↔ l k = some u := by
  unfold release
  split
  · rename_i h
    rw [h]
    constructor
    · intro h'; cases h'
    · intro h'; cases h'; exact absurd rfl hu
  · rfl

end Locks

end Coop
