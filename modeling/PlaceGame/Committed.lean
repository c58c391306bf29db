import PlaceGame.Steps

/-!
# PlaceGame.Committed

What a call that runs alone makes of the tables: what its transactions committed, in their order.
-/

namespace PlaceGame

open Coop

namespace World

structure SameTables (w w' : World) : Prop where
  accounts : w'.accounts = w.accounts
  policies : w'.policies = w.policies
  plans : w'.plans = w.plans
  jobs : w'.jobs = w.jobs
  snapshots : w'.snapshots = w.snapshots
  audits : w'.audits = w.audits

variable {w w' w'' : World}

theorem SameTables.refl (w : World) : SameTables w w := ⟨rfl, rfl, rfl, rfl, rfl, rfl⟩

theorem SameTables.trans (h : SameTables w w') (h' : SameTables w' w'') : SameTables w w'' :=
  ⟨h'.accounts.trans h.accounts, h'.policies.trans h.policies, h'.plans.trans h.plans,
    h'.jobs.trans h.jobs, h'.snapshots.trans h.snapshots, h'.audits.trans h.audits⟩

theorem SameRows.tables (h : SameRows w w') : SameTables w w' :=
  ⟨h.accounts, h.policies, h.plans, h.jobs, h.snapshots, h.audits⟩

theorem SameTables.apply (h : SameTables w w') (ws : Writes) :
    SameTables (w.apply ws) (w'.apply ws) where
  accounts := by simp only [World.apply, h.accounts]
  policies := by simp only [World.apply, h.policies]
  plans := by simp only [World.apply, h.plans]
  jobs := by simp only [World.apply, h.jobs]
  snapshots := by simp only [World.apply, h.snapshots]
  audits := by simp only [World.apply, h.audits]

theorem Env.tables (h : Env w w') : SameTables w w' := by
  cases h <;> exact ⟨rfl, rfl, rfl, rfl, rfl, rfl⟩

theorem crash_tables (t : TaskId) (w : World) : SameTables w (w.crash t) :=
  ⟨rfl, rfl, rfl, rfl, rfl, rfl⟩

end World

structure Committed where
  written : List Writes := []
  /-- A commit raised, and may or may not have taken effect. -/
  unanswered : Bool := false

namespace Committed

variable {T : Type}

def next (m : Committed) : (o : Op T) → Except Exc o.Val → Committed
  | .commit ws, .ok _ => { m with written := m.written ++ [ws] }
  | .commit _, .error _ => { m with unanswered := true }
  | _, _ => m

/-- The tables are those of the start with the commits of the call. -/
def Reaches (w₀ : World) (m : Committed) (w : World) : Prop :=
  m.unanswered = false → World.SameTables (m.written.foldl World.apply w₀) w

variable {w₀ w w' : World} {m : Committed}

theorem Reaches.start (w : World) : Reaches w {} w := fun _ => .refl w

theorem Reaches.tables (h : Reaches w₀ m w) (hs : World.SameTables w w') : Reaches w₀ m w' :=
  fun hu => (h hu).trans hs

theorem Reaches.next (h : Reaches w₀ m w) {t : TaskId} {o : Op T} {r : Except Exc o.Val}
    (hp : World.Perform t w o r w') : Reaches w₀ (m.next o r) w' := by
  have hrows : (∀ ws, o ≠ .commit ws) → World.SameTables w w' := by
    intro hc
    rcases hp.rows with ⟨ws, he, -⟩ | hs
    · exact absurd he (hc ws)
    · exact hs.tables
  cases o with
  | commit ws =>
    cases r with
    | error e => exact fun hu => absurd hu (by simp [Committed.next])
    | ok _ =>
      intro hu
      have happly := (h hu).apply ws
      rw [hp.committed rfl]
      simp only [Committed.next, List.foldl_append]
      exact ⟨happly.accounts, happly.policies, happly.plans, happly.jobs, happly.snapshots,
        happly.audits⟩
  | _ => exact h.tables (hrows (by simp))

end Committed

end PlaceGame
