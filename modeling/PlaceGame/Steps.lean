import PlaceGame.System

/-!
# PlaceGame.Steps

What one await does to the shared world.

Most awaits leave the world alone. The others draw an identifier, take or give back a lock, flush an
identity, or end the transaction.
-/

namespace PlaceGame

open Coop

namespace Op

variable {T : Type}

/-- The await takes or gives back a lock and nothing else. -/
def locking : Op T → Bool
  | .accountLock _ | .identityLock _ | .tryExecutionGuard _ | .executionUnlock _
  | .accountForUpdate _ | .planForUpdate _ _ => true
  | _ => false

/-- The await leaves the world alone. -/
def still : Op T → Bool
  | .uuid | .flushIdentity _ _ | .commit _ | .rollback => false
  | o => !o.locking

def ends : Op T → Bool
  | .commit _ | .rollback => true
  | _ => false

end Op

namespace World

variable {T : Type} {t : TaskId} {w w' : World} {o : Op T} {reply r : Except Exc o.Val}

theorem effect_still (hs : o.still = true) (h : effect t w o reply = some (r, w')) : w' = w := by
  cases o <;> simp [Op.still, Op.locking] at hs <;> simp [effect] at h <;> exact h.2.symm

theorem effect_locking (hl : o.locking = true) (h : effect t w o reply = some (r, w')) :
    ∃ accountLocks identityLocks guards accountRows planRows, w' = { w with
      accountLocks := accountLocks
      identityLocks := identityLocks
      guards := guards
      accountRows := accountRows
      planRows := planRows } := by
  cases o <;> simp [Op.locking] at hl <;> simp only [effect] at h <;> (repeat' split at h) <;>
    simp only [Option.some.injEq, Prod.mk.injEq, reduceCtorEq] at h <;>
    exact ⟨_, _, _, _, _, h.2.symm⟩

/-- The rows of every table are the same, and so is the game. -/
structure SameRows (w w' : World) : Prop where
  accounts : w'.accounts = w.accounts
  policies : w'.policies = w.policies
  plans : w'.plans = w.plans
  jobs : w'.jobs = w.jobs
  snapshots : w'.snapshots = w.snapshots
  audits : w'.audits = w.audits
  validSeconds : w'.validSeconds = w.validSeconds
  collections : w'.collections = w.collections

theorem SameRows.refl (w : World) : SameRows w w := ⟨rfl, rfl, rfl, rfl, rfl, rfl, rfl, rfl⟩

/-- Only a commit changes rows. -/
theorem effect_rows (h : effect t w o reply = some (r, w')) :
    (∃ ws, o = .commit ws ∧ w' = (w.apply ws).release t) ∨ SameRows w w' := by
  by_cases hs : o.still = true
  · rw [effect_still hs h]
    exact .inr (.refl w)
  · by_cases hl : o.locking = true
    · obtain ⟨_, _, _, _, _, rfl⟩ := effect_locking hl h
      exact .inr ⟨rfl, rfl, rfl, rfl, rfl, rfl, rfl, rfl⟩
    · cases o <;> simp [Op.locking] at hl <;> simp [Op.still, Op.locking] at hs
      case uuid =>
        cases h
        exact .inr ⟨rfl, rfl, rfl, rfl, rfl, rfl, rfl, rfl⟩
      case flushIdentity a g =>
        simp only [effect, flushIdentity] at h
        split at h
        · cases h
        · split at h <;> cases h <;> exact .inr ⟨rfl, rfl, rfl, rfl, rfl, rfl, rfl, rfl⟩
      case commit ws =>
        cases h
        exact .inl ⟨ws, rfl, rfl⟩
      case rollback =>
        cases h
        exact .inr ⟨rfl, rfl, rfl, rfl, rfl, rfl, rfl, rfl⟩

/-- A finished await had its effect, or was cancelled before it. -/
theorem Perform.effect_or (h : Perform t w o r w') :
    (∃ reply, effect t w o reply = some (r, w')) ∨
      (o.interruptible = true ∧ r = .error .cancelled ∧
        (w' = w ∨ ∃ reply r', effect t w o reply = some (r', w'))) := by
  cases h with
  | done h => exact .inl ⟨_, h⟩
  | cancelled hi => exact .inr ⟨hi, rfl, .inl rfl⟩
  | cancelledLate hi h => exact .inr ⟨hi, rfl, .inr ⟨_, _, h⟩⟩

theorem Perform.rows (h : Perform t w o r w') :
    (∃ ws, o = .commit ws ∧ w' = (w.apply ws).release t) ∨ SameRows w w' := by
  rcases h.effect_or with ⟨_, h⟩ | ⟨-, -, rfl | ⟨_, _, h⟩⟩
  · exact effect_rows h
  · exact .inr (.refl _)
  · exact effect_rows h

/-- Time passes between the awaits only. -/
theorem Perform.clock (h : Perform t w o r w') : w'.clock = w.clock := by
  have heffect : ∀ {reply r : Except Exc o.Val}, effect t w o reply = some (r, w') →
      w'.clock = w.clock := by
    intro reply r he
    by_cases hs : o.still = true
    · rw [effect_still hs he]
    · by_cases hl : o.locking = true
      · obtain ⟨_, _, _, _, _, rfl⟩ := effect_locking hl he
        rfl
      · cases o <;> simp [Op.locking] at hl <;> simp [Op.still, Op.locking] at hs
        case flushIdentity a g =>
          simp only [effect, flushIdentity] at he
          (repeat' split at he) <;> cases he <;> rfl
        all_goals
          cases he
          rfl
  rcases h.effect_or with ⟨_, he⟩ | ⟨-, -, rfl | ⟨_, _, he⟩⟩
  · exact heffect he
  · rfl
  · exact heffect he

theorem Perform.committed {ws : Writes} {r : Except Exc (Op.commit (T := T) ws).Val}
    (h : Perform t w (.commit ws) r w') (hr : r = .ok ()) : w' = (w.apply ws).release t := by
  rcases h.effect_or with ⟨_, h⟩ | ⟨-, he, -⟩
  · cases h
    rfl
  · rw [hr] at he
    cases he

section Plans

theorem get_updatePlan (plans : Table PlanId ActionPlan) (u : PlanId × PlanUpdate) (p : PlanId) :
    (updatePlan plans u).get p = if p = u.1 then (plans.get u.1).map u.2.apply else plans.get p :=
  Table.get_update ..

/-- The updates of a session change rows, but neither add any nor change what they were created
with. -/
theorem creation_foldl (us : List (PlanId × PlanUpdate)) (plans : Table PlanId ActionPlan)
    (p : PlanId) :
    ((us.foldl updatePlan plans).get p).map ActionPlan.creation =
      (plans.get p).map ActionPlan.creation := by
  induction us generalizing plans with
  | nil => rfl
  | cons u us ih =>
    rw [List.foldl_cons, ih, get_updatePlan]
    by_cases hp : p = u.1
    · subst hp
      rw [if_pos rfl, Option.map_map]
      congr 1
      funext plan
      exact PlanUpdate.apply_creation u.2 plan
    · rw [if_neg hp]

end Plans

section Apply

@[simp] theorem store_none {κ ρ : Type} (rows : Table κ ρ) : store rows none = rows := rfl

/-- At most one key of the table is written. -/
theorem get_store {κ ρ : Type} [DecidableEq κ] (rows : Table κ ρ) (row : Option (κ × ρ)) (k : κ) :
    ((store rows row).get k = rows.get k ∧ ∀ x, row ≠ some (k, x)) ∨
      ∃ x, row = some (k, x) ∧ (store rows row).get k = some x := by
  cases row with
  | none => exact .inl ⟨rfl, fun _ => (Option.some_ne_none _).symm⟩
  | some row =>
    obtain ⟨k', x⟩ := row
    have hget : (store rows (some (k', x))).get k = if k = k' then some x else rows.get k :=
      Table.get_set ..
    by_cases hk : k = k'
    · subst hk
      exact .inr ⟨x, rfl, by rw [hget, if_pos rfl]⟩
    · refine .inl ⟨by rw [hget, if_neg hk], ?_⟩
      rintro y h
      cases h
      exact hk rfl

theorem get_apply_accounts (w : World) (ws : Writes) (a : AccountId) :
    ((w.apply ws).accounts.get a = w.accounts.get a ∧ ∀ row, ws.account ≠ some (a, row)) ∨
      ∃ row, ws.account = some (a, row) ∧ (w.apply ws).accounts.get a = some row :=
  get_store w.accounts ws.account a

theorem get_apply_plans (w : World) (ws : Writes) (p : PlanId) :
    ((w.apply ws).plans.get p).map ActionPlan.creation = (w.plans.get p).map ActionPlan.creation ∨
      ∃ plan, ws.newPlan = some (p, plan) ∧ (w.apply ws).plans.get p = some plan := by
  rcases get_store (ws.plans.foldl updatePlan w.plans) ws.newPlan p with ⟨h, -⟩ | h
  · left
    exact (congrArg _ h).trans (creation_foldl ws.plans w.plans p)
  · exact .inr h

end Apply

end World

section Calls

variable {T : Type} {P : Ports} {c c' : Config (machine T P)}

theorem task_stays (h : Step c c') {t : TaskId} {U : Task (machine T P)} (ht : c.task t = some U) :
    ∃ U', c'.task t = some U' ∧ U'.call = U.call := by
  cases h with
  | spawn u call hu =>
    have hne : t ≠ u := by
      rintro rfl
      rw [hu] at ht
      cases ht
    exact ⟨U, by rw [Config.setTask_ne _ _ hne, ht], rfl⟩
  | @exec u V o k r w' hu ha hp hw =>
    by_cases hne : t = u
    · subst hne
      rw [hu] at ht
      cases ht
      exact ⟨_, Config.setTask_self .., rfl⟩
    · exact ⟨U, by rw [Config.setTask_ne _ _ hne]; exact ht, rfl⟩
  | @crash u V hu ha =>
    by_cases hne : t = u
    · subst hne
      rw [hu] at ht
      cases ht
      exact ⟨_, Config.setTask_self .., rfl⟩
    · exact ⟨U, by rw [Config.setTask_ne _ _ hne]; exact ht, rfl⟩
  | env _ => exact ⟨U, ht, rfl⟩

end Calls

end PlaceGame
