import PlaceGame.Accounts.CallsSafe
import PlaceGame.Steps

/-!
# PlaceGame.Accounts.Safety

The invariant of account safety over all runs.

`Matches` ties what a task has learnt to the shared world: the row it holds is locked and is still
the row of the table, its fresh identifier is unused, its flushed identity is reserved. `Kept` is
what a step of another task leaves to it. From both, `row_step` says how an account row can change
at all.
-/

namespace PlaceGame

open Coop

/-- What the tables always satisfy. -/
structure World.Sound (w : World) : Prop where
  ids : ∀ a r, w.accounts.get a = some r → a < w.nextId
  planIds : ∀ p plan, w.plans.get p = some plan → p < w.nextId
  /-- The unique constraint on `game_account_id`. -/
  unique : ∀ a b r r' g, w.accounts.get a = some r → w.accounts.get b = some r' →
    r.gameAccountId = some g → r'.gameAccountId = some g → a = b
  /-- A flushed identity is of no other row. -/
  reserved : ∀ t a g, (t, a, g) ∈ w.flushed → ∀ b r, w.accounts.get b = some r →
    r.gameAccountId = some g → b = a
  once : ∀ t u a b g, (t, a, g) ∈ w.flushed → (u, b, g) ∈ w.flushed → t = u

theorem World.sound_empty : ({} : World).Sound where
  ids a r h := by cases h
  planIds p plan h := by cases h
  unique a b r r' g h := by cases h
  reserved t a g h := by cases h
  once t u a b g h := by cases h

structure Matches (t : TaskId) (m : Local) (w : World) : Prop where
  row : ∀ a r, m.row = some (a, r) → w.accountRows a = some t ∧ w.accounts.get a = some r
  policy : ∀ a v r, m.policy = some (a, v) → m.row = some (a, r) → v.version = r.policyVersion
  plan : ∀ p plan, m.plan = some (p, plan) →
    (w.plans.get p).map ActionPlan.creation = some plan.creation
  planRow : ∀ p plan now, m.planRow = some (p, plan, now) →
    (w.plans.get p).map ActionPlan.creation = some plan.creation
  fresh : ∀ id, m.fresh = some id →
    id < w.nextId ∧ w.accounts.get id = none ∧ w.plans.get id = none
  flushed : ∀ a g, m.flushed = some (a, g) → (t, a, g) ∈ w.flushed

/-- The world moves without touching what the task relies on. -/
structure Kept (t : TaskId) (m : Local) (w w' : World) : Prop where
  row : ∀ a r, w.accountRows a = some t → w.accounts.get a = some r →
    w'.accountRows a = some t ∧ w'.accounts.get a = some r
  plan : ∀ p plan, (w.plans.get p).map ActionPlan.creation = some plan →
    (w'.plans.get p).map ActionPlan.creation = some plan
  fresh : ∀ id, m.fresh = some id → id < w.nextId ∧ w.accounts.get id = none ∧
    w.plans.get id = none → id < w'.nextId ∧ w'.accounts.get id = none ∧ w'.plans.get id = none
  flushed : ∀ a g, (t, a, g) ∈ w.flushed → (t, a, g) ∈ w'.flushed

section Matches

variable {t : TaskId} {m : Local} {w w' : World}

theorem Matches.init : Matches t {} w := by
  constructor <;> simp

theorem Matches.kept (h : Matches t m w) (hk : Kept t m w w') : Matches t m w' where
  row a r hr := hk.row a r (h.row a r hr).1 (h.row a r hr).2
  policy := h.policy
  plan p plan hp := hk.plan p _ (h.plan p plan hp)
  planRow p plan now hp := hk.plan p _ (h.planRow p plan now hp)
  fresh id hid := hk.fresh id hid (h.fresh id hid)
  flushed a g hf := hk.flushed a g (h.flushed a g hf)

theorem Kept.refl : Kept t m w w := ⟨fun _ _ h h' => ⟨h, h'⟩, fun _ _ h => h, fun _ _ h => h,
  fun _ _ h => h⟩

end Matches

section Effect

variable {T : Type} {P : Ports} {call : Call} {t u : TaskId} {m n : Local} {w w' : World}
variable {o : Op T} {reply r : Except Exc o.Val}

theorem Matches.closed (h : Matches t m w) : Matches t m.closed w where
  row := by simp [Local.closed]
  policy := by simp [Local.closed]
  plan := by simp [Local.closed]
  planRow := h.planRow
  fresh := by simp [Local.closed]
  flushed := by simp [Local.closed]

/-- Outside a commit the tables stay, and the task loses nothing it holds. -/
theorem kept_of_running (he : o.ends = false) (h : World.effect t w o reply = some (r, w')) :
    Kept u n w w' := by
  by_cases hs : o.still = true
  · rw [World.effect_still hs h]
    exact Kept.refl
  · cases o <;> simp [Op.still, Op.locking] at hs <;> simp only [World.effect] at h
    case uuid =>
      cases h
      exact ⟨fun _ _ h h' => ⟨h, h'⟩, fun _ _ h => h,
        fun _ _ h => ⟨Nat.lt_succ_of_lt h.1, h.2⟩, fun _ _ h => h⟩
    case accountLock a =>
      split at h <;> cases h
      exact ⟨fun _ _ h h' => ⟨h, h'⟩, fun _ _ h => h, fun _ _ h => h, fun _ _ h => h⟩
    case identityLock g =>
      split at h <;> cases h
      exact ⟨fun _ _ h h' => ⟨h, h'⟩, fun _ _ h => h, fun _ _ h => h, fun _ _ h => h⟩
    case tryExecutionGuard a =>
      split at h <;> cases h
      · exact ⟨fun _ _ h h' => ⟨h, h'⟩, fun _ _ h => h, fun _ _ h => h, fun _ _ h => h⟩
      · exact Kept.refl
    case executionUnlock a =>
      cases h
      split
      · exact ⟨fun _ _ h h' => ⟨h, h'⟩, fun _ _ h => h, fun _ _ h => h, fun _ _ h => h⟩
      · exact Kept.refl
    case accountForUpdate a =>
      split at h
      · cases h
        exact Kept.refl
      · rename_i account hget
        split at h <;> cases h
        rename_i hav
        refine ⟨fun b _ hb h' => ⟨?_, h'⟩, fun _ _ h => h, fun _ _ h => h, fun _ _ h => h⟩
        by_cases hu : u = t
        · subst hu
          exact Locks.take_mono hb
        · exact (Locks.take_other hav hu).mpr hb
    case flushIdentity a g =>
      unfold World.flushIdentity at h
      split at h
      · cases h
      · split at h <;> cases h
        · exact Kept.refl
        · exact ⟨fun _ _ h h' => ⟨h, h'⟩, fun _ _ h => h, fun _ _ h => h,
            fun _ _ h => List.mem_cons_of_mem _ h⟩
    case planForUpdate p a =>
      split at h
      · cases h
        exact Kept.refl
      · split at h
        · cases h
          exact Kept.refl
        · split at h <;> cases h
          exact ⟨fun _ _ h h' => ⟨h, h'⟩, fun _ _ h => h, fun _ _ h => h, fun _ _ h => h⟩
    case commit ws => simp [Op.ends] at he
    case rollback => simp [Op.ends] at he

/-- Two tasks have not drawn the same identifier. -/
def Apart (m n : Local) : Prop := ∀ id, m.fresh = some id → n.fresh ≠ some id

theorem creation_of_commit {ws : Writes} {p : PlanId} {plan : PlanCreation}
    (hok : m.CommitOk call ws) (hm : Matches t m w)
    (hget : (w.plans.get p).map ActionPlan.creation = some plan) :
    ((w.apply ws).plans.get p).map ActionPlan.creation = some plan := by
  rcases World.get_apply_plans w ws p with h | ⟨new, hnew, -⟩
  · exact h.trans hget
  · rw [(hm.fresh p (hok.2.2 p new hnew)).2.2] at hget
    cases hget

/-- A commit writes only what its task holds: the other tasks keep what they rely on. -/
theorem kept_of_commit {ws : Writes} (hok : m.CommitOk call ws) (hm : Matches t m w)
    (hd : Apart n m) (hu : u ≠ t) : Kept u n w ((w.apply ws).release t) := by
  obtain ⟨haccount, -, hplan⟩ := id hok
  constructor
  · intro a r hlock hget
    refine ⟨(Locks.release_other hu).mpr hlock, ?_⟩
    rcases World.get_apply_accounts w ws a with ⟨h, -⟩ | ⟨row, hrow, -⟩
    · exact h.trans hget
    · exfalso
      rcases haccount a row hrow with ⟨r₀, hr₀, -⟩ | ⟨henrolled, -⟩
      · have := (hm.row a r₀ hr₀).1
        rw [hlock] at this
        exact hu (Option.some.inj this)
      · have := (hm.fresh a henrolled.fresh).2.1
        rw [hget] at this
        cases this
  · exact fun p plan hget => creation_of_commit hok hm hget
  · rintro id hid ⟨hlt, hfree, hfreePlan⟩
    refine ⟨hlt, ?_, ?_⟩
    · rcases World.get_apply_accounts w ws id with ⟨h, -⟩ | ⟨row, hrow, -⟩
      · exact h.trans hfree
      · exfalso
        rcases haccount id row hrow with ⟨r₀, hr₀, -⟩ | ⟨henrolled, -⟩
        · have := (hm.row id r₀ hr₀).2
          rw [hfree] at this
          cases this
        · exact hd id hid henrolled.fresh
    · rcases World.get_apply_plans w ws id with h | ⟨new, hnew, -⟩
      · rw [hfreePlan] at h
        exact Option.map_eq_none_iff.mp h
      · exact absurd (hplan id new hnew) (hd id hid)
  · intro a g hf
    exact List.mem_filter.mpr ⟨hf, by simpa using hu⟩

theorem kept_of_release (hu : u ≠ t) : Kept u n w (w.release t) := by
  refine ⟨?_, fun _ _ h => h, fun _ _ h => h, ?_⟩
  · intro a r hlock hget
    exact ⟨(Locks.release_other hu).mpr hlock, hget⟩
  · intro a g hf
    exact List.mem_filter.mpr ⟨hf, by simpa using hu⟩

theorem next_error (e : Exc) : m.next o (.error e) = m ∨ m.next o (.error e) = m.closed := by
  unfold Local.next
  split <;> simp_all

theorem Matches.error (h : Matches t m w) (e : Exc) : Matches t (m.next o (.error e)) w := by
  rcases next_error (m := m) (o := o) e with hn | hn
  · rw [hn]
    exact h
  · rw [hn]
    exact h.closed

/-- After its end, a transaction is left with the plan it has seen. -/
theorem Matches.ended (hm : Matches t m w) (he : o.ends = true)
    (hp : ∀ p plan, (w.plans.get p).map ActionPlan.creation = some plan →
      (w'.plans.get p).map ActionPlan.creation = some plan) : Matches t (m.next o r) w' := by
  cases o <;> simp [Op.ends] at he <;> cases r <;>
    exact ⟨by simp [Local.next, Local.closed], by simp [Local.next, Local.closed],
      by simp [Local.next, Local.closed], fun p plan now h => hp p _ (hm.planRow p plan now h),
      by simp [Local.next, Local.closed], by simp [Local.next, Local.closed]⟩

theorem version_of_versioned {account : GameAccount} {row : Option PolicyRow} {v : VersionedPolicy}
    (h : versioned account row = .ok v) : v.version = account.policyVersion := by
  unfold versioned at h
  split at h
  · split at h <;> cases h
    rename_i hv
    exact hv.symm
  · split at h
    · split at h
      · split at h <;> cases h
        rfl
      · cases h
    · cases h

/-- What the await answered is so, in the world after it. -/
theorem Matches.learn (hm : Matches t m w) (hw : w.Sound) (he : o.ends = false)
    (h : World.effect t w o reply = some (r, w')) : Matches t (m.next o r) w' := by
  have hk : Matches t m w' := hm.kept (kept_of_running he h)
  cases r with
  | error e => exact hk.error e
  | ok v =>
    cases o with
    | uuid =>
      cases h
      refine ⟨hk.row, hk.policy, hk.plan, hk.planRow, ?_, hk.flushed⟩
      rintro id ⟨⟩
      refine ⟨Nat.lt_succ_self _, ?_, ?_⟩
      · cases hget : w.accounts.get w.nextId with
        | none => rfl
        | some r => exact absurd (hw.ids _ _ hget) (Nat.lt_irrefl _)
      · cases hget : w.plans.get w.nextId with
        | none => rfl
        | some plan => exact absurd (hw.planIds _ _ hget) (Nat.lt_irrefl _)
    | accountForUpdate a =>
      simp only [World.effect] at h
      cases v with
      | none => exact hk
      | some account =>
        split at h
        · cases h
        · rename_i account' hget
          split at h <;> cases h
          refine ⟨?_, by simp [Local.next], by simp [Local.next], hk.planRow, hk.fresh, hk.flushed⟩
          intro b r hr
          simp only [Local.next, Local.lockedRow] at hr
          cases hrow : m.row with
          | none =>
            rw [hrow] at hr
            cases hr
            exact ⟨Locks.take_self .., hget⟩
          | some row =>
            rw [hrow] at hr
            by_cases ha : row.1 = a
            · simp only [ha, if_true] at hr
              cases hr
              exact hk.row _ _ (by rw [hrow, ← ha])
            · simp only [ha, if_false] at hr
              cases hr
              exact ⟨Locks.take_self .., hget⟩
    | flushIdentity a g =>
      simp only [World.effect, World.flushIdentity] at h
      split at h
      · cases h
      · split at h <;> cases h
        · exact hk
        · refine ⟨hk.row, hk.policy, hk.plan, hk.planRow, hk.fresh, ?_⟩
          rintro b g' ⟨⟩
          exact List.mem_cons_self
    | policyGet a =>
      simp only [World.effect] at h
      have hv : w.policyGet a = .ok v := (Prod.mk.inj (Option.some.inj h)).1
      cases (Prod.mk.inj (Option.some.inj h)).2
      refine ⟨hk.row, ?_, hk.plan, hk.planRow, hk.fresh, hk.flushed⟩
      rintro b v' r ⟨⟩ hr
      unfold World.policyGet at hv
      rw [(hk.row _ _ hr).2] at hv
      exact version_of_versioned hv
    | getPlan p =>
      cases h
      cases hget : w.plans.get p with
      | none => exact hk
      | some plan =>
        refine ⟨hk.row, hk.policy, ?_, hk.planRow, hk.fresh, hk.flushed⟩
        rintro q plan' ⟨⟩
        rw [hget]
        rfl
    | planForUpdate p a =>
      simp only [World.effect] at h
      cases v with
      | none => exact hk
      | some plan =>
        split at h
        · cases h
        · rename_i plan' hget
          split at h
          · cases h
          · split at h <;> cases h
            refine ⟨hk.row, hk.policy, hk.plan, ?_, hk.fresh, hk.flushed⟩
            rintro q plan' now ⟨⟩
            rw [hget]
            rfl
    | stateFingerprint p api =>
      cases v with
      | none => exact hk
      | some fingerprint =>
        exact ⟨hk.row, hk.policy, hk.plan, hk.planRow, hk.fresh, hk.flushed⟩
    | commit ws => cases he
    | rollback => cases he
    | _ => exact ⟨hk.row, hk.policy, hk.plan, hk.planRow, hk.fresh, hk.flushed⟩

theorem sound_flushIdentity {a : AccountId} {g : String} {r : Except Exc Bool} (hw : w.Sound)
    (h : w.flushIdentity t a g = some (r, w')) : w'.Sound := by
  unfold World.flushIdentity at h
  split at h
  · cases h
  · rename_i hnone
    have hfree : ∀ u b, (u, b, g) ∈ w.flushed → u = t := by
      intro u b hmem
      by_contra hne
      exact hnone (List.any_eq_true.mpr ⟨_, hmem, by simp [hne]⟩)
    split at h <;> cases h
    · exact hw
    · rename_i hfind
      refine ⟨hw.ids, hw.planIds, hw.unique, ?_, ?_⟩
      · intro u b g' hmem b' r hget hg
        rcases List.mem_cons.mp hmem with heq | hmem
        · cases heq
          by_contra hne
          have := Table.find_none (Option.not_isSome_iff_eq_none.mp hfind) hget
          simp [hne, hg] at this
        · exact hw.reserved u b g' hmem b' r hget hg
      · intro u u' b b' g' hmem hmem'
        rcases List.mem_cons.mp hmem with heq | hmem <;>
          rcases List.mem_cons.mp hmem' with heq' | hmem'
        · cases heq
          cases heq'
          rfl
        · cases heq
          exact (hfree u' b' hmem').symm
        · cases heq'
          exact hfree u b hmem
        · exact hw.once u u' b b' g' hmem hmem'

theorem sound_of_running (hw : w.Sound) (he : o.ends = false)
    (h : World.effect t w o reply = some (r, w')) : w'.Sound := by
  by_cases hs : o.still = true
  · rw [World.effect_still hs h]
    exact hw
  · by_cases hl : o.locking = true
    · obtain ⟨_, _, _, _, _, rfl⟩ := World.effect_locking hl h
      exact ⟨hw.ids, hw.planIds, hw.unique, hw.reserved, hw.once⟩
    · cases o <;> simp [Op.locking] at hl <;> simp [Op.still, Op.locking] at hs
      case uuid =>
        cases h
        exact ⟨fun a r h => Nat.lt_succ_of_lt (hw.ids a r h),
          fun p plan h => Nat.lt_succ_of_lt (hw.planIds p plan h), hw.unique, hw.reserved, hw.once⟩
      case flushIdentity a g => exact sound_flushIdentity hw h
      case commit ws => cases he
      case rollback => cases he

/-- The identity of a row after a commit was the row's before, or the task has it flushed. -/
theorem identity_origin {ws : Writes} {a : AccountId} {r : GameAccount} {g : String}
    (hm : Matches t m w) (hok : m.CommitOk call ws) (hws : ws.account = some (a, r))
    (hg : r.gameAccountId = some g) :
    (∃ r₀, w.accounts.get a = some r₀ ∧ r₀.gameAccountId = some g) ∨ (t, a, g) ∈ w.flushed := by
  rcases hok.1 a r hws with ⟨r₀, hr₀, hid, -⟩ | ⟨henrolled, -⟩
  · rw [hid] at hg
    unfold Local.identity at hg
    cases hold : r₀.gameAccountId with
    | some g' =>
      rw [hold] at hg
      cases hg
      exact .inl ⟨r₀, (hm.row a r₀ hr₀).2, hold⟩
    | none =>
      rw [hold, Option.none_or] at hg
      obtain ⟨f, hf, hg⟩ := Option.bind_eq_some_iff.mp hg
      split at hg
      · rename_i ha
        cases hg
        exact .inr (hm.flushed a f.2 (by rw [hf, ← ha]))
      · cases hg
  · obtain ⟨g', hf, hg'⟩ := henrolled.identity
    rw [hg'] at hg
    cases hg
    exact .inr (hm.flushed a g hf)

theorem committed_id {ws : Writes} {a : AccountId} {r : GameAccount} (hw : w.Sound)
    (hm : Matches t m w) (hok : m.CommitOk call ws) (hws : ws.account = some (a, r)) :
    a < w.nextId := by
  rcases hok.1 a r hws with ⟨r₀, hr₀, -⟩ | ⟨henrolled, -⟩
  · exact hw.ids a r₀ (hm.row a r₀ hr₀).2
  · exact (hm.fresh a henrolled.fresh).1

theorem sound_of_commit {ws : Writes} (hw : w.Sound) (hm : Matches t m w)
    (hok : m.CommitOk call ws) : ((w.apply ws).release t).Sound := by
  constructor
  · intro a r hget
    rcases World.get_apply_accounts w ws a with ⟨h, -⟩ | ⟨row, hr, -⟩
    · exact hw.ids a r (h.symm.trans hget)
    · have hlt : a < w.nextId := committed_id hw hm hok hr
      exact hlt
  · intro p plan hget
    rcases World.get_apply_plans w ws p with h | ⟨new, hnew, -⟩
    · have : ((w.apply ws).plans.get p).map ActionPlan.creation = some plan.creation :=
        congrArg (Option.map ActionPlan.creation) hget
      rw [h] at this
      obtain ⟨old, hold, -⟩ := Option.map_eq_some_iff.mp this
      exact hw.planIds p old hold
    · exact (hm.fresh p (hok.2.2 p new hnew)).1
  · intro a b r r' g ha hb hg hg'
    rcases World.get_apply_accounts w ws a with ⟨h, -⟩ | ⟨row, hr, hrow⟩ <;>
      rcases World.get_apply_accounts w ws b with ⟨h', -⟩ | ⟨row', hr', hrow'⟩
    · exact hw.unique a b r r' g (h.symm.trans ha) (h'.symm.trans hb) hg hg'
    · cases hrow'.symm.trans hb
      rcases identity_origin hm hok hr' hg' with ⟨r₀, hr₀, hg₀⟩ | hf
      · exact hw.unique a b r r₀ g (h.symm.trans ha) hr₀ hg hg₀
      · exact hw.reserved t b g hf a r (h.symm.trans ha) hg
    · cases hrow.symm.trans ha
      rcases identity_origin hm hok hr hg with ⟨r₀, hr₀, hg₀⟩ | hf
      · exact hw.unique a b r₀ r' g hr₀ (h'.symm.trans hb) hg₀ hg'
      · exact (hw.reserved t a g hf b r' (h'.symm.trans hb) hg').symm
    · rw [hr] at hr'
      cases hr'
      rfl
  · intro u b g hmem b' r hget hg
    obtain ⟨hmem, hne⟩ := List.mem_filter.mp hmem
    rcases World.get_apply_accounts w ws b' with ⟨h, -⟩ | ⟨row, hr, hrow⟩
    · exact hw.reserved u b g hmem b' r (h.symm.trans hget) hg
    · cases hrow.symm.trans hget
      rcases identity_origin hm hok hr hg with ⟨r₀, hr₀, hg₀⟩ | hf
      · exact hw.reserved u b g hmem b' r₀ hr₀ hg₀
      · have := hw.once u t b b' g hmem hf
        simp [this] at hne
  · intro u u' b b' g hmem hmem'
    exact hw.once u u' b b' g (List.mem_filter.mp hmem).1 (List.mem_filter.mp hmem').1

theorem sound_of_release (hw : w.Sound) : (w.release t).Sound :=
  ⟨hw.ids, hw.planIds, hw.unique,
    fun u a g h => hw.reserved u a g (List.mem_filter.mp h).1,
    fun u u' a b g h h' => hw.once u u' a b g (List.mem_filter.mp h).1 (List.mem_filter.mp h').1⟩

end Effect

section Runs

variable {T : Type} {P : Ports} {c₀ c c' : Config (machine T P)} {t : TaskId}
variable {U : Task (machine T P)}

def seen (U : Task (machine T P)) : Local := (watch T P U.call).after U.hist

/-- The invariant of every run. -/
structure Safe (c : Config (machine T P)) : Prop where
  sound : c.world.Sound
  matches_ : ∀ t U, c.task t = some U → U.alive = true → Matches t (seen U) c.world
  apart : ∀ t u U V, t ≠ u → c.task t = some U → U.alive = true → c.task u = some V →
    V.alive = true → Apart (seen U) (seen V)

theorem Safe.start {w : World} (hw : w.Sound) : Safe (.start w : Config (machine T P)) := by
  refine ⟨hw, ?_, ?_⟩
  · intro t U h
    cases h
  · intro t u U V _ h
    cases h

/-- The fresh identifier is kept, given up, or drawn now. -/
theorem fresh_of_perform {m : Local} {w w' : World} {o : Op T} {r : Except Exc o.Val} {id : Nat}
    (hw : World.Perform t w o r w') (h : (m.next o r).fresh = some id) :
    m.fresh = some id ∨ id = w.nextId := by
  cases r with
  | error e =>
    rcases next_error (m := m) (o := o) e with hn | hn
    · rw [hn] at h
      exact .inl h
    · rw [hn] at h
      simp [Local.closed] at h
  | ok v =>
    cases o with
    | uuid =>
      cases hw with
      | done hw =>
        cases hw
        cases h
        exact .inr rfl
    | accountForUpdate a => cases v <;> exact .inl h
    | flushIdentity a g => cases v <;> exact .inl h
    | getPlan p => cases v <;> exact .inl h
    | planForUpdate p a => cases v <;> exact .inl h
    | stateFingerprint p api => cases v <;> exact .inl h
    | commit ws => simp [Local.next, Local.closed] at h
    | rollback => simp [Local.next, Local.closed] at h
    | _ => exact .inl h

/-- What a finished await leaves to the tables, to its task and to the others. -/
theorem Safe.perform (hs : Safe c) {o : Op T} {r : Except Exc o.Val} {w' : World}
    (ht : c.task t = some U) (ha : U.alive = true) (hok : (seen U).ok P U.call o)
    (hw : World.Perform t c.world o r w') :
    w'.Sound ∧ Matches t ((seen U).next o r) w' ∧
      ∀ u V, u ≠ t → c.task u = some V → V.alive = true → Kept u (seen V) c.world w' := by
  have hm := hs.matches_ t U ht ha
  by_cases he : o.ends = true
  · -- the transaction ended, or the cancellation came before
    have hafter : w' = c.world ∨ (∃ ws, o = .commit ws ∧ w' = (c.world.apply ws).release t) ∨
        w' = c.world.release t := by
      cases o <;> simp [Op.ends] at he <;>
        rcases hw.effect_or with ⟨reply, h⟩ | ⟨-, -, h | ⟨reply, r', h⟩⟩
      case commit.inl => cases h; exact .inr (.inl ⟨_, rfl, rfl⟩)
      case commit.inr.inl => exact .inl h
      case commit.inr.inr => cases h; exact .inr (.inl ⟨_, rfl, rfl⟩)
      case rollback.inl => cases h; exact .inr (.inr rfl)
      case rollback.inr.inl => exact .inl h
      case rollback.inr.inr => cases h; exact .inr (.inr rfl)
    rcases hafter with rfl | ⟨ws, rfl, rfl⟩ | rfl
    · exact ⟨hs.sound, hm.ended he fun _ _ h => h, fun _ _ _ _ _ => Kept.refl⟩
    · exact ⟨sound_of_commit hs.sound hm hok,
        hm.ended he fun _ _ h => creation_of_commit hok hm h,
        fun u V hu hV hv => kept_of_commit hok hm (hs.apart u t V U hu hV hv ht ha) hu⟩
    · exact ⟨sound_of_release hs.sound, hm.ended he fun _ _ h => h,
        fun _ _ hu _ _ => kept_of_release hu⟩
  · have he : o.ends = false := by simpa using he
    rcases hw.effect_or with ⟨reply, h⟩ | ⟨hi, rfl, rfl | ⟨reply, r', h⟩⟩
    · exact ⟨sound_of_running hs.sound he h, hm.learn hs.sound he h,
        fun _ _ _ _ _ => kept_of_running he h⟩
    · exact ⟨hs.sound, hm.error _, fun _ _ _ _ _ => Kept.refl⟩
    · exact ⟨sound_of_running hs.sound he h, (hm.kept (kept_of_running he h)).error _,
        fun _ _ _ _ _ => kept_of_running he h⟩

theorem Safe.exec (hs : Safe c) {o : Op T} {r : Except Exc o.Val} {w' : World}
    {p : Proc (sig T) (Except Exc (Returned T))} (ht : c.task t = some U) (ha : U.alive = true)
    (hok : (seen U).ok P U.call o) (hw : World.Perform t c.world o r w') :
    Safe ({ c with world := w' }.setTask t (U.advance o r p)) := by
  obtain ⟨hsound, hmatches, hkept⟩ := hs.perform ht ha hok hw
  -- the stepping task and another one have drawn different identifiers
  have hapart : ∀ u V, u ≠ t → c.task u = some V → V.alive = true →
      ∀ id, ((seen U).next o r).fresh = some id → (seen V).fresh ≠ some id := by
    intro u V hu hV hv id hid hid'
    rcases fresh_of_perform hw hid with h | rfl
    · exact hs.apart t u U V hu.symm ht ha hV hv id h hid'
    · exact absurd ((hs.matches_ u V hV hv).fresh _ hid').1 (Nat.lt_irrefl _)
  refine ⟨hsound, ?_, ?_⟩
  · intro u V hu hv
    rw [Config.setTask_task] at hu
    split at hu
    · rename_i heq
      cases hu
      rw [heq]
      exact hmatches
    · rename_i hne
      exact (hs.matches_ u V hu hv).kept (hkept u V hne hu hv)
  · intro u v V W hne hV hv hW hw'
    rw [Config.setTask_task] at hV hW
    split at hV
    · rename_i hu
      cases hV
      subst hu
      rw [if_neg (Ne.symm hne)] at hW
      exact hapart v W (Ne.symm hne) hW hw'
    · rename_i hu
      split at hW
      · rename_i hv'
        cases hW
        intro id hid hid'
        exact hapart u V hu hV hv id hid' hid
      · exact hs.apart u v V W hne hV hv hW hw'

theorem Safe.crash (hs : Safe c) :
    Safe ({ c with world := c.world.crash t }.setTask t { U with alive := false }) := by
  have hother : ∀ u V, (({ c with world := c.world.crash t } : Config (machine T P)).setTask t
      { U with alive := false }).task u = some V → V.alive = true → u ≠ t ∧ c.task u = some V := by
    intro u V hV hv
    rw [Config.setTask_task] at hV
    split at hV
    · cases hV
      cases hv
    · rename_i hu
      exact ⟨hu, hV⟩
  have hr := sound_of_release (t := t) hs.sound
  refine ⟨⟨hr.ids, hr.planIds, hr.unique, hr.reserved, hr.once⟩, ?_, ?_⟩
  · intro u V hV hv
    obtain ⟨hu, hV⟩ := hother u V hV hv
    have hk : Kept u (seen V) c.world (c.world.release t) := kept_of_release hu
    exact (hs.matches_ u V hV hv).kept ⟨hk.row, hk.plan, hk.fresh, hk.flushed⟩
  · intro u v V W hne hV hv hW hw
    exact hs.apart u v V W hne (hother u V hV hv).2 hv (hother v W hW hw).2 hw

theorem Safe.spawn (hs : Safe c) (call : Call) :
    Safe (c.setTask t { call := call, prog := (machine T P).prog call }) := by
  have hnew : ∀ p, seen ({ call := call, prog := p } : Task (machine T P)) = {} := fun _ => rfl
  refine ⟨hs.sound, ?_, ?_⟩
  · intro u V hV hv
    rw [Config.setTask_task] at hV
    split at hV
    · cases hV
      rw [hnew]
      exact Matches.init
    · exact hs.matches_ u V hV hv
  · intro u v V W hne hV hv hW hw
    rw [Config.setTask_task] at hV hW
    split at hV
    · cases hV
      rw [hnew]
      intro id hid
      cases hid
    · split at hW
      · cases hW
        rw [hnew]
        intro id _ hid
        cases hid
      · exact hs.apart u v V W hne hV hv hW hw

theorem Safe.env {w' : World} (hs : Safe c) (h : World.Env c.world w') :
    Safe { c with world := w' } := by
  cases h <;>
    exact ⟨⟨hs.sound.ids, hs.sound.planIds, hs.sound.unique, hs.sound.reserved, hs.sound.once⟩,
      fun t U ht ha => (hs.matches_ t U ht ha).kept
        ⟨fun _ _ h h' => ⟨h, h'⟩, fun _ _ h => h, fun _ _ h => h, fun _ _ h => h⟩, hs.apart⟩

variable {w : World}

theorem allowed (h : Reachable (.start w) c) (ht : c.task t = some U) {o : Op T}
    {k : Except Exc o.Val → Proc (sig T) (Except Exc (Returned T))} (hp : U.prog = .call o k) :
    (seen U).ok P U.call o :=
  Reachable.Follows.allowed (M := watch T P) (Reachable.follows watched h t U ht) hp

theorem allowed_pending (h : Reachable (.start w) c) (ht : c.task t = some U) {o : Op T}
    (hp : U.pending = some o) : (seen U).ok P U.call o := by
  obtain ⟨k, hk⟩ := Task.pending_eq hp
  exact allowed h ht hk

/-- The invariant holds in every run from a sound database without open transactions. -/
theorem safe_of_reachable (hw : w.Sound) (h : Reachable (.start w) c) : Safe c := by
  refine Reachable.invariant h Safe (Safe.start hw) ?_
  intro c c' hr hs hst
  cases hst with
  | spawn t call ht => exact hs.spawn call
  | exec t r ht ha hp hw => exact hs.exec ht ha (allowed hr ht hp) hw
  | crash t ht ha => exact hs.crash
  | env h => exact hs.env h

/-- In this step the task commits the writes. -/
structure Committing (c c' : Config (machine T P)) (t : TaskId) (U : Task (machine T P))
    (ws : Writes) : Prop where
  task : c.task t = some U
  alive : U.alive = true
  next : ∃ k, U.prog = .call (.commit ws) k
  after : ∃ r p, c'.task t = some (U.advance (.commit ws) r p)

/-- How a step can change an account row: a task commits a row that it found and held since, or
enrols a new one. -/
inductive RowEdit (c c' : Config (machine T P)) (a : AccountId) (r : GameAccount) : Prop where
  | changed {t : TaskId} {U : Task (machine T P)} {ws : Writes} {r₀ : GameAccount}
      (commit : Committing c c' t U ws) (writes : ws.account = some (a, r))
      (found : c.world.accounts.get a = some r₀)
      (identity : r.gameAccountId = (seen U).identity a r₀)
      (change : Local.Change U.call a r₀ r)
      (token : (seen U).TokenWrite ws.sessionToken r₀.sessionToken r)
  | enrolled {t : TaskId} {U : Task (machine T P)} {ws : Writes}
      (commit : Committing c c' t U ws) (writes : ws.account = some (a, r))
      (found : c.world.accounts.get a = none) (row : (seen U).Enrolled a r)
      (token : (seen U).TokenWrite ws.sessionToken none r)

theorem row_step (hw : w.Sound) (h : Reachable (.start w) c) (hst : Step c c') (a : AccountId) :
    c'.world.accounts.get a = c.world.accounts.get a ∨
      ∃ r, c'.world.accounts.get a = some r ∧ RowEdit c c' a r := by
  have hs := safe_of_reachable hw h
  cases hst with
  | spawn t call ht => exact .inl rfl
  | @exec t U o k r w' ht ha hp hw' =>
    have hok := allowed h ht hp
    rcases World.Perform.rows hw' with ⟨ws, rfl, rfl⟩ | hrows
    · rcases World.get_apply_accounts c.world ws a with ⟨hsame, -⟩ | ⟨row, hrow, hget⟩
      · exact .inl hsame
      · refine .inr ⟨row, hget, ?_⟩
        have hc : Committing c (({ c with
            world := (c.world.apply ws).release t } : Config (machine T P)).setTask t
              (U.advance (.commit ws) r (k r))) t U ws :=
          ⟨ht, ha, ⟨k, hp⟩, _, _, Config.setTask_self ..⟩
        have hm := hs.matches_ t U ht ha
        have hok : (seen U).CommitOk U.call ws := hok
        rcases hok.1 a row hrow with ⟨r₀, hr₀, hid, hchange, htoken⟩ | ⟨henrolled, htoken⟩
        · exact .changed hc hrow (hm.row a r₀ hr₀).2 hid hchange htoken
        · exact .enrolled hc hrow (hm.fresh a henrolled.fresh).2.1 henrolled htoken
    · exact .inl (congrArg (fun rows => Table.get rows a) hrows.accounts)
  | crash t ht ha => exact .inl rfl
  | env h => cases h <;> exact .inl rfl

end Runs

end PlaceGame
