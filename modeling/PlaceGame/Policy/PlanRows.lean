import PlaceGame.Policy.LedgerSafe

/-!
# PlaceGame.Policy.PlanRows

How a plan row can change.

`Holding` ties the ledger of a task to the shared world: the plan row it has locked is still the row
of the table, and the guard it took is its own. From it, `plan_step` says what a step can do to a
plan: nothing, create it, one update of a row that its writer has locked and checked, or a terminal
state from `mutate`, which looks at what it read before.
-/

namespace PlaceGame

open Coop

variable {T : Type}

/-- What a ledger relies on is still so. -/
structure Holding (t : TaskId) (m : Ledger) (w : World) : Prop where
  locked : ∀ p plan, m.locked = some (p, plan) →
    w.planRows p = some t ∧ w.plans.get p = some plan
  guard : ∀ a, m.guard = some a → w.guards a = some t

section Effect

variable {t u : TaskId} {m n : Ledger} {w w' : World} {o : Op T} {reply r : Except Exc o.Val}

namespace World

theorem effect_plans (he : o.ends = false) (h : effect t w o reply = some (r, w')) :
    w'.plans = w.plans := by
  rcases effect_rows h with ⟨ws, rfl, -⟩ | hrows
  · cases he
  · exact hrows.plans

/-- Plan rows are locked by selecting them. -/
theorem effect_planRows (he : o.ends = false) (h : effect t w o reply = some (r, w')) :
    w'.planRows = w.planRows ∨ ∃ p a, o = .planForUpdate p a ∧
      w.planRows.available t p = true ∧ w'.planRows = w.planRows.take t p := by
  by_cases hs : o.still = true
  · rw [effect_still hs h]
    exact .inl rfl
  · cases o <;> simp [Op.still, Op.locking] at hs <;> simp only [effect, flushIdentity] at h
    case planForUpdate p a =>
      split at h
      · cases h
        exact .inl rfl
      · split at h
        · cases h
          exact .inl rfl
        · split at h <;> cases h
          rename_i hav
          exact .inr ⟨p, a, rfl, hav, rfl⟩
    case commit ws => cases he
    case rollback => cases he
    all_goals (repeat' split at h) <;> first | (cases h; exact .inl rfl) | cases h

/-- The guard is taken while it is free and given back by who holds it. -/
theorem effect_guards (h : effect t w o reply = some (r, w')) :
    w'.guards = w.guards ∨
      (∃ a, o = .tryExecutionGuard a ∧ w.guards a = none ∧ w'.guards = w.guards.take t a) ∨
      ∃ a, o = .executionUnlock a ∧ w.guards a = some t ∧ w'.guards = w.guards.drop a := by
  by_cases hs : o.still = true
  · rw [effect_still hs h]
    exact .inl rfl
  · cases o <;> simp [Op.still, Op.locking] at hs <;> simp only [effect, flushIdentity] at h
    case tryExecutionGuard a =>
      split at h <;> cases h
      · rename_i hfree
        exact .inr (.inl ⟨a, rfl, hfree, rfl⟩)
      · exact .inl rfl
    case executionUnlock a =>
      cases h
      split
      · rename_i hheld
        exact .inr (.inr ⟨a, rfl, hheld, rfl⟩)
      · exact .inl rfl
    all_goals (repeat' split at h) <;> first | (cases h; exact .inl rfl) | cases h

end World

/-- A task keeps its guards in all that another one does, and in its own awaits but the unlock. -/
theorem guards_kept {a : AccountId} (hg : w.guards a = some u) (hu : u ≠ t ∨ ∀ b, o ≠ .executionUnlock b)
    (h : World.effect t w o reply = some (r, w')) : w'.guards a = some u := by
  rcases World.effect_guards h with heq | ⟨b, -, hfree, heq⟩ | ⟨b, ho, hheld, heq⟩
  · rw [heq]
    exact hg
  · rw [heq]
    have hab : a ≠ b := by
      rintro rfl
      rw [hfree] at hg
      cases hg
    simpa [Locks.take, hab] using hg
  · rw [heq]
    have hab : a ≠ b := by
      rintro rfl
      rw [hheld] at hg
      rcases hu with hu | hu
      · exact hu (Option.some.inj hg).symm
      · exact hu _ ho
    simpa [Locks.drop, hab] using hg

theorem Holding.init : Holding t {} w := by
  constructor <;> simp

/-- The world moves without touching the locks of the task. -/
theorem Holding.kept (h : Holding t m w)
    (hl : ∀ p plan, w.planRows p = some t → w.plans.get p = some plan →
      w'.planRows p = some t ∧ w'.plans.get p = some plan)
    (hg : ∀ a, w.guards a = some t → w'.guards a = some t) : Holding t m w' where
  locked p plan hp := hl p plan (h.locked p plan hp).1 (h.locked p plan hp).2
  guard a ha := hg a (h.guard a ha)

/-- Outside a commit, no task loses a plan row that it has locked. -/
theorem rows_kept {p : PlanId} {plan : ActionPlan} (he : o.ends = false)
    (h : World.effect t w o reply = some (r, w')) (hl : w.planRows p = some u)
    (hp : w.plans.get p = some plan) : w'.planRows p = some u ∧ w'.plans.get p = some plan := by
  rw [World.effect_plans he h]
  refine ⟨?_, hp⟩
  rcases World.effect_planRows he h with heq | ⟨q, a, -, hav, heq⟩
  · rw [heq]
    exact hl
  · rw [heq]
    by_cases hu : u = t
    · subst hu
      exact Locks.take_mono hl
    · exact (Locks.take_other hav hu).mpr hl

/-- What a task holds after one of its own awaits that does not end its transaction. -/
theorem Holding.learn (hm : Holding t m w) (he : o.ends = false)
    (h : World.effect t w o reply = some (r, w')) : Holding t (m.next o r) w' := by
  by_cases hu : ∃ b, o = .executionUnlock b
  · obtain ⟨b, rfl⟩ := hu
    refine ⟨fun p plan hp => ?_, fun a h => ?_⟩
    case refine_2 => cases r <;> cases h
    have hlocked : m.locked = some (p, plan) := by cases r <;> exact hp
    exact rows_kept he h (hm.locked p plan hlocked).1 (hm.locked p plan hlocked).2
  · have hkept : Holding t m w' := hm.kept (fun _ _ => rows_kept he h)
      fun a ha => guards_kept ha (.inr fun b hb => hu ⟨b, hb⟩) h
    cases o with
    | tryExecutionGuard a =>
      simp only [World.effect] at h
      split at h <;> cases h
      · refine ⟨hkept.locked, ?_⟩
        rintro b ⟨⟩
        exact Locks.take_self ..
      · exact hkept
    | planForUpdate p a =>
      simp only [World.effect] at h
      split at h
      · cases h
        exact hkept
      · rename_i plan hget
        split at h
        · cases h
          exact hkept
        · split at h <;> cases h
          refine ⟨?_, hkept.guard⟩
          rintro q plan' ⟨⟩
          exact ⟨Locks.take_self .., hget⟩
    | executionUnlock a => exact absurd ⟨a, rfl⟩ hu
    | commit ws => cases he
    | rollback => cases he
    | _ => cases r <;> exact ⟨hkept.locked, hkept.guard⟩

theorem Holding.error (hm : Holding t m w) (e : Exc) : Holding t (m.next o (.error e)) w := by
  cases o with
  | commit ws => exact ⟨fun _ _ h => (by cases h), hm.guard⟩
  | rollback => exact ⟨fun _ _ h => (by cases h), hm.guard⟩
  | executionUnlock a => exact ⟨hm.locked, fun _ h => (by cases h)⟩
  | _ => exact ⟨hm.locked, hm.guard⟩

theorem committed_keeps (us : List (PlanId × PlanUpdate)) :
    (m.committed us).locked = none ∧ (m.committed us).guard = m.guard := by
  unfold Ledger.committed
  split <;> exact ⟨rfl, rfl⟩

/-- After its end a transaction is left with the guard. -/
theorem Holding.ended (hm : Holding t m w) (he : o.ends = true) (hg : w'.guards = w.guards) :
    Holding t (m.next o r) w' := by
  have hguard : ∀ {m' : Ledger}, m'.locked = none → m'.guard = m.guard → Holding t m' w' := by
    intro m' hl hm'
    refine ⟨fun p plan h => ?_, fun a h => ?_⟩
    · rw [hl] at h
      cases h
    · rw [hm'] at h
      rw [hg]
      exact hm.guard a h
  cases o <;> simp [Op.ends] at he
  case commit ws =>
    cases r with
    | error e => exact hguard rfl rfl
    | ok _ => exact hguard (committed_keeps ws.plans).1 (committed_keeps ws.plans).2
  case rollback => cases r <;> exact hguard rfl rfl

end Effect

/-- The row after `PostgresPlanStore.finish`, whatever it was before. -/
def ActionPlan.Ends (plan plan' : ActionPlan) : Prop :=
  ∃ state result at_, state.terminal = true ∧
    plan' = (PlanUpdate.finished state result at_).apply plan

inductive PlanChange (P : Ports) (m : Ledger) (call : Call) (ws : Writes) (p : PlanId) :
    Option ActionPlan → ActionPlan → Prop where
  | created {plan : ActionPlan} (new : ws.newPlan = some (p, plan))
      (pending : plan.executionState = .pending) (drafts : m.Drafts P plan call) :
      PlanChange P m call ws p none plan
  | updated {plan : ActionPlan} {u : PlanUpdate} (writes : ws.plans = [(p, u)])
      (locked : m.locked = some (p, plan)) (single : m.Single call p plan u) :
      PlanChange P m call ws p (some plan) (u.apply plan)
  | mutated {plan plan' : ActionPlan} {args : MutateArgs} (names : call = .mutate args)
      (planId : args.planId = some p) (writes : ws.plans ≠ []) (ends : plan.Ends plan') :
      PlanChange P m call ws p (some plan) plan'

section Commit

variable {P : Ports} {t : TaskId} {m : Ledger} {w : World} {call : Call} {ws : Writes}

/-- Terminal states for one plan leave it as it was, or end it, and leave the others alone. -/
theorem get_finished {p : PlanId} {us : List (PlanId × PlanUpdate)}
    (hus : ∀ e ∈ us, e.1 = p ∧ Ledger.Finished e.2) (plans : Table PlanId ActionPlan) (q : PlanId) :
    (us.foldl World.updatePlan plans).get q = plans.get q ∨
      q = p ∧ ∃ plan plan', plans.get p = some plan ∧
        (us.foldl World.updatePlan plans).get p = some plan' ∧ plan.Ends plan' := by
  induction us generalizing plans with
  | nil => exact .inl rfl
  | cons e us ih =>
    obtain ⟨hname, hfinished⟩ := hus e List.mem_cons_self
    have hrest := ih (fun e' he' => hus e' (List.mem_cons_of_mem _ he')) (World.updatePlan plans e)
    rw [List.foldl_cons]
    have hget : ∀ q, (World.updatePlan plans e).get q =
        if q = p then (plans.get p).map e.2.apply else plans.get q := by
      intro q
      rw [World.get_updatePlan, hname]
    obtain ⟨name, u⟩ := e
    cases u with
    | finished state result at_ =>
      by_cases hq : q = p
      · subst hq
        cases hplan : plans.get q with
        | none =>
          have hnone : (World.updatePlan plans (name, .finished state result at_)).get q = none := by
            rw [hget, if_pos rfl, hplan]
            rfl
          rcases hrest with hsame | ⟨-, plan, _, hsome, -⟩
          · exact .inl (hsame.trans hnone)
          · rw [hnone] at hsome
            cases hsome
        | some plan =>
          have hsome : (World.updatePlan plans (name, .finished state result at_)).get q =
              some ((PlanUpdate.finished state result at_).apply plan) := by
            rw [hget, if_pos rfl, hplan]
            rfl
          right
          refine ⟨rfl, plan, ?_⟩
          rcases hrest with hsame | ⟨-, plan₁, plan₂, hfirst, hlast, hends⟩
          · exact ⟨_, rfl, hsame.trans hsome, state, result, at_, hfinished, rfl⟩
          · rw [hsome] at hfirst
            cases hfirst
            obtain ⟨state', result', at', hterminal, rfl⟩ := hends
            exact ⟨_, rfl, hlast, state', result', at', hterminal, rfl⟩
      · rcases hrest with hsame | ⟨h, -⟩
        · refine .inl (hsame.trans ?_)
          rw [hget, if_neg hq]
        · exact absurd h hq
    | _ => exact hfinished.elim

theorem plan_of_commit (hm : Holding t m w) (hok : m.CommitOk P call ws)
    (hfresh : ∀ id plan, ws.newPlan = some (id, plan) → w.plans.get id = none) (p : PlanId) :
    (w.apply ws).plans.get p = w.plans.get p ∨
      ∃ plan', (w.apply ws).plans.get p = some plan' ∧
        PlanChange P m call ws p (w.plans.get p) plan' ∧
        (w.plans.get p = none ∨ w.planRows p = some t) := by
  have hstore := World.get_store (ws.plans.foldl World.updatePlan w.plans) ws.newPlan p
  rcases hstore with ⟨hsame, -⟩ | ⟨plan, hnew, hget⟩
  · have hsame : (w.apply ws).plans.get p = (ws.plans.foldl World.updatePlan w.plans).get p := hsame
    rw [hsame]
    have hupdates := hok.updates
    generalize hus : ws.plans = us at hupdates ⊢
    cases hupdates with
    | none => exact .inl rfl
    | @single q u plan hlocked hsingle =>
      obtain ⟨hrow, hplan⟩ := hm.locked q plan hlocked
      rw [List.foldl_cons, List.foldl_nil, World.get_updatePlan]
      by_cases hp : p = q
      · subst hp
        rw [if_pos rfl, hplan]
        exact .inr ⟨_, rfl, .updated hus hlocked hsingle, .inr hrow⟩
      · rw [if_neg hp]
        exact .inl rfl
    | @mutated q _ plan args hlocked hnames hplanId hfinished =>
      obtain ⟨hrow, hplan⟩ := hm.locked q plan hlocked
      rcases get_finished hfinished w.plans p with h | ⟨rfl, plan₁, plan', h₁, h', hends⟩
      · exact .inl h
      · by_cases hnil : ws.plans = []
        · refine .inl ?_
          rw [← hus, hnil]
          rfl
        · rw [h₁]
          exact .inr ⟨plan', h', .mutated hnames hplanId hnil hends, .inr hrow⟩
  · obtain ⟨-, hpending, hdrafts⟩ := hok.newPlan p plan hnew
    have hnone := hfresh p plan hnew
    refine .inr ⟨plan, hget, ?_, .inl hnone⟩
    rw [hnone]
    exact .created hnew hpending hdrafts

end Commit

section Runs

variable {P : Ports} {c c' : Config (machine T P)} {t : TaskId} {U : Task (machine T P)} {w : World}

def ledgerOf (U : Task (machine T P)) : Ledger := (ledger T P U.call).after U.hist

theorem entitled (h : Reachable (.start w) c) (ht : c.task t = some U) {o : Op T}
    {k : Except Exc o.Val → Proc (sig T) (Except Exc (Returned T))} (hp : U.prog = .call o k) :
    (ledgerOf U).ok P U.call o :=
  Reachable.Follows.allowed (M := ledger T P) (Reachable.follows (ledger_watched P) h t U ht) hp

theorem insert_fresh (hw : w.Sound) (h : Reachable (.start w) c) (ht : c.task t = some U)
    (ha : U.alive = true) {ws : Writes}
    {k : Except Exc Unit → Proc (sig T) (Except Exc (Returned T))}
    (hp : U.prog = .call (.commit ws) k) (id : PlanId) (plan : ActionPlan)
    (hnew : ws.newPlan = some (id, plan)) : c.world.plans.get id = none := by
  have hok : (seen U).CommitOk U.call ws := allowed h ht hp
  have hm := (safe_of_reachable hw h).matches_ t U ht ha
  exact (hm.fresh id (hok.2.2 id plan hnew)).2.2

def Tied (c : Config (machine T P)) : Prop :=
  ∀ t U, c.task t = some U → U.alive = true → Holding t (ledgerOf U) c.world

/-- What a finished await leaves to its task and to the others. -/
theorem Tied.perform (hs : Tied c) {o : Op T} {r : Except Exc o.Val} {w' : World}
    (ht : c.task t = some U) (ha : U.alive = true) (hok : (ledgerOf U).ok P U.call o)
    (hfresh : ∀ ws, o = .commit ws → ∀ id plan, ws.newPlan = some (id, plan) →
      c.world.plans.get id = none) (hw : World.Perform t c.world o r w') :
    Holding t ((ledgerOf U).next o r) w' ∧
      ∀ u V, u ≠ t → c.task u = some V → V.alive = true → Holding u (ledgerOf V) w' := by
  have hm := hs t U ht ha
  have heffect : ∀ {reply r' : Except Exc o.Val}, World.effect t c.world o reply = some (r', w') →
      (o.ends = true → w'.guards = c.world.guards) ∧
        ∀ u V, u ≠ t → c.task u = some V → V.alive = true → Holding u (ledgerOf V) w' := by
    intro reply r' h
    by_cases he : o.ends = true
    · cases o <;> simp [Op.ends] at he
      case commit ws =>
        cases h
        refine ⟨fun _ => rfl, fun u V hu hV hv => (hs u V hV hv).kept ?_ fun _ hg => hg⟩
        intro p plan hlock hplan
        refine ⟨(Locks.release_other hu).mpr hlock, ?_⟩
        rcases plan_of_commit hm hok (hfresh ws rfl) p with hsame | ⟨-, -, -, hnone | hmine⟩
        · exact hsame.trans hplan
        · rw [hplan] at hnone
          cases hnone
        · rw [hlock] at hmine
          exact absurd (Option.some.inj hmine) hu
      case rollback =>
        cases h
        refine ⟨fun _ => rfl, fun u V hu hV hv => (hs u V hV hv).kept ?_ fun _ hg => hg⟩
        exact fun p plan hlock hplan => ⟨(Locks.release_other hu).mpr hlock, hplan⟩
    · have he' : o.ends = false := by simpa using he
      refine ⟨fun h => absurd h he, fun u V hu hV hv => (hs u V hV hv).kept ?_ ?_⟩
      · exact fun _ _ => rows_kept he' h
      · exact fun a hg => guards_kept hg (.inl hu) h
  by_cases he : o.ends = true
  · rcases hw.effect_or with ⟨reply, h⟩ | ⟨-, rfl, rfl | ⟨reply, r', h⟩⟩
    · exact ⟨hm.ended he ((heffect h).1 he), (heffect h).2⟩
    · exact ⟨hm.error _, fun u V _ hV hv => hs u V hV hv⟩
    · exact ⟨hm.ended he ((heffect h).1 he), (heffect h).2⟩
  · have he' : o.ends = false := by simpa using he
    rcases hw.effect_or with ⟨reply, h⟩ | ⟨-, rfl, rfl | ⟨reply, r', h⟩⟩
    · exact ⟨hm.learn he' h, (heffect h).2⟩
    · exact ⟨hm.error _, fun u V _ hV hv => hs u V hV hv⟩
    · refine ⟨?_, (heffect h).2⟩
      by_cases hu : ∃ b, o = .executionUnlock b
      · obtain ⟨b, rfl⟩ := hu
        exact ⟨fun p plan hp => rows_kept he' h (hm.locked p plan hp).1 (hm.locked p plan hp).2,
          fun _ hg => (by cases hg)⟩
      · exact (hm.kept (fun _ _ => rows_kept he' h) fun a hg =>
          guards_kept hg (.inr fun b hb => hu ⟨b, hb⟩) h).error _

theorem Tied.step (hw : w.Sound) (hr : Reachable (.start w) c) (hs : Tied c) (hst : Step c c') :
    Tied c' := by
  cases hst with
  | spawn t call ht =>
    intro u V hV hv
    rw [Config.setTask_task] at hV
    split at hV
    · cases hV
      exact Holding.init
    · exact hs u V hV hv
  | @exec t U o k r w' ht ha hp hperform =>
    have hfresh : ∀ ws, o = .commit ws → ∀ id plan, ws.newPlan = some (id, plan) →
        c.world.plans.get id = none := by
      rintro ws rfl
      exact insert_fresh hw hr ht ha hp
    obtain ⟨hown, hothers⟩ := hs.perform ht ha (entitled hr ht hp) hfresh hperform
    intro u V hV hv
    rw [Config.setTask_task] at hV
    split at hV
    · rename_i heq
      cases hV
      rw [heq]
      exact hown
    · rename_i hne
      exact hothers u V hne hV hv
  | @crash t U ht ha =>
    intro u V hV hv
    rw [Config.setTask_task] at hV
    split at hV
    · cases hV
      cases hv
    · rename_i hne
      refine (hs u V hV hv).kept (fun p plan hl hp => ⟨(Locks.release_other hne).mpr hl, hp⟩) ?_
      exact fun a hg => (Locks.release_other hne).mpr hg
  | env henv =>
    intro u V hV hv
    have hm := hs u V hV hv
    cases henv <;> exact ⟨hm.locked, hm.guard⟩

theorem tied_of_reachable (hw : w.Sound) (h : Reachable (.start w) c) : Tied c := by
  refine Reachable.invariant h Tied (fun _ _ ht => by cases ht) ?_
  exact fun _ _ hr hs hst => hs.step hw hr hst

/-- In this step a task commits a change of the plan, while the others wait. -/
structure PlanEdit (c c' : Config (machine T P)) (p : PlanId) (t : TaskId) (U : Task (machine T P))
    (ws : Writes) (plan' : ActionPlan) : Prop where
  commit : Committing c c' t U ws
  others : ∀ u, u ≠ t → c'.task u = c.task u
  change : PlanChange P (ledgerOf U) U.call ws p (c.world.plans.get p) plan'

theorem plan_step (hw : w.Sound) (h : Reachable (.start w) c) (hst : Step c c') (p : PlanId) :
    c'.world.plans.get p = c.world.plans.get p ∨
      ∃ plan' t U ws, c'.world.plans.get p = some plan' ∧ PlanEdit c c' p t U ws plan' := by
  cases hst with
  | spawn t call ht => exact .inl rfl
  | @exec t U o k r w' ht ha hp hperform =>
    rcases World.Perform.rows hperform with ⟨ws, rfl, rfl⟩ | hrows
    · have hok : (ledgerOf U).CommitOk P U.call ws := entitled h ht hp
      have hm := tied_of_reachable hw h t U ht ha
      rcases plan_of_commit hm hok (insert_fresh hw h ht ha hp) p with hsame | ⟨plan', hget, hch, -⟩
      · exact .inl hsame
      · exact .inr ⟨plan', t, U, ws, hget,
          ⟨ht, ha, ⟨k, hp⟩, _, _, Config.setTask_self ..⟩, fun _ hu => Config.setTask_ne _ _ hu, hch⟩
    · exact .inl (congrArg (fun rows => Table.get rows p) hrows.plans)
  | crash t ht ha => exact .inl rfl
  | env henv => cases henv <;> exact .inl rfl

end Runs

end PlaceGame
