import Mathlib.Algebra.BigOperators.Group.Finset.Basic
import PlaceGame.Policy.Lifecycle

/-!
# PlaceGame.Policy.Claims

Claims over all runs: who may collect, how often, and what becomes of the claimed row.

A fresh claim takes a plan that nobody has claimed, and the lifecycle never leads back: so there is
one fresh claim for a plan in a whole run, and its claimant asks for one collection at most. While
the claim is open, the guard and the row lock keep every other claimant away.
-/

namespace PlaceGame

open Coop

variable {T : Type}

namespace Ledger

variable {P : Ports} {call : Call} {m : Ledger} {ws : Writes}

structure Claims (m : Ledger) (ws : Writes) (claim : Claimed) : Prop where
  unclaimed : m.claim = none
  found : ∃ plan u, m.locked = some (claim.planId, plan) ∧ ws.plans = [(claim.planId, u)] ∧
    claim.plan = u.apply plan ∧ (claim.recovery = false → plan.executionState.fresh = true)
  guard : m.guard = some claim.plan.accountId
  executing : claim.plan.executionState = .executing
  owner : claim.plan.executionOwner = some claim.owner
  unsent : m.sent = false
  closing : m.closing = false

theorem claims_of_single {p : PlanId} {plan : ActionPlan} {u : PlanUpdate}
    (hl : m.locked = some (p, plan)) (hs : m.Single call p plan u) (hw : ws.plans = [(p, u)]) :
    m.claimOf [(p, u)] = none ∨ ∃ claim, m.claimOf [(p, u)] = some claim ∧ m.Claims ws claim := by
  cases u with
  | claimed owner startedAt lease attempts =>
    obtain ⟨hmay, hvalid, -⟩ := hs
    unfold IdleExecutionClaims.validFresh at hvalid
    simp only [Bool.and_eq_true] at hvalid
    refine .inr ⟨⟨p, owner, (PlanUpdate.claimed owner startedAt lease attempts).apply plan, false⟩,
      ?_, hmay.claim, ⟨plan, _, hl, hw, rfl, fun _ => hvalid.1.1.1.1⟩, hmay.guard, rfl, rfl,
      hmay.unsent, hmay.closing⟩
    simp only [claimOf, hl, Option.map_some]
  | recovered owner startedAt lease =>
    obtain ⟨hmay, hexecuting, -⟩ := hs
    refine .inr ⟨⟨p, owner, (PlanUpdate.recovered owner startedAt lease).apply plan, true⟩,
      ?_, hmay.claim, ⟨plan, _, hl, hw, rfl, fun h => by cases h⟩, hmay.guard, hexecuting, rfl,
      hmay.unsent, hmay.closing⟩
    simp only [claimOf, hl, Option.map_some]
  | claimFinished owner state result at_ => exact .inl rfl
  | confirmed at_ by_ => exact .inl rfl
  | markedExecuting => exact .inl rfl
  | finished state result at_ => exact .inl rfl

theorem claimOf_finished {p : PlanId} {us : List (PlanId × PlanUpdate)}
    (h : ∀ e ∈ us, e.1 = p ∧ Finished e.2) : m.claimOf us = none ∧ finishOf us = none := by
  match us with
  | [] => exact ⟨rfl, rfl⟩
  | [(q, u)] =>
    have hu := (h (q, u) List.mem_cons_self).2
    cases u with
    | finished state result at_ => exact ⟨rfl, rfl⟩
    | _ => exact hu.elim
  | (q, u) :: e' :: us => cases u <;> exact ⟨rfl, rfl⟩

theorem claim_of_commit (hok : m.CommitOk P call ws) :
    m.claimOf ws.plans = none ∨ ∃ claim, m.claimOf ws.plans = some claim ∧ m.Claims ws claim := by
  have hupdates := hok.updates
  generalize hus : ws.plans = us at hupdates ⊢
  cases hupdates with
  | none => exact .inl rfl
  | single hlocked hsingle => exact claims_of_single hlocked hsingle hus
  | mutated _ _ _ hfinished => exact .inl (claimOf_finished hfinished).1

structure Finishes (m : Ledger) (ws : Writes) (claim : Claimed) (state : PlanState)
    (result : Json) : Prop where
  found : ∃ plan at_, m.locked = some (claim.planId, plan) ∧
    ws.plans = [(claim.planId, .claimFinished claim.owner state result at_)] ∧
      plan.executionState = .executing ∧ plan.executionOwner = some claim.owner
  may : m.MayFinish claim.planId claim.owner state result claim

theorem finish_of_commit (hok : m.CommitOk P call ws) {state : PlanState} {result : Json}
    (h : finishOf ws.plans = some (state, result)) : ∃ claim, m.Finishes ws claim state result := by
  have hupdates := hok.updates
  generalize hus : ws.plans = us at hupdates h
  cases hupdates with
  | none => cases h
  | @single p u plan hlocked hsingle =>
    cases u with
    | claimFinished owner state' result' at_ =>
      cases h
      obtain ⟨hexecuting, howner, claim, hmay⟩ := hsingle
      obtain ⟨rfl, rfl⟩ := And.intro hmay.planId hmay.owner
      exact ⟨claim, ⟨plan, at_, hlocked, hus, hexecuting, howner⟩, hmay⟩
    | _ => cases h
  | mutated _ _ _ hfinished =>
    rw [(claimOf_finished (m := m) hfinished).2] at h
    cases h

/-- What one await does to the tenure of a call. -/
inductive Moves (m m' : Ledger) : (o : Op T) → Except Exc o.Val → Prop
    where
  | same {o : Op T} {r : Except Exc o.Val} (claim : m'.claim = m.claim) (sent : m'.sent = m.sent)
      (closing : m'.closing = m.closing) (finished : m'.finished = m.finished)
      (collects : ∀ a p api, o ≠ .idleCollect a p api)
      (guard : m'.guard = m.guard ∨ m'.guard = none ∨ m.claim = none) : Moves m m' o r
  | collects {a : AccountId} {p : PlanId} {api : GameApi} {r : Except Exc Bool} {claim : Claimed}
      (may : m.MaySend a p claim) (next : m' = { m with sent := true }) :
      Moves m m' (.idleCollect a p api) r
  | claims {ws : Writes} {claim : Claimed} (claims : m.Claims ws claim)
      (held : m'.claim = some claim) (guard : m'.guard = m.guard) (sent : m'.sent = false)
      (closing : m'.closing = false) (finished : m'.finished = m.finished) :
      Moves m m' (.commit ws) (.ok ())
  | tries {ws : Writes} {r : Except Exc Unit} {claim : Claimed} {state : PlanState} {result : Json}
      (finishes : m.Finishes ws claim state result) (held : m'.claim = m.claim)
      (guard : m'.guard = m.guard) (sent : m'.sent = m.sent) (closing : m'.closing = true)
      (finished : m'.finished = m.finished ∨
        r = .ok () ∧ m'.finished = some (state, result)) : Moves m m' (.commit ws) r

theorem Finishes.claimOf {claim : Claimed} {state : PlanState} {result : Json}
    (h : m.Finishes ws claim state result) :
    m.claimOf ws.plans = none ∧ finishOf ws.plans = some (state, result) := by
  obtain ⟨plan, at_, -, hw, -⟩ := h.found
  rw [hw]
  exact ⟨rfl, rfl⟩

theorem committed_claim {us : List (PlanId × PlanUpdate)} {claim : Claimed}
    (h : m.claimOf us = some claim) :
    m.committed us = { m.ended us with
      claim := some claim, idle := none, previous := none, policy := none } := by
  unfold committed
  rw [h]

theorem committed_finish {us : List (PlanId × PlanUpdate)} (h : m.claimOf us = none) :
    m.committed us = { m.ended us with finished := (Ledger.finishOf us).or m.finished } := by
  unfold committed
  rw [h]

theorem ended_closing {us : List (PlanId × PlanUpdate)} (h : Ledger.finishOf us = none) :
    (m.ended us).closing = m.closing := by
  unfold ended
  rw [h]
  exact Bool.or_false _

theorem moves_commit (hok : m.CommitOk P call ws) (r : Except Exc Unit) :
    Moves (T := T) m (m.next (Op.commit (T := T) ws) r) (.commit ws) r := by
  cases hf : Ledger.finishOf ws.plans with
  | some f =>
    obtain ⟨state, result⟩ := f
    obtain ⟨claim, hfinish⟩ := finish_of_commit hok hf
    have hclosing : (m.ended ws.plans).closing = true := by simp [ended, hf]
    cases r with
    | error e => exact .tries hfinish rfl rfl rfl hclosing (.inl rfl)
    | ok _ =>
      have hnext : m.next (Op.commit (T := T) ws) (.ok ()) = m.committed ws.plans := rfl
      rw [hnext, committed_finish hfinish.claimOf.1, hf]
      exact .tries hfinish rfl rfl rfl hclosing (.inr ⟨rfl, rfl⟩)
  | none =>
    have hsame : Moves (T := T) m (m.ended ws.plans) (.commit ws) r :=
      .same rfl rfl (ended_closing hf) rfl (fun _ _ _ h => by cases h) (.inl rfl)
    cases r with
    | error e => exact hsame
    | ok _ =>
      have hnext : m.next (Op.commit (T := T) ws) (.ok ()) = m.committed ws.plans := rfl
      rw [hnext]
      rcases claim_of_commit hok with hnone | ⟨claim, hclaim, hclaims⟩
      · rw [committed_finish hnone, hf]
        exact .same rfl rfl (ended_closing hf) rfl (fun _ _ _ h => by cases h) (.inl rfl)
      · rw [committed_claim hclaim]
        exact .claims hclaims rfl rfl hclaims.unsent ((ended_closing hf).trans hclaims.closing) rfl

theorem moves {o : Op T} (hok : m.ok P call o) (r : Except Exc o.Val) :
    Moves m (m.next o r) o r := by
  cases o with
  | commit ws => exact moves_commit hok r
  | idleCollect a p api =>
    obtain ⟨claim, hmay, -⟩ := hok
    cases r <;> exact .collects hmay rfl
  | tryExecutionGuard a =>
    have hclaim : m.claim = none := hok
    cases r with
    | error e => exact .same rfl rfl rfl rfl (fun _ _ _ h => by cases h) (.inl rfl)
    | ok held =>
      cases held <;> exact .same rfl rfl rfl rfl (fun _ _ _ h => by cases h) (.inr (.inr hclaim))
  | executionUnlock a =>
    cases r <;> exact .same rfl rfl rfl rfl (fun _ _ _ h => by cases h) (.inr (.inl rfl))
  | planForUpdate p a =>
    cases r with
    | error e => exact .same rfl rfl rfl rfl (fun _ _ _ h => by cases h) (.inl rfl)
    | ok found =>
      cases found <;> exact .same rfl rfl rfl rfl (fun _ _ _ h => by cases h) (.inl rfl)
  | _ => cases r <;> exact .same rfl rfl rfl rfl (fun _ _ _ h => by cases h) (.inl rfl)

end Ledger

/-- The await asks for a collection on behalf of the plan. -/
def Op.collects (p : PlanId) : Op T → Bool
  | .idleCollect _ q _ => q == p
  | _ => false

/-- How often a history asked for a collection on behalf of the plan. -/
def asked (p : PlanId) (h : List (Event (sig T))) : Nat := h.countP fun e => e.1.collects p

namespace Ledger

variable {P : Ports} {call : Call} {h : List (Event (sig T))}

/-- What the history of a call says about its claim and its collections. -/
structure Accounts (m : Ledger) (h : List (Event (sig T))) : Prop where
  unsent : m.sent = false → ∀ p, asked p h = 0
  sent : m.sent = true → ∃ claim, m.claim = some claim ∧ claim.recovery = false ∧
    ∀ p, asked p h = if claim.planId = p then 1 else 0
  finished : ∀ state result, m.finished = some (state, result) → m.closing = true ∧
    state.terminal = true ∧ ∃ claim, m.claim = some claim ∧
      (claim.recovery = false → (state = .failed ↔ m.sent = false))

theorem asked_cons (p : PlanId) (o : Op T) (r : Except Exc o.Val) (h : List (Event (sig T))) :
    asked p (⟨o, r⟩ :: h) = asked p h + if o.collects p then 1 else 0 := by
  unfold asked
  rw [List.countP_cons]

theorem collects_other {o : Op T} (h : ∀ a p api, o ≠ .idleCollect a p api) (p : PlanId) :
    o.collects p = false := by
  cases o with
  | idleCollect a q api => exact absurd rfl (h a q api)
  | _ => rfl

/-- Induction on the history: each await was one that the ledger before it allowed. -/
theorem accounts (hv : (ledger T P call).Valid h) : ((ledger T P call).after h).Accounts h := by
  induction h with
  | nil => exact ⟨fun _ _ => rfl, fun h => (by cases h), fun _ _ h => (by cases h)⟩
  | cons e h ih =>
    obtain ⟨o, r⟩ := e
    obtain ⟨hok, hvalid⟩ := hv
    have ha := ih hvalid
    show (Ledger.next _ o r).Accounts (⟨o, r⟩ :: h)
    have hmoves := moves (show ((ledger T P call).after h).ok P call o from hok) r
    generalize (ledger T P call).after h = m at ha hmoves
    generalize m.next o r = m' at hmoves
    cases hmoves with
    | same hclaim hsent hclosing hfinished hother hguard =>
      have hsame : ∀ p, asked p (⟨o, r⟩ :: h) = asked p h := by
        intro p
        rw [asked_cons, collects_other hother]
        rfl
      refine ⟨fun hu p => ?_, fun hs => ?_, fun state result hf => ?_⟩
      · rw [hsame]
        exact ha.unsent (hsent ▸ hu) p
      · obtain ⟨claim, hheld, hfresh, hcount⟩ := ha.sent (hsent ▸ hs)
        exact ⟨claim, hclaim.trans hheld, hfresh, fun p => (hsame p).trans (hcount p)⟩
      · rw [hclaim, hsent, hclosing]
        exact ha.finished state result (hfinished ▸ hf)
    | @collects a p api r claim hmay hnext =>
      subst hnext
      refine ⟨fun hu => (by cases hu), fun _ => ⟨claim, hmay.held, hmay.fresh, fun q => ?_⟩,
        fun state result hf => ?_⟩
      · rw [asked_cons, ha.unsent hmay.unsent, hmay.planId]
        simp [Op.collects]
      · obtain ⟨hclosing, -⟩ := ha.finished state result hf
        rw [hmay.closing] at hclosing
        cases hclosing
    | @claims ws claim hclaims hheld hguard hsent hclosing hfinished =>
      refine ⟨fun _ p => ?_, fun hs => ?_, fun state result hf => ?_⟩
      · rw [asked_cons, ha.unsent hclaims.unsent]
        rfl
      · rw [hsent] at hs
        cases hs
      · obtain ⟨hclosed, -⟩ := ha.finished state result (hfinished ▸ hf)
        rw [hclaims.closing] at hclosed
        cases hclosed
    | @tries ws r claim state result hfinishes hheld hguard hsent hclosing hfinished =>
      have hsame : ∀ p, asked p (⟨Op.commit ws, r⟩ :: h) = asked p h := by
        intro p
        rw [asked_cons]
        rfl
      have hmay := hfinishes.may
      refine ⟨fun hu p => ?_, fun hs => ?_, fun state' result' hf => ?_⟩
      · rw [hsame]
        exact ha.unsent (hsent ▸ hu) p
      · obtain ⟨claim', hheld', hfresh, hcount⟩ := ha.sent (hsent ▸ hs)
        exact ⟨claim', hheld.trans hheld', hfresh, fun p => (hsame p).trans (hcount p)⟩
      · refine ⟨hclosing, ?_⟩
        rcases hfinished with hsame | ⟨-, hnew⟩
        · obtain ⟨hclosed, -⟩ := ha.finished state' result' (hsame ▸ hf)
          rw [hmay.closing] at hclosed
          cases hclosed
        · rw [hnew] at hf
          cases hf
          rw [hheld, hsent]
          exact ⟨hmay.terminal, claim, hmay.held, hmay.failed⟩

end Ledger

section Runs

variable {P : Ports} {c c' : Config (machine T P)} {t u : TaskId} {U V : Task (machine T P)}
variable {w : World} {p : PlanId}

theorem accounts_of_task (h : Reachable (.start w) c) (ht : c.task t = some U) :
    (ledgerOf U).Accounts U.hist :=
  Ledger.accounts (Reachable.follows (ledger_watched P) h t U ht).valid

/-- A task of the target of a step: it is new, it stays as it was, or it made this step. -/
theorem task_ledger (h : Reachable (.start w) c) (hst : Step c c') {U' : Task (machine T P)}
    (ht : c'.task t = some U') :
    ledgerOf U' = {} ∨ ∃ U, c.task t = some U ∧ U'.call = U.call ∧
      ((U'.hist = U.hist ∧ ledgerOf U' = ledgerOf U ∧ (U'.alive = true → U.alive = true)) ∨
        ∃ (o : Op T) (r : Except Exc o.Val), U.alive = true ∧ (ledgerOf U).ok P U.call o ∧
          World.Perform t c.world o r c'.world ∧ (∃ k, U.prog = .call o k) ∧
          U'.hist = ⟨o, r⟩ :: U.hist ∧ ledgerOf U' = (ledgerOf U).next o r ∧
          Ledger.Moves (ledgerOf U) (ledgerOf U') o r) := by
  rcases hst.task_cases ht with ⟨-, hnew⟩ | ⟨U, hU, hcall, ⟨hhist, -, halive⟩ | ⟨o, k, r, ha, hp, hw, rfl⟩⟩
  · left
    rw [hnew]
    rfl
  · refine .inr ⟨U, hU, hcall, .inl ⟨hhist, ?_, halive⟩⟩
    unfold ledgerOf
    rw [hcall, hhist]
  · have hok := entitled h hU hp
    exact .inr ⟨U, hU, rfl, .inr ⟨o, r, ha, hok, hw, ⟨k, hp⟩, rfl, rfl, Ledger.moves hok r⟩⟩

theorem updated_row (hw : w.Sound) (h : Reachable (.start w) c) (ht : c.task t = some U)
    (ha : U.alive = true) {ws : Writes} {up : PlanUpdate} {plan : ActionPlan}
    (hok : (ledgerOf U).CommitOk P U.call ws) (hl : (ledgerOf U).locked = some (p, plan))
    (hwrites : ws.plans = [(p, up)])
    (hp : World.Perform t c.world (Op.commit (T := T) ws) (.ok ()) c'.world) :
    c.world.plans.get p = some plan ∧ c'.world.plans.get p = some (up.apply plan) := by
  have hrow := ((tied_of_reachable hw h t U ht ha).locked _ _ hl).2
  refine ⟨hrow, ?_⟩
  have hnew : ws.newPlan = none := by
    cases hn : ws.newPlan with
    | none => rfl
    | some new =>
      have := (hok.newPlan new.1 new.2 hn).1
      rw [hwrites] at this
      cases this
  rw [World.Perform.committed hp rfl]
  show (World.store (ws.plans.foldl World.updatePlan c.world.plans) ws.newPlan).get _ = _
  rw [hnew, hwrites, World.store_none, List.foldl_cons, List.foldl_nil, World.get_updatePlan,
    if_pos rfl, hrow]
  rfl

theorem claimed_row (hw : w.Sound) (h : Reachable (.start w) c) (ht : c.task t = some U)
    (ha : U.alive = true) {ws : Writes} {claim : Claimed}
    (hok : (ledgerOf U).CommitOk P U.call ws) (hc : (ledgerOf U).Claims ws claim)
    (hp : World.Perform t c.world (Op.commit (T := T) ws) (.ok ()) c'.world) :
    ∃ plan, c.world.plans.get claim.planId = some plan ∧
      c'.world.plans.get claim.planId = some claim.plan ∧
      plan.creation = claim.plan.creation ∧
      (claim.recovery = false → plan.executionState.fresh = true) := by
  obtain ⟨plan, u, hlocked, hwrites, hplan, hfresh⟩ := hc.found
  obtain ⟨hrow, hrow'⟩ := updated_row hw h ht ha hok hlocked hwrites hp
  rw [hplan]
  exact ⟨plan, hrow, hrow', (PlanUpdate.apply_creation u plan).symm, hfresh⟩

/-- There is one fresh claim for a plan, and its plan has left the states that allow another. -/
structure Once (c : Config (machine T P)) : Prop where
  claimed : ∀ t U claim, c.task t = some U → (ledgerOf U).claim = some claim →
    claim.recovery = false → ∃ plan, c.world.plans.get claim.planId = some plan ∧
      2 ≤ plan.executionState.rank
  unique : ∀ t u U V claim claim', c.task t = some U → c.task u = some V →
    (ledgerOf U).claim = some claim → (ledgerOf V).claim = some claim' →
    claim.recovery = false → claim'.recovery = false → claim.planId = claim'.planId → t = u

/-- A task whose claim is new in this step took a plan that no task had claimed. -/
theorem Once.step (hw : w.Sound) (h : Reachable (.start w) c) (hs : Once c) (hst : Step c c') :
    Once c' := by
  -- a claim was held before, or it is new and the row was fresh before and is claimed now
  have hcases : ∀ t U' claim, c'.task t = some U' → (ledgerOf U').claim = some claim →
      claim.recovery = false →
      (∃ U, c.task t = some U ∧ (ledgerOf U).claim = some claim) ∨
        (c'.world.plans.get claim.planId = some claim.plan ∧
          claim.plan.executionState = .executing ∧
          (∃ plan, c.world.plans.get claim.planId = some plan ∧
            plan.executionState.fresh = true) ∧
          ∀ u, u ≠ t → c'.task u = c.task u) := by
    intro t U' claim ht hclaim hfresh
    rcases task_ledger h hst ht with hnew | ⟨U, hU, hcall, ⟨-, hsame, -⟩ |
      ⟨o, r, ha, hok, hperform, ⟨k, hp⟩, hhist, hnext, hmoves⟩⟩
    · rw [hnew] at hclaim
      cases hclaim
    · exact .inl ⟨U, hU, hsame ▸ hclaim⟩
    · generalize ledgerOf U' = m' at hclaim hmoves hnext
      cases hmoves with
      | same hkept => exact .inl ⟨U, hU, hkept ▸ hclaim⟩
      | collects _ hnext' =>
        rw [hnext'] at hclaim
        exact .inl ⟨U, hU, hclaim⟩
      | tries _ hkept => exact .inl ⟨U, hU, hkept ▸ hclaim⟩
      | @claims ws claim₁ hclaims hheld =>
        rw [hheld] at hclaim
        cases hclaim
        obtain ⟨plan, hrow, hrow', -, hwas⟩ := claimed_row hw h hU ha hok hclaims hperform
        refine .inr ⟨hrow', hclaims.executing, ⟨plan, hrow, hwas hfresh⟩, hst.others hU ht ?_⟩
        rw [hhist]
        exact List.cons_ne_self _ _
  have hkept : ∀ {p plan}, c.world.plans.get p = some plan → 2 ≤ plan.executionState.rank →
      ∃ plan', c'.world.plans.get p = some plan' ∧ 2 ≤ plan'.executionState.rank := by
    intro p plan hp hrank
    obtain ⟨plan', hp', hadvances, -⟩ := plan_advances_step hw h hst hp
    exact ⟨plan', hp', hrank.trans hadvances.moves⟩
  -- a new claim and one that was held before are about different plans
  have hapart : ∀ {claim claim' : Claimed} {u V}, c.task u = some V →
      (ledgerOf V).claim = some claim' → claim'.recovery = false →
      (∃ plan, c.world.plans.get claim.planId = some plan ∧ plan.executionState.fresh = true) →
      claim.planId ≠ claim'.planId := by
    intro claim claim' u V hV hclaim' hfresh' ⟨plan, hp, hfresh⟩ heq
    obtain ⟨plan', hp', hrank⟩ := hs.claimed u V claim' hV hclaim' hfresh'
    rw [← heq, hp] at hp'
    cases hp'
    have := PlanState.rank_fresh.mp hfresh
    omega
  refine ⟨fun t U' claim ht hclaim hfresh => ?_, fun t u U' V' claim claim' ht hu hclaim hclaim'
    hfresh hfresh' heq => ?_⟩
  · rcases hcases t U' claim ht hclaim hfresh with ⟨U, hU, hheld⟩ | ⟨hrow, hexecuting, -⟩
    · obtain ⟨plan, hp, hrank⟩ := hs.claimed t U claim hU hheld hfresh
      exact hkept hp hrank
    · exact ⟨claim.plan, hrow, by rw [hexecuting]; exact le_rfl⟩
  · by_contra hne
    rcases hcases t U' claim ht hclaim hfresh with ⟨U, hU, hheld⟩ | ⟨-, -, hwas, hothers⟩ <;>
      rcases hcases u V' claim' hu hclaim' hfresh' with ⟨V, hV, hheld'⟩ | ⟨-, -, hwas', hothers'⟩
    · exact hne (hs.unique t u U V claim claim' hU hV hheld hheld' hfresh hfresh' heq)
    · exact hapart hU hheld hfresh hwas' heq.symm
    · exact hapart hV hheld' hfresh' hwas heq
    · -- both claims are new: then both tasks made this step
      have ht₀ := hothers' t hne
      rw [ht] at ht₀
      rw [hothers u (Ne.symm hne)] at hu
      rcases hcases t U' claim ht hclaim hfresh with ⟨U, hU, hheld⟩ | ⟨-, -, hwas, -⟩
      · exact hapart hU hheld hfresh hwas' heq.symm
      · exact hapart ht₀.symm hclaim hfresh hwas' heq.symm

theorem once_of_reachable (hw : w.Sound) (h : Reachable (.start w) c) : Once c := by
  refine Reachable.invariant h Once ⟨fun _ _ _ ht => (by cases ht), fun _ _ _ _ _ _ ht => (by cases ht)⟩ ?_
  exact fun _ _ hr hs hst => hs.step hw hr hst

/-- How often a task has asked for a collection on behalf of the plan, counting the request that is
under way. -/
def requests (p : PlanId) (U : Task (machine T P)) : Nat :=
  asked p U.hist + if U.pending.any (Op.collects p) then 1 else 0

/-- All requests of a run on behalf of the plan, over the given tasks. -/
def allRequests (p : PlanId) (c : Config (machine T P)) (tasks : Finset TaskId) : Nat :=
  ∑ t ∈ tasks, (c.task t).elim 0 (requests p)

/-- A task that has asked for the plan, or asks now, holds the fresh claim for it. -/
theorem claim_of_requests (h : Reachable (.start w) c) (ht : c.task t = some U)
    (hr : 0 < requests p U) : ∃ claim, (ledgerOf U).claim = some claim ∧
      claim.recovery = false ∧ claim.planId = p ∧ requests p U = 1 := by
  have ha := accounts_of_task h ht
  unfold requests at hr ⊢
  by_cases hpending : U.pending.any (Op.collects p) = true
  · obtain ⟨o, ho, hcollects⟩ := (Option.any_eq_true ..).mp hpending
    obtain ⟨k, hk⟩ := Task.pending_eq ho
    have hok := entitled h ht hk
    cases o with
    | idleCollect a q api =>
      obtain ⟨claim, hmay, -⟩ := hok
      have hq : q = p := by simpa [Op.collects] using hcollects
      refine ⟨claim, hmay.held, hmay.fresh, hmay.planId.trans hq, ?_⟩
      rw [ha.unsent hmay.unsent, if_pos hpending]
    | _ => cases hcollects
  · rw [if_neg hpending] at hr ⊢
    cases hs : (ledgerOf U).sent with
    | false =>
      have := ha.unsent hs p
      omega
    | true =>
      obtain ⟨claim, hheld, hfresh, hcount⟩ := ha.sent hs
      have hone := hcount p
      by_cases hq : claim.planId = p
      · rw [if_pos hq] at hone
        exact ⟨claim, hheld, hfresh, hq, by omega⟩
      · rw [if_neg hq] at hone
        omega

/-- The requests of all tasks are those of one of them. -/
theorem allRequests_of (hw : w.Sound) (h : Reachable (.start w) c) {tasks : Finset TaskId}
    (hmem : t ∈ tasks) (ht : c.task t = some U) {claim : Claimed}
    (hclaim : (ledgerOf U).claim = some claim) (hfresh : claim.recovery = false) :
    allRequests claim.planId c tasks = requests claim.planId U := by
  unfold allRequests
  rw [Finset.sum_eq_single_of_mem t hmem, ht]
  · rfl
  · intro u _ hne
    cases hu : c.task u with
    | none => rfl
    | some V =>
      by_contra hpos
      obtain ⟨claim', hheld', hfresh', hplan, -⟩ :=
        claim_of_requests h hu (Nat.pos_of_ne_zero hpos)
      exact hne ((once_of_reachable hw h).unique u t V U claim' claim hu ht hheld' hclaim hfresh'
        hfresh hplan)

/-- A collection is asked for at most once on behalf of a plan, over all tasks of a run and whatever
they are cut off by; a recovery never asks. -/
theorem collected_at_most_once (hw : w.Sound) (h : Reachable (.start w) c) (p : PlanId) :
    (∀ tasks, allRequests p c tasks ≤ 1) ∧
      ∀ t U claim, c.task t = some U → (ledgerOf U).claim = some claim →
        claim.recovery = true → requests p U = 0 := by
  refine ⟨fun tasks => ?_, fun t U claim ht hclaim hrecovery => ?_⟩
  · by_cases hsome : ∃ t ∈ tasks, 0 < (c.task t).elim 0 (requests p)
    · obtain ⟨t, hmem, hpos⟩ := hsome
      cases ht : c.task t with
      | none =>
        rw [ht] at hpos
        cases hpos
      | some U =>
        rw [ht] at hpos
        obtain ⟨claim, hheld, hfresh, rfl, hone⟩ := claim_of_requests h ht hpos
        rw [allRequests_of hw h hmem ht hheld hfresh]
        exact hone.le
    · have hzero : allRequests p c tasks = 0 := by
        refine Finset.sum_eq_zero fun t hmem => ?_
        have := not_exists.mp hsome t
        by_contra hne
        exact this ⟨hmem, Nat.pos_of_ne_zero hne⟩
      rw [hzero]
      exact Nat.zero_le 1
  · by_contra hne
    obtain ⟨claim', hheld, hfresh, -⟩ := claim_of_requests h ht (Nat.pos_of_ne_zero hne)
    rw [hclaim] at hheld
    cases hheld
    rw [hrecovery] at hfresh
    cases hfresh

end Runs

theorem executedRun_asks_once : (∀ tasks, allRequests 1 executedRun tasks ≤ 1) ∧
    ∀ t U claim, executedRun.task t = some U → (ledgerOf U).claim = some claim →
      claim.recovery = true → requests 1 U = 0 :=
  collected_at_most_once sound_idleWorld reachable_executedRun 1

end PlaceGame
