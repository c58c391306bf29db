import PlaceGame.Accounts.Readings
import PlaceGame.Accounts.Safety
import PlaceGame.Scripts

/-!
# PlaceGame.Accounts.Authorised

No mutation without current authorisation: what holds at the instant a mutating request for a plan
is started, in every run.
-/

namespace PlaceGame

open Coop

/-- The checks of a plan, at the time and with the fingerprint that were read for them. -/
structure Checked (plan : ActionPlan) (now : Time) (fingerprint : String) : Prop where
  unexpired : now < plan.expiresAt
  confirmed : plan.confirmationRequired = true → plan.confirmedAt.isSome = true
  fingerprint : fingerprint = plan.stateFingerprint

/-- The account may be worked on, under the policy version and for the account of the plan, which is
still the stored one. -/
structure Authorised (w : World) (a : AccountId) (p : PlanId) (plan : ActionPlan) : Prop where
  account : ∃ r, w.accounts.get a = some r ∧ r.enabled = true ∧ r.pausedReason = none ∧
    r.policyVersion = plan.policyVersion
  stored : (w.plans.get p).map ActionPlan.creation = some plan.creation
  owner : plan.accountId = a

variable {T : Type} {P : Ports} {w : World} {c : Config (machine T P)} {t : TaskId}
variable {U : Task (machine T P)}

/-- The row that the task holds is the stored one, so the checks on it hold in the world. -/
theorem authorised_of_matches {m : Local} {a : AccountId} {p : PlanId} {plan : ActionPlan}
    {policy : VersionedPolicy} (hm : Matches t m w) (hadm : m.Admitted a)
    (hpolicy : m.policy = some (a, policy)) (howner : plan.accountId = a)
    (hversion : plan.policyVersion = policy.version)
    (hstored : (w.plans.get p).map ActionPlan.creation = some plan.creation) :
    Authorised w a p plan := by
  obtain ⟨r, hrow, henabled, hpaused⟩ := hadm
  refine ⟨⟨r, (hm.row a r hrow).2, henabled, hpaused, ?_⟩, hstored, howner⟩
  rw [hversion, hm.policy a policy r hpolicy hrow]

/-- Whenever a task is about to send an operation or a collection for a plan, the stored account
admits it under the plan's policy version, and the checks of the plan were made on readings of the
attempt. -/
theorem mutation_authorised (hw : w.Sound) (h : Reachable (.start w) c) (ht : c.task t = some U)
    (ha : U.alive = true) :
    (∀ a p api, U.pending = some (.operation a (some p) api) →
      ∃ plan now fingerprint api',
        ⟨.getPlan p, .ok (some plan)⟩ ∈ sinceLock U.hist ∧
        ⟨.clock, .ok now⟩ ∈ sinceLock U.hist ∧
        ⟨.stateFingerprint p api', .ok (some fingerprint)⟩ ∈ sinceLock U.hist ∧
        Checked plan now fingerprint ∧ Authorised c.world a p plan) ∧
    (∀ a p api, U.pending = some (.idleCollect a p api) →
      ∃ plan now idle policy a' api',
        ⟨.planForUpdate p a', .ok (some plan)⟩ ∈ U.hist ∧
        ⟨.clock, .ok now⟩ ∈ U.hist ∧
        ⟨.idleSummary a api', .ok idle⟩ ∈ sinceLock U.hist ∧
        ⟨.policyGet a, .ok policy⟩ ∈ sinceLock U.hist ∧
        Checked plan now (IdlePlanner.fingerprint P idle policy.toAccountPolicy) ∧
        Authorised c.world a p plan) := by
  have hm := (safe_of_reachable hw h).matches_ t U ht ha
  have hr : Readings (seen U) U.hist := readings P U.call U.hist
  constructor
  · intro a p api hp
    obtain ⟨-, hadm, hplanned⟩ := allowed_pending h ht hp
    obtain ⟨policy, plan, now, fingerprint, hpolicy, hplan, howner, hversion, hnow, hexp, hconf,
      hfp, heq⟩ := hplanned p rfl
    obtain ⟨api', hfp⟩ := hr.fingerprint p fingerprint hfp
    exact ⟨plan, now, fingerprint, api', hr.plan p plan hplan, hr.now now hnow, hfp,
      ⟨hexp, hconf, heq⟩, authorised_of_matches hm hadm hpolicy howner hversion
        (hm.plan p plan hplan)⟩
  · intro a p api hp
    obtain ⟨-, hadm, policy, plan, now, idle, hpolicy, hplan, howner, hvalid, hversion, hidle, hfp⟩ :=
      allowed_pending h ht hp
    obtain ⟨⟨a', hread⟩, hnow⟩ := hr.planRow p plan now hplan
    obtain ⟨api', hidle⟩ := hr.idle a idle hidle
    simp only [IdleExecutionClaims.validFresh, Bool.and_eq_true, decide_eq_true_eq,
      Bool.not_eq_true'] at hvalid
    refine ⟨plan, now, idle, policy, a', api', hread, hnow, hidle, hr.policy a policy hpolicy,
      ⟨hvalid.1.1.1.2, ?_, hfp⟩, authorised_of_matches hm hadm hpolicy howner hversion
        (hm.planRow p plan _ hplan)⟩
    intro hc
    rw [hvalid.1.2] at hc
    cases hc

def plannedWorld : World where
  accounts := ⟨[(0,
    { label := "main"
      authMode := .tokenOnly
      gameAccountId := some "g1"
      sessionToken := some "tok" })]⟩
  plans := ⟨[(1,
    { accountId := 0
      stateFingerprint := "fp"
      policyVersion := 1
      proposedActions := []
      risk := .low
      expiresAt := Time.minutes 5
      confirmationRequired := false })]⟩
  nextId := 2

theorem sound_plannedWorld : plannedWorld.Sound where
  ids a r h := by
    obtain rfl : a = 0 := by simpa [plannedWorld] using Table.mem_keys h
    decide
  planIds p plan h := by
    obtain rfl : p = 1 := by simpa [plannedWorld] using Table.mem_keys h
    decide
  unique a b r r' g h h' _ _ := by
    have := Table.mem_keys h
    have := Table.mem_keys h'
    simp_all [plannedWorld]
  reserved t a g h := by cases h
  once t u a b g h := by cases h

/-- `mutate` with that plan, up to the send. -/
def aboutToSend : Config (machine Unit samplePorts) :=
  run (.start plannedWorld) 0
    (.mutate { accountId := 0, actor := operator, planId := some 1, hasFingerprint := true })
    friendlyGame 11

theorem mutation_authorised_at_send :
    ∃ U, aboutToSend.task 0 = some U ∧ U.pending = some (.operation 0 (some 1) ⟨some "tok"⟩) ∧
      ∃ plan now fingerprint api',
        ⟨.getPlan 1, .ok (some plan)⟩ ∈ sinceLock U.hist ∧
        ⟨.clock, .ok now⟩ ∈ sinceLock U.hist ∧
        ⟨.stateFingerprint 1 api', .ok (some fingerprint)⟩ ∈ sinceLock U.hist ∧
        Checked plan now fingerprint ∧ Authorised aboutToSend.world 0 1 plan := by
  have hawaits : aboutToSend.awaits 0 = some (.operation 0 (some 1) ⟨some "tok"⟩) := rfl
  obtain ⟨U, hU, ha, hp⟩ := Config.awaits_eq hawaits
  exact ⟨U, hU, hp, (mutation_authorised sound_plannedWorld (reachable_run _ _ _ _ _) hU ha).1
    0 1 _ hp⟩

end PlaceGame
