import PlaceGame.Accounts.Mutate
import PlaceGame.Application.Idle
import PlaceGame.Policy.TypedPlans

/-!
# PlaceGame.Policy.Engine

The idle part of the policy engine: the plan it builds from a summary and the resolver that is meant
to recompute the fingerprint of that plan. The plan is fingerprinted over the capacity and the
decision, as the idle planner does it; the resolver over the accumulated seconds and the capacity.
-/

namespace PlaceGame

open Coop Projection Plans AccountService

variable (P : Ports)

namespace PolicyEngine

def keyed : KeyedArrays :=
  [("entries", "key"), ("equipment", "key"), ("affixes", "key"), ("instances", "key"),
    ("queue", "key"), ("recipes", "key")]

def validationError : Exc := .other "ValidationError"

/-- `_plan`; `id` is the identifier that the new plan draws. -/
def plan (locked : LockedAccount) (family : ActionFamily) (decisions : List Plans.Decision)
    (projection : Json) (now : Time) (id : PlanId) (risk : RiskClass := .low) :
    Except Exc (TypedActionPlan Time) := do
  let stateFingerprint ← Projection.canonicalFingerprint P family projection keyed
  let details :=
    validateDetails locked.accountId stateFingerprint locked.policy.version decisions {} risk
      (now + Time.minutes 5) false
  match details with
  | none => throw validationError
  | some details =>
    let lifecycle : Lifecycle Time :=
      { id := id
        confirmedAt := none
        confirmedBy := none
        executionState := .pending
        executedAt := none
        executionResult := none
        executionOwner := none
        executionStartedAt := none
        executionLeaseExpiresAt := none
        executionAttemptCount := 0 }
    match validatePlan details lifecycle with
    | none => throw validationError
    | some plan => return plan

def idleDecision (collect : Bool) : Plans.Decision where
  family := .idle
  reason :=
    if collect then ⟨"idle_threshold_reached", isReason_threshold_reached⟩
    else ⟨"idle_threshold_not_reached", by decide +kernel⟩
  state := if collect then .selected else .skipped
  action := if collect then some .idleCollect else none
  selected_action := by cases collect <;> simp
  action_family a h := by
    cases collect
    · cases h
    · cases h
      rfl

def planProjection (summary : IdleSummary) (policy : AccountPolicy) : Json :=
  .obj
    [("capacitySeconds", .ofNat? (summary.capacitySeconds.map (·.val))),
      ("eligible", .bool (IdlePlanner.decision summary policy = .collect))]

/-- `build_idle_plan`, for the summary that the game answered. -/
def buildIdlePlan (locked : LockedAccount) (summary : IdleSummary) (now : Time) (id : PlanId) :
    Except Exc (TypedActionPlan Time) :=
  plan P locked .idle
    [idleDecision (IdlePlanner.decision summary locked.policy.toAccountPolicy = .collect)]
    (planProjection summary locked.policy.toAccountPolicy) now id

def idleProjection (summary : IdleSummary) : Json :=
  .obj
    [("accumulatedSeconds", .int summary.accumulatedSeconds),
      ("capacitySeconds", .ofNat? (summary.capacitySeconds.map (·.val)))]

/-- What the coroutine of `idle_resolver` returns for the summary that the game answered. -/
def idleResolver (summary : IdleSummary) : Except Exc String :=
  Projection.canonicalFingerprint P .idle (idleProjection summary) []

/-! ## The two projections -/

variable {P}

theorem stateFingerprint_of_details {D : Type} {accountId : AccountId} {fingerprint : String}
    {version : Int} {decisions : List Plans.Decision} {costs : EstimatedCosts} {risk : RiskClass}
    {expiresAt : D} {confirmationRequired : Bool} {details : PlanDetails D}
    (h : validateDetails accountId fingerprint version decisions costs risk expiresAt
      confirmationRequired = some details) : details.stateFingerprint = fingerprint := by
  unfold validateDetails at h
  split at h
  · cases h
    rfl
  · cases h

theorem details_of_plan {D : Type} {details : PlanDetails D} {lifecycle : Lifecycle D}
    {built : TypedActionPlan D} (h : validatePlan details lifecycle = some built) :
    built.toPlanDetails = details := by
  unfold validatePlan at h
  split at h
  · cases h
    rfl
  · cases h

theorem fingerprint_of_plan {locked : LockedAccount} {family : ActionFamily}
    {decisions : List Plans.Decision} {projection : Json} {now : Time} {id : PlanId}
    {risk : RiskClass} {built : TypedActionPlan Time}
    (h : plan P locked family decisions projection now id risk = .ok built) :
    Projection.canonicalFingerprint P family projection keyed = .ok built.stateFingerprint := by
  unfold plan at h
  cases hfingerprint : Projection.canonicalFingerprint P family projection keyed with
  | error e =>
    rw [hfingerprint] at h
    cases h
  | ok fingerprint =>
    simp only [hfingerprint, bind, Except.bind] at h
    split at h
    · cases h
    · rename_i details hdetails
      split at h
      · cases h
      · rename_i plan hplan
        cases h
        have hdetails := stateFingerprint_of_details hdetails
        rw [← details_of_plan hplan] at hdetails
        rw [hdetails]

/-- A mapping without arrays has the same fingerprint under every declaration. -/
theorem planProjection_keyed (summary : IdleSummary) (policy : AccountPolicy)
    (keyedArrays : KeyedArrays) :
    Projection.canonicalFingerprint P .idle (planProjection summary policy) keyedArrays =
      .ok (IdlePlanner.fingerprint P summary policy) := by
  have hflat : ∀ keyedArrays : KeyedArrays, Projection.canonicalFingerprint P .idle
      (planProjection summary policy) keyedArrays =
        Projection.canonicalFingerprint P .idle (planProjection summary policy) [] := by
    intro keyedArrays
    cases h : summary.capacitySeconds <;> simp only [planProjection, h] <;> rfl
  rw [hflat, canonicalFingerprint_nil]
  rfl

theorem projections_differ (summary summary' : IdleSummary) (policy : AccountPolicy) :
    arrange [] "" (idleProjection summary') ≠ arrange [] "" (planProjection summary policy) := by
  have hidle : "accumulatedSeconds" ≤ "capacitySeconds" := by decide
  have hplan : "capacitySeconds" ≤ "eligible" := by decide
  rw [idleProjection, planProjection, arrange, arrange]
  simp [arrangeFields, Json.sortEntries, hidle, hplan]

/-- No string of the idle resolver is the fingerprint of a plan that the engine built, so `mutate`
rejects each of them; the planner's fingerprint is the one of the plan. -/
theorem idle_resolver_never_matches (hsha : Function.Injective P.sha256) (locked : LockedAccount)
    (summary : IdleSummary) (now : Time) (id : PlanId) (built : TypedActionPlan Time)
    (hbuilt : buildIdlePlan P locked summary now id = .ok built) :
    IdlePlanner.fingerprint P summary locked.policy.toAccountPolicy = built.stateFingerprint ∧
      ∀ (summary' : IdleSummary) (s : String), idleResolver P summary' = .ok s →
        s ≠ built.stateFingerprint ∧
          ∀ row : ActionPlan, row.stateFingerprint = built.stateFingerprint →
            Mutate.validFingerprint row (some s) = false := by
  have hplan := fingerprint_of_plan hbuilt
  have hplanner := planProjection_keyed (P := P) summary locked.policy.toAccountPolicy keyed
  have hsame : IdlePlanner.fingerprint P summary locked.policy.toAccountPolicy =
      built.stateFingerprint := Except.ok.inj (hplanner.symm.trans hplan)
  refine ⟨hsame, fun summary' s hs => ?_⟩
  have hne : s ≠ built.stateFingerprint := by
    intro heq
    rw [← hsame] at heq
    have hplan' := planProjection_keyed (P := P) summary locked.policy.toAccountPolicy []
    exact projections_differ summary summary' locked.policy.toAccountPolicy
      ((fingerprint_inj hsha hs hplan').mp heq).2
  refine ⟨hne, fun row hrow => ?_⟩
  simp [Mutate.validFingerprint, hrow, hne]

/-- SHA-256 on the two texts of an account without idle seconds. -/
def idlePorts : Ports where
  tokenExpiry _ := none
  sha256 := pinned
    [("\x7b\"family\":\"idle\",\"projection\":\x7b\"capacitySeconds\":null,\"eligible\":false\x7d\x7d",
      "4aa3c18a7a25179add13bd911cfc3ee579116aeed4657bdf3967c0706bbf2a5e"),
      ("\x7b\"family\":\"idle\",\"projection\":\x7b\"accumulatedSeconds\":0,\"capacitySeconds\":null\x7d\x7d",
      "21f8d508a89ad91fcd94c503cbec0936205c320ee1f445e3ded4b9b549f6b15c")]

theorem idlePorts_injective : Function.Injective idlePorts.sha256 := by
  refine pinned_injective (by simp) fun e he => ?_
  rcases List.mem_cons.mp he with rfl | he
  · exact pinned_hex (by decide)
  · cases List.mem_singleton.mp he
    exact pinned_hex (by decide)

def idleAccount : LockedAccount where
  accountId := 0
  api := ⟨some "tok"⟩
  policy := defaultPolicy
  snapshot :=
    { accountId := 0
      enabled := true
      pausedReason := none
      authenticated := true
      sessionExpiresAt := none
      state := .obj []
      stateFingerprint := ""
      fetchedAt := 0
      expiresAt := 0 }

/-- The resolver and the plan digest one state in different ways. -/
theorem idle_fingerprints : (buildIdlePlan idlePorts idleAccount ⟨0, none⟩ 0 0).isOk = true ∧
    Projection.canonicalFingerprint idlePorts .idle
      (planProjection ⟨0, none⟩ idleAccount.policy.toAccountPolicy) keyed =
        .ok "pgfp:v1:4aa3c18a7a25179add13bd911cfc3ee579116aeed4657bdf3967c0706bbf2a5e" ∧
    idleResolver idlePorts ⟨0, none⟩ =
      .ok "pgfp:v1:21f8d508a89ad91fcd94c503cbec0936205c320ee1f445e3ded4b9b549f6b15c" := by
  decide +kernel

theorem exists_idlePlan :
    ∃ built, buildIdlePlan idlePorts idleAccount ⟨0, none⟩ 0 0 = .ok built := by
  have h := idle_fingerprints.1
  cases hbuilt : buildIdlePlan idlePorts idleAccount ⟨0, none⟩ 0 0 with
  | ok built => exact ⟨built, rfl⟩
  | error e =>
    rw [hbuilt] at h
    cases h

/-- The game state does not change, and the resolver still answers another string. -/
theorem resolver_rejects_own_plan :
    ∃ built s, buildIdlePlan idlePorts idleAccount ⟨0, none⟩ 0 0 = .ok built ∧
      idleResolver idlePorts ⟨0, none⟩ = .ok s ∧ s ≠ built.stateFingerprint := by
  obtain ⟨built, hbuilt⟩ := exists_idlePlan
  have hfingerprint :=
    Except.ok.inj ((fingerprint_of_plan hbuilt).symm.trans idle_fingerprints.2.1)
  refine ⟨built, _, hbuilt, idle_fingerprints.2.2, ?_⟩
  rw [hfingerprint]
  decide

theorem idle_resolver_never_matches_idle_account :
    ∃ built s, buildIdlePlan idlePorts idleAccount ⟨0, none⟩ 0 0 = .ok built ∧
      idleResolver idlePorts ⟨0, none⟩ = .ok s ∧ s ≠ built.stateFingerprint := by
  obtain ⟨built, hbuilt⟩ := exists_idlePlan
  exact ⟨built, _, hbuilt, idle_fingerprints.2.2,
    ((idle_resolver_never_matches idlePorts_injective idleAccount ⟨0, none⟩ 0 0 built hbuilt).2
      ⟨0, none⟩ _ idle_fingerprints.2.2).1⟩

end PolicyEngine

end PlaceGame
