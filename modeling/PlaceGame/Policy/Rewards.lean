import PlaceGame.Policy.Arranged
import PlaceGame.Text.Integers

/-!
# PlaceGame.Policy.Rewards

`SafeRewardPlanner`: one decision for each reward candidate, of which at most one claims. The
candidate that is claimed is the first one that every guard lets through.
-/

namespace PlaceGame

open Plans Sorting Projection

structure RewardCandidate where
  kind : Key
  identifier : Key
  completed : Bool
  claimed : Bool
  choiceCount : Nat
  cost : Nat
  wouldOverflow : Bool
  deriving DecidableEq

structure RewardState where
  inventorySafetyAvailable : Bool
  candidates : List RewardCandidate

/-- The claim actions of `safe_reward`. -/
abbrev ClaimAction : Type := { a : RegisteredAction // a.family = .safeReward }

namespace SafeRewardPlanner

def action (candidate : RewardCandidate) : Option ClaimAction :=
  if candidate.kind.val = "daily" then
    match pyInt candidate.identifier.val with
    | some (.ofNat point) => some ⟨.dailyClaim point, rfl⟩
    -- `Field(ge=0)`: a `ValidationError` is a `ValueError`
    | some (.negSucc _) => none
    | none => none
  else if candidate.kind.val = "quest" then some ⟨.questClaim candidate.identifier, rfl⟩
  else if candidate.kind.val = "achievement" then
    some ⟨.achievementClaim candidate.identifier, rfl⟩
  else if candidate.kind.val = "codex" then some ⟨.codexClaim candidate.identifier, rfl⟩
  else if candidate.kind.val = "mail" then some ⟨.mailClaim candidate.identifier, rfl⟩
  else none

variable (state : RewardState) (policy : VersionedPolicy)

def decision (candidate : RewardCandidate) (selected : Bool) : Plans.Decision :=
  if policy.safeRewardClaims = false then
    .skipped .safeReward ⟨"reward_claims_disabled", (by decide +kernel)⟩
  else if state.inventorySafetyAvailable = false then
    .blocked .safeReward ⟨"inventory_safety_unavailable", (by decide +kernel)⟩
  else if candidate.completed = false then
    .skipped .safeReward ⟨"reward_incomplete", (by decide +kernel)⟩
  else if candidate.claimed then
    .skipped .safeReward ⟨"reward_already_claimed", (by decide +kernel)⟩
  else if candidate.choiceCount ≠ 0 then
    .skipped .safeReward ⟨"reward_choice_required", (by decide +kernel)⟩
  else if candidate.cost ≠ 0 then
    .skipped .safeReward ⟨"reward_has_cost", (by decide +kernel)⟩
  else if candidate.wouldOverflow then
    .skipped .safeReward ⟨"reward_inventory_overflow", (by decide +kernel)⟩
  else
    match action candidate with
    | none => .skipped .safeReward ⟨"reward_unknown_kind", (by decide +kernel)⟩
    | some action =>
      if selected then .skipped .safeReward ⟨"reward_plan_limit", (by decide +kernel)⟩
      else
        .selected .safeReward ⟨"reward_safe_to_claim", (by decide +kernel)⟩ action.val action.property

def decisionsFrom : Bool → List RewardCandidate → List Plans.Decision
  | _, [] => []
  | selected, candidate :: rest =>
    let decision := decision state policy candidate selected
    decision :: decisionsFrom (selected || decide (decision.state = .selected)) rest

theorem isReason_no_candidates : isReason "no_reward_candidates" = true := by decide +kernel

def decisions : List Plans.Decision :=
  match decisionsFrom state policy false state.candidates with
  | [] => [.skipped .safeReward ⟨"no_reward_candidates", isReason_no_candidates⟩]
  | decisions => decisions

def candidateJson (candidate : RewardCandidate) : Json :=
  .obj
    [("key", .str candidate.identifier.val), ("kind", .str candidate.kind.val),
      ("completed", .bool candidate.completed), ("claimed", .bool candidate.claimed),
      ("choiceCount", .int candidate.choiceCount), ("cost", .int candidate.cost),
      ("wouldOverflow", .bool candidate.wouldOverflow)]

def projection : Json :=
  .obj
    [("candidates", .arr (state.candidates.map candidateJson)),
      ("inventorySafetyAvailable", .bool state.inventorySafetyAvailable)]

def keyedArrays : KeyedArrays := [("candidates", "key")]

/-- The keyword arguments of a call of `build`, and what it draws: an account, the time of the clock
and the identifier of the plan. -/
structure BuildCall where
  accountId : Option AccountId
  now : Option Time
  freshAccount : AccountId
  clock : Time
  id : PlanId

def build (P : Ports) (call : BuildCall) : Except Exc (TypedActionPlan Time) := do
  let instant := call.now.getD call.clock
  let stateFingerprint ← Projection.canonicalFingerprint P .safeReward (projection state) keyedArrays
  match validateDetails (call.accountId.getD call.freshAccount) stateFingerprint policy.version
      (decisions state policy) {} .low (instant + Time.minutes 5) false with
  | none => throw PolicyEngine.validationError
  | some details =>
    match validatePlan details
        { id := call.id
          confirmedAt := none
          confirmedBy := none
          executionState := .pending
          executedAt := none
          executionResult := none
          executionOwner := none
          executionStartedAt := none
          executionLeaseExpiresAt := none
          executionAttemptCount := 0 } with
    | none => throw PolicyEngine.validationError
    | some plan => return plan

/-! ## Claims -/

def Claims (a : RegisteredAction) (candidate : RewardCandidate) : Prop :=
  match a with
  | .dailyClaim point =>
    candidate.kind.val = "daily" ∧ pyInt candidate.identifier.val = some (point : Int)
  | .questClaim key => candidate.kind.val = "quest" ∧ key = candidate.identifier
  | .achievementClaim key => candidate.kind.val = "achievement" ∧ key = candidate.identifier
  | .codexClaim key => candidate.kind.val = "codex" ∧ key = candidate.identifier
  | .mailClaim key => candidate.kind.val = "mail" ∧ key = candidate.identifier
  | _ => False

theorem claims_of_action {candidate : RewardCandidate} {a : ClaimAction}
    (h : action candidate = some a) : Claims a.val candidate := by
  unfold action at h
  split at h
  · rename_i hkind
    split at h
    · rename_i hpoint
      cases h
      exact ⟨hkind, hpoint⟩
    · cases h
    · cases h
  · split at h
    · rename_i hkind
      cases h
      exact ⟨hkind, rfl⟩
    · split at h
      · rename_i hkind
        cases h
        exact ⟨hkind, rfl⟩
      · split at h
        · rename_i hkind
          cases h
          exact ⟨hkind, rfl⟩
        · split at h
          · rename_i hkind
            cases h
            exact ⟨hkind, rfl⟩
          · cases h

theorem action_of_claims {candidate : RewardCandidate} {a : RegisteredAction}
    (h : Claims a candidate) : ∃ ha : a.family = .safeReward, action candidate = some ⟨a, ha⟩ := by
  cases a with
  | dailyClaim point =>
    obtain ⟨hkind, hpoint⟩ := h
    refine ⟨rfl, ?_⟩
    rw [action, if_pos hkind, hpoint]
  | questClaim key =>
    obtain ⟨hkind, rfl⟩ := h
    exact ⟨rfl, by simp [action, hkind]⟩
  | achievementClaim key =>
    obtain ⟨hkind, rfl⟩ := h
    exact ⟨rfl, by simp [action, hkind]⟩
  | codexClaim key =>
    obtain ⟨hkind, rfl⟩ := h
    exact ⟨rfl, by simp [action, hkind]⟩
  | mailClaim key =>
    obtain ⟨hkind, rfl⟩ := h
    exact ⟨rfl, by simp [action, hkind]⟩
  | _ => exact absurd h id

/-- A candidate can be claimed by one action at most. -/
theorem claims_unique {candidate : RewardCandidate} {a b : RegisteredAction}
    (ha : Claims a candidate) (hb : Claims b candidate) : a = b := by
  obtain ⟨_, ha⟩ := action_of_claims ha
  obtain ⟨_, hb⟩ := action_of_claims hb
  rw [ha] at hb
  exact congrArg Subtype.val (Option.some.inj hb)

/-- What makes a candidate safe to claim. -/
structure Claimable (candidate : RewardCandidate) : Prop where
  completed : candidate.completed = true
  unclaimed : candidate.claimed = false
  noChoice : candidate.choiceCount = 0
  noCost : candidate.cost = 0
  fits : candidate.wouldOverflow = false
  representable : ∃ a, Claims a candidate

instance (candidate : RewardCandidate) : Decidable (Claimable candidate) :=
  decidable_of_iff
    (candidate.completed = true ∧ candidate.claimed = false ∧ candidate.choiceCount = 0 ∧
      candidate.cost = 0 ∧ candidate.wouldOverflow = false ∧ (action candidate).isSome = true)
    ⟨fun ⟨hcompleted, hunclaimed, hchoice, hcost, hfits, haction⟩ =>
        ⟨hcompleted, hunclaimed, hchoice, hcost, hfits,
          (Option.isSome_iff_exists.mp haction).elim fun _ h => ⟨_, claims_of_action h⟩⟩,
      fun h => ⟨h.completed, h.unclaimed, h.noChoice, h.noCost, h.fits,
        h.representable.elim fun _ ha => (action_of_claims ha).elim fun _ ha =>
          Option.isSome_iff_exists.mpr ⟨_, ha⟩⟩⟩

abbrev Enabled : Prop := policy.safeRewardClaims = true ∧ state.inventorySafetyAvailable = true

/-! ## One decision -/

theorem decision_claims {candidate : RewardCandidate} (henabled : Enabled state policy)
    (h : Claimable candidate) :
    ∃ a, Claims a candidate ∧
      (decision state policy candidate false).state = .selected ∧
      (decision state policy candidate false).action = some a ∧
      (decision state policy candidate true).state ≠ .selected ∧
      (decision state policy candidate true).action = none := by
  obtain ⟨a, ha⟩ := h.representable
  obtain ⟨hfamily, haction⟩ := action_of_claims ha
  have hguards : ∀ selected, decision state policy candidate selected =
      if selected then .skipped .safeReward ⟨"reward_plan_limit", (by decide +kernel)⟩
      else .selected .safeReward ⟨"reward_safe_to_claim", (by decide +kernel)⟩ a hfamily := by
    intro selected
    rw [decision, if_neg (by simp [henabled.1]), if_neg (by simp [henabled.2]),
      if_neg (by simp [h.completed]), if_neg (by simp [h.unclaimed]), if_neg (by simp [h.noChoice]),
      if_neg (by simp [h.noCost]), if_neg (by simp [h.fits]), haction]
  rw [hguards, hguards]
  exact ⟨a, ha, rfl, rfl, fun h => (by cases h), rfl⟩

/-- Not selected, and without an action. -/
def Refusal (d : Plans.Decision) : Prop := d.state ≠ .selected ∧ d.action = none

theorem refusal_skipped (reason : Reason) : Refusal (.skipped .safeReward reason) :=
  ⟨fun h => (by cases h), rfl⟩

theorem refusal_blocked (reason : Reason) : Refusal (.blocked .safeReward reason) :=
  ⟨fun h => (by cases h), rfl⟩

theorem decision_refuses {candidate : RewardCandidate} (selected : Bool)
    (h : ¬ (Enabled state policy ∧ Claimable candidate)) :
    Refusal (decision state policy candidate selected) := by
  unfold decision
  refine iteInduction (motive := Refusal) (fun _ => refusal_skipped _) fun hclaims => ?_
  refine iteInduction (motive := Refusal) (fun _ => refusal_blocked _) fun hsafety => ?_
  refine iteInduction (motive := Refusal) (fun _ => refusal_skipped _) fun hcompleted => ?_
  refine iteInduction (motive := Refusal) (fun _ => refusal_skipped _) fun hclaimed => ?_
  refine iteInduction (motive := Refusal) (fun _ => refusal_skipped _) fun hchoice => ?_
  refine iteInduction (motive := Refusal) (fun _ => refusal_skipped _) fun hcost => ?_
  refine iteInduction (motive := Refusal) (fun _ => refusal_skipped _) fun hoverflow => ?_
  cases haction : action candidate with
  | none => exact refusal_skipped _
  | some a =>
    rw [Bool.not_eq_false] at hclaims hsafety hcompleted
    rw [Bool.not_eq_true] at hclaimed hoverflow
    rw [not_not] at hchoice hcost
    exact absurd ⟨⟨hclaims, hsafety⟩, hcompleted, hclaimed, hchoice, hcost, hoverflow, a.val,
      claims_of_action haction⟩ h

theorem decision_family (candidate : RewardCandidate) (selected : Bool) :
    (decision state policy candidate selected).family = .safeReward := by
  unfold decision
  iterate 7
    refine iteInduction (motive := fun d : Plans.Decision => d.family = .safeReward)
      (fun _ => rfl) fun _ => ?_
  cases action candidate with
  | none => rfl
  | some a => cases selected <;> rfl

/-- A decision claims exactly when its candidate may be claimed and none was before. -/
theorem decision_selected_iff (candidate : RewardCandidate) (selected : Bool) :
    (decision state policy candidate selected).state = .selected ↔
      (Enabled state policy ∧ Claimable candidate) ∧ selected = false := by
  by_cases h : Enabled state policy ∧ Claimable candidate
  · obtain ⟨a, -, hselected, -, hlimit, -⟩ := decision_claims state policy h.1 h.2
    cases selected with
    | false => exact iff_of_true hselected ⟨h, rfl⟩
    | true => exact iff_of_false hlimit fun h => by cases h.2
  · exact iff_of_false (decision_refuses state policy selected h).1 fun hall => h hall.1

theorem decision_action (candidate : RewardCandidate) (selected : Bool) :
    ((decision state policy candidate selected).state = .selected →
      ∃ a, (decision state policy candidate selected).action = some a ∧ Claims a candidate) ∧
    ((decision state policy candidate selected).state ≠ .selected →
      (decision state policy candidate selected).action = none) := by
  by_cases h : Enabled state policy ∧ Claimable candidate
  · obtain ⟨a, ha, hselected, haction, hlimit, hnone⟩ := decision_claims state policy h.1 h.2
    cases selected with
    | false => exact ⟨fun _ => ⟨a, haction, ha⟩, fun hne => absurd hselected hne⟩
    | true => exact ⟨fun h => absurd h hlimit, fun _ => hnone⟩
  · obtain ⟨hne, hnone⟩ := decision_refuses state policy selected h
    exact ⟨fun h => absurd h hne, fun _ => hnone⟩

/-! ## The loop -/

/-- Whether the loop has selected a candidate before it reaches the next one. -/
def taken (selected : Bool) (before : List RewardCandidate) : Bool :=
  selected || decide (Enabled state policy ∧ ∃ c ∈ before, Claimable c)

theorem taken_cons (selected : Bool) (candidate : RewardCandidate) (before : List RewardCandidate) :
    taken state policy
        (selected || decide ((decision state policy candidate selected).state = .selected)) before =
      taken state policy selected (candidate :: before) := by
  rw [taken, taken]
  cases selected with
  | true => rfl
  | false =>
    simp only [decision_selected_iff, Bool.false_or, and_true, List.exists_mem_cons_iff, and_or_left,
      Bool.decide_or]

/-- The decision on each candidate, given those before it. -/
theorem getElem?_decisionsFrom (selected : Bool) (candidates : List RewardCandidate) (i : Nat) :
    (decisionsFrom state policy selected candidates)[i]? =
      candidates[i]?.map fun candidate =>
        decision state policy candidate (taken state policy selected (candidates.take i)) := by
  induction candidates generalizing selected i with
  | nil => rfl
  | cons candidate rest ih =>
    cases i with
    | zero => simp [decisionsFrom, taken]
    | succ i =>
      rw [decisionsFrom, List.getElem?_cons_succ, ih, List.getElem?_cons_succ, List.take_succ_cons]
      simp only [taken_cons]

theorem mem_decisionsFrom {selected : Bool} {candidates : List RewardCandidate}
    {d : Plans.Decision}
    (h : d ∈ decisionsFrom state policy selected candidates) :
    ∃ candidate ∈ candidates, ∃ selected, d = decision state policy candidate selected := by
  obtain ⟨i, hi⟩ := List.mem_iff_getElem?.mp h
  rw [getElem?_decisionsFrom] at hi
  obtain ⟨candidate, hcandidate, hd⟩ := Option.map_eq_some_iff.mp hi
  exact ⟨candidate, List.mem_of_getElem? hcandidate, _, hd.symm⟩

theorem length_decisionsFrom (selected : Bool) (candidates : List RewardCandidate) :
    (decisionsFrom state policy selected candidates).length = candidates.length := by
  induction candidates generalizing selected with
  | nil => rfl
  | cons candidate rest ih => exact congrArg (· + 1) (ih _)

theorem decisions_of_nil (h : state.candidates = []) :
    decisions state policy =
      [.skipped .safeReward ⟨"no_reward_candidates", isReason_no_candidates⟩] := by
  rw [decisions, h]
  rfl

theorem decisions_of_ne_nil (h : state.candidates ≠ []) :
    decisions state policy = decisionsFrom state policy false state.candidates := by
  unfold decisions
  split
  · rename_i hnil
    have hlength := length_decisionsFrom state policy false state.candidates
    rw [hnil] at hlength
    exact absurd (List.length_eq_zero_iff.mp hlength.symm) h
  · rfl

theorem decisions_family : ∀ d ∈ decisions state policy, d.family = .safeReward := by
  intro d hd
  by_cases h : state.candidates = []
  · rw [decisions_of_nil state policy h] at hd
    cases List.mem_singleton.mp hd
    rfl
  · rw [decisions_of_ne_nil state policy h] at hd
    obtain ⟨candidate, -, selected, rfl⟩ := mem_decisionsFrom state policy hd
    exact decision_family state policy candidate selected

theorem decisions_ne_nil : decisions state policy ≠ [] := by
  by_cases h : state.candidates = []
  · rw [decisions_of_nil state policy h]
    exact List.cons_ne_nil _ _
  · rw [decisions_of_ne_nil state policy h, ← List.length_pos_iff, length_decisionsFrom,
      List.length_pos_iff]
    exact h

/-! ## The plan -/

theorem normal_candidate (candidate : RewardCandidate) (path : String) :
    Normal keyedArrays path (candidateJson candidate) := by
  refine .obj fun e he => ?_
  simp only [List.mem_cons, List.not_mem_nil, or_false] at he
  rcases he with rfl | rfl | rfl | rfl | rfl | rfl | rfl <;> rfl

theorem candidate_key (candidate : RewardCandidate) (path : String) :
    fieldText "key" (arrange keyedArrays path (candidateJson candidate)) =
      ↑candidate.identifier.val := by
  rw [fieldText, candidateJson, get?_arrange (by simp)]
  rfl

theorem keyed_candidates : keyedField keyedArrays (childPath "" "candidates") = some "key" := by
  decide +kernel

theorem normal_projection : Normal keyedArrays "" (projection state) := by
  refine .obj fun e he => ?_
  simp only [List.mem_cons, List.not_mem_nil, or_false] at he
  rcases he with rfl | rfl
  · refine .declared keyed_candidates (fun v hv => ?_) fun v hv => ?_
    · obtain ⟨candidate, -, rfl⟩ := List.mem_map.mp hv
      exact normal_candidate candidate _
    · obtain ⟨candidate, -, rfl⟩ := List.mem_map.mp hv
      rw [candidate_key]
      exact WithBot.coe_ne_bot
  · rfl

def planText : String :=
  canonicalJson
    (.obj [("family", .str ActionFamily.safeReward.text),
      ("projection", arrange keyedArrays "" (projection state))])

theorem fingerprint_eq (P : Ports) :
    Projection.canonicalFingerprint P .safeReward (projection state) keyedArrays =
      .ok ("pgfp:v1:" ++ P.sha256 (planText state)) := by
  rw [Projection.canonicalFingerprint, normal_projection]
  rfl

theorem build_ok {P : Ports} (hdigest : isFingerprint ("pgfp:v1:" ++ P.sha256 (planText state)) = true)
    (call : BuildCall) :
    ∃ plan, build state policy P call = .ok plan ∧
      plan.stateFingerprint = "pgfp:v1:" ++ P.sha256 (planText state) ∧
      plan.decisions = decisions state policy := by
  have hversion : (1 : Int) ≤ policy.version := by
    exact_mod_cast policy.version_ge
  have hlength : (decisions state policy).length ≠ 0 := fun h =>
    decisions_ne_nil state policy (List.length_eq_zero_iff.mp h)
  have hfamily : OneFamily (decisions state policy) := by
    intro d hd e he
    rw [decisions_family state policy d hd, decisions_family state policy e he]
  rw [build, fingerprint_eq]
  simp only [bind, Except.bind, validateDetails]
  rw [dif_pos ⟨hdigest, hversion, hlength, hfamily⟩]
  simp [validatePlan, Lifecycle.Valid, pure, Except.pure]

/-! ## One claim -/

/-- What a reward plan decides: the first claimable candidate is claimed, when claims are enabled. -/
structure ClaimsFirst (made : List Plans.Decision) : Prop where
  empty : state.candidates = [] → ∃ reason, made = [.skipped .safeReward reason]
  each : state.candidates ≠ [] → made.length = state.candidates.length
  selected_iff : ∀ (i : Nat) candidate d, state.candidates[i]? = some candidate → made[i]? = some d →
    (d.state = .selected ↔ Enabled state policy ∧ Claimable candidate ∧
      ∀ c ∈ state.candidates.take i, ¬ Claimable c)
  claims : ∀ (i : Nat) candidate d, state.candidates[i]? = some candidate → made[i]? = some d →
    d.state = .selected → ∃ a, d.action = some a ∧ Claims a candidate
  others : ∀ d ∈ made, d.state ≠ .selected → d.action = none
  one : ∀ (i j : Nat) d e, made[i]? = some d → made[j]? = some e → d.state = .selected →
    e.state = .selected → i = j
  some_iff : (∃ d ∈ made, d.state = .selected) ↔
    Enabled state policy ∧ ∃ c ∈ state.candidates, Claimable c

theorem getElem?_decisions {i : Nat} {candidate : RewardCandidate}
    (h : state.candidates[i]? = some candidate) :
    (decisions state policy)[i]? = some (decision state policy candidate
      (taken state policy false (state.candidates.take i))) := by
  have hne : state.candidates ≠ [] := List.ne_nil_of_mem (List.mem_of_getElem? h)
  rw [decisions_of_ne_nil state policy hne, getElem?_decisionsFrom, h]
  rfl

theorem taken_eq_false_iff (before : List RewardCandidate) :
    taken state policy false before = false ↔
      (Enabled state policy → ∀ c ∈ before, ¬ Claimable c) := by
  simp only [taken, Bool.false_or, decide_eq_false_iff_not, not_and, not_exists]

theorem selected_at_iff {i : Nat} {candidate : RewardCandidate} {d : Plans.Decision}
    (hcandidate : state.candidates[i]? = some candidate)
    (hd : (decisions state policy)[i]? = some d) :
    d.state = .selected ↔ Enabled state policy ∧ Claimable candidate ∧
      ∀ c ∈ state.candidates.take i, ¬ Claimable c := by
  rw [getElem?_decisions state policy hcandidate] at hd
  cases hd
  rw [decision_selected_iff, taken_eq_false_iff, and_assoc]
  exact and_congr_right fun henabled => and_congr_right fun _ =>
    ⟨fun h => h henabled, fun h _ => h⟩

theorem candidate_of_selected {i : Nat} {d : Plans.Decision}
    (hd : (decisions state policy)[i]? = some d) (h : d.state = .selected) :
    ∃ candidate, state.candidates[i]? = some candidate := by
  by_cases hne : state.candidates = []
  · rw [decisions_of_nil state policy hne] at hd
    cases i with
    | zero =>
      cases hd
      cases h
    | succ i => cases hd
  · rw [decisions_of_ne_nil state policy hne, getElem?_decisionsFrom] at hd
    obtain ⟨candidate, hcandidate, -⟩ := Option.map_eq_some_iff.mp hd
    exact ⟨candidate, hcandidate⟩

theorem one_selected {i j : Nat} {d e : Plans.Decision} (hd : (decisions state policy)[i]? = some d)
    (he : (decisions state policy)[j]? = some e) (hdselected : d.state = .selected)
    (heselected : e.state = .selected) : ¬ i < j := by
  intro hij
  obtain ⟨candidate, hcandidate⟩ := candidate_of_selected state policy hd hdselected
  obtain ⟨other, hother⟩ := candidate_of_selected state policy he heselected
  obtain ⟨-, hclaimable, -⟩ := (selected_at_iff state policy hcandidate hd).mp hdselected
  obtain ⟨-, -, hbefore⟩ := (selected_at_iff state policy hother he).mp heselected
  have hmem : candidate ∈ state.candidates.take j :=
    List.mem_of_getElem? (by rw [List.getElem?_take_of_lt hij]; exact hcandidate)
  exact hbefore candidate hmem hclaimable

theorem exists_selected_iff : (∃ d ∈ decisions state policy, d.state = .selected) ↔
    Enabled state policy ∧ ∃ c ∈ state.candidates, Claimable c := by
  constructor
  · rintro ⟨d, hd, hselected⟩
    obtain ⟨i, hi⟩ := List.mem_iff_getElem?.mp hd
    obtain ⟨candidate, hcandidate⟩ := candidate_of_selected state policy hi hselected
    obtain ⟨henabled, hclaimable, -⟩ := (selected_at_iff state policy hcandidate hi).mp hselected
    exact ⟨henabled, candidate, List.mem_of_getElem? hcandidate, hclaimable⟩
  · rintro ⟨henabled, c, hc, hclaimable⟩
    obtain ⟨first, hfirst⟩ := Option.isSome_iff_exists.mp
      (List.find?_isSome (p := fun c => decide (Claimable c)) |>.mpr ⟨c, hc, decide_eq_true hclaimable⟩)
    obtain ⟨hclaimable, before, after, hsplit, hbefore⟩ := List.find?_eq_some_iff_append.mp hfirst
    have hcandidate : state.candidates[before.length]? = some first := by
      rw [hsplit]
      simp
    have hd := getElem?_decisions state policy hcandidate
    refine ⟨_, List.mem_of_getElem? hd, (selected_at_iff state policy hcandidate hd).mpr
      ⟨henabled, of_decide_eq_true hclaimable, fun c hc => ?_⟩⟩
    rw [hsplit, List.take_left] at hc
    simpa using hbefore c hc

theorem decisions_claimsFirst : ClaimsFirst state policy (decisions state policy) where
  empty h := ⟨_, decisions_of_nil state policy h⟩
  each h := by rw [decisions_of_ne_nil state policy h, length_decisionsFrom]
  selected_iff _ _ _ hcandidate hd := selected_at_iff state policy hcandidate hd
  claims i candidate d hcandidate hd hselected := by
    rw [getElem?_decisions state policy hcandidate] at hd
    cases hd
    exact (decision_action state policy candidate _).1 hselected
  others d hd hne := by
    by_cases h : state.candidates = []
    · rw [decisions_of_nil state policy h] at hd
      cases List.mem_singleton.mp hd
      rfl
    · rw [decisions_of_ne_nil state policy h] at hd
      obtain ⟨candidate, -, selected, rfl⟩ := mem_decisionsFrom state policy hd
      exact (decision_action state policy candidate selected).2 hne
  one i j d e hd he hdselected heselected := by
    have hij := one_selected state policy hd he hdselected heselected
    have hji := one_selected state policy he hd heselected hdselected
    omega
  some_iff := exists_selected_iff state policy

/-- Every state and policy gets a plan, and it claims one safe reward at most: the first. -/
theorem one_safe_reward (P : Ports)
    (hdigest : ∀ text, isFingerprint ("pgfp:v1:" ++ P.sha256 text) = true) (state : RewardState)
    (policy : VersionedPolicy) (call : BuildCall) :
    ∃ plan, build state policy P call = .ok plan ∧ ClaimsFirst state policy plan.decisions := by
  obtain ⟨plan, hbuild, -, hdecisions⟩ := build_ok state policy (hdigest (planText state)) call
  exact ⟨plan, hbuild, hdecisions ▸ decisions_claimsFirst state policy⟩

def questKind : Key := ⟨"quest", by decide⟩

def mailKind : Key := ⟨"mail", by decide⟩

/-- A quest with a choice, a daily reward and a mail. -/
def dailyState : RewardState where
  inventorySafetyAvailable := true
  candidates :=
    [{ kind := questKind, identifier := ⟨"choice", by decide⟩, completed := true,
        claimed := false, choiceCount := 2, cost := 0, wouldOverflow := false },
      { kind := ⟨"daily", by decide⟩, identifier := ⟨" 20 ", by decide⟩, completed := true,
        claimed := false, choiceCount := 0, cost := 0, wouldOverflow := false },
      { kind := mailKind, identifier := ⟨"m1", by decide⟩, completed := true,
        claimed := false, choiceCount := 0, cost := 0, wouldOverflow := false }]

def rewardPorts (digest : String) : Ports where
  tokenExpiry _ := none
  sha256 _ := digest

def firstCall : BuildCall := { accountId := some 1, now := some 0, freshAccount := 1, clock := 0, id := 2 }

theorem one_safe_reward_daily :
    (∃ plan, build dailyState defaultPolicy
        (rewardPorts "e5042d9d7e6982b84acc2b96b81aad7234fbe8142b4a88f43a6316e3ce866ae1") firstCall =
          .ok plan ∧ ClaimsFirst dailyState defaultPolicy plan.decisions) ∧
      (decisions dailyState defaultPolicy).map (fun d => d.state) =
        [.skipped, .selected, .skipped] :=
  have hdigest : isFingerprint ("pgfp:v1:" ++
      "e5042d9d7e6982b84acc2b96b81aad7234fbe8142b4a88f43a6316e3ce866ae1") = true := by
    decide +kernel
  ⟨one_safe_reward (rewardPorts _) (fun _ => hdigest) dailyState defaultPolicy firstCall,
    by decide +kernel⟩

end SafeRewardPlanner

end PlaceGame
