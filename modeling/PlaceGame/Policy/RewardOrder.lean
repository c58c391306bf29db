import PlaceGame.Policy.Rewards

/-!
# PlaceGame.Policy.RewardOrder

How a reward plan depends on the order in which the server lists the candidates. The fingerprint sorts
them by identifier, so it shows the order of candidates that share one; the claim goes to the first
claimable candidate of the list.
-/

namespace PlaceGame

open Json Plans Sorting Projection

namespace SafeRewardPlanner

variable (state : RewardState) (policy : VersionedPolicy)

def selectedAction (made : List Plans.Decision) : Option RegisteredAction :=
  made.findSome? fun d => if d.state = .selected then d.action else none

def firstClaimable (candidates : List RewardCandidate) : Option RewardCandidate :=
  candidates.find? fun c => decide (Claimable c)

theorem firstClaimable_of_pos {candidate : RewardCandidate} (rest : List RewardCandidate)
    (h : Claimable candidate) : firstClaimable (candidate :: rest) = some candidate :=
  List.find?_cons_of_pos (p := fun c => decide (Claimable c)) (decide_eq_true h)

theorem firstClaimable_of_neg {candidate : RewardCandidate} (rest : List RewardCandidate)
    (h : ¬ Claimable candidate) : firstClaimable (candidate :: rest) = firstClaimable rest :=
  List.find?_cons_of_neg (p := fun c => decide (Claimable c)) (by simpa using h)

theorem selectedAction_decisionsFrom (selected : Bool) (candidates : List RewardCandidate) :
    selectedAction (decisionsFrom state policy selected candidates) =
      if Enabled state policy ∧ selected = false then
        (firstClaimable candidates).bind fun c => (action c).map Subtype.val
      else none := by
  induction candidates generalizing selected with
  | nil => simp [decisionsFrom, selectedAction, firstClaimable]
  | cons candidate rest ih =>
    have hrest := ih (selected || decide
      ((decision state policy candidate selected).state = .selected))
    by_cases hselected : (decision state policy candidate selected).state = .selected
    · obtain ⟨⟨henabled, hclaimable⟩, hfree⟩ :=
        (decision_selected_iff state policy candidate selected).mp hselected
      obtain ⟨a, haction, hclaims⟩ := (decision_action state policy candidate selected).1 hselected
      obtain ⟨hfamily, hcandidate⟩ := action_of_claims hclaims
      rw [if_pos ⟨henabled, hfree⟩, firstClaimable_of_pos rest hclaimable]
      rw [decisionsFrom, selectedAction, List.findSome?_cons, if_pos hselected, haction]
      exact (congrArg (Option.map Subtype.val) hcandidate).symm
    · have hnext : selectedAction (decisionsFrom state policy selected (candidate :: rest)) =
          selectedAction (decisionsFrom state policy selected rest) := by
        rw [decisionsFrom, selectedAction, List.findSome?_cons, if_neg hselected, selectedAction,
          decide_eq_false hselected, Bool.or_false]
      rw [decide_eq_false hselected, Bool.or_false] at hrest
      rw [hnext, hrest]
      by_cases hfree : Enabled state policy ∧ selected = false
      · have hclaimable : ¬ Claimable candidate := fun h =>
          hselected ((decision_selected_iff state policy candidate selected).mpr
            ⟨⟨hfree.1, h⟩, hfree.2⟩)
        rw [if_pos hfree, if_pos hfree, firstClaimable_of_neg rest hclaimable]
      · rw [if_neg hfree, if_neg hfree]

theorem selectedAction_decisions : selectedAction (decisions state policy) =
    if Enabled state policy then
      (firstClaimable state.candidates).bind fun c => (action c).map Subtype.val
    else none := by
  by_cases h : state.candidates = []
  · rw [decisions_of_nil state policy h, h]
    simp [selectedAction, firstClaimable, Decision.skipped]
  · rw [decisions_of_ne_nil state policy h, selectedAction_decisionsFrom]
    simp

/-! ## The fingerprint -/

theorem planText_inj {state state' : RewardState} : planText state = planText state' ↔
    arrange keyedArrays "" (projection state) = arrange keyedArrays "" (projection state') := by
  rw [planText, planText, canonicalJson, canonicalJson, dumps_inj, sorted_family, sorted_family,
    sorted_arrange, sorted_arrange]
  simp

theorem get?_candidates : (arrange keyedArrays "" (projection state)).get? "candidates" =
    some (.arr ((sortBy (fun c => c.identifier.val) state.candidates).map fun c =>
      arrange keyedArrays (childPath "" "candidates") (candidateJson c))) := by
  rw [projection, get?_arrange (by simp)]
  exact congrArg some
    (arrange_declared candidateJson (fun c => c.identifier.val) _ keyed_candidates fun c => candidate_key c _)

theorem candidate_eq_of_arrange {c c' : RewardCandidate} {path : String}
    (h : arrange keyedArrays path (candidateJson c) = arrange keyedArrays path (candidateJson c')) :
    c.kind = c'.kind ∧ c.identifier = c'.identifier := by
  have hfield : ∀ field, (candidateJson c |> arrange keyedArrays path).get? field =
      (candidateJson c' |> arrange keyedArrays path).get? field := fun field => by rw [h]
  have hkind := hfield "kind"
  have hkey := hfield "key"
  rw [candidateJson, candidateJson, get?_arrange (by simp), get?_arrange (by simp)] at hkind hkey
  exact ⟨Subtype.ext (Json.str.inj (Option.some.inj hkind)),
    Subtype.ext (Json.str.inj (Option.some.inj hkey))⟩

def name (c : RewardCandidate) : Key × Key := (c.kind, c.identifier)

/-- Two lists with one text agree, sorted by identifier, name by name. -/
theorem names_of_planText {state state' : RewardState} (h : planText state = planText state') :
    (sortBy (fun c => c.identifier.val) state.candidates).map name =
      (sortBy (fun c => c.identifier.val) state'.candidates).map name := by
  have hcandidates := congrArg (fun p => p.get? "candidates") (planText_inj.mp h)
  simp only [get?_candidates] at hcandidates
  have hnames := (related_of_map_eq (Json.arr.inj (Option.some.inj hcandidates))).imp
    fun c c' hsame => show name c = name c' from
      Prod.ext (candidate_eq_of_arrange hsame).1 (candidate_eq_of_arrange hsame).2
  rwa [← List.forall₂_map_right_iff, ← List.forall₂_map_left_iff, List.forall₂_eq_eq_eq] at hnames

/-- With distinct identifiers the order does not show in the text. -/
theorem planText_of_perm {candidates : List RewardCandidate}
    (hperm : candidates.Perm state.candidates)
    (hkeys : (state.candidates.map RewardCandidate.identifier).Nodup) :
    planText { state with candidates := candidates } = planText state := by
  have hvals : (state.candidates.map fun c => c.identifier.val).Nodup := by
    have := hkeys.map Subtype.val_injective
    rwa [List.map_map] at this
  rw [planText_inj, projection, projection, arrange, arrange]
  simp only [arrangeFields,
    arrange_declared candidateJson (fun c => c.identifier.val) _ keyed_candidates (fun c => candidate_key c _),
    sortBy_eq_of_perm hvals hperm.symm]

/-- Two candidates with one identifier show their order in the text. -/
theorem identifiers_of_planText (hnames : (state.candidates.map name).Nodup)
    (h : planText { state with candidates := state.candidates.reverse } = planText state) :
    (state.candidates.map RewardCandidate.identifier).Nodup := by
  rw [List.Nodup, List.pairwise_map, List.pairwise_iff_forall_sublist]
  intro a b hab hidentifier
  have hkey : a.identifier.val = b.identifier.val := congrArg Subtype.val hidentifier
  have hforward := (pair_sublist_sortBy (k := fun c : RewardCandidate => c.identifier.val) hkey
    hab).map name
  have hbackward := (pair_sublist_sortBy (k := fun c : RewardCandidate => c.identifier.val) hkey.symm
    (List.reverse_sublist.mpr hab)).map name
  have hsorted : ((sortBy (fun c => c.identifier.val) state.candidates).map name).Nodup :=
    ((sortBy_perm _ _).map name).nodup_iff.mpr hnames
  rw [← names_of_planText h] at hforward hsorted
  exact not_sublist_swap hsorted hforward hbackward

/-! ## The claim -/

theorem firstClaimable_some {candidates : List RewardCandidate} {c : RewardCandidate}
    (hc : c ∈ candidates) (h : Claimable c) :
    ∃ first ∈ candidates, Claimable first ∧ firstClaimable candidates = some first := by
  have hsome : (firstClaimable candidates).isSome := by
    rw [firstClaimable, List.find?_isSome]
    exact ⟨c, hc, decide_eq_true h⟩
  obtain ⟨first, hfirst⟩ := Option.isSome_iff_exists.mp hsome
  exact ⟨first, List.mem_of_find?_eq_some hfirst,
    of_decide_eq_true (List.find?_some (p := fun c => decide (Claimable c)) hfirst), hfirst⟩

theorem firstClaimable_none {candidates : List RewardCandidate}
    (h : ∀ c ∈ candidates, ¬ Claimable c) : firstClaimable candidates = none :=
  List.find?_eq_none.mpr fun c hc => by simpa using h c hc

/-- The candidates whose claim is one claim: one candidate, or daily rewards of one point. -/
def SameClaim (c c' : RewardCandidate) : Prop :=
  c = c' ∨ c.kind.val = "daily" ∧ c'.kind.val = "daily" ∧
    pyInt c.identifier.val = pyInt c'.identifier.val

theorem action_eq_of_sameClaim {c c' : RewardCandidate} (h : SameClaim c c') :
    action c = action c' := by
  cases h with
  | inl h => rw [h]
  | inr h =>
    obtain ⟨hkind, hkind', hpoint⟩ := h
    rw [action, action, if_pos hkind, if_pos hkind', hpoint]

theorem sameClaim_of_claims {a : RegisteredAction} {c c' : RewardCandidate}
    (hnames : (state.candidates.map name).Nodup) (hc : c ∈ state.candidates)
    (hc' : c' ∈ state.candidates) (h : Claims a c) (h' : Claims a c') : SameClaim c c' := by
  have hone : ∀ {key : Key}, c.kind.val = c'.kind.val → key = c.identifier →
      key = c'.identifier → SameClaim c c' := by
    intro key hkind hkey hkey'
    exact .inl (List.inj_on_of_nodup_map hnames hc hc'
      (Prod.ext (Subtype.ext hkind) (hkey.symm.trans hkey')))
  cases a with
  | dailyClaim point => exact .inr ⟨h.1, h'.1, h.2.trans h'.2.symm⟩
  | questClaim key => exact hone (h.1.trans h'.1.symm) h.2 h'.2
  | achievementClaim key => exact hone (h.1.trans h'.1.symm) h.2 h'.2
  | codexClaim key => exact hone (h.1.trans h'.1.symm) h.2 h'.2
  | mailClaim key => exact hone (h.1.trans h'.1.symm) h.2 h'.2
  | _ => exact absurd h id

/-- When all claimable candidates make one claim, every order of them selects it. -/
theorem selectedAction_of_perm {candidates : List RewardCandidate}
    (hperm : candidates.Perm state.candidates)
    (hsame : Enabled state policy → ∀ c ∈ state.candidates, ∀ c' ∈ state.candidates,
      Claimable c → Claimable c' → SameClaim c c') :
    selectedAction (decisions { state with candidates := candidates } policy) =
      selectedAction (decisions state policy) := by
  rw [selectedAction_decisions, selectedAction_decisions]
  by_cases henabled : Enabled state policy
  · rw [if_pos henabled, if_pos henabled]
    by_cases hsome : ∃ c ∈ state.candidates, Claimable c
    · obtain ⟨c, hc, hclaimable⟩ := hsome
      obtain ⟨first, hfirst, hsafe, heq⟩ := firstClaimable_some hc hclaimable
      obtain ⟨other, hother, hsafe', heq'⟩ :=
        firstClaimable_some (hperm.mem_iff.mpr hc) hclaimable
      have hclaim := hsame henabled other (hperm.mem_iff.mp hother) first hfirst hsafe' hsafe
      simp only [heq, heq', Option.bind_some, action_eq_of_sameClaim hclaim]
    · have hnone : ∀ c ∈ state.candidates, ¬ Claimable c := fun c hc h => hsome ⟨c, hc, h⟩
      rw [firstClaimable_none hnone,
        firstClaimable_none fun c hc => hnone c (hperm.mem_iff.mp hc)]
  · rw [if_neg henabled, if_neg henabled]

theorem selectedAction_front {c : RewardCandidate} (henabled : Enabled state policy)
    (hc : Claimable c) (rest : List RewardCandidate) :
    ∃ a, Claims a c ∧
      selectedAction (decisions { state with candidates := c :: rest } policy) = some a := by
  obtain ⟨a, ha⟩ := hc.representable
  obtain ⟨_, haction⟩ := action_of_claims ha
  refine ⟨a, ha, ?_⟩
  rw [selectedAction_decisions, if_pos henabled, firstClaimable_of_pos rest hc, Option.bind_some,
    haction]
  rfl

/-! ## Server order -/

/-- Every order of the candidates gives a plan with one fingerprint and one claim. -/
def OrderFree (P : Ports) : Prop :=
  ∀ candidates : List RewardCandidate, candidates.Perm state.candidates → ∀ call call' : BuildCall,
    ∃ plan plan', build state policy P call = .ok plan ∧
      build { state with candidates := candidates } policy P call' = .ok plan' ∧
      plan'.stateFingerprint = plan.stateFingerprint ∧
      selectedAction plan'.decisions = selectedAction plan.decisions

/-- The order of the candidates does not show exactly when no two of them share an identifier and the
claimable ones make one claim. -/
theorem order_free_iff (P : Ports)
    (hdigest : ∀ text, isFingerprint ("pgfp:v1:" ++ P.sha256 text) = true) (state : RewardState)
    (policy : VersionedPolicy) (hnames : (state.candidates.map name).Nodup)
    (hsha : Set.InjOn P.sha256 {text | ∃ candidates, candidates.Perm state.candidates ∧
      text = planText { state with candidates := candidates }}) :
    OrderFree state policy P ↔
      (state.candidates.map RewardCandidate.identifier).Nodup ∧
        (Enabled state policy → ∀ c ∈ state.candidates, ∀ c' ∈ state.candidates,
          Claimable c → Claimable c' → SameClaim c c') := by
  have hbuild : ∀ (s : RewardState) (call : BuildCall), ∃ plan, build s policy P call = .ok plan ∧
      plan.stateFingerprint = "pgfp:v1:" ++ P.sha256 (planText s) ∧
      plan.decisions = decisions s policy := fun s call =>
    build_ok s policy (hdigest _) call
  constructor
  · intro hfree
    have hsame : ∀ candidates : List RewardCandidate, candidates.Perm state.candidates →
        planText { state with candidates := candidates } = planText state ∧
          selectedAction (decisions { state with candidates := candidates } policy) =
            selectedAction (decisions state policy) := by
      intro candidates hperm
      let call : BuildCall :=
        { accountId := none, now := none, freshAccount := 0, clock := 0, id := 0 }
      obtain ⟨plan, plan', hplan, hplan', hfingerprint, haction⟩ := hfree candidates hperm call call
      obtain ⟨made, hmade, htext, hdecisions⟩ := hbuild state call
      obtain ⟨made', hmade', htext', hdecisions'⟩ := hbuild { state with candidates := candidates } call
      cases hplan.symm.trans hmade
      cases hplan'.symm.trans hmade'
      rw [htext, htext', String.append_right_inj] at hfingerprint
      rw [hdecisions, hdecisions'] at haction
      exact ⟨hsha ⟨candidates, hperm, rfl⟩ ⟨state.candidates, .refl _, rfl⟩ hfingerprint, haction⟩
    refine ⟨identifiers_of_planText state hnames (hsame _ (List.reverse_perm _)).1, ?_⟩
    intro henabled c hc c' hc' hclaimable hclaimable'
    -- each of the two is selected when it stands first
    obtain ⟨a, ha, hselected⟩ := selectedAction_front state policy henabled hclaimable
      (state.candidates.erase c)
    obtain ⟨b, hb, hselected'⟩ := selectedAction_front state policy henabled hclaimable'
      (state.candidates.erase c')
    rw [(hsame _ (List.perm_cons_erase hc).symm).2] at hselected
    rw [(hsame _ (List.perm_cons_erase hc').symm).2, hselected] at hselected'
    cases hselected'
    exact sameClaim_of_claims state hnames hc hc' ha hb
  · rintro ⟨hkeys, hclaims⟩ candidates hperm call call'
    obtain ⟨plan, hplan, htext, hdecisions⟩ := hbuild state call
    obtain ⟨plan', hplan', htext', hdecisions'⟩ := hbuild { state with candidates := candidates } call'
    refine ⟨plan, plan', hplan, hplan', ?_, ?_⟩
    · rw [htext, htext', planText_of_perm state hperm hkeys]
    · rw [hdecisions, hdecisions', selectedAction_of_perm state policy hperm hclaims]

def dailyOnlyState : RewardState := { dailyState with candidates := dailyState.candidates.take 2 }

theorem order_free_iff_daily : OrderFree dailyOnlyState defaultPolicy
    (rewardPorts "11f94d29a52431bcc3f4ccfbc3c2d4c7fd490a7dd3e0070ca3619ba81f96ab31") := by
  have hdigest : isFingerprint ("pgfp:v1:" ++
      "11f94d29a52431bcc3f4ccfbc3c2d4c7fd490a7dd3e0070ca3619ba81f96ab31") = true := by
    decide +kernel
  have hkeys : (dailyOnlyState.candidates.map RewardCandidate.identifier).Nodup := by
    decide +kernel
  have hclaims : ∀ c ∈ dailyOnlyState.candidates, ∀ c' ∈ dailyOnlyState.candidates,
      Claimable c → Claimable c' → c = c' := by
    decide +kernel
  refine (order_free_iff (rewardPorts _) (fun _ => hdigest) dailyOnlyState defaultPolicy
    (by decide +kernel) ?_).mpr
      ⟨hkeys, fun _ c hc c' hc' h h' => .inl (hclaims c hc c' hc' h h')⟩
  rintro _ ⟨candidates, hperm, rfl⟩ _ ⟨candidates', hperm', rfl⟩ -
  rw [planText_of_perm dailyOnlyState hperm hkeys, planText_of_perm dailyOnlyState hperm' hkeys]

/-- A quest and a mail with one identifier. -/
def sharedState : RewardState where
  inventorySafetyAvailable := true
  candidates :=
    [{ kind := questKind, identifier := ⟨"a", by decide⟩, completed := true,
        claimed := false, choiceCount := 0, cost := 0, wouldOverflow := false },
      { kind := mailKind, identifier := ⟨"a", by decide⟩, completed := true,
        claimed := false, choiceCount := 0, cost := 0, wouldOverflow := false }]

def sharedPorts : Ports where
  tokenExpiry _ := none
  sha256 text :=
    if text =
      "\x7b\"family\":\"safe_reward\",\"projection\":\x7b\"candidates\":[\x7b\"choiceCount\":0,\"claimed\":false,\"completed\":true,\"cost\":0,\"key\":\"a\",\"kind\":\"mail\",\"wouldOverflow\":false\x7d,\x7b\"choiceCount\":0,\"claimed\":false,\"completed\":true,\"cost\":0,\"key\":\"a\",\"kind\":\"quest\",\"wouldOverflow\":false\x7d],\"inventorySafetyAvailable\":true\x7d\x7d" then
      "27655ea508ead81f0278da501cc6f93ba94b8bc9bdd7e40ccb470e230a107095"
    else "c556e03f0a994aa508bd7a7988005417685236a5673d857590e609c70346cc14"

/-- In the other order the plan has another fingerprint and claims the mail instead of the quest. -/
theorem server_order_shows :
    (sharedState.candidates.map name).Nodup ∧
      ∃ plan plan', build sharedState defaultPolicy sharedPorts firstCall = .ok plan ∧
        build { sharedState with candidates := sharedState.candidates.reverse } defaultPolicy
          sharedPorts firstCall = .ok plan' ∧
        plan.stateFingerprint =
          "pgfp:v1:c556e03f0a994aa508bd7a7988005417685236a5673d857590e609c70346cc14" ∧
        plan'.stateFingerprint =
          "pgfp:v1:27655ea508ead81f0278da501cc6f93ba94b8bc9bdd7e40ccb470e230a107095" ∧
        selectedAction plan.decisions = some (.questClaim ⟨"a", by decide⟩) ∧
        selectedAction plan'.decisions = some (.mailClaim ⟨"a", by decide⟩) := by
  have hdigest : ∀ text, isFingerprint ("pgfp:v1:" ++ sharedPorts.sha256 text) = true := by
    intro text
    simp only [sharedPorts]
    split
    · decide +kernel
    · decide +kernel
  obtain ⟨plan, hplan, htext, hdecisions⟩ :=
    build_ok sharedState defaultPolicy (hdigest _) firstCall
  obtain ⟨plan', hplan', htext', hdecisions'⟩ :=
    build_ok { sharedState with candidates := sharedState.candidates.reverse } defaultPolicy
      (hdigest _) firstCall
  refine ⟨by decide +kernel, plan, plan', hplan, hplan', ?_, ?_, ?_, ?_⟩
  · rw [htext]
    decide +kernel
  · rw [htext']
    decide +kernel
  · rw [hdecisions]
    rfl
  · rw [hdecisions']
    rfl

end SafeRewardPlanner

end PlaceGame
