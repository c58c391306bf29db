import PlaceGame.Policy.History
import PlaceGame.Policy.Ownership
import PlaceGame.Policy.Projection

/-!
# PlaceGame.Policy.Previewed

A collection is asked for under the circumstances that its preview has seen.

`origins_of_reachable`: a stored plan was there from the start, was created by a direct call of the
store, or is the draft of a preview. `collected_as_previewed` joins this with what the ledger allows:
the executor has read the policy version of the plan and a summary of the same fingerprint. A
version stands for one policy for good, and the fingerprint for the capacity and the decision.
-/

namespace PlaceGame

open Coop PolicyHistory

namespace Projection

theorem idle_fingerprint_inj {P : Ports} (hsha : Function.Injective P.sha256)
    {idle idle' : IdleSummary} {policy policy' : AccountPolicy}
    (h : IdlePlanner.fingerprint P idle policy = IdlePlanner.fingerprint P idle' policy') :
    idle.capacitySeconds = idle'.capacitySeconds ∧
      (IdlePlanner.decision idle policy = .collect ↔
        IdlePlanner.decision idle' policy' = .collect) := by
  have hfields : "capacitySeconds" ≤ "eligible" := by decide
  have hkeys : "family" ≤ "projection" := by decide
  have hsorted : ∀ x, Json.sorted (Json.ofNat? x) = Json.ofNat? x := by
    rintro (_ | n) <;> rfl
  have hnat : Function.Injective Json.ofNat? := by
    intro x y hxy
    cases x <;> cases y <;> simp_all [Json.ofNat?]
  simp only [IdlePlanner.fingerprint, PlaceGame.canonicalFingerprint, String.append_right_inj,
    hsha.eq_iff, PlaceGame.canonicalJson, Json.dumps_inj] at h
  simp [Json.sorted, Json.sortedFields, Json.sortEntries, hfields, hkeys, hsorted,
    hnat.eq_iff] at h
  exact ⟨Option.map_injective PNat.coe_injective h.1, h.2⟩

end Projection

variable {T : Type} {P : Ports} {c c' : Config (machine T P)} {t : TaskId}
variable {U : Task (machine T P)} {w : World} {p : PlanId} {plan : ActionPlan} {a : AccountId}

/-! ## Where the readings of a ledger come from -/

/-- The readings of the ledger are answers of the history. -/
structure Told (m : Ledger) (hist : List (Event (sig T))) : Prop where
  idle : ∀ a idle, m.idle = some (a, idle) →
    ∃ api, (⟨.idleSummary a api, .ok idle⟩ : Event (sig T)) ∈ hist
  policy : ∀ a policy, m.policy = some (a, policy) →
    (⟨.policyGet a, .ok policy⟩ : Event (sig T)) ∈ hist

theorem Told.same {m m' : Ledger} {hist : List (Event (sig T))} (h : Told m hist)
    (hi : m'.idle = m.idle ∨ m'.idle = none) (hp : m'.policy = m.policy ∨ m'.policy = none)
    (e : Event (sig T)) : Told m' (e :: hist) := by
  constructor
  · intro a idle hidle
    rcases hi with hi | hi <;> rw [hi] at hidle
    · obtain ⟨api, hmem⟩ := h.idle a idle hidle
      exact ⟨api, List.mem_cons_of_mem _ hmem⟩
    · cases hidle
  · intro a policy hpolicy
    rcases hp with hp | hp <;> rw [hp] at hpolicy
    · exact List.mem_cons_of_mem _ (h.policy a policy hpolicy)
    · cases hpolicy

theorem Told.next {m : Ledger} {hist : List (Event (sig T))} (h : Told m hist) (o : Op T)
    (r : Except Exc o.Val) : Told (m.next o r) (⟨o, r⟩ :: hist) := by
  cases o with
  | idleSummary b api =>
    cases r with
    | error e => refine h.same ?_ ?_ _ <;> exact .inl rfl
    | ok found =>
      refine ⟨fun a idle hidle => ?_, fun a policy hpolicy => ?_⟩
      · cases hidle
        exact ⟨api, List.mem_cons_self⟩
      · exact List.mem_cons_of_mem _ (h.policy a policy hpolicy)
  | policyGet b =>
    cases r with
    | error e => refine h.same ?_ ?_ _ <;> exact .inl rfl
    | ok found =>
      refine ⟨fun a idle hidle => ?_, fun a policy hpolicy => ?_⟩
      · obtain ⟨api, hmem⟩ := h.idle a idle hidle
        exact ⟨api, List.mem_cons_of_mem _ hmem⟩
      · cases hpolicy
        exact List.mem_cons_self
  | commit ws =>
    cases r with
    | error e => refine h.same ?_ ?_ _ <;> exact .inl rfl
    | ok _ =>
      show Told (m.committed ws.plans) _
      unfold Ledger.committed
      split
      · refine h.same ?_ ?_ _ <;> exact .inr rfl
      · refine h.same ?_ ?_ _ <;> exact .inl rfl
  | tryExecutionGuard b =>
    rcases r with e | held
    · refine h.same ?_ ?_ _ <;> exact .inl rfl
    · cases held <;> refine h.same ?_ ?_ _ <;> exact .inl rfl
  | planForUpdate q b =>
    rcases r with e | found
    · refine h.same ?_ ?_ _ <;> exact .inl rfl
    · cases found <;> refine h.same ?_ ?_ _ <;> exact .inl rfl
  | _ => cases r <;> refine h.same ?_ ?_ _ <;> exact .inl rfl

theorem told (U : Task (machine T P)) : Told (ledgerOf U) U.hist := by
  unfold ledgerOf
  induction U.hist with
  | nil => exact ⟨fun _ _ h => (by cases h), fun _ _ h => (by cases h)⟩
  | cons e hist ih => exact ih.next e.op e.ans

/-! ## Where plans come from -/

/-- The plan is the draft of what this preview has read. -/
structure Preview (U : Task (machine T P)) (a : AccountId) (idle : IdleSummary)
    (policy : VersionedPolicy) : Prop where
  call : ∃ actor correlationId, U.call = .preview a actor correlationId
  idle : ∃ api, (⟨.idleSummary a api, .ok idle⟩ : Event (sig T)) ∈ U.hist
  policy : (⟨.policyGet a, .ok policy⟩ : Event (sig T)) ∈ U.hist

def Previewed (c : Config (machine T P)) (plan : ActionPlan) : Prop :=
  ∃ t U a idle policy now draft, c.task t = some U ∧ Preview U a idle policy ∧
    IdlePlanner.draft P a idle policy now = some draft ∧
    plan.creation = (IdlePreviewStore.row draft).creation

/-- A direct call of `PostgresPlanStore.create` has inserted the plan. -/
def CreatedDirectly (p : PlanId) (c : Config (machine T P)) : Prop :=
  ∃ t U row ws r, c.task t = some U ∧ U.call = .createPlan row ∧
    (⟨.commit ws, r⟩ : Event (sig T)) ∈ U.hist ∧ ws.newPlan.map Prod.fst = some p

def Origins (w : World) (c : Config (machine T P)) : Prop :=
  ∀ p plan, c.world.plans.get p = some plan →
    (w.plans.get p).isSome = true ∨ CreatedDirectly p c ∨ Previewed c plan

theorem Preview.keeps {U' : Task (machine T P)} {idle : IdleSummary} {policy : VersionedPolicy}
    (h : Preview U a idle policy) (hcall : U'.call = U.call) (hhist : U.hist ⊆ U'.hist) :
    Preview U' a idle policy where
  call := hcall ▸ h.call
  idle := h.idle.imp fun _ hmem => hhist hmem
  policy := hhist h.policy

theorem Previewed.step (h : Previewed c plan) (hst : Step c c') {plan' : ActionPlan}
    (hsame : plan'.creation = plan.creation) : Previewed c' plan' := by
  obtain ⟨t, U, a, idle, policy, now, draft, hU, hpreview, hdraft, hrow⟩ := h
  obtain ⟨U', hU', hcall, hhist⟩ := hst.keeps hU
  exact ⟨t, U', a, idle, policy, now, draft, hU', hpreview.keeps hcall hhist, hdraft,
    hsame.trans hrow⟩

theorem CreatedDirectly.step (h : CreatedDirectly p c) (hst : Step c c') :
    CreatedDirectly p c' := by
  obtain ⟨t, U, row, ws, r, hU, hcall, hmem, hnew⟩ := h
  obtain ⟨U', hU', hsame, hhist⟩ := hst.keeps hU
  exact ⟨t, U', row, ws, r, hU', hsame.trans hcall, hhist hmem, hnew⟩

/-- A new row is the draft of a preview, or the row of a direct call. -/
theorem previewed_of_drafts {ws : Writes} (hcommit : Committing c c' t U ws)
    (hnew : ws.newPlan = some (p, plan)) (hd : (ledgerOf U).Drafts P plan U.call)
    (hst : Step c c') : CreatedDirectly p c' ∨ Previewed c' plan := by
  obtain ⟨r, k, hafter⟩ := hcommit.after
  unfold Ledger.Drafts at hd
  split at hd
  · rename_i a actor correlationId hcall
    obtain ⟨idle, policy, now, draft, hidle, hpolicy, hdraft, rfl⟩ := hd
    have htold := told U
    have hpreview : Preview U a idle policy :=
      ⟨⟨actor, correlationId, hcall⟩, htold.idle a idle hidle, htold.policy a policy hpolicy⟩
    right
    exact Previewed.step ⟨t, U, a, idle, policy, now, draft, hcommit.task, hpreview, hdraft, rfl⟩
      hst rfl
  · rename_i row hcall
    left
    refine ⟨t, _, row, ws, r, hafter, hcall, List.mem_cons_self, ?_⟩
    rw [hnew]
    rfl
  · exact hd.elim

theorem Origins.step (hw : w.Sound) (h : Reachable (.start w) c) (hs : Origins w c)
    (hst : Step c c') : Origins w c' := by
  intro p plan' hp'
  have hkept : ∀ {plan}, c.world.plans.get p = some plan → plan'.creation = plan.creation →
      (w.plans.get p).isSome = true ∨ CreatedDirectly p c' ∨ Previewed c' plan' := by
    intro plan hp hsame
    rcases hs p plan hp with hold | hdirect | hpreviewed
    · exact .inl hold
    · exact .inr (.inl (hdirect.step hst))
    · exact .inr (.inr (hpreviewed.step hst hsame))
  rcases plan_step hw h hst p with hsame | ⟨plan₁, t, U, ws, hget, hedit⟩
  · exact hkept (hsame ▸ hp') rfl
  · cases hget.symm.trans hp'
    have hchange := hedit.change
    generalize hrow : c.world.plans.get p = row at hchange
    cases hchange with
    | created hnew _ hdrafts => exact .inr (previewed_of_drafts hedit.commit hnew hdrafts hst)
    | updated _ _ _ => exact hkept hrow (PlanUpdate.apply_creation _ _)
    | mutated _ _ _ hends =>
      obtain ⟨state, result, at_, -, rfl⟩ := hends
      exact hkept hrow (PlanUpdate.apply_creation _ _)

theorem origins_of_reachable (hw : w.Sound) (h : Reachable (.start w) c) : Origins w c := by
  refine Reachable.invariant h (Origins w) (fun p plan hp => .inl ?_)
    fun _ _ hr hs hst => hs.step hw hr hst
  exact Option.isSome_of_eq_some hp

/-! ## Collections -/

/-- The draft of a preview carries what its plan is compared with later. -/
theorem IdlePlanner.of_draft {idle : IdleSummary} {policy : VersionedPolicy} {now : Time}
    {draft : ActionPlanDraft} (h : IdlePlanner.draft P a idle policy now = some draft) :
    IdlePlanner.decision idle policy.toAccountPolicy = .collect ∧ draft.accountId = a ∧
      draft.policyVersion = policy.version ∧
      draft.stateFingerprint = IdlePlanner.fingerprint P idle policy.toAccountPolicy := by
  unfold IdlePlanner.draft at h
  split at h
  · cases h
  · rename_i hcollect
    cases h
    exact ⟨not_not.mp hcollect, rfl, rfl, rfl⟩

/-- Whoever has read a version of a policy has read the same policy. -/
theorem policy_of_version (hw : w.Sound) (hnew : New a w) (h : Reachable (.start w) c)
    {u : TaskId} {V : Task (machine T P)} (ht : c.task t = some U) (hu : c.task u = some V)
    {policy policy' : VersionedPolicy}
    (hread : (⟨.policyGet a, .ok policy⟩ : Event (sig T)) ∈ U.hist)
    (hread' : (⟨.policyGet a, .ok policy'⟩ : Event (sig T)) ∈ V.hist)
    (hversion : policy.version = policy'.version) :
    policy.toAccountPolicy = policy'.toAccountPolicy := by
  obtain ⟨history, -, hlinear⟩ := (Linear.start hnew).run (c := .start w) hw .refl h
  have hsaved := hlinear.reads t U policy ht hread
  rw [hversion, hlinear.reads u V policy' hu hread'] at hsaved
  exact (Option.some.inj hsaved).symm

/-- A collection for a plan that the store was not asked for directly follows its preview: under the
same policy, and with the same capacity and decision, as the claimant has read them since its
claim. -/
theorem collected_as_previewed (hw : w.Sound) (hsha : Function.Injective P.sha256)
    (h : Reachable (.start w) c) (hfresh : w.plans.get p = none) (hdirect : ¬ CreatedDirectly p c)
    {api : GameApi} (ht : c.task t = some U) (hpending : U.pending = some (.idleCollect a p api))
    (hnew : New a w) :
    ∃ u V idle₀ policy₀ idle policy, c.task u = some V ∧ Preview V a idle₀ policy₀ ∧
      (ledgerOf U).idle = some (a, idle) ∧ (ledgerOf U).policy = some (a, policy) ∧
      policy.version = policy₀.version ∧ policy.toAccountPolicy = policy₀.toAccountPolicy ∧
      idle.capacitySeconds = idle₀.capacitySeconds ∧
      IdlePlanner.decision idle₀ policy₀.toAccountPolicy = .collect ∧
      IdlePlanner.decision idle policy.toAccountPolicy = .collect := by
  obtain ⟨k, hk⟩ := Task.pending_eq hpending
  obtain ⟨claim, hmay, idle, policy, hidle, hpolicy, hversion, hfingerprint⟩ := entitled h ht hk
  have hcreation := (owned_of_reachable hw h).creation t U claim ht hmay.held
  rw [hmay.planId] at hcreation
  obtain ⟨plan, hp, hsame⟩ := Option.map_eq_some_iff.mp hcreation
  -- the plan was previewed
  rcases origins_of_reachable hw h p plan hp with hold | hcreated |
    ⟨u, V, b, idle₀, policy₀, now, draft, hV, hpreview, hdraft, hrow⟩
  · rw [hfresh] at hold
    cases hold
  · exact absurd hcreated hdirect
  have hclaim : claim.plan.creation = (IdlePreviewStore.row draft).creation :=
    hsame.symm.trans hrow
  obtain ⟨hcollect, hdraftAccount, hdraftVersion, hdraftFingerprint⟩ := IdlePlanner.of_draft hdraft
  have haccount : a = b := by
    rw [← hmay.account, ← hdraftAccount]
    exact congrArg PlanCreation.accountId hclaim
  subst haccount
  have hversion : policy.version = policy₀.version := by
    rw [hversion, ← hdraftVersion]
    exact congrArg PlanCreation.policyVersion hclaim
  have hfingerprint : IdlePlanner.fingerprint P idle policy.toAccountPolicy =
      IdlePlanner.fingerprint P idle₀ policy₀.toAccountPolicy := by
    rw [hfingerprint, ← hdraftFingerprint]
    exact congrArg PlanCreation.stateFingerprint hclaim
  have hpolicies := policy_of_version hw hnew h ht hV ((told U).policy a policy hpolicy)
    hpreview.policy hversion
  obtain ⟨hcapacity, hdecision⟩ := Projection.idle_fingerprint_inj hsha hfingerprint
  exact ⟨u, V, idle₀, policy₀, idle, policy, hV, hpreview, hidle, hpolicy, hversion, hpolicies,
    hcapacity, hcollect, hdecision.mpr hcollect⟩

section Example

/-- An account that has gathered idle seconds, and no plan. -/
def readyWorld : World := { idleWorld with plans := {}, nextId := 1 }

theorem sound_readyWorld : readyWorld.Sound where
  ids a r h := by
    by_cases ha : a = 0
    · rw [ha]
      decide
    · rw [show readyWorld.accounts.get a = _ from Table.get_set_ne {} storedAccount ha] at h
      cases h
  planIds p plan h := by cases h
  unique := sound_idleWorld.unique
  reserved := sound_idleWorld.reserved
  once := sound_idleWorld.once

/-- SHA-256 of the snapshot and of the projection of this account. -/
def previewPorts : Ports where
  tokenExpiry _ := none
  sha256 := Projection.pinned
    [((snapshotState "g1" ⟨readyWorld.validSeconds 0, none⟩).dumps true,
      "b847f5beaea7d3ee82a34841ac7fa512f824e68336c297076c4f775e69860adf"),
      ("\x7b\"family\":\"idle\",\"projection\":\x7b\"capacitySeconds\":null,\"eligible\":true\x7d\x7d",
      "3867df2bb17a9f0a8d282b3c4cee40a073a8244e3df06b72b80bd97f362c2beb")]

theorem previewPorts_injective : Function.Injective previewPorts.sha256 := by
  refine Projection.pinned_injective (by simp) fun e he => ?_
  rcases List.mem_cons.mp he with rfl | he
  · exact Projection.pinned_hex (by decide)
  · cases List.mem_singleton.mp he
    exact Projection.pinned_hex (by decide)

def previewedRun : Config (machine Unit previewPorts) :=
  run (run (.start readyWorld) 0 (.preview 0 operator "c1") friendlyGame 14) 1
    (.execute 0 1 operator "c2" false) friendlyGame 15

theorem reachable_previewedRun : Reachable (.start readyWorld) previewedRun :=
  (reachable_run ..).trans (reachable_run ..)

theorem previewedRun_indirect : ¬ CreatedDirectly 1 previewedRun := by
  have hcalls : ∀ t U, previewedRun.task t = some U → ∀ row, U.call ≠ .createPlan row :=
    calls_of_run (p := fun call => ∀ row, call ≠ .createPlan row) (fun _ h => by cases h)
      (calls_of_run (p := fun call => ∀ row, call ≠ .createPlan row) (fun _ h => by cases h)
        fun _ _ h => by cases h)
  rintro ⟨t, U, row, ws, r, hU, hcall, -⟩
  exact hcalls t U hU row hcall

theorem previewedRun_pending :
    (previewedRun.task 1).any (fun U => U.pending.any fun o =>
      match o with
      | .idleCollect a p _ => a == 0 && p == 1
      | _ => false) = true := by
  decide +kernel

/-- The policy and the summary under which the plan is sent were the previewed ones. -/
theorem previewedRun_collects : ∃ u V idle₀ policy₀, previewedRun.task u = some V ∧
    Preview V 0 idle₀ policy₀ ∧
    IdlePlanner.decision idle₀ policy₀.toAccountPolicy = .collect := by
  obtain ⟨U, hU, h⟩ := (Option.any_eq_true ..).mp previewedRun_pending
  obtain ⟨o, ho, h⟩ := (Option.any_eq_true ..).mp h
  cases o with
  | idleCollect a p api =>
    simp only [Bool.and_eq_true, beq_iff_eq] at h
    obtain ⟨rfl, rfl⟩ := h
    have hnew : New 0 readyWorld := by
      refine ⟨fun r h => ?_, rfl⟩
      cases h
      rfl
    obtain ⟨u, V, idle₀, policy₀, -, -, hV, hpreview, -, -, -, -, -, hdecision, -⟩ :=
      collected_as_previewed sound_readyWorld previewPorts_injective reachable_previewedRun rfl
        previewedRun_indirect hU ho hnew
    exact ⟨u, V, idle₀, policy₀, hV, hpreview, hdecision⟩
  | _ => cases h

end Example

end PlaceGame
