import PlaceGame.Accounts.Entries
import PlaceGame.Accounts.Mutate

/-!
# PlaceGame.Accounts.Mutations

What `mutate` keeps, for any monitor that grants `Mutations`: besides the sessions on its account, the
local variables of the loop, the callbacks, and the plan that it loads and finishes. The part from
the send on, with the handler, needs only `Sends`.
-/

namespace PlaceGame

open Coop

variable {T μ α : Type}

/-- The callbacks of `mutate`. -/
def Op.Callback : Op T → Prop
  | .stateFingerprint _ _ | .operation _ _ _ | .verify _ _ => True
  | _ => False

/-- What the part of an attempt from the send on awaits, apart from the plan store. -/
def Op.Following : Op T → Prop
  | .clock | .sleep | .bootstrap _ | .operation _ _ _ | .verify _ _ => True
  | _ => False

structure Sends (M : Monitor (sig T) μ) (args : MutateArgs) (I : μ → Frame → Prop) : Prop where
  sends : ∀ m f, I m f → I m { f with sendStarted := true }
  follows : ∀ m f (o : Op T), o.Following → I m f →
    M.ok m o ∧ ∀ r, M.ans m o r → I (M.next m o r) f
  succeeds : ∀ m f now, I m f → I m { f with record := f.record.succeed now }
  audits : ∀ m f event, I m f → I m { f with audits := f.audits ++ [event] }
  finishes : ∀ m f p status result, f.validatedPlanId = some p → I m f →
    (PlanStore.finish p status result : Tx T Unit).wp M (fun m' _ f' => I m' f') m f

namespace Sends

open Mutate

variable {M : Monitor (sig T) μ} {args : MutateArgs} {I : μ → Frame → Prop}
variable (hm : Sends M args I)
include hm

theorem auditMutate (accountId : Option AccountId) (planId : Option PlanId) (result : Json) :
    Stable M I (Mutate.auditMutate args accountId planId result : Tx T Unit) :=
  stable_modifyFrame fun m f => hm.audits m f _

theorem finishValidated (status : PlanState) (result : List (String × Json)) :
    Stable M I (Mutate.finishValidated status result : Tx T Unit) := by
  intro m f hI
  unfold Mutate.finishValidated
  rw [Coro.wp_bind, wp_frame, Coro.chain_ok]
  split
  · rename_i p hp
    exact hm.finishes m f p status result hp hI
  · exact hI

theorem ask {o : Op T} (ho : o.Following) : Stable M I (await o : Tx T o.Val) :=
  Stable.await fun m f => hm.follows m f o ho

theorem cancelledAfterSend : Stable M I (Mutate.cancelledAfterSend args : Tx T (LoopEnd T)) :=
  Stable.bind (hm.finishValidated _ _) fun _ => Stable.bind stable_frame fun _ =>
    Stable.bind (hm.auditMutate _ _ _) fun _ => Stable.pure _

theorem succeed (reconciled : Bool) (value : Option T) :
    Stable M I (Mutate.succeed args reconciled value : Tx T (LoopEnd T)) :=
  Stable.bind (hm.ask trivial) fun _ =>
    Stable.bind (stable_modifyFrame fun m f => hm.succeeds m f _) fun _ =>
      Stable.bind (hm.finishValidated _ _) fun _ => Stable.bind stable_frame fun _ =>
        Stable.bind (hm.auditMutate _ _ _) fun _ => Stable.pure _

theorem reconcileAmbiguous (api : GameApi) :
    Stable M I (Mutate.reconcileAmbiguous args api : Tx T (LoopEnd T)) := by
  unfold Mutate.reconcileAmbiguous
  refine Stable.bind (Stable.raiseIf _ _) fun _ => Stable.bind (Stable.attempt ?_) fun r => ?_
  · exact Stable.bind (hm.ask trivial) fun _ => hm.ask trivial
  · split
    · exact hm.cancelledAfterSend
    · exact Stable.raise _
    · exact Stable.raise _
    · exact Stable.bind (Stable.raiseIf _ _) fun _ => hm.succeed _ _

theorem verifySent (api : GameApi) (value : T) :
    Stable M I (Mutate.verifySent args api value : Tx T (LoopEnd T)) := by
  unfold Mutate.verifySent
  refine Stable.bind (Stable.attempt (hm.ask trivial)) fun r => ?_
  split
  · exact hm.cancelledAfterSend
  · exact Stable.raise _
  · exact Stable.raise _
  · exact Stable.bind (Stable.raiseIf _ _) fun _ => hm.succeed _ _

theorem confirmSent (api : GameApi) (value : T) :
    Stable M I (Mutate.confirmSent args api value : Tx T (LoopEnd T)) := by
  unfold Mutate.confirmSent
  refine Stable.bind (Stable.attempt (hm.ask trivial)) fun r => ?_
  split
  · exact hm.cancelledAfterSend
  · exact Stable.raise _
  · exact Stable.ite _ (Stable.raise _) (Stable.raise _)
  · exact Stable.ite _ (hm.verifySent api value) (hm.succeed _ _)

/-- The send from a state in which the operation may be called; the next attempt finds the session
as it was. -/
theorem send_from {I₀ : μ → Frame → Prop} {api : GameApi}
    (hop : ∀ m f, I₀ m f → M.ok m (.operation args.accountId args.planId api) ∧
      ∀ r : Except Exc T, M.ans m (.operation args.accountId args.planId api) r →
        I (M.next m (.operation args.accountId args.planId api) r) { f with sendStarted := true })
    (left : Nat) {m : μ} {f : Frame} (h : I₀ m f) :
    (Mutate.send args left api : Tx T (Option (LoopEnd T))).wp M
      (fun m' r f' => I m' f' ∧ (r = .ok none → f' = { f with sendStarted := true })) m f := by
  have hdone : ∀ {c : Tx T (LoopEnd T)} {m f f₀}, Stable M I c → I m f →
      (do let e ← c; return some e : Tx T (Option (LoopEnd T))).wp M
        (fun m' r f' => I m' f' ∧ (r = .ok none → f' = f₀)) m f := by
    intro c m f f₀ hc hI
    exact Coro.wp_seq (hc m f hI) (fun _ _ _ hI' => ⟨hI', nofun⟩) fun _ _ _ hI' => ⟨hI', nofun⟩
  unfold Mutate.send
  rw [Coro.wp_bind, wp_modifyFrame, Coro.chain_ok, Coro.wp_bind, wp_attempt, wp_await]
  obtain ⟨hok, hnext⟩ := hop m f h
  refine ⟨hok, fun r hr => ?_⟩
  have hI := hnext r hr
  rw [Coro.chain_ok]
  split
  · exact hdone hm.cancelledAfterSend hI
  · refine (checks_raiseIf _ _).seq (fun e => ⟨hI, nofun⟩) fun _ _ => ?_
    have hboot := hm.ask (o := .bootstrap api) trivial
    rw [Coro.wp_bind, wp_await]
    obtain ⟨hok₁, hnext₁⟩ := hboot _ _ hI
    refine ⟨hok₁, fun r₁ hr₁ => ?_⟩
    have hI₁ := hnext₁ r₁ hr₁
    cases r₁ with
    | error e => exact ⟨hI₁, nofun⟩
    | ok _ =>
      rw [Coro.chain_ok, Coro.wp_bind, wp_await]
      obtain ⟨hok₂, hnext₂⟩ := hm.ask (o := .sleep) trivial _ _ hI₁
      refine ⟨hok₂, fun r₂ hr₂ => ?_⟩
      have hI₂ := hnext₂ r₂ hr₂
      cases r₂ with
      | error e => exact ⟨hI₂, nofun⟩
      | ok _ => exact ⟨hI₂, fun _ => rfl⟩
  · exact hdone (hm.reconcileAmbiguous api) hI
  · exact Coro.wp_seq (hm.finishValidated _ _ _ _ hI) (fun _ _ _ hI' => ⟨hI', nofun⟩)
      fun _ _ _ hI' => ⟨hI', nofun⟩
  · exact ⟨hI, nofun⟩
  · exact hdone (hm.confirmSent api _) hI

theorem send (left : Nat) (api : GameApi) :
    Stable M I (Mutate.send args left api : Tx T (Option (LoopEnd T))) := by
  intro m f hI
  refine Coro.wp_mono (hm.send_from (fun m f h => ?_) left hI) fun _ _ _ hr => hr.1
  exact hm.follows m _ (.operation args.accountId args.planId api) trivial (hm.sends m f h)

theorem terminalise (exc pending : Exc) :
    Stable M I (Mutate.terminalise exc pending : Tx T Unit) := by
  intro m f hI
  unfold Mutate.terminalise
  rw [Coro.wp_bind, wp_frame, Coro.chain_ok]
  split
  · rename_i p terminal hp _
    split
    · exact hm.finishes m f p _ _ hp hI
    · exact hI
  · exact hI

/-- The plan is finished and audited whatever was raised. -/
theorem handle (exc : Exc) : Stable M I (Mutate.handle args exc : Tx T Exc) := by
  unfold Mutate.handle
  dsimp only
  exact Stable.bind (hm.terminalise _ _) fun _ => Stable.bind stable_frame fun _ =>
    Stable.bind (hm.auditMutate _ _ _) fun _ => Stable.pure _

end Sends

structure Mutations (M : Monitor (sig T) μ) (args : MutateArgs) (I : μ → Frame → Prop)
    (J : μ → Prop) : Prop extends AccountSessions M args.accountId I J where
  resets : ∀ m f, I m f →
    I m { f with sendStarted := false, validatedPlanId := none, plan := none }
  sends : ∀ m f, I m f → I m { f with sendStarted := true }
  names : ∀ m f x, I m f → I m { f with validatedAccountId := x }
  audits : ∀ m f event, I m f → I m { f with audits := f.audits ++ [event] }
  asks : ∀ m f (o : Op T), o.Callback → I m f →
    M.ok m o ∧ ∀ r, M.ans m o r → I (M.next m o r) f
  loads : ∀ m f p, args.planId = some p → I m f → M.ok m (.getPlan p) ∧
    ∀ r : Except Exc (Option ActionPlan), M.ans m (.getPlan p) r →
      I (M.next m (.getPlan p) r) f ∧ ∀ plan, r = .ok (some plan) →
        I (M.next m (.getPlan p) r) { f with plan := some plan } ∧
        (plan.accountId = args.accountId → I (M.next m (.getPlan p) r)
          { f with plan := some plan, validatedPlanId := some p })
  finishes : ∀ m f p status result, f.validatedPlanId = some p → I m f →
    (PlanStore.finish p status result : Tx T Unit).wp M (fun m' _ f' => I m' f') m f

namespace Mutations

open Mutate

variable {M : Monitor (sig T) μ} {args : MutateArgs} {I : μ → Frame → Prop} {J : μ → Prop}
variable (hm : Mutations M args I J) (P : Ports)
include hm

theorem toSends : Sends M args I where
  sends := hm.sends
  follows m f o ho := by
    cases o <;> first | exact ho.elim | exact hm.inside m f _ trivial | exact hm.asks m f _ trivial
  succeeds m f now h := by
    have hkeep : Stable M I (modifyRecord (·.succeed now) : Tx T Unit) :=
      stable_modifyRecord hm.toAccountSessions fun _ => rfl
    exact hkeep m f h
  audits := hm.audits
  finishes := hm.finishes

theorem ask {o : Op T} (ho : o.Callback) : Stable M I (await o : Tx T o.Val) :=
  Stable.await fun m f => hm.asks m f o ho

theorem preparePlan {p : PlanId} (hp : args.planId = some p) (policy : VersionedPolicy)
    (api : GameApi) : Stable M I (Mutate.preparePlan args p policy api : Tx T Unit) := by
  intro m f hI
  obtain ⟨hok, hnext⟩ := hm.loads m f p hp hI
  unfold Mutate.preparePlan
  rw [Coro.wp_bind, wp_await]
  refine ⟨hok, fun r hr => ?_⟩
  obtain ⟨hsame, hplan⟩ := hnext r hr
  cases r with
  | error e => exact hsame
  | ok found =>
    rw [Coro.chain_ok]
    cases found with
    | none => exact hsame
    | some plan =>
      obtain ⟨hloaded, hvalidated⟩ := hplan plan rfl
      have hrest : Stable M I (do
          checkPlan plan policy.version
          raiseIf (args.hasFingerprint = false) .planPreconditionFailed
          let resolved ← await (.stateFingerprint p api)
          raiseIf (validFingerprint plan resolved = false) .planPreconditionFailed : Tx T Unit) :=
        Stable.bind (Stable.bind (hm.await trivial) fun _ => Stable.raiseIf _ _) fun _ =>
          Stable.bind (Stable.raiseIf _ _) fun _ =>
            Stable.bind (hm.ask trivial) fun _ => Stable.raiseIf _ _
      dsimp only
      rw [Coro.wp_bind, wp_modifyFrame, Coro.chain_ok, Coro.wp_bind, wp_raiseIf]
      refine ⟨fun _ => hloaded, fun howner => ?_⟩
      rw [Coro.chain_ok, Coro.wp_bind, wp_modifyFrame, Coro.chain_ok]
      exact hrest _ _ (hvalidated (not_not.mp howner))

theorem prepare : Stable M I (Mutate.prepare P args : Tx T GameApi) := by
  unfold Mutate.prepare
  refine Stable.bind (stable_modifyFrame hm.resets) fun _ => ?_
  refine Stable.bind hm.requireForUpdate fun _ => ?_
  refine Stable.bind (stable_modifyFrame fun m f => hm.names m f _) fun _ => ?_
  refine Stable.bind stable_record fun r => Stable.bind (stable_requireMutable r) fun _ => ?_
  refine Stable.bind (hm.quiet (ensureLocked_plain P _ _)) fun resolution => ?_
  split
  · exact Stable.raise _
  · refine Stable.bind (hm.quiet (saveSnapshot_plain P _ _ _)) fun _ => ?_
    refine Stable.bind (hm.await trivial) fun policy => ?_
    split
    · exact Stable.pure _
    · rename_i planId hplan
      exact Stable.bind (hm.preparePlan hplan policy _) fun _ => Stable.pure _

theorem attempts (left : Nat) : Stable M I (Mutate.attempts P args left : Tx T (LoopEnd T)) := by
  induction left with
  | zero => exact Stable.pure _
  | succ left ih =>
    unfold Mutate.attempts
    refine Stable.bind (hm.prepare P) fun api => Stable.bind (hm.toSends.send left api) fun e => ?_
    split
    · exact Stable.pure _
    · exact ih

theorem body : Stable M I (Mutate.body P args : Tx T (Except Exc (LoopEnd T))) := by
  unfold Mutate.body
  refine Stable.bind (hm.await trivial) fun _ => ?_
  refine Stable.bind (Stable.attempt (hm.attempts P 3)) fun r => ?_
  split
  · exact Stable.pure _
  · exact Stable.ite _ (Stable.bind (hm.toSends.handle _) fun _ => Stable.pure _) (Stable.raise _)

theorem mutate :
    Stable M (Sessions.Idle J) (AccountService.mutate P args : Action T (MutationOutcome T)) := by
  unfold AccountService.mutate
  refine Stable.bind (hm.transaction (hm.body P)) fun r => ?_
  split
  · exact Stable.raise _
  · exact Stable.raise _
  · exact Stable.pure _
  · exact Stable.raise _

end Mutations

end PlaceGame
