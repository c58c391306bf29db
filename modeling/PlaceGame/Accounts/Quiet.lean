import PlaceGame.Accounts.Service
import PlaceGame.Coop.Footprint
import PlaceGame.Policy.Store
import PlaceGame.Rules

/-!
# PlaceGame.Accounts.Quiet

The footprint of the session cycle and of the credential edits.

They only ask for the clock, the game's login and summary, and the identity constraint. Neither
touches the plan part of a session nor the policy version of the account, and neither writes an audit
under the name of `mutate`. `Plain` says so for every relation that such code respects.
-/

namespace PlaceGame

open Coop

variable {T : Type}

namespace Op

/-- What the session cycle asks for. -/
def Quiet : Op T → Prop
  | .clock | .sleep | .login _ _ | .bootstrap _ | .idleSummary _ _ | .findIdentity _
  | .flushIdentity _ _ | .flush => True
  | _ => False

/-- What the entry points without plans ask for, apart from new identifiers, the account row and the
end of a session. -/
def Free : Op T → Prop
  | .uuid | .accountForUpdate _ | .commit _ | .rollback => False
  | .tryExecutionGuard _ | .executionUnlock _ | .getPlan _ | .planForUpdate _ _ | .selectPlan _
  | .idleCollect _ _ _ | .stateFingerprint _ _ | .operation _ _ _ | .verify _ _ => False
  | _ => True

theorem Quiet.free {o : Op T} (h : o.Quiet) : o.Free := by
  cases o <;> first | exact trivial | exact h.elim

end Op

/-- The audit is not one of `mutate`. -/
def AuditEvent.Other (event : AuditEvent) : Prop := event.action ≠ "account.mutate"

/-- The plan part of the session is the same, and `mutate` has audited nothing more. -/
structure Frame.SamePlans (f f' : Frame) : Prop where
  plan : f'.plan = f.plan
  plans : f'.plans = f.plans
  newPlan : f'.newPlan = f.newPlan
  sendStarted : f'.sendStarted = f.sendStarted
  validatedPlanId : f'.validatedPlanId = f.validatedPlanId
  validatedAccountId : f'.validatedAccountId = f.validatedAccountId
  audits : ∃ more, f'.audits = f.audits ++ more ∧ ∀ event ∈ more, event.Other

theorem Frame.SamePlans.refl (f : Frame) : f.SamePlans f :=
  ⟨rfl, rfl, rfl, rfl, rfl, rfl, [], (List.append_nil _).symm, by simp⟩

theorem Frame.SamePlans.trans (f f' f'' : Frame) (h : f.SamePlans f') (h' : f'.SamePlans f'') :
    f.SamePlans f'' := by
  obtain ⟨more, hm, ho⟩ := h.audits
  obtain ⟨more', hm', ho'⟩ := h'.audits
  refine ⟨h'.plan.trans h.plan, h'.plans.trans h.plans, h'.newPlan.trans h.newPlan,
    h'.sendStarted.trans h.sendStarted, h'.validatedPlanId.trans h.validatedPlanId,
    h'.validatedAccountId.trans h.validatedAccountId, more ++ more', ?_, ?_⟩
  · rw [hm', hm, List.append_assoc]
  · intro event he
    rcases List.mem_append.mp he with he | he
    · exact ho event he
    · exact ho' event he

theorem Frame.SamePlans.of_eq {f f' : Frame} (hp : f'.plan = f.plan) (hps : f'.plans = f.plans)
    (hn : f'.newPlan = f.newPlan) (hs : f'.sendStarted = f.sendStarted)
    (hv : f'.validatedPlanId = f.validatedPlanId)
    (hva : f'.validatedAccountId = f.validatedAccountId) (ha : f'.audits = f.audits) :
    f.SamePlans f' :=
  ⟨hp, hps, hn, hs, hv, hva, [], by rw [ha, List.append_nil], by simp⟩

/-- The relations between two states of a session that survive what the code without plans does to
its account object: edits that keep the policy version, audits and snapshots of account `a`. -/
structure Frame.Tame (a : AccountId) (R : Frame → Frame → Prop) : Prop where
  refl : ∀ f, R f f
  trans : ∀ f f' f'', R f f' → R f' f'' → R f f''
  record : ∀ (f : Frame) (g : GameAccount → GameAccount),
    (∀ r, (g r).policyVersion = r.policyVersion) → R f { f with record := g f.record }
  token : ∀ (f : Frame) (token : Option String) (g : GameAccount → GameAccount),
    (∀ r, (g r).policyVersion = r.policyVersion) →
      R f { f with record := g f.record, sessionToken := some token }
  audit : ∀ (f : Frame) (event : AuditEvent), event.Other →
    R f { f with audits := f.audits ++ [event] }
  snapshot : ∀ (f : Frame) (row : AccountSnapshotRow), row.accountId = a →
    R f { f with snapshots := f.snapshots ++ [row] }

theorem Frame.SamePlans.tame (a : AccountId) : Frame.Tame a Frame.SamePlans where
  refl := Frame.SamePlans.refl
  trans := Frame.SamePlans.trans
  record _ _ _ := .of_eq rfl rfl rfl rfl rfl rfl rfl
  token _ _ _ _ := .of_eq rfl rfl rfl rfl rfl rfl rfl
  audit _ event h := ⟨rfl, rfl, rfl, rfl, rfl, rfl, [event], rfl, by simpa using h⟩
  snapshot _ _ _ := .of_eq rfl rfl rfl rfl rfl rfl rfl

/-- A part of a session on account `a` with its effects in `N` and nothing to do with plans. -/
def Plain {α : Type} (a : AccountId) (N : Op T → Prop) (c : Tx T α) : Prop :=
  ∀ R, Frame.Tame a R → Coro.Only (S := sig T) N R c

namespace Plain

variable {a : AccountId} {N : Op T → Prop} {α β : Type} {c : Tx T β}

theorem pure (x : α) : Plain a N (Pure.pure x : Tx T α) := fun _ h => Coro.Only.pure h.refl x

theorem raise (e : Exc) : Plain a N (PlaceGame.raise e : Tx T α) := fun _ h =>
  Coro.Only.raise (S := sig T) h.refl e

theorem raiseIf (p : Prop) [Decidable p] (e : Exc) :
    Plain a N (PlaceGame.raiseIf p e : Tx T Unit) := fun _ h =>
  Coro.Only.raiseIf (S := sig T) h.refl p e

theorem await {o : Op T} (ho : N o) : Plain a N (PlaceGame.await o : Tx T o.Val) := fun _ h =>
  Coro.Only.await h.refl ho

theorem attempt (hc : Plain a N c) : Plain a N (PlaceGame.attempt c) := fun R h =>
  Coro.Only.attempt (hc R h)

theorem bind {g : β → Tx T α} (hc : Plain a N c) (hg : ∀ x, Plain a N (g x)) :
    Plain a N (c >>= g) := fun R h =>
  Coro.Only.bind h.trans (hc R h) fun x => hg x R h

theorem ite (p : Prop) [Decidable p] {c d : Tx T α} (hc : Plain a N c) (hd : Plain a N d) :
    Plain a N (if p then c else d) := fun R h =>
  Coro.Only.ite p (hc R h) (hd R h)

theorem record : Plain a N (PlaceGame.record : Tx T GameAccount) :=
  bind (fun _ h => Coro.Only.get h.refl) fun _ => pure _

theorem modifyRecord {g : GameAccount → GameAccount}
    (hg : ∀ r, (g r).policyVersion = r.policyVersion) :
    Plain a N (PlaceGame.modifyRecord g : Tx T Unit) := fun _ h =>
  Coro.Only.modify fun f => h.record f g hg

theorem writeToken (token : Option String) {g : GameAccount → GameAccount}
    (hg : ∀ r, (g r).policyVersion = r.policyVersion) :
    Plain a N (PlaceGame.writeToken token g : Tx T Unit) := fun _ h =>
  Coro.Only.modify fun f => h.token f token g hg

theorem addAudit {event : AuditEvent} (h : event.Other) :
    Plain a N (PlaceGame.addAudit event : Tx T Unit) := fun _ ht =>
  Coro.Only.modify fun f => ht.audit f event h

theorem audit (actor : Actor) (accountId : Option AccountId) (action : String) (result : Json)
    (before after : Option Json) (planId : Option PlanId) (h : action ≠ "account.mutate") :
    Plain a N (PlaceGame.audit actor accountId action result before after planId : Tx T Unit) :=
  addAudit h

theorem addSnapshot {row : AccountSnapshotRow} (h : row.accountId = a) :
    Plain a N (modifyFrame fun f => { f with snapshots := f.snapshots ++ [row] } : Tx T Unit) :=
  fun _ ht => Coro.Only.modify fun f => ht.snapshot f row h

end Plain

section Cycle

variable (P : Ports) {α σ : Type} {R : σ → σ → Prop}

theorem loginAndBootstrap_only (hr : ∀ s, R s s) (ht : ∀ s s' s'', R s s' → R s' s'' → R s s'')
    (username password : String) :
    Coro.Only Op.Quiet R (loginAndBootstrap P username password : Coro (sig T) σ Login) := by
  have honce : Coro.Only Op.Quiet R (loginOnce P username password : Coro (sig T) σ Login) :=
    Coro.Only.bind ht (Coro.Only.await (S := sig T) hr trivial) fun _ =>
      Coro.Only.bind ht (Coro.Only.await (S := sig T) hr trivial) fun _ => Coro.Only.pure hr _
  have hall : ∀ n, Coro.Only Op.Quiet R
      (loginAttempts P username password n : Coro (sig T) σ Login) := by
    intro n
    induction n with
    | zero => exact Coro.Only.raise (S := sig T) hr _
    | succ n ih =>
      refine Coro.Only.bind ht (Coro.Only.attempt honce) fun r => ?_
      split
      · exact Coro.Only.pure hr _
      · refine Coro.Only.ite _ ?_ ?_
        · exact Coro.Only.bind ht (Coro.Only.await (S := sig T) hr trivial) fun _ => ih
        · exact ih
      · exact Coro.Only.raise (S := sig T) hr _
  exact hall 3

variable (a : AccountId) (actor : Actor)

theorem loginAndBootstrap_plain (username password : String) :
    Plain a Op.Quiet (loginAndBootstrap P username password : Tx T Login) := fun _ h =>
  loginAndBootstrap_only P h.refl h.trans username password

theorem identityMismatch_plain : Plain a Op.Quiet (identityMismatch a actor : Tx T Unit) :=
  Plain.bind (Plain.await trivial) fun _ =>
    Plain.bind (Plain.modifyRecord fun _ => rfl) fun _ => Plain.audit _ _ _ _ _ _ _ (by decide)

theorem bindOrMatchIdentity_plain (bootstrapId : String) :
    Plain a Op.Quiet (bindOrMatchIdentity a bootstrapId actor : Tx T Bool) := by
  have hreject : Plain a Op.Quiet (do identityMismatch a actor; return false : Tx T Bool) :=
    Plain.bind (identityMismatch_plain a actor) fun _ => Plain.pure _
  unfold bindOrMatchIdentity
  refine Plain.ite _ (Plain.pure _) (Plain.bind Plain.record fun r => ?_)
  split
  · refine Plain.bind (Plain.await trivial) fun _ => Plain.ite _ hreject ?_
    refine Plain.bind (Plain.await trivial) fun _ => Plain.ite _ ?_ hreject
    exact Plain.bind (Plain.modifyRecord fun _ => rfl) fun _ => Plain.pure _
  · exact Plain.ite _ (Plain.pure _) hreject

theorem resolveStoredIdentity_plain :
    Plain a Op.Quiet (resolveStoredIdentity P : Tx T String) := by
  unfold resolveStoredIdentity
  refine Plain.bind Plain.record fun r => ?_
  split
  · split
    · refine Plain.bind (Plain.raiseIf _ _) fun _ => ?_
      exact Plain.bind (loginAndBootstrap_plain P a _ _) fun _ => Plain.pure _
    · exact Plain.raise _
  · split
    · refine Plain.bind (Plain.raiseIf _ _) fun _ => ?_
      refine Plain.bind (Plain.attempt (Plain.await trivial)) fun _ => ?_
      split
      · exact Plain.pure _
      · exact Plain.raise _
      · exact Plain.raise _
    · exact Plain.raise _

theorem unauthenticated_plain : Plain a Op.Quiet (unauthenticated a : Tx T SessionResolution) :=
  Plain.bind Plain.record fun _ => Plain.pure _

theorem pauseForRefresh_plain :
    Plain a Op.Quiet (pauseForRefresh a actor : Tx T SessionResolution) :=
  Plain.bind (Plain.await trivial) fun _ => Plain.bind (Plain.modifyRecord fun _ => rfl) fun _ =>
    Plain.bind (Plain.audit _ _ _ _ _ _ _ (by decide)) fun _ => unauthenticated_plain a

theorem recordAuthFailure_policyVersion (now : Time) (r : GameAccount) :
    (r.recordAuthFailure now).policyVersion = r.policyVersion := by
  have hcount : (r.countAuthFailure now).policyVersion = r.policyVersion := by
    unfold GameAccount.countAuthFailure
    split
    · rfl
    · split <;> rfl
  unfold GameAccount.recordAuthFailure
  dsimp only
  split
  · exact hcount
  · exact hcount

theorem recordAuthFailure_plain :
    Plain a Op.Quiet (recordAuthFailure a actor : Tx T SessionResolution) :=
  Plain.bind (Plain.await trivial) fun now =>
    Plain.bind (Plain.modifyRecord (recordAuthFailure_policyVersion now)) fun _ =>
    Plain.bind Plain.record fun _ =>
      Plain.bind (Plain.audit _ _ _ _ _ _ _ (by decide)) fun _ => unauthenticated_plain a

theorem matchSession_plain (api : GameApi) (identity : String) (now : Time) :
    Plain a Op.Quiet (matchSession a actor api identity now : Tx T SessionResolution) := by
  unfold matchSession authenticated
  refine Plain.bind (bindOrMatchIdentity_plain a actor identity) fun _ => ?_
  refine Plain.ite _ ?_ (unauthenticated_plain a)
  exact Plain.bind (Plain.modifyRecord fun _ => rfl) fun _ => Plain.bind Plain.record fun _ => Plain.pure _

theorem ensureTokenOnly_plain (token : String) (now : Time) :
    Plain a Op.Quiet (ensureTokenOnly a actor token now : Tx T SessionResolution) := by
  unfold ensureTokenOnly
  refine Plain.bind (Plain.attempt (Plain.await trivial)) fun _ => ?_
  split
  · exact pauseForRefresh_plain a actor
  · exact Plain.raise _
  · exact matchSession_plain a actor _ _ _

theorem useStoredToken_plain (token : String) (now : Time) :
    Plain a Op.Quiet (useStoredToken a actor token now : Tx T (Option SessionResolution)) := by
  unfold useStoredToken
  refine Plain.bind (Plain.attempt (Plain.await trivial)) fun _ => ?_
  split
  · exact Plain.pure _
  · exact Plain.raise _
  · exact Plain.bind (matchSession_plain a actor _ _ _) fun _ => Plain.pure _

theorem renewSession_plain (now : Time) :
    Plain a Op.Quiet (renewSession P a actor now : Tx T SessionResolution) := by
  unfold renewSession
  refine Plain.bind Plain.record fun r => ?_
  split
  · refine Plain.bind (Plain.raiseIf _ _) fun _ => ?_
    refine Plain.bind (loginAndBootstrap_plain P a _ _) fun login => ?_
    refine Plain.bind (bindOrMatchIdentity_plain a actor _) fun _ => ?_
    refine Plain.ite _ ?_ (unauthenticated_plain a)
    exact Plain.bind (Plain.writeToken _ fun _ => rfl) fun _ => Plain.pure _
  · exact Plain.raise _

theorem ensureUnpaused_plain (now : Time) :
    Plain a Op.Quiet (ensureUnpaused P a actor now : Tx T SessionResolution) := by
  unfold ensureUnpaused
  refine Plain.bind Plain.record fun r => ?_
  dsimp only
  split
  · exact pauseForRefresh_plain a actor
  · exact Plain.ite _ (pauseForRefresh_plain a actor) (ensureTokenOnly_plain a actor _ _)
  · exact renewSession_plain P a actor now
  · refine Plain.ite _ (renewSession_plain P a actor now) ?_
    refine Plain.bind (useStoredToken_plain a actor _ _) fun r => ?_
    split
    · exact Plain.pure _
    · exact renewSession_plain P a actor now

theorem ensureLocked_plain :
    Plain a Op.Quiet (ensureLocked P a actor : Tx T SessionResolution) := by
  unfold ensureLocked
  refine Plain.bind (Plain.await trivial) fun now => Plain.bind Plain.record fun r => ?_
  refine Plain.ite _ (unauthenticated_plain a) ?_
  refine Plain.bind (Plain.attempt (ensureUnpaused_plain P a actor now)) fun _ => ?_
  split
  · exact Plain.pure _
  · exact recordAuthFailure_plain a actor
  · exact Plain.raise _

theorem saveSnapshot_plain (resolution : SessionResolution) (authenticated : Bool) :
    Plain a Op.Quiet (saveSnapshot P a resolution authenticated : Tx T AccountSnapshot) := by
  have hread : Plain a Op.Quiet (readState a resolution authenticated : Tx T Json) := by
    unfold readState
    split
    · refine Plain.ite _ ?_ (Plain.pure _)
      exact Plain.bind (Plain.await trivial) fun _ => Plain.pure _
    · exact Plain.pure _
  unfold saveSnapshot
  refine Plain.bind hread fun state => Plain.bind (Plain.await trivial) fun now => ?_
  dsimp only
  exact Plain.bind (Plain.addSnapshot rfl) fun _ => Plain.bind (Plain.await trivial) fun _ =>
    Plain.bind Plain.record fun _ => Plain.pure _

end Cycle

section CredentialEdits

open AccountService

variable (P : Ports) (a : AccountId) (actor : Actor)

theorem bindLegacy_plain : Plain a Op.Quiet (bindLegacy P a actor : Tx T (Option Exc)) := by
  unfold bindLegacy
  refine Plain.bind Plain.record fun r => Plain.ite _ (Plain.pure _) ?_
  refine Plain.bind (Plain.attempt (resolveStoredIdentity_plain P a)) fun _ => ?_
  split
  · exact Plain.pure _
  · exact Plain.raise _
  · refine Plain.bind (bindOrMatchIdentity_plain a actor _) fun _ => ?_
    exact Plain.ite _ (Plain.pure _) (Plain.pure _)

theorem verifyProposed_plain (proposed : Option String) (password : String) :
    Plain a Op.Quiet (verifyProposed P proposed password : Tx T (Option Login)) := by
  unfold verifyProposed
  split
  · exact Plain.pure _
  · refine Plain.ite _ (Plain.pure _) ?_
    refine Plain.bind (Plain.attempt (loginAndBootstrap_plain P a _ _)) fun _ => ?_
    split
    · exact Plain.pure _
    · exact Plain.ite _ (Plain.pure _) (Plain.raise _)

theorem rejectEdit_plain (action : String) (pending : Exc) (h : action ≠ "account.mutate") :
    Plain a Op.Quiet (rejectEdit a actor action pending : Tx T (Except Exc ManagedAccount)) :=
  Plain.bind (Plain.audit _ _ _ _ _ _ _ h) fun _ => Plain.pure _

theorem applyCredentials_plain (username : Option String) (password : String) :
    Plain a Op.Quiet (applyCredentials P a username password actor :
      Tx T (Except Exc ManagedAccount)) := by
  unfold applyCredentials
  refine Plain.bind Plain.record fun r => ?_
  dsimp only
  refine Plain.bind (verifyProposed_plain P a _ _) fun login => ?_
  split
  · refine Plain.bind (bindOrMatchIdentity_plain a actor _) fun _ => Plain.ite _ ?_ ?_
    · refine Plain.bind (Plain.await trivial) fun _ => Plain.bind (Plain.writeToken _ fun _ => rfl) fun _ => ?_
      refine Plain.bind (Plain.audit _ _ _ _ _ _ _ (by decide)) fun _ => ?_
      exact Plain.bind Plain.record fun _ => Plain.pure _
    · exact rejectEdit_plain a actor _ _ (by decide)
  · exact rejectEdit_plain a actor _ _ (by decide)

theorem applyTokenOnly_plain (sessionToken : String) :
    Plain a Op.Quiet (applyTokenOnly P a sessionToken actor : Tx T (Except Exc ManagedAccount)) := by
  unfold applyTokenOnly
  refine Plain.bind (Plain.attempt (Plain.await trivial)) fun _ => ?_
  split
  · exact rejectEdit_plain a actor _ _ (by decide)
  · exact Plain.raise _
  · refine Plain.bind (bindOrMatchIdentity_plain a actor _) fun _ => Plain.ite _ ?_ ?_
    · refine Plain.bind (Plain.await trivial) fun _ => Plain.bind (Plain.writeToken _ fun _ => rfl) fun _ => ?_
      refine Plain.bind (Plain.audit _ _ _ _ _ _ _ (by decide)) fun _ => ?_
      exact Plain.bind Plain.record fun _ => Plain.pure _
    · exact rejectEdit_plain a actor _ _ (by decide)

end CredentialEdits

end PlaceGame
