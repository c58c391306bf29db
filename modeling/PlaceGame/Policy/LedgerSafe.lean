import PlaceGame.Accounts.Mutations
import PlaceGame.Accounts.Safety
import PlaceGame.Policy.Ledger

/-!
# PlaceGame.Policy.LedgerSafe

Every call stays within its ledger.

Most calls never touch a plan: `Clean` is all that they keep. What is left are the writers of plans.
Each update they commit is one of a row they have locked, and an execution commits its claim, asks
for a collection and finishes the claim in this order, each at most once.
-/

namespace PlaceGame

open Coop

variable {T α β : Type}

/-- The claim of an execution, as the ledger knows it. -/
def Claim.held (claim : Claim) : Claimed :=
  ⟨claim.planId, claim.owner, claim.plan, claim.recovery⟩

namespace Ledger

variable {P : Ports} {call : Call} {C : Tenure → Prop} {m m' : Ledger} {f f' : Frame}

/-- A session without plan writes; what the call holds beyond it satisfies `C`. -/
structure Clean (C : Tenure → Prop) (m : Ledger) (f : Frame) : Prop where
  plans : f.plans = []
  newPlan : f.newPlan = none
  tenure : C m.toTenure

abbrev Holds (C : Tenure → Prop) (m : Ledger) : Prop := C m.toTenure

theorem tenure_free {o : Op T} (h : o.Free) (r : Except Exc o.Val) :
    (m.next o r).toTenure = m.toTenure := by
  cases o <;> first | exact h.elim | rfl | (cases r <;> rfl)

theorem tenure_committed (r : Except Exc Unit) {ws : Writes} (h : ws.plans = []) :
    (m.next (Op.commit (T := T) ws) r).toTenure = m.toTenure := by
  have hended : (m.ended []).toTenure = m.toTenure := by
    show ({ m.toTenure with closing := _ } : Tenure) = _
    rw [show (m.closing || (finishOf []).isSome) = m.closing from Bool.or_false _]
  cases r with
  | error e =>
    show (m.ended ws.plans).toTenure = _
    rw [h, hended]
  | ok _ =>
    show (m.committed ws.plans).toTenure = _
    rw [h]
    exact hended

theorem tenure_rollback (r : Except Exc Unit) :
    (m.next (Op.rollback (T := T)) r).toTenure = m.toTenure := by
  cases r <;> rfl

theorem ok_free {o : Op T} (h : o.Free) : m.ok P call o := by
  cases o <;> first | exact h.elim | exact trivial

theorem Clean.commits (h : Clean C m f) : m.CommitOk P call f.writes where
  updates := by
    rw [show f.writes.plans = [] from h.plans]
    exact .none
  newPlan id plan hn := by
    rw [show f.writes.newPlan = none from h.newPlan] at hn
    cases hn

theorem Clean.frame (h : Clean C m f) (hp : f'.plans = f.plans) (hn : f'.newPlan = f.newPlan) :
    Clean C m f' :=
  ⟨hp.trans h.plans, hn.trans h.newPlan, h.tenure⟩

theorem Clean.next (h : Clean C m f) (hs : m'.toTenure = m.toTenure) : Clean C m' f :=
  ⟨h.plans, h.newPlan, by rw [hs]; exact h.tenure⟩

theorem Holds.next (h : Holds C m) (hs : m'.toTenure = m.toTenure) : Holds C m' := by
  unfold Holds
  rw [hs]
  exact h

theorem sessions : Sessions (ledger T P call) (Clean C) (Holds C) where
  begins _ h := ⟨rfl, rfl, h⟩
  inside _ _ _ ho h := ⟨ok_free ho, fun r _ => h.next (tenure_free ho r)⟩
  between _ _ ho h := ⟨ok_free ho, fun r _ => Holds.next h (tenure_free ho r)⟩
  commits _ _ h := ⟨h.commits, fun r _ => Holds.next h.tenure (tenure_committed r h.plans)⟩
  abandons _ _ h := ⟨trivial, fun r _ => Holds.next h.tenure (tenure_rollback (T := T) r)⟩
  rolls _ h := ⟨trivial, fun r _ => Holds.next h (tenure_rollback (T := T) r)⟩

theorem tame (a : AccountId) :
    Frame.Tame a fun f f' => ∀ m, Clean C m f → Clean C m f' where
  refl _ _ h := h
  trans _ _ _ h h' m hc := h' m (h m hc)
  record _ _ _ _ h := h.frame rfl rfl
  token _ _ _ _ _ h := h.frame rfl rfl
  audit _ _ _ _ h := h.frame rfl rfl
  snapshot _ _ _ _ h := h.frame rfl rfl

theorem locked_frame (f : Frame) (a : AccountId) (r : Except Exc (Option GameAccount)) :
    (f.locked a r).plans = f.plans ∧ (f.locked a r).newPlan = f.newPlan := by
  unfold Frame.locked
  split
  · split <;> exact ⟨rfl, rfl⟩
  · exact ⟨rfl, rfl⟩

theorem accountSessions (a : AccountId) :
    AccountSessions (ledger T P call) a (Clean C) (Holds C) where
  toSessions := sessions
  tame := tame a
  locks m f h := by
    refine ⟨trivial, fun r _ => ?_⟩
    have hsame : (m.next (Op.accountForUpdate (T := T) a) r).toTenure = m.toTenure := by
      cases r <;> rfl
    obtain ⟨hp, hn⟩ := locked_frame f a r
    exact (h.next hsame).frame hp hn

/-! ## Calls without plans -/

section Entries

open AccountService

variable {a : AccountId} (actor : Actor)

abbrev Any : Tenure → Prop := fun _ => True

theorem stable_audit (accountId : Option AccountId) (action : String) (result : Json)
    (before after : Option Json) (planId : Option PlanId) :
    Stable (ledger T P call) (Clean C)
      (audit actor accountId action result before after planId : Tx T Unit) :=
  stable_modifyFrame fun _ _ h => h.frame rfl rfl

theorem enrols : Enrols (T := T) (ledger T P call) (Clean Any) actor := by
  intro record token identity action _ _
  have hs : Sessions (ledger T P call) (Clean Any) (Holds Any) := sessions
  have hconflict : ∀ existing reason, Stable (ledger T P call) (Clean Any) (do
      conflict actor existing reason; return none : Tx T (Option ManagedAccount)) := fun _ _ =>
    Stable.bind (stable_audit actor _ _ _ _ _ _) fun _ => Stable.pure _
  unfold enroll
  refine Stable.bind (hs.await trivial) fun _ => Stable.bind (hs.await trivial) fun _ => ?_
  refine Stable.ite _ (hconflict _ _) (Stable.bind (hs.await trivial) fun existing => ?_)
  split
  · exact hconflict _ _
  · refine Stable.bind (Stable.await fun m f h => ⟨trivial, fun r _ => ⟨h.plans, h.newPlan, trivial⟩⟩)
      fun id => ?_
    dsimp only
    refine Stable.bind (stable_modifyFrame fun _ _ h => h.frame rfl rfl) fun _ => ?_
    refine Stable.bind (hs.await trivial) fun _ => Stable.ite _ ?_ (Stable.raise _)
    exact Stable.bind (stable_audit actor _ _ _ _ _ _) fun _ => Stable.pure _

theorem drainRemoval_clean :
    Stable (ledger T P call) (Clean C) (drainRemoval a actor : Tx T RemovalReceipt) := by
  have hs : AccountSessions (ledger T P call) a (Clean C) (Holds C) := accountSessions a
  unfold drainRemoval
  refine Stable.bind hs.lockAccount fun _ => Stable.bind (hs.await trivial) fun ids => ?_
  refine Stable.bind (stable_modifyFrame fun _ _ h => h.frame rfl rfl) fun _ => ?_
  refine Stable.bind (hs.quiet (Plain.writeToken none fun _ => rfl)) fun _ => ?_
  exact Stable.bind (stable_audit actor _ _ _ _ _ _) fun _ =>
    Stable.bind (hs.await trivial) fun _ => Stable.pure _

theorem savePolicy_clean (policy : AccountPolicy) (expectedVersion : Int) :
    Stable (ledger T P call) (Clean C)
      (PolicyService.saveLocked a policy expectedVersion actor :
        Tx T PolicyService.SaveResult) := by
  have hs : AccountSessions (ledger T P call) a (Clean C) (Holds C) := accountSessions a
  have hkeep : ∀ g : Frame → Frame, (∀ f, (g f).plans = f.plans ∧ (g f).newPlan = f.newPlan) →
      Stable (ledger T P call) (Clean C) (modifyFrame g : Tx T Unit) := fun g hg =>
    stable_modifyFrame fun _ f h => h.frame (hg f).1 (hg f).2
  unfold PolicyService.saveLocked
  refine Stable.bind (hs.await trivial) fun _ => ?_
  refine Stable.bind (Stable.await fun m f h => ?_) fun found => ?_
  · exact ⟨trivial, fun r _ => h.next (by cases r <;> rfl)⟩
  · split
    · exact Stable.pure _
    · refine Stable.bind (hkeep _ fun _ => ⟨rfl, rfl⟩) fun _ => ?_
      refine Stable.bind (hs.await trivial) fun policyRow => ?_
      split
      · exact Stable.pure _
      · refine Stable.ite _ (Stable.bind (stable_audit actor _ _ _ _ _ _) fun _ => Stable.pure _) ?_
        dsimp only
        refine Stable.bind (hkeep _ fun _ => ⟨rfl, rfl⟩) fun _ => ?_
        refine Stable.bind (hkeep _ fun _ => ⟨rfl, rfl⟩) fun _ => ?_
        refine Stable.bind (hs.await trivial) fun _ => ?_
        exact Stable.bind (stable_audit actor _ _ _ _ _ _) fun _ => Stable.pure _

end Entries

/-! ## The plan store -/

/-- Selecting a plan for update: nothing comes of it, or the row is locked. The session keeps the
object that it held. -/
theorem wp_loadForUpdate {Q : Ledger → Except Exc ActionPlan → Frame → Prop} (p : PlanId)
    (a : Option AccountId) (herror : ∀ e, Q m (.error e) f)
    (hlocked : ∀ plan, (∀ b, a = some b → plan.accountId = b) →
      Q { m with locked := some (p, plan) } (.ok (f.plan.getD plan))
        { f with plan := some (f.plan.getD plan) }) :
    (PlanStore.loadForUpdate p a : Tx T ActionPlan).wp (ledger T P call) Q m f := by
  unfold PlanStore.loadForUpdate
  rw [Coro.wp_bind, wp_await]
  refine ⟨trivial, fun r hr => ?_⟩
  cases r with
  | error e => exact herror e
  | ok found =>
    rw [Coro.chain_ok]
    cases found with
    | none => exact herror _
    | some plan =>
      dsimp only
      rw [Coro.wp_bind, wp_frame, Coro.chain_ok, Coro.wp_bind, wp_modifyFrame, Coro.chain_ok]
      refine hlocked plan ?_
      rintro b rfl
      exact hr

/-! ## Mutations -/

section Mutate

variable {args : MutateArgs}

/-- A session of `mutate`: its plan updates are terminal states of its plan, whose row it has
locked. -/
structure Terminates (args : MutateArgs) (m : Ledger) (f : Frame) : Prop where
  locked : f.plans ≠ [] → ∃ p plan, args.planId = some p ∧ m.locked = some (p, plan)
  plans : ∀ e ∈ f.plans, args.planId = some e.1 ∧ Finished e.2
  newPlan : f.newPlan = none
  validated : ∀ p, f.validatedPlanId = some p → args.planId = some p

theorem Terminates.next (h : Terminates args m f) (hl : m'.locked = m.locked) :
    Terminates args m' f :=
  { h with locked := by rw [hl]; exact h.locked }

theorem Terminates.frame (h : Terminates args m f) (hp : f'.plans = f.plans)
    (hn : f'.newPlan = f.newPlan) (hv : f'.validatedPlanId = f.validatedPlanId) :
    Terminates args m f' where
  locked := by rw [hp]; exact h.locked
  plans := by rw [hp]; exact h.plans
  newPlan := hn.trans h.newPlan
  validated := by rw [hv]; exact h.validated

theorem Terminates.commits (h : Terminates args m f) :
    m.CommitOk P (.mutate args) f.writes where
  updates := by
    show m.Updates _ f.plans
    by_cases hp : f.plans = []
    · rw [hp]
      exact .none
    · obtain ⟨p, plan, hplan, hlocked⟩ := h.locked hp
      refine .mutated hlocked rfl hplan fun e he => ?_
      obtain ⟨hname, hfinished⟩ := h.plans e he
      rw [hplan] at hname
      exact ⟨(Option.some.inj hname).symm, hfinished⟩
  newPlan id plan hn := by
    rw [show f.writes.newPlan = none from h.newPlan] at hn
    cases hn

theorem locked_next {o : Op T} (hp : ∀ p a, o ≠ .planForUpdate p a) (he : o.ends = false)
    (r : Except Exc o.Val) : (m.next o r).locked = m.locked := by
  cases o with
  | planForUpdate p a => exact absurd rfl (hp p a)
  | commit ws => cases he
  | rollback => cases he
  | tryExecutionGuard a =>
    cases r with
    | error e => rfl
    | ok held => cases held <;> rfl
  | _ => cases r <;> rfl

theorem Op.Free.running {o : Op T} (h : o.Free) :
    (∀ p a, o ≠ .planForUpdate p a) ∧ o.ends = false := by
  cases o <;> first | exact h.elim | exact ⟨nofun, rfl⟩

theorem terminates_tame (a : AccountId) :
    Frame.Tame a fun f f' => ∀ m, Terminates args m f → Terminates args m f' where
  refl _ _ h := h
  trans _ _ _ h h' m hc := h' m (h m hc)
  record _ _ _ _ h := h.frame rfl rfl rfl
  token _ _ _ _ _ h := h.frame rfl rfl rfl
  audit _ _ _ _ h := h.frame rfl rfl rfl
  snapshot _ _ _ _ h := h.frame rfl rfl rfl

theorem terminates_sessions :
    Sessions (ledger T P (.mutate args)) (Terminates args) (Holds Any) where
  begins _ _ := ⟨fun h => absurd rfl h, fun _ he => absurd he List.not_mem_nil, rfl, nofun⟩
  inside _ _ _ ho h := by
    obtain ⟨hp, he⟩ := Op.Free.running ho
    exact ⟨ok_free ho, fun r _ => h.next (locked_next hp he r)⟩
  between _ _ ho _ := ⟨ok_free ho, fun _ _ => trivial⟩
  commits _ _ h := ⟨h.commits, fun _ _ => trivial⟩
  abandons _ _ _ := ⟨trivial, fun _ _ => trivial⟩
  rolls _ _ := ⟨trivial, fun _ _ => trivial⟩

theorem Terminates.locks (h : Terminates args m f) (a : AccountId)
    (r : Except Exc (Option GameAccount)) :
    Terminates args (m.next (Op.accountForUpdate (T := T) a) r) (f.locked a r) := by
  obtain ⟨hp, hn⟩ := locked_frame f a r
  refine (h.next (locked_next (o := Op.accountForUpdate (T := T) a) nofun rfl r)).frame hp hn ?_
  unfold Frame.locked
  split
  · split <;> rfl
  · rfl

/-- `PostgresPlanStore.finish` locks the row before it writes. -/
theorem finish_terminates {p : PlanId} (hp : args.planId = some p) (status : PlanState)
    (result : List (String × Json)) (h : Terminates args m f) :
    (PlanStore.finish p status result : Tx T Unit).wp (ledger T P (.mutate args))
      (fun m' _ f' => Terminates args m' f') m f := by
  unfold PlanStore.finish
  refine (checks_raiseIf _ _).seq (fun _ => h) fun _ hstatus => ?_
  have hterminal : status.terminal = true := by simpa using hstatus
  rw [Coro.wp_bind]
  refine wp_loadForUpdate p none (fun _ => h) fun plan _ => ?_
  have hlocked : Terminates args { m with locked := some (p, plan) }
      { f with plan := some (f.plan.getD plan) } :=
    { h with locked := fun _ => ⟨p, plan, hp, rfl⟩ }
  rw [Coro.chain_ok]
  refine (checks_raiseIf _ _).seq (fun _ => hlocked) fun _ _ => ?_
  rw [Coro.wp_bind, wp_clock]
  refine ⟨trivial, fun r _ => ?_⟩
  have hclock := hlocked.next (locked_next (o := Op.clock (T := T)) nofun rfl r)
  cases r with
  | error e => exact hclock
  | ok now =>
    have hupdated : Terminates args { m with locked := some (p, plan), now := some now }
        { f with
          plan := some ((PlanUpdate.finished status (PlanStore.safeResult result) now).apply
            (f.plan.getD plan))
          plans := f.plans ++ [(p, .finished status (PlanStore.safeResult result) now)] } := by
      refine ⟨fun _ => ⟨p, plan, hp, rfl⟩, ?_, h.newPlan, h.validated⟩
      intro e he
      rcases List.mem_append.mp he with he | he
      · exact h.plans e he
      · rw [List.mem_singleton.mp he]
        exact ⟨hp, hterminal⟩
    rw [Coro.chain_ok, Coro.wp_bind]
    unfold PlanStore.update
    rw [wp_modifyFrame, Coro.chain_ok, wp_await]
    exact ⟨trivial, fun r _ => hupdated.next (locked_next (o := Op.flush (T := T)) nofun rfl r)⟩

theorem mutations : Mutations (ledger T P (.mutate args)) args (Terminates args) (Holds Any) where
  toSessions := terminates_sessions
  tame := terminates_tame _
  locks _ _ h := ⟨trivial, fun r _ => h.locks (T := T) _ r⟩
  resets _ _ h := { h with validated := fun _ hp => by cases hp }
  sends _ _ h := h.frame rfl rfl rfl
  names _ _ _ h := h.frame rfl rfl rfl
  audits _ _ _ h := h.frame rfl rfl rfl
  asks _ _ o ho h := by
    have hrunning : (∀ p a, o ≠ .planForUpdate p a) ∧ o.ends = false := by
      cases o <;> first | exact ho.elim | exact ⟨nofun, rfl⟩
    refine ⟨?_, fun r _ => h.next (locked_next hrunning.1 hrunning.2 r)⟩
    cases o <;> first | exact ho.elim | exact trivial
  loads _ _ p hp h := by
    refine ⟨trivial, fun r _ => ?_⟩
    have hnext := h.next (locked_next (o := Op.getPlan (T := T) p) nofun rfl r)
    refine ⟨hnext, fun plan _ => ⟨hnext.frame rfl rfl rfl, fun _ => ?_⟩⟩
    refine { hnext with validated := ?_ }
    rintro _ ⟨⟩
    exact hp
  finishes _ _ p status result hp h := finish_terminates (h.validated p hp) status result h

end Mutate

/-! ## Single updates -/

section Store

theorem rollsBack_any {Q : Ledger → Except Exc α → Unit → Prop} {e : Exc}
    (hQ : ∀ m e, Q m (.error e) ()) : RollsBack (ledger T P call) Q m e () := by
  refine ⟨trivial, fun r _ => ?_⟩
  cases r <;> exact hQ _ _

/-- A session that writes one plan, or none if it raised. -/
def Commits (P : Ports) (call : Call) (m : Ledger) (r : Except Exc α) (f : Frame) : Prop :=
  ∀ x, r = .ok x → m.CommitOk P call f.writes

theorem writes_error (e : Exc) : Commits (α := α) P call m (.error e) f := by
  intro x h
  cases h

theorem transaction_writes {body : Tx T α} (hb : body.wp (ledger T P call) (Commits P call) m {}) :
    (transaction body : Action T α).wp (ledger T P call) (fun _ _ _ => True) m () := by
  refine wp_transaction hb ?_ fun _ _ _ _ => rollsBack_any fun _ _ => trivial
  intro m' x f h
  refine ⟨h x rfl, fun r _ => ?_⟩
  cases r with
  | ok _ => exact trivial
  | error e => exact rollsBack_any fun _ _ => trivial

theorem commit_single {p : PlanId} {u : PlanUpdate} (plan : ActionPlan)
    (hl : m.locked = some (p, plan)) (ho : m.Single call p plan u) (hp : f.plans = [(p, u)])
    (hn : f.newPlan = none) : m.CommitOk P call f.writes where
  updates := by
    rw [show f.writes.plans = [(p, u)] from hp]
    exact .single hl ho
  newPlan id plan h := by
    rw [show f.writes.newPlan = none from hn] at h
    cases h

theorem commit_newPlan {id : PlanId} {plan : ActionPlan} (hp : f.plans = [])
    (hn : f.newPlan = some (id, plan)) (hs : plan.executionState = .pending)
    (hd : m.Drafts P plan call) : m.CommitOk P call f.writes where
  updates := by
    rw [show f.writes.plans = [] from hp]
    exact .none
  newPlan id' plan' h := by
    rw [show f.writes.newPlan = some (id, plan) from hn] at h
    cases h
    exact ⟨hp, hs, hd⟩

/-- The last await of a session: `flush` changes nothing of the ledger. -/
theorem flush_writes {Q : Ledger → Except Exc Unit → Frame → Prop} (h : ∀ r, Q m r f) :
    (await .flush : Tx T Unit).wp (ledger T P call) Q m f := by
  rw [wp_await]
  refine ⟨trivial, fun r _ => ?_⟩
  cases r <;> exact h _

theorem confirm_writes (p : PlanId) (a : AccountId) (actor : Actor) :
    (PlanStore.confirm p a actor : Tx T ActionPlan).wp (ledger T P call) (Commits P call) m {} := by
  unfold PlanStore.confirm
  rw [Coro.wp_bind]
  refine wp_loadForUpdate p _ writes_error fun plan _ => ?_
  rw [Coro.chain_ok]
  refine (checks_raiseIf _ _).seq writes_error fun _ hother => ?_
  have hpending : plan.executionState = .pending := not_not.mp hother
  rw [Coro.wp_bind, wp_clock]
  refine ⟨trivial, fun r _ => ?_⟩
  cases r with
  | error e => exact writes_error e
  | ok now =>
    rw [Coro.chain_ok]
    refine (checks_raiseIf _ _).seq writes_error fun _ _ => ?_
    rw [Coro.wp_bind, wp_clock]
    refine ⟨trivial, fun r _ => ?_⟩
    cases r with
    | error e => exact writes_error e
    | ok at_ =>
      rw [Coro.chain_ok, Coro.wp_bind]
      unfold PlanStore.update
      rw [wp_modifyFrame, Coro.chain_ok, Coro.wp_bind]
      refine flush_writes fun r => ?_
      cases r with
      | error e => exact writes_error e
      | ok _ =>
        rw [Coro.chain_ok, Coro.wp_pure]
        intro _ _
        refine commit_single (f := { plan := _, plans := [(p, _)] }) _ rfl ?_ rfl rfl
        exact hpending

theorem markExecuting_writes (p : PlanId) (expected : PlanState) :
    (PlanStore.markExecuting p expected : Tx T Unit).wp (ledger T P call) (Commits P call) m {} := by
  unfold PlanStore.markExecuting
  refine (checks_raiseIf _ _).seq writes_error fun _ hfresh => ?_
  rw [Coro.wp_bind]
  refine wp_loadForUpdate p none writes_error fun plan _ => ?_
  rw [Coro.chain_ok]
  refine (checks_raiseIf _ _).seq writes_error fun _ hstate => ?_
  rw [Coro.wp_bind, wp_clock]
  refine ⟨trivial, fun r _ => ?_⟩
  cases r with
  | error e => exact writes_error e
  | ok now =>
    rw [Coro.chain_ok]
    refine (checks_raiseIf _ _).seq writes_error fun _ hchecks => ?_
    rw [Coro.wp_bind]
    unfold PlanStore.update
    rw [wp_modifyFrame, Coro.chain_ok]
    refine flush_writes fun r _ _ => commit_single _ rfl ?_ rfl rfl
    have hexpected : plan.executionState = expected := not_not.mp hstate
    obtain ⟨-, hconfirmed⟩ := not_or.mp hchecks
    show plan.executionState = .confirmed ∨
      plan.executionState = .pending ∧ plan.confirmationRequired = false
    rw [hexpected]
    cases expected with
    | confirmed => exact .inl rfl
    | pending => exact .inr ⟨rfl, by simpa using hconfirmed⟩
    | executing => exact absurd rfl hfresh
    | executed => exact absurd rfl hfresh
    | failed => exact absurd rfl hfresh
    | reconciliationRequired => exact absurd rfl hfresh

theorem finish_writes (p : PlanId) (status : PlanState) (result : List (String × Json)) :
    (PlanStore.finish p status result : Tx T Unit).wp (ledger T P (.finishPlan p status result))
      (Commits P (.finishPlan p status result)) m {} := by
  unfold PlanStore.finish
  refine (checks_raiseIf _ _).seq writes_error fun _ hterminal => ?_
  rw [Coro.wp_bind]
  refine wp_loadForUpdate p none writes_error fun plan _ => ?_
  rw [Coro.chain_ok]
  refine (checks_raiseIf _ _).seq writes_error fun _ hopen => ?_
  rw [Coro.wp_bind, wp_clock]
  refine ⟨trivial, fun r _ => ?_⟩
  cases r with
  | error e => exact writes_error e
  | ok now =>
    rw [Coro.chain_ok, Coro.wp_bind]
    unfold PlanStore.update
    rw [wp_modifyFrame, Coro.chain_ok]
    refine flush_writes fun r _ _ => commit_single _ rfl ?_ rfl rfl
    exact ⟨by simpa using hopen, by simpa using hterminal, result, rfl⟩

theorem create_writes (row : ActionPlan) :
    (PlanStore.create row : Tx T PlanId).wp (ledger T P (.createPlan row))
      (Commits P (.createPlan row)) m {} := by
  unfold PlanStore.create
  rw [Coro.wp_bind, wp_await]
  refine ⟨trivial, fun r _ => ?_⟩
  cases r with
  | error e => exact writes_error e
  | ok id =>
    rw [Coro.chain_ok, Coro.wp_bind, wp_modifyFrame, Coro.chain_ok, Coro.wp_bind]
    refine flush_writes fun r => ?_
    cases r with
    | error e => exact writes_error e
    | ok _ =>
      rw [Coro.chain_ok, Coro.wp_pure]
      exact fun _ _ => commit_newPlan rfl rfl rfl trivial

end Store

/-! ## The account lock -/

section Locked

/-- A commit without plan writes keeps what the call has read. -/
theorem reads_committed (r : Except Exc Unit) {ws : Writes} (h : ws.plans = []) :
    (m.next (Op.commit (T := T) ws) r).idle = m.idle ∧
      (m.next (Op.commit (T := T) ws) r).previous = m.previous ∧
        (m.next (Op.commit (T := T) ws) r).policy = m.policy := by
  cases r with
  | error e => exact ⟨rfl, rfl, rfl⟩
  | ok _ =>
    show (m.committed ws.plans).idle = _ ∧ (m.committed ws.plans).previous = _ ∧
      (m.committed ws.plans).policy = _
    rw [h]
    exact ⟨rfl, rfl, rfl⟩

/-- `locked` with a body that writes no plan: what it finds out holds after the commit. -/
theorem locked_finds {a : AccountId} {body : AccountService.LockedAccount → Tx T β}
    {D : Ledger → β → Prop} (ho : C m.toTenure) (actor : Actor)
    (hsame : ∀ {m m' : Ledger} {x}, D m x → m'.toTenure = m.toTenure → m'.idle = m.idle →
      m'.previous = m.previous → m'.policy = m.policy → D m' x)
    (hb : ∀ locked m f, f.plans = [] → f.newPlan = none → C m.toTenure →
      m.policy = some (a, locked.policy) →
      (body locked).wp (ledger T P call) (fun m r f => ∀ x, r = .ok x →
        f.plans = [] ∧ f.newPlan = none ∧ D m x) m f) :
    (AccountService.locked P a actor body : Action T β).wp (ledger T P call)
      (fun m r _ => ∀ x, r = .ok x → D m x) m () := by
  have hs : AccountSessions (ledger T P call) a (Clean C) (Holds C) := accountSessions a
  refine locked_wp P actor hs (B := fun m r f => ∀ x, r = .ok x →
    f.plans = [] ∧ f.newPlan = none ∧ D m x) (Q := fun m r => ∀ x, r = .ok x → D m x) ho
    (fun _ _ _ _ h => by cases h) ?_ ?_ ?_
  · intro locked m f hI _
    exact hb locked _ f hI.plans hI.newPlan hI.tenure rfl
  · intro m x f h
    obtain ⟨hp, hn, hd⟩ := h x rfl
    have hclean : Clean Any m f := ⟨hp, hn, trivial⟩
    refine ⟨hclean.commits, fun r _ => ?_⟩
    cases r with
    | error e => exact rollsBack_any fun _ _ _ h => by cases h
    | ok _ =>
      rintro _ ⟨⟩
      obtain ⟨hi, hprev, hv⟩ := reads_committed (T := T) (m := m) (.ok ())
        (show f.writes.plans = [] from hp)
      exact hsame hd (tenure_committed (T := T) (.ok ()) hp) hi hprev hv
  · exact fun _ _ _ _ => rollsBack_any fun _ _ _ h => by cases h

end Locked

/-! ## Executions -/

section Execute

open IdleExecuteUseCase

variable {a : AccountId}

structure Guarded (a : AccountId) (s : Tenure) : Prop where
  guard : s.guard = some a
  claim : s.claim = none
  closing : s.closing = false
  unsent : s.sent = false

structure Open (a : AccountId) (claim : Claim) (sent : Bool) (s : Tenure) : Prop where
  guard : s.guard = some a
  held : s.claim = some claim.held
  account : claim.plan.accountId = a
  closing : s.closing = false
  sent : s.sent = sent

/-- What the transaction of a claim leaves in its session. -/
structure Claiming (P : Ports) (call : Call) (a : AccountId) (p : PlanId) (m : Ledger)
    (claim : Claim) (f : Frame) : Prop where
  commit : m.CommitOk P call f.writes
  makes : m.claimOf f.plans = some claim.held
  finishes : finishOf f.plans = none
  account : claim.plan.accountId = a
  planId : claim.planId = p
  tenure : Guarded a m.toTenure

theorem claimRow_claims {p : PlanId} {owner : Nat} {now : Time} (hg : Guarded a m.toTenure)
    (hd : m.drawn = some owner) (hn : m.now = some now) (actor source correlationId : String)
    (recovery : Bool) :
    (IdleExecutionClaims.claimRow a p owner now actor source correlationId recovery :
      Tx T Claim).wp (ledger T P call)
      (fun m' r f => ∀ claim, r = .ok claim → Claiming P call a p m' claim f) m {} := by
  unfold IdleExecutionClaims.claimRow
  rw [Coro.wp_bind]
  refine wp_loadForUpdate p _ (fun _ _ h => by cases h) fun plan hplan => ?_
  have haccount : plan.accountId = a := hplan a rfl
  have hmay : MayClaim { m with locked := some (p, plan) } plan owner now
      (now + IdleExecutionClaims.lease) :=
    ⟨hg.claim, by rw [haccount]; exact hg.guard, hd, hn, rfl, hg.unsent, hg.closing⟩
  rw [Coro.chain_ok]
  show (if plan.executionState = .executing then _ else _ : Tx T Claim).wp _ _ _ _
  rw [Coro.wp_ite]
  refine ⟨fun hexecuting => ?_, fun hother => ?_⟩
  · refine (checks_raiseIf _ _).seq (fun _ _ h => by cases h) fun _ hexpired => ?_
    refine (checks_raiseIf _ _).seq (fun _ _ h => by cases h) fun _ _ => ?_
    dsimp only
    rw [Coro.wp_bind]
    unfold PlanStore.update
    rw [wp_modifyFrame, Coro.chain_ok, Coro.wp_bind]
    unfold IdleExecutionClaims.auditClaim
    rw [wp_addAudit, Coro.chain_ok, Coro.wp_pure]
    rintro _ ⟨⟩
    refine ⟨commit_single plan rfl ?_ rfl rfl, rfl, rfl, haccount, rfl, hg⟩
    exact ⟨hmay, hexecuting, by simpa using hexpired⟩
  · refine (checks_raiseIf _ _).seq (fun _ _ h => by cases h) fun _ hvalid => ?_
    dsimp only
    rw [Coro.wp_bind]
    unfold PlanStore.update
    rw [wp_modifyFrame, Coro.chain_ok, Coro.wp_bind]
    unfold IdleExecutionClaims.auditClaim
    rw [wp_addAudit, Coro.chain_ok, Coro.wp_pure]
    rintro _ ⟨⟩
    refine ⟨commit_single plan rfl ?_ rfl rfl, rfl, rfl, haccount, rfl, hg⟩
    exact ⟨hmay, by simpa using hvalid, rfl⟩

theorem Claiming.opens {p : PlanId} {claim : Claim} (h : Claiming P call a p m claim f) :
    Open a claim false (m.committed f.plans).toTenure := by
  unfold committed
  rw [h.makes]
  refine ⟨h.tenure.guard, rfl, h.account, ?_, h.tenure.unsent⟩
  show (m.closing || (finishOf f.plans).isSome) = false
  rw [h.finishes, h.tenure.closing]
  rfl

theorem claim_claims {p : PlanId} (hg : Guarded a m.toTenure) (actor : Actor)
    (correlationId : String) (recovery : Bool) :
    (IdleExecutionClaims.claim a p actor correlationId recovery : Action T Claim).wp
      (ledger T P call)
      (fun m' r _ => ∀ claim, r = .ok claim →
        claim.planId = p ∧ Open a claim false m'.toTenure) m () := by
  unfold IdleExecutionClaims.claim
  refine (checks_requireIdentifier _).seq (fun _ _ h => by cases h) fun _ _ => ?_
  rw [Coro.wp_bind, wp_await]
  refine ⟨trivial, fun r _ => ?_⟩
  cases r with
  | error e => exact fun _ h => by cases h
  | ok owner =>
    rw [Coro.chain_ok, Coro.wp_bind, wp_clock]
    refine ⟨trivial, fun r _ => ?_⟩
    cases r with
    | error e => exact fun _ h => by cases h
    | ok now =>
      rw [Coro.chain_ok]
      refine (checks_auditActor _).seq (fun _ _ h => by cases h) fun source _ => ?_
      have hdrawn : Guarded a { m with drawn := some owner, now := some now }.toTenure :=
        ⟨hg.guard, hg.claim, hg.closing, hg.unsent⟩
      refine wp_transaction (claimRow_claims hdrawn rfl rfl source.1 source.2 correlationId recovery)
        ?_ fun _ _ _ _ => rollsBack_any fun _ _ _ h => by cases h
      intro m' claim f h
      have hclaim := h claim rfl
      refine ⟨hclaim.commit, fun r _ => ?_⟩
      cases r with
      | error e => exact rollsBack_any fun _ _ _ h => by cases h
      | ok _ =>
        rintro _ ⟨⟩
        exact ⟨hclaim.planId, hclaim.opens⟩

/-- What an execution may record about its claim. -/
structure Settles (m : Ledger) (claim : Claim) (sent : Bool) (state : PlanState) (result : Json) :
    Prop where
  terminal : state.terminal = true
  proof : state = .executed → m.Proof claim.held (redact result)
  failed : claim.recovery = false → (state = .failed ↔ sent = false)

theorem Proof.same {claim : Claimed} {result : Json} (h : m.Proof claim result)
    (hi : m'.idle = m.idle) (hp : m'.previous = m.previous) (hv : m'.policy = m.policy) :
    m'.Proof claim result := by
  cases h with
  | fell hfresh hfell =>
    refine .fell hfresh ?_
    unfold Fell at hfell ⊢
    rw [hi, hp]
    exact hfell
  | waits hwaits =>
    refine .waits ?_
    unfold Waits at hwaits ⊢
    rw [hi, hv]
    exact hwaits

theorem finish_settles {claim : Claim} {sent : Bool} {state : PlanState} {result : Json}
    (ho : Open a claim sent m.toTenure) (hs : Settles m claim sent state result) (actor : Actor)
    (correlationId : String) :
    (IdleExecutionClaims.finish claim state actor correlationId result : Action T Unit).wp
      (ledger T P call)
      (fun m' r _ => r = .ok () →
        m'.claim = some claim.held ∧ m'.finished = some (state, redact result)) m () := by
  unfold IdleExecutionClaims.finish
  refine (checks_auditActor _).seq (fun _ h => by cases h) fun source _ => ?_
  have hbody : (IdleExecutionClaims.finishRow claim state source.1 source.2 correlationId result :
      Tx T Unit).wp (ledger T P call) (fun m' r f => r = .ok () → m'.CommitOk P call f.writes ∧
        m'.claim = some claim.held ∧ m'.claimOf f.plans = none ∧
        finishOf f.plans = some (state, redact result)) m {} := by
    unfold IdleExecutionClaims.finishRow
    rw [Coro.wp_bind]
    refine wp_loadForUpdate _ none (fun _ h => by cases h) fun plan _ => ?_
    rw [Coro.chain_ok]
    refine (checks_raiseIf _ _).seq (fun _ h => by cases h) fun _ hheld => ?_
    obtain ⟨hexecuting, howner⟩ := not_or.mp hheld
    rw [Coro.wp_bind, wp_clock]
    refine ⟨trivial, fun r _ => ?_⟩
    cases r with
    | error e => exact fun h => by cases h
    | ok now =>
      rw [Coro.chain_ok, Coro.wp_bind]
      unfold PlanStore.update
      rw [wp_modifyFrame, Coro.chain_ok, wp_addAudit]
      intro _
      refine ⟨commit_single plan rfl ?_ rfl rfl, ho.held, rfl, rfl⟩
      refine ⟨not_not.mp hexecuting, not_not.mp howner, claim.held, ho.held, rfl, rfl, ?_,
        ho.closing, hs.terminal, ?_, ?_⟩
      · show m.guard = some claim.plan.accountId
        rw [ho.account]
        exact ho.guard
      · exact fun h => (hs.proof h).same rfl rfl rfl
      · intro hfresh
        show _ ↔ m.sent = false
        rw [ho.sent]
        exact hs.failed hfresh
  refine wp_transaction hbody ?_ fun _ _ _ _ => rollsBack_any fun _ _ h => by cases h
  intro m' _ f h
  obtain ⟨hcommit, hclaim, hmakes, hfinish⟩ := h rfl
  refine ⟨hcommit, fun r _ => ?_⟩
  cases r with
  | error e => exact rollsBack_any fun _ _ h => by cases h
  | ok _ =>
    intro _
    show (m'.committed f.plans).claim = _ ∧ (m'.committed f.plans).finished = _
    unfold committed
    rw [hmakes, hfinish]
    exact ⟨hclaim, rfl⟩

/-- What an outcome says about the collection. -/
def Decided (a : AccountId) (claim : Claim) (m : Ledger) : IdleExecuteUseCase.Outcome → Prop
  | .preconditionFailed => Open a claim false m.toTenure
  | .executed => Open a claim true m.toTenure ∧ m.Fell claim.held
  | .reconciled => Open a claim true m.toTenure ∧ m.Waits claim.held
  | .reconciliationRequired => Open a claim true m.toTenure

theorem Decided.same {claim : Claim} {outcome : IdleExecuteUseCase.Outcome}
    (h : Decided a claim m outcome)
    (hs : m'.toTenure = m.toTenure) (hi : m'.idle = m.idle) (hp : m'.previous = m.previous)
    (hv : m'.policy = m.policy) : Decided a claim m' outcome := by
  cases outcome <;> simp only [Decided, Fell, Waits, hs, hi, hp, hv] at h ⊢ <;> exact h

/-- The body of `_send_once` leaves no plan write, and its outcome is decided. -/
def Sends (a : AccountId) (claim : Claim) (m : Ledger)
    (r : Except Exc IdleExecuteUseCase.Outcome) (f : Frame) : Prop :=
  ∀ outcome, r = .ok outcome → f.plans = [] ∧ f.newPlan = none ∧ Decided a claim m outcome

theorem sends_error {claim : Claim} (e : Exc) : Sends a claim m (.error e) f := by
  intro _ h
  cases h

theorem collect_sends {claim : Claim} {locked : AccountService.LockedAccount} {before : IdleSummary}
    (hp : f.plans = []) (hn : f.newPlan = none) (ho : Open a claim false m.toTenure)
    (hf : claim.recovery = false) (hpolicy : m.policy = some (a, locked.policy))
    (hbefore : m.idle = some (a, before))
    (hversion : locked.policy.version = claim.plan.policyVersion)
    (hfingerprint : IdlePlanner.fingerprint P before locked.policy.toAccountPolicy =
      claim.plan.stateFingerprint) :
    (collect a claim locked before : Tx T IdleExecuteUseCase.Outcome).wp (ledger T P call)
      (Sends a claim) m f := by
  have hsent : Open a claim true { m with sent := true }.toTenure :=
    ⟨ho.guard, ho.held, ho.account, ho.closing, rfl⟩
  have herror : (outcomeAfterError a claim locked : Tx T IdleExecuteUseCase.Outcome).wp
      (ledger T P call) (Sends a claim) { m with sent := true } f := by
    unfold outcomeAfterError
    rw [Coro.wp_bind, wp_attempt, wp_await]
    refine ⟨trivial, fun r _ => ?_⟩
    rw [Coro.chain_ok]
    cases r with
    | error e =>
      cases e <;> first
        | exact sends_error _
        | (rintro _ ⟨⟩; exact ⟨hp, hn, hsent⟩)
    | ok current =>
      show (if _ then _ else _ : Tx T IdleExecuteUseCase.Outcome).wp _ _ _ _
      rw [Coro.wp_ite]
      refine ⟨fun hwaits => ?_, fun _ => ?_⟩
      · rintro _ ⟨⟩
        refine ⟨hp, hn, ⟨ho.guard, ho.held, ho.account, ho.closing, rfl⟩, current, locked.policy, ?_,
          ?_, hwaits⟩
        · show some (a, current) = some (claim.plan.accountId, current)
          rw [ho.account]
        · show m.policy = some (claim.plan.accountId, locked.policy)
          rw [ho.account]
          exact hpolicy
      · rintro _ ⟨⟩
        exact ⟨hp, hn, ho.guard, ho.held, ho.account, ho.closing, rfl⟩
  unfold collect
  rw [Coro.wp_bind, wp_attempt, Coro.wp_bind, wp_await]
  refine ⟨⟨claim.held, ⟨ho.held, rfl, ho.account, hf, ho.guard, ho.closing, ho.sent⟩, before,
    locked.policy, hbefore, hpolicy, hversion, hfingerprint⟩, fun r _ => ?_⟩
  cases r with
  | error e =>
    rw [Coro.chain_error, Coro.chain_ok]
    split
    · exact sends_error _
    · exact herror
    · rename_i h
      cases h
  | ok collected =>
    rw [Coro.chain_ok, Coro.wp_bind, wp_await]
    refine ⟨trivial, fun r _ => ?_⟩
    cases r with
    | error e =>
      rw [Coro.chain_error, Coro.chain_ok]
      split
      · exact sends_error _
      · exact herror
      · rename_i h
        cases h
    | ok after =>
      rw [Coro.chain_ok, Coro.wp_pure, Coro.chain_ok]
      show (if _ then _ else _ : Tx T IdleExecuteUseCase.Outcome).wp _ _ _ _
      rw [Coro.wp_ite]
      refine ⟨fun _ => ?_, fun hless => ?_⟩
      · rintro _ ⟨⟩
        exact ⟨hp, hn, ho.guard, ho.held, ho.account, ho.closing, rfl⟩
      · rintro _ ⟨⟩
        refine ⟨hp, hn, ⟨ho.guard, ho.held, ho.account, ho.closing, rfl⟩, before, after, ?_, ?_, ?_⟩
        · show m.idle = some (claim.plan.accountId, before)
          rw [ho.account]
          exact hbefore
        · show some (a, after) = some (claim.plan.accountId, after)
          rw [ho.account]
        · exact not_le.mp (not_or.mp hless).2

theorem sendLocked_sends {claim : Claim} {locked : AccountService.LockedAccount}
    (hp : f.plans = []) (hn : f.newPlan = none) (ho : Open a claim false m.toTenure)
    (hf : claim.recovery = false) (hpolicy : m.policy = some (a, locked.policy)) :
    (sendLocked P a claim locked : Tx T IdleExecuteUseCase.Outcome).wp (ledger T P call)
      (Sends a claim) m f := by
  unfold sendLocked
  rw [Coro.wp_bind, wp_await]
  refine ⟨trivial, fun r _ => ?_⟩
  cases r with
  | error e => exact sends_error e
  | ok before =>
    rw [Coro.chain_ok, Coro.wp_bind]
    have howned : ∀ owned, (if owned = false ∨ locked.policy.version ≠ claim.plan.policyVersion ∨
        IdlePlanner.fingerprint P before locked.policy.toAccountPolicy ≠
          claim.plan.stateFingerprint then
        return .preconditionFailed
      else collect a claim locked before : Tx T IdleExecuteUseCase.Outcome).wp (ledger T P call)
        (Sends a claim) { m with idle := some (a, before), previous := m.idle } f := by
      intro owned
      rw [Coro.wp_ite]
      refine ⟨fun _ => ?_, fun hchecks => ?_⟩
      · rintro _ ⟨⟩
        exact ⟨hp, hn, ho⟩
      · simp only [not_or, ne_eq, not_not] at hchecks
        exact collect_sends hp hn ho hf hpolicy rfl hchecks.2.1 hchecks.2.2
    unfold IdleExecutionClaims.owned
    rw [Coro.wp_bind, wp_await]
    refine ⟨trivial, fun r _ => ?_⟩
    cases r with
    | error e => exact sends_error e
    | ok plan =>
      rw [Coro.chain_ok]
      cases plan with
      | none => exact howned _
      | some plan => exact howned _

structure Settled (claim : Claim) (m : Ledger) (e : IdleExecution) : Prop where
  held : m.claim = some claim.held
  applied : e.applied = !claim.recovery
  finished : m.finished = some (.executed, redact (executedResult e.reconciled))

variable {claim : Claim} (actor : Actor) (correlationId : String)

theorem requireReconciliation_settles {sent : Bool} (ho : Open a claim sent m.toTenure)
    (hsent : claim.recovery = false → sent = true) :
    (requireReconciliation claim actor correlationId : Action T IdleExecution).wp (ledger T P call)
      (fun m' r _ => ∀ e, r = .ok e → Settled claim m' e) m () := by
  unfold requireReconciliation
  have hsettles : Settles m claim sent .reconciliationRequired (status "reconciliation_required") := by
    refine ⟨rfl, nofun, fun hfresh => ?_⟩
    rw [hsent hfresh]
    exact ⟨nofun, nofun⟩
  refine Coro.wp_seq (finish_settles ho hsettles actor correlationId) ?_ fun _ _ _ _ _ h => by cases h
  intro _ _ _ _ _ h
  cases h

theorem executed_settles {sent : Bool} {reconciled : Bool} (ho : Open a claim sent m.toTenure)
    (hsent : claim.recovery = false → sent = true)
    (hproof : m.Proof claim.held (redact (executedResult reconciled))) {e : IdleExecution}
    (happlied : e.applied = !claim.recovery) (hreconciled : e.reconciled = reconciled) :
    (do IdleExecutionClaims.finish claim .executed actor correlationId (executedResult reconciled)
        return e : Action T IdleExecution).wp (ledger T P call)
      (fun m' r _ => ∀ e, r = .ok e → Settled claim m' e) m () := by
  have hsettles : Settles m claim sent .executed (executedResult reconciled) := by
    refine ⟨rfl, fun _ => hproof, fun hfresh => ?_⟩
    rw [hsent hfresh]
    exact ⟨nofun, nofun⟩
  refine Coro.wp_seq (finish_settles ho hsettles actor correlationId) ?_ fun _ _ _ _ _ h => by cases h
  intro m' _ _ hfinished
  obtain ⟨hheld, hrecorded⟩ := hfinished rfl
  rintro _ ⟨⟩
  exact ⟨hheld, happlied, by rw [hreconciled]; exact hrecorded⟩

theorem sendOnce_settles (ho : Open a claim false m.toTenure) (hf : claim.recovery = false) :
    (sendOnce P a claim actor correlationId : Action T IdleExecution).wp (ledger T P call)
      (fun m' r _ => ∀ e, r = .ok e → Settled claim m' e) m () := by
  unfold sendOnce
  have hlocked : (AccountService.locked P a actor (sendLocked P a claim) :
      Action T IdleExecuteUseCase.Outcome).wp (ledger T P call)
      (fun m r _ => ∀ outcome, r = .ok outcome → Decided a claim m outcome) m () :=
    locked_finds ho actor Decided.same fun locked m f hp hn ho hpolicy =>
      sendLocked_sends hp hn ho hf hpolicy
  refine Coro.wp_seq hlocked ?_ fun _ _ _ _ _ h => by cases h
  intro m' outcome _ h
  have hdecided := h outcome rfl
  cases outcome with
  | preconditionFailed =>
    have hsettles : Settles m' claim false .failed (status "precondition_failed") :=
      ⟨rfl, nofun, fun _ => ⟨fun _ => rfl, fun _ => rfl⟩⟩
    refine Coro.wp_seq (finish_settles hdecided hsettles actor correlationId) ?_
      fun _ _ _ _ _ h => by cases h
    intro _ _ _ _ _ h
    cases h
  | executed =>
    exact executed_settles actor correlationId hdecided.1 (fun _ => rfl) (.fell hf hdecided.2)
      (by rw [hf]; rfl) rfl
  | reconciled =>
    exact executed_settles actor correlationId hdecided.1 (fun _ => rfl) (.waits hdecided.2)
      (by rw [hf]; rfl) rfl
  | reconciliationRequired =>
    exact requireReconciliation_settles actor correlationId hdecided fun _ => rfl

/-- A recovery looks once whether the account waits. -/
theorem recover_settles (ho : Open a claim false m.toTenure) (hr : claim.recovery = true) :
    (recover P a claim actor correlationId : Action T IdleExecution).wp (ledger T P call)
      (fun m' r _ => ∀ e, r = .ok e → Settled claim m' e) m () := by
  unfold recover
  have hlocked : (AccountService.locked P a actor (proven a claim) : Action T Bool).wp
      (ledger T P call) (fun m r _ => ∀ found, r = .ok found →
        Open a claim false m.toTenure ∧ (found = true → m.Waits claim.held)) m () := by
    refine locked_finds (D := fun m found => Open a claim false m.toTenure ∧
      (found = true → m.Waits claim.held)) ho actor ?_ ?_
    · intro m m' found h hs hi _ hv
      unfold Waits at h ⊢
      rw [hs, hi, hv]
      exact h
    · intro locked m f hp hn ho hpolicy
      unfold proven
      rw [Coro.wp_bind, wp_await]
      refine ⟨trivial, fun r _ => ?_⟩
      cases r with
      | error e => exact fun _ h => by cases h
      | ok current =>
        rw [Coro.chain_ok, Coro.wp_pure]
        rintro _ ⟨⟩
        refine ⟨hp, hn, ho, fun hfound => ?_⟩
        obtain ⟨hversion, hwait⟩ := of_decide_eq_true hfound
        refine ⟨current, locked.policy, ?_, ?_, hversion, hwait⟩
        · show some (a, current) = some (claim.plan.accountId, current)
          rw [ho.account]
        · show m.policy = some (claim.plan.accountId, locked.policy)
          rw [ho.account]
          exact hpolicy
  have hfresh : claim.recovery = false → false = true := by
    rw [hr]
    intro h
    cases h
  refine Coro.wp_seq hlocked ?_ fun _ _ _ _ _ h => by cases h
  intro m' found _ h
  obtain ⟨ho', hfound⟩ := h found rfl
  rw [Coro.wp_ite]
  refine ⟨fun hproven => ?_, fun _ => ?_⟩
  · exact executed_settles actor correlationId ho' hfresh (.waits (hfound hproven))
      (by rw [hr]; rfl) rfl
  · exact requireReconciliation_settles actor correlationId ho' hfresh

theorem execute_settles (p : PlanId) (recovery : Bool) :
    (execute P a p actor correlationId recovery : Action T IdleExecution).wp (ledger T P call)
      (fun m' r _ => ∀ e, r = .ok e → ∃ claim, claim.planId = p ∧ Settled claim m' e) {} () := by
  unfold execute
  refine (checks_requireIdentifier _).seq (fun _ _ h => by cases h) fun _ _ => ?_
  rw [Coro.wp_bind, wp_await]
  refine ⟨rfl, fun r _ => ?_⟩
  cases r with
  | error e => exact fun _ h => by cases h
  | ok held =>
    rw [Coro.chain_ok]
    refine (checks_raiseIf _ _).seq (fun _ _ h => by cases h) fun _ hheld => ?_
    have htrue : held = true := by simpa using hheld
    subst htrue
    have hguarded : (executeGuarded P a p actor correlationId recovery :
        Action T IdleExecution).wp (ledger T P call)
        (fun m' r _ => ∀ e, r = .ok e → ∃ claim, claim.planId = p ∧ Settled claim m' e)
        { guard := some a } () := by
      unfold executeGuarded
      refine Coro.wp_seq (claim_claims ⟨rfl, rfl, rfl, rfl⟩ actor correlationId recovery) ?_
        fun _ _ _ _ _ h => by cases h
      intro m' claim _ h
      obtain ⟨hp, ho⟩ := h claim rfl
      rw [Coro.wp_ite]
      refine ⟨fun hr => ?_, fun hf => ?_⟩
      · refine Coro.wp_mono (recover_settles actor correlationId ho hr) ?_
        exact fun _ _ _ hs e he => ⟨claim, hp, hs e he⟩
      · refine Coro.wp_mono (sendOnce_settles actor correlationId ho (by simpa using hf)) ?_
        exact fun _ _ _ hs e he => ⟨claim, hp, hs e he⟩
    rw [Coro.wp_andFinally]
    refine Coro.wp_mono hguarded fun m' r _ hsettled => ?_
    rw [wp_await]
    refine ⟨trivial, fun r' _ => ?_⟩
    cases r' with
    | error e => exact fun _ h => by cases h
    | ok _ =>
      intro e he
      obtain ⟨claim, hp, hs⟩ := hsettled e he
      exact ⟨claim, hp, hs.held, hs.applied, hs.finished⟩

end Execute

/-! ## Previews -/

section Preview

variable {a : AccountId}

/-- A draft is one of what the preview has read. -/
def Drafted (P : Ports) (a : AccountId) (m : Ledger) (draft : Option ActionPlanDraft) : Prop :=
  ∀ d, draft = some d → ∃ idle policy now, m.idle = some (a, idle) ∧ m.policy = some (a, policy) ∧
    IdlePlanner.draft P a idle policy now = some d

theorem savePreview_writes {draft : Option ActionPlanDraft} {actor : Actor}
    {correlationId : String} (hd : Drafted P a m draft) (who source identifier : String)
    (preview : Json) :
    (IdlePreviewStore.saveRows draft a who source identifier preview : Tx T (Option PlanId)).wp
      (ledger T P (.preview a actor correlationId)) (Commits P (.preview a actor correlationId)) m {} := by
  unfold IdlePreviewStore.saveRows IdlePreviewStore.insertPlan
  cases draft with
  | none =>
    rw [Coro.wp_bind, Coro.wp_pure, Coro.chain_ok, Coro.wp_bind, wp_addAudit, Coro.chain_ok,
      Coro.wp_pure]
    exact fun _ _ => Clean.commits (C := Any) ⟨rfl, rfl, trivial⟩
  | some d =>
    rw [Coro.wp_bind, Coro.wp_bind, wp_await]
    refine ⟨trivial, fun r _ => ?_⟩
    cases r with
    | error e => exact writes_error e
    | ok id =>
      rw [Coro.chain_ok, Coro.wp_bind, wp_modifyFrame, Coro.chain_ok, Coro.wp_bind]
      refine flush_writes fun r => ?_
      cases r with
      | error e => exact writes_error e
      | ok _ =>
        rw [Coro.chain_ok, Coro.wp_pure, Coro.chain_ok, Coro.wp_bind, wp_addAudit, Coro.chain_ok,
          Coro.wp_pure]
        intro _ _
        obtain ⟨idle, policy, now, hidle, hpolicy, hdraft⟩ := hd d rfl
        exact commit_newPlan rfl rfl rfl ⟨idle, policy, now, d, hidle, hpolicy, hdraft, rfl⟩

theorem preview_writes (actor : Actor) (correlationId : String) :
    (IdlePlanUseCase.preview P a actor correlationId : Action T IdlePreview).wp
      (ledger T P (.preview a actor correlationId)) (fun _ _ _ => True) {} () := by
  unfold IdlePlanUseCase.preview
  refine (checks_requireIdentifier _).seq (fun _ => trivial) fun _ _ => ?_
  have hlocked : (AccountService.locked P a actor (IdlePlanUseCase.draftLocked P a) :
      Action T (IdleSummary × AccountPolicy × Option ActionPlanDraft)).wp
      (ledger T P (.preview a actor correlationId))
      (fun m r _ => ∀ out, r = .ok out → Drafted P a m out.2.2) {} () := by
    let Found (m : Ledger) (out : IdleSummary × AccountPolicy × Option ActionPlanDraft) : Prop :=
      Drafted P a m out.2.2
    refine locked_finds (C := Any) (D := Found) trivial actor ?_ ?_
    · intro m m' out h _ hi _ hv
      simp only [Found, Drafted] at h ⊢
      rw [hi, hv]
      exact h
    · intro locked m f hp hn _ hpolicy
      unfold IdlePlanUseCase.draftLocked
      rw [Coro.wp_bind, wp_await]
      refine ⟨trivial, fun r _ => ?_⟩
      cases r with
      | error e => exact fun _ h => by cases h
      | ok idle =>
        rw [Coro.chain_ok, Coro.wp_bind, wp_clock]
        refine ⟨trivial, fun r _ => ?_⟩
        cases r with
        | error e => exact fun _ h => by cases h
        | ok now =>
          rw [Coro.chain_ok, Coro.wp_pure]
          rintro _ ⟨⟩
          exact ⟨hp, hn, fun d hd => ⟨idle, locked.policy, now, rfl, hpolicy, hd⟩⟩
  refine Coro.wp_seq hlocked ?_ fun _ _ _ _ => trivial
  rintro m ⟨idle, policy, draft⟩ _ h
  have hdraft : Drafted P a m draft := h _ rfl
  dsimp only
  refine Coro.wp_seq (R := fun _ _ _ => True) ?_ (fun _ _ _ _ => trivial) fun _ _ _ _ => trivial
  unfold IdlePreviewStore.save
  refine (checks_requireIdentifier _).seq (fun _ => trivial) fun _ _ => ?_
  refine (checks_auditActor _).seq (fun _ => trivial) fun source _ => ?_
  exact transaction_writes (savePreview_writes hdraft _ _ _ _)

end Preview

/-! ## All calls -/

/-- A call that only keeps what it holds has nothing to say about claims. -/
theorem wp_of_stable {c : Action T α} {wrap : α → Returned T}
    (hc : Stable (ledger T P call) (Sessions.Idle (Holds Any)) c)
    (hp : ∀ m r, Post (T := T) m r call) :
    (returning wrap c).wp (ledger T P call) (fun m r _ => m.Post r call) {} () := by
  have hret : Stable (ledger T P call) (Sessions.Idle (Holds Any)) (returning wrap c) :=
    Stable.bind hc fun _ => Stable.pure _
  exact Coro.wp_mono (hret {} () trivial) fun m r _ _ => hp m r

theorem wp_of_any {c : Action T α} {wrap : α → Returned T}
    (hc : c.wp (ledger T P call) (fun _ _ _ => True) {} ())
    (hp : ∀ m r, Post (T := T) m r call) :
    (returning wrap c).wp (ledger T P call) (fun m r _ => m.Post r call) {} () := by
  unfold returning
  exact Coro.wp_seq hc (fun m _ _ _ => hp m _) fun m _ _ _ => hp m _

variable (P)

theorem run_ledger (call : Call) :
    (call.run P : Action T (Returned T)).wp (ledger T P call) (fun m r _ => m.Post r call)
      {} () := by
  have hs : Sessions (ledger T P call) (Clean Any) (Holds Any) := sessions
  have ha : ∀ a, AccountSessions (ledger T P call) a (Clean Any) (Holds Any) := accountSessions
  cases call with
  | addCredentials =>
    exact wp_of_stable (addCredentials_stable P _ hs (enrols _) _ _ _) fun _ _ => trivial
  | addTokenOnly =>
    exact wp_of_stable (addTokenOnly_stable P _ hs (enrols _) _ _) fun _ _ => trivial
  | updateLabel => exact wp_of_stable (updateLabel_stable _ (ha _) _) fun _ _ => trivial
  | updateCredentials =>
    exact wp_of_stable (updateCredentials_stable P _ (ha _) _ _) fun _ _ => trivial
  | updateTokenOnly => exact wp_of_stable (updateTokenOnly_stable P _ (ha _) _) fun _ _ => trivial
  | enable => exact wp_of_stable (setLifecycle_stable _ (ha _) _ _ (by decide)) fun _ _ => trivial
  | disable => exact wp_of_stable (setLifecycle_stable _ (ha _) _ _ (by decide)) fun _ _ => trivial
  | pause => exact wp_of_stable (pause_stable _ (ha _) _) fun _ _ => trivial
  | resume => exact wp_of_stable (resume_stable _ (ha _)) fun _ _ => trivial
  | disableDrainRemove =>
    exact wp_of_stable (disableDrainRemove_stable _ (ha _) (drainRemoval_clean _)) fun _ _ => trivial
  | ensureSession => exact wp_of_stable (ensureSession_stable P _ (ha _)) fun _ _ => trivial
  | locked => exact wp_of_stable (lockedContext_stable P _ (ha _)) fun _ _ => trivial
  | snapshot => exact wp_of_stable (snapshot_stable P _ (ha _)) fun _ _ => trivial
  | mutate args => exact wp_of_stable (mutations.mutate P) fun _ _ => trivial
  | savePolicy =>
    exact wp_of_stable (savePolicy_stable _ (ha _) _ _ (savePolicy_clean _ _ _)) fun _ _ => trivial
  | accountStatus => exact wp_of_stable (accountStatus_stable P _ (ha _)) fun _ _ => trivial
  | preview => exact wp_of_any (preview_writes _ _) fun _ _ => trivial
  | execute a p actor correlationId recovery =>
    unfold Call.run returning
    refine Coro.wp_seq (execute_settles actor correlationId p recovery) ?_ fun _ _ _ _ _ h => by
      cases h
    rintro m e _ h _ ⟨⟩
    obtain ⟨claim, hp, hs⟩ := h e rfl
    exact ⟨e, claim.held, rfl, hs.held, hp, hs.applied, hs.finished⟩
  | createPlan row => exact wp_of_any (transaction_writes (create_writes row)) fun _ _ => trivial
  | confirmPlan =>
    exact wp_of_any (transaction_writes (confirm_writes _ _ _)) fun _ _ => trivial
  | markExecuting =>
    exact wp_of_any (transaction_writes (markExecuting_writes _ _)) fun _ _ => trivial
  | finishPlan =>
    exact wp_of_any (transaction_writes (finish_writes _ _ _)) fun _ _ => trivial

end Ledger

theorem ledger_watched (P : Ports) :
    Reachable.Watched (machine T P) (ledger T P) (fun call m r => m.Post r call) where
  prog call := Coro.wp_toProc.mpr (Ledger.run_ledger P call)
  ans _ _ _ _ _ _ hw _ := perform_answers hw

end PlaceGame
