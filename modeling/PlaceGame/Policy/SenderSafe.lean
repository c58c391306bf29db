import PlaceGame.Policy.LedgerSafe
import PlaceGame.Policy.Sender

/-!
# PlaceGame.Policy.SenderSafe

Every call sends as its monitor says.

The work is in `mutate`. Up to the send its session writes nothing to the plan: `Unwritten`. An
operation that ends in anything but a conflict leads to `Sent`, and each way on from there finishes
the plan once: `Ended`.
-/

namespace PlaceGame

open Coop

variable {T α : Type}

/-- An await that tells a sender nothing. -/
def Op.Aside : Op T → Prop
  | .accountForUpdate _ | .getPlan _ | .selectPlan _ | .operation _ _ _ | .idleCollect _ _ _
  | .commit _ | .rollback => False
  | _ => True

/-- Any call but a `mutate`. -/
def Call.NotMutate (call : Call) : Prop := ∀ args, call ≠ .mutate args

theorem Op.Quiet.aside {o : Op T} (h : o.Quiet) : o.Aside := by
  cases o <;> first | exact trivial | exact h.elim

namespace Sender

open Mutate

variable {P : Ports} {args : MutateArgs} {call : Call} {m m' : Sender} {f f' : Frame}
variable {a : AccountId} {p : PlanId} {e : Exc} {state : PlanState}

/-- The monitor still knows the same of plans and sends. -/
structure Same (m m' : Sender) : Prop where
  plan : m'.seen.plan = m.seen.plan
  row : m'.seen.row = m.seen.row
  tries : m'.tries = m.tries
  posted : m'.posted = m.posted
  settled : m'.settled = m.settled

theorem Same.refl (m : Sender) : m.Same m := ⟨rfl, rfl, rfl, rfl, rfl⟩

theorem Same.trans {m'' : Sender} (h : m.Same m') (h' : m'.Same m'') : m.Same m'' :=
  ⟨h'.plan.trans h.plan, h'.row.trans h.row, h'.tries.trans h.tries,
    h'.posted.trans h.posted, h'.settled.trans h.settled⟩

theorem same_next {o : Op T} (ho : o.Aside) (r : Except Exc o.Val) : m.Same (m.next o r) := by
  cases o <;> first | exact ho.elim | (cases r <;> exact ⟨rfl, rfl, rfl, rfl, rfl⟩) | skip
  case planForUpdate p a =>
    cases r with
    | error e => exact ⟨rfl, rfl, rfl, rfl, rfl⟩
    | ok found => cases found <;> exact ⟨rfl, rfl, rfl, rfl, rfl⟩
  case flushIdentity a g =>
    cases r with
    | error e => exact ⟨rfl, rfl, rfl, rfl, rfl⟩
    | ok done => cases done <;> exact ⟨rfl, rfl, rfl, rfl, rfl⟩
  case stateFingerprint p api =>
    cases r with
    | error e => exact ⟨rfl, rfl, rfl, rfl, rfl⟩
    | ok found => cases found <;> exact ⟨rfl, rfl, rfl, rfl, rfl⟩

theorem ok_aside {o : Op T} (ho : o.Aside) : m.ok call o := by
  cases o <;> first | exact ho.elim | exact trivial

theorem Read.same {plan : ActionPlan} (h : m.Read a p plan) (hs : m.Same m') : m'.Read a p plan :=
  ⟨hs.plan.trans h.read, h.account, by rw [hs.row]; exact h.row⟩

/-! ## Before the send -/

/-- The session has written nothing to a plan, and a validated plan is the one that was read. -/
structure Unwritten (args : MutateArgs) (m : Sender) (f : Frame) : Prop where
  unsettled : m.settled = none
  plans : f.plans = []
  validated : ∀ p, f.validatedPlanId = some p → args.planId = some p ∧
    ∃ plan, m.Read args.accountId p plan ∧ f.plan = some plan

theorem Unwritten.same (h : Unwritten args m f) (hs : m.Same m') : Unwritten args m' f where
  unsettled := hs.settled.trans h.unsettled
  plans := h.plans
  validated p hp := by
    obtain ⟨hplan, plan, hread, hf⟩ := h.validated p hp
    exact ⟨hplan, plan, hread.same hs, hf⟩

theorem Unwritten.frame (h : Unwritten args m f) (hps : f'.plans = f.plans) (hp : f'.plan = f.plan)
    (hv : f'.validatedPlanId = f.validatedPlanId) : Unwritten args m f' where
  unsettled := h.unsettled
  plans := hps.trans h.plans
  validated p := by
    rw [hv, hp]
    exact h.validated p

/-- The start of an attempt, when so many remain. -/
structure Ready (args : MutateArgs) (left : Nat) (m : Sender) (f : Frame) : Prop
    extends Unwritten args m f where
  unposted : m.posted = false
  tries : m.tries + left ≤ 3

theorem Ready.same {left : Nat} (h : Ready args left m f) (hs : m.Same m') :
    Ready args left m' f :=
  ⟨h.toUnwritten.same hs, hs.posted.trans h.unposted, by rw [hs.tries]; exact h.tries⟩

/-- The attempt has passed all checks. -/
structure Prepared (args : MutateArgs) (left : Nat) (m : Sender) (f : Frame) : Prop
    extends Ready args left m f where
  fresh : ∀ p, args.planId = some p → f.validatedPlanId = some p ∧
    ∃ plan, m.Read args.accountId p plan ∧ f.plan = some plan ∧ plan.executionState.fresh = true

/-- The operation has ended in something else than a conflict, and the plan is still open. -/
structure Sent (args : MutateArgs) (m : Sender) (f : Frame) : Prop
    extends Unwritten args m f where
  posted : m.posted = true
  started : f.sendStarted = true
  opened : ∀ p, args.planId = some p → f.validatedPlanId = some p ∧
    ∃ plan, m.Read args.accountId p plan ∧ f.plan = some plan ∧
      plan.executionState.terminal = false

theorem Sent.same (h : Sent args m f) (hs : m.Same m') : Sent args m' f where
  toUnwritten := h.toUnwritten.same hs
  posted := hs.posted.trans h.posted
  started := h.started
  opened p hp := by
    obtain ⟨hv, plan, hread, hf, ho⟩ := h.opened p hp
    exact ⟨hv, plan, hread.same hs, hf, ho⟩

/-- The session has finished the plan, once. -/
structure Ended (args : MutateArgs) (state : PlanState) (m : Sender) (f : Frame) : Prop where
  unsettled : m.settled = none
  terminal : state.terminal = true
  plan : ∀ p, args.planId = some p → f.validatedPlanId = some p ∧
    (∃ result at_, f.plans = [(p, .finished state result at_)]) ∧
    (∃ plan, m.Read args.accountId p plan ∧ plan.executionState.terminal = false) ∧
    ∃ plan, f.plan = some plan ∧ plan.executionState.terminal = true
  unplanned : args.planId = none → f.plans = [] ∧ f.validatedPlanId = none

/-! ## Finishing the plan -/

/-- `finish` on a session that holds an open plan. -/
theorem finish_sends {plan : ActionPlan} (hplan : f.plan = some plan)
    (hopen : plan.executionState.terminal = false) (hs : state.terminal = true)
    (hps : f.plans = []) (result : List (String × Json)) :
    (PlanStore.finish p state result : Tx T Unit).wp (sender T call) (fun m' r f' => m.Same m' ∧
      match r with
      | .ok _ => ∃ now, f' = { f with
          plan := some ((PlanUpdate.finished state (PlanStore.safeResult result) now).apply plan)
          plans := [(p, .finished state (PlanStore.safeResult result) now)] }
      | .error e => e = .cancelled ∨ f' = f) m f := by
  unfold PlanStore.finish PlanStore.loadForUpdate
  rw [Coro.wp_bind, wp_raiseIf]
  refine ⟨fun h => ?_, fun _ => ?_⟩
  · rw [hs] at h
    cases h
  rw [Coro.chain_ok, Coro.wp_bind, Coro.wp_bind, wp_await]
  refine ⟨trivial, fun r hr => ?_⟩
  have hlocked := same_next (m := m) (o := Op.planForUpdate (T := T) p none) trivial r
  rcases r with e | row
  · exact ⟨hlocked, .inl (hr rfl e rfl)⟩
  rw [Coro.chain_ok]
  cases row with
  | none => exact ⟨hlocked, .inr rfl⟩
  | some row =>
    simp only [Coro.wp_bind, wp_frame, wp_modifyFrame, Coro.chain_ok, Coro.wp_pure, wp_raiseIf,
      hplan, Option.getD_some]
    refine ⟨fun h => ?_, fun _ => ?_⟩
    · rw [hopen] at h
      cases h
    rw [wp_clock]
    refine ⟨trivial, fun r hr => ?_⟩
    have hclock := hlocked.trans (same_next (o := Op.clock (T := T)) trivial r)
    rcases r with e | now
    · exact ⟨hclock, .inl (hr rfl e rfl)⟩
    rw [Coro.chain_ok]
    unfold PlanStore.update
    rw [wp_modifyFrame, Coro.chain_ok, wp_await]
    refine ⟨trivial, fun r hr => ?_⟩
    have hflush := hclock.trans (same_next (o := Op.flush (T := T)) trivial r)
    rcases r with e | _
    · exact ⟨hflush, .inl (hr rfl e rfl)⟩
    · refine ⟨hflush, now, ?_⟩
      simp [hps]

theorem Unwritten.finishes (h : Unwritten args m f) (hs : state.terminal = true)
    {result : Json} {now : Time} {plan : ActionPlan} (hv : f.validatedPlanId = some p)
    (hplan : f.plan = some plan) (hopen : plan.executionState.terminal = false) :
    Ended args state m { f with
      plan := some ((PlanUpdate.finished state result now).apply plan)
      plans := [(p, .finished state result now)] } where
  unsettled := h.unsettled
  terminal := hs
  plan q hq := by
    obtain ⟨hp, plan', hread, hplan'⟩ := h.validated p hv
    cases hp.symm.trans hq
    cases hplan.symm.trans hplan'
    exact ⟨hv, ⟨result, now, rfl⟩, ⟨plan, hread, hopen⟩, _, rfl, hs⟩
  unplanned hq := by
    obtain ⟨hp, -⟩ := h.validated p hv
    rw [hp] at hq
    cases hq

theorem finishValidated_sends (h : Sent args m f) (hs : state.terminal = true)
    (result : List (String × Json)) :
    (finishValidated state result : Tx T Unit).wp (sender T call) (fun m' r f' => m.Same m' ∧
      match r with
      | .ok _ => Ended args state m' f'
      | .error e => e = .cancelled ∨ f' = f) m f := by
  unfold finishValidated
  rw [Coro.wp_bind, wp_frame, Coro.chain_ok]
  cases hplanned : args.planId with
  | none =>
    have hv : f.validatedPlanId = none := by
      cases hv : f.validatedPlanId with
      | none => rfl
      | some p =>
        obtain ⟨hp, -⟩ := h.validated p hv
        rw [hplanned] at hp
        cases hp
    rw [hv]
    refine ⟨.refl m, h.unsettled, hs, ?_, fun _ => ⟨h.plans, hv⟩⟩
    intro q hq
    rw [hplanned] at hq
    cases hq
  | some p =>
    obtain ⟨hv, plan, hread, hplan, hopen⟩ := h.opened p hplanned
    rw [hv]
    refine Coro.wp_mono (finish_sends hplan hopen hs h.plans result) ?_
    rintro m' (e | _) f' ⟨hsame, hr⟩
    · exact ⟨hsame, hr⟩
    · obtain ⟨now, rfl⟩ := hr
      exact ⟨hsame, (h.toUnwritten.same hsame).finishes hs hv hplan hopen⟩

/-! ## From the send on -/

/-- What the handler of `mutate` finds. -/
inductive Raised (args : MutateArgs) (m : Sender) : Exc → Frame → Prop
  | cancelled {f : Frame} (unsettled : m.settled = none) : Raised args m .cancelled f
  | unsent {e : Exc} {f : Frame} (h : Unwritten args m f) (unposted : m.posted = false) :
    Raised args m e f
  | sent {e : Exc} {f : Frame} (h : Sent args m f) : Raised args m e f
  | rejected {f : Frame} (h : Ended args .failed m f) (posted : m.posted = true) :
    Raised args m .authenticationRequired f

theorem Raised.unsettled (h : Raised args m e f) : m.settled = none := by
  cases h with
  | cancelled h => exact h
  | unsent h => exact h.unsettled
  | sent h => exact h.unsettled
  | rejected h => exact h.unsettled

def Concludes (args : MutateArgs) (m : Sender) : Except Exc (LoopEnd T) → Frame → Prop
  | .ok (.outcome _), f => Ended args .executed m f ∧ m.posted = true
  | .ok .cancelled, f => Ended args .reconciliationRequired m f ∧ m.posted = true
  | .ok .exhausted, f => Unwritten args m f ∧ m.posted = false
  | .error e, f => Raised args m e f

theorem Ended.frame (h : Ended args state m f) (hps : f'.plans = f.plans) (hp : f'.plan = f.plan)
    (hv : f'.validatedPlanId = f.validatedPlanId) : Ended args state m f' where
  unsettled := h.unsettled
  terminal := h.terminal
  plan p := by
    rw [hps, hp, hv]
    exact h.plan p
  unplanned := by
    rw [hps, hv]
    exact h.unplanned

/-- The plan is finished and audited, and the loop is left. -/
theorem concludes_sends (h : Sent args m f) (hs : state.terminal = true)
    (result : List (String × Json)) {accountId : Frame → Option AccountId} {doc : Json}
    {out : LoopEnd T} (hout : ∀ m' f', Ended args state m' f' → m'.posted = true →
      Concludes args m' (.ok out) f') :
    (do
      finishValidated state result
      let f ← frame
      auditMutate args (accountId f) f.validatedPlanId doc
      return out : Tx T (LoopEnd T)).wp (sender T call) (Concludes args) m f := by
  refine Coro.wp_seq (finishValidated_sends h hs result) ?_ ?_
  · rintro m' _ f' ⟨hsame, hended⟩
    rw [Coro.wp_bind, wp_frame, Coro.chain_ok, Coro.wp_bind]
    unfold auditMutate
    rw [wp_audit, Coro.chain_ok, Coro.wp_pure]
    exact hout m' _ (hended.frame rfl rfl rfl) (hsame.posted.trans h.posted)
  · rintro m' e f' ⟨hsame, hr⟩
    rcases hr with rfl | rfl
    · exact .cancelled (hsame.settled.trans h.unsettled)
    · exact .sent (h.same hsame)

theorem cancelledAfterSend_sends (h : Sent args m f) :
    (cancelledAfterSend args : Tx T (LoopEnd T)).wp (sender T call) (Concludes args) m f :=
  concludes_sends h rfl _ fun _ _ he hp => ⟨he, hp⟩

theorem succeed_sends (h : Sent args m f) (reconciled : Bool) (value : Option T) :
    (succeed args reconciled value : Tx T (LoopEnd T)).wp (sender T call) (Concludes args) m f := by
  unfold succeed
  rw [Coro.wp_bind, wp_clock]
  refine ⟨trivial, fun r hr => ?_⟩
  have hsent := h.same (same_next (o := Op.clock (T := T)) trivial r)
  rcases r with e | now
  · exact .sent hsent
  rw [Coro.chain_ok, Coro.wp_bind, wp_modifyRecord, Coro.chain_ok]
  have hrecord : Sent args (m.next (Op.clock (T := T)) (.ok now))
      { f with record := f.record.succeed now } :=
    ⟨hsent.toUnwritten.frame rfl rfl rfl, hsent.posted, hsent.started, hsent.opened⟩
  exact concludes_sends hrecord rfl _ fun _ _ he hp => ⟨he, hp⟩

theorem check_sends {q : Prop} [Decidable q] {g : Unit → Tx T (LoopEnd T)} (h : Sent args m f)
    (hg : (g ()).wp (sender T call) (Concludes args) m f) :
    (raiseIf q e >>= g).wp (sender T call) (Concludes args) m f :=
  (checks_raiseIf _ _).seq (fun _ => .sent h) fun _ _ => hg

theorem ask_sends {o : Op T} {g : Except Exc o.Val → Tx T (LoopEnd T)} (ho : o.Aside)
    (h : Sent args m f)
    (hg : ∀ r m', Sent args m' f → (g r).wp (sender T call) (Concludes args) m' f) :
    (attempt (await o) >>= g).wp (sender T call) (Concludes args) m f := by
  rw [Coro.wp_bind, wp_attempt, wp_await]
  exact ⟨ok_aside ho, fun r _ => hg r _ (h.same (same_next ho r))⟩

theorem verifySent_sends (h : Sent args m f) (api : GameApi) (value : T) :
    (verifySent args api value : Tx T (LoopEnd T)).wp (sender T call) (Concludes args) m f := by
  unfold verifySent
  refine ask_sends trivial h fun r m' h' => ?_
  split
  · exact cancelledAfterSend_sends h'
  · exact .sent h'
  · exact .sent h'
  · exact check_sends h' (succeed_sends h' _ _)

theorem confirmSent_sends (h : Sent args m f) (api : GameApi) (value : T) :
    (confirmSent args api value : Tx T (LoopEnd T)).wp (sender T call) (Concludes args) m f := by
  unfold confirmSent
  refine ask_sends trivial h fun r m' h' => ?_
  split
  · exact cancelledAfterSend_sends h'
  · exact .sent h'
  · rw [Coro.wp_ite]
    exact ⟨fun _ => .sent h', fun _ => .sent h'⟩
  · rw [Coro.wp_ite]
    exact ⟨fun _ => verifySent_sends h' api value, fun _ => succeed_sends h' _ _⟩

theorem reconcileAmbiguous_sends (h : Sent args m f) (api : GameApi) :
    (reconcileAmbiguous args api : Tx T (LoopEnd T)).wp (sender T call) (Concludes args) m f := by
  unfold reconcileAmbiguous
  refine check_sends h ?_
  have hasked : (do let _ ← await (.bootstrap api); await (.verify api none) : Tx T Bool).wp
      (sender T call) (fun m' _ f' => f' = f ∧ Sent args m' f) m f := by
    rw [Coro.wp_bind, wp_await]
    refine ⟨trivial, fun r _ => ?_⟩
    have h₁ := h.same (same_next (o := Op.bootstrap (T := T) api) trivial r)
    rcases r with e | g
    · exact ⟨rfl, h₁⟩
    · rw [Coro.chain_ok, wp_await]
      exact ⟨trivial, fun r _ => ⟨rfl, h₁.same (same_next (o := Op.verify api none) trivial r)⟩⟩
  refine wp_try hasked ?_
  rintro m' r f' ⟨rfl, h'⟩
  split
  · exact cancelledAfterSend_sends h'
  · exact .sent h'
  · exact .sent h'
  · exact check_sends h' (succeed_sends h' _ _)

/-! ## An attempt -/

/-- Code without plans that asks quietly. -/
theorem ready_plain {left : Nat} {c : Tx T α} (hc : Plain a Op.Quiet c) :
    c.Keeps (sender T call) (fun m f => Ready args left m f ∧ f.validatedPlanId = none ∧
      ∃ r, m.seen.row = some (args.accountId, r)) := by
  refine Coro.Keeps.of_only (hc _ (Frame.SamePlans.tame a)) ?_ ?_
  · rintro m f o ho ⟨h, hv, hrow⟩
    refine ⟨ok_aside ho.aside, fun r _ => ?_⟩
    have hs : m.Same (m.next o r) := same_next ho.aside r
    exact ⟨h.same hs, hv, by rw [show ((sender T call).next m o r).seen.row = _ from hs.row]; exact hrow⟩
  · rintro m f f' hs ⟨h, hv, hrow⟩
    exact ⟨⟨h.toUnwritten.frame hs.plans hs.plan hs.validatedPlanId, h.unposted, h.tries⟩,
      hs.validatedPlanId.trans hv, hrow⟩

def Tried (args : MutateArgs) (left : Nat) (m : Sender) : Except Exc α → Frame → Prop
  | .ok _, f => Prepared args left m f
  | .error e, f => Raised args m e f

theorem Ready.raised {left : Nat} (h : Ready args left m f) : Raised args m e f :=
  .unsent h.toUnwritten h.unposted

/-- The plan is read and checked, and the resolver is asked. -/
theorem preparePlan_sends {left : Nat} (hplan : args.planId = some p) (policy : VersionedPolicy)
    (api : GameApi) (h : Ready args left m f) (hv : f.validatedPlanId = none)
    (hrow : ∃ r, m.seen.row = some (args.accountId, r)) :
    (preparePlan args p policy api : Tx T Unit).wp (sender T call) (Tried args left) m f := by
  have hunread : ∀ r : Except Exc (Option ActionPlan), (∀ plan, r ≠ .ok (some plan)) →
      Ready args left (m.next (Op.getPlan (T := T) p) r) f := by
    rintro (e | _ | plan) hr
    · exact h.same ⟨rfl, rfl, rfl, rfl, rfl⟩
    · exact h.same ⟨rfl, rfl, rfl, rfl, rfl⟩
    · exact absurd rfl (hr plan)
  unfold preparePlan
  rw [Coro.wp_bind, wp_await]
  refine ⟨h.unposted, fun r _ => ?_⟩
  rcases r with e | found
  · exact (hunread (.error e) fun _ h => by cases h).raised
  rw [Coro.chain_ok]
  cases found with
  | none => exact (hunread (.ok none) fun _ h => by cases h).raised
  | some plan =>
    -- from here on the session holds the plan that it has read
    let m₁ : Sender := m.next (Op.getPlan (T := T) p) (.ok (some plan))
    have hloaded : Ready args left m₁ { f with plan := some plan } :=
      { unsettled := h.unsettled
        plans := h.plans
        validated := fun q hq => by
          rw [show ({ f with plan := some plan } : Frame).validatedPlanId = _ from hv] at hq
          cases hq
        unposted := h.unposted
        tries := h.tries }
    dsimp only
    rw [Coro.wp_bind, wp_modifyFrame, Coro.chain_ok]
    refine (checks_raiseIf _ _).seq (fun _ => hloaded.raised) fun _ howner => ?_
    have hread : m₁.Read args.accountId p plan := ⟨rfl, not_not.mp howner, hrow⟩
    have hvalidated : Ready args left m₁ { f with plan := some plan, validatedPlanId := some p } :=
      { unsettled := h.unsettled
        plans := h.plans
        validated := fun q hq => by
          cases hq
          exact ⟨hplan, plan, hread, rfl⟩
        unposted := h.unposted
        tries := h.tries }
    rw [Coro.wp_bind, wp_modifyFrame, Coro.chain_ok, Coro.wp_bind]
    unfold checkPlan
    rw [Coro.wp_bind, wp_clock]
    refine ⟨trivial, fun r _ => ?_⟩
    have hsame : m₁.Same (m₁.next (Op.clock (T := T)) r) := same_next (o := Op.clock) trivial r
    have hclock := hvalidated.same hsame
    rcases r with e | now
    · exact hclock.raised
    rw [Coro.chain_ok, wp_raiseIf]
    refine ⟨fun _ => hclock.raised, fun hchecks => ?_⟩
    rw [not_or, not_or] at hchecks
    have hfresh : plan.executionState.fresh = true := Bool.eq_true_of_not_eq_false hchecks.2.1
    rw [Coro.chain_ok]
    refine (checks_raiseIf _ _).seq (fun _ => hclock.raised) fun _ _ => ?_
    rw [Coro.wp_bind, wp_await]
    refine ⟨trivial, fun r _ => ?_⟩
    have hsame' := same_next (m := m₁.next (Op.clock (T := T)) (.ok now))
      (o := Op.stateFingerprint (T := T) p api) trivial r
    have hresolved := hclock.same hsame'
    rcases r with e | resolved
    · exact hresolved.raised
    rw [Coro.chain_ok, wp_raiseIf]
    refine ⟨fun _ => hresolved.raised, fun _ => ⟨hresolved, fun q hq => ?_⟩⟩
    cases hplan.symm.trans hq
    exact ⟨rfl, plan, (hread.same hsame).same hsame', rfl, hfresh⟩

/-- An attempt starts by locking the row of its account. -/
theorem requireForUpdate_sends {left : Nat} (h : Ready args left m f)
    (hv : f.validatedPlanId = none) :
    (requireForUpdate args.accountId : Tx T Unit).wp (sender T call) (fun m' r f' =>
      Ready args left m' f' ∧ ∀ x, r = .ok x → f'.validatedPlanId = none ∧
        ∃ row, m'.seen.row = some (args.accountId, row)) m f := by
  have hkept : ∀ {m' : Sender} {f' : Frame}, m'.settled = m.settled → m'.posted = m.posted →
      m'.tries = m.tries → f'.plans = f.plans → f'.validatedPlanId = f.validatedPlanId →
      Ready args left m' f' := by
    intro m' f' hs hp ht hps hv'
    refine ⟨⟨hs.trans h.unsettled, hps.trans h.plans, fun q hq => ?_⟩, hp.trans h.unposted,
      by rw [ht]; exact h.tries⟩
    rw [hv', hv] at hq
    cases hq
  unfold requireForUpdate
  rw [Coro.wp_bind, wp_await]
  refine ⟨h.unposted, fun r _ => ?_⟩
  rcases r with e | found
  · exact ⟨hkept rfl rfl rfl rfl rfl, fun _ hx => (by cases hx)⟩
  rw [Coro.chain_ok]
  cases found with
  | none => exact ⟨hkept rfl rfl rfl rfl rfl, fun _ hx => (by cases hx)⟩
  | some row =>
    rw [wp_modifyFrame]
    have hrow : ∃ r, (m.next (Op.accountForUpdate (T := T) args.accountId)
        (.ok (some row))).seen.row = some (args.accountId, r) := by
      show ∃ r, some (m.seen.lockedRow args.accountId row) = some (args.accountId, r)
      unfold Local.lockedRow
      split
      · split
        · rename_i heq
          exact ⟨_, by rw [heq]⟩
        · exact ⟨_, rfl⟩
      · exact ⟨_, rfl⟩
    split
    · exact ⟨hkept rfl rfl rfl rfl rfl, fun _ _ => ⟨hv, hrow⟩⟩
    · exact ⟨hkept rfl rfl rfl rfl rfl, fun _ _ => ⟨hv, hrow⟩⟩

theorem prepare_sends {left : Nat} (h : Ready args left m f) :
    (prepare P args : Tx T GameApi).wp (sender T call) (Tried args left) m f := by
  let f₀ : Frame := { f with sendStarted := false, validatedPlanId := none, plan := none }
  have hreset : Ready args left m f₀ :=
    ⟨⟨h.unsettled, h.plans, fun _ hq => (by cases hq)⟩, h.unposted, h.tries⟩
  unfold prepare
  rw [Coro.wp_bind, wp_modifyFrame, Coro.chain_ok]
  refine Coro.wp_seq (requireForUpdate_sends hreset rfl) ?_ fun _ _ _ hr => hr.1.raised
  rintro m₁ _ f₁ ⟨h₁, hlocked⟩
  obtain ⟨hv, hrow⟩ := hlocked _ rfl
  have h₁' : Ready args left m₁ { f₁ with validatedAccountId := some args.accountId } :=
    ⟨h₁.toUnwritten.frame rfl rfl rfl, h₁.unposted, h₁.tries⟩
  rw [Coro.wp_bind, wp_modifyFrame, Coro.chain_ok, Coro.wp_bind, wp_record, Coro.chain_ok]
  refine (checks_requireMutable _).seq (fun _ => h₁'.raised) fun _ _ => ?_
  refine Coro.wp_seq (ready_plain (ensureLocked_plain P args.accountId args.actor) _ _
    ⟨h₁', hv, hrow⟩) ?_ fun _ _ _ hr => hr.1.raised
  rintro m₂ resolution f₂ ⟨h₂, hv₂, hrow₂⟩
  cases resolution.api with
  | none => exact h₂.raised
  | some session =>
    dsimp only
    refine Coro.wp_seq (ready_plain (saveSnapshot_plain P args.accountId _ _) _ _
      ⟨h₂, hv₂, hrow₂⟩) ?_ fun _ _ _ hr => hr.1.raised
    rintro m₃ snapshot f₃ ⟨h₃, hv₃, hrow₃⟩
    rw [Coro.wp_bind, wp_await]
    refine ⟨trivial, fun r _ => ?_⟩
    have hsame := same_next (m := m₃) (o := Op.policyGet (T := T) args.accountId) trivial r
    have h₄ := h₃.same hsame
    have hrow₄ := hsame.row ▸ hrow₃
    rcases r with e | policy
    · exact h₄.raised
    rw [Coro.chain_ok]
    cases hplan : args.planId with
    | none =>
      refine ⟨h₄, fun q hq => ?_⟩
      rw [hplan] at hq
      cases hq
    | some p =>
      dsimp only
      refine Coro.wp_seq (preparePlan_sends hplan policy session.1 h₄ hv₃
        hrow₄) ?_ fun _ _ _ hr => hr
      exact fun _ _ _ hr => hr

/-! ## The send -/

def Sends (args : MutateArgs) (left : Nat) (m : Sender) :
    Except Exc (Option (LoopEnd T)) → Frame → Prop
  | .ok none, f => Ready args left m f
  | .ok (some e), f => Concludes args m (.ok e) f
  | .error e, f => Raised args m e f

theorem sends_of_concludes {left : Nat} {c : Tx T (LoopEnd T)}
    (hc : c.wp (sender T call) (Concludes args) m f) :
    (do let e ← c; return some e : Tx T (Option (LoopEnd T))).wp (sender T call) (Sends args left)
      m f :=
  Coro.wp_seq hc (fun _ _ _ h => h) fun _ _ _ h => h

theorem send_sends {left : Nat} (h : Prepared args (left + 1) m f) (api : GameApi) :
    (send args left api : Tx T (Option (LoopEnd T))).wp (sender T (.mutate args))
      (Sends args left) m f := by
  have htries : m.tries < 3 := by
    have := h.tries
    omega
  unfold send
  rw [Coro.wp_bind, wp_modifyFrame, Coro.chain_ok, Coro.wp_bind, wp_attempt, wp_await]
  refine ⟨⟨args, rfl, rfl, rfl, htries, h.unposted, h.unsettled, ?_⟩, fun r _ => ?_⟩
  · intro p hp
    obtain ⟨-, plan, hread, -, hfresh⟩ := h.fresh p hp
    exact ⟨plan, hread, hfresh⟩
  let m₁ : Sender := m.next (Op.operation args.accountId args.planId api) r
  -- whatever the operation ends in, the session is where it was
  have hread : ∀ {p plan}, m.Read args.accountId p plan → m₁.Read args.accountId p plan := by
    have hseen : m₁.seen = m.seen := by cases r <;> rfl
    intro p plan hread
    exact ⟨by rw [hseen]; exact hread.read, hread.account, by rw [hseen]; exact hread.row⟩
  have hunwritten : Unwritten args m₁ { f with sendStarted := true } := by
    refine ⟨h.unsettled, h.plans, fun p hp => ?_⟩
    obtain ⟨hplan, plan, hwas, hheld⟩ := h.validated p hp
    exact ⟨hplan, plan, hread hwas, hheld⟩
  have hsent : conflict r = false → Sent args m₁ { f with sendStarted := true } := by
    intro hr
    refine ⟨hunwritten, ?_, rfl, fun p hp => ?_⟩
    · show (!conflict r) = true
      rw [hr]
      rfl
    · obtain ⟨hv, plan, hwas, hplan, hfresh⟩ := h.fresh p hp
      refine ⟨hv, plan, hread hwas, hplan, ?_⟩
      cases hs : plan.executionState <;> rw [hs] at hfresh <;> first | rfl | cases hfresh
  rw [Coro.chain_ok]
  split
  · exact sends_of_concludes (cancelledAfterSend_sends (hsent rfl))
  · -- a conflict: the session is bootstrapped again, then comes the next attempt
    rename_i code
    have hready : Ready args left m₁ { f with sendStarted := true } := by
      refine ⟨hunwritten, rfl, ?_⟩
      show m.tries + 1 + left ≤ 3
      have := h.tries
      omega
    refine (checks_raiseIf _ _).seq (fun _ => .unsent hunwritten rfl) fun _ _ => ?_
    rw [Coro.wp_bind, wp_await]
    refine ⟨trivial, fun r₁ _ => ?_⟩
    have h₂ := hready.same (same_next (o := Op.bootstrap (T := T) api) trivial r₁)
    rcases r₁ with e | _
    · exact .unsent h₂.toUnwritten h₂.unposted
    rw [Coro.chain_ok, Coro.wp_bind, wp_await]
    refine ⟨trivial, fun r₂ _ => ?_⟩
    have h₃ := h₂.same (same_next (o := Op.sleep (T := T)) trivial r₂)
    rcases r₂ with e | _
    · exact .unsent h₃.toUnwritten h₃.unposted
    · exact h₃
  · exact sends_of_concludes (reconcileAmbiguous_sends (hsent rfl) api)
  · refine Coro.wp_seq (finishValidated_sends (hsent rfl) rfl _) ?_ ?_
    · rintro m' _ f' ⟨hsame, hended⟩
      exact .rejected hended (hsame.posted.trans (hsent rfl).posted)
    · rintro m' e f' ⟨hsame, hr⟩
      rcases hr with rfl | rfl
      · exact .cancelled (hsame.settled.trans (hsent rfl).unsettled)
      · exact .sent ((hsent rfl).same hsame)
  · rename_i e _ hconflict _ _ _
    refine .sent (hsent ?_)
    show e.isGameConflict = false
    cases e <;> first | rfl | exact (hconflict _ rfl).elim
  · exact sends_of_concludes (confirmSent_sends (hsent rfl) api _)

theorem attempts_sends (left : Nat) (h : Ready args left m f) :
    (attempts P args left : Tx T (LoopEnd T)).wp (sender T (.mutate args)) (Concludes args) m f := by
  induction left generalizing m f with
  | zero => exact ⟨h.toUnwritten, h.unposted⟩
  | succ left ih =>
    unfold attempts
    refine Coro.wp_seq (prepare_sends h) ?_ fun _ _ _ hr => hr
    intro m₁ api f₁ h₁
    refine Coro.wp_seq (send_sends h₁ api) ?_ fun _ _ _ hr => hr
    intro m₂ e f₂ h₂
    cases e with
    | some e => exact h₂
    | none => exact ih h₂

/-! ## The handler and the transaction -/

/-- What the handler leaves of the plan: nothing more than before, or its final state. -/
def Handled (args : MutateArgs) (m : Sender) (pending : Exc) (f : Frame) : Prop :=
  (Unwritten args m f ∧ (m.posted = true → args.planId = none)) ∨
    ∃ state, Ended args state m f ∧ (m.posted = true → state ≠ .executed ∧
      (pending = .reconciliationRequired ∨ pending = .cancelled → state ≠ .failed))

theorem pendingFor_ne_cancelled (e : Exc) : pendingFor e ≠ .cancelled := by
  cases e <;> simp [pendingFor, Exc.isAccountError, Exc.isGameError]

/-- The handler fails a plan after the send only for a reason that it raises again. -/
theorem failed_pending {started : Bool} (h : terminalFor e started = some .failed) :
    pendingFor e ≠ .reconciliationRequired := by
  unfold terminalFor at h
  split at h
  · rename_i hcause
    rcases hcause with rfl | hconflict
    · decide
    · cases e with
      | gameConflict code =>
        show Exc.gameConflict code ≠ _
        exact fun hp => by cases hp
      | _ => cases hconflict
  · split at h <;> cases h

theorem terminalFor_terminal {started : Bool} (h : terminalFor e started = some state) :
    state.terminal = true ∧ state ≠ .executed := by
  unfold terminalFor at h
  split at h
  · cases h
    exact ⟨rfl, by decide⟩
  · split at h <;> cases h
    exact ⟨rfl, by decide⟩

theorem terminalise_sends (h : Raised args m e f) (he : e.isException = true) :
    (terminalise e (pendingFor e) : Tx T Unit).wp (sender T call) (fun m' r f' =>
      m'.settled = none ∧ (r = .ok () → Handled args m' (pendingFor e) f')) m f := by
  -- finishing an open plan of the session
  have hfinish : ∀ {p plan state} (result : List (String × Json)), Unwritten args m f →
      f.validatedPlanId = some p → f.plan = some plan → plan.executionState.terminal = false →
      terminalFor e f.sendStarted = some state →
      (PlanStore.finish p state result : Tx T Unit).wp (sender T call) (fun m' r f' =>
        m'.settled = none ∧ (r = .ok () → Handled args m' (pendingFor e) f')) m f := by
    intro p plan state result hu hv hplan hopen hfor
    obtain ⟨hterminal, hother⟩ := terminalFor_terminal hfor
    refine Coro.wp_mono (finish_sends hplan hopen hterminal hu.plans result) ?_
    rintro m' (e' | _) f' ⟨hsame, hr⟩
    · exact ⟨hsame.settled.trans hu.unsettled, fun h => by cases h⟩
    · obtain ⟨now, rfl⟩ := hr
      have hended : Ended args state m' { f with
          plan := some ((PlanUpdate.finished state (PlanStore.safeResult result) now).apply plan)
          plans := [(p, .finished state (PlanStore.safeResult result) now)] } :=
        (hu.same hsame).finishes hterminal hv hplan hopen
      refine ⟨hended.unsettled, fun _ => .inr ⟨state, hended, fun _ => ⟨hother, ?_⟩⟩⟩
      rintro (hp | hp) rfl
      · exact failed_pending hfor hp
      · exact pendingFor_ne_cancelled e hp
  have hskip : Handled args m (pendingFor e) f → (return () : Tx T Unit).wp (sender T call)
      (fun m' r f' => m'.settled = none ∧ (r = .ok () → Handled args m' (pendingFor e) f')) m f :=
    fun hh => ⟨h.unsettled, fun _ => hh⟩
  unfold terminalise
  rw [Coro.wp_bind, wp_frame, Coro.chain_ok]
  cases h with
  | cancelled => cases he
  | unsent hu hunposted =>
    have hleft : Handled args m (pendingFor e) f := .inl ⟨hu, fun hp => by
      rw [hunposted] at hp
      cases hp⟩
    split
    · rename_i p state' hv hfor
      obtain ⟨-, plan, -, hplan⟩ := hu.validated p hv
      split
      · rename_i hall
        exact hfinish _ hu hv hplan (by simpa [hplan] using hall) hfor
      · exact hskip hleft
    · exact hskip hleft
  | sent hs =>
    split
    · rename_i p state' hv hfor
      obtain ⟨hplan, -⟩ := hs.validated p hv
      obtain ⟨-, plan, -, hheld, hopen⟩ := hs.opened p hplan
      rw [if_pos (by simp [hheld, hopen])]
      exact hfinish _ hs.toUnwritten hv hheld hopen hfor
    · rename_i hnone
      refine hskip (.inl ⟨hs.toUnwritten, fun _ => ?_⟩)
      cases hplan : args.planId with
      | none => rfl
      | some p =>
        exfalso
        obtain ⟨hv, -⟩ := hs.opened p hplan
        cases hfor : terminalFor e f.sendStarted with
        | none =>
          unfold terminalFor at hfor
          rw [hs.started] at hfor
          split at hfor <;> cases hfor
        | some state' => exact hnone p state' hv hfor
  | rejected hended hposted =>
    have hleft : Handled args m (pendingFor .authenticationRequired) f :=
      .inr ⟨.failed, hended, fun _ => ⟨by decide, by decide⟩⟩
    split
    · rename_i p state' hv hfor
      split
      · rename_i hall
        exfalso
        cases hplan : args.planId with
        | none =>
          rw [(hended.unplanned hplan).2] at hv
          cases hv
        | some q =>
          obtain ⟨-, -, -, plan, hheld, hterminal⟩ := hended.plan q hplan
          rw [hheld] at hall
          simp [hterminal] at hall
      · exact hskip hleft
    · exact hskip hleft

theorem handle_sends (h : Raised args m e f) (he : e.isException = true) :
    (handle args e : Tx T Exc).wp (sender T call) (fun m' r f' => m'.settled = none ∧
      ∀ pending, r = .ok pending → pending = pendingFor e ∧ Handled args m' pending f') m f := by
  unfold handle
  dsimp only
  refine Coro.wp_seq (terminalise_sends h he) ?_ fun _ _ _ hr => ⟨hr.1, fun _ h => by cases h⟩
  rintro m' _ f' ⟨hsettled, hhandled⟩
  rw [Coro.wp_bind, wp_frame, Coro.chain_ok, Coro.wp_bind]
  unfold auditMutate
  rw [wp_audit, Coro.chain_ok, Coro.wp_pure]
  refine ⟨hsettled, ?_⟩
  rintro _ ⟨⟩
  refine ⟨rfl, ?_⟩
  rcases hhandled rfl with ⟨hu, hp⟩ | ⟨state, hended, hstate⟩
  · exact .inl ⟨hu.frame rfl rfl rfl, hp⟩
  · exact .inr ⟨state, hended.frame rfl rfl rfl, hstate⟩

def Finished (args : MutateArgs) (m : Sender) : Except Exc (Except Exc (LoopEnd T)) → Frame → Prop
  | .ok (.ok e), f => Concludes args m (.ok e) f
  | .ok (.error pending), f => Handled args m pending f
  | .error _, _ => m.settled = none

theorem body_sends :
    (body P args : Tx T (Except Exc (LoopEnd T))).wp (sender T (.mutate args)) (Finished args)
      {} {} := by
  have hready : Ready args 3 {} {} :=
    ⟨⟨rfl, rfl, fun _ hq => (by cases hq)⟩, rfl, by decide⟩
  unfold body
  rw [Coro.wp_bind, wp_await]
  refine ⟨trivial, fun r _ => ?_⟩
  have hlocked := hready.same (same_next (o := Op.accountLock (T := T) args.accountId) trivial r)
  rcases r with e | _
  · exact hlocked.unsettled
  rw [Coro.chain_ok]
  refine wp_try (attempts_sends 3 hlocked) ?_
  rintro m' (e | out) f' h
  · dsimp only
    rw [Coro.wp_ite]
    refine ⟨fun he => ?_, fun _ => h.unsettled⟩
    refine Coro.wp_seq (handle_sends h he) ?_ fun _ _ _ hr => hr.1
    rintro m'' pending f'' ⟨-, hr⟩
    exact (hr pending rfl).2
  · exact h

theorem Ended.settles (h : Ended args state m f) (hp : args.planId = some p) :
    m.Settles args p f.writes := by
  obtain ⟨-, ⟨result, now, hplans⟩, hread, -⟩ := h.plan p hp
  refine ⟨.inr ⟨state, result, now, hplans, h.terminal, hread⟩, fun _ hnil => ?_⟩
  rw [show f.writes.plans = _ from hplans] at hnil
  cases hnil

theorem Unwritten.settles (h : Unwritten args m f) (hu : m.posted = true → args.planId = none)
    (hp : args.planId = some p) : m.Settles args p f.writes := by
  refine ⟨.inl h.plans, fun hposted => ?_⟩
  rw [hu hposted] at hp
  cases hp

/-- The state that the commit of a planned call records. -/
theorem Ended.records (h : Ended args state m f) (hplanned : args.planId.isSome = true)
    (r : Except Exc Unit) : ((m.next (Op.commit (T := T) f.writes) r).settled = none ∨
      (m.next (Op.commit (T := T) f.writes) r).settled = some state) ∧
    (r = .ok () → m.posted = true →
      (m.next (Op.commit (T := T) f.writes) r).settled = some state) := by
  obtain ⟨p, hp⟩ := Option.isSome_iff_exists.mp hplanned
  obtain ⟨-, ⟨result, now, hplans⟩, -⟩ := h.plan p hp
  rcases r with e | _
  · exact ⟨.inl h.unsettled, fun hr => by cases hr⟩
  · have hnext : (m.next (Op.commit (T := T) f.writes) (.ok ())).settled =
        if m.posted = true then some state else m.settled := by
      show (if m.posted = true then finalOf f.plans else m.settled) = _
      rw [hplans]
      rfl
    rw [hnext]
    split
    · exact ⟨.inr rfl, fun _ _ => rfl⟩
    · rename_i hposted
      exact ⟨.inl h.unsettled, fun _ hp => absurd hp hposted⟩

/-- What the transaction of a planned call has recorded. -/
def Settled (m : Sender) : Except Exc (Except Exc (LoopEnd T)) → Prop
  | .ok (.ok (.outcome _)) => m.settled = some .executed
  | .ok (.ok .cancelled) => m.settled = some .reconciliationRequired
  | .ok (.ok .exhausted) => m.settled = none
  | .ok (.error pending) => m.settled ≠ some .executed ∧
    (pending = .reconciliationRequired ∨ pending = .cancelled → m.settled ≠ some .failed)
  | .error _ => m.settled = none

theorem Finished.commits {out : Except Exc (LoopEnd T)} (h : Finished args m (.ok out) f) :
    (∀ p, args.planId = some p → m.Settles args p f.writes) ∧
      ∀ r : Except Exc Unit, r = .ok () → args.planId.isSome = true →
        Settled (m.next (Op.commit (T := T) f.writes) r) (.ok out) := by
  have hunwritten : ∀ {r : Except Exc Unit}, Unwritten args m f →
      (m.posted = true → args.planId = none) → args.planId.isSome = true →
      (m.next (Op.commit (T := T) f.writes) r).settled = none := by
    intro r hu hposted hplanned
    have hunposted : m.posted = false := by
      cases hp : m.posted with
      | false => rfl
      | true =>
        rw [hposted hp] at hplanned
        cases hplanned
    rcases r with e | _
    · exact hu.unsettled
    · show (if m.posted = true then finalOf f.plans else m.settled) = none
      rw [if_neg (by simp [hunposted])]
      exact hu.unsettled
  rcases out with pending | ending
  · rcases h with ⟨hu, hposted⟩ | ⟨state, hended, hstate⟩
    · refine ⟨fun p hp => hu.settles hposted hp, fun r hr hplanned => ?_⟩
      show (m.next (Op.commit (T := T) f.writes) r).settled ≠ _ ∧ _
      rw [hunwritten hu hposted hplanned]
      exact ⟨by decide, fun _ => by decide⟩
    · refine ⟨fun p hp => hended.settles hp, fun r hr hplanned => ?_⟩
      show (m.next (Op.commit (T := T) f.writes) r).settled ≠ _ ∧ _
      cases hposted : m.posted with
      | true =>
        obtain ⟨hother, hnot⟩ := hstate hposted
        rw [(hended.records hplanned r).2 hr hposted]
        exact ⟨fun h => hother (Option.some.inj h), fun hp h => hnot hp (Option.some.inj h)⟩
      | false =>
        have hnone : (m.next (Op.commit (T := T) f.writes) r).settled = none := by
          subst hr
          show (if m.posted = true then finalOf f.plans else m.settled) = none
          rw [if_neg (by simp [hposted])]
          exact hended.unsettled
        rw [hnone]
        exact ⟨by decide, fun _ => by decide⟩
  · cases ending with
    | cancelled =>
      exact ⟨fun p hp => h.1.settles hp, fun r hr hplanned => (h.1.records hplanned r).2 hr h.2⟩
    | outcome o =>
      exact ⟨fun p hp => h.1.settles hp, fun r hr hplanned => (h.1.records hplanned r).2 hr h.2⟩
    | exhausted =>
      have hposted : m.posted = true → args.planId = none := fun hp => by
        rw [h.2] at hp
        cases hp
      exact ⟨fun p hp => h.1.settles hposted hp, fun r _ hplanned => hunwritten h.1 hposted hplanned⟩

theorem Finished.unsettled {r : Except Exc (Except Exc (LoopEnd T))} (h : Finished args m r f) :
    m.settled = none := by
  rcases r with e | pending | ending
  · exact h
  · rcases h with ⟨hu, -⟩ | ⟨_, hended, -⟩
    · exact hu.unsettled
    · exact hended.unsettled
  · cases ending <;> exact h.1.unsettled

theorem mutate_sends :
    (AccountService.mutate P args : Action T (MutationOutcome T)).wp (sender T (.mutate args))
      (fun m r _ => args.planId.isSome = true →
        (∀ x, r = .ok x → m.settled = some .executed) ∧
          ∀ e, r = .error e → m.settled ≠ some .executed ∧
            (e = .reconciliationRequired ∨ e = .cancelled → m.settled ≠ some .failed)) {} () := by
  have htransaction : (transaction (body P args) : Action T (Except Exc (LoopEnd T))).wp
      (sender T (.mutate args)) (fun m r _ => args.planId.isSome = true → Settled m r) {} () := by
    refine wp_transaction body_sends ?_ ?_
    · intro m out f h
      obtain ⟨hsettles, hsettled⟩ := h.commits
      refine ⟨fun args' p hargs hp => ?_, fun r _ => ?_⟩
      · cases hargs
        exact hsettles p hp
      · cases r with
        | ok _ => exact hsettled _ rfl
        | error e =>
          refine ⟨trivial, fun r _ => ?_⟩
          cases r <;> exact fun _ => h.unsettled
    · intro m e f h
      refine ⟨trivial, fun r _ => ?_⟩
      cases r <;> exact fun _ => h
  unfold AccountService.mutate
  refine Coro.wp_seq htransaction ?_ ?_
  · rintro m (pending | ending) _ h
    · intro hplanned
      refine ⟨fun _ hx => (by cases hx), ?_⟩
      rintro _ ⟨⟩
      exact h hplanned
    · cases ending with
      | outcome o => exact fun hplanned => ⟨fun _ _ => h hplanned, fun _ he => (by cases he)⟩
      | cancelled =>
        intro hplanned
        have hsettled := h hplanned
        refine ⟨fun _ hx => (by cases hx), fun _ _ => ?_⟩
        rw [show m.settled = _ from hsettled]
        exact ⟨by decide, fun _ => by decide⟩
      | exhausted =>
        intro hplanned
        have hsettled := h hplanned
        refine ⟨fun _ hx => (by cases hx), fun _ _ => ?_⟩
        rw [show m.settled = _ from hsettled]
        exact ⟨by decide, fun _ => by decide⟩
  · intro m e _ h hplanned
    refine ⟨fun _ hx => (by cases hx), fun _ _ => ?_⟩
    rw [show m.settled = none from h hplanned]
    exact ⟨by decide, fun _ => by decide⟩

/-! ## Executions -/

/-- Nothing was sent by an operation: all that other calls keep. -/
abbrev Unposted (m : Sender) (_ : Frame) : Prop := m.posted = false

/-- Only the operation of a `mutate` posts. -/
theorem unposted_next (o : Op T) (h : m.posted = false) (ho : ∀ a q api, o ≠ .operation a q api)
    (r : Except Exc o.Val) : (m.next o r).posted = false := by
  cases o with
  | operation a q api => exact absurd rfl (ho a q api)
  | commit ws => cases r <;> exact h
  | rollback => cases r <;> exact h
  | selectPlan p =>
    cases r with
    | error e => exact h
    | ok found => cases found <;> exact h
  | _ => cases r <;> exact h

/-- Another call than `mutate` may ask for anything but the two requests. -/
theorem ok_peaceful (hc : call.NotMutate) {o : Op T} (ho : o.Peaceful) (h : m.posted = false) :
    m.ok call o := by
  cases o with
  | operation a q api => exact ho.elim
  | idleCollect a p api => exact ho.elim
  | accountForUpdate a => exact h
  | getPlan p => exact h
  | commit ws => exact fun args _ hargs => absurd hargs (hc args)
  | _ => exact trivial

theorem peaceful_next {o : Op T} (ho : o.Peaceful) (h : m.posted = false) (r : Except Exc o.Val) :
    (m.next o r).posted = false := by
  refine unposted_next _ h ?_ r
  rintro a q api rfl
  exact ho

theorem sessions (hc : call.NotMutate) :
    Sessions (sender T call) Unposted (fun m => m.posted = false) where
  begins _ h := h
  inside _ _ _ ho h := ⟨ok_peaceful hc (Op.Free.peaceful ho) h, fun r _ => peaceful_next (Op.Free.peaceful ho) h r⟩
  between _ _ ho h := ⟨ok_peaceful hc (Op.Free.peaceful ho) h, fun r _ => peaceful_next (Op.Free.peaceful ho) h r⟩
  commits _ f h := ⟨ok_peaceful hc (o := Op.commit (T := T) f.writes) trivial h,
    fun r _ => peaceful_next (o := .commit f.writes) trivial h r⟩
  abandons _ _ h := ⟨trivial, fun r _ => peaceful_next (o := .rollback) trivial h r⟩
  rolls _ h := ⟨trivial, fun r _ => peaceful_next (o := .rollback) trivial h r⟩

theorem accountSessions (hc : call.NotMutate) (a : AccountId) :
    AccountSessions (sender T call) a Unposted (fun m => m.posted = false) where
  toSessions := sessions hc
  tame := ⟨fun _ _ h => h, fun _ _ _ h h' m hm => h' m (h m hm), fun _ _ _ _ h => h,
    fun _ _ _ _ _ h => h, fun _ _ _ _ h => h, fun _ _ _ _ h => h⟩
  locks _ _ h := ⟨h, fun r _ => peaceful_next (o := .accountForUpdate a) trivial h r⟩

/-- What is peaceful keeps `Unposted`. -/
theorem stable_peaceful (hc : call.NotMutate) {σ : Type} {c : Coro (sig T) σ α}
    (h : Peaceful.In c) : Stable (sender T call) (fun m _ => m.posted = false) c := by
  intro m s hm
  have hwp := Proc.wp_of_asks (M := sender T call) (I := fun m => m.posted = false)
    (fun m o ho hm => ⟨ok_peaceful hc ho hm, fun r _ => peaceful_next ho hm r⟩)
    (h () s trivial) hm
  exact Proc.wp_mono hwp fun _ _ hr => hr.1

section Execute

open IdleExecuteUseCase

variable {actor : Actor} {correlationId : String} {recovery : Bool}

/-- The collection follows a look at the row. -/
theorem collect_sends {claim : Claim} {locked : AccountService.LockedAccount} {before : IdleSummary}
    (hc : call.NotMutate) (hcall : call.Executes claim.planId) {plan : ActionPlan}
    (hl : m.looked = some (claim.planId, plan)) (ha : plan.accountId = a)
    (he : plan.executionState = .executing)
    (h : m.posted = false) :
    (collect a claim locked before : Tx T IdleExecuteUseCase.Outcome).wp (sender T call)
      (fun m' _ _ => m'.posted = false) m f := by
  have hs : Sessions (sender T call) Unposted (fun m => m.posted = false) := sessions hc
  have hafter : ∀ {g : Except Exc (Bool × IdleSummary) → Tx T IdleExecuteUseCase.Outcome},
      (∀ r, Stable (sender T call) Unposted (g r)) →
      (attempt (do
        let response ← await (.idleCollect a claim.planId locked.api)
        let after ← await (.idleSummary a locked.api)
        pure (response, after)) >>= g).wp (sender T call) (fun m' _ _ => m'.posted = false) m f := by
    intro g hg
    rw [Coro.wp_bind, wp_attempt, Coro.wp_bind, wp_await]
    refine ⟨⟨hcall, plan, hl, ha, he⟩, fun r _ => ?_⟩
    have h₁ : (m.next (Op.idleCollect a claim.planId locked.api) r).posted = false :=
      unposted_next (Op.idleCollect (T := T) a claim.planId locked.api) h (fun _ _ _ h => by cases h) r
    rcases r with e | collected
    · exact hg _ _ _ h₁
    · rw [Coro.chain_ok, Coro.wp_bind, wp_await]
      refine ⟨trivial, fun r _ => ?_⟩
      have h₂ := peaceful_next (o := Op.idleSummary (T := T) a locked.api) trivial h₁ r
      rcases r with e | after
      · exact hg _ _ _ h₂
      · rw [Coro.chain_ok, Coro.wp_pure]
        exact hg _ _ _ h₂
  unfold collect
  refine hafter fun r => ?_
  split
  · exact Stable.raise _
  · unfold outcomeAfterError
    refine Stable.bind (Stable.attempt (hs.await trivial)) fun r => ?_
    split
    · exact Stable.raise _
    · exact Stable.pure _
    · exact Stable.ite _ (Stable.pure _) (Stable.pure _)
  · exact Stable.ite _ (Stable.pure _) (Stable.pure _)

theorem sendLocked_sends {claim : Claim} (locked : AccountService.LockedAccount)
    (hc : call.NotMutate) (hcall : call.Executes claim.planId) :
    Stable (sender T call) Unposted
      (sendLocked P a claim locked : Tx T IdleExecuteUseCase.Outcome) := by
  have hs : Sessions (sender T call) Unposted (fun m => m.posted = false) := sessions hc
  unfold sendLocked
  refine Stable.bind (hs.await trivial) fun before => ?_
  intro m f h
  unfold IdleExecutionClaims.owned
  rw [Coro.wp_bind, Coro.wp_bind, wp_await]
  refine ⟨trivial, fun r _ => ?_⟩
  rcases r with e | found
  · exact h
  rw [Coro.chain_ok]
  cases found with
  | none =>
    dsimp only
    rw [Coro.wp_pure, Coro.chain_ok, if_pos (.inl rfl)]
    exact h
  | some plan =>
    dsimp only
    rw [Coro.wp_pure, Coro.chain_ok, Coro.wp_ite]
    refine ⟨fun _ => h, fun hchecks => ?_⟩
    have howned := (not_or.mp hchecks).1
    simp only [Bool.not_eq_false, Bool.and_eq_true, beq_iff_eq] at howned
    exact collect_sends hc hcall rfl howned.1.1 howned.1.2 h

theorem claimRow_returns (owner : Nat) (now : Time) (who source : String) :
    Coro.Returns (fun claim : Claim => claim.planId = p)
      (IdleExecutionClaims.claimRow a p owner now who source correlationId recovery :
        Tx T Claim) := by
  unfold IdleExecutionClaims.claimRow
  refine Coro.Returns.last fun plan => ?_
  split
  · exact Coro.Returns.last fun _ => Coro.Returns.last fun _ => Coro.Returns.last fun _ =>
      Coro.Returns.last fun _ => Coro.Returns.pure rfl
  · exact Coro.Returns.last fun _ => Coro.Returns.last fun _ => Coro.Returns.last fun _ =>
      Coro.Returns.pure rfl

theorem claim_sends (hc : call.NotMutate) (h : m.posted = false) :
    (IdleExecutionClaims.claim a p actor correlationId recovery : Action T Claim).wp
      (sender T call) (fun m' r _ => m'.posted = false ∧
        ∀ claim, r = .ok claim → claim.planId = p) m () := by
  have hs : Sessions (sender T call) Unposted (fun m => m.posted = false) := sessions hc
  have hpre : ∀ {β : Type} {c : Action T β} {g : β → Action T Claim} {m : Sender},
      m.posted = false → Peaceful.In c →
      (∀ m' x, m'.posted = false → (g x).wp (sender T call)
        (fun m' r _ => m'.posted = false ∧ ∀ claim, r = .ok claim → claim.planId = p) m' ()) →
      (c >>= g).wp (sender T call)
        (fun m' r _ => m'.posted = false ∧ ∀ claim, r = .ok claim → claim.planId = p) m () := by
    intro β c g m hm hp hg
    exact Coro.wp_seq (stable_peaceful hc hp m () hm) (fun m' x _ h' => hg m' x h')
      fun _ _ _ h' => ⟨h', fun _ hr => by cases hr⟩
  unfold IdleExecutionClaims.claim
  refine hpre h (Stable.raiseIf _ _) fun m _ h => ?_
  refine hpre h (Peaceful.await trivial) fun m owner h => ?_
  refine hpre h (Peaceful.await (o := .clock) trivial) fun m now h => ?_
  refine hpre h (Peaceful.auditActor actor) fun m source h => ?_
  refine wp_transaction (R := fun m' r _ => m'.posted = false ∧
    ∀ claim, r = .ok claim → claim.planId = p) ?_ ?_ ?_
  · exact (claimRow_returns owner now _ _).wp
      (stable_peaceful hc (Peaceful.claimRow a p owner now _ _ _ _) m {} h)
  · rintro m' claim f ⟨h', hclaim⟩
    refine ⟨ok_peaceful hc (o := Op.commit (T := T) f.writes) trivial h', fun r _ => ?_⟩
    have hn := peaceful_next (o := Op.commit (T := T) f.writes) trivial h' r
    cases r with
    | ok _ => exact ⟨hn, hclaim⟩
    | error e =>
      refine ⟨trivial, fun r' _ => ?_⟩
      have hn' := peaceful_next (o := Op.rollback (T := T)) trivial hn r'
      cases r' <;> exact ⟨hn', fun _ hr => by cases hr⟩
  · rintro m' e f ⟨h', -⟩
    refine ⟨trivial, fun r' _ => ?_⟩
    have hn' := peaceful_next (o := Op.rollback (T := T)) trivial h' r'
    cases r' <;> exact ⟨hn', fun _ hr => by cases hr⟩

theorem executeGuarded_sends (hc : call.NotMutate) (hcall : call.Executes p) (h : m.posted = false) :
    (executeGuarded P a p actor correlationId recovery : Action T IdleExecution).wp
      (sender T call) (fun m' _ _ => m'.posted = false) m () := by
  unfold executeGuarded
  refine Coro.wp_seq (claim_sends hc h) ?_ fun _ _ _ h' => h'.1
  rintro m' claim _ ⟨h', hclaim⟩
  have hp : call.Executes claim.planId := by
    rw [hclaim claim rfl]
    exact hcall
  rw [Coro.wp_ite]
  refine ⟨fun _ => stable_peaceful hc (Peaceful.recover P _ _ _ _) m' () h', fun _ => ?_⟩
  unfold sendOnce
  refine Coro.wp_seq (locked_stable P actor (accountSessions hc a)
    (fun locked => sendLocked_sends locked hc hp) m' () h') ?_ fun _ _ _ h'' => h''
  exact fun m'' outcome _ h'' => stable_peaceful hc (Peaceful.settle _ _ _ _ outcome) m'' () h''

theorem execute_sends (hc : call.NotMutate) (hcall : call.Executes p) (h : m.posted = false) :
    (execute P a p actor correlationId recovery : Action T IdleExecution).wp (sender T call)
      (fun m' _ _ => m'.posted = false) m () := by
  unfold execute
  refine Coro.wp_seq (stable_peaceful hc (Stable.raiseIf _ _) m () h) ?_ fun _ _ _ h' => h'
  intro m₁ _ _ h₁
  refine Coro.wp_seq (stable_peaceful hc (Peaceful.await (o := .tryExecutionGuard a) trivial) m₁ () h₁) ?_ fun _ _ _ h' => h'
  intro m₂ _ _ h₂
  refine Coro.wp_seq (stable_peaceful hc (Stable.raiseIf _ _) m₂ () h₂) ?_ fun _ _ _ h' => h'
  intro m₃ _ _ h₃
  rw [Coro.wp_andFinally]
  refine Coro.wp_mono (executeGuarded_sends hc hcall h₃) fun m' r s h' => ?_
  have hunlock : Peaceful.In (await (.executionUnlock a) : Action T Unit) :=
    Peaceful.await (o := .executionUnlock a) trivial
  refine Coro.wp_mono (stable_peaceful hc hunlock m' s h') ?_
  intro m'' r' s' h''
  cases r' <;> exact h''

end Execute

/-! ## All calls -/

variable (P)

theorem run_sender (call : Call) :
    (call.run P : Action T (Returned T)).wp (sender T call) (fun m r _ => m.Post r call)
      {} () := by
  by_cases hsends : call.Sends
  · cases call with
    | mutate args =>
      unfold Call.run returning
      refine Coro.wp_seq mutate_sends (fun m x _ h hplanned => ?_) fun m e _ h hplanned => ?_
      · exact ⟨fun _ _ => (h hplanned).1 x rfl, fun _ he => (by cases he)⟩
      · exact ⟨fun _ hx => (by cases hx), fun e' he => (h hplanned).2 e' (by cases he; rfl)⟩
    | execute a p actor correlationId recovery =>
      unfold Call.run returning
      refine Coro.wp_seq (execute_sends (fun _ h => by cases h) rfl rfl) ?_ ?_
      · exact fun _ _ _ _ => trivial
      · exact fun _ _ _ _ => trivial
    | _ => exact hsends.elim
  · have hother : call.NotMutate := by
      rintro args rfl
      exact hsends trivial
    refine Coro.wp_mono (stable_peaceful hother (Peaceful.run P hsends) {} () rfl) ?_
    intro m r _ _
    cases call <;> first | exact trivial | exact absurd trivial hsends

end Sender

theorem sender_watched (P : Ports) :
    Reachable.Watched (machine T P) (sender T) (fun call m r => m.Post r call) where
  prog call := Coro.wp_toProc.mpr (Sender.run_sender P call)
  ans _ _ _ _ _ _ hw _ := fun ho _ he => hw.stored ho he

end PlaceGame
