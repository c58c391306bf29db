import PlaceGame.Accounts.Authorised
import PlaceGame.Accounts.Mutations
import PlaceGame.Accounts.Unhandled
import PlaceGame.Committed
import PlaceGame.Scripts

/-!
# PlaceGame.Accounts.PreSend

What a planned `mutate` leaves of its plan when the game raises before the send.

`PreSend` notes the typed error of the game that ends an attempt before its operation was invoked,
and what raised it. The handler of `mutate` then raises the error again and writes nothing to the
plan, unless the resolver raised a conflict: a conflict is taken for one of the operation, and the
plan fails.
-/

namespace PlaceGame

open Coop

/-- What raises a typed error of the game before the send. -/
inductive Origin where
  | session
  | snapshot
  | resolver
  deriving DecidableEq

structure PreSend extends Committed where
  sent : Bool := false
  raised : Option (Origin × Exc) := none
  /-- The answer to the last selection of the plan. -/
  loaded : Option ActionPlan := none

/-- Where the await of an attempt belongs to. -/
def Op.origin {T : Type} : Op T → Option Origin
  | .login _ _ | .bootstrap _ => some .session
  | .idleSummary _ _ => some .snapshot
  | .stateFingerprint _ _ => some .resolver
  | _ => none

namespace PreSend

variable {T : Type}

/-- The attempt ends with the error: only the session handles one, a rejected token. -/
def ends : Origin → Exc → Bool
  | .session, e => e.isGameError && e ≠ .sessionRejected
  | _, e => e.isGameError

def note (m : PreSend) (origin : Origin) (e : Exc) : PreSend :=
  if m.sent = false ∧ ends origin e = true then { m with raised := some (origin, e) } else m

def next (m : PreSend) : (o : Op T) → Except Exc o.Val → PreSend
  | .accountForUpdate _, _ => { m with sent := false }
  | .login _ _, .error e => m.note .session e
  | .bootstrap _, .error e => m.note .session e
  | .idleSummary _ _, .error e => m.note .snapshot e
  | .stateFingerprint _ _, .error e => m.note .resolver e
  | .getPlan _, .ok row => { m with loaded := row }
  | .operation _ _ _, _ => { m with sent := true }
  | .commit ws, .ok _ => { m with written := m.written ++ [ws] }
  | .commit _, .error _ => { m with unanswered := true }
  | _, _ => m

def Open (m : PreSend) : Prop := m.written = [] ∧ m.unanswered = false

/-- A conflict of the resolver, which the handler takes for one of the operation. -/
def Spends (origin : Origin) (e : Exc) : Prop := origin = .resolver ∧ e.isGameConflict = true

theorem ends_isGameError {origin : Origin} {e : Exc} (h : ends origin e = true) :
    e.isGameError = true := by
  cases origin with
  | session => exact (Bool.and_eq_true_iff.mp h).1
  | _ => exact h

theorem ends_unhandled {origin : Origin} {e : Exc} (h : ends origin e = true)
    (hs : origin = .session) : e.Unhandled := by
  subst hs
  obtain ⟨hgame, hne⟩ := Bool.and_eq_true_iff.mp h
  refine ⟨by simpa using hne, ?_⟩
  rintro rfl
  cases hgame

/-- An error is noted where it arises, or nothing is. -/
theorem raised_next (m : PreSend) (o : Op T) (r : Except Exc o.Val) :
    (m.next o r).raised = m.raised ∨
      ∃ origin e, o.origin = some origin ∧ r = .error e ∧ ends origin e = true ∧
        (m.next o r).raised = some (origin, e) := by
  have hnote : ∀ {origin : Origin} {e : Exc}, o.origin = some origin → r = .error e →
      m.next o r = m.note origin e → (m.next o r).raised = m.raised ∨
        ∃ origin e, o.origin = some origin ∧ r = .error e ∧ ends origin e = true ∧
          (m.next o r).raised = some (origin, e) := by
    intro origin e ho hr hn
    rw [hn, note]
    split
    · rename_i h
      exact .inr ⟨origin, e, ho, hr, h.2, rfl⟩
    · exact .inl rfl
  cases r with
  | ok v => cases o <;> exact .inl rfl
  | error e =>
    cases o with
    | login username password => exact hnote rfl rfl rfl
    | bootstrap api => exact hnote rfl rfl rfl
    | idleSummary a api => exact hnote rfl rfl rfl
    | stateFingerprint p api => exact hnote rfl rfl rfl
    | _ => exact .inl rfl

theorem open_note {m : PreSend} {origin : Origin} {e : Exc} (h : m.Open) : (m.note origin e).Open := by
  unfold note
  split
  · exact h
  · exact h

theorem open_next {m : PreSend} {o : Op T} (h : m.Open) (ho : ∀ ws, o ≠ .commit ws)
    (r : Except Exc o.Val) : (m.next o r).Open := by
  cases o with
  | commit ws => exact absurd rfl (ho ws)
  | login username password => cases r with
    | error e => exact open_note h
    | ok _ => exact h
  | bootstrap api => cases r with
    | error e => exact open_note h
    | ok _ => exact h
  | idleSummary a api => cases r with
    | error e => exact open_note h
    | ok _ => exact h
  | stateFingerprint p api => cases r with
    | error e => exact open_note h
    | ok _ => exact h
  | _ => cases r <;> exact h

/-- Nothing is noted once the operation was invoked. -/
theorem note_sent {m : PreSend} (h : m.sent = true) (origin : Origin) (e : Exc) :
    m.note origin e = m := if_neg fun hn => by
  rw [h] at hn
  cases hn.1

end PreSend

/-- What ends a session asks the database only. -/
def Op.stored {T : Type} : Op T → Bool
  | .clock | .planForUpdate _ _ | .flush | .commit _ | .rollback => true
  | _ => false

theorem World.Perform.stored {T : Type} {t : TaskId} {w w' : World} {o : Op T}
    {r : Except Exc o.Val} (h : World.Perform t w o r w') (ho : o.stored = true) {e : Exc}
    (he : r = .error e) : e = .cancelled := by
  rcases h.effect_or with ⟨reply, heffect⟩ | ⟨-, hr, -⟩
  · subst he
    cases o <;> cases ho <;> simp only [World.effect] at heffect
    all_goals (repeat' split at heffect) <;> cases heffect
  · rw [he] at hr
    cases hr
    rfl

/-- The monitor of a `mutate` with this plan. -/
def preSend (T : Type) (p : PlanId) : Monitor (sig T) PreSend where
  init := {}
  next := PreSend.next
  ok m
    | .getPlan q => q = p ∧ m.Open
    | .commit _ => m.Open
    | _ => True
  ans _ o r := o.stored = true → ∀ e, r = .error e → e = .cancelled

namespace PreSend

open Mutate

variable {T α : Type} {P : Ports} {args : MutateArgs} {p : PlanId} {a : AccountId}
variable {m m' : PreSend} {f f' : Frame} {e : Exc}

/-! ## An attempt -/

/-- Nothing was noted, and the session writes nothing to a plan. -/
structure Clean (m : PreSend) (f : Frame) : Prop where
  raised : m.raised = none
  opened : m.Open
  plans : f.plans = []
  newPlan : f.newPlan = none

/-- The plan of the attempt was not looked at yet. -/
structure Waiting (m : PreSend) (f : Frame) : Prop extends Clean m f where
  sendStarted : f.sendStarted = false
  validated : f.validatedPlanId = none

/-- What the handler finds after the error that was noted. -/
structure Unsent (p : PlanId) (m : PreSend) (origin : Origin) (e : Exc) (f : Frame) : Prop where
  gameError : e.isGameError = true
  plans : f.plans = []
  newPlan : f.newPlan = none
  sendStarted : f.sendStarted = false
  elsewhere : origin ≠ .resolver → f.validatedPlanId = none
  resolver : origin = .resolver → f.validatedPlanId = some p ∧
    ∃ plan, m.loaded = some plan ∧ f.plan = some plan ∧ plan.executionState.fresh = true

/-- The attempt has raised `e`: it is what was noted, if anything was. -/
def Failed (p : PlanId) (m : PreSend) (e : Exc) (f : Frame) : Prop :=
  m.Open ∧ ∀ origin e', m.raised = some (origin, e') → e' = e ∧ Unsent p m origin e f

theorem failed_of_none (hopen : m.Open) (h : m.raised = none) : Failed p m e f := by
  refine ⟨hopen, fun origin e' he => ?_⟩
  rw [h] at he
  cases he

def Prepared (p : PlanId) (m : PreSend) : Except Exc α → Frame → Prop
  | .ok _, f => Clean m f
  | .error e, f => Failed p m e f

theorem Clean.failed (h : Clean m f) : Failed p m e f' := failed_of_none h.opened h.raised

/-- What the session and the snapshot leave, of whose errors one may be noted. -/
structure Reading (m : PreSend) (f : Frame) : Prop where
  opened : m.Open
  origin : ∀ origin e, m.raised = some (origin, e) → origin ≠ .resolver ∧ e.isGameError = true
  plans : f.plans = []
  newPlan : f.newPlan = none
  sendStarted : f.sendStarted = false
  validated : f.validatedPlanId = none

theorem Waiting.reading (h : Waiting m f) : Reading m f where
  opened := h.opened
  origin origin e he := by
    rw [h.raised] at he
    cases he
  plans := h.plans
  newPlan := h.newPlan
  sendStarted := h.sendStarted
  validated := h.validated

theorem Reading.waiting (h : Reading m f) (hnone : m.raised = none) : Waiting m f :=
  ⟨⟨hnone, h.opened, h.plans, h.newPlan⟩, h.sendStarted, h.validated⟩

theorem reading_plain {c : Tx T α} (hc : Plain a Op.Quiet c) : c.Keeps (preSend T p) Reading := by
  refine Coro.Keeps.of_only (hc _ (Frame.SamePlans.tame a)) ?_ ?_
  · intro m f o ho h
    have hcommit : ∀ ws, o ≠ .commit ws := by
      rintro ws rfl
      exact ho
    refine ⟨by cases o <;> first | exact ho.elim | exact trivial, fun r _ => ?_⟩
    refine ⟨open_next h.opened hcommit r, ?_, h.plans, h.newPlan, h.sendStarted, h.validated⟩
    intro origin e he
    rcases m.raised_next o r with hsame | ⟨origin', e', horigin, -, hends, hnoted⟩
    · exact h.origin origin e (hsame.symm.trans he)
    · cases hnoted.symm.trans he
      refine ⟨?_, ends_isGameError hends⟩
      rintro rfl
      cases o <;> first | exact ho | cases horigin
  · intro m f f' hs h
    exact ⟨h.opened, h.origin, hs.plans.trans h.plans, hs.newPlan.trans h.newPlan,
      hs.sendStarted.trans h.sendStarted, hs.validatedPlanId.trans h.validated⟩

def seen (m : PreSend) : Option Exc := m.raised.map Prod.snd

/-- The error of this await is one that ends the attempt. -/
def Ending (o : Op T) (e : Exc) : Prop := ∃ origin, o.origin = some origin ∧ ends origin e = true

theorem notes {N : Op T → Prop} (hok : ∀ m o, N o → (preSend T p).ok m o) :
    Notes (preSend T p) seen N Ending where
  ok := hok
  answer m o v _ h := by
    rcases m.raised_next o (.ok v) with hsame | ⟨_, _, _, hr, _⟩
    · exact (congrArg (Option.map Prod.snd) hsame).trans h
    · cases hr
  error m o e _ h := by
    rcases m.raised_next o (.error e) with hsame | ⟨origin, e', horigin, hr, hends, hnoted⟩
    · exact .inl ((congrArg (Option.map Prod.snd) hsame).trans h)
    · cases hr
      exact .inr ⟨congrArg (Option.map Prod.snd) hnoted, origin, horigin, hends⟩

theorem notesCycle : NotesCycle (preSend T p) seen (Ending (T := T)) where
  notes := notes fun m o ho => by cases o <;> first | exact ho.elim | exact trivial
  unhandled o e ho := by
    rintro ⟨origin, horigin, hends⟩
    refine ends_unhandled hends ?_
    cases o <;> first | exact ho.elim | cases horigin <;> rfl

/-- What the session and the snapshot raise is what was noted. -/
theorem Reading.failed {N : Op T → Prop} (h : Reading m f)
    (hc : Coro.Carried (S := sig T) seen N Ending m (.error e : Except Exc α)) :
    Failed p m e f := by
  refine ⟨h.opened, fun origin e' he => ?_⟩
  obtain ⟨horigin, hgame⟩ := h.origin origin e' he
  obtain ⟨heq, -⟩ := hc e' (congrArg (Option.map Prod.snd) he)
  cases heq
  exact ⟨rfl, hgame, h.plans, h.newPlan, h.sendStarted, fun _ => h.validated,
    fun hr => absurd hr horigin⟩

theorem Reading.carried {N : Op T → Prop} {x : α} (h : Reading m f)
    (hc : Coro.Carried (S := sig T) seen N Ending m (.ok x : Except Exc α)) : Waiting m f :=
  h.waiting (Option.map_eq_none_iff.mp hc.ok)

theorem resolved_presend {actor : Actor} {g : GameApi → Tx T GameApi} (h : Waiting m f)
    (hg : ∀ api m f, Waiting m f → (g api).wp (preSend T p) (Prepared p) m f) :
    (do
      let resolution ← ensureLocked P a actor
      match resolution.api with
      | none => raise .authenticationRequired
      | some (api, _) =>
        let _ ← saveSnapshot P a resolution true
        g api : Tx T GameApi).wp (preSend T p) (Prepared p) m f := by
  have hseen : ∀ {m : PreSend} {f : Frame}, Waiting m f → seen m = none := fun h => by
    rw [seen, h.raised]
    rfl
  have hnotes : NotesCycle (preSend T p) seen Ending := notesCycle
  have hensure := Coro.wp_and (hnotes.ensureLocked P actor m f (hseen h))
    (reading_plain (ensureLocked_plain P a actor) m f h.reading)
  refine Coro.wp_seq hensure ?_ fun m₁ e f₁ hr => hr.2.failed hr.1
  rintro m₁ resolution f₁ ⟨hc, hr⟩
  have h₁ := hr.carried hc
  cases resolution.api with
  | none => exact h₁.toClean.failed
  | some session =>
    obtain ⟨api, g'⟩ := session
    have hreading : Notes (preSend T p) seen Op.Reading (Ending (T := T)) :=
      notes fun m o ho => by cases o <;> first | exact ho.elim | exact trivial
    have hsave := Coro.wp_and (saveSnapshot_passes hreading P a resolution true m₁ f₁ (hseen h₁))
      (reading_plain (saveSnapshot_plain P a resolution true) m₁ f₁ h₁.reading)
    refine Coro.wp_seq hsave ?_ fun m₂ e f₂ hr => hr.2.failed hr.1
    rintro m₂ snapshot f₂ ⟨hc₂, hr₂⟩
    exact hg api m₂ f₂ (hr₂.carried hc₂)

theorem checkPlan_presend (plan : ActionPlan) (version : Nat) :
    (checkPlan plan version : Tx T Unit).wp (preSend T p)
      (fun m' r f' => m' = m ∧ f' = f ∧ ∀ x, r = .ok x → plan.executionState.fresh = true) m f := by
  unfold checkPlan
  rw [Coro.wp_bind, wp_clock]
  refine ⟨trivial, ?_⟩
  rintro (e | now) -
  · exact ⟨rfl, rfl, nofun⟩
  · rw [Coro.chain_ok, wp_raiseIf]
    refine ⟨fun _ => ⟨rfl, rfl, nofun⟩, fun hc => ⟨rfl, rfl, fun _ _ => ?_⟩⟩
    rw [not_or, not_or] at hc
    exact Bool.eq_true_of_not_eq_false hc.2.1

/-- The error of the resolver is noted with the plan that it was asked for. -/
theorem resolver_failed {plan : ActionPlan} (h : Clean m f) (hload : m.loaded = some plan)
    (hplan : f.plan = some plan) (hv : f.validatedPlanId = some p) (hs : f.sendStarted = false)
    (hfresh : plan.executionState.fresh = true) : Failed p (m.note .resolver e) e f := by
  unfold note
  split
  · rename_i hn
    refine ⟨h.opened, ?_⟩
    rintro origin e' ⟨⟩
    exact ⟨rfl, ends_isGameError hn.2, h.plans, h.newPlan, hs, fun hne => absurd rfl hne,
      fun _ => ⟨hv, plan, hload, hplan, hfresh⟩⟩
  · exact h.failed

theorem preparePlan_presend (policy : VersionedPolicy) (api : GameApi) (h : Waiting m f) :
    (preparePlan args p policy api : Tx T Unit).wp (preSend T p) (Prepared p) m f := by
  unfold preparePlan
  rw [Coro.wp_bind, wp_await]
  refine ⟨⟨rfl, h.opened⟩, ?_⟩
  rintro (e | found) -
  · exact h.toClean.failed
  rw [Coro.chain_ok]
  cases found with
  | none => exact failed_of_none h.opened h.raised
  | some plan =>
    have h₁ : Clean { m with loaded := some plan }
        { f with plan := some plan, validatedPlanId := some p } :=
      ⟨h.raised, h.opened, h.plans, h.newPlan⟩
    dsimp only
    rw [Coro.wp_bind, wp_modifyFrame, Coro.chain_ok, Coro.wp_bind, wp_raiseIf]
    refine ⟨fun _ => h₁.failed, fun _ => ?_⟩
    rw [Coro.chain_ok, Coro.wp_bind, wp_modifyFrame, Coro.chain_ok]
    refine Coro.wp_seq (checkPlan_presend plan policy.version) ?_ ?_
    · rintro _ x _ ⟨rfl, rfl, hfresh⟩
      refine (checks_raiseIf _ _).seq (fun _ => h₁.failed) fun _ _ => ?_
      rw [Coro.wp_bind, wp_await]
      refine ⟨trivial, ?_⟩
      rintro (e | resolved) -
      · exact resolver_failed h₁ rfl rfl rfl h.sendStarted (hfresh x rfl)
      · rw [Coro.chain_ok, wp_raiseIf]
        exact ⟨fun _ => h₁.failed, fun _ => h₁⟩
    · rintro _ e _ ⟨rfl, rfl, -⟩
      exact h₁.failed

theorem requireForUpdate_presend (h : Clean m f) :
    (requireForUpdate a : Tx T Unit).wp (preSend T p)
      (fun m' r f' => Prepared p m' r f' ∧
        ∀ x, r = .ok x → f'.sendStarted = f.sendStarted ∧ f'.validatedPlanId = f.validatedPlanId)
      m f := by
  unfold requireForUpdate
  rw [Coro.wp_bind, wp_await]
  refine ⟨trivial, ?_⟩
  rintro (e | row) -
  · exact ⟨failed_of_none h.opened h.raised, nofun⟩
  · rw [Coro.chain_ok]
    cases row with
    | none => exact ⟨failed_of_none h.opened h.raised, nofun⟩
    | some row =>
      rw [wp_modifyFrame]
      split
      · exact ⟨⟨h.raised, h.opened, h.plans, h.newPlan⟩, fun _ _ => ⟨rfl, rfl⟩⟩
      · exact ⟨⟨h.raised, h.opened, h.plans, h.newPlan⟩, fun _ _ => ⟨rfl, rfl⟩⟩

theorem prepare_presend (hplan : args.planId = some p) (h : Clean m f) :
    (prepare P args : Tx T GameApi).wp (preSend T p) (Prepared p) m f := by
  have hreset : Clean m { f with sendStarted := false, validatedPlanId := none, plan := none } :=
    ⟨h.raised, h.opened, h.plans, h.newPlan⟩
  unfold prepare
  rw [Coro.wp_bind, wp_modifyFrame, Coro.chain_ok]
  refine Coro.wp_seq (requireForUpdate_presend hreset) ?_ fun _ _ _ hr => hr.1
  rintro m₁ _ f₁ ⟨h₁, hkept⟩
  obtain ⟨hs, hv⟩ := hkept _ rfl
  have hwait : Waiting m₁ { f₁ with validatedAccountId := some args.accountId } :=
    ⟨⟨h₁.raised, h₁.opened, h₁.plans, h₁.newPlan⟩, hs, hv⟩
  rw [Coro.wp_bind, wp_modifyFrame, Coro.chain_ok, Coro.wp_bind, wp_record, Coro.chain_ok]
  refine (checks_requireMutable _).seq (fun _ => hwait.toClean.failed) fun _ _ => ?_
  refine resolved_presend hwait fun api m f hw => ?_
  rw [Coro.wp_bind, wp_await]
  refine ⟨trivial, ?_⟩
  rintro (e | policy) -
  · exact hw.toClean.failed
  rw [Coro.chain_ok, hplan]
  exact Coro.wp_seq (preparePlan_presend policy api hw) (fun _ _ _ hr => hr) fun _ _ _ hr => hr

/-! ## From the send on -/

/-- The operation was invoked in the attempt: nothing more is noted. -/
structure Sent (m : PreSend) : Prop where
  raised : m.raised = none
  sent : m.sent = true
  opened : m.Open

theorem Sent.next {o : Op T} (h : Sent m) (ho : o.Following) (r : Except Exc o.Val) :
    Sent (m.next o r) := by
  cases o with
  | bootstrap api =>
    cases r with
    | error e =>
      show Sent (m.note .session e)
      rw [note_sent h.sent]
      exact h
    | ok _ => exact h
  | operation a p api => cases r <;> exact ⟨h.raised, rfl, h.opened⟩
  | clock | sleep | verify => cases r <;> exact h
  | _ => exact ho.elim

/-- The plan is finished, or no error of the game is raised. -/
def FinishEnds (q : PlanId) (status : PlanState) (result : List (String × Json)) (f : Frame) :
    Except Exc Unit → Frame → Prop
  | .ok _, f' => f'.newPlan = f.newPlan ∧
    ∃ now, f'.plans = f.plans ++ [(q, .finished status (PlanStore.safeResult result) now)]
  | .error e, _ => e.isGameError = false

theorem stored_not_game {o : Op T} {r : Except Exc o.Val} (ho : o.stored = true)
    (hr : (preSend T p).ans m o r) (he : r = .error e) : e.isGameError = false := by
  rw [hr ho e he]
  rfl

theorem finish_presend (q : PlanId) (status : PlanState) (result : List (String × Json)) :
    (PlanStore.finish q status result : Tx T Unit).wp (preSend T p)
      (fun m' r f' => m' = m ∧ FinishEnds q status result f r f') m f := by
  unfold PlanStore.finish PlanStore.loadForUpdate
  rw [Coro.wp_bind, wp_raiseIf]
  refine ⟨fun _ => ⟨rfl, rfl⟩, fun _ => ?_⟩
  rw [Coro.chain_ok, Coro.wp_bind, Coro.wp_bind, wp_await]
  refine ⟨trivial, ?_⟩
  rintro (e | row) hrow
  · exact ⟨rfl, stored_not_game rfl hrow rfl⟩
  rw [Coro.chain_ok]
  cases row with
  | none => exact ⟨rfl, rfl⟩
  | some row =>
    simp only [Coro.wp_bind, wp_frame, wp_modifyFrame, Coro.chain_ok, Coro.wp_pure, wp_raiseIf]
    refine ⟨fun _ => ⟨rfl, rfl⟩, fun _ => ?_⟩
    rw [wp_clock]
    refine ⟨trivial, ?_⟩
    rintro (e | now) hnow
    · exact ⟨rfl, stored_not_game rfl hnow rfl⟩
    rw [Coro.chain_ok]
    unfold PlanStore.update
    rw [wp_modifyFrame, Coro.chain_ok, wp_await]
    refine ⟨trivial, ?_⟩
    rintro (e | _) hflush
    · exact ⟨rfl, stored_not_game rfl hflush rfl⟩
    · exact ⟨rfl, rfl, now, rfl⟩

theorem sends_presend : Sends (preSend T p) args fun m _ => Sent m where
  sends _ _ h := h
  follows m f o ho h :=
    ⟨by cases o <;> first | exact ho.elim | exact trivial, fun r _ => h.next ho r⟩
  succeeds _ _ _ h := h
  audits _ _ _ h := h
  finishes m f q status result _ h :=
    Coro.wp_mono (finish_presend q status result) fun m' _ _ hr => hr.1.symm ▸ h

def Attempted (p : PlanId) (m : PreSend) : Except Exc (LoopEnd T) → Frame → Prop
  | .ok _, _ => m.raised = none ∧ m.Open
  | .error e, f => Failed p m e f

theorem Sent.attempted {r : Except Exc (LoopEnd T)} (h : Sent m) : Attempted p m r f := by
  cases r with
  | ok _ => exact ⟨h.raised, h.opened⟩
  | error e => exact failed_of_none h.opened h.raised

theorem attempts_presend (hplan : args.planId = some p) (left : Nat) (h : Clean m f) :
    (attempts P args left : Tx T (LoopEnd T)).wp (preSend T p) (Attempted p) m f := by
  induction left generalizing m f with
  | zero => exact ⟨h.raised, h.opened⟩
  | succ left ih =>
    unfold attempts
    refine Coro.wp_seq (prepare_presend hplan h) ?_ fun _ _ _ hr => hr
    intro m₁ api f₁ h₁
    have hop : ∀ (m : PreSend) (f : Frame), Clean m f →
        (preSend T p).ok m (.operation args.accountId args.planId api) ∧
          ∀ r : Except Exc T, (preSend T p).ans m (.operation args.accountId args.planId api) r →
            Sent ((preSend T p).next m (.operation args.accountId args.planId api) r) := by
      refine fun m f hc => ⟨trivial, fun r _ => ?_⟩
      cases r <;> exact ⟨hc.raised, rfl, hc.opened⟩
    refine Coro.wp_seq (sends_presend.send_from hop left h₁) ?_ fun _ _ _ hr => hr.1.attempted
    rintro m₂ e f₂ ⟨h₂, hframe⟩
    cases e with
    | some e => exact ⟨h₂.raised, h₂.opened⟩
    | none =>
      rw [hframe rfl]
      exact ih ⟨h₂.raised, h₂.opened, h₁.plans, h₁.newPlan⟩

/-! ## The handler -/

structure Spent (p : PlanId) (loaded : Option ActionPlan) (ws : Writes) : Prop where
  newPlan : ws.newPlan = none
  plans : ∃ result now, ws.plans = [(p, .finished .failed result now)]
  fresh : ∃ plan, loaded = some plan ∧ plan.executionState.fresh = true

/-- What becomes of the plan when `e` was noted and the outcome is `r`; `raised` is the outcome that
raises `e` again. -/
def Outcome (p : PlanId) (loaded : Option ActionPlan) (origin : Origin) (e : Exc)
    (raised r : Except Exc α) (ws : Writes) : Prop :=
  ¬ Spends origin e ∧ r = raised ∧ ws.plans = [] ∧ ws.newPlan = none ∨
    Spends origin e ∧
      (r = raised ∧ Spent p loaded ws ∨ ∃ e', r = .error e' ∧ e'.isGameError = false)

theorem Outcome.audited {loaded : Option ActionPlan} {origin : Origin} {ws ws' : Writes}
    {raised r : Except Exc α} (h : Outcome p loaded origin e raised r ws)
    (hplans : ws'.plans = ws.plans) (hnew : ws'.newPlan = ws.newPlan) :
    Outcome p loaded origin e raised r ws' := by
  rcases h with ⟨hs, h, hws, hn⟩ | ⟨hs, ⟨h, hspent⟩ | he⟩
  · exact .inl ⟨hs, h, hplans.trans hws, hnew.trans hn⟩
  · refine .inr ⟨hs, .inl ⟨h, hnew.trans hspent.newPlan, ?_, hspent.fresh⟩⟩
    rw [hplans]
    exact hspent.plans
  · exact .inr ⟨hs, .inr he⟩

theorem Outcome.map {β : Type} {loaded : Option ActionPlan} {origin : Origin} {ws : Writes}
    {raised r : Except Exc α} {raised' r' : Except Exc β}
    (h : Outcome p loaded origin e raised r ws) (hr : r = raised → r' = raised')
    (herror : ∀ e', r = .error e' → r' = .error e') : Outcome p loaded origin e raised' r' ws := by
  rcases h with ⟨hs, h, hws⟩ | ⟨hs, ⟨h, hspent⟩ | ⟨e', h, he⟩⟩
  · exact .inl ⟨hs, hr h, hws⟩
  · exact .inr ⟨hs, .inl ⟨hr h, hspent⟩⟩
  · exact .inr ⟨hs, .inr ⟨e', herror e' h, he⟩⟩

theorem fresh_not_terminal {s : PlanState} (h : s.fresh = true) : s.terminal = false := by
  cases s <;> first | rfl | cases h

/-- Before the send only a conflict and a failed check end the plan. -/
theorem terminalFor_unsent (h : e.isGameError = true) :
    terminalFor e false = if e.isGameConflict = true then some .failed else none := by
  have hne : e ≠ .planPreconditionFailed := by
    rintro rfl
    cases h
  simp [terminalFor, hne]

theorem terminalise_presend {exc pending : Exc} (h : Failed p m exc f) :
    (terminalise exc pending : Tx T Unit).wp (preSend T p)
      (fun m' r f' => m' = m ∧ ∀ origin e, m.raised = some (origin, e) →
        Outcome p m.loaded origin e (.ok ()) r f'.writes) m f := by
  have hcases : ∀ origin e, m.raised = some (origin, e) → Unsent p m origin exc f ∧ e = exc ∧
      (Spends origin e ↔ origin = .resolver ∧ terminalFor exc f.sendStarted = some .failed) := by
    intro origin e he
    obtain ⟨rfl, hu⟩ := h.2 origin e he
    refine ⟨hu, rfl, and_congr_right fun _ => ?_⟩
    rw [hu.sendStarted, terminalFor_unsent hu.gameError]
    cases e.isGameConflict <;> simp
  unfold terminalise
  rw [Coro.wp_bind, wp_frame, Coro.chain_ok]
  split
  · rename_i q terminal hq hterminal
    have hresolver : ∀ origin e, m.raised = some (origin, e) → q = p ∧ terminal = .failed ∧
        Spends origin e ∧ ∃ plan, m.loaded = some plan ∧ f.plan = some plan ∧
          plan.executionState.fresh = true := by
      intro origin e he
      obtain ⟨hu, rfl, hspends⟩ := hcases origin e he
      have horigin : origin = .resolver := by
        by_contra hne
        rw [hu.elsewhere hne] at hq
        cases hq
      obtain ⟨hv, hplan⟩ := hu.resolver horigin
      rw [hu.sendStarted, terminalFor_unsent hu.gameError] at hterminal
      split at hterminal
      · rename_i hconflict
        exact ⟨Option.some.inj (hq.symm.trans hv), (Option.some.inj hterminal).symm,
          ⟨horigin, hconflict⟩, hplan⟩
      · cases hterminal
    rw [Coro.wp_ite]
    constructor
    · intro _
      refine Coro.wp_mono (finish_presend q terminal _) ?_
      rintro m' r f' ⟨rfl, hr⟩
      refine ⟨rfl, fun origin e he => .inr ?_⟩
      obtain ⟨rfl, rfl, hspends, plan, hload, -, hfresh⟩ := hresolver origin e he
      obtain ⟨hu, -, -⟩ := hcases origin e he
      refine ⟨hspends, ?_⟩
      cases r with
      | error e' => exact .inr ⟨e', rfl, hr⟩
      | ok _ =>
        obtain ⟨hnew, now, hplans⟩ := hr
        rw [hu.plans, List.nil_append] at hplans
        exact .inl ⟨rfl, hnew.trans hu.newPlan, ⟨_, now, hplans⟩, plan, hload, hfresh⟩
    · intro hall
      refine ⟨rfl, fun origin e he => ?_⟩
      obtain ⟨-, -, -, plan, -, hplan, hfresh⟩ := hresolver origin e he
      rw [hplan] at hall
      exact absurd (by simp [fresh_not_terminal hfresh]) hall
  · rename_i hnone
    refine ⟨rfl, fun origin e he => .inl ?_⟩
    obtain ⟨hu, rfl, hspends⟩ := hcases origin e he
    refine ⟨fun hs => ?_, rfl, hu.plans, hu.newPlan⟩
    obtain ⟨horigin, hterminal⟩ := hspends.mp hs
    exact hnone _ _ (hu.resolver horigin).1 hterminal

theorem pendingFor_isGameError (h : e.isGameError = true) : pendingFor e = e := by
  simp [pendingFor, h]

theorem isException_of_game (h : e.isGameError = true) : e.isException = true := by
  cases e <;> first | rfl | cases h

/-- The handler raises again what was noted. -/
theorem handle_presend {exc : Exc} (h : Failed p m exc f) :
    (handle args exc : Tx T Exc).wp (preSend T p)
      (fun m' r f' => m' = m ∧ ∀ origin e, m.raised = some (origin, e) →
        Outcome p m.loaded origin e (.ok e) r f'.writes) m f := by
  unfold handle
  dsimp only
  refine Coro.wp_seq (terminalise_presend h) ?_ ?_
  · rintro m₁ _ f₁ ⟨rfl, ho⟩
    rw [Coro.wp_bind, wp_frame, Coro.chain_ok, Coro.wp_bind]
    unfold auditMutate
    rw [wp_audit, Coro.chain_ok]
    refine ⟨rfl, fun origin e he => ?_⟩
    obtain ⟨rfl, hu⟩ := h.2 origin e he
    rw [pendingFor_isGameError hu.gameError]
    have hraised : Outcome p m₁.loaded origin e (.ok e) (.ok e : Except Exc Exc) f₁.writes :=
      (ho origin e he).map (fun _ => rfl) nofun
    exact hraised.audited rfl rfl
  · rintro m₁ e₁ f₁ ⟨rfl, ho⟩
    refine ⟨rfl, fun origin e he => (ho origin e he).map nofun ?_⟩
    rintro e' ⟨⟩
    rfl

def Left (p : PlanId) (m : PreSend) (r : Except Exc (Except Exc (LoopEnd T))) (f : Frame) : Prop :=
  m.Open ∧ ∀ origin e, m.raised = some (origin, e) → e.isGameError = true ∧
    Outcome p m.loaded origin e (.ok (.error e)) r f.writes

theorem left_of_none {r : Except Exc (Except Exc (LoopEnd T))} (hopen : m.Open)
    (h : m.raised = none) : Left p m r f := by
  refine ⟨hopen, fun origin e he => ?_⟩
  rw [h] at he
  cases he

theorem body_presend (hplan : args.planId = some p) (h : Clean m f) :
    (body P args : Tx T (Except Exc (LoopEnd T))).wp (preSend T p) (Left p) m f := by
  unfold body
  rw [Coro.wp_bind, wp_await]
  refine ⟨trivial, ?_⟩
  rintro (e | _) -
  · exact left_of_none h.opened h.raised
  rw [Coro.chain_ok]
  refine wp_try (attempts_presend hplan 3 h) fun m₁ r f₁ h₁ => ?_
  cases r with
  | ok e => exact left_of_none h₁.2 h₁.1
  | error exc =>
    dsimp only
    rw [Coro.wp_ite]
    constructor
    · intro _
      refine Coro.wp_seq (handle_presend h₁) ?_ ?_
      · rintro _ pending f₂ ⟨rfl, ho⟩
        refine ⟨h₁.1, fun origin e he => ⟨?_, (ho origin e he).map ?_ nofun⟩⟩
        · obtain ⟨rfl, hu⟩ := h₁.2 origin e he
          exact hu.gameError
        · rintro ⟨⟩
          rfl
      · rintro _ e' f₂ ⟨rfl, ho⟩
        refine ⟨h₁.1, fun origin e he => ⟨?_, (ho origin e he).map nofun ?_⟩⟩
        · obtain ⟨rfl, hu⟩ := h₁.2 origin e he
          exact hu.gameError
        · rintro _ ⟨⟩
          rfl
    · intro hexception
      refine ⟨h₁.1, fun origin e he => ?_⟩
      obtain ⟨rfl, hu⟩ := h₁.2 origin e he
      exact absurd (isException_of_game hu.gameError) hexception

/-! ## The call -/

/-- What the call has raised and committed when `e` was noted. -/
structure Concluded (p : PlanId) (m : PreSend) (origin : Origin) (e : Exc) (raised r : Except Exc α) :
    Prop where
  raises : ¬ Spends origin e → m.unanswered = false → r = raised
  written : r = raised → m.unanswered = false ∧ ∃ ws, m.written = [ws] ∧
    (¬ Spends origin e ∧ ws.plans = [] ∧ ws.newPlan = none ∨
      Spends origin e ∧ Spent p m.loaded ws)

def Closed (p : PlanId) (m : PreSend) (r : Except Exc (Except Exc (LoopEnd T))) : Prop :=
  ∀ origin e, m.raised = some (origin, e) → e.isGameError = true ∧
    Concluded p m origin e (.ok (.error e)) r ∧ ∀ e', r = .error e' → e'.isGameError = false

theorem closed_error {e' : Exc} (h : ∀ origin e, m.raised = some (origin, e) →
    e.isGameError = true ∧ e'.isGameError = false ∧ (Spends origin e ∨ m.unanswered = true)) :
    Closed (T := T) p m (.error e') := by
  intro origin e he
  obtain ⟨hgame, hnot, hwhy⟩ := h origin e he
  refine ⟨hgame, ⟨fun hs hu => ?_, nofun⟩, ?_⟩
  · rcases hwhy with hspends | hunanswered
    · exact absurd hspends hs
    · rw [hu] at hunanswered
      cases hunanswered
  · rintro _ ⟨⟩
    exact hnot

/-- A transaction that raised `e`, or was broken off in its rollback. -/
theorem rollsBack_presend {Q : PreSend → Except Exc α → Unit → Prop}
    (h : ∀ e', e' = e ∨ e'.isGameError = false → Q m (.error e') ()) :
    RollsBack (preSend T p) Q m e () := by
  refine ⟨trivial, ?_⟩
  rintro (e' | _) hr
  · exact h e' (.inr (stored_not_game rfl hr rfl))
  · exact h e (.inl rfl)

theorem transaction_presend {body : Tx T (Except Exc (LoopEnd T))}
    (h : body.wp (preSend T p) (Left p) {} {}) :
    (transaction body : Action T (Except Exc (LoopEnd T))).wp (preSend T p)
      (fun m r _ => Closed p m r) {} () := by
  refine wp_transaction h ?_ ?_
  · rintro m outcome f ⟨hopen, ho⟩
    refine ⟨hopen, ?_⟩
    rintro (e' | _) hcommit
    · have hnot : e'.isGameError = false := stored_not_game rfl hcommit rfl
      refine rollsBack_presend fun e'' he'' => closed_error fun origin e he => ?_
      exact ⟨(ho origin e he).1, he''.elim (fun heq => heq ▸ hnot) id, .inr rfl⟩
    · intro origin e he
      obtain ⟨hgame, hout⟩ := ho origin e he
      have hwritten : m.written ++ [f.writes] = [f.writes] := by rw [hopen.1, List.nil_append]
      refine ⟨hgame, ⟨fun hs _ => ?_, fun hr => ⟨hopen.2, f.writes, hwritten, ?_⟩⟩, nofun⟩
      · rcases hout with ⟨-, hr, -⟩ | ⟨hspends, -⟩
        · exact hr
        · exact absurd hspends hs
      · rcases hout with ⟨hs, -, hws⟩ | ⟨hs, ⟨-, hspent⟩ | ⟨e', he', -⟩⟩
        · exact .inl ⟨hs, hws⟩
        · exact .inr ⟨hs, hspent⟩
        · cases he'
  · rintro m e₀ f ⟨hopen, ho⟩
    refine rollsBack_presend fun e' he' => closed_error fun origin e he => ?_
    obtain ⟨hgame, hout⟩ := ho origin e he
    rcases hout with ⟨-, hr, -⟩ | ⟨hs, ⟨hr, -⟩ | ⟨e₁, hr, hnot⟩⟩
    · cases hr
    · cases hr
    · cases hr
      exact ⟨hgame, he'.elim (fun heq => heq ▸ hnot) id, .inl hs⟩

theorem mutate_presend (hplan : args.planId = some p) :
    (AccountService.mutate P args : Action T (MutationOutcome T)).wp (preSend T p)
      (fun m r _ => ∀ origin e, m.raised = some (origin, e) →
        Concluded p m origin e (.error e) r) {} () := by
  have hclosed : ∀ {m : PreSend} {origin : Origin} {e : Exc}
      {r : Except Exc (Except Exc (LoopEnd T))} {r' : Except Exc (MutationOutcome T)},
      Concluded p m origin e (.ok (.error e)) r →
      (r = .ok (.error e) ↔ r' = .error e) → Concluded p m origin e (.error e) r' :=
    fun h hiff => ⟨fun hs hu => hiff.mp (h.raises hs hu), fun hr => h.written (hiff.mpr hr)⟩
  have hbegin : Clean {} {} := ⟨rfl, ⟨rfl, rfl⟩, rfl, rfl⟩
  unfold AccountService.mutate
  refine Coro.wp_seq (transaction_presend (body_presend hplan hbegin)) ?_ ?_
  · intro m outcome _ hr
    split
    · intro origin e he
      obtain ⟨hgame, hc, -⟩ := hr origin e he
      refine hclosed hc (iff_of_false nofun ?_)
      rintro ⟨⟩
      cases hgame
    · intro origin e he
      obtain ⟨-, hc, -⟩ := hr origin e he
      refine hclosed hc ⟨?_, ?_⟩
      · rintro ⟨⟩
        rfl
      · rintro ⟨⟩
        rfl
    · intro origin e he
      exact hclosed (hr origin e he).2.1 (iff_of_false nofun nofun)
    · intro origin e he
      obtain ⟨hgame, hc, -⟩ := hr origin e he
      refine hclosed hc (iff_of_false nofun ?_)
      rintro ⟨⟩
      cases hgame
  · intro m e' _ hr origin e he
    obtain ⟨hgame, hc, hnot⟩ := hr origin e he
    refine hclosed hc (iff_of_false nofun ?_)
    rintro ⟨⟩
    rw [hnot _ rfl] at hgame
    cases hgame

/-! ## The plan row -/

/-- A commit makes of a plan row what the row was. -/
theorem get_apply_of_get {w w' : World} {p : PlanId} (h : w.plans.get p = w'.plans.get p) (ws : Writes) :
    (w.apply ws).plans.get p = (w'.apply ws).plans.get p := by
  have hfold : ∀ (us : List (PlanId × PlanUpdate)) (plans plans' : Table PlanId ActionPlan),
      plans.get p = plans'.get p →
        (us.foldl World.updatePlan plans).get p = (us.foldl World.updatePlan plans').get p := by
    intro us
    induction us with
    | nil => exact fun _ _ h => h
    | cons u us ih =>
      intro plans plans' h
      refine ih _ _ ?_
      rw [World.get_updatePlan, World.get_updatePlan]
      split
      · rename_i hp
        rw [← hp, h]
      · exact h
  simp only [World.apply]
  cases ws.newPlan with
  | none => exact hfold _ _ _ h
  | some row =>
    obtain ⟨q, plan⟩ := row
    show (Table.set _ q plan).get p = (Table.set _ q plan).get p
    rw [Table.get_set, Table.get_set, hfold _ _ _ h]

/-- The plan row, from that of the start and the commits of the call. -/
structure RowOf (p : PlanId) (w₀ : World) (m : PreSend) (w : World) : Prop where
  row : m.unanswered = false → (m.written.foldl World.apply w₀).plans.get p = w.plans.get p
  loaded : ∀ plan, m.loaded = some plan → w₀.plans.get p = some plan

variable {w₀ w w' : World}

theorem RowOf.start (p : PlanId) (w : World) : RowOf p w {} w where
  row _ := rfl
  loaded _ h := by cases h

theorem RowOf.moved (h : RowOf p w₀ m w) (hsame : w'.plans.get p = w.plans.get p) :
    RowOf p w₀ m w' :=
  ⟨fun hu => (h.row hu).trans hsame.symm, h.loaded⟩

theorem loaded_next {o : Op T} (ho : ∀ q, o ≠ .getPlan q) (r : Except Exc o.Val) :
    (m.next o r).loaded = m.loaded := by
  have hnote : ∀ {origin : Origin} {e : Exc}, (m.note origin e).loaded = m.loaded := by
    intro origin e
    unfold note
    split
    · rfl
    · rfl
  cases o with
  | getPlan q => exact absurd rfl (ho q)
  | login | bootstrap | idleSummary | stateFingerprint =>
    cases r with
    | error e => exact hnote
    | ok _ => rfl
  | _ => cases r <;> rfl

theorem committed_next {o : Op T} (ho : ∀ ws, o ≠ .commit ws) (r : Except Exc o.Val) :
    (m.next o r).written = m.written ∧ (m.next o r).unanswered = m.unanswered := by
  have hnote : ∀ {origin : Origin} {e : Exc},
      (m.note origin e).written = m.written ∧ (m.note origin e).unanswered = m.unanswered := by
    intro origin e
    unfold note
    split
    · exact ⟨rfl, rfl⟩
    · exact ⟨rfl, rfl⟩
  cases o with
  | commit ws => exact absurd rfl (ho ws)
  | login | bootstrap | idleSummary | stateFingerprint =>
    cases r with
    | error e => exact hnote
    | ok _ => exact ⟨rfl, rfl⟩
  | _ => cases r <;> exact ⟨rfl, rfl⟩

theorem RowOf.next {t : TaskId} {o : Op T} {r : Except Exc o.Val} (h : RowOf p w₀ m w)
    (hok : (preSend T p).ok m o) (hp : World.Perform t w o r w') : RowOf p w₀ (m.next o r) w' := by
  constructor
  · intro hu
    by_cases hc : ∃ ws, o = .commit ws
    · obtain ⟨ws, rfl⟩ := hc
      cases r with
      | error e => cases hu
      | ok _ =>
        rw [hp.committed rfl]
        show ((m.written ++ [ws]).foldl World.apply w₀).plans.get p = (w.apply ws).plans.get p
        rw [List.foldl_append]
        exact get_apply_of_get (h.row hu) ws
    · have hne : ∀ ws, o ≠ .commit ws := fun ws he => hc ⟨ws, he⟩
      obtain ⟨hwritten, hunanswered⟩ := committed_next (m := m) hne r
      rw [hwritten, h.row (hunanswered.symm.trans hu)]
      rcases hp.rows with ⟨ws, he, -⟩ | hs
      · exact absurd he (hne ws)
      · rw [hs.plans]
  · intro plan hload
    by_cases hg : ∃ q, o = .getPlan q
    · obtain ⟨q, rfl⟩ := hg
      obtain ⟨rfl, hwritten, hunanswered⟩ := hok
      cases r with
      | error e => exact h.loaded plan hload
      | ok row =>
        have hrow := h.row hunanswered
        rw [hwritten] at hrow
        rw [show w₀.plans.get q = w.plans.get q from hrow]
        cases hp with
        | done he =>
          cases he
          exact hload
    · rw [loaded_next (fun q he => hg ⟨q, he⟩) r] at hload
      exact h.loaded plan hload

/-- What the commits of the call make of the row. -/
theorem Concluded.row {origin : Origin} {r : Except Exc α} {raised : Except Exc α}
    (h : Concluded p m origin e raised r) (hw : RowOf p w₀ m w) :
    r = raised ∧ w.plans.get p = w₀.plans.get p ↔ ¬ Spends origin e ∧ m.unanswered = false := by
  constructor
  · rintro ⟨hr, hsame⟩
    obtain ⟨hu, ws, hwritten, ⟨hs, -⟩ | ⟨hs, hspent⟩⟩ := h.written hr
    · exact ⟨hs, hu⟩
    · obtain ⟨plan, hload, hfresh⟩ := hspent.fresh
      obtain ⟨result, now, hplans⟩ := hspent.plans
      have hrow := hw.row hu
      have hstart := hw.loaded plan hload
      rw [hwritten, hsame, hstart] at hrow
      have hfailed : (w₀.apply ws).plans.get p =
          some ((PlanUpdate.finished .failed result now).apply plan) := by
        simp only [World.apply, hspent.newPlan, hplans, World.store_none, List.foldl_cons,
          List.foldl_nil, World.get_updatePlan, if_true, hstart, Option.map_some]
      have hstate := congrArg ActionPlan.executionState
        (Option.some.inj (hfailed.symm.trans hrow))
      rw [← hstate] at hfresh
      cases hfresh
  · rintro ⟨hs, hu⟩
    have hr := h.raises hs hu
    obtain ⟨-, ws, hwritten, ⟨-, hplans, hnew⟩ | ⟨hspends, -⟩⟩ := h.written hr
    · have hrow := hw.row hu
      rw [hwritten] at hrow
      refine ⟨hr, hrow.symm.trans ?_⟩
      simp only [List.foldl_cons, List.foldl_nil, World.apply, hplans, hnew, World.store_none]
    · exact absurd hspends hs

/-! ## Runs -/

/-- The monitor of a call; only a planned `mutate` is watched. -/
def watch (T : Type) : Call → Monitor (sig T) PreSend
  | .mutate args =>
    match args.planId with
    | some p => preSend T p
    | none => { preSend T 0 with ok := fun _ _ => True }
  | _ => { preSend T 0 with ok := fun _ _ => True }

theorem watch_mutate (h : args.planId = some p) : watch T (.mutate args) = preSend T p := by
  simp only [watch, h]

/-- What the call has ended with, if it was a planned `mutate`. -/
def Ends (call : Call) (m : PreSend) (r : Except Exc (Returned T)) : Prop :=
  ∀ args p, call = .mutate args → args.planId = some p →
    ∀ origin e, m.raised = some (origin, e) → Concluded p m origin e (.error e) r

theorem watched : Reachable.Watched (machine T P) (watch T) Ends where
  prog call := by
    by_cases hcall : ∃ args p, call = .mutate args ∧ args.planId = some p
    · obtain ⟨args, p, rfl, hplan⟩ := hcall
      rw [watch_mutate hplan]
      refine Coro.wp_toProc.mpr (Coro.wp_seq (mutate_presend hplan) ?_ ?_)
      · rintro m x _ hr args' p' ⟨⟩ hplan' origin e he
        cases hplan.symm.trans hplan'
        have hc := hr origin e he
        exact ⟨fun hs hu => absurd (hc.raises hs hu) nofun, nofun⟩
      · rintro m e' _ hr args' p' ⟨⟩ hplan' origin e he
        cases hplan.symm.trans hplan'
        have hc := hr origin e he
        refine ⟨fun hs hu => ?_, fun h => ?_⟩
        · cases hc.raises hs hu
          rfl
        · cases h
          exact hc.written rfl
    · have hlax : ∀ m o, (watch T call).ok m o := by
        intro m o
        cases call with
        | mutate args =>
          cases hplan : args.planId with
          | none => simp only [watch, hplan]
          | some p => exact absurd ⟨args, p, rfl, hplan⟩ hcall
        | _ => trivial
      refine Proc.wp_mono (Proc.wp_of_lax hlax _) ?_
      intro m r _ args p hc hplan
      exact absurd ⟨args, p, hc, hplan⟩ hcall
  ans call t w o r w' hp m := by
    have hans : o.stored = true → ∀ e, r = .error e → e = .cancelled := fun ho e he => hp.stored ho he
    cases call with
    | mutate args =>
      cases hplan : args.planId with
      | none =>
        simp only [watch, hplan]
        exact hans
      | some p =>
        simp only [watch, hplan]
        exact hans
    | _ => exact hans

variable {c c' : Config (machine T P)} {t : TaskId} {U : Task (machine T P)}
variable {origin : Origin} {r : Except Exc (Returned T)}

def noted (p : PlanId) (U : Task (machine T P)) : PreSend := (preSend T p).after U.hist

/-- A planned `mutate` that ends an attempt before the send with a typed error of the game, while
nobody else touches the plan: it raises the error again and leaves the plan as it was exactly if the
error is no conflict of the resolver and the commit was answered. -/
theorem plan_kept_iff (hr : Reachable (.start w) c) (ht : c.task t = none)
    (hplan : args.planId = some p)
    (hrun : Relation.ReflTransGen (Amid t fun w w' => w'.plans.get p = w.plans.get p)
      (c.setTask t { call := .mutate args, prog := (machine T P).prog (.mutate args) }) c')
    (hU : c'.task t = some U) (hret : U.prog = .ret r)
    (hraised : (noted p U).raised = some (origin, e)) :
    r = .error e ∧ c'.world.plans.get p = c.world.plans.get p ↔
      ¬ Spends origin e ∧ (noted p U).unanswered = false := by
  have hwatch : watch T (.mutate args) = preSend T p := watch_mutate hplan
  have hstart : RowOf p c.world (watch T (.mutate args)).init c.world := by
    rw [hwatch]
    exact RowOf.start p c.world
  have hexec : ∀ m w o r w', RowOf p c.world m w → (watch T (.mutate args)).ok m o →
      World.Perform t w o r w' → RowOf p c.world ((watch T (.mutate args)).next m o r) w' := by
    rw [hwatch]
    exact fun m w o r w' h hok hp => h.next hok hp
  obtain ⟨V, hV, hcall, hf, hrow⟩ := Reachable.amid watched hr ht hrun (RowOf p c.world) hstart
    (fun m w w' h hsame => h.moved hsame)
    (fun m w h => h.moved (by rw [(World.crash_tables t w).plans])) hexec
  rw [hU] at hV
  cases hV
  have hends := hf.wp
  rw [hret, hcall, hwatch] at hends
  rw [hwatch] at hrow
  exact (hends args p rfl hplan origin e hraised).row hrow

/-! ## A conflict of the resolver -/

/-- A game whose resolver raises the error. -/
def resolverRaises (e : Exc) : (o : Op Unit) → Except Exc o.Val
  | .stateFingerprint _ _ => .error e
  | o => friendlyGame o

def plannedMutate : MutateArgs :=
  { accountId := 0, actor := operator, planId := some 1, hasFingerprint := true }

def resolverRun (e : Exc) : Config (machine Unit samplePorts) :=
  run (.start plannedWorld) 0 (.mutate plannedMutate) (resolverRaises e) 40

/-- The run has ended by raising the error, which the resolver had raised before the send. -/
def reRaises (c : Config (machine Unit samplePorts)) (e : Exc) : Bool :=
  (c.task 0).any fun U =>
    (noted 1 U).raised == some (.resolver, e) && !(noted 1 U).unanswered &&
      match U.prog with
      | .ret (.error e') => e' == e
      | _ => false

theorem exists_of_reRaises {c : Config (machine Unit samplePorts)} (h : reRaises c e = true) :
    ∃ U, c.task 0 = some U ∧ U.prog = .ret (.error e) ∧
      (noted 1 U).raised = some (.resolver, e) ∧ (noted 1 U).unanswered = false := by
  obtain ⟨U, hU, h⟩ := (Option.any_eq_true ..).mp h
  simp only [Bool.and_eq_true, beq_iff_eq, Bool.not_eq_true'] at h
  obtain ⟨⟨hraised, hu⟩, hret⟩ := h
  split at hret
  · rename_i e' hp
    rw [beq_iff_eq] at hret
    exact ⟨U, hU, hret ▸ hp, hraised, hu⟩
  · cases hret

/-- A scripted call runs alone, so nobody else touches the plan. -/
theorem resolverRun_amid (e : Exc) :
    Relation.ReflTransGen (Amid 0 fun w w' => w'.plans.get 1 = w.plans.get 1)
      ((Config.start plannedWorld).setTask 0
        { call := Call.mutate plannedMutate,
          prog := (machine Unit samplePorts).prog (.mutate plannedMutate) }) (resolverRun e) := by
  have halone := alone_call (K := machine Unit samplePorts) honest_effect (t := 0)
    (c := .start plannedWorld) rfl (.mutate plannedMutate) (resolverRaises e) 40
  refine Relation.ReflTransGen.mono ?_ _ _ (Alone.amid (Config.setTask_self ..) halone)
  rintro c c' ⟨hst, hothers⟩
  refine ⟨hst, fun hsame => ?_⟩
  have henv : World.Env c.world c'.world := hothers hsame
  exact congrArg (Table.get · 1) henv.tables.plans

/-- A conflict and another error of the resolver. -/
theorem resolver_runs_end :
    reRaises (resolverRun (.gameConflict none)) (.gameConflict none) = true ∧
    ((resolverRun (.gameConflict none)).world.plans.get 1).map ActionPlan.executionState =
      some .failed ∧
    reRaises (resolverRun (.gameSchemaMismatch "idle_summary"))
      (.gameSchemaMismatch "idle_summary") = true := by
  decide +kernel

/-- The resolver raises a conflict, no operation is invoked, and the plan has failed all the same. -/
theorem resolver_conflict_spends_plan :
    ¬ ∀ (c c' : Config (machine Unit samplePorts)) (t : TaskId) (U : Task (machine Unit samplePorts))
        (args : MutateArgs) (p : PlanId) (origin : Origin) (e : Exc)
        (r : Except Exc (Returned Unit)),
      Reachable (.start plannedWorld) c → c.task t = none → args.planId = some p →
      Relation.ReflTransGen (Amid t fun w w' => w'.plans.get p = w.plans.get p)
        (c.setTask t
          { call := .mutate args, prog := (machine Unit samplePorts).prog (.mutate args) }) c' →
      c'.task t = some U → U.prog = .ret r → (noted p U).raised = some (origin, e) →
      (noted p U).unanswered = false →
      r = .error e ∧ c'.world.plans.get p = c.world.plans.get p := by
  intro h
  obtain ⟨hends, hfailed, -⟩ := resolver_runs_end
  obtain ⟨U, hU, hret, hraised, hu⟩ := exists_of_reRaises hends
  obtain ⟨-, hkept⟩ := h _ _ 0 U plannedMutate 1 .resolver (.gameConflict none) _ .refl rfl rfl
    (resolverRun_amid _) hU hret hraised hu
  rw [hkept] at hfailed
  cases hfailed

theorem plan_kept_iff_after_schema_mismatch :
    ∃ U, (resolverRun (.gameSchemaMismatch "idle_summary")).task 0 = some U ∧
      ((.error (.gameSchemaMismatch "idle_summary") : Except Exc (Returned Unit)) =
          .error (.gameSchemaMismatch "idle_summary") ∧
        (resolverRun (.gameSchemaMismatch "idle_summary")).world.plans.get 1 =
          plannedWorld.plans.get 1 ↔
        ¬ Spends .resolver (.gameSchemaMismatch "idle_summary") ∧
          (noted 1 U).unanswered = false) := by
  obtain ⟨U, hU, hret, hraised, -⟩ := exists_of_reRaises resolver_runs_end.2.2
  exact ⟨U, hU, plan_kept_iff (c := .start plannedWorld) .refl rfl rfl (resolverRun_amid _) hU hret
    hraised⟩

end PreSend

end PlaceGame
