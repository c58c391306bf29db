import PlaceGame.Coop.Store
import PlaceGame.Game.Schemas
import PlaceGame.Models

/-!
# PlaceGame.Effects

The awaits of the account, plan and idle code, and the shared world that answers them.

A database transaction is one ORM session: its statements are awaits, its pending changes stay with
the program until `commit` hands them over as one `Writes`. Row locks and transaction advisory locks
last until the transaction ends; the execution guard is a session lock and ends with its own unlock
or with the process. Requests to the game and the callbacks of `mutate` may end in any way.

An await can also be cancelled, before or after it took effect: the program sees `cancelled`, the
world is the old or the new one.
-/

namespace PlaceGame

open Coop

structure Writes where
  /-- The account row with the attributes that the session leaves. -/
  account : Option (AccountId × GameAccount) := none
  /-- The argument of the last `set_session_token`. -/
  sessionToken : Option (Option String) := none
  plans : List (PlanId × PlanUpdate) := []
  newPlan : Option (PlanId × ActionPlan) := none
  policy : Option (AccountId × PolicyRow) := none
  disabledJobs : List JobId := []
  snapshots : List AccountSnapshotRow := []
  audits : List AuditEvent := []

inductive Op (T : Type) where
  | clock
  | uuid
  | sleep
  -- locks
  | accountLock (accountId : AccountId)
  | identityLock (gameAccountId : String)
  | tryExecutionGuard (accountId : AccountId)
  | executionUnlock (accountId : AccountId)
  -- statements of a session
  | accountForUpdate (accountId : AccountId)
  | findIdentity (gameAccountId : String)
  | hasUnresolvedIdentity
  | flushIdentity (accountId : AccountId) (gameAccountId : String)
  | policyForUpdate (accountId : AccountId)
  | enabledJobs (accountId : AccountId)
  | getPlan (planId : PlanId)
  | planForUpdate (planId : PlanId) (accountId : Option AccountId)
  | flush
  | commit (writes : Writes)
  | rollback
  -- reads in a session of their own
  | accountGet (accountId : AccountId)
  | policyGet (accountId : AccountId)
  | selectPlan (planId : PlanId)
  -- the game
  | login (username password : String)
  | bootstrap (api : GameApi)
  | idleSummary (accountId : AccountId) (api : GameApi)
  | idleCollect (accountId : AccountId) (planId : PlanId) (api : GameApi)
  -- callbacks
  | stateFingerprint (planId : PlanId) (api : GameApi)
  | operation (accountId : AccountId) (planId : Option PlanId) (api : GameApi)
  | verify (api : GameApi) (value : Option T)
  | lockedBody (accountId : AccountId) (api : GameApi)

namespace Op

/-- What an await answers when nothing is raised. `flushIdentity` answers `false` for an
`IntegrityError`, `stateFingerprint` answers `none` for a value that is not a string. -/
abbrev Val {T : Type} : Op T → Type
  | .clock => Time
  | .uuid => Nat
  | .tryExecutionGuard _ => Bool
  | .accountForUpdate _ => Option GameAccount
  | .findIdentity _ => Option AccountId
  | .hasUnresolvedIdentity => Bool
  | .flushIdentity _ _ => Bool
  | .policyForUpdate _ => Option PolicyRow
  | .enabledJobs _ => List JobId
  | .getPlan _ => Option ActionPlan
  | .planForUpdate _ _ => Option ActionPlan
  | .accountGet _ => Option GameAccount
  | .policyGet _ => VersionedPolicy
  | .selectPlan _ => Option ActionPlan
  | .login _ _ => String
  | .bootstrap _ => String
  | .idleSummary _ _ => IdleSummary
  | .idleCollect _ _ _ => Bool
  | .stateFingerprint _ _ => Option String
  | .operation _ _ _ => T
  | .verify _ _ => Bool
  | _ => Unit

/-- A cancellation can be delivered at every await; reading the clock and drawing an identifier are
no awaits, and the rollback of a broken session is not given up. -/
def interruptible {T : Type} : Op T → Bool
  | .clock | .uuid | .rollback => false
  | _ => true

end Op

/-- The effects of the program; `T` is the result type of the operations that `mutate` runs. -/
abbrev sig (T : Type) : Sig := ⟨Op T, Op.Val, Exc⟩

structure World where
  accounts : Table AccountId GameAccount := {}
  policies : Table AccountId PolicyRow := {}
  plans : Table PlanId ActionPlan := {}
  jobs : Table JobId Job := {}
  snapshots : List AccountSnapshotRow := []
  audits : List AuditEvent := []
  /-- `pg_advisory_xact_lock`, seed 0. -/
  accountLocks : Locks AccountId := fun _ => none
  /-- `pg_advisory_xact_lock`, seed 1. -/
  identityLocks : Locks String := fun _ => none
  /-- `pg_try_advisory_lock`, seed 2. -/
  guards : Locks AccountId := fun _ => none
  /-- `FOR UPDATE` on `game_accounts`. -/
  accountRows : Locks AccountId := fun _ => none
  /-- `FOR UPDATE` on `action_plans`. -/
  planRows : Locks PlanId := fun _ => none
  /-- Game identities flushed by open transactions, not committed yet. -/
  flushed : List (TaskId × AccountId × String) := []
  clock : Time := 0
  nextId : Nat := 0
  /-- The game's `validSeconds` of each account, and how often it applied a collection. -/
  validSeconds : AccountId → ℚ≥0 := fun _ => 0
  collections : AccountId → Nat := fun _ => 0

/-- `PostgresPolicyService._versioned`. -/
def versioned (account : GameAccount) : Option PolicyRow → Except Exc VersionedPolicy
  | none =>
    if account.policyVersion = 1 then .ok defaultPolicy else .error .policyUnavailable
  | some row =>
    if h : 1 ≤ account.policyVersion then
      if row.policyVersion = account.policyVersion then
        match AccountPolicy.modelValidate row.policy with
        | some policy => .ok { policy with version := account.policyVersion, version_ge := h }
        | none => .error .policyUnavailable
      else .error .policyUnavailable
    else .error .policyUnavailable

namespace World

/-- The transaction of the task is over: its locks and its unfinished inserts are gone. -/
def release (w : World) (t : TaskId) : World :=
  { w with
    accountLocks := w.accountLocks.release t
    identityLocks := w.identityLocks.release t
    accountRows := w.accountRows.release t
    planRows := w.planRows.release t
    flushed := w.flushed.filter fun f => f.1 ≠ t }

def updatePlan (plans : Table PlanId ActionPlan) (u : PlanId × PlanUpdate) :
    Table PlanId ActionPlan :=
  plans.update u.1 u.2.apply

def disableJob (jobs : Table JobId Job) (id : JobId) : Table JobId Job :=
  jobs.update id fun job => { job with enabled := false }

def store {κ ρ : Type} (T : Table κ ρ) : Option (κ × ρ) → Table κ ρ
  | some (k, r) => ⟨(k, r) :: T.rows⟩
  | none => T

def apply (w : World) (ws : Writes) : World :=
  { w with
    accounts := store w.accounts ws.account
    plans := store (ws.plans.foldl updatePlan w.plans) ws.newPlan
    policies := store w.policies ws.policy
    jobs := ws.disabledJobs.foldl disableJob w.jobs
    snapshots := w.snapshots ++ ws.snapshots
    audits := w.audits ++ ws.audits }

def policyGet (w : World) (a : AccountId) : Except Exc VersionedPolicy :=
  match w.accounts.get a with
  | none => .error .policyUnavailable
  | some account => versioned account (w.policies.get a)

def flushIdentity (w : World) (t : TaskId) (a : AccountId) (g : String) :
    Option (Except Exc Bool × World) :=
  if w.flushed.any fun f => f.1 ≠ t && f.2.2 = g then none
  else if (w.accounts.find fun k r => k ≠ a && r.gameAccountId = some g).isSome then
    some (.ok false, w)
  else some (.ok true, { w with flushed := (t, a, g) :: w.flushed })

/-- The effect of an await that is not cancelled; `none` while it has to wait. The last argument is
the answer of the game or of the callback and is not looked at elsewhere. -/
def effect {T : Type} (t : TaskId) (w : World) :
    (o : Op T) → Except Exc o.Val → Option (Except Exc o.Val × World)
  | .clock, _ => some (.ok w.clock, w)
  | .uuid, _ => some (.ok w.nextId, { w with nextId := w.nextId + 1 })
  | .sleep, reply => some (reply, w)
  | .accountLock a, _ =>
    if w.accountLocks.available t a then
      some (.ok (), { w with accountLocks := w.accountLocks.take t a })
    else none
  | .identityLock g, _ =>
    if w.identityLocks.available t g then
      some (.ok (), { w with identityLocks := w.identityLocks.take t g })
    else none
  | .tryExecutionGuard a, _ =>
    if w.guards a = none then some (.ok true, { w with guards := w.guards.take t a })
    else some (.ok false, w)
  | .executionUnlock a, _ =>
    some (.ok (), if w.guards a = some t then { w with guards := w.guards.drop a } else w)
  | .accountForUpdate a, _ =>
    match w.accounts.get a with
    | none => some (.ok none, w)
    | some account =>
      if w.accountRows.available t a then
        some (.ok (some account), { w with accountRows := w.accountRows.take t a })
      else none
  | .findIdentity g, _ =>
    some (.ok (w.accounts.find fun _ r => r.gameAccountId = some g), w)
  | .hasUnresolvedIdentity, _ =>
    some (.ok (w.accounts.find fun _ r => r.gameAccountId = none).isSome, w)
  | .flushIdentity a g, _ => w.flushIdentity t a g
  | .policyForUpdate a, _ => some (.ok (w.policies.get a), w)
  | .enabledJobs a, _ =>
    some (.ok (w.jobs.keys.filter fun id =>
      (w.jobs.get id).any fun job => job.accountId = a && job.enabled), w)
  | .getPlan p, _ => some (.ok (w.plans.get p), w)
  | .planForUpdate p a, _ =>
    match w.plans.get p with
    | none => some (.ok none, w)
    | some plan =>
      if a.any (· ≠ plan.accountId) then some (.ok none, w)
      else if w.planRows.available t p then
        some (.ok (some plan), { w with planRows := w.planRows.take t p })
      else none
  | .flush, _ => some (.ok (), w)
  | .commit ws, _ => some (.ok (), (w.apply ws).release t)
  | .rollback, _ => some (.ok (), w.release t)
  | .accountGet a, _ => some (.ok (w.accounts.get a), w)
  | .policyGet a, _ => some (w.policyGet a, w)
  | .selectPlan p, _ => some (.ok (w.plans.get p), w)
  | .login _ _, reply => some (reply, w)
  | .bootstrap _, reply => some (reply, w)
  | .idleSummary a _, reply =>
    some (reply.map fun idle => { idle with validSeconds := w.validSeconds a }, w)
  | .idleCollect _ _ _, reply => some (reply, w)
  | .stateFingerprint _ _, reply => some (reply, w)
  | .operation _ _ _, reply => some (reply, w)
  | .verify _ _, reply => some (reply, w)
  | .lockedBody _ _, reply => some (reply, w)

/-- How the world finishes an await of task `t`. -/
inductive Perform {T : Type} (t : TaskId) (w : World) (o : Op T) : Except Exc o.Val → World → Prop
    where
  | done {reply r : Except Exc o.Val} {w' : World} (h : effect t w o reply = some (r, w')) :
      Perform t w o r w'
  | cancelled (hi : o.interruptible = true) : Perform t w o (.error .cancelled) w
  | cancelledLate {reply r : Except Exc o.Val} {w' : World} (hi : o.interruptible = true)
      (h : effect t w o reply = some (r, w')) : Perform t w o (.error .cancelled) w'

/-- The process of the task dies: the database rolls its transaction back and ends its session. -/
def crash (t : TaskId) (w : World) : World :=
  let w := w.release t
  { w with guards := w.guards.release t }

/-- What happens without the program: time passes, idle seconds accumulate, and the game applies a
collection, whoever asked for it. `validSeconds` decreases in no other way. -/
inductive Env (w : World) : World → Prop where
  | tick (now : Time) (h : w.clock ≤ now) : Env w { w with clock := now }
  | accumulate (a : AccountId) (seconds : ℚ≥0) (h : w.validSeconds a ≤ seconds) :
      Env w { w with validSeconds := Function.update w.validSeconds a seconds }
  | collect (a : AccountId) (seconds : ℚ≥0) :
      Env w { w with
        validSeconds := Function.update w.validSeconds a seconds
        collections := Function.update w.collections a (w.collections a + 1) }

end World

end PlaceGame
