import Mathlib.Data.List.Sort
import PlaceGame.Coop.Store
import PlaceGame.Models

/-!
# PlaceGame.Scheduler.Store

`PostgresIdlePreviewStore` and the tick of `IdlePreviewScheduler`.

Every method of the store is one transaction and is modelled as a function on the rows. A tick is a
worker's pass through acquire, ensure, claim, dispatch and release; between two of its steps any
other tick may move, and a tick that stops moving was abandoned.
-/

namespace PlaceGame

open Coop

abbrev RunId := Nat

namespace Scheduler

def jobKind : String := "idle_preview"
def jobTimezone : String := "Asia/Shanghai"
def jobMisfirePolicy : String := "defer"

structure SchedulerAccount where
  id : AccountId
  enabled : Bool
  pausedReason : Option String

/-- `account.enabled and account.paused_reason is None`. -/
def SchedulerAccount.eligible (account : SchedulerAccount) : Bool :=
  account.enabled && account.pausedReason.isNone

/-- The account and the UTC second that the text of a key spells out. -/
structure IdempotencyKey where
  accountId : AccountId
  slot : Int
  deriving DecidableEq, Repr

/-- `idle_preview_idempotency_key`: `replace(microsecond=0)` drops the microseconds. -/
def idlePreviewIdempotencyKey (accountId : AccountId) (scheduledFor : Time) : IdempotencyKey :=
  ⟨accountId, scheduledFor / 1000000⟩

structure JobRun where
  jobId : JobId
  accountId : AccountId
  idempotencyKey : IdempotencyKey
  dispatchedAt : Time
  leaseOwner : Option String
  leaseExpiresAt : Option Time
  attempt : Nat
  result : Option Json := none
  completedAt : Option Time := none

structure SchedulerLease where
  owner : Option String
  leaseExpiresAt : Option Time
  updatedAt : Time

structure ClaimedIdlePreviewRun where
  runId : RunId
  jobId : JobId
  accountId : AccountId
  scheduledFor : Time
  idempotencyKey : IdempotencyKey
  deriving DecidableEq, Repr

/-- The rows of `jobs`, `job_runs` and `scheduler_leases`. -/
structure Rows where
  jobs : Table JobId Job := {}
  runs : Table RunId JobRun := {}
  lease : Option SchedulerLease := none
  nextId : Nat := 0

namespace Rows

def acquireLease (s : Rows) (workerId : String) (now : Time) (leaseSeconds : Nat) : Bool × Rows :=
  let lease := s.lease.getD ⟨none, none, now⟩
  if lease.owner.isSome ∧ lease.owner ≠ some workerId ∧
      lease.leaseExpiresAt.any (fun expiry => now < expiry) = true then
    (false, { s with lease := some lease })
  else
    (true, { s with lease := some ⟨some workerId, some (now + Time.seconds leaseSeconds), now⟩ })

/-- The rows that `ensure_jobs` selects for the accounts, ordered by account and creation. -/
def knownJobs (s : Rows) (known : List AccountId) : List (JobId × Job) :=
  let rows := s.jobs.keys.filterMap fun id => (s.jobs.get id).map fun job => (id, job)
  (rows.filter fun row => row.2.kind = jobKind && known.contains row.2.accountId).insertionSort
    fun a b => a.2.accountId < b.2.accountId ∨
      (a.2.accountId = b.2.accountId ∧ a.2.createdAt ≤ b.2.createdAt)

/-- `current[account_id]`: the first of the account's rows. -/
def currentJob (rows : List (JobId × Job)) (accountId : AccountId) : Option JobId :=
  (rows.find? fun row => row.2.accountId = accountId).map Prod.fst

/-- Every further row of an account is disabled. -/
def disableDuplicates (rows : List (JobId × Job)) (jobs : Table JobId Job) : Table JobId Job :=
  rows.foldl (fun jobs row =>
    if currentJob rows row.2.accountId = some row.1 then jobs
    else jobs.update row.1 fun job => { job with enabled := false }) jobs

def ensureJob (rows : List (JobId × Job)) (eligible : AccountId → Bool) (now : Time)
    (intervalSeconds : Nat) (s : Rows) (accountId : AccountId) : Rows :=
  let schedule := "interval:" ++ toString intervalSeconds
  if eligible accountId = false then
    match currentJob rows accountId with
    | some id => { s with jobs := s.jobs.update id fun job => { job with enabled := false } }
    | none => s
  else
    match currentJob rows accountId with
    | none =>
      { s with
        jobs := s.jobs.set s.nextId
          { accountId := accountId
            kind := jobKind
            schedule := schedule
            timezone := jobTimezone
            enabled := true
            nextRunAt := some now
            misfirePolicy := jobMisfirePolicy
            createdAt := now }
        nextId := s.nextId + 1 }
    | some id =>
      { s with
        jobs := s.jobs.update id fun job =>
          { job with
            schedule := schedule
            timezone := jobTimezone
            misfirePolicy := jobMisfirePolicy
            enabled := true
            nextRunAt := some (job.nextRunAt.getD now) } }

def ensureJobs (s : Rows) (accounts : List SchedulerAccount) (now : Time) (intervalSeconds : Nat) :
    Rows :=
  let known := (accounts.map (·.id)).dedup
  let eligible := fun id => accounts.any fun account => account.id = id && account.eligible
  let rows := s.knownJobs known
  known.foldl (ensureJob rows eligible now intervalSeconds)
    { s with jobs := disableDuplicates rows s.jobs }

/-- `_claim_slot`. The unique constraint on account and key makes the insert fail when the slot
already has a run; only an unfinished run without a live lease is retaken. -/
def claimSlot (s : Rows) (jobId : JobId) (job : Job) (scheduledFor now : Time) (workerId : String)
    (leaseSeconds : Nat) : Option ClaimedIdlePreviewRun × Rows :=
  let key := idlePreviewIdempotencyKey job.accountId scheduledFor
  let leaseExpiresAt := now + Time.seconds leaseSeconds
  match s.runs.find fun _ run => run.accountId = job.accountId && run.idempotencyKey = key with
  | none =>
    (some ⟨s.nextId, jobId, job.accountId, scheduledFor, key⟩,
      { s with
        runs := s.runs.set s.nextId
          { jobId := jobId
            accountId := job.accountId
            idempotencyKey := key
            dispatchedAt := now
            leaseOwner := some workerId
            leaseExpiresAt := some leaseExpiresAt
            attempt := 1 }
        nextId := s.nextId + 1 })
  | some id =>
    match s.runs.get id with
    | none => (none, s)
    | some existing =>
      if existing.completedAt.isSome then (none, s)
      else if existing.leaseExpiresAt.any (fun expiry => now < expiry) then (none, s)
      else
        (some ⟨id, jobId, job.accountId, scheduledFor, key⟩,
          { s with
            runs := s.runs.set id
              { existing with
                leaseOwner := some workerId
                leaseExpiresAt := some leaseExpiresAt
                attempt := existing.attempt + 1 } })

/-- The loop of `claim_due` over the due jobs. -/
def claimJobs (now : Time) (workerId : String) (leaseSeconds : Nat) :
    List (JobId × Job) → Rows → List ClaimedIdlePreviewRun × Rows
  | [], s => ([], s)
  | (id, job) :: due, s =>
    match job.nextRunAt with
    | none => claimJobs now workerId leaseSeconds due s
    | some scheduledFor =>
      let (run, s) := s.claimSlot id job scheduledFor now workerId leaseSeconds
      let (claimed, s) := claimJobs now workerId leaseSeconds due s
      (run.toList ++ claimed, s)

/-- The jobs that `claim_due` selects. -/
def dueJobs (s : Rows) (now : Time) (accountIds : List AccountId) : List (JobId × Job) :=
  let rows := s.jobs.keys.filterMap fun id => (s.jobs.get id).map fun job => (id, job)
  (rows.filter fun row =>
    row.2.kind = jobKind && row.2.enabled && accountIds.contains row.2.accountId &&
      row.2.nextRunAt.any (fun at_ => at_ ≤ now)).insertionSort
    fun a b => a.2.accountId ≤ b.2.accountId

def claimDue (s : Rows) (now : Time) (workerId : String) (leaseSeconds : Nat)
    (accountIds : List AccountId) : List ClaimedIdlePreviewRun × Rows :=
  claimJobs now workerId leaseSeconds (s.dueJobs now accountIds) s

def finishRun (s : Rows) (claimed : ClaimedIdlePreviewRun) (completedAt nextRunAt : Time)
    (result : Json) : Rows :=
  match s.runs.get claimed.runId with
  | none => s
  | some run =>
    if run.completedAt.isSome then s
    else
      { s with
        runs := s.runs.set claimed.runId
          { run with
            result := some result
            completedAt := some completedAt
            leaseOwner := none
            leaseExpiresAt := none }
        jobs := s.jobs.update claimed.jobId fun job => { job with nextRunAt := some nextRunAt } }

def releaseLease (s : Rows) (workerId : String) : Rows :=
  match s.lease with
  | none => s
  | some lease =>
    if lease.owner ≠ some workerId then s
    else { s with lease := some { lease with owner := none, leaseExpiresAt := none } }

end Rows

/-- What the constructor of `IdlePreviewScheduler` accepts. -/
structure Worker where
  workerId : String
  intervalSeconds : Nat
  leaseSeconds : Nat
  workerId_bounded : 1 ≤ workerId.length ∧ workerId.length ≤ 128
  interval_pos : 1 ≤ intervalSeconds
  lease_pos : 1 ≤ leaseSeconds

/-- How far a tick has come; `ensured` keeps the eligible accounts. -/
inductive Phase where
  | started
  | leased
  | ensured (accountIds : List AccountId)
  | dispatching
  | released

/-- A running `tick(now)`, with the claimed runs whose dispatch has not finished yet. -/
structure Tick where
  worker : Worker
  now : Time
  phase : Phase := .started
  claimed : List ClaimedIdlePreviewRun := []

structure Config where
  rows : Rows
  tick : TaskId → Option Tick

namespace Config

def start : Config := ⟨{}, fun _ => none⟩

def setTick (c : Config) (s : Rows) (t : TaskId) (T : Tick) : Config :=
  ⟨s, Function.update c.tick t (some T)⟩

end Config

inductive Event where
  | started (t : TaskId)
  | acquired (t : TaskId) (granted : Bool)
  | ensured (t : TaskId)
  | claimed (t : TaskId) (now : Time) (runs : List ClaimedIdlePreviewRun)
  | finished (t : TaskId) (run : ClaimedIdlePreviewRun)
  | released (t : TaskId)

/-- One step of one tick. The tick time is any time, the accounts are whatever `list_accounts`
answers, and the dispatched runs finish in any order, with any result and at any time, also after
the lease was given back because another dispatch was cancelled. -/
inductive Step : Config → Event → Config → Prop where
  | started {c : Config} (t : TaskId) (worker : Worker) (now : Time) (h : c.tick t = none) :
      Step c (.started t) (c.setTick c.rows t { worker := worker, now := now })
  | acquired {c : Config} (t : TaskId) {T : Tick} (h : c.tick t = some T)
      (hp : T.phase = .started) :
      Step c
        (.acquired t (c.rows.acquireLease T.worker.workerId T.now T.worker.leaseSeconds).1)
        (c.setTick (c.rows.acquireLease T.worker.workerId T.now T.worker.leaseSeconds).2 t
          { T with
            phase :=
              if (c.rows.acquireLease T.worker.workerId T.now T.worker.leaseSeconds).1 then .leased
              else .released })
  | ensured {c : Config} (t : TaskId) {T : Tick} (accounts : List SchedulerAccount)
      (h : c.tick t = some T) (hp : T.phase = .leased) :
      Step c (.ensured t)
        (c.setTick (c.rows.ensureJobs accounts T.now T.worker.intervalSeconds) t
          { T with
            phase := .ensured ((accounts.filter (·.eligible)).map (·.id)) })
  | claimed {c : Config} (t : TaskId) {T : Tick} {accountIds : List AccountId}
      (h : c.tick t = some T) (hp : T.phase = .ensured accountIds) :
      Step c
        (.claimed t T.now
          (c.rows.claimDue T.now T.worker.workerId T.worker.leaseSeconds accountIds).1)
        (c.setTick (c.rows.claimDue T.now T.worker.workerId T.worker.leaseSeconds accountIds).2 t
          { T with
            phase := .dispatching
            claimed :=
              (c.rows.claimDue T.now T.worker.workerId T.worker.leaseSeconds accountIds).1 })
  | finished {c : Config} (t : TaskId) {T : Tick} (run : ClaimedIdlePreviewRun)
      (completedAt : Time) (result : Json) (h : c.tick t = some T) (hr : run ∈ T.claimed) :
      Step c (.finished t run)
        (c.setTick
          (c.rows.finishRun run completedAt
            (T.now + Time.seconds T.worker.intervalSeconds) result) t
          { T with claimed := T.claimed.erase run })
  | released {c : Config} (t : TaskId) {T : Tick} (h : c.tick t = some T)
      (hp : T.phase ≠ .started ∧ T.phase ≠ .released) :
      Step c (.released t)
        (c.setTick (c.rows.releaseLease T.worker.workerId) t { T with phase := .released })

/-- A run of the system with its history, newest event first. -/
inductive Run : Config → List Event → Config → Prop where
  | refl (c : Config) : Run c [] c
  | step {c c' c'' : Config} {h : List Event} {e : Event} :
      Run c h c' → Step c' e c'' → Run c (e :: h) c''

end Scheduler

end PlaceGame
