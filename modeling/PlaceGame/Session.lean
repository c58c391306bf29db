import PlaceGame.Effects
import PlaceGame.Security.Redaction

/-!
# PlaceGame.Session

One database transaction of the program: the ORM session as local state of a coroutine.

The session holds the objects it loaded with their current attributes and the changes that are still
to be written. They outlive a raised exception, which is how a handler can commit what a failed step
changed. `transaction` is `async with self.sessions.begin() as session`.
-/

namespace PlaceGame

open Coop

/-- The objects and pending changes of a session, and the local variables of `mutate` that its
exception handler reads. -/
structure Frame where
  /-- The id of the account object in the identity map. -/
  loaded : Option AccountId := none
  /-- The attributes of that object. -/
  record : GameAccount := {}
  sessionToken : Option (Option String) := none
  /-- The plan object with its attributes. -/
  plan : Option ActionPlan := none
  plans : List (PlanId × PlanUpdate) := []
  newPlan : Option (PlanId × ActionPlan) := none
  policy : Option (AccountId × PolicyRow) := none
  disabledJobs : List JobId := []
  snapshots : List AccountSnapshotRow := []
  audits : List AuditEvent := []
  sendStarted : Bool := false
  validatedPlanId : Option PlanId := none
  validatedAccountId : Option AccountId := none

def Frame.writes (f : Frame) : Writes where
  account := f.loaded.map fun a => (a, f.record)
  sessionToken := f.sessionToken
  plans := f.plans
  newPlan := f.newPlan
  policy := f.policy
  disabledJobs := f.disabledJobs
  snapshots := f.snapshots
  audits := f.audits

variable {T : Type}

/-- A coroutine outside any transaction. -/
abbrev Action (T α : Type) : Type := Coro (sig T) Unit α

/-- A coroutine inside a transaction. -/
abbrev Tx (T α : Type) : Type := Coro (sig T) Frame α

section Awaits

variable {σ : Type}

def await (o : Op T) : Coro (sig T) σ o.Val := Coro.await (S := sig T) o

def clock : Coro (sig T) σ Time := await (T := T) .clock

def raise {α : Type} (e : Exc) : Coro (sig T) σ α := Coro.raise (S := sig T) e

def raiseIf (p : Prop) [Decidable p] (e : Exc) : Coro (sig T) σ Unit :=
  Coro.raiseIf (S := sig T) p e

def attempt {α : Type} (c : Coro (sig T) σ α) : Coro (sig T) σ (Except Exc α) :=
  Coro.attempt (S := sig T) c

end Awaits

def frame : Tx T Frame := Coro.get

def modifyFrame (g : Frame → Frame) : Tx T Unit := Coro.modify g

def record : Tx T GameAccount := do
  let f ← frame
  return f.record

def modifyRecord (g : GameAccount → GameAccount) : Tx T Unit :=
  modifyFrame fun f => { f with record := g f.record }

/-- `record.set_session_token(token, ...)` among the assignments of `g`. -/
def writeToken (token : Option String) (g : GameAccount → GameAccount) : Tx T Unit :=
  modifyFrame fun f => { f with record := g f.record, sessionToken := some token }

def addAudit (event : AuditEvent) : Tx T Unit :=
  modifyFrame fun f => { f with audits := f.audits ++ [event] }

/-- Commit on a normal exit, roll back when the body or the commit raises. -/
def transaction {σ α : Type} (body : Tx T α) : Coro (sig T) σ α := do
  let (outcome, f) ← Coro.within {} body
  match outcome with
  | .ok a =>
    match ← attempt (await (.commit f.writes)) with
    | .ok _ => return a
    | .error e => await .rollback; raise e
  | .error e => await .rollback; raise e

end PlaceGame
