import PlaceGame.Accounts.Quiet
import PlaceGame.Coop.Passing

/-!
# PlaceGame.Accounts.Unhandled

The errors that the session cycle does not handle.

The cycle takes a rejected session and a missing authentication for outcomes. Every other error of an
await leaves it as it was raised.
-/

namespace PlaceGame

open Coop

variable {T μ : Type}

namespace Op

/-- What `_ensure_locked` asks for. -/
def Cycling : Op T → Prop
  | .clock | .sleep | .login _ _ | .bootstrap _ | .findIdentity _ | .flushIdentity _ _ => True
  | _ => False

/-- What the diagnostic snapshot asks for. -/
def Reading : Op T → Prop
  | .clock | .idleSummary _ _ | .flush => True
  | _ => False

end Op

/-- The session cycle has no handler for the error. -/
def Exc.Unhandled (e : Exc) : Prop := e ≠ .sessionRejected ∧ e ≠ .authenticationRequired

theorem passes_record {M : Monitor (sig T) μ} {seen : μ → Option Exc} {N : Op T → Prop}
    {Bad : Op T → Exc → Prop} : Coro.Passes M seen N Bad (record : Tx T GameAccount) :=
  Coro.Passes.bind Coro.Passes.get fun _ => Coro.Passes.pure _

/-- A monitor that notes, of the errors of a session cycle, only such as it has no handler for. -/
structure NotesCycle (M : Monitor (sig T) μ) (seen : μ → Option Exc) (Bad : Op T → Exc → Prop) :
    Prop where
  notes : Notes M seen Op.Cycling Bad
  unhandled : ∀ o e, o.Cycling → Bad o e → e.Unhandled

namespace NotesCycle

variable {M : Monitor (sig T) μ} {seen : μ → Option Exc} {Bad : Op T → Exc → Prop}
variable (hm : NotesCycle M seen Bad) {σ α β : Type} {a : AccountId}

/-- The coroutine ends with every error of a session cycle that is noted. -/
abbrev Cycles (M : Monitor (sig T) μ) (seen : μ → Option Exc) (Bad : Op T → Exc → Prop)
    (c : Coro (sig T) σ α) : Prop :=
  Coro.Passes M seen Op.Cycling Bad c

include hm

theorem ask {o : Op T} (ho : o.Cycling) :
    Cycles M seen Bad (await o : Coro (sig T) σ o.Val) := Coro.Passes.await hm.notes ho

theorem handle {c : Coro (sig T) σ β} {g : Except Exc β → Coro (sig T) σ α}
    (hc : Cycles M seen Bad c) (hg : ∀ r, Cycles M seen Bad (g r))
    (hraise : ∀ e, e.Unhandled → g (.error e) = raise e) : Cycles M seen Bad (attempt c >>= g) :=
  Coro.Passes.handle hc hg fun o e ho hb => hraise e (hm.unhandled o e ho hb)

variable (P : Ports)

theorem loginOnce (username password : String) :
    Cycles M seen Bad (PlaceGame.loginOnce P username password : Coro (sig T) σ Login) :=
  Coro.Passes.bind (hm.ask trivial) fun _ => Coro.Passes.bind (hm.ask trivial) fun _ =>
    Coro.Passes.pure _

/-- Induction on the attempts that remain. -/
theorem loginAndBootstrap (username password : String) :
    Cycles M seen Bad (PlaceGame.loginAndBootstrap P username password : Coro (sig T) σ Login) := by
  have hall : ∀ n, Cycles M seen Bad
      (loginAttempts P username password n : Coro (sig T) σ Login) := by
    intro n
    induction n with
    | zero => exact Coro.Passes.raise _
    | succ n ih =>
      refine hm.handle (hm.loginOnce P username password) (fun r => ?_) fun e he => ?_
      · split
        · exact Coro.Passes.pure _
        · exact Coro.Passes.ite _ (Coro.Passes.bind (hm.ask trivial) fun _ => ih) ih
        · exact Coro.Passes.raise _
      · split
        · rename_i heq
          cases heq
        · rename_i heq
          cases heq
          exact absurd rfl he.1
        · rename_i heq
          cases heq
          rfl
  exact hall 3

variable (actor : Actor)

omit hm in
theorem edit (g : Frame → Frame) : Cycles M seen Bad (modifyFrame g : Tx T Unit) :=
  Coro.Passes.modify g

theorem identityMismatch : Cycles M seen Bad (PlaceGame.identityMismatch a actor : Tx T Unit) :=
  Coro.Passes.bind (hm.ask trivial) fun _ => Coro.Passes.bind (edit _) fun _ => edit _

theorem bindOrMatchIdentity (g : String) :
    Cycles M seen Bad (PlaceGame.bindOrMatchIdentity a g actor : Tx T Bool) := by
  have hreject : Cycles M seen Bad
      (do PlaceGame.identityMismatch a actor; return false : Tx T Bool) :=
    Coro.Passes.bind (hm.identityMismatch actor) fun _ => Coro.Passes.pure _
  unfold PlaceGame.bindOrMatchIdentity
  refine Coro.Passes.ite _ (Coro.Passes.pure _) (Coro.Passes.bind passes_record fun r => ?_)
  split
  · refine Coro.Passes.bind (hm.ask trivial) fun _ => Coro.Passes.ite _ hreject ?_
    refine Coro.Passes.bind (hm.ask trivial) fun _ => Coro.Passes.ite _ ?_ hreject
    exact Coro.Passes.bind (edit _) fun _ => Coro.Passes.pure _
  · exact Coro.Passes.ite _ (Coro.Passes.pure _) hreject

omit hm in
theorem unauthenticated :
    Cycles M seen Bad (PlaceGame.unauthenticated a : Tx T SessionResolution) :=
  Coro.Passes.bind passes_record fun _ => Coro.Passes.pure _

theorem pauseForRefresh :
    Cycles M seen Bad (PlaceGame.pauseForRefresh a actor : Tx T SessionResolution) :=
  Coro.Passes.bind (hm.ask trivial) fun _ => Coro.Passes.bind (edit _) fun _ =>
    Coro.Passes.bind (edit _) fun _ => unauthenticated

theorem recordAuthFailure :
    Cycles M seen Bad (PlaceGame.recordAuthFailure a actor : Tx T SessionResolution) :=
  Coro.Passes.bind (hm.ask trivial) fun _ => Coro.Passes.bind (edit _) fun _ =>
    Coro.Passes.bind passes_record fun _ => Coro.Passes.bind (edit _) fun _ => unauthenticated

theorem matchSession (api : GameApi) (g : String) (now : Time) :
    Cycles M seen Bad (PlaceGame.matchSession a actor api g now : Tx T SessionResolution) := by
  unfold PlaceGame.matchSession authenticated
  refine Coro.Passes.bind (hm.bindOrMatchIdentity actor g) fun _ => Coro.Passes.ite _ ?_ unauthenticated
  exact Coro.Passes.bind (edit _) fun _ => Coro.Passes.bind passes_record fun _ => Coro.Passes.pure _

theorem ensureTokenOnly (token : String) (now : Time) :
    Cycles M seen Bad (PlaceGame.ensureTokenOnly a actor token now : Tx T SessionResolution) := by
  refine hm.handle (hm.ask trivial) (fun r => ?_) fun e he => ?_
  · split
    · exact hm.pauseForRefresh actor
    · exact Coro.Passes.raise _
    · exact hm.matchSession actor _ _ _
  · split
    · rename_i heq
      cases heq
      exact absurd rfl he.1
    · rename_i heq
      cases heq
      rfl
    · rename_i heq
      cases heq

theorem useStoredToken (token : String) (now : Time) :
    Cycles M seen Bad (PlaceGame.useStoredToken a actor token now :
      Tx T (Option SessionResolution)) := by
  refine hm.handle (hm.ask trivial) (fun r => ?_) fun e he => ?_
  · split
    · exact Coro.Passes.pure _
    · exact Coro.Passes.raise _
    · exact Coro.Passes.bind (hm.matchSession actor _ _ _) fun _ => Coro.Passes.pure _
  · split
    · rename_i heq
      cases heq
      exact absurd rfl he.1
    · rename_i heq
      cases heq
      rfl
    · rename_i heq
      cases heq

theorem renewSession (now : Time) :
    Cycles M seen Bad (PlaceGame.renewSession P a actor now : Tx T SessionResolution) := by
  unfold PlaceGame.renewSession
  refine Coro.Passes.bind passes_record fun r => ?_
  split
  · refine Coro.Passes.bind (Coro.Passes.raiseIf _ _) fun _ => ?_
    refine Coro.Passes.bind (hm.loginAndBootstrap P _ _) fun login => ?_
    refine Coro.Passes.bind (hm.bindOrMatchIdentity actor _) fun _ =>
      Coro.Passes.ite _ ?_ unauthenticated
    exact Coro.Passes.bind (edit _) fun _ => Coro.Passes.pure _
  · exact Coro.Passes.raise _

theorem ensureUnpaused (now : Time) :
    Cycles M seen Bad (PlaceGame.ensureUnpaused P a actor now : Tx T SessionResolution) := by
  unfold PlaceGame.ensureUnpaused
  refine Coro.Passes.bind passes_record fun r => ?_
  dsimp only
  split
  · exact hm.pauseForRefresh actor
  · exact Coro.Passes.ite _ (hm.pauseForRefresh actor) (hm.ensureTokenOnly actor _ _)
  · exact hm.renewSession P actor now
  · refine Coro.Passes.ite _ (hm.renewSession P actor now) ?_
    refine Coro.Passes.bind (hm.useStoredToken actor _ _) fun r => ?_
    split
    · exact Coro.Passes.pure _
    · exact hm.renewSession P actor now

/-- An error of an await that the cycle does not handle is what it raises. -/
theorem ensureLocked :
    Cycles M seen Bad (PlaceGame.ensureLocked P a actor : Tx T SessionResolution) := by
  unfold PlaceGame.ensureLocked
  refine Coro.Passes.bind (hm.ask trivial) fun now => Coro.Passes.bind passes_record fun r => ?_
  refine Coro.Passes.ite _ unauthenticated ?_
  refine hm.handle (hm.ensureUnpaused P actor now) (fun r => ?_) fun e he => ?_
  · split
    · exact Coro.Passes.pure _
    · exact hm.recordAuthFailure actor
    · exact Coro.Passes.raise _
  · split
    · rename_i heq
      cases heq
    · rename_i heq
      cases heq
      exact absurd rfl he.2
    · rename_i heq
      cases heq
      rfl

end NotesCycle

theorem saveSnapshot_passes {M : Monitor (sig T) μ} {seen : μ → Option Exc}
    {Bad : Op T → Exc → Prop} (hm : Notes M seen Op.Reading Bad) (P : Ports) (a : AccountId)
    (resolution : SessionResolution) (authenticated : Bool) :
    Coro.Passes M seen Op.Reading Bad
      (saveSnapshot P a resolution authenticated : Tx T AccountSnapshot) := by
  have hread : Coro.Passes M seen Op.Reading Bad
      (readState a resolution authenticated : Tx T Json) := by
    unfold readState
    split
    · refine Coro.Passes.ite _ ?_ (Coro.Passes.pure _)
      exact Coro.Passes.bind (Coro.Passes.await hm trivial) fun _ => Coro.Passes.pure _
    · exact Coro.Passes.pure _
  unfold saveSnapshot
  refine Coro.Passes.bind hread fun state =>
    Coro.Passes.bind (Coro.Passes.await hm trivial) fun now => ?_
  dsimp only
  exact Coro.Passes.bind (Coro.Passes.modify _) fun _ =>
    Coro.Passes.bind (Coro.Passes.await hm trivial) fun _ =>
      Coro.Passes.bind passes_record fun _ => Coro.Passes.pure _

end PlaceGame
