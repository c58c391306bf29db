import PlaceGame.Coop.Script
import PlaceGame.Steps

/-!
# PlaceGame.Scripts

Concrete runs of the program. The world computes its own answers, so a script has to give only those
of the game and of the callbacks.
-/

namespace PlaceGame

open Coop

variable {T : Type} {P : Ports}

theorem honest_effect : Responder.Honest World.effect (machine T P) :=
  fun _ _ _ _ _ _ h => .done h

/-- A call of task `t` that runs for at most `n` awaits. -/
def run (c : Config (machine T P)) (t : TaskId) (call : Call)
    (script : (o : Op T) → Except Exc o.Val) (n : Nat) : Config (machine T P) :=
  c.call World.effect t call script n

theorem reachable_run (c : Config (machine T P)) (t : TaskId) (call : Call)
    (script : (o : Op T) → Except Exc o.Val) (n : Nat) : Reachable c (run c t call script n) :=
  reachable_call honest_effect c t call script n

theorem call_of_run {c : Config (machine T P)} {t u : TaskId} {call : Call}
    {script : (o : Op T) → Except Exc o.Val} {n : Nat} {U : Task (machine T P)}
    (h : (run c t call script n).task u = some U) :
    U.call = call ∨ ∃ V, c.task u = some V ∧ V.call = U.call :=
  call_of_call h

theorem run_task_ne {c : Config (machine T P)} {t u : TaskId} {call : Call}
    {script : (o : Op T) → Except Exc o.Val} {n : Nat} (h : u ≠ t) :
    (run c t call script n).task u = c.task u :=
  call_task_ne h

theorem call_of_new {c : Config (machine T P)} {t : TaskId} {call : Call}
    {script : (o : Op T) → Except Exc o.Val} {n : Nat} {U : Task (machine T P)}
    (h : c.task t = none) (hU : (run c t call script n).task t = some U) : U.call = call := by
  rcases call_of_run hU with hcall | ⟨V, hV, -⟩
  · exact hcall
  · rw [h] at hV
    cases hV

/-- What holds of the calls before a run and of the new one holds of all calls after it. -/
theorem calls_of_run {c : Config (machine T P)} {t : TaskId} {call : Call}
    {script : (o : Op T) → Except Exc o.Val} {n : Nat} {p : Call → Prop} (hcall : p call)
    (h : ∀ u U, c.task u = some U → p U.call) :
    ∀ u U, (run c t call script n).task u = some U → p U.call := by
  intro u U hU
  rcases call_of_run hU with hnew | ⟨V, hV, hold⟩
  · exact hnew ▸ hcall
  · exact hold ▸ h u V hV

def returned (c : Config (machine T P)) (t : TaskId) : Bool :=
  (c.task t).any fun U =>
    match U.prog with
    | .ret (.ok _) => true
    | _ => false

theorem exists_of_returned {c : Config (machine T P)} {t : TaskId} (h : returned c t = true) :
    ∃ U x, c.task t = some U ∧ U.prog = .ret (.ok x) := by
  obtain ⟨U, hU, h⟩ := (Option.any_eq_true ..).mp h
  split at h
  · rename_i x hp
    exact ⟨U, x, hU, hp⟩
  · cases h

/-- SHA-256 of the texts that the runs digest. -/
def digests : List (String × String) :=
  [((snapshotState "g1" ⟨0, none⟩).dumps true,
    "e67a7d0c109ddd52a3a24fc0be5aa880fac9b14f4c0c353a5029feb36c387fce")]

def samplePorts : Ports where
  tokenExpiry _ := none
  sha256 text := (digests.lookup text).getD ""

def operator : Actor := ⟨.webui, "operator"⟩

/-- A game that knows one account and accepts every token for it. -/
def friendlyGame : (o : Op Unit) → Except Exc o.Val
  | .bootstrap _ => .ok "g1"
  | .login _ _ => .ok "tok"
  | .idleSummary _ _ => .ok ⟨0, none⟩
  | .idleCollect _ _ _ => .ok true
  | .stateFingerprint _ _ => .ok (some "fp")
  | .operation _ _ _ => .ok ()
  | .verify _ _ => .ok true
  | .lockedBody _ _ => .ok ()
  | _ => .error .sessionRejected

/-- An account with credentials and a token of its last session. -/
def storedAccount : GameAccount :=
  { gameAccountId := some "g1", gameUsername := some "user", password := some "secret",
    sessionToken := some "tok" }

def storedWorld : World := { accounts := Table.set {} 0 storedAccount }

end PlaceGame
