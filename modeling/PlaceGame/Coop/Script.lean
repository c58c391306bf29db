import PlaceGame.Coop.System

/-!
# Coop.Script

Runs that can be computed.

Where the awaits of a machine have a computable answer, `Config.drive` lets one task run for a
number of awaits with scripted replies, and `Config.call` starts a call and does so. Both stay
reachable, so a concrete run is shown by evaluating it.
-/

namespace Coop

variable {S : Sig} {W : Type} {K : Machine S W}

/-- The answer of the world to an await of a task, given the reply of a script; `none` blocks. -/
abbrev Responder (S : Sig) (W : Type) : Type :=
  TaskId → W → (o : S.Op) → S.Ans o → Option (S.Ans o × W)

def Responder.Honest (f : Responder S W) (K : Machine S W) : Prop :=
  ∀ t w o reply r w', f t w o reply = some (r, w') → K.perform t w o r w'

/-- At most `n` awaits of a task. -/
def Task.drive (f : Responder S W) (t : TaskId) (script : (o : S.Op) → S.Ans o) :
    Nat → W → Task K → W × Task K
  | 0, w, U => (w, U)
  | n + 1, w, U =>
    match U.prog with
    | .ret _ => (w, U)
    | .call o k =>
      match f t w o (script o) with
      | none => (w, U)
      | some (r, w') => Task.drive f t script n w' (U.advance o r (k r))

namespace Config

def drive (c : Config K) (f : Responder S W) (t : TaskId) (script : (o : S.Op) → S.Ans o)
    (n : Nat) : Config K :=
  match c.task t with
  | none => c
  | some U =>
    if U.alive then
      { c with world := (U.drive f t script n c.world).1 }.setTask t
        (U.drive f t script n c.world).2
    else c

/-- A new task makes a call and runs for at most `n` awaits. -/
def call (c : Config K) (f : Responder S W) (t : TaskId) (call : K.Call)
    (script : (o : S.Op) → S.Ans o) (n : Nat) : Config K :=
  match c.task t with
  | none => (c.setTask t { call := call, prog := K.prog call }).drive f t script n
  | some _ => c

theorem setTask_setTask (c : Config K) (t : TaskId) (U V : Task K) (w : W) :
    { c.setTask t U with world := w }.setTask t V = { c with world := w }.setTask t V := by
  simp [setTask]

theorem setTask_eq_self {c : Config K} {t : TaskId} {U : Task K} (h : c.task t = some U) :
    c.setTask t U = c := by
  unfold setTask
  rw [← h, Function.update_eq_self]

end Config

theorem alone_task_drive {f : Responder S W} (hf : f.Honest K) {t : TaskId}
    {script : (o : S.Op) → S.Ans o} (n : Nat) (c : Config K) (U : Task K) (ht : c.task t = some U)
    (ha : U.alive = true) :
    Relation.ReflTransGen (Alone t) c
      ({ c with world := (U.drive f t script n c.world).1 }.setTask t
        (U.drive f t script n c.world).2) := by
  induction n generalizing c U with
  | zero =>
    simp only [Task.drive]
    rw [Config.setTask_eq_self ht]
  | succ n ih =>
    unfold Task.drive
    split
    · rw [Config.setTask_eq_self ht]
    · rename_i o k hp
      split
      · rw [Config.setTask_eq_self ht]
      · rename_i r w' hw
        have hstep : Alone t c ({ c with world := w' }.setTask t (U.advance o r (k r))) :=
          ⟨.exec t r ht ha hp (hf _ _ _ _ _ _ hw), fun u hu => Config.setTask_ne _ _ hu⟩
        have hrest := ih ({ c with world := w' }.setTask t (U.advance o r (k r)))
          (U.advance o r (k r)) (Config.setTask_self ..) ha
        rw [Config.setTask_world, Config.setTask_setTask] at hrest
        exact Relation.ReflTransGen.head hstep hrest

theorem alone_drive {f : Responder S W} (hf : f.Honest K) (c : Config K) (t : TaskId)
    (script : (o : S.Op) → S.Ans o) (n : Nat) :
    Relation.ReflTransGen (Alone t) c (c.drive f t script n) := by
  unfold Config.drive
  split
  · exact Relation.ReflTransGen.refl
  · rename_i U ht
    split
    · rename_i ha
      exact alone_task_drive hf n c U ht ha
    · exact Relation.ReflTransGen.refl

theorem reachable_drive {f : Responder S W} (hf : f.Honest K) (c : Config K) (t : TaskId)
    (script : (o : S.Op) → S.Ans o) (n : Nat) : Reachable c (c.drive f t script n) :=
  Alone.reachable (alone_drive hf c t script n)

theorem alone_call {f : Responder S W} (hf : f.Honest K) {c : Config K} {t : TaskId}
    (ht : c.task t = none) (call : K.Call) (script : (o : S.Op) → S.Ans o) (n : Nat) :
    Relation.ReflTransGen (Alone t) (c.setTask t { call := call, prog := K.prog call })
      (c.call f t call script n) := by
  unfold Config.call
  rw [ht]
  exact alone_drive hf _ t script n

theorem reachable_call {f : Responder S W} (hf : f.Honest K) (c : Config K) (t : TaskId)
    (call : K.Call) (script : (o : S.Op) → S.Ans o) (n : Nat) :
    Reachable c (c.call f t call script n) := by
  unfold Config.call
  split
  · rename_i ht
    exact Relation.ReflTransGen.head (Step.spawn t call ht) (reachable_drive hf _ t script n)
  · exact Relation.ReflTransGen.refl

theorem drive_task_ne {f : Responder S W} {c : Config K} {t u : TaskId}
    {script : (o : S.Op) → S.Ans o} {n : Nat} (h : u ≠ t) :
    (c.drive f t script n).task u = c.task u := by
  unfold Config.drive
  split
  · rfl
  · split
    · rw [Config.setTask_ne _ _ h]
    · rfl

theorem call_task_ne {f : Responder S W} {c : Config K} {t u : TaskId} {call : K.Call}
    {script : (o : S.Op) → S.Ans o} {n : Nat} (h : u ≠ t) :
    (c.call f t call script n).task u = c.task u := by
  unfold Config.call
  split
  · rw [drive_task_ne h, Config.setTask_ne _ _ h]
  · rfl

theorem call_of_task_drive (f : Responder S W) (t : TaskId) (script : (o : S.Op) → S.Ans o) (n : Nat)
    (w : W) (U : Task K) : (U.drive f t script n w).2.call = U.call := by
  induction n generalizing w U with
  | zero => rfl
  | succ n ih =>
    unfold Task.drive
    split
    · rfl
    · split
      · rfl
      · exact ih _ _

theorem call_of_drive {f : Responder S W} {c : Config K} {t u : TaskId}
    {script : (o : S.Op) → S.Ans o} {n : Nat} {U : Task K}
    (h : (c.drive f t script n).task u = some U) :
    ∃ V, c.task u = some V ∧ V.call = U.call := by
  unfold Config.drive at h
  split at h
  · exact ⟨U, h, rfl⟩
  · rename_i V ht
    split at h
    · rw [Config.setTask_task] at h
      split at h
      · rename_i hu
        cases h
        exact ⟨V, hu ▸ ht, (call_of_task_drive ..).symm⟩
      · exact ⟨U, h, rfl⟩
    · exact ⟨U, h, rfl⟩

theorem call_of_call {f : Responder S W} {c : Config K} {t u : TaskId} {call : K.Call}
    {script : (o : S.Op) → S.Ans o} {n : Nat} {U : Task K}
    (h : (c.call f t call script n).task u = some U) :
    U.call = call ∨ ∃ V, c.task u = some V ∧ V.call = U.call := by
  unfold Config.call at h
  split at h
  · obtain ⟨V, hV, hcall⟩ := call_of_drive h
    rw [Config.setTask_task] at hV
    split at hV
    · cases hV
      exact .inl hcall.symm
    · exact .inr ⟨V, hV, hcall⟩
  · exact .inr ⟨U, h, rfl⟩

/-- What holds of the events of the tasks of a run that knows only these holds of every event. -/
theorem forall_hist {c : Config K} {p : Event S → Bool} {tasks : List TaskId}
    (hnone : ∀ t, t ∉ tasks → c.task t = none)
    (hall : (tasks.all fun t => (c.task t).all fun T => T.hist.all p) = true) :
    ∀ t T, c.task t = some T → ∀ e ∈ T.hist, p e = true := by
  intro t T hT e he
  by_cases ht : t ∈ tasks
  · have h := List.all_eq_true.mp hall t ht
    rw [hT] at h
    exact List.all_eq_true.mp h e he
  · rw [hnone t ht] at hT
    cases hT

end Coop
