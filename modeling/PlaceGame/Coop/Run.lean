import PlaceGame.Coop.Script

/-!
# Coop.Run

Programs run to their end by a handler that answers every effect from a world. A run is computed,
and it is a path of any machine whose effects the handler performs.
-/

namespace Coop

variable {S : Sig} {W : Type} {σ α β : Type}

/-- The answer of a world to an effect, and the world after it. -/
abbrev Handler (S : Sig) (W : Type) : Type := W → (o : S.Op) → S.Ans o × W

def Proc.run (f : Handler S W) : W → Proc S α → α × W
  | w, .ret a => (a, w)
  | w, .call o k => Proc.run f (f w o).2 (k (f w o).1)

theorem Proc.run_bind (f : Handler S W) (p : Proc S α) (g : α → Proc S β) (w : W) :
    (p.bind g).run f w = (g (p.run f w).1).run f (p.run f w).2 := by
  induction p generalizing w with
  | ret a => rfl
  | call o k ih => exact ih _ _

/-- What a coroutine leaves: its outcome, its local state and the world. -/
def Coro.run (f : Handler S W) (c : Coro S σ α) (w : W) (s : σ) : (Except S.Err α × σ) × W :=
  (c s).run f w

namespace Coro

variable {f : Handler S W} {w : W} {s : σ}

@[simp] theorem run_await (o : S.Op) :
    (await o : Coro S σ (S.Val o)).run f w s = (((f w o).1, s), (f w o).2) := rfl

@[simp] theorem run_raiseIf (p : Prop) [Decidable p] (e : S.Err) :
    (raiseIf p e : Coro S σ Unit).run f w s = ((if p then .error e else .ok (), s), w) := by
  unfold raiseIf
  split <;> rfl

theorem run_bind (c : Coro S σ β) (g : β → Coro S σ α) :
    (c >>= g).run f w s =
      match c.run f w s with
      | ((.ok b, s'), w') => (g b).run f w' s'
      | ((.error e, s'), w') => ((.error e, s'), w') := by
  show ((c s).bind _).run f w = _
  rw [Proc.run_bind]
  rcases hrun : c.run f w s with ⟨⟨_ | _, s'⟩, w'⟩ <;> unfold run at hrun <;> rw [hrun] <;> rfl

theorem run_bind_ok {c : Coro S σ β} {g : β → Coro S σ α} {b : β} {s' : σ} {w' : W}
    (h : c.run f w s = ((.ok b, s'), w')) : (c >>= g).run f w s = (g b).run f w' s' := by
  rw [run_bind, h]

theorem run_bind_error {c : Coro S σ β} {g : β → Coro S σ α} {e : S.Err} {s' : σ} {w' : W}
    (h : c.run f w s = ((.error e, s'), w')) : (c >>= g).run f w s = ((.error e, s'), w') := by
  rw [run_bind, h]

theorem run_toProc (c : Coro S σ α) :
    (toProc s c).run f w = ((c.run f w s).1.1, (c.run f w s).2) := by
  unfold toProc Proc.map
  rw [Proc.run_bind]
  rfl

end Coro

/-! ## What a run does -/

/-- The effects of a run with their answers, newest first. -/
def Proc.history (f : Handler S W) : W → Proc S α → List (Event S)
  | _, .ret _ => []
  | w, .call o k => Proc.history f (f w o).2 (k (f w o).1) ++ [⟨o, (f w o).1⟩]

theorem Proc.history_bind (f : Handler S W) (p : Proc S α) (g : α → Proc S β) (w : W) :
    (p.bind g).history f w = (g (p.run f w).1).history f (p.run f w).2 ++ p.history f w := by
  induction p generalizing w with
  | ret a => exact (List.append_nil _).symm
  | call o k ih =>
    rw [bind, history, ih, history, List.append_assoc]
    rfl

/-- What holds of the run of a coroutine: `Q` speaks about its history, the world it leaves, its
outcome and its local state. -/
def Coro.Does (f : Handler S W) (c : Coro S σ α) (w : W) (s : σ)
    (Q : List (Event S) → W → Except S.Err α → σ → Prop) : Prop :=
  Q ((c s).history f w) (c.run f w s).2 (c.run f w s).1.1 (c.run f w s).1.2

namespace Coro

variable {f : Handler S W} {w : W} {s : σ} {Q Q' : List (Event S) → W → Except S.Err α → σ → Prop}

theorem Does.mono {c : Coro S σ α} (h : c.Does f w s Q) (hQ : ∀ h w r s, Q h w r s → Q' h w r s) :
    c.Does f w s Q' :=
  hQ _ _ _ _ h

theorem does_pure {a : α} (h : Q [] w (.ok a) s) : (pure a : Coro S σ α).Does f w s Q := h

theorem does_raise {e : S.Err} (h : Q [] w (.error e) s) : (raise e : Coro S σ α).Does f w s Q := h

theorem does_await {o : S.Op} {Q : List (Event S) → W → Except S.Err (S.Val o) → σ → Prop}
    (h : Q [⟨o, (f w o).1⟩] (f w o).2 (f w o).1 s) : (await o : Coro S σ (S.Val o)).Does f w s Q := h

/-- A sequence: the second part starts where the first one returned. -/
theorem does_bind {c : Coro S σ β} {g : β → Coro S σ α}
    {R : List (Event S) → W → Except S.Err β → σ → Prop} (hc : c.Does f w s R)
    (hok : ∀ h w' b s', R h w' (.ok b) s' → (g b).Does f w' s' fun later => Q (later ++ h))
    (herror : ∀ h w' e s', R h w' (.error e) s' → Q h w' (.error e) s') :
    (c >>= g).Does f w s Q := by
  have hhistory : ((c >>= g) s).history f w = _ := Proc.history_bind f (c s) _ w
  unfold Does at hc ⊢
  rw [hhistory]
  rcases hrun : c.run f w s with ⟨⟨r, s'⟩, w'⟩
  rw [hrun] at hc
  unfold run at hrun
  rw [hrun]
  cases r with
  | error e =>
    rw [run_bind_error hrun]
    exact herror _ _ _ _ hc
  | ok b =>
    rw [run_bind_ok hrun]
    exact hok _ _ _ _ hc

/-- `try`: the outcome is handed on as a value. -/
theorem does_attempt {c : Coro S σ β}
    {Q : List (Event S) → W → Except S.Err (Except S.Err β) → σ → Prop}
    (hc : c.Does f w s fun h w r s => Q h w (.ok r) s) : (attempt c).Does f w s Q := by
  have hhistory : ((attempt c) s).history f w = _ := Proc.history_bind f (c s) _ w
  have hrun : (attempt c).run f w s = _ := Proc.run_bind f (c s) _ w
  unfold Does
  rw [hhistory, hrun]
  exact hc

end Coro

variable {K : Machine S W} {t : TaskId}

theorem Path.trans {w w' w'' : W} {p q r : Proc S α} {h h' : List (Event S)}
    (hpq : Path K t w p h w' q) (hqr : Path K t w' q h' w'' r) :
    Path K t w p (h' ++ h) w'' r := by
  induction hqr with
  | refl => exact hpq
  | step _ hperform ih => exact .step (ih hpq) hperform

/-- A run of a handler that performs what the machine performs is a path of the machine. -/
theorem Proc.path_run {f : Handler S W} (hf : ∀ w o, K.perform t w o (f w o).1 (f w o).2)
    (p : Proc S α) (w : W) : ∃ h, Path K t w p h (p.run f w).2 (.ret (p.run f w).1) := by
  induction p generalizing w with
  | ret a => exact ⟨[], .refl⟩
  | call o k ih =>
    obtain ⟨h, hrest⟩ := ih (f w o).1 (f w o).2
    exact ⟨_, (Path.step .refl (hf w o)).trans hrest⟩

end Coop
