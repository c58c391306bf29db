import PlaceGame.Coop.Proc

/-!
# Coop.Monitor

A monitor watches the awaits of one program and says which effect it may ask for next.

`Proc.wp M p Q m`: from monitor state `m`, whatever the answers (within `M.ans`), every effect that
`p` awaits is allowed when it is awaited, and `p` can only finish in a state and with a result that
satisfy `Q`. It is a weakest precondition over the tree alone: no other program and no shared state
appear, so a program is analysed once and the result is used under every interleaving.
-/

namespace Coop

structure Event (S : Sig) where
  op : S.Op
  ans : S.Ans op

structure Monitor (S : Sig) (μ : Type) where
  init : μ
  next : μ → (o : S.Op) → S.Ans o → μ
  /-- The effect may be awaited now. -/
  ok : μ → S.Op → Prop
  /-- The answers that the analysis has to consider. -/
  ans : μ → (o : S.Op) → S.Ans o → Prop := fun _ _ _ => True

namespace Monitor

variable {S : Sig} {μ : Type}

/-- The monitor state after a history, newest event first. -/
def after (M : Monitor S μ) : List (Event S) → μ
  | [] => M.init
  | e :: h => M.next (M.after h) e.op e.ans

/-- Every event of the history was allowed when it happened. -/
def Valid (M : Monitor S μ) : List (Event S) → Prop
  | [] => True
  | e :: h => M.ok (M.after h) e.op ∧ M.Valid h

theorem valid_of_suffix {M : Monitor S μ} {h h' : List (Event S)} {e : Event S}
    (hv : M.Valid (h' ++ e :: h)) : M.ok (M.after h) e.op := by
  induction h' with
  | nil => exact hv.1
  | cons e' h' ih => exact ih hv.2

theorem valid_append {M : Monitor S μ} {h h' : List (Event S)} (hv : M.Valid (h' ++ h)) :
    M.Valid h := by
  induction h' with
  | nil => exact hv
  | cons e h' ih => exact ih hv.2

/-- What the monitor state says, and did not at first, came with an event. -/
theorem exists_of_after {M : Monitor S μ} {P : μ → Prop} {E : Event S → Prop} (hinit : ¬ P M.init)
    (hnext : ∀ m o r, P (M.next m o r) → P m ∨ E ⟨o, r⟩) {h : List (Event S)} (hP : P (M.after h)) :
    ∃ e ∈ h, E e := by
  induction h with
  | nil => exact absurd hP hinit
  | cons e h ih =>
    rcases hnext _ _ _ hP with hbefore | hE
    · obtain ⟨e', hmem, hE⟩ := ih hbefore
      exact ⟨e', List.mem_cons_of_mem _ hmem, hE⟩
    · exact ⟨e, List.mem_cons_self, hE⟩

end Monitor

namespace Proc

variable {S : Sig} {μ : Type} {M : Monitor S μ} {α β : Type}

def wp (M : Monitor S μ) : Proc S α → (μ → α → Prop) → μ → Prop
  | .ret a, Q, m => Q m a
  | .call o k, Q, m => M.ok m o ∧ ∀ r, M.ans m o r → (k r).wp M Q (M.next m o r)

theorem wp_bind (p : Proc S α) (f : α → Proc S β) (Q : μ → β → Prop) (m : μ) :
    (p.bind f).wp M Q m ↔ p.wp M (fun m a => (f a).wp M Q m) m := by
  induction p generalizing m with
  | ret a => rfl
  | call o k ih =>
    simp only [bind, wp]
    exact and_congr_right fun _ => forall_congr' fun r => imp_congr_right fun _ => ih r _

theorem wp_mono {p : Proc S α} {Q Q' : μ → α → Prop} {m : μ} (h : p.wp M Q m)
    (hQ : ∀ m a, Q m a → Q' m a) : p.wp M Q' m := by
  induction p generalizing m with
  | ret a => exact hQ m a h
  | call o k ih => exact ⟨h.1, fun r hr => ih r (h.2 r hr)⟩

/-- Two facts about one program hold together. -/
theorem wp_and {p : Proc S α} {Q Q' : μ → α → Prop} {m : μ} (h : p.wp M Q m)
    (h' : p.wp M Q' m) : p.wp M (fun m a => Q m a ∧ Q' m a) m := by
  induction p generalizing m with
  | ret a => exact ⟨h, h'⟩
  | call o k ih => exact ⟨h.1, fun r hr => ih r (h.2 r hr) (h'.2 r hr)⟩

/-- A monitor that forbids nothing learns nothing of a program. -/
theorem wp_of_lax {p : Proc S α} (hok : ∀ m o, M.ok m o) (m : μ) : p.wp M (fun _ _ => True) m := by
  induction p generalizing m with
  | ret a => trivial
  | call o k ih => exact ⟨hok m o, fun r _ => ih r _⟩

end Proc

namespace Coro

variable {S : Sig} {μ : Type} {M : Monitor S μ} {σ τ α β : Type}

/-- The weakest precondition of a coroutine: `Q` speaks about the monitor state, the outcome and the
local state it leaves. -/
def wp (M : Monitor S μ) (c : Coro S σ α) (Q : μ → Except S.Err α → σ → Prop) (m : μ) (s : σ) :
    Prop :=
  (c s).wp M (fun m p => Q m p.1 p.2) m

/-- The postcondition a first coroutine has to reach: a value must satisfy `f`, a raised error goes
straight to `Q`. -/
def chain {ε : Type} (Q : μ → Except ε α → σ → Prop) (f : μ → β → σ → Prop) :
    μ → Except ε β → σ → Prop
  | m, .ok b, s => f m b s
  | m, .error e, s => Q m (.error e) s

@[simp] theorem chain_ok {ε : Type} {Q : μ → Except ε α → σ → Prop} {f : μ → β → σ → Prop}
    {m : μ} {b : β} {s : σ} : chain Q f m (.ok b) s ↔ f m b s := Iff.rfl

@[simp] theorem chain_error {ε : Type} {Q : μ → Except ε α → σ → Prop} {f : μ → β → σ → Prop}
    {m : μ} {e : ε} {s : σ} : chain Q f m (.error e) s ↔ Q m (.error e) s := Iff.rfl

variable {Q Q' : μ → Except S.Err α → σ → Prop} {m : μ} {s : σ}

theorem wp_mono {c : Coro S σ α} (h : c.wp M Q m s) (hQ : ∀ m r s, Q m r s → Q' m r s) :
    c.wp M Q' m s :=
  Proc.wp_mono h fun m p => hQ m p.1 p.2

theorem wp_and {c : Coro S σ α} (h : c.wp M Q m s) (h' : c.wp M Q' m s) :
    c.wp M (fun m r s => Q m r s ∧ Q' m r s) m s :=
  Proc.wp_and h h'

@[simp] theorem wp_pure (a : α) : (pure a : Coro S σ α).wp M Q m s ↔ Q m (.ok a) s := Iff.rfl

@[simp] theorem wp_raise (e : S.Err) : (raise e : Coro S σ α).wp M Q m s ↔ Q m (.error e) s :=
  Iff.rfl

@[simp] theorem wp_bind (c : Coro S σ β) (f : β → Coro S σ α) :
    (c >>= f).wp M Q m s ↔ c.wp M (chain Q fun m b s => (f b).wp M Q m s) m s := by
  show ((c s).bind _).wp M _ m ↔ _
  rw [Proc.wp_bind]
  constructor
  · intro h
    refine Proc.wp_mono h ?_
    rintro m ⟨r, s⟩ hr
    cases r with
    | ok b => exact hr
    | error e => exact hr
  · intro h
    refine Proc.wp_mono h ?_
    rintro m ⟨r, s⟩ hr
    cases r with
    | ok b => exact hr
    | error e => exact hr

@[simp] theorem wp_await (o : S.Op) {Q : μ → Except S.Err (S.Val o) → σ → Prop} :
    (await o : Coro S σ (S.Val o)).wp M Q m s ↔
      M.ok m o ∧ ∀ r, M.ans m o r → Q (M.next m o r) r s := Iff.rfl

@[simp] theorem wp_raiseIf (p : Prop) [Decidable p] (e : S.Err)
    {Q : μ → Except S.Err Unit → σ → Prop} :
    (raiseIf p e : Coro S σ Unit).wp M Q m s ↔ (p → Q m (.error e) s) ∧ (¬ p → Q m (.ok ()) s) := by
  unfold raiseIf
  by_cases hp : p <;> simp [hp]

@[simp] theorem wp_attempt (c : Coro S σ α) {Q : μ → Except S.Err (Except S.Err α) → σ → Prop} :
    (attempt c).wp M Q m s ↔ c.wp M (fun m r s => Q m (.ok r) s) m s := by
  show ((c s).bind _).wp M _ m ↔ _
  rw [Proc.wp_bind]
  rfl

@[simp] theorem wp_get {Q : μ → Except S.Err σ → σ → Prop} :
    (get : Coro S σ σ).wp M Q m s ↔ Q m (.ok s) s := Iff.rfl

@[simp] theorem wp_modify (f : σ → σ) {Q : μ → Except S.Err Unit → σ → Prop} :
    (modify f : Coro S σ Unit).wp M Q m s ↔ Q m (.ok ()) (f s) := Iff.rfl

@[simp] theorem wp_within (s₀ : σ) (c : Coro S σ α) {t : τ}
    {Q : μ → Except S.Err (Except S.Err α × σ) → τ → Prop} :
    (within s₀ c).wp M Q m t ↔ c.wp M (fun m r s => Q m (.ok (r, s)) t) m s₀ := by
  show ((c s₀).bind _).wp M _ m ↔ _
  rw [Proc.wp_bind]
  rfl

theorem wp_andFinally (c : Coro S σ α) (close : Coro S σ Unit) :
    (andFinally c close).wp M Q m s ↔
      c.wp M (fun m r s => close.wp M (chain Q fun m _ s => Q m r s) m s) m s := by
  unfold andFinally
  rw [wp_bind, wp_attempt]
  constructor
  · intro h
    refine wp_mono h ?_
    rintro m (e | a) s hr
    · simp only [chain_ok, wp_bind, wp_raise] at hr; exact hr
    · simp only [chain_ok, wp_bind, wp_pure] at hr; exact hr
  · intro h
    refine wp_mono h ?_
    rintro m (e | a) s hr
    · simp only [chain_ok, wp_bind, wp_raise]; exact hr
    · simp only [chain_ok, wp_bind, wp_pure]; exact hr

@[simp] theorem wp_ite (p : Prop) [Decidable p] (c d : Coro S σ α) :
    (if p then c else d).wp M Q m s ↔ (p → c.wp M Q m s) ∧ (¬ p → d.wp M Q m s) := by
  by_cases hp : p <;> simp [hp]

theorem wp_seq {c : Coro S σ β} {f : β → Coro S σ α} {R : μ → Except S.Err β → σ → Prop}
    (hc : c.wp M R m s) (ho : ∀ m b s, R m (.ok b) s → (f b).wp M Q m s)
    (he : ∀ m e s, R m (.error e) s → Q m (.error e) s) : (c >>= f).wp M Q m s := by
  rw [wp_bind]
  refine wp_mono hc ?_
  rintro m (e | b) s hr
  · exact he m e s hr
  · exact ho m b s hr

/-- Sequencing when the second part handles every outcome of the first. -/
theorem wp_try {c : Coro S σ β} {f : Except S.Err β → Coro S σ α}
    {R : μ → Except S.Err β → σ → Prop} (hc : c.wp M R m s)
    (h : ∀ m r s, R m r s → (f r).wp M Q m s) : (attempt c >>= f).wp M Q m s := by
  rw [wp_bind, wp_attempt]
  exact wp_mono hc fun m r s hr => h m r s hr

theorem wp_toProc {c : Coro S σ α} {R : μ → Except S.Err α → Prop} :
    (toProc s c).wp M R m ↔ c.wp M (fun m r _ => R m r) m s := by
  unfold toProc Proc.map
  rw [Proc.wp_bind]
  rfl

end Coro

end Coop
