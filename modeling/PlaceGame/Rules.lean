import PlaceGame.Accounts.Edits

/-!
# PlaceGame.Rules

The weakest preconditions of the session layer: what a transaction, a load and an edit of the record
ask of a monitor.
-/

namespace PlaceGame

open Coop

variable {T : Type} {μ : Type} {M : Monitor (sig T) μ} {σ α : Type}
variable {m : μ} {s : σ} {f : Frame}

@[simp] theorem wp_await (o : Op T) {Q : μ → Except Exc o.Val → σ → Prop} :
    (await o : Coro (sig T) σ o.Val).wp M Q m s ↔
      M.ok m o ∧ ∀ r, M.ans m o r → Q (M.next m o r) r s := Iff.rfl

@[simp] theorem wp_clock {Q : μ → Except Exc Time → σ → Prop} :
    (clock : Coro (sig T) σ Time).wp M Q m s ↔
      M.ok m .clock ∧ ∀ r, M.ans m .clock r → Q (M.next m .clock r) r s := Iff.rfl

@[simp] theorem wp_raise (e : Exc) {Q : μ → Except Exc α → σ → Prop} :
    (raise e : Coro (sig T) σ α).wp M Q m s ↔ Q m (.error e) s := Iff.rfl

@[simp] theorem wp_raiseIf (p : Prop) [Decidable p] (e : Exc)
    {Q : μ → Except Exc Unit → σ → Prop} :
    (raiseIf p e : Coro (sig T) σ Unit).wp M Q m s ↔
      (p → Q m (.error e) s) ∧ (¬ p → Q m (.ok ()) s) := Coro.wp_raiseIf (S := sig T) p e

@[simp] theorem wp_attempt (c : Coro (sig T) σ α) {Q : μ → Except Exc (Except Exc α) → σ → Prop} :
    (attempt c).wp M Q m s ↔ c.wp M (fun m r s => Q m (.ok r) s) m s := Coro.wp_attempt c

@[simp] theorem wp_frame {Q : μ → Except Exc Frame → Frame → Prop} :
    (frame : Tx T Frame).wp M Q m f ↔ Q m (.ok f) f := Iff.rfl

@[simp] theorem wp_modifyFrame (g : Frame → Frame) {Q : μ → Except Exc Unit → Frame → Prop} :
    (modifyFrame g : Tx T Unit).wp M Q m f ↔ Q m (.ok ()) (g f) := Iff.rfl

@[simp] theorem wp_record {Q : μ → Except Exc GameAccount → Frame → Prop} :
    (record : Tx T GameAccount).wp M Q m f ↔ Q m (.ok f.record) f := by
  simp [record]

@[simp] theorem wp_modifyRecord (g : GameAccount → GameAccount)
    {Q : μ → Except Exc Unit → Frame → Prop} :
    (modifyRecord g : Tx T Unit).wp M Q m f ↔ Q m (.ok ()) { f with record := g f.record } := Iff.rfl

@[simp] theorem wp_writeToken (token : Option String) (g : GameAccount → GameAccount)
    {Q : μ → Except Exc Unit → Frame → Prop} :
    (writeToken token g : Tx T Unit).wp M Q m f ↔
      Q m (.ok ()) { f with record := g f.record, sessionToken := some token } := Iff.rfl

@[simp] theorem wp_addAudit (event : AuditEvent) {Q : μ → Except Exc Unit → Frame → Prop} :
    (addAudit event : Tx T Unit).wp M Q m f ↔ Q m (.ok ()) { f with audits := f.audits ++ [event] } :=
  Iff.rfl

@[simp] theorem wp_audit (actor : Actor) (accountId : Option AccountId) (action : String)
    (result : Json) (before after : Option Json) (planId : Option PlanId)
    {Q : μ → Except Exc Unit → Frame → Prop} :
    (audit actor accountId action result before after planId : Tx T Unit).wp M Q m f ↔
      Q m (.ok ())
        { f with
          audits := f.audits ++
            [{ actor := actor.value
               source := actor.kind.text
               accountId := accountId
               planId := planId
               action := action
               result := some (redact result)
               before := before.map redact
               after := after.map redact }] } := Iff.rfl

/-- A handled call: the handler sees every outcome. -/
theorem wp_try {β : Type} {c : Coro (sig T) σ β} {g : Except Exc β → Coro (sig T) σ α}
    {Q : μ → Except Exc α → σ → Prop} {R : μ → Except Exc β → σ → Prop} (hc : c.wp M R m s)
    (h : ∀ m r s, R m r s → (g r).wp M Q m s) : (attempt c >>= g).wp M Q m s :=
  Coro.wp_try hc h

/-- A function that only checks: it changes nothing, and what it lets pass satisfies `p`. -/
def Checks (M : Monitor (sig T) μ) (c : Coro (sig T) σ α) (p : α → Prop) : Prop :=
  ∀ m s, c.wp M (fun m' r s' => m' = m ∧ s' = s ∧ ∀ x, r = .ok x → p x) m s

theorem Checks.seq {β : Type} {c : Coro (sig T) σ β} {g : β → Coro (sig T) σ α} {p : β → Prop}
    {Q : μ → Except Exc α → σ → Prop} (hc : Checks M c p) (he : ∀ e, Q m (.error e) s)
    (hk : ∀ x, p x → (g x).wp M Q m s) : (c >>= g).wp M Q m s := by
  refine Coro.wp_seq (hc m s) ?_ ?_
  · rintro m' x s' ⟨rfl, rfl, hx⟩
    exact hk x (hx x rfl)
  · rintro m' e s' ⟨rfl, rfl, -⟩
    exact he e

theorem checks_raiseIf (p : Prop) [Decidable p] (e : Exc) :
    Checks M (raiseIf p e : Coro (sig T) σ Unit) fun _ => ¬ p := by
  intro m s
  rw [wp_raiseIf]
  exact ⟨fun _ => ⟨rfl, rfl, nofun⟩, fun h => ⟨rfl, rfl, fun _ _ => h⟩⟩

theorem checks_pure {p : α → Prop} (x : α) (h : p x) : Checks M (pure x : Coro (sig T) σ α) p := by
  intro m s
  refine ⟨rfl, rfl, ?_⟩
  rintro y ⟨⟩
  exact h

theorem Checks.mono {c : Coro (sig T) σ α} {p q : α → Prop} (hc : Checks M c p)
    (h : ∀ x, p x → q x) : Checks M c q := fun m s =>
  Coro.wp_mono (hc m s) fun _ _ _ hr => ⟨hr.1, hr.2.1, fun x hx => h x (hr.2.2 x hx)⟩

theorem Checks.bind {β : Type} {c : Coro (sig T) σ β} {g : β → Coro (sig T) σ α} {p : β → Prop}
    {q : α → Prop} (hc : Checks M c p) (hk : ∀ x, p x → Checks M (g x) q) : Checks M (c >>= g) q :=
  fun m s => hc.seq (fun _ => ⟨rfl, rfl, nofun⟩) fun x hx => hk x hx m s

theorem checks_rejectRemovalMarker (r : GameAccount) :
    Checks M (rejectRemovalMarker r : Tx T Unit) fun _ => ¬ r.Marked := by
  unfold rejectRemovalMarker rejectRemoved
  refine (checks_raiseIf _ _).bind fun _ h1 => ?_
  exact (checks_raiseIf _ _).mono fun _ h2 => GameAccount.unmarked h1 h2

/-- What `_require_mutable` lets pass is enabled and without a removal marker. -/
theorem checks_requireMutable (r : GameAccount) :
    Checks M (requireMutable r : Tx T Unit) fun _ => ¬ r.Marked ∧ r.enabled = true := by
  unfold requireMutable
  refine (checks_rejectRemovalMarker r).bind fun _ hu => ?_
  refine (checks_raiseIf _ _).bind fun _ he => ?_
  exact (checks_raiseIf _ _).mono fun _ _ => ⟨hu, by simpa using he⟩

theorem checks_normalizeLabel (label : String) :
    Checks M (normalizeLabel label : Coro (sig T) σ String) fun _ => True := by
  unfold normalizeLabel
  dsimp only
  exact (checks_raiseIf _ _).bind fun _ _ => checks_pure _ trivial

/-- How a transaction that raised `e` ends. -/
def RollsBack (M : Monitor (sig T) μ) (Q : μ → Except Exc α → σ → Prop) (m : μ) (e : Exc) (s : σ) :
    Prop :=
  M.ok m .rollback ∧ ∀ r, M.ans m .rollback r →
    match r with
    | .ok _ => Q (M.next m .rollback r) (.error e) s
    | .error e' => Q (M.next m .rollback r) (.error e') s

/-- A transaction commits what its body leaves in the session, or rolls back. -/
theorem wp_transaction {body : Tx T α} {R : μ → Except Exc α → Frame → Prop}
    {Q : μ → Except Exc α → σ → Prop} (hb : body.wp M R m {})
    (ho : ∀ m a f, R m (.ok a) f → M.ok m (.commit f.writes) ∧
      ∀ r, M.ans m (.commit f.writes) r →
        match r with
        | .ok _ => Q (M.next m (.commit f.writes) r) (.ok a) s
        | .error e => RollsBack M Q (M.next m (.commit f.writes) r) e s)
    (he : ∀ m e f, R m (.error e) f → RollsBack M Q m e s) : (transaction body).wp M Q m s := by
  have hroll : ∀ {m : μ} {e : Exc}, RollsBack M Q m e s →
      (do await .rollback; raise e : Coro (sig T) σ α).wp M Q m s := by
    intro m e h
    rw [Coro.wp_bind, wp_await]
    refine ⟨h.1, ?_⟩
    intro r hr
    have := h.2 r hr
    cases r with
    | ok _ => exact this
    | error e' => exact this
  unfold transaction
  rw [Coro.wp_bind, Coro.wp_within]
  refine Coro.wp_mono hb ?_
  rintro m (e | a) f hr
  · exact hroll (he m e f hr)
  · obtain ⟨hok, hans⟩ := ho m a f hr
    show (attempt (await (.commit f.writes)) >>= _).wp M Q m s
    rw [Coro.wp_bind, wp_attempt, wp_await]
    refine ⟨hok, ?_⟩
    intro r hr'
    have := hans r hr'
    cases r with
    | ok _ => exact this
    | error e => exact hroll this

end PlaceGame
