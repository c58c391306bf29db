import PlaceGame.Accounts.MutateSafe

/-!
# PlaceGame.Accounts.CallsSafe

The remaining calls under the monitor of account safety, and with them every call of the system.
Removal is the one call that may mark a row; a removal that returns has committed a removed one.
-/

namespace PlaceGame

open Coop

section Removal

variable {T : Type} {P : Ports} {a : AccountId} {actor : Actor} {m : Local}

open AccountService

/-- The session leaves the account in a row that a removal may commit and that satisfies `p`. -/
def Removes {α : Type} (a : AccountId) (actor : Actor) (p : α → GameAccount → Prop) :
    Local → Except Exc α → Frame → Prop :=
  fun m' r f' => ∀ x, r = .ok x →
    m'.CommitOk (.disableDrainRemove a actor) f'.writes ∧ f'.loaded = some a ∧ p x f'.record

theorem removes_commitOk {r₀ : GameAccount} {f f' : Frame} (h : Held a r₀ m f)
    (hl : f'.loaded = some a) (hn : f'.newPlan = none)
    (hid : f'.record.gameAccountId = f.record.gameAccountId)
    (ht : m.TokenWrite f'.sessionToken r₀.sessionToken f'.record)
    (hc : (r₀.Removed ∧ f'.record = r₀) ∨ (¬ r₀.Removed ∧ f'.record = r₀.beginRemoval) ∨
      f'.record = r₀.wipe) :
    m.CommitOk (.disableDrainRemove a actor) f'.writes := by
  refine ⟨?_, ?_, ?_⟩
  · intro b r hw
    simp only [Frame.writes, hl, Option.map_some, Option.some.injEq, Prod.mk.injEq] at hw
    obtain ⟨rfl, rfl⟩ := hw
    exact .inl ⟨r₀, h.row, hid.trans h.identity, ⟨rfl, hc⟩, ht⟩
  · intro hw
    simp [Frame.writes, hl] at hw
  · intro id plan hw
    simp [Frame.writes, hn] at hw

/-- What a committed transaction of a removal leaves behind. -/
def Removal {α : Type} (a : AccountId) (p : α → GameAccount → Prop) :
    Local → Except Exc α → Unit → Prop :=
  fun m' r _ => m'.Closed ∧ ∀ x, r = .ok x → ∃ row, (a, row) ∈ m'.committed ∧ p x row

theorem removal_transaction {α : Type} {p : α → GameAccount → Prop} {body : Tx T α}
    (hb : body.wp (watch T P (.disableDrainRemove a actor)) (Removes a actor p) m {}) :
    (transaction body : Action T α).wp (watch T P (.disableDrainRemove a actor)) (Removal a p) m ()
    := by
  refine wp_transaction hb ?_ ?_
  · intro m' x f hr
    obtain ⟨hc, hl, hp⟩ := hr x rfl
    refine ⟨hc, ?_⟩
    rintro (e | _) -
    · exact rollsBack fun _ => ⟨m'.closed_closed, nofun⟩
    · refine ⟨⟨rfl, rfl⟩, ?_⟩
      rintro y ⟨⟩
      refine ⟨f.record, ?_, hp⟩
      simp [Local.next, Frame.writes, hl]
  · intro m' e f _
    exact rollsBack fun _ => ⟨m'.closed_closed, nofun⟩

theorem removes_requireForUpdate {α : Type} {p : α → GameAccount → Prop} {g : Unit → Tx T α}
    (actor : Actor) (hm : m.Closed)
    (hk : ∀ m' r₀ f', Held a r₀ m' f' → f'.record = r₀ →
      (g ()).wp (watch T P (.disableDrainRemove a actor)) (Removes a actor p) m' f') :
    (requireForUpdate a >>= g).wp (watch T P (.disableDrainRemove a actor)) (Removes a actor p) m {}
    := by
  unfold requireForUpdate
  rw [Coro.wp_bind, Coro.wp_bind, wp_await]
  refine ⟨nofun, ?_⟩
  rintro (e | row) -
  · exact nofun
  · cases row with
    | none => exact nofun
    | some r₀ =>
      rw [Coro.chain_ok, wp_modifyFrame, Coro.chain_ok, if_neg (by nofun)]
      exact hk _ r₀ _ (Held.start (T := T) hm rfl rfl rfl rfl) rfl

theorem beginRemoval_safe (hm : m.Closed) :
    (beginRemoval a : Tx T (Option RemovalReceipt)).wp (watch T P (.disableDrainRemove a actor))
      (Removes a actor fun receipt row => row.Marked ∧ (receipt.isSome = true → row.Removed))
      m {} := by
  unfold beginRemoval
  refine removes_requireForUpdate _ hm ?_
  rintro m' r₀ f' h rfl
  rw [Coro.wp_bind, wp_record, Coro.chain_ok, Coro.wp_ite]
  constructor
  · intro hr
    have hrem : f'.record.Removed := hr
    rw [Coro.wp_bind, wp_clock]
    refine ⟨nofun, ?_⟩
    rintro (e | now) -
    · exact nofun
    · rintro x ⟨⟩
      have h' : Held a f'.record (m'.next (T := T) .clock (.ok now)) f' :=
        h.learn rfl rfl (List.Subset.refl _)
      exact ⟨removes_commitOk h' h.loaded h.newPlan rfl h'.token (.inl ⟨hrem, rfl⟩),
        h.loaded, hrem.marked, fun _ => hrem⟩
  · intro hr
    have hrem : ¬ f'.record.Removed := hr
    rw [Coro.wp_bind, wp_modifyRecord, Coro.chain_ok, Coro.wp_bind, wp_await]
    refine ⟨nofun, ?_⟩
    rintro (e | _) -
    · exact nofun
    · rintro x ⟨⟩
      exact ⟨removes_commitOk h h.loaded h.newPlan rfl h.token (.inr (.inl ⟨hrem, rfl⟩)),
        h.loaded, .inr rfl, nofun⟩

theorem drainRemoval_safe (hm : m.Closed) :
    (drainRemoval a actor : Tx T RemovalReceipt).wp (watch T P (.disableDrainRemove a actor))
      (Removes a actor fun _ row => row.Removed) m {} := by
  unfold drainRemoval lockAccount
  have hrest := removes_requireForUpdate (T := T) (P := P) (a := a)
    (p := fun (_ : RemovalReceipt) row => row.Removed)
    (g := fun _ => do
      let jobs ← await (.enabledJobs a)
      modifyFrame fun f => { f with disabledJobs := jobs }
      writeToken none (·.wipe)
      audit actor (some a) "account.remove"
        (.obj [("status", .str "removed"), ("disabled_jobs", .int jobs.length)])
      let now ← clock
      return ⟨a, now, jobs.length⟩) actor hm
  rw [Coro.wp_bind] at hrest
  rw [Coro.wp_bind, Coro.wp_bind, wp_await]
  refine ⟨nofun, ?_⟩
  rintro (e | _) -
  · exact nofun
  · refine hrest ?_
    rintro m' r₀ f' h rfl
    rw [Coro.wp_bind, wp_await]
    refine ⟨nofun, ?_⟩
    rintro (e | jobs) -
    · exact nofun
    · simp only [Coro.chain_ok, Coro.wp_bind, wp_modifyFrame, wp_writeToken, wp_audit, wp_clock]
      refine ⟨fun _ h => (by cases h), ?_⟩
      rintro (e | now) -
      · intro x hx
        cases hx
      · rintro x ⟨⟩
        have h' : Held a f'.record (m'.next (T := T) .clock (.ok now)) f' :=
          h.learn rfl rfl (List.Subset.refl _)
        exact ⟨removes_commitOk h' h.loaded h.newPlan rfl (.inr (.inl ⟨rfl, rfl⟩)) (.inr (.inr rfl)),
          h.loaded, rfl⟩

theorem disableDrainRemove_safe (hm : m.Closed) :
    (disableDrainRemove a actor : Action T RemovalReceipt).wp
      (watch T P (.disableDrainRemove a actor)) (Removal a fun _ row => row.Removed) m () := by
  unfold disableDrainRemove
  refine Coro.wp_seq (removal_transaction (beginRemoval_safe hm)) ?_ ?_
  · rintro m' receipt s' ⟨hm', hr⟩
    obtain ⟨row, hmem, -, hrem⟩ := hr receipt rfl
    cases receipt with
    | some receipt =>
      refine ⟨hm', ?_⟩
      rintro x ⟨⟩
      exact ⟨row, hmem, hrem rfl⟩
    | none => exact removal_transaction (drainRemoval_safe hm')
  · rintro m' e s' ⟨hm', -⟩
    exact ⟨hm', nofun⟩

end Removal

section Policy

variable {T : Type} {P : Ports} {call : Call} {a : AccountId} {m : Local}

theorem saveLocked_safe (policy : AccountPolicy) (expectedVersion : Int) (actor : Actor)
    (hcall : call.Ordinary) (hm : m.Closed) :
    (PolicyService.saveLocked a policy expectedVersion actor : Tx T PolicyService.SaveResult).wp
      (watch T P call) (Commits call m) m {} := by
  unfold PolicyService.saveLocked
  refine Commits.await (Local.Grows.refl m) nofun (fun _ => rfl) ?_
  intro _ _
  refine Commits.await (Local.Grows.refl m) nofun (fun _ => rfl) ?_
  intro row _
  cases row with
  | none => exact Commits.pure (Local.Grows.refl m) (commitOk_of_unloaded rfl rfl rfl)
  | some r₀ =>
    have hg : m.Grows (m.next (T := T) (.accountForUpdate a) (.ok (some r₀))) :=
      ⟨List.Subset.refl _, rfl⟩
    have h : Held a r₀ (m.next (T := T) (.accountForUpdate a) (.ok (some r₀)))
        { ({} : Frame) with loaded := some a, record := r₀ } := Held.start hm rfl rfl rfl rfl
    dsimp only
    rw [Coro.wp_bind, wp_modifyFrame, Coro.chain_ok]
    refine Commits.await hg nofun (fun _ => rfl) ?_
    intro policyRow _
    split
    · exact Commits.pure hg (h.commits hcall)
    · rw [Coro.wp_ite]
      constructor
      · intro _
        rw [Coro.wp_bind, wp_audit, Coro.chain_ok]
        exact Commits.pure hg ((h.audits _).commits hcall)
      · intro _
        dsimp only
        rw [Coro.wp_bind, wp_modifyFrame, Coro.chain_ok, Coro.wp_bind, wp_modifyRecord,
          Coro.chain_ok]
        refine Commits.await hg nofun (fun _ => rfl) ?_
        intro _ _
        rw [Coro.wp_bind, wp_audit, Coro.chain_ok]
        exact Commits.pure hg (h.commitOk hcall rfl rfl (GameAccount.evolves_policyVersion _) rfl
          h.token)

theorem savePolicy_safe (policy : AccountPolicy) (expectedVersion : Int) (actor : Actor)
    (hcall : call.Ordinary) (hm : m.Closed) :
    (PolicyService.save a policy expectedVersion actor : Action T VersionedPolicy).wp
      (watch T P call) (Ended m) m () := by
  unfold PolicyService.save
  refine Coro.wp_seq (transaction_safe (saveLocked_safe policy expectedVersion actor hcall hm)) ?_
    fun _ _ _ hend => hend
  rintro m' result s' hend
  cases result <;> exact hend

end Policy

section Plans

variable {T : Type} {P : Ports} {call : Call} {m : Local} {f : Frame} {α β : Type}

/-- A session without the account: it may only insert a plan under the identifier it drew. -/
structure Light (m : Local) (f : Frame) : Prop where
  closed : m.Closed
  loaded : f.loaded = none
  sessionToken : f.sessionToken = none
  newPlan : ∀ id plan, f.newPlan = some (id, plan) → m.fresh = some id

def Lightly (Φ : Local → α → Frame → Prop) : Local → Except Exc α → Frame → Prop :=
  fun m' r f' => ∀ x, r = .ok x → Light m' f' ∧ Φ m' x f'

theorem Light.commitOk (h : Light m f) : m.CommitOk call f.writes := by
  refine ⟨?_, fun _ => h.sessionToken, h.newPlan⟩
  intro b r hw
  simp [Frame.writes, h.loaded] at hw

theorem Light.empty (hm : m.Closed) : Light m {} := by
  refine ⟨hm, rfl, rfl, ?_⟩
  intro id plan hp
  cases hp

/-- Neither the plan object nor audits nor the clock matter. -/
theorem Light.move {m' : Local} {f' : Frame} (h : Light m f) (hrow : m'.row = m.row)
    (hfl : m'.flushed = m.flushed) (hfr : m'.fresh = m.fresh) (hl : f'.loaded = f.loaded)
    (ht : f'.sessionToken = f.sessionToken) (hn : f'.newPlan = f.newPlan) : Light m' f' where
  closed := ⟨hrow.trans h.closed.row, hfl.trans h.closed.flushed⟩
  loaded := hl.trans h.loaded
  sessionToken := ht.trans h.sessionToken
  newPlan id plan hp := hfr.trans (h.newPlan id plan (hn ▸ hp))

theorem Light.insert (h : Light m f) (id : PlanId) (plan : ActionPlan) :
    Light { m with fresh := some id } { f with newPlan := some (id, plan) } := by
  refine ⟨⟨h.closed.row, h.closed.flushed⟩, h.loaded, h.sessionToken, ?_⟩
  rintro id' plan' ⟨⟩
  rfl

theorem Lightly.seq {Φ : Local → β → Frame → Prop} {Ψ : Local → α → Frame → Prop} {c : Tx T β}
    {g : β → Tx T α} (hc : c.wp (watch T P call) (Lightly Φ) m f)
    (hk : ∀ m' x f', Light m' f' → Φ m' x f' → (g x).wp (watch T P call) (Lightly Ψ) m' f') :
    (c >>= g).wp (watch T P call) (Lightly Ψ) m f := by
  refine Coro.wp_seq hc ?_ fun _ _ _ _ => nofun
  intro m' x f' h
  exact hk m' x f' (h x rfl).1 (h x rfl).2

theorem Lightly.check {Ψ : Local → α → Frame → Prop} {c : Tx T β} {g : β → Tx T α} {p : β → Prop}
    (hc : Checks (watch T P call) c p)
    (hk : ∀ x, p x → (g x).wp (watch T P call) (Lightly Ψ) m f) :
    (c >>= g).wp (watch T P call) (Lightly Ψ) m f :=
  hc.seq (fun _ => nofun) hk

theorem Lightly.await {Ψ : Local → α → Frame → Prop} {o : Op T} {g : o.Val → Tx T α}
    (hok : m.ok P call o)
    (hk : ∀ v, Local.Answers o (.ok v) →
      (g v).wp (watch T P call) (Lightly Ψ) (m.next o (.ok v)) f) :
    (await o >>= g).wp (watch T P call) (Lightly Ψ) m f := by
  rw [Coro.wp_bind, wp_await]
  refine ⟨hok, ?_⟩
  rintro (e | v) ha
  · exact nofun
  · exact hk v ha

theorem Lightly.raise {Ψ : Local → α → Frame → Prop} (e : Exc) :
    (raise e : Tx T α).wp (watch T P call) (Lightly Ψ) m f := by
  rintro x ⟨⟩

theorem Lightly.pure {Ψ : Local → α → Frame → Prop} {x : α} (h : Light m f) (hx : Ψ m x f) :
    (pure x : Tx T α).wp (watch T P call) (Lightly Ψ) m f := by
  rintro y ⟨⟩
  exact ⟨h, hx⟩

theorem transaction_light {σ : Type} {s : σ} {body : Tx T α}
    {Φ : Option (PlanId × ActionPlan × Option Time) → α → Prop}
    (hb : body.wp (watch T P call) (Lightly fun m' x _ => Φ m'.planRow x) m {}) :
    (transaction body : Coro (sig T) σ α).wp (watch T P call)
      (fun m' r _ => m'.Closed ∧ ∀ x, r = .ok x → Φ m'.planRow x) m s := by
  refine wp_transaction hb ?_ ?_
  · intro m' x f h
    obtain ⟨hl, hx⟩ := h x rfl
    refine ⟨hl.commitOk, ?_⟩
    rintro (e | _) -
    · exact rollsBack fun _ => ⟨m'.closed_closed, nofun⟩
    · refine ⟨⟨rfl, rfl⟩, ?_⟩
      rintro y ⟨⟩
      exact hx
  · intro m' e f _
    exact rollsBack fun _ => ⟨m'.closed_closed, nofun⟩

theorem flush_light (h : Light m f) {x : α} {Ψ : Local → α → Frame → Prop} (hx : Ψ m x f) :
    (do await .flush; return x : Tx T α).wp (watch T P call) (Lightly Ψ) m f :=
  Lightly.await nofun fun _ _ => Lightly.pure h hx

theorem loadForUpdate_light (planId : PlanId) (accountId : Option AccountId) (h : Light m f)
    (hf : f.plan = none) :
    (PlanStore.loadForUpdate planId accountId : Tx T ActionPlan).wp (watch T P call)
      (Lightly fun m' plan _ => m'.planRow = some (planId, plan, m.now) ∧ m'.now = m.now ∧
        ∀ a, accountId = some a → plan.accountId = a) m f := by
  unfold PlanStore.loadForUpdate
  refine Lightly.await nofun ?_
  intro row ha
  cases row with
  | none => exact Lightly.raise _
  | some row =>
    simp only [Coro.wp_bind, wp_frame, wp_modifyFrame, Coro.chain_ok, hf, Option.getD_none]
    refine Lightly.pure (h.move rfl rfl rfl rfl rfl rfl) ⟨rfl, rfl, ?_⟩
    rintro a rfl
    exact ha

theorem create_light (row : ActionPlan) (h : Light m f) :
    (PlanStore.create row : Tx T PlanId).wp (watch T P call) (Lightly fun _ _ _ => True) m f := by
  unfold PlanStore.create
  refine Lightly.await nofun ?_
  intro id _
  rw [Coro.wp_bind, wp_modifyFrame, Coro.chain_ok]
  exact flush_light (h.insert id _) trivial

theorem update_light {g : Unit → Tx T α} {Ψ : Local → α → Frame → Prop} (planId : PlanId)
    (u : PlanUpdate) (h : Light m f)
    (hk : ∀ f', Light m f' → (g ()).wp (watch T P call) (Lightly Ψ) m f') :
    (PlanStore.update planId u >>= g).wp (watch T P call) (Lightly Ψ) m f := by
  unfold PlanStore.update
  rw [Coro.wp_bind, wp_modifyFrame, Coro.chain_ok]
  exact hk _ (h.move rfl rfl rfl rfl rfl rfl)

theorem confirm_light (planId : PlanId) (a : AccountId) (actor : Actor) (h : Light m f)
    (hf : f.plan = none) :
    (PlanStore.confirm planId a actor : Tx T ActionPlan).wp (watch T P call)
      (Lightly fun _ _ _ => True) m f := by
  unfold PlanStore.confirm
  refine Lightly.seq (loadForUpdate_light planId (some a) h hf) ?_
  intro m' row f' h' _
  refine Lightly.check (checks_raiseIf _ _) fun _ _ => ?_
  refine Lightly.await (o := .clock) nofun fun now _ => ?_
  refine Lightly.check (checks_raiseIf _ _) fun _ _ => ?_
  refine Lightly.await (o := .clock) nofun fun at_ _ => ?_
  refine update_light _ _ (h'.move rfl rfl rfl rfl rfl rfl) fun f'' h'' => ?_
  exact flush_light h'' trivial

theorem markExecuting_light (planId : PlanId) (expectedState : PlanState) (h : Light m f)
    (hf : f.plan = none) :
    (PlanStore.markExecuting planId expectedState : Tx T Unit).wp (watch T P call)
      (Lightly fun _ _ _ => True) m f := by
  unfold PlanStore.markExecuting
  refine Lightly.check (checks_raiseIf _ _) fun _ _ => ?_
  refine Lightly.seq (loadForUpdate_light planId none h hf) ?_
  intro m' row f' h' _
  refine Lightly.check (checks_raiseIf _ _) fun _ _ => ?_
  refine Lightly.await (o := .clock) nofun fun now _ => ?_
  refine Lightly.check (checks_raiseIf _ _) fun _ _ => ?_
  refine update_light _ _ (h'.move rfl rfl rfl rfl rfl rfl) fun f'' h'' => ?_
  rw [wp_await]
  exact ⟨nofun, fun r _ x hx => ⟨by cases r <;> exact h'', trivial⟩⟩

theorem finish_light (planId : PlanId) (status : PlanState) (result : List (String × Json))
    (h : Light m f) (hf : f.plan = none) :
    (PlanStore.finish planId status result : Tx T Unit).wp (watch T P call)
      (Lightly fun _ _ _ => True) m f := by
  unfold PlanStore.finish
  refine Lightly.check (checks_raiseIf _ _) fun _ _ => ?_
  refine Lightly.seq (loadForUpdate_light planId none h hf) ?_
  intro m' row f' h' _
  refine Lightly.check (checks_raiseIf _ _) fun _ _ => ?_
  refine Lightly.await (o := .clock) nofun fun now _ => ?_
  refine update_light _ _ (h'.move rfl rfl rfl rfl rfl rfl) fun f'' h'' => ?_
  rw [wp_await]
  exact ⟨nofun, fun r _ x hx => ⟨by cases r <;> exact h'', trivial⟩⟩

end Plans

section Idle

variable {T : Type} {P : Ports} {call : Call} {a : AccountId} {m : Local} {f : Frame}
variable {σ α : Type}

theorem checks_requireIdentifier {μ : Type} {M : Monitor (sig T) μ} (value : String) :
    Checks M (requireIdentifier value : Coro (sig T) σ Unit) fun _ => True :=
  (checks_raiseIf _ _).mono fun _ _ => trivial

theorem checks_auditActor {μ : Type} {M : Monitor (sig T) μ} (actor : Actor) :
    Checks M (auditActor actor : Coro (sig T) σ (String × String)) fun _ => True := by
  unfold auditActor
  refine (checks_requireIdentifier _).bind fun _ _ => ?_
  refine (checks_requireIdentifier _).bind fun _ _ => ?_
  exact (checks_raiseIf _ _).bind fun _ _ => checks_pure _ trivial

theorem insertPlan_light (draft : Option ActionPlanDraft) (h : Light m f) :
    (IdlePreviewStore.insertPlan draft : Tx T (Option PlanId)).wp (watch T P call)
      (Lightly fun _ _ _ => True) m f := by
  cases draft with
  | none => exact Lightly.pure h trivial
  | some draft =>
    unfold IdlePreviewStore.insertPlan
    refine Lightly.await nofun ?_
    intro id _
    rw [Coro.wp_bind, wp_modifyFrame, Coro.chain_ok]
    exact flush_light (h.insert id _) trivial

theorem preview_safe (actor : Actor) (correlationId : String) (hcall : call.Ordinary)
    (hm : m.Closed) :
    (IdlePlanUseCase.preview P a actor correlationId : Action T IdlePreview).wp (watch T P call)
      (fun _ _ _ => True) m () := by
  unfold IdlePlanUseCase.preview
  refine (checks_requireIdentifier _).seq (fun _ => trivial) fun _ _ => ?_
  refine Coro.wp_seq (locked_safe (Φ := fun _ _ _ => True) actor hcall hm ?_) ?_
    fun _ _ _ _ => trivial
  · intro m' r₀ f' locked h _ _ hb _
    unfold IdlePlanUseCase.draftLocked
    refine Leaves.await h (Local.Grows.refl m') ?_ (fun _ => rfl) ?_
    · exact hb
    · intro idle _
      refine Leaves.clock (h.learn rfl rfl (List.Subset.refl _)) ⟨List.Subset.refl _, rfl⟩ ?_
      intro now h' hg
      exact Leaves.pure h' hg trivial
  · rintro m' ⟨idle, policy, draft⟩ s' ⟨hm', -⟩
    dsimp only
    unfold IdlePreviewStore.save
    refine Coro.wp_seq (R := fun _ _ _ => True) ?_ (fun _ _ _ _ => trivial) fun _ _ _ _ => trivial
    refine (checks_requireIdentifier _).seq (fun _ => trivial) fun _ _ => ?_
    refine (checks_auditActor _).seq (fun _ => trivial) fun value _ => ?_
    refine Coro.wp_mono (transaction_light (Φ := fun _ _ => True) ?_) fun _ _ _ _ => trivial
    unfold IdlePreviewStore.saveRows
    refine Lightly.seq (insertPlan_light draft (Light.empty hm')) ?_
    intro m'' planId f'' h'' _
    rw [Coro.wp_bind, wp_addAudit, Coro.chain_ok]
    exact Lightly.pure (h''.move rfl rfl rfl rfl rfl rfl) trivial

/-- What a claim read of the plan, when it claimed a fresh one. -/
def ClaimRead (a : AccountId) (p : PlanId) (planRow : Option (PlanId × ActionPlan × Option Time))
    (claim : Claim) : Prop :=
  claim.planId = p ∧ (claim.recovery = false → ∃ plan now,
    planRow = some (p, plan, some now) ∧ plan.accountId = a ∧
    IdleExecutionClaims.validFresh plan now = true ∧
    plan.policyVersion = claim.plan.policyVersion ∧
    plan.stateFingerprint = claim.plan.stateFingerprint)

theorem claimRow_light (p : PlanId) (owner : Nat) (now : Time)
    (actor source correlationId : String) (recovery : Bool) (h : Light m f) (hf : f.plan = none)
    (hnow : m.now = some now) :
    (IdleExecutionClaims.claimRow a p owner now actor source correlationId recovery :
      Tx T Claim).wp (watch T P call) (Lightly fun m' claim _ => ClaimRead a p m'.planRow claim) m f
    := by
  unfold IdleExecutionClaims.claimRow
  refine Lightly.seq (loadForUpdate_light p (some a) h hf) ?_
  rintro m' plan f' h' ⟨hrow, -, hacc⟩
  rw [hnow] at hrow
  rw [Coro.wp_ite]
  constructor
  · intro _
    refine Lightly.check (checks_raiseIf _ _) fun _ _ => ?_
    refine Lightly.check (checks_raiseIf _ _) fun _ _ => ?_
    dsimp only
    refine update_light _ _ h' fun f'' h'' => ?_
    unfold IdleExecutionClaims.auditClaim
    rw [Coro.wp_bind, wp_addAudit, Coro.chain_ok]
    refine Lightly.pure (h''.move rfl rfl rfl rfl rfl rfl) ⟨rfl, fun hfresh => ?_⟩
    cases hfresh
  · intro _
    refine Lightly.check (checks_raiseIf _ _) fun _ hfresh => ?_
    dsimp only
    refine update_light _ _ h' fun f'' h'' => ?_
    unfold IdleExecutionClaims.auditClaim
    rw [Coro.wp_bind, wp_addAudit, Coro.chain_ok]
    refine Lightly.pure (h''.move rfl rfl rfl rfl rfl rfl) ⟨rfl, fun _ => ?_⟩
    exact ⟨plan, now, hrow, hacc a rfl, by simpa using hfresh, rfl, rfl⟩

theorem claim_safe (p : PlanId) (actor : Actor) (correlationId : String) (recovery : Bool)
    (hm : m.Closed) :
    (IdleExecutionClaims.claim a p actor correlationId recovery : Action T Claim).wp
      (watch T P call)
      (fun m' r _ => ∀ claim, r = .ok claim → m'.Closed ∧ ClaimRead a p m'.planRow claim) m () := by
  unfold IdleExecutionClaims.claim
  refine (checks_requireIdentifier _).seq ?_ fun _ _ => ?_
  · intro e claim hr
    cases hr
  rw [Coro.wp_bind, wp_await]
  refine ⟨nofun, ?_⟩
  rintro (e | owner) -
  · intro claim hr
    cases hr
  · rw [Coro.chain_ok, Coro.wp_bind, wp_clock]
    refine ⟨nofun, ?_⟩
    rintro (e | now) -
    · intro claim hr
      cases hr
    · rw [Coro.chain_ok]
      refine (checks_auditActor _).seq ?_ fun value _ => ?_
      · intro e claim hr
        cases hr
      refine Coro.wp_mono (transaction_light (Φ := fun planRow claim => ClaimRead a p planRow claim)
        (claimRow_light p owner now _ _ correlationId recovery
          (Light.empty ⟨hm.row, hm.flushed⟩) rfl rfl)) ?_
      rintro m' r _ ⟨hm', hc⟩ claim hr
      exact ⟨hm', hc claim hr⟩

theorem finishRow_light (claim : Claim) (state : PlanState) (actor source correlationId : String)
    (result : Json) (h : Light m f) (hf : f.plan = none) :
    (IdleExecutionClaims.finishRow claim state actor source correlationId result : Tx T Unit).wp
      (watch T P call) (Lightly fun _ _ _ => True) m f := by
  unfold IdleExecutionClaims.finishRow
  refine Lightly.seq (loadForUpdate_light claim.planId none h hf) ?_
  intro m' plan f' h' _
  refine Lightly.check (checks_raiseIf _ _) fun _ _ => ?_
  refine Lightly.await (o := .clock) nofun fun now _ => ?_
  refine update_light _ _ (h'.move rfl rfl rfl rfl rfl rfl) fun f'' h'' => ?_
  rw [wp_addAudit]
  intro x _
  exact ⟨h''.move rfl rfl rfl rfl rfl rfl, trivial⟩

theorem claimFinish_safe (claim : Claim) (state : PlanState) (actor : Actor)
    (correlationId : String) (result : Json) (hm : m.Closed) :
    (IdleExecutionClaims.finish claim state actor correlationId result : Action T Unit).wp
      (watch T P call) (fun _ _ _ => True) m () := by
  unfold IdleExecutionClaims.finish
  refine (checks_auditActor _).seq (fun _ => trivial) fun value _ => ?_
  exact Coro.wp_mono (transaction_light (Φ := fun _ _ => True)
    (finishRow_light claim state _ _ correlationId result (Light.empty hm) rfl))
    fun _ _ _ _ => trivial

/-- An await on the game with an api that may be handed out; errors go to the handler. -/
theorem game_safe {r₀ : GameAccount} {m₁ : Local} {g : IdleSummary → Tx T α} {api : GameApi}
    {Ψ : Local → α → Frame → Prop} (h : Held a r₀ m₁ f) (hg : m.Grows m₁)
    (hb : m₁.Bootstrapped a api)
    (hk : ∀ idle, Held a r₀ { m₁ with idle := some (a, idle) } f →
      m.Grows { m₁ with idle := some (a, idle) } →
      (g idle).wp (watch T P call) (Leaves a r₀ m Ψ) { m₁ with idle := some (a, idle) } f) :
    (await (.idleSummary a api) >>= g).wp (watch T P call) (Leaves a r₀ m Ψ) m₁ f := by
  refine Leaves.await h hg ?_ (fun _ => rfl) ?_
  · exact hb
  · intro idle _
    exact hk idle (h.learn rfl rfl (List.Subset.refl _)) (hg.trans ⟨List.Subset.refl _, rfl⟩)

theorem outcomeAfterError_safe {r₀ : GameAccount} (claim : Claim)
    (locked : AccountService.LockedAccount) (h : Held a r₀ m f)
    (hb : m.Bootstrapped a locked.api) :
    (IdleExecuteUseCase.outcomeAfterError a claim locked : Tx T IdleExecuteUseCase.Outcome).wp
      (watch T P call) (Leaves a r₀ m fun _ _ _ => True) m f := by
  unfold IdleExecuteUseCase.outcomeAfterError
  rw [Coro.wp_bind, wp_attempt, wp_await]
  refine ⟨?_, ?_⟩
  · exact hb
  · rintro (e | idle) -
    · rw [Coro.chain_ok]
      split
      · exact Leaves.raise _ h (Local.Grows.refl m)
      · exact Leaves.pure h (Local.Grows.refl m) trivial
      · rename_i heq
        cases heq
    · have h' : Held a r₀ (m.next (T := T) (.idleSummary a locked.api) (.ok idle)) f :=
        h.learn rfl rfl (List.Subset.refl _)
      rw [Coro.chain_ok, Coro.wp_ite]
      exact ⟨fun _ => Leaves.pure h' ⟨List.Subset.refl _, rfl⟩ trivial,
        fun _ => Leaves.pure h' ⟨List.Subset.refl _, rfl⟩ trivial⟩

theorem collect_safe {r₀ : GameAccount} (claim : Claim) (locked : AccountService.LockedAccount)
    (before : IdleSummary) (h : Held a r₀ m f) (hb : m.Bootstrapped a locked.api)
    (hadm : m.Admitted a) (hc : m.Collects P a claim.planId) :
    (IdleExecuteUseCase.collect a claim locked before : Tx T IdleExecuteUseCase.Outcome).wp
      (watch T P call) (Leaves a r₀ m fun _ _ _ => True) m f := by
  unfold IdleExecuteUseCase.collect
  refine wp_try (R := fun m' _ f' => Held a r₀ m' f' ∧ m.Grows m' ∧ m'.Bootstrapped a locked.api)
    ?_ ?_
  · rw [Coro.wp_bind, wp_await]
    refine ⟨⟨hb, hadm, hc⟩, ?_⟩
    rintro (e | response) -
    · exact ⟨h, Local.Grows.refl m, hb⟩
    · rw [Coro.chain_ok, Coro.wp_bind, wp_await]
      refine ⟨?_, ?_⟩
      · exact hb
      · rintro (e | idle) -
        · exact ⟨h, Local.Grows.refl m, hb⟩
        · exact ⟨h.learn rfl rfl (List.Subset.refl _), ⟨List.Subset.refl _, rfl⟩,
            hb.learn rfl rfl (List.Subset.refl _)⟩
  · rintro m' r f' ⟨h', hg, hb'⟩
    split
    · exact Leaves.raise _ h' hg
    · exact Leaves.grow hg (outcomeAfterError_safe claim locked h' hb')
    · rw [Coro.wp_ite]
      exact ⟨fun _ => Leaves.pure h' hg trivial, fun _ => Leaves.pure h' hg trivial⟩

theorem sendLocked_safe {r₀ : GameAccount} {p : PlanId} (claim : Claim)
    (locked : AccountService.LockedAccount) (h : Held a r₀ m f) (hadm : m.Admitted a)
    (hb : m.Bootstrapped a locked.api) (hpol : m.policy = some (a, locked.policy))
    (hread : ClaimRead a p m.planRow claim) (hfresh : claim.recovery = false) :
    (IdleExecuteUseCase.sendLocked P a claim locked : Tx T IdleExecuteUseCase.Outcome).wp
      (watch T P call) (Leaves a r₀ m fun _ _ _ => True) m f := by
  unfold IdleExecuteUseCase.sendLocked
  refine game_safe h (Local.Grows.refl m) hb ?_
  intro before h' hg
  unfold IdleExecutionClaims.owned
  refine Leaves.seq (Φ := fun m' _ f' => m' = { m with idle := some (a, before) } ∧ f' = f) ?_ ?_
  · refine Leaves.await h' hg nofun (fun _ => rfl) ?_
    intro plan _
    cases plan with
    | none => exact Leaves.pure h' hg ⟨rfl, rfl⟩
    | some plan => exact Leaves.pure h' hg ⟨rfl, rfl⟩
  · rintro m' owned f' h'' hg' ⟨rfl, rfl⟩
    rw [Coro.wp_ite]
    refine ⟨fun _ => Leaves.pure h'' hg' trivial, fun hok => ?_⟩
    simp only [not_or, ne_eq, not_not] at hok
    obtain ⟨-, hver, hfp⟩ := hok
    obtain ⟨hp, hrest⟩ := hread
    obtain ⟨plan, now, hrow, hacc, hvalid, hversion, hfingerprint⟩ := hrest hfresh
    refine Leaves.grow hg' (collect_safe claim locked before h''
      (hb.learn rfl rfl (List.Subset.refl _)) hadm ?_)
    rw [hp]
    exact ⟨locked.policy, plan, now, before, hpol, hrow, hacc, hvalid,
      hversion.trans hver.symm, rfl, hfp.trans hfingerprint.symm⟩

theorem proven_safe {r₀ : GameAccount} (claim : Claim) (locked : AccountService.LockedAccount)
    (h : Held a r₀ m f) (hb : m.Bootstrapped a locked.api) :
    (IdleExecuteUseCase.proven a claim locked : Tx T Bool).wp
      (watch T P call) (Leaves a r₀ m fun _ _ _ => True) m f := by
  unfold IdleExecuteUseCase.proven
  refine game_safe h (Local.Grows.refl m) hb ?_
  intro current h' hg
  exact Leaves.pure h' hg trivial

theorem requireReconciliation_safe (claim : Claim) (actor : Actor) (correlationId : String)
    (hm : m.Closed) :
    (IdleExecuteUseCase.requireReconciliation claim actor correlationId :
      Action T IdleExecution).wp (watch T P call) (fun _ _ _ => True) m () := by
  unfold IdleExecuteUseCase.requireReconciliation
  exact Coro.wp_seq (claimFinish_safe claim _ actor correlationId _ hm) (fun _ _ _ _ => trivial)
    fun _ _ _ _ => trivial

theorem settle_safe (claim : Claim) (actor : Actor) (correlationId : String)
    (outcome : IdleExecuteUseCase.Outcome) (hm : m.Closed) :
    (IdleExecuteUseCase.settle a claim actor correlationId outcome : Action T IdleExecution).wp
      (watch T P call) (fun _ _ _ => True) m () := by
  cases outcome with
  | reconciliationRequired => exact requireReconciliation_safe claim actor correlationId hm
  | preconditionFailed =>
    exact Coro.wp_seq (claimFinish_safe claim _ actor correlationId _ hm) (fun _ _ _ _ => trivial)
      fun _ _ _ _ => trivial
  | reconciled =>
    exact Coro.wp_seq (claimFinish_safe claim _ actor correlationId _ hm) (fun _ _ _ _ => trivial)
      fun _ _ _ _ => trivial
  | executed =>
    exact Coro.wp_seq (claimFinish_safe claim _ actor correlationId _ hm) (fun _ _ _ _ => trivial)
      fun _ _ _ _ => trivial

theorem executeGuarded_safe (p : PlanId) (actor : Actor) (correlationId : String)
    (recovery : Bool) (hcall : call.Ordinary) (hm : m.Closed) :
    (IdleExecuteUseCase.executeGuarded P a p actor correlationId recovery :
      Action T IdleExecution).wp (watch T P call) (fun _ _ _ => True) m () := by
  unfold IdleExecuteUseCase.executeGuarded
  refine Coro.wp_seq (claim_safe p actor correlationId recovery hm) ?_ fun _ _ _ _ => trivial
  intro m' claim s' hc
  obtain ⟨hm', hread⟩ := hc claim rfl
  rw [Coro.wp_ite]
  constructor
  · intro _
    unfold IdleExecuteUseCase.recover
    refine Coro.wp_seq (locked_safe (Φ := fun _ _ _ => True) actor hcall hm' ?_) ?_
      fun _ _ _ _ => trivial
    · intro m'' r₀ f'' locked h _ _ hb _
      exact proven_safe claim locked h hb
    · rintro m'' proven s'' ⟨hm'', -⟩
      rw [Coro.wp_ite]
      refine ⟨fun _ => ?_, fun _ => requireReconciliation_safe claim actor correlationId hm''⟩
      exact Coro.wp_seq (claimFinish_safe claim _ actor correlationId _ hm'')
        (fun _ _ _ _ => trivial) fun _ _ _ _ => trivial
  · intro hfresh
    unfold IdleExecuteUseCase.sendOnce
    refine Coro.wp_seq (locked_safe (Φ := fun _ _ _ => True) actor hcall hm' ?_) ?_
      fun _ _ _ _ => trivial
    · intro m'' r₀ f'' locked h hg hadm hb hpol
      exact sendLocked_safe claim locked h hadm hb hpol (hg.planRow ▸ hread) (by simpa using hfresh)
    · rintro m'' outcome s'' ⟨hm'', -⟩
      exact settle_safe claim actor correlationId outcome hm''

theorem execute_safe (p : PlanId) (actor : Actor) (correlationId : String)
    (recovery : Bool) (hcall : call.Ordinary) (hm : m.Closed) :
    (IdleExecuteUseCase.execute P a p actor correlationId recovery :
      Action T IdleExecution).wp (watch T P call) (fun _ _ _ => True) m () := by
  unfold IdleExecuteUseCase.execute
  refine (checks_requireIdentifier _).seq (fun _ => trivial) fun _ _ => ?_
  rw [Coro.wp_bind, wp_await]
  refine ⟨nofun, ?_⟩
  rintro (e | free) -
  · trivial
  · rw [Coro.chain_ok]
    refine (checks_raiseIf _ _).seq (fun _ => trivial) fun _ _ => ?_
    rw [Coro.wp_andFinally]
    refine Coro.wp_mono (executeGuarded_safe p actor correlationId recovery hcall hm) ?_
    intro m' r s' _
    rw [wp_await]
    exact ⟨nofun, fun r _ => by cases r <;> trivial⟩

end Idle

section Status

variable {T : Type} {P : Ports} {call : Call} {a : AccountId} {m : Local}

theorem accountStatus_safe (actor : Actor) (hcall : call.Ordinary) (hm : m.Closed) :
    (AccountStatusQuery.get P a actor : Action T AccountStatus).wp (watch T P call)
      (fun _ _ _ => True) m () := by
  unfold AccountStatusQuery.get
  refine Coro.wp_seq (snapshot_safe actor hcall hm) ?_ fun _ _ _ _ => trivial
  intro m' snapshot _ _
  split
  · trivial
  · unfold AccountService.get
    rw [Coro.wp_bind, Coro.wp_bind, wp_await]
    refine ⟨nofun, ?_⟩
    rintro (e | row) -
    · trivial
    · cases row <;> trivial

end Status

section Calls

variable {T : Type} {P : Ports}

def Call.Done (call : Call) (m : Local) (r : Except Exc (Returned T)) : Prop :=
  match call with
  | .disableDrainRemove a _ => ∀ x, r = .ok x → ∃ row, (a, row) ∈ m.committed ∧ row.Removed
  | _ => True

theorem returning_safe {call : Call} {α : Type} {wrap : α → Returned T} {c : Action T α}
    {Q : Local → Except Exc α → Unit → Prop} {m : Local} (h : c.wp (watch T P call) Q m ())
    (hcall : call.Ordinary) :
    (returning wrap c).wp (watch T P call) (fun m r _ => call.Done m r) m () := by
  have hdone : ∀ m (r : Except Exc (Returned T)), call.Done m r := by
    intro m r
    unfold Call.Done
    split
    · exact absurd rfl (hcall _ _)
    · trivial
  exact Coro.wp_seq h (fun m x s _ => hdone m _) fun m e s _ => hdone m _

theorem run_safe (call : Call) :
    (call.run P : Action T (Returned T)).wp (watch T P call) (fun m r _ => call.Done m r) {} () := by
  have hm : ({} : Local).Closed := ⟨rfl, rfl⟩
  by_cases hcall : call.Ordinary
  · cases call with
    | addCredentials => exact returning_safe (addCredentials_safe _ _ _ _ hm) hcall
    | addTokenOnly => exact returning_safe (addTokenOnly_safe _ _ _ hm) hcall
    | updateLabel => exact returning_safe (updateLabel_safe _ _ hcall hm) hcall
    | updateCredentials => exact returning_safe (updateCredentials_safe _ _ _ hcall hm) hcall
    | updateTokenOnly => exact returning_safe (updateTokenOnly_safe _ _ hcall hm) hcall
    | enable => exact returning_safe (setLifecycle_safe _ _ _ hcall hm) hcall
    | disable => exact returning_safe (setLifecycle_safe _ _ _ hcall hm) hcall
    | pause => exact returning_safe (pause_safe _ _ hm) hcall
    | resume => exact returning_safe (resume_safe _ hcall hm) hcall
    | disableDrainRemove a actor => exact absurd rfl (hcall a actor)
    | ensureSession => exact returning_safe (ensureSession_safe _ hcall hm) hcall
    | locked => exact returning_safe (lockedContext_safe _ hcall hm) hcall
    | snapshot => exact returning_safe (snapshot_safe _ hcall hm) hcall
    | mutate => exact returning_safe (mutate_safe _ hcall hm) hcall
    | savePolicy => exact returning_safe (savePolicy_safe _ _ _ hcall hm) hcall
    | accountStatus => exact returning_safe (accountStatus_safe _ hcall hm) hcall
    | preview => exact returning_safe (preview_safe _ _ hcall hm) hcall
    | execute => exact returning_safe (execute_safe _ _ _ _ hcall hm) hcall
    | createPlan row =>
      exact returning_safe (transaction_light (Φ := fun _ _ => True)
        (create_light row (Light.empty hm))) hcall
    | confirmPlan p a actor =>
      exact returning_safe (transaction_light (Φ := fun _ _ => True)
        (confirm_light p a actor (Light.empty hm) rfl)) hcall
    | markExecuting p expectedState =>
      exact returning_safe (transaction_light (Φ := fun _ _ => True)
        (markExecuting_light p expectedState (Light.empty hm) rfl)) hcall
    | finishPlan p status result =>
      exact returning_safe (transaction_light (Φ := fun _ _ => True)
        (finish_light p status result (Light.empty hm) rfl)) hcall
  · simp only [Call.Ordinary, not_forall, not_not] at hcall
    obtain ⟨a, actor, rfl⟩ := hcall
    refine Coro.wp_seq (disableDrainRemove_safe hm) ?_ ?_
    · intro m' receipt s' hr x _
      exact hr.2 receipt rfl
    · intro m' e s' _ x hx
      cases hx

theorem watched : Reachable.Watched (machine T P) (watch T P) Call.Done where
  prog call := Coro.wp_toProc.mpr (run_safe call)
  ans _ _ _ _ _ _ hw _ := perform_answers hw

end Calls

end PlaceGame
