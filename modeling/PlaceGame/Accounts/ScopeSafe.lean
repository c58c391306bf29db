import PlaceGame.Accounts.Safety
import PlaceGame.Accounts.Scope

/-!
# PlaceGame.Accounts.ScopeSafe

Every call stays within its scope.
-/

namespace PlaceGame

open Coop

variable {T α : Type}

namespace Scope

/-- The account object of a session: not loaded, the locked row with its policy version, or a new
row. -/
inductive Loads (call : Call) (m : Scope) (f : Frame) : Prop where
  | unloaded (loaded : f.loaded = none) (row : m.seen.row = none)
  | row {a : AccountId} {r₀ : GameAccount} (loaded : f.loaded = some a)
      (account : call.accountId = some a) (row : m.seen.row = some (a, r₀))
      (version : f.record.policyVersion = r₀.policyVersion)
  | enrolled {a : AccountId} (loaded : f.loaded = some a) (account : call.accountId = none)
      (fresh : m.seen.fresh = some a) (version : f.record.policyVersion = 1)

/-- The session holds nothing that the call may not write. -/
structure Within (call : Call) (known : List (PlanId × AccountId)) (m : Scope) (f : Frame) :
    Prop where
  account : Loads call m f
  policy : f.policy = none
  plans : ∀ e ∈ f.plans, call.ByPlan ∨ ∃ a, call.accountId = some a ∧ (e.1, a) ∈ m.plans
  newPlan : ∀ id plan, f.newPlan = some (id, plan) → call.accountId = some plan.accountId
  jobs : ∀ id ∈ f.disabledJobs, ∃ a, call.accountId = some a ∧ (id, a) ∈ m.jobs
  snapshots : ∀ row ∈ f.snapshots, call.accountId = some row.accountId
  validated : ∀ p, f.validatedPlanId = some p → ∃ a, call.accountId = some a ∧ (p, a) ∈ m.plans
  known : known ⊆ m.plans

structure Out (known : List (PlanId × AccountId)) (m : Scope) : Prop where
  row : m.seen.row = none
  known : known ⊆ m.plans

variable {call : Call} {known : List (PlanId × AccountId)} {m m' : Scope} {f f' : Frame}

theorem Within.begins (h : Out known m) : Within call known m {} where
  account := .unloaded rfl h.row
  policy := rfl
  plans _ he := absurd he List.not_mem_nil
  newPlan _ _ hn := by cases hn
  jobs _ he := absurd he List.not_mem_nil
  snapshots _ he := absurd he List.not_mem_nil
  validated _ hv := by cases hv
  known := h.known

/-- The monitor moves on without a lock, a new identifier or an end. -/
theorem Within.move (h : Within call known m f) (hrow : m'.seen.row = m.seen.row)
    (hfresh : m'.seen.fresh = m.seen.fresh) (hp : m.plans ⊆ m'.plans) (hj : m.jobs ⊆ m'.jobs) :
    Within call known m' f where
  account := by
    cases h.account with
    | unloaded hl hr => exact .unloaded hl (hrow.trans hr)
    | row hl ha hr hv => exact .row hl ha (hrow.trans hr) hv
    | enrolled hl ha hf hv => exact .enrolled hl ha (hfresh.trans hf) hv
  policy := h.policy
  plans e he := (h.plans e he).imp id fun ⟨a, ha, hmem⟩ => ⟨a, ha, hp hmem⟩
  newPlan := h.newPlan
  jobs id hid := let ⟨a, ha, hmem⟩ := h.jobs id hid; ⟨a, ha, hj hmem⟩
  snapshots := h.snapshots
  validated p hv := let ⟨a, ha, hmem⟩ := h.validated p hv; ⟨a, ha, hp hmem⟩
  known := fun _ he => hp (h.known he)

theorem Within.next (h : Within call known m f) {o : Op T} (hl : ∀ a, o ≠ .accountForUpdate a)
    (hu : o ≠ .uuid) (he : o.ends = false) (r : Except Exc o.Val) :
    Within call known (m.next o r) f :=
  h.move (Local.next_row hl he r) (Local.next_fresh hu he r) (plans_subset o r) (jobs_subset o r)

theorem Within.frame (h : Within call known m f) (ha : Loads call m f')
    (hp : f'.policy = f.policy) (hps : f'.plans = f.plans) (hn : f'.newPlan = f.newPlan)
    (hj : f'.disabledJobs = f.disabledJobs) (hs : f'.snapshots = f.snapshots)
    (hv : f'.validatedPlanId = f.validatedPlanId) : Within call known m f' where
  account := ha
  policy := hp.trans h.policy
  plans := hps ▸ h.plans
  newPlan := hn ▸ h.newPlan
  jobs := hj ▸ h.jobs
  snapshots := hs ▸ h.snapshots
  validated := hv ▸ h.validated
  known := h.known

theorem Loads.edit (h : Loads call m f) (hl : f'.loaded = f.loaded)
    (hv : f'.record.policyVersion = f.record.policyVersion) : Loads call m f' := by
  cases h with
  | unloaded hload hr => exact .unloaded (hl.trans hload) hr
  | row hload ha hr hver => exact .row (hl.trans hload) ha hr (hv.trans hver)
  | enrolled hload ha hf hver => exact .enrolled (hl.trans hload) ha hf (hv.trans hver)

theorem Within.commits (h : Within call known m f) : m.CommitOk call f.writes where
  account a r hw := by
    obtain ⟨b, hb, heq⟩ := Option.map_eq_some_iff.mp hw
    cases heq
    cases h.account with
    | unloaded hl _ => rw [hl] at hb; cases hb
    | row hl ha hr hv => rw [hl] at hb; cases hb; exact .kept ha hr hv h.policy
    | enrolled hl ha hf hv => rw [hl] at hb; cases hb; exact .enrols ha hf hv h.policy
  policy _ := h.policy
  plans := h.plans
  newPlan := h.newPlan
  jobs := h.jobs
  snapshots := h.snapshots

theorem Out.ended (h : known ⊆ m.plans) {o : Op T} (he : o.ends = true) (r : Except Exc o.Val) :
    Out known (m.next o r) where
  row := by
    rw [next_seen]
    cases o <;> simp [Op.ends] at he <;> cases r <;> rfl
  known := fun _ hk => plans_subset o r (h hk)

theorem Out.next (h : Out known m) {o : Op T} (hl : ∀ a, o ≠ .accountForUpdate a)
    (he : o.ends = false) (r : Except Exc o.Val) : Out known (m.next o r) where
  row := (Local.next_row hl he r).trans h.row
  known := fun _ hk => plans_subset o r (h.known hk)

theorem Op.Free.apart {o : Op T} (h : o.Free) :
    (∀ a, o ≠ .accountForUpdate a) ∧ o ≠ .uuid ∧ o.ends = false := by
  cases o <;> first | exact h.elim | exact ⟨nofun, nofun, rfl⟩

theorem ok_free {o : Op T} (h : o.Free) : m.ok call o := by
  cases o <;> first | exact h.elim | exact trivial

theorem sessions : Sessions (scope T call) (Within call known) (Out known) where
  begins _ := Within.begins
  inside m f o ho h := by
    obtain ⟨hl, hu, he⟩ := Op.Free.apart ho
    exact ⟨ok_free ho, fun r _ => h.next hl hu he r⟩
  between m o ho h := by
    obtain ⟨hl, -, he⟩ := Op.Free.apart ho
    exact ⟨ok_free ho, fun r _ => h.next hl he r⟩
  commits m f h := ⟨h.commits, fun r _ => Out.ended (o := Op.commit f.writes) h.known rfl r⟩
  abandons m f h := ⟨trivial, fun r _ => Out.ended (o := Op.rollback) h.known rfl r⟩
  rolls m h := ⟨trivial, fun r _ => Out.ended (o := Op.rollback) h.known rfl r⟩

variable {a : AccountId}

/-- The account row is locked: the session keeps the object of the first time. -/
theorem Within.locked (ha : call.accountId = some a) (h : Within call known m f)
    (r : Except Exc (Option GameAccount)) :
    Within call known (m.next (Op.accountForUpdate (T := T) a) r) (f.locked a r) := by
  cases r with
  | error e => exact h
  | ok found =>
    cases found with
    | none => exact h
    | some row =>
      have hmove : ∀ {f' : Frame}, Loads call (m.next (Op.accountForUpdate (T := T) a) (.ok (some row))) f' →
          f'.policy = f.policy → f'.plans = f.plans → f'.newPlan = f.newPlan →
          f'.disabledJobs = f.disabledJobs → f'.snapshots = f.snapshots →
          f'.validatedPlanId = f.validatedPlanId →
          Within call known (m.next (Op.accountForUpdate (T := T) a) (.ok (some row))) f' :=
        fun hl hp hps hn hj hs hv => ⟨hl, hp.trans h.policy, hps ▸ h.plans, hn ▸ h.newPlan,
          hj ▸ h.jobs, hs ▸ h.snapshots, hv ▸ h.validated, h.known⟩
      cases h.account with
      | unloaded hl hr =>
        have hf : f.locked a (.ok (some row)) = { f with loaded := some a, record := row } := by
          simp [Frame.locked, hl]
        rw [hf]
        refine hmove (.row rfl ha ?_ rfl) rfl rfl rfl rfl rfl rfl
        simp [next_seen, Local.next, Local.lockedRow, hr]
      | row hl hb hr hv =>
        cases ha.symm.trans hb
        have hf : f.locked a (.ok (some row)) = f := by simp [Frame.locked, hl]
        rw [hf]
        refine hmove (.row hl ha ?_ hv) rfl rfl rfl rfl rfl rfl
        simp [next_seen, Local.next, Local.lockedRow, hr]
      | enrolled _ hb _ _ =>
        rw [ha] at hb
        cases hb

theorem tame (ha : call.accountId = some a) :
    Frame.Tame a fun f f' => ∀ m, Within call known m f → Within call known m f' where
  refl _ _ h := h
  trans _ _ _ h h' m hw := h' m (h m hw)
  record f g hg m h := h.frame (h.account.edit rfl (hg f.record)) rfl rfl rfl rfl rfl rfl
  token f token g hg m h := h.frame (h.account.edit rfl (hg f.record)) rfl rfl rfl rfl rfl rfl
  audit f event _ m h := h.frame (h.account.edit rfl rfl) rfl rfl rfl rfl rfl rfl
  snapshot f row hrow m h :=
    { h with
      account := h.account.edit rfl rfl
      snapshots := by
        intro row' hmem
        rcases List.mem_append.mp hmem with hmem | hmem
        · exact h.snapshots row' hmem
        · rw [List.mem_singleton.mp hmem, hrow]
          exact ha }

theorem accountSessions (ha : call.accountId = some a) :
    AccountSessions (scope T call) a (Within call known) (Out known) where
  toSessions := sessions
  tame := tame ha
  locks _ _ h := ⟨trivial, fun r _ => h.locked ha r⟩

section Entries

open AccountService

variable (actor : Actor)

theorem stable_audit (accountId : Option AccountId) (action : String) (result : Json)
    (before after : Option Json) (planId : Option PlanId) :
    Stable (scope T call) (Within call known)
      (audit actor accountId action result before after planId : Tx T Unit) :=
  stable_modifyFrame fun _ _ h => h.frame (h.account.edit rfl rfl) rfl rfl rfl rfl rfl rfl

theorem Within.enrol (hc : call.accountId = none) (h : Within call known m f) (id : Nat)
    {record : GameAccount} (hv : record.policyVersion = 1) (identity token : String) :
    Within call known (m.next (Op.uuid (T := T)) (.ok id))
      { f with
        loaded := some id
        record := { record with gameAccountId := some identity, sessionToken := some token }
        sessionToken := some (some token) } where
  account := .enrolled rfl hc rfl hv
  policy := h.policy
  plans := h.plans
  newPlan := h.newPlan
  jobs := h.jobs
  snapshots := h.snapshots
  validated := h.validated
  known := h.known

theorem enrols (hc : call.accountId = none) :
    Enrols (T := T) (scope T call) (Within call known) actor := by
  intro record token identity action hv _
  have hs : Sessions (scope T call) (Within call known) (Out known) := sessions
  have hconflict : ∀ existing reason, Stable (scope T call) (Within call known) (do
      conflict actor existing reason; return none : Tx T (Option ManagedAccount)) := fun _ _ =>
    Stable.bind (stable_audit actor _ _ _ _ _ _) fun _ => Stable.pure _
  unfold enroll
  refine Stable.bind (hs.await trivial) fun _ => Stable.bind (hs.await trivial) fun _ => ?_
  refine Stable.ite _ (hconflict _ _) (Stable.bind (hs.await trivial) fun existing => ?_)
  split
  · exact hconflict _ _
  · intro m f h
    rw [Coro.wp_bind, wp_await]
    refine ⟨trivial, fun r _ => ?_⟩
    cases r with
    | error e => exact h
    | ok id =>
      rw [Coro.chain_ok]
      dsimp only
      rw [Coro.wp_bind, wp_modifyFrame, Coro.chain_ok]
      suffices hrest : Stable (scope T call) (Within call known) _ from
        hrest _ _ (h.enrol hc id hv identity token)
      refine Stable.bind (hs.await trivial) fun _ => Stable.ite _ ?_ (Stable.raise _)
      exact Stable.bind (stable_audit actor _ _ _ _ _ _) fun _ => Stable.pure _

/-- The removal disables the jobs that it has read for its account. -/
theorem drainRemoval_scope (ha : call.accountId = some a) :
    Stable (scope T call) (Within call known) (drainRemoval a actor : Tx T RemovalReceipt) := by
  have hs : AccountSessions (scope T call) a (Within call known) (Out known) := accountSessions ha
  unfold drainRemoval
  refine Stable.bind hs.lockAccount fun _ => ?_
  intro m f h
  rw [Coro.wp_bind, wp_await]
  refine ⟨trivial, fun r _ => ?_⟩
  cases r with
  | error e => exact h
  | ok ids =>
    have hnext : Within call known (m.next (Op.enabledJobs (T := T) a) (.ok ids)) f :=
      Within.next h (o := Op.enabledJobs a) nofun nofun rfl (.ok ids)
    have hjobs : Within call known (m.next (Op.enabledJobs (T := T) a) (.ok ids))
        { f with disabledJobs := ids } :=
      { hnext with
        account := hnext.account.edit rfl rfl
        jobs := fun id hid =>
          ⟨a, ha, List.mem_append_left _ (List.mem_map.mpr ⟨id, hid, rfl⟩)⟩ }
    rw [Coro.chain_ok, Coro.wp_bind, wp_modifyFrame, Coro.chain_ok]
    suffices hrest : Stable (scope T call) (Within call known) _ from hrest _ _ hjobs
    refine Stable.bind (hs.quiet (Plain.writeToken none fun _ => rfl)) fun _ => ?_
    exact Stable.bind (stable_audit actor _ _ _ _ _ _) fun _ =>
      Stable.bind (hs.await trivial) fun _ => Stable.pure _

end Entries

section Plans

def Owned (call : Call) (known : List (PlanId × AccountId)) (p : PlanId) : Prop :=
  call.ByPlan ∨ ∃ a, call.accountId = some a ∧ (p, a) ∈ known

theorem ok_running {o : Op T} (he : o.ends = false) : m.ok call o := by
  cases o <;> first | exact trivial | cases he

theorem stable_await {o : Op T} (hl : ∀ a, o ≠ .accountForUpdate a) (hu : o ≠ .uuid)
    (he : o.ends = false) :
    Stable (scope T call) (Within call known) (await o : Tx T o.Val) :=
  Stable.await fun _ _ h => ⟨ok_running he, fun r _ => h.next hl hu he r⟩

theorem stable_between {o : Op T} (hl : ∀ a, o ≠ .accountForUpdate a) (he : o.ends = false) :
    Stable (scope T call) (Sessions.Idle (Out known)) (await o : Action T o.Val) :=
  Stable.await fun _ _ h => ⟨ok_running he, fun r _ => h.next hl he r⟩

theorem Within.plan (h : Within call known m f) (plan : Option ActionPlan) :
    Within call known m { f with plan := plan } :=
  h.frame (h.account.edit rfl rfl) rfl rfl rfl rfl rfl rfl

theorem loadForUpdate_scope (p : PlanId) (accountId : Option AccountId) :
    Stable (scope T call) (Within call known)
      (PlanStore.loadForUpdate p accountId : Tx T ActionPlan) := by
  unfold PlanStore.loadForUpdate
  refine Stable.bind (stable_await nofun nofun rfl) fun found => ?_
  split
  · exact Stable.raise _
  · refine Stable.bind stable_frame fun f₀ => ?_
    dsimp only
    exact Stable.bind (stable_modifyFrame fun _ _ h => h.plan _) fun _ => Stable.pure _

theorem update_scope {p : PlanId} (ho : Owned call known p) (u : PlanUpdate) :
    Stable (scope T call) (Within call known) (PlanStore.update p u : Tx T Unit) := by
  refine stable_modifyFrame fun m f h =>
    { h with account := h.account.edit rfl rfl, plans := ?_ }
  intro e he
  rcases List.mem_append.mp he with he | he
  · exact h.plans e he
  · rw [List.mem_singleton.mp he]
    exact ho.imp id fun ⟨a, ha, hmem⟩ => ⟨a, ha, h.known hmem⟩

theorem flush_scope : Stable (scope T call) (Within call known) (await .flush : Tx T Unit) :=
  stable_await nofun nofun rfl

theorem clock_scope : Stable (scope T call) (Within call known) (clock : Tx T Time) :=
  stable_await (o := .clock) nofun nofun rfl

theorem finish_scope {p : PlanId} (ho : Owned call known p) (status : PlanState)
    (result : List (String × Json)) :
    Stable (scope T call) (Within call known) (PlanStore.finish p status result : Tx T Unit) :=
  Stable.bind (Stable.raiseIf _ _) fun _ => Stable.bind (loadForUpdate_scope p none) fun _ =>
    Stable.bind (Stable.raiseIf _ _) fun _ => Stable.bind clock_scope fun _ =>
      Stable.bind (update_scope ho _) fun _ => flush_scope

theorem markExecuting_scope {p : PlanId} (ho : Owned call known p) (expected : PlanState) :
    Stable (scope T call) (Within call known) (PlanStore.markExecuting p expected : Tx T Unit) :=
  Stable.bind (Stable.raiseIf _ _) fun _ => Stable.bind (loadForUpdate_scope p none) fun _ =>
    Stable.bind (Stable.raiseIf _ _) fun _ => Stable.bind clock_scope fun _ =>
      Stable.bind (Stable.raiseIf _ _) fun _ => Stable.bind (update_scope ho _) fun _ => flush_scope

/-- A plan that is selected for the account of the call may be written by it. -/
theorem loadOwned_scope (p : PlanId) (h : Within call known m f) :
    (PlanStore.loadForUpdate p (some a) : Tx T ActionPlan).wp (scope T call)
      (fun m' r f' => Within call known m' f' ∧
        ∀ plan, r = .ok plan → Within call ((p, a) :: known) m' f') m f := by
  have hnext : ∀ r, Within call known (m.next (Op.planForUpdate (T := T) p (some a)) r) f := fun r =>
    Within.next h (o := Op.planForUpdate p (some a)) nofun nofun rfl r
  unfold PlanStore.loadForUpdate
  rw [Coro.wp_bind, wp_await]
  refine ⟨trivial, fun r hr => ?_⟩
  cases r with
  | error e =>
    rw [Coro.chain_error]
    exact ⟨hnext (.error e), fun _ hp => by cases hp⟩
  | ok found =>
    rw [Coro.chain_ok]
    cases found with
    | none =>
      rw [wp_raise]
      exact ⟨hnext (.ok none), fun _ hp => by cases hp⟩
    | some plan =>
      have howner : plan.accountId = a := hr.1
      have hW := (hnext (.ok (some plan))).plan (some (f.plan.getD plan))
      dsimp only
      rw [Coro.wp_bind, wp_frame, Coro.chain_ok, Coro.wp_bind, wp_modifyFrame, Coro.chain_ok]
      refine ⟨hW, fun _ _ => { hW with known := List.cons_subset.mpr ⟨?_, hW.known⟩ }⟩
      rw [← howner]
      exact List.mem_cons_self

theorem addAudit_scope (event : AuditEvent) :
    Stable (scope T call) (Within call known) (addAudit event : Tx T Unit) :=
  stable_modifyFrame fun _ _ h => h.frame (h.account.edit rfl rfl) rfl rfl rfl rfl rfl rfl

theorem Within.weaken {e : PlanId × AccountId} (h : Within call (e :: known) m f) :
    Within call known m f :=
  { h with known := (List.cons_subset.mp h.known).2 }

theorem claimRow_scope (ha : call.accountId = some a) (p : PlanId) (owner : Nat) (now : Time)
    (actor source correlationId : String) (recovery : Bool) (h : Within call known m f) :
    (IdleExecutionClaims.claimRow a p owner now actor source correlationId recovery :
      Tx T Claim).wp (scope T call)
      (fun m' r f' => Within call known m' f' ∧
        ∀ claim, r = .ok claim → claim.planId = p ∧ Within call ((p, a) :: known) m' f') m f := by
  have hown : Owned call ((p, a) :: known) p := .inr ⟨a, ha, List.mem_cons_self⟩
  unfold IdleExecutionClaims.claimRow
  refine Coro.wp_seq (loadOwned_scope p h) ?_ ?_
  · rintro m' plan f' ⟨-, hk⟩
    have hrest : ∀ c : Tx T Claim, Stable (scope T call) (Within call ((p, a) :: known)) c →
        Coro.Returns (fun claim : Claim => claim.planId = p) c →
        c.wp (scope T call) (fun m' r f' => Within call known m' f' ∧
          ∀ claim, r = .ok claim → claim.planId = p ∧ Within call ((p, a) :: known) m' f')
          m' f' := by
      intro c hc hret
      refine Coro.wp_mono (hret.wp (hc m' f' (hk plan rfl))) ?_
      exact fun _ _ _ hr => ⟨hr.1.weaken, fun claim heq => ⟨hr.2 claim heq, hr.1⟩⟩
    refine hrest _ (Stable.ite _ ?_ ?_) ?_
    · exact Stable.bind (Stable.raiseIf _ _) fun _ => Stable.bind (Stable.raiseIf _ _) fun _ =>
        Stable.bind (update_scope hown _) fun _ => Stable.bind (addAudit_scope _) fun _ =>
          Stable.pure _
    · exact Stable.bind (Stable.raiseIf _ _) fun _ => Stable.bind (update_scope hown _) fun _ =>
        Stable.bind (addAudit_scope _) fun _ => Stable.pure _
    · split
      · exact Coro.Returns.last fun _ => Coro.Returns.last fun _ => Coro.Returns.last fun _ =>
          Coro.Returns.last fun _ => Coro.Returns.pure rfl
      · exact Coro.Returns.last fun _ => Coro.Returns.last fun _ => Coro.Returns.last fun _ =>
          Coro.Returns.pure rfl
  · rintro m' e f' ⟨h', -⟩
    exact ⟨h', fun _ hc => by cases hc⟩

theorem auditActor_scope (actor : Actor) :
    Stable (scope T call) (Sessions.Idle (Out known)) (auditActor actor : Action T (String × String)) :=
  Stable.bind (Stable.raiseIf _ _) fun _ => Stable.bind (Stable.raiseIf _ _) fun _ =>
    Stable.bind (Stable.raiseIf _ _) fun _ => Stable.pure _

theorem Out.weaken {e : PlanId × AccountId} (h : Out (e :: known) m) : Out known m :=
  { h with known := (List.cons_subset.mp h.known).2 }

theorem claim_scope (ha : call.accountId = some a) (p : PlanId) (actor : Actor)
    (correlationId : String) (recovery : Bool) (h : Out known m) :
    (IdleExecutionClaims.claim a p actor correlationId recovery : Action T Claim).wp (scope T call)
      (fun m' r _ => Out known m' ∧
        ∀ claim, r = .ok claim → claim.planId = p ∧ Out ((p, a) :: known) m') m () := by
  have hpre : ∀ {β : Type} {c : Action T β} {g : β → Action T Claim} {m : Scope}, Out known m →
      Stable (scope T call) (Sessions.Idle (Out known)) c →
      (∀ m' x, Out known m' → (g x).wp (scope T call)
        (fun m' r _ => Out known m' ∧
          ∀ claim, r = .ok claim → claim.planId = p ∧ Out ((p, a) :: known) m') m' ()) →
      (c >>= g).wp (scope T call)
        (fun m' r _ => Out known m' ∧
          ∀ claim, r = .ok claim → claim.planId = p ∧ Out ((p, a) :: known) m') m () := by
    intro β c g m hm hc hg
    exact Coro.wp_seq (hc m () hm) (fun m' x _ h' => hg m' x h')
      fun _ _ _ h' => ⟨h', fun _ hr => by cases hr⟩
  unfold IdleExecutionClaims.claim
  refine hpre h (Stable.raiseIf _ _) fun m _ h => hpre h (stable_between nofun rfl) fun m owner h => ?_
  refine hpre h (stable_between (o := .clock) nofun rfl) fun m now h => ?_
  refine hpre h (auditActor_scope actor) fun m source h => ?_
  refine wp_transaction
    (claimRow_scope ha p owner now source.1 source.2 correlationId recovery (Within.begins h)) ?_ ?_
  · intro m' claim f hW
    obtain ⟨hW, hclaim⟩ := hW
    refine ⟨hW.commits, fun r _ => ?_⟩
    obtain ⟨hp, hK⟩ := hclaim claim rfl
    have hout : Out ((p, a) :: known) (m'.next (Op.commit (T := T) f.writes) r) :=
      Out.ended (o := Op.commit f.writes) hK.known rfl r
    cases r with
    | ok _ =>
      refine ⟨hout.weaken, ?_⟩
      rintro _ ⟨⟩
      exact ⟨hp, hout⟩
    | error e =>
      refine ⟨trivial, fun r' _ => ?_⟩
      have hout' := Out.ended (o := Op.rollback (T := T)) hout.weaken.known rfl r'
      cases r' <;> exact ⟨hout', fun _ hr => by cases hr⟩
  · intro m' e f hW
    refine ⟨trivial, fun r' _ => ?_⟩
    have hout' := Out.ended (o := Op.rollback (T := T)) hW.1.known rfl r'
    cases r' <;> exact ⟨hout', fun _ hr => by cases hr⟩

theorem claimFinish_scope {claim : Claim} (ho : Owned call known claim.planId) (state : PlanState)
    (actor : Actor) (correlationId : String) (result : Json) :
    Stable (scope T call) (Sessions.Idle (Out known))
      (IdleExecutionClaims.finish claim state actor correlationId result : Action T Unit) := by
  refine Stable.bind (auditActor_scope actor) fun source => sessions.transaction ?_
  unfold IdleExecutionClaims.finishRow
  refine Stable.bind (loadForUpdate_scope _ _) fun plan => Stable.bind (Stable.raiseIf _ _) fun _ => ?_
  exact Stable.bind clock_scope fun _ => Stable.bind (update_scope ho _) fun _ => addAudit_scope _

variable (P : Ports)

theorem idleSummary_scope (a : AccountId) (api : GameApi) :
    Stable (scope T call) (Within call known) (await (.idleSummary a api) : Tx T IdleSummary) :=
  stable_await nofun nofun rfl

theorem collect_scope (claim : Claim) (locked : AccountService.LockedAccount)
    (before : IdleSummary) :
    Stable (scope T call) (Within call known)
      (IdleExecuteUseCase.collect a claim locked before : Tx T IdleExecuteUseCase.Outcome) := by
  unfold IdleExecuteUseCase.collect
  refine Stable.bind (Stable.attempt ?_) fun r => ?_
  · exact Stable.bind (stable_await nofun nofun rfl) fun _ =>
      Stable.bind (idleSummary_scope _ _) fun _ => Stable.pure _
  · split
    · exact Stable.raise _
    · unfold IdleExecuteUseCase.outcomeAfterError
      refine Stable.bind (Stable.attempt (idleSummary_scope _ _)) fun r => ?_
      split
      · exact Stable.raise _
      · exact Stable.pure _
      · exact Stable.ite _ (Stable.pure _) (Stable.pure _)
    · exact Stable.ite _ (Stable.pure _) (Stable.pure _)

theorem sendLocked_scope (claim : Claim) (locked : AccountService.LockedAccount) :
    Stable (scope T call) (Within call known)
      (IdleExecuteUseCase.sendLocked P a claim locked : Tx T IdleExecuteUseCase.Outcome) := by
  unfold IdleExecuteUseCase.sendLocked
  refine Stable.bind (idleSummary_scope _ _) fun before => Stable.bind ?_ fun owned => ?_
  · unfold IdleExecutionClaims.owned
    refine Stable.bind (stable_await nofun nofun rfl) fun plan => ?_
    split
    · exact Stable.pure _
    · exact Stable.pure _
  · exact Stable.ite _ (Stable.pure _) (collect_scope _ _ _)

theorem requireReconciliation_scope {claim : Claim} (ho : Owned call known claim.planId)
    (actor : Actor) (correlationId : String) :
    Stable (scope T call) (Sessions.Idle (Out known))
      (IdleExecuteUseCase.requireReconciliation claim actor correlationId :
        Action T IdleExecution) :=
  Stable.bind (claimFinish_scope ho _ _ _ _) fun _ => Stable.raise _

theorem sendOnce_scope (ha : call.accountId = some a) {claim : Claim}
    (ho : Owned call known claim.planId) (actor : Actor) (correlationId : String) :
    Stable (scope T call) (Sessions.Idle (Out known))
      (IdleExecuteUseCase.sendOnce P a claim actor correlationId : Action T IdleExecution) := by
  refine Stable.bind
    (locked_stable P actor (accountSessions ha) fun _ => sendLocked_scope P claim _) fun outcome => ?_
  cases outcome with
  | preconditionFailed =>
    exact Stable.bind (claimFinish_scope ho _ _ _ _) fun _ => Stable.raise _
  | reconciliationRequired => exact requireReconciliation_scope ho actor correlationId
  | reconciled => exact Stable.bind (claimFinish_scope ho _ _ _ _) fun _ => Stable.pure _
  | executed => exact Stable.bind (claimFinish_scope ho _ _ _ _) fun _ => Stable.pure _

theorem recover_scope (ha : call.accountId = some a) {claim : Claim}
    (ho : Owned call known claim.planId) (actor : Actor) (correlationId : String) :
    Stable (scope T call) (Sessions.Idle (Out known))
      (IdleExecuteUseCase.recover P a claim actor correlationId : Action T IdleExecution) := by
  refine Stable.bind (locked_stable P actor (accountSessions ha) fun _ =>
    Stable.bind (idleSummary_scope _ _) fun _ => Stable.pure _) fun proven => ?_
  refine Stable.ite _ ?_ (requireReconciliation_scope ho actor correlationId)
  exact Stable.bind (claimFinish_scope ho _ _ _ _) fun _ => Stable.pure _

theorem execute_scope (ha : call.accountId = some a) (p : PlanId) (actor : Actor)
    (correlationId : String) (recovery : Bool) :
    Stable (scope T call) (Sessions.Idle (Out known))
      (IdleExecuteUseCase.execute P a p actor correlationId recovery : Action T IdleExecution) := by
  have hunlock : Stable (scope T call) (Sessions.Idle (Out known))
      (await (.executionUnlock a) : Action T Unit) := stable_between nofun rfl
  unfold IdleExecuteUseCase.execute
  refine Stable.bind (Stable.raiseIf _ _) fun _ => ?_
  refine Stable.bind (stable_between nofun rfl) fun guard => Stable.bind (Stable.raiseIf _ _) fun _ => ?_
  intro m _ h
  rw [Coro.wp_andFinally]
  have hguarded : (IdleExecuteUseCase.executeGuarded P a p actor correlationId recovery :
      Action T IdleExecution).wp (scope T call) (fun m' _ _ => Out known m') m () := by
    refine Coro.wp_seq (claim_scope ha p actor correlationId recovery h) ?_ fun _ _ _ h' => h'.1
    rintro m' claim _ ⟨-, hclaim⟩
    obtain ⟨hp, hout⟩ := hclaim claim rfl
    have ho : Owned call ((p, a) :: known) claim.planId := by
      rw [hp]
      exact .inr ⟨a, ha, List.mem_cons_self⟩
    have hrest := Stable.ite (claim.recovery = true)
      (recover_scope (T := T) P ha ho actor correlationId) (sendOnce_scope P ha ho actor correlationId)
    exact Coro.wp_mono (hrest m' () hout) fun _ _ _ h' => h'.weaken
  refine Coro.wp_mono hguarded fun m' r s h' => Coro.wp_mono (hunlock m' s h') ?_
  intro m'' r' s' h''
  cases r' <;> exact h''

theorem Within.draw (ha : call.accountId = some a) (h : Within call known m f) (r : Except Exc Nat) :
    Within call known (m.next (Op.uuid (T := T)) r) f := by
  cases r with
  | error e => exact h
  | ok id =>
    refine { h with account := ?_ }
    cases h.account with
    | unloaded hl hr => exact .unloaded hl hr
    | row hl hb hr hv => exact .row hl hb hr hv
    | enrolled _ hb _ _ =>
      rw [ha] at hb
      cases hb

theorem newPlan_scope (ha : call.accountId = some a) {plan : ActionPlan} (hp : plan.accountId = a)
    {c : Nat → Tx T α} (hc : ∀ id, Stable (scope T call) (Within call known) (c id)) :
    Stable (scope T call) (Within call known) (do
      let id ← await .uuid
      modifyFrame fun f => { f with newPlan := some (id, plan) }
      c id : Tx T α) := by
  refine Stable.bind (Stable.await fun _ _ h => ⟨trivial, fun r _ => h.draw ha r⟩) fun id => ?_
  refine Stable.bind (stable_modifyFrame fun _ _ h =>
    { h with account := h.account.edit rfl rfl, newPlan := ?_ }) fun _ => hc id
  rintro _ _ ⟨⟩
  rw [hp]
  exact ha

theorem savePreview_scope (ha : call.accountId = some a) {draft : Option ActionPlanDraft}
    (hd : ∀ d, draft = some d → d.accountId = a) (actor : Actor) (correlationId : String)
    (preview : Json) :
    Stable (scope T call) (Sessions.Idle (Out known))
      (IdlePreviewStore.save draft a actor correlationId preview : Action T (Option PlanId)) := by
  unfold IdlePreviewStore.save
  refine Stable.bind (Stable.raiseIf _ _) fun _ => Stable.bind (auditActor_scope actor) fun source => ?_
  refine sessions.transaction (Stable.bind ?_ fun _ => Stable.bind (addAudit_scope _) fun _ =>
    Stable.pure _)
  cases draft with
  | none => exact Stable.pure _
  | some draft =>
    exact newPlan_scope ha (hd draft rfl) fun _ => Stable.bind flush_scope fun _ => Stable.pure _

theorem preview_scope (ha : call.accountId = some a) (actor : Actor) (correlationId : String) :
    Stable (scope T call) (Sessions.Idle (Out known))
      (IdlePlanUseCase.preview P a actor correlationId : Action T IdlePreview) := by
  unfold IdlePlanUseCase.preview
  refine Stable.bind (Stable.raiseIf _ _) fun _ => ?_
  intro m _ h
  have hlocked : Stable (scope T call) (Sessions.Idle (Out known))
      (AccountService.locked P a actor (IdlePlanUseCase.draftLocked P a)) :=
    locked_stable P actor (accountSessions ha) fun _ =>
      Stable.bind (idleSummary_scope _ _) fun _ => Stable.bind clock_scope fun _ => Stable.pure _
  have hdraft : Coro.Returns (fun out : IdleSummary × AccountPolicy × Option ActionPlanDraft =>
      ∀ draft, out.2.2 = some draft → draft.accountId = a)
      (AccountService.locked P a actor (IdlePlanUseCase.draftLocked P a) :
        Action T (IdleSummary × AccountPolicy × Option ActionPlanDraft)) := by
    refine locked_returns P a actor fun locked => Coro.Returns.last fun idle =>
      Coro.Returns.last fun now => Coro.Returns.pure ?_
    intro draft hd
    unfold IdlePlanner.draft at hd
    split at hd <;> cases hd
    rfl
  refine Coro.wp_seq (hdraft.wp (hlocked m () h)) ?_ fun _ _ _ h' => h'.1
  rintro m' ⟨idle, policy, draft⟩ _ ⟨h', hd⟩
  have hsave : Stable (scope T call) (Sessions.Idle (Out known))
      (IdlePreviewStore.save draft a actor correlationId
        (IdlePlanUseCase.previewDocument a idle policy)) :=
    savePreview_scope ha (hd _ rfl) actor correlationId _
  exact Stable.bind hsave (fun _ => Stable.pure _) m' () h'

theorem createPlan_scope (row : ActionPlan) (ha : call.accountId = some row.accountId) :
    Stable (scope T call) (Sessions.Idle (Out known))
      (transaction (PlanStore.create row) : Action T PlanId) := by
  refine sessions.transaction ?_
  unfold PlanStore.create
  refine newPlan_scope ha ?_ fun _ => Stable.bind flush_scope fun _ => Stable.pure _
  rfl

theorem confirmPlan_scope (ha : call.accountId = some a) (p : PlanId) (actor : Actor) :
    Stable (scope T call) (Sessions.Idle (Out known))
      (transaction (PlanStore.confirm p a actor) : Action T ActionPlan) := by
  refine sessions.transaction fun m f h => ?_
  unfold PlanStore.confirm
  refine Coro.wp_seq (loadOwned_scope p h) ?_ fun _ _ _ h' => h'.1
  rintro m' row f' ⟨-, hk⟩
  have hown : Owned call ((p, a) :: known) p := .inr ⟨a, ha, List.mem_cons_self⟩
  suffices hrest : Stable (scope T call) (Within call ((p, a) :: known)) _ from
    Coro.wp_mono (hrest m' f' (hk row rfl)) fun _ _ _ h' => h'.weaken
  refine Stable.bind (Stable.raiseIf _ _) fun _ => Stable.bind clock_scope fun _ => ?_
  refine Stable.bind (Stable.raiseIf _ _) fun _ => Stable.bind clock_scope fun at_ => ?_
  exact Stable.bind (update_scope hown _) fun _ => Stable.bind flush_scope fun _ => Stable.pure _

/-- The plan that `mutate` validates belongs to its account. -/
theorem mutations (args : MutateArgs) :
    Mutations (scope T (.mutate args)) args (Within (.mutate args) known) (Out known) where
  toAccountSessions := accountSessions rfl
  resets m f h :=
    { h with account := h.account.edit rfl rfl, validated := fun _ hp => by cases hp }
  sends m f h := h.frame (h.account.edit rfl rfl) rfl rfl rfl rfl rfl rfl
  names m f x h := h.frame (h.account.edit rfl rfl) rfl rfl rfl rfl rfl rfl
  audits m f event h := h.frame (h.account.edit rfl rfl) rfl rfl rfl rfl rfl rfl
  asks m f o ho h := by
    have hapart : (∀ a, o ≠ .accountForUpdate a) ∧ o ≠ .uuid ∧ o.ends = false := by
      cases o <;> first | exact ho.elim | exact ⟨nofun, nofun, rfl⟩
    exact ⟨ok_running hapart.2.2, fun r _ => h.next hapart.1 hapart.2.1 hapart.2.2 r⟩
  loads m f p _ h := by
    refine ⟨trivial, fun r _ => ?_⟩
    have hnext := h.next (o := Op.getPlan (T := T) p) nofun nofun rfl r
    refine ⟨hnext, ?_⟩
    rintro plan rfl
    refine ⟨hnext.plan _, fun howner =>
      { hnext with account := hnext.account.edit rfl rfl, validated := ?_ }⟩
    rintro _ ⟨⟩
    exact ⟨args.accountId, rfl, by rw [← howner]; exact List.mem_cons_self⟩
  finishes m f p status result hp h := by
    obtain ⟨a, ha, hmem⟩ := h.validated p hp
    have hW : Within (.mutate args) ((p, a) :: known) m f :=
      { h with known := List.cons_subset.mpr ⟨hmem, h.known⟩ }
    have hown : Owned (.mutate args) ((p, a) :: known) p := .inr ⟨a, ha, List.mem_cons_self⟩
    exact Coro.wp_mono (finish_scope hown status result m f hW) fun _ _ _ h' => h'.weaken

end Plans

section Policies

variable {policy : AccountPolicy} {expectedVersion : Int} {actor : Actor}

/-- What `save` has found out under the locks, and what its session holds then. -/
def SaveFound (call : Call) (policy : AccountPolicy) (expectedVersion : Int) (m : Scope)
    (f : Frame) : PolicyService.SaveResult → Prop
  | .saved v => v.toAccountPolicy = policy ∧ (v.version : Int) = expectedVersion + 1 ∧
    m.CommitOk call f.writes ∧ f.policy.isSome = true
  | .unavailable => Within call [] m f
  | .conflict => Within call [] m f

theorem locked_found (a : AccountId) (account : GameAccount) :
    ({} : Frame).locked a (.ok (some account)) = { loaded := some a, record := account } := by
  simp [Frame.locked]

/-- The row that `save` has selected. -/
theorem row_of_select (hrow : m.seen.row = none) (account : GameAccount) :
    ((m.next (Op.accountLock (T := T) a) (.ok ())).next
      (Op.accountForUpdate (T := T) a) (.ok (some account))).seen.row = some (a, account) := by
  simp [next_seen, Local.next, Local.lockedRow, hrow]

theorem saveLocked_scope (hc : call = .savePolicy a policy expectedVersion actor)
    (h : Out [] m) (ht : m.tried = false) :
    (PolicyService.saveLocked a policy expectedVersion actor :
      Tx T PolicyService.SaveResult).wp (scope T call)
      (fun m' r f => m'.tried = false ∧ match r with
        | .ok found => SaveFound call policy expectedVersion m' f found
        | .error e => e = .cancelled) m {} := by
  have ha : call.accountId = some a := by rw [hc]; rfl
  have hb : Within call [] m {} := .begins h
  unfold PolicyService.saveLocked
  rw [Coro.wp_bind, wp_await]
  refine ⟨trivial, fun r hr => ?_⟩
  have ht₁ := (Scope.next_tried (o := Op.accountLock (T := T) a) rfl r).trans ht
  have h₁ := hb.next (o := Op.accountLock (T := T) a) nofun nofun rfl r
  cases r with
  | error e => exact ⟨ht₁, hr.2 trivial e rfl⟩
  | ok _ =>
    rw [Coro.chain_ok, Coro.wp_bind, wp_await]
    refine ⟨trivial, fun r hr => ?_⟩
    have ht₂ := (Scope.next_tried (o := Op.accountForUpdate (T := T) a) rfl r).trans ht₁
    have h₂ := h₁.locked (T := T) ha r
    cases r with
    | error e => exact ⟨ht₂, hr.2 trivial e rfl⟩
    | ok found =>
      rw [Coro.chain_ok]
      cases found with
      | none => exact ⟨ht₂, h₂⟩
      | some account =>
        dsimp only
        rw [Coro.wp_bind, wp_modifyFrame, Coro.chain_ok, Coro.wp_bind, wp_await]
        refine ⟨trivial, fun r hr => ?_⟩
        have hrow : ((m.next (Op.accountLock (T := T) a) (.ok ())).next
            (Op.accountForUpdate (T := T) a) (.ok (some account))).seen.row = some (a, account) :=
          row_of_select h.row account
        rw [locked_found] at h₂
        rw [scope_next, scope_next, scope_next]
        generalize (m.next (Op.accountLock (T := T) a) (.ok ())).next
          (Op.accountForUpdate (T := T) a) (.ok (some account)) = m₂ at hrow h₂ ht₂ ⊢
        have ht₃ := (Scope.next_tried (o := Op.policyForUpdate (T := T) a) rfl r).trans ht₂
        have h₃ := h₂.next (o := Op.policyForUpdate (T := T) a) nofun nofun rfl r
        have hrow₃ : (m₂.next (Op.policyForUpdate (T := T) a) r).seen.row = some (a, account) :=
          (Local.next_row (o := Op.policyForUpdate (T := T) a) nofun rfl r).trans hrow
        generalize m₂.next (Op.policyForUpdate (T := T) a) r = m₃ at hrow₃ h₃ ht₃ ⊢
        cases r with
        | error e => exact ⟨ht₃, hr.2 trivial e rfl⟩
        | ok policyRow =>
          rw [Coro.chain_ok]
          cases hv : versioned account policyRow with
          | error e => exact ⟨ht₃, h₃⟩
          | ok current =>
            have hversion := version_of_versioned hv
            dsimp only
            rw [Coro.wp_ite]
            refine ⟨fun _ => ?_, fun he => ?_⟩
            · rw [Coro.wp_bind, wp_audit, Coro.chain_ok, Coro.wp_pure]
              exact ⟨ht₃, h₃.frame (h₃.account.edit rfl rfl) rfl rfl rfl rfl rfl rfl⟩
            · rw [Coro.wp_bind, wp_modifyFrame, Coro.chain_ok, Coro.wp_bind, wp_modifyRecord,
                Coro.chain_ok, Coro.wp_bind, wp_await]
              refine ⟨trivial, fun r hr => ?_⟩
              have ht₄ := (Scope.next_tried (o := Op.flush (T := T)) rfl r).trans ht₃
              have h₄ := h₃.next (o := Op.flush (T := T)) nofun nofun rfl r
              have hrow₄ : (m₃.next (Op.flush (T := T)) r).seen.row = some (a, account) :=
                (Local.next_row (o := Op.flush (T := T)) nofun rfl r).trans hrow₃
              cases r with
              | error e => exact ⟨ht₄, hr.2 trivial e rfl⟩
              | ok _ =>
                rw [Coro.chain_ok, Coro.wp_bind, wp_audit, Coro.chain_ok, Coro.wp_pure]
                have heq : expectedVersion = current.version := not_not.mp he
                refine ⟨ht₄, rfl, by rw [heq]; rfl, ?_, rfl⟩
                refine ⟨?_, nofun, h₄.plans, h₄.newPlan, h₄.jobs, h₄.snapshots⟩
                rintro b row ⟨⟩
                exact .saves ha hrow₄ ⟨policy, expectedVersion, actor, hc, by rw [heq, hversion],
                  by rw [← hversion], by rw [← hversion]; rfl⟩

/-- What the committed transaction of `save` reports. -/
def SaveReported (policy : AccountPolicy) (expectedVersion : Int) (m : Scope) :
    Except Exc PolicyService.SaveResult → Prop
  | .ok (.saved v) => m.saved = true ∧ v.toAccountPolicy = policy ∧
    (v.version : Int) = expectedVersion + 1
  | .ok _ => m.tried = false
  | .error e => e = .cancelled

theorem commit_tried {ws : Writes} (h : ws.policy = none) (r : Except Exc Unit) :
    (m.next (Op.commit (T := T) ws) r).tried = m.tried := by
  cases r <;> simp [Scope.next, Scope.read, h]

theorem rollsBack_scope {α σ : Type} {Q : Scope → Except Exc α → σ → Prop} {s : σ}
    (hQ : ∀ m, Q m (.error .cancelled) s) : RollsBack (scope T call) Q m .cancelled s := by
  refine ⟨trivial, fun r hr => ?_⟩
  cases r with
  | ok _ => exact hQ _
  | error e =>
    cases hr.2 trivial e rfl
    exact hQ _

theorem saveTransaction_scope (hc : call = .savePolicy a policy expectedVersion actor)
    (h : Out [] m) (ht : m.tried = false) :
    (transaction (PolicyService.saveLocked a policy expectedVersion actor) :
      Action T PolicyService.SaveResult).wp (scope T call)
      (fun m' r _ => SaveReported policy expectedVersion m' r) m () := by
  have hroll : ∀ m', RollsBack (scope T call) (fun m' r (_ : Unit) =>
      SaveReported policy expectedVersion m' r) m' .cancelled () := fun m' =>
    rollsBack_scope fun _ => rfl
  refine wp_transaction (saveLocked_scope hc h ht) ?_ ?_
  · rintro m' found f ⟨ht', hfound⟩
    have hquiet : Within call [] m' f → ∀ r : Except Exc Unit,
        (m'.next (Op.commit (T := T) f.writes) r).tried = false := fun hW r =>
      (commit_tried hW.policy r).trans ht'
    cases found with
    | unavailable =>
      refine ⟨Within.commits hfound, fun r hr => ?_⟩
      cases r with
      | ok _ => exact hquiet hfound (.ok ())
      | error e =>
        cases hr.2 trivial e rfl
        exact hroll _
    | conflict =>
      refine ⟨Within.commits hfound, fun r hr => ?_⟩
      cases r with
      | ok _ => exact hquiet hfound (.ok ())
      | error e =>
        cases hr.2 trivial e rfl
        exact hroll _
    | saved v =>
      obtain ⟨hp, hv, hok, hsome⟩ := hfound
      refine ⟨hok, fun r hr => ?_⟩
      cases r with
      | ok _ =>
        refine ⟨?_, hp, hv⟩
        have hw : f.writes.policy.isSome = true := hsome
        simp [Scope.next, Scope.read, hw]
      | error e =>
        cases hr.2 trivial e rfl
        exact hroll _
  · rintro m' e f ⟨-, rfl⟩
    exact hroll m'

theorem savePolicy_scope (hc : call = .savePolicy a policy expectedVersion actor) :
    (returning .policy (PolicyService.save a policy expectedVersion actor) :
      Action T (Returned T)).wp (scope T call) (fun m' r _ => m'.Post r call) {} () := by
  have hout : Out [] ({} : Scope) := ⟨rfl, List.nil_subset _⟩
  have hsave : (PolicyService.save a policy expectedVersion actor : Action T VersionedPolicy).wp
      (scope T call) (fun m' r _ => (∀ v, r = .ok v → m'.saved = true ∧
        v.toAccountPolicy = policy ∧ (v.version : Int) = expectedVersion + 1) ∧
        (r = .error .policyConflict ∨ r = .error .policyUnavailable → m'.tried = false)) {} () := by
    unfold PolicyService.save
    refine Coro.wp_seq (saveTransaction_scope hc hout rfl) ?_ ?_
    · intro m' found _ hr
      cases found with
      | unavailable => exact ⟨fun _ h => (by cases h), fun _ => hr⟩
      | conflict => exact ⟨fun _ h => (by cases h), fun _ => hr⟩
      | saved v =>
        refine ⟨?_, (by rintro (h | h) <;> cases h)⟩
        rintro _ ⟨⟩
        exact hr
    · rintro m' e _ rfl
      exact ⟨fun _ h => (by cases h), (by rintro (h | h) <;> cases h)⟩
  subst hc
  unfold returning
  refine Coro.wp_seq hsave ?_ ?_
  · rintro m' v _ ⟨hv, -⟩
    refine ⟨?_, (by rintro (h | h) <;> cases h)⟩
    rintro _ ⟨⟩
    obtain ⟨hs, hp, hver⟩ := hv v rfl
    exact ⟨hs, v, rfl, hp, hver⟩
  · rintro m' e _ ⟨-, he⟩
    refine ⟨fun _ h => (by cases h), fun h => he ?_⟩
    rcases h with h | h <;> cases h
    · exact .inl rfl
    · exact .inr rfl

end Policies

/-- A call that keeps `Out` has nothing to say about policies. -/
theorem wp_of_stable {c : Action T α} {wrap : α → Returned T}
    (hc : Stable (scope T call) (Sessions.Idle (Out [])) c)
    (hp : ∀ m r, Scope.Post (T := T) m r call) :
    (returning wrap c).wp (scope T call) (fun m r _ => m.Post r call) {} () := by
  have hout : Out [] ({} : Scope) := ⟨rfl, List.nil_subset _⟩
  have hret : Stable (scope T call) (Sessions.Idle (Out [])) (returning wrap c) :=
    Stable.bind hc fun _ => Stable.pure _
  exact Coro.wp_mono (hret {} () hout) fun m r _ _ => hp m r

variable (P : Ports)

theorem run_scope (call : Call) :
    (call.run P : Action T (Returned T)).wp (scope T call) (fun m r _ => m.Post r call) {} () := by
  cases call with
  | addCredentials =>
    exact wp_of_stable (addCredentials_stable P _ sessions (enrols _ rfl) _ _ _) fun _ _ => trivial
  | addTokenOnly =>
    exact wp_of_stable (addTokenOnly_stable P _ sessions (enrols _ rfl) _ _) fun _ _ => trivial
  | updateLabel =>
    exact wp_of_stable (updateLabel_stable _ (accountSessions rfl) _) fun _ _ => trivial
  | updateCredentials =>
    exact wp_of_stable (updateCredentials_stable P _ (accountSessions rfl) _ _) fun _ _ => trivial
  | updateTokenOnly =>
    exact wp_of_stable (updateTokenOnly_stable P _ (accountSessions rfl) _) fun _ _ => trivial
  | enable =>
    exact wp_of_stable (setLifecycle_stable _ (accountSessions rfl) _ _ (by decide))
      fun _ _ => trivial
  | disable =>
    exact wp_of_stable (setLifecycle_stable _ (accountSessions rfl) _ _ (by decide))
      fun _ _ => trivial
  | pause => exact wp_of_stable (pause_stable _ (accountSessions rfl) _) fun _ _ => trivial
  | resume => exact wp_of_stable (resume_stable _ (accountSessions rfl)) fun _ _ => trivial
  | disableDrainRemove =>
    exact wp_of_stable (disableDrainRemove_stable _ (accountSessions rfl) (drainRemoval_scope _ rfl))
      fun _ _ => trivial
  | ensureSession =>
    exact wp_of_stable (ensureSession_stable P _ (accountSessions rfl)) fun _ _ => trivial
  | locked => exact wp_of_stable (lockedContext_stable P _ (accountSessions rfl)) fun _ _ => trivial
  | snapshot => exact wp_of_stable (snapshot_stable P _ (accountSessions rfl)) fun _ _ => trivial
  | mutate args => exact wp_of_stable ((mutations args).mutate P) fun _ _ => trivial
  | savePolicy => exact savePolicy_scope rfl
  | accountStatus =>
    exact wp_of_stable (accountStatus_stable P _ (accountSessions rfl)) fun _ _ => trivial
  | preview => exact wp_of_stable (preview_scope P rfl _ _) fun _ _ => trivial
  | execute => exact wp_of_stable (execute_scope P rfl _ _ _ _) fun _ _ => trivial
  | createPlan row => exact wp_of_stable (createPlan_scope row rfl) fun _ _ => trivial
  | confirmPlan => exact wp_of_stable (confirmPlan_scope rfl _ _) fun _ _ => trivial
  | markExecuting p expected =>
    have hown : Owned (.markExecuting p expected) [] p := .inl trivial
    exact wp_of_stable (sessions.transaction (markExecuting_scope hown _)) fun _ _ => trivial
  | finishPlan p status result =>
    have hown : Owned (.finishPlan p status result) [] p := .inl trivial
    exact wp_of_stable (sessions.transaction (finish_scope hown _ _)) fun _ _ => trivial

end Scope

theorem scope_watched (P : Ports) :
    Reachable.Watched (machine T P) (scope T) (fun call m r => m.Post r call) where
  prog call := Coro.wp_toProc.mpr (Scope.run_scope P call)
  ans call t w o r w' hw m := by
    refine ⟨perform_answers hw, fun ho e he => ?_⟩
    subst he
    rcases hw.effect_or with ⟨reply, h⟩ | ⟨-, hc, -⟩
    · cases o <;> first | exact ho.elim | skip
      all_goals simp only [World.effect] at h
      all_goals (repeat' split at h) <;> simp_all
    · cases hc
      rfl

end PlaceGame
