import PlaceGame.Accounts.ServiceSafe

/-!
# PlaceGame.Accounts.MutateSafe

`mutate` under the monitor of account safety.

The transaction of `mutate` may be committed at any point of its loop, with the account loaded or
not: `Ready` is what all its parts preserve. An attempt that reaches the send has made every check
on readings of its own.
-/

namespace PlaceGame

open Coop

/-- The session holds the account, or has not loaded it yet. -/
def Ready (a : AccountId) (m : Local) (f : Frame) : Prop :=
  (m.Closed ∧ f.loaded = none ∧ f.sessionToken = none ∧ f.newPlan = none) ∨ ∃ r₀, Held a r₀ m f

/-- What a part of `mutate` leaves behind. -/
def Keep (a : AccountId) {α : Type} (Φ : Local → α → Frame → Prop) :
    Local → Except Exc α → Frame → Prop :=
  fun m' r f' => Ready a m' f' ∧ ∀ x, r = .ok x → Φ m' x f'

section Ready

variable {T : Type} {P : Ports} {call : Call} {a : AccountId} {r₀ : GameAccount} {m m' : Local}
variable {f f' : Frame} {α β : Type} {Φ : Local → β → Frame → Prop} {Ψ : Local → α → Frame → Prop}

theorem Ready.learn (h : Ready a m f) (hrow : m'.row = m.row) (hfl : m'.flushed = m.flushed)
    (hb : m.boots ⊆ m'.boots) : Ready a m' f := by
  rcases h with ⟨hm, hf⟩ | ⟨r₀, h⟩
  · exact .inl ⟨⟨hrow.trans hm.row, hfl.trans hm.flushed⟩, hf⟩
  · exact .inr ⟨r₀, h.learn hrow hfl hb⟩

/-- Changes of the session that do not concern the account. -/
theorem Ready.frame (h : Ready a m f) (hl : f'.loaded = f.loaded) (hr : f'.record = f.record)
    (ht : f'.sessionToken = f.sessionToken) (hn : f'.newPlan = f.newPlan) : Ready a m f' := by
  rcases h with ⟨hm, h1, h2, h3⟩ | ⟨r₀, h⟩
  · exact .inl ⟨hm, hl.trans h1, ht.trans h2, hn.trans h3⟩
  · exact .inr ⟨r₀, h.row, hl.trans h.loaded, hr ▸ h.tightens, hr ▸ h.identity,
      ht ▸ hr ▸ h.token, hn.trans h.newPlan⟩

theorem Ready.move (h : Ready a m f) (hrow : m'.row = m.row) (hfl : m'.flushed = m.flushed)
    (hb : m'.boots = m.boots) (hl : f'.loaded = f.loaded) (hr : f'.record = f.record)
    (ht : f'.sessionToken = f.sessionToken) (hn : f'.newPlan = f.newPlan) : Ready a m' f' :=
  (h.learn hrow hfl (by rw [hb]; exact List.Subset.refl _)).frame hl hr ht hn

theorem Ready.succeed (h : Ready a m f) (now : Time) :
    Ready a m { f with record := f.record.succeed now } := by
  rcases h with h | ⟨r₀, h⟩
  · exact .inl h
  · exact .inr ⟨r₀, h.edit (GameAccount.tightens_succeed now) rfl rfl⟩

theorem Ready.commits (h : Ready a m f) (hcall : call.Ordinary) : m.CommitOk call f.writes := by
  rcases h with ⟨-, h1, h2, h3⟩ | ⟨r₀, h⟩
  · exact commitOk_of_unloaded h1 h2 h3
  · exact h.commits hcall

theorem Local.Bootstrapped.learn {api : GameApi} (h : m.Bootstrapped a api)
    (hrow : m'.row = m.row) (hfl : m'.flushed = m.flushed) (hb : m.boots ⊆ m'.boots) :
    m'.Bootstrapped a api := by
  obtain ⟨r₀, g, h1, h2, h3⟩ := h
  refine ⟨r₀, g, hrow.trans h1, hb h2, ?_⟩
  unfold Local.identity at h3 ⊢
  rw [hfl]
  exact h3

theorem Keep.pure {x : α} (h : Ready a m f) (hx : Ψ m x f) :
    (pure x : Tx T α).wp (watch T P call) (Keep a Ψ) m f := by
  refine ⟨h, ?_⟩
  rintro y ⟨⟩
  exact hx

theorem Keep.error {e : Exc} (h : Ready a m f) : Keep a Ψ m (.error e) f := ⟨h, nofun⟩

theorem Keep.raise (e : Exc) (h : Ready a m f) :
    (raise e : Tx T α).wp (watch T P call) (Keep a Ψ) m f := ⟨h, nofun⟩

theorem Keep.seq {c : Tx T β} {g : β → Tx T α} (hc : c.wp (watch T P call) (Keep a Φ) m f)
    (hk : ∀ m' x f', Ready a m' f' → Φ m' x f' → (g x).wp (watch T P call) (Keep a Ψ) m' f') :
    (c >>= g).wp (watch T P call) (Keep a Ψ) m f := by
  refine Coro.wp_seq hc ?_ ?_
  · rintro m' x f' ⟨h', hx⟩
    exact hk m' x f' h' (hx x rfl)
  · rintro m' e f' ⟨h', -⟩
    exact Keep.error h'

theorem Keep.check {c : Tx T β} {g : β → Tx T α} {p : β → Prop}
    (hc : Checks (watch T P call) c p) (h : Ready a m f)
    (hk : ∀ x, p x → (g x).wp (watch T P call) (Keep a Ψ) m f) :
    (c >>= g).wp (watch T P call) (Keep a Ψ) m f :=
  hc.seq (fun _ => Keep.error h) hk

theorem Keep.await {o : Op T} {g : o.Val → Tx T α} (h : Ready a m f) (hok : m.ok P call o)
    (herr : ∀ e, m.next o (.error e) = m)
    (hk : ∀ v, (g v).wp (watch T P call) (Keep a Ψ) (m.next o (.ok v)) f) :
    (await o >>= g).wp (watch T P call) (Keep a Ψ) m f := by
  rw [Coro.wp_bind, wp_await]
  refine ⟨hok, ?_⟩
  rintro (e | v) -
  · rw [Local.watch_next, herr e]
    exact Keep.error h
  · exact hk v

theorem Keep.flush (h : Ready a m f) :
    (PlaceGame.await (.flush : Op T)).wp (watch T P call) (Keep a fun _ _ _ => True) m f := by
  rw [wp_await]
  refine ⟨nofun, ?_⟩
  rintro (e | _) -
  · exact Keep.error h
  · exact ⟨h, fun _ _ => trivial⟩

/-- A cycle function keeps the session ready. -/
theorem Leaves.keep {c : Tx T α} (h : c.wp (watch T P call) (Leaves a r₀ m Ψ) m' f) :
    c.wp (watch T P call) (Keep a fun m'' x f'' => Held a r₀ m'' f'' ∧ m.Grows m'' ∧ Ψ m'' x f'')
      m' f :=
  Coro.wp_mono h fun _ _ _ hl =>
    ⟨.inr ⟨r₀, hl.1⟩, fun x hx => ⟨hl.1, hl.2.1, hl.2.2 x hx⟩⟩

/-- The row is locked, or was locked in an earlier attempt. -/
theorem requireForUpdate_keep (h : Ready a m f) :
    (requireForUpdate a : Tx T Unit).wp (watch T P call)
      (Keep a fun m' _ f' => ∃ r₀, Held a r₀ m' f') m f := by
  unfold requireForUpdate
  refine Keep.await h nofun (fun _ => rfl) ?_
  intro row
  cases row with
  | none => exact Keep.raise _ h
  | some row =>
    rw [wp_modifyFrame]
    rcases h with ⟨hm, hl, ht, hn⟩ | ⟨r₀, h⟩
    · have hne : ¬ f.loaded = some a := by simp [hl]
      rw [if_neg hne]
      have hh : Held a row (m.next (T := T) (.accountForUpdate a) (.ok (some row)))
          { f with loaded := some a, record := row } := Held.start hm rfl rfl ht hn
      exact ⟨.inr ⟨row, hh⟩, fun _ _ => ⟨row, hh⟩⟩
    · rw [if_pos h.loaded]
      have hrow : m.lockedRow a row = (a, r₀) := by simp [Local.lockedRow, h.row]
      have hh : Held a r₀ (m.next (T := T) (.accountForUpdate a) (.ok (some row))) f := by
        refine h.learn ?_ rfl (List.Subset.refl _)
        rw [h.row]
        exact congrArg some hrow
      exact ⟨.inr ⟨r₀, hh⟩, fun _ _ => ⟨r₀, hh⟩⟩

theorem loadForUpdate_keep (planId : PlanId) (accountId : Option AccountId) (h : Ready a m f) :
    (PlanStore.loadForUpdate planId accountId : Tx T ActionPlan).wp (watch T P call)
      (Keep a fun _ _ _ => True) m f := by
  unfold PlanStore.loadForUpdate
  refine Keep.await h nofun (fun _ => rfl) ?_
  intro row
  cases row with
  | none => exact Keep.raise _ h
  | some row =>
    simp only [Coro.wp_bind, wp_frame, wp_modifyFrame, Coro.chain_ok]
    exact Keep.pure (h.move rfl rfl rfl rfl rfl rfl rfl) trivial

theorem finish_keep (planId : PlanId) (status : PlanState) (result : List (String × Json))
    (h : Ready a m f) :
    (PlanStore.finish planId status result : Tx T Unit).wp (watch T P call)
      (Keep a fun _ _ _ => True) m f := by
  unfold PlanStore.finish
  refine Keep.check (checks_raiseIf _ _) h fun _ _ => ?_
  refine Keep.seq (loadForUpdate_keep planId none h) ?_
  intro m' row f' h' _
  refine Keep.check (checks_raiseIf _ _) h' fun _ _ => ?_
  refine Keep.await (o := .clock) h' nofun (fun _ => rfl) ?_
  intro now
  unfold PlanStore.update
  rw [Coro.wp_bind, wp_modifyFrame, Coro.chain_ok]
  exact Keep.flush (h'.move rfl rfl rfl rfl rfl rfl rfl)

end Ready

namespace Mutate

variable {T : Type} {P : Ports} {call : Call} {args : MutateArgs} {m : Local} {f : Frame}

/-- What an attempt has established when it sends. -/
def MaySend (args : MutateArgs) (m : Local) (api : GameApi) : Prop :=
  m.Bootstrapped args.accountId api ∧ m.Admitted args.accountId ∧
    ∀ p, args.planId = some p → m.Planned args.accountId p

theorem auditMutate_keep (accountId : Option AccountId) (planId : Option PlanId) (result : Json)
    (h : Ready args.accountId m f) :
    (auditMutate args accountId planId result : Tx T Unit).wp (watch T P call)
      (Keep args.accountId fun _ _ _ => True) m f := by
  unfold auditMutate
  rw [wp_audit]
  exact ⟨h.frame rfl rfl rfl rfl, fun _ _ => trivial⟩

theorem finishValidated_keep {a : AccountId} (status : PlanState) (result : List (String × Json))
    (h : Ready a m f) :
    (finishValidated status result : Tx T Unit).wp (watch T P call)
      (Keep a fun _ _ _ => True) m f := by
  unfold finishValidated
  rw [Coro.wp_bind, wp_frame, Coro.chain_ok]
  split
  · exact finish_keep _ _ _ h
  · exact Keep.pure h trivial

theorem cancelledAfterSend_keep (h : Ready args.accountId m f) :
    (cancelledAfterSend args : Tx T (LoopEnd T)).wp (watch T P call)
      (Keep args.accountId fun _ _ _ => True) m f := by
  unfold cancelledAfterSend
  refine Keep.seq (finishValidated_keep _ _ h) ?_
  intro m' _ f' h' _
  rw [Coro.wp_bind, wp_frame, Coro.chain_ok]
  exact Keep.seq (auditMutate_keep _ _ _ h') fun _ _ _ h'' _ => Keep.pure h'' trivial

theorem succeed_keep (reconciled : Bool) (value : Option T) (h : Ready args.accountId m f) :
    (succeed args reconciled value : Tx T (LoopEnd T)).wp (watch T P call)
      (Keep args.accountId fun _ _ _ => True) m f := by
  unfold succeed
  refine Keep.await (o := .clock) h nofun (fun _ => rfl) ?_
  intro now
  rw [Coro.wp_bind, wp_modifyRecord, Coro.chain_ok]
  have h₁ : Ready args.accountId (m.next (T := T) .clock (.ok now)) f :=
    h.learn rfl rfl (List.Subset.refl _)
  refine Keep.seq (finishValidated_keep _ _ (h₁.succeed now)) ?_
  intro m' _ f' h' _
  rw [Coro.wp_bind, wp_frame, Coro.chain_ok]
  exact Keep.seq (auditMutate_keep _ _ _ h') fun _ _ _ h'' _ => Keep.pure h'' trivial

theorem reconcileAmbiguous_keep (api : GameApi) (h : Ready args.accountId m f)
    (hb : m.Bootstrapped args.accountId api) :
    (reconcileAmbiguous args api : Tx T (LoopEnd T)).wp (watch T P call)
      (Keep args.accountId fun _ _ _ => True) m f := by
  unfold reconcileAmbiguous
  refine Keep.check (checks_raiseIf _ _) h fun _ _ => ?_
  refine wp_try (R := Keep args.accountId fun _ _ _ => True) ?_ ?_
  · refine Keep.await h nofun (fun _ => rfl) ?_
    intro g
    have hg := Local.Boots.cons m api g
    have h' : Ready args.accountId (m.next (T := T) (.bootstrap api) (.ok g)) f :=
      h.learn rfl rfl (List.subset_cons_self _ _)
    rw [wp_await]
    refine ⟨?_, ?_⟩
    · rintro _ ⟨⟩
      exact ⟨args.accountId, hb.learn rfl rfl (List.subset_cons_self _ _)⟩
    · rintro (e | v) -
      · exact Keep.error h'
      · exact ⟨h', fun _ _ => trivial⟩
  · rintro m' r f' ⟨h', -⟩
    split
    · exact cancelledAfterSend_keep h'
    · exact Keep.raise _ h'
    · exact Keep.raise _ h'
    · exact Keep.check (checks_raiseIf _ _) h' fun _ _ => succeed_keep _ _ h'

theorem verifySent_keep (api : GameApi) (value : T) (h : Ready args.accountId m f)
    (hb : m.Bootstrapped args.accountId api) :
    (verifySent args api value : Tx T (LoopEnd T)).wp (watch T P call)
      (Keep args.accountId fun _ _ _ => True) m f := by
  unfold verifySent
  refine wp_try (R := Keep args.accountId fun _ _ _ => True) ?_ ?_
  · rw [wp_await]
    refine ⟨?_, ?_⟩
    · rintro _ ⟨⟩
      exact ⟨args.accountId, hb⟩
    · rintro (e | v) -
      · exact Keep.error h
      · exact ⟨h, fun _ _ => trivial⟩
  · rintro m' r f' ⟨h', -⟩
    split
    · exact cancelledAfterSend_keep h'
    · exact Keep.raise _ h'
    · exact Keep.raise _ h'
    · exact Keep.check (checks_raiseIf _ _) h' fun _ _ => succeed_keep _ _ h'

theorem confirmSent_keep (api : GameApi) (value : T) (h : Ready args.accountId m f)
    (hb : m.Bootstrapped args.accountId api) :
    (confirmSent args api value : Tx T (LoopEnd T)).wp (watch T P call)
      (Keep args.accountId fun _ _ _ => True) m f := by
  unfold confirmSent
  refine wp_try (R := Keep args.accountId fun m' _ _ => m'.Bootstrapped args.accountId api) ?_ ?_
  · rw [wp_await]
    refine ⟨nofun, ?_⟩
    rintro (e | g) -
    · exact Keep.error h
    · exact ⟨h.learn rfl rfl (List.subset_cons_self _ _),
        fun _ _ => hb.learn rfl rfl (List.subset_cons_self _ _)⟩
  · rintro m' r f' ⟨h', hb'⟩
    split
    · exact cancelledAfterSend_keep h'
    · exact Keep.raise _ h'
    · rw [Coro.wp_ite]
      exact ⟨fun _ => Keep.raise _ h', fun _ => Keep.raise _ h'⟩
    · rw [Coro.wp_ite]
      exact ⟨fun _ => verifySent_keep api value h' (hb' _ rfl), fun _ => succeed_keep _ _ h'⟩

theorem send_keep (left : Nat) (api : GameApi) (h : Ready args.accountId m f)
    (hs : MaySend args m api) :
    (send args left api : Tx T (Option (LoopEnd T))).wp (watch T P call)
      (Keep args.accountId fun _ _ _ => True) m f := by
  obtain ⟨hb, ha, hp⟩ := hs
  unfold send
  rw [Coro.wp_bind, wp_modifyFrame, Coro.chain_ok]
  have h₀ : Ready args.accountId m { f with sendStarted := true } := h.frame rfl rfl rfl rfl
  refine wp_try (R := fun m' _ f' => m' = m ∧ f' = { f with sendStarted := true }) ?_ ?_
  · rw [wp_await]
    exact ⟨⟨hb, ha, hp⟩, fun r _ => ⟨by cases r <;> rfl, rfl⟩⟩
  · rintro m' r f' ⟨rfl, rfl⟩
    split
    · exact Keep.seq (cancelledAfterSend_keep h₀) fun _ _ _ h' _ => Keep.pure h' trivial
    · refine Keep.check (checks_raiseIf _ _) h₀ fun _ _ => ?_
      refine Keep.await h₀ nofun (fun _ => rfl) ?_
      intro g
      have h₁ : Ready args.accountId (m'.next (T := T) (.bootstrap api) (.ok g))
          { f with sendStarted := true } := h₀.learn rfl rfl (List.subset_cons_self _ _)
      exact Keep.await h₁ nofun (fun _ => rfl) fun _ => Keep.pure h₁ trivial
    · exact Keep.seq (reconcileAmbiguous_keep api h₀ hb) fun _ _ _ h' _ => Keep.pure h' trivial
    · exact Keep.seq (finishValidated_keep _ _ h₀) fun _ _ _ h' _ => Keep.raise _ h'
    · exact Keep.raise _ h₀
    · exact Keep.seq (confirmSent_keep api _ h₀ hb) fun _ _ _ h' _ => Keep.pure h' trivial

theorem checkPlan_keep {a : AccountId} (plan : ActionPlan) (version : Nat) (h : Ready a m f) :
    (checkPlan plan version : Tx T Unit).wp (watch T P call)
      (Keep a fun m' _ f' => f' = f ∧ ∃ now, m' = { m with now := some now } ∧
        now < plan.expiresAt ∧ (plan.confirmationRequired = true → plan.confirmedAt.isSome = true) ∧
        plan.policyVersion = version) m f := by
  unfold checkPlan
  refine Keep.await (o := .clock) h nofun (fun _ => rfl) ?_
  intro now
  have h' : Ready a (m.next (T := T) .clock (.ok now)) f := h.learn rfl rfl (List.Subset.refl _)
  rw [wp_raiseIf]
  refine ⟨fun _ => Keep.error h', fun hc => ⟨h', fun _ _ => ⟨rfl, now, rfl, ?_⟩⟩⟩
  simp only [not_or, not_le, ne_eq, not_not, not_and] at hc
  obtain ⟨h1, -, h2, h3⟩ := hc
  exact ⟨h1, fun hr => Option.isSome_iff_ne_none.mpr (h2 hr), h3⟩

theorem preparePlan_keep (planId : PlanId) (policy : VersionedPolicy) (api : GameApi)
    (h : Ready args.accountId m f) (hb : m.Bootstrapped args.accountId api)
    (ha : m.Admitted args.accountId) (hp : m.policy = some (args.accountId, policy)) :
    (preparePlan args planId policy api : Tx T Unit).wp (watch T P call)
      (Keep args.accountId fun m' _ _ => m'.Bootstrapped args.accountId api ∧
        m'.Admitted args.accountId ∧ m'.Planned args.accountId planId) m f := by
  unfold preparePlan
  refine Keep.await h nofun (fun _ => rfl) ?_
  intro plan
  cases plan with
  | none => exact Keep.raise _ h
  | some candidate =>
    dsimp only
    rw [Coro.wp_bind, wp_modifyFrame, Coro.chain_ok]
    refine Keep.check (checks_raiseIf _ _) (h.move rfl rfl rfl rfl rfl rfl rfl) fun _ hacc => ?_
    rw [Coro.wp_bind, wp_modifyFrame, Coro.chain_ok]
    refine Keep.seq (checkPlan_keep candidate policy.version
      (h.move rfl rfl rfl rfl rfl rfl rfl)) ?_
    rintro m' - f' h' ⟨rfl, now, rfl, hexp, hconf, hver⟩
    refine Keep.check (checks_raiseIf _ _) h' fun _ _ => ?_
    refine Keep.await h' ?_ (fun _ => rfl) ?_
    · rintro _ ⟨⟩
      exact ⟨args.accountId, hb.learn rfl rfl (List.Subset.refl _)⟩
    · intro resolved
      rw [wp_raiseIf]
      cases resolved with
      | none => exact ⟨fun _ => Keep.error h', fun hf => absurd rfl hf⟩
      | some fingerprint =>
        refine ⟨fun _ => Keep.error (h'.learn rfl rfl (List.Subset.refl _)), fun hf => ?_⟩
        refine ⟨h'.learn rfl rfl (List.Subset.refl _), fun _ _ => ?_⟩
        refine ⟨hb.learn rfl rfl (List.Subset.refl _), ha, ?_⟩
        simp only [validFingerprint, Bool.and_eq_false_iff, not_or, Bool.not_eq_false,
          beq_iff_eq] at hf
        exact ⟨policy, candidate, now, fingerprint, hp, rfl, not_not.mp hacc, hver, rfl, hexp,
          hconf, rfl, hf.2⟩

theorem prepare_keep (h : Ready args.accountId m f) :
    (prepare P args : Tx T GameApi).wp (watch T P call)
      (Keep args.accountId fun m' api _ => MaySend args m' api) m f := by
  unfold prepare
  rw [Coro.wp_bind, wp_modifyFrame, Coro.chain_ok]
  refine Keep.seq (requireForUpdate_keep (h.frame rfl rfl rfl rfl)) ?_
  rintro m₁ - f₁ - ⟨r₀, h₁⟩
  rw [Coro.wp_bind, wp_modifyFrame, Coro.chain_ok, Coro.wp_bind, wp_record, Coro.chain_ok]
  have h₂ : Held args.accountId r₀ m₁ { f₁ with validatedAccountId := some args.accountId } :=
    ⟨h₁.row, h₁.loaded, h₁.tightens, h₁.identity, h₁.token, h₁.newPlan⟩
  refine Keep.check (checks_requireMutable _) (.inr ⟨r₀, h₂⟩) ?_
  rintro - ⟨-, he⟩
  have henabled : r₀.enabled = true := h₂.tightens.enabled he
  refine Keep.seq (Leaves.keep (ensureLocked_safe args.actor h₂)) ?_
  rintro m₃ resolution f₃ - ⟨h₃, -, hr, hpaused⟩
  cases ha : resolution.api with
  | none => exact Keep.raise _ (.inr ⟨r₀, h₃⟩)
  | some session =>
    obtain ⟨api, g⟩ := session
    obtain ⟨hb, hid⟩ := hr api g ha
    refine Keep.seq (Leaves.keep (saveSnapshot_safe resolution true h₃ hr)) ?_
    rintro m₄ - f₄ - ⟨h₄, hg, hrec⟩
    refine Keep.await (.inr ⟨r₀, h₄⟩) nofun (fun _ => rfl) ?_
    intro policy
    have h₅ : Held args.accountId r₀ { m₄ with policy := some (args.accountId, policy) } f₄ :=
      h₄.learn rfl rfl (List.Subset.refl _)
    have hboot := h₅.bootstrapped (hg.boots hb) (hrec ▸ hid)
    have hadm : ({ m₄ with policy := some (args.accountId, policy) } : Local).Admitted
        args.accountId := ⟨r₀, h₅.row, henabled, hpaused (by rw [ha]; rfl)⟩
    cases hp : args.planId with
    | none =>
      refine Keep.pure (.inr ⟨r₀, h₅⟩) ⟨hboot, hadm, ?_⟩
      rw [hp]
      exact nofun
    | some planId =>
      refine Keep.seq (preparePlan_keep planId policy api (.inr ⟨r₀, h₅⟩) hboot hadm rfl) ?_
      rintro m₆ - f₆ h₆ ⟨h1, h2, h3⟩
      refine Keep.pure h₆ ⟨h1, h2, ?_⟩
      rw [hp]
      rintro _ ⟨⟩
      exact h3

theorem attempts_keep (left : Nat) (h : Ready args.accountId m f) :
    (attempts P args left : Tx T (LoopEnd T)).wp (watch T P call)
      (Keep args.accountId fun _ _ _ => True) m f := by
  induction left generalizing m f with
  | zero => exact Keep.pure h trivial
  | succ left ih =>
    unfold attempts
    refine Keep.seq (prepare_keep h) ?_
    intro m₁ api f₁ h₁ hs
    refine Keep.seq (send_keep left api h₁ hs) ?_
    intro m₂ outcome f₂ h₂ _
    cases outcome with
    | some e => exact Keep.pure h₂ trivial
    | none => exact ih h₂

theorem terminalise_keep {a : AccountId} (exc pending : Exc) (h : Ready a m f) :
    (terminalise exc pending : Tx T Unit).wp (watch T P call) (Keep a fun _ _ _ => True) m f := by
  unfold terminalise
  rw [Coro.wp_bind, wp_frame, Coro.chain_ok]
  split
  · rw [Coro.wp_ite]
    exact ⟨fun _ => finish_keep _ _ _ h, fun _ => Keep.pure h trivial⟩
  · exact Keep.pure h trivial

theorem handle_keep (exc : Exc) (h : Ready args.accountId m f) :
    (handle args exc : Tx T Exc).wp (watch T P call)
      (Keep args.accountId fun _ _ _ => True) m f := by
  unfold handle
  refine Keep.seq (terminalise_keep _ _ h) ?_
  intro m₁ _ f₁ h₁ _
  rw [Coro.wp_bind, wp_frame, Coro.chain_ok]
  exact Keep.seq (auditMutate_keep _ _ _ h₁) fun _ _ _ h₂ _ => Keep.pure h₂ trivial

theorem body_keep (hm : m.Closed) :
    (body P args : Tx T (Except Exc (LoopEnd T))).wp (watch T P call)
      (Keep args.accountId fun _ _ _ => True) m {} := by
  have h : Ready args.accountId m {} := .inl ⟨hm, rfl, rfl, rfl⟩
  unfold body
  refine Keep.await h nofun (fun _ => rfl) ?_
  intro _
  refine wp_try (attempts_keep 3 h) ?_
  rintro m₁ r f₁ ⟨h₁, -⟩
  split
  · exact Keep.pure h₁ trivial
  · rw [Coro.wp_ite]
    refine ⟨fun _ => ?_, fun _ => Keep.raise _ h₁⟩
    exact Keep.seq (handle_keep _ h₁) fun _ _ _ h₂ _ => Keep.pure h₂ trivial

end Mutate

theorem mutate_safe {T : Type} {P : Ports} {call : Call} (args : MutateArgs) {m : Local}
    (hcall : call.Ordinary) (hm : m.Closed) :
    (AccountService.mutate P args : Action T (MutationOutcome T)).wp (watch T P call)
      (fun _ _ _ => True) m () := by
  unfold AccountService.mutate
  refine Coro.wp_seq (R := fun _ _ _ => True) (wp_transaction (Mutate.body_keep hm) ?_ ?_) ?_
    fun _ _ _ _ => trivial
  · rintro m₁ x f₁ ⟨h₁, -⟩
    refine ⟨h₁.commits hcall, ?_⟩
    rintro (e | _) -
    · exact rollsBack fun _ => trivial
    · trivial
  · intro m₁ e f₁ _
    exact rollsBack fun _ => trivial
  · rintro m₁ outcome _ -
    split <;> exact trivial

end PlaceGame
