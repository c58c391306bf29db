import PlaceGame.Accounts.CycleSafe

/-!
# PlaceGame.Accounts.ServiceSafe

The entry points of the account service under the monitor of account safety: each transaction commits
a row that the call may commit, and ends with no transaction open.
-/

namespace PlaceGame

open Coop

/-- Any call but a removal. -/
def Call.Ordinary (call : Call) : Prop := ∀ a actor, call ≠ .disableDrainRemove a actor

section Transactions

variable {T : Type} {P : Ports} {call : Call} {a : AccountId} {r₀ : GameAccount} {m m' : Local}
variable {f : Frame} {σ α β : Type} {s : σ}

def Commits (call : Call) (m : Local) : Local → Except Exc α → Frame → Prop :=
  fun m' r f' => m.Grows m' ∧ ∀ x, r = .ok x → m'.CommitOk call f'.writes

def Ended (m : Local) : Local → Except Exc α → σ → Prop := fun m' _ _ => m'.Closed ∧ m.Grows m'

theorem Local.Grows.closed (h : m.Grows m') : m.Grows m'.closed := ⟨h.boots, h.planRow⟩

theorem rollsBack {Q : Local → Except Exc α → σ → Prop} {e : Exc}
    (hq : ∀ e, Q m.closed (.error e) s) : RollsBack (watch T P call) Q m e s := by
  refine ⟨nofun, ?_⟩
  rintro (e | _) -
  · exact hq e
  · exact hq _

theorem transaction_safe {body : Tx T α} (hb : body.wp (watch T P call) (Commits call m) m {}) :
    (transaction body : Coro (sig T) σ α).wp (watch T P call) (Ended m) m s := by
  refine wp_transaction hb ?_ ?_
  · rintro m' x f ⟨hg, hc⟩
    refine ⟨hc x rfl, ?_⟩
    rintro (e | _) -
    · exact rollsBack fun _ => ⟨m'.closed_closed, hg.closed⟩
    · exact ⟨⟨rfl, rfl⟩, ⟨hg.boots, hg.planRow⟩⟩
  · rintro m' e f ⟨hg, -⟩
    exact rollsBack fun _ => ⟨m'.closed_closed, hg.closed⟩

/-- A session without an account object and without a new plan commits nothing that matters here. -/
theorem commitOk_of_unloaded (hl : f.loaded = none) (ht : f.sessionToken = none)
    (hn : f.newPlan = none) : m.CommitOk call f.writes := by
  refine ⟨?_, fun _ => ht, ?_⟩
  · intro b r h
    simp [Frame.writes, hl] at h
  · intro id plan h
    simp [Frame.writes, hn] at h

theorem change_of_evolves (hcall : call.Ordinary) {r : GameAccount}
    (h : GameAccount.Evolves call.FalseTombstone r₀ r) : Local.Change call a r₀ r := by
  unfold Local.Change
  split
  · exact absurd rfl (hcall _ _)
  · exact h

/-- The last edit of a transaction need not be one of the session cycle. -/
theorem Held.commitOk (h : Held a r₀ m f) (hcall : call.Ordinary) {f' : Frame}
    (hl : f'.loaded = some a) (hn : f'.newPlan = none)
    (he : GameAccount.Evolves call.FalseTombstone f.record f'.record)
    (hid : f'.record.gameAccountId = f.record.gameAccountId)
    (ht : m.TokenWrite f'.sessionToken r₀.sessionToken f'.record) : m.CommitOk call f'.writes := by
  refine ⟨?_, ?_, ?_⟩
  · intro b r hw
    simp only [Frame.writes, hl, Option.map_some, Option.some.injEq, Prod.mk.injEq] at hw
    obtain ⟨rfl, rfl⟩ := hw
    exact .inl ⟨r₀, h.row, hid.trans h.identity,
      change_of_evolves hcall (h.tightens.toEvolves.trans he), ht⟩
  · intro hw
    simp [Frame.writes, hl] at hw
  · intro id plan hw
    simp [Frame.writes, hn] at hw

/-- What the cycle leaves may be committed as it is. -/
theorem Held.commits (h : Held a r₀ m f) (hcall : call.Ordinary) : m.CommitOk call f.writes :=
  h.commitOk hcall h.loaded h.newPlan (GameAccount.Evolves.refl _) rfl h.token

theorem Leaves.commits {c : Tx T α} {Ψ : Local → α → Frame → Prop} {m₁ : Local}
    (h : c.wp (watch T P call) (Leaves a r₀ m Ψ) m₁ f) (hcall : call.Ordinary) :
    c.wp (watch T P call) (Commits call m) m₁ f :=
  Coro.wp_mono h fun _ _ _ hl => ⟨hl.2.1, fun _ _ => hl.1.commits hcall⟩

/-- A transaction goes on after a step of the cycle. -/
theorem Commits.seq {c : Tx T β} {g : β → Tx T α} {Φ : Local → β → Frame → Prop} {m₁ : Local}
    (hc : c.wp (watch T P call) (Leaves a r₀ m Φ) m₁ f)
    (hk : ∀ m' x f', Held a r₀ m' f' → m.Grows m' → Φ m' x f' →
      (g x).wp (watch T P call) (Commits call m) m' f') :
    (c >>= g).wp (watch T P call) (Commits call m) m₁ f := by
  refine Coro.wp_seq hc ?_ ?_
  · rintro m' x f' ⟨h', hg, hx⟩
    exact hk m' x f' h' hg (hx x rfl)
  · rintro m' e f' ⟨-, hg, -⟩
    exact ⟨hg, nofun⟩

theorem Commits.grow {c : Tx T α} {m₁ : Local} (hg : m.Grows m₁)
    (h : c.wp (watch T P call) (Commits call m₁) m₁ f) :
    c.wp (watch T P call) (Commits call m) m₁ f :=
  Coro.wp_mono h fun _ _ _ hl => ⟨hg.trans hl.1, hl.2⟩

theorem Commits.raise {m₁ : Local} (e : Exc) (hg : m.Grows m₁) :
    (raise e : Tx T α).wp (watch T P call) (Commits call m) m₁ f :=
  ⟨hg, nofun⟩

theorem Commits.pure {m₁ : Local} {x : α} (hg : m.Grows m₁) (h : m₁.CommitOk call f.writes) :
    (pure x : Tx T α).wp (watch T P call) (Commits call m) m₁ f :=
  ⟨hg, fun _ _ => h⟩

theorem Commits.await {o : Op T} {g : o.Val → Tx T α} {m₁ : Local} (hg : m.Grows m₁)
    (hok : m₁.ok P call o) (herr : ∀ e, m₁.next o (.error e) = m₁)
    (hk : ∀ v, Local.Answers o (.ok v) →
      (g v).wp (watch T P call) (Commits call m) (m₁.next o (.ok v)) f) :
    (await o >>= g).wp (watch T P call) (Commits call m) m₁ f := by
  rw [Coro.wp_bind, wp_await]
  refine ⟨hok, ?_⟩
  rintro (e | v) ha
  · rw [Local.watch_next, herr e]
    exact ⟨hg, nofun⟩
  · exact hk v ha

/-- A session that has just loaded the row it locked. -/
theorem Held.start {f : Frame} (hm : m.Closed) (hl : f.loaded = some a) (hr : f.record = r₀)
    (ht : f.sessionToken = none) (hn : f.newPlan = none) :
    Held a r₀ (m.next (T := T) (.accountForUpdate a) (.ok (some r₀))) f where
  row := by simp [Local.next, Local.lockedRow, hm.row]
  loaded := hl
  tightens := hr ▸ GameAccount.Tightens.refl _
  identity := by simp [Local.identity, Local.next, hm.flushed, hr]
  token := .inl ⟨ht, congrArg _ hr⟩
  newPlan := hn

/-- The row is locked and becomes the object of the session. -/
theorem requireForUpdate_safe {g : Unit → Tx T α} (hm : m.Closed)
    (hk : ∀ m' r₀ f', Held a r₀ m' f' → f'.record = r₀ → m.Grows m' →
      (g ()).wp (watch T P call) (Commits call m) m' f') :
    (requireForUpdate a >>= g).wp (watch T P call) (Commits call m) m {} := by
  unfold requireForUpdate
  rw [Coro.wp_bind, Coro.wp_bind, wp_await]
  refine ⟨nofun, ?_⟩
  rintro (e | row) -
  · exact ⟨Local.Grows.refl m, nofun⟩
  · cases row with
    | none => exact ⟨Local.Grows.refl m, nofun⟩
    | some r₀ =>
      rw [Coro.chain_ok, wp_modifyFrame, Coro.chain_ok, if_neg (by nofun)]
      exact hk _ r₀ _ (Held.start (T := T) hm rfl rfl rfl rfl) rfl ⟨List.Subset.refl _, rfl⟩

theorem lockAccount_safe {g : Unit → Tx T α} (hm : m.Closed)
    (hk : ∀ m' r₀ f', Held a r₀ m' f' → f'.record = r₀ → m.Grows m' →
      (g ()).wp (watch T P call) (Commits call m) m' f') :
    (AccountService.lockAccount a >>= g).wp (watch T P call) (Commits call m) m {} := by
  unfold AccountService.lockAccount
  have hreq := requireForUpdate_safe (P := P) hm hk
  rw [Coro.wp_bind] at hreq ⊢
  rw [Coro.wp_bind, wp_await]
  refine ⟨nofun, ?_⟩
  rintro (e | _) -
  · exact ⟨Local.Grows.refl m, nofun⟩
  · exact hreq

theorem Commits.check {c : Tx T β} {g : β → Tx T α} {p : β → Prop} {m₁ : Local}
    (hc : Checks (watch T P call) c p) (hg : m.Grows m₁)
    (hk : ∀ x, p x → (g x).wp (watch T P call) (Commits call m) m₁ f) :
    (c >>= g).wp (watch T P call) (Commits call m) m₁ f :=
  hc.seq (fun _ => ⟨hg, nofun⟩) hk

end Transactions

section Entries

variable {T : Type} {P : Ports} {call : Call} {a : AccountId} {r₀ : GameAccount} {m m' : Local}
variable {f : Frame} {σ α : Type} {s : σ}

open AccountService

/-- The first transaction part of an edit: the account is locked and its record has no marker. -/
theorem edit_safe {g : GameAccount → Tx T α} (hm : m.Closed)
    (hk : ∀ m' f', Held a f'.record m' f' → ¬ f'.record.Marked → m.Grows m' →
      (g f'.record).wp (watch T P call) (Commits call m) m' f') :
    (do lockAccount a; let r ← record; rejectRemovalMarker r; g r : Tx T α).wp (watch T P call)
      (Commits call m) m {} := by
  refine lockAccount_safe hm ?_
  rintro m' r₀ f' h rfl hg
  rw [Coro.wp_bind, wp_record, Coro.chain_ok]
  exact Commits.check (checks_rejectRemovalMarker f'.record) hg fun _ hu => hk m' f' h hu hg

theorem updateLabel_safe (label : String) (actor : Actor) (hcall : call.Ordinary) (hm : m.Closed) :
    (updateLabel a label actor : Action T ManagedAccount).wp (watch T P call) (Ended m) m () := by
  unfold updateLabel
  refine (checks_normalizeLabel label).seq (fun _ => ⟨hm, Local.Grows.refl m⟩) fun label' _ => ?_
  refine transaction_safe (edit_safe hm ?_)
  intro m' f' h hu hg
  simp only [Coro.wp_bind, wp_modifyRecord, wp_audit, Coro.chain_ok]
  exact Commits.pure hg (h.commitOk hcall h.loaded h.newPlan (GameAccount.evolves_label _) rfl
    h.token)

theorem setLifecycle_safe (action : String) (enabled : Bool) (actor : Actor)
    (hcall : call.Ordinary) (hm : m.Closed) :
    (setLifecycle a action enabled actor : Action T Unit).wp (watch T P call) (Ended m) m () := by
  unfold setLifecycle
  refine transaction_safe (edit_safe hm ?_)
  intro m' f' h hu hg
  simp only [Coro.wp_bind, wp_modifyRecord, wp_audit, Coro.chain_ok]
  exact ⟨hg, fun _ _ => h.commitOk hcall h.loaded h.newPlan (GameAccount.evolves_enabled _ hu) rfl
    h.token⟩

theorem pause_safe (reason : String) (actor : Actor) (hm : m.Closed) :
    (pause a reason actor : Action T Unit).wp (watch T P (.pause a reason actor)) (Ended m) m () := by
  unfold pause
  refine (checks_raiseIf _ _).seq (fun _ => ⟨hm, Local.Grows.refl m⟩) fun _ _ => ?_
  refine transaction_safe (edit_safe hm ?_)
  intro m' f' h hu hg
  simp only [Coro.wp_bind, wp_modifyRecord, wp_audit, Coro.chain_ok]
  have hcall : (Call.pause a reason actor).Ordinary := by
    intro b actor' heq
    cases heq
  exact ⟨hg, fun _ _ => h.commitOk hcall h.loaded h.newPlan (GameAccount.evolves_pause _ hu) rfl
    h.token⟩

theorem resume_safe (actor : Actor) (hcall : call.Ordinary) (hm : m.Closed) :
    (resume a actor : Action T Unit).wp (watch T P call) (Ended m) m () := by
  unfold resume rejectRemoved
  refine transaction_safe (lockAccount_safe hm ?_)
  rintro m' r₀ f' h rfl hg
  rw [Coro.wp_bind, wp_record, Coro.chain_ok]
  refine Commits.check (checks_raiseIf _ _) hg fun _ h1 => ?_
  refine Commits.check (checks_raiseIf _ _) hg fun _ h2 => ?_
  simp only [Coro.wp_bind, wp_modifyRecord, wp_audit, Coro.chain_ok]
  exact ⟨hg, fun _ _ => h.commitOk hcall h.loaded h.newPlan
    (GameAccount.evolves_resume (GameAccount.unmarked h1 h2)) rfl h.token⟩

theorem ensureSession_safe (actor : Actor) (hcall : call.Ordinary) (hm : m.Closed) :
    (ensureSession P a actor : Action T SessionState).wp (watch T P call) (Ended m) m () := by
  unfold ensureSession
  refine transaction_safe (lockAccount_safe hm ?_)
  rintro m' r₀ f' h rfl hg
  refine Commits.seq (Leaves.grow hg (ensureLocked_safe actor h)) ?_
  intro m'' resolution f'' h'' hg' _
  exact Commits.pure hg' (h''.commits hcall)

theorem snapshot_safe (actor : Actor) (hcall : call.Ordinary) (hm : m.Closed) :
    (snapshot P a actor : Action T AccountSnapshot).wp (watch T P call) (Ended m) m () := by
  unfold snapshot
  refine transaction_safe (lockAccount_safe hm ?_)
  rintro m' r₀ f' h rfl hg
  refine Commits.seq (Leaves.grow hg (ensureLocked_safe actor h)) ?_
  rintro m'' resolution f'' h'' hg' ⟨hr, -⟩
  exact Commits.grow hg' (Leaves.commits (saveSnapshot_safe resolution _ h'' hr) hcall)

/-- `locked`: the body gets an api bootstrapped to the record of an account that may be worked on. -/
theorem locked_safe {body : LockedAccount → Tx T α} {Φ : Local → α → Frame → Prop} (actor : Actor)
    (hcall : call.Ordinary) (hm : m.Closed)
    (hbody : ∀ m' r₀ f' locked, Held a r₀ m' f' → m.Grows m' → m'.Admitted a →
      m'.Bootstrapped a locked.api → m'.policy = some (a, locked.policy) →
      (body locked).wp (watch T P call) (Leaves a r₀ m' Φ) m' f') :
    (AccountService.locked P a actor body : Action T α).wp (watch T P call) (Ended m) m () := by
  unfold AccountService.locked
  refine Coro.wp_seq (transaction_safe (m := m) (lockAccount_safe hm ?_)) ?_ ?_
  · rintro m' r₀ f' h rfl hg
    rw [Coro.wp_bind, wp_record, Coro.chain_ok]
    refine Commits.check (checks_requireMutable _) hg ?_
    rintro - ⟨-, he⟩
    refine Commits.seq (Leaves.grow hg (ensureLocked_safe actor h)) ?_
    rintro m'' resolution f'' h'' hg' ⟨hr, hp⟩
    cases ha : resolution.api with
    | none => exact Commits.pure hg' (h''.commits hcall)
    | some session =>
      obtain ⟨api, g⟩ := session
      obtain ⟨hb, hid⟩ := hr api g ha
      have hpaused := hp (by rw [ha]; rfl)
      refine Commits.grow hg' (Commits.seq (saveSnapshot_safe resolution true h'' hr) ?_)
      rintro m₃ snapshot f₃ h₃ hg₃ hrec
      refine Commits.await hg₃ nofun (fun _ => rfl) ?_
      intro policy _
      have h₄ : Held a f'.record { m₃ with policy := some (a, policy) } f₃ :=
        h₃.learn rfl rfl (List.Subset.refl _)
      have hg₄ : m''.Grows { m₃ with policy := some (a, policy) } :=
        hg₃.trans ⟨List.Subset.refl _, rfl⟩
      refine Commits.seq (Leaves.grow hg₄ (hbody _ _ _
        ⟨a, api, policy, snapshot⟩ h₄ (hg'.trans hg₄) ⟨f'.record, h₄.row, he, hpaused⟩
        (h₄.bootstrapped (hg₃.boots hb) (hrec ▸ hid)) rfl)) ?_
      intro m₅ x f₅ h₅ hg₅ _
      exact Commits.pure hg₅ (h₅.commits hcall)
  · rintro m' outcome s' hend
    cases outcome <;> exact hend
  · exact fun _ _ _ hend => hend

theorem lockedContext_safe (actor : Actor) (hcall : call.Ordinary) (hm : m.Closed) :
    (lockedContext P a actor : Action T Unit).wp (watch T P call) (Ended m) m () := by
  refine locked_safe (Φ := fun _ _ _ => True) actor hcall hm ?_
  intro m' r₀ f' locked h _ _ hb _
  rw [wp_await]
  refine ⟨hb, ?_⟩
  intro r _
  cases r <;> exact ⟨h, Local.Grows.refl m', fun _ _ => trivial⟩

end Entries

section Credentials

variable {T : Type} {P : Ports} {call : Call} {a : AccountId} {r₀ : GameAccount} {m : Local}
variable {f : Frame}

open AccountService

theorem resolveStoredIdentity_safe (h : Held a r₀ m f) :
    (resolveStoredIdentity P : Tx T String).wp (watch T P call)
      (Leaves a r₀ m fun _ _ _ => True) m f := by
  unfold resolveStoredIdentity
  rw [Coro.wp_bind, wp_record, Coro.chain_ok]
  split
  · split
    · refine (checks_raiseIf _ _).seq (fun _ => Leaves.error h (Local.Grows.refl m)) fun _ _ => ?_
      refine Coro.wp_seq (loginAndBootstrap_safe _ _) ?_ ?_
      · rintro m' login f' ⟨rfl, hb, -⟩
        exact Leaves.pure (h.boots hb) hb.grows trivial
      · rintro m' e f' ⟨rfl, hb, -⟩
        exact Leaves.error (h.boots hb) hb.grows
    · exact Leaves.raise _ h (Local.Grows.refl m)
  · split
    · refine (checks_raiseIf _ _).seq (fun _ => Leaves.error h (Local.Grows.refl m)) fun _ _ => ?_
      refine Leaves.bootstrap h (Local.Grows.refl m) ?_
      intro m' r h' hg _
      split
      · exact Leaves.pure h' hg trivial
      · exact Leaves.raise _ h' hg
      · exact Leaves.raise _ h' hg
    · exact Leaves.raise _ h (Local.Grows.refl m)

theorem bindLegacy_safe (actor : Actor) (h : Held a r₀ m f) (hu : ¬ r₀.Marked) :
    (bindLegacy P a actor : Tx T (Option Exc)).wp (watch T P call)
      (Leaves a r₀ m fun _ _ _ => True) m f := by
  unfold bindLegacy
  rw [Coro.wp_bind, wp_record, Coro.chain_ok, Coro.wp_ite]
  refine ⟨fun _ => Leaves.pure h (Local.Grows.refl m) trivial, fun _ => ?_⟩
  refine wp_try (resolveStoredIdentity_safe h) ?_
  rintro m' r f' ⟨h', hg, -⟩
  split
  · exact Leaves.pure h' hg trivial
  · exact Leaves.raise _ h' hg
  · refine Leaves.seq (Leaves.grow hg (bindOrMatchIdentity_safe _ actor h' hu)) ?_
    intro m'' matched f'' h'' hg' _
    rw [Coro.wp_ite]
    exact ⟨fun _ => Leaves.pure h'' hg' trivial, fun _ => Leaves.pure h'' hg' trivial⟩

theorem verifyProposed_safe (proposed : Option String) (password : String) (h : Held a r₀ m f) :
    (verifyProposed P proposed password : Tx T (Option Login)).wp (watch T P call)
      (Leaves a r₀ m fun m' login _ => ∀ l, login = some l →
        (l.api, l.identity) ∈ m'.boots ∧ l.api = ⟨some l.token⟩) m f := by
  unfold verifyProposed
  cases proposed with
  | none => exact Leaves.pure h (Local.Grows.refl m) nofun
  | some username =>
    dsimp only
    rw [Coro.wp_ite]
    refine ⟨fun _ => Leaves.pure h (Local.Grows.refl m) nofun, fun _ => ?_⟩
    refine wp_try (loginAndBootstrap_safe username password) ?_
    rintro m' r f' ⟨rfl, hb, hl⟩
    split
    · refine Leaves.pure (h.boots hb) hb.grows ?_
      rintro l ⟨⟩
      exact hl _ rfl
    · rw [Coro.wp_ite]
      exact ⟨fun _ => Leaves.pure (h.boots hb) hb.grows nofun,
        fun _ => Leaves.raise _ (h.boots hb) hb.grows⟩

theorem rejectEdit_safe (actor : Actor) (action : String) (pending : Exc)
    (hcall : call.Ordinary) (h : Held a r₀ m f) :
    (rejectEdit a actor action pending : Tx T (Except Exc ManagedAccount)).wp (watch T P call)
      (Commits call m) m f := by
  unfold rejectEdit
  rw [Coro.wp_bind, wp_audit, Coro.chain_ok]
  exact Commits.pure (Local.Grows.refl m) ((h.audits _).commits hcall)

theorem applyCredentials_safe (username : Option String) (password : String) (actor : Actor)
    (hcall : call.Ordinary) (h : Held a r₀ m f) (hu : ¬ r₀.Marked) :
    (applyCredentials P a username password actor : Tx T (Except Exc ManagedAccount)).wp
      (watch T P call) (Commits call m) m f := by
  unfold applyCredentials
  rw [Coro.wp_bind, wp_record, Coro.chain_ok]
  dsimp only
  refine Commits.seq (verifyProposed_safe _ password h) ?_
  intro m' login f' h' hg hl
  split
  · rename_i proposed login _
    obtain ⟨hb, hapi⟩ := hl login rfl
    refine Commits.grow hg (Commits.seq (bindOrMatchIdentity_safe login.identity actor h' hu) ?_)
    intro m'' matched f'' h'' hg' hm
    rw [Coro.wp_ite]
    refine ⟨fun ht => ?_, fun _ => Commits.grow hg' (rejectEdit_safe actor _ _ hcall h'')⟩
    refine Commits.await (o := .clock) hg' nofun (fun _ => rfl) ?_
    intro now _
    simp only [Coro.wp_bind, wp_writeToken, wp_audit, wp_record, Coro.chain_ok]
    refine Commits.pure (hg'.trans ⟨List.Subset.refl _, rfl⟩) ?_
    have h₃ : Held a r₀ (m''.next (T := T) .clock (.ok now)) f'' :=
      h''.learn rfl rfl (List.Subset.refl _)
    refine h₃.commitOk hcall h₃.loaded h₃.newPlan
      (GameAccount.evolves_updateCredentials _ _ _ _ _ (h₃.unmarked hu)) rfl ?_
    exact .inr (.inr ⟨login.token, login.identity, rfl, rfl, hapi ▸ hg'.boots hb, hm ht⟩)
  · exact Commits.grow hg (rejectEdit_safe actor _ _ hcall h')

theorem applyTokenOnly_safe (sessionToken : String) (actor : Actor)
    (hcall : call.Ordinary) (h : Held a r₀ m f) (hu : ¬ r₀.Marked) :
    (applyTokenOnly P a sessionToken actor : Tx T (Except Exc ManagedAccount)).wp
      (watch T P call) (Commits call m) m f := by
  unfold applyTokenOnly
  rw [Coro.wp_bind, wp_attempt, wp_await]
  refine ⟨nofun, ?_⟩
  rintro r -
  rw [Coro.chain_ok]
  split
  · exact rejectEdit_safe actor _ _ hcall h
  · exact Commits.raise _ (Local.Grows.refl m)
  · rename_i identity
    have hb := Local.Boots.cons m ⟨some sessionToken⟩ identity
    refine Commits.grow hb.grows
      (Commits.seq (bindOrMatchIdentity_safe identity actor (h.boots hb) hu) ?_)
    intro m'' matched f'' h'' hg' hm
    rw [Coro.wp_ite]
    refine ⟨fun ht => ?_, fun _ => Commits.grow hg' (rejectEdit_safe actor _ _ hcall h'')⟩
    refine Commits.await (o := .clock) hg' nofun (fun _ => rfl) ?_
    intro now _
    simp only [Coro.wp_bind, wp_writeToken, wp_audit, wp_record, Coro.chain_ok]
    refine Commits.pure (hg'.trans ⟨List.Subset.refl _, rfl⟩) ?_
    have h₃ : Held a r₀ (m''.next (T := T) .clock (.ok now)) f'' :=
      h''.learn rfl rfl (List.Subset.refl _)
    refine h₃.commitOk hcall h₃.loaded h₃.newPlan
      (GameAccount.evolves_updateTokenOnly _ _ _ (h₃.unmarked hu)) rfl ?_
    exact .inr (.inr ⟨sessionToken, identity, rfl, rfl, hg'.boots List.mem_cons_self, hm ht⟩)

theorem ended_raisePending {α : Type} {c : Action T (Except Exc α)}
    (h : c.wp (watch T P call) (Ended m) m ()) :
    (do let outcome ← c; raisePending outcome : Action T α).wp (watch T P call) (Ended m) m () := by
  refine Coro.wp_seq h ?_ ?_
  · rintro m' outcome s' hend
    cases outcome <;> exact hend
  · exact fun _ _ _ hend => hend

theorem updateCredentials_safe (username : Option String) (password : String) (actor : Actor)
    (hcall : call.Ordinary) (hm : m.Closed) :
    (updateCredentials P a username password actor : Action T ManagedAccount).wp (watch T P call)
      (Ended m) m () := by
  unfold updateCredentials
  refine (checks_raiseIf _ _).seq (fun _ => ⟨hm, Local.Grows.refl m⟩) fun _ _ => ?_
  refine ended_raisePending (transaction_safe (edit_safe hm ?_))
  intro m' f' h hu hg
  refine Commits.seq (Leaves.grow hg (bindLegacy_safe actor h hu)) ?_
  intro m'' pending f'' h'' hg' _
  split
  · exact Commits.grow hg' (rejectEdit_safe actor _ _ hcall h'')
  · exact Commits.grow hg' (applyCredentials_safe username password actor hcall h'' hu)

theorem updateTokenOnly_safe (sessionToken : String) (actor : Actor)
    (hcall : call.Ordinary) (hm : m.Closed) :
    (updateTokenOnly P a sessionToken actor : Action T ManagedAccount).wp (watch T P call)
      (Ended m) m () := by
  unfold updateTokenOnly
  refine (checks_raiseIf _ _).seq (fun _ => ⟨hm, Local.Grows.refl m⟩) fun _ _ => ?_
  refine ended_raisePending (transaction_safe (edit_safe hm ?_))
  intro m' f' h hu hg
  refine Commits.seq (Leaves.grow hg (bindLegacy_safe actor h hu)) ?_
  intro m'' pending f'' h'' hg' _
  split
  · exact Commits.grow hg' (rejectEdit_safe actor _ _ hcall h'')
  · exact Commits.grow hg' (applyTokenOnly_safe sessionToken actor hcall h'' hu)

end Credentials

section Enrolment

variable {T : Type} {P : Ports} {call : Call} {m : Local}

open AccountService

/-- A new row is committed under the identity that its token was bootstrapped to. -/
theorem enroll_safe (row : GameAccount) (token identity action : String) (actor : Actor)
    (hp : row.pausedReason = none) (hc : row.Coherent) (hb : (⟨some token⟩, identity) ∈ m.boots) :
    (enroll row token identity action actor : Tx T (Option ManagedAccount)).wp (watch T P call)
      (Commits call m) m {} := by
  have hempty : ∀ m', m.Grows m' → ∀ (b : Option AccountId) (reason : String),
      (do conflict actor b reason; return none : Tx T (Option ManagedAccount)).wp (watch T P call)
        (Commits call m) m' {} := by
    intro m' hg b reason
    unfold conflict
    rw [Coro.wp_bind, wp_audit, Coro.chain_ok]
    exact Commits.pure hg (commitOk_of_unloaded rfl rfl rfl)
  unfold enroll
  refine Commits.await (Local.Grows.refl m) nofun (fun _ => rfl) ?_
  intro _ _
  refine Commits.await (Local.Grows.refl m) nofun (fun _ => rfl) ?_
  intro unresolved _
  rw [Coro.wp_ite]
  refine ⟨fun _ => hempty m (Local.Grows.refl m) _ _, fun _ => ?_⟩
  refine Commits.await (Local.Grows.refl m) nofun (fun _ => rfl) ?_
  intro existing _
  cases existing with
  | some existing => exact hempty m (Local.Grows.refl m) _ _
  | none =>
    refine Commits.await (o := .uuid) (Local.Grows.refl m) nofun (fun _ => rfl) ?_
    intro id _
    have hg : m.Grows { m with fresh := some id } := ⟨List.Subset.refl _, rfl⟩
    dsimp only
    rw [Coro.wp_bind, wp_modifyFrame, Coro.chain_ok]
    refine Commits.await hg nofun (fun _ => rfl) ?_
    intro flushed _
    rw [Coro.wp_ite]
    cases flushed with
    | false => exact ⟨nofun, fun _ => Commits.raise _ hg⟩
    | true =>
      refine ⟨fun _ => ?_, fun hne => absurd rfl hne⟩
      rw [Coro.wp_bind, wp_audit, Coro.chain_ok]
      refine Commits.pure ⟨List.Subset.refl _, rfl⟩ ⟨?_, ?_, ?_⟩
      case refine_2 =>
        intro hw
        simp [Frame.writes] at hw
      case refine_3 =>
        intro id plan hw
        simp [Frame.writes] at hw
      intro b r hw
      simp only [Frame.writes, Option.map_some, Option.some.injEq, Prod.mk.injEq] at hw
      obtain ⟨rfl, rfl⟩ := hw
      exact .inr ⟨⟨rfl, hp, hc, identity, rfl, rfl⟩,
        .inr (.inr ⟨token, identity, rfl, rfl, hb, rfl⟩)⟩

theorem ended_conflict {c : Action T (Option ManagedAccount)}
    (h : c.wp (watch T P call) (Ended m) m ()) :
    (do
      match ← c with
      | some account => return account
      | none => raise .accountIdentityConflict : Action T ManagedAccount).wp (watch T P call)
      (Ended m) m () := by
  refine Coro.wp_seq h ?_ ?_
  · rintro m' outcome s' hend
    cases outcome <;> exact hend
  · exact fun _ _ _ hend => hend

theorem Ended.grow {σ α : Type} {s : σ} {c : Coro (sig T) σ α} {m₁ : Local} (hg : m.Grows m₁)
    (h : c.wp (watch T P call) (Ended m₁) m₁ s) : c.wp (watch T P call) (Ended m) m₁ s :=
  Coro.wp_mono h fun _ _ _ hl => ⟨hl.1, hg.trans hl.2⟩

theorem Local.Boots.closed {m' : Local} (hb : m.Boots m') (hm : m.Closed) : m'.Closed := by
  obtain ⟨bs, -, rfl⟩ := hb
  exact ⟨hm.row, hm.flushed⟩

theorem addCredentials_safe (label username password : String) (actor : Actor) (hm : m.Closed) :
    (addCredentials P label username password actor : Action T ManagedAccount).wp (watch T P call)
      (Ended m) m () := by
  unfold addCredentials
  refine (checks_normalizeLabel label).seq (fun _ => ⟨hm, Local.Grows.refl m⟩) fun label' _ => ?_
  refine Coro.wp_seq (loginAndBootstrap_safe username password) ?_ ?_
  · rintro m' login s' ⟨rfl, hb, hl⟩
    obtain ⟨hmem, hapi⟩ := hl login rfl
    rw [Coro.wp_bind, wp_clock]
    refine ⟨nofun, ?_⟩
    rintro (e | now) -
    · exact ⟨hb.closed hm, hb.grows⟩
    · have hg : m.Grows { m' with now := some now } := hb.grows.trans ⟨List.Subset.refl _, rfl⟩
      have hc : ({ m' with now := some now } : Local).Closed :=
        ⟨(hb.closed hm).row, (hb.closed hm).flushed⟩
      refine Ended.grow hg ?_
      refine (checks_raiseIf _ _).seq (fun _ => ⟨hc, Local.Grows.refl _⟩) fun _ _ => ?_
      exact ended_conflict (transaction_safe
        (enroll_safe _ _ _ _ actor rfl nofun (hapi ▸ hmem)))
  · rintro m' e s' ⟨rfl, hb, -⟩
    exact ⟨hb.closed hm, hb.grows⟩

theorem addTokenOnly_safe (label sessionToken : String) (actor : Actor) (hm : m.Closed) :
    (addTokenOnly P label sessionToken actor : Action T ManagedAccount).wp (watch T P call)
      (Ended m) m () := by
  unfold addTokenOnly bootstrapProposed
  refine (checks_normalizeLabel label).seq (fun _ => ⟨hm, Local.Grows.refl m⟩) fun label' _ => ?_
  refine (checks_raiseIf _ _).seq (fun _ => ⟨hm, Local.Grows.refl m⟩) fun _ _ => ?_
  rw [Coro.wp_bind, Coro.wp_bind, wp_attempt, wp_await]
  refine ⟨nofun, ?_⟩
  rintro (e | identity) -
  · rw [Coro.chain_ok]
    split
    · rename_i heq
      cases heq
    · exact ⟨hm, Local.Grows.refl m⟩
    · exact ⟨hm, Local.Grows.refl m⟩
  · have hb := Local.Boots.cons m ⟨some sessionToken⟩ identity
    refine Ended.grow hb.grows ?_
    refine (checks_raiseIf _ _).seq (fun _ => ⟨hb.closed hm, Local.Grows.refl _⟩) fun _ _ => ?_
    rw [Coro.wp_bind, wp_clock]
    refine ⟨nofun, ?_⟩
    rintro (e | now) -
    · exact ⟨hb.closed hm, Local.Grows.refl _⟩
    · refine Ended.grow ⟨List.Subset.refl _, rfl⟩ ?_
      exact ended_conflict (transaction_safe
        (enroll_safe _ _ _ _ actor rfl (fun _ => ⟨rfl, rfl⟩) List.mem_cons_self))

end Enrolment

end PlaceGame
