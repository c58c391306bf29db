import PlaceGame.Accounts.Watch

/-!
# PlaceGame.Accounts.CycleSafe

The session cycle under the monitor of account safety.

`Held` is the relation between what the call knows and the session it works in, while the row `r₀` of
an account is locked. Every function of the cycle preserves it, and hands out an api only together
with the proof that it was bootstrapped to the record's identity.
-/

namespace PlaceGame

open Coop

/-- The session works on the locked account `a`, whose row is `r₀`. -/
structure Held (a : AccountId) (r₀ : GameAccount) (m : Local) (f : Frame) : Prop where
  row : m.row = some (a, r₀)
  loaded : f.loaded = some a
  tightens : GameAccount.Tightens r₀ f.record
  identity : f.record.gameAccountId = m.identity a r₀
  token : m.TokenWrite f.sessionToken r₀.sessionToken f.record
  newPlan : f.newPlan = none

namespace Local

structure Grows (m m' : Local) : Prop where
  boots : m.boots ⊆ m'.boots
  planRow : m'.planRow = m.planRow

def Boots (m m' : Local) : Prop := ∃ bs, m.boots ⊆ bs ∧ m' = { m with boots := bs }

variable {m m' m'' : Local}

theorem Grows.refl (m : Local) : m.Grows m := ⟨List.Subset.refl _, rfl⟩

theorem Grows.trans (h : m.Grows m') (h' : m'.Grows m'') : m.Grows m'' :=
  ⟨List.Subset.trans h.boots h'.boots, h'.planRow.trans h.planRow⟩

theorem Boots.refl (m : Local) : m.Boots m := ⟨m.boots, List.Subset.refl _, rfl⟩

theorem Boots.trans (h : m.Boots m') (h' : m'.Boots m'') : m.Boots m'' := by
  obtain ⟨bs, hs, rfl⟩ := h
  obtain ⟨bs', hs', rfl⟩ := h'
  exact ⟨bs', List.Subset.trans hs hs', rfl⟩

theorem Boots.cons (m : Local) (api : GameApi) (g : String) :
    m.Boots { m with boots := (api, g) :: m.boots } :=
  ⟨_, List.subset_cons_self _ _, rfl⟩

theorem Boots.grows (h : m.Boots m') : m.Grows m' := by
  obtain ⟨bs, hs, rfl⟩ := h
  exact ⟨hs, rfl⟩

theorem TokenWrite.mono {write : Option (Option String)} {old : Option String} {r : GameAccount}
    (h : m.TokenWrite write old r) (hb : m.boots ⊆ m'.boots) : m'.TokenWrite write old r := by
  rcases h with h | h | ⟨token, g, h1, h2, h3, h4⟩
  · exact .inl h
  · exact .inr (.inl h)
  · exact .inr (.inr ⟨token, g, h1, h2, hb h3, h4⟩)

end Local

section Held

variable {a : AccountId} {r₀ : GameAccount} {m m' : Local} {f : Frame}

/-- What the call learns without touching the transaction keeps the relation. -/
theorem Held.learn (h : Held a r₀ m f) (hrow : m'.row = m.row) (hfl : m'.flushed = m.flushed)
    (hb : m.boots ⊆ m'.boots) : Held a r₀ m' f where
  row := hrow.trans h.row
  loaded := h.loaded
  tightens := h.tightens
  identity := by
    rw [h.identity]
    unfold Local.identity
    rw [hfl]
  token := h.token.mono hb
  newPlan := h.newPlan

theorem Held.boots (h : Held a r₀ m f) (hb : m.Boots m') : Held a r₀ m' f := by
  obtain ⟨bs, hs, rfl⟩ := hb
  exact h.learn rfl rfl hs

/-- An edit of the cycle that leaves identity and token alone. -/
theorem Held.edit {g : GameAccount → GameAccount} (h : Held a r₀ m f)
    (ht : GameAccount.Tightens f.record (g f.record))
    (hid : (g f.record).gameAccountId = f.record.gameAccountId)
    (htok : (g f.record).sessionToken = f.record.sessionToken) :
    Held a r₀ m { f with record := g f.record } where
  row := h.row
  loaded := h.loaded
  tightens := h.tightens.trans ht
  identity := hid.trans h.identity
  token := by
    rcases h.token with ⟨h1, h2⟩ | ⟨h1, h2⟩ | ⟨token, i, h1, h2, h3, h4⟩
    · exact .inl ⟨h1, htok.trans h2⟩
    · exact .inr (.inl ⟨h1, htok.trans h2⟩)
    · exact .inr (.inr ⟨token, i, h1, htok.trans h2, h3, hid.trans h4⟩)
  newPlan := h.newPlan

theorem Held.audits (h : Held a r₀ m f) (events : List AuditEvent) :
    Held a r₀ m { f with audits := events } :=
  ⟨h.row, h.loaded, h.tightens, h.identity, h.token, h.newPlan⟩

theorem Held.snapshots (h : Held a r₀ m f) (rows : List AccountSnapshotRow) :
    Held a r₀ m { f with snapshots := rows } :=
  ⟨h.row, h.loaded, h.tightens, h.identity, h.token, h.newPlan⟩

/-- The markers of the record are those of the locked row. -/
theorem Held.marked_iff (h : Held a r₀ m f) : f.record.Marked ↔ r₀.Marked :=
  ⟨h.tightens.unmarked, fun hm =>
    (GameAccount.marked_of_guarded (h.tightens.marked hm)).mpr hm⟩

theorem Held.unmarked (h : Held a r₀ m f) (hu : ¬ r₀.Marked) : ¬ f.record.Marked := fun hm =>
  hu (h.marked_iff.mp hm)

theorem Held.bootstrapped (h : Held a r₀ m f) {api : GameApi} {g : String}
    (hb : (api, g) ∈ m.boots) (hg : f.record.gameAccountId = some g) : m.Bootstrapped a api :=
  ⟨r₀, g, h.row, hb, h.identity ▸ hg⟩

/-- What a step of the cycle leaves behind: the account is still held, and a result satisfies `Φ`. -/
def Leaves (a : AccountId) (r₀ : GameAccount) (m : Local) {α : Type}
    (Φ : Local → α → Frame → Prop) : Local → Except Exc α → Frame → Prop :=
  fun m' r f' => Held a r₀ m' f' ∧ m.Grows m' ∧ ∀ x, r = .ok x → Φ m' x f'

end Held

section Cycle

variable {T : Type} {P : Ports} {call : Call} {a : AccountId} {r₀ : GameAccount} {m : Local}
variable {f : Frame} {σ : Type} {s : σ}

theorem loginOnce_safe (username password : String) :
    (loginOnce P username password : Coro (sig T) σ Login).wp (watch T P call)
      (fun m' r s' => s' = s ∧ m.Boots m' ∧ ∀ login, r = .ok login →
        (login.api, login.identity) ∈ m'.boots ∧ login.api = ⟨some login.token⟩) m s := by
  unfold loginOnce
  rw [Coro.wp_bind, wp_await]
  refine ⟨nofun, ?_⟩
  rintro (e | token) -
  · exact ⟨rfl, Local.Boots.refl m, nofun⟩
  · refine ⟨nofun, ?_⟩
    rintro (e | identity) -
    · exact ⟨rfl, Local.Boots.refl m, nofun⟩
    · refine ⟨rfl, Local.Boots.cons m _ _, ?_⟩
      rintro login ⟨⟩
      exact ⟨List.mem_cons_self, rfl⟩

theorem loginAttempts_safe (username password : String) (left : Nat) :
    (loginAttempts P username password left : Coro (sig T) σ Login).wp (watch T P call)
      (fun m' r s' => s' = s ∧ m.Boots m' ∧ ∀ login, r = .ok login →
        (login.api, login.identity) ∈ m'.boots ∧ login.api = ⟨some login.token⟩) m s := by
  induction left generalizing m with
  | zero => exact ⟨rfl, Local.Boots.refl m, nofun⟩
  | succ left ih =>
    unfold loginAttempts
    refine wp_try (loginOnce_safe username password) ?_
    rintro m' r s' ⟨rfl, hb, hl⟩
    split
    · rename_i login
      exact ⟨rfl, hb, hl⟩
    · have hnext : (loginAttempts P username password left : Coro (sig T) σ Login).wp
          (watch T P call) (fun m'' r s'' => s'' = s' ∧ m.Boots m'' ∧ ∀ login, r = .ok login →
            (login.api, login.identity) ∈ m''.boots ∧ login.api = ⟨some login.token⟩) m' s' := by
        refine Coro.wp_mono ih ?_
        rintro m'' r s'' ⟨rfl, hb', hl'⟩
        exact ⟨rfl, hb.trans hb', hl'⟩
      dsimp only
      rw [Coro.wp_ite]
      refine ⟨fun _ => ?_, fun _ => hnext⟩
      rw [Coro.wp_bind, wp_await]
      refine ⟨nofun, ?_⟩
      rintro (e | _) -
      · exact ⟨rfl, hb, nofun⟩
      · exact hnext
    · exact ⟨rfl, hb, nofun⟩

theorem loginAndBootstrap_safe (username password : String) :
    (loginAndBootstrap P username password : Coro (sig T) σ Login).wp (watch T P call)
      (fun m' r s' => s' = s ∧ m.Boots m' ∧ ∀ login, r = .ok login →
        (login.api, login.identity) ∈ m'.boots ∧ login.api = ⟨some login.token⟩) m s :=
  loginAttempts_safe username password 3

section Leaves

variable {α β : Type} {Φ : Local → β → Frame → Prop} {Ψ : Local → α → Frame → Prop} {m₁ : Local}

theorem Leaves.grow {c : Tx T α} (hg : m.Grows m₁)
    (h : c.wp (watch T P call) (Leaves a r₀ m₁ Ψ) m₁ f) :
    c.wp (watch T P call) (Leaves a r₀ m Ψ) m₁ f :=
  Coro.wp_mono h fun _ _ _ hl => ⟨hl.1, hg.trans hl.2.1, hl.2.2⟩

theorem Leaves.mono {c : Tx T α} {Ψ' : Local → α → Frame → Prop}
    (h : c.wp (watch T P call) (Leaves a r₀ m Ψ) m₁ f) (hΨ : ∀ m x f, Ψ m x f → Ψ' m x f) :
    c.wp (watch T P call) (Leaves a r₀ m Ψ') m₁ f :=
  Coro.wp_mono h fun _ _ _ hl => ⟨hl.1, hl.2.1, fun x hx => hΨ _ x _ (hl.2.2 x hx)⟩

theorem Leaves.pure {x : α} (h : Held a r₀ m₁ f) (hg : m.Grows m₁) (hx : Ψ m₁ x f) :
    (pure x : Tx T α).wp (watch T P call) (Leaves a r₀ m Ψ) m₁ f := by
  refine ⟨h, hg, ?_⟩
  rintro y ⟨⟩
  exact hx

theorem Leaves.raise (e : Exc) (h : Held a r₀ m₁ f) (hg : m.Grows m₁) :
    (raise e : Tx T α).wp (watch T P call) (Leaves a r₀ m Ψ) m₁ f :=
  ⟨h, hg, nofun⟩

theorem Leaves.error {e : Exc} (h : Held a r₀ m₁ f) (hg : m.Grows m₁) :
    Leaves a r₀ m Ψ m₁ (.error e) f :=
  ⟨h, hg, nofun⟩

/-- An error passes through, a value goes on from what the first part left. -/
theorem Leaves.seq {c : Tx T β} {g : β → Tx T α}
    (hc : c.wp (watch T P call) (Leaves a r₀ m Φ) m₁ f)
    (hk : ∀ m' x f', Held a r₀ m' f' → m.Grows m' → Φ m' x f' →
      (g x).wp (watch T P call) (Leaves a r₀ m Ψ) m' f') :
    (c >>= g).wp (watch T P call) (Leaves a r₀ m Ψ) m₁ f := by
  refine Coro.wp_seq hc ?_ ?_
  · rintro m' x f' ⟨h', hg, hx⟩
    exact hk m' x f' h' hg (hx x rfl)
  · rintro m' e f' ⟨h', hg, -⟩
    exact ⟨h', hg, nofun⟩

theorem Leaves.await {o : Op T} {g : o.Val → Tx T α} (h : Held a r₀ m₁ f) (hg : m.Grows m₁)
    (hok : m₁.ok P call o) (herr : ∀ e, m₁.next o (.error e) = m₁)
    (hk : ∀ v, Local.Answers o (.ok v) →
      (g v).wp (watch T P call) (Leaves a r₀ m Ψ) (m₁.next o (.ok v)) f) :
    (await o >>= g).wp (watch T P call) (Leaves a r₀ m Ψ) m₁ f := by
  rw [Coro.wp_bind, wp_await]
  refine ⟨hok, ?_⟩
  rintro (e | v) ha
  · rw [Local.watch_next, herr e]
    exact ⟨h, hg, nofun⟩
  · exact hk v ha

theorem Leaves.clock {g : Time → Tx T α} (h : Held a r₀ m₁ f) (hg : m.Grows m₁)
    (hk : ∀ now, Held a r₀ { m₁ with now := some now } f → m.Grows { m₁ with now := some now } →
      (g now).wp (watch T P call) (Leaves a r₀ m Ψ) { m₁ with now := some now } f) :
    (clock >>= g).wp (watch T P call) (Leaves a r₀ m Ψ) m₁ f :=
  Leaves.await (o := .clock) h hg nofun (fun _ => rfl) fun now _ =>
    hk now (h.learn rfl rfl (List.Subset.refl _)) (hg.trans ⟨List.Subset.refl _, rfl⟩)

theorem Leaves.bootstrap {api : GameApi} {g : Except Exc String → Tx T α} (h : Held a r₀ m₁ f)
    (hg : m.Grows m₁)
    (hk : ∀ m' r, Held a r₀ m' f → m.Grows m' → (∀ i, r = .ok i → (api, i) ∈ m'.boots) →
      (g r).wp (watch T P call) (Leaves a r₀ m Ψ) m' f) :
    (attempt (PlaceGame.await (.bootstrap api)) >>= g).wp (watch T P call) (Leaves a r₀ m Ψ) m₁ f := by
  rw [Coro.wp_bind, wp_attempt, wp_await]
  refine ⟨nofun, ?_⟩
  rintro (e | i) -
  · exact hk m₁ (.error e) h hg nofun
  · have hb := Local.Boots.cons m₁ api i
    refine hk _ (.ok i) (h.boots hb) (hg.trans hb.grows) ?_
    rintro i' ⟨⟩
    exact List.mem_cons_self

end Leaves

theorem unauthenticated_safe (h : Held a r₀ m f) :
    (unauthenticated a : Tx T SessionResolution).wp (watch T P call)
      (Leaves a r₀ m fun _ resolution _ => resolution.api = none) m f := by
  unfold unauthenticated
  simp only [Coro.wp_bind, wp_record, Coro.chain_ok]
  exact Leaves.pure h (Local.Grows.refl m) rfl

theorem identityMismatch_safe (actor : Actor) (h : Held a r₀ m f) (hu : ¬ r₀.Marked) :
    (identityMismatch a actor : Tx T Unit).wp (watch T P call)
      (Leaves a r₀ m fun _ _ _ => True) m f := by
  unfold identityMismatch
  refine Leaves.clock h (Local.Grows.refl m) ?_
  intro now hm hg
  simp only [Coro.wp_bind, wp_modifyRecord, Coro.chain_ok, wp_audit]
  have he := hm.edit (GameAccount.tightens_identityMismatch now (h.unmarked hu)) rfl rfl
  exact ⟨he.audits _, hg, fun _ _ => trivial⟩

/-- Binding a record without identity, after the game's answer was flushed. -/
theorem Held.bind {g : String} (h : Held a r₀ m f) (hu : ¬ r₀.Marked)
    (hn : f.record.gameAccountId = none) :
    Held a r₀ { m with flushed := some (a, g) } { f with record := f.record.bindIdentity g } where
  row := h.row
  loaded := h.loaded
  tightens := h.tightens.trans (GameAccount.tightens_bindIdentity g (h.unmarked hu))
  identity := by
    have hid := h.identity
    rw [hn] at hid
    unfold Local.identity at hid ⊢
    rw [Eq.comm, Option.or_eq_none_iff] at hid
    simp [hid.1, GameAccount.bindIdentity]
  token := by
    rcases h.token with h1 | h1 | ⟨token, i, -, -, -, h4⟩
    · exact .inl h1
    · exact .inr (.inl h1)
    · rw [hn] at h4
      cases h4
  newPlan := h.newPlan

theorem bindOrMatchIdentity_safe (g : String) (actor : Actor) (h : Held a r₀ m f)
    (hu : ¬ r₀.Marked) :
    (bindOrMatchIdentity a g actor : Tx T Bool).wp (watch T P call)
      (Leaves a r₀ m fun _ matched f' => matched = true → f'.record.gameAccountId = some g) m f := by
  have hmismatch : (do identityMismatch a actor; return false : Tx T Bool).wp (watch T P call)
      (Leaves a r₀ m fun _ matched f' => matched = true → f'.record.gameAccountId = some g) m f :=
    Leaves.seq (identityMismatch_safe actor h hu) fun _ _ _ h' hg _ => Leaves.pure h' hg nofun
  unfold bindOrMatchIdentity
  rw [Coro.wp_ite]
  refine ⟨fun _ => Leaves.pure h (Local.Grows.refl m) nofun, fun _ => ?_⟩
  rw [Coro.wp_bind, wp_record, Coro.chain_ok]
  cases hn : f.record.gameAccountId with
  | none =>
    dsimp only
    refine Leaves.await h (Local.Grows.refl m) nofun (fun _ => rfl) ?_
    intro existing _
    rw [Coro.wp_ite]
    refine ⟨fun _ => hmismatch, fun _ => ?_⟩
    refine Leaves.await h (Local.Grows.refl m) nofun (fun _ => rfl) ?_
    intro flushed _
    rw [Coro.wp_ite]
    cases flushed with
    | true =>
      refine ⟨fun _ => ?_, fun hne => absurd rfl hne⟩
      rw [Coro.wp_bind, wp_modifyRecord, Coro.chain_ok]
      exact Leaves.pure (h.bind hu hn) ⟨List.Subset.refl _, rfl⟩ fun _ => rfl
    | false => exact ⟨nofun, fun _ => hmismatch⟩
  | some bound =>
    dsimp only
    rw [Coro.wp_ite]
    refine ⟨fun hb => ?_, fun _ => hmismatch⟩
    exact Leaves.pure h (Local.Grows.refl m) fun _ => by rw [hn, hb]

/-- What a caller gets out of a resolution: an api bootstrapped to the record's identity. -/
def Resolved (m : Local) (resolution : SessionResolution) (f : Frame) : Prop :=
  ∀ api g, resolution.api = some (api, g) →
    (api, g) ∈ m.boots ∧ f.record.gameAccountId = some g

theorem resolved_of_none {resolution : SessionResolution} (h : resolution.api = none) :
    Resolved m resolution f := by
  intro api g ha
  rw [h] at ha
  cases ha

theorem unresolved_safe (h : Held a r₀ m f) :
    (unauthenticated a : Tx T SessionResolution).wp (watch T P call) (Leaves a r₀ m Resolved) m f :=
  Leaves.mono (unauthenticated_safe h) fun _ _ _ hn => resolved_of_none hn

theorem pauseForRefresh_safe (actor : Actor) (h : Held a r₀ m f) (hu : ¬ r₀.Marked) :
    (pauseForRefresh a actor : Tx T SessionResolution).wp (watch T P call)
      (Leaves a r₀ m Resolved) m f := by
  unfold pauseForRefresh
  refine Leaves.clock h (Local.Grows.refl m) ?_
  intro now hm hg
  simp only [Coro.wp_bind, wp_modifyRecord, Coro.chain_ok, wp_audit]
  have he := hm.edit (GameAccount.tightens_pauseForRefresh now (h.unmarked hu)) rfl rfl
  exact Leaves.grow hg (unresolved_safe (he.audits _))

theorem recordAuthFailure_safe (actor : Actor) (h : Held a r₀ m f) (hu : ¬ r₀.Marked) :
    (recordAuthFailure a actor : Tx T SessionResolution).wp (watch T P call)
      (Leaves a r₀ m Resolved) m f := by
  unfold recordAuthFailure
  refine Leaves.clock h (Local.Grows.refl m) ?_
  intro now hm hg
  simp only [Coro.wp_bind, wp_modifyRecord, wp_record, Coro.chain_ok, wp_audit]
  have he := hm.edit (GameAccount.tightens_recordAuthFailure now (h.unmarked hu))
    (GameAccount.recordAuthFailure_gameAccountId now _)
    (GameAccount.recordAuthFailure_sessionToken now _)
  exact Leaves.grow hg (unresolved_safe (he.audits _))

theorem authenticated_safe (api : GameApi) (g : String) (now : Time) (h : Held a r₀ m f)
    (hb : (api, g) ∈ m.boots) (hid : f.record.gameAccountId = some g) :
    (authenticated a api g now : Tx T SessionResolution).wp (watch T P call)
      (Leaves a r₀ m Resolved) m f := by
  unfold authenticated
  simp only [Coro.wp_bind, wp_modifyRecord, wp_record, Coro.chain_ok]
  refine Leaves.pure (h.edit (GameAccount.tightens_succeed now) rfl rfl) (Local.Grows.refl m) ?_
  rintro api' g' ⟨⟩
  exact ⟨hb, hid⟩

theorem matchSession_safe (api : GameApi) (g : String) (actor : Actor) (now : Time)
    (h : Held a r₀ m f) (hu : ¬ r₀.Marked) (hb : (api, g) ∈ m.boots) :
    (matchSession a actor api g now : Tx T SessionResolution).wp (watch T P call)
      (Leaves a r₀ m Resolved) m f := by
  unfold matchSession
  refine Leaves.seq (bindOrMatchIdentity_safe g actor h hu) ?_
  intro m' matched f' h' hg hm
  rw [Coro.wp_ite]
  exact ⟨fun ht => Leaves.grow hg (authenticated_safe api g now h' (hg.boots hb) (hm ht)),
    fun _ => Leaves.grow hg (unresolved_safe h')⟩

theorem ensureTokenOnly_safe (actor : Actor) (token : String) (now : Time) (h : Held a r₀ m f)
    (hu : ¬ r₀.Marked) :
    (ensureTokenOnly a actor token now : Tx T SessionResolution).wp (watch T P call)
      (Leaves a r₀ m Resolved) m f := by
  unfold ensureTokenOnly
  refine Leaves.bootstrap h (Local.Grows.refl m) ?_
  intro m' r h' hg hb
  split
  · exact Leaves.grow hg (pauseForRefresh_safe actor h' hu)
  · exact Leaves.raise _ h' hg
  · exact Leaves.grow hg (matchSession_safe _ _ actor now h' hu (hb _ rfl))

theorem useStoredToken_safe (actor : Actor) (token : String) (now : Time) (h : Held a r₀ m f)
    (hu : ¬ r₀.Marked) :
    (useStoredToken a actor token now : Tx T (Option SessionResolution)).wp (watch T P call)
      (Leaves a r₀ m fun m' resolution f' => ∀ x, resolution = some x → Resolved m' x f') m f := by
  unfold useStoredToken
  refine Leaves.bootstrap h (Local.Grows.refl m) ?_
  intro m' r h' hg hb
  split
  · exact Leaves.pure h' hg nofun
  · exact Leaves.raise _ h' hg
  · refine Leaves.seq (Leaves.grow hg (matchSession_safe _ _ actor now h' hu (hb _ rfl))) ?_
    intro m'' resolution f'' h'' hg' hr
    refine Leaves.pure h'' hg' ?_
    rintro x ⟨⟩
    exact hr

/-- A renewed session: the new token was bootstrapped to the record's identity. -/
theorem Held.renew {token g : String} (expiry : Option Time) (now : Time) (h : Held a r₀ m f)
    (hu : ¬ r₀.Marked) (hb : (⟨some token⟩, g) ∈ m.boots) (hid : f.record.gameAccountId = some g) :
    Held a r₀ m
      { f with record := f.record.renew token expiry now, sessionToken := some (some token) } where
  row := h.row
  loaded := h.loaded
  tightens := h.tightens.trans (GameAccount.tightens_renew token expiry now (h.unmarked hu))
  identity := h.identity
  token := .inr (.inr ⟨token, g, rfl, rfl, hb, hid⟩)
  newPlan := h.newPlan

theorem renewSession_safe (actor : Actor) (now : Time) (h : Held a r₀ m f) (hu : ¬ r₀.Marked) :
    (renewSession P a actor now : Tx T SessionResolution).wp (watch T P call)
      (Leaves a r₀ m Resolved) m f := by
  unfold renewSession
  rw [Coro.wp_bind, wp_record, Coro.chain_ok]
  split
  · rename_i username password _ _
    rw [Coro.wp_bind, wp_raiseIf]
    refine ⟨fun _ => Leaves.error h (Local.Grows.refl m), fun _ => ?_⟩
    rw [Coro.chain_ok]
    refine Coro.wp_seq (loginAndBootstrap_safe username password) ?_ ?_
    · rintro m' login f' ⟨rfl, hb, hl⟩
      obtain ⟨hmem, hapi⟩ := hl login rfl
      refine Leaves.grow hb.grows (Leaves.seq
        (bindOrMatchIdentity_safe login.identity actor (h.boots hb) hu) ?_)
      intro m'' matched f'' h'' hg hm
      rw [Coro.wp_ite]
      refine ⟨fun ht => ?_, fun _ => Leaves.grow hg (unresolved_safe h'')⟩
      rw [Coro.wp_bind, wp_writeToken, Coro.chain_ok]
      have hmem' := hg.boots hmem
      refine Leaves.pure (h''.renew login.expiry now hu (hapi ▸ hmem') (hm ht)) hg ?_
      rintro api g ⟨⟩
      exact ⟨hmem', hm ht⟩
    · rintro m' e f' ⟨rfl, hb, -⟩
      exact Leaves.error (h.boots hb) hb.grows
  · exact Leaves.error h (Local.Grows.refl m)

theorem ensureUnpaused_safe (actor : Actor) (now : Time) (h : Held a r₀ m f) (hu : ¬ r₀.Marked) :
    (ensureUnpaused P a actor now : Tx T SessionResolution).wp (watch T P call)
      (Leaves a r₀ m Resolved) m f := by
  unfold ensureUnpaused
  rw [Coro.wp_bind, wp_record, Coro.chain_ok]
  dsimp only
  split
  · exact pauseForRefresh_safe actor h hu
  · rw [Coro.wp_ite]
    exact ⟨fun _ => pauseForRefresh_safe actor h hu, fun _ => ensureTokenOnly_safe actor _ now h hu⟩
  · exact renewSession_safe actor now h hu
  · rw [Coro.wp_ite]
    refine ⟨fun _ => renewSession_safe actor now h hu, fun _ => ?_⟩
    refine Leaves.seq (useStoredToken_safe actor _ now h hu) ?_
    intro m' resolution f' h' hg hr
    cases resolution with
    | some resolution => exact Leaves.pure h' hg (hr resolution rfl)
    | none => exact Leaves.grow hg (renewSession_safe actor now h' hu)

/-- A session is only resolved for a record that was not paused. -/
theorem ensureLocked_safe (actor : Actor) (h : Held a r₀ m f) :
    (ensureLocked P a actor : Tx T SessionResolution).wp (watch T P call)
      (Leaves a r₀ m fun m' resolution f' => Resolved m' resolution f' ∧
        (resolution.api.isSome = true → r₀.pausedReason = none)) m f := by
  unfold ensureLocked
  refine Leaves.clock h (Local.Grows.refl m) ?_
  intro now h' hg
  rw [Coro.wp_bind, wp_record, Coro.chain_ok, Coro.wp_ite]
  constructor
  · intro _
    refine Leaves.grow hg (Leaves.mono (unauthenticated_safe h') ?_)
    intro m'' resolution f'' hn
    refine ⟨resolved_of_none hn, ?_⟩
    rw [hn]
    exact nofun
  · intro hp
    have hnone : f.record.pausedReason = none := by simpa using hp
    have hr₀ : r₀.pausedReason = none := h.tightens.unpaused hnone
    have hu : ¬ r₀.Marked := by simp [GameAccount.Marked, hr₀]
    refine wp_try (Leaves.grow hg (ensureUnpaused_safe actor now h' hu)) ?_
    rintro m'' r f'' ⟨h'', hg', hr⟩
    split
    · exact Leaves.pure h'' hg' ⟨hr _ rfl, fun _ => hr₀⟩
    · refine Leaves.grow hg' (Leaves.mono (recordAuthFailure_safe actor h'' hu) ?_)
      exact fun _ _ _ hres => ⟨hres, fun _ => hr₀⟩
    · exact Leaves.raise _ h'' hg'

theorem readState_safe (resolution : SessionResolution) (authenticated : Bool)
    (h : Held a r₀ m f) (hr : Resolved m resolution f) :
    (readState a resolution authenticated : Tx T Json).wp (watch T P call)
      (Leaves a r₀ m fun _ _ f' => f' = f) m f := by
  unfold readState
  split
  · rename_i api g ha
    obtain ⟨hb, hid⟩ := hr api g ha
    rw [Coro.wp_ite]
    refine ⟨fun _ => ?_, fun _ => Leaves.pure h (Local.Grows.refl m) rfl⟩
    refine Leaves.await h (Local.Grows.refl m) ?_ (fun _ => rfl) ?_
    · exact h.bootstrapped hb hid
    · intro idle _
      exact Leaves.pure (h.learn rfl rfl (List.Subset.refl _)) ⟨List.Subset.refl _, rfl⟩ rfl
  · exact Leaves.pure h (Local.Grows.refl m) rfl

theorem saveSnapshot_safe (resolution : SessionResolution) (authenticated : Bool)
    (h : Held a r₀ m f) (hr : Resolved m resolution f) :
    (saveSnapshot P a resolution authenticated : Tx T AccountSnapshot).wp (watch T P call)
      (Leaves a r₀ m fun _ _ f' => f'.record = f.record) m f := by
  unfold saveSnapshot
  refine Leaves.seq (readState_safe resolution authenticated h hr) ?_
  rintro m' state f' h' hg rfl
  refine Leaves.clock h' hg ?_
  intro now h'' hg'
  dsimp only
  rw [Coro.wp_bind, wp_modifyFrame, Coro.chain_ok]
  refine Leaves.await (h''.snapshots _) hg' nofun (fun _ => rfl) ?_
  intro _ _
  simp only [Coro.wp_bind, wp_record, Coro.chain_ok]
  exact Leaves.pure (h''.snapshots _) hg' rfl

end Cycle

end PlaceGame
