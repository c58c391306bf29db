import PlaceGame.Committed
import PlaceGame.Rules
import PlaceGame.Scripts

/-!
# PlaceGame.Accounts.EditRuns

What `update_credentials` and `update_token_only` leave of an account.

`Edit` is what a call has seen: the row that it locked, the last login and the last bootstrap that
the game accepted, and what it committed. An edit that returns has committed the secrets that were
just verified; one that is rejected has committed its audit and no secret; any other error commits
nothing.
-/

namespace PlaceGame

open Coop AccountService

namespace GameAccount

/-- The columns that a credential edit replaces together. -/
structure Secrets where
  authMode : AuthMode
  gameUsername : Option String
  password : Option String
  sessionToken : Option String
  sessionExpiresAt : Option Time
  deriving DecidableEq, Repr

def secrets (r : GameAccount) : Secrets where
  authMode := r.authMode
  gameUsername := r.gameUsername
  password := r.password
  sessionToken := r.sessionToken
  sessionExpiresAt := r.sessionExpiresAt

/-- Nothing is left of a pause or of failed logins. -/
structure Cleared (r : GameAccount) : Prop where
  pausedReason : r.pausedReason = none
  authFailureCount : r.authFailureCount = 0
  authFailureWindowStartedAt : r.authFailureWindowStartedAt = none

end GameAccount

def Json.rejected : Json → Bool
  | .obj fields => fields.any fun field =>
    field.1 == "status" && match field.2 with
      | .str s => s == "rejected"
      | _ => false
  | _ => false

/-- An audit of the account with the status `rejected`. -/
def AuditEvent.rejects (a : AccountId) (event : AuditEvent) : Bool :=
  event.accountId == some a && event.result.any Json.rejected

structure Edit extends Committed where
  row : Option (AccountId × Option GameAccount) := none
  /-- User name, password and token of the last login that the game accepted. -/
  login : Option (String × String × String) := none
  bootstrap : Option (GameApi × String) := none
  /-- An await raised an error of the application. -/
  misused : Bool := false

namespace Edit

variable {T : Type}

def raise (m : Edit) (e : Exc) : Edit := { m with misused := m.misused || e.isAccountError }

def next (m : Edit) : (o : Op T) → Except Exc o.Val → Edit
  | .accountForUpdate a, .ok row => { m with row := some (a, row) }
  | .login username password, .ok token => { m with login := some (username, password, token) }
  | .bootstrap api, .ok g => { m with bootstrap := some (api, g) }
  | .commit ws, .ok _ => { m with written := m.written ++ [ws] }
  | .commit _, .error e => { m.raise e with unanswered := true }
  | _, .ok _ => m
  | _, .error e => m.raise e

/-- The transaction of the call is still to be committed. -/
def Open (m : Edit) : Prop := m.written = [] ∧ m.unanswered = false

/-- The error is one of the application only if an await raised such an error. -/
def Raises (m : Edit) (e : Exc) : Prop := e.isAccountError = true → m.misused = true

theorem raises_raise (m : Edit) (e : Exc) : (m.raise e).Raises e := fun h => by simp [raise, h]

/-- Neither the row nor the proofs of the game change. -/
structure Same (m m' : Edit) : Prop where
  row : m'.row = m.row
  login : m'.login = m.login
  bootstrap : m'.bootstrap = m.bootstrap
  written : m'.written = m.written
  unanswered : m'.unanswered = m.unanswered

structure Asks (m m' : Edit) : Prop where
  row : m'.row = m.row
  written : m'.written = m.written
  unanswered : m'.unanswered = m.unanswered

theorem Same.refl (m : Edit) : m.Same m := ⟨rfl, rfl, rfl, rfl, rfl⟩

theorem Same.raise (m : Edit) (e : Exc) : m.Same (m.raise e) := ⟨rfl, rfl, rfl, rfl, rfl⟩

theorem Same.asks {m m' : Edit} (h : m.Same m') : m.Asks m' := ⟨h.row, h.written, h.unanswered⟩

theorem Asks.trans {m m' m'' : Edit} (h : m.Asks m') (h' : m'.Asks m'') : m.Asks m'' :=
  ⟨h'.row.trans h.row, h'.written.trans h.written, h'.unanswered.trans h.unanswered⟩

end Edit

def edits (T : Type) : Monitor (sig T) Edit where
  init := {}
  next := Edit.next
  ok m
    | .accountForUpdate _ | .commit _ => m.Open
    | _ => True

section Logins

variable {T σ : Type} {P : Ports} {m : Edit} {s : σ}

/-- What a login leaves: the token and the identity that the game has just given, or an error. -/
def Logged (P : Ports) (username password : String) (m : Edit) : Except Exc Login → Prop
  | .ok login => m.login = some (username, password, login.token) ∧
    m.bootstrap = some (⟨some login.token⟩, login.identity) ∧
    login.expiry = P.tokenExpiry login.token
  | .error e => e ≠ .authenticationRequired → m.Raises e

theorem loginOnce_edits (username password : String) :
    (loginOnce P username password : Coro (sig T) σ Login).wp (edits T)
      (fun m' r s' => s' = s ∧ m.Asks m' ∧ Logged P username password m' r) m s := by
  unfold loginOnce
  rw [Coro.wp_bind, wp_await]
  refine ⟨trivial, ?_⟩
  rintro (e | token) -
  · exact ⟨rfl, (Edit.Same.raise m e).asks, fun _ => m.raises_raise e⟩
  · rw [Coro.chain_ok, Coro.wp_bind, wp_await]
    refine ⟨trivial, ?_⟩
    rintro (e | identity) -
    · exact ⟨rfl, ⟨rfl, rfl, rfl⟩, fun _ => Edit.raises_raise _ e⟩
    · exact ⟨rfl, ⟨rfl, rfl, rfl⟩, rfl, rfl, rfl⟩

theorem loginAttempts_edits (username password : String) (left : Nat) :
    (loginAttempts P username password left : Coro (sig T) σ Login).wp (edits T)
      (fun m' r s' => s' = s ∧ m.Asks m' ∧ Logged P username password m' r) m s := by
  induction left generalizing m with
  | zero => exact ⟨rfl, (Edit.Same.refl m).asks, fun h => absurd rfl h⟩
  | succ left ih =>
    unfold loginAttempts
    refine wp_try (loginOnce_edits username password) ?_
    rintro m' r s' ⟨rfl, ha, hl⟩
    have hnext : ∀ {m''}, m.Asks m'' →
        (loginAttempts P username password left : Coro (sig T) σ Login).wp (edits T)
          (fun m' r s'' => s'' = s' ∧ m.Asks m' ∧ Logged P username password m' r) m'' s' :=
      fun ha => Coro.wp_mono ih fun _ _ _ hr => ⟨hr.1, ha.trans hr.2.1, hr.2.2⟩
    split
    · exact ⟨rfl, ha, hl⟩
    · dsimp only
      rw [Coro.wp_ite]
      refine ⟨fun _ => ?_, fun _ => hnext ha⟩
      rw [Coro.wp_bind, wp_await]
      refine ⟨trivial, ?_⟩
      rintro (e | _) -
      · exact ⟨rfl, ha.trans (Edit.Same.raise m' e).asks, fun _ => m'.raises_raise e⟩
      · exact hnext ha
    · exact ⟨rfl, ha, hl⟩

theorem loginAndBootstrap_edits (username password : String) :
    (loginAndBootstrap P username password : Coro (sig T) σ Login).wp (edits T)
      (fun m' r s' => s' = s ∧ m.Asks m' ∧ Logged P username password m' r) m s :=
  loginAttempts_edits username password 3

end Logins

section Bodies

variable {T α : Type} {P : Ports} {a : AccountId} {r₀ : GameAccount} {m m' : Edit} {f f' : Frame}

/-- The transaction has the row of the account, with the secrets that it was locked with. -/
structure Editing (a : AccountId) (r₀ : GameAccount) (m : Edit) (f : Frame) : Prop where
  row : m.row = some (a, some r₀)
  written : m.Open
  loaded : f.loaded = some a
  secrets : f.record.secrets = r₀.secrets
  audits : f.audits.countP (·.rejects a) = 0

/-- Nothing has spoken against the edit. -/
structure Intact (a : AccountId) (r₀ : GameAccount) (m : Edit) (f : Frame) : Prop
    extends Editing a r₀ m f where
  enabled : f.record.enabled = r₀.enabled

theorem Editing.asks (h : Editing a r₀ m f) (ha : m.Asks m') : Editing a r₀ m' f :=
  ⟨ha.row.trans h.row, ⟨ha.written.trans h.written.1, ha.unanswered.trans h.written.2⟩, h.loaded,
    h.secrets, h.audits⟩

theorem Intact.asks (h : Intact a r₀ m f) (ha : m.Asks m') : Intact a r₀ m' f :=
  ⟨h.toEditing.asks ha, h.enabled⟩

theorem paused_not_rejected : (redact (.obj [("status", .str "paused"),
    ("severity", .str "critical")])).rejected = false := by decide

theorem redact_rejected : (redact (status "rejected")).rejected = true := by decide

theorem identityMismatch_edits (actor : Actor) (h : Editing a r₀ m f) :
    (identityMismatch a actor : Tx T Unit).wp (edits T)
      (fun m' r f' => m.Same m' ∧
        match r with
        | .ok _ => Editing a r₀ m' f'
        | .error e => m'.Raises e) m f := by
  unfold identityMismatch
  rw [Coro.wp_bind, wp_clock]
  refine ⟨trivial, ?_⟩
  rintro (e | now) -
  · exact ⟨.raise m e, m.raises_raise e⟩
  · rw [Coro.chain_ok, Coro.wp_bind, wp_modifyRecord, Coro.chain_ok, wp_audit]
    refine ⟨.refl m, h.row, h.written, h.loaded, h.secrets, ?_⟩
    rw [List.countP_append, h.audits]
    simp [AuditEvent.rejects, paused_not_rejected]

/-- What `_bind_or_match_identity` leaves of an edit. -/
def Bound (a : AccountId) (r₀ : GameAccount) (g : String) (m : Edit) :
    Except Exc Bool → Frame → Prop
  | .ok true, f => Intact a r₀ m f ∧ f.record.gameAccountId = some g
  | .ok false, f => Editing a r₀ m f
  | .error e, _ => m.Raises e

theorem bindOrMatchIdentity_edits (g : String) (actor : Actor) (h : Intact a r₀ m f) :
    (bindOrMatchIdentity a g actor : Tx T Bool).wp (edits T)
      (fun m' r f' => m.Same m' ∧ Bound a r₀ g m' r f') m f := by
  have hmismatch : (do
      identityMismatch a actor
      return false : Tx T Bool).wp (edits T)
        (fun m' r f' => m.Same m' ∧ Bound a r₀ g m' r f') m f := by
    refine Coro.wp_seq (identityMismatch_edits actor h.toEditing) ?_ ?_
    · exact fun m' _ f' hr => hr
    · exact fun m' e f' hr => hr
  unfold bindOrMatchIdentity
  rw [Coro.wp_ite]
  refine ⟨fun _ => ⟨.refl m, h.toEditing⟩, fun _ => ?_⟩
  rw [Coro.wp_bind, wp_record, Coro.chain_ok]
  cases hn : f.record.gameAccountId with
  | none =>
    rw [Coro.wp_bind, wp_await]
    refine ⟨trivial, ?_⟩
    rintro (e | existing) -
    · exact ⟨.raise m e, m.raises_raise e⟩
    rw [Coro.chain_ok, Coro.wp_ite]
    refine ⟨fun _ => hmismatch, fun _ => ?_⟩
    rw [Coro.wp_bind, wp_await]
    refine ⟨trivial, ?_⟩
    rintro (e | bound) -
    · exact ⟨.raise m e, m.raises_raise e⟩
    rw [Coro.chain_ok, Coro.wp_ite]
    refine ⟨fun _ => ?_, fun _ => hmismatch⟩
    exact ⟨.refl m, ⟨⟨h.row, h.written, h.loaded, h.secrets, h.audits⟩, h.enabled⟩, rfl⟩
  | some bound =>
    dsimp only
    rw [Coro.wp_ite]
    refine ⟨fun he => ?_, fun _ => hmismatch⟩
    exact ⟨.refl m, h, by rw [hn, he]⟩

theorem resolveStoredIdentity_edits :
    (resolveStoredIdentity P : Tx T String).wp (edits T)
      (fun m' r f' => f' = f ∧ m.Asks m' ∧
        ∀ e, r = .error e → e ≠ .authenticationRequired → m'.Raises e) m f := by
  have hmissing : ∀ {m' : Edit} (e : Exc), (.error .authenticationRequired : Except Exc String) = .error e →
      e ≠ .authenticationRequired → m'.Raises e := by
    rintro m' e ⟨⟩ he
    exact absurd rfl he
  unfold resolveStoredIdentity
  rw [Coro.wp_bind, wp_record, Coro.chain_ok]
  cases f.record.authMode with
  | credentials =>
    dsimp only
    split
    · rename_i username password _ _
      rw [Coro.wp_bind, wp_raiseIf]
      refine ⟨fun _ => ⟨rfl, (Edit.Same.refl m).asks, hmissing⟩, fun _ => ?_⟩
      rw [Coro.chain_ok]
      refine Coro.wp_seq (loginAndBootstrap_edits username password) ?_ ?_
      · rintro m' login f' ⟨rfl, ha, -⟩
        exact ⟨rfl, ha, nofun⟩
      · rintro m' e f' ⟨rfl, ha, hl⟩
        refine ⟨rfl, ha, ?_⟩
        rintro e' ⟨⟩
        exact hl
    · exact ⟨rfl, (Edit.Same.refl m).asks, hmissing⟩
  | tokenOnly =>
    dsimp only
    split
    · rw [Coro.wp_bind, wp_raiseIf]
      refine ⟨fun _ => ⟨rfl, (Edit.Same.refl m).asks, hmissing⟩, fun _ => ?_⟩
      rw [Coro.chain_ok, Coro.wp_bind, wp_attempt, wp_await]
      refine ⟨trivial, ?_⟩
      rintro (e | identity) -
      · rw [Coro.chain_ok]
        split
        · rename_i heq
          cases heq
        · exact ⟨rfl, (Edit.Same.raise m _).asks, hmissing⟩
        · rename_i heq
          cases heq
          refine ⟨rfl, (Edit.Same.raise m e).asks, ?_⟩
          rintro e' ⟨⟩ -
          exact m.raises_raise e
      · exact ⟨rfl, ⟨rfl, rfl, rfl⟩, nofun⟩
    · exact ⟨rfl, (Edit.Same.refl m).asks, hmissing⟩

/-- What the resolution of a record without an identity leaves of an edit. -/
def IdentityResolved (a : AccountId) (r₀ : GameAccount) (m : Edit) :
    Except Exc (Option Exc) → Frame → Prop
  | .ok none, f => Intact a r₀ m f
  | .ok (some _), f => Editing a r₀ m f
  | .error e, _ => m.Open ∧ m.Raises e

theorem bindLegacy_edits (actor : Actor) (h : Intact a r₀ m f) :
    (bindLegacy P a actor : Tx T (Option Exc)).wp (edits T)
      (fun m' r f' => IdentityResolved a r₀ m' r f') m f := by
  unfold bindLegacy
  rw [Coro.wp_bind, wp_record, Coro.chain_ok, Coro.wp_ite]
  refine ⟨fun _ => h, fun _ => ?_⟩
  refine wp_try resolveStoredIdentity_edits ?_
  rintro m₁ r f₁ ⟨rfl, ha, he⟩
  have h₁ := h.asks ha
  split
  · exact h₁.toEditing
  · rename_i e hne
    exact ⟨h₁.written, he e rfl fun h => hne (h ▸ rfl)⟩
  · rename_i identity
    refine Coro.wp_seq (bindOrMatchIdentity_edits identity actor h₁) ?_ ?_
    · rintro m₂ bound f₂ ⟨hs, hb⟩
      rw [Coro.wp_ite]
      cases bound with
      | true => exact ⟨fun _ => hb.1, fun hne => absurd rfl hne⟩
      | false => exact ⟨nofun, fun _ => hb⟩
    · rintro m₂ e f₂ ⟨hs, hr⟩
      exact ⟨⟨hs.written.trans h₁.written.1, hs.unanswered.trans h₁.written.2⟩, hr⟩

/-- The record has the secrets that the game has just accepted for this call. -/
def Verified (P : Ports) (call : Call) (r₀ : GameAccount) (m : Edit) (r : GameAccount) : Prop :=
  match call with
  | .updateCredentials _ username password _ => ∃ user token g,
    (some user = if username.any (· ≠ "") then username else r₀.gameUsername) ∧
    m.login = some (user, password, token) ∧ m.bootstrap = some (⟨some token⟩, g) ∧
    r.gameAccountId = some g ∧
    r.secrets = ⟨.credentials, some user, some password, some token, P.tokenExpiry token⟩
  | .updateTokenOnly _ token _ => ∃ g,
    m.bootstrap = some (⟨some token⟩, g) ∧ r.gameAccountId = some g ∧
    r.secrets = ⟨.tokenOnly, none, none, some token, P.tokenExpiry token⟩
  | _ => False

structure Applied (P : Ports) (call : Call) (a : AccountId) (r₀ : GameAccount) (m : Edit) (f : Frame) :
    Prop where
  row : m.row = some (a, some r₀)
  written : m.Open
  loaded : f.loaded = some a
  verified : Verified P call r₀ m f.record
  cleared : f.record.Cleared
  enabled : f.record.enabled = r₀.enabled

/-- The session holds no edit but its rejection. -/
structure Rejected (a : AccountId) (r₀ : GameAccount) (m : Edit) (f : Frame) : Prop where
  row : m.row = some (a, some r₀)
  written : m.Open
  loaded : f.loaded = some a
  secrets : f.record.secrets = r₀.secrets
  audits : f.audits.countP (·.rejects a) = 1

/-- How the edit of a locked account leaves its session. -/
def Judges (P : Ports) (call : Call) (a : AccountId) (r₀ : GameAccount) (m : Edit) :
    Except Exc (Except Exc ManagedAccount) → Frame → Prop
  | .ok (.ok _), f => Applied P call a r₀ m f
  | .ok (.error _), f => Rejected a r₀ m f
  | .error e, _ => m.Open ∧ m.Raises e

theorem rejectEdit_edits (call : Call) (actor : Actor) (action : String) (pending : Exc)
    (h : Editing a r₀ m f) :
    (rejectEdit a actor action pending : Tx T (Except Exc ManagedAccount)).wp (edits T)
      (fun m' r f' => Judges P call a r₀ m' r f') m f := by
  unfold rejectEdit
  rw [Coro.wp_bind, wp_audit]
  refine ⟨h.row, h.written, h.loaded, h.secrets, ?_⟩
  rw [List.countP_append, h.audits]
  simp [AuditEvent.rejects, redact_rejected]

/-- What the login with the proposed credentials leaves of an edit. -/
def Proposes (P : Ports) (proposed : Option String) (password : String) (m : Edit) :
    Except Exc (Option Login) → Prop
  | .ok none => True
  | .ok (some login) => ∃ username, proposed = some username ∧
    Logged P username password m (.ok login)
  | .error e => m.Raises e

theorem verifyProposed_edits (proposed : Option String) (password : String) :
    (verifyProposed P proposed password : Tx T (Option Login)).wp (edits T)
      (fun m' r f' => f' = f ∧ m.Asks m' ∧ Proposes P proposed password m' r) m f := by
  cases proposed with
  | none => exact ⟨rfl, (Edit.Same.refl m).asks, trivial⟩
  | some username =>
    unfold verifyProposed
    rw [Coro.wp_ite]
    refine ⟨fun _ => ⟨rfl, (Edit.Same.refl m).asks, trivial⟩, fun _ => ?_⟩
    refine wp_try (loginAndBootstrap_edits username password) ?_
    rintro m' r f' ⟨rfl, ha, hl⟩
    cases r with
    | ok login => exact ⟨rfl, ha, username, rfl, hl⟩
    | error e =>
      dsimp only
      rw [Coro.wp_ite]
      refine ⟨fun _ => ⟨rfl, ha, trivial⟩, fun he => ⟨rfl, ha, fun h => absurd h he⟩⟩

theorem applyCredentials_edits (username : Option String) (password : String) (actor : Actor)
    (huser : f.record.gameUsername = r₀.gameUsername) (h : Intact a r₀ m f) :
    (applyCredentials P a username password actor : Tx T (Except Exc ManagedAccount)).wp (edits T)
      (fun m' r f' => Judges P (.updateCredentials a username password actor) a r₀ m' r f') m f := by
  unfold applyCredentials
  rw [Coro.wp_bind, wp_record, Coro.chain_ok]
  dsimp only
  generalize hp : (if username.any (· ≠ "") = true then username else f.record.gameUsername) = proposed
  refine Coro.wp_seq (verifyProposed_edits proposed password) ?_ ?_
  · rintro m₁ login f₁ ⟨rfl, ha, hl⟩
    have h₁ := h.asks ha
    split
    · obtain ⟨user, hu, hlogged⟩ := hl
      cases hu
      obtain ⟨hlogin, hboot, hexpiry⟩ := hlogged
      refine Coro.wp_seq (bindOrMatchIdentity_edits _ actor h₁) ?_ ?_
      · rintro m₂ bound f₂ ⟨hs, hb⟩
        rw [Coro.wp_ite]
        cases bound with
        | false => exact ⟨nofun, fun _ => rejectEdit_edits _ actor _ _ hb⟩
        | true =>
          refine ⟨fun _ => ?_, fun hne => absurd rfl hne⟩
          obtain ⟨hi, hg⟩ := hb
          rw [Coro.wp_bind, wp_clock]
          refine ⟨trivial, ?_⟩
          rintro (e | now) -
          · exact ⟨hi.written, m₂.raises_raise e⟩
          · exact ⟨hi.row, hi.written, hi.loaded,
              ⟨_, _, _, by rw [← hp, huser], hs.login.trans hlogin, hs.bootstrap.trans hboot, hg,
                by rw [← hexpiry]; rfl⟩, ⟨rfl, rfl, rfl⟩, hi.enabled⟩
      · rintro m₂ e f₂ ⟨hs, hr⟩
        exact ⟨⟨hs.written.trans h₁.written.1, hs.unanswered.trans h₁.written.2⟩, hr⟩
    · exact rejectEdit_edits _ actor _ _ h₁.toEditing
  · rintro m₁ e f₁ ⟨rfl, ha, hr⟩
    exact ⟨(h.asks ha).written, hr⟩

theorem applyTokenOnly_edits (token : String) (actor : Actor) (h : Intact a r₀ m f) :
    (applyTokenOnly P a token actor : Tx T (Except Exc ManagedAccount)).wp (edits T)
      (fun m' r f' => Judges P (.updateTokenOnly a token actor) a r₀ m' r f') m f := by
  unfold applyTokenOnly
  rw [Coro.wp_bind, wp_attempt, wp_await]
  refine ⟨trivial, ?_⟩
  rintro (e | identity) -
  · have h₁ : Intact a r₀ (m.raise e) f := h.asks (Edit.Same.raise m e).asks
    rw [Coro.chain_ok]
    split
    · exact rejectEdit_edits _ actor _ _ h₁.toEditing
    · rename_i heq
      cases heq
      exact ⟨h₁.written, m.raises_raise e⟩
    · rename_i heq
      cases heq
  · have h₁ : Intact a r₀ { m with bootstrap := some (⟨some token⟩, identity) } f :=
      h.asks ⟨rfl, rfl, rfl⟩
    refine Coro.wp_seq (bindOrMatchIdentity_edits identity actor h₁) ?_ ?_
    · rintro m₂ bound f₂ ⟨hs, hb⟩
      rw [Coro.wp_ite]
      cases bound with
      | false => exact ⟨nofun, fun _ => rejectEdit_edits _ actor _ _ hb⟩
      | true =>
        refine ⟨fun _ => ?_, fun hne => absurd rfl hne⟩
        obtain ⟨hi, hg⟩ := hb
        rw [Coro.wp_bind, wp_clock]
        refine ⟨trivial, ?_⟩
        rintro (e | now) -
        · exact ⟨hi.written, m₂.raises_raise e⟩
        · exact ⟨hi.row, hi.written, hi.loaded, ⟨identity, hs.bootstrap, hg, rfl⟩, ⟨rfl, rfl, rfl⟩,
            hi.enabled⟩
    · rintro m₂ e f₂ ⟨hs, hr⟩
      exact ⟨⟨hs.written.trans h₁.written.1, hs.unanswered.trans h₁.written.2⟩, hr⟩

end Bodies

section Calls

variable {T α : Type} {P : Ports} {a : AccountId} {call : Call} {m m' : Edit} {f : Frame}

def Unfit (a : AccountId) (m : Edit) : Prop :=
  m.row = some (a, none) ∨ ∃ r₀, m.row = some (a, some r₀) ∧ r₀.Marked

def EditBody (P : Ports) (call : Call) (a : AccountId) (m : Edit) :
    Except Exc (Except Exc ManagedAccount) → Frame → Prop
  | .ok (.ok _), f => ∃ r₀, Applied P call a r₀ m f
  | .ok (.error _), f => ∃ r₀, Rejected a r₀ m f
  | .error e, _ => m.Open ∧ (m.Raises e ∨ Unfit a m)

theorem Judges.body {r₀ : GameAccount} {r : Except Exc (Except Exc ManagedAccount)}
    (h : Judges P call a r₀ m r f) : EditBody P call a m r f := by
  match r with
  | .ok (.ok _) => exact ⟨r₀, h⟩
  | .ok (.error _) => exact ⟨r₀, h⟩
  | .error _ => exact ⟨h.1, .inl h.2⟩

/-- The body of both edits: the account is locked and fit, and its identity is resolved. -/
theorem editBody_edits {actor : Actor} {action : String} {apply : Tx T (Except Exc ManagedAccount)}
    (happly : ∀ {r₀ m f}, f.record.gameUsername = r₀.gameUsername → Intact a r₀ m f →
      apply.wp (edits T) (fun m' r f' => Judges P call a r₀ m' r f') m f) :
    (do
      lockAccount a
      let r ← record
      rejectRemovalMarker r
      match ← bindLegacy P a actor with
      | some pending => rejectEdit a actor action pending
      | none => apply : Tx T (Except Exc ManagedAccount)).wp (edits T)
      (fun m r f => EditBody P call a m r f) {} {} := by
  unfold lockAccount requireForUpdate
  rw [Coro.wp_bind, Coro.wp_bind, wp_await]
  refine ⟨trivial, ?_⟩
  rintro (e | _) -
  · exact ⟨⟨rfl, rfl⟩, .inl (Edit.raises_raise _ e)⟩
  rw [Coro.chain_ok, Coro.wp_bind, wp_await]
  refine ⟨⟨rfl, rfl⟩, ?_⟩
  rintro (e | row) -
  · exact ⟨⟨rfl, rfl⟩, .inl (Edit.raises_raise _ e)⟩
  rw [Coro.chain_ok]
  cases row with
  | none => exact ⟨⟨rfl, rfl⟩, .inr (.inl rfl)⟩
  | some r₀ =>
    have hi : Intact a r₀ { row := some (a, some r₀) } { loaded := some a, record := r₀ } :=
      ⟨⟨rfl, ⟨rfl, rfl⟩, rfl, rfl, rfl⟩, rfl⟩
    have hmarked : ∀ {e : Exc}, r₀.Marked → EditBody P call a { row := some (a, some r₀) } (.error e)
        { loaded := some a, record := r₀ } :=
      fun h => ⟨⟨rfl, rfl⟩, .inr (.inr ⟨r₀, rfl, h⟩)⟩
    have hrest : (do
        match ← bindLegacy P a actor with
        | some pending => rejectEdit a actor action pending
        | none => apply : Tx T (Except Exc ManagedAccount)).wp (edits T)
        (fun m r f => EditBody P call a m r f) { row := some (a, some r₀) }
        { loaded := some a, record := r₀ } := by
      refine Coro.wp_seq (bindLegacy_edits actor hi) ?_ fun m e f hr => ⟨hr.1, .inl hr.2⟩
      intro m₁ pending f₁ hr
      cases pending with
      | some pending =>
        exact Coro.wp_mono (rejectEdit_edits call actor action pending hr) fun _ _ _ hr => hr.body
      | none =>
        have huser := congrArg GameAccount.Secrets.gameUsername hr.secrets
        exact Coro.wp_mono (happly huser hr) fun _ _ _ hr => hr.body
    show (record >>= _ : Tx T _).wp (edits T) _ _ _
    unfold rejectRemovalMarker rejectRemoved
    rw [Coro.wp_bind, wp_record, Coro.chain_ok, Coro.wp_bind, Coro.wp_bind, wp_raiseIf]
    refine ⟨fun h => hmarked (.inl h), fun _ => ?_⟩
    rw [Coro.chain_ok, wp_raiseIf]
    exact ⟨fun h => hmarked (.inr h), fun _ => hrest⟩

def Succeeded (P : Ports) (call : Call) (a : AccountId) (m : Edit) : Prop :=
  ∃ r₀ ws r', m.row = some (a, some r₀) ∧ m.written = [ws] ∧ ws.account = some (a, r') ∧
    Verified P call r₀ m r' ∧ r'.Cleared ∧ r'.enabled = r₀.enabled

def Refused (a : AccountId) (m : Edit) : Prop :=
  ∃ r₀ ws r', m.row = some (a, some r₀) ∧ m.written = [ws] ∧ ws.account = some (a, r') ∧
    r'.secrets = r₀.secrets ∧ ws.audits.countP (·.rejects a) = 1

def Failed (a : AccountId) (m : Edit) (e : Exc) : Prop :=
  m.written = [] ∧ (m.Raises e ∨ Unfit a m)

def Edited (P : Ports) (call : Call) (a : AccountId) (m : Edit) : Except Exc α → Prop
  | .ok _ => Succeeded P call a m
  | .error e => m.unanswered = true ∨ Refused a m ∨ Failed a m e

theorem rollsBack_edits {Q : Edit → Except Exc α → Unit → Prop} {e : Exc}
    (h : ∀ m' e', m'.unanswered = m.unanswered → (m.unanswered = true ∨ Failed a m' e') →
      Q m' (.error e') ())
    (hfail : m.unanswered = true ∨ Failed a m e) : RollsBack (edits T) Q m e () := by
  refine ⟨trivial, ?_⟩
  rintro (e' | _) -
  · refine h _ e' rfl (hfail.imp id fun hf => ⟨hf.1, .inl (m.raises_raise e')⟩)
  · exact h m e rfl hfail

theorem transaction_edits {body : Tx T (Except Exc ManagedAccount)}
    (h : body.wp (edits T) (fun m r f => EditBody P call a m r f) {} {}) :
    (do
      let outcome ← transaction body
      raisePending outcome : Action T ManagedAccount).wp (edits T)
      (fun m r _ => Edited P call a m r) {} () := by
  have hwritten : ∀ {m : Edit} {ws : Writes}, m.Open → m.written ++ [ws] = [ws] := fun ho => by
    rw [ho.1, List.nil_append]
  refine Coro.wp_seq (R := fun m r _ =>
    match r with
    | .ok (.ok _) => Succeeded P call a m
    | .ok (.error _) => Refused a m
    | .error e => m.unanswered = true ∨ Failed a m e) (wp_transaction h ?_ ?_) ?_ ?_
  · intro m outcome f hb
    cases outcome with
    | ok account =>
      obtain ⟨r₀, hb⟩ := hb
      refine ⟨hb.written, ?_⟩
      rintro (e | _) -
      · exact rollsBack_edits (fun m' e' hu hf => hf.imp (hu.trans ·) id) (.inl rfl)
      · refine ⟨r₀, f.writes, f.record, hb.row, hwritten hb.written, ?_, hb.verified, hb.cleared,
          hb.enabled⟩
        simp [Frame.writes, hb.loaded]
    | error pending =>
      obtain ⟨r₀, hb⟩ := hb
      refine ⟨hb.written, ?_⟩
      rintro (e | _) -
      · exact rollsBack_edits (fun m' e' hu hf => hf.imp (hu.trans ·) id) (.inl rfl)
      · refine ⟨r₀, f.writes, f.record, hb.row, hwritten hb.written, ?_, hb.secrets, hb.audits⟩
        simp [Frame.writes, hb.loaded]
  · intro m e f hb
    exact rollsBack_edits (fun m' e' hu hf => hf.imp (hu.trans ·) id) (.inr ⟨hb.1.1, hb.2⟩)
  · intro m outcome _ hr
    cases outcome with
    | ok account => exact hr
    | error e => exact .inr (.inl hr)
  · exact fun m e _ hr => hr.imp id .inr

theorem updateCredentials_edits (username : Option String) (password : String) (actor : Actor) :
    (updateCredentials P a username password actor : Action T ManagedAccount).wp (edits T)
      (fun m r _ => Edited P (.updateCredentials a username password actor) a m r) {} () := by
  unfold updateCredentials
  rw [Coro.wp_bind, wp_raiseIf]
  refine ⟨fun _ => .inr (.inr ⟨rfl, .inl nofun⟩), fun _ => ?_⟩
  exact transaction_edits (editBody_edits fun huser h => applyCredentials_edits username password actor huser h)

theorem updateTokenOnly_edits (token : String) (actor : Actor) :
    (updateTokenOnly P a token actor : Action T ManagedAccount).wp (edits T)
      (fun m r _ => Edited P (.updateTokenOnly a token actor) a m r) {} () := by
  unfold updateTokenOnly
  rw [Coro.wp_bind, wp_raiseIf]
  refine ⟨fun _ => .inr (.inr ⟨rfl, .inl nofun⟩), fun _ => ?_⟩
  exact transaction_edits (editBody_edits fun _ h => applyTokenOnly_edits token actor h)

end Calls

section Runs

variable {T : Type} {P : Ports} {a : AccountId} {call : Call} {m : Edit} {w w' : World}

def EditCall (a : AccountId) : Call → Prop
  | .updateCredentials b _ _ _ | .updateTokenOnly b _ _ => b = a
  | _ => False

/-- What the monitor knows of an edit that has ended; the other calls are not watched. -/
def EditEnds (P : Ports) (call : Call) (m : Edit) (r : Except Exc (Returned T)) : Prop :=
  ∀ a, EditCall a call → Edited P call a m r

theorem returning_edits {α : Type} {wrap : α → Returned T} {c : Action T α}
    (h : c.wp (edits T) (fun m r _ => Edited P call a m r) {} ()) :
    (Coro.toProc () (returning wrap c)).wp (edits T) (fun m r => Edited P call a m r) {} :=
  Coro.wp_toProc.mpr (Coro.wp_seq h (fun _ _ _ hr => hr) fun _ _ _ hr => hr)

def unwatched (T : Type) : Monitor (sig T) Edit := { edits T with ok := fun _ _ => True }

def editMonitor (T : Type) : Call → Monitor (sig T) Edit
  | .updateCredentials _ _ _ _ | .updateTokenOnly _ _ _ => edits T
  | _ => unwatched T

theorem watched_edits :
    Reachable.Watched (machine T P) (editMonitor T) fun call m r => EditEnds P call m r where
  prog call := by
    cases call with
    | updateCredentials b username password actor =>
      refine Proc.wp_mono (returning_edits (updateCredentials_edits username password actor)) ?_
      rintro m r h _ rfl
      exact h
    | updateTokenOnly b token actor =>
      refine Proc.wp_mono (returning_edits (updateTokenOnly_edits token actor)) ?_
      rintro m r h _ rfl
      exact h
    | _ => exact Proc.wp_mono (Proc.wp_of_lax (fun _ _ => trivial) _) fun _ _ _ _ h => h.elim
  ans call _ _ _ _ _ _ _ := by cases call <;> trivial

/-- The tables of a call that runs alone: its commits, and the row that it selected before. -/
structure EditWorld (w₀ : World) (m : Edit) (w : World) : Prop where
  reaches : m.toCommitted.Reaches w₀ w
  row : ∀ b x, m.row = some (b, x) → w₀.accounts.get b = x

theorem EditWorld.kept {w₀ : World} (h : EditWorld w₀ m w) (ho : m.Open) :
    World.SameTables w₀ w := by
  have hr := h.reaches ho.2
  rw [ho.1] at hr
  exact hr

theorem EditWorld.written {w₀ : World} (h : EditWorld w₀ m w) {ws : Writes}
    (hws : m.written = [ws]) (hu : m.unanswered = false) : World.SameTables (w₀.apply ws) w := by
  have hr := h.reaches hu
  rw [hws] at hr
  exact hr

theorem EditWorld.tables {w₀ : World} (h : EditWorld w₀ m w) (hs : World.SameTables w w') :
    EditWorld w₀ m w' :=
  ⟨h.reaches.tables hs, h.row⟩

theorem Edit.next_committed (m : Edit) (o : Op T) (r : Except Exc o.Val) :
    (m.next o r).toCommitted = m.toCommitted.next o r := by
  cases o <;> cases r <;> rfl

theorem Edit.next_row {o : Op T} (hl : ∀ a, o ≠ .accountForUpdate a) (m : Edit)
    (r : Except Exc o.Val) : (m.next o r).row = m.row := by
  cases o with
  | accountForUpdate a => exact absurd rfl (hl a)
  | _ => cases r <;> rfl

theorem EditWorld.next {w₀ : World} {t : TaskId} {o : Op T} {r : Except Exc o.Val}
    (h : EditWorld w₀ m w) (hok : (edits T).ok m o) (hp : World.Perform t w o r w') :
    EditWorld w₀ (m.next o r) w' := by
  refine ⟨m.next_committed o r ▸ h.reaches.next hp, ?_⟩
  intro b x hx
  cases o with
  | accountForUpdate b' =>
    cases r with
    | error e => exact h.row b x hx
    | ok row =>
      cases hx
      rw [← (h.kept hok).accounts]
      cases hp with
      | done he =>
        simp only [World.effect] at he
        split at he
        · rename_i hnone
          cases he
          exact hnone
        · rename_i row' hget
          split at he <;> cases he
          exact hget
  | _ =>
    rw [Edit.next_row (by simp) m r] at hx
    exact h.row b x hx

theorem after_editMonitor (call : Call) (h : List (Event (sig T))) :
    (editMonitor T call).after h = (edits T).after h := by
  induction h with
  | nil => cases call <;> rfl
  | cons e h ih =>
    have hnext : (editMonitor T call).after (e :: h) =
        ((editMonitor T call).after h).next e.op e.ans := by cases call <;> rfl
    rw [hnext, ih]
    rfl

/-- No layer below raised an error of the application. -/
def Typed (h : List (Event (sig T))) : Prop :=
  ∀ o e, (⟨o, .error e⟩ : Event (sig T)) ∈ h → e.isAccountError = false

/-- Every commit was answered. -/
def Settles (h : List (Event (sig T))) : Prop :=
  ∀ ws e, (⟨.commit ws, .error e⟩ : Event (sig T)) ∉ h

/-- What the monitor has noted comes from the awaits of the call. -/
structure Edit.Noted (m : Edit) (h : List (Event (sig T))) : Prop where
  login : ∀ username password token, m.login = some (username, password, token) →
    (⟨.login username password, .ok token⟩ : Event (sig T)) ∈ h
  bootstrap : ∀ api g, m.bootstrap = some (api, g) →
    (⟨.bootstrap api, .ok g⟩ : Event (sig T)) ∈ h
  misused : m.misused = true → ∃ o e, (⟨o, .error e⟩ : Event (sig T)) ∈ h ∧ e.isAccountError = true
  unanswered : m.unanswered = true → ∃ ws e, (⟨.commit ws, .error e⟩ : Event (sig T)) ∈ h

theorem Edit.Noted.later {h : List (Event (sig T))} (hn : m.Noted h) (e : Event (sig T)) :
    m.Noted (e :: h) where
  login username password token hl := List.mem_cons_of_mem _ (hn.login username password token hl)
  bootstrap api g hb := List.mem_cons_of_mem _ (hn.bootstrap api g hb)
  misused hm := by
    obtain ⟨o, e', hmem, he⟩ := hn.misused hm
    exact ⟨o, e', List.mem_cons_of_mem _ hmem, he⟩
  unanswered hu := by
    obtain ⟨ws, e', hmem⟩ := hn.unanswered hu
    exact ⟨ws, e', List.mem_cons_of_mem _ hmem⟩

theorem Edit.Noted.raise {h : List (Event (sig T))} (hn : m.Noted h) {o : Op T} (e : Exc) :
    (m.raise e).Noted (⟨o, .error e⟩ :: h) := by
  have hl := hn.later ⟨o, .error e⟩
  refine ⟨hl.login, hl.bootstrap, fun hm => ?_, hl.unanswered⟩
  rcases Bool.or_eq_true_iff.mp hm with hm | he
  · exact hl.misused hm
  · exact ⟨o, e, List.mem_cons_self, he⟩

theorem noted (h : List (Event (sig T))) : ((edits T).after h).Noted h := by
  induction h with
  | nil => exact ⟨nofun, nofun, nofun, nofun⟩
  | cons e h ih =>
    obtain ⟨o, r⟩ := e
    show (((edits T).after h).next o r).Noted _
    have hl := ih.later ⟨o, r⟩
    cases r with
    | error e =>
      have hr := ih.raise (o := o) e
      cases o with
      | commit ws =>
        exact ⟨hr.login, hr.bootstrap, hr.misused, fun _ => ⟨ws, e, List.mem_cons_self⟩⟩
      | _ => exact hr
    | ok v =>
      cases o with
      | accountForUpdate b => exact ⟨hl.login, hl.bootstrap, hl.misused, hl.unanswered⟩
      | login username password =>
        refine ⟨?_, hl.bootstrap, hl.misused, hl.unanswered⟩
        rintro _ _ _ ⟨⟩
        exact List.mem_cons_self
      | bootstrap api =>
        refine ⟨hl.login, ?_, hl.misused, hl.unanswered⟩
        rintro _ _ ⟨⟩
        exact List.mem_cons_self
      | commit ws => exact ⟨hl.login, hl.bootstrap, hl.misused, hl.unanswered⟩
      | _ => exact hl

/-- The record has the secrets of the call, and the game accepted them during the call. -/
def Proven (P : Ports) (call : Call) (h : List (Event (sig T))) (r₀ r : GameAccount) : Prop :=
  match call with
  | .updateCredentials _ username password _ => ∃ user token g,
    (some user = if username.any (· ≠ "") then username else r₀.gameUsername) ∧
    (⟨.login user password, .ok token⟩ : Event (sig T)) ∈ h ∧
    (⟨.bootstrap ⟨some token⟩, .ok g⟩ : Event (sig T)) ∈ h ∧ r.gameAccountId = some g ∧
    r.secrets = ⟨.credentials, some user, some password, some token, P.tokenExpiry token⟩
  | .updateTokenOnly _ token _ => ∃ g,
    (⟨.bootstrap ⟨some token⟩, .ok g⟩ : Event (sig T)) ∈ h ∧ r.gameAccountId = some g ∧
    r.secrets = ⟨.tokenOnly, none, none, some token, P.tokenExpiry token⟩
  | _ => False

theorem Verified.proven {h : List (Event (sig T))} {r₀ r : GameAccount}
    (hv : Verified P call r₀ m r) (hn : m.Noted h) : Proven P call h r₀ r := by
  cases call with
  | updateCredentials =>
    obtain ⟨user, token, g, huser, hlogin, hboot, hid, hsecrets⟩ := hv
    exact ⟨user, token, g, huser, hn.login _ _ _ hlogin, hn.bootstrap _ _ hboot, hid, hsecrets⟩
  | updateTokenOnly =>
    obtain ⟨g, hboot, hid, hsecrets⟩ := hv
    exact ⟨g, hn.bootstrap _ _ hboot, hid, hsecrets⟩
  | _ => exact hv.elim

/-- The committed audits that something was rejected for the account. -/
def rejections (a : AccountId) (w : World) : Nat := w.audits.countP (·.rejects a)

def AllOrNothing {α : Type} (P : Ports) (call : Call) (a : AccountId) (h : List (Event (sig T)))
    (w w' : World) : Except Exc α → Prop
  | .ok _ => ∃ r₀ r, w.accounts.get a = some r₀ ∧ w'.accounts.get a = some r ∧
    Proven P call h r₀ r ∧ r.Cleared ∧ r.enabled = r₀.enabled
  | .error e =>
    (w'.accounts.get a).map GameAccount.secrets = (w.accounts.get a).map GameAccount.secrets ∧
    (e.isAccountError = true → ∀ r₀, w.accounts.get a = some r₀ → ¬ r₀.Marked →
      rejections a w' = rejections a w + 1)

theorem EditWorld.allOrNothing {α : Type} {h : List (Event (sig T))} {r : Except Exc α}
    (hw : EditWorld w m w') (hn : m.Noted h) (htyped : Typed h) (hsettled : Settles h)
    (he : Edited P call a m r) : AllOrNothing P call a h w w' r := by
  have hanswered : m.unanswered = false := by
    cases hu : m.unanswered with
    | false => rfl
    | true =>
      obtain ⟨ws, e, hmem⟩ := hn.unanswered hu
      exact absurd hmem (hsettled ws e)
  cases r with
  | ok _ =>
    obtain ⟨r₀, ws, r, hrow, hws, haccount, hv, hcleared, henabled⟩ := he
    refine ⟨r₀, r, hw.row _ _ hrow, ?_, hv.proven hn, hcleared, henabled⟩
    rw [(hw.written hws hanswered).accounts]
    simp only [World.apply, haccount]
    exact Table.get_set_self ..
  | error e =>
    rcases he with hu | ⟨r₀, ws, r, hrow, hws, haccount, hsecrets, haudits⟩ | ⟨hnone, hfail⟩
    · rw [hanswered] at hu
      cases hu
    · have hws' := hw.written hws hanswered
      have hget : w'.accounts.get a = some r := by
        rw [hws'.accounts]
        simp only [World.apply, haccount]
        exact Table.get_set_self ..
      refine ⟨?_, fun _ _ _ _ => ?_⟩
      · rw [hget, hw.row _ _ hrow]
        exact congrArg some hsecrets
      · unfold rejections
        rw [hws'.audits]
        simp only [World.apply, List.countP_append, haudits]
    · have hopen : m.Open := ⟨hnone, hanswered⟩
      refine ⟨by rw [(hw.kept hopen).accounts], fun hacc r₀ hr₀ hunmarked => ?_⟩
      rcases hfail with hr | hrow | ⟨r₁, hrow, hmarked⟩
      · obtain ⟨o, e', hmem, he'⟩ := hn.misused (hr hacc)
        rw [htyped o e' hmem] at he'
        cases he'
      · rw [hw.row _ _ hrow] at hr₀
        cases hr₀
      · rw [hw.row _ _ hrow] at hr₀
        cases hr₀
        exact absurd hmarked hunmarked

variable {c c' : Config (machine T P)} {t : TaskId} {U : Task (machine T P)}

/-- An edit of credentials that runs alone replaces every secret by what the game has just accepted,
or none; a rejected edit is audited once. -/
theorem credential_edit_all_or_nothing {r : Except Exc (Returned T)} (hr : Reachable (.start w) c)
    (ht : c.task t = none) (hcall : EditCall a call)
    (hrun : Relation.ReflTransGen (Alone t)
      (c.setTask t { call := call, prog := (machine T P).prog call }) c')
    (hU : c'.task t = some U) (hret : U.prog = .ret r) (htyped : Typed U.hist)
    (hsettled : Settles U.hist) : AllOrNothing P call a U.hist c.world c'.world r := by
  have hbegin : EditWorld c.world (editMonitor T call).init c.world := by
    have hinit : (editMonitor T call).init = {} := by cases call <;> rfl
    rw [hinit]
    refine ⟨.start _, fun b x hx => ?_⟩
    cases hx
  have henv : ∀ m w w', EditWorld c.world m w → World.Env w w' → EditWorld c.world m w' := by
    exact fun m w w' hw henv => hw.tables henv.tables
  obtain ⟨V, hV, hVcall, hf, hw⟩ := Reachable.alone watched_edits hr ht hrun (EditWorld c.world)
    hbegin henv (fun m w hw => hw.tables (World.crash_tables t w)) fun m w o r w' hw hok hp => by
      cases call with
      | updateCredentials | updateTokenOnly => exact hw.next hok hp
      | _ => exact hcall.elim
  rw [hU] at hV
  cases hV
  subst hVcall
  have hend : Edited P U.call a ((edits T).after U.hist) r := by
    have := hf.wp
    rw [hret, after_editMonitor] at this
    exact this a hcall
  rw [after_editMonitor] at hw
  exact hw.allOrNothing (noted U.hist) htyped hsettled hend

end Runs

section EditRuns

def replacedCredentials : Config (machine Unit samplePorts) :=
  run (.start storedWorld) 1 (.updateCredentials 0 (some "player") "new" operator) friendlyGame 30

def answeredEvent {T : Type} : Event (sig T) → Bool
  | ⟨_, .error _⟩ => false
  | ⟨_, .ok _⟩ => true

theorem typed_of_answered {T : Type} {h : List (Event (sig T))} (hall : h.all answeredEvent = true) :
    Typed h ∧ Settles h := by
  rw [List.all_eq_true] at hall
  constructor
  · intro o e hmem
    cases hall _ hmem
  · intro ws e hmem
    cases hall _ hmem

theorem credential_edit_all_or_nothing_replaced :
    ∃ (U : Task (machine Unit samplePorts)) (x : Returned Unit),
      replacedCredentials.task 1 = some U ∧
      AllOrNothing samplePorts (.updateCredentials 0 (some "player") "new" operator) 0 U.hist
        storedWorld replacedCredentials.world (.ok x : Except Exc (Returned Unit)) := by
  have hreturned : returned replacedCredentials 1 = true := by decide +kernel
  have hanswered : (replacedCredentials.task 1).any (·.hist.all answeredEvent) = true := by
    decide +kernel
  obtain ⟨U, x, hU, hret⟩ := exists_of_returned hreturned
  rw [hU] at hanswered
  obtain ⟨htyped, hsettled⟩ := typed_of_answered hanswered
  have ht : (Config.start storedWorld : Config (machine Unit samplePorts)).task 1 = none := rfl
  exact ⟨U, x, hU, credential_edit_all_or_nothing .refl ht rfl (alone_call honest_effect ht _ _ _) hU
    hret htyped hsettled⟩

end EditRuns

end PlaceGame
