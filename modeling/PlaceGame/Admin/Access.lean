import PlaceGame.Admin.Routes
import PlaceGame.Admin.Lifetime
import PlaceGame.Coop.Footprint

/-!
# PlaceGame.Admin.Access

Who gets through the administration routes to the account system.

`access` follows one request: what its own lookups have found, and which awaits that entitles it to.
`admin_access` joins the requests of a run: the session that lets a request through was created by a
login that had verified the stored hash and came from this site.
-/

namespace PlaceGame

open Coop

/-- The calls that only read, or write nothing but a preview. -/
def Call.Views : Call → Prop
  | .accountStatus _ _ | .preview _ _ _ => True
  | _ => False

/-- The awaits that reach the account system. -/
def WebOp.OfAccounts : WebOp → Prop
  | .service _ | .getAccount _ | .listAccounts => True
  | _ => False

/-- The awaits of the routes that are no writes. -/
def WebOp.Views : WebOp → Prop
  | .service call => call.Views
  | .listAccounts => True
  | _ => False

/-- The calls that a route makes of the account system. -/
def AdminRoute.Requests : AdminRoute → Call → Prop
  | .accountStatus a, call => call = .accountStatus a webuiActor
  | .idlePreview a, call => ∃ correlationId, call = .preview a webuiActor correlationId
  | .createCredentials label username password, call =>
    call = .addCredentials label username password webuiActor
  | .createTokenOnly label sessionToken, call => call = .addTokenOnly label sessionToken webuiActor
  | .updateLabel a label, call => call = .updateLabel a label webuiActor
  | .updateCredentials a username password, call =>
    call = .updateCredentials a username password webuiActor
  | .updateTokenOnly a sessionToken, call => call = .updateTokenOnly a sessionToken webuiActor
  | .enable a, call => call = .enable a webuiActor
  | .disable a, call => call = .disable a webuiActor
  | .pause a reason, call => call = .pause a reason webuiActor
  | .resume a, call => call = .resume a webuiActor
  | .remove a, call => call = .disableDrainRemove a webuiActor
  | _, _ => False

namespace Admin

variable {app : AdminApp} {request : WebRequest} {route : AdminRoute} {α : Type}

/-- The origin of the request, if it names one, is the host that was asked. -/
def SameSite (app : AdminApp) (request : WebRequest) : Prop :=
  ∀ origin, request.origin = some origin → ∃ scheme netloc,
    app.urlsplit origin = .ok (scheme, netloc) ∧ (scheme = "http" ∨ scheme = "https") ∧
    lower netloc = lower request.netloc

/-- What `write_guard` lets pass. -/
def FromSite (app : AdminApp) (request : WebRequest) : Prop :=
  SameSite app request ∧ AdminApp.isJson request = true

/-! ## Following a request -/

/-- The stored hash that a request has read last, and the session that it has found. -/
structure Access where
  stored : Option String := none
  found : Option String := none

namespace Access

def next (m : Access) : (o : WebOp) → webSig.Ans o → Access
  | .auth .readPasswordHash, .ok passwordHash => { m with stored := passwordHash }
  | .auth (.findSession digest _ _), .ok (some _) => { m with found := some digest }
  | _, _ => m

/-- The session of the cookie was found. -/
def Authenticated (app : AdminApp) (request : WebRequest) (m : Access) : Prop :=
  ∃ token, request.cookie = some token ∧ isSessionToken token = true ∧
    m.found = some (app.service.tokenDigest token)

def ok (app : AdminApp) (request : WebRequest) (route : AdminRoute) (m : Access) : WebOp → Prop
  | .auth (.createSession _ _ _) => FromSite app request ∧ ∃ password passwordHash,
      route = .login password ∧ m.stored = some passwordHash ∧
      app.service.verify passwordHash password = true
  | .service call => m.Authenticated app request ∧ (call.Views ∨ FromSite app request) ∧
      route.Requests call
  | .getAccount _ => m.Authenticated app request ∧ FromSite app request
  | .listAccounts => m.Authenticated app request
  | _ => True

theorem ok_of_accounts {m : Access} {o : WebOp} (h : m.ok app request route o)
    (ho : o.OfAccounts) : m.Authenticated app request ∧ (o.Views ∨ FromSite app request) ∧
      ∀ call, o = .service call → route.Requests call := by
  cases o with
  | auth o => exact ho.elim
  | service call =>
    obtain ⟨ha, hview, hrequests⟩ := h
    refine ⟨ha, hview, fun call' heq => ?_⟩
    cases heq
    exact hrequests
  | getAccount a => exact ⟨h.1, .inr h.2, fun _ heq => by cases heq⟩
  | listAccounts => exact ⟨h, .inl trivial, fun _ heq => by cases heq⟩
  | newCorrelationId => exact ho.elim

end Access

def access (app : AdminApp) (call : WebRequest × AdminRoute) : Monitor webSig Access where
  init := {}
  next := Access.next
  ok := Access.ok app call.1 call.2

section Lift

variable {μ : Type} {M : Monitor webSig μ}

/-- What a monitor of requests says about the effects of the authentication service. -/
def onAuth (M : Monitor webSig μ) : Monitor authSig μ where
  init := M.init
  next m o r := M.next m (.auth o) r
  ok m o := M.ok m (.auth o)
  ans m o r := M.ans m (.auth o) r

theorem wp_liftProc (p : Proc authSig α) {Q : μ → α → Prop} {m : μ} :
    (liftProc p).wp M Q m ↔ p.wp (onAuth M) Q m := by
  induction p generalizing m with
  | ret a => rfl
  | call o k ih =>
    exact and_congr_right fun _ => forall_congr' fun r => imp_congr_right fun _ => ih r

theorem wp_liftAuth (c : Auth α) {Q : μ → Except AuthError α → Unit → Prop} {m : μ} {u : Unit} :
    (liftAuth c).wp M Q m u ↔ c.wp (onAuth M) Q m u :=
  wp_liftProc (c u)

end Lift

/-! ## The authentication service -/

abbrev Gate (app : AdminApp) (request : WebRequest) (route : AdminRoute) : Monitor authSig Access :=
  onAuth (access app (request, route))

section Service

variable {m : Access} {u : Unit}

abbrev Lax (app : AdminApp) (request : WebRequest) (route : AdminRoute) (c : Auth α) : Prop :=
  c.Keeps (Gate app request route) fun _ _ => True

theorem lax_await {o : AuthOp} (ho : ∀ digest now expiry, o ≠ .createSession digest now expiry) :
    Lax app request route (AdminAuthService.await o) := by
  refine Coro.Keeps.await fun m u _ => ⟨?_, fun _ _ => trivial⟩
  cases o with
  | createSession digest now expiry => exact absurd rfl (ho digest now expiry)
  | _ => exact trivial

theorem lax_plain (o : AuthOp) (ho : Plain o) :
    Lax app request route (AdminAuthService.await o) := by
  refine lax_await ?_
  rintro digest now expiry rfl
  exact ho

theorem lax_isSetup : Lax app request route AdminAuthService.isSetup :=
  Coro.Keeps.bind (lax_plain _ trivial) fun _ => Coro.Keeps.pure _

theorem lax_changePassword (currentPassword newPassword : String) :
    Lax app request route (app.service.changePassword currentPassword newPassword) := by
  refine keeps_changePassword lax_plain (fun passwordHash now => ?_) currentPassword newPassword
  exact Coro.Keeps.bind (lax_await fun _ _ _ => nofun) fun _ => lax_plain _ trivial

theorem validate_finds (token : String) :
    (app.service.validate (some token)).wp (Gate app request route)
      (fun m' r _ => ∀ session, r = .ok (some session) →
        m'.found = some (app.service.tokenDigest token)) m u := by
  unfold AdminAuthService.validate
  dsimp only
  rw [Coro.wp_ite]
  refine ⟨fun _ _ h => (by cases h), fun _ => ?_⟩
  unfold AdminAuthService.await
  rw [Coro.wp_bind, Coro.wp_await]
  refine ⟨trivial, fun r _ => ?_⟩
  cases r with
  | error e => exact fun _ h => by cases h
  | ok now =>
    rw [Coro.chain_ok, Coro.wp_await]
    refine ⟨trivial, fun r _ => ?_⟩
    rintro session rfl
    rfl

theorem login_verifies (password : String) (hroute : route = .login password)
    (hsite : FromSite app request) :
    (app.service.login password).wp (Gate app request route) (fun _ _ _ => True) m u := by
  have hverified : (app.service.verifyStored password).wp (Gate app request route)
      (fun m' r _ => r = .ok () → ∃ passwordHash, m'.stored = some passwordHash ∧
        app.service.verify passwordHash password = true) m u := by
    unfold AdminAuthService.verifyStored AdminAuthService.await
    rw [Coro.wp_bind, Coro.wp_await]
    refine ⟨trivial, fun r _ => ?_⟩
    rcases r with e | _ | passwordHash
    · exact fun h => by cases h
    · exact fun h => by cases h
    · rw [Coro.chain_ok, Coro.wp_raiseIf]
      refine ⟨fun _ h => (by cases h), fun hverify _ => ⟨passwordHash, rfl, ?_⟩⟩
      simpa using hverify
  unfold AdminAuthService.login
  refine Coro.wp_seq hverified (fun m' _ _ h => ?_) fun _ _ _ _ => trivial
  obtain ⟨passwordHash, hstored, hverify⟩ := h rfl
  unfold AdminAuthService.await
  rw [Coro.wp_bind, Coro.wp_await]
  refine ⟨trivial, fun r _ => ?_⟩
  cases r with
  | error e => trivial
  | ok now =>
    rw [Coro.chain_ok, Coro.wp_bind, Coro.wp_await]
    refine ⟨trivial, fun r _ => ?_⟩
    cases r with
    | error e => trivial
    | ok token =>
      rw [Coro.chain_ok, Coro.wp_bind, Coro.wp_await]
      refine ⟨⟨hsite, password, passwordHash, hroute, hstored, hverify⟩, fun r _ => ?_⟩
      cases r <;> trivial

end Service

/-! ## The handlers -/

section Handlers

variable {m : Access} {u : Unit}

theorem wp_invoke {operation : Web α}
    {Q : Access → Except AuthError (Except WebReply α) → Unit → Prop}
    (h : operation.wp (access app (request, route))
      (fun m' r u => (∀ a, r = .ok a → Q m' (.ok (.ok a)) u) ∧
        ∀ e, r = .error e → (∀ reply, Q m' (.ok (.error reply)) u) ∧ Q m' (.error e) u) m u) :
    (AdminApp.invoke operation).wp (access app (request, route)) Q m u := by
  unfold AdminApp.invoke
  rw [Coro.wp_bind, Coro.wp_attempt]
  refine Coro.wp_mono h fun m' r u hr => ?_
  rw [Coro.chain_ok]
  cases r with
  | ok a => exact hr.1 a rfl
  | error e =>
    dsimp only
    rw [Coro.wp_ite]
    exact ⟨fun _ => (hr.2 e rfl).1 _, fun _ => (hr.2 e rfl).2⟩

/-- The monitor state that every outcome of the operation leaves. -/
theorem wp_invoke_state {operation : Web α} {I : Access → Prop}
    (h : operation.wp (access app (request, route)) (fun m' _ _ => I m') m u) :
    (AdminApp.invoke operation).wp (access app (request, route)) (fun m' _ _ => I m') m u :=
  wp_invoke (Coro.wp_mono h fun _ _ _ hi => ⟨fun _ _ => hi, fun _ _ => ⟨fun _ => hi, hi⟩⟩)

theorem wp_lax {c : Auth α} (hc : Lax app request route c) :
    (AdminApp.invoke (liftAuth c)).wp (access app (request, route)) (fun _ _ _ => True) m u :=
  wp_invoke_state ((wp_liftAuth c).mpr (hc m u trivial))

theorem wp_sameOrigin :
    (AdminApp.sameOrigin app request).wp (access app (request, route))
      (fun m' r _ => m' = m ∧ (r = .ok none → SameSite app request)) m u := by
  unfold AdminApp.sameOrigin
  split
  · rename_i hnone
    refine ⟨rfl, fun _ origin h => ?_⟩
    rw [hnone] at h
    cases h
  · rename_i origin hsome
    split
    · exact ⟨rfl, fun h => by cases h⟩
    · rename_i scheme netloc hsplit
      rw [Coro.wp_ite]
      refine ⟨fun _ => ⟨rfl, fun h => (by cases h)⟩, fun hpass => ⟨rfl, fun _ origin' h => ?_⟩⟩
      cases hsome.symm.trans h
      rw [not_or, not_and_or, not_not, not_not, not_not] at hpass
      exact ⟨scheme, netloc, hsplit, hpass⟩

theorem wp_writeGuard :
    (AdminApp.writeGuard app request).wp (access app (request, route))
      (fun m' r _ => m' = m ∧ (r = .ok none → FromSite app request)) m u := by
  unfold AdminApp.writeGuard
  refine Coro.wp_seq wp_sameOrigin ?_ fun _ _ _ h => ⟨h.1, fun h => by cases h⟩
  rintro m' reply u ⟨rfl, hsame⟩
  cases reply with
  | some reply => exact ⟨rfl, fun h => by cases h⟩
  | none =>
    refine ⟨rfl, fun h => ⟨hsame rfl, ?_⟩⟩
    by_contra hjson
    rw [AdminApp.requireJson, if_neg hjson] at h
    cases h

/-- A request that has a session has found the one of its cookie. -/
theorem wp_requireAdmin :
    (AdminApp.requireAdmin app request).wp (access app (request, route))
      (fun m' r _ => ∀ session, r = .ok (.ok (some session)) → m'.Authenticated app request)
      m u := by
  unfold AdminApp.requireAdmin
  split
  · exact fun _ h => by cases h
  · rename_i token hcookie
    rw [Coro.wp_ite]
    refine ⟨fun _ _ h => (by cases h), fun htoken => ?_⟩
    rw [Coro.wp_bind, Coro.wp_attempt, wp_liftAuth]
    refine Coro.wp_mono (validate_finds token) fun m' r u hr => ?_
    rw [Coro.chain_ok]
    cases r with
    | ok found =>
      rintro session ⟨⟩
      exact ⟨token, hcookie, by simpa using htoken, hr session rfl⟩
    | error e =>
      dsimp only
      rw [Coro.wp_ite]
      exact ⟨fun _ _ h => (by cases h), fun _ _ h => (by cases h)⟩

theorem wp_reply {c : Web (Except WebReply α)} {f : Except WebReply α → Web WebReply}
    {I : Access → Prop} (hc : c.wp (access app (request, route)) (fun m' _ _ => I m') m u)
    (hf : ∀ r, ∃ reply, f r = pure reply) :
    (c >>= f).wp (access app (request, route)) (fun _ _ _ => True) m u := by
  refine Coro.wp_seq hc (fun m r u _ => ?_) fun _ _ _ _ => trivial
  obtain ⟨reply, hreply⟩ := hf r
  rw [hreply]
  trivial

variable {session : Except WebReply (Option AdminSession)}

theorem refusal_none (h : AdminApp.refusal session = none) :
    ∃ found, session = .ok (some found) := by
  rcases session with reply | _ | found
  · cases h
  · cases h
  · exact ⟨found, rfl⟩

theorem wp_writeAccess :
    (AdminApp.writeAccess app request session).wp (access app (request, route))
      (fun m' r _ => m' = m ∧ (r = .ok none → FromSite app request ∧
        ∃ found, session = .ok (some found))) m u := by
  unfold AdminApp.writeAccess
  refine Coro.wp_seq wp_writeGuard ?_ fun _ _ _ h => ⟨h.1, fun h => by cases h⟩
  rintro m' reply u ⟨rfl, hsite⟩
  cases reply with
  | some reply => exact ⟨rfl, fun h => by cases h⟩
  | none =>
    refine ⟨rfl, fun h => ⟨hsite rfl, refusal_none ?_⟩⟩
    exact Except.ok.inj h

abbrev Admitted (app : AdminApp) (request : WebRequest) (m : Access)
    (session : Except WebReply (Option AdminSession)) : Prop :=
  ∀ found, session = .ok (some found) → m.Authenticated app request

theorem wp_service {call : Call} (ha : m.Authenticated app request)
    (hv : call.Views ∨ FromSite app request) (hr : route.Requests call) :
    (AdminApp.await (.service call)).wp (access app (request, route)) (fun m' _ _ => m' = m) m
      u := by
  unfold AdminApp.await
  rw [Coro.wp_await]
  exact ⟨⟨ha, hv, hr⟩, fun _ _ => rfl⟩

theorem wp_authenticatedWrite {call : Call} (ha : Admitted app request m session)
    (hr : route.Requests call) :
    (AdminApp.authenticatedWrite app request session (AdminApp.await (.service call))).wp
      (access app (request, route))
      (fun m' r _ => ∀ result, r = .ok (.ok result) →
        m'.Authenticated app request ∧ FromSite app request) m u := by
  unfold AdminApp.authenticatedWrite
  refine Coro.wp_seq wp_writeAccess ?_ fun _ _ _ _ _ h => by cases h
  rintro m' reply u ⟨rfl, hpass⟩
  cases reply with
  | some reply => exact fun _ h => by cases h
  | none =>
    obtain ⟨hsite, found, hfound⟩ := hpass rfl
    have hadmitted := ha found hfound
    refine wp_invoke (Coro.wp_mono (wp_service hadmitted (.inr hsite) hr) ?_)
    rintro m'' r u rfl
    refine ⟨fun _ _ _ _ => ⟨hadmitted, hsite⟩, fun _ _ => ⟨fun _ _ h => ?_, fun _ h => ?_⟩⟩
    · cases h
    · cases h

theorem wp_getAccount {a : AccountId} (ha : m.Authenticated app request)
    (hsite : FromSite app request) :
    (AdminApp.await (.getAccount a)).wp (access app (request, route)) (fun m' _ _ => m' = m) m
      u := by
  unfold AdminApp.await
  rw [Coro.wp_await]
  exact ⟨⟨ha, hsite⟩, fun _ _ => rfl⟩

theorem wp_accountAfter {a : AccountId} {call : Call} (ha : Admitted app request m session)
    (hr : route.Requests call) :
    (AdminApp.accountAfter app request a session call).wp (access app (request, route))
      (fun _ _ _ => True) m u := by
  unfold AdminApp.accountAfter
  refine Coro.wp_seq (wp_authenticatedWrite ha hr) ?_ fun _ _ _ _ => trivial
  intro m' result u h
  cases result with
  | error reply => trivial
  | ok result =>
    obtain ⟨hadmitted, hsite⟩ := h result rfl
    refine wp_reply (wp_invoke_state (wp_getAccount hadmitted hsite)) fun account => ?_
    cases account <;> exact ⟨_, rfl⟩

theorem wp_accountWrite {a : AccountId} {call : Call} (hr : route.Requests call) :
    (AdminApp.accountWrite app request a call).wp (access app (request, route))
      (fun _ _ _ => True) m u := by
  unfold AdminApp.accountWrite
  refine Coro.wp_seq wp_requireAdmin ?_ fun _ _ _ _ => trivial
  intro m' session u h
  exact wp_accountAfter (fun found hfound => h found (congrArg _ hfound)) hr

theorem wp_accountCreate {call : Call} (hr : route.Requests call) :
    (AdminApp.accountCreate app request call).wp (access app (request, route))
      (fun _ _ _ => True) m u := by
  unfold AdminApp.accountCreate
  refine Coro.wp_seq wp_requireAdmin ?_ fun _ _ _ _ => trivial
  intro m' session u h
  have ha : Admitted app request m' session := fun found hfound => h found (congrArg _ hfound)
  refine wp_reply (I := fun _ => True) ?_ fun result => ?_
  · exact Coro.wp_mono (wp_authenticatedWrite ha hr) fun _ _ _ _ => trivial
  · cases result <;> exact ⟨_, rfl⟩

theorem wp_secretsUpdate {a : AccountId} {expected : AuthMode} {call : Call}
    (hr : route.Requests call) :
    (AdminApp.secretsUpdate app request a expected call).wp (access app (request, route))
      (fun _ _ _ => True) m u := by
  unfold AdminApp.secretsUpdate
  refine Coro.wp_seq wp_requireAdmin ?_ fun _ _ _ _ => trivial
  intro m' session u h
  have ha : Admitted app request m' session := fun found hfound => h found (congrArg _ hfound)
  refine Coro.wp_seq wp_writeAccess ?_ fun _ _ _ _ => trivial
  rintro m'' reply u ⟨rfl, hpass⟩
  cases reply with
  | some reply => trivial
  | none =>
    obtain ⟨hsite, found, hfound⟩ := hpass rfl
    have hmode : (AdminApp.requireAccountMode a expected).wp (access app (request, route))
        (fun mode _ _ => mode = m'') m'' u := by
      unfold AdminApp.requireAccountMode
      refine Coro.wp_seq (wp_invoke_state (wp_getAccount (ha found hfound) hsite)) ?_
        fun _ _ _ h => h
      rintro mode account u rfl
      cases account with
      | error reply => rfl
      | ok account =>
        dsimp only
        rw [Coro.wp_ite]
        exact ⟨fun _ => rfl, fun _ => rfl⟩
    refine Coro.wp_seq hmode ?_ fun _ _ _ _ => trivial
    rintro mode reply u rfl
    cases reply with
    | some reply => trivial
    | none => exact wp_accountAfter ha hr

theorem wp_signedIn {rest : Web WebReply}
    (h : ∀ m u, m.Authenticated app request →
      rest.wp (access app (request, route)) (fun _ _ _ => True) m u) :
    (do
      let session ← AdminApp.requireAdmin app request
      match AdminApp.refusal session with
      | some reply => return reply
      | none => rest : Web WebReply).wp (access app (request, route)) (fun _ _ _ => True) m u := by
  refine Coro.wp_seq wp_requireAdmin ?_ fun _ _ _ _ => trivial
  intro m' session u ha
  cases hrefusal : AdminApp.refusal session with
  | some reply => trivial
  | none =>
    obtain ⟨found, rfl⟩ := refusal_none hrefusal
    exact h m' u (ha found rfl)

theorem wp_accountRead {operation : Web α} {body : α → WebBody}
    (h : ∀ m u, m.Authenticated app request →
      operation.wp (access app (request, route)) (fun _ _ _ => True) m u) :
    (AdminApp.accountRead app request operation body).wp (access app (request, route))
      (fun _ _ _ => True) m u := by
  unfold AdminApp.accountRead
  refine wp_signedIn fun m u ha => ?_
  refine wp_reply (wp_invoke_state (h m u ha)) fun result => ?_
  cases result <;> exact ⟨_, rfl⟩

theorem wp_idlePreview {a : AccountId} (hroute : route = .idlePreview a) :
    (AdminApp.idlePreview app request a).wp (access app (request, route))
      (fun _ _ _ => True) m u := by
  unfold AdminApp.idlePreview
  refine wp_signedIn fun m u ha => ?_
  unfold AdminApp.await
  rw [Coro.wp_bind, Coro.wp_await]
  refine ⟨trivial, fun r _ => ?_⟩
  cases r with
  | error e => trivial
  | ok correlationId =>
    have hcall : route.Requests (.preview a webuiActor correlationId) := by
      rw [hroute]
      exact ⟨correlationId, rfl⟩
    rw [Coro.chain_ok]
    refine wp_reply (wp_invoke_state (wp_service ha (.inl trivial) hcall)) fun result => ?_
    cases result <;> exact ⟨_, rfl⟩

theorem wp_authStatus :
    (AdminApp.authStatus app request).wp (access app (request, route)) (fun _ _ _ => True) m u := by
  unfold AdminApp.authStatus
  refine Coro.wp_seq (wp_lax lax_isSetup) ?_ fun _ _ _ _ => trivial
  intro m' setup u _
  cases setup with
  | error reply => trivial
  | ok setup =>
    dsimp only
    rw [Coro.wp_ite]
    refine ⟨fun _ => trivial, fun _ => ?_⟩
    refine Coro.wp_seq wp_requireAdmin ?_ fun _ _ _ _ => trivial
    intro _ session _ _
    cases session <;> trivial

theorem wp_guarded {c : Auth α} {f : Except WebReply α → Web WebReply}
    (hc : FromSite app request → ∀ m u,
      c.wp (Gate app request route) (fun _ _ _ => True) m u)
    (hf : ∀ r, ∃ reply, f r = pure reply) :
    (do
      match ← AdminApp.writeGuard app request with
      | some reply => return reply
      | none => AdminApp.invoke (liftAuth c) >>= f : Web WebReply).wp (access app (request, route))
      (fun _ _ _ => True) m u := by
  refine Coro.wp_seq wp_writeGuard ?_ fun _ _ _ _ => trivial
  rintro m' reply u ⟨-, hsite⟩
  cases reply with
  | some reply => trivial
  | none =>
    have hinvoke := wp_invoke_state (I := fun _ => True) ((wp_liftAuth c).mpr (hc (hsite rfl) m' u))
    exact wp_reply hinvoke hf

theorem wp_endSessions {operation : Auth Unit} (hc : Lax app request route operation) :
    (AdminApp.endSessions app request operation).wp (access app (request, route))
      (fun _ _ _ => True) m u := by
  unfold AdminApp.endSessions
  refine Coro.wp_seq wp_requireAdmin ?_ fun _ _ _ _ => trivial
  intro _ session u _
  refine Coro.wp_seq wp_writeAccess ?_ fun _ _ _ _ => trivial
  intro _ reply u _
  cases reply with
  | some reply => trivial
  | none =>
    refine wp_reply (I := fun _ => True) (wp_lax hc) fun result => ?_
    cases result <;> exact ⟨_, rfl⟩

/-- Every handler keeps to what its own lookups entitle it to. -/
theorem wp_handle (request : WebRequest) (route : AdminRoute) :
    (AdminApp.handle app request route).wp (access app (request, route)) (fun _ _ _ => True) m
      u := by
  cases route with
  | authStatus => exact wp_authStatus
  | setup password =>
    refine wp_guarded (fun _ m u => keeps_setup lax_plain password m u trivial) fun r => ?_
    cases r <;> exact ⟨_, rfl⟩
  | login password =>
    refine wp_guarded (fun hsite _ _ => login_verifies password rfl hsite) fun r => ?_
    cases r <;> exact ⟨_, rfl⟩
  | logout => exact wp_endSessions (keeps_logout lax_plain _)
  | changePassword currentPassword newPassword => exact wp_endSessions (lax_changePassword _ _)
  | accountsList => exact wp_accountRead fun m u ha => ⟨ha, fun _ _ => trivial⟩
  | accountStatus a =>
    refine wp_accountRead fun m u ha => ?_
    exact Coro.wp_mono (wp_service ha (.inl trivial) rfl) fun _ _ _ _ => trivial
  | idlePreview a => exact wp_idlePreview rfl
  | createCredentials label username password => exact wp_accountCreate rfl
  | createTokenOnly label sessionToken => exact wp_accountCreate rfl
  | updateCredentials a username password => exact wp_secretsUpdate rfl
  | updateTokenOnly a sessionToken => exact wp_secretsUpdate rfl
  | updateLabel a label => exact wp_accountWrite rfl
  | enable a => exact wp_accountWrite rfl
  | disable a => exact wp_accountWrite rfl
  | pause a reason => exact wp_accountWrite rfl
  | resume a => exact wp_accountWrite rfl
  | remove a => exact wp_accountWrite rfl

end Handlers

/-! ## Runs -/

section Runs

variable {w : AdminStore} {c c' : Config (adminRoutes app)} {t : TaskId}
variable {U : Task (adminRoutes app)} {digest : String}

def accessOf (U : Task (adminRoutes app)) : Access := (access app U.call).after U.hist

theorem accessed (app : AdminApp) :
    Reachable.Watched (adminRoutes app) (access app) fun _ _ _ => True where
  prog call := by
    show (Coro.toProc () (app.handle call.1 call.2)).wp _ _ _
    rw [Coro.wp_toProc]
    exact wp_handle call.1 call.2
  ans _ _ _ _ _ _ _ _ := trivial

theorem Access.stored_next {m : Access} {o : WebOp} {r : webSig.Ans o} {passwordHash : String}
    (h : (m.next o r).stored = some passwordHash) :
    m.stored = some passwordHash ∨
      (⟨o, r⟩ : Event webSig) = ⟨.auth .readPasswordHash, .ok (some passwordHash)⟩ := by
  cases o with
  | auth o =>
    cases o with
    | readPasswordHash =>
      rcases r with e | stored
      · exact .inl h
      · have hstored : stored = some passwordHash := h
        rw [hstored]
        exact .inr rfl
    | findSession digest now idle => rcases r with e | _ | record <;> exact .inl h
    | _ => exact .inl h
  | _ => exact .inl h

theorem Access.found_next {m : Access} {o : WebOp} {r : webSig.Ans o}
    (h : (m.next o r).found = some digest) :
    m.found = some digest ∨ ∃ now idle record,
      (⟨o, r⟩ : Event webSig) = ⟨.auth (.findSession digest now idle), .ok (some record)⟩ := by
  cases o with
  | auth o =>
    cases o with
    | readPasswordHash => rcases r with e | stored <;> exact .inl h
    | findSession digest' now idle =>
      rcases r with e | _ | record
      · exact .inl h
      · exact .inl h
      · cases h
        exact .inr ⟨now, idle, record, rfl⟩
    | _ => exact .inl h
  | _ => exact .inl h

theorem stored_was_read {passwordHash : String} (h : (accessOf U).stored = some passwordHash) :
    (⟨.auth .readPasswordHash, .ok (some passwordHash)⟩ : Event webSig) ∈ U.hist := by
  have hempty : (access app U.call).init.stored ≠ some passwordHash := nofun
  obtain ⟨e, hmem, rfl⟩ := Monitor.exists_of_after (M := access app U.call)
    (P := fun m => m.stored = some passwordHash)
    (E := fun e => e = ⟨.auth .readPasswordHash, .ok (some passwordHash)⟩)
    hempty (fun _ _ _ => Access.stored_next) h
  exact hmem

theorem found_was_read (h : (accessOf U).found = some digest) : ∃ now idle record,
    (⟨.auth (.findSession digest now idle), .ok (some record)⟩ : Event webSig) ∈ U.hist := by
  have hempty : (access app U.call).init.found ≠ some digest := nofun
  obtain ⟨e, hmem, now, idle, record, rfl⟩ := Monitor.exists_of_after (M := access app U.call)
    (P := fun m => m.found = some digest)
    (E := fun e => ∃ now idle record,
      e = ⟨.auth (.findSession digest now idle), .ok (some record)⟩)
    hempty (fun _ _ _ => Access.found_next) h
  exact ⟨now, idle, record, hmem⟩

/-- A login from this site, which had verified the stored hash, has asked for the session. -/
def LoggedIn (c : Config (adminRoutes app)) (digest : String) : Prop :=
  ∃ t U password passwordHash now expiry r, c.task t = some U ∧ U.call.2 = .login password ∧
    FromSite app U.call.1 ∧ app.service.verify passwordHash password = true ∧
    (⟨.auth .readPasswordHash, .ok (some passwordHash)⟩ : Event webSig) ∈ U.hist ∧
    (⟨.auth (.createSession digest now expiry), r⟩ : Event webSig) ∈ U.hist

theorem LoggedIn.step (h : LoggedIn c digest) (hst : Step c c') : LoggedIn c' digest := by
  obtain ⟨t, U, password, passwordHash, now, expiry, r, hU, hcall, hsite, hverify, hread, hmem⟩ := h
  obtain ⟨U', hU', hsame, hhist⟩ := hst.keeps hU
  exact ⟨t, U', password, passwordHash, now, expiry, r, hU', hsame ▸ hcall, hsame ▸ hsite, hverify,
    hhist hread, hhist hmem⟩

/-- Every session that is stored comes from a login, and so does every session that a request has
found, which had not expired then. -/
structure Guarded (c : Config (adminRoutes app)) : Prop where
  rows : ∀ digest record, c.world.sessions digest = some record → LoggedIn c digest
  found : ∀ t U digest now idle record, c.task t = some U →
    (⟨.auth (.findSession digest now idle), .ok (some record)⟩ : Event webSig) ∈ U.hist →
    now < record.absoluteExpiresAt ∧ LoggedIn c digest

/-- A new session row is the one of a login. -/
theorem Guarded.rows_step (h : Reachable (.start w) c) (hs : Guarded c) (hst : Step c c')
    {record : AdminSession} (hrow : c'.world.sessions digest = some record) :
    LoggedIn c' digest := by
  have hkept : ∀ {row}, c.world.sessions digest = some row → LoggedIn c' digest :=
    fun hold => (hs.rows digest _ hold).step hst
  rcases hst.world_cases with hsame | ⟨now, -, hsame⟩ | ⟨u, hsame⟩ |
    ⟨t, U, o, k, r, hU, halive, hp, hperform, hU'⟩
  · exact hkept (hsame ▸ hrow)
  · rw [hsame] at hrow
    exact hkept hrow
  · rw [hsame] at hrow
    exact hkept hrow
  · cases o with
    | auth o =>
      have hperforms : c.world.Performs o r c'.world := hperform
      rcases performs_effect hperforms with hsame | ⟨reply, hsame⟩
      · exact hkept (hsame ▸ hrow)
      rw [hsame] at hrow
      rcases effect_sessions hrow with hold | ⟨now, idle, seen, -, hold, -⟩ |
        ⟨now, expiry, rfl, -, -⟩
      · exact hkept hold
      · exact hkept hold
      · obtain ⟨hsite, password, passwordHash, hlogin, hstored, hverify⟩ :=
          (Reachable.follows (accessed app) h t U hU).allowed hp
        exact ⟨t, _, password, passwordHash, now, expiry, r, hU', hlogin, hsite, hverify,
          List.mem_cons_of_mem _ (stored_was_read hstored), List.mem_cons_self⟩
    | _ =>
      have hsame : c'.world = c.world := hperform
      exact hkept (hsame ▸ hrow)

theorem Guarded.step (h : Reachable (.start w) c) (hs : Guarded c) (hst : Step c c') :
    Guarded c' where
  rows digest record hrow := hs.rows_step h hst hrow
  found t U' digest now idle record hU' hmem := by
    have hold : ∀ {U}, c.task t = some U →
        (⟨.auth (.findSession digest now idle), .ok (some record)⟩ : Event webSig) ∈ U.hist →
        now < record.absoluteExpiresAt ∧ LoggedIn c' digest := by
      intro U hU hbefore
      obtain ⟨halive, hlogin⟩ := hs.found t U digest now idle record hU hbefore
      exact ⟨halive, hlogin.step hst⟩
    rcases hst.task_cases hU' with ⟨-, hnew⟩ | ⟨U, hU, -, ⟨hhist, -⟩ | ⟨o, k, r, -, -, hw, rfl⟩⟩
    · rw [hnew] at hmem
      cases hmem
    · exact hold hU (hhist ▸ hmem)
    · rcases List.mem_cons.mp hmem with heq | hbefore
      · cases heq
        obtain ⟨row, hrow, halive, rfl⟩ := row_of_found hw
        exact ⟨(lt_of_alive halive).1, (hs.rows digest row hrow).step hst⟩
      · exact hold hU hbefore

theorem guarded_of_reachable (hw : ∀ digest, w.sessions digest = none)
    (h : Reachable (.start w) c) : Guarded c := by
  refine Reachable.invariant h Guarded ?_ fun _ _ hr hs hst => hs.step hr hst
  refine ⟨fun digest record hrow => ?_, fun _ _ _ _ _ _ ht => by cases ht⟩
  rw [show (Config.start w : Config (adminRoutes app)).world.sessions digest = none from hw digest]
    at hrow
  cases hrow

/-- A request that reaches the account system has found the session of its own cookie, which had
not expired, and a login from this site had created that session after it verified the stored hash.
What is no view comes from this site itself, and no route makes another call than its own. -/
theorem admin_access (hw : ∀ digest, w.sessions digest = none) (h : Reachable (.start w) c)
    (ht : c.task t = some U) {o : WebOp} (hp : U.pending = some o) (ho : o.OfAccounts) :
    (∃ token now idle record, U.call.1.cookie = some token ∧ isSessionToken token = true ∧
      (⟨.auth (.findSession (app.service.tokenDigest token) now idle), .ok (some record)⟩ :
        Event webSig) ∈ U.hist ∧ now < record.absoluteExpiresAt ∧
      LoggedIn c (app.service.tokenDigest token)) ∧
    (o.Views ∨ FromSite app U.call.1) ∧ ∀ call, o = .service call → U.call.2.Requests call := by
  obtain ⟨k, hk⟩ := Task.pending_eq hp
  obtain ⟨⟨token, hcookie, htoken, hfound⟩, hsite, hrequests⟩ :=
    Access.ok_of_accounts ((Reachable.follows (accessed app) h t U ht).allowed hk) ho
  obtain ⟨now, idle, record, hmem⟩ := found_was_read hfound
  obtain ⟨halive, hlogin⟩ := (guarded_of_reachable hw h).found t U _ now idle record ht hmem
  exact ⟨⟨token, now, idle, record, hcookie, htoken, hmem, halive, hlogin⟩, hsite, hrequests⟩

end Runs

section Example

def sampleApp : AdminApp where
  service := sampleService
  urlsplit origin := if origin = "https://placegame.test" then .ok ("https", "placegame.test")
    else .error (.valueError "Invalid URL")

def siteRequest (cookie : Option String) : WebRequest where
  cookie := cookie
  origin := some "https://placegame.test"
  netloc := "placegame.test"
  contentType := some "application/json"

def webAnswering : Responder webSig AdminStore := fun _ s o reply =>
  match o, reply with
  | .auth o, reply => some (s.effect o reply)
  | _, reply => some (reply, s)

theorem honest_webAnswering : webAnswering.Honest (adminRoutes sampleApp) := by
  intro t s o reply r s' h
  cases o with
  | auth o =>
    have hdone : s.Performs o (s.effect o reply).1 (s.effect o reply).2 := .done reply
    rw [Option.some.inj h] at hdone
    exact hdone
  | _ =>
    cases h
    rfl

def webDrawn : (o : WebOp) → webSig.Ans o
  | .auth o => drawn o
  | _ => .error .unauthorized

def enableRun : Config (adminRoutes sampleApp) :=
  (((Config.start {}).call webAnswering 0 (siteRequest none, .setup "first") webDrawn 3).call
    webAnswering 1 (siteRequest none, .login "first") webDrawn 4).call
    webAnswering 2 (siteRequest (some sampleToken), .enable 0) webDrawn 2

theorem reachable_enableRun : Reachable (.start {}) enableRun :=
  ((reachable_call honest_webAnswering ..).trans (reachable_call honest_webAnswering ..)).trans
    (reachable_call honest_webAnswering ..)

theorem enableRun_pending :
    (enableRun.task 2).any (fun U => U.pending.any fun o =>
      match o with
      | .service (.enable 0 _) => true
      | _ => false) = true := by
  decide +kernel

/-- The request that enables the account follows the login. -/
theorem enableRun_admitted : ∃ (U : Task (adminRoutes sampleApp)) (token : String),
    enableRun.task 2 = some U ∧ U.call.1.cookie = some token ∧
    LoggedIn enableRun (sampleApp.service.tokenDigest token) := by
  obtain ⟨U, hU, h⟩ := (Option.any_eq_true ..).mp enableRun_pending
  obtain ⟨o, ho, h⟩ := (Option.any_eq_true ..).mp h
  cases o with
  | service call =>
    obtain ⟨⟨token, now, idle, record, hcookie, -, -, -, hlogin⟩, -⟩ :=
      admin_access (fun _ => rfl) reachable_enableRun hU ho trivial
    exact ⟨U, token, hU, hcookie, hlogin⟩
  | _ => cases h

end Example

end Admin

end PlaceGame
