import PlaceGame.Admin.Sessions
import PlaceGame.Coop.Run

/-!
# PlaceGame.Admin.Lifetime

How long a session of the administrator lives. Calls come one after the other, each at the instant
that it reads from the clock, and a session is accepted as long as its history says so.
-/

namespace PlaceGame

open Coop

namespace Admin

/-- One call, the instant at which it reads the clock, and what it draws. -/
structure Turn where
  now : Time
  call : AuthCall
  draw : (o : AuthOp) → authSig.Ans o

abbrev Answer : Type := Except AuthError AuthReturned

def answers (draw : (o : AuthOp) → authSig.Ans o) : Handler authSig AdminStore :=
  fun s o => s.effect o (draw o)

variable (service : AdminAuthService)

def serve (s : AdminStore) (turn : Turn) : Answer × AdminStore :=
  ((admin service).prog turn.call).run (answers turn.draw) { s with now := turn.now }

def after (s : AdminStore) (turns : List Turn) : AdminStore :=
  turns.foldl (fun s turn => (serve service s turn).2) s

def served : AdminStore → List Turn → List (Turn × Answer)
  | _, [] => []
  | s, turn :: turns => (turn, (serve service s turn).1) :: served (serve service s turn).2 turns

/-- Nothing is served but what the machine does when one task runs alone. -/
theorem path_serve (s : AdminStore) (turn : Turn) (t : TaskId) :
    ∃ h, Path (admin service) t { s with now := turn.now } ((admin service).prog turn.call) h
      (serve service s turn).2 (.ret (serve service s turn).1) :=
  Proc.path_run (K := admin service) (t := t) (fun _ o => .done (turn.draw o)) _ _

/-! ## One call -/

section

variable {service} {s : AdminStore} {now : Time} {draw : (o : AuthOp) → authSig.Ans o}
  {token digest : String}

theorem serve_eq (call : AuthCall) :
    serve service s ⟨now, call, draw⟩ =
      (((call.run service).run (answers draw) { s with now := now } ()).1.1,
        ((call.run service).run (answers draw) { s with now := now } ()).2) :=
  Coro.run_toProc _

theorem run_return {α : Type} {c : Auth α} {f : α → AuthReturned} {out : Except AuthError α}
    {s' : AdminStore} (h : c.run (answers draw) s () = ((out, ()), s')) :
    (c >>= fun a => pure (f a)).run (answers draw) s () = ((out.map f, ()), s') := by
  rw [Coro.run_bind, h]
  cases out <;> rfl

theorem run_validate (htoken : isSessionToken token = true) :
    (service.validate (some token)).run (answers draw) s () =
      (((s.findSession (service.tokenDigest token) s.now service.idleSeconds).1, ()),
        (s.findSession (service.tokenDigest token) s.now service.idleSeconds).2) := by
  have hvalidate : service.validate (some token) =
      (do
        let now ← AdminAuthService.await .now
        AdminAuthService.await
          (.findSession (service.tokenDigest token) now service.idleSeconds)) :=
    if_neg (by simp [htoken])
  rw [hvalidate]
  rfl

theorem serve_validate (htoken : isSessionToken token = true) :
    serve service s ⟨now, .validate (some token), draw⟩ =
      ((({ s with now := now } : AdminStore).findSession (service.tokenDigest token) now
          service.idleSeconds).1.map .session,
        (({ s with now := now } : AdminStore).findSession (service.tokenDigest token) now
          service.idleSeconds).2) := by
  rw [serve_eq, AuthCall.run, run_return (run_validate htoken)]

theorem serve_validate_malformed {rawToken : Option String}
    (h : ∀ token, rawToken = some token → isSessionToken token = false) :
    serve service s ⟨now, .validate rawToken, draw⟩ = (.ok (.session none), { s with now := now }) := by
  cases rawToken with
  | none => rfl
  | some token =>
    have hvalidate : service.validate (some token) = pure none := if_pos (h token rfl)
    rw [serve_eq, AuthCall.run, hvalidate]
    rfl

theorem serve_logout (htoken : isSessionToken token = true) :
    serve service s ⟨now, .logout (some token), draw⟩ =
      (.ok .unit, ({ s with now := now } : AdminStore).deleteSession (service.tokenDigest token)) := by
  have hlogout : service.logout (some token) =
      AdminAuthService.await (.deleteSession (service.tokenDigest token)) :=
    if_neg (by simp [htoken])
  rw [serve_eq, AuthCall.run, hlogout]
  rfl

theorem serve_logout_malformed {rawToken : Option String}
    (h : ∀ token, rawToken = some token → isSessionToken token = false) :
    serve service s ⟨now, .logout rawToken, draw⟩ = (.ok .unit, { s with now := now }) := by
  cases rawToken with
  | none => rfl
  | some token =>
    have hlogout : service.logout (some token) = pure () := if_pos (h token rfl)
    rw [serve_eq, AuthCall.run, hlogout]
    rfl

variable (service s draw) in
theorem run_verifyStored (password : String) :
    (service.verifyStored password).run (answers draw) s () = ((.ok (), ()), s) ∨
      (service.verifyStored password).run (answers draw) s () = ((.error .unauthorized, ()), s) := by
  have hread : (AdminAuthService.await .readPasswordHash).run (answers draw) s () =
      ((.ok s.passwordHash, ()), s) := rfl
  unfold AdminAuthService.verifyStored
  rw [Coro.run_bind_ok hread]
  cases s.passwordHash with
  | none => exact .inr rfl
  | some passwordHash =>
    simp only [Coro.run_raiseIf]
    split
    · exact .inr rfl
    · exact .inl rfl

variable (s draw) in
theorem run_requirePassword (password : String) :
    (AdminAuthService.requirePassword password).run (answers draw) s () = ((.ok (), ()), s) ∨
      (AdminAuthService.requirePassword password).run (answers draw) s () =
        ((.error .passwordTooShort, ()), s) := by
  unfold AdminAuthService.requirePassword
  rw [Coro.run_raiseIf]
  split
  · exact .inr rfl
  · exact .inl rfl

variable (s draw) in
theorem run_draw (o : AuthOp) (h : ∀ s : AdminStore, s.effect o (draw o) = (draw o, s)) :
    (∃ v, draw o = .ok v ∧
      (AdminAuthService.await o).run (answers draw) s () = ((.ok v, ()), s)) ∨
    ∃ e, (AdminAuthService.await o).run (answers draw) s () = ((.error e, ()), s) := by
  have hrun : (AdminAuthService.await o).run (answers draw) s () = ((draw o, ()), s) := by
    rw [AdminAuthService.await, Coro.run_await, answers, h]
  cases hdraw : draw o with
  | ok v => exact .inl ⟨v, rfl, by rw [hrun, hdraw]⟩
  | error e => exact .inr ⟨e, by rw [hrun, hdraw]⟩

variable (service s draw) in
/-- A change that is answered has dropped every session, one that raises has dropped none. -/
theorem run_changePassword (current password : String) :
    ∃ out s', (service.changePassword current password).run (answers draw) s () = ((out, ()), s') ∧
      ((∃ e, out = .error e) ∧ s'.sessions = s.sessions ∨
        out = .ok () ∧ s'.sessions = fun _ => none) := by
  unfold AdminAuthService.changePassword
  rcases run_verifyStored service s draw current with h | h
  swap
  · exact ⟨_, s, Coro.run_bind_error h, .inl ⟨⟨_, rfl⟩, rfl⟩⟩
  rw [Coro.run_bind_ok h]
  rcases run_requirePassword s draw password with h | h
  swap
  · exact ⟨_, s, Coro.run_bind_error h, .inl ⟨⟨_, rfl⟩, rfl⟩⟩
  rw [Coro.run_bind_ok h]
  rcases run_draw s draw (.hash password) fun _ => rfl with ⟨passwordHash, -, h⟩ | ⟨e, h⟩
  swap
  · exact ⟨_, s, Coro.run_bind_error h, .inl ⟨⟨_, rfl⟩, rfl⟩⟩
  rw [Coro.run_bind_ok h]
  have hnow : (AdminAuthService.await .now).run (answers draw) s () = ((.ok s.now, ()), s) := rfl
  rw [Coro.run_bind_ok hnow]
  have hupdate : (AdminAuthService.await (.updatePasswordHash passwordHash s.now)).run (answers draw)
      s () = (((s.updatePasswordHash passwordHash s.now).1, ()),
        (s.updatePasswordHash passwordHash s.now).2) := rfl
  cases hcredential : s.credential with
  | none =>
    simp only [AdminStore.updatePasswordHash, hcredential] at hupdate
    exact ⟨_, s, Coro.run_bind_error hupdate, .inl ⟨⟨_, rfl⟩, rfl⟩⟩
  | some record =>
    simp only [AdminStore.updatePasswordHash, hcredential] at hupdate
    rw [Coro.run_bind_ok hupdate]
    exact ⟨_, _, rfl, .inr ⟨rfl, rfl⟩⟩

variable (service s now draw) in
theorem serve_changePassword (current password : String) :
    (∃ e, (serve service s ⟨now, .changePassword current password, draw⟩).1 = .error e) ∧
        (serve service s ⟨now, .changePassword current password, draw⟩).2.sessions = s.sessions ∨
      (serve service s ⟨now, .changePassword current password, draw⟩).1 = .ok .unit ∧
        (serve service s ⟨now, .changePassword current password, draw⟩).2.sessions =
          fun _ => none := by
  obtain ⟨out, s', hrun, h⟩ := run_changePassword service { s with now := now } draw current
    password
  rw [serve_eq, AuthCall.run, run_return (f := fun _ => .unit) hrun]
  rcases h with ⟨⟨e, rfl⟩, hsame⟩ | ⟨rfl, hnone⟩
  · exact .inl ⟨⟨e, rfl⟩, hsame⟩
  · exact .inr ⟨rfl, hnone⟩

variable (service s draw) in
/-- A login opens one session, or leaves the sessions as they are. -/
theorem run_login (password : String) :
    ∃ out s', (service.login password).run (answers draw) s () = ((out, ()), s') ∧
      ((∃ e, out = .error e) ∧ s'.sessions = s.sessions ∨
        ∃ token, draw .newToken = .ok token ∧ s.sessions (service.tokenDigest token) = none ∧
          out = .ok ⟨token, service.tokenDigest token, s.now,
            s.now + Time.seconds service.absoluteSeconds, s.now⟩ ∧
          s'.sessions = Function.update s.sessions (service.tokenDigest token)
            (some ⟨service.tokenDigest token, s.now,
              s.now + Time.seconds service.absoluteSeconds, s.now⟩)) := by
  unfold AdminAuthService.login
  rcases run_verifyStored service s draw password with h | h
  swap
  · exact ⟨_, s, Coro.run_bind_error h, .inl ⟨⟨_, rfl⟩, rfl⟩⟩
  rw [Coro.run_bind_ok h]
  have hnow : (AdminAuthService.await .now).run (answers draw) s () = ((.ok s.now, ()), s) := rfl
  rw [Coro.run_bind_ok hnow]
  rcases run_draw s draw .newToken fun _ => rfl with ⟨token, htoken, h⟩ | ⟨e, h⟩
  swap
  · exact ⟨_, s, Coro.run_bind_error h, .inl ⟨⟨_, rfl⟩, rfl⟩⟩
  rw [Coro.run_bind_ok h]
  have hcreate : (AdminAuthService.await (.createSession (service.tokenDigest token) s.now
      (s.now + Time.seconds service.absoluteSeconds))).run (answers draw) s () =
        (((s.createSession (service.tokenDigest token) s.now
            (s.now + Time.seconds service.absoluteSeconds)).1, ()),
          (s.createSession (service.tokenDigest token) s.now
            (s.now + Time.seconds service.absoluteSeconds)).2) := rfl
  cases hrow : s.sessions (service.tokenDigest token) with
  | some row =>
    simp only [AdminStore.createSession, hrow] at hcreate
    exact ⟨_, s, Coro.run_bind_error hcreate, .inl ⟨⟨_, rfl⟩, rfl⟩⟩
  | none =>
    simp only [AdminStore.createSession, hrow] at hcreate
    rw [Coro.run_bind_ok hcreate]
    exact ⟨_, _, rfl, .inr ⟨token, htoken, hrow, rfl, rfl⟩⟩

variable (service s now draw) in
theorem serve_login (password : String) :
    (∃ e, (serve service s ⟨now, .login password, draw⟩).1 = .error e) ∧
        (serve service s ⟨now, .login password, draw⟩).2.sessions = s.sessions ∨
      ∃ token, draw .newToken = .ok token ∧ s.sessions (service.tokenDigest token) = none ∧
        (serve service s ⟨now, .login password, draw⟩).1 = .ok (.login ⟨token,
          service.tokenDigest token, now, now + Time.seconds service.absoluteSeconds, now⟩) ∧
        (serve service s ⟨now, .login password, draw⟩).2.sessions =
          Function.update s.sessions (service.tokenDigest token) (some
            ⟨service.tokenDigest token, now, now + Time.seconds service.absoluteSeconds, now⟩) := by
  obtain ⟨out, s', hrun, h⟩ := run_login service { s with now := now } draw password
  rw [serve_eq, AuthCall.run, run_return (f := .login) hrun]
  rcases h with ⟨⟨e, rfl⟩, hsame⟩ | ⟨token, htoken, hnone, rfl, hsessions⟩
  · exact .inl ⟨⟨e, rfl⟩, hsame⟩
  · exact .inr ⟨token, htoken, hnone, rfl, hsessions⟩

variable (s draw) in
theorem run_setup (password : String) :
    ∃ out s', (AdminAuthService.setup password).run (answers draw) s () = ((out, ()), s') ∧
      s'.sessions = s.sessions := by
  unfold AdminAuthService.setup
  rcases run_requirePassword s draw password with h | h
  swap
  · exact ⟨_, _, Coro.run_bind_error h, rfl⟩
  rw [Coro.run_bind_ok h]
  rcases run_draw s draw (.hash password) fun _ => rfl with ⟨passwordHash, -, h⟩ | ⟨e, h⟩
  swap
  · exact ⟨_, _, Coro.run_bind_error h, rfl⟩
  rw [Coro.run_bind_ok h]
  have hnow : (AdminAuthService.await .now).run (answers draw) s () = ((.ok s.now, ()), s) := rfl
  rw [Coro.run_bind_ok hnow]
  have hsetup : (AdminAuthService.await (.setup passwordHash s.now)).run (answers draw) s () =
      (((s.setup passwordHash s.now).1, ()), (s.setup passwordHash s.now).2) := rfl
  cases hcredential : s.credential with
  | some record =>
    simp only [AdminStore.setup, hcredential] at hsetup
    exact ⟨_, s, Coro.run_bind_error hsetup, rfl⟩
  | none =>
    simp only [AdminStore.setup, hcredential] at hsetup
    rw [Coro.run_bind_ok hsetup]
    exact ⟨_, _, rfl, rfl⟩

theorem serve_setup (password : String) :
    (serve service s ⟨now, .setup password, draw⟩).2.sessions = s.sessions := by
  obtain ⟨out, s', hrun, hsame⟩ := run_setup { s with now := now } draw password
  rw [serve_eq, AuthCall.run, run_return (f := fun _ => .unit) hrun]
  exact hsame

end

/-! ## One session -/

/-- The token of a request is the one of the session. -/
def presents (digest : String) : Option String → Bool
  | some token => isSessionToken token && service.tokenDigest token == digest
  | none => false

/-- A logout of the session, a change of the password, or a validation that rejected the session. -/
def ends (digest : String) : Turn × Answer → Bool
  | (⟨_, .logout rawToken, _⟩, _) => presents service digest rawToken
  | (⟨_, .changePassword _ _, _⟩, .ok _) => true
  | (⟨_, .validate rawToken, _⟩, .ok (.session none)) => presents service digest rawToken
  | _ => false

/-- When a validation accepted the session. -/
def renewal (digest : String) : Turn × Answer → Option Time
  | (⟨now, .validate rawToken, _⟩, .ok (.session (some _))) =>
    if presents service digest rawToken then some now else none
  | _ => none

/-- A login that is served later opens another session. -/
def Later (digest : String) (turn : Turn) : Prop :=
  match turn.call with
  | .login _ => ∀ token, turn.draw .newToken = .ok token → service.tokenDigest token ≠ digest
  | _ => True

section

variable {service} {s : AdminStore} {turn : Turn} {digest : String} {row : AdminSession}

theorem presents_iff {rawToken : Option String} : presents service digest rawToken = true ↔
    ∃ token, rawToken = some token ∧ isSessionToken token = true ∧
      service.tokenDigest token = digest := by
  cases rawToken with
  | none => simp [presents]
  | some token => simp [presents]

/-- What a call makes of a session that is stored. -/
inductive Makes (service : AdminAuthService) (digest : String) (row : AdminSession) (turn : Turn)
    (answer : Answer) : Option AdminSession → Prop where
  | ended (hends : ends service digest (turn, answer) = true) : Makes service digest row turn answer none
  | renewed (hends : ends service digest (turn, answer) = false)
      (hrenewal : renewal service digest (turn, answer) = some turn.now)
      (halive : row.expired service.idleSeconds turn.now = false) :
      Makes service digest row turn answer (some { row with lastSeenAt := turn.now })
  | kept (hends : ends service digest (turn, answer) = false)
      (hrenewal : renewal service digest (turn, answer) = none) :
      Makes service digest row turn answer (some row)

theorem ends_validate {now : Time} {draw : (o : AuthOp) → authSig.Ans o} {rawToken : Option String}
    (h : presents service digest rawToken = false) (answer : Answer) :
    ends service digest (⟨now, .validate rawToken, draw⟩, answer) = false ∧
      renewal service digest (⟨now, .validate rawToken, draw⟩, answer) = none := by
  unfold ends renewal
  split <;> simp_all
  split <;> simp_all

theorem findSession_ne {token : String} (h : service.tokenDigest token ≠ digest) (now : Time)
    (idle : ℕ) : (s.findSession (service.tokenDigest token) now idle).2.sessions digest =
      s.sessions digest := by
  unfold AdminStore.findSession
  split
  · rfl
  · split <;> exact Function.update_of_ne h.symm _ _

/-- A request that presents no session at all, or the token of another one. -/
theorem presents_false {rawToken : Option String} (h : presents service digest rawToken = false) :
    (∀ token, rawToken = some token → isSessionToken token = false) ∨
      ∃ token, rawToken = some token ∧ isSessionToken token = true ∧
        service.tokenDigest token ≠ digest := by
  by_cases hmalformed : ∀ token, rawToken = some token → isSessionToken token = false
  · exact .inl hmalformed
  · push Not at hmalformed
    obtain ⟨token, rfl, htoken⟩ := hmalformed
    have htoken : isSessionToken token = true := by simpa using htoken
    refine .inr ⟨token, rfl, htoken, fun hdigest => ?_⟩
    rw [presents_iff.mpr ⟨token, rfl, htoken, hdigest⟩] at h
    cases h

theorem validate_other {now : Time} {draw : (o : AuthOp) → authSig.Ans o} {rawToken : Option String}
    (h : presents service digest rawToken = false) :
    (serve service s ⟨now, .validate rawToken, draw⟩).2.sessions digest = s.sessions digest := by
  rcases presents_false h with hmalformed | ⟨token, rfl, htoken, hdigest⟩
  · rw [serve_validate_malformed hmalformed]
  · rw [serve_validate htoken, findSession_ne hdigest]

theorem logout_other {now : Time} {draw : (o : AuthOp) → authSig.Ans o} {rawToken : Option String}
    (h : presents service digest rawToken = false) :
    (serve service s ⟨now, .logout rawToken, draw⟩).2.sessions digest = s.sessions digest := by
  rcases presents_false h with hmalformed | ⟨token, rfl, htoken, hdigest⟩
  · rw [serve_logout_malformed hmalformed]
  · rw [serve_logout htoken]
    exact Function.update_of_ne hdigest.symm _ _

theorem findSession_self (hrow : s.sessions digest = some row) (now : Time) (idle : ℕ) :
    row.expired idle now = true ∧ s.findSession digest now idle =
        (.ok none, { s with sessions := Function.update s.sessions digest none }) ∨
      row.expired idle now = false ∧ s.findSession digest now idle =
        (.ok (some { row with lastSeenAt := now }),
          { s with
            sessions := Function.update s.sessions digest (some { row with lastSeenAt := now }) }) := by
  unfold AdminStore.findSession
  rw [hrow]
  cases hexpired : row.expired idle now with
  | true => exact .inl ⟨rfl, by simp [hexpired]⟩
  | false => exact .inr ⟨rfl, by simp [hexpired]⟩

theorem serve_validate_row {now : Time} {draw : (o : AuthOp) → authSig.Ans o}
    {rawToken : Option String} (hrow : s.sessions digest = some row) :
    Makes service digest row ⟨now, .validate rawToken, draw⟩
      (serve service s ⟨now, .validate rawToken, draw⟩).1
      ((serve service s ⟨now, .validate rawToken, draw⟩).2.sessions digest) := by
  cases hpresents : presents service digest rawToken with
  | true =>
    obtain ⟨token, rfl, htoken, rfl⟩ := presents_iff.mp hpresents
    rw [serve_validate htoken]
    rcases findSession_self (s := { s with now := now }) hrow now service.idleSeconds with
      ⟨-, hfind⟩ | ⟨halive, hfind⟩
    · rw [hfind]
      simp only [Function.update_self]
      exact .ended hpresents
    · rw [hfind]
      simp only [Function.update_self]
      exact .renewed rfl (by simp [renewal, hpresents, Except.map]) halive
  | false =>
    obtain ⟨hends, hrenewal⟩ := ends_validate hpresents
      (serve service s ⟨now, .validate rawToken, draw⟩).1
    rw [validate_other hpresents, hrow]
    exact .kept hends hrenewal

theorem serve_row (hlater : Later service digest turn) (hrow : s.sessions digest = some row) :
    Makes service digest row turn (serve service s turn).1
      ((serve service s turn).2.sessions digest) := by
  obtain ⟨now, call, draw⟩ := turn
  cases call with
  | setup password =>
    rw [serve_setup, hrow]
    exact .kept rfl rfl
  | login password =>
    rcases serve_login service s now draw password with
      ⟨-, hsame⟩ | ⟨token, htoken, -, -, hsessions⟩
    · rw [hsame, hrow]
      exact .kept rfl rfl
    · rw [hsessions, Function.update_of_ne (hlater token htoken).symm, hrow]
      exact .kept rfl rfl
  | changePassword current password =>
    rcases serve_changePassword service s now draw current password with ⟨⟨e, he⟩, hsame⟩ | ⟨hok, hnone⟩
    · rw [hsame, hrow, he]
      exact .kept rfl rfl
    · rw [hnone, hok]
      exact .ended rfl
  | validate rawToken => exact serve_validate_row hrow
  | logout rawToken =>
    cases hpresents : presents service digest rawToken with
    | true =>
      obtain ⟨token, rfl, htoken, rfl⟩ := presents_iff.mp hpresents
      rw [serve_logout htoken]
      simp only [AdminStore.deleteSession, Function.update_self]
      exact .ended hpresents
    | false =>
      rw [logout_other hpresents, hrow]
      exact .kept hpresents rfl

/-- A session that is gone does not come back. -/
theorem serve_none (hlater : Later service digest turn) (hrow : s.sessions digest = none) :
    (serve service s turn).2.sessions digest = none := by
  obtain ⟨now, call, draw⟩ := turn
  cases call with
  | setup password => rw [serve_setup, hrow]
  | login password =>
    rcases serve_login service s now draw password with
      ⟨-, hsame⟩ | ⟨token, htoken, -, -, hsessions⟩
    · rw [hsame, hrow]
    · rw [hsessions, Function.update_of_ne (hlater token htoken).symm, hrow]
  | changePassword current password =>
    rcases serve_changePassword service s now draw current password with ⟨-, hsame⟩ | ⟨-, hnone⟩
    · rw [hsame, hrow]
    · rw [hnone]
  | validate rawToken =>
    cases hpresents : presents service digest rawToken with
    | true =>
      obtain ⟨token, rfl, htoken, rfl⟩ := presents_iff.mp hpresents
      rw [serve_validate htoken]
      simp only [AdminStore.findSession, hrow]
    | false => rw [validate_other hpresents, hrow]
  | logout rawToken =>
    cases hpresents : presents service digest rawToken with
    | true =>
      obtain ⟨token, rfl, htoken, rfl⟩ := presents_iff.mp hpresents
      rw [serve_logout htoken]
      simp only [AdminStore.deleteSession, Function.update_self]
    | false => rw [logout_other hpresents, hrow]

end

/-! ## Any number of calls -/

def renewals (digest : String) (calls : List (Turn × Answer)) : List Time :=
  calls.filterMap (renewal service digest)

def Gaps (idleSeconds : ℕ) : List Time → Prop :=
  List.IsChain fun earlier later => later < earlier + Time.seconds idleSeconds

section

variable {service} {s : AdminStore} {digest : String} {turns : List Turn}

theorem after_none (hlater : ∀ turn ∈ turns, Later service digest turn)
    (hrow : s.sessions digest = none) : (after service s turns).sessions digest = none := by
  induction turns generalizing s with
  | nil => exact hrow
  | cons turn turns ih =>
    exact ih (fun u hu => hlater u (List.mem_cons_of_mem _ hu))
      (serve_none (hlater turn List.mem_cons_self) hrow)

theorem lt_of_alive {row : AdminSession} {idle : ℕ} {now : Time}
    (h : row.expired idle now = false) :
    now < row.absoluteExpiresAt ∧ now < row.lastSeenAt + Time.seconds idle := by
  simpa [AdminSession.expired] using h

/-- After any calls the session has ended, or it is stored as the last acceptance left it. -/
theorem after_row (hlater : ∀ turn ∈ turns, Later service digest turn) {row : AdminSession}
    (hrow : s.sessions digest = some row) :
    (∃ e ∈ served service s turns, ends service digest e = true) ∧
        (after service s turns).sessions digest = none ∨
      (∀ e ∈ served service s turns, ends service digest e = false) ∧
        (after service s turns).sessions digest = some
          { row with
            lastSeenAt := (renewals service digest (served service s turns)).getLastD row.lastSeenAt } ∧
        Gaps service.idleSeconds
          (row.lastSeenAt :: renewals service digest (served service s turns)) := by
  induction turns generalizing s row with
  | nil => exact .inr ⟨fun e he => (by cases he), hrow, List.IsChain.singleton _⟩
  | cons turn turns ih =>
    have hrest : ∀ u ∈ turns, Later service digest u := fun u hu =>
      hlater u (List.mem_cons_of_mem _ hu)
    have hafter : after service s (turn :: turns) =
        after service (serve service s turn).2 turns := rfl
    rw [hafter]
    have hmakes := serve_row (hlater turn List.mem_cons_self) hrow
    generalize hstored : (serve service s turn).2.sessions digest = stored at hmakes
    cases hmakes with
    | ended hends =>
      exact .inl ⟨⟨_, List.mem_cons_self, hends⟩, after_none hrest hstored⟩
    | renewed hends hrenewal halive =>
      have hlist : renewals service digest (served service s (turn :: turns)) =
          turn.now :: renewals service digest (served service (serve service s turn).2 turns) :=
        List.filterMap_cons_some hrenewal
      rw [hlist, List.getLastD_cons]
      rcases ih hrest hstored with ⟨⟨e, he, hends⟩, hnone⟩ | ⟨hall, hsome, hgaps⟩
      · exact .inl ⟨⟨e, List.mem_cons_of_mem _ he, hends⟩, hnone⟩
      · refine .inr ⟨fun e he => ?_, hsome, .cons_cons (lt_of_alive halive).2 hgaps⟩
        cases List.mem_cons.mp he with
        | inl h => rw [h, hends]
        | inr h => exact hall e h
    | kept hends hrenewal =>
      have hlist : renewals service digest (served service s (turn :: turns)) =
          renewals service digest (served service (serve service s turn).2 turns) :=
        List.filterMap_cons_none hrenewal
      rw [hlist]
      rcases ih hrest hstored with ⟨⟨e, he, hends⟩, hnone⟩ | ⟨hall, hsome, hgaps⟩
      · exact .inl ⟨⟨e, List.mem_cons_of_mem _ he, hends⟩, hnone⟩
      · refine .inr ⟨fun e he => ?_, hsome, hgaps⟩
        cases List.mem_cons.mp he with
        | inl h => rw [h, hends]
        | inr h => exact hall e h

theorem gaps_concat {idle : ℕ} (times : List Time) (first last : Time) :
    Gaps idle (first :: (times ++ [last])) ↔
      Gaps idle (first :: times) ∧ last < times.getLastD first + Time.seconds idle := by
  induction times generalizing first with
  | nil => simp [Gaps]
  | cons time times ih =>
    have h := ih time
    simp only [Gaps, List.cons_append, List.isChain_cons_cons, List.getLastD_cons] at h ⊢
    rw [h, and_assoc]

end

theorem login_row {service : AdminAuthService} {s₀ s₁ : AdminStore} {t₀ : Time}
    {password token : String} {session : AdminSession} {draw : (o : AuthOp) → authSig.Ans o}
    (h : serve service s₀ ⟨t₀, .login password, draw⟩ = (.ok (.login ⟨token, session⟩), s₁)) :
    session = ⟨service.tokenDigest token, t₀, t₀ + Time.seconds service.absoluteSeconds, t₀⟩ ∧
      s₁.sessions (service.tokenDigest token) = some session := by
  rcases serve_login service s₀ t₀ draw password with
    ⟨⟨e, he⟩, -⟩ | ⟨token', -, -, hok, hsessions⟩
  · rw [h] at he
    cases he
  · rw [h] at hok hsessions
    cases hok
    exact ⟨rfl, by rw [hsessions, Function.update_self]⟩

/-- A session is accepted exactly until its absolute end, an idle gap, its logout, a change of the
password, or its first rejection; the requests of other sessions have no part in it. -/
theorem session_lifetime (service : AdminAuthService) (s₀ s₁ : AdminStore) (t₀ : Time)
    (password token : String) (session : AdminSession)
    (draw₀ : (o : AuthOp) → authSig.Ans o)
    (hlogin : serve service s₀ ⟨t₀, .login password, draw₀⟩ = (.ok (.login ⟨token, session⟩), s₁))
    (htoken : isSessionToken token = true) (turns : List Turn)
    (hlater : ∀ turn ∈ turns, Later service (service.tokenDigest token) turn) (t : Time)
    (draw : (o : AuthOp) → authSig.Ans o) :
    ((serve service (after service s₁ turns) ⟨t, .validate (some token), draw⟩).1 =
          .ok (.session (some { session with lastSeenAt := t })) ↔
        t < t₀ + Time.seconds service.absoluteSeconds ∧
          Gaps service.idleSeconds
            (t₀ :: (renewals service (service.tokenDigest token) (served service s₁ turns) ++ [t])) ∧
          ∀ e ∈ served service s₁ turns, ends service (service.tokenDigest token) e = false) ∧
      ((serve service (after service s₁ turns) ⟨t, .validate (some token), draw⟩).1 =
            .ok (.session (some { session with lastSeenAt := t })) ∨
        (serve service (after service s₁ turns) ⟨t, .validate (some token), draw⟩).1 =
          .ok (.session none)) ∧
      ∀ (s : AdminStore) (now : Time) (rawToken : Option String) (call : AuthCall),
        call = .logout rawToken ∨ call = .validate rawToken →
          presents service (service.tokenDigest token) rawToken = false →
            (serve service s ⟨now, call, draw⟩).2.sessions (service.tokenDigest token) =
              s.sessions (service.tokenDigest token) := by
  obtain ⟨rfl, hrow⟩ := login_row hlogin
  rw [serve_validate htoken]
  refine and_assoc.mp ⟨?_, ?_⟩
  · rcases after_row hlater hrow with ⟨⟨e, he, hends⟩, hnone⟩ | ⟨hall, hsome, hgaps⟩
    · have hfind : ({ after service s₁ turns with now := t } : AdminStore).findSession
          (service.tokenDigest token) t service.idleSeconds =
            (.ok none, { after service s₁ turns with now := t }) := by
        simp only [AdminStore.findSession, hnone]
      rw [hfind]
      refine ⟨iff_of_false (fun h => by cases h) fun h => ?_, .inr rfl⟩
      rw [h.2.2 e he] at hends
      cases hends
    · rw [gaps_concat]
      rcases findSession_self (s := { after service s₁ turns with now := t }) hsome t
        service.idleSeconds with ⟨hexpired, hfind⟩ | ⟨halive, hfind⟩
      · rw [hfind]
        refine ⟨iff_of_false (fun h => by cases h) fun h => ?_, .inr rfl⟩
        simp only [AdminSession.expired, Bool.or_eq_true, decide_eq_true_eq] at hexpired
        cases hexpired with
        | inl habsolute => exact absurd h.1 (not_lt.mpr habsolute)
        | inr hidle => exact absurd h.2.1.2 (not_lt.mpr hidle)
      · rw [hfind]
        obtain ⟨habsolute, hidle⟩ := lt_of_alive halive
        exact ⟨iff_of_true rfl ⟨habsolute, ⟨hgaps, hidle⟩, hall⟩, .inl rfl⟩
  · rintro s now rawToken call (rfl | rfl) hpresents
    · exact logout_other hpresents
    · exact validate_other hpresents

def firstLogin : Answer × AdminStore :=
  serve sampleService { credential := some ⟨"$argon2id$first", 0, 0⟩ } ⟨0, .login "first", drawn⟩

def halfHourly : List Turn :=
  [⟨Time.minutes 29, .validate (some sampleToken), drawn⟩,
    ⟨Time.minutes 30, .changePassword "wrong" "second", drawn⟩]

theorem session_lifetime_renewed :
    (serve sampleService (after sampleService firstLogin.2 halfHourly)
        ⟨Time.minutes 58, .validate (some sampleToken), drawn⟩).1 =
      .ok (.session (some
        ⟨sampleDigest, 0, Time.seconds (12 * 60 * 60), Time.minutes 58⟩)) := by
  have hlogin : firstLogin = (.ok (.login ⟨sampleToken, sampleDigest, 0,
      Time.seconds (12 * 60 * 60), 0⟩), firstLogin.2) := Prod.ext (by decide +kernel) rfl
  have hrenewals : renewals sampleService (sampleService.tokenDigest sampleToken)
      (served sampleService firstLogin.2 halfHourly) = [Time.minutes 29] := by decide +kernel
  have hends : ∀ e ∈ served sampleService firstLogin.2 halfHourly,
      ends sampleService (sampleService.tokenDigest sampleToken) e = false := by
    have hnone : (served sampleService firstLogin.2 halfHourly).any
        (ends sampleService (sampleService.tokenDigest sampleToken)) = false := by decide +kernel
    intro e he
    simpa using List.any_eq_false.mp hnone e he
  have hlater : ∀ turn ∈ halfHourly,
      Later sampleService (sampleService.tokenDigest sampleToken) turn := by
    intro turn hturn
    simp only [halfHourly, List.mem_cons, List.not_mem_nil, or_false] at hturn
    rcases hturn with rfl | rfl <;> trivial
  refine (session_lifetime sampleService _ _ 0 "first" sampleToken _ drawn hlogin (by decide +kernel)
    halfHourly hlater (Time.minutes 58) drawn).1.mpr ⟨by decide, ?_, hends⟩
  rw [hrenewals]
  simp only [Gaps, List.cons_append, List.nil_append, List.isChain_cons_cons, List.IsChain.singleton]
  decide

end Admin

end PlaceGame
