import PlaceGame.Admin.Auth
import PlaceGame.Coop.Footprint
import PlaceGame.Coop.Script

/-!
# PlaceGame.Admin.Sessions

Which sessions of the administrator are accepted.

* `Accepted`: some validation may still return the session.
* `IssuedUnder`: a login that verified this hash created it.
* `accepted_is_issued`: between the replacement of the hash and the drop of the sessions apart, every
  stored session was issued under the stored hash, in every run in which no login stores a session
  after its hash was replaced, no session is looked up before the drop, and no change fails to make
  its drop.
-/

namespace PlaceGame

open Coop

namespace Admin

variable {service : AdminAuthService}

/-! ## Following a call -/

/-- The hash that a call has read last. -/
def next (m : Option String) : (o : AuthOp) → authSig.Ans o → Option String
  | .readPasswordHash, .ok passwordHash => passwordHash
  | _, _ => m

/-- A login stores a session only after it verified a hash, and a change replaces the hash only after
it verified one. -/
def checks (service : AdminAuthService) (call : AuthCall) : Monitor authSig (Option String) where
  init := none
  next := next
  ok m
    | .createSession _ _ _ => ∃ password passwordHash, call = .login password ∧
        m = some passwordHash ∧ service.verify passwordHash password = true
    | .updatePasswordHash _ _ => ∃ current password passwordHash,
        call = .changePassword current password ∧ m = some passwordHash ∧
        service.verify passwordHash current = true
    | _ => True

theorem wp_verifyStored {call : AuthCall} {password : String} {m : Option String} {u : Unit}
    {Q : Option String → Except AuthError Unit → Unit → Prop}
    (hok : ∀ passwordHash, service.verify passwordHash password = true →
      Q (some passwordHash) (.ok ()) ())
    (he : ∀ m e, Q m (.error e) ()) :
    (service.verifyStored password).wp (checks service call) Q m u := by
  unfold AdminAuthService.verifyStored AdminAuthService.await
  rw [Coro.wp_bind]
  refine (Coro.wp_await _).mpr ⟨trivial, ?_⟩
  rintro (e | _ | passwordHash) -
  · exact he _ e
  · exact he _ _
  · refine (Coro.wp_raiseIf _ _).mpr ⟨fun _ => he _ _, fun hv => ?_⟩
    exact hok passwordHash (by simpa using hv)

theorem wp_then {call : AuthCall} {o : AuthOp} {α : Type} {f : o.Val → Auth α} {m : Option String}
    {u : Unit} (hok : (checks service call).ok m o)
    (h : ∀ v, (f v).wp (checks service call) (fun _ _ _ => True) (next m o (.ok v)) u) :
    (AdminAuthService.await o >>= f).wp (checks service call) (fun _ _ _ => True) m u := by
  rw [Coro.wp_bind]
  refine (Coro.wp_await _).mpr ⟨hok, ?_⟩
  rintro (e | v) -
  · trivial
  · exact h v

theorem wp_await {call : AuthCall} {o : AuthOp} {m : Option String} {u : Unit}
    (hok : (checks service call).ok m o) :
    (AdminAuthService.await o).wp (checks service call) (fun _ _ _ => True) m u :=
  (Coro.wp_await _).mpr ⟨hok, fun _ _ => trivial⟩

theorem wp_requirePassword {call : AuthCall} {password : String} {α : Type} {f : Unit → Auth α}
    {m : Option String} {u : Unit}
    (h : (f ()).wp (checks service call) (fun _ _ _ => True) m u) :
    (AdminAuthService.requirePassword password >>= f).wp (checks service call)
      (fun _ _ _ => True) m u := by
  rw [Coro.wp_bind]
  exact (Coro.wp_raiseIf _ _).mpr ⟨fun _ => trivial, fun _ => h⟩

theorem wp_login {password : String} {m : Option String} {u : Unit} :
    (service.login password).wp (checks service (.login password)) (fun _ _ _ => True) m u := by
  unfold AdminAuthService.login
  rw [Coro.wp_bind]
  refine wp_verifyStored ?_ fun _ _ => trivial
  intro passwordHash hv
  refine wp_then trivial fun now => ?_
  refine wp_then trivial fun token => ?_
  exact wp_then ⟨password, passwordHash, rfl, rfl, hv⟩ fun _ => trivial

theorem wp_changePassword {current password : String} {m : Option String} {u : Unit} :
    (service.changePassword current password).wp (checks service (.changePassword current password))
      (fun _ _ _ => True) m u := by
  unfold AdminAuthService.changePassword
  rw [Coro.wp_bind]
  refine wp_verifyStored ?_ fun _ _ => trivial
  intro passwordHash hv
  refine wp_requirePassword ?_
  refine wp_then trivial fun newHash => ?_
  refine wp_then trivial fun now => ?_
  refine wp_then ⟨current, password, passwordHash, rfl, rfl, hv⟩ fun _ => ?_
  exact wp_await trivial

theorem wp_validate {rawToken : Option String} {m : Option String} {u : Unit} :
    (service.validate rawToken).wp (checks service (.validate rawToken)) (fun _ _ _ => True) m
      u := by
  cases rawToken with
  | none => trivial
  | some token =>
    unfold AdminAuthService.validate
    simp only
    split
    · trivial
    · refine wp_then trivial fun now => ?_
      exact wp_await trivial

theorem wp_logout {rawToken : Option String} {m : Option String} {u : Unit} :
    (service.logout rawToken).wp (checks service (.logout rawToken)) (fun _ _ _ => True) m u := by
  cases rawToken with
  | none => trivial
  | some token =>
    unfold AdminAuthService.logout
    simp only
    split
    · trivial
    · exact wp_await trivial

theorem wp_setup {password : String} {m : Option String} {u : Unit} :
    (AdminAuthService.setup password).wp (checks service (.setup password)) (fun _ _ _ => True) m
      u := by
  unfold AdminAuthService.setup
  refine wp_requirePassword ?_
  refine wp_then trivial fun passwordHash => ?_
  refine wp_then trivial fun now => ?_
  refine wp_then trivial fun created => ?_
  exact (Coro.wp_raiseIf _ _).mpr ⟨fun _ => trivial, fun _ => trivial⟩

theorem wp_prog (service : AdminAuthService) (call : AuthCall) :
    ((admin service).prog call).wp (checks service call) (fun _ _ => True)
      (checks service call).init := by
  show (Coro.toProc () (call.run service)).wp _ _ _
  rw [Coro.wp_toProc]
  have hdone : ∀ {α : Type} {c : Auth α} (f : α → AuthReturned),
      c.wp (checks service call) (fun _ _ _ => True) (checks service call).init () →
      (c >>= fun a => pure (f a)).wp (checks service call) (fun _ _ _ => True)
        (checks service call).init () := by
    intro α c f h
    rw [Coro.wp_bind]
    refine Coro.wp_mono h ?_
    rintro m (e | a) u - <;> trivial
  cases call with
  | setup password => exact hdone _ wp_setup
  | login password => exact hdone _ wp_login
  | changePassword current password => exact hdone _ wp_changePassword
  | validate rawToken => exact hdone _ wp_validate
  | logout rawToken => exact hdone _ wp_logout

theorem checked (service : AdminAuthService) :
    Reachable.Watched (admin service) (checks service) fun _ _ _ => True where
  prog := wp_prog service
  ans _ _ _ _ _ _ _ _ := trivial

/-! ## What the calls await -/

/-- The effect stores no session and replaces no hash. -/
def Plain : AuthOp → Prop
  | .createSession _ _ _ | .updatePasswordHash _ _ => False
  | _ => True

section Keeps

variable {μ : Type} {M : Monitor authSig μ} {I : μ → Unit → Prop}

theorem keeps_verifyStored (hM : ∀ o, Plain o → (AdminAuthService.await o).Keeps M I)
    (password : String) : (service.verifyStored password).Keeps M I := by
  refine Coro.Keeps.bind (hM _ trivial) fun stored => ?_
  cases stored with
  | none => exact Coro.Keeps.raise _
  | some passwordHash => exact Coro.Keeps.raiseIf _ _

theorem keeps_setup (hM : ∀ o, Plain o → (AdminAuthService.await o).Keeps M I)
    (password : String) : (AdminAuthService.setup password).Keeps M I := by
  refine Coro.Keeps.bind (Coro.Keeps.raiseIf _ _) fun _ => ?_
  refine Coro.Keeps.bind (hM _ trivial) fun _ => ?_
  refine Coro.Keeps.bind (hM _ trivial) fun _ => ?_
  refine Coro.Keeps.bind (hM _ trivial) fun _ => ?_
  exact Coro.Keeps.raiseIf _ _

theorem keeps_login (hM : ∀ o, Plain o → (AdminAuthService.await o).Keeps M I)
    (hcreate : ∀ digest now expiry,
      (AdminAuthService.await (.createSession digest now expiry)).Keeps M I)
    (password : String) : (service.login password).Keeps M I := by
  refine Coro.Keeps.bind (keeps_verifyStored hM password) fun _ => ?_
  refine Coro.Keeps.bind (hM _ trivial) fun _ => ?_
  refine Coro.Keeps.bind (hM _ trivial) fun _ => ?_
  exact Coro.Keeps.bind (hcreate _ _ _) fun _ => Coro.Keeps.pure _

theorem keeps_changePassword (hM : ∀ o, Plain o → (AdminAuthService.await o).Keeps M I)
    (hreplace : ∀ passwordHash now, (do
      AdminAuthService.await (.updatePasswordHash passwordHash now)
      AdminAuthService.await .deleteAllSessions : Auth Unit).Keeps M I)
    (current password : String) : (service.changePassword current password).Keeps M I := by
  refine Coro.Keeps.bind (keeps_verifyStored hM current) fun _ => ?_
  refine Coro.Keeps.bind (Coro.Keeps.raiseIf _ _) fun _ => ?_
  refine Coro.Keeps.bind (hM _ trivial) fun _ => ?_
  exact Coro.Keeps.bind (hM _ trivial) fun _ => hreplace _ _

theorem keeps_validate (hM : ∀ o, Plain o → (AdminAuthService.await o).Keeps M I)
    (rawToken : Option String) : (service.validate rawToken).Keeps M I := by
  cases rawToken with
  | none => exact Coro.Keeps.pure _
  | some token =>
    refine Coro.Keeps.ite _ (Coro.Keeps.pure _) ?_
    exact Coro.Keeps.bind (hM _ trivial) fun _ => hM _ trivial

theorem keeps_logout (hM : ∀ o, Plain o → (AdminAuthService.await o).Keeps M I)
    (rawToken : Option String) : (service.logout rawToken).Keeps M I := by
  cases rawToken with
  | none => exact Coro.Keeps.pure _
  | some token => exact Coro.Keeps.ite _ (Coro.Keeps.pure _) (hM _ trivial)

end Keeps

/-- The event replaces the hash, and its task is told so. -/
def replaces : Event authSig → Bool
  | ⟨.updatePasswordHash _ _, .ok _⟩ => true
  | _ => false

/-- What comes next after the hash was replaced is the drop of the sessions. -/
def dropping : Monitor authSig Bool where
  init := false
  next _ o r := replaces ⟨o, r⟩
  ok m o := m = true → o = .deleteAllSessions

theorem keeps_await_dropping {o : AuthOp} (ho : ∀ r, replaces ⟨o, r⟩ = false) :
    (AdminAuthService.await o).Keeps dropping fun m _ => m = false :=
  Coro.Keeps.await fun _ _ hm => ⟨fun h => absurd (hm.symm.trans h) nofun, fun r _ => ho r⟩

theorem keeps_replace (passwordHash : String) (now : Time) :
    (do
      AdminAuthService.await (.updatePasswordHash passwordHash now)
      AdminAuthService.await .deleteAllSessions : Auth Unit).Keeps dropping
      fun m _ => m = false := by
  intro m u hm
  unfold AdminAuthService.await
  rw [Coro.wp_bind, Coro.wp_await]
  refine ⟨fun h => absurd (hm.symm.trans h) nofun, fun r _ => ?_⟩
  cases r with
  | error e => rfl
  | ok v =>
    rw [Coro.chain_ok, Coro.wp_await]
    exact ⟨fun _ => rfl, fun _ _ => rfl⟩

theorem dropped (service : AdminAuthService) :
    Reachable.Watched (admin service) (fun _ => dropping) fun _ m _ => m = false where
  prog call := by
    show (Coro.toProc () (call.run service)).wp _ _ _
    rw [Coro.wp_toProc]
    have hplain : ∀ o, Plain o →
        (AdminAuthService.await o).Keeps dropping fun m _ => m = false := by
      intro o ho
      refine keeps_await_dropping fun r => ?_
      cases o with
      | updatePasswordHash passwordHash now => exact ho.elim
      | _ => rfl
    have hcreate : ∀ digest now expiry, (AdminAuthService.await
        (.createSession digest now expiry)).Keeps dropping fun m _ => m = false :=
      fun _ _ _ => keeps_await_dropping fun _ => rfl
    refine (?_ : (call.run service).Keeps dropping fun m _ => m = false) _ _ rfl
    cases call with
    | setup password => exact Coro.Keeps.bind (keeps_setup hplain password) fun _ => .pure _
    | login password =>
      exact Coro.Keeps.bind (keeps_login hplain hcreate password) fun _ => .pure _
    | changePassword current password =>
      exact Coro.Keeps.bind (keeps_changePassword hplain keeps_replace current password)
        fun _ => .pure _
    | validate rawToken => exact Coro.Keeps.bind (keeps_validate hplain rawToken) fun _ => .pure _
    | logout rawToken => exact Coro.Keeps.bind (keeps_logout hplain rawToken) fun _ => .pure _
  ans _ _ _ _ _ _ _ _ := trivial

/-- A change that has replaced the hash goes on with the drop. -/
theorem awaits_drop {w : AdminStore} {c : Config (admin service)} (hr : Reachable (.start w) c)
    {t : TaskId} {T : Task (admin service)} (hT : c.task t = some T) (halive : T.alive = true)
    {e : Event authSig} {earlier : List (Event authSig)} (hhist : T.hist = e :: earlier)
    (he : replaces e = true) : c.awaits t = some .deleteAllSessions := by
  have hfollows := Reachable.follows (dropped service) hr t T hT
  have hafter : dropping.after T.hist = true := by
    rw [hhist]
    exact he
  have hwp := hfollows.wp
  unfold Config.awaits
  rw [hT, Option.bind_some, if_pos halive]
  unfold Task.pending
  cases hp : T.prog with
  | ret res =>
    rw [hp] at hwp
    exact absurd (hafter.symm.trans hwp) nofun
  | call o k =>
    have hop := hfollows.allowed hp
    exact congrArg some (hop hafter)

/-! ## What is accepted -/

/-- A time at which a validation may still look the session up: a coming one, or one that a
validation in progress has read. -/
def Reading (c : Config (admin service)) (digest : String) (now : Time) : Prop :=
  c.world.now ≤ now ∨ ∃ t T k, c.task t = some T ∧ T.alive = true ∧
    T.prog = .call (.findSession digest now service.idleSeconds) k

/-- Some validation may return the session. -/
def Accepted (c : Config (admin service)) (digest : String) : Prop :=
  ∃ record now, c.world.sessions digest = some record ∧ Reading c digest now ∧
    record.expired service.idleSeconds now = false

/-- A login that verified this hash created the session. -/
def IssuedUnder (c : Config (admin service)) (digest passwordHash : String) : Prop :=
  ∃ t T password now expiry r, c.task t = some T ∧ T.call = .login password ∧
    (⟨.createSession digest now expiry, r⟩ : Event authSig) ∈ T.hist ∧
    (⟨.readPasswordHash, .ok (some passwordHash)⟩ : Event authSig) ∈ T.hist ∧
    service.verify passwordHash password = true

/-- A login that verified the stored hash created the session. -/
def IssuedUnderStored (c : Config (admin service)) (digest : String) : Prop :=
  ∃ passwordHash, c.world.passwordHash = some passwordHash ∧ IssuedUnder c digest passwordHash

def verifiedHash (T : Task (admin service)) : Option String :=
  (checks service T.call).after T.hist

/-- What does not come between the awaits of a call: a login that stores a session still finds the
hash it verified, and so does a change that replaces it, which is told so or finds no session. Until
the drop that follows no session is looked up, and neither a failure nor a crash of the change leaves
sessions behind. -/
structure Undisturbed (c c' : Config (admin service)) : Prop where
  login : ∀ t T T' password digest now expiry r, c.task t = some T → c'.task t = some T' →
    T.call = .login password → T'.hist = ⟨.createSession digest now expiry, r⟩ :: T.hist →
    c'.world.sessions ≠ c.world.sessions → verifiedHash T = c.world.passwordHash
  change : ∀ t T T' current password passwordHash now r, c.task t = some T →
    c'.task t = some T' → T.call = .changePassword current password →
    T'.hist = ⟨.updatePasswordHash passwordHash now, r⟩ :: T.hist →
    c'.world.passwordHash ≠ c.world.passwordHash → verifiedHash T = c.world.passwordHash ∧
      (r = .ok () ∨ ∀ digest, c.world.sessions digest = none)
  lookup : ∀ t T T' digest now idle r, c.task t = some T → c'.task t = some T' →
    T'.hist = ⟨.findSession digest now idle, r⟩ :: T.hist → c.world.sessions digest ≠ none →
    ∀ u, c.awaits u ≠ some .deleteAllSessions
  drop : ∀ t T T' e, c.task t = some T → c'.task t = some T' →
    T'.hist = ⟨.deleteAllSessions, .error e⟩ :: T.hist → ∀ digest, c'.world.sessions digest = none
  crash : ∀ t T', c.awaits t = some .deleteAllSessions → c'.task t = some T' →
    T'.alive = false → ∀ digest, c'.world.sessions digest = none

abbrev UndisturbedRun : Config (admin service) → Config (admin service) → Prop :=
  Relation.ReflTransGen fun c c' => Step c c' ∧ Undisturbed c c'

theorem UndisturbedRun.reachable {c c' : Config (admin service)} (h : UndisturbedRun c c') :
    Reachable c c' :=
  Relation.ReflTransGen.mono (fun _ _ hs => hs.1) _ _ h

/-! ## Steps -/

section

variable {s s' : AdminStore} {o : AuthOp} {r : authSig.Ans o}

theorem performs_effect (h : s.Performs o r s') : s' = s ∨ ∃ reply, s' = (s.effect o reply).2 := by
  cases h with
  | done reply => exact .inr ⟨reply, rfl⟩
  | failed exc => exact .inl rfl
  | lost reply exc => exact .inr ⟨reply, rfl⟩

theorem performs_ok {value : authSig.Val o} (h : s.Performs o (.ok value) s') :
    ∃ reply, (s.effect o reply).1 = .ok value ∧ s' = (s.effect o reply).2 := by
  generalize hvalue : (Except.ok value : authSig.Ans o) = r at h
  cases h with
  | done reply => exact ⟨reply, rfl, rfl⟩
  | failed exc => cases hvalue
  | lost reply exc => cases hvalue

/-- Where a stored session comes from: it was there, was just seen, or was just created. -/
theorem effect_sessions {reply : authSig.Ans o} {digest : String} {record : AdminSession}
    (h : (s.effect o reply).2.sessions digest = some record) :
    s.sessions digest = some record ∨
    (∃ now idle seen, o = .findSession digest now idle ∧ s.sessions digest = some seen ∧
      seen.expired idle now = false) ∨
    ∃ now expiry, o = .createSession digest now expiry ∧ s.sessions digest = none ∧
      record = ⟨digest, now, expiry, now⟩ := by
  cases o with
  | setup passwordHash now =>
    simp only [AdminStore.effect, AdminStore.setup] at h
    split at h <;> exact .inl h
  | updatePasswordHash passwordHash now =>
    simp only [AdminStore.effect, AdminStore.updatePasswordHash] at h
    split at h <;> exact .inl h
  | createSession digest' now expiry =>
    simp only [AdminStore.effect, AdminStore.createSession] at h
    split at h
    · exact .inl h
    · rename_i hnone
      by_cases hd : digest = digest'
      · subst hd
        simp only [Function.update_self, Option.some.injEq] at h
        exact .inr (.inr ⟨now, expiry, rfl, hnone, h.symm⟩)
      · exact .inl (by simpa [Function.update_of_ne hd] using h)
  | findSession digest' now idle =>
    simp only [AdminStore.effect, AdminStore.findSession] at h
    split at h
    · exact .inl h
    · rename_i seen hseen
      by_cases hd : digest = digest'
      · subst hd
        split at h
        · simp at h
        · rename_i hexpired
          exact .inr (.inl ⟨now, idle, seen, rfl, hseen, by simpa using hexpired⟩)
      · split at h <;> exact .inl (by simpa [Function.update_of_ne hd] using h)
  | deleteSession digest' =>
    by_cases hd : digest = digest'
    · subst hd
      simp [AdminStore.effect, AdminStore.deleteSession] at h
    · exact .inl (by simpa [AdminStore.effect, AdminStore.deleteSession,
        Function.update_of_ne hd] using h)
  | deleteAllSessions => cases h
  | _ => exact .inl h

/-- How the stored hash changes: it is set up, or replaced. -/
theorem effect_passwordHash {reply : authSig.Ans o} :
    (s.effect o reply).2.passwordHash = s.passwordHash ∨
    (s.passwordHash = none ∧ (s.effect o reply).2.sessions = s.sessions) ∨
    (∃ passwordHash now, o = .updatePasswordHash passwordHash now) ∧
      (s.effect o reply).2.sessions = s.sessions := by
  cases o with
  | setup passwordHash now =>
    simp only [AdminStore.effect, AdminStore.setup]
    split
    · exact .inl rfl
    · rename_i hnone
      exact .inr (.inl ⟨by simp [AdminStore.passwordHash, hnone], rfl⟩)
  | updatePasswordHash passwordHash now =>
    simp only [AdminStore.effect, AdminStore.updatePasswordHash]
    split
    · exact .inl rfl
    · exact .inr (.inr ⟨⟨passwordHash, now, rfl⟩, rfl⟩)
  | createSession digest now expiry =>
    simp only [AdminStore.effect, AdminStore.createSession]
    split <;> exact .inl rfl
  | findSession digest now idle =>
    simp only [AdminStore.effect, AdminStore.findSession]
    split
    · exact .inl rfl
    · split <;> exact .inl rfl
  | _ => exact .inl rfl

end

theorem verified_was_read {call : AuthCall} {h : List (Event authSig)} {passwordHash : String}
    (hv : (checks service call).after h = some passwordHash) :
    (⟨.readPasswordHash, .ok (some passwordHash)⟩ : Event authSig) ∈ h := by
  have hempty : (checks service call).init ≠ some passwordHash := nofun
  have hread : ∀ m o r, next m o r = some passwordHash → m = some passwordHash ∨
      (⟨o, r⟩ : Event authSig) = ⟨.readPasswordHash, .ok (some passwordHash)⟩ := by
    intro m o r hnext
    cases o with
    | readPasswordHash =>
      cases r with
      | error e => exact .inl hnext
      | ok read =>
        obtain rfl : read = some passwordHash := hnext
        exact .inr rfl
    | _ => exact .inl hnext
  obtain ⟨e, hmem, rfl⟩ := Monitor.exists_of_after (M := checks service call)
    (P := fun m => m = some passwordHash)
    (E := fun e => e = ⟨.readPasswordHash, .ok (some passwordHash)⟩) hempty hread hv
  exact hmem

theorem IssuedUnder.of_step {c c' : Config (admin service)} {digest passwordHash : String}
    (h : IssuedUnder c digest passwordHash) (hst : Step c c') :
    IssuedUnder c' digest passwordHash := by
  obtain ⟨t, T, password, now, expiry, r, hT, hcall, hcreated, hread, hv⟩ := h
  obtain ⟨T', hT', hcall', hsub⟩ := hst.keeps hT
  exact ⟨t, T', password, now, expiry, r, hT', hcall' ▸ hcall, hsub hcreated, hsub hread, hv⟩

theorem IssuedUnderStored.of_step {c c' : Config (admin service)} {digest : String}
    (h : IssuedUnderStored c digest) (hst : Step c c')
    (hhash : c'.world.passwordHash = c.world.passwordHash) : IssuedUnderStored c' digest := by
  obtain ⟨passwordHash, hstored, hissued⟩ := h
  exact ⟨passwordHash, hhash.trans hstored, hissued.of_step hst⟩

theorem none_after_drop {s s' : AdminStore} {done : Unit}
    (h : s.Performs .deleteAllSessions (.ok done) s') (digest : String) :
    s'.sessions digest = none := by
  obtain ⟨reply, -, rfl⟩ := performs_ok h
  rfl

/-- A drop is still to come after the step, unless no session is left. -/
theorem drop_of_step {c c' : Config (admin service)} (hst : Step c c') (hu : Undisturbed c c')
    {t : TaskId} (ht : c.awaits t = some .deleteAllSessions) {digest : String}
    {record : AdminSession} (hrow : c'.world.sessions digest = some record) :
    c'.awaits t = some .deleteAllSessions := by
  obtain ⟨T, hT, halive, hpending⟩ := Config.awaits_eq ht
  obtain ⟨T', hT', -⟩ := hst.keeps hT
  have hempty : (∀ digest, c'.world.sessions digest = none) → False := by
    intro h
    rw [h digest] at hrow
    cases hrow
  rcases hst.task_cases hT' with ⟨hnone, -⟩ | ⟨U, hU, -, ⟨-, hprog, -⟩ | ⟨o, k, r, -, hp, -, rfl⟩⟩
  · rw [hT] at hnone
    cases hnone
  · cases hT.symm.trans hU
    cases halive' : T'.alive with
    | false => exact (hempty (hu.crash t T' ht hT' halive')).elim
    | true =>
      unfold Config.awaits
      rw [hT', Option.bind_some, if_pos halive', ← hpending]
      unfold Task.pending
      rw [hprog]
  · cases hT.symm.trans hU
    unfold Task.pending at hpending
    rw [hp] at hpending
    cases hpending
    cases r with
    | error e => exact (hempty (hu.drop t T _ e hT hT' rfl)).elim
    | ok done =>
      obtain ⟨-, -, -, hw⟩ := hst.finished hT hT' rfl
      exact (hempty (none_after_drop hw)).elim

/-- Every stored session was issued under the stored hash, or a drop is still to come. -/
def Sound (c : Config (admin service)) : Prop :=
  ∀ digest record, c.world.sessions digest = some record →
    (∃ t, c.awaits t = some .deleteAllSessions) ∨ IssuedUnderStored c digest

theorem sound_of_step {w : AdminStore} {c c' : Config (admin service)}
    (hr : Reachable (.start w) c) (hs : Sound c) (hst : Step c c') (hu : Undisturbed c c') :
    Sound c' := by
  intro digest record hrow
  by_cases hgap : ∃ t, c.awaits t = some .deleteAllSessions
  · obtain ⟨t, ht⟩ := hgap
    exact .inl ⟨t, drop_of_step hst hu ht hrow⟩
  have hissued : ∀ {old}, c.world.sessions digest = some old → IssuedUnderStored c digest :=
    fun hold => (hs digest _ hold).resolve_left hgap
  have hkept : ∀ {old}, c.world.sessions digest = some old →
      c'.world.passwordHash = c.world.passwordHash → IssuedUnderStored c' digest :=
    fun hold hhash => (hissued hold).of_step hst hhash
  rcases hst.world_cases with h | ⟨_, -, h⟩ | ⟨_, h⟩ | ⟨t, T, o, k, r, hT, halive, hp, hw, hT'⟩
  · exact .inr (hkept (h ▸ hrow) (by rw [h]))
  · rw [h] at hrow
    exact .inr (hkept hrow (by rw [h]; rfl))
  · rw [h] at hrow
    exact .inr (hkept hrow (by rw [h]))
  rcases performs_effect hw with h | ⟨reply, h⟩
  · exact .inr (hkept (h ▸ hrow) (by rw [h]))
  have hallowed := (Reachable.follows (checked service) hr t T hT).allowed hp
  rcases @effect_passwordHash c.world o reply with hhash | ⟨hnone, hsame⟩ |
    ⟨⟨newHash, at', rfl⟩, hsame⟩
  · rw [← h] at hhash
    rcases effect_sessions (h ▸ hrow) with hold | ⟨at', idle, seen, rfl, hold, -⟩ |
      ⟨at', expiry, rfl, hnone, -⟩
    · exact .inr (hkept hold hhash)
    · exact .inr (hkept hold hhash)
    · obtain ⟨password, passwordHash, hcall, hverified, hverify⟩ := hallowed
      have hcreated : c'.world.sessions ≠ c.world.sessions := by
        intro heq
        rw [heq, hnone] at hrow
        cases hrow
      have hcurrent := hu.login t T _ password digest at' expiry r hT hT' hcall rfl hcreated
      refine .inr ⟨passwordHash, ?_, t, _, password, at', expiry, r, hT', hcall,
        List.mem_cons_self, List.mem_cons_of_mem _ (verified_was_read hverified), hverify⟩
      rw [hhash, ← hcurrent]
      exact hverified
  · obtain ⟨_, hstored, -⟩ := hissued (hsame ▸ h ▸ hrow)
    rw [hnone] at hstored
    cases hstored
  · have hold : c.world.sessions digest = some record := hsame ▸ h ▸ hrow
    by_cases hhash : c'.world.passwordHash = c.world.passwordHash
    · exact .inr (hkept hold hhash)
    · obtain ⟨current, password, _, hcall, -⟩ := hallowed
      rcases (hu.change t T _ current password newHash at' r hT hT' hcall rfl hhash).2 with
        rfl | hempty
      · exact .inl ⟨t, awaits_drop (hr.tail hst) hT' halive rfl rfl⟩
      · rw [hempty digest] at hold
        cases hold

theorem sound_of_run {w : AdminStore} (hw : ∀ digest, w.sessions digest = none)
    {c : Config (admin service)} (hrun : UndisturbedRun (.start w) c) : Sound c := by
  induction hrun with
  | refl =>
    intro digest record hrow
    rw [show (Config.start w : Config (admin service)).world.sessions digest = none from hw digest]
      at hrow
    cases hrow
  | tail hr hst ih => exact sound_of_step (UndisturbedRun.reachable hr) ih hst.1 hst.2

theorem row_of_found {s s' : AdminStore} {digest : String} {now : Time} {idle : ℕ}
    {record : AdminSession} (h : s.Performs (.findSession digest now idle) (.ok (some record)) s') :
    ∃ row, s.sessions digest = some row ∧ row.expired idle now = false ∧
      record = { row with lastSeenAt := now } := by
  obtain ⟨reply, hfound, -⟩ := performs_ok h
  simp only [AdminStore.effect, AdminStore.findSession] at hfound
  split at hfound
  · cases hfound
  · rename_i row hrow
    split at hfound
    · cases hfound
    · rename_i halive
      cases hfound
      exact ⟨row, hrow, by simpa using halive, rfl⟩

theorem replaced_by_change {w : AdminStore} {c c' : Config (admin service)}
    (hr : Reachable (.start w) c) (hst : Step c c') (hu : Undisturbed c c') {stored : String}
    (hstored : c.world.passwordHash = some stored) (hne : c'.world.passwordHash ≠ some stored) :
    ∃ t T current password, c.task t = some T ∧ T.call = .changePassword current password ∧
      service.verify stored current = true := by
  rcases hst.world_cases with h | ⟨_, -, h⟩ | ⟨_, h⟩ | ⟨t, T, o, k, r, hT, halive, hp, hw, hT'⟩
  · exact absurd hstored (by rw [h] at hne; exact hne)
  · exact absurd hstored (by rw [h] at hne; exact hne)
  · exact absurd hstored (by rw [h] at hne; exact hne)
  rcases performs_effect hw with h | ⟨reply, h⟩
  · exact absurd hstored (h ▸ hne)
  rcases @effect_passwordHash c.world o reply with hhash | ⟨hnone, -⟩ | ⟨⟨newHash, at', rfl⟩, -⟩
  · exact absurd hstored (by rw [h, hhash] at hne; exact hne)
  · rw [hnone] at hstored
    cases hstored
  · obtain ⟨current, password, verified, hcall, hverified, hverify⟩ :=
      (Reachable.follows (checked service) hr t T hT).allowed hp
    have hcurrent := (hu.change t T _ current password newHash at' r hT hT' hcall rfl
      (hstored ▸ hne)).1
    have heq : some verified = some stored := hverified.symm.trans (hcurrent.trans hstored)
    exact ⟨t, T, current, password, hT, hcall, Option.some.inj heq ▸ hverify⟩

/-- In every undisturbed run: outside the gap between a replacement of the hash and the drop, every
stored session was issued under the stored hash; a lookup returns no other session at any time; and
the stored hash is replaced only by a change whose current password matches it. -/
theorem accepted_is_issued {w : AdminStore} (hw : ∀ digest, w.sessions digest = none)
    {c : Config (admin service)} (hrun : UndisturbedRun (.start w) c) :
    ((∀ t, c.awaits t ≠ some .deleteAllSessions) → ∀ digest record,
      c.world.sessions digest = some record → IssuedUnderStored c digest) ∧
    (∀ c' t T T' digest now idle record, Step c c' → Undisturbed c c' → c.task t = some T →
      c'.task t = some T' →
      T'.hist = ⟨.findSession digest now idle, .ok (some record)⟩ :: T.hist →
      IssuedUnderStored c digest) ∧
    ∀ c' stored, Step c c' → Undisturbed c c' → c.world.passwordHash = some stored →
      c'.world.passwordHash ≠ some stored →
      ∃ t T current password, c.task t = some T ∧ T.call = .changePassword current password ∧
        service.verify stored current = true := by
  have hsound := sound_of_run hw hrun
  have houtside : (∀ t, c.awaits t ≠ some .deleteAllSessions) → ∀ digest record,
      c.world.sessions digest = some record → IssuedUnderStored c digest :=
    fun hnone digest record hrow =>
      (hsound digest record hrow).resolve_left fun ⟨t, ht⟩ => hnone t ht
  refine ⟨houtside, ?_, ?_⟩
  · intro c' t T T' digest now idle record hst hu hT hT' hhist
    obtain ⟨k, -, -, hw⟩ := hst.finished hT hT' hhist
    obtain ⟨row, hrow, -, -⟩ := row_of_found hw
    have hfound : c.world.sessions digest ≠ none := by
      rw [hrow]
      exact nofun
    exact houtside (hu.lookup t T T' digest now idle _ hT hT' hhist hfound) digest row hrow
  · intro c' stored hst hu hstored hne
    exact replaced_by_change hrun.reachable hst hu hstored hne

/-! ## Calls one after the other -/

def answering : Responder authSig AdminStore := fun _ s o reply => some (s.effect o reply)

theorem honest_answering : answering.Honest (admin service) := by
  intro t s o reply r s' h
  have hdone : s.Performs o (s.effect o reply).1 (s.effect o reply).2 := .done reply
  rw [Option.some.inj h] at hdone
  exact hdone

/-- The task stores no session and replaces no hash, or still finds the hash it verified. -/
def inTime (w : AdminStore) (T : Task (admin service)) : AuthOp → Bool
  | .createSession _ _ _ | .updatePasswordHash _ _ => verifiedHash T == w.passwordHash
  | _ => true

/-- The same at each of the next `n` awaits. -/
def staysInTime (script : (o : AuthOp) → authSig.Ans o) :
    ℕ → AdminStore → Task (admin service) → Bool
  | 0, _, _ => true
  | n + 1, w, T =>
    match T.prog with
    | .ret _ => true
    | .call o k =>
      inTime w T o && staysInTime script n (w.effect o (script o)).2
        (T.advance o (w.effect o (script o)).1 (k (w.effect o (script o)).1))

def Quiet (c : Config (admin service)) : Prop := ∀ t, c.awaits t ≠ some .deleteAllSessions

section Scripted

variable {c : Config (admin service)} {t : TaskId} {T : Task (admin service)}
variable {script : (o : AuthOp) → authSig.Ans o}

theorem undisturbed_exec {o : AuthOp} {k : authSig.Ans o → Proc authSig (admin service).Res}
    {reply : authSig.Ans o} (hT : c.task t = some T) (halive : T.alive = true)
    (hp : T.prog = .call o k) (hquiet : ∀ u, u ≠ t → c.awaits u ≠ some .deleteAllSessions)
    (htime : inTime c.world T o = true) :
    Undisturbed c ({ c with world := (c.world.effect o reply).2 }.setTask t
      (T.advance o (c.world.effect o reply).1 (k (c.world.effect o reply).1))) := by
  -- the await that a history tells of is this one
  have hthis : ∀ {u U U' e}, c.task u = some U →
      ({ c with world := (c.world.effect o reply).2 }.setTask t (T.advance o
        (c.world.effect o reply).1 (k (c.world.effect o reply).1))).task u = some U' →
      U'.hist = e :: U.hist → u = t ∧ U = T ∧ e = ⟨o, (c.world.effect o reply).1⟩ := by
    intro u U U' e hU hU' hhist
    rw [Config.setTask_task] at hU'
    split at hU'
    · rename_i hu
      cases hu
      cases hT.symm.trans hU
      cases hU'
      exact ⟨rfl, rfl, (List.cons.inj hhist).1.symm⟩
    · cases hU.symm.trans hU'
      exact absurd hhist.symm (List.cons_ne_self _ _)
  constructor
  · intro u U U' password digest now expiry r hU hU' _ hhist _
    obtain ⟨-, rfl, he⟩ := hthis hU hU' hhist
    cases he
    simpa [inTime] using htime
  · intro u U U' current password passwordHash now r hU hU' _ hhist hne
    obtain ⟨-, rfl, he⟩ := hthis hU hU' hhist
    cases he
    refine ⟨by simpa [inTime] using htime, .inl ?_⟩
    cases hcredential : c.world.credential with
    | none =>
      refine absurd ?_ hne
      simp [AdminStore.effect, AdminStore.updatePasswordHash, hcredential]
    | some record => simp [AdminStore.effect, AdminStore.updatePasswordHash, hcredential]
  · intro u U U' digest now idle r hU hU' hhist _ v hv
    obtain ⟨rfl, rfl, he⟩ := hthis hU hU' hhist
    cases he
    by_cases hvu : v = u
    · subst hvu
      obtain ⟨V, hV, -, hpending⟩ := Config.awaits_eq hv
      cases hT.symm.trans hV
      rw [Task.pending, hp] at hpending
      cases hpending
    · exact hquiet v hvu hv
  · intro u U U' e hU hU' hhist
    obtain ⟨-, -, he⟩ := hthis hU hU' hhist
    cases he
  · intro u U' hu hU' hdead
    rw [Config.setTask_task] at hU'
    split at hU'
    · cases hU'
      exact absurd (halive.symm.trans hdead) nofun
    · exact (hquiet u ‹_› hu).elim

theorem undisturbed_task_drive (n : ℕ) (hT : c.task t = some T) (halive : T.alive = true)
    (hquiet : ∀ u, u ≠ t → c.awaits u ≠ some .deleteAllSessions)
    (htime : staysInTime script n c.world T = true) :
    UndisturbedRun c ({ c with world := (T.drive answering t script n c.world).1 }.setTask t
      (T.drive answering t script n c.world).2) := by
  induction n generalizing c T with
  | zero =>
    simp only [Task.drive]
    rw [Config.setTask_eq_self hT]
  | succ n ih =>
    unfold staysInTime at htime
    unfold Task.drive
    split
    · rw [Config.setTask_eq_self hT]
    · rename_i o k hp
      rw [hp] at htime
      obtain ⟨hnow, hrest⟩ := Bool.and_eq_true_iff.mp htime
      have hstep : Step c ({ c with world := (c.world.effect o (script o)).2 }.setTask t
          (T.advance o (c.world.effect o (script o)).1 (k (c.world.effect o (script o)).1))) :=
        .exec t _ hT halive hp (.done (script o))
      have hrun := ih (c := { c with world := (c.world.effect o (script o)).2 }.setTask t
          (T.advance o (c.world.effect o (script o)).1 (k (c.world.effect o (script o)).1)))
        (T := T.advance o (c.world.effect o (script o)).1 (k (c.world.effect o (script o)).1))
        (Config.setTask_self ..) halive ?_ hrest
      · rw [Config.setTask_world, Config.setTask_setTask] at hrun
        exact .head ⟨hstep, undisturbed_exec hT halive hp hquiet hnow⟩ hrun
      · intro u hu
        unfold Config.awaits
        rw [Config.setTask_ne _ _ hu]
        exact hquiet u hu

/-- A call that runs alone is undisturbed when it finds what it has verified. -/
theorem undisturbed_call (hnone : c.task t = none) (hquiet : Quiet c) (call : AuthCall)
    (script : (o : AuthOp) → authSig.Ans o) (n : ℕ)
    (htime : staysInTime script n c.world
      ({ call := call, prog := (admin service).prog call } : Task (admin service)) = true) :
    UndisturbedRun c (c.call answering t call script n) := by
  have hsame : ∀ {u U U'}, c.task u = some U → (c.setTask t
      { call := call, prog := (admin service).prog call }).task u = some U' → U' = U := by
    intro u U U' hU hU'
    have hu : u ≠ t := by
      rintro rfl
      rw [hnone] at hU
      cases hU
    rw [Config.setTask_ne _ _ hu, hU] at hU'
    exact (Option.some.inj hU').symm
  have hspawn : Undisturbed c (c.setTask t { call := call, prog := (admin service).prog call }) := by
    constructor
    · intro u U U' _ _ _ _ _ hU hU' _ hhist
      rw [hsame hU hU'] at hhist
      exact absurd hhist.symm (List.cons_ne_self _ _)
    · intro u U U' _ _ _ _ _ hU hU' _ hhist
      rw [hsame hU hU'] at hhist
      exact absurd hhist.symm (List.cons_ne_self _ _)
    · intro u U U' _ _ _ _ hU hU' hhist
      rw [hsame hU hU'] at hhist
      exact absurd hhist.symm (List.cons_ne_self _ _)
    · intro u U U' _ hU hU' hhist
      rw [hsame hU hU'] at hhist
      exact absurd hhist.symm (List.cons_ne_self _ _)
    · intro u _ hu
      exact (hquiet u hu).elim
  unfold Config.call
  rw [hnone]
  refine .head ⟨Step.spawn t call hnone, hspawn⟩ ?_
  unfold Config.drive
  rw [Config.setTask_self]
  refine undisturbed_task_drive n (Config.setTask_self ..) rfl ?_ htime
  intro u hu
  unfold Config.awaits
  rw [Config.setTask_ne _ _ hu]
  exact hquiet u

theorem quiet_call (hquiet : Quiet c) {call : AuthCall} {n : ℕ}
    (hdone : ((c.call answering t call script n).awaits t).isNone = true) :
    Quiet (c.call answering t call script n) := by
  intro u hu
  by_cases hut : u = t
  · rw [hut] at hu
    rw [hu] at hdone
    cases hdone
  · unfold Config.awaits at hu
    rw [call_task_ne hut] at hu
    exact hquiet u hu

end Scripted

/-! ## Sample runs -/

def sampleToken : String := "AAAAAAAAAAAAAAAAAAAAAAAAAAAAAAAAAAAAAAAAAAA"

def sampleDigest : String := "0f007385b6f9d4b7eeb2748605afe1a984a0a3bfa3f014d09e2a784ce9e5cd1a"

def laterToken : String := "BBBBBBBBBBBBBBBBBBBBBBBBBBBBBBBBBBBBBBBBBBB"

def laterDigest : String := "412dc46cc9e3cb26f29f7c1415c556349af62904c5d15b0a2d8cfdc5cfa22b34"

/-- A service that knows the hashes and the tokens of the runs. -/
def sampleService : AdminAuthService where
  verify passwordHash password := passwordHash == "$argon2id$" ++ password
  tokenDigest token :=
    if token = sampleToken then sampleDigest else if token = laterToken then laterDigest else ""

def drawn : (o : AuthOp) → authSig.Ans o
  | .newToken => .ok sampleToken
  | .hash password => .ok ("$argon2id$" ++ password)
  | _ => .error .unauthorized

def drawnLater : (o : AuthOp) → authSig.Ans o
  | .newToken => .ok laterToken
  | o => drawn o

def freshSetup : Config (admin sampleService) :=
  (Config.start {}).call answering 0 (AuthCall.setup "first") drawn 3

def loginRun : Config (admin sampleService) :=
  freshSetup.call answering 1 (AuthCall.login "first") drawn 4

def changedRun : Config (admin sampleService) :=
  loginRun.call answering 2 (AuthCall.changePassword "first" "second") drawn 5

def laterLogin : Config (admin sampleService) :=
  changedRun.call answering 3 (AuthCall.login "second") drawnLater 4

/-- A login, a change of the password, a login with the new one, and a validation. -/
def laterRun : Config (admin sampleService) :=
  laterLogin.call answering 4 (AuthCall.validate (some laterToken)) drawn 2

/-- The password is changed while a login has verified the old one. -/
def raceRun : Config (admin sampleService) :=
  (((freshSetup.call answering 1 (AuthCall.login "first") drawn 3).call answering 2
    (AuthCall.changePassword "first" "second") drawn 5).drive answering 1 drawn 1).call answering 3
    (AuthCall.validate (some sampleToken)) drawn 2

theorem reachable_freshSetup : Reachable (.start {}) freshSetup :=
  reachable_call honest_answering ..

def validated (c : Config (admin sampleService)) (t : TaskId) : Bool :=
  (c.task t).any fun T =>
    match T.prog with
    | .ret (.ok (.session (some _))) => true
    | _ => false

theorem undisturbed_laterRun : UndisturbedRun (.start {}) laterRun ∧ Quiet laterRun := by
  have hquiet₀ : Quiet (.start {} : Config (admin sampleService)) := fun _ => nofun
  have hquiet₁ : Quiet freshSetup := quiet_call hquiet₀ (by decide +kernel)
  have hquiet₂ : Quiet loginRun := quiet_call hquiet₁ (by decide +kernel)
  have hquiet₃ : Quiet changedRun := quiet_call hquiet₂ (by decide +kernel)
  have hquiet₄ : Quiet laterLogin := quiet_call hquiet₃ (by decide +kernel)
  have hsetup : UndisturbedRun (.start {}) freshSetup :=
    undisturbed_call rfl hquiet₀ (.setup "first") drawn 3 (by decide +kernel)
  have hlogin : UndisturbedRun freshSetup loginRun :=
    undisturbed_call rfl hquiet₁ (.login "first") drawn 4 (by decide +kernel)
  have hchange : UndisturbedRun loginRun changedRun :=
    undisturbed_call rfl hquiet₂ (.changePassword "first" "second") drawn 5 (by decide +kernel)
  have hlater : UndisturbedRun changedRun laterLogin :=
    undisturbed_call rfl hquiet₃ (.login "second") drawnLater 4 (by decide +kernel)
  have hvalidate : UndisturbedRun laterLogin laterRun :=
    undisturbed_call rfl hquiet₄ (.validate (some laterToken)) drawn 2 (by decide +kernel)
  exact ⟨(((hsetup.trans hlogin).trans hchange).trans hlater).trans hvalidate,
    quiet_call hquiet₄ (by decide +kernel)⟩

/-- The session that lives while the password is changed is gone, and the later one is accepted. -/
theorem accepted_is_issued_after_change :
    (loginRun.world.sessions sampleDigest).isSome = true ∧
      laterRun.world.sessions sampleDigest = none ∧
      laterRun.world.passwordHash = some "$argon2id$second" ∧ validated laterRun 4 = true ∧
      IssuedUnderStored laterRun laterDigest := by
  refine ⟨by decide +kernel, by decide +kernel, by decide +kernel, by decide +kernel, ?_⟩
  have hrow : laterRun.world.sessions laterDigest =
      some ⟨laterDigest, 0, Time.seconds (12 * 60 * 60), 0⟩ := by decide +kernel
  obtain ⟨hrun, hquiet⟩ := undisturbed_laterRun
  exact (accepted_is_issued (fun _ => rfl) hrun).1 hquiet laterDigest _ hrow

def reads (passwordHash : String) : Event authSig → Bool
  | ⟨.readPasswordHash, .ok (some read)⟩ => read == passwordHash
  | _ => false

/-- A login that verified the old password stores its session after the password was changed and
all sessions were dropped: the session validates, and no login verified the stored hash. -/
theorem old_password_session_is_accepted :
    Reachable (.start {}) raceRun ∧ raceRun.world.passwordHash = some "$argon2id$second" ∧
      validated raceRun 3 = true ∧ Accepted raceRun sampleDigest ∧
      ¬ IssuedUnder raceRun sampleDigest "$argon2id$second" := by
  refine ⟨?_, by decide +kernel, by decide +kernel, ?_, ?_⟩
  · exact (((reachable_freshSetup.trans (reachable_call honest_answering ..)).trans
      (reachable_call honest_answering ..)).trans (reachable_drive honest_answering ..)).trans
      (reachable_call honest_answering ..)
  · have hrow : raceRun.world.sessions sampleDigest =
        some ⟨sampleDigest, 0, Time.seconds (12 * 60 * 60), 0⟩ := by decide +kernel
    exact ⟨_, raceRun.world.now, hrow, .inl le_rfl, by decide +kernel⟩
  · rintro ⟨t, T, password, now, expiry, r, hT, -, -, hread, -⟩
    have hnone : ∀ t, t ∉ [0, 1, 2, 3] → raceRun.task t = none := by
      intro t ht
      simp only [List.mem_cons, List.not_mem_nil, or_false, not_or] at ht
      rw [raceRun, call_task_ne ht.2.2.2, drive_task_ne ht.2.1, call_task_ne ht.2.2.1,
        call_task_ne ht.2.1, freshSetup, call_task_ne ht.1]
      rfl
    have := forall_hist (p := fun e => !reads "$argon2id$second" e) hnone (by decide +kernel) t T hT
      _ hread
    simp [reads] at this

end Admin

end PlaceGame
