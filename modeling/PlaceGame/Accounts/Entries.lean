import PlaceGame.Accounts.Quiet
import PlaceGame.Application.Status

/-!
# PlaceGame.Accounts.Entries

What the entry points of the account service keep, for any monitor.

`Sessions M I J` lists what a monitor has to grant: `I` is its invariant inside a session and `J` the
one between two sessions; `AccountSessions` adds what concerns a session on an account. Every entry
point then keeps `J`, whatever the monitor is about. Three bodies write more of a session than the
rest, so what they keep is left to the monitor: the enrolment, the removal and the policy update.
-/

namespace PlaceGame

open Coop

variable {T μ σ α β : Type}

/-- A part of the program that keeps an invariant of its monitor and its local state. -/
abbrev Stable (M : Monitor (sig T) μ) (I : μ → σ → Prop) (c : Coro (sig T) σ α) : Prop :=
  Coro.Keeps (S := sig T) M I c

namespace Stable

variable {M : Monitor (sig T) μ} {I : μ → σ → Prop} {c : Coro (sig T) σ β}

theorem pure (x : α) : Stable M I (Pure.pure x : Coro (sig T) σ α) := Coro.Keeps.pure x

theorem raise (e : Exc) : Stable M I (PlaceGame.raise e : Coro (sig T) σ α) :=
  Coro.Keeps.raise (S := sig T) e

theorem raiseIf (p : Prop) [Decidable p] (e : Exc) :
    Stable M I (PlaceGame.raiseIf p e : Coro (sig T) σ Unit) :=
  Coro.Keeps.raiseIf (S := sig T) p e

theorem await {o : Op T}
    (ho : ∀ m s, I m s → M.ok m o ∧ ∀ r, M.ans m o r → I (M.next m o r) s) :
    Stable M I (PlaceGame.await o : Coro (sig T) σ o.Val) :=
  Coro.Keeps.await (S := sig T) ho

theorem attempt (hc : Stable M I c) : Stable M I (PlaceGame.attempt c) := Coro.Keeps.attempt hc

theorem bind {g : β → Coro (sig T) σ α} (hc : Stable M I c) (hg : ∀ x, Stable M I (g x)) :
    Stable M I (c >>= g) :=
  Coro.Keeps.bind hc hg

theorem ite (p : Prop) [Decidable p] {c d : Coro (sig T) σ α} (hc : Stable M I c)
    (hd : Stable M I d) : Stable M I (if p then c else d) :=
  Coro.Keeps.ite p hc hd

end Stable

section Session

variable {M : Monitor (sig T) μ} {I : μ → Frame → Prop}

theorem stable_modifyFrame {g : Frame → Frame} (hg : ∀ m f, I m f → I m (g f)) :
    Stable M I (modifyFrame g : Tx T Unit) :=
  Coro.Keeps.modify hg

theorem stable_frame : Stable M I (frame : Tx T Frame) := Coro.Keeps.get

theorem stable_record : Stable M I (record : Tx T GameAccount) :=
  Stable.bind stable_frame fun _ => Stable.pure _

end Session

/-- The session after `_require_for_update` got its answer. -/
def Frame.locked (f : Frame) (a : AccountId) : Except Exc (Option GameAccount) → Frame
  | .ok (some row) => if f.loaded = some a then f else { f with loaded := some a, record := row }
  | _ => f

structure Sessions (M : Monitor (sig T) μ) (I : μ → Frame → Prop) (J : μ → Prop) : Prop where
  begins : ∀ m, J m → I m {}
  inside : ∀ m f (o : Op T), o.Free → I m f →
    M.ok m o ∧ ∀ r, M.ans m o r → I (M.next m o r) f
  between : ∀ m (o : Op T), o.Free → J m → M.ok m o ∧ ∀ r, M.ans m o r → J (M.next m o r)
  commits : ∀ m f, I m f → M.ok m (.commit f.writes) ∧
    ∀ r, M.ans m (.commit f.writes) r → J (M.next m (.commit f.writes) r)
  abandons : ∀ m f, I m f → M.ok m .rollback ∧
    ∀ r, M.ans m .rollback r → J (M.next m .rollback r)
  rolls : ∀ m, J m → M.ok m .rollback ∧ ∀ r, M.ans m .rollback r → J (M.next m .rollback r)

structure AccountSessions (M : Monitor (sig T) μ) (a : AccountId) (I : μ → Frame → Prop)
    (J : μ → Prop) : Prop extends Sessions M I J where
  tame : Frame.Tame a fun f f' => ∀ m, I m f → I m f'
  locks : ∀ m f, I m f → M.ok m (.accountForUpdate a) ∧
    ∀ r : Except Exc (Option GameAccount), M.ans m (.accountForUpdate a) r →
      I (M.next m (.accountForUpdate a) r) (f.locked a r)

namespace Sessions

variable {M : Monitor (sig T) μ} {I : μ → Frame → Prop} {J : μ → Prop}

theorem await (hs : Sessions M I J) {o : Op T} (ho : o.Free) :
    Stable M I (PlaceGame.await o : Tx T o.Val) :=
  Stable.await fun m f => hs.inside m f o ho

/-- The invariant between two sessions, as one of an action. -/
abbrev Idle (J : μ → Prop) : μ → Unit → Prop := fun m _ => J m

theorem awaitBetween (hs : Sessions M I J) {o : Op T} (ho : o.Free) :
    Stable M (Idle J) (PlaceGame.await o : Action T o.Val) :=
  Stable.await fun m _ => hs.between m o ho

theorem quietBetween (hs : Sessions M I J) {c : Action T α}
    (hc : Coro.Only (S := sig T) Op.Quiet (fun _ _ => True) c) : Stable M (Idle J) c :=
  Coro.Keeps.of_only hc (fun m _ o ho => hs.between m o ho.free) fun _ _ _ _ => id

/-- A session whose body keeps `I` leads from `J` to `J`. -/
theorem transaction (hs : Sessions M I J) {body : Tx T α} (hb : Stable M I body) :
    Stable M (Idle J) (PlaceGame.transaction body) := by
  intro m s hJ
  refine wp_transaction (hb m {} (hs.begins m hJ)) ?_ ?_
  · intro m' _ f hI
    obtain ⟨hok, hnext⟩ := hs.commits m' f hI
    refine ⟨hok, fun r hr => ?_⟩
    have hJ' := hnext r hr
    cases r with
    | ok _ => exact hJ'
    | error e =>
      obtain ⟨hok', hnext'⟩ := hs.rolls _ hJ'
      exact ⟨hok', fun r' hr' => by cases r' <;> exact hnext' _ hr'⟩
  · intro m' _ f hI
    obtain ⟨hok, hnext⟩ := hs.abandons m' f hI
    exact ⟨hok, fun r hr => by cases r <;> exact hnext _ hr⟩

end Sessions

namespace AccountSessions

variable {M : Monitor (sig T) μ} {a : AccountId} {I : μ → Frame → Prop} {J : μ → Prop}

theorem plain (hs : AccountSessions M a I J) {N : Op T → Prop} {c : Tx T α} (hc : Plain a N c)
    (hN : ∀ o, N o → o.Free) : Stable M I c :=
  Coro.Keeps.of_only (hc _ hs.tame) (fun m f o ho => hs.inside m f o (hN o ho))
    fun m _ _ h => h m

theorem quiet (hs : AccountSessions M a I J) {c : Tx T α} (hc : Plain a Op.Quiet c) : Stable M I c :=
  hs.plain hc fun _ => Op.Quiet.free

theorem requireForUpdate (hs : AccountSessions M a I J) :
    Stable M I (PlaceGame.requireForUpdate a : Tx T Unit) := by
  intro m f hI
  obtain ⟨hok, hnext⟩ := hs.locks m f hI
  unfold PlaceGame.requireForUpdate
  rw [Coro.wp_bind, wp_await]
  refine ⟨hok, fun r hr => ?_⟩
  have hlocked := hnext r hr
  cases r with
  | error e => exact hlocked
  | ok row =>
    cases row with
    | none => exact hlocked
    | some row => exact hlocked

theorem lockAccount (hs : AccountSessions M a I J) :
    Stable M I (AccountService.lockAccount a : Tx T Unit) :=
  Stable.bind (hs.await trivial) fun _ => hs.requireForUpdate

end AccountSessions

section Returns

open AccountService

variable {p : α → Prop}

theorem transaction_returns {body : Tx T α} (hb : Coro.Returns p body) :
    Coro.Returns p (transaction body : Coro (sig T) σ α) := by
  have hbody : Coro.Returns (fun out : Except Exc α × Frame => ∀ a, out.1 = .ok a → p a)
      (Coro.within {} body : Coro (sig T) σ (Except Exc α × Frame)) := by
    intro s
    refine (hb {}).bind ?_
    rintro out hout _ ⟨⟩
    exact hout
  unfold transaction
  refine Coro.Returns.bind hbody ?_
  rintro ⟨outcome, f⟩ hout
  cases outcome with
  | ok a =>
    refine Coro.Returns.last fun r => ?_
    cases r with
    | ok _ => exact Coro.Returns.pure (hout a rfl)
    | error e => exact Coro.Returns.last fun _ => Coro.Returns.raise (S := sig T) e
  | error e => exact Coro.Returns.last fun _ => Coro.Returns.raise (S := sig T) e

/-- What the body of `locked` returns is what `locked` returns. -/
theorem locked_returns (P : Ports) (a : AccountId) (actor : Actor) {body : LockedAccount → Tx T α}
    (hb : ∀ locked, Coro.Returns p (body locked)) :
    Coro.Returns p (locked P a actor body : Action T α) := by
  unfold locked
  refine Coro.Returns.bind (p := fun out => ∀ a, out = some a → p a) (transaction_returns ?_) ?_
  · refine Coro.Returns.last fun _ => Coro.Returns.last fun _ => Coro.Returns.last fun _ =>
      Coro.Returns.last fun resolution => ?_
    split
    · exact Coro.Returns.pure nofun
    · refine Coro.Returns.last fun _ => Coro.Returns.last fun _ =>
        Coro.Returns.bind (hb _) fun a ha => Coro.Returns.pure ?_
      rintro _ ⟨⟩
      exact ha
  · intro out hout
    split
    · exact Coro.Returns.pure (hout _ rfl)
    · exact Coro.Returns.raise (S := sig T) _

end Returns

section Entries

open AccountService

variable {M : Monitor (sig T) μ} {a : AccountId} {I : μ → Frame → Prop} {J : μ → Prop}
variable (P : Ports) (actor : Actor)

theorem stable_normalizeLabel (label : String) :
    Stable M (Sessions.Idle J) (normalizeLabel label : Action T String) :=
  Stable.bind (Stable.raiseIf _ _) fun _ => Stable.pure _

theorem stable_loginAndBootstrap (hs : Sessions M I J) (username password : String) :
    Stable M (Sessions.Idle J) (loginAndBootstrap P username password : Action T Login) :=
  hs.quietBetween
    (loginAndBootstrap_only P (fun _ => trivial) (fun _ _ _ _ _ => trivial) username password)

theorem stable_rejectRemovalMarker (r : GameAccount) :
    Stable M I (rejectRemovalMarker r : Tx T Unit) :=
  Stable.bind (Stable.raiseIf _ _) fun _ => Stable.raiseIf _ _

theorem stable_requireMutable (r : GameAccount) : Stable M I (requireMutable r : Tx T Unit) :=
  Stable.bind (stable_rejectRemovalMarker r) fun _ =>
    Stable.bind (Stable.raiseIf _ _) fun _ => Stable.raiseIf _ _

section Enrolment

def Enrols (M : Monitor (sig T) μ) (I : μ → Frame → Prop) (actor : Actor) : Prop :=
  ∀ (record : GameAccount) (token identity action : String), record.policyVersion = 1 →
    action ≠ "account.mutate" →
    Stable M I (enroll record token identity action actor : Tx T (Option ManagedAccount))

theorem addCredentials_stable (hs : Sessions M I J) (he : Enrols M I actor)
    (label username password : String) :
    Stable M (Sessions.Idle J)
      (addCredentials P label username password actor : Action T ManagedAccount) := by
  unfold addCredentials
  refine Stable.bind (stable_normalizeLabel label) fun label' => ?_
  refine Stable.bind (stable_loginAndBootstrap P hs username password) fun login => ?_
  refine Stable.bind (hs.awaitBetween trivial) fun now => ?_
  refine Stable.bind (Stable.raiseIf _ _) fun _ => ?_
  dsimp only
  refine Stable.bind (hs.transaction (he _ _ _ _ rfl (by decide))) fun account => ?_
  split
  · exact Stable.pure _
  · exact Stable.raise _

theorem addTokenOnly_stable (hs : Sessions M I J) (he : Enrols M I actor)
    (label sessionToken : String) :
    Stable M (Sessions.Idle J)
      (addTokenOnly P label sessionToken actor : Action T ManagedAccount) := by
  unfold addTokenOnly bootstrapProposed
  refine Stable.bind (stable_normalizeLabel label) fun label' => ?_
  refine Stable.bind (Stable.raiseIf _ _) fun _ => ?_
  refine Stable.bind
    (Stable.bind (Stable.attempt (hs.awaitBetween trivial)) fun r => ?_) fun identity => ?_
  · split
    · exact Stable.pure _
    · exact Stable.raise _
    · exact Stable.raise _
  · refine Stable.bind (Stable.raiseIf _ _) fun _ => ?_
    refine Stable.bind (hs.awaitBetween trivial) fun now => ?_
    dsimp only
    refine Stable.bind (hs.transaction (he _ _ _ _ rfl (by decide))) fun account => ?_
    split
    · exact Stable.pure _
    · exact Stable.raise _

end Enrolment

variable (hs : AccountSessions M a I J)
include hs

section CredentialEdits

omit hs in
theorem stable_raisePending (outcome : Except Exc α) :
    Stable M (Sessions.Idle J) (raisePending outcome : Action T α) := by
  unfold raisePending
  split
  · exact Stable.pure _
  · exact Stable.raise _

theorem editCredentials_stable (action : String) (h : action ≠ "account.mutate")
    {apply : Tx T (Except Exc ManagedAccount)} (ha : Plain a Op.Quiet apply) :
    Stable M (Sessions.Idle J) (do
      let outcome ← transaction do
        lockAccount a
        let r ← record
        rejectRemovalMarker r
        match ← bindLegacy P a actor with
        | some pending => rejectEdit a actor action pending
        | none => apply
      raisePending outcome : Action T ManagedAccount) := by
  refine Stable.bind (hs.transaction ?_) fun _ => stable_raisePending _
  refine Stable.bind hs.lockAccount fun _ => Stable.bind stable_record fun r => ?_
  refine Stable.bind (stable_rejectRemovalMarker r) fun _ => ?_
  refine Stable.bind (hs.quiet (bindLegacy_plain P a actor)) fun pending => ?_
  split
  · exact hs.quiet (rejectEdit_plain a actor _ _ h)
  · exact hs.quiet ha

theorem updateCredentials_stable (username : Option String) (password : String) :
    Stable M (Sessions.Idle J)
      (updateCredentials P a username password actor : Action T ManagedAccount) :=
  Stable.bind (Stable.raiseIf _ _) fun _ =>
    editCredentials_stable P actor hs _ (by decide) (applyCredentials_plain P a actor _ _)

theorem updateTokenOnly_stable (sessionToken : String) :
    Stable M (Sessions.Idle J)
      (updateTokenOnly P a sessionToken actor : Action T ManagedAccount) :=
  Stable.bind (Stable.raiseIf _ _) fun _ =>
    editCredentials_stable P actor hs _ (by decide) (applyTokenOnly_plain P a actor _)

end CredentialEdits

section Lifecycle

theorem stable_modifyRecord {g : GameAccount → GameAccount}
    (hg : ∀ r, (g r).policyVersion = r.policyVersion) :
    Stable M I (modifyRecord g : Tx T Unit) :=
  hs.quiet (Plain.modifyRecord hg)

theorem stable_audit (accountId : Option AccountId) (action : String) (result : Json)
    (before after : Option Json) (planId : Option PlanId) (h : action ≠ "account.mutate") :
    Stable M I (audit actor accountId action result before after planId : Tx T Unit) :=
  hs.quiet (Plain.audit _ _ _ _ _ _ _ h)

/-- A checked edit of the record with its audit. -/
theorem edit_stable {check : GameAccount → Tx T Unit} {g : GameAccount → GameAccount}
    {finish : GameAccount → Tx T α} (hcheck : ∀ r, Stable M I (check r))
    (hg : ∀ r, (g r).policyVersion = r.policyVersion) (hf : ∀ r, Stable M I (finish r)) :
    Stable M I (do
      lockAccount a
      let r ← record
      check r
      modifyRecord g
      finish r : Tx T α) :=
  Stable.bind hs.lockAccount fun _ => Stable.bind stable_record fun r =>
    Stable.bind (hcheck r) fun _ => Stable.bind (stable_modifyRecord hs hg) fun _ => hf r

theorem updateLabel_stable (label : String) :
    Stable M (Sessions.Idle J) (updateLabel a label actor : Action T ManagedAccount) :=
  Stable.bind (stable_normalizeLabel label) fun _ => hs.transaction
    (edit_stable hs stable_rejectRemovalMarker (fun _ => rfl) fun _ =>
      Stable.bind (stable_audit actor hs _ _ _ _ _ _ (by decide)) fun _ => Stable.pure _)

theorem setLifecycle_stable (action : String) (enabled : Bool)
    (h : "account." ++ action ≠ "account.mutate") :
    Stable M (Sessions.Idle J) (setLifecycle a action enabled actor : Action T Unit) :=
  hs.transaction (edit_stable hs stable_rejectRemovalMarker (fun _ => rfl) fun _ =>
    stable_audit actor hs _ _ _ _ _ _ h)

theorem pause_stable (reason : String) :
    Stable M (Sessions.Idle J) (pause a reason actor : Action T Unit) :=
  Stable.bind (Stable.raiseIf _ _) fun _ => hs.transaction
    (edit_stable hs stable_rejectRemovalMarker (fun _ => rfl) fun _ =>
      stable_audit actor hs _ _ _ _ _ _ (by decide))

theorem resume_stable : Stable M (Sessions.Idle J) (resume a actor : Action T Unit) := by
  refine hs.transaction (Stable.bind hs.lockAccount fun _ => Stable.bind stable_record fun r => ?_)
  refine Stable.bind (Stable.raiseIf _ _) fun _ => Stable.bind (Stable.raiseIf _ _) fun _ => ?_
  exact Stable.bind (stable_modifyRecord hs fun _ => rfl) fun _ =>
    stable_audit actor hs _ _ _ _ _ _ (by decide)

theorem disableDrainRemove_stable
    (hdrain : Stable M I (drainRemoval a actor : Tx T RemovalReceipt)) :
    Stable M (Sessions.Idle J) (disableDrainRemove a actor : Action T RemovalReceipt) := by
  unfold disableDrainRemove
  refine Stable.bind (hs.transaction ?_) fun receipt => ?_
  · unfold beginRemoval
    refine Stable.bind hs.requireForUpdate fun _ => Stable.bind stable_record fun r => ?_
    refine Stable.ite _ (Stable.bind (hs.await trivial) fun _ => Stable.pure _) ?_
    exact Stable.bind (stable_modifyRecord hs fun _ => rfl) fun _ =>
      Stable.bind (hs.await trivial) fun _ => Stable.pure _
  · split
    · exact Stable.pure _
    · exact hs.transaction hdrain

end Lifecycle

section Reads

theorem ensureSession_stable :
    Stable M (Sessions.Idle J) (ensureSession P a actor : Action T SessionState) :=
  hs.transaction (Stable.bind hs.lockAccount fun _ =>
    Stable.bind (hs.quiet (ensureLocked_plain P a actor)) fun _ => Stable.pure _)

theorem snapshot_stable :
    Stable M (Sessions.Idle J) (snapshot P a actor : Action T AccountSnapshot) :=
  hs.transaction (Stable.bind hs.lockAccount fun _ =>
    Stable.bind (hs.quiet (ensureLocked_plain P a actor)) fun _ =>
      hs.quiet (saveSnapshot_plain P a _ _))

theorem accountStatus_stable :
    Stable M (Sessions.Idle J) (AccountStatusQuery.get P a actor : Action T AccountStatus) := by
  refine Stable.bind (snapshot_stable P actor hs) fun snapshot => ?_
  split
  · exact Stable.raise _
  · refine Stable.bind (Stable.bind (hs.awaitBetween trivial) fun row => ?_) fun _ => Stable.pure _
    split
    · exact Stable.raise _
    · exact Stable.pure _

theorem locked_stable {body : LockedAccount → Tx T α} (hb : ∀ locked, Stable M I (body locked)) :
    Stable M (Sessions.Idle J) (locked P a actor body : Action T α) := by
  unfold locked
  refine Stable.bind (hs.transaction ?_) fun outcome => ?_
  · refine Stable.bind hs.lockAccount fun _ => Stable.bind stable_record fun r => ?_
    refine Stable.bind (stable_requireMutable r) fun _ => ?_
    refine Stable.bind (hs.quiet (ensureLocked_plain P a actor)) fun resolution => ?_
    split
    · exact Stable.pure _
    · refine Stable.bind (hs.quiet (saveSnapshot_plain P a _ _)) fun _ => ?_
      exact Stable.bind (hs.await trivial) fun _ => Stable.bind (hb _) fun _ => Stable.pure _
  · split
    · exact Stable.pure _
    · exact Stable.raise _

/-- What the transaction of `locked` leaves in its session: nothing was done, or the body ran. -/
def LockedBody (I : μ → Frame → Prop) (B : μ → Except Exc α → Frame → Prop) (m : μ) :
    Except Exc (Option α) → Frame → Prop
  | .ok (some x), f => B m (.ok x) f
  | .ok none, f => I m f
  | .error e, f => I m f ∨ B m (.error e) f

/-- How the transaction of `locked` ends. -/
def LockedEnd (J : μ → Prop) (Q : μ → Except Exc α → Prop) (m : μ) : Except Exc (Option α) → Prop
  | .ok (some x) => Q m (.ok x)
  | .ok none => J m
  | .error e => Q m (.error e)

omit hs in
theorem rollsBack_of {Q : μ → Except Exc α → Prop} {m : μ} {e : Exc}
    (hq : ∀ m e, J m → Q m (.error e))
    (h : M.ok m .rollback ∧ ∀ r, M.ans m .rollback r → J (M.next m .rollback r)) :
    RollsBack M (fun m r (_ : Unit) => Q m r) m e () :=
  ⟨h.1, fun r hr => by cases r <;> exact hq _ _ (h.2 _ hr)⟩

/-- `locked` with a body that leads further: what the body leaves is committed, and a part before it
that raises leaves `J`. -/
theorem locked_wp {body : LockedAccount → Tx T α} {B : μ → Except Exc α → Frame → Prop}
    {Q : μ → Except Exc α → Prop} {m : μ} (hm : J m) (hq : ∀ m e, J m → Q m (.error e))
    (hb : ∀ locked m f, I m f → M.ans m (.policyGet a) (.ok locked.policy) →
      (body locked).wp M B (M.next m (.policyGet a) (.ok locked.policy)) f)
    (hc : ∀ m x f, B m (.ok x) f → M.ok m (.commit f.writes) ∧
      ∀ r, M.ans m (.commit f.writes) r →
        match r with
        | .ok _ => Q (M.next m (.commit f.writes) r) (.ok x)
        | .error e =>
          RollsBack M (fun m r (_ : Unit) => Q m r) (M.next m (.commit f.writes) r) e ())
    (ha : ∀ m e f, B m (.error e) f → RollsBack M (fun m r (_ : Unit) => Q m r) m e ()) :
    (locked P a actor body : Action T α).wp M (fun m r _ => Q m r) m () := by
  have hpre : ∀ {β : Type} {c : Tx T β} {g : β → Tx T (Option α)} {m : μ} {f : Frame}, I m f →
      Stable M I c → (∀ x m f, I m f → (g x).wp M (LockedBody I B) m f) →
        (c >>= g).wp M (LockedBody I B) m f := by
    intro β c g m f hI hcI hg
    exact Coro.wp_seq (hcI m f hI) (fun m' x f' hI' => hg x m' f' hI') fun _ _ _ hI' => .inl hI'
  unfold locked
  refine Coro.wp_seq (R := fun m r _ => LockedEnd J Q m r)
    (wp_transaction (R := LockedBody I B) ?_ ?_ ?_) ?_ fun _ _ _ h => h
  · refine hpre (hs.begins m hm) hs.lockAccount fun _ m f hI => ?_
    refine hpre hI stable_record fun r m f hI => hpre hI (stable_requireMutable r) fun _ m f hI => ?_
    refine hpre hI (hs.quiet (ensureLocked_plain P a actor)) fun resolution m f hI => ?_
    split
    · exact hI
    · refine hpre hI (hs.quiet (saveSnapshot_plain P a _ _)) fun snapshot m f hI => ?_
      obtain ⟨hok, hnext⟩ := hs.inside m f (.policyGet a) trivial hI
      rw [Coro.wp_bind, wp_await]
      refine ⟨hok, fun r hr => ?_⟩
      cases r with
      | error e => exact .inl (hnext _ hr)
      | ok policy =>
        refine Coro.wp_seq (hb ⟨a, _, policy, snapshot⟩ m f hI hr) ?_ fun _ _ _ h => .inr h
        exact fun _ _ _ h => h
  · intro m' out f hR
    cases out with
    | none =>
      obtain ⟨hok, hnext⟩ := hs.commits m' f hR
      refine ⟨hok, fun r hr => ?_⟩
      cases r with
      | ok _ => exact hnext _ hr
      | error e => exact rollsBack_of (Q := LockedEnd J Q) hq (hs.rolls _ (hnext _ hr))
    | some x =>
      obtain ⟨hok, hnext⟩ := hc m' x f hR
      refine ⟨hok, fun r hr => ?_⟩
      have hthen := hnext r hr
      cases r with
      | ok _ => exact hthen
      | error e => exact hthen
  · rintro m' e f (hI | hB)
    · exact rollsBack_of (Q := LockedEnd J Q) hq (hs.abandons m' f hI)
    · exact ha m' e f hB
  · intro m' out _ h
    cases out with
    | none => exact hq m' _ h
    | some x => exact h

theorem lockedContext_stable :
    Stable M (Sessions.Idle J) (lockedContext P a actor : Action T Unit) :=
  locked_stable P actor hs fun _ => hs.await trivial

end Reads

theorem savePolicy_stable (policy : AccountPolicy) (expectedVersion : Int)
    (hsave : Stable M I (PolicyService.saveLocked a policy expectedVersion actor :
      Tx T PolicyService.SaveResult)) :
    Stable M (Sessions.Idle J)
      (PolicyService.save a policy expectedVersion actor : Action T VersionedPolicy) := by
  unfold PolicyService.save
  refine Stable.bind (hs.transaction hsave) fun result => ?_
  split
  · exact Stable.raise _
  · exact Stable.raise _
  · exact Stable.pure _

end Entries

end PlaceGame
