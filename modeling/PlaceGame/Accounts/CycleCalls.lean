import PlaceGame.Accounts.Mutations
import PlaceGame.Accounts.Outcomes
import PlaceGame.System

/-!
# PlaceGame.Accounts.CycleCalls

The calls that run session cycles, under the monitor of cycles.

`Tracks` says that the record of a session stands where the outcomes of the transaction have brought
it. Every call keeps it to its commit, so what a call writes is what its cycles came to.
-/

namespace PlaceGame

open Coop AccountService
open GameAccount (Standing)

def Outcome.Success : Outcome → Prop
  | .stored | .renewed => True
  | _ => False

/-- The record stands where the outcomes of the transaction brought it. -/
structure Tracks (a : AccountId) (r₀ : GameAccount) (m : Cycle) (f : Frame) : Prop
    extends Works a r₀ m f where
  standing : r₀.authMode = .credentials →
    f.record.standing = m.outcomes.foldl Standing.after r₀.standing

/-- What the calls of session cycles are allowed: they work on one account, go on only after a
success, and write what their cycles came to. -/
def sessionRules (a : AccountId) : Allowed where
  select m a' := a' = a ∧ ∀ o ∈ m.outcomes, o.Success
  commit m ws :=
    (m.row.isSome = true → ws.account.isSome = true) ∧
    ∀ a' r', ws.account = some (a', r') → ∃ r₀, m.row = some (a', r₀) ∧
      (r₀.authMode = .credentials → r'.standing = m.outcomes.foldl Standing.after r₀.standing)

/-- What `resume` is allowed: it works on one account, and clears why it is paused. -/
def resumeRules (a : AccountId) : Allowed where
  select m a' := a' = a ∧ ∀ o ∈ m.outcomes, o.Success
  commit m ws :=
    (m.row.isSome = true → ws.account.isSome = true) ∧
    ∀ a' r', ws.account = some (a', r') → ∃ r₀, m.row = some (a', r₀) ∧
      r'.standing = r₀.standing.after .resumed

section Tracks

variable {T α : Type} {P : Ports} {a : AccountId} {r₀ : GameAccount} {m m' : Cycle} {f f' : Frame}

theorem Tracks.commits (h : Tracks a r₀ m f) : (sessionRules a).commit m f.writes := by
  have haccount : f.writes.account = some (a, f.record) := by
    simp [Frame.writes, h.loaded]
  refine ⟨fun _ => by rw [haccount]; rfl, ?_⟩
  rintro a' r' hw
  rw [haccount] at hw
  cases hw
  exact ⟨r₀, h.row, h.standing⟩

theorem Tracks.opened {log : List (List Outcome × Ending)} (a : AccountId) (r₀ : GameAccount) :
    Tracks a r₀ { row := some (a, r₀), log := log } { loaded := some a, record := r₀ } where
  row := rfl
  identity := by simp [Cycle.identity]
  loaded := rfl
  authMode := rfl
  standing _ := by simp [Cycle.outcomes, Cycle.outcome, Cycle.established]

theorem Tracks.settled {found : Bool} (h : Tracks a r₀ m f) (hout : m.outcome = none)
    (hs : Settled a r₀ m f found m' f') : Tracks a r₀ m' f' where
  toWorks := hs.works
  standing hcred := by
    rw [hs.standing (.inr hcred), h.standing hcred, Cycle.outcomes, Cycle.outcomes, hs.past, hout]
    cases m'.outcome with
    | none => rfl
    | some o => simp

/-- What leaves the outcomes alone keeps the record where it stands. -/
theorem Tracks.same (h : Tracks a r₀ m f) (hrow : m'.row = m.row) (hbound : m'.bound = m.bound)
    (hout : m'.outcomes = m.outcomes) (hid : f'.record.gameAccountId = f.record.gameAccountId)
    (hload : f'.loaded = f.loaded) (hstand : f'.record.standing = f.record.standing) :
    Tracks a r₀ m' f' where
  row := hrow.trans h.row
  identity := by rw [hid, h.identity, Cycle.identity, Cycle.identity, hbound]
  loaded := hload.trans h.loaded
  authMode := (congrArg Standing.authMode hstand).trans h.authMode
  standing hcred := by rw [hstand, h.standing hcred, hout]

theorem Tracks.stands (h : Tracks a r₀ m f) (hs : Stands m m' f f') : Tracks a r₀ m' f' :=
  h.same hs.row hs.bound (by rw [Cycle.outcomes, Cycle.outcomes, hs.past, hs.outcome])
    (by rw [hs.record]) hs.loaded (by rw [hs.record])

end Tracks

section Calls

variable {T α : Type} {P : Ports} {a : AccountId} {r₀ : GameAccount} {m : Cycle} {f : Frame}

def Committable (C : Allowed) (m : Cycle) (r : Except Exc α) (f : Frame) : Prop :=
  ∀ x, r = .ok x → C.commit m f.writes

theorem transaction_cycles {C : Allowed} {body : Tx T α} {s : Unit}
    (h : body.wp (cycles T C) (fun m r f => Committable C m r f) m {}) :
    (transaction body).wp (cycles T C) (fun _ _ _ => True) m s := by
  refine wp_transaction h ?_ ?_
  · intro m' x f hc
    refine ⟨hc x rfl, fun r _ => ?_⟩
    cases r with
    | ok _ => trivial
    | error e => exact ⟨trivial, fun r _ => by cases r <;> trivial⟩
  · exact fun m' e f _ => ⟨trivial, fun r _ => by cases r <;> trivial⟩

theorem committable_error {C : Allowed} (e : Exc) : Committable C m (.error e : Except Exc α) f :=
  nofun

theorem Tracks.committable (h : Tracks a r₀ m f) (r : Except Exc α) :
    Committable (sessionRules a) m r f :=
  fun _ _ => h.commits

/-- The account is locked, and the cycle has not begun. -/
theorem locked_cycles {g : Unit → Tx T α}
    (hg : ∀ r₀, (g ()).wp (cycles T (sessionRules a)) (fun m r f => Committable (sessionRules a) m r f)
      { row := some (a, r₀) } { loaded := some a, record := r₀ }) :
    (lockAccount a >>= g).wp (cycles T (sessionRules a))
      (fun m r f => Committable (sessionRules a) m r f) {} {} := by
  refine Coro.wp_seq (lockAccount_outcome ⟨rfl, rfl, rfl⟩ ⟨rfl, nofun⟩) ?_ fun _ e _ _ =>
    committable_error e
  rintro m' _ f' ⟨r₀, rfl, rfl⟩
  exact hg r₀

/-- A cycle on the locked account: what follows finds the record where the outcome brought it. -/
theorem ensureLocked_cycles {actor : Actor} {g : SessionResolution → Tx T α}
    (hg : ∀ m' resolution f', Tracks a r₀ m' f' →
      Settled a r₀ { row := some (a, r₀) } { loaded := some a, record := r₀ }
        resolution.api.isSome m' f' →
      (∀ api i, resolution.api = some (api, i) → m'.reply = .identity i) →
      (g resolution).wp (cycles T (sessionRules a))
        (fun m r f => Committable (sessionRules a) m r f) m' f') :
    (ensureLocked P a actor >>= g).wp (cycles T (sessionRules a))
      (fun m r f => Committable (sessionRules a) m r f) { row := some (a, r₀) }
      { loaded := some a, record := r₀ } := by
  have ht : Tracks a r₀ { row := some (a, r₀) } { loaded := some a, record := r₀ } := .opened a r₀
  refine Coro.wp_seq (ensureLocked_outcome actor ht.toWorks rfl rfl rfl rfl rfl rfl rfl) ?_ fun _ e _ _ =>
    committable_error e
  rintro m' resolution f' ⟨hs, hreply⟩
  refine hg m' resolution f' (ht.settled ?_ hs) hs hreply
  simp [Cycle.outcome, Cycle.established]

theorem ensureSession_cycles (actor : Actor) :
    (ensureSession P a actor : Action T SessionState).wp (cycles T (sessionRules a))
      (fun _ _ _ => True) {} () :=
  transaction_cycles (locked_cycles fun _ => ensureLocked_cycles fun _ _ _ ht _ _ => ht.committable _)

theorem snapshot_cycles (actor : Actor) :
    (snapshot P a actor : Action T AccountSnapshot).wp (cycles T (sessionRules a))
      (fun _ _ _ => True) {} () := by
  refine transaction_cycles (locked_cycles fun _ => ensureLocked_cycles fun m resolution f ht hs hr => ?_)
  refine Coro.wp_mono (saveSnapshot_outcome hs hr) ?_
  rintro m' r f' ⟨hst, -⟩
  exact (ht.stands hst).committable r

theorem checks_committable {C : Allowed} {c : Tx T Unit} {p : Unit → Prop} {g : Unit → Tx T α}
    (hc : Checks (cycles T C) c p)
    (hg : p () → (g ()).wp (cycles T C) (fun m r f => Committable C m r f) m f) :
    (c >>= g).wp (cycles T C) (fun m r f => Committable C m r f) m f :=
  hc.seq (fun e => committable_error e) fun _ hp => hg hp

theorem lockedContext_cycles (actor : Actor) :
    (lockedContext P a actor : Action T Unit).wp (cycles T (sessionRules a))
      (fun _ _ _ => True) {} () := by
  unfold lockedContext AccountService.locked
  refine Coro.wp_seq (R := fun _ _ _ => True) (transaction_cycles (locked_cycles fun r₀ => ?_)) ?_ fun _ _ _ _ => trivial
  · rw [Coro.wp_bind, wp_record, Coro.chain_ok]
    refine checks_committable (checks_requireMutable _) fun _ => ?_
    refine ensureLocked_cycles fun m resolution f ht hs hr => ?_
    cases hapi : resolution.api with
    | none => exact ht.committable _
    | some session =>
      have hsave := saveSnapshot_outcome (T := T) (P := P) (C := sessionRules a) hs hr
      rw [hapi] at hsave
      refine Coro.wp_seq hsave ?_ fun _ e _ _ => committable_error e
      rintro m' snapshot f' ⟨hst, -⟩
      have ht' := ht.stands hst
      rw [Coro.wp_bind, wp_await]
      refine ⟨trivial, ?_⟩
      rintro (e | policy) -
      · exact committable_error e
      rw [Coro.chain_ok, Coro.wp_bind, wp_await]
      refine ⟨trivial, ?_⟩
      rintro (e | _) -
      · exact committable_error e
      · exact ht'.committable _
  · intro _ outcome _ _
    cases outcome <;> trivial

theorem resume_cycles (actor : Actor) :
    (resume a actor : Action T Unit).wp (cycles T (resumeRules a)) (fun _ _ _ => True) {} () := by
  refine transaction_cycles (Coro.wp_seq (lockAccount_outcome ⟨rfl, rfl, rfl⟩ ⟨rfl, nofun⟩) ?_
    fun _ e _ _ => committable_error e)
  rintro m _ f ⟨r₀, rfl, rfl⟩
  unfold rejectRemoved
  rw [Coro.wp_bind, wp_record, Coro.chain_ok]
  refine checks_committable (checks_raiseIf _ _) fun _ => ?_
  refine checks_committable (checks_raiseIf _ _) fun _ => ?_
  rintro _ _
  refine ⟨fun _ => rfl, ?_⟩
  rintro a' r' ⟨⟩
  exact ⟨r₀, rfl, rfl⟩

end Calls

end PlaceGame
