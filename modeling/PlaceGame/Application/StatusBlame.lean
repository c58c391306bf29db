import PlaceGame.Accounts.Outcomes
import PlaceGame.Scripts

/-!
# PlaceGame.Application.StatusBlame

When the status query blames the game contract.

A session cycle that finds no session stores an empty state, and the query takes every state that is
not one of a session for a changed contract. So the query answers without blaming the game exactly
when the cycle of the call established a session, or the call ended before its snapshot was stored.
-/

namespace PlaceGame

open Coop

/-- The transaction of the call was committed, and its cycle established no session. -/
def Cycle.Sessionless (m : Cycle) : Prop :=
  m.raised = none ∧ ∃ outcomes, m.log = [(outcomes, .committed)] ∧ .stored ∉ outcomes ∧
    .renewed ∉ outcomes

section Query

variable {T : Type} {P : Ports} {a : AccountId} {m : Cycle}

/-- How the transaction of a snapshot leaves its session. -/
def SnapshotBody (m : Cycle) : Except Exc AccountSnapshot → Frame → Prop
  | .ok snapshot, _ => m.row.isSome = true ∧ m.past = [] ∧ m.log = [] ∧ m.raised = none ∧
    Snapshots m snapshot
  | .error e, _ => m.log = [] ∧ (m.raised = some e ∨ m.row = none ∧ e = .accountNotFound)

theorem snapshotBody_outcome (actor : Actor) (h : m.Closed) (hlog : m.log = []) :
    (do
      AccountService.lockAccount a
      let resolution ← ensureLocked P a actor
      saveSnapshot P a resolution resolution.api.isSome : Tx T AccountSnapshot).wp
      (cycles T {}) (fun m' r f => SnapshotBody m' r f) m {} := by
  refine Coro.wp_seq (lockAccount_outcome h trivial) ?_ ?_
  · rintro m₁ _ f₁ ⟨r₀, rfl, rfl⟩
    have hworks : Works a r₀ { row := some (a, r₀), log := m.log } { loaded := some a, record := r₀ } :=
      ⟨rfl, by simp [Cycle.identity], rfl, rfl⟩
    refine Coro.wp_seq (ensureLocked_outcome actor hworks rfl rfl rfl rfl rfl rfl rfl) ?_ ?_
    · rintro m₂ resolution f₂ ⟨hs, hreply⟩
      refine Coro.wp_mono (saveSnapshot_outcome hs hreply) ?_
      rintro m₃ (e | snapshot) f₃ ⟨hst, hr⟩
      · exact ⟨hst.log.trans (hs.log.trans hlog), .inl hr⟩
      · refine ⟨?_, hst.past.trans hs.past, hst.log.trans (hs.log.trans hlog), hr.1, hr.2.1⟩
        rw [hst.row, hs.works.row]
        rfl
    · rintro m₂ e f₂ ⟨-, -, -, -, hl, -, hr⟩
      exact ⟨hl.trans hlog, .inl hr⟩
  · rintro m₁ e f₁ ⟨hrow, hl, hr⟩
    exact ⟨hl.trans hlog, hr.imp id fun hr => ⟨hrow, hr.2⟩⟩

def SnapshotEnds (m : Cycle) : Except Exc AccountSnapshot → Prop
  | .ok snapshot =>
    (∃ g idle, snapshot.state = snapshotState g idle ∧ m.reply = .identity g ∧ ¬ m.Sessionless) ∨
      snapshot.state = .obj [] ∧ m.Sessionless
  | .error e => ¬ m.Sessionless ∧ (m.raised = some e ∨ e = .accountNotFound)

/-- A call that rolled back committed nothing. -/
theorem rollsBack_outcome {m : Cycle} {e : Exc} (hlog : ∀ os, (os, .committed) ∉ m.log)
    (hr : m.raised = some e ∨ e = .accountNotFound) :
    RollsBack (cycles T {}) (fun m r (_ : Unit) => SnapshotEnds m r) m e () := by
  refine ⟨trivial, ?_⟩
  rintro (e' | _) -
  · refine ⟨fun hs => ?_, .inl rfl⟩
    cases hs.1
  · refine ⟨?_, hr⟩
    rintro ⟨-, os, hl, -⟩
    change (m.close .abandoned).log = _ at hl
    have hmem : (os, Ending.committed) ∈ (m.close .abandoned).log := by
      rw [hl]
      exact List.mem_singleton_self _
    rcases List.mem_append.mp hmem with hmem | hmem
    · exact hlog os hmem
    · cases hrow : m.row <;> simp [hrow] at hmem

theorem snapshot_outcome (actor : Actor) :
    (AccountService.snapshot P a actor : Action T AccountSnapshot).wp (cycles T {})
      (fun m r _ => SnapshotEnds m r) {} () := by
  unfold AccountService.snapshot
  refine wp_transaction (snapshotBody_outcome actor ⟨rfl, rfl, rfl⟩ rfl) ?_ ?_
  · rintro m snapshot f ⟨hrow, hpast, hlog, hraised, hsnap⟩
    refine ⟨trivial, ?_⟩
    obtain ⟨row, hrow⟩ := Option.isSome_iff_exists.mp hrow
    have hclose : ∀ ending, (m.close ending).log = [(m.outcome.toList, ending)] := by
      intro ending
      simp [Cycle.close, hlog, hrow, Cycle.outcomes, hpast]
    rintro (e | _) -
    · refine rollsBack_outcome ?_ (.inl rfl)
      intro os hmem
      change _ ∈ (m.close .unanswered).log at hmem
      rw [hclose] at hmem
      simp at hmem
    · rcases hsnap with ⟨g, idle, hstate, hreply, hout⟩ | ⟨hstate, hs, hn⟩
      · refine .inl ⟨g, idle, hstate, hreply, ?_⟩
        rintro ⟨-, os, hl, hstored, hrenewed⟩
        change (m.close .committed).log = _ at hl
        rw [hclose] at hl
        cases hl
        rcases hout with hout | hout <;> simp [hout] at hstored hrenewed
      · refine .inr ⟨hstate, hraised, _, hclose _, ?_, ?_⟩
        · simpa using hs
        · simpa using hn
  · rintro m e f ⟨hlog, hr⟩
    exact rollsBack_outcome (by simp [hlog]) (hr.imp id And.right)

/-- The identity is one that the game's schema lets pass. -/
def ValidIdentity (g : String) : Prop := 1 ≤ g.length ∧ g.length ≤ 128

structure Judged (m : Cycle) {α : Type} (r : Except Exc α) : Prop where
  blames : r = .error .gameContractChanged →
    m.Sessionless ∨ m.raised = some .gameContractChanged ∨
      ∃ g, m.reply = .identity g ∧ ¬ ValidIdentity g
  sessionless : m.Sessionless → r = .error .gameContractChanged

theorem get_outcome (actor : Actor) :
    (AccountStatusQuery.get P a actor : Action T AccountStatus).wp (cycles T {})
      (fun m r _ => Judged m r) {} () := by
  unfold AccountStatusQuery.get
  refine Coro.wp_seq (snapshot_outcome actor) ?_ ?_
  · rintro m snapshot _ (⟨g, idle, hstate, hreply, hs⟩ | ⟨hstate, hs⟩)
    · rw [hstate]
      by_cases hvalid : ValidIdentity g
      · rw [SnapshotState.modelValidate_snapshotState g idle hvalid]
        dsimp only
        unfold AccountService.get
        rw [Coro.wp_bind, Coro.wp_bind, wp_await]
        refine ⟨trivial, ?_⟩
        rintro (e | row) -
        · refine ⟨?_, fun h => ?_⟩
          · rintro ⟨⟩
            exact .inr (.inl rfl)
          · cases h.1
        · cases row with
          | none => exact ⟨nofun, fun h => absurd h hs⟩
          | some row => exact ⟨nofun, fun h => absurd h hs⟩
      · split
        · exact ⟨fun _ => .inr (.inr ⟨g, hreply, hvalid⟩), fun h => absurd h hs⟩
        · unfold AccountService.get
          rw [Coro.wp_bind, Coro.wp_bind, wp_await]
          refine ⟨trivial, ?_⟩
          rintro (e | row) -
          · exact ⟨fun _ => .inr (.inr ⟨g, hreply, hvalid⟩), fun h => absurd h.1 nofun⟩
          · cases row with
            | none => exact ⟨nofun, fun h => absurd h hs⟩
            | some row => exact ⟨nofun, fun h => absurd h hs⟩
    · rw [hstate, SnapshotState.modelValidate_empty]
      exact ⟨fun _ => .inl hs, fun _ => rfl⟩
  · rintro m e _ ⟨hs, hr⟩
    refine ⟨?_, fun h => absurd h hs⟩
    rintro ⟨⟩
    rcases hr with hr | hr
    · exact .inr (.inl hr)
    · cases hr

end Query

section Runs

variable {T : Type} {P : Ports} {c : Config (machine T P)} {t : TaskId} {U : Task (machine T P)}

/-- The bootstraps of the call pass the schema of the game's user, and the layers below raise no
error of the application. -/
structure SchemaValid (h : List (Event (sig T))) : Prop where
  identities : ∀ api g, (⟨.bootstrap api, .ok g⟩ : Event (sig T)) ∈ h → ValidIdentity g
  errors : ∀ o, (⟨o, .error .gameContractChanged⟩ : Event (sig T)) ∉ h

/-- The answer for an account without a session. -/
def ReportsUnauthenticated : Except Exc (Returned T) → Prop
  | .ok (.status status) =>
    status.account.authState =
      if status.account.pausedReason = some "authentication_required" then .required else .unknown
  | .ok _ => False
  | .error e => e.isAccountError = true

/-- The call does not blame the game, and says so when it has no session. -/
structure Blameless (m : Cycle) (r : Except Exc (Returned T)) : Prop where
  contract : r ≠ .error .gameContractChanged
  reports : m.Sessionless → ReportsUnauthenticated r

def StatusEnds (call : Call) (m : Cycle) (r : Except Exc (Returned T)) : Prop :=
  match call with
  | .accountStatus _ _ => Judged m r
  | _ => True

theorem watched_cycles :
    Reachable.Watched (machine T P) (fun _ => cycles T {}) StatusEnds where
  prog call := by
    by_cases hcall : ∃ a actor, call = .accountStatus a actor
    · obtain ⟨a, actor, rfl⟩ := hcall
      refine Coro.wp_toProc.mpr (Coro.wp_seq (get_outcome actor) ?_ ?_)
      · exact fun m status _ hj => ⟨nofun, fun hs => by cases hj.sessionless hs⟩
      · intro m e _ hj
        refine ⟨fun he => hj.blames ?_, fun hs => ?_⟩
        · cases he
          rfl
        · cases hj.sessionless hs
          rfl
    · refine Proc.wp_mono (wp_cycles_any _ _) fun m r _ => ?_
      unfold StatusEnds
      split
      · exact absurd ⟨_, _, rfl⟩ hcall
      · trivial
  ans _ _ _ _ _ _ hw _ := cycle_answers hw

/-- The query blames the game contract exactly for the accounts that it found without a session. -/
theorem status_blames_contract_iff {w : World} (h : Reachable (.start w) c)
    (ht : c.task t = some U) {a : AccountId} {actor : Actor}
    (hcall : U.call = .accountStatus a actor) {r : Except Exc (Returned T)}
    (hret : U.prog = .ret r) (hgame : SchemaValid U.hist) :
    Blameless (cycleOf U) r ↔ ¬ (cycleOf U).Sessionless := by
  have hend : StatusEnds U.call (cycleOf U) r := by
    have := (Reachable.follows watched_cycles h t U ht).wp
    rw [hret] at this
    exact this
  rw [hcall] at hend
  obtain ⟨hraised, hreply⟩ := Cycle.origin (C := {}) U.hist
  constructor
  · exact fun hb hs => hb.contract (hend.sessionless hs)
  · intro hs
    refine ⟨fun hr => ?_, fun h => absurd h hs⟩
    rcases hend.blames hr with h | h | ⟨g, hg, hinvalid⟩
    · exact hs h
    · obtain ⟨o, hmem⟩ := hraised _ h
      exact hgame.errors o hmem
    · obtain ⟨api, hmem⟩ := hreply g hg
      exact hinvalid (hgame.identities api g hmem)

end Runs

section StatusRuns

/-- The event is one that the schema of the game lets pass. -/
def schemaOk {T : Type} : Event (sig T) → Bool
  | ⟨.bootstrap _, .ok g⟩ => decide (1 ≤ g.length) && decide (g.length ≤ 128)
  | ⟨_, .error e⟩ => e != .gameContractChanged
  | ⟨_, .ok _⟩ => true

theorem schemaValid_of_all {T : Type} {h : List (Event (sig T))} (hall : h.all schemaOk = true) :
    SchemaValid h := by
  rw [List.all_eq_true] at hall
  constructor
  · intro api g hmem
    simpa [schemaOk, ValidIdentity] using hall _ hmem
  · intro o hmem
    have := hall _ hmem
    cases o <;> simp [schemaOk] at this

def statusPorts : Ports where
  tokenExpiry _ := none
  sha256 text := ((("\x7b\x7d",
    "44136fa355b3678a1146ad16f7e8649e94fb4fc21fe77e8310c060f61caaff8a") :: digests).lookup text).getD ""

def statusEnrolled : Config (machine Unit statusPorts) :=
  run (.start {}) 0 (.addTokenOnly "main" "tok" operator) friendlyGame 10

/-- The status of an account that may be used. -/
def statusAnswered : Config (machine Unit statusPorts) :=
  run statusEnrolled 1 (.accountStatus 0 operator) friendlyGame 20

/-- The status of an account that the operator has paused. -/
def statusBlamed : Config (machine Unit statusPorts) :=
  run (run statusEnrolled 1 (.pause 0 "maintenance" operator) friendlyGame 10) 2
    (.accountStatus 0 operator) friendlyGame 20

theorem reachable_statusAnswered : Reachable (.start {}) statusAnswered :=
  (reachable_run ..).trans (reachable_run ..)

theorem reachable_statusBlamed : Reachable (.start {}) statusBlamed :=
  ((reachable_run ..).trans (reachable_run ..)).trans (reachable_run ..)

/-- The call of the task has raised `e`. -/
def raisedBy (U : Task (machine Unit statusPorts)) (e : Exc) : Bool :=
  match U.prog with
  | .ret (.error e') => e' == e
  | _ => false

theorem status_runs_end : (statusBlamed.task 2).any (fun U =>
      U.hist.all schemaOk && raisedBy U .gameContractChanged) = true ∧
    returned statusAnswered 1 = true ∧ (statusAnswered.task 1).any (fun U =>
      U.hist.all schemaOk && (cycleOf U).log == [([.stored], .committed)]) = true := by
  decide +kernel

theorem statusBlamed_raises : ∃ U, statusBlamed.task 2 = some U ∧
    U.call = .accountStatus 0 operator ∧ U.prog = .ret (.error .gameContractChanged) ∧
    SchemaValid U.hist := by
  obtain ⟨U, hU, h⟩ := (Option.any_eq_true ..).mp status_runs_end.1
  obtain ⟨hvalid, hraised⟩ := Bool.and_eq_true_iff.mp h
  refine ⟨U, hU, call_of_new ?_ hU, ?_, schemaValid_of_all hvalid⟩
  · rw [run_task_ne (by decide), statusEnrolled, run_task_ne (by decide)]
    rfl
  · unfold raisedBy at hraised
    split at hraised
    · rename_i e' hp
      rw [hp, eq_of_beq hraised]
    · cases hraised

/-- The query blames the game for an account that the operator has paused. -/
theorem paused_account_blames_contract :
    ¬ ∀ (c : Config (machine Unit statusPorts)) (t : TaskId) (U : Task (machine Unit statusPorts))
      (a : AccountId) (actor : Actor) (r : Except Exc (Returned Unit)),
      Reachable (.start {}) c → c.task t = some U → U.call = .accountStatus a actor →
      U.prog = .ret r → SchemaValid U.hist → Blameless (cycleOf U) r := by
  intro hall
  obtain ⟨U, hU, hcall, hret, hvalid⟩ := statusBlamed_raises
  exact (hall _ _ _ _ _ _ reachable_statusBlamed hU hcall hret hvalid).contract rfl

theorem status_blames_contract_iff_answered :
    ∃ (U : Task (machine Unit statusPorts)) (r : Except Exc (Returned Unit)),
      statusAnswered.task 1 = some U ∧ Blameless (cycleOf U) r := by
  obtain ⟨U, hU, h⟩ := (Option.any_eq_true ..).mp status_runs_end.2.2
  obtain ⟨hvalid, hlog⟩ := Bool.and_eq_true_iff.mp h
  obtain ⟨V, x, hV, hret⟩ := exists_of_returned status_runs_end.2.1
  rw [hU] at hV
  cases hV
  have hcall : U.call = .accountStatus 0 operator := by
    refine call_of_new ?_ hU
    rw [statusEnrolled, run_task_ne (by decide)]
    rfl
  refine ⟨U, .ok x, hU, (status_blames_contract_iff reachable_statusAnswered hU hcall hret
    (schemaValid_of_all hvalid)).mpr ?_⟩
  rintro ⟨-, outcomes, hl, hstored, -⟩
  rw [eq_of_beq hlog] at hl
  cases hl
  exact hstored List.mem_cons_self

end StatusRuns

end PlaceGame
