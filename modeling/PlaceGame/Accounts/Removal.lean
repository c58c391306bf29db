import PlaceGame.Accounts.Readings
import PlaceGame.Accounts.Safety
import PlaceGame.Scripts

/-!
# PlaceGame.Accounts.Removal

Removal over all runs: a tombstone is wiped, and a removal marker is never taken back.

Both rest on the fourteen operations that write an account row: all but removal leave a marked row
alone. `pause` can write the text of the finished marker as an operator's reason, which is why the
results on finished removals speak about runs without such a pause.
-/

namespace PlaceGame

open Coop

def World.TombstonesWiped (w : World) : Prop :=
  ∀ a r, w.accounts.get a = some r → r.Removed → r.Wiped

variable {T : Type} {P : Ports} {w : World} {c c' : Config (machine T P)}

/-- No pause of the run has a reason that strips to the marker of a finished removal. -/
def NoFalseTombstone (c : Config (machine T P)) : Prop :=
  ∀ t U, c.task t = some U → ¬ U.call.FalseTombstone

theorem NoFalseTombstone.before (h : NoFalseTombstone c') (hst : Step c c') :
    NoFalseTombstone c := by
  intro t U hU hf
  obtain ⟨U', hU', hcall⟩ := task_stays hst hU
  exact h t U' hU' (hcall ▸ hf)

section Rows

variable {call : Call} {a : AccountId} {r₀ r : GameAccount}

theorem change_cases (h : Local.Change call a r₀ r) :
    (∃ actor, call = .disableDrainRemove a actor ∧
      ((r₀.Removed ∧ r = r₀) ∨ (¬ r₀.Removed ∧ r = r₀.beginRemoval) ∨ r = r₀.wipe)) ∨
      GameAccount.Evolves call.FalseTombstone r₀ r := by
  unfold Local.Change at h
  split at h
  · obtain ⟨rfl, h⟩ := h
    exact .inl ⟨_, rfl, h⟩
  · exact .inr h

theorem change_marked (h : Local.Change call a r₀ r) (hm : r₀.Marked) : r.Marked := by
  rcases change_cases h with ⟨-, -, ⟨-, rfl⟩ | ⟨-, rfl⟩ | rfl⟩ | he
  · exact hm
  · exact .inr rfl
  · exact .inl rfl
  · exact (GameAccount.marked_of_guarded (he.marked hm)).mpr hm

theorem change_removed (h : Local.Change call a r₀ r) (hm : r₀.Removed) : r.Removed := by
  rcases change_cases h with ⟨-, -, ⟨-, rfl⟩ | ⟨hn, -⟩ | rfl⟩ | he
  · exact hm
  · exact absurd hm hn
  · exact rfl
  · exact (GameAccount.removed_of_guarded (he.marked hm.marked)).mpr hm

theorem change_wiped (h : Local.Change call a r₀ r) (hf : ¬ call.FalseTombstone)
    (hw : r₀.Removed → r₀.Wiped) (hr : r.Removed) : r.Wiped := by
  rcases change_cases h with ⟨-, -, ⟨-, rfl⟩ | ⟨-, rfl⟩ | rfl⟩ | he
  · exact hw hr
  · simp [GameAccount.Removed, GameAccount.beginRemoval] at hr
  · exact GameAccount.wiped_wipe r₀
  · rcases he.removed hr with h0 | h0
    · exact GameAccount.wiped_of_guarded (he.marked h0.marked) (hw h0)
    · exact absurd h0 hf

end Rows

section Steps

/-- A row stays in its table, and a marked row stays marked. -/
theorem marked_step (hw : w.Sound) (h : Reachable (.start w) c) (hst : Step c c')
    {a : AccountId} {r : GameAccount} (hget : c.world.accounts.get a = some r) (hm : r.Marked) :
    ∃ r', c'.world.accounts.get a = some r' ∧ r'.Marked := by
  rcases row_step hw h hst a with hsame | ⟨r', hget', hedit⟩
  · exact ⟨r, hsame.trans hget, hm⟩
  · refine ⟨r', hget', ?_⟩
    cases hedit with
    | changed commit writes found identity change token =>
      cases found.symm.trans hget
      exact change_marked change hm
    | enrolled commit writes found =>
      rw [hget] at found
      cases found

theorem removed_step (hw : w.Sound) (h : Reachable (.start w) c) (hst : Step c c')
    {a : AccountId} {r : GameAccount} (hget : c.world.accounts.get a = some r) (hm : r.Removed) :
    ∃ r', c'.world.accounts.get a = some r' ∧ r'.Removed := by
  rcases row_step hw h hst a with hsame | ⟨r', hget', hedit⟩
  · exact ⟨r, hsame.trans hget, hm⟩
  · refine ⟨r', hget', ?_⟩
    cases hedit with
    | changed commit writes found identity change token =>
      cases found.symm.trans hget
      exact change_removed change hm
    | enrolled commit writes found =>
      rw [hget] at found
      cases found

/-- Only a removal writes the guarded columns of a marked row. -/
theorem guarded_step (hw : w.Sound) (h : Reachable (.start w) c) (hst : Step c c')
    {a : AccountId} {r : GameAccount} (hget : c.world.accounts.get a = some r) (hm : r.Marked) :
    ∃ r', c'.world.accounts.get a = some r' ∧
      (r'.guarded = r.guarded ∨ ∃ t U ws actor, Committing c c' t U ws ∧
        U.call = .disableDrainRemove a actor) := by
  rcases row_step hw h hst a with hsame | ⟨r', hget', hedit⟩
  · exact ⟨r, hsame.trans hget, .inl rfl⟩
  · refine ⟨r', hget', ?_⟩
    cases hedit with
    | @changed t U ws r₀ commit writes found identity change token =>
      cases found.symm.trans hget
      rcases change_cases change with ⟨actor, hcall, -⟩ | he
      · exact .inr ⟨t, U, ws, actor, commit, hcall⟩
      · exact .inl (he.marked hm)
    | enrolled commit writes found =>
      rw [hget] at found
      cases found

theorem wiped_step (hw : w.Sound) (h : Reachable (.start w) c) (hst : Step c c')
    (hn : NoFalseTombstone c') (ht : c.world.TombstonesWiped) : c'.world.TombstonesWiped := by
  intro a r hget hr
  rcases row_step hw h hst a with hsame | ⟨r', hget', hedit⟩
  · exact ht a r (hsame.symm.trans hget) hr
  · cases hget'.symm.trans hget
    cases hedit with
    | @changed t U ws r₀ commit writes found identity change token =>
      exact change_wiped change (hn.before hst t U commit.task) (ht a r₀ found) hr
    | enrolled commit writes found row token =>
      rw [GameAccount.Removed, row.active] at hr
      cases hr

end Steps

section Runs

theorem tombstones_of_reachable (hw : w.Sound) (ht : w.TombstonesWiped)
    (h : Reachable (.start w) c) (hn : NoFalseTombstone c) : c.world.TombstonesWiped := by
  refine Reachable.invariant h (fun c => NoFalseTombstone c → c.world.TombstonesWiped)
    (fun _ => ht) ?_ hn
  intro c c' hr ih hst hn
  exact wiped_step hw hr hst hn (ih (hn.before hst))

theorem marked_of_reachable (hw : w.Sound) (h : Reachable (.start w) c) (h' : Reachable c c')
    {a : AccountId} {r : GameAccount} (hget : c.world.accounts.get a = some r) (hm : r.Marked) :
    ∃ r', c'.world.accounts.get a = some r' ∧ r'.Marked := by
  refine Reachable.invariant h' (fun c => ∃ r', c.world.accounts.get a = some r' ∧ r'.Marked)
    ⟨r, hget, hm⟩ ?_
  rintro c c' hr ⟨r, hget, hm⟩ hst
  exact marked_step hw (h.trans hr) hst hget hm

theorem removed_of_reachable (hw : w.Sound) (h : Reachable (.start w) c) (h' : Reachable c c')
    {a : AccountId} {r : GameAccount} (hget : c.world.accounts.get a = some r) (hm : r.Removed) :
    ∃ r', c'.world.accounts.get a = some r' ∧ r'.Removed := by
  refine Reachable.invariant h' (fun c => ∃ r', c.world.accounts.get a = some r' ∧ r'.Removed)
    ⟨r, hget, hm⟩ ?_
  rintro c c' hr ⟨r, hget, hm⟩ hst
  exact removed_step hw (h.trans hr) hst hget hm

theorem removed_of_commit (hw : w.Sound) (h : Reachable (.start w) c) :
    ∀ t U, c.task t = some U → ∀ ws a row, ⟨.commit ws, .ok ()⟩ ∈ U.hist →
      ws.account = some (a, row) → row.Removed →
      ∃ r, c.world.accounts.get a = some r ∧ r.Removed := by
  refine Reachable.invariant h (fun c => ∀ t U, c.task t = some U → ∀ ws a row,
    ⟨.commit ws, .ok ()⟩ ∈ U.hist → ws.account = some (a, row) → row.Removed →
      ∃ r, c.world.accounts.get a = some r ∧ r.Removed) ?_ ?_
  · intro t U hU
    cases hU
  · intro c c' hr ih hst
    -- what was committed before stays removed
    have hold : ∀ t U, c.task t = some U → ∀ ws a row, ⟨.commit ws, .ok ()⟩ ∈ U.hist →
        ws.account = some (a, row) → row.Removed →
        ∃ r, c'.world.accounts.get a = some r ∧ r.Removed := by
      intro t U hU ws a row he hws hrow
      obtain ⟨r, hget, hrem⟩ := ih t U hU ws a row he hws hrow
      exact removed_step hw hr hst hget hrem
    cases hst with
    | spawn u call hu =>
      intro t U hU ws a row he
      rw [Config.setTask_task] at hU
      split at hU
      · cases hU
        cases he
      · exact hold t U hU ws a row he
    | @exec u V o k r w' hu ha hp hw' =>
      intro t U hU ws a row he hws hrow
      rw [Config.setTask_task] at hU
      split at hU
      · cases hU
        rcases List.mem_cons.mp he with heq | he
        · cases heq
          cases World.Perform.committed hw' rfl
          rcases World.get_apply_accounts c.world ws a with ⟨-, hnone⟩ | ⟨row', hrow', hget⟩
          · exact absurd hws (hnone row)
          · cases hws.symm.trans hrow'
            exact ⟨row, hget, hrow⟩
        · exact hold u V hu ws a row he hws hrow
      · exact hold t U hU ws a row he hws hrow
    | @crash u V hu ha =>
      intro t U hU ws a row he
      rw [Config.setTask_task] at hU
      split at hU
      · cases hU
        exact hold u V hu ws a row he
      · exact hold t U hU ws a row he
    | env _ => exact hold

theorem removed_of_return (hw : w.Sound) (h : Reachable (.start w) c) {t : TaskId}
    {U : Task (machine T P)} (hU : c.task t = some U) {a : AccountId} {actor : Actor}
    (hcall : U.call = .disableDrainRemove a actor) {x : Returned T}
    (hret : U.prog = .ret (.ok x)) : ∃ r, c.world.accounts.get a = some r ∧ r.Removed := by
  have hdone : U.call.Done (seen U) (.ok x) := by
    have := (Reachable.follows (M := watch T P) watched h t U hU).wp
    rw [hret] at this
    exact this
  rw [hcall] at hdone
  obtain ⟨row, hmem, hrow⟩ := hdone x rfl
  obtain ⟨ws, hws, he⟩ := (readings P U.call U.hist).committed a row hmem
  exact removed_of_commit hw h t U hU ws a row he hws hrow

/-- In every run in which no pause reads like a tombstone, tombstones are wiped, and so is every
account whose removal returned. -/
theorem tombstone_is_wiped (hw : w.Sound) (ht : w.TombstonesWiped) (h : Reachable (.start w) c)
    (hn : NoFalseTombstone c) :
    c.world.TombstonesWiped ∧ ∀ t U a actor x, c.task t = some U →
      U.call = .disableDrainRemove a actor → U.prog = .ret (.ok x) →
      ∃ r, c.world.accounts.get a = some r ∧ r.Removed ∧ r.Wiped := by
  have hwiped := tombstones_of_reachable hw ht h hn
  refine ⟨hwiped, ?_⟩
  intro t U a actor x hU hcall hret
  obtain ⟨r, hget, hr⟩ := removed_of_return hw h hU hcall hret
  exact ⟨r, hget, hr, hwiped a r hget hr⟩

end Runs

section TombstoneRuns

def enrolledRun : Config (machine Unit samplePorts) :=
  run (.start {}) 0 (.addTokenOnly "main" "tok" operator) friendlyGame 10

/-- The operator pauses the account for a reason that reads like a tombstone. -/
def forgedRun : Config (machine Unit samplePorts) :=
  run enrolledRun 1 (.pause 0 " removed" operator) friendlyGame 10

def removedRun : Config (machine Unit samplePorts) :=
  run enrolledRun 1 (.disableDrainRemove 0 operator) friendlyGame 20

theorem reachable_enrolledRun : Reachable (.start {}) enrolledRun := reachable_run ..

theorem tombstonesWiped_empty : ({} : World).TombstonesWiped := by
  intro a r h
  cases h

theorem noFalseTombstone_removedRun : NoFalseTombstone removedRun := by
  intro t U hU hf
  rcases call_of_run hU with hcall | ⟨V, hV, hcall⟩
  · rw [hcall] at hf
    exact hf
  · rcases call_of_run hV with hcall' | ⟨W, hW, -⟩
    · rw [← hcall, hcall'] at hf
      exact hf
    · cases hW

theorem reachable_removedRun : Reachable (.start {}) removedRun :=
  reachable_enrolledRun.trans (reachable_run ..)

theorem tombstone_runs_end : returned removedRun 1 = true ∧
    (forgedRun.world.accounts.get 0).any (fun r =>
      r.pausedReason == some "removed" && r.sessionToken == some "tok") = true := by decide +kernel

theorem returned_removedRun : ∃ U x, removedRun.task 1 = some U ∧
    U.call = .disableDrainRemove 0 operator ∧ U.prog = .ret (.ok x) := by
  obtain ⟨U, x, hU, hret⟩ := exists_of_returned tombstone_runs_end.1
  refine ⟨U, x, hU, ?_, hret⟩
  rcases call_of_run hU with hcall | ⟨V, hV, -⟩
  · exact hcall
  · cases hV

/-- The forged tombstone still has its session token. -/
theorem forged_tombstone_keeps_token :
    ¬ ∀ c : Config (machine Unit samplePorts), Reachable (.start {}) c →
      c.world.TombstonesWiped := by
  intro hall
  have hrun := hall forgedRun (reachable_enrolledRun.trans (reachable_run ..))
  obtain ⟨r, hget, hr⟩ := (Option.any_eq_true ..).mp tombstone_runs_end.2
  simp only [Bool.and_eq_true, beq_iff_eq] at hr
  have := (hrun 0 r hget hr.1).sessionToken
  rw [hr.2] at this
  cases this

theorem tombstone_is_wiped_after_removal :
    ∃ r, removedRun.world.accounts.get 0 = some r ∧ r.Removed ∧ r.Wiped := by
  obtain ⟨U, x, hU, hcall, hret⟩ := returned_removedRun
  exact (tombstone_is_wiped World.sound_empty tombstonesWiped_empty reachable_removedRun
    noFalseTombstone_removedRun).2 1 U 0 operator x hU hcall hret

end TombstoneRuns

section Runs

/-- A marked account is never handed to a mutating request. -/
theorem no_send_on_marked (hw : w.Sound) (h : Reachable (.start w) c) {a : AccountId}
    {r : GameAccount} (hget : c.world.accounts.get a = some r) (hm : r.Marked) {t : TaskId}
    {o : Op T} (ho : c.awaits t = some o) :
    (∀ p api, o ≠ .operation a p api) ∧ ∀ p api, o ≠ .idleCollect a p api := by
  obtain ⟨U, hU, ha, hp⟩ := Config.awaits_eq ho
  have hok := allowed_pending h hU hp
  have hmatches := (safe_of_reachable hw h).matches_ t U hU ha
  have hadmitted : ¬ (seen U).Admitted a := by
    rintro ⟨r₀, hrow, -, hpaused⟩
    cases (hmatches.row a r₀ hrow).2.symm.trans hget
    rcases hm with hm | hm <;> rw [hpaused] at hm <;> cases hm
  constructor
  · rintro p api rfl
    exact hadmitted hok.2.1
  · rintro p api rfl
    exact hadmitted hok.2.1

/-- A removal marker stays: only removals write the guarded columns of the account from then on, and
no mutating request is started on it. A removal that returned leaves a wiped tombstone for ever,
in every run in which no pause reads like a tombstone. -/
theorem removal_is_irreversible (hw : w.Sound) (ht : w.TombstonesWiped)
    (h : Reachable (.start w) c) :
    (∀ a r, c.world.accounts.get a = some r → r.Marked → ∀ c', Reachable c c' →
      ∃ r', c'.world.accounts.get a = some r' ∧ r'.Marked ∧
        (∀ t o, c'.awaits t = some o →
          (∀ p api, o ≠ .operation a p api) ∧ ∀ p api, o ≠ .idleCollect a p api) ∧
        ∀ c'', Step c' c'' → ∃ r'', c''.world.accounts.get a = some r'' ∧
          (r''.guarded = r'.guarded ∨ ∃ t U ws actor, Committing c' c'' t U ws ∧
            U.call = .disableDrainRemove a actor)) ∧
    ∀ t U a actor x, c.task t = some U → U.call = .disableDrainRemove a actor →
      U.prog = .ret (.ok x) → ∀ c', Reachable c c' → NoFalseTombstone c' →
        ∃ r, c'.world.accounts.get a = some r ∧ r.Removed ∧ r.Wiped := by
  constructor
  · intro a r hget hm c' hr
    obtain ⟨r', hget', hm'⟩ := marked_of_reachable hw h hr hget hm
    have hreach := h.trans hr
    exact ⟨r', hget', hm', fun t o ho => no_send_on_marked hw hreach hget' hm' ho,
      fun c'' hst => guarded_step hw hreach hst hget' hm'⟩
  · intro t U a actor x hU hcall hret c' hr hn
    obtain ⟨r, hget, hrem⟩ := removed_of_return hw h hU hcall hret
    obtain ⟨r', hget', hrem'⟩ := removed_of_reachable hw h hr hget hrem
    exact ⟨r', hget', hrem', tombstones_of_reachable hw ht (h.trans hr) hn a r' hget' hrem'⟩

end Runs

section RemovalRuns

def forgedRemovalRun : Config (machine Unit samplePorts) :=
  run forgedRun 2 (.disableDrainRemove 0 operator) friendlyGame 20

/-- A removal that has committed its first transaction only. -/
def halfRemovedRun : Config (machine Unit samplePorts) :=
  run enrolledRun 1 (.disableDrainRemove 0 operator) friendlyGame 3

theorem removal_runs_end : returned forgedRemovalRun 2 = true ∧
    (forgedRemovalRun.world.accounts.get 0).any (fun r => r.sessionToken == some "tok") = true ∧
    (halfRemovedRun.world.accounts.get 0).any (fun r =>
      r.pausedReason == some "removing") = true := by decide +kernel

theorem returned_forgedRemovalRun : ∃ U x, forgedRemovalRun.task 2 = some U ∧
    U.call = .disableDrainRemove 0 operator ∧ U.prog = .ret (.ok x) := by
  obtain ⟨U, x, hU, hret⟩ := exists_of_returned removal_runs_end.1
  refine ⟨U, x, hU, ?_, hret⟩
  rcases call_of_run hU with hcall | ⟨V, hV, -⟩
  · exact hcall
  · rcases call_of_run hV with hcall' | ⟨W, hW, -⟩
    · cases hV
    · cases hW

/-- The removal of a forged tombstone returns at once, and the session token is still there. -/
theorem forged_removal_keeps_token :
    ¬ ∀ c : Config (machine Unit samplePorts), Reachable (.start {}) c →
      ∀ t U a actor x, c.task t = some U → U.call = .disableDrainRemove a actor →
        U.prog = .ret (.ok x) → ∀ c', Reachable c c' →
          ∃ r, c'.world.accounts.get a = some r ∧ r.Removed ∧ r.Wiped := by
  intro hall
  obtain ⟨U, x, hU, hcall, hret⟩ := returned_forgedRemovalRun
  obtain ⟨r, hget, -, hwiped⟩ := hall forgedRemovalRun
    ((reachable_enrolledRun.trans (reachable_run ..)).trans (reachable_run ..)) 2 U 0 operator x hU
    hcall hret forgedRemovalRun Relation.ReflTransGen.refl
  have htoken := removal_runs_end.2.1
  rw [hget] at htoken
  simp [hwiped.sessionToken] at htoken

/-- The marker of the first transaction is there to stay, and the finished removal is one. -/
theorem removal_is_irreversible_on_runs :
    ∃ r, halfRemovedRun.world.accounts.get 0 = some r ∧ r.Marked ∧
      ∃ r', removedRun.world.accounts.get 0 = some r' ∧ r'.Removed ∧ r'.Wiped := by
  obtain ⟨r, hget, hr⟩ := (Option.any_eq_true ..).mp removal_runs_end.2.2
  have hmarked : r.Marked := .inr (by simpa using hr)
  obtain ⟨r', hget', hm', -⟩ := (removal_is_irreversible World.sound_empty tombstonesWiped_empty
    (reachable_enrolledRun.trans (reachable_run ..))).1 0 r hget hmarked halfRemovedRun
    Relation.ReflTransGen.refl
  obtain ⟨U, x, hU, hcall, hret⟩ := returned_removedRun
  exact ⟨r', hget', hm', (removal_is_irreversible World.sound_empty tombstonesWiped_empty
    reachable_removedRun).2 1 U 0 operator x hU hcall hret removedRun Relation.ReflTransGen.refl
    noFalseTombstone_removedRun⟩

end RemovalRuns

end PlaceGame
