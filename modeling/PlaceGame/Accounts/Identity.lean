import PlaceGame.Accounts.Readings
import PlaceGame.Accounts.Safety
import PlaceGame.Scripts

/-!
# PlaceGame.Accounts.Identity

Credentials and game identities over all runs: an identity is bound once and to one account, a
session token is stored only for the identity that it was bootstrapped to, and so is an api handed
out.
-/

namespace PlaceGame

open Coop

/-- The account for which an await hands an api out, where the await names it. -/
def Op.account {T : Type} : Op T → Option AccountId
  | .idleSummary a _ | .idleCollect a _ _ | .operation a _ _ | .lockedBody a _ => some a
  | _ => none

variable {T : Type} {P : Ports} {w : World} {c c' : Config (machine T P)} {t : TaskId}
variable {U : Task (machine T P)}

/-- The call of the task has bootstrapped the token to the identity. -/
def BootstrappedTo (U : Task (machine T P)) (api : GameApi) (g : String) : Prop :=
  ⟨.bootstrap api, .ok g⟩ ∈ U.hist

/-- The identity of the record in the transaction of the task: the stored one, or the one that the
transaction has flushed into a row without identity. -/
def RecordIdentity (w : World) (t : TaskId) (a : AccountId) (g : String) : Prop :=
  ∃ r, w.accounts.get a = some r ∧
    (r.gameAccountId = some g ∨ (r.gameAccountId = none ∧ (t, a, g) ∈ w.flushed))

/-- A written token is the row's, and was bootstrapped in the same call to the row's identity. -/
def TokenVerified (U : Task (machine T P)) (token : String) (r : GameAccount) : Prop :=
  r.sessionToken = some token ∧ ∃ g, r.gameAccountId = some g ∧ BootstrappedTo U ⟨some token⟩ g

section Steps

theorem seen_boots {api : GameApi} {g : String} (h : (api, g) ∈ (seen U).boots) :
    BootstrappedTo U api g := (readings P U.call U.hist).boots api g h

theorem identity_step (hw : w.Sound) (h : Reachable (.start w) c) (hst : Step c c') {a : AccountId}
    {g : String} (hget : ∃ r, c.world.accounts.get a = some r ∧ r.gameAccountId = some g) :
    ∃ r, c'.world.accounts.get a = some r ∧ r.gameAccountId = some g := by
  obtain ⟨r, hget, hg⟩ := hget
  rcases row_step hw h hst a with hsame | ⟨r', hget', hedit⟩
  · exact ⟨r, hsame.trans hget, hg⟩
  · refine ⟨r', hget', ?_⟩
    cases hedit with
    | changed commit writes found identity change token =>
      cases found.symm.trans hget
      rw [identity, Local.identity, hg, Option.some_or]
    | enrolled commit writes found =>
      rw [hget] at found
      cases found

theorem tokenWrite_verified {write : Option (Option String)} {old : Option String} {r : GameAccount}
    {token : String} (h : (seen U).TokenWrite write old r) (hwrite : write = some (some token)) :
    TokenVerified U token r := by
  rcases h with ⟨hw, -⟩ | ⟨hw, -⟩ | ⟨token', g, hw, hr, hb, hg⟩
  · rw [hwrite] at hw
    cases hw
  · rw [hwrite] at hw
    cases hw
  · rw [hwrite] at hw
    cases hw
    exact ⟨hr, g, hg, seen_boots hb⟩

/-- A row gets a new token only from a task that bootstrapped it to the row's identity. -/
theorem token_step (hw : w.Sound) (h : Reachable (.start w) c) (hst : Step c c') {a : AccountId}
    {r' : GameAccount} {token : String} (hget' : c'.world.accounts.get a = some r')
    (htoken : r'.sessionToken = some token)
    (hnew : ∀ r, c.world.accounts.get a = some r → r.sessionToken ≠ some token) :
    ∃ t U ws, Committing c c' t U ws ∧ TokenVerified U token r' := by
  rcases row_step hw h hst a with hsame | ⟨r, hget, hedit⟩
  · exact absurd htoken (hnew r' (hsame.symm.trans hget'))
  · cases hget.symm.trans hget'
    cases hedit with
    | @changed t U ws r₀ commit writes found identity change write =>
      refine ⟨t, U, ws, commit, ?_⟩
      rcases id write with ⟨-, hold⟩ | ⟨-, hnone⟩ | ⟨token', g, hwrite, htoken', -⟩
      · exact absurd (hold ▸ htoken) (hnew r₀ found)
      · rw [hnone] at htoken
        cases htoken
      · cases htoken'.symm.trans htoken
        exact tokenWrite_verified write hwrite
    | @enrolled t U ws commit writes found row write =>
      refine ⟨t, U, ws, commit, ?_⟩
      rcases id write with ⟨-, hold⟩ | ⟨-, hnone⟩ | ⟨token', g, hwrite, htoken', -⟩
      · rw [hold] at htoken
        cases htoken
      · rw [hnone] at htoken
        cases htoken
      · cases htoken'.symm.trans htoken
        exact tokenWrite_verified write hwrite

theorem change_coherent {call : Call} {a : AccountId} {r₀ r : GameAccount}
    (h : Local.Change call a r₀ r) (hc : r₀.Coherent) : r.Coherent := by
  unfold Local.Change at h
  split at h
  · rcases h with ⟨-, ⟨-, rfl⟩ | ⟨-, rfl⟩ | rfl⟩
    · exact hc
    · exact hc
    · exact fun _ => ⟨rfl, rfl⟩
  · exact h.coherent hc

theorem coherent_step (hw : w.Sound) (h : Reachable (.start w) c) (hst : Step c c')
    (hc : ∀ a r, c.world.accounts.get a = some r → r.Coherent) {a : AccountId} {r : GameAccount}
    (hget : c'.world.accounts.get a = some r) : r.Coherent := by
  rcases row_step hw h hst a with hsame | ⟨r', hget', hedit⟩
  · exact hc a r (hsame.symm.trans hget)
  · cases hget'.symm.trans hget
    cases hedit with
    | changed commit writes found identity change token =>
      exact change_coherent change (hc a _ found)
    | enrolled commit writes found row token => exact row.coherent

end Steps

section Runs

theorem identity_of_reachable (hw : w.Sound) (h : Reachable (.start w) c) (h' : Reachable c c')
    {a : AccountId} {r : GameAccount} {g : String} (hget : c.world.accounts.get a = some r)
    (hg : r.gameAccountId = some g) :
    ∃ r', c'.world.accounts.get a = some r' ∧ r'.gameAccountId = some g := by
  refine Reachable.invariant h'
    (fun c => ∃ r', c.world.accounts.get a = some r' ∧ r'.gameAccountId = some g)
    ⟨r, hget, hg⟩ ?_
  intro c c' hr ih hst
  exact identity_step hw (h.trans hr) hst ih

theorem coherent_of_reachable (hw : w.Sound)
    (hc : ∀ a r, w.accounts.get a = some r → r.Coherent) (h : Reachable (.start w) c) :
    ∀ a r, c.world.accounts.get a = some r → r.Coherent := by
  refine Reachable.invariant h (fun c => ∀ a r, c.world.accounts.get a = some r → r.Coherent) hc ?_
  intro c c' hr ih hst a r hget
  exact coherent_step hw hr hst ih hget

/-- A commit that writes a token writes it with its row. -/
theorem commit_verified (h : Reachable (.start w) c) (hU : c.task t = some U) {ws : Writes}
    {token : String} (hp : U.pending = some (.commit ws))
    (hwrite : ws.sessionToken = some (some token)) :
    ∃ a r, ws.account = some (a, r) ∧ TokenVerified U token r := by
  obtain ⟨haccount, hnone, -⟩ : (seen U).CommitOk U.call ws := allowed_pending h hU hp
  cases hws : ws.account with
  | none =>
    rw [hnone hws] at hwrite
    cases hwrite
  | some row =>
    obtain ⟨a, r⟩ := row
    refine ⟨a, r, rfl, ?_⟩
    rcases haccount a r hws with ⟨r₀, -, -, -, htoken⟩ | ⟨-, htoken⟩
    · exact tokenWrite_verified htoken hwrite
    · exact tokenWrite_verified htoken hwrite

theorem recordIdentity_of_matches {a : AccountId} {api : GameApi} {m : Local}
    (hm : Matches t m w) (hb : m.Bootstrapped a api) :
    ∃ g, (api, g) ∈ m.boots ∧ RecordIdentity w t a g := by
  obtain ⟨r₀, g, hrow, hboot, hid⟩ := hb
  refine ⟨g, hboot, r₀, (hm.row a r₀ hrow).2, ?_⟩
  unfold Local.identity at hid
  cases hold : r₀.gameAccountId with
  | some g' =>
    rw [hold] at hid
    exact .inl hid
  | none =>
    rw [hold, Option.none_or] at hid
    obtain ⟨f, hf, hid⟩ := Option.bind_eq_some_iff.mp hid
    split at hid
    · rename_i ha
      cases hid
      exact .inr ⟨rfl, hm.flushed a f.2 (by rw [hf, ← ha])⟩
    · cases hid

/-- Every api that is handed out was bootstrapped in the same call to the identity of the record. -/
theorem handed_bootstrapped (hw : w.Sound) (h : Reachable (.start w) c) (hU : c.task t = some U)
    (ha : U.alive = true) {o : Op T} {api : GameApi} (hp : U.pending = some o)
    (ho : o.handed = some api) :
    ∃ a g, (∀ b, o.account = some b → b = a) ∧ BootstrappedTo U api g ∧
      RecordIdentity c.world t a g := by
  have hm := (safe_of_reachable hw h).matches_ t U hU ha
  have hok := allowed_pending h hU hp
  have hboot : ∃ a, (∀ b, o.account = some b → b = a) ∧ (seen U).Bootstrapped a api := by
    cases o <;> simp only [Op.handed, Option.some.injEq, reduceCtorEq] at ho
    case idleSummary a api' => exact ⟨a, fun b hb => (Option.some.inj hb).symm, ho ▸ hok⟩
    case idleCollect a p api' => exact ⟨a, fun b hb => (Option.some.inj hb).symm, ho ▸ hok.1⟩
    case operation a p api' => exact ⟨a, fun b hb => (Option.some.inj hb).symm, ho ▸ hok.1⟩
    case lockedBody a api' => exact ⟨a, fun b hb => (Option.some.inj hb).symm, ho ▸ hok⟩
    case stateFingerprint p api' =>
      obtain ⟨a, hb⟩ := hok api' rfl
      exact ⟨a, fun b hb => (Option.some_ne_none b hb.symm).elim, ho ▸ hb⟩
    case verify api' value =>
      obtain ⟨a, hb⟩ := hok api' rfl
      exact ⟨a, fun b hb => (Option.some_ne_none b hb.symm).elim, ho ▸ hb⟩
  obtain ⟨a, hacc, hb⟩ := hboot
  obtain ⟨g, hmem, hid⟩ := recordIdentity_of_matches hm hb
  exact ⟨a, g, hacc, seen_boots hmem, hid⟩

/-- Identities are bound once and to one account, a session token is written only for the identity
that it was bootstrapped to, an api is handed out only for that identity, and a token-only row has no
credentials. -/
theorem credentials_coherent (hw : w.Sound) (hc : ∀ a r, w.accounts.get a = some r → r.Coherent)
    (h : Reachable (.start w) c) :
    (∀ a r g, c.world.accounts.get a = some r → r.gameAccountId = some g →
      (∀ c', Reachable c c' → ∃ r', c'.world.accounts.get a = some r' ∧
        r'.gameAccountId = some g) ∧
      ∀ b r', c.world.accounts.get b = some r' → r'.gameAccountId = some g → b = a) ∧
    ((∀ t U ws token, c.task t = some U → U.pending = some (.commit ws) →
        ws.sessionToken = some (some token) →
        ∃ a r, ws.account = some (a, r) ∧ TokenVerified U token r) ∧
      ∀ c' a r' token, Step c c' → c'.world.accounts.get a = some r' →
        r'.sessionToken = some token →
        (∀ r, c.world.accounts.get a = some r → r.sessionToken ≠ some token) →
        ∃ t U ws, Committing c c' t U ws ∧ TokenVerified U token r') ∧
    (∀ t U o api, c.task t = some U → U.alive = true → U.pending = some o →
      o.handed = some api → ∃ a g, (∀ b, o.account = some b → b = a) ∧ BootstrappedTo U api g ∧
        RecordIdentity c.world t a g) ∧
    ∀ a r, c.world.accounts.get a = some r → r.Coherent := by
  refine ⟨?_, ⟨?_, ?_⟩, ?_, coherent_of_reachable hw hc h⟩
  · intro a r g hget hg
    refine ⟨fun c' hr => identity_of_reachable hw h hr hget hg, ?_⟩
    intro b r' hget' hg'
    exact (safe_of_reachable hw h).sound.unique b a r' r g hget' hget hg' hg
  · intro t U ws token hU hp hwrite
    exact commit_verified h hU hp hwrite
  · intro c' a r' token hst hget htoken hnew
    exact token_step hw h hst hget htoken hnew
  · intro t U o api hU ha hp ho
    exact handed_bootstrapped hw h hU ha hp ho

def legacyWorld : World where
  accounts := ⟨[(0, { label := "main", authMode := .tokenOnly, sessionToken := some "tok" })]⟩
  nextId := 1

/-- Its first use, up to the locked body: the identity is flushed, not committed. -/
def legacyRun : Config (machine Unit samplePorts) :=
  run (.start legacyWorld) 0 (.locked 0 operator) friendlyGame 10

theorem sound_legacyWorld : legacyWorld.Sound where
  ids a r h := by
    obtain rfl : a = 0 := by simpa [legacyWorld] using Table.mem_keys h
    decide
  planIds p plan h := by cases h
  unique a b r r' g h h' _ _ := by
    have := Table.mem_keys h
    have := Table.mem_keys h'
    simp_all [legacyWorld]
  reserved t a g h := by cases h
  once t u a b g h := by cases h

theorem coherent_legacyWorld :
    ∀ a r, legacyWorld.accounts.get a = some r → r.Coherent := by
  intro a r h
  obtain rfl : a = 0 := by simpa [legacyWorld] using Table.mem_keys h
  cases h
  exact fun _ => ⟨rfl, rfl⟩

/-- The api that the locked body gets was bootstrapped to the identity that is about to be bound. -/
theorem credentials_coherent_on_legacy_run :
    ∃ U, legacyRun.task 0 = some U ∧ U.pending = some (.lockedBody 0 ⟨some "tok"⟩) ∧
      ∃ g, BootstrappedTo U ⟨some "tok"⟩ g ∧ RecordIdentity legacyRun.world 0 0 g := by
  have hawaits : legacyRun.awaits 0 = some (.lockedBody 0 ⟨some "tok"⟩) := rfl
  obtain ⟨U, hU, ha, hp⟩ := Config.awaits_eq hawaits
  obtain ⟨a, g, hacc, hb, hid⟩ := (credentials_coherent sound_legacyWorld coherent_legacyWorld
    (reachable_run ..)).2.2.1 0 U _ _ hU ha hp rfl
  obtain rfl := hacc 0 rfl
  exact ⟨U, hU, hp, g, hb, hid⟩

end Runs

end PlaceGame
