import PlaceGame.Accounts.Record

/-!
# PlaceGame.Accounts.Edits

What the edits of an account record may do.

`Evolves` is what every operation except removal guarantees about the row it commits: a row with a
removal marker keeps its guarded columns, no row becomes removed, and a token-only row stays without
credentials. `Tightens` is the stronger guarantee of the session cycle, which may also pause a row
but never enables or resumes one.
-/

namespace PlaceGame

namespace GameAccount

def Removed (r : GameAccount) : Prop := r.pausedReason = some "removed"

/-- The row carries one of the two removal markers. -/
def Marked (r : GameAccount) : Prop :=
  r.pausedReason = some "removed" ∨ r.pausedReason = some "removing"

/-- Enabled no more, and nothing secret left. -/
structure Wiped (r : GameAccount) : Prop where
  enabled : r.enabled = false
  gameUsername : r.gameUsername = none
  password : r.password = none
  sessionToken : r.sessionToken = none
  sessionExpiresAt : r.sessionExpiresAt = none

/-- A token-only row has no credentials. -/
def Coherent (r : GameAccount) : Prop :=
  r.authMode = .tokenOnly → r.gameUsername = none ∧ r.password = none

/-- The columns that a removal marker protects. -/
structure Guarded where
  enabled : Bool
  pausedReason : Option String
  authMode : AuthMode
  gameAccountId : Option String
  gameUsername : Option String
  password : Option String
  sessionToken : Option String
  sessionExpiresAt : Option Time
  deriving DecidableEq

def guarded (r : GameAccount) : Guarded where
  enabled := r.enabled
  pausedReason := r.pausedReason
  authMode := r.authMode
  gameAccountId := r.gameAccountId
  gameUsername := r.gameUsername
  password := r.password
  sessionToken := r.sessionToken
  sessionExpiresAt := r.sessionExpiresAt

/-- `F` is the one way in which the row may become removed. -/
structure Evolves (F : Prop) (r r' : GameAccount) : Prop where
  marked : r.Marked → r'.guarded = r.guarded
  removed : r'.Removed → r.Removed ∨ F
  coherent : r.Coherent → r'.Coherent

structure Tightens (r r' : GameAccount) : Prop extends Evolves False r r' where
  enabled : r'.enabled = true → r.enabled = true
  unpaused : r'.pausedReason = none → r.pausedReason = none
  unmarked : r'.Marked → r.Marked

variable {r r' r'' : GameAccount} {F : Prop}

theorem unmarked (h : r.pausedReason ≠ some "removed") (h' : r.pausedReason ≠ some "removing") :
    ¬ r.Marked := by
  rintro (hm | hm)
  · exact h hm
  · exact h' hm

theorem Removed.marked (h : r.Removed) : r.Marked := .inl h

theorem removed_of_guarded (h : r'.guarded = r.guarded) : r'.Removed ↔ r.Removed := by
  have hp : r'.pausedReason = r.pausedReason := congrArg Guarded.pausedReason h
  unfold Removed
  rw [hp]

theorem marked_of_guarded (h : r'.guarded = r.guarded) : r'.Marked ↔ r.Marked := by
  have hp : r'.pausedReason = r.pausedReason := congrArg Guarded.pausedReason h
  unfold Marked
  rw [hp]

theorem wiped_of_guarded (h : r'.guarded = r.guarded) (hw : r.Wiped) : r'.Wiped where
  enabled := (congrArg Guarded.enabled h).trans hw.enabled
  gameUsername := (congrArg Guarded.gameUsername h).trans hw.gameUsername
  password := (congrArg Guarded.password h).trans hw.password
  sessionToken := (congrArg Guarded.sessionToken h).trans hw.sessionToken
  sessionExpiresAt := (congrArg Guarded.sessionExpiresAt h).trans hw.sessionExpiresAt

theorem Evolves.refl (r : GameAccount) : Evolves F r r := ⟨fun _ => rfl, .inl, id⟩

theorem Evolves.trans (h : Evolves False r r') (h' : Evolves F r' r'') : Evolves F r r'' where
  marked hm := by
    have h1 := h.marked hm
    exact (h'.marked ((marked_of_guarded h1).mpr hm)).trans h1
  removed hr := by
    rcases h'.removed hr with hr | hF
    · exact (h.removed hr).imp id False.elim
    · exact .inr hF
  coherent hc := h'.coherent (h.coherent hc)

theorem Tightens.refl (r : GameAccount) : Tightens r r := ⟨Evolves.refl r, id, id, id⟩

theorem Tightens.trans (h : Tightens r r') (h' : Tightens r' r'') : Tightens r r'' where
  toEvolves := h.toEvolves.trans h'.toEvolves
  enabled he := h.enabled (h'.enabled he)
  unpaused hp := h.unpaused (h'.unpaused hp)
  unmarked hm := h.unmarked (h'.unmarked hm)

section Cycle

theorem tightens_succeed (now : Time) : Tightens r (r.succeed now) :=
  ⟨⟨fun _ => rfl, .inl, id⟩, id, id, id⟩

theorem tightens_bindIdentity (g : String) (h : ¬ r.Marked) : Tightens r (r.bindIdentity g) :=
  ⟨⟨fun hm => absurd hm h, .inl, id⟩, id, id, id⟩

theorem tightens_identityMismatch (now : Time) (h : ¬ r.Marked) :
    Tightens r (r.identityMismatch now) := by
  refine ⟨⟨fun hm => absurd hm h, ?_, id⟩, nofun, nofun, ?_⟩
  · intro hr
    simp [Removed, identityMismatch] at hr
  · intro hm
    simp [Marked, identityMismatch] at hm

theorem tightens_pauseForRefresh (now : Time) (h : ¬ r.Marked) :
    Tightens r (r.pauseForRefresh now) := by
  refine ⟨⟨fun hm => absurd hm h, ?_, id⟩, id, nofun, ?_⟩
  · intro hr
    simp [Removed, pauseForRefresh] at hr
  · intro hm
    simp [Marked, pauseForRefresh] at hm

theorem tightens_renew (token : String) (expiry : Option Time) (now : Time) (h : ¬ r.Marked) :
    Tightens r (r.renew token expiry now) :=
  ⟨⟨fun hm => absurd hm h, .inl, id⟩, id, id, id⟩

/-- A failed login counts, and pauses the third time; nothing else that matters here changes. -/
theorem recordAuthFailure_columns (now : Time) (r : GameAccount) :
    ((r.recordAuthFailure now).pausedReason = r.pausedReason ∨
      (r.recordAuthFailure now).pausedReason = some "authentication_required") ∧
    { (r.recordAuthFailure now).guarded with pausedReason := r.pausedReason } = r.guarded := by
  have hcount : (r.countAuthFailure now).guarded = r.guarded := by
    unfold countAuthFailure
    split
    · rfl
    · split <;> rfl
  have hp : (r.countAuthFailure now).pausedReason = r.pausedReason :=
    congrArg Guarded.pausedReason hcount
  unfold recordAuthFailure
  dsimp only
  split
  · exact ⟨.inr rfl, by rw [← hcount, ← hp]; rfl⟩
  · exact ⟨.inl hp, by rw [← hcount, ← hp]; rfl⟩

theorem recordAuthFailure_gameAccountId (now : Time) (r : GameAccount) :
    (r.recordAuthFailure now).gameAccountId = r.gameAccountId :=
  congrArg Guarded.gameAccountId (recordAuthFailure_columns now r).2

theorem recordAuthFailure_sessionToken (now : Time) (r : GameAccount) :
    (r.recordAuthFailure now).sessionToken = r.sessionToken :=
  congrArg Guarded.sessionToken (recordAuthFailure_columns now r).2

theorem tightens_recordAuthFailure (now : Time) (h : ¬ r.Marked) :
    Tightens r (r.recordAuthFailure now) := by
  obtain ⟨hp, hg⟩ := recordAuthFailure_columns now r
  have he : (r.recordAuthFailure now).enabled = r.enabled := congrArg Guarded.enabled hg
  have ha : (r.recordAuthFailure now).authMode = r.authMode := congrArg Guarded.authMode hg
  have hu : (r.recordAuthFailure now).gameUsername = r.gameUsername :=
    congrArg Guarded.gameUsername hg
  have hw : (r.recordAuthFailure now).password = r.password := congrArg Guarded.password hg
  have hunmarked : (r.recordAuthFailure now).Marked → r.Marked := by
    intro hm
    unfold Marked at hm ⊢
    rcases hp with hp | hp
    · rwa [hp] at hm
    · rw [hp] at hm
      simp at hm
  refine ⟨⟨fun hm => absurd hm h, fun hr => absurd (hunmarked hr.marked) h, ?_⟩, ?_, ?_, hunmarked⟩
  · unfold Coherent
    rw [ha, hu, hw]
    exact id
  · rw [he]
    exact id
  · intro hn
    rcases hp with hp | hp
    · rwa [hp] at hn
    · rw [hp] at hn
      cases hn

end Cycle

section Service

theorem evolves_label (label : String) : Evolves F r { r with label := label } :=
  ⟨fun _ => rfl, .inl, id⟩

theorem evolves_policyVersion (version : Nat) : Evolves F r { r with policyVersion := version } :=
  ⟨fun _ => rfl, .inl, id⟩

theorem evolves_enabled (enabled : Bool) (h : ¬ r.Marked) :
    Evolves F r { r with enabled := enabled } :=
  ⟨fun hm => absurd hm h, .inl, id⟩

theorem evolves_pause (reason : String) (h : ¬ r.Marked) :
    Evolves (reason = "removed") r { r with pausedReason := some reason } := by
  refine ⟨fun hm => absurd hm h, ?_, id⟩
  intro hr
  exact .inr (Option.some.inj hr)

theorem evolves_resume (h : ¬ r.Marked) : Evolves F r { r with pausedReason := none } :=
  ⟨fun hm => absurd hm h, nofun, id⟩

theorem evolves_updateCredentials (username password token : String) (expiry : Option Time)
    (now : Time) (h : ¬ r.Marked) :
    Evolves F r (r.updateCredentials username password token expiry now) :=
  ⟨fun hm => absurd hm h, nofun, fun _ => nofun⟩

theorem evolves_updateTokenOnly (token : String) (expiry : Option Time) (now : Time)
    (h : ¬ r.Marked) : Evolves F r (r.updateTokenOnly token expiry now) :=
  ⟨fun hm => absurd hm h, nofun, fun _ _ => ⟨rfl, rfl⟩⟩

theorem wiped_wipe (r : GameAccount) : r.wipe.Wiped := ⟨rfl, rfl, rfl, rfl, rfl⟩

end Service

end GameAccount

end PlaceGame
