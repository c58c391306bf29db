import PlaceGame.Accounts.CycleCalls

/-!
# PlaceGame.Accounts.CycleMutate

`mutate` under the monitor of cycles.

An attempt runs one cycle, and the next attempt follows only after a session was found. From the
summary on nothing is part of a cycle, so the send, the handlers and the plan store leave the outcome
alone.
-/

namespace PlaceGame

open Coop Mutate

variable {T α : Type} {P : Ports} {a : AccountId} {r₀ : GameAccount} {m : Cycle} {f f' : Frame}

/-- What a cycle that is over may still await without being touched. -/
def Op.Later : Op T → Prop
  | .accountForUpdate _ | .flushIdentity _ _ | .login _ _ | .commit _ | .rollback => False
  | _ => True

theorem Cycle.hear_over (hover : m.concluded = true) (reply : Reply) : m.hear false reply = m := by
  have hm : { m with concluded := true } = m := by rw [← hover]
  simpa [Cycle.hear, hover] using hm

theorem Cycle.next_later {o : Op T} (ho : o.Later) (hover : m.concluded = true)
    (r : Except Exc o.Val) : m.next o r = m ∨ ∃ e, m.next o r = m.raise e := by
  cases o with
  | accountForUpdate | flushIdentity | login | commit | rollback => exact ho.elim
  | clock =>
    cases r with
    | error e => exact .inr ⟨e, rfl⟩
    | ok now => exact .inl (by simp [Cycle.next, Cycle.tick, hover])
  | bootstrap api =>
    cases r with
    | ok g => exact .inl (Cycle.hear_over hover _)
    | error e =>
      simp only [Cycle.next, Cycle.refuse, Cycle.hear_over hover]
      split
      · exact .inl rfl
      · exact .inr ⟨e, rfl⟩
  | sleep =>
    cases r with
    | ok _ => exact .inl rfl
    | error e =>
      simp only [Cycle.next]
      split
      · exact .inl rfl
      · exact .inr ⟨e, rfl⟩
  | idleSummary api a' =>
    cases r with
    | ok idle =>
      refine .inl ?_
      show { m with concluded := true } = m
      rw [← hover]
    | error e => exact .inr ⟨e, rfl⟩
  | _ => cases r <;> first | exact .inl rfl | exact .inr ⟨_, rfl⟩

/-- The cycle of the attempt is over, and every cycle of the transaction was a success. -/
structure Sent (a : AccountId) (r₀ : GameAccount) (m : Cycle) (f : Frame) : Prop
    extends Tracks a r₀ m f where
  concluded : m.concluded = true
  successes : ∀ o ∈ m.outcomes, o.Success
  unpaused : r₀.pausedReason = none
  running : f.record.pausedReason = none

namespace Sent

theorem edit (h : Sent a r₀ m f) (hid : f'.record.gameAccountId = f.record.gameAccountId)
    (hload : f'.loaded = f.loaded) (hstand : f'.record.standing = f.record.standing) :
    Sent a r₀ m f' where
  toTracks := h.toTracks.same rfl rfl rfl hid hload hstand
  concluded := h.concluded
  successes := h.successes
  unpaused := h.unpaused
  running := (congrArg GameAccount.Standing.pausedReason hstand).trans h.running

theorem next {o : Op T} (h : Sent a r₀ m f) (ho : o.Later) (r : Except Exc o.Val) :
    Sent a r₀ (m.next o r) f := by
  rcases Cycle.next_later ho h.concluded r with he | ⟨e, he⟩
  · rw [he]
    exact h
  · rw [he]
    exact ⟨h.toTracks.same rfl rfl rfl rfl rfl rfl, h.concluded, h.successes, h.unpaused, h.running⟩

variable {C : Allowed}

theorem ask {o : Op T} (ho : o.Later) : Stable (cycles T C) (Sent a r₀) (await o : Tx T o.Val) := by
  refine Stable.await fun m f h => ⟨?_, fun r _ => h.next ho r⟩
  cases o <;> first | exact ho.elim | exact trivial

theorem finish (planId : PlanId) (status : PlanState) (result : List (String × Json)) :
    Stable (cycles T C) (Sent a r₀) (PlanStore.finish planId status result : Tx T Unit) := by
  unfold PlanStore.finish PlanStore.loadForUpdate
  refine Stable.bind (Stable.raiseIf _ _) fun _ => Stable.bind ?_ fun plan => ?_
  · refine Stable.bind (ask trivial) fun row => ?_
    cases row with
    | none => exact Stable.raise _
    | some row =>
      exact Stable.bind stable_frame fun _ =>
        Stable.bind (stable_modifyFrame fun _ _ h => h.edit rfl rfl rfl) fun _ => Stable.pure _
  · refine Stable.bind (Stable.raiseIf _ _) fun _ => Stable.bind (ask trivial) fun _ => ?_
    exact Stable.bind (stable_modifyFrame fun _ _ h => h.edit rfl rfl rfl) fun _ => ask trivial

theorem sends (args : MutateArgs) : Sends (cycles T C) args (Sent a r₀) where
  sends _ _ h := h.edit rfl rfl rfl
  follows m f o ho h := by
    have hlater : o.Later := by
      cases o <;> first | exact ho.elim | exact trivial
    exact ask hlater m f h
  succeeds _ _ _ h := h.edit rfl rfl rfl
  audits _ _ _ h := h.edit rfl rfl rfl
  finishes m f p status result _ h := finish p status result m f h

theorem preparePlan (args : MutateArgs) (planId : PlanId) (policy : VersionedPolicy) (api : GameApi) :
    Stable (cycles T C) (Sent a r₀) (Mutate.preparePlan args planId policy api : Tx T Unit) := by
  unfold Mutate.preparePlan Mutate.checkPlan
  refine Stable.bind (ask trivial) fun found => ?_
  cases found with
  | none => exact Stable.raise _
  | some plan =>
    refine Stable.bind (stable_modifyFrame fun _ _ h => h.edit rfl rfl rfl) fun _ => ?_
    refine Stable.bind (Stable.raiseIf _ _) fun _ => ?_
    refine Stable.bind (stable_modifyFrame fun _ _ h => h.edit rfl rfl rfl) fun _ => ?_
    refine Stable.bind (Stable.bind (ask trivial) fun _ => Stable.raiseIf _ _) fun _ => ?_
    exact Stable.bind (Stable.raiseIf _ _) fun _ =>
      Stable.bind (ask trivial) fun _ => Stable.raiseIf _ _

end Sent

section Attempts

variable {args : MutateArgs}

/-- An attempt may start: nothing was selected yet, or the last one was sent. -/
def Startable (a : AccountId) (m : Cycle) (f : Frame) : Prop :=
  m = {} ∧ f = {} ∨ ∃ r₀, Sent a r₀ m f

/-- The attempt has ended with an error: no plan is validated, or nothing more can happen to the
cycle. -/
def Halted (a : AccountId) (m : Cycle) (f : Frame) : Prop :=
  f.validatedPlanId = none ∧ (sessionRules a).commit m f.writes ∨ ∃ r₀, Sent a r₀ m f

theorem Tracks.halted (h : Tracks a r₀ m f) (hv : f.validatedPlanId = none) : Halted a m f :=
  .inl ⟨hv, h.commits⟩

theorem halted_missing (hrow : m.row = none) (hload : f.loaded = none)
    (hv : f.validatedPlanId = none) : Halted a m f := by
  have haccount : f.writes.account = none := by simp [Frame.writes, hload]
  refine .inl ⟨hv, fun h => ?_, fun a' r' h => ?_⟩
  · rw [hrow] at h
    cases h
  · rw [haccount] at h
    cases h

/-- The account of the attempt is selected, and its cycle has not begun. -/
structure Begun (a : AccountId) (r₀ : GameAccount) (m : Cycle) (f : Frame) : Prop
    extends Tracks a r₀ m f where
  concluded : m.concluded = false
  raised : m.raised = none
  begun : m.begun = false
  ended : m.ended = none
  reply : m.reply = .silent
  login : m.login = false
  paused : f.record.pausedReason.isSome = r₀.pausedReason.isSome
  successes : ∀ o ∈ m.past, o.Success
  validated : f.validatedPlanId = none

theorem Begun.outcome (h : Begun a r₀ m f) : m.outcome = none :=
  Cycle.outcome_open h.ended (Cycle.not_established (by simp [h.reply]))

theorem Begun.opened (a : AccountId) (r₀ : GameAccount) :
    Begun a r₀ { row := some (a, r₀) } { loaded := some a, record := r₀ } where
  toTracks := .opened a r₀
  concluded := rfl
  raised := rfl
  begun := rfl
  ended := rfl
  reply := rfl
  login := rfl
  paused := rfl
  successes := nofun
  validated := rfl

/-- The row of an account that was selected before stays the one of the first attempt. -/
theorem Sent.reopened (h : Sent a r₀ m f) (hv : f.validatedPlanId = none) (row : GameAccount) :
    Begun a r₀ (m.reopen a row) f where
  toTracks := h.toTracks.same (by simp [Cycle.reopen, h.row]) rfl
    (by simp [Cycle.reopen, Cycle.outcomes, Cycle.outcome, Cycle.established]) rfl rfl rfl
  concluded := rfl
  raised := rfl
  begun := rfl
  ended := rfl
  reply := rfl
  login := rfl
  paused := by rw [h.running, h.unpaused]
  successes := h.successes
  validated := hv

theorem requireForUpdate_cycles (h : Startable a m f) (hv : f.validatedPlanId = none) :
    (requireForUpdate a : Tx T Unit).wp (cycles T (sessionRules a))
      (fun m' r f' =>
        match r with
        | .ok _ => ∃ r₀, Begun a r₀ m' f'
        | .error _ => Halted a m' f') m f := by
  unfold requireForUpdate
  rw [Coro.wp_bind, wp_await]
  rcases h with ⟨rfl, rfl⟩ | ⟨r₀, h⟩
  · have hnone : ∀ o ∈ ({} : Cycle).outcomes, o.Success := by
      simp [Cycle.outcomes, Cycle.outcome]
    refine ⟨⟨rfl, hnone⟩, ?_⟩
    rintro (e | row) -
    · exact halted_missing rfl rfl rfl
    rw [Coro.chain_ok]
    cases row with
    | none => exact halted_missing rfl rfl rfl
    | some row => exact ⟨row, .opened a row⟩
  · refine ⟨⟨rfl, h.successes⟩, ?_⟩
    rintro (e | row) -
    · exact (h.toTracks.same rfl rfl rfl rfl rfl rfl : Tracks a r₀ (m.raise e) f).halted hv
    rw [Coro.chain_ok]
    cases row with
    | none => exact h.toTracks.halted hv
    | some row =>
      rw [wp_modifyFrame, if_pos h.loaded]
      exact ⟨r₀, h.reopened hv row⟩

theorem plain_validated {c : Tx T α} (hc : Plain a Op.Quiet c) :
    Stable (cycles T (sessionRules a)) (fun _ f => f.validatedPlanId = none) c := by
  refine Coro.Keeps.of_only (hc _ (Frame.SamePlans.tame a)) ?_ ?_
  · intro m f o ho hv
    refine ⟨?_, fun _ _ => hv⟩
    cases o <;> first | exact ho.elim | exact trivial
  · exact fun _ f f' hs hv => hs.validatedPlanId.trans hv

def Prepared (a : AccountId) (m : Cycle) : Except Exc GameApi → Frame → Prop
  | .ok _, f => ∃ r₀, Sent a r₀ m f
  | .error _, f => Halted a m f

/-- The session that an attempt needs, with its summary. -/
theorem resolved_cycles {actor : Actor} {g : GameApi → Tx T GameApi} (h : Begun a r₀ m f)
    (hg : ∀ api, ∀ m f, Sent a r₀ m f →
      (g api).wp (cycles T (sessionRules a)) (Prepared a) m f) :
    (do
      let resolution ← ensureLocked P a actor
      match resolution.api with
      | none => raise .authenticationRequired
      | some (api, _) =>
        let _ ← saveSnapshot P a resolution true
        g api : Tx T GameApi).wp (cycles T (sessionRules a)) (Prepared a) m f := by
  have hensure := Coro.wp_and
    (ensureLocked_outcome (T := T) (P := P) (C := sessionRules a) actor h.toWorks h.paused h.concluded
      h.raised h.begun h.ended h.reply h.login)
    (plain_validated (ensureLocked_plain P a actor) m f h.validated)
  refine Coro.wp_seq hensure ?_ ?_
  · rintro m₁ resolution f₁ ⟨⟨hs, hreply⟩, hv₁⟩
    have ht₁ := h.toTracks.settled h.outcome hs
    cases hapi : resolution.api with
    | none => exact ht₁.halted hv₁
    | some session =>
      obtain ⟨api, g'⟩ := session
      have hsave := Coro.wp_and (saveSnapshot_outcome (T := T) (P := P) (C := sessionRules a) hs hreply)
        (plain_validated (saveSnapshot_plain P a resolution _) m₁ f₁ hv₁)
      rw [hapi] at hsave hs
      refine Coro.wp_seq hsave ?_ fun m₂ e f₂ hr => (ht₁.stands hr.1.1).halted hr.2
      rintro m₂ snapshot f₂ ⟨⟨hst, -, -, hover⟩, -⟩
      have hsuccess := Cycle.outcome_found hs.works.row hs.established (hs.ended rfl)
      have hunpaused : r₀.pausedReason = none := by
        have he := hs.established
        unfold Cycle.established at he
        rw [hs.works.row] at he
        cases hm : m₁.reply <;> simp_all
      refine hg api m₂ f₂ ⟨ht₁.stands hst, hover rfl, ?_, hunpaused, ?_⟩
      · intro o ho
        rw [Cycle.outcomes, hst.past, hst.outcome, hs.past] at ho
        rcases List.mem_append.mp ho with ho | ho
        · exact h.successes o ho
        · rcases hsuccess with hsuccess | hsuccess <;> simp [hsuccess] at ho <;> subst ho <;>
            exact trivial
      · have hrunning : f.record.pausedReason = none := by
          have := h.paused
          rw [hunpaused] at this
          simpa using this
        have hstand := congrArg GameAccount.Standing.pausedReason (hs.standing (.inl rfl))
        rw [hst.record]
        refine hstand.trans ?_
        rcases hsuccess with hsuccess | hsuccess <;> rw [hsuccess] <;> exact hrunning
  · rintro m₁ e f₁ ⟨⟨rfl, hrow, hbound, hpast, -, hout, -⟩, hv₁⟩
    refine (h.toTracks.same hrow hbound ?_ rfl rfl rfl).halted hv₁
    rw [Cycle.outcomes, Cycle.outcomes, hpast, hout, h.outcome]

theorem prepare_cycles (haccount : args.accountId = a) (h : Startable a m f) :
    (prepare P args : Tx T GameApi).wp (cycles T (sessionRules a)) (Prepared a) m f := by
  subst haccount
  have hready : Startable args.accountId m
      { f with sendStarted := false, validatedPlanId := none, plan := none } := by
    rcases h with ⟨rfl, rfl⟩ | ⟨r₀, h⟩
    · exact .inl ⟨rfl, rfl⟩
    · exact .inr ⟨r₀, h.edit rfl rfl rfl⟩
  unfold prepare
  rw [Coro.wp_bind, wp_modifyFrame, Coro.chain_ok]
  refine Coro.wp_seq (requireForUpdate_cycles hready rfl) ?_ fun _ _ _ hr => hr
  rintro m₁ _ f₁ ⟨r₀, h₁⟩
  rw [Coro.wp_bind, wp_modifyFrame, Coro.chain_ok, Coro.wp_bind, wp_record, Coro.chain_ok]
  have h₂ : Begun args.accountId r₀ m₁ { f₁ with validatedAccountId := some args.accountId } :=
    ⟨h₁.toTracks.same rfl rfl rfl rfl rfl rfl, h₁.concluded, h₁.raised, h₁.begun, h₁.ended, h₁.reply,
      h₁.login, h₁.paused, h₁.successes, h₁.validated⟩
  refine (checks_requireMutable _).seq (fun e => h₂.toTracks.halted h₂.validated) fun _ _ => ?_
  refine resolved_cycles h₂ fun api m f hs => ?_
  rw [Coro.wp_bind, wp_await]
  refine ⟨trivial, ?_⟩
  intro r _
  have hs' : Sent args.accountId r₀ ((cycles T (sessionRules args.accountId)).next m
      (.policyGet args.accountId) r) f := hs.next (o := .policyGet args.accountId) trivial r
  cases r with
  | error e => exact .inr ⟨r₀, hs'⟩
  | ok policy =>
    rw [Coro.chain_ok]
    cases args.planId with
    | none => exact ⟨r₀, hs'⟩
    | some planId =>
      refine Coro.wp_seq (Sent.preparePlan args planId policy api _ _ hs') ?_ fun _ _ _ hr =>
        .inr ⟨r₀, hr⟩
      exact fun m₃ _ f₃ h₃ => ⟨r₀, h₃⟩

theorem attempts_cycles (haccount : args.accountId = a) (left : Nat) (h : Startable a m f) :
    (attempts P args left : Tx T (LoopEnd T)).wp (cycles T (sessionRules a))
      (fun m' _ f' => Halted a m' f') m f := by
  induction left generalizing m f with
  | zero =>
    rcases h with ⟨rfl, rfl⟩ | h
    · exact halted_missing rfl rfl rfl
    · exact .inr h
  | succ left ih =>
    unfold attempts
    refine Coro.wp_seq (prepare_cycles haccount h) ?_ fun _ _ _ hr => hr
    rintro m₁ api f₁ ⟨r₀, h₁⟩
    refine Coro.wp_seq ((Sent.sends args).send left api m₁ f₁ h₁) ?_ fun _ _ _ hr => .inr ⟨r₀, hr⟩
    intro m₂ e f₂ h₂
    split
    · exact .inr ⟨r₀, h₂⟩
    · exact ih (.inr ⟨r₀, h₂⟩)

theorem Halted.commits (h : Halted a m f) : (sessionRules a).commit m f.writes := by
  rcases h with ⟨-, hc⟩ | ⟨r₀, hs⟩
  · exact hc
  · exact hs.toTracks.commits

/-- The handler finishes a plan only after its cycle is over. -/
theorem handle_cycles (exc : Exc) (h : Halted a m f) :
    (handle args exc : Tx T Exc).wp (cycles T (sessionRules a))
      (fun m' _ f' => (sessionRules a).commit m' f'.writes) m f := by
  rcases h with ⟨hv, hc⟩ | ⟨r₀, hs⟩
  · unfold handle terminalise auditMutate
    dsimp only
    rw [Coro.wp_bind, Coro.wp_bind, wp_frame, Coro.chain_ok]
    split
    · rename_i hsome _
      rw [hv] at hsome
      cases hsome
    · exact hc
  · exact Coro.wp_mono ((Sent.sends args).handle exc m f hs) fun _ _ _ hr => hr.toTracks.commits

theorem mutate_cycles (haccount : args.accountId = a) :
    (AccountService.mutate P args : Action T (MutationOutcome T)).wp (cycles T (sessionRules a))
      (fun _ _ _ => True) {} () := by
  unfold AccountService.mutate
  refine Coro.wp_seq (R := fun _ _ _ => True) (transaction_cycles ?_) ?_ fun _ _ _ _ => trivial
  · unfold body
    rw [Coro.wp_bind, wp_await]
    refine ⟨trivial, ?_⟩
    rintro (e | _) -
    · exact committable_error e
    rw [Coro.chain_ok]
    refine wp_try (attempts_cycles haccount 3 (.inl ⟨rfl, rfl⟩)) fun m₁ r f₁ h₁ => ?_
    split
    · exact fun _ _ => h₁.commits
    · rw [Coro.wp_ite]
      refine ⟨fun _ => ?_, fun _ => committable_error _⟩
      exact Coro.wp_seq (handle_cycles _ h₁) (fun _ _ _ hc _ _ => hc) fun _ e _ _ =>
        committable_error e
  · intro _ outcome _ _
    split <;> trivial

end Attempts

end PlaceGame
