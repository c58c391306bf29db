import PlaceGame.Accounts.Isolation

/-!
# PlaceGame.Policy.History

The policies of an account form a linear history.

The history lists the saves whose commits took effect, oldest first. Version 1 is the default policy
and every save makes the next version; the account row and the policy row hold the newest one. A save
that expects another version than the newest adds nothing.
-/

namespace PlaceGame

open Coop

namespace PolicyHistory

/-- A save that was committed: its task and its policy. -/
structure Save where
  task : TaskId
  policy : AccountPolicy

def policyAt (history : List Save) : Nat → Option AccountPolicy
  | 0 => none
  | 1 => some defaultPolicy.toAccountPolicy
  | n + 2 => history[n]?.map (·.policy)

theorem policyAt_append {history : List Save} {n : Nat} {policy : AccountPolicy}
    (h : policyAt history n = some policy) (more : List Save) :
    policyAt (history ++ more) n = some policy := by
  match n with
  | 1 => exact h
  | n + 2 =>
    obtain ⟨s, hs, hp⟩ := Option.map_eq_some_iff.mp h
    have hn := (List.getElem?_eq_some_iff.mp hs).1
    show (history ++ more)[n]?.map _ = _
    rw [List.getElem?_append_left hn]
    exact h

/-- The version in the account row. An account that is still to be enrolled will begin with 1. -/
def accountVersion (a : AccountId) (w : World) : Nat :=
  match w.accounts.get a with
  | some r => r.policyVersion
  | none => 1

/-- The two rows of the account hold the newest version. -/
structure Holds (a : AccountId) (history : List Save) (w : World) : Prop where
  account : accountVersion a w = history.length + 1
  row : w.policies.get a =
    history.getLast?.map fun s => ⟨s.policy.modelDump, history.length + 1⟩

/-- An account without a policy row, or one that is still to be enrolled. -/
structure New (a : AccountId) (w : World) : Prop where
  account : ∀ r, w.accounts.get a = some r → r.policyVersion = 1
  row : w.policies.get a = none

theorem accountVersion_of {a : AccountId} {w : World} {r : GameAccount}
    (h : w.accounts.get a = some r) : accountVersion a w = r.policyVersion := by
  unfold accountVersion
  rw [h]

theorem New.holds {a : AccountId} {w : World} (h : New a w) : Holds a [] w := by
  refine ⟨?_, h.row⟩
  unfold accountVersion
  split
  · exact h.account _ ‹_›
  · rfl

section Rows

variable {a : AccountId} {history : List Save} {w w' : World}

/-- Reading the policy gives the newest version, through its document. -/
theorem Holds.versioned {r : GameAccount} (h : Holds a history w) (hr : w.accounts.get a = some r) :
    ∃ v, w.policyGet a = .ok v ∧ v.version = history.length + 1 ∧
      policyAt history v.version = some v.toAccountPolicy := by
  have hversion : r.policyVersion = history.length + 1 := (accountVersion_of hr).symm.trans h.account
  have hrow := h.row
  unfold World.policyGet
  rw [hr, hrow]
  rcases List.eq_nil_or_concat history with rfl | ⟨older, s, rfl⟩
  · refine ⟨defaultPolicy, ?_, rfl, rfl⟩
    exact if_pos hversion
  · rw [List.concat_eq_append] at hversion ⊢
    have hge : 1 ≤ r.policyVersion := by omega
    have hlast : (older ++ [s]).getLast? = some s := List.getLast?_concat
    have hat : policyAt (older ++ [s]) r.policyVersion = some s.policy := by
      rw [hversion, List.length_append, List.length_singleton]
      show (older ++ [s])[older.length]?.map _ = _
      rw [List.getElem?_concat_length]
      rfl
    refine ⟨{ s.policy with version := r.policyVersion, version_ge := hge }, ?_, hversion, hat⟩
    rw [hlast]
    show PlaceGame.versioned r (some _) = _
    unfold PlaceGame.versioned
    dsimp only
    rw [dif_pos hge, if_pos hversion.symm, AccountPolicy.modelValidate_modelDump]

theorem Holds.read {v : VersionedPolicy} (h : Holds a history w) (hv : w.policyGet a = .ok v) :
    policyAt history v.version = some v.toAccountPolicy := by
  cases hget : w.accounts.get a with
  | none =>
    unfold World.policyGet at hv
    rw [hget] at hv
    cases hv
  | some r =>
    obtain ⟨v', hv', -, hat⟩ := h.versioned hget
    cases hv.symm.trans hv'
    exact hat

/-- The version and the row are the same. -/
structure Same (a : AccountId) (w w' : World) : Prop where
  version : accountVersion a w' = accountVersion a w
  row : w'.policies.get a = w.policies.get a

theorem Same.of_eq (haccounts : w'.accounts = w.accounts) (hpolicies : w'.policies = w.policies) :
    Same a w w' := by
  refine ⟨?_, by rw [hpolicies]⟩
  unfold accountVersion
  rw [haccounts]

theorem Holds.same (h : Holds a history w) (hs : Same a w w') : Holds a history w' :=
  ⟨hs.version.trans h.account, hs.row.trans h.row⟩

/-- The policy becomes the next version. -/
structure Saved (a : AccountId) (policy : AccountPolicy) (w w' : World) : Prop where
  version : accountVersion a w' = accountVersion a w + 1
  row : w'.policies.get a = some ⟨policy.modelDump, accountVersion a w + 1⟩

theorem Holds.saved {s : Save} (h : Holds a history w) (hs : Saved a s.policy w w') :
    Holds a (history ++ [s]) w' := by
  have hlength : (history ++ [s]).length = accountVersion a w := by
    rw [List.length_append, List.length_singleton, h.account]
  refine ⟨by rw [hs.version, hlength], ?_⟩
  rw [hs.row, hlength, List.getLast?_concat]
  rfl

/-- A commit within the scope of its call: only the save of a policy for this account changes its
policy rows, and only when it expects the version that is there. -/
theorem commit_cases {t : TaskId} {m : Scope} {call : Call} {ws : Writes}
    (hok : m.CommitOk call ws) (hm : Matches t m.seen w) :
    (Same a w (w.apply ws) ∧ ∀ row, ws.policy ≠ some (a, row)) ∨
      ∃ policy actor, call = .savePolicy a policy (accountVersion a w) actor ∧
        Saved a policy w (w.apply ws) ∧ ws.policy.isSome = true := by
  cases hacc : ws.account with
  | none =>
    have hnone := hok.policy hacc
    refine .inl ⟨.of_eq ?_ ?_, fun row hrow => by rw [hnone] at hrow; cases hrow⟩
    · show World.store w.accounts ws.account = _
      rw [hacc]
      rfl
    · show World.store w.policies ws.policy = _
      rw [hnone]
      rfl
  | some e =>
    obtain ⟨b, r⟩ := e
    have hwritten := hok.account b r hacc
    have hgetb : (w.apply ws).accounts.get b = some r := by
      rcases World.get_apply_accounts w ws b with ⟨-, hne⟩ | ⟨r', hr', hget⟩
      · exact absurd hacc (hne r)
      · cases hacc.symm.trans hr'
        exact hget
    by_cases hb : b = a
    · subst hb
      cases hwritten with
      | @kept r₀ _ hrow hversion hnone =>
        have hold := accountVersion_of (hm.row b r₀ hrow).2
        refine .inl ⟨⟨?_, ?_⟩, fun row hrow => by rw [hnone] at hrow; cases hrow⟩
        · rw [accountVersion_of hgetb, hold, hversion]
        · show (World.store w.policies ws.policy).get b = _
          rw [hnone]
          rfl
      | @saves r₀ _ hrow hs =>
        obtain ⟨policy, e, actor, hcall, hexpected, hversion, hwrite⟩ := hs
        have hold := accountVersion_of (hm.row b r₀ hrow).2
        refine .inr ⟨policy, actor, ?_, ⟨?_, ?_⟩, by rw [hwrite]; rfl⟩
        · rw [hcall, hexpected, hold]
        · rw [accountVersion_of hgetb, hold, hversion]
        · rw [hold]
          rcases World.get_store w.policies ws.policy b with ⟨-, hne⟩ | ⟨row, hrow, hget⟩
          · exact absurd hwrite (hne _)
          · cases hwrite.symm.trans hrow
            exact hget
      | enrols _ hfresh hversion hnone =>
        refine .inl ⟨⟨?_, ?_⟩, fun row hrow => by rw [hnone] at hrow; cases hrow⟩
        · rw [accountVersion_of hgetb, hversion]
          unfold accountVersion
          rw [(hm.fresh b hfresh).2.1]
        · show (World.store w.policies ws.policy).get b = _
          rw [hnone]
          rfl
    · have hpolicy : ∀ row, ws.policy ≠ some (a, row) := by
        intro row hrow
        cases hwritten with
        | kept _ _ _ hnone => rw [hnone] at hrow; cases hrow
        | enrols _ _ _ hnone => rw [hnone] at hrow; cases hrow
        | saves _ _ hs =>
          obtain ⟨_, _, _, _, _, _, hwrite⟩ := hs
          cases hrow.symm.trans hwrite
          exact hb rfl
      refine .inl ⟨⟨?_, ?_⟩, hpolicy⟩
      · have hget : (w.apply ws).accounts.get a = w.accounts.get a := by
          rcases World.get_apply_accounts w ws a with ⟨h, -⟩ | ⟨r', hr', -⟩
          · exact h
          · cases hacc.symm.trans hr'
            exact absurd rfl hb
        unfold accountVersion
        rw [hget]
      · rcases World.get_store w.policies ws.policy a with ⟨h, -⟩ | ⟨row, hrow, -⟩
        · exact h
        · exact absurd hrow (hpolicy row)

end Rows

section Runs

variable {T : Type} {P : Ports} {a : AccountId} {history : List Save}
variable {c c' : Config (machine T P)} {t : TaskId} {U : Task (machine T P)} {m : Scope}

/-- A step adds to the history the save that it commits. -/
inductive Recorded (a : AccountId) (history : List Save) (c c' : Config (machine T P)) :
    List Save → Prop where
  | same (h : Same a c.world c'.world) : Recorded a history c c' history
  | saved {t : TaskId} {U : Task (machine T P)} {policy : AccountPolicy} {actor : Actor} {ws : Writes}
      (task : c.task t = some U) (pending : c.awaits t = some (.commit ws))
      (call : U.call = .savePolicy a policy (history.length + 1 : Nat) actor)
      (h : Saved a policy c.world c'.world) : Recorded a history c c' (history ++ [⟨t, policy⟩])

theorem tried_next {o : Op T} {r : Except Exc o.Val} (h : m.tried = true) :
    (m.next o r).tried = true := by
  show (m.read o r).tried = true
  unfold Scope.read
  split <;> simp [h]

theorem tried_commit {ws : Writes} (h : ws.policy.isSome = true)
    (r : Except Exc (Op.commit (T := T) ws).Val) : (m.next (.commit ws) r).tried = true := by
  show (m.read (.commit ws) r).tried = true
  cases r <;> simp [Scope.read, h]

/-- A save is known to have succeeded since its commit was answered. -/
theorem saved_next {o : Op T} {r : Except Exc o.Val} (h : (m.next o r).saved = true) :
    m.saved = true ∨ ∃ ws : Writes, ws.policy.isSome = true ∧
      (⟨o, r⟩ : Event (sig T)) = ⟨.commit ws, .ok ()⟩ := by
  change (m.read o r).saved = true at h
  unfold Scope.read at h
  split at h
  · exact .inl h
  · exact .inl h
  · exact .inl h
  · rename_i ws v
    rcases Bool.or_eq_true_iff.mp h with h | h
    · exact .inl h
    · exact .inr ⟨ws, h, rfl⟩
  · exact .inl h
  · exact .inl h

theorem policy_of_save {policy : AccountPolicy} {e : Int} {actor : Actor} {ws : Writes}
    (hok : m.CommitOk (.savePolicy a policy e actor) ws) (hp : ws.policy.isSome = true) :
    ∃ row, ws.policy = some (a, row) := by
  cases hacc : ws.account with
  | none =>
    rw [hok.policy hacc] at hp
    cases hp
  | some entry =>
    cases hok.account entry.1 entry.2 hacc with
    | kept _ _ _ hnone => rw [hnone] at hp; cases hp
    | enrols hcall _ _ _ => cases hcall
    | saves _ _ hs =>
      obtain ⟨_, _, _, hcall, _, _, hwrite⟩ := hs
      cases hcall
      exact ⟨_, hwrite⟩

/-- What the history has to do with the world and with the tasks. -/
structure Linear (a : AccountId) (history : List Save) (c : Config (machine T P)) : Prop where
  holds : Holds a history c.world
  saves : ∀ i s, history[i]? = some s → ∃ U actor, c.task s.task = some U ∧
    U.call = .savePolicy a s.policy (i + 1 : Nat) actor ∧ (scopeOf U).tried = true
  saved : ∀ t U policy e actor, c.task t = some U → U.call = .savePolicy a policy e actor →
    (scopeOf U).saved = true → ∃ i, history[i]? = some ⟨t, policy⟩ ∧ e = (i + 1 : Nat)
  reads : ∀ t U v, c.task t = some U → ⟨.policyGet a, .ok v⟩ ∈ U.hist →
    policyAt history v.version = some v.toAccountPolicy

theorem Linear.start {w : World} (h : New a w) : Linear a [] (.start w : Config (machine T P)) where
  holds := h.holds
  saves i s hs := by cases hs
  saved t U policy e actor hU := by cases hU
  reads t U v hU := by cases hU

/-- The task of a save goes on, and its commit has been tried. -/
theorem saves_step (hst : Step c c') {s : Save} {e : Int}
    (h : ∃ U actor, c.task s.task = some U ∧ U.call = .savePolicy a s.policy e actor ∧
      (scopeOf U).tried = true) :
    ∃ U actor, c'.task s.task = some U ∧ U.call = .savePolicy a s.policy e actor ∧
      (scopeOf U).tried = true := by
  obtain ⟨U, actor, hU, hcall, htried⟩ := h
  obtain ⟨U', hU', hcall', -⟩ := hst.keeps hU
  refine ⟨U', actor, hU', hcall'.trans hcall, ?_⟩
  rcases hst.task_cases hU' with ⟨hnone, -⟩ | ⟨V, hV, -, ⟨hsame, -⟩ | ⟨o, k, r, -, -, -, rfl⟩⟩
  · rw [hU] at hnone
    cases hnone
  · cases hU.symm.trans hV
    unfold scopeOf
    rw [hcall', hsame]
    exact htried
  · cases hU.symm.trans hV
    exact tried_next htried

/-- A read was answered before, or is answered now. -/
theorem reads_step (hl : Linear a history c) (hst : Step c c') {U' : Task (machine T P)}
    {v : VersionedPolicy} (hU' : c'.task t = some U')
    (hv : (⟨.policyGet a, .ok v⟩ : Event (sig T)) ∈ U'.hist) :
    policyAt history v.version = some v.toAccountPolicy := by
  rcases hst.task_cases hU' with ⟨-, hnew⟩ | ⟨U, hU, -, ⟨hsame, -⟩ | ⟨o, k, r, -, -, hperf, rfl⟩⟩
  · rw [hnew] at hv
    cases hv
  · exact hl.reads t U v hU (hsame ▸ hv)
  · rcases List.mem_cons.mp hv with heq | hv
    · cases heq
      rcases hperf.effect_or with ⟨reply, heff⟩ | ⟨-, he, -⟩
      · exact hl.holds.read (Prod.mk.inj (Option.some.inj heff)).1
      · cases he
    · exact hl.reads t U v hU hv

/-- Nothing was committed for the account, and no save learnt of its success. -/
theorem Linear.same (hl : Linear a history c) (hst : Step c c') (hs : Same a c.world c'.world)
    (hsaved : ∀ t U' policy e actor, c'.task t = some U' → U'.call = .savePolicy a policy e actor →
      (scopeOf U').saved = true → ∃ U, c.task t = some U ∧ U.call = U'.call ∧
        (scopeOf U).saved = true) : Linear a history c' where
  holds := hl.holds.same hs
  saves i s hi := saves_step hst (hl.saves i s hi)
  saved t U' policy e actor hU' hcall h := by
    obtain ⟨U, hU, hsame, hbefore⟩ := hsaved t U' policy e actor hU' hcall h
    exact hl.saved t U policy e actor hU (hsame.trans hcall) hbefore
  reads t U' v hU' hv := reads_step hl hst hU' hv

theorem task_other {w : World} {u : TaskId} {U' V : Task (machine T P)} (hne : t ≠ u)
    (hU' : (({ c with world := w } : Config (machine T P)).setTask u V).task t = some U') :
    c.task t = some U' := by
  rw [Config.setTask_ne _ _ hne] at hU'
  exact hU'

variable {w w' : World} {o : Op T} {r : Except Exc o.Val}
variable {k : Except Exc o.Val → Proc (sig T) (Except Exc (Returned T))}

theorem Linear.exec (hw : w.Sound) (hr : Reachable (.start w) c) (hl : Linear a history c)
    (hU : c.task t = some U) (ha : U.alive = true) (hp : U.prog = .call o k)
    (hperf : World.Perform t c.world o r w') :
    ∃ history', Recorded a history c
        (({ c with world := w' } : Config (machine T P)).setTask t (U.advance o r (k r))) history' ∧
      Linear a history'
        (({ c with world := w' } : Config (machine T P)).setTask t (U.advance o r (k r))) := by
  have hst := Step.exec t r hU ha hp hperf
  have hself := Config.setTask_self (K := machine T P) { c with world := w' } t (U.advance o r (k r))
  by_cases hc : ∃ ws, o = .commit ws ∧ w' = (c.world.apply ws).release t
  · obtain ⟨ws, rfl, rfl⟩ := hc
    have hok : (scopeOf U).CommitOk U.call ws := scope_allowed hr hU hp
    have hm : Matches t (scopeOf U).seen c.world := by
      rw [scopeOf_seen]
      exact (safe_of_reachable hw hr).matches_ t U hU ha
    rcases commit_cases (a := a) hok hm with ⟨hsame, hnone⟩ | ⟨policy, actor, hcall, hsaved, hsome⟩
    · have hsame' : Same a c.world ((c.world.apply ws).release t) := ⟨hsame.version, hsame.row⟩
      refine ⟨history, .same hsame', hl.same hst hsame' ?_⟩
      intro t' U' policy e actor hU' hcall h
      by_cases ht : t' = t
      · subst ht
        rw [hself] at hU'
        cases hU'
        rcases saved_next h with h | ⟨ws', hsome, heq⟩
        · exact ⟨U, hU, rfl, h⟩
        · cases heq
          change U.call = _ at hcall
          rw [hcall] at hok
          obtain ⟨row, hrow⟩ := policy_of_save hok hsome
          exact absurd hrow (hnone row)
      · exact ⟨U', task_other ht hU', rfl, h⟩
    · have hsaved' : Saved a policy c.world ((c.world.apply ws).release t) :=
        ⟨hsaved.version, hsaved.row⟩
      rw [hl.holds.account] at hcall
      have hpending : c.awaits t = some (.commit ws) := by
        unfold Config.awaits Task.pending
        rw [hU, Option.bind_some, if_pos ha, hp]
      refine ⟨history ++ [⟨t, policy⟩], .saved hU hpending hcall hsaved',
        hl.holds.saved hsaved', ?_, ?_, ?_⟩
      · intro i s hi
        rcases Nat.lt_trichotomy i history.length with hlt | rfl | hgt
        · rw [List.getElem?_append_left hlt] at hi
          exact saves_step hst (hl.saves i s hi)
        · rw [List.getElem?_concat_length] at hi
          cases hi
          exact ⟨_, actor, hself, hcall, tried_commit hsome r⟩
        · rw [List.getElem?_eq_none (by simp; omega)] at hi
          cases hi
      · intro t' U' policy' e actor' hU' hcall' h
        by_cases ht : t' = t
        · subst ht
          rw [hself] at hU'
          cases hU'
          cases hcall.symm.trans hcall'
          exact ⟨history.length, List.getElem?_concat_length, rfl⟩
        · obtain ⟨i, hi, he⟩ := hl.saved t' U' policy' e actor' (task_other ht hU') hcall' h
          refine ⟨i, ?_, he⟩
          rw [List.getElem?_append_left (List.getElem?_eq_some_iff.mp hi).1]
          exact hi
      · intro t' U' v hU' hv
        exact policyAt_append (reads_step hl hst hU' hv) _
  · have hrows := (World.Perform.rows hperf).resolve_left hc
    have hsame : Same a c.world w' := .of_eq hrows.accounts hrows.policies
    refine ⟨history, .same hsame, hl.same hst hsame ?_⟩
    intro t' U' policy e actor hU' hcall h
    by_cases ht : t' = t
    · subst ht
      rw [hself] at hU'
      cases hU'
      rcases saved_next h with h | ⟨ws, -, heq⟩
      · exact ⟨U, hU, rfl, h⟩
      · cases heq
        exact absurd ⟨ws, rfl, World.Perform.committed hperf rfl⟩ hc
    · exact ⟨U', task_other ht hU', rfl, h⟩

theorem Linear.step (hw : w.Sound) (hr : Reachable (.start w) c) (hl : Linear a history c)
    (hst : Step c c') : ∃ history', Recorded a history c c' history' ∧ Linear a history' c' := by
  cases id hst with
  | @exec u V o k r w' hV ha hp hperf => exact hl.exec hw hr hV ha hp hperf
  | @spawn u call hu =>
    have hsame : Same a c.world c.world := .of_eq rfl rfl
    refine ⟨history, .same hsame, hl.same hst hsame ?_⟩
    intro t' U' policy e actor hU' _ h
    by_cases ht : t' = u
    · subst ht
      rw [Config.setTask_self] at hU'
      cases hU'
      cases h
    · rw [Config.setTask_ne _ _ ht] at hU'
      exact ⟨U', hU', rfl, h⟩
  | @crash u V hV ha =>
    have hsame : Same a c.world (World.crash u c.world) := .of_eq rfl rfl
    refine ⟨history, .same hsame, hl.same hst hsame ?_⟩
    intro t' U' policy e actor hU' _ h
    by_cases ht : t' = u
    · subst ht
      rw [Config.setTask_self] at hU'
      cases hU'
      exact ⟨V, hV, rfl, h⟩
    · exact ⟨U', task_other ht hU', rfl, h⟩
  | @env w' he =>
    have hsame : Same a c.world w' := .of_eq (by cases he <;> rfl) (by cases he <;> rfl)
    exact ⟨history, .same hsame, hl.same hst hsame fun t' U' _ _ _ hU' _ h => ⟨U', hU', rfl, h⟩⟩

/-- A run adds to the history the saves that it commits, in their order. -/
abbrev Records (a : AccountId) : Config (machine T P) × List Save →
    Config (machine T P) × List Save → Prop :=
  Relation.ReflTransGen fun x y => Step x.1 y.1 ∧ Recorded a x.2 x.1 y.1 y.2

theorem Recorded.grows {history' : List Save} (h : Recorded a history c c' history') :
    history <+: history' := by
  cases h with
  | same _ => exact List.prefix_rfl
  | saved _ _ _ _ => exact List.prefix_append ..

theorem Linear.run (hw : w.Sound) (hr : Reachable (.start w) c) (hl : Linear a history c)
    (h : Reachable c c') :
    ∃ more, Records a (c, history) (c', history ++ more) ∧ Linear a (history ++ more) c' := by
  induction h with
  | refl => exact ⟨[], by rw [List.append_nil]; exact ⟨.refl, hl⟩⟩
  | tail h hst ih =>
    obtain ⟨more, hrec, hl'⟩ := ih
    obtain ⟨history', hadd, hl''⟩ := hl'.step hw (hr.trans h) hst
    obtain ⟨last, rfl⟩ := (List.prefix_append ..).trans hadd.grows
    exact ⟨last, hrec.tail ⟨hst, hadd⟩, hl''⟩

/-- A save of the account that has ended with this outcome. -/
def Ended (a : AccountId) (c : Config (machine T P)) (t : TaskId) (policy : AccountPolicy) (e : Int)
    (r : Except Exc (Returned T)) : Prop :=
  ∃ U actor, c.task t = some U ∧ U.call = .savePolicy a policy e actor ∧ U.prog = .ret r

/-- What the history tells about the rows and about every answer given so far. -/
structure Tells (a : AccountId) (history : List Save) (c : Config (machine T P)) : Prop where
  /-- The account row and the policy row carry the same version; without a policy row it is 1. -/
  versions : ∀ r, c.world.accounts.get a = some r → r.policyVersion = history.length + 1 ∧
    ((c.world.policies.get a).map (·.policyVersion)).getD 1 = r.policyVersion
  /-- Reading the policy now gives the newest version. -/
  newest : ∀ r, c.world.accounts.get a = some r → ∃ v, c.world.policyGet a = .ok v ∧
    v.version = r.policyVersion ∧ policyAt history v.version = some v.toAccountPolicy
  /-- Whoever has read a version got the policy that was saved as this version. -/
  reads : ∀ t U v, c.task t = some U → ⟨.policyGet a, .ok v⟩ ∈ U.hist →
    policyAt history v.version = some v.toAccountPolicy
  /-- A save that succeeded made the version after the one it expected. -/
  succeeded : ∀ t policy e x, Ended a c t policy e (.ok x) → ∃ (i : Nat) (v : VersionedPolicy),
    history[i]? = some ⟨t, policy⟩ ∧ e = (i + 1 : Nat) ∧ x = .policy v ∧
      v.toAccountPolicy = policy ∧ v.version = i + 2
  /-- Of the saves that expect one version, at most one succeeds. -/
  winner : ∀ t t' policy policy' e x x', Ended a c t policy e (.ok x) →
    Ended a c t' policy' e (.ok x') → t = t'
  /-- A save that was refused has changed nothing. -/
  refused : ∀ t policy e x, Ended a c t policy e (.error x) →
    x = .policyConflict ∨ x = .policyUnavailable → ∀ s ∈ history, s.task ≠ t

theorem ended_post (hr : Reachable (.start w) c) {policy : AccountPolicy} {e : Int} {actor : Actor}
    {x : Except Exc (Returned T)} (hU : c.task t = some U)
    (hcall : U.call = .savePolicy a policy e actor) (hp : U.prog = .ret x) :
    (scopeOf U).Post x (.savePolicy a policy e actor) := by
  have hwp := (Reachable.follows (scope_watched P) hr t U hU).wp
  rw [hp] at hwp
  exact hcall ▸ hwp

theorem Linear.tells (hr : Reachable (.start w) c) (hl : Linear a history c) : Tells a history c := by
  have hsucceeded : ∀ t policy e x, Ended a c t policy e (.ok x) →
      ∃ (i : Nat) (v : VersionedPolicy), history[i]? = some ⟨t, policy⟩ ∧ e = (i + 1 : Nat) ∧
        x = .policy v ∧ v.toAccountPolicy = policy ∧ v.version = i + 2 := by
    rintro t policy e x ⟨U, actor, hU, hcall, hp⟩
    obtain ⟨hsaved, v, hx, hpolicy, hversion⟩ := (ended_post hr hU hcall hp).1 x rfl
    obtain ⟨i, hi, he⟩ := hl.saved t U policy e actor hU hcall hsaved
    exact ⟨i, v, hi, he, hx, hpolicy, by omega⟩
  constructor
  case succeeded => exact hsucceeded
  case reads => exact hl.reads
  case versions =>
    intro r hget
    have hversion : r.policyVersion = history.length + 1 :=
      (accountVersion_of hget).symm.trans hl.holds.account
    refine ⟨hversion, ?_⟩
    rw [hl.holds.row, hversion]
    cases history.eq_nil_or_concat with
    | inl hnil => rw [hnil]; rfl
    | inr h =>
      obtain ⟨older, s, rfl⟩ := h
      rw [List.concat_eq_append, List.getLast?_concat]
      rfl
  case newest =>
    intro r hget
    obtain ⟨v, hv, hversion, hat⟩ := hl.holds.versioned hget
    exact ⟨v, hv, hversion.trans ((accountVersion_of hget).symm.trans hl.holds.account).symm, hat⟩
  case winner =>
    intro t t' policy policy' e x x' h h'
    obtain ⟨i, -, hi, he, -⟩ := hsucceeded t policy e x h
    obtain ⟨j, -, hj, he', -⟩ := hsucceeded t' policy' e x' h'
    have hij : i = j := by omega
    subst hij
    exact congrArg Save.task (Option.some.inj (hi.symm.trans hj))
  case refused =>
    rintro t policy e x ⟨U, actor, hU, hcall, hp⟩ hx s hs rfl
    obtain ⟨i, hi⟩ := List.mem_iff_getElem?.mp hs
    obtain ⟨V, _, hV, -, htried⟩ := hl.saves i s hi
    cases hU.symm.trans hV
    have hnot := (ended_post hr hU hcall hp).2 (hx.imp (congrArg _) (congrArg _))
    rw [hnot] at htried
    cases htried

/-- The policies of a new account form a linear history: whatever runs, the history grows by the
saves whose commits change the rows, each by one version, and it tells every state and every answer. -/
theorem policies_linear (hw : w.Sound) (hnew : New a w) (h : Reachable (.start w) c) :
    ∃ history, Records a (.start w, []) (c, history) ∧ Tells a history c ∧
      ∀ c', Reachable c c' → ∃ more, Records a (c, history) (c', history ++ more) ∧
        Tells a (history ++ more) c' := by
  obtain ⟨history, hrec, hl⟩ := (Linear.start hnew).run (c := .start w) hw .refl h
  rw [List.nil_append] at hrec hl
  refine ⟨history, hrec, hl.tells h, ?_⟩
  intro c' h'
  obtain ⟨more, hrec', hl'⟩ := hl.run hw h h'
  exact ⟨more, hrec', hl'.tells (h.trans h')⟩

end Runs

section Example

/-- Two saves that expect the same version. -/
def rivals : Config (machine Unit samplePorts) :=
  run (run (run (.start {}) 0 (.addTokenOnly "first" "g1" operator) friendlyGame 12)
    1 (.savePolicy 0 { defaultPolicy with inventoryKeepItemIds := {"9", "10"} } 1 operator) friendlyGame 12)
    2 (.savePolicy 0 defaultPolicy.toAccountPolicy 1 operator) friendlyGame 12

theorem policies_linear_rivals :
    ∃ history, Records 0 (.start {}, []) (rivals, history) ∧ Tells 0 history rivals ∧
      ∀ c', Reachable rivals c' → ∃ more, Records 0 (rivals, history) (c', history ++ more) ∧
        Tells 0 (history ++ more) c' :=
  policies_linear World.sound_empty ⟨fun _ h => (by cases h), rfl⟩
    (((reachable_run _ 0 _ _ _).trans (reachable_run _ 1 _ _ _)).trans (reachable_run _ 2 _ _ _))

end Example

end PolicyHistory

end PlaceGame
