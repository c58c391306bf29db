import PlaceGame.Policy.Claims
import PlaceGame.Policy.SenderSafe

/-!
# PlaceGame.Policy.Verdicts

What a `mutate` records about its plan, and that it stays.

A `mutate` looks at the state of its plan when it reads it, not when it writes it. What keeps the
verdict is the account row, which is locked from before the reading until after the commit: once a
plan has ended and no open transaction has read it as open, its row never changes again.
-/

namespace PlaceGame

open Coop

variable {T : Type}

/-! ## Readings -/

namespace Sender

variable {m m' : Sender} {w w' : World} {t : TaskId} {o : Op T} {r : Except Exc o.Val}
variable {call : Call} {args : MutateArgs} {a : AccountId} {p : PlanId} {plan : ActionPlan}

theorem Same.symm (h : m.Same m') : m'.Same m :=
  ⟨h.plan.symm, h.row.symm, h.tries.symm, h.posted.symm, h.settled.symm⟩

theorem got_plan {r : Except Exc (Option ActionPlan)}
    (h : World.Perform t w (.getPlan p : Op T) r w') (hr : r = .ok (some plan)) :
    w.plans.get p = some plan := by
  subst hr
  rcases h.effect_or with ⟨_, h⟩ | ⟨-, h, -⟩
  · simp only [World.effect, Option.some.injEq, Prod.mk.injEq, Except.ok.injEq] at h
    exact h.1
  · cases h

/-- A plan that counts as read was read before, in a transaction that goes on, or just now. -/
theorem read_next (hp : World.Perform t w o r w') (h : (m.next o r).Read a p plan) :
    (m.Read a p plan ∨ w.plans.get p = some plan) ∧ (m.next o r).settled = m.settled := by
  by_cases ho : o.Aside
  · have hs := same_next (m := m) ho r
    exact ⟨.inl (h.same hs.symm), hs.settled⟩
  cases o with
  | getPlan q =>
    rcases r with e | found
    · exact ⟨.inl ⟨h.read, h.account, h.row⟩, rfl⟩
    · cases found with
      | none => exact ⟨.inl ⟨h.read, h.account, h.row⟩, rfl⟩
      | some found =>
        obtain ⟨rfl, rfl⟩ := Prod.mk.inj (Option.some.inj h.read)
        exact ⟨.inr (got_plan hp rfl), rfl⟩
  | accountForUpdate b =>
    rcases r with e | found
    · exact ⟨.inl ⟨h.read, h.account, h.row⟩, rfl⟩
    · cases found with
      | none => exact ⟨.inl ⟨h.read, h.account, h.row⟩, rfl⟩
      | some row => cases h.read
  | commit ws => cases r <;> exact absurd h.row (by rintro ⟨_, ⟨⟩⟩)
  | rollback => cases r <;> exact absurd h.row (by rintro ⟨_, ⟨⟩⟩)
  | selectPlan q =>
    rcases r with e | found
    · exact ⟨.inl ⟨h.read, h.account, h.row⟩, rfl⟩
    · cases found <;> exact ⟨.inl ⟨h.read, h.account, h.row⟩, rfl⟩
  | operation b q api => cases r <;> exact ⟨.inl ⟨h.read, h.account, h.row⟩, rfl⟩
  | idleCollect b q api => cases r <;> exact ⟨.inl ⟨h.read, h.account, h.row⟩, rfl⟩
  | _ => exact absurd trivial ho

theorem settled_next : (m.next o r).settled = m.settled ∨
    ∃ ws, o = .commit ws ∧ (∃ x, r = .ok x) ∧ m.posted = true ∧
      (m.next o r).settled = finalOf ws.plans ∧ (m.next o r).seen.row = none := by
  by_cases ho : o.Aside
  · exact .inl (same_next ho r).settled
  cases o with
  | commit ws =>
    cases r with
    | error e => exact .inl rfl
    | ok x =>
      cases hp : m.posted with
      | true =>
        refine .inr ⟨ws, rfl, ⟨x, rfl⟩, rfl, ?_, rfl⟩
        show (if m.posted = true then finalOf ws.plans else m.settled) = _
        rw [if_pos hp]
      | false =>
        left
        show (if m.posted = true then finalOf ws.plans else m.settled) = _
        rw [if_neg (by simp [hp])]
  | rollback => cases r <;> exact .inl rfl
  | getPlan q => cases r <;> exact .inl rfl
  | accountForUpdate b => cases r <;> exact .inl rfl
  | selectPlan q =>
    rcases r with e | found
    · exact .inl rfl
    · cases found <;> exact .inl rfl
  | operation b q api => cases r <;> exact .inl rfl
  | idleCollect b q api => cases r <;> exact .inl rfl
  | _ => exact absurd trivial ho

/-- Induction on the history: what a `mutate` has read when its operation ends was fresh, and it reads
nothing else before the commit. -/
theorem posted_read {h : List (Event (sig T))} (hv : (sender T (.mutate args)).Valid h)
    (hp : args.planId = some p) (hposted : ((sender T (.mutate args)).after h).posted = true)
    (hrow : ((sender T (.mutate args)).after h).seen.row ≠ none) :
    ∃ plan, ((sender T (.mutate args)).after h).Read args.accountId p plan ∧
      plan.executionState.fresh = true := by
  induction h with
  | nil => cases hposted
  | cons e h ih =>
    obtain ⟨o, r⟩ := e
    obtain ⟨hok, hvalid⟩ := hv
    have hbefore := ih hvalid
    have hok : ((sender T (.mutate args)).after h).ok (.mutate args) o := hok
    show ∃ plan, (Sender.next _ o r).Read args.accountId p plan ∧ _
    replace hposted : (Sender.next ((sender T (.mutate args)).after h) o r).posted = true := hposted
    replace hrow : (Sender.next ((sender T (.mutate args)).after h) o r).seen.row ≠ none := hrow
    generalize (sender T (.mutate args)).after h = m at hbefore hok hposted hrow
    have hkept : (m.next o r).posted = m.posted → (m.next o r).seen.row = m.seen.row →
        (m.next o r).seen.plan = m.seen.plan → ∃ plan, (m.next o r).Read args.accountId p plan ∧
          plan.executionState.fresh = true := by
      intro hp' hr hpl
      obtain ⟨plan, hread, hfresh⟩ := hbefore (hp' ▸ hposted) (hr ▸ hrow)
      exact ⟨plan, ⟨hpl.trans hread.read, hread.account, hr ▸ hread.row⟩, hfresh⟩
    by_cases ho : o.Aside
    · have hs := same_next (m := m) ho r
      exact hkept hs.posted hs.row hs.plan
    cases o with
    | getPlan q =>
      have hun : m.posted = false := hok
      have hstill : (m.next (Op.getPlan (T := T) q) r).posted = m.posted := by cases r <;> rfl
      rw [hstill, hun] at hposted
      cases hposted
    | accountForUpdate b =>
      have hun : m.posted = false := hok
      have hstill : (m.next (Op.accountForUpdate (T := T) b) r).posted = m.posted := by
        cases r <;> rfl
      rw [hstill, hun] at hposted
      cases hposted
    | commit ws => cases r <;> exact absurd rfl hrow
    | rollback => cases r <;> exact absurd rfl hrow
    | selectPlan q =>
      rcases r with e | found
      · exact hkept rfl rfl rfl
      · cases found <;> exact hkept rfl rfl rfl
    | idleCollect b q api => cases r <;> exact hkept rfl rfl rfl
    | operation b q api =>
      obtain ⟨args', hcall, hmay⟩ := hok
      cases hcall
      obtain ⟨plan, hread, hfresh⟩ := hmay.fresh p (hmay.planId.symm.trans hp)
      have hseen : (m.next (Op.operation (T := T) b q api) r).seen = m.seen := by cases r <;> rfl
      refine ⟨plan, ⟨by rw [hseen]; exact hread.read, ?_, by rw [hseen, hmay.account]; exact hread.row⟩,
        hfresh⟩
      rw [hread.account, hmay.account]
    | _ => exact absurd trivial ho

end Sender

/-! ## Attempts -/

def operations : List (Event (sig T)) → List (Except Exc T)
  | [] => []
  | ⟨.operation _ _ _, r⟩ :: h => r :: operations h
  | _ :: h => operations h

namespace Sender

variable {call : Call} {m : Sender} {o : Op T} {r : Except Exc o.Val}

/-- What a sender knows about its attempts. -/
structure Counts (m : Sender) (rs : List (Except Exc T)) : Prop where
  tries : m.tries = rs.length
  most : rs.length ≤ 3
  repeated : ∀ r ∈ rs.tail, conflict r = true
  posted : m.posted = false → ∀ r ∈ rs, conflict r = true

theorem Counts.same {m' : Sender} {rs : List (Except Exc T)} (h : m.Counts rs)
    (ht : m'.tries = m.tries) (hp : m'.posted = m.posted) : m'.Counts rs :=
  ⟨ht.trans h.tries, h.most, h.repeated, fun hu => h.posted (hp ▸ hu)⟩

/-- Induction on the history: another operation follows a conflict only. -/
theorem counts {h : List (Event (sig T))} (hv : (sender T call).Valid h) :
    ((sender T call).after h).Counts (operations h) := by
  induction h with
  | nil => exact ⟨rfl, Nat.zero_le _, fun _ h => (by cases h), fun _ _ h => (by cases h)⟩
  | cons e h ih =>
    obtain ⟨o, r⟩ := e
    obtain ⟨hok, hvalid⟩ := hv
    have hcounts := ih hvalid
    have hok : ((sender T call).after h).ok call o := hok
    show (Sender.next _ o r).Counts (operations (⟨o, r⟩ :: h))
    generalize (sender T call).after h = m at hcounts hok
    cases o with
    | operation a q api =>
      obtain ⟨args, -, hmay⟩ := hok
      have hall := hcounts.posted hmay.unposted
      refine ⟨?_, ?_, hall, fun hu x hx => ?_⟩
      · show m.tries + 1 = (operations h).length + 1
        rw [hcounts.tries]
      · show (operations h).length + 1 ≤ 3
        have := hmay.tries
        rw [hcounts.tries] at this
        omega
      · rcases List.mem_cons.mp hx with rfl | hx
        · have hu : (!conflict x) = false := hu
          simpa using hu
        · exact hall x hx
    | commit ws => cases r <;> exact hcounts.same rfl rfl
    | rollback => cases r <;> exact hcounts.same rfl rfl
    | selectPlan q =>
      rcases r with e | found
      · exact hcounts.same rfl rfl
      · cases found <;> exact hcounts.same rfl rfl
    | _ => cases r <;> exact hcounts.same rfl rfl

end Sender

/-! ## Verdicts over all runs -/

section Runs

variable {P : Ports} {c c' : Config (machine T P)} {t u : TaskId} {U V : Task (machine T P)}
variable {w : World} {a b : AccountId} {p : PlanId} {plan plan' : ActionPlan} {state : PlanState}

/-- The requests of a task, as its monitor knows them. -/
def senderOf (U : Task (machine T P)) : Sender := (sender T U.call).after U.hist

theorem senderOf_seen (U : Task (machine T P)) : (senderOf U).seen = seen U := by
  unfold senderOf seen
  generalize U.hist = h
  induction h with
  | nil => rfl
  | cons e h ih =>
    show ((sender T U.call).after h).seen.next e.op e.ans = _
    rw [ih]
    rfl

theorem sends_follow (h : Reachable (.start w) c) (ht : c.task t = some U) :
    Reachable.Follows (sender T) (fun call m r => m.Post r call) U :=
  Reachable.follows (sender_watched P) h t U ht

theorem sends_allowed (h : Reachable (.start w) c) (ht : c.task t = some U) {o : Op T}
    {k : Except Exc o.Val → Proc (sig T) (Except Exc (Returned T))} (hp : U.prog = .call o k) :
    (senderOf U).ok U.call o :=
  Reachable.Follows.allowed (M := sender T) (sends_follow h ht) hp

/-- A task of the target of a step: it is new, it stays as it was, or it made this step. -/
theorem task_sender (h : Reachable (.start w) c) (hst : Step c c') {U' : Task (machine T P)}
    (ht : c'.task t = some U') :
    senderOf U' = {} ∨ ∃ U, c.task t = some U ∧ U'.call = U.call ∧
      ((senderOf U' = senderOf U ∧ (U'.alive = true → U.alive = true)) ∨
        ∃ (o : Op T) (r : Except Exc o.Val), U.alive = true ∧ (senderOf U).ok U.call o ∧
          World.Perform t c.world o r c'.world ∧ (∃ k, U.prog = .call o k) ∧
          (∀ u, u ≠ t → c'.task u = c.task u) ∧ senderOf U' = (senderOf U).next o r) := by
  rcases hst.task_cases ht with ⟨-, hnew⟩ | ⟨U, hU, hcall, ⟨hhist, -, halive⟩ | ⟨o, k, r, ha, hp, hw, rfl⟩⟩
  · left
    rw [hnew]
    rfl
  · refine .inr ⟨U, hU, hcall, .inl ⟨?_, halive⟩⟩
    unfold senderOf
    rw [hcall, hhist]
  · refine .inr ⟨U, hU, rfl, .inr ⟨o, r, ha, sends_allowed h hU hp, hw, ⟨k, hp⟩, ?_, rfl⟩⟩
    exact hst.others hU ht (List.cons_ne_self _ _)

/-- What was read is a plan of the account, whose row the reader holds. -/
theorem reader_holds (hw : w.Sound) (h : Reachable (.start w) c) (ht : c.task t = some U)
    (ha : U.alive = true) (hr : (senderOf U).Read a p plan) :
    (c.world.plans.get p).map ActionPlan.creation = some plan.creation ∧
      plan.accountId = a ∧ c.world.accountRows a = some t := by
  have hm := (safe_of_reachable hw h).matches_ t U ht ha
  obtain ⟨r, hrow⟩ := hr.row
  have hread := hr.read
  rw [senderOf_seen] at hrow hread
  exact ⟨hm.plan p plan hread, hr.account, (hm.row a r hrow).1⟩

/-- No two open transactions have read the same plan. -/
theorem reader_unique (hw : w.Sound) (h : Reachable (.start w) c) (ht : c.task t = some U)
    (hu : c.task u = some V) (hU : U.alive = true) (hV : V.alive = true)
    (hr : (senderOf U).Read a p plan) (hr' : (senderOf V).Read b p plan') : t = u := by
  obtain ⟨hcreation, haccount, hheld⟩ := reader_holds hw h ht hU hr
  obtain ⟨hcreation', haccount', hheld'⟩ := reader_holds hw h hu hV hr'
  rw [hcreation] at hcreation'
  have hsame : plan.accountId = plan'.accountId :=
    congrArg PlanCreation.accountId (Option.some.inj hcreation')
  rw [← haccount, hsame, haccount', hheld'] at hheld
  exact (Option.some.inj hheld).symm

/-- In its open transaction the task has read the plan as open. -/
structure OpenReader (p : PlanId) (U : Task (machine T P)) : Prop where
  alive : U.alive = true
  read : ∃ a plan, (senderOf U).Read a p plan ∧ plan.executionState.terminal = false

/-- The plan has ended, and no open transaction has read it as open. -/
structure Final (p : PlanId) (plan : ActionPlan) (c : Config (machine T P)) : Prop where
  row : c.world.plans.get p = some plan
  terminal : plan.executionState.terminal = true
  closed : ∀ t U, c.task t = some U → ¬ OpenReader p U

/-- A plan that is read as open after a step was read as open before it, or is open in the table. -/
theorem opens_before (h : Reachable (.start w) c) (hst : Step c c') {U' : Task (machine T P)}
    (ht : c'.task t = some U') (ho : OpenReader p U') :
    (∃ U, c.task t = some U ∧ OpenReader p U ∧ senderOf U' = senderOf U) ∨
      (∃ U, c.task t = some U ∧ OpenReader p U ∧ (senderOf U').settled = (senderOf U).settled ∧
        ∀ u, u ≠ t → c'.task u = c.task u) ∨
      ∃ U plan, c.task t = some U ∧ c.world.plans.get p = some plan ∧
        plan.executionState.terminal = false ∧ (senderOf U').settled = (senderOf U).settled ∧
        ∀ u, u ≠ t → c'.task u = c.task u := by
  obtain ⟨halive, a, plan, hread, hopen⟩ := ho
  rcases task_sender h hst ht with hnew | ⟨U, hU, -, ⟨hsame, ha⟩ |
    ⟨o, r, ha, -, hperform, -, hothers, hnext⟩⟩
  · rw [hnew] at hread
    cases hread.read
  · rw [hsame] at hread
    exact .inl ⟨U, hU, ⟨ha halive, a, plan, hread, hopen⟩, hsame⟩
  · rw [hnext] at hread ⊢
    obtain ⟨hread | hrow, hsettled⟩ := Sender.read_next hperform hread
    · exact .inr (.inl ⟨U, hU, ⟨ha, a, plan, hread, hopen⟩, hsettled, hothers⟩)
    · exact .inr (.inr ⟨U, plan, hU, hrow, hopen, hsettled, hothers⟩)

theorem opens_of_settles {args : MutateArgs} {ws : Writes} (ha : U.alive = true)
    (hs : (senderOf U).Settles args p ws) (hw : ws.plans ≠ []) : OpenReader p U := by
  rcases hs.plans with hnil | ⟨_, _, _, -, -, plan, hread, hopen⟩
  · exact absurd hnil hw
  · exact ⟨ha, _, plan, hread, hopen⟩

theorem Final.step (hw : w.Sound) (h : Reachable (.start w) c) (hf : Final p plan c)
    (hst : Step c c') : Final p plan c' where
  row := by
    rcases plan_step hw h hst p with hsame | ⟨plan', u, V, ws, hget, hedit⟩
    · exact hsame.trans hf.row
    · exfalso
      have hchange := hedit.change
      rw [hf.row] at hchange
      obtain ⟨k, hk⟩ := hedit.commit.next
      obtain ⟨args, hcall, hnames⟩ := hchange.of_terminal hf.terminal
      have hsettles : (senderOf V).Settles args p ws :=
        sends_allowed h hedit.commit.task hk args p hcall hnames
      refine hf.closed u V hedit.commit.task (opens_of_settles hedit.commit.alive hsettles ?_)
      cases hchange with
      | mutated _ _ hwrites _ => exact hwrites
      | updated hwrites _ _ =>
        rw [hwrites]
        exact List.cons_ne_nil _ _
  terminal := hf.terminal
  closed t U' ht ho := by
    rcases opens_before h hst ht ho with ⟨U, hU, hopens, -⟩ | ⟨U, hU, hopens, -⟩ |
      ⟨U, plan', hU, hrow, hopen, -⟩
    · exact hf.closed t U hU hopens
    · exact hf.closed t U hU hopens
    · rw [hf.row] at hrow
      cases hrow
      rw [hf.terminal] at hopen
      cases hopen

/-- Once a plan has ended and no open transaction has read it as open, its row is final, whatever
runs. -/
theorem verdict_final (hw : w.Sound) (h : Reachable (.start w) c) (hrun : Reachable c c')
    (hf : Final p plan c) : Final p plan c' := by
  induction hrun with
  | refl => exact hf
  | tail hrun hst ih => exact ih.step hw (h.trans hrun) hst

/-- The call is a `mutate` of the plan and has committed this state after its operation. -/
def Records (p : PlanId) (state : PlanState) (U : Task (machine T P)) : Prop :=
  ∃ args, U.call = .mutate args ∧ args.planId = some p ∧ (senderOf U).settled = some state

/-- The commit of a reader ends its plan: the row is terminal, and nobody else has read it. -/
theorem final_of_commit (hw : w.Sound) (h : Reachable (.start w) c) {U' : Task (machine T P)} (ht : c.task t = some U) (ht' : c'.task t = some U')
    (ha : U.alive = true) {ws : Writes} {r : Except Exc Unit}
    {k : Except Exc Unit → Proc (sig T) (Except Exc (Returned T))}
    (hp : U.prog = .call (.commit ws) k)
    (hperform : World.Perform t c.world (.commit ws : Op T) r c'.world) (hr : r = .ok ())
    (hothers : ∀ u, u ≠ t → c'.task u = c.task u) (hrow' : (senderOf U').seen.row = none)
    {result : Json} {at_ : Time} (hwrites : ws.plans = [(p, .finished state result at_)])
    (hterminal : state.terminal = true) (hread : (senderOf U).Read a p plan) :
    ∃ plan, plan.executionState = state ∧ Final p plan c' := by
  obtain ⟨hcreation, -, -⟩ := reader_holds hw h ht ha hread
  obtain ⟨row, hrow, -⟩ := Option.map_eq_some_iff.mp hcreation
  refine ⟨(PlanUpdate.finished state result at_).apply row, rfl, ?_, hterminal, ?_⟩
  · rw [World.Perform.committed hperform hr]
    show (World.store (ws.plans.foldl World.updatePlan c.world.plans) ws.newPlan).get p = _
    rcases World.get_store (ws.plans.foldl World.updatePlan c.world.plans) ws.newPlan p with
      ⟨hsame, -⟩ | ⟨new, hnew, -⟩
    · rw [hsame, hwrites, List.foldl_cons, List.foldl_nil, World.get_updatePlan, if_pos rfl, hrow]
      rfl
    · have := insert_fresh hw h ht ha hp p new hnew
      rw [hrow] at this
      cases this
  · rintro u V hV ⟨hv, b, plan', hread', -⟩
    by_cases hut : u = t
    · subst hut
      rw [ht'] at hV
      cases hV
      obtain ⟨row', hrow⟩ := hread'.row
      rw [hrow'] at hrow
      cases hrow
    · rw [hothers u hut] at hV
      exact hut (reader_unique hw h hV ht hv ha hread' hread)

theorem records_final (hw : w.Sound) (h : Reachable (.start w) c) (ht : c.task t = some U)
    (hr : Records p state U) : ∃ plan, plan.executionState = state ∧ Final p plan c := by
  refine Reachable.invariant h (fun c => ∀ t U p state, c.task t = some U → Records p state U →
    ∃ plan, plan.executionState = state ∧ Final p plan c) (fun _ _ _ _ ht => by cases ht) ?_
    t U p state ht hr
  rintro c c' hreach ih hst t U' p state ht' ⟨args, hcall, hplan, hsettled⟩
  have hkept : ∀ U, c.task t = some U → Records p state U →
      ∃ plan, plan.executionState = state ∧ Final p plan c' := by
    intro U hU hr
    obtain ⟨plan, hstate, hf⟩ := ih t U p state hU hr
    exact ⟨plan, hstate, hf.step hw hreach hst⟩
  rcases task_sender hreach hst ht' with hnew | ⟨U, hU, hsame, ⟨hs, -⟩ |
    ⟨o, r, ha, hok, hperform, ⟨k, hk⟩, hothers, hnext⟩⟩
  · rw [hnew] at hsettled
    cases hsettled
  · exact hkept U hU ⟨args, hsame ▸ hcall, hplan, hs ▸ hsettled⟩
  · have hcallU : U.call = .mutate args := hsame ▸ hcall
    rw [hnext] at hsettled
    rcases Sender.settled_next (m := senderOf U) (o := o) (r := r) with hstill |
      ⟨ws, rfl, ⟨x, hx⟩, hposted, hfinal, hrow⟩
    · exact hkept U hU ⟨args, hcallU, hplan, hstill ▸ hsettled⟩
    · -- this commit recorded it
      have hsettles : (senderOf U).Settles args p ws := hok args p hcallU hplan
      rw [hfinal] at hsettled
      rcases hsettles.plans with hnil | ⟨state', result, at_, hwrites, hterminal, plan, hread, -⟩
      · exact absurd hnil (hsettles.posted hposted)
      · rw [hwrites] at hsettled
        cases hsettled
        exact final_of_commit hw hreach hU ht' ha hk hperform hx hothers
          (by rw [hnext]; exact hrow) hwrites hterminal hread

/-- A `mutate` invokes its operation at most three times, and again only after a conflict: whatever
else an operation ends in, it is the last one of its call. -/
theorem operation_repeats (h : Reachable (.start w) c) (ht : c.task t = some U) :
    (operations U.hist).length ≤ 3 ∧ (∀ r ∈ (operations U.hist).tail, Sender.conflict r = true) ∧
      ∀ a q api, U.pending = some (.operation a q api) →
        (operations U.hist).length < 3 ∧ ∀ r ∈ operations U.hist, Sender.conflict r = true := by
  have hcounts : (senderOf U).Counts (operations U.hist) := Sender.counts (sends_follow h ht).valid
  refine ⟨hcounts.most, hcounts.repeated, fun a q api hpending => ?_⟩
  obtain ⟨k, hk⟩ := Task.pending_eq hpending
  obtain ⟨args, -, hmay⟩ := sends_allowed h ht hk
  refine ⟨?_, hcounts.posted hmay.unposted⟩
  rw [← hcounts.tries]
  exact hmay.tries

end Runs

section Example

def plannedArgs : MutateArgs :=
  { accountId := 0, actor := operator, planId := some 1, hasFingerprint := true }

def mutatedRun : Config (machine Unit samplePorts) :=
  run (.start plannedWorld) 0 (.mutate plannedArgs) friendlyGame 30

theorem reachable_mutatedRun : Reachable (.start plannedWorld) mutatedRun := reachable_run ..

theorem mutatedRun_view :
    (mutatedRun.task 0).map (fun U => ((senderOf U).settled, (operations U.hist).length)) =
      some (some .executed, 1) ∧ returned mutatedRun 0 = true := by
  decide +kernel

theorem call_of_mutatedRun {t : TaskId} {U : Task (machine Unit samplePorts)}
    (h : mutatedRun.task t = some U) : U.call = .mutate plannedArgs := by
  rcases call_of_run h with hnew | ⟨_, hnone, -⟩
  · exact hnew
  · cases hnone

/-- The plan of the returned call is sent once more, and finished directly. -/
def retriedRun : Config (machine Unit samplePorts) :=
  run (run mutatedRun 1 (.mutate plannedArgs) friendlyGame 30) 2
    (.finishPlan 1 .failed [("status", .str "failed")]) friendlyGame 10

theorem mutatedRun_final : ∃ plan, Final 1 plan mutatedRun ∧ Final 1 plan retriedRun := by
  obtain ⟨U, hU, hview⟩ := Option.map_eq_some_iff.mp mutatedRun_view.1
  obtain ⟨plan, -, hf⟩ := records_final sound_plannedWorld reachable_mutatedRun hU
    ⟨plannedArgs, call_of_mutatedRun hU, rfl, congrArg Prod.fst hview⟩
  have hretried : Reachable mutatedRun retriedRun := (reachable_run ..).trans (reachable_run ..)
  exact ⟨plan, hf, verdict_final sound_plannedWorld reachable_mutatedRun hretried hf⟩

def contestedGame : (o : Op Unit) → Except Exc o.Val
  | .operation _ _ _ => .error (.gameConflict none)
  | .sleep => .ok ()
  | o => friendlyGame o

/-- The first operation ends in a conflict and the second one returns. -/
def contestedRun : Config (machine Unit samplePorts) :=
  (run (.start plannedWorld) 0 (.mutate plannedArgs) contestedGame 14).drive World.effect 0
    friendlyGame 30

theorem contestedRun_view :
    (contestedRun.task 0).map (fun U => (operations U.hist).map Sender.conflict) =
      some [false, true] := by
  decide +kernel

theorem contestedRun_repeats : ∃ U : Task (machine Unit samplePorts), contestedRun.task 0 = some U ∧
    (operations U.hist).map Sender.conflict = [false, true] ∧ (operations U.hist).length ≤ 3 ∧
      ∀ r ∈ (operations U.hist).tail, Sender.conflict r = true := by
  obtain ⟨U, hU, hview⟩ := Option.map_eq_some_iff.mp contestedRun_view
  have hreach : Reachable (.start plannedWorld) contestedRun :=
    (reachable_run ..).trans (reachable_drive honest_effect ..)
  obtain ⟨hmost, hconflicts, -⟩ := operation_repeats hreach hU
  exact ⟨U, hU, hview, hmost, hconflicts⟩

end Example

end PlaceGame
