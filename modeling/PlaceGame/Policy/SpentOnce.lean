import PlaceGame.Policy.Verdicts

/-!
# PlaceGame.Policy.SpentOnce

A plan is spent once, whichever way.

Two parts of the program act on a plan without knowing of each other: an execution collects under a
claim, a `mutate` invokes its operation under the account row. Between them stands only the state of
the plan that each has read. The account row makes that enough: while a `mutate` may still send, no
execution can look at the plan, and what an execution has asked for, a `mutate` reads as claimed.
-/

namespace PlaceGame

open Coop

variable {T : Type}

def Op.operates : Op T → Bool
  | .operation _ _ _ => true
  | _ => false

section Runs

variable {P : Ports} {c c' : Config (machine T P)} {t u : TaskId} {U V : Task (machine T P)}
variable {w : World} {a : AccountId} {p : PlanId} {plan : ActionPlan} {state : PlanState}

/-- The task is a `mutate` of the plan whose operation counts: it is under way, it has ended in
something else than a conflict in the transaction that is still open, or that was committed. -/
def spending (p : PlanId) (U : Task (machine T P)) : Bool :=
  match U.call with
  | .mutate args => args.planId == some p && ((senderOf U).settled.isSome ||
      U.alive && ((senderOf U).posted && (senderOf U).seen.row.isSome ||
        U.pending.any Op.operates))
  | _ => false

def spends (p : PlanId) (U : Task (machine T P)) : Nat :=
  requests p U + if spending p U then 1 else 0

def allSpends (p : PlanId) (c : Config (machine T P)) (tasks : Finset TaskId) : Nat :=
  ∑ t ∈ tasks, (c.task t).elim 0 (spends p)

/-- A `mutate` that has read its plan as fresh. -/
structure Reads (p : PlanId) (U : Task (machine T P)) : Prop where
  alive : U.alive = true
  mutates : ∃ args, U.call = .mutate args
  read : ∃ a plan, (senderOf U).Read a p plan ∧ plan.executionState.fresh = true

theorem PlanState.open_of_fresh {s : PlanState} (h : s.fresh = true) : s.terminal = false := by
  cases s <;> first | rfl | cases h

theorem Reads.openReader (h : Reads p U) : OpenReader p U := by
  obtain ⟨a, plan, hread, hfresh⟩ := h.read
  exact ⟨h.alive, a, plan, hread, PlanState.open_of_fresh hfresh⟩

/-- An operation that counts was sent for a plan that was read as fresh, or is recorded. -/
theorem reads_of_spending (h : Reachable (.start w) c) (ht : c.task t = some U)
    (hs : spending p U = true) : (∃ state, Records p state U) ∨ Reads p U := by
  have hvalid := (sends_follow h ht).valid
  unfold spending at hs
  split at hs
  · rename_i args hcall
    simp only [Bool.and_eq_true, Bool.or_eq_true, beq_iff_eq] at hs
    obtain ⟨hplan, hsettled | ⟨halive, ⟨hposted, hrow⟩ | hpending⟩⟩ := hs
    · obtain ⟨state, hstate⟩ := Option.isSome_iff_exists.mp hsettled
      exact .inl ⟨state, args, hcall, hplan, hstate⟩
    · right
      refine ⟨halive, ⟨args, hcall⟩, args.accountId, ?_⟩
      have hrow' : (senderOf U).seen.row ≠ none := Option.isSome_iff_ne_none.mp hrow
      unfold senderOf at hposted hrow' ⊢
      rw [hcall] at hvalid hposted hrow' ⊢
      exact Sender.posted_read hvalid hplan hposted hrow'
    · right
      obtain ⟨o, ho, hoperates⟩ := (Option.any_eq_true ..).mp hpending
      obtain ⟨k, hk⟩ := Task.pending_eq ho
      have hok := sends_allowed h ht hk
      cases o with
      | operation b q api =>
        obtain ⟨args', hcall', hmay⟩ := hok
        rw [hcall] at hcall'
        cases hcall'
        obtain ⟨plan, hread, hfresh⟩ := hmay.fresh p (hmay.planId.symm.trans hplan)
        exact ⟨halive, ⟨args, hcall⟩, b, plan, hread, hfresh⟩
      | _ => cases hoperates
  · cases hs

/-- A recorded state was recorded before, or this step records what its task has read as fresh. -/
theorem records_before (h : Reachable (.start w) c) (hst : Step c c') {U' : Task (machine T P)}
    (ht : c'.task t = some U') (hr : Records p state U') :
    (∃ U, c.task t = some U ∧ Records p state U) ∨
      ∃ U, c.task t = some U ∧ Reads p U ∧ ∀ u, u ≠ t → c'.task u = c.task u := by
  obtain ⟨args, hcall, hplan, hsettled⟩ := hr
  rcases task_sender h hst ht with hnew | ⟨U, hU, hsame, ⟨hs, -⟩ |
    ⟨o, r, ha, hok, -, -, hothers, hnext⟩⟩
  · rw [hnew] at hsettled
    cases hsettled
  · exact .inl ⟨U, hU, args, hsame ▸ hcall, hplan, hs ▸ hsettled⟩
  · have hcallU : U.call = .mutate args := hsame ▸ hcall
    rw [hnext] at hsettled
    rcases Sender.settled_next (m := senderOf U) (o := o) (r := r) with hstill |
      ⟨ws, rfl, -, hposted, hfinal, -⟩
    · exact .inl ⟨U, hU, args, hcallU, hplan, hstill ▸ hsettled⟩
    · have hsettles : (senderOf U).Settles args p ws := hok args p hcallU hplan
      rw [hfinal] at hsettled
      rcases hsettles.plans with hnil | ⟨_, _, _, -, -, plan, hread, -⟩
      · exact absurd hnil (hsettles.posted hposted)
      · refine .inr ⟨U, hU, ⟨ha, ⟨args, hcallU⟩, args.accountId, ?_⟩, hothers⟩
        have hvalid := (sends_follow h hU).valid
        obtain ⟨row, hrow⟩ := hread.row
        have hrow' : (senderOf U).seen.row ≠ none := by
          rw [hrow]
          exact Option.some_ne_none _
        unfold senderOf at hposted hrow' ⊢
        rw [hcallU] at hvalid hposted hrow' ⊢
        exact Sender.posted_read hvalid hplan hposted hrow'

theorem found_row {o : Op T} {r : Except Exc o.Val} {w' : World}
    (h : World.Perform t w o r w') (hf : Sender.found o r = some (p, plan)) :
    w.plans.get p = some plan := by
  cases o with
  | selectPlan q =>
    rcases h.effect_or with ⟨_, h⟩ | ⟨-, rfl, -⟩
    · simp only [World.effect, Option.some.injEq, Prod.mk.injEq] at h
      obtain ⟨rfl, -⟩ := h
      cases hget : w.plans.get q with
      | none =>
        rw [hget] at hf
        cases hf
      | some row =>
        rw [hget] at hf
        cases hf
        exact hget
    · cases hf
  | _ => cases r <;> cases hf

theorem looked_of_pending (h : Reachable (.start w) c) (ht : c.task t = some U)
    (hp : U.pending.any (Op.collects p) = true) : U.call.Executes p ∧
      ∃ plan, (senderOf U).looked = some (p, plan) ∧ plan.executionState = .executing := by
  obtain ⟨o, ho, hcollects⟩ := (Option.any_eq_true ..).mp hp
  obtain ⟨k, hk⟩ := Task.pending_eq ho
  have hok := sends_allowed h ht hk
  cases o with
  | idleCollect a q api =>
    obtain ⟨hcall, plan, hlooked, -, hstate⟩ := hok
    have hq : q = p := by simpa [Op.collects] using hcollects
    subst hq
    exact ⟨hcall, plan, hlooked, hstate⟩
  | _ => cases hcollects

/-- A request for the plan was made or under way before, or its task has just looked at the row. -/
theorem requests_before (h : Reachable (.start w) c) (hst : Step c c') {U' : Task (machine T P)}
    (ht : c'.task t = some U') (hr : 0 < requests p U') :
    (∃ U, c.task t = some U ∧ 0 < requests p U) ∨
      (U'.alive = true ∧ U'.pending.any (Op.collects p) = true ∧
        (∀ u, u ≠ t → c'.task u = c.task u) ∧
        ∃ plan, c.world.plans.get p = some plan ∧ plan.executionState = .executing) := by
  have hpending : U'.pending.any (Op.collects p) = true ∨ 0 < asked p U'.hist := by
    unfold requests at hr
    by_cases hp : U'.pending.any (Op.collects p) = true
    · exact .inl hp
    · rw [if_neg hp] at hr
      exact .inr hr
  rcases hst.task_cases ht with ⟨-, hnew⟩ | ⟨U, hU, hcall, ⟨hhist, hprog, -⟩ | ⟨o, k, r, ha, hp, hw, rfl⟩⟩
  · exfalso
    have hhist : U'.hist = [] := by rw [hnew]
    rcases hpending with hp | hasked
    · obtain ⟨-, plan, hlooked, -⟩ := looked_of_pending (h.tail hst) ht hp
      unfold senderOf at hlooked
      rw [hhist] at hlooked
      cases hlooked
    · rw [hhist] at hasked
      cases hasked
  · refine .inl ⟨U, hU, ?_⟩
    unfold requests Task.pending at hr ⊢
    rw [hhist, hprog] at hr
    exact hr
  · have hothers := hst.others hU ht (List.cons_ne_self _ _)
    by_cases hcollects : o.collects p = true
    · refine .inl ⟨U, hU, ?_⟩
      have hwas : U.pending.any (Op.collects p) = true := by
        rw [Task.pending, hp]
        exact hcollects
      unfold requests
      rw [if_pos hwas]
      omega
    · rcases hpending with hp' | hasked
      · obtain ⟨-, plan, hlooked, hstate⟩ := looked_of_pending (h.tail hst) ht hp'
        exact .inr ⟨ha, hp', hothers, plan, found_row hw hlooked, hstate⟩
      · refine .inl ⟨U, hU, ?_⟩
        have hsame : asked p (⟨o, r⟩ :: U.hist) = asked p U.hist := by
          rw [Ledger.asked_cons, if_neg hcollects, Nat.add_zero]
        have hasked : 0 < asked p (⟨o, r⟩ :: U.hist) := hasked
        rw [hsame] at hasked
        unfold requests
        omega

theorem asker_holds (hw : w.Sound) (h : Reachable (.start w) c) (ht : c.task t = some U)
    (ha : U.alive = true) (hp : U.pending.any (Op.collects p) = true) :
    ∃ plan : ActionPlan, (c.world.plans.get p).map ActionPlan.creation = some plan.creation ∧
      c.world.accountRows plan.accountId = some t := by
  obtain ⟨o, ho, hcollects⟩ := (Option.any_eq_true ..).mp hp
  have hok := allowed_pending h ht ho
  have hm := (safe_of_reachable hw h).matches_ t U ht ha
  cases o with
  | idleCollect a q api =>
    obtain ⟨⟨row, _, hrow, -⟩, -, _, plan, now, _, -, hplan, howner, -⟩ := hok
    have hq : q = p := by simpa [Op.collects] using hcollects
    subst hq
    exact ⟨plan, hm.planRow q plan _ hplan, by rw [howner]; exact (hm.row a row hrow).1⟩
  | _ => cases hcollects

/-- Nobody waits for a collection of a plan that an open `mutate` has read. -/
theorem reader_alone (hw : w.Sound) (h : Reachable (.start w) c) (ht : c.task t = some U)
    (hr : Reads p U) (hu : c.task u = some V) (ha : V.alive = true) :
    ¬ V.pending.any (Op.collects p) = true := by
  intro hp
  obtain ⟨a, plan, hread, -⟩ := hr.read
  obtain ⟨hcreation, haccount, hheld⟩ := reader_holds hw h ht hr.alive hread
  obtain ⟨plan', hcreation', hheld'⟩ := asker_holds hw h hu ha hp
  rw [hcreation] at hcreation'
  have hsame : plan.accountId = plan'.accountId :=
    congrArg PlanCreation.accountId (Option.some.inj hcreation')
  rw [← haccount, hsame, hheld'] at hheld
  cases hheld
  rw [ht] at hu
  cases hu
  obtain ⟨args, hcall⟩ := hr.mutates
  obtain ⟨hexecutes, -⟩ := looked_of_pending h ht hp
  rw [hcall] at hexecutes
  exact hexecutes

/-- Nobody has read a recorded plan as fresh. -/
theorem reads_of_recorded (hw : w.Sound) (h : Reachable (.start w) c) (ht : c.task t = some U)
    (hr : Records p state U) (hu : c.task u = some V) : ¬ Reads p V := by
  intro hreads
  obtain ⟨_, _, hf⟩ := records_final hw h ht hr
  exact hf.closed u V hu hreads.openReader

/-- The three ways to spend a plan exclude each other. -/
structure Spenders (p : PlanId) (c : Config (machine T P)) : Prop where
  unasked : ∀ t U u V, c.task t = some U → Reads p U → c.task u = some V → requests p V = 0
  unrecorded : ∀ t U u V state, c.task t = some U → Records p state U → c.task u = some V →
    requests p V = 0
  once : ∀ t U u V state state', c.task t = some U → Records p state U → c.task u = some V →
    Records p state' V → t = u

/-- What is read as fresh after a step was so before, or is fresh in the table. -/
theorem reads_before (h : Reachable (.start w) c) (hst : Step c c') {U' : Task (machine T P)}
    (ht : c'.task t = some U') (hr : Reads p U') :
    (∃ U, c.task t = some U ∧ Reads p U) ∨
      ∃ plan, c.world.plans.get p = some plan ∧ plan.executionState.fresh = true := by
  obtain ⟨halive, ⟨args, hcall⟩, a, plan, hread, hfresh⟩ := hr
  rcases task_sender h hst ht with hnew | ⟨U, hU, hsame, ⟨hs, ha⟩ |
    ⟨o, r, ha, -, hperform, -, -, hnext⟩⟩
  · rw [hnew] at hread
    cases hread.read
  · rw [hs] at hread
    exact .inl ⟨U, hU, ha halive, ⟨args, hsame ▸ hcall⟩, a, plan, hread, hfresh⟩
  · rw [hnext] at hread
    obtain ⟨hread | hrow, -⟩ := Sender.read_next hperform hread
    · exact .inl ⟨U, hU, ha, ⟨args, hsame ▸ hcall⟩, a, plan, hread, hfresh⟩
    · exact .inr ⟨plan, hrow, hfresh⟩

/-- A plan for which a collection was asked is claimed for good. -/
theorem requests_zero_of_fresh (hw : w.Sound) (h : Reachable (.start w) c)
    (hp : c.world.plans.get p = some plan) (hf : plan.executionState.fresh = true)
    (ht : c.task t = some U) : requests p U = 0 := by
  by_contra hne
  obtain ⟨claim, hheld, hrecovery, rfl, -⟩ := claim_of_requests h ht (Nat.pos_of_ne_zero hne)
  obtain ⟨plan', hp', hrank⟩ := (once_of_reachable hw h).claimed t U claim ht hheld hrecovery
  rw [hp] at hp'
  cases hp'
  have := PlanState.rank_fresh.mp hf
  omega

theorem Spenders.step (hw : w.Sound) (h : Reachable (.start w) c) (hs : Spenders p c) (hst : Step c c') :
    Spenders p c' where
  unasked t U' u V' ht hr hu := by
    by_contra hne
    rcases requests_before h hst hu (Nat.pos_of_ne_zero hne) with ⟨V, hV, hasked⟩ |
      ⟨halive, hpending, -⟩
    · rcases reads_before h hst ht hr with ⟨U, hU, hr⟩ | ⟨plan, hrow, hfresh⟩
      · have := hs.unasked t U u V hU hr hV
        omega
      · have := requests_zero_of_fresh hw h hrow hfresh hV
        omega
    · exact reader_alone hw (h.tail hst) ht hr hu halive hpending
  unrecorded t U' u V' state ht hr hu := by
    by_contra hne
    rcases requests_before h hst hu (Nat.pos_of_ne_zero hne) with ⟨V, hV, hasked⟩ |
      ⟨halive, hpending, hothers, plan, hrow, hexecuting⟩
    · rcases records_before h hst ht hr with ⟨U, hU, hr⟩ | ⟨U, hU, hr, -⟩
      · have := hs.unrecorded t U u V state hU hr hV
        omega
      · have := hs.unasked t U u V hU hr hV
        omega
    · -- the asker has just looked at a row that is not terminal: so nobody has recorded one
      by_cases hut : t = u
      · subst hut
        rw [ht] at hu
        cases hu
        obtain ⟨args, hcall, -⟩ := hr
        obtain ⟨hexecutes, -⟩ := looked_of_pending (h.tail hst) ht hpending
        rw [hcall] at hexecutes
        exact hexecutes
      · rw [hothers t hut] at ht
        obtain ⟨final, hstate, hf⟩ := records_final hw h ht hr
        have hterminal := hf.terminal
        rw [hf.row] at hrow
        cases hrow
        rw [hexecuting] at hterminal
        cases hterminal
  once t U' u V' state state' ht hr hu hr' := by
    by_contra hne
    rcases records_before h hst ht hr with ⟨U, hU, hr⟩ | ⟨U, hU, hreads, hothers⟩
    · rcases records_before h hst hu hr' with ⟨V, hV, hr'⟩ | ⟨V, hV, hreads, -⟩
      · exact hne (hs.once t U u V state state' hU hr hV hr')
      · exact reads_of_recorded hw h hU hr hV hreads
    · rw [hothers u (Ne.symm hne)] at hu
      exact reads_of_recorded hw h hu hr' hU hreads

theorem spenders_of_reachable (hw : w.Sound) (h : Reachable (.start w) c) : Spenders p c := by
  refine Reachable.invariant h (Spenders p) ?_ fun _ _ hr hs hst => hs.step hw hr hst
  exact ⟨fun _ _ _ _ ht => (by cases ht), fun _ _ _ _ _ ht => (by cases ht),
    fun _ _ _ _ _ _ ht => (by cases ht)⟩

/-- Who spends a plan: an execution that has asked, or a `mutate` whose operation counts. -/
theorem spends_cases (h : Reachable (.start w) c) (ht : c.task t = some U)
    (hs : 0 < spends p U) :
    0 < requests p U ∨ (∃ state, Records p state U) ∨ Reads p U := by
  unfold spends at hs
  by_cases hspending : spending p U = true
  · exact .inr (reads_of_spending h ht hspending)
  · rw [if_neg hspending] at hs
    exact .inl (by omega)

theorem spends_le (hw : w.Sound) (h : Reachable (.start w) c) (ht : c.task t = some U) :
    spends p U ≤ 1 := by
  have hs := spenders_of_reachable (p := p) hw h
  unfold spends
  by_cases hspending : spending p U = true
  · have hzero : requests p U = 0 := by
      rcases reads_of_spending h ht hspending with ⟨state, hr⟩ | hr
      · exact hs.unrecorded t U t U state ht hr ht
      · exact hs.unasked t U t U ht hr ht
    rw [if_pos hspending, hzero]
  · rw [if_neg hspending]
    by_cases hr : 0 < requests p U
    · obtain ⟨_, -, -, -, hone⟩ := claim_of_requests h ht hr
      omega
    · omega

theorem spends_unique (hw : w.Sound) (h : Reachable (.start w) c) (ht : c.task t = some U)
    (hu : c.task u = some V) (hU : 0 < spends p U) (hV : 0 < spends p V) : t = u := by
  have hs := spenders_of_reachable (p := p) hw h
  rcases spends_cases h ht hU with hr | ⟨state, hr⟩ | hr <;>
    rcases spends_cases h hu hV with hr' | ⟨state', hr'⟩ | hr'
  · obtain ⟨claim, hheld, hfresh, hplan, -⟩ := claim_of_requests h ht hr
    obtain ⟨claim', hheld', hfresh', hplan', -⟩ := claim_of_requests h hu hr'
    exact (once_of_reachable hw h).unique t u U V claim claim' ht hu hheld hheld' hfresh hfresh'
      (hplan.trans hplan'.symm)
  · have := hs.unrecorded u V t U state' hu hr' ht
    omega
  · have := hs.unasked u V t U hu hr' ht
    omega
  · have := hs.unrecorded t U u V state ht hr hu
    omega
  · exact hs.once t U u V state state' ht hr hu hr'
  · exact (reads_of_recorded hw h ht hr hu hr').elim
  · have := hs.unasked t U u V ht hr hu
    omega
  · exact (reads_of_recorded hw h hu hr' ht hr).elim
  · obtain ⟨a, plan, hread, -⟩ := hr.read
    obtain ⟨b, plan', hread', -⟩ := hr'.read
    exact reader_unique hw h ht hu hr.alive hr'.alive hread hread'

/-- Over all tasks of a run, a plan is spent at most once: the collections that were asked for on
behalf of it, and the operations of `mutate` for it that ended in something else than a conflict and
were not rolled back, or are still under way, are at most one together. -/
theorem spent_at_most_once (hw : w.Sound) (h : Reachable (.start w) c) (p : PlanId)
    (tasks : Finset TaskId) : allSpends p c tasks ≤ 1 := by
  unfold allSpends
  by_cases hsome : ∃ t ∈ tasks, 0 < (c.task t).elim 0 (spends p)
  · obtain ⟨t, hmem, hpos⟩ := hsome
    cases ht : c.task t with
    | none =>
      rw [ht] at hpos
      cases hpos
    | some U =>
      rw [ht] at hpos
      rw [Finset.sum_eq_single_of_mem t hmem, ht]
      · exact spends_le hw h ht
      · intro u _ hne
        cases hu : c.task u with
        | none => rfl
        | some V =>
          by_contra hother
          exact hne (spends_unique hw h hu ht (Nat.pos_of_ne_zero hother) hpos)
  · have hzero : ∑ t ∈ tasks, (c.task t).elim 0 (spends p) = 0 := by
      refine Finset.sum_eq_zero fun t hmem => ?_
      by_contra hne
      exact hsome ⟨t, hmem, Nat.pos_of_ne_zero hne⟩
    rw [hzero]
    exact Nat.zero_le 1

end Runs

/-- The plan of the returned call stays spent once, whoever runs after it. -/
theorem mutatedRun_spends_once :
    allSpends 1 mutatedRun {0} = 1 ∧ ∀ tasks, allSpends 1 mutatedRun tasks ≤ 1 :=
  ⟨by decide +kernel, spent_at_most_once sound_plannedWorld reachable_mutatedRun 1⟩

end PlaceGame
