import PlaceGame.Scheduler.Discipline

/-!
# PlaceGame.Scheduler.Lease

The scheduler with a clock of its own beside the times that ticks captured.

A tick captures the time at which it begins and uses it in all its steps, however late they come. A
worker begins a tick when its last one is over or was abandoned.

* `Takes`: what `claim_due` does to the run rows.
* `Leases`: how the lease row stands to the ticks that took it.
* `claim_within_lease`: a claim finds the lease still held exactly when it comes before the end of
  the lease that its tick took.
-/

namespace PlaceGame

open Coop

namespace Scheduler

/-! ## Real time -/

structure Timed where
  config : Config := .start
  real : Time := 0
  dead : TaskId → Bool := fun _ => false

namespace Timed

def Idle (c : Timed) (workerId : String) : Prop :=
  ∀ t T, c.config.tick t = some T → T.worker.workerId = workerId →
    c.dead t = true ∨ T.phase = .released

end Timed

def Event.tick : Event → TaskId
  | .started t => t
  | .acquired t _ => t
  | .ensured t => t
  | .claimed t _ _ => t
  | .finished t _ => t
  | .released t => t

inductive TimedStep : Timed → Option Event → Timed → Prop where
  | passed {c : Timed} (real : Time) (h : c.real ≤ real) : TimedStep c none { c with real }
  | abandoned {c : Timed} (t : TaskId) :
      TimedStep c none { c with dead := Function.update c.dead t true }
  | started {c : Timed} (t : TaskId) (worker : Worker) (h : c.config.tick t = none)
      (hidle : c.Idle worker.workerId) :
      TimedStep c (some (.started t))
        { c with config := c.config.setTick c.config.rows t { worker := worker, now := c.real } }
  | moved {c : Timed} {e : Event} {config : Config} (h : Step c.config e config)
      (hs : ∀ t, e ≠ .started t) (hd : c.dead e.tick = false) :
      TimedStep c (some e) { c with config }

abbrev TimedRun : Timed → Timed → Prop := Relation.ReflTransGen fun c c' => ∃ e, TimedStep c e c'

theorem TimedRun.run {c : Timed} (h : TimedRun {} c) : ∃ h, Run .start h c.config := by
  induction h with
  | refl => exact ⟨[], .refl _⟩
  | tail _ hst ih =>
    obtain ⟨h, hrun⟩ := ih
    obtain ⟨e, hst⟩ := hst
    cases hst with
    | passed real hle => exact ⟨h, hrun⟩
    | abandoned t => exact ⟨h, hrun⟩
    | started t worker ht hidle => exact ⟨_, hrun.step (.started t worker _ ht)⟩
    | moved hst _ _ => exact ⟨_, hrun.step hst⟩

theorem TimedRun.disciplined {c : Timed} (h : TimedRun {} c) : Disciplined c.config.rows := by
  obtain ⟨h, hrun⟩ := h.run
  exact (hrun.sound Sound.start).1.rows

/-! ## Claims -/

/-- The time up to which a tick may rely on what it leased. -/
def Tick.leaseEnd (T : Tick) : Time := T.now + Time.seconds T.worker.leaseSeconds

/-- A claim of time `now` may take the run. -/
def Free (s : Rows) (now : Time) (id : RunId) : Prop :=
  ∀ run, s.runs.get id = some run → run.completedAt = none ∧
    ∀ expiry, run.leaseExpiresAt = some expiry → expiry ≤ now

/-- A claim took the run. -/
structure JobRun.LeasedBy (run : JobRun) (workerId : String) (expiry : Time) : Prop where
  owner : run.leaseOwner = some workerId
  expires : run.leaseExpiresAt = some expiry
  unfinished : run.completedAt = none

/-- What `claim_due` does to the run rows: it takes free ones, and leaves all others alone. -/
structure Takes (s s' : Rows) (workerId : String) (now expiry : Time)
    (runs : List ClaimedIdlePreviewRun) : Prop where
  lease : s'.lease = s.lease
  rows : ∀ id, s'.runs.get id = s.runs.get id ∨
    Free s now id ∧ ∃ run, s'.runs.get id = some run ∧ run.LeasedBy workerId expiry
  taken : ∀ x ∈ runs, Free s now x.runId ∧ ∃ run, s'.runs.get x.runId = some run ∧
    run.accountId = x.accountId ∧ run.idempotencyKey = x.idempotencyKey ∧
    run.LeasedBy workerId expiry

section

variable {s s' s'' : Rows} {workerId : String} {now expiry : Time}
  {xs ys : List ClaimedIdlePreviewRun}

theorem Takes.none : Takes s s workerId now expiry [] where
  lease := rfl
  rows _ := .inl rfl
  taken _ h := nomatch h

/-- What a claim has just taken is not free for it. -/
theorem JobRun.LeasedBy.not_free {id : RunId} {run : JobRun} (h : run.LeasedBy workerId expiry)
    (hr : s.runs.get id = some run) (hlt : now < expiry) : ¬ Free s now id := fun hfree =>
  absurd ((hfree run hr).2 expiry h.expires) (not_le.mpr hlt)

theorem Takes.trans (h : Takes s s' workerId now expiry xs) (h' : Takes s' s'' workerId now expiry ys)
    (hlt : now < expiry) : Takes s s'' workerId now expiry (xs ++ ys) where
  lease := h'.lease.trans h.lease
  rows id := by
    rcases h'.rows id with heq | ⟨hfree, htaken⟩
    · rw [heq]
      exact h.rows id
    · rcases h.rows id with heq | ⟨-, run, hr, hl⟩
      · refine .inr ⟨?_, htaken⟩
        unfold Free at hfree ⊢
        rwa [heq] at hfree
      · exact absurd hfree (hl.not_free hr hlt)
  taken x hx := by
    rcases List.mem_append.mp hx with hx | hx
    · obtain ⟨hfree, run, hr, hslot⟩ := h.taken x hx
      rcases h'.rows x.runId with heq | ⟨hfree', -⟩
      · exact ⟨hfree, run, heq.trans hr, hslot⟩
      · exact absurd hfree' (hslot.2.2.not_free hr hlt)
    · obtain ⟨hfree, htaken⟩ := h'.taken x hx
      rcases h.rows x.runId with heq | ⟨-, run, hr, hl⟩
      · refine ⟨?_, htaken⟩
        unfold Free at hfree ⊢
        rwa [heq] at hfree
      · exact absurd hfree (hl.not_free hr hlt)

theorem takes_claimSlot (hs : Disciplined s) (jobId : JobId) (job : Job) (at_ now : Time)
    (workerId : String) (leaseSeconds : Nat) :
    Takes s (s.claimSlot jobId job at_ now workerId leaseSeconds).2 workerId now
      (now + Time.seconds leaseSeconds)
      (s.claimSlot jobId job at_ now workerId leaseSeconds).1.toList := by
  have hset : ∀ id row, Free s now id → row.LeasedBy workerId (now + Time.seconds leaseSeconds) →
      ∀ id', (s.runs.set id row).get id' = s.runs.get id' ∨ Free s now id' ∧
        ∃ run, (s.runs.set id row).get id' = some run ∧
          run.LeasedBy workerId (now + Time.seconds leaseSeconds) := by
    intro id row hfree hl id'
    by_cases hid : id' = id
    · subst hid
      exact .inr ⟨hfree, row, Table.get_set_self .., hl⟩
    · exact .inl (Table.get_set_ne _ _ hid)
  rcases claimSlot_cases s jobId job at_ now workerId leaseSeconds with
    ⟨-, heq⟩ | ⟨id, run, hr, hslot, hc, he, heq⟩ | ⟨-, heq⟩
  · have hfree : Free s now s.nextId := fun run hr =>
      absurd (hs.runs_lt _ _ hr) (lt_irrefl _)
    rw [heq]
    refine ⟨rfl, hset _ _ hfree ⟨rfl, rfl, rfl⟩, ?_⟩
    intro x hx
    obtain rfl : x = _ := by simpa using hx
    exact ⟨hfree, _, Table.get_set_self .., rfl, rfl, rfl, rfl, rfl⟩
  · have hfree : Free s now id := fun run' hr' => by
      rw [hr] at hr'
      cases hr'
      exact ⟨hc, he⟩
    rw [heq]
    refine ⟨rfl, hset _ _ hfree ⟨rfl, rfl, hc⟩, ?_⟩
    intro x hx
    obtain rfl : x = _ := by simpa using hx
    exact ⟨hfree, _, Table.get_set_self .., hslot.1, hslot.2, rfl, rfl, hc⟩
  · rw [heq]
    exact Takes.none

theorem takes_claimJobs (hs : Disciplined s) (now : Time) (workerId : String) (leaseSeconds : Nat)
    (hl : 1 ≤ leaseSeconds) (due : List (JobId × Job)) (hdue : Due s now due) :
    Takes s (s.claimJobs now workerId leaseSeconds due).2 workerId now
      (now + Time.seconds leaseSeconds) (s.claimJobs now workerId leaseSeconds due).1 := by
  induction due generalizing s with
  | nil => exact Takes.none
  | cons row due ih =>
    obtain ⟨id, job⟩ := row
    obtain ⟨hj, hle⟩ := hdue _ List.mem_cons_self
    obtain ⟨at_, hn⟩ := hs.jobs_next id job hj
    have h1 := hs.claimSlot now workerId leaseSeconds hj hn (hle at_ hn)
    have h2 := ih h1.disciplined (by
      intro row hrow
      rw [h1.jobs]
      exact hdue row (List.mem_cons_of_mem _ hrow))
    unfold Rows.claimJobs
    simp only [hn]
    exact (takes_claimSlot hs id job at_ now workerId leaseSeconds).trans h2
      (lt_add_seconds now now leaseSeconds hl le_rfl)

theorem takes_claimDue (hs : Disciplined s) (now : Time) (worker : Worker)
    (accountIds : List AccountId) :
    Takes s (s.claimDue now worker.workerId worker.leaseSeconds accountIds).2 worker.workerId now
      (now + Time.seconds worker.leaseSeconds)
      (s.claimDue now worker.workerId worker.leaseSeconds accountIds).1 :=
  takes_claimJobs hs now worker.workerId worker.leaseSeconds worker.lease_pos _
    (due_dueJobs s now accountIds)

end

/-! ## The lease row -/

/-- The lease belongs to the worker and has not expired. -/
def Rows.HeldBy (s : Rows) (workerId : String) (real : Time) : Prop :=
  ∃ lease expiry, s.lease = some lease ∧ lease.owner = some workerId ∧
    lease.leaseExpiresAt = some expiry ∧ real < expiry

theorem ensureJobs_lease (s : Rows) (accounts : List SchedulerAccount) (now : Time)
    (intervalSeconds : Nat) : (s.ensureJobs accounts now intervalSeconds).lease = s.lease := by
  unfold Rows.ensureJobs
  dsimp only
  generalize (accounts.map (·.id)).dedup = known
  generalize s.knownJobs known = rows
  generalize hs : ({ s with jobs := Rows.disableDuplicates rows s.jobs } : Rows) = s₀
  have hlease : s₀.lease = s.lease := by rw [← hs]
  rw [← hlease]
  clear hs hlease
  induction known generalizing s₀ with
  | nil => rfl
  | cons a known ih =>
    rw [List.foldl_cons, ih]
    unfold Rows.ensureJob
    dsimp only
    split <;> split <;> rfl

theorem finishRun_lease (s : Rows) (x : ClaimedIdlePreviewRun) (completedAt nextRunAt : Time)
    (result : Json) : (s.finishRun x completedAt nextRunAt result).lease = s.lease := by
  rcases finishRun_cases s x completedAt nextRunAt result with h | ⟨run, -, -, h⟩
  · rw [h]
  · rw [h]
    rfl

/-- Everything `acquire_lease` can do. A lease that another worker holds is left alone. -/
theorem acquireLease_cases (s : Rows) (workerId : String) (now : Time) (leaseSeconds : Nat) :
    ((s.acquireLease workerId now leaseSeconds).1 = false ∧
      (s.acquireLease workerId now leaseSeconds).2.lease = s.lease) ∨
    ((s.acquireLease workerId now leaseSeconds).1 = true ∧
      (s.acquireLease workerId now leaseSeconds).2.lease =
        some ⟨some workerId, some (now + Time.seconds leaseSeconds), now⟩ ∧
      ∀ lease owner expiry, s.lease = some lease → lease.owner = some owner → owner ≠ workerId →
        lease.leaseExpiresAt = some expiry → expiry ≤ now) := by
  unfold Rows.acquireLease
  dsimp only
  split
  · rename_i h
    refine .inl ⟨rfl, ?_⟩
    cases hl : s.lease with
    | none => simp [hl] at h
    | some lease => rfl
  · rename_i h
    refine .inr ⟨rfl, rfl, ?_⟩
    intro lease owner expiry hl ho hne he
    by_contra hlt
    refine h ⟨?_, ?_, ?_⟩
    · simp [hl, ho]
    · simp [hl, ho, hne]
    · simpa [hl, he] using hlt

/-- The tick has taken the lease and not given it back. -/
def Leasing (c : Timed) (t : TaskId) (T : Tick) : Prop :=
  c.config.tick t = some T ∧ c.dead t = false ∧ T.phase ≠ .started ∧ T.phase ≠ .released

/-- How the lease row stands to the ticks in progress. -/
structure Leases (c : Timed) : Prop where
  captured : ∀ t T, c.config.tick t = some T → T.now ≤ c.real
  single : ∀ t u T U, c.config.tick t = some T → c.config.tick u = some U →
    c.dead t = false → c.dead u = false → T.phase ≠ .released → U.phase ≠ .released →
    T.worker.workerId = U.worker.workerId → t = u
  ends : ∀ t T lease, Leasing c t T → c.config.rows.lease = some lease →
    lease.owner = some T.worker.workerId → lease.leaseExpiresAt = some T.leaseEnd
  held : ∀ t T, Leasing c t T → c.real < T.leaseEnd → ∃ lease, c.config.rows.lease = some lease ∧
    lease.owner = some T.worker.workerId

/-- The lease of a tick in progress is held exactly as long as the tick took it for. -/
theorem Leases.heldBy_iff {c : Timed} (h : Leases c) {t : TaskId} {T : Tick} (hT : Leasing c t T) :
    c.config.rows.HeldBy T.worker.workerId c.real ↔ c.real < T.leaseEnd := by
  constructor
  · rintro ⟨lease, expiry, hl, ho, he, hlt⟩
    rw [h.ends t T lease hT hl ho] at he
    cases he
    exact hlt
  · intro hlt
    obtain ⟨lease, hl, ho⟩ := h.held t T hT hlt
    exact ⟨lease, T.leaseEnd, hl, ho, h.ends t T lease hT hl ho, hlt⟩

theorem Leases.start : Leases {} where
  captured _ _ h := nomatch h
  single _ _ _ _ h := nomatch h
  ends _ _ _ h := nomatch h.1
  held _ _ h := nomatch h.1

section

variable {c : Timed} {t : TaskId} {T T' : Tick} {s : Rows}

def Timed.move (c : Timed) (s : Rows) (t : TaskId) (T' : Tick) : Timed :=
  { c with config := c.config.setTick s t T' }

theorem Timed.move_tick (u : TaskId) :
    (c.move s t T').config.tick u = if u = t then some T' else c.config.tick u :=
  Config.setTick_tick ..

theorem Leasing.of_move {u : TaskId} {U : Tick} (h : Leasing (c.move s t T') u U) :
    u ≠ t ∧ Leasing c u U ∨ u = t ∧ U = T' := by
  obtain ⟨hU, hrest⟩ := h
  rw [Timed.move_tick] at hU
  split at hU
  · rename_i hut
    cases hU
    exact .inr ⟨hut, rfl⟩
  · rename_i hut
    exact .inl ⟨hut, hU, hrest⟩

/-- What a moving tick has to show about the lease row. -/
theorem Leases.move (h : Leases c) (hT : c.config.tick t = some T) (hw : T'.worker = T.worker)
    (hn : T'.now = T.now) (hp : T'.phase ≠ .released → T.phase ≠ .released)
    (hends : ∀ u U lease, Leasing (c.move s t T') u U → s.lease = some lease →
      lease.owner = some U.worker.workerId → lease.leaseExpiresAt = some U.leaseEnd)
    (hheld : ∀ u U, Leasing (c.move s t T') u U → c.real < U.leaseEnd →
      ∃ lease, s.lease = some lease ∧ lease.owner = some U.worker.workerId) :
    Leases (c.move s t T') where
  captured u U hU := by
    rw [Timed.move_tick] at hU
    split at hU
    · cases hU
      exact hn ▸ h.captured t T hT
    · exact h.captured u U hU
  single u v U V hU hV hdu hdv hpu hpv heq := by
    rw [Timed.move_tick] at hU hV
    split at hU <;> split at hV
    · rename_i hut hvt
      exact hut.trans hvt.symm
    · rename_i hut hvt
      cases hU
      subst hut
      exact h.single u v T V hT hV hdu hdv (hp hpu) hpv (hw ▸ heq)
    · rename_i hut hvt
      cases hV
      subst hvt
      exact h.single u v U T hU hT hdu hdv hpu (hp hpv) (hw ▸ heq)
    · exact h.single u v U V hU hV hdu hdv hpu hpv heq
  ends := hends
  held := hheld

theorem Leases.of_quiet (h : Leases c) (hT : c.config.tick t = some T) (hd : c.dead t = false)
    (hw : T'.worker = T.worker) (hn : T'.now = T.now) (hlease : s.lease = c.config.rows.lease)
    (hp : T'.phase ≠ .released → T.phase ≠ .released)
    (hl : T'.phase ≠ .started → T'.phase ≠ .released → T.phase ≠ .started) :
    Leases (c.move s t T') := by
  have hback : ∀ u U, Leasing (c.move s t T') u U → ∃ V, Leasing c u V ∧
      V.worker = U.worker ∧ V.leaseEnd = U.leaseEnd := by
    intro u U hU
    rcases hU.of_move with ⟨-, hold⟩ | ⟨rfl, rfl⟩
    · exact ⟨U, hold, rfl, rfl⟩
    · obtain ⟨-, -, hs, hr⟩ := hU
      refine ⟨T, ⟨hT, hd, hl hs hr, hp hr⟩, hw.symm, ?_⟩
      unfold Tick.leaseEnd
      rw [hw, hn]
  refine h.move hT hw hn hp ?_ ?_
  · intro u U lease hU hls ho
    obtain ⟨V, hV, hworker, hend⟩ := hback u U hU
    rw [← hend]
    exact h.ends u V lease hV (hlease ▸ hls) (hworker ▸ ho)
  · intro u U hU hlt
    obtain ⟨V, hV, hworker, hend⟩ := hback u U hU
    rw [hlease, ← hworker]
    exact h.held u V hV (hend ▸ hlt)

/-- A tick in progress is of another worker than the tick that moves. -/
theorem Leases.other (h : Leases c) {u : TaskId} {U : Tick} (hT : c.config.tick t = some T)
    (hd : c.dead t = false) (hp : T.phase ≠ .released) (hU : Leasing c u U) (hut : u ≠ t) :
    U.worker.workerId ≠ T.worker.workerId := fun heq =>
  hut (h.single u t U T hU.1 hT hU.2.1 hd hU.2.2.2 hp heq)

theorem Leases.acquired (h : Leases c) (hT : c.config.tick t = some T) (hd : c.dead t = false)
    (hp : T.phase = .started) :
    Leases (c.move (c.config.rows.acquireLease T.worker.workerId T.now T.worker.leaseSeconds).2 t
      { T with
        phase :=
          if (c.config.rows.acquireLease T.worker.workerId T.now T.worker.leaseSeconds).1 then
            .leased
          else .released }) := by
  have hrunning : T.phase ≠ .released := by simp [hp]
  rcases acquireLease_cases c.config.rows T.worker.workerId T.now T.worker.leaseSeconds with
    ⟨hdenied, hlease⟩ | ⟨hgranted, hlease, hexpired⟩
  · refine h.of_quiet hT hd rfl rfl hlease (fun _ => hrunning) ?_
    simp [hdenied]
  · refine h.move hT rfl rfl (fun _ => hrunning) ?_ ?_
    · intro u U lease hU hls ho
      rw [hlease] at hls
      cases hls
      rcases hU.of_move with ⟨hut, hold⟩ | ⟨rfl, rfl⟩
      · exact absurd (Option.some.inj ho).symm (h.other hT hd hrunning hold hut)
      · rfl
    · intro u U hU hlt
      rcases hU.of_move with ⟨hut, hold⟩ | ⟨rfl, rfl⟩
      · exfalso
        obtain ⟨lease, hls, ho⟩ := h.held u U hold hlt
        have hle := hexpired lease _ _ hls ho (h.other hT hd hrunning hold hut)
          (h.ends u U lease hold hls ho)
        exact absurd (hle.trans (h.captured t T hT)) (not_le.mpr hlt)
      · exact ⟨_, hlease, rfl⟩

theorem Leases.released (h : Leases c) (hT : c.config.tick t = some T) (hd : c.dead t = false)
    (hp : T.phase ≠ .started ∧ T.phase ≠ .released) :
    Leases (c.move (c.config.rows.releaseLease T.worker.workerId) t
      { T with phase := .released }) := by
  have hold : ∀ u U, Leasing (c.move (c.config.rows.releaseLease T.worker.workerId) t
      { T with phase := .released }) u U → u ≠ t ∧ Leasing c u U := by
    intro u U hU
    rcases hU.of_move with hold | ⟨rfl, rfl⟩
    · exact hold
    · exact absurd rfl hU.2.2.2
  refine h.move hT rfl rfl (fun hne => absurd rfl hne) ?_ ?_
  · intro u U lease hU hls ho
    obtain ⟨hut, hU⟩ := hold u U hU
    unfold Rows.releaseLease at hls
    split at hls
    · rename_i hnone
      rw [hnone] at hls
      cases hls
    · split at hls
      · exact h.ends u U lease hU hls ho
      · cases hls
        cases ho
  · intro u U hU hlt
    obtain ⟨hut, hU⟩ := hold u U hU
    obtain ⟨lease, hls, ho⟩ := h.held u U hU hlt
    have hne := h.other hT hd hp.2 hU hut
    refine ⟨lease, ?_, ho⟩
    unfold Rows.releaseLease
    simp [hls, ho, hne]

end

/-- Every step keeps the lease row in line with the ticks. -/
theorem Leases.step {c c' : Timed} {e : Option Event} (hs : Disciplined c.config.rows)
    (h : Leases c) (hst : TimedStep c e c') : Leases c' := by
  cases hst with
  | passed real hle =>
    refine ⟨fun t T hT => (h.captured t T hT).trans hle, h.single, h.ends, ?_⟩
    intro t T hT hlt
    exact h.held t T hT (hle.trans_lt hlt)
  | abandoned t =>
    have halive : ∀ u, Function.update c.dead t true u = false → c.dead u = false := by
      intro u hu
      by_cases hut : u = t
      · subst hut
        simp at hu
      · rwa [Function.update_of_ne hut] at hu
    refine ⟨h.captured, ?_, ?_, ?_⟩
    · intro u v U V hU hV hdu hdv
      exact h.single u v U V hU hV (halive u hdu) (halive v hdv)
    · intro u U lease hU
      exact h.ends u U lease ⟨hU.1, halive u hU.2.1, hU.2.2⟩
    · intro u U hU
      exact h.held u U ⟨hU.1, halive u hU.2.1, hU.2.2⟩
  | started t worker ht hidle =>
    have hbusy : ∀ u U, c.config.tick u = some U → c.dead u = false → U.phase ≠ .released →
        U.worker.workerId ≠ worker.workerId := by
      intro u U hU hd hp heq
      rcases hidle u U hU heq with hdead | hrel
      · rw [hd] at hdead
        cases hdead
      · exact hp hrel
    have hold : ∀ u U, Leasing (c.move c.config.rows t { worker := worker, now := c.real }) u U →
        Leasing c u U := by
      intro u U hU
      rcases hU.of_move with ⟨-, hold⟩ | ⟨rfl, rfl⟩
      · exact hold
      · exact absurd rfl hU.2.2.1
    refine ⟨?_, ?_, fun u U lease hU => h.ends u U lease (hold u U hU),
      fun u U hU => h.held u U (hold u U hU)⟩
    · intro u U hU
      rw [Config.setTick_tick] at hU
      split at hU
      · cases hU
        exact le_rfl
      · exact h.captured u U hU
    · intro u v U V hU hV hdu hdv hpu hpv heq
      rw [Config.setTick_tick] at hU hV
      split at hU <;> split at hV
      · rename_i hut hvt
        exact hut.trans hvt.symm
      · cases hU
        exact absurd heq.symm (hbusy v V hV hdv hpv)
      · cases hV
        exact absurd heq (hbusy u U hU hdu hpu)
      · exact h.single u v U V hU hV hdu hdv hpu hpv heq
  | moved hst hns hd =>
    cases hst with
    | started t worker now ht => exact absurd rfl (hns t)
    | acquired t ht hp => exact h.acquired ht hd hp
    | ensured t accounts ht hp =>
      exact h.of_quiet ht hd rfl rfl (ensureJobs_lease ..) (by simp [hp]) (by simp [hp])
    | claimed t ht hp =>
      exact h.of_quiet ht hd rfl rfl (takes_claimDue hs _ _ _).lease (by simp [hp]) (by simp [hp])
    | finished t run completedAt result ht hr =>
      exact h.of_quiet ht hd rfl rfl (finishRun_lease ..) id fun h _ => h
    | released t ht hp => exact h.released ht hd hp

/-! ## Live claims -/

/-- A tick that still runs a preview either outlived its claim, or the row of the run is the one it
leased, or is finished. -/
def LiveClaim (c : Timed) (T : Tick) (x : ClaimedIdlePreviewRun) : Prop :=
  T.leaseEnd ≤ c.real ∨ ∃ run, c.config.rows.runs.get x.runId = some run ∧
    (run.completedAt.isSome = true ∨ run.leaseExpiresAt = some T.leaseEnd)

/-- How the claims of the ticks stand to the run rows and to each other. -/
structure Exclusive (c : Timed) : Prop where
  live : ∀ t T x, c.config.tick t = some T → x ∈ T.claimed → LiveClaim c T x
  slot : ∀ t T x, c.config.tick t = some T → x ∈ T.claimed → ∃ run,
    c.config.rows.runs.get x.runId = some run ∧ run.accountId = x.accountId ∧
      run.idempotencyKey = x.idempotencyKey
  apart : ∀ t u T U x y, c.config.tick t = some T → c.config.tick u = some U → t ≠ u →
    x ∈ T.claimed → y ∈ U.claimed → x.runId = y.runId → T.leaseEnd ≤ c.real ∨ U.leaseEnd ≤ c.real

/-- What a step at this time may do to a run row: finish it, leave its lease, or take it when its
lease is over. -/
def Ages (real : Time) (s s' : Rows) : Prop :=
  ∀ id run, s.runs.get id = some run → ∃ run', s'.runs.get id = some run' ∧
    run'.accountId = run.accountId ∧ run'.idempotencyKey = run.idempotencyKey ∧
    (run'.completedAt.isSome = true ∨
      (run'.completedAt = run.completedAt ∧ run'.leaseExpiresAt = run.leaseExpiresAt) ∨
      run.completedAt = none ∧ ∀ expiry, run.leaseExpiresAt = some expiry → expiry ≤ real)

theorem Ages.of_runs {real : Time} {s s' : Rows} (h : s'.runs = s.runs) : Ages real s s' :=
  fun _ run hr => ⟨run, h ▸ hr, rfl, rfl, .inr (.inl ⟨rfl, rfl⟩)⟩

theorem Ages.of_takes {real now expiry : Time} {s s' : Rows} {workerId : String}
    {runs : List ClaimedIdlePreviewRun} (hk : Keeps s s') (ht : Takes s s' workerId now expiry runs)
    (hle : now ≤ real) : Ages real s s' := by
  intro id run hr
  rcases ht.rows id with heq | ⟨hfree, -⟩
  · exact ⟨run, heq.trans hr, rfl, rfl, .inr (.inl ⟨rfl, rfl⟩)⟩
  · obtain ⟨run', hr', -, ha, hkey, -⟩ := hk.runs id run hr
    obtain ⟨hc, he⟩ := hfree run hr
    exact ⟨run', hr', ha, hkey, .inr (.inr ⟨hc, fun expiry h => (he expiry h).trans hle⟩)⟩

theorem Ages.of_finish (real : Time) (s : Rows) (x : ClaimedIdlePreviewRun)
    (completedAt nextRunAt : Time) (result : Json) :
    Ages real s (s.finishRun x completedAt nextRunAt result) := by
  rcases finishRun_cases s x completedAt nextRunAt result with h | ⟨row, hrow, -, h⟩
  · rw [h]
    exact Ages.of_runs rfl
  · rw [h]
    intro id run hr
    by_cases hid : id = x.runId
    · subst hid
      rw [hrow] at hr
      cases hr
      exact ⟨_, Table.get_set_self .., rfl, rfl, .inl rfl⟩
    · exact ⟨run, (Table.get_set_ne _ _ hid).trans hr, rfl, rfl, .inr (.inl ⟨rfl, rfl⟩)⟩

section

variable {c : Timed} {t : TaskId} {T T' : Tick} {s : Rows}

theorem LiveClaim.ages {U U' : Tick} {x : ClaimedIdlePreviewRun} (h : LiveClaim c U x)
    (hs : Ages c.real c.config.rows s) (hend : U'.leaseEnd = U.leaseEnd) :
    LiveClaim (c.move s t T') U' x := by
  rcases h with hover | ⟨run, hr, hrun⟩
  · exact .inl (hend ▸ hover)
  · obtain ⟨run', hr', -, -, hdone | ⟨hc, he⟩ | ⟨hc, he⟩⟩ := hs x.runId run hr
    · exact .inr ⟨run', hr', .inl hdone⟩
    · exact .inr ⟨run', hr', by rw [hc, he, hend]; exact hrun⟩
    · rcases hrun with hdone | hlease
      · rw [hc] at hdone
        cases hdone
      · exact .inl (hend ▸ he _ hlease)

theorem Exclusive.move (h : Exclusive c) (hT : c.config.tick t = some T)
    (hs : Ages c.real c.config.rows s) (hend : T'.leaseEnd = T.leaseEnd)
    (hsub : T'.claimed ⊆ T.claimed) : Exclusive (c.move s t T') := by
  have hback : ∀ u U, (c.move s t T').config.tick u = some U → ∃ V, c.config.tick u = some V ∧
      U.leaseEnd = V.leaseEnd ∧ U.claimed ⊆ V.claimed := by
    intro u U hU
    rw [Timed.move_tick] at hU
    split at hU
    · rename_i hut
      cases hU
      exact ⟨T, hut ▸ hT, hend, hsub⟩
    · exact ⟨U, hU, rfl, fun _ hx => hx⟩
  refine ⟨?_, ?_, ?_⟩
  · intro u U x hU hx
    obtain ⟨V, hV, hVend, hVsub⟩ := hback u U hU
    exact (h.live u V x hV (hVsub hx)).ages hs hVend
  · intro u U x hU hx
    obtain ⟨V, hV, -, hVsub⟩ := hback u U hU
    obtain ⟨run, hr, ha, hk⟩ := h.slot u V x hV (hVsub hx)
    obtain ⟨run', hr', ha', hk', -⟩ := hs x.runId run hr
    exact ⟨run', hr', ha'.trans ha, hk'.trans hk⟩
  · intro u v U W x y hU hW hne hx hy hxy
    obtain ⟨U₀, hU₀, hUend, hUsub⟩ := hback u U hU
    obtain ⟨W₀, hW₀, hWend, hWsub⟩ := hback v W hW
    rw [hUend, hWend]
    exact h.apart u v U₀ W₀ x y hU₀ hW₀ hne (hUsub hx) (hWsub hy) hxy

/-- A tick that claims: whoever held one of the runs has outlived its claim. -/
theorem Exclusive.claimed (h : Exclusive c) (hd : Disciplined c.config.rows)
    (hnow : T.now ≤ c.real) (accountIds : List AccountId) :
    Exclusive (c.move
      (c.config.rows.claimDue T.now T.worker.workerId T.worker.leaseSeconds accountIds).2 t
      { T with
        phase := .dispatching
        claimed :=
          (c.config.rows.claimDue T.now T.worker.workerId T.worker.leaseSeconds accountIds).1 }) := by
  have hk := (hd.claimDue T.now T.worker.workerId T.worker.leaseSeconds accountIds).keeps
  have ht := takes_claimDue hd T.now T.worker accountIds
  have hs := Ages.of_takes hk ht hnow
  have hover : ∀ u U x y, c.config.tick u = some U → x ∈ U.claimed →
      y ∈ (c.config.rows.claimDue T.now T.worker.workerId T.worker.leaseSeconds accountIds).1 →
      x.runId = y.runId → U.leaseEnd ≤ c.real := by
    intro u U x y hU hx hy hxy
    obtain ⟨hfree, -⟩ := ht.taken y hy
    rcases h.live u U x hU hx with hover | ⟨run, hr, hrun⟩
    · exact hover
    · obtain ⟨hc, he⟩ := hfree run (hxy ▸ hr)
      rcases hrun with hdone | hlease
      · rw [hc] at hdone
        cases hdone
      · exact (he _ hlease).trans hnow
  refine ⟨?_, ?_, ?_⟩
  · intro u U x hU hx
    rw [Timed.move_tick] at hU
    split at hU
    · cases hU
      obtain ⟨-, run, hr, -, -, hl⟩ := ht.taken x hx
      exact .inr ⟨run, hr, .inr hl.expires⟩
    · exact (h.live u U x hU hx).ages hs rfl
  · intro u U x hU hx
    rw [Timed.move_tick] at hU
    split at hU
    · cases hU
      obtain ⟨-, run, hr, ha, hkey, -⟩ := ht.taken x hx
      exact ⟨run, hr, ha, hkey⟩
    · obtain ⟨run, hr, ha, hkey⟩ := h.slot u U x hU hx
      obtain ⟨run', hr', ha', hkey', -⟩ := hs x.runId run hr
      exact ⟨run', hr', ha'.trans ha, hkey'.trans hkey⟩
  · intro u v U V x y hU hV hne hx hy hxy
    rw [Timed.move_tick] at hU hV
    split at hU <;> split at hV
    · rename_i hut hvt
      exact absurd (hut.trans hvt.symm) hne
    · cases hU
      exact .inr (hover v V y x hV hy hx hxy.symm)
    · cases hV
      exact .inl (hover u U x y hU hx hy hxy)
    · exact h.apart u v U V x y hU hV hne hx hy hxy

end

theorem Exclusive.start : Exclusive {} where
  live _ _ _ h := nomatch h
  slot _ _ _ h := nomatch h
  apart _ _ _ _ _ _ h := nomatch h

theorem Exclusive.passed {c : Timed} (h : Exclusive c) {real : Time} (hle : c.real ≤ real) :
    Exclusive { c with real } where
  live t T x hT hx := (h.live t T x hT hx).imp_left hle.trans'
  slot := h.slot
  apart t u T U x y hT hU hne hx hy hxy :=
    (h.apart t u T U x y hT hU hne hx hy hxy).imp hle.trans' hle.trans'

theorem Exclusive.started {c : Timed} (h : Exclusive c) {t : TaskId} (worker : Worker) :
    Exclusive (c.move c.config.rows t { worker := worker, now := c.real }) := by
  have hold : ∀ u U x, (c.move c.config.rows t
      { worker := worker, now := c.real }).config.tick u = some U → x ∈ U.claimed →
      c.config.tick u = some U := by
    intro u U x hU hx
    rw [Timed.move_tick] at hU
    split at hU
    · cases hU
      cases hx
    · exact hU
  refine ⟨?_, ?_, ?_⟩
  · intro u U x hU hx
    exact h.live u U x (hold u U x hU hx) hx
  · intro u U x hU hx
    exact h.slot u U x (hold u U x hU hx) hx
  · intro u v U V x y hU hV hne hx hy hxy
    exact h.apart u v U V x y (hold u U x hU hx) (hold v V y hV hy) hne hx hy hxy

theorem Exclusive.step {c c' : Timed} {e : Option Event} (hd : Disciplined c.config.rows)
    (hl : Leases c) (h : Exclusive c) (hst : TimedStep c e c') : Exclusive c' := by
  cases hst with
  | passed real hle => exact h.passed hle
  | abandoned t => exact ⟨h.live, h.slot, h.apart⟩
  | started t worker ht hidle => exact h.started worker
  | moved hst hns hdead =>
    cases hst with
    | started t worker now ht => exact absurd rfl (hns t)
    | acquired t ht hp =>
      obtain ⟨lease, heq⟩ := acquireLease_rows c.config.rows _ _ _
      exact h.move ht (Ages.of_runs (by rw [heq])) rfl fun _ hx => hx
    | ensured t accounts ht hp =>
      exact h.move ht (Ages.of_runs (ensureJobs_runs ..)) rfl fun _ hx => hx
    | claimed t ht hp => exact h.claimed hd (hl.captured t _ ht) _
    | finished t run completedAt result ht hr =>
      exact h.move ht (Ages.of_finish _ _ _ _ _ _) rfl List.erase_subset
    | released t ht hp =>
      obtain ⟨lease, heq⟩ := releaseLease_rows c.config.rows _
      exact h.move ht (Ages.of_runs (by rw [heq])) rfl fun _ hx => hx

theorem TimedRun.leases {c : Timed} (h : TimedRun {} c) : Leases c ∧ Exclusive c := by
  induction h with
  | refl => exact ⟨Leases.start, Exclusive.start⟩
  | tail hr hst ih =>
    obtain ⟨hl, he⟩ := ih
    obtain ⟨e, hst⟩ := hst
    have hd := TimedRun.disciplined hr
    exact ⟨hl.step hd hst, he.step hd hl hst⟩

/-- The row of a slot may not be taken by another worker yet. -/
def JobRun.LiveAt (run : JobRun) (real : Time) : Prop :=
  ∃ expiry, run.leaseExpiresAt = some expiry ∧ real < expiry

/-- A claim finds the lease still held exactly when it comes before the end of the lease that its
tick took. Nobody else holds the slots it takes, and no two ticks ever run a preview of one slot
while both rely on their claims. -/
theorem claim_within_lease {c : Timed} (hrun : TimedRun {} c) :
    (∀ c' t now runs, TimedStep c (some (.claimed t now runs)) c' → ∃ T,
      c.config.tick t = some T ∧
      (c.config.rows.HeldBy T.worker.workerId c.real ↔
        c.real < (T.now + Time.seconds T.worker.leaseSeconds : Time)) ∧
      ∀ x ∈ runs, ∀ id run,
        c.config.rows.runs.get id = some run ∨ c'.config.rows.runs.get id = some run →
        run.accountId = x.accountId → run.idempotencyKey = x.idempotencyKey → run.LiveAt c.real →
        run.leaseOwner = some T.worker.workerId) ∧
    ∀ t u T U x y, c.config.tick t = some T → c.config.tick u = some U → t ≠ u →
      x ∈ T.claimed → y ∈ U.claimed → x.accountId = y.accountId →
      x.idempotencyKey = y.idempotencyKey →
      ¬ (c.real < (T.now + Time.seconds T.worker.leaseSeconds : Time) ∧
        c.real < (U.now + Time.seconds U.worker.leaseSeconds : Time)) := by
  have hd := hrun.disciplined
  obtain ⟨hl, he⟩ := hrun.leases
  refine ⟨?_, ?_⟩
  · intro c' t now runs hst
    have hd' : Disciplined c'.config.rows :=
      TimedRun.disciplined (Relation.ReflTransGen.tail hrun ⟨_, hst⟩)
    cases hst with
    | moved hst hns hdead =>
    cases hst with
    | claimed t ht hp =>
    rename_i T accountIds
    refine ⟨T, ht, hl.heldBy_iff ⟨ht, hdead, by simp [hp], by simp [hp]⟩, ?_⟩
    intro x hx id run hr ha hk ⟨expiry, hexp, hlive⟩
    have htakes := takes_claimDue hd T.now T.worker accountIds
    have hkeeps := (hd.claimDue T.now T.worker.workerId T.worker.leaseSeconds accountIds).keeps
    obtain ⟨hfree, run', hr', ha', hk', hleased⟩ := htakes.taken x hx
    rcases hr with hr | hr
    · obtain ⟨run'', hr'', -, ha'', hk'', -⟩ := hkeeps.runs id run hr
      obtain rfl : id = x.runId := hd'.runs_inj _ _ _ _ hr'' hr' (by rw [ha'', ha, ha'])
        (by rw [hk'', hk, hk'])
      exact absurd (((hfree run hr).2 expiry hexp).trans (hl.captured t T ht)) (not_le.mpr hlive)
    · obtain rfl : id = x.runId := hd'.runs_inj _ _ _ _ hr hr' (by rw [ha, ha']) (by rw [hk, hk'])
      have hsame : some run = some run' := hr.symm.trans hr'
      cases hsame
      exact hleased.owner
  · rintro t u T U x y hT hU hne hx hy ha hk ⟨hlt, hlt'⟩
    obtain ⟨run, hr, hra, hrk⟩ := he.slot t T x hT hx
    obtain ⟨run', hr', hra', hrk'⟩ := he.slot u U y hU hy
    have hxy : x.runId = y.runId := hd.runs_inj _ _ _ _ hr hr' (by rw [hra, ha, hra'])
      (by rw [hrk, hk, hrk'])
    rcases he.apart t u T U x y hT hU hne hx hy hxy with h | h
    · exact absurd h (not_le.mpr hlt)
    · exact absurd h (not_le.mpr hlt')

def workerA : Worker := { previewWorker with workerId := "worker-a", workerId_bounded := by decide }

def workerB : Worker := { previewWorker with workerId := "worker-b", workerId_bounded := by decide }

def delayedTick : Tick := { worker := workerA, now := 0, phase := .ensured [7] }

/-- Worker A has taken the lease and ensured the job of account 7, and is about to claim. -/
def delayed : Timed :=
  let started := ({} : Timed).move {} 0 { worker := workerA, now := 0 }
  let leased := started.move
    (started.config.rows.acquireLease workerA.workerId 0 workerA.leaseSeconds).2 0
    { worker := workerA, now := 0, phase := .leased }
  leased.move (leased.config.rows.ensureJobs [⟨7, true, none⟩] 0 workerA.intervalSeconds) 0
    delayedTick

theorem delayed_run : TimedRun {} delayed := by
  have h1 : TimedRun {} _ :=
    .tail .refl ⟨_, .started 0 workerA rfl fun t T hT _ => by cases hT⟩
  have h2 := h1.tail ⟨_, .moved (.acquired 0 rfl rfl) (fun _ h => by cases h) rfl⟩
  have h3 := h2.tail
    ⟨_, .moved (.ensured 0 [⟨7, true, none⟩] rfl rfl) (fun _ h => by cases h) rfl⟩
  exact h3

/-- Worker B has no tick in a run in which only worker A has one. -/
theorem idle_workerB {c : Timed} {T : Tick} (hnone : ∀ t, t ≠ 0 → c.config.tick t = none)
    (hT : c.config.tick 0 = some T) (hw : T.worker = workerA) : c.Idle workerB.workerId := by
  intro t U hU hname
  by_cases ht : t = 0
  · rw [ht, hT] at hU
    cases hU
    rw [hw] at hname
    exact absurd hname (by decide)
  · rw [hnone t ht] at hU
    cases hU

theorem delayed_alone (t : TaskId) (h : t ≠ 0) : delayed.config.tick t = none := by
  simp [delayed, Timed.move, Config.setTick, Config.start, h]

/-- Worker A has claimed a slot, and worker B is about to claim 31 seconds later. -/
theorem takeover_run : ∃ c T U, TimedRun {} c ∧ c.config.tick 0 = some T ∧
    c.config.tick 1 = some U ∧ c.dead 1 = false ∧ U.phase = .ensured [7] ∧
    T.claimed = [⟨1, 0, 7, 0, ⟨7, 0⟩⟩] ∧
    (c.config.rows.claimDue U.now U.worker.workerId U.worker.leaseSeconds [7]).1 =
      [⟨1, 0, 7, 0, ⟨7, 0⟩⟩] := by
  have h1 := delayed_run.tail ⟨_, .moved (.claimed 0 rfl rfl) (fun _ h => by cases h) rfl⟩
  have h2 := h1.tail ⟨_, .passed (Time.seconds 31) (by decide)⟩
  have h3 := h2.tail ⟨_, .started 1 workerB rfl (idle_workerB
    (fun t ht => (Timed.move_tick ..).trans ((if_neg ht).trans (delayed_alone t ht))) rfl rfl)⟩
  have h4 := h3.tail ⟨_, .moved (.acquired 1 rfl rfl) (fun _ h => by cases h) rfl⟩
  have h5 := h4.tail
    ⟨_, .moved (.ensured 1 [⟨7, true, none⟩] rfl rfl) (fun _ h => by cases h) rfl⟩
  exact ⟨_, _, _, h5, rfl, rfl, rfl, rfl, rfl, rfl⟩

/-- Worker B takes the slot over, and from then on worker A cannot rely on its claim. -/
theorem claim_within_lease_takeover :
    ∃ c c' now runs T U V x, TimedRun {} c ∧ TimedStep c (some (.claimed 1 now runs)) c' ∧
      runs = [x] ∧ c.config.tick 1 = some U ∧
      (c.config.rows.HeldBy U.worker.workerId c.real ↔
        c.real < (U.now + Time.seconds U.worker.leaseSeconds : Time)) ∧
      c'.config.tick 0 = some T ∧ c'.config.tick 1 = some V ∧ T.claimed = [x] ∧ V.claimed = [x] ∧
      ¬ (c'.real < (T.now + Time.seconds T.worker.leaseSeconds : Time) ∧
        c'.real < (V.now + Time.seconds V.worker.leaseSeconds : Time)) := by
  obtain ⟨c, T, U, hrun, hT, hU, hd, hp, hclaimed, hruns⟩ := takeover_run
  generalize hs : c.config.rows.claimDue U.now U.worker.workerId U.worker.leaseSeconds [7] = taken
    at hruns
  generalize hV : ({ U with phase := .dispatching, claimed := taken.1 } : Tick) = V
  have hst : TimedStep c (some (.claimed 1 U.now taken.1)) (c.move taken.2 1 V) := by
    rw [← hV, ← hs]
    exact .moved (.claimed 1 hU hp) (fun _ h => by cases h) hd
  have hrun' : TimedRun {} _ := hrun.tail ⟨_, hst⟩
  obtain ⟨_, hU', hiff, -⟩ := (claim_within_lease hrun).1 _ _ _ _ hst
  rw [hU] at hU'
  cases hU'
  have hT' : (c.move taken.2 1 V).config.tick 0 = some T := (Timed.move_tick 0).trans hT
  have hV' : (c.move taken.2 1 V).config.tick 1 = some V := Timed.move_tick 1
  have hruns' : V.claimed = [⟨1, 0, 7, 0, ⟨7, 0⟩⟩] := hV ▸ hruns
  refine ⟨c, _, _, _, T, U, V, _, hrun, hst, hruns, hU, hiff, hT', hV', hclaimed, hruns', ?_⟩
  exact (claim_within_lease hrun').2 0 1 _ _ _ _ hT' hV' (by decide)
    (hclaimed ▸ List.mem_singleton.mpr rfl) (hruns' ▸ List.mem_singleton.mpr rfl) rfl rfl

/-- Worker A is delayed past the end of its lease, worker B takes the lease, and worker A claims. -/
theorem claim_without_lease :
    ∃ c c' now runs T, TimedRun {} c ∧ TimedStep c (some (.claimed 0 now runs)) c' ∧
      runs = [⟨1, 0, 7, 0, ⟨7, 0⟩⟩] ∧ c.config.tick 0 = some T ∧
      T.worker.workerId = "worker-a" ∧ c.config.rows.HeldBy "worker-b" c.real := by
  obtain ⟨c, hrun, ht, hd, hruns, hheld⟩ : ∃ c, TimedRun {} c ∧
      c.config.tick 0 = some delayedTick ∧ c.dead 0 = false ∧
      (c.config.rows.claimDue 0 "worker-a" 30 [7]).1 = [⟨1, 0, 7, 0, ⟨7, 0⟩⟩] ∧
      c.config.rows.HeldBy "worker-b" c.real := by
    have h1 := delayed_run.tail ⟨_, .passed (Time.seconds 31) (by decide)⟩
    have h2 := h1.tail ⟨_, .started 1 workerB rfl (idle_workerB delayed_alone rfl rfl)⟩
    have h3 := h2.tail ⟨_, .moved (.acquired 1 rfl rfl) (fun _ h => by cases h) rfl⟩
    exact ⟨_, h3, rfl, rfl, rfl, _, _, rfl, rfl, rfl, by decide⟩
  have hst := TimedStep.moved (.claimed 0 ht rfl) (fun _ h => by cases h) hd
  exact ⟨c, _, _, _, _, hrun, hst, hruns, ht, rfl, hheld⟩

end Scheduler

end PlaceGame
