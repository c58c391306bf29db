import PlaceGame.Scheduler.Store

/-!
# PlaceGame.Scheduler.Slots

The slot discipline of the idle preview jobs.

`Disciplined` ties the rows together: an account has one job, a slot has one run, an unfinished run
is the run of its job's current slot, and a finished run belongs to an earlier second. Each store
method preserves it (`Disciplined.ensureJobs`, `.claimDue`, `.finishRun`), so it holds along every
run, and the three parts of the discipline are read off it.
-/

namespace PlaceGame

open Coop

namespace Scheduler

def second (at_ : Time) : Int := (at_ / 1000000 : Int)

/-- The run rows of the slot that a key names. -/
def JobRun.inSlot (run : JobRun) (accountId : AccountId) (at_ : Time) : Prop :=
  run.accountId = accountId ∧ run.idempotencyKey = idlePreviewIdempotencyKey accountId at_

/-- How a run row stands to the next run time `n` of its job. -/
structure JobRun.Placed (run : JobRun) (n : Time) : Prop where
  key : run.idempotencyKey.accountId = run.accountId
  slot : run.idempotencyKey.slot ≤ second n
  unfinished : run.completedAt = none →
    run.idempotencyKey.slot = second n ∧
      ∃ expiry, run.leaseExpiresAt = some expiry ∧ run.dispatchedAt ≤ expiry
  finished : run.completedAt.isSome = true → run.idempotencyKey.slot < second n

structure Disciplined (s : Rows) : Prop where
  jobs_lt : ∀ id job, s.jobs.get id = some job → id < s.nextId
  runs_lt : ∀ id run, s.runs.get id = some run → id < s.nextId
  jobs_kind : ∀ id job, s.jobs.get id = some job → job.kind = jobKind
  jobs_next : ∀ id job, s.jobs.get id = some job → ∃ n, job.nextRunAt = some n
  jobs_inj : ∀ id id' job job', s.jobs.get id = some job → s.jobs.get id' = some job' →
    job.accountId = job'.accountId → id = id'
  runs_inj : ∀ id id' run run', s.runs.get id = some run → s.runs.get id' = some run' →
    run.accountId = run'.accountId → run.idempotencyKey = run'.idempotencyKey → id = id'
  runs_placed : ∀ id run, s.runs.get id = some run → ∃ job n, s.jobs.get run.jobId = some job ∧
    job.accountId = run.accountId ∧ job.nextRunAt = some n ∧ run.Placed n

/-- Nothing of a run changes but its lease, and no job moves: every store method except
`finish_run` changes the rows in this way. -/
structure Keeps (s s' : Rows) : Prop where
  jobs : ∀ id job, s.jobs.get id = some job → ∃ job', s'.jobs.get id = some job' ∧
    job'.accountId = job.accountId ∧ job'.nextRunAt = job.nextRunAt
  runs : ∀ id run, s.runs.get id = some run → ∃ run', s'.runs.get id = some run' ∧
    run'.jobId = run.jobId ∧ run'.accountId = run.accountId ∧
    run'.idempotencyKey = run.idempotencyKey ∧ run'.dispatchedAt = run.dispatchedAt ∧
    run'.completedAt = run.completedAt ∧ run'.result = run.result

/-- What a tick of time `now` knows about a run that it claimed. -/
def Holds (s : Rows) (now : Time) (x : ClaimedIdlePreviewRun) : Prop :=
  ∃ run, s.runs.get x.runId = some run ∧ run.jobId = x.jobId ∧ run.dispatchedAt ≤ now ∧
    (run.completedAt = none →
      ∃ job n, s.jobs.get x.jobId = some job ∧ job.nextRunAt = some n ∧ n ≤ now)

theorem Keeps.refl (s : Rows) : Keeps s s where
  jobs _ job h := ⟨job, h, rfl, rfl⟩
  runs _ run h := ⟨run, h, rfl, rfl, rfl, rfl, rfl, rfl⟩

theorem Keeps.trans {s s' s'' : Rows} (h : Keeps s s') (h' : Keeps s' s'') : Keeps s s'' where
  jobs id job hj := by
    obtain ⟨job', hj', ha, hn⟩ := h.jobs id job hj
    obtain ⟨job'', hj'', ha', hn'⟩ := h'.jobs id job' hj'
    exact ⟨job'', hj'', ha'.trans ha, hn'.trans hn⟩
  runs id run hr := by
    obtain ⟨run', hr', h1, h2, h3, h4, h5, h6⟩ := h.runs id run hr
    obtain ⟨run'', hr'', k1, k2, k3, k4, k5, k6⟩ := h'.runs id run' hr'
    exact ⟨run'', hr'', k1.trans h1, k2.trans h2, k3.trans h3, k4.trans h4, k5.trans h5,
      k6.trans h6⟩

theorem Holds.keeps {s s' : Rows} {now : Time} {x : ClaimedIdlePreviewRun} (h : Holds s now x)
    (hk : Keeps s s') : Holds s' now x := by
  obtain ⟨run, hr, hj, hd, hu⟩ := h
  obtain ⟨run', hr', hj', -, -, hd', hc', -⟩ := hk.runs _ _ hr
  refine ⟨run', hr', hj'.trans hj, hd'.le.trans hd, ?_⟩
  intro hc
  obtain ⟨job, n, hjob, hn, hle⟩ := hu (hc'.symm.trans hc)
  obtain ⟨job', hjob', -, hn'⟩ := hk.jobs _ _ hjob
  exact ⟨job', n, hjob', hn'.trans hn, hle⟩

theorem Disciplined.empty : Disciplined {} where
  jobs_lt _ _ h := nomatch h
  runs_lt _ _ h := nomatch h
  jobs_kind _ _ h := nomatch h
  jobs_next _ _ h := nomatch h
  jobs_inj _ _ _ _ h := nomatch h
  runs_inj _ _ _ _ h := nomatch h
  runs_placed _ _ h := nomatch h

/-- The lease row does not matter to the discipline. -/
theorem Disciplined.lease {s : Rows} (h : Disciplined s) (lease : Option SchedulerLease) :
    Disciplined { s with lease := lease } :=
  ⟨h.jobs_lt, h.runs_lt, h.jobs_kind, h.jobs_next, h.jobs_inj, h.runs_inj, h.runs_placed⟩

theorem Keeps.lease (s : Rows) (lease : Option SchedulerLease) :
    Keeps s { s with lease := lease } :=
  ⟨(Keeps.refl s).jobs, (Keeps.refl s).runs⟩

theorem acquireLease_rows (s : Rows) (workerId : String) (now : Time) (leaseSeconds : Nat) :
    ∃ lease, (s.acquireLease workerId now leaseSeconds).2 = { s with lease := lease } := by
  unfold Rows.acquireLease
  dsimp only
  split
  · exact ⟨_, rfl⟩
  · exact ⟨_, rfl⟩

theorem releaseLease_rows (s : Rows) (workerId : String) :
    ∃ lease, s.releaseLease workerId = { s with lease := lease } := by
  unfold Rows.releaseLease
  split
  · exact ⟨s.lease, rfl⟩
  · split
    · exact ⟨s.lease, rfl⟩
    · exact ⟨_, rfl⟩

section Jobs

def jobView (job : Job) : AccountId × String × Option Time :=
  (job.accountId, job.kind, job.nextRunAt)

/-- An edit of a job that the discipline does not see. -/
def Invisible (f : Job → Job) : Prop := ∀ job, job.nextRunAt.isSome = true → jobView (f job) = jobView job

/-- The two tables show the same jobs to the discipline. -/
def Alike (J J' : Table JobId Job) : Prop :=
  ∀ id, (J'.get id).map jobView = (J.get id).map jobView

theorem Alike.row {J J' : Table JobId Job} (h : Alike J J') {id : JobId} {job : Job}
    (hj : J.get id = some job) : ∃ job', J'.get id = some job' ∧ jobView job' = jobView job := by
  have hv := h id
  rw [hj, Option.map_some, Option.map_eq_some_iff] at hv
  exact hv

theorem Alike.symm {J J' : Table JobId Job} (h : Alike J J') : Alike J' J := fun id => (h id).symm

theorem Alike.trans {J J' J'' : Table JobId Job} (h : Alike J J') (h' : Alike J' J'') :
    Alike J J'' := fun id => (h' id).trans (h id)

theorem Alike.edit {J : Table JobId Job} (hJ : ∀ id job, J.get id = some job →
    job.nextRunAt.isSome = true) (id : JobId) {f : Job → Job} (hf : Invisible f) :
    Alike J (J.update id f) := by
  intro id'
  rw [Table.get_update]
  by_cases hid : id' = id
  · subst hid
    rw [if_pos rfl]
    cases hj : J.get id' with
    | none => rfl
    | some job => exact congrArg some (hf job (hJ _ _ hj))
  · rw [if_neg hid]

theorem Disciplined.next_isSome {s : Rows} (h : Disciplined s) (id : JobId) (job : Job)
    (hj : s.jobs.get id = some job) : job.nextRunAt.isSome = true := by
  obtain ⟨n, hn⟩ := h.jobs_next id job hj
  rw [hn]
  rfl

theorem Disciplined.alike {s : Rows} (h : Disciplined s) {J : Table JobId Job}
    (hJ : Alike s.jobs J) : Disciplined { s with jobs := J } where
  jobs_lt id job hj := by
    obtain ⟨job', hj', -⟩ := hJ.symm.row hj
    exact h.jobs_lt id job' hj'
  runs_lt := h.runs_lt
  jobs_kind id job hj := by
    obtain ⟨job', hj', hv⟩ := hJ.symm.row hj
    have hkind : job'.kind = job.kind := congrArg (·.2.1) hv
    rw [← hkind]
    exact h.jobs_kind id job' hj'
  jobs_next id job hj := by
    obtain ⟨job', hj', hv⟩ := hJ.symm.row hj
    have hnext : job'.nextRunAt = job.nextRunAt := congrArg (·.2.2) hv
    rw [← hnext]
    exact h.jobs_next id job' hj'
  jobs_inj id id' job job' hj hj' ha := by
    obtain ⟨old, hold, hv⟩ := hJ.symm.row hj
    obtain ⟨old', hold', hv'⟩ := hJ.symm.row hj'
    have h1 : old.accountId = job.accountId := congrArg (·.1) hv
    have h2 : old'.accountId = job'.accountId := congrArg (·.1) hv'
    exact h.jobs_inj id id' old old' hold hold' (by rw [h1, h2, ha])
  runs_inj := h.runs_inj
  runs_placed id run hr := by
    obtain ⟨job, n, hj, ha, hn, hp⟩ := h.runs_placed id run hr
    obtain ⟨job', hj', hv⟩ := hJ.row hj
    have h1 : job'.accountId = job.accountId := congrArg (·.1) hv
    have h2 : job'.nextRunAt = job.nextRunAt := congrArg (·.2.2) hv
    exact ⟨job', n, hj', h1.trans ha, h2.trans hn, hp⟩

theorem Keeps.alike {s : Rows} {J : Table JobId Job} (hJ : Alike s.jobs J) :
    Keeps s { s with jobs := J } where
  jobs id job hj := by
    obtain ⟨job', hj', hv⟩ := hJ.row hj
    exact ⟨job', hj', congrArg (·.1) hv, congrArg (·.2.2) hv⟩
  runs := (Keeps.refl s).runs

theorem Disciplined.addJob {s : Rows} (h : Disciplined s) (job : Job) (now : Time)
    (hkind : job.kind = jobKind) (hnext : job.nextRunAt = some now)
    (hnew : ∀ id old, s.jobs.get id = some old → old.accountId ≠ job.accountId) :
    Disciplined { s with jobs := s.jobs.set s.nextId job, nextId := s.nextId + 1 } ∧
      Keeps s { s with jobs := s.jobs.set s.nextId job, nextId := s.nextId + 1 } := by
  have hne : ∀ id old, s.jobs.get id = some old → id ≠ s.nextId := by
    intro id old hid
    exact Nat.ne_of_lt (h.jobs_lt id old hid)
  have hkeep : ∀ id old, s.jobs.get id = some old → (s.jobs.set s.nextId job).get id = some old := by
    intro id old hid
    rw [Table.get_set_ne _ _ (hne id old hid), hid]
  have hget : ∀ id j, (s.jobs.set s.nextId job).get id = some j →
      (id = s.nextId ∧ j = job) ∨ s.jobs.get id = some j := by
    intro id j hj
    rw [Table.get_set] at hj
    split at hj
    · rename_i heq
      exact .inl ⟨heq, by cases hj; rfl⟩
    · exact .inr hj
  constructor
  · refine ⟨?_, ?_, ?_, ?_, ?_, h.runs_inj, ?_⟩
    · intro id j hj
      rcases hget id j hj with ⟨rfl, -⟩ | hj
      · exact Nat.lt_succ_self _
      · exact Nat.lt_succ_of_lt (h.jobs_lt id j hj)
    · intro id run hr
      exact Nat.lt_succ_of_lt (h.runs_lt id run hr)
    · intro id j hj
      rcases hget id j hj with ⟨-, rfl⟩ | hj
      · exact hkind
      · exact h.jobs_kind id j hj
    · intro id j hj
      rcases hget id j hj with ⟨-, rfl⟩ | hj
      · exact ⟨now, hnext⟩
      · exact h.jobs_next id j hj
    · intro id id' j j' hj hj' ha
      rcases hget id j hj with ⟨rfl, rfl⟩ | hold
      · rcases hget id' j' hj' with ⟨rfl, -⟩ | hold'
        · rfl
        · exact absurd ha.symm (hnew id' j' hold')
      · rcases hget id' j' hj' with ⟨-, rfl⟩ | hold'
        · exact absurd ha (hnew id j hold)
        · exact h.jobs_inj id id' j j' hold hold' ha
    · intro id run hr
      obtain ⟨old, n, hold, ha, hn, hp⟩ := h.runs_placed id run hr
      exact ⟨old, n, hkeep _ _ hold, ha, hn, hp⟩
  · exact ⟨fun id old hold => ⟨old, hkeep id old hold, rfl, rfl⟩, (Keeps.refl s).runs⟩

end Jobs

section Ensure

theorem mem_knownJobs {s : Rows} {known : List AccountId} {row : JobId × Job} :
    row ∈ s.knownJobs known ↔
      s.jobs.get row.1 = some row.2 ∧ row.2.kind = jobKind ∧ row.2.accountId ∈ known := by
  obtain ⟨id, job⟩ := row
  unfold Rows.knownJobs
  dsimp only
  rw [List.mem_insertionSort, List.mem_filter, List.mem_filterMap]
  simp only [Bool.and_eq_true, decide_eq_true_eq, List.contains_iff_mem, Option.map_eq_some_iff,
    Prod.mk.injEq]
  constructor
  · rintro ⟨⟨id', -, job', hj, rfl, rfl⟩, hk, ha⟩
    exact ⟨hj, hk, ha⟩
  · rintro ⟨hj, hk, ha⟩
    exact ⟨⟨id, Table.mem_keys_iff.mpr ⟨job, hj⟩, job, hj, rfl, rfl⟩, hk, ha⟩

theorem currentJob_none {rows : List (JobId × Job)} {accountId : AccountId}
    (h : Rows.currentJob rows accountId = none) {row : JobId × Job} (hr : row ∈ rows) :
    row.2.accountId ≠ accountId := by
  unfold Rows.currentJob at h
  rw [Option.map_eq_none_iff, List.find?_eq_none] at h
  simpa using h row hr

theorem invisible_disable : Invisible fun job => { job with enabled := false } := fun _ _ => rfl

theorem invisible_refresh (schedule : String) (now : Time) :
    Invisible fun job =>
      { job with
        schedule := schedule
        timezone := jobTimezone
        misfirePolicy := jobMisfirePolicy
        enabled := true
        nextRunAt := some (job.nextRunAt.getD now) } := by
  intro job hn
  obtain ⟨n, hn⟩ := Option.isSome_iff_exists.mp hn
  simp [jobView, hn]

theorem alike_disableDuplicates (rows dup : List (JobId × Job)) (J : Table JobId Job)
    (hJ : ∀ id job, J.get id = some job → job.nextRunAt.isSome = true) :
    Alike J (dup.foldl (fun jobs row =>
      if Rows.currentJob rows row.2.accountId = some row.1 then jobs
      else jobs.update row.1 fun job => { job with enabled := false }) J) := by
  induction dup generalizing J with
  | nil => exact fun _ => rfl
  | cons row dup ih =>
    rw [List.foldl_cons]
    split
    · exact ih J hJ
    · have h1 : Alike J (J.update row.1 fun job => { job with enabled := false }) :=
        Alike.edit hJ row.1 invisible_disable
      refine h1.trans (ih _ ?_)
      intro id job hj
      obtain ⟨old, hold, hv⟩ := h1.symm.row hj
      have hnext : old.nextRunAt = job.nextRunAt := congrArg (·.2.2) hv
      rw [← hnext]
      exact hJ id old hold

theorem Disciplined.ensureJob {s : Rows} (h : Disciplined s) (rows : List (JobId × Job))
    (eligible : AccountId → Bool) (now : Time) (intervalSeconds : Nat) (a : AccountId)
    (hnew : Rows.currentJob rows a = none → ∀ id job, s.jobs.get id = some job →
      job.accountId ≠ a) :
    Disciplined (s.ensureJob rows eligible now intervalSeconds a) ∧
      Keeps s (s.ensureJob rows eligible now intervalSeconds a) ∧
      ∀ id job, (s.ensureJob rows eligible now intervalSeconds a).jobs.get id = some job →
        job.accountId = a ∨ ∃ old, s.jobs.get id = some old ∧ old.accountId = job.accountId := by
  have hedit : ∀ (id : JobId) {f : Job → Job}, Invisible f →
      Disciplined { s with jobs := s.jobs.update id f } ∧
        Keeps s { s with jobs := s.jobs.update id f } ∧
        ∀ id' job, (s.jobs.update id f).get id' = some job →
          job.accountId = a ∨ ∃ old, s.jobs.get id' = some old ∧ old.accountId = job.accountId := by
    intro id f hf
    have hal := Alike.edit h.next_isSome id hf
    refine ⟨h.alike hal, Keeps.alike hal, ?_⟩
    intro id' job hj
    obtain ⟨old, hold, hv⟩ := hal.symm.row hj
    exact .inr ⟨old, hold, congrArg (·.1) hv⟩
  unfold Rows.ensureJob
  dsimp only
  split
  · split
    · exact hedit _ invisible_disable
    · exact ⟨h, Keeps.refl s, fun id job hj => .inr ⟨job, hj, rfl⟩⟩
  · split
    · rename_i hc
      obtain ⟨h1, h2⟩ := h.addJob
        { accountId := a
          kind := jobKind
          schedule := "interval:" ++ toString intervalSeconds
          timezone := jobTimezone
          enabled := true
          nextRunAt := some now
          misfirePolicy := jobMisfirePolicy
          createdAt := now } now rfl rfl (hnew hc)
      refine ⟨h1, h2, ?_⟩
      intro id job hj
      dsimp only at hj
      rw [Table.get_set] at hj
      split at hj
      · cases hj
        exact .inl rfl
      · exact .inr ⟨job, hj, rfl⟩
    · exact hedit _ (invisible_refresh _ now)

theorem Disciplined.ensureAll {s : Rows} (h : Disciplined s) (rows : List (JobId × Job))
    (eligible : AccountId → Bool) (now : Time) (intervalSeconds : Nat) (known : List AccountId)
    (hnodup : known.Nodup)
    (hnew : ∀ a ∈ known, Rows.currentJob rows a = none → ∀ id job, s.jobs.get id = some job →
      job.accountId ≠ a) :
    Disciplined (known.foldl (Rows.ensureJob rows eligible now intervalSeconds) s) ∧
      Keeps s (known.foldl (Rows.ensureJob rows eligible now intervalSeconds) s) := by
  induction known generalizing s with
  | nil => exact ⟨h, Keeps.refl s⟩
  | cons a known ih =>
    rw [List.nodup_cons] at hnodup
    obtain ⟨h1, h2, h3⟩ := h.ensureJob rows eligible now intervalSeconds a
      (hnew a List.mem_cons_self)
    have hnew' : ∀ b ∈ known, Rows.currentJob rows b = none → ∀ id job,
        (s.ensureJob rows eligible now intervalSeconds a).jobs.get id = some job →
          job.accountId ≠ b := by
      intro b hb hc id job hj
      rcases h3 id job hj with ha | ⟨old, hold, ha⟩
      · intro hab
        exact hnodup.1 (by rw [← ha, hab]; exact hb)
      · rw [← ha]
        exact hnew b (List.mem_cons_of_mem _ hb) hc id old hold
    obtain ⟨h4, h5⟩ := ih h1 hnodup.2 hnew'
    exact ⟨h4, h2.trans h5⟩

theorem Disciplined.ensureJobs {s : Rows} (h : Disciplined s) (accounts : List SchedulerAccount)
    (now : Time) (intervalSeconds : Nat) :
    Disciplined (s.ensureJobs accounts now intervalSeconds) ∧
      Keeps s (s.ensureJobs accounts now intervalSeconds) := by
  unfold Rows.ensureJobs
  dsimp only
  generalize hknown : (accounts.map (·.id)).dedup = known
  have hnodup : known.Nodup := by rw [← hknown]; exact List.nodup_dedup _
  have hal := alike_disableDuplicates (s.knownJobs known) (s.knownJobs known) s.jobs h.next_isSome
  obtain ⟨h1, h2⟩ := (h.alike hal).ensureAll (s.knownJobs known) _ now intervalSeconds known hnodup
    (by
      intro a ha hc id job hj
      obtain ⟨old, hold, hv⟩ := hal.symm.row hj
      have hacc : old.accountId = job.accountId := congrArg (·.1) hv
      rw [← hacc]
      intro hold'
      have hmem : (id, old) ∈ s.knownJobs known :=
        mem_knownJobs.mpr ⟨hold, h.jobs_kind id old hold, by rw [hold']; exact ha⟩
      exact currentJob_none hc hmem hold')
  exact ⟨h1, (Keeps.alike hal).trans h2⟩

end Ensure

end Scheduler

end PlaceGame
