import PlaceGame.Scheduler.Slots

/-!
# PlaceGame.Scheduler.Discipline

Claiming and finishing under the invariant of `Scheduler.Slots`, and the slot discipline of every
run of any number of workers.

A run row keeps the time of the tick that inserted it, a retaken run is retaken at a later time, and
a finished run moves its job to a later second: so no slot is entered twice and no job is left
behind.
-/

namespace PlaceGame

open Coop

namespace Scheduler

theorem second_add_seconds_lt (at_ n : Int) (interval : Nat) (hi : 1 ≤ interval) (hn : n ≤ at_) :
    second n < second (at_ + Time.seconds interval : Int) := by
  unfold second Time.seconds
  omega

theorem lt_add_seconds (at_ n : Int) (interval : Nat) (hi : 1 ≤ interval) (hn : n ≤ at_) :
    n < (at_ + Time.seconds interval : Int) := by
  unfold Time.seconds
  omega

theorem le_add_seconds (at_ : Int) (n : Nat) : at_ ≤ (at_ + Time.seconds n : Int) := by
  unfold Time.seconds
  omega

section Claim

/-- The slot has a run that may not be taken at time `now`. -/
def Taken (s : Rows) (accountId : AccountId) (at_ now : Time) : Prop :=
  ∃ id run, s.runs.get id = some run ∧ run.inSlot accountId at_ ∧
    (run.completedAt.isSome = true ∨ ∃ expiry, run.leaseExpiresAt = some expiry ∧ now < expiry)

theorem claimSlot_cases (s : Rows) (jobId : JobId) (job : Job) (at_ now : Time) (workerId : String)
    (leaseSeconds : Nat) :
    ((∀ id run, s.runs.get id = some run → ¬ run.inSlot job.accountId at_) ∧
      s.claimSlot jobId job at_ now workerId leaseSeconds =
        (some ⟨s.nextId, jobId, job.accountId, at_, idlePreviewIdempotencyKey job.accountId at_⟩,
          { s with
            runs := s.runs.set s.nextId
              { jobId := jobId
                accountId := job.accountId
                idempotencyKey := idlePreviewIdempotencyKey job.accountId at_
                dispatchedAt := now
                leaseOwner := some workerId
                leaseExpiresAt := some (now + Time.seconds leaseSeconds)
                attempt := 1 }
            nextId := s.nextId + 1 })) ∨
    (∃ id run, s.runs.get id = some run ∧ run.inSlot job.accountId at_ ∧
      run.completedAt = none ∧ (∀ expiry, run.leaseExpiresAt = some expiry → expiry ≤ now) ∧
      s.claimSlot jobId job at_ now workerId leaseSeconds =
        (some ⟨id, jobId, job.accountId, at_, idlePreviewIdempotencyKey job.accountId at_⟩,
          { s with
            runs := s.runs.set id
              { run with
                leaseOwner := some workerId
                leaseExpiresAt := some (now + Time.seconds leaseSeconds)
                attempt := run.attempt + 1 } })) ∨
    (Taken s job.accountId at_ now ∧
      s.claimSlot jobId job at_ now workerId leaseSeconds = (none, s)) := by
  unfold Rows.claimSlot
  dsimp only
  cases hf : s.runs.find fun _ run => run.accountId = job.accountId &&
      run.idempotencyKey = idlePreviewIdempotencyKey job.accountId at_ with
  | none =>
    refine .inl ⟨?_, rfl⟩
    intro id run hr hslot
    have := Table.find_none hf hr
    simp [hslot.1, hslot.2] at this
  | some id =>
    right
    obtain ⟨run, hr, hp⟩ := Table.find_some hf
    have hslot : run.inSlot job.accountId at_ := by simpa [JobRun.inSlot] using hp
    simp only [hr]
    split
    · rename_i hc
      exact .inr ⟨⟨id, run, hr, hslot, .inl hc⟩, rfl⟩
    · rename_i hc
      split
      · rename_i hl
        obtain ⟨expiry, he, hlt⟩ := Option.any_eq_true _ _ |>.mp hl
        exact .inr ⟨⟨id, run, hr, hslot, .inr ⟨expiry, he, by simpa using hlt⟩⟩, rfl⟩
      · rename_i hl
        refine .inl ⟨id, run, hr, hslot, by simpa using hc, ?_, rfl⟩
        intro expiry he
        rw [he] at hl
        simpa using hl

/-- The tick time that a claim at `now` leaves on a run row, where there was `old`. -/
def claimStamp (now : Time) (runs : List ClaimedIdlePreviewRun) (id : RunId) (old : Option Time) :
    Option Time :=
  old.or (if runs.any fun x => x.runId = id then some now else none)

def stamp (s : Rows) (id : RunId) : Option Time := (s.runs.get id).map (·.dispatchedAt)

/-- What one pass of `_claim_slot` keeps and what it gives to the caller. -/
structure Claims (s s' : Rows) (now : Time) (runs : List ClaimedIdlePreviewRun) : Prop where
  disciplined : Disciplined s'
  keeps : Keeps s s'
  jobs : s'.jobs = s.jobs
  holds : ∀ x ∈ runs, Holds s' now x
  stamps : ∀ id, stamp s' id = claimStamp now runs id (stamp s id)

theorem Claims.none {s : Rows} (h : Disciplined s) (now : Time) : Claims s s now [] where
  disciplined := h
  keeps := Keeps.refl s
  jobs := rfl
  holds _ hx := nomatch hx
  stamps id := by simp [claimStamp]

theorem Claims.trans {s s' s'' : Rows} {now : Time} {xs ys : List ClaimedIdlePreviewRun}
    (h : Claims s s' now xs) (h' : Claims s' s'' now ys) : Claims s s'' now (xs ++ ys) where
  disciplined := h'.disciplined
  keeps := h.keeps.trans h'.keeps
  jobs := h'.jobs.trans h.jobs
  holds x hx := by
    rcases List.mem_append.mp hx with hx | hx
    · exact (h.holds x hx).keeps h'.keeps
    · exact h'.holds x hx
  stamps id := by
    rw [h'.stamps id, h.stamps id]
    unfold claimStamp
    cases stamp s id with
    | some at_ => rfl
    | none =>
      by_cases hx : (xs.any fun x => x.runId = id) = true
      · simp [hx]
      · simp [hx]

theorem Disciplined.insertRun {s : Rows} (h : Disciplined s) {jobId : JobId} {job : Job} {at_ : Time}
    (now : Time) (workerId : String) (leaseSeconds : Nat) (hj : s.jobs.get jobId = some job)
    (hn : job.nextRunAt = some at_) (hle : at_ ≤ now)
    (hfree : ∀ id run, s.runs.get id = some run → ¬ run.inSlot job.accountId at_) :
    Claims s
      { s with
        runs := s.runs.set s.nextId
          { jobId := jobId
            accountId := job.accountId
            idempotencyKey := idlePreviewIdempotencyKey job.accountId at_
            dispatchedAt := now
            leaseOwner := some workerId
            leaseExpiresAt := some (now + Time.seconds leaseSeconds)
            attempt := 1 }
        nextId := s.nextId + 1 } now
      [⟨s.nextId, jobId, job.accountId, at_, idlePreviewIdempotencyKey job.accountId at_⟩] := by
  generalize hrun : ({ jobId := jobId
                       accountId := job.accountId
                       idempotencyKey := idlePreviewIdempotencyKey job.accountId at_
                       dispatchedAt := now
                       leaseOwner := some workerId
                       leaseExpiresAt := some (now + Time.seconds leaseSeconds)
                       attempt := 1 } : JobRun) = new
  have hne : ∀ id run, s.runs.get id = some run → id ≠ s.nextId := by
    intro id run hr
    exact Nat.ne_of_lt (h.runs_lt id run hr)
  have hkeep : ∀ id run, s.runs.get id = some run →
      (s.runs.set s.nextId new).get id = some run := by
    intro id run hr
    rw [Table.get_set_ne _ _ (hne id run hr), hr]
  have hget : ∀ id run, (s.runs.set s.nextId new).get id = some run →
      (id = s.nextId ∧ run = new) ∨ s.runs.get id = some run := by
    intro id run hr
    rw [Table.get_set] at hr
    split at hr
    · rename_i heq
      exact .inl ⟨heq, by cases hr; rfl⟩
    · exact .inr hr
  have hslot : new.inSlot job.accountId at_ := by rw [← hrun]; exact ⟨rfl, rfl⟩
  have hkeeps : Keeps s { s with runs := s.runs.set s.nextId new, nextId := s.nextId + 1 } :=
    ⟨(Keeps.refl s).jobs, fun id run hr =>
      ⟨run, hkeep id run hr, rfl, rfl, rfl, rfl, rfl, rfl⟩⟩
  refine ⟨?_, hkeeps, rfl, ?_, ?_⟩
  · refine ⟨?_, ?_, h.jobs_kind, h.jobs_next, h.jobs_inj, ?_, ?_⟩
    · intro id j hid
      exact Nat.lt_succ_of_lt (h.jobs_lt id j hid)
    · intro id run hr
      rcases hget id run hr with ⟨rfl, -⟩ | hr
      · exact Nat.lt_succ_self _
      · exact Nat.lt_succ_of_lt (h.runs_lt id run hr)
    · intro id id' run run' hr hr' ha hk
      rcases hget id run hr with ⟨rfl, rfl⟩ | hold
      · rcases hget id' run' hr' with ⟨rfl, -⟩ | hold'
        · rfl
        · exact absurd ⟨ha.symm.trans hslot.1, hk.symm.trans hslot.2⟩ (hfree id' run' hold')
      · rcases hget id' run' hr' with ⟨rfl, rfl⟩ | hold'
        · exact absurd ⟨ha.trans hslot.1, hk.trans hslot.2⟩ (hfree id run hold)
        · exact h.runs_inj id id' run run' hold hold' ha hk
    · intro id run hr
      rcases hget id run hr with ⟨rfl, rfl⟩ | hr
      · subst hrun
        exact ⟨job, at_, hj, rfl, hn, rfl, le_rfl,
          fun _ => ⟨rfl, _, rfl, le_add_seconds now leaseSeconds⟩, fun hc => by cases hc⟩
      · exact h.runs_placed id run hr
  · intro x hx
    rw [List.mem_singleton] at hx
    subst hx
    subst hrun
    exact ⟨_, Table.get_set_self _ _ _, rfl, le_rfl, fun _ => ⟨job, at_, hj, hn, hle⟩⟩
  · intro id
    unfold stamp claimStamp
    dsimp only
    rw [Table.get_set]
    by_cases hid : id = s.nextId
    · subst hid
      have hnone : s.runs.get s.nextId = none := by
        cases hr : s.runs.get s.nextId with
        | none => rfl
        | some run => exact absurd rfl (hne _ _ hr)
      subst hrun
      simp [hnone]
    · have hid' : ¬ s.nextId = id := fun he => hid he.symm
      simp [hid, hid']

theorem Disciplined.retakeRun {s : Rows} (h : Disciplined s) {jobId id : RunId} {job : Job}
    {run : JobRun} {at_ : Time} (now : Time) (workerId : String) (leaseSeconds : Nat)
    (hj : s.jobs.get jobId = some job) (hn : job.nextRunAt = some at_) (hle : at_ ≤ now)
    (hr : s.runs.get id = some run) (hslot : run.inSlot job.accountId at_)
    (hc : run.completedAt = none) (he : ∀ expiry, run.leaseExpiresAt = some expiry → expiry ≤ now) :
    Claims s
      { s with
        runs := s.runs.set id
          { run with
            leaseOwner := some workerId
            leaseExpiresAt := some (now + Time.seconds leaseSeconds)
            attempt := run.attempt + 1 } } now
      [⟨id, jobId, job.accountId, at_, idlePreviewIdempotencyKey job.accountId at_⟩] := by
  obtain ⟨job', n, hj', ha', hn', hp⟩ := h.runs_placed id run hr
  obtain ⟨-, expiry, hexp, hd⟩ := hp.unfinished hc
  have hd' : run.dispatchedAt ≤ now := hd.trans (he expiry hexp)
  have hjob : run.jobId = jobId :=
    h.jobs_inj _ _ _ _ hj' hj (ha'.trans hslot.1)
  have hrows : ∀ id' run', (s.runs.set id
      { run with
        leaseOwner := some workerId
        leaseExpiresAt := some (now + Time.seconds leaseSeconds)
        attempt := run.attempt + 1 }).get id' = some run' →
      ∃ old, s.runs.get id' = some old ∧ old.accountId = run'.accountId ∧
        old.idempotencyKey = run'.idempotencyKey := by
    intro id' run' hr'
    rw [Table.get_set] at hr'
    split at hr'
    · rename_i heq
      subst heq
      cases hr'
      exact ⟨run, hr, rfl, rfl⟩
    · exact ⟨run', hr', rfl, rfl⟩
  refine ⟨?_, ?_, rfl, ?_, ?_⟩
  · refine ⟨h.jobs_lt, ?_, h.jobs_kind, h.jobs_next, h.jobs_inj, ?_, ?_⟩
    · intro id' run' hr'
      obtain ⟨old, hold, -⟩ := hrows id' run' hr'
      exact h.runs_lt id' old hold
    · intro i i' r r' hi hi' hacc hkey
      obtain ⟨old, hold, h1, h2⟩ := hrows i r hi
      obtain ⟨old', hold', h1', h2'⟩ := hrows i' r' hi'
      exact h.runs_inj i i' old old' hold hold' (by rw [h1, h1', hacc]) (by rw [h2, h2', hkey])
    · intro id' run' hr'
      dsimp only at hr'
      rw [Table.get_set] at hr'
      split at hr'
      · cases hr'
        refine ⟨job', n, hj', ha', hn', hp.key, hp.slot, ?_, ?_⟩
        · intro _
          exact ⟨(hp.unfinished hc).1, _, rfl, hd'.trans (le_add_seconds now leaseSeconds)⟩
        · intro hsome
          dsimp only at hsome
          rw [hc] at hsome
          cases hsome
      · exact h.runs_placed id' run' hr'
  · refine ⟨(Keeps.refl s).jobs, ?_⟩
    intro id' run' hr'
    dsimp only
    rw [Table.get_set]
    by_cases hid : id' = id
    · subst hid
      rw [hr] at hr'
      cases hr'
      exact ⟨_, if_pos rfl, rfl, rfl, rfl, rfl, rfl, rfl⟩
    · exact ⟨run', by rw [if_neg hid, hr'], rfl, rfl, rfl, rfl, rfl, rfl⟩
  · intro x hx
    rw [List.mem_singleton] at hx
    subst hx
    exact ⟨_, Table.get_set_self _ _ _, hjob, hd', fun _ => ⟨job, at_, hj, hn, hle⟩⟩
  · intro id'
    unfold stamp claimStamp
    dsimp only
    rw [Table.get_set]
    by_cases hid : id' = id
    · subst hid
      simp [hr]
    · have hid' : ¬ id = id' := fun heq => hid heq.symm
      simp [hid, hid']

theorem Disciplined.claimSlot {s : Rows} (h : Disciplined s) {jobId : JobId} {job : Job}
    {at_ : Time} (now : Time) (workerId : String) (leaseSeconds : Nat)
    (hj : s.jobs.get jobId = some job) (hn : job.nextRunAt = some at_) (hle : at_ ≤ now) :
    Claims s (s.claimSlot jobId job at_ now workerId leaseSeconds).2 now
      (s.claimSlot jobId job at_ now workerId leaseSeconds).1.toList := by
  rcases claimSlot_cases s jobId job at_ now workerId leaseSeconds with
    ⟨hfree, heq⟩ | ⟨id, run, hr, hslot, hc, he, heq⟩ | ⟨-, heq⟩
  · rw [heq]
    exact h.insertRun now workerId leaseSeconds hj hn hle hfree
  · rw [heq]
    exact h.retakeRun now workerId leaseSeconds hj hn hle hr hslot hc he
  · rw [heq]
    exact Claims.none h now

/-- The rows that the loop of `claim_due` goes through are due jobs of the table. -/
def Due (s : Rows) (now : Time) (due : List (JobId × Job)) : Prop :=
  ∀ row ∈ due, s.jobs.get row.1 = some row.2 ∧ ∀ at_, row.2.nextRunAt = some at_ → at_ ≤ now

theorem Disciplined.claimJobs {s : Rows} (h : Disciplined s) (now : Time) (workerId : String)
    (leaseSeconds : Nat) (due : List (JobId × Job)) (hdue : Due s now due) :
    Claims s (s.claimJobs now workerId leaseSeconds due).2 now
      (s.claimJobs now workerId leaseSeconds due).1 := by
  induction due generalizing s with
  | nil => exact Claims.none h now
  | cons row due ih =>
    obtain ⟨id, job⟩ := row
    obtain ⟨hj, hle⟩ := hdue _ List.mem_cons_self
    obtain ⟨at_, hn⟩ := h.jobs_next id job hj
    have h1 := h.claimSlot now workerId leaseSeconds hj hn (hle at_ hn)
    have h2 := ih h1.disciplined (by
      intro row hrow
      rw [h1.jobs]
      exact hdue row (List.mem_cons_of_mem _ hrow))
    unfold Rows.claimJobs
    simp only [hn]
    exact h1.trans h2

theorem mem_dueJobs {s : Rows} {now : Time} {accountIds : List AccountId} {row : JobId × Job} :
    row ∈ s.dueJobs now accountIds ↔
      s.jobs.get row.1 = some row.2 ∧ row.2.kind = jobKind ∧ row.2.enabled = true ∧
        row.2.accountId ∈ accountIds ∧ ∃ at_, row.2.nextRunAt = some at_ ∧ at_ ≤ now := by
  obtain ⟨id, job⟩ := row
  unfold Rows.dueJobs
  dsimp only
  rw [List.mem_insertionSort, List.mem_filter, List.mem_filterMap]
  simp only [Bool.and_eq_true, decide_eq_true_eq, List.contains_iff_mem, Option.map_eq_some_iff,
    Option.any_eq_true, Prod.mk.injEq]
  constructor
  · rintro ⟨⟨id', -, job', hj, rfl, rfl⟩, ⟨⟨hk, he⟩, ha⟩, hn⟩
    exact ⟨hj, hk, he, ha, hn⟩
  · rintro ⟨hj, hk, he, ha, hn⟩
    exact ⟨⟨id, Table.mem_keys_iff.mpr ⟨job, hj⟩, job, hj, rfl, rfl⟩, ⟨⟨hk, he⟩, ha⟩, hn⟩

theorem due_dueJobs (s : Rows) (now : Time) (accountIds : List AccountId) :
    Due s now (s.dueJobs now accountIds) := by
  intro row hrow
  obtain ⟨hj, -, -, -, at_, hn, hle⟩ := mem_dueJobs.mp hrow
  refine ⟨hj, ?_⟩
  intro at' hn'
  rw [hn] at hn'
  cases hn'
  exact hle

theorem Disciplined.claimDue {s : Rows} (h : Disciplined s) (now : Time) (workerId : String)
    (leaseSeconds : Nat) (accountIds : List AccountId) :
    Claims s (s.claimDue now workerId leaseSeconds accountIds).2 now
      (s.claimDue now workerId leaseSeconds accountIds).1 :=
  h.claimJobs now workerId leaseSeconds _ (due_dueJobs s now accountIds)

/-- A due job whose slot is not taken is among the claimed ones. Claims of other accounts that come
first leave its slot alone. -/
theorem Disciplined.claimJobs_mem {s : Rows} (h : Disciplined s) {now : Time} (workerId : String)
    (leaseSeconds : Nat) {due : List (JobId × Job)} (hdue : Due s now due) {id : JobId} {job : Job}
    {at_ : Time} (hmem : (id, job) ∈ due) (hn : job.nextRunAt = some at_)
    (hfree : ¬ Taken s job.accountId at_ now) :
    ∃ x ∈ (s.claimJobs now workerId leaseSeconds due).1, x.jobId = id ∧ x.scheduledFor = at_ := by
  induction due generalizing s with
  | nil => cases hmem
  | cons row due ih =>
    obtain ⟨id', job'⟩ := row
    obtain ⟨hj', hle'⟩ := hdue _ List.mem_cons_self
    obtain ⟨n', hn'⟩ := h.jobs_next id' job' hj'
    have h1 := h.claimSlot now workerId leaseSeconds hj' hn' (hle' n' hn')
    have hdue' : Due (s.claimSlot id' job' n' now workerId leaseSeconds).2 now due := by
      intro row hrow
      rw [h1.jobs]
      exact hdue row (List.mem_cons_of_mem _ hrow)
    have hcases := claimSlot_cases s id' job' n' now workerId leaseSeconds
    unfold Rows.claimJobs
    simp only [hn']
    by_cases hid : (id, job) = (id', job')
    · cases hid
      rw [hn] at hn'
      cases hn'
      rcases hcases with ⟨-, heq⟩ | ⟨r, run, -, -, -, -, heq⟩ | ⟨htaken, -⟩
      · rw [heq]
        exact ⟨_, List.mem_append_left _ (List.mem_singleton.mpr rfl), rfl, rfl⟩
      · rw [heq]
        exact ⟨_, List.mem_append_left _ (List.mem_singleton.mpr rfl), rfl, rfl⟩
      · exact absurd htaken hfree
    · have hmem' : (id, job) ∈ due := by
        rcases List.mem_cons.mp hmem with heq | hmem
        · exact absurd heq hid
        · exact hmem
      obtain ⟨hj, -⟩ := hdue _ hmem
      have hacc : job.accountId ≠ job'.accountId := by
        intro heq
        have := h.jobs_inj _ _ _ _ hj hj' heq
        subst this
        rw [hj] at hj'
        cases hj'
        exact hid rfl
      have hfree' :
          ¬ Taken (s.claimSlot id' job' n' now workerId leaseSeconds).2 job.accountId at_ now := by
        rintro ⟨r, run, hr, hslot, ht⟩
        refine hfree ⟨r, run, ?_, hslot, ht⟩
        rcases hcases with ⟨-, heq⟩ | ⟨r', old, -, hslot', -, -, heq⟩ | ⟨-, heq⟩
        · rw [heq] at hr
          dsimp only at hr
          rw [Table.get_set] at hr
          split at hr
          · cases hr
            exact absurd hslot.1.symm hacc
          · exact hr
        · rw [heq] at hr
          dsimp only at hr
          rw [Table.get_set] at hr
          split at hr
          · cases hr
            exact absurd (hslot.1.symm.trans hslot'.1) hacc
          · exact hr
        · rw [heq] at hr
          exact hr
      obtain ⟨x, hx, hxid, hxat⟩ := ih h1.disciplined hdue' hmem' hfree'
      exact ⟨x, List.mem_append_right _ hx, hxid, hxat⟩

end Claim

section Finish

/-- Run rows stay, and a finished run never changes again. -/
def Persists (s s' : Rows) : Prop :=
  ∀ id run, s.runs.get id = some run → ∃ run', s'.runs.get id = some run' ∧
    (run.completedAt.isSome = true →
      run'.completedAt = run.completedAt ∧ run'.result = run.result)

theorem Persists.refl (s : Rows) : Persists s s := fun _ run hr => ⟨run, hr, fun _ => ⟨rfl, rfl⟩⟩

theorem Persists.trans {s s' s'' : Rows} (h : Persists s s') (h' : Persists s' s'') :
    Persists s s'' := by
  intro id run hr
  obtain ⟨run', hr', hc'⟩ := h id run hr
  obtain ⟨run'', hr'', hc''⟩ := h' id run' hr'
  refine ⟨run'', hr'', ?_⟩
  intro hc
  obtain ⟨h1, h2⟩ := hc' hc
  obtain ⟨h3, h4⟩ := hc'' (by rw [h1]; exact hc)
  exact ⟨h3.trans h1, h4.trans h2⟩

theorem Keeps.persists {s s' : Rows} (h : Keeps s s') : Persists s s' := by
  intro id run hr
  obtain ⟨run', hr', -, -, -, -, hc, hres⟩ := h.runs id run hr
  exact ⟨run', hr', fun _ => ⟨hc, hres⟩⟩

/-- A step without `finish_run` completes nothing. -/
theorem Keeps.completed {s s' : Rows} (h : Keeps s s') {id : RunId} {run run' : JobRun}
    (hr : s.runs.get id = some run) (hr' : s'.runs.get id = some run') :
    run'.completedAt = run.completedAt := by
  obtain ⟨run'', hr'', -, -, -, -, hc, -⟩ := h.runs id run hr
  rw [hr'] at hr''
  cases hr''
  exact hc

def JobRun.finish (run : JobRun) (completedAt : Time) (result : Json) : JobRun :=
  { run with
    result := some result
    completedAt := some completedAt
    leaseOwner := none
    leaseExpiresAt := none }

/-- The rows after the row `run` of a claim was completed. -/
def Rows.complete (s : Rows) (x : ClaimedIdlePreviewRun) (run : JobRun)
    (completedAt nextRunAt : Time) (result : Json) : Rows :=
  { s with
    runs := s.runs.set x.runId (run.finish completedAt result)
    jobs := s.jobs.update x.jobId fun job => { job with nextRunAt := some nextRunAt } }

theorem finishRun_cases (s : Rows) (x : ClaimedIdlePreviewRun) (completedAt nextRunAt : Time)
    (result : Json) :
    s.finishRun x completedAt nextRunAt result = s ∨
      ∃ run, s.runs.get x.runId = some run ∧ run.completedAt = none ∧
        s.finishRun x completedAt nextRunAt result =
          s.complete x run completedAt nextRunAt result := by
  unfold Rows.finishRun
  cases hr : s.runs.get x.runId with
  | none => exact .inl rfl
  | some run =>
    dsimp only
    split
    · exact .inl rfl
    · rename_i hc
      exact .inr ⟨run, rfl, by simpa using hc, rfl⟩

/-- What completing an unfinished run does, for a tick that holds it. -/
structure Finishes (s s' : Rows) (x : ClaimedIdlePreviewRun) (nextRunAt : Time) : Prop where
  disciplined : Disciplined s'
  persists : Persists s s'
  holds : ∀ now y, Holds s now y → Holds s' now y
  stamps : ∀ id, stamp s' id = stamp s id
  others : ∀ id run run', s.runs.get id = some run → s'.runs.get id = some run' → id ≠ x.runId →
    run'.completedAt = run.completedAt
  moves : ∀ run, s.runs.get x.runId = some run → run.completedAt = none →
    ∃ job job' n, s.jobs.get run.jobId = some job ∧ job.nextRunAt = some n ∧
      s'.jobs.get run.jobId = some job' ∧ job'.nextRunAt = some nextRunAt ∧ n < nextRunAt ∧
      ∀ run', s'.runs.get x.runId = some run' → run'.completedAt.isSome = true

/-- The account and the second of a slot tell the unfinished runs of a job apart. -/
theorem Disciplined.unfinished_inj {s : Rows} (h : Disciplined s) {id id' : RunId}
    {run run' : JobRun} (hr : s.runs.get id = some run) (hr' : s.runs.get id' = some run')
    (hc : run.completedAt = none) (hc' : run'.completedAt = none) (hj : run.jobId = run'.jobId) :
    id = id' := by
  obtain ⟨job, n, hjob, ha, hn, hp⟩ := h.runs_placed _ _ hr
  obtain ⟨job', n', hjob', ha', hn', hp'⟩ := h.runs_placed _ _ hr'
  rw [hj, hjob'] at hjob
  cases hjob
  rw [hn'] at hn
  cases hn
  have hacc : run.accountId = run'.accountId := ha.symm.trans ha'
  have hslot : run.idempotencyKey.slot = run'.idempotencyKey.slot :=
    (hp.unfinished hc).1.trans (hp'.unfinished hc').1.symm
  have hkey : run.idempotencyKey.accountId = run'.idempotencyKey.accountId :=
    hp.key.trans (hacc.trans hp'.key.symm)
  refine h.runs_inj _ _ _ _ hr hr' hacc ?_
  cases hk : run.idempotencyKey
  cases hk' : run'.idempotencyKey
  rw [hk, hk'] at hslot hkey
  simp only at hslot hkey
  rw [hslot, hkey]

section Complete

variable {s : Rows} {x : ClaimedIdlePreviewRun} {run : JobRun} {completedAt nextRunAt : Time}
  {result : Json}

theorem Rows.complete_runs (id : RunId) :
    (s.complete x run completedAt nextRunAt result).runs.get id =
      if id = x.runId then some (run.finish completedAt result) else s.runs.get id :=
  Table.get_set ..

theorem Rows.complete_jobs (id : JobId) :
    (s.complete x run completedAt nextRunAt result).jobs.get id =
      if id = x.jobId then
        (s.jobs.get x.jobId).map fun job => { job with nextRunAt := some nextRunAt }
      else s.jobs.get id :=
  Table.get_update ..

/-- A job row was there before and has moved, or is as it was. -/
theorem Rows.complete_job {id : JobId} {job : Job}
    (h : (s.complete x run completedAt nextRunAt result).jobs.get id = some job) :
    ∃ old, s.jobs.get id = some old ∧ old.accountId = job.accountId ∧ old.kind = job.kind ∧
      (job.nextRunAt = some nextRunAt ∨ job.nextRunAt = old.nextRunAt) := by
  rw [Rows.complete_jobs] at h
  split at h
  · rename_i heq
    obtain ⟨old, hold, hjob⟩ := Option.map_eq_some_iff.mp h
    cases hjob
    exact ⟨old, heq ▸ hold, rfl, rfl, .inl rfl⟩
  · exact ⟨job, h, rfl, rfl, .inr rfl⟩

/-- A run row is the completed one, or is as it was. -/
theorem Rows.complete_run {id : RunId} {r : JobRun}
    (h : (s.complete x run completedAt nextRunAt result).runs.get id = some r) :
    (id = x.runId ∧ r = run.finish completedAt result) ∨
      id ≠ x.runId ∧ s.runs.get id = some r := by
  rw [Rows.complete_runs] at h
  split at h
  · rename_i heq
    cases h
    exact .inl ⟨heq, rfl⟩
  · rename_i hne
    exact .inr ⟨hne, h⟩

/-- A run row was there before, in the same slot. -/
theorem Rows.complete_run_old (hr : s.runs.get x.runId = some run) {id : RunId} {r : JobRun}
    (h : (s.complete x run completedAt nextRunAt result).runs.get id = some r) :
    ∃ old, s.runs.get id = some old ∧ old.accountId = r.accountId ∧
      old.idempotencyKey = r.idempotencyKey ∧ old.jobId = r.jobId := by
  rcases Rows.complete_run h with ⟨rfl, rfl⟩ | ⟨-, hold⟩
  · exact ⟨run, hr, rfl, rfl, rfl⟩
  · exact ⟨r, hold, rfl, rfl, rfl⟩

variable {now : Time} {interval : Nat} {job : Job} {n : Time}

/-- What a tick knows that is about to complete the row `run` of a claim and to move its job on from
`n`. -/
structure Completing (s : Rows) (x : ClaimedIdlePreviewRun) (run : JobRun) (job : Job)
    (n nextRunAt : Time) : Prop where
  row : s.runs.get x.runId = some run
  unfinished : run.completedAt = none
  jobId : run.jobId = x.jobId
  moved : s.jobs.get x.jobId = some job
  next : job.nextRunAt = some n
  later : n < nextRunAt
  slot : second n < second nextRunAt

theorem Holds.completing (hx : Holds s now x) (hr : s.runs.get x.runId = some run)
    (hc : run.completedAt = none) (hi : 1 ≤ interval) :
    ∃ job n, Completing s x run job n (now + Time.seconds interval) := by
  obtain ⟨row, hrow, hjob, -, hu⟩ := hx
  rw [hr] at hrow
  cases hrow
  obtain ⟨job, n, hj, hn, hle⟩ := hu hc
  exact ⟨job, n, hr, hc, hjob, hj, hn, lt_add_seconds now n interval hi hle,
    second_add_seconds_lt now n interval hi hle⟩

/-- A run of the moved job is finished, and its slot is before the new one. -/
theorem Completing.placed_moved (hx : Completing s x run job n nextRunAt) (h : Disciplined s)
    {id : RunId} {r : JobRun}
    (hr : (s.complete x run completedAt nextRunAt result).runs.get id = some r)
    (hj : r.jobId = x.jobId) : job.accountId = r.accountId ∧ r.Placed nextRunAt := by
  obtain ⟨old, hold, ha, hk, hjob⟩ := Rows.complete_run_old hx.row hr
  obtain ⟨job₁, n₁, hj₁, ha₁, hn₁, hp⟩ := h.runs_placed _ _ hold
  rw [hjob, hj, hx.moved] at hj₁
  cases hj₁
  rw [hx.next] at hn₁
  cases hn₁
  have hdone : r.completedAt ≠ none := by
    intro hopen
    rcases Rows.complete_run hr with ⟨-, rfl⟩ | ⟨hne, hsame⟩
    · cases hopen
    · exact hne (h.unfinished_inj hsame hx.row hopen hx.unfinished (hj.trans hx.jobId.symm))
  have hslot : r.idempotencyKey.slot < second nextRunAt :=
    lt_of_le_of_lt (hk ▸ hp.slot) hx.slot
  exact ⟨ha₁.trans ha,
    { key := hk ▸ ha ▸ hp.key
      slot := hslot.le
      unfinished := fun hopen => absurd hopen hdone
      finished := fun _ => hslot }⟩

theorem Completing.disciplined (hx : Completing s x run job n nextRunAt) (h : Disciplined s) :
    Disciplined (s.complete x run completedAt nextRunAt result) where
  jobs_lt id j hid := by
    obtain ⟨old, hold, -⟩ := Rows.complete_job hid
    exact h.jobs_lt id old hold
  runs_lt id r hid := by
    obtain ⟨old, hold, -⟩ := Rows.complete_run_old hx.row hid
    exact h.runs_lt id old hold
  jobs_kind id j hid := by
    obtain ⟨old, hold, -, hk, -⟩ := Rows.complete_job hid
    rw [← hk]
    exact h.jobs_kind id old hold
  jobs_next id j hid := by
    obtain ⟨old, hold, -, -, hnext | hnext⟩ := Rows.complete_job hid
    · exact ⟨_, hnext⟩
    · rw [hnext]
      exact h.jobs_next id old hold
  jobs_inj id id' j j' hid hid' ha := by
    obtain ⟨old, hold, hacc, -⟩ := Rows.complete_job hid
    obtain ⟨old', hold', hacc', -⟩ := Rows.complete_job hid'
    exact h.jobs_inj id id' old old' hold hold' (by rw [hacc, hacc', ha])
  runs_inj id id' r r' hid hid' ha hk := by
    obtain ⟨old, hold, hacc, hkey, -⟩ := Rows.complete_run_old hx.row hid
    obtain ⟨old', hold', hacc', hkey', -⟩ := Rows.complete_run_old hx.row hid'
    exact h.runs_inj id id' old old' hold hold' (by rw [hacc, hacc', ha]) (by rw [hkey, hkey', hk])
  runs_placed id r hid := by
    by_cases hj : r.jobId = x.jobId
    · obtain ⟨ha, hp⟩ := hx.placed_moved h hid hj
      refine ⟨{ job with nextRunAt := some nextRunAt }, nextRunAt, ?_, ha, rfl, hp⟩
      rw [Rows.complete_jobs, if_pos hj, hx.moved]
      rfl
    · have hold : s.runs.get id = some r := by
        rcases Rows.complete_run hid with ⟨-, rfl⟩ | ⟨-, hold⟩
        · exact absurd hx.jobId hj
        · exact hold
      obtain ⟨job', n', hj', ha, hn, hp⟩ := h.runs_placed _ _ hold
      exact ⟨job', n', by rw [Rows.complete_jobs, if_neg hj]; exact hj', ha, hn, hp⟩

theorem Completing.persists (hx : Completing s x run job n nextRunAt) :
    Persists s (s.complete x run completedAt nextRunAt result) := by
  intro id r hid
  rw [Rows.complete_runs]
  by_cases heq : id = x.runId
  · rw [heq, hx.row] at hid
    cases hid
    refine ⟨_, if_pos heq, fun hdone => ?_⟩
    rw [hx.unfinished] at hdone
    cases hdone
  · exact ⟨r, (if_neg heq).trans hid, fun _ => ⟨rfl, rfl⟩⟩

/-- A claim of another unfinished run is one for another job. -/
theorem Completing.holds (hx : Completing s x run job n nextRunAt) (h : Disciplined s) {at_ : Time}
    {y : ClaimedIdlePreviewRun} (hy : Holds s at_ y) :
    Holds (s.complete x run completedAt nextRunAt result) at_ y := by
  obtain ⟨r, hid, hyj, hd, hyu⟩ := hy
  by_cases heq : y.runId = x.runId
  · rw [heq, hx.row] at hid
    cases hid
    refine ⟨run.finish completedAt result, ?_, hyj, hd, fun hopen => by cases hopen⟩
    rw [Rows.complete_runs, if_pos heq]
  · refine ⟨r, by rw [Rows.complete_runs, if_neg heq, hid], hyj, hd, fun hopen => ?_⟩
    obtain ⟨job', m, hj', hm, hle⟩ := hyu hopen
    have hne : y.jobId ≠ x.jobId := fun hjobs =>
      heq (h.unfinished_inj hid hx.row hopen hx.unfinished
        (hyj.trans (hjobs.trans hx.jobId.symm)))
    exact ⟨job', m, by rw [Rows.complete_jobs, if_neg hne]; exact hj', hm, hle⟩

theorem Completing.stamps (hx : Completing s x run job n nextRunAt) (id : RunId) :
    stamp (s.complete x run completedAt nextRunAt result) id = stamp s id := by
  unfold stamp
  rw [Rows.complete_runs]
  split
  · rename_i heq
    rw [heq, hx.row]
    rfl
  · rfl

theorem Completing.moves (hx : Completing s x run job n nextRunAt) (completedAt : Time)
    (result : Json) :
    ∃ job job' n, s.jobs.get run.jobId = some job ∧ job.nextRunAt = some n ∧
      (s.complete x run completedAt nextRunAt result).jobs.get run.jobId = some job' ∧
      job'.nextRunAt = some nextRunAt ∧ n < nextRunAt := by
  refine ⟨job, { job with nextRunAt := some nextRunAt }, n, ?_, hx.next, ?_, rfl, hx.later⟩
  · rw [hx.jobId]
    exact hx.moved
  · rw [Rows.complete_jobs, if_pos hx.jobId, hx.moved]
    rfl

end Complete

theorem Disciplined.completeRun {s : Rows} (h : Disciplined s) {x : ClaimedIdlePreviewRun}
    {now : Time} (interval : Nat) (hi : 1 ≤ interval) (hx : Holds s now x) {run : JobRun}
    (hr : s.runs.get x.runId = some run) (hc : run.completedAt = none) (completedAt : Time)
    (result : Json) :
    Finishes s (s.complete x run completedAt (now + Time.seconds interval) result) x
      (now + Time.seconds interval) := by
  obtain ⟨job, n, hx⟩ := hx.completing hr hc hi
  refine
    { disciplined := hx.disciplined h
      persists := hx.persists
      holds := fun _ _ hy => hx.holds h hy
      stamps := hx.stamps
      others := ?_
      moves := ?_ }
  · intro id r r' hid hid' hne
    rw [Rows.complete_runs, if_neg hne, hid] at hid'
    cases hid'
    rfl
  · intro r hid _
    rw [hr] at hid
    cases hid
    obtain ⟨job, job', n, hj, hn, hj', hn', hlt⟩ := hx.moves completedAt result
    refine ⟨job, job', n, hj, hn, hj', hn', hlt, fun r' hid' => ?_⟩
    rw [Rows.complete_runs, if_pos rfl] at hid'
    cases hid'
    rfl

end Finish

section Runs

/-- The tick time at which a history first claimed a run. -/
def firstClaim : List Event → RunId → Option Time
  | [], _ => none
  | .claimed _ now runs :: h, id => claimStamp now runs id (firstClaim h id)
  | _ :: h, id => firstClaim h id

/-- What every run of the scheduler maintains. -/
structure Sound (h : List Event) (c : Config) : Prop where
  rows : Disciplined c.rows
  holds : ∀ t T, c.tick t = some T → ∀ x ∈ T.claimed, Holds c.rows T.now x
  stamps : ∀ id, firstClaim h id = stamp c.rows id

theorem Config.setTick_tick (c : Config) (s : Rows) (t u : TaskId) (T : Tick) :
    (c.setTick s t T).tick u = if u = t then some T else c.tick u := by
  unfold Config.setTick
  by_cases h : u = t
  · subst h
    simp
  · simp [h]

theorem Sound.setTick {h : List Event} {c : Config} (hs : Sound h c) {s' : Rows} {h' : List Event}
    (t : TaskId) (T : Tick) (hd : Disciplined s')
    (hk : ∀ now x, Holds c.rows now x → Holds s' now x)
    (hT : ∀ x ∈ T.claimed, Holds s' T.now x) (hst : ∀ id, firstClaim h' id = stamp s' id) :
    Sound h' (c.setTick s' t T) := by
  refine ⟨hd, ?_, hst⟩
  intro u U hu x hx
  rw [Config.setTick_tick] at hu
  split at hu
  · cases hu
    exact hT x hx
  · exact hk _ _ (hs.holds u U hu x hx)

theorem stamp_congr {s s' : Rows} (hr : s'.runs = s.runs) (id : RunId) :
    stamp s' id = stamp s id := by
  unfold stamp
  rw [hr]

theorem ensureJob_runs (s : Rows) (rows : List (JobId × Job)) (eligible : AccountId → Bool)
    (now : Time) (intervalSeconds : Nat) (a : AccountId) :
    (s.ensureJob rows eligible now intervalSeconds a).runs = s.runs := by
  unfold Rows.ensureJob
  dsimp only
  split
  · split <;> rfl
  · split <;> rfl

theorem ensureJobs_runs (s : Rows) (accounts : List SchedulerAccount) (now : Time)
    (intervalSeconds : Nat) : (s.ensureJobs accounts now intervalSeconds).runs = s.runs := by
  unfold Rows.ensureJobs
  dsimp only
  generalize (accounts.map (·.id)).dedup = known
  generalize s.knownJobs known = rows
  generalize hs : ({ s with jobs := Rows.disableDuplicates rows s.jobs } : Rows) = s₀
  have hruns : s₀.runs = s.runs := by rw [← hs]
  rw [← hruns]
  clear hs hruns
  induction known generalizing s₀ with
  | nil => rfl
  | cons a known ih =>
    rw [List.foldl_cons, ih]
    exact ensureJob_runs _ _ _ _ _ _

theorem Sound.start : Sound [] .start where
  rows := Disciplined.empty
  holds _ _ h := nomatch h
  stamps _ := rfl

theorem Step.sound {h : List Event} {c c' : Config} {e : Event} (hs : Sound h c)
    (hst : Step c e c') : Sound (e :: h) c' ∧ Persists c.rows c'.rows := by
  cases hst with
  | started t worker now ht =>
    refine ⟨hs.setTick t _ hs.rows (fun _ _ hx => hx) ?_ hs.stamps, Persists.refl _⟩
    intro x hx
    cases hx
  | acquired t ht hp =>
    rename_i T
    obtain ⟨lease, heq⟩ := acquireLease_rows c.rows T.worker.workerId T.now T.worker.leaseSeconds
    have hk := Keeps.lease c.rows lease
    rw [← heq] at hk
    refine ⟨hs.setTick t _ (by rw [heq]; exact hs.rows.lease lease) (fun _ _ hx => hx.keeps hk)
      (fun x hx => (hs.holds t T ht x hx).keeps hk) ?_, hk.persists⟩
    intro id
    rw [stamp_congr (by rw [heq])]
    exact hs.stamps id
  | ensured t accounts ht hp =>
    rename_i T
    obtain ⟨hd, hk⟩ := hs.rows.ensureJobs accounts T.now T.worker.intervalSeconds
    refine ⟨hs.setTick t _ hd (fun _ _ hx => hx.keeps hk)
      (fun x hx => (hs.holds t T ht x hx).keeps hk) ?_, hk.persists⟩
    intro id
    rw [stamp_congr (ensureJobs_runs _ _ _ _)]
    exact hs.stamps id
  | claimed t ht hp =>
    rename_i T accountIds
    have hcl := hs.rows.claimDue T.now T.worker.workerId T.worker.leaseSeconds accountIds
    refine ⟨hs.setTick t _ hcl.disciplined (fun _ _ hx => hx.keeps hcl.keeps) hcl.holds ?_,
      hcl.keeps.persists⟩
    intro id
    rw [hcl.stamps id]
    unfold firstClaim
    rw [hs.stamps id]
  | finished t run completedAt result ht hr =>
    rename_i T
    have hx := hs.holds t T ht run hr
    have herase : ∀ x ∈ T.claimed.erase run, Holds c.rows T.now x := fun x hx =>
      hs.holds t T ht x (List.mem_of_mem_erase hx)
    rcases finishRun_cases c.rows run completedAt (T.now + Time.seconds T.worker.intervalSeconds)
        result with heq | ⟨row, hrow, hc, heq⟩
    · rw [heq]
      exact ⟨hs.setTick t _ hs.rows (fun _ _ hx => hx) herase hs.stamps, Persists.refl _⟩
    · have hf := hs.rows.completeRun T.worker.intervalSeconds T.worker.interval_pos hx hrow hc
        completedAt result
      rw [← heq] at hf
      refine ⟨hs.setTick t _ hf.disciplined hf.holds (fun x hx => hf.holds _ _ (herase x hx)) ?_,
        hf.persists⟩
      intro id
      rw [hf.stamps id]
      exact hs.stamps id
  | released t ht hp =>
    rename_i T
    obtain ⟨lease, heq⟩ := releaseLease_rows c.rows T.worker.workerId
    have hk := Keeps.lease c.rows lease
    rw [← heq] at hk
    refine ⟨hs.setTick t _ (by rw [heq]; exact hs.rows.lease lease) (fun _ _ hx => hx.keeps hk)
      (fun x hx => (hs.holds t T ht x hx).keeps hk) ?_, hk.persists⟩
    intro id
    rw [stamp_congr (by rw [heq])]
    exact hs.stamps id

theorem Run.sound {h h' : List Event} {c c' : Config} (hs : Sound h c) (hr : Run c h' c') :
    Sound (h' ++ h) c' ∧ Persists c.rows c'.rows := by
  induction hr with
  | refl => exact ⟨hs, Persists.refl _⟩
  | step hr hst ih =>
    obtain ⟨ih1, ih2⟩ := ih
    obtain ⟨h1, h2⟩ := hst.sound ih1
    exact ⟨h1, ih2.trans h2⟩

def Completes (s s' : Rows) (id : RunId) (run : JobRun) : Prop :=
  s.runs.get id = some run ∧ run.completedAt = none ∧
    ∃ run', s'.runs.get id = some run' ∧ run'.completedAt.isSome = true

/-- Only `finish_run` of a tick that holds the run completes it, and it moves the job of the run. -/
theorem Step.completes {h : List Event} {c c' : Config} {e : Event} (hs : Sound h c)
    (hst : Step c e c') {id : RunId} {run : JobRun} (hcomp : Completes c.rows c'.rows id run) :
    ∃ t T x job job' n n', e = .finished t x ∧ c.tick t = some T ∧
      c.rows.jobs.get run.jobId = some job ∧ job.nextRunAt = some n ∧
      c'.rows.jobs.get run.jobId = some job' ∧ job'.nextRunAt = some n' ∧ n < n' ∧
      run.dispatchedAt + Time.seconds T.worker.intervalSeconds ≤ n' := by
  obtain ⟨hr, hc, run', hr', hc'⟩ := hcomp
  have habsurd : ∀ s', Keeps c.rows s' → s'.runs.get id = some run' → False := by
    intro s' hk hget
    rw [hk.completed hr hget, hc] at hc'
    cases hc'
  cases hst with
  | started t worker now ht => exact (habsurd _ (Keeps.refl _) hr').elim
  | acquired t ht hp =>
    rename_i T
    obtain ⟨lease, heq⟩ := acquireLease_rows c.rows T.worker.workerId T.now T.worker.leaseSeconds
    have hk := Keeps.lease c.rows lease
    rw [← heq] at hk
    exact (habsurd _ hk hr').elim
  | ensured t accounts ht hp =>
    exact (habsurd _ (hs.rows.ensureJobs accounts _ _).2 hr').elim
  | claimed t ht hp => exact (habsurd _ (hs.rows.claimDue _ _ _ _).keeps hr').elim
  | finished t x completedAt result ht hx =>
    rename_i T
    have hh := hs.holds t T ht x hx
    rcases finishRun_cases c.rows x completedAt (T.now + Time.seconds T.worker.intervalSeconds)
        result with heq | ⟨row, hrow, hrc, heq⟩
    · rw [heq] at hr'
      exact (habsurd _ (Keeps.refl _) hr').elim
    · have hf := hs.rows.completeRun T.worker.intervalSeconds T.worker.interval_pos hh hrow hrc
        completedAt result
      rw [← heq] at hf
      by_cases hid : id = x.runId
      · subst hid
        rw [hrow] at hr
        cases hr
        obtain ⟨job, job', n, hj, hn, hj', hn', hlt, -⟩ := hf.moves _ hrow hrc
        obtain ⟨row', hrow', -, hd, -⟩ := hh
        rw [hrow] at hrow'
        cases hrow'
        refine ⟨t, T, x, job, job', n, _, rfl, ht, hj, hn, hj', hn', hlt, ?_⟩
        exact Int.add_le_add_right hd _
      · have := hf.others id run run' hr hr' hid
        rw [this, hc] at hc'
        cases hc'
  | released t ht hp =>
    rename_i T
    obtain ⟨lease, heq⟩ := releaseLease_rows c.rows T.worker.workerId
    have hk := Keeps.lease c.rows lease
    rw [← heq] at hk
    exact (habsurd _ hk hr').elim

theorem Disciplined.not_stuck {s : Rows} (h : Disciplined s) {id : JobId} {job : Job} {at_ : Time}
    (hj : s.jobs.get id = some job) (hn : job.nextRunAt = some at_) :
    ∀ r run, s.runs.get r = some run → run.inSlot job.accountId at_ → run.completedAt = none := by
  intro r run hr hslot
  obtain ⟨job', n, hj', ha, hn', hp⟩ := h.runs_placed r run hr
  have hid : run.jobId = id := h.jobs_inj _ _ _ _ hj' hj (ha.trans hslot.1)
  rw [hid, hj] at hj'
  cases hj'
  rw [hn] at hn'
  cases hn'
  cases hc : run.completedAt with
  | none => rfl
  | some done =>
    have hlt := hp.finished (by rw [hc]; rfl)
    have hkey : run.idempotencyKey.slot = second at_ := by rw [hslot.2]; rfl
    exact absurd hlt (by rw [hkey]; exact lt_irrefl _)

/-- The slot discipline: after any run of the scheduler from empty tables, a slot has at most one
run and a finished run never changes, a completion moves its job forward by at least the interval
after the first claim of the run, and a due job can be claimed as soon as no lease covers its slot. -/
theorem slot_discipline (h : List Event) (c : Config) (hrun : Run .start h c) :
    (∀ id id' run run', c.rows.runs.get id = some run → c.rows.runs.get id' = some run' →
      run.accountId = run'.accountId → run.idempotencyKey.slot = run'.idempotencyKey.slot →
      id = id') ∧
    (∀ h' c', Run c h' c' → ∀ id run, c.rows.runs.get id = some run →
      run.completedAt.isSome = true → ∃ run', c'.rows.runs.get id = some run' ∧
        run'.completedAt = run.completedAt ∧ run'.result = run.result) ∧
    (∀ e c', Step c e c' → ∀ id run, Completes c.rows c'.rows id run →
      ∃ t T x job job' n n' first, e = .finished t x ∧ c.tick t = some T ∧
        c.rows.jobs.get run.jobId = some job ∧ job.nextRunAt = some n ∧
        c'.rows.jobs.get run.jobId = some job' ∧ job'.nextRunAt = some n' ∧ n < n' ∧
        firstClaim h id = some first ∧
        first + Time.seconds T.worker.intervalSeconds ≤ n') ∧
    (∀ id job at_ now, c.rows.jobs.get id = some job → job.enabled = true →
      job.nextRunAt = some at_ → at_ ≤ now →
        (∀ r run, c.rows.runs.get r = some run → run.inSlot job.accountId at_ →
          run.completedAt = none) ∧
        ∀ (worker : Worker) (accountIds : List AccountId), job.accountId ∈ accountIds →
          (∀ r run expiry, c.rows.runs.get r = some run → run.inSlot job.accountId at_ →
            run.leaseExpiresAt = some expiry → expiry ≤ now) →
          ∃ x ∈ (c.rows.claimDue now worker.workerId worker.leaseSeconds accountIds).1,
            x.jobId = id ∧ x.scheduledFor = at_) := by
  have hs : Sound h c := by
    have := (hrun.sound Sound.start).1
    rwa [List.append_nil] at this
  refine ⟨?_, ?_, ?_, ?_⟩
  · intro id id' run run' hr hr' ha hslot
    obtain ⟨_, _, _, _, _, hp⟩ := hs.rows.runs_placed id run hr
    obtain ⟨_, _, _, _, _, hp'⟩ := hs.rows.runs_placed id' run' hr'
    refine hs.rows.runs_inj id id' run run' hr hr' ha ?_
    have hkey : run.idempotencyKey.accountId = run'.idempotencyKey.accountId :=
      hp.key.trans (ha.trans hp'.key.symm)
    cases hk : run.idempotencyKey
    cases hk' : run'.idempotencyKey
    rw [hk, hk'] at hslot hkey
    simp only at hslot hkey
    rw [hslot, hkey]
  · intro h' c' hrun' id run hr hc
    obtain ⟨run', hr', hkeep⟩ := (hrun'.sound hs).2 id run hr
    exact ⟨run', hr', hkeep hc⟩
  · intro e c' hst id run hcomp
    obtain ⟨t, T, x, job, job', n, n', he, ht, hj, hn, hj', hn', hlt, hle⟩ := hst.completes hs hcomp
    refine ⟨t, T, x, job, job', n, n', run.dispatchedAt, he, ht, hj, hn, hj', hn', hlt, ?_, hle⟩
    rw [hs.stamps id]
    unfold stamp
    rw [hcomp.1]
    rfl
  · intro id job at_ now hj he hn hle
    have hfree := hs.rows.not_stuck hj hn
    refine ⟨hfree, ?_⟩
    intro worker accountIds ha hexp
    refine hs.rows.claimJobs_mem worker.workerId worker.leaseSeconds
      (due_dueJobs c.rows now accountIds)
      (mem_dueJobs.mpr ⟨hj, hs.rows.jobs_kind id job hj, he, ha, at_, hn, hle⟩) hn ?_
    rintro ⟨r, run, hr, hslot, hc | ⟨expiry, hx, hlt⟩⟩
    · rw [hfree r run hr hslot] at hc
      cases hc
    · exact absurd hlt (not_lt.mpr (hexp r run expiry hr hslot hx))

def previewWorker : Worker := ⟨"worker", 60, 30, by decide, by decide, by decide⟩

/-- The run that the first tick claims for account 7 at time 0. -/
def firstRun : JobRun where
  jobId := 0
  accountId := 7
  idempotencyKey := ⟨7, 0⟩
  dispatchedAt := 0
  leaseOwner := some "worker"
  leaseExpiresAt := some 30000000
  attempt := 1

theorem slot_discipline_first_tick :
    ∃ (h : List Event) (c c' : Config), Run .start h c ∧ Completes c.rows c'.rows 1 firstRun ∧
      ∃ (t : TaskId) (T : Tick) (x : ClaimedIdlePreviewRun) (job job' : Job) (n n' first : Time),
        Event.finished 0 ⟨1, 0, 7, 0, ⟨7, 0⟩⟩ = .finished t x ∧
        c.tick t = some T ∧ c.rows.jobs.get firstRun.jobId = some job ∧ job.nextRunAt = some n ∧
        c'.rows.jobs.get firstRun.jobId = some job' ∧ job'.nextRunAt = some n' ∧ n < n' ∧
        firstClaim h 1 = some first ∧
        first + Time.seconds T.worker.intervalSeconds ≤ n' := by
  have hrun : ∃ h c, Run .start h c ∧ c.rows.runs.get 1 = some firstRun ∧
      c.tick 0 = some ⟨previewWorker, 0, .dispatching, [⟨1, 0, 7, 0, ⟨7, 0⟩⟩]⟩ := by
    have h1 := Run.step (.refl _) (Step.started (c := .start) 0 previewWorker 0 rfl)
    have h2 := h1.step (Step.acquired 0 rfl rfl)
    have h3 := h2.step (Step.ensured 0 [⟨7, true, none⟩] rfl rfl)
    exact ⟨_, _, h3.step (Step.claimed 0 rfl rfl), rfl, rfl⟩
  obtain ⟨h, c, hrun, hr, ht⟩ := hrun
  have hf := Step.finished 0 ⟨1, 0, 7, 0, ⟨7, 0⟩⟩ 5 (.obj []) ht (List.mem_singleton.mpr rfl)
  refine ⟨h, c, _, hrun, ?hc, (slot_discipline h c hrun).2.2.1 _ _ hf 1 firstRun ?hc⟩
  refine ⟨hr, rfl, { firstRun with
    result := some (.obj [])
    completedAt := some 5
    leaseOwner := none
    leaseExpiresAt := none }, ?_, rfl⟩
  unfold Config.setTick Rows.finishRun
  simp only [hr]
  rfl

end Runs

end Scheduler

end PlaceGame
