import PlaceGame.Scheduler.Lease

/-!
# PlaceGame.Scheduler.Provision

What `ensure_jobs` leaves in the table. For each row and each account the two loops together do one
thing: `provisioned` says what becomes of a row, `created` which accounts get a new one. That the
provisioning is exact and can be repeated is read off from these.
-/

namespace PlaceGame

open Coop

namespace Scheduler

namespace Rows

/-! ## One row -/

def newJob (accountId : AccountId) (schedule : String) (now : Time) : Job where
  accountId := accountId
  kind := jobKind
  schedule := schedule
  timezone := jobTimezone
  enabled := true
  nextRunAt := some now
  misfirePolicy := jobMisfirePolicy
  createdAt := now

def disabled (job : Job) : Job := { job with enabled := false }

def refreshed (schedule : String) (now : Time) (job : Job) : Job :=
  { job with
    schedule := schedule
    timezone := jobTimezone
    misfirePolicy := jobMisfirePolicy
    enabled := true
    nextRunAt := some (job.nextRunAt.getD now) }

def provisioned (rows : List (JobId × Job)) (eligible : AccountId → Bool) (schedule : String)
    (now : Time) (id : JobId) (job : Job) : Job :=
  if currentJob rows job.accountId = some id ∧ eligible job.accountId = true then
    refreshed schedule now job
  else disabled job

def created (rows : List (JobId × Job)) (eligible : AccountId → Bool) (known : List AccountId) :
    List AccountId :=
  known.filter fun a => eligible a && (currentJob rows a).isNone

/-! ## The first loop -/

/-- The loop disables the rows of which some entry of the list is a duplicate. -/
theorem get_disableDuplicates (rows dups : List (JobId × Job)) (jobs : Table JobId Job)
    (id : JobId) :
    (dups.foldl (fun jobs row =>
      if currentJob rows row.2.accountId = some row.1 then jobs
      else jobs.update row.1 fun job => { job with enabled := false }) jobs).get id =
        if ∃ row ∈ dups, row.1 = id ∧ currentJob rows row.2.accountId ≠ some id then
          (jobs.get id).map disabled
        else jobs.get id := by
  induction dups generalizing jobs with
  | nil => simp
  | cons row dups ih =>
    rw [List.foldl_cons, ih]
    by_cases hcur : currentJob rows row.2.accountId = some row.1
    · have hrow : ¬ (row.1 = id ∧ currentJob rows row.2.accountId ≠ some id) := by
        rintro ⟨rfl, hne⟩
        exact hne hcur
      simp only [if_pos hcur, List.mem_cons, exists_eq_or_imp, hrow, false_or]
    · rw [if_neg hcur]
      by_cases hid : row.1 = id
      · have hrow : ∃ row' ∈ row :: dups, row'.1 = id ∧ currentJob rows row'.2.accountId ≠ some id :=
          ⟨row, List.mem_cons_self, hid, hid ▸ hcur⟩
        have hupdate : (jobs.update row.1 disabled).get id = (jobs.get id).map disabled := by
          rw [Table.get_update, if_pos hid.symm, hid]
        rw [if_pos hrow]
        show (if _ then Option.map disabled ((jobs.update row.1 disabled).get id) else
          (jobs.update row.1 disabled).get id) = _
        rw [hupdate]
        split
        · rw [Option.map_map]
          rfl
        · rfl
      · have hrow : ¬ (row.1 = id ∧ currentJob rows row.2.accountId ≠ some id) := fun h => hid h.1
        rw [Table.get_update, if_neg (Ne.symm hid)]
        simp only [List.mem_cons, exists_eq_or_imp, hrow, false_or]

/-! ## The second loop -/

section Loop

variable {rows : List (JobId × Job)} {eligible : AccountId → Bool} {now : Time}
  {intervalSeconds : Nat}

/-- A row that is nobody's current job is left alone by the loop. -/
theorem get_ensureAll_other (known : List AccountId) (s : Rows) (id : JobId) (hid : id < s.nextId)
    (hother : ∀ a ∈ known, currentJob rows a ≠ some id) :
    (known.foldl (ensureJob rows eligible now intervalSeconds) s).jobs.get id = s.jobs.get id := by
  induction known generalizing s with
  | nil => rfl
  | cons a known ih =>
    have ha := hother a List.mem_cons_self
    have hrest := fun b hb => hother b (List.mem_cons_of_mem a hb)
    have hstep : s.nextId ≤ (s.ensureJob rows eligible now intervalSeconds a).nextId ∧
        (s.ensureJob rows eligible now intervalSeconds a).jobs.get id = s.jobs.get id := by
      unfold ensureJob
      cases hcur : currentJob rows a with
      | none =>
        dsimp only
        split
        · exact ⟨le_refl _, rfl⟩
        · exact ⟨Nat.le_succ _, Table.get_set_ne _ _ (Nat.ne_of_lt hid)⟩
      | some cur =>
        have hne : id ≠ cur := by
          rintro rfl
          exact ha hcur
        dsimp only
        split
        · refine ⟨le_refl _, ?_⟩
          rw [Table.get_update, if_neg hne]
        · refine ⟨le_refl _, ?_⟩
          rw [Table.get_update, if_neg hne]
    rw [List.foldl_cons, ih _ (lt_of_lt_of_le hid hstep.1) hrest, hstep.2]

/-- The current job of an account is refreshed or disabled. -/
theorem get_ensureAll_current (known : List AccountId) (hnodup : known.Nodup) (s : Rows)
    (id : JobId) (hid : id < s.nextId) {a : AccountId} (ha : a ∈ known)
    (hcur : currentJob rows a = some id)
    (hother : ∀ b ∈ known, b ≠ a → currentJob rows b ≠ some id) :
    (known.foldl (ensureJob rows eligible now intervalSeconds) s).jobs.get id =
      (s.jobs.get id).map fun job =>
        if eligible a then refreshed ("interval:" ++ toString intervalSeconds) now job
        else disabled job := by
  induction known generalizing s with
  | nil => cases ha
  | cons b known ih =>
    rw [List.nodup_cons] at hnodup
    have hrest := fun c hc => hother c (List.mem_cons_of_mem b hc)
    rw [List.foldl_cons]
    by_cases hab : b = a
    · rw [hab] at hnodup ⊢
      have hstep : (s.ensureJob rows eligible now intervalSeconds a).nextId = s.nextId ∧
          (s.ensureJob rows eligible now intervalSeconds a).jobs.get id =
            (s.jobs.get id).map fun job =>
              if eligible a then refreshed ("interval:" ++ toString intervalSeconds) now job
              else disabled job := by
        unfold ensureJob
        rw [hcur]
        cases heligible : eligible a with
        | false =>
          refine ⟨rfl, ?_⟩
          simp only [if_true, Table.get_update]
          rfl
        | true =>
          refine ⟨rfl, ?_⟩
          simp only [Bool.true_eq_false, if_false, Table.get_update, if_true]
          rfl
      rw [get_ensureAll_other known _ id (by rw [hstep.1]; exact hid), hstep.2]
      intro c hc
      refine hrest c hc ?_
      rintro rfl
      exact hnodup.1 hc
    · have ha := (List.mem_cons.mp ha).resolve_left (Ne.symm hab)
      have hone : ([b].foldl (ensureJob rows eligible now intervalSeconds) s).jobs.get id =
          s.jobs.get id :=
        get_ensureAll_other [b] s id hid fun c hc => by
          rw [List.mem_singleton.mp hc]
          exact hother b List.mem_cons_self hab
      rw [List.foldl_cons, List.foldl_nil] at hone
      rw [ih hnodup.2 _ ?_ ha hrest, hone]
      unfold ensureJob
      dsimp only
      split <;> split
      · exact hid
      · exact hid
      · exact Nat.lt_succ_of_lt hid
      · exact hid

/-- The new jobs get the next identifiers, in the order of their accounts. -/
theorem get_ensureAll_new (known : List AccountId) (s : Rows)
    (hcur : ∀ a ∈ known, ∀ id, currentJob rows a = some id → id < s.nextId) :
    (known.foldl (ensureJob rows eligible now intervalSeconds) s).nextId =
        s.nextId + (created rows eligible known).length ∧
      ∀ id, s.nextId ≤ id → s.jobs.get id = none →
        (known.foldl (ensureJob rows eligible now intervalSeconds) s).jobs.get id =
          (created rows eligible known)[id - s.nextId]?.map fun a =>
            newJob a ("interval:" ++ toString intervalSeconds) now := by
  induction known generalizing s with
  | nil => exact ⟨rfl, fun id _ hnone => hnone⟩
  | cons a known ih =>
    have hrest := fun b hb => hcur b (List.mem_cons_of_mem a hb)
    rw [List.foldl_cons]
    by_cases hnew : eligible a = true ∧ currentJob rows a = none
    · have hcreated : created rows eligible (a :: known) = a :: created rows eligible known := by
        rw [created, List.filter_cons, hnew.1, hnew.2]
        rfl
      have hstep : s.ensureJob rows eligible now intervalSeconds a =
          { s with
            jobs := s.jobs.set s.nextId (newJob a ("interval:" ++ toString intervalSeconds) now)
            nextId := s.nextId + 1 } := by
        unfold ensureJob
        rw [hnew.1, hnew.2]
        rfl
      obtain ⟨hnext, hget⟩ := ih (s.ensureJob rows eligible now intervalSeconds a) (by
        intro b hb id hid
        rw [hstep]
        exact Nat.lt_succ_of_lt (hrest b hb id hid))
      rw [hcreated]
      refine ⟨?_, fun id hid hnone => ?_⟩
      · have hstart : (s.ensureJob rows eligible now intervalSeconds a).nextId = s.nextId + 1 := by
          rw [hstep]
        rw [hnext, hstart, List.length_cons]
        omega
      · rcases Nat.eq_or_lt_of_le hid with rfl | hlt
        · rw [get_ensureAll_other known _ s.nextId (by rw [hstep]; exact Nat.lt_succ_self _)]
          · rw [hstep, Nat.sub_self]
            exact Table.get_set_self _ _ _
          · intro b hb hid'
            exact Nat.lt_irrefl _ (hrest b hb _ hid')
        · have hid' : id - s.nextId = id - (s.nextId + 1) + 1 := by omega
          have hnone' : (s.ensureJob rows eligible now intervalSeconds a).jobs.get id = none := by
            rw [hstep]
            exact (Table.get_set_ne _ _ (Nat.ne_of_gt hlt)).trans hnone
          rw [hget id (by rw [hstep]; exact hlt) hnone', hstep, hid', List.getElem?_cons_succ]
    · have hcreated : created rows eligible (a :: known) = created rows eligible known := by
        rw [created, List.filter_cons, if_neg]
        · rfl
        · simpa using hnew
      have hstep : (s.ensureJob rows eligible now intervalSeconds a).nextId = s.nextId ∧
          ∀ id, s.nextId ≤ id →
            (s.ensureJob rows eligible now intervalSeconds a).jobs.get id = s.jobs.get id := by
        have hcura := hcur a List.mem_cons_self
        unfold ensureJob
        cases hc : currentJob rows a with
        | none =>
          have hno : eligible a = false := by
            rw [Bool.eq_false_iff]
            exact fun h => hnew ⟨h, hc⟩
          rw [hno]
          exact ⟨rfl, fun _ _ => rfl⟩
        | some cur =>
          have hne : ∀ id, s.nextId ≤ id → id ≠ cur := by
            rintro id hid rfl
            exact absurd (hcura _ hc) (Nat.not_lt.mpr hid)
          dsimp only
          split
          · refine ⟨rfl, fun id hid => ?_⟩
            rw [Table.get_update, if_neg (hne id hid)]
          · refine ⟨rfl, fun id hid => ?_⟩
            rw [Table.get_update, if_neg (hne id hid)]
      obtain ⟨hnext, hget⟩ := ih (s.ensureJob rows eligible now intervalSeconds a) (by
        intro b hb id hid
        rw [hstep.1]
        exact hrest b hb id hid)
      rw [hcreated]
      refine ⟨by rw [hnext, hstep.1], fun id hid hnone => ?_⟩
      rw [hget id (by rw [hstep.1]; exact hid) (by rw [hstep.2 id hid]; exact hnone), hstep.1]

end Loop

/-! ## The current job -/

/-- A row of the account's idle preview jobs. -/
structure IdlePreview (s : Rows) (a : AccountId) (id : JobId) (job : Job) : Prop where
  row : s.jobs.get id = some job
  kind : job.kind = jobKind
  account : job.accountId = a

/-- The earliest of the account's idle preview jobs. -/
structure Earliest (s : Rows) (a : AccountId) (id : JobId) (job : Job) : Prop
    extends IdlePreview s a id job where
  first : ∀ id' job', IdlePreview s a id' job' → job.createdAt ≤ job'.createdAt

/-- The idle preview jobs of an account were created at different times. -/
def DistinctTimes (s : Rows) : Prop :=
  ∀ a id id' job job', IdlePreview s a id job → IdlePreview s a id' job' →
    job.createdAt = job'.createdAt → id = id'

/-- No row has an identifier that is still to be drawn. -/
def FreshIds (s : Rows) : Prop :=
  ∀ (id : Nat) (job : Job), s.jobs.get id = some job → id < s.nextId

theorem pairwise_knownJobs (s : Rows) (known : List AccountId) :
    (s.knownJobs known).Pairwise fun a b =>
      a.2.accountId < b.2.accountId ∨
        (a.2.accountId = b.2.accountId ∧ a.2.createdAt ≤ b.2.createdAt) := by
  have : Std.Total fun a b : JobId × Job => a.2.accountId < b.2.accountId ∨
      (a.2.accountId = b.2.accountId ∧ a.2.createdAt ≤ b.2.createdAt) :=
    ⟨fun a b => by
      have := le_total a.2.createdAt b.2.createdAt
      rcases Nat.lt_trichotomy a.2.accountId b.2.accountId with h | h | h <;> grind⟩
  have : IsTrans (JobId × Job) fun a b => a.2.accountId < b.2.accountId ∨
      (a.2.accountId = b.2.accountId ∧ a.2.createdAt ≤ b.2.createdAt) :=
    ⟨fun a b c hab hbc => by grind⟩
  exact List.pairwise_insertionSort _ _

theorem earliest_of_currentJob {s : Rows} {known : List AccountId} {a : AccountId} {id : JobId}
    (ha : a ∈ known) (h : currentJob (s.knownJobs known) a = some id) :
    ∃ job, Earliest s a id job := by
  obtain ⟨⟨id', job⟩, hfind, hid⟩ := Option.map_eq_some_iff.mp h
  obtain rfl : id' = id := hid
  have hmem := mem_knownJobs.mp (List.mem_of_find?_eq_some hfind)
  have hacc : job.accountId = a := by simpa using List.find?_some hfind
  refine ⟨job, ⟨hmem.1, hmem.2.1, hacc⟩, ?_⟩
  intro id'' job'' hrow
  obtain ⟨-, before, after, hsplit, hbefore⟩ := List.find?_eq_some_iff_append.mp hfind
  have hsorted := pairwise_knownJobs s known
  have hrow' : (id'', job'') ∈ s.knownJobs known :=
    mem_knownJobs.mpr ⟨hrow.row, hrow.kind, by rw [hrow.account]; exact ha⟩
  rw [hsplit] at hsorted hrow'
  cases List.mem_append.mp hrow' with
  | inl hearly => simpa [hrow.account] using hbefore _ hearly
  | inr hlate =>
    cases List.mem_cons.mp hlate with
    | inl heq => rw [(Prod.mk.inj heq).2]
    | inr hlater =>
      have hle := List.rel_of_pairwise_cons (List.pairwise_append.mp hsorted).2.1 hlater
      rw [hacc, hrow.account] at hle
      rcases hle with hlt | ⟨-, hle⟩
      · exact absurd hlt (Nat.lt_irrefl _)
      · exact hle

theorem currentJob_iff {s : Rows} (hdistinct : DistinctTimes s) {known : List AccountId}
    {a : AccountId} (ha : a ∈ known) {id : JobId} :
    currentJob (s.knownJobs known) a = some id ↔ ∃ job, Earliest s a id job := by
  refine ⟨earliest_of_currentJob ha, ?_⟩
  rintro ⟨job, h⟩
  have hmem : (id, job) ∈ s.knownJobs known :=
    mem_knownJobs.mpr ⟨h.row, h.kind, by rw [h.account]; exact ha⟩
  cases hcur : currentJob (s.knownJobs known) a with
  | none => exact absurd h.account (currentJob_none hcur hmem)
  | some id' =>
    obtain ⟨job', h'⟩ := earliest_of_currentJob ha hcur
    rw [hdistinct a id' id job' job h'.toIdlePreview h.toIdlePreview
      (le_antisymm (h'.first id job h.toIdlePreview) (h.first id' job' h'.toIdlePreview))]

theorem currentJob_none_iff {s : Rows} {known : List AccountId} {a : AccountId} (ha : a ∈ known) :
    currentJob (s.knownJobs known) a = none ↔ ∀ id job, ¬ IdlePreview s a id job := by
  constructor
  · intro h id job hrow
    have hmem : (id, job) ∈ s.knownJobs known :=
      mem_knownJobs.mpr ⟨hrow.row, hrow.kind, by rw [hrow.account]; exact ha⟩
    exact currentJob_none h hmem hrow.account
  · intro h
    cases hcur : currentJob (s.knownJobs known) a with
    | none => rfl
    | some id =>
      obtain ⟨job, hearliest⟩ := earliest_of_currentJob ha hcur
      exact absurd hearliest.toIdlePreview (h id job)

/-! ## The whole call -/

section Call

variable {s : Rows} {accounts : List SchedulerAccount} {now : Time} {intervalSeconds : Nat}

/-- `known`: the identifiers of the accounts, each once. -/
def knownIds (accounts : List SchedulerAccount) : List AccountId := (accounts.map (·.id)).dedup

/-- `eligible`. -/
def isEligible (accounts : List SchedulerAccount) (a : AccountId) : Bool :=
  accounts.any fun account => account.id = a && account.eligible

def deduplicated (s : Rows) (known : List AccountId) : Rows :=
  { s with jobs := disableDuplicates (s.knownJobs known) s.jobs }

theorem ensureJobs_eq (s : Rows) (accounts : List SchedulerAccount) (now : Time)
    (intervalSeconds : Nat) :
    s.ensureJobs accounts now intervalSeconds =
      (knownIds accounts).foldl
        (ensureJob (s.knownJobs (knownIds accounts)) (isEligible accounts) now intervalSeconds)
        (s.deduplicated (knownIds accounts)) := rfl

theorem mem_knownIds {a : AccountId} :
    a ∈ knownIds accounts ↔ ∃ account ∈ accounts, account.id = a := by
  rw [knownIds, List.mem_dedup, List.mem_map]

theorem current_lt (hfresh : FreshIds s) {a : AccountId} (ha : a ∈ knownIds accounts) {id : JobId}
    (h : currentJob (s.knownJobs (knownIds accounts)) a = some id) : id < s.nextId := by
  obtain ⟨job, hearliest⟩ := earliest_of_currentJob ha h
  exact hfresh id job hearliest.row

theorem get_ensureJobs_old (hfresh : FreshIds s) {id : JobId} {job : Job}
    (h : s.jobs.get id = some job) :
    (s.ensureJobs accounts now intervalSeconds).jobs.get id =
      some (if job.kind = jobKind ∧ job.accountId ∈ knownIds accounts then
        provisioned (s.knownJobs (knownIds accounts)) (isEligible accounts)
          ("interval:" ++ toString intervalSeconds) now id job
      else job) := by
  have hid : id < (s.deduplicated (knownIds accounts)).nextId := hfresh id job h
  have hrow : ∀ a ∈ knownIds accounts,
      currentJob (s.knownJobs (knownIds accounts)) a = some id →
        job.kind = jobKind ∧ job.accountId = a := by
    intro a ha hcur
    obtain ⟨job', hearliest⟩ := earliest_of_currentJob ha hcur
    obtain rfl : job = job' := Option.some.inj (h.symm.trans hearliest.row)
    exact ⟨hearliest.kind, hearliest.account⟩
  have hdup := get_disableDuplicates (s.knownJobs (knownIds accounts))
    (s.knownJobs (knownIds accounts)) s.jobs id
  rw [ensureJobs_eq]
  generalize hknown : knownIds accounts = known at *
  have hnodup : known.Nodup := by
    rw [← hknown]
    exact List.nodup_dedup _
  by_cases hmine : job.kind = jobKind ∧ job.accountId ∈ known
  · rw [if_pos hmine, provisioned]
    by_cases hcur : currentJob (s.knownJobs known) job.accountId = some id
    · have hnot : ¬ ∃ row ∈ s.knownJobs known, row.1 = id ∧
          currentJob (s.knownJobs known) row.2.accountId ≠ some id := by
        rintro ⟨row, hmem, rfl, hne⟩
        have heq := Option.some.inj (h.symm.trans (mem_knownJobs.mp hmem).1)
        exact hne (heq ▸ hcur)
      rw [if_neg hnot] at hdup
      rw [get_ensureAll_current known hnodup _ id hid hmine.2 hcur fun b hb hne hb' =>
        hne (hrow b hb hb').2.symm]
      have hget : (s.deduplicated known).jobs.get id = some job := hdup.trans h
      rw [hget]
      cases isEligible accounts job.accountId with
      | false => rw [if_neg (by simp)]; rfl
      | true => rw [if_pos ⟨hcur, rfl⟩]; rfl
    · have hdupe : ∃ row ∈ s.knownJobs known, row.1 = id ∧
          currentJob (s.knownJobs known) row.2.accountId ≠ some id :=
        ⟨(id, job), mem_knownJobs.mpr ⟨h, hmine.1, hmine.2⟩, rfl, hcur⟩
      rw [if_pos hdupe, h] at hdup
      rw [get_ensureAll_other known _ id hid fun a ha hcur' =>
        hcur ((hrow a ha hcur').2.symm ▸ hcur')]
      rw [if_neg fun hboth => hcur hboth.1]
      exact hdup
  · have hnot : ¬ ∃ row ∈ s.knownJobs known, row.1 = id ∧
        currentJob (s.knownJobs known) row.2.accountId ≠ some id := by
      rintro ⟨row, hmem, rfl, -⟩
      obtain ⟨hget, hkind, hacc⟩ := mem_knownJobs.mp hmem
      rw [Option.some.inj (hget.symm.trans h)] at hkind hacc
      exact hmine ⟨hkind, hacc⟩
    rw [if_neg hnot, h] at hdup
    rw [get_ensureAll_other known _ id hid fun a ha hcur' => by
      obtain ⟨hkind, hacc⟩ := hrow a ha hcur'
      exact hmine ⟨hkind, hacc ▸ ha⟩]
    rw [if_neg hmine]
    exact hdup

/-- A row that was not there is the new job of an account without one. -/
theorem get_ensureJobs_new (hfresh : FreshIds s) {id : Nat} (h : s.jobs.get id = none) :
    (s.ensureJobs accounts now intervalSeconds).jobs.get id =
      if id < s.nextId then none
      else (created (s.knownJobs (knownIds accounts)) (isEligible accounts)
        (knownIds accounts))[id - s.nextId]?.map fun a =>
          newJob a ("interval:" ++ toString intervalSeconds) now := by
  have hdup := get_disableDuplicates (s.knownJobs (knownIds accounts))
    (s.knownJobs (knownIds accounts)) s.jobs id
  have hnone : (disableDuplicates (s.knownJobs (knownIds accounts)) s.jobs).get id = none := by
    rw [disableDuplicates, hdup, h]
    split <;> rfl
  rw [ensureJobs_eq]
  split
  · rename_i hid
    refine (get_ensureAll_other (knownIds accounts) (s.deduplicated (knownIds accounts)) id hid
      fun a ha hcur => ?_).trans hnone
    obtain ⟨job, hearliest⟩ := earliest_of_currentJob ha hcur
    exact absurd (h.symm.trans hearliest.row) (by simp)
  · rename_i hid
    exact (get_ensureAll_new (knownIds accounts) (s.deduplicated (knownIds accounts))
      fun _ ha _ hcur => current_lt hfresh ha hcur).2 id (Nat.not_lt.mp hid) hnone

theorem nextId_ensureJobs (hfresh : FreshIds s) :
    (s.ensureJobs accounts now intervalSeconds).nextId =
      s.nextId + (created (s.knownJobs (knownIds accounts)) (isEligible accounts)
        (knownIds accounts)).length :=
  (get_ensureAll_new (knownIds accounts) (s.deduplicated (knownIds accounts))
    fun _ ha _ hcur => current_lt hfresh ha hcur).1

theorem mem_created {a : AccountId} :
    a ∈ created (s.knownJobs (knownIds accounts)) (isEligible accounts) (knownIds accounts) ↔
      a ∈ knownIds accounts ∧ isEligible accounts a = true ∧
        ∀ id job, ¬ IdlePreview s a id job := by
  rw [created, List.mem_filter, Bool.and_eq_true, Option.isNone_iff_eq_none]
  constructor
  · rintro ⟨ha, heligible, hnone⟩
    exact ⟨ha, heligible, (currentJob_none_iff ha).mp hnone⟩
  · rintro ⟨ha, heligible, hnone⟩
    exact ⟨ha, heligible, (currentJob_none_iff ha).mpr hnone⟩

/-- The two kinds of idle preview jobs that an account has after the call. -/
theorem idlePreview_cases (hfresh : FreshIds s) {a : AccountId} {id : JobId} {job : Job}
    (h : IdlePreview (s.ensureJobs accounts now intervalSeconds) a id job) :
    (∃ old, IdlePreview s a id old ∧
      job = if a ∈ knownIds accounts then
        provisioned (s.knownJobs (knownIds accounts)) (isEligible accounts)
          ("interval:" ++ toString intervalSeconds) now id old
      else old) ∨
    (s.jobs.get id = none ∧ ∃ i, id = s.nextId + i ∧
      (created (s.knownJobs (knownIds accounts)) (isEligible accounts)
        (knownIds accounts))[i]? = some a ∧
      job = newJob a ("interval:" ++ toString intervalSeconds) now) := by
  obtain ⟨hrow, hkind, hacc⟩ := h
  cases hget : s.jobs.get id with
  | some old =>
    left
    rw [get_ensureJobs_old hfresh hget, Option.some.injEq] at hrow
    by_cases hmine : old.kind = jobKind ∧ old.accountId ∈ knownIds accounts
    · rw [if_pos hmine] at hrow
      have hsame : old.accountId = a := by
        rw [← hacc, ← hrow, provisioned]
        split <;> rfl
      rw [hsame] at hmine
      exact ⟨old, ⟨hget, hmine.1, hsame⟩, by rw [if_pos hmine.2, hrow]⟩
    · rw [if_neg hmine] at hrow
      rw [hrow] at hmine
      refine ⟨old, ⟨hget, hrow ▸ hkind, hrow ▸ hacc⟩, ?_⟩
      rw [if_neg fun ha => hmine ⟨hkind, hacc.symm ▸ ha⟩, hrow]
  | none =>
    right
    rw [get_ensureJobs_new hfresh hget] at hrow
    split at hrow
    · cases hrow
    · rename_i hid
      obtain ⟨b, hb, rfl⟩ := Option.map_eq_some_iff.mp hrow
      obtain rfl : b = a := hacc
      exact ⟨rfl, id - s.nextId, (Nat.add_sub_of_le (Nat.not_lt.mp hid)).symm, hb, rfl⟩

variable (now intervalSeconds) in
theorem idlePreview_of_old (hfresh : FreshIds s) {a : AccountId} (ha : a ∈ knownIds accounts)
    {id : JobId} {old : Job} (h : IdlePreview s a id old) :
    IdlePreview (s.ensureJobs accounts now intervalSeconds) a id
      (provisioned (s.knownJobs (knownIds accounts)) (isEligible accounts)
        ("interval:" ++ toString intervalSeconds) now id old) := by
  refine ⟨?_, ?_, ?_⟩
  · rw [get_ensureJobs_old hfresh h.row, if_pos ⟨h.kind, by rw [h.account]; exact ha⟩]
  · rw [provisioned]
    split <;> exact h.kind
  · rw [provisioned]
    split <;> exact h.account

variable (now intervalSeconds) in
theorem idlePreview_of_created (hfresh : FreshIds s) {a : AccountId} {i : Nat}
    (hi : (created (s.knownJobs (knownIds accounts)) (isEligible accounts)
      (knownIds accounts))[i]? = some a) :
    s.jobs.get (s.nextId + i) = none ∧
      IdlePreview (s.ensureJobs accounts now intervalSeconds) a (s.nextId + i)
        (newJob a ("interval:" ++ toString intervalSeconds) now) := by
  have hnone : s.jobs.get (s.nextId + i) = none := by
    cases hget : s.jobs.get (s.nextId + i) with
    | none => rfl
    | some job => exact absurd (hfresh _ job hget) (by omega)
  refine ⟨hnone, ?_, rfl, rfl⟩
  rw [get_ensureJobs_new hfresh hnone, if_neg (by omega), Nat.add_sub_cancel_left, hi]
  rfl

theorem provisioned_createdAt (rows : List (JobId × Job)) (eligible : AccountId → Bool)
    (schedule : String) (now : Time) (id : JobId) (job : Job) :
    (provisioned rows eligible schedule now id job).createdAt = job.createdAt := by
  rw [provisioned]
  split <;> rfl

/-! ## Repeating the call -/

variable (accounts now intervalSeconds) in
theorem freshIds_ensureJobs (hfresh : FreshIds s) :
    FreshIds (s.ensureJobs accounts now intervalSeconds) := by
  intro id job h
  rw [nextId_ensureJobs hfresh]
  cases hget : s.jobs.get id with
  | some old => exact Nat.lt_add_right _ (hfresh id old hget)
  | none =>
    rw [get_ensureJobs_new hfresh hget] at h
    split at h
    · cases h
    · rename_i hid
      obtain ⟨a, ha, -⟩ := Option.map_eq_some_iff.mp h
      obtain ⟨hlt, -⟩ := List.getElem?_eq_some_iff.mp ha
      omega

variable (accounts now intervalSeconds) in
/-- The old jobs of an account keep their times; a new one is the only one. -/
theorem distinctTimes_ensureJobs (hfresh : FreshIds s) (hdistinct : DistinctTimes s) :
    DistinctTimes (s.ensureJobs accounts now intervalSeconds) := by
  have hold : ∀ {a id job old}, IdlePreview s a id old →
      (job = if a ∈ knownIds accounts then
        provisioned (s.knownJobs (knownIds accounts)) (isEligible accounts)
          ("interval:" ++ toString intervalSeconds) now id old else old) →
      job.createdAt = old.createdAt := by
    rintro a id job old - rfl
    split
    · exact provisioned_createdAt _ _ _ _ _ _
    · rfl
  have hnew : ∀ {a : AccountId} {i : Nat}, (created (s.knownJobs (knownIds accounts))
      (isEligible accounts) (knownIds accounts))[i]? = some a →
        ∀ id job, ¬ IdlePreview s a id job := fun hi =>
    (mem_created.mp (List.mem_of_getElem? hi)).2.2
  have hnodup : (created (s.knownJobs (knownIds accounts)) (isEligible accounts)
      (knownIds accounts)).Nodup := (List.nodup_dedup _).filter _
  intro a id id' job job' h h' htimes
  rcases idlePreview_cases hfresh h with ⟨old, hrow, heq⟩ | ⟨-, i, rfl, hi, -⟩
  · rcases idlePreview_cases hfresh h' with ⟨old', hrow', heq'⟩ | ⟨-, j, rfl, hj, -⟩
    · refine hdistinct a id id' old old' hrow hrow' ?_
      rw [← hold hrow heq, ← hold hrow' heq', htimes]
    · exact absurd hrow (hnew hj _ _)
  · rcases idlePreview_cases hfresh h' with ⟨old', hrow', -⟩ | ⟨-, j, rfl, hj, -⟩
    · exact absurd hrow' (hnew hi _ _)
    · obtain ⟨hlt, -⟩ := List.getElem?_eq_some_iff.mp hi
      rw [(List.getElem?_inj hlt hnodup).mp (hi.trans hj.symm)]

theorem earliest_ensureJobs (hfresh : FreshIds s) {a : AccountId} (ha : a ∈ knownIds accounts)
    {id : JobId} {old : Job} (h : IdlePreview s a id old) :
    (∃ job, Earliest (s.ensureJobs accounts now intervalSeconds) a id job) ↔
      ∃ job, Earliest s a id job := by
  have hcreated : ∀ {id' job'}, IdlePreview (s.ensureJobs accounts now intervalSeconds) a id' job' →
      ∃ old', IdlePreview s a id' old' ∧ job'.createdAt = old'.createdAt := by
    intro id' job' h'
    rcases idlePreview_cases hfresh h' with ⟨old', hrow, heq⟩ | ⟨-, i, -, hi, -⟩
    · rw [if_pos ha] at heq
      exact ⟨old', hrow, by rw [heq, provisioned_createdAt]⟩
    · exact absurd h ((mem_created.mp (List.mem_of_getElem? hi)).2.2 _ _)
  have hself := idlePreview_of_old now intervalSeconds hfresh ha h
  constructor
  · rintro ⟨job, hrow, hfirst⟩
    obtain rfl := Option.some.inj (hrow.row.symm.trans hself.row)
    refine ⟨old, h, fun id' job' h' => ?_⟩
    have hle := hfirst id' _ (idlePreview_of_old _ _ hfresh ha h')
    rwa [provisioned_createdAt, provisioned_createdAt] at hle
  · rintro ⟨job, hrow, hfirst⟩
    obtain rfl := Option.some.inj (hrow.row.symm.trans h.row)
    refine ⟨_, hself, fun id' job' h' => ?_⟩
    obtain ⟨old', hrow', htime⟩ := hcreated h'
    rw [provisioned_createdAt, htime]
    exact hfirst id' old' hrow'

/-- After the call no known account that is eligible is without a job. -/
theorem created_ensureJobs (hfresh : FreshIds s) :
    created ((s.ensureJobs accounts now intervalSeconds).knownJobs (knownIds accounts))
      (isEligible accounts) (knownIds accounts) = [] := by
  rw [List.eq_nil_iff_forall_not_mem]
  intro a hmem
  obtain ⟨ha, heligible, hnone⟩ := mem_created.mp hmem
  by_cases hold : ∃ id old, IdlePreview s a id old
  · obtain ⟨id, old, hrow⟩ := hold
    exact hnone _ _ (idlePreview_of_old _ _ hfresh ha hrow)
  · push Not at hold
    obtain ⟨i, hlt, hi⟩ := List.getElem_of_mem (mem_created.mpr ⟨ha, heligible, hold⟩)
    exact hnone _ _ (idlePreview_of_created _ _ hfresh (List.getElem?_eq_some_iff.mpr ⟨hlt, hi⟩)).2

/-- A row that the call has provisioned stays as it is. -/
theorem provisioned_again (hfresh : FreshIds s) (hdistinct : DistinctTimes s) {a : AccountId}
    (ha : a ∈ knownIds accounts) {id : JobId} {job : Job}
    (h : IdlePreview (s.ensureJobs accounts now intervalSeconds) a id job) :
    provisioned ((s.ensureJobs accounts now intervalSeconds).knownJobs (knownIds accounts))
      (isEligible accounts) ("interval:" ++ toString intervalSeconds) now id job = job := by
  have hdistinct' := distinctTimes_ensureJobs accounts now intervalSeconds hfresh hdistinct
  rcases idlePreview_cases hfresh h with ⟨old, hrow, heq⟩ | ⟨-, i, rfl, hi, heq⟩
  · rw [if_pos ha] at heq
    have hcur : currentJob ((s.ensureJobs accounts now intervalSeconds).knownJobs
        (knownIds accounts)) a = some id ↔
          currentJob (s.knownJobs (knownIds accounts)) a = some id := by
      rw [currentJob_iff hdistinct' ha, currentJob_iff hdistinct ha, earliest_ensureJobs hfresh ha hrow]
    rw [provisioned, hrow.account] at heq
    rw [provisioned, h.account]
    by_cases hboth : currentJob (s.knownJobs (knownIds accounts)) a = some id ∧
        isEligible accounts a = true
    · rw [if_pos hboth] at heq
      rw [if_pos ⟨hcur.mpr hboth.1, hboth.2⟩, heq]
      rfl
    · rw [if_neg hboth] at heq
      rw [if_neg fun h => hboth ⟨hcur.mp h.1, h.2⟩, heq]
      rfl
  · obtain ⟨-, heligible, hnone⟩ := mem_created.mp (List.mem_of_getElem? hi)
    have hfirst : Earliest (s.ensureJobs accounts now intervalSeconds) a (s.nextId + i) job := by
      refine ⟨h, fun id' job' h' => ?_⟩
      rcases idlePreview_cases hfresh h' with ⟨old, hrow, -⟩ | ⟨-, j, -, -, heq'⟩
      · exact absurd hrow (hnone _ _)
      · rw [heq, heq']
    have hcur := (currentJob_iff hdistinct' ha).mpr ⟨job, hfirst⟩
    rw [provisioned, h.account, if_pos ⟨hcur, heligible⟩, heq]
    rfl

variable (accounts now intervalSeconds) in
theorem ensureJobs_again (hfresh : FreshIds s) (hdistinct : DistinctTimes s) :
    ((s.ensureJobs accounts now intervalSeconds).ensureJobs accounts now intervalSeconds).nextId =
        (s.ensureJobs accounts now intervalSeconds).nextId ∧
      ∀ id, ((s.ensureJobs accounts now intervalSeconds).ensureJobs accounts now
        intervalSeconds).jobs.get id = (s.ensureJobs accounts now intervalSeconds).jobs.get id := by
  have hfresh' := freshIds_ensureJobs accounts now intervalSeconds hfresh
  refine ⟨?_, fun id => ?_⟩
  · rw [nextId_ensureJobs hfresh', created_ensureJobs hfresh]
    rfl
  · cases hget : (s.ensureJobs accounts now intervalSeconds).jobs.get id with
    | none =>
      rw [get_ensureJobs_new hfresh' hget, created_ensureJobs hfresh]
      split <;> rfl
    | some job =>
      rw [get_ensureJobs_old hfresh' hget]
      by_cases hmine : job.kind = jobKind ∧ job.accountId ∈ knownIds accounts
      · rw [if_pos hmine, provisioned_again hfresh hdistinct hmine.2 ⟨hget, hmine.1, rfl⟩]
      · rw [if_neg hmine]

/-! ## Exactness -/

def Listed (accounts : List SchedulerAccount) (a : AccountId) : Prop :=
  ∃ account ∈ accounts, account.id = a

/-- The account is in the list as an enabled account that is not paused. -/
def Eligible (accounts : List SchedulerAccount) (a : AccountId) : Prop :=
  ∃ account ∈ accounts, account.id = a ∧ account.enabled = true ∧ account.pausedReason = none

theorem isEligible_iff {a : AccountId} : isEligible accounts a = true ↔ Eligible accounts a := by
  simp [isEligible, Eligible, SchedulerAccount.eligible]

/-- `job` is the only enabled idle preview job of the account. -/
structure OnlyEnabled (s : Rows) (a : AccountId) (id : JobId) (job : Job) : Prop
    extends IdlePreview s a id job where
  enabled : job.enabled = true
  only : ∀ id' job', IdlePreview s a id' job' → job'.enabled = true → id' = id

theorem enabled_cases (hfresh : FreshIds s) {a : AccountId} (ha : a ∈ knownIds accounts)
    {id : JobId} {job : Job}
    (h : IdlePreview (s.ensureJobs accounts now intervalSeconds) a id job)
    (henabled : job.enabled = true) :
    isEligible accounts a = true ∧
      (currentJob (s.knownJobs (knownIds accounts)) a = some id ∨
        ∃ i, id = s.nextId + i ∧ (created (s.knownJobs (knownIds accounts)) (isEligible accounts)
          (knownIds accounts))[i]? = some a) := by
  rcases idlePreview_cases hfresh h with ⟨old, hrow, heq⟩ | ⟨-, i, hid, hi, -⟩
  · rw [if_pos ha, provisioned, hrow.account] at heq
    split at heq
    · rename_i hboth
      exact ⟨hboth.2, .inl hboth.1⟩
    · rw [heq] at henabled
      cases henabled
  · exact ⟨(mem_created.mp (List.mem_of_getElem? hi)).2.1, .inr ⟨i, hid, hi⟩⟩

/-- An eligible account has its earliest job enabled, or a new one when it had none. -/
theorem provided (hfresh : FreshIds s) {a : AccountId} (heligible : Eligible accounts a) :
    ∃ id job, OnlyEnabled (s.ensureJobs accounts now intervalSeconds) a id job ∧
      ((∃ old, Earliest s a id old ∧ job.nextRunAt = some (old.nextRunAt.getD now)) ∨
        (∀ id' job', ¬ IdlePreview s a id' job') ∧ s.jobs.get id = none ∧
          job.nextRunAt = some now) := by
  have ha : a ∈ knownIds accounts := by
    obtain ⟨account, hmem, hid, -⟩ := heligible
    exact mem_knownIds.mpr ⟨account, hmem, hid⟩
  have helig := isEligible_iff.mpr heligible
  cases hcur : currentJob (s.knownJobs (knownIds accounts)) a with
  | some id =>
    obtain ⟨old, hearliest⟩ := earliest_of_currentJob ha hcur
    have hrow := idlePreview_of_old now intervalSeconds hfresh ha
      hearliest.toIdlePreview
    have hjob : provisioned (s.knownJobs (knownIds accounts)) (isEligible accounts)
        ("interval:" ++ toString intervalSeconds) now id old =
          refreshed ("interval:" ++ toString intervalSeconds) now old := by
      rw [provisioned, hearliest.account, if_pos ⟨hcur, helig⟩]
    rw [hjob] at hrow
    refine ⟨id, _, ⟨hrow, rfl, fun id' job' h' henabled => ?_⟩, .inl ⟨old, hearliest, rfl⟩⟩
    obtain ⟨-, hcur' | ⟨i, -, hi⟩⟩ := enabled_cases hfresh ha h' henabled
    · exact (Option.some.inj (hcur.symm.trans hcur')).symm
    · exact absurd hearliest.toIdlePreview ((mem_created.mp (List.mem_of_getElem? hi)).2.2 _ _)
  | none =>
    have hnone := (currentJob_none_iff ha).mp hcur
    have hnodup : (created (s.knownJobs (knownIds accounts)) (isEligible accounts)
      (knownIds accounts)).Nodup := (List.nodup_dedup _).filter _
    obtain ⟨i, hlt, hi⟩ := List.getElem_of_mem (mem_created.mpr ⟨ha, helig, hnone⟩)
    have hi := List.getElem?_eq_some_iff.mpr ⟨hlt, hi⟩
    obtain ⟨hnew, hrow⟩ := idlePreview_of_created now intervalSeconds hfresh hi
    refine ⟨_, _, ⟨hrow, rfl, fun id' job' h' henabled => ?_⟩, .inr ⟨hnone, hnew, rfl⟩⟩
    obtain ⟨-, hcur' | ⟨j, hid, hj⟩⟩ := enabled_cases hfresh ha h' henabled
    · rw [hcur] at hcur'
      cases hcur'
    · rw [hid, (List.getElem?_inj hlt hnodup).mp (hi.trans hj.symm)]

end Call

end Rows

open Rows

/-- `ensure_jobs` leaves each eligible account of the list with exactly one enabled idle preview job
and every other one with none, touches nothing else, and does nothing when it is repeated. -/
theorem provisioning_exact (s : Rows) (accounts : List SchedulerAccount) (now : Time)
    (intervalSeconds : Nat) (hfresh : FreshIds s) (hdistinct : DistinctTimes s) :
    (∀ a, Eligible accounts a →
      ∃ id job, OnlyEnabled (s.ensureJobs accounts now intervalSeconds) a id job ∧
        ((∃ old, Earliest s a id old ∧ job.nextRunAt = some (old.nextRunAt.getD now)) ∨
          (∀ id' job', ¬ IdlePreview s a id' job') ∧ s.jobs.get id = none ∧
            job.nextRunAt = some now)) ∧
      (∀ a, Listed accounts a → ¬ Eligible accounts a → ∀ id job,
        IdlePreview (s.ensureJobs accounts now intervalSeconds) a id job → job.enabled = false) ∧
      (∀ id job, s.jobs.get id = some job →
        ∃ job', (s.ensureJobs accounts now intervalSeconds).jobs.get id = some job' ∧
          job'.accountId = job.accountId ∧ job'.kind = job.kind ∧
            job'.createdAt = job.createdAt) ∧
      (∀ id job, s.jobs.get id = some job → job.kind ≠ jobKind ∨ ¬ Listed accounts job.accountId →
        (s.ensureJobs accounts now intervalSeconds).jobs.get id = some job) ∧
      (∀ id job, s.jobs.get id = none →
        (s.ensureJobs accounts now intervalSeconds).jobs.get id = some job →
          job.kind = jobKind ∧ Eligible accounts job.accountId) ∧
      (∀ id, ((s.ensureJobs accounts now intervalSeconds).ensureJobs accounts now
          intervalSeconds).jobs.get id =
        (s.ensureJobs accounts now intervalSeconds).jobs.get id) ∧
      ((s.ensureJobs accounts now intervalSeconds).ensureJobs accounts now intervalSeconds).nextId =
        (s.ensureJobs accounts now intervalSeconds).nextId ∧
      (s.ensureJobs accounts now intervalSeconds).runs = s.runs ∧
      (s.ensureJobs accounts now intervalSeconds).lease = s.lease := by
  obtain ⟨hnext, hagain⟩ := ensureJobs_again accounts now intervalSeconds hfresh hdistinct
  refine ⟨fun a h => provided hfresh h, ?_, ?_, ?_, ?_, hagain, hnext,
    ensureJobs_runs s accounts now intervalSeconds, ensureJobs_lease s accounts now intervalSeconds⟩
  · intro a hlisted hno id job h
    cases henabled : job.enabled with
    | false => rfl
    | true =>
      obtain ⟨helig, -⟩ := enabled_cases hfresh (mem_knownIds.mpr hlisted) h henabled
      exact absurd (isEligible_iff.mp helig) hno
  · intro id job h
    refine ⟨_, get_ensureJobs_old hfresh h, ?_⟩
    split
    · rw [provisioned]
      split <;> exact ⟨rfl, rfl, rfl⟩
    · exact ⟨rfl, rfl, rfl⟩
  · intro id job h hother
    rw [get_ensureJobs_old hfresh h, if_neg]
    rintro ⟨hkind, hmem⟩
    rcases hother with hne | hno
    · exact hne hkind
    · exact hno (mem_knownIds.mp hmem)
  · intro id job h hget
    rw [get_ensureJobs_new hfresh h] at hget
    split at hget
    · cases hget
    · obtain ⟨a, ha, rfl⟩ := Option.map_eq_some_iff.mp hget
      exact ⟨rfl, isEligible_iff.mp (mem_created.mp (List.mem_of_getElem? ha)).2.1⟩

def duplicateRows : Rows where
  jobs := ⟨[(0, { newJob 7 "interval:60" 5 with nextRunAt := none }), (1, newJob 7 "interval:60" 3)]⟩
  nextId := 2

theorem duplicateRows_cases {id : JobId} {job : Job} (h : duplicateRows.jobs.get id = some job) :
    (id = 0 ∧ job.createdAt = 5) ∨ (id = 1 ∧ job.createdAt = 3) := by
  have hmem := Table.mem_keys h
  simp only [duplicateRows, List.map_cons, List.map_nil, List.mem_cons, List.not_mem_nil,
    or_false] at hmem
  rcases hmem with rfl | rfl
  · cases h
    exact .inl ⟨rfl, rfl⟩
  · cases h
    exact .inr ⟨rfl, rfl⟩

theorem duplicateRows_fresh : FreshIds duplicateRows := by
  intro id job h
  rcases duplicateRows_cases h with ⟨rfl, -⟩ | ⟨rfl, -⟩ <;> decide

theorem duplicateRows_distinct : DistinctTimes duplicateRows := by
  intro a id id' job job' h h' htimes
  rcases duplicateRows_cases h.row with ⟨rfl, ht⟩ | ⟨rfl, ht⟩ <;>
    rcases duplicateRows_cases h'.row with ⟨rfl, ht'⟩ | ⟨rfl, ht'⟩
  · rfl
  · rw [ht, ht'] at htimes
    cases htimes
  · rw [ht, ht'] at htimes
    cases htimes
  · rfl

theorem provisioning_exact_duplicates :
    ∃ id job, OnlyEnabled (duplicateRows.ensureJobs [⟨7, true, none⟩] 9 60) 7 id job := by
  obtain ⟨id, job, h, -⟩ := (provisioning_exact duplicateRows [⟨7, true, none⟩] 9 60
    duplicateRows_fresh duplicateRows_distinct).1 7 ⟨_, List.mem_cons_self, rfl, rfl, rfl⟩
  exact ⟨id, job, h⟩

end Scheduler

end PlaceGame
