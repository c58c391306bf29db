import PlaceGame.Accounts.Outcomes

/-!
# PlaceGame.Accounts.PauseWindow

When three failed session cycles pause an account.

The history of an account is the list of its outcomes. `streak` is what the rule counts: the failures
since the last success or resume. `opened` is what the code counts in: one window that starts with a
failure and is closed by a new login only. The two agree on histories in which nothing happens that
they see differently (`Proper`).
-/

namespace PlaceGame

open GameAccount (Standing)

/-- An outcome, and how the transaction of its cycle ended. -/
abbrev Entry : Type := Outcome × Ending

/-- The failures since the last success or resume, newest first. -/
def streakStep (streak : List Time) : Outcome → List Time
  | .failed now => now :: streak
  | .stored | .renewed | .resumed => []
  | .mismatched | .refresh => streak

def streak (history : List Entry) : List Time :=
  history.foldl (fun s e => streakStep s e.1) []

/-- Three failures less than an hour apart. -/
def due : List Time → Bool
  | third :: _ :: first :: _ => decide (third - first < authFailureWindow)
  | _ => false

/-- The start of the window that the record counts in. -/
def openedStep (opened : Option Time) : Outcome → Option Time
  | .failed now =>
    match opened with
    | none => some now
    | some started => if authFailureWindow ≤ now - started then some now else some started
  | .renewed => none
  | _ => opened

def opened (history : List Entry) : Option Time :=
  history.foldl (fun w e => openedStep w e.1) none

/-- The next entry is one that the counter of the record takes as the rule does. -/
def Proper (history : List Entry) : Entry → Prop
  | (.failed now, ending) => ending = .committed ∧
    ∀ started, opened history = some started →
      if now - started < authFailureWindow then streak history ≠ []
      else ∀ failure ∈ streak history, authFailureWindow ≤ now - failure
  | (.stored, _) => streak history = []
  | (.renewed, ending) => ending = .committed ∨ opened history = none
  | (.resumed, ending) => ending = .committed
  | (.mismatched, _) | (.refresh, _) => True

/-- The histories of which every entry is proper. -/
inductive Orderly : List Entry → Prop where
  | nil : Orderly []
  | snoc {history : List Entry} {entry : Entry} :
      Orderly history → Proper history entry → Orderly (history ++ [entry])

/-- How the columns of an account follow its history: an outcome of an open account is applied when
its transaction was committed, and may be when the commit was not answered. -/
inductive Moves (s₀ : Standing) : List Entry → Standing → Prop where
  | nil : Moves s₀ [] s₀
  | snoc {history : List Entry} {s s' : Standing} {outcome : Outcome} {ending : Ending} :
      Moves s₀ history s → (outcome ≠ .resumed → s.pausedReason = none) →
      (ending ≠ .abandoned ∧ s' = s.after outcome ∨ ending ≠ .committed ∧ s' = s) →
      Moves s₀ (history ++ [(outcome, ending)]) s'

def failures (history : List Entry) : List Time :=
  history.filterMap fun e =>
    match e.1 with
    | .failed now => some now
    | _ => none

/-- The failures of a history are in the order of time. -/
def Chronological (history : List Entry) : Prop := (failures history).Pairwise (· ≤ ·)

section Steps

variable {history : List Entry} {entry : Entry}

@[simp] theorem streak_snoc : streak (history ++ [entry]) = streakStep (streak history) entry.1 := by
  simp [streak]

@[simp] theorem opened_snoc : opened (history ++ [entry]) = openedStep (opened history) entry.1 := by
  simp [opened]

theorem failures_snoc_failed (now : Time) (ending : Ending) :
    failures (history ++ [(.failed now, ending)]) = failures history ++ [now] := by
  simp [failures]

theorem mem_failures_of_streak {t : Time} (h : t ∈ streak history) : t ∈ failures history := by
  induction history using List.reverseRecOn with
  | nil => cases h
  | append_singleton history entry ih =>
    obtain ⟨outcome, ending⟩ := entry
    have hpre : t ∈ streak history → t ∈ failures (history ++ [(outcome, ending)]) := fun h => by
      rw [failures, List.filterMap_append]
      exact List.mem_append_left _ (ih h)
    rw [streak_snoc] at h
    cases outcome with
    | failed now =>
      rw [failures_snoc_failed]
      rcases List.mem_cons.mp h with rfl | h
      · exact List.mem_append_right _ List.mem_cons_self
      · exact List.mem_append_left _ (ih h)
    | stored => cases h
    | renewed => cases h
    | resumed => cases h
    | mismatched => exact hpre h
    | refresh => exact hpre h

theorem Chronological.init (h : Chronological (history ++ [entry])) : Chronological history := by
  unfold Chronological failures at h ⊢
  rw [List.filterMap_append] at h
  exact (List.pairwise_append.mp h).1

theorem Chronological.le_last {now : Time} {ending : Ending}
    (h : Chronological (history ++ [(.failed now, ending)])) {t : Time}
    (ht : t ∈ streak history) : t ≤ now := by
  unfold Chronological at h
  rw [failures_snoc_failed] at h
  exact (List.pairwise_append.mp h).2.2 t (mem_failures_of_streak ht) now List.mem_cons_self

end Steps

theorem Orderly.last {history : List Entry} {entry : Entry} (h : Orderly (history ++ [entry])) :
    Orderly history ∧ Proper history entry := by
  generalize heq : history ++ [entry] = whole at h
  cases h with
  | nil => simp at heq
  | snoc h h' =>
    have hparts := List.append_inj' heq rfl
    rw [hparts.1, List.cons.inj hparts.2 |>.1]
    exact ⟨h, h'⟩

/-- The record counts the failures of the streak that lie in its window; those before the window are
an hour older than it. -/
structure Counts (streak : List Time) (opened : Option Time) (s : Standing) : Prop where
  window : s.authFailureWindowStartedAt = opened
  closed : opened = none → s.authFailureCount = 0 ∧ streak = []
  counted : ∀ started, opened = some started → streak = [] ∨
    ∃ recent older, streak = recent ++ older ∧ recent ≠ [] ∧ recent.length = s.authFailureCount ∧
      (∀ t ∈ recent, started ≤ t) ∧ ∀ t ∈ older, authFailureWindow ≤ started - t
  paused : s.pausedReason = some "authentication_required" ↔ due streak = true

namespace Counts

variable {streak : List Time} {opened : Option Time} {s : Standing} {now : Time}

theorem not_due (h : Counts streak opened s) (hp : s.pausedReason = none) : due streak = false := by
  rw [Bool.eq_false_iff]
  intro hd
  have := h.paused.mpr hd
  rw [hp] at this
  cases this

theorem fail_inside {started : Time} (h : Counts streak (some started) s)
    (hp : s.pausedReason = none) (hin : now - started < authFailureWindow) (hne : streak ≠ [])
    (hle : ∀ t ∈ streak, t ≤ now) : Counts (now :: streak) (some started) (s.fail now) := by
  obtain ⟨recent, older, rfl, hrecent, hlen, hstart, hold⟩ := (h.counted started rfl).resolve_left hne
  have hstarted : started ≤ now := by
    obtain ⟨x, rest, rfl⟩ := List.exists_cons_of_ne_nil hrecent
    exact le_trans (hstart x List.mem_cons_self)
      (hle x (List.mem_append_left _ List.mem_cons_self))
  have hnotin : ¬ authFailureWindow ≤ now - started := not_le.mpr hin
  have hdue : due (now :: (recent ++ older)) = decide (3 ≤ s.authFailureCount + 1) := by
    match recent, hrecent, hlen, hstart with
    | [x], _, hlen, _ =>
      have hcount : s.authFailureCount = 1 := hlen.symm
      rw [hcount]
      cases older with
      | nil => rfl
      | cons y rest =>
        have hy := hold y List.mem_cons_self
        have hnot : ¬ now - y < authFailureWindow :=
          not_lt.mpr (le_trans hy (sub_le_sub_right hstarted y))
        simp [due, hnot]
    | x :: y :: rest, _, hlen, hstart =>
      have hy := hstart y (List.mem_cons_of_mem _ List.mem_cons_self)
      have hlt : now - y < authFailureWindow := lt_of_le_of_lt (sub_le_sub_left hy now) hin
      have hcount : 3 ≤ s.authFailureCount + 1 := by
        rw [← hlen]
        simp
      simp [due, hlt, hcount]
  have hstand : s.fail now =
      if 3 ≤ s.authFailureCount + 1 then
        { s with authFailureCount := s.authFailureCount + 1,
                 pausedReason := some "authentication_required" }
      else { s with authFailureCount := s.authFailureCount + 1 } := by
    simp [Standing.fail, h.window, hnotin]
  have hcounted : ∀ s' : Standing, s'.authFailureCount = s.authFailureCount + 1 →
      ∃ recent' older', now :: (recent ++ older) = recent' ++ older' ∧ recent' ≠ [] ∧
        recent'.length = s'.authFailureCount ∧ (∀ t ∈ recent', started ≤ t) ∧
        ∀ t ∈ older', authFailureWindow ≤ started - t := by
    intro s' hcount
    refine ⟨now :: recent, older, rfl, List.cons_ne_nil _ _, by simp [hlen, hcount], ?_, hold⟩
    intro t ht
    rcases List.mem_cons.mp ht with rfl | ht
    · exact hstarted
    · exact hstart t ht
  rw [hstand]
  split
  · rename_i hthree
    refine ⟨h.window, nofun, ?_, by simp [hdue, hthree]⟩
    rintro _ ⟨⟩
    exact .inr (hcounted _ rfl)
  · rename_i htwo
    refine ⟨h.window, nofun, ?_, by simp [hdue, htwo, hp]⟩
    rintro _ ⟨⟩
    exact .inr (hcounted _ rfl)

/-- A failure that opens a new window: what it leaves behind is an hour old. -/
theorem fail_outside (h : Counts streak opened s) (hp : s.pausedReason = none)
    (hopened : ∀ started, opened = some started → authFailureWindow ≤ now - started)
    (hold : ∀ t ∈ streak, authFailureWindow ≤ now - t) :
    Counts (now :: streak) (some now) (s.fail now) := by
  have hstand : s.fail now =
      { s with authFailureWindowStartedAt := some now, authFailureCount := 1 } := by
    cases ho : opened with
    | none => simp [Standing.fail, h.window, ho]
    | some started => simp [Standing.fail, h.window, ho, hopened started ho]
  have hdue : due (now :: streak) = false := by
    match streak, hold with
    | [], _ => rfl
    | [x], _ => rfl
    | x :: y :: rest, hold =>
      have hy := hold y (List.mem_cons_of_mem _ List.mem_cons_self)
      have : ¬ now - y < authFailureWindow := not_lt.mpr hy
      simp [due, this]
  rw [hstand]
  refine ⟨rfl, nofun, ?_, by simp [hdue, hp]⟩
  rintro _ ⟨⟩
  refine .inr ⟨[now], streak, rfl, by simp, rfl, ?_, hold⟩
  intro t ht
  rw [List.mem_singleton.mp ht]

theorem fail (h : Counts streak opened s) (hp : s.pausedReason = none)
    (hproper : ∀ started, opened = some started →
      if now - started < authFailureWindow then streak ≠ []
      else ∀ failure ∈ streak, authFailureWindow ≤ now - failure)
    (hle : ∀ t ∈ streak, t ≤ now) :
    Counts (now :: streak) (openedStep opened (.failed now)) (s.fail now) := by
  cases hopened : opened with
  | none =>
    subst hopened
    have hnil := (h.closed rfl).2
    exact h.fail_outside hp nofun (by simp [hnil])
  | some started =>
    subst hopened
    have hthis := hproper started rfl
    simp only [openedStep]
    by_cases hin : now - started < authFailureWindow
    · rw [if_pos hin] at hthis
      rw [if_neg (not_le.mpr hin)]
      exact h.fail_inside hp hin hthis hle
    · rw [if_neg hin] at hthis
      have hout : authFailureWindow ≤ now - started := not_lt.mp hin
      rw [if_pos hout]
      refine h.fail_outside hp ?_ hthis
      rintro _ ⟨⟩
      exact hout

/-- The streak ends while the account is open, and the window stays. -/
theorem forget {s' : Standing} (h : Counts streak opened s)
    (hw : s'.authFailureWindowStartedAt = s.authFailureWindowStartedAt)
    (hc : s'.authFailureCount = s.authFailureCount) (hp : s'.pausedReason = none) :
    Counts [] opened s' where
  window := hw.trans h.window
  closed ho := ⟨hc.trans (h.closed ho).1, rfl⟩
  counted _ _ := .inl rfl
  paused := by simp [hp, due]

theorem pauseElsewhere {s' : Standing} (h : Counts streak opened s) (hp : s.pausedReason = none)
    (hw : s'.authFailureWindowStartedAt = s.authFailureWindowStartedAt)
    (hc : s'.authFailureCount = s.authFailureCount)
    (hr : s'.pausedReason ≠ some "authentication_required") : Counts streak opened s' where
  window := hw.trans h.window
  closed ho := ⟨hc.trans (h.closed ho).1, (h.closed ho).2⟩
  counted started ho := by rw [hc]; exact h.counted started ho
  paused := by simp [hr, h.not_due hp]

end Counts

theorem counts_of_moves {s₀ s : Standing} {history : List Entry} (hcount : s₀.authFailureCount = 0)
    (hwindow : s₀.authFailureWindowStartedAt = none) (hopen : s₀.pausedReason = none)
    (hm : Moves s₀ history s) (ho : Orderly history) (hc : Chronological history) :
    Counts (streak history) (opened history) s := by
  induction hm with
  | nil => exact ⟨hwindow, fun _ => ⟨hcount, rfl⟩, nofun, by simp [hopen, streak, due]⟩
  | @snoc history s s' outcome ending hm hp hmove ih =>
    obtain ⟨ho', hproper⟩ := ho.last
    have ih := ih ho' hc.init
    rw [streak_snoc, opened_snoc]
    cases outcome with
    | failed now =>
      obtain ⟨rfl, hproper⟩ := hproper
      obtain rfl : s' = s.after (.failed now) := by simpa using hmove
      exact ih.fail (hp nofun) hproper fun t ht => hc.le_last ht
    | stored =>
      obtain rfl : s' = s := by
        rcases hmove with ⟨-, rfl⟩ | ⟨-, rfl⟩ <;> rfl
      exact ih.forget rfl rfl (hp nofun)
    | renewed =>
      rcases hproper with rfl | hclosed
      · obtain rfl : s' = s.after .renewed := by simpa using hmove
        exact ⟨rfl, fun _ => ⟨rfl, rfl⟩, nofun, by
          have := hp nofun
          simp [streakStep, due, Standing.after, this]⟩
      · have hzero := ih.closed hclosed
        have hnone := ih.window.trans hclosed
        have hsame : s'.authFailureCount = 0 ∧ s'.authFailureWindowStartedAt = none ∧
            s'.pausedReason = none := by
          rcases hmove with ⟨-, rfl⟩ | ⟨-, rfl⟩
          · exact ⟨rfl, rfl, hp nofun⟩
          · exact ⟨hzero.1, hnone, hp nofun⟩
        exact ⟨hsame.2.1, fun _ => ⟨hsame.1, rfl⟩, nofun, by simp [streakStep, due, hsame.2.2]⟩
    | resumed =>
      obtain rfl : ending = .committed := hproper
      obtain rfl : s' = s.after .resumed := by simpa using hmove
      exact ih.forget rfl rfl rfl
    | mismatched =>
      rcases hmove with ⟨-, rfl⟩ | ⟨-, rfl⟩
      · exact ih.pauseElsewhere (hp nofun) rfl rfl (by simp [Standing.after])
      · exact ih.pauseElsewhere (hp nofun) rfl rfl (by simp [hp])
    | refresh =>
      rcases hmove with ⟨-, rfl⟩ | ⟨-, rfl⟩
      · exact ih.pauseElsewhere (hp nofun) rfl rfl (by simp [Standing.after])
      · exact ih.pauseElsewhere (hp nofun) rfl rfl (by simp [hp])

end PlaceGame
