import PlaceGame.Accounts.Watch

/-!
# PlaceGame.Accounts.Readings

What the monitor of account safety remembers is what the history says.

An attempt begins when the account row is locked; the readings of the policy, the plan, the clock and
the game that count are those made since then.
-/

namespace PlaceGame

open Coop

variable {T : Type}

/-- The events since the account row was locked last, newest first. -/
def sinceLock : List (Event (sig T)) → List (Event (sig T))
  | [] => []
  | ⟨.accountForUpdate _, .ok (some _)⟩ :: _ => []
  | e :: h => e :: sinceLock h

/-- Every reading is an event of the history. -/
structure Readings (m : Local) (h : List (Event (sig T))) : Prop where
  boots : ∀ api g, (api, g) ∈ m.boots → ⟨.bootstrap api, .ok g⟩ ∈ h
  policy : ∀ a v, m.policy = some (a, v) → ⟨.policyGet a, .ok v⟩ ∈ sinceLock h
  plan : ∀ p plan, m.plan = some (p, plan) → ⟨.getPlan p, .ok (some plan)⟩ ∈ sinceLock h
  now : ∀ now, m.now = some now → ⟨.clock, .ok now⟩ ∈ sinceLock h
  fingerprint : ∀ p fingerprint, m.fingerprint = some (p, fingerprint) →
    ∃ api, ⟨.stateFingerprint p api, .ok (some fingerprint)⟩ ∈ sinceLock h
  idle : ∀ a idle, m.idle = some (a, idle) → ∃ api, ⟨.idleSummary a api, .ok idle⟩ ∈ sinceLock h
  planRow : ∀ p plan now, m.planRow = some (p, plan, some now) →
    (∃ a, ⟨.planForUpdate p a, .ok (some plan)⟩ ∈ h) ∧ ⟨.clock, .ok now⟩ ∈ h
  committed : ∀ a r, (a, r) ∈ m.committed →
    ∃ ws : Writes, ws.account = some (a, r) ∧ ⟨.commit ws, .ok ()⟩ ∈ h

theorem mem_of_mem_sinceLock {e : Event (sig T)} {h : List (Event (sig T))}
    (he : e ∈ sinceLock h) : e ∈ h := by
  induction h with
  | nil => exact he
  | cons e' h ih =>
    unfold sinceLock at he
    split at he
    · cases he
    · cases he
    · rename_i heq
      cases heq
      rcases List.mem_cons.mp he with rfl | he
      · exact List.mem_cons_self
      · exact List.mem_cons_of_mem _ (ih he)

namespace Readings

variable {m m' : Local} {h : List (Event (sig T))} {e : Event (sig T)}

theorem mono (hr : Readings m h) (hs : sinceLock (e :: h) = e :: sinceLock h) :
    Readings m (e :: h) where
  boots api g hb := List.mem_cons_of_mem _ (hr.boots api g hb)
  policy a v hp := hs ▸ List.mem_cons_of_mem _ (hr.policy a v hp)
  plan p plan hp := hs ▸ List.mem_cons_of_mem _ (hr.plan p plan hp)
  now now hn := hs ▸ List.mem_cons_of_mem _ (hr.now now hn)
  fingerprint p fingerprint hf := by
    obtain ⟨api, hf⟩ := hr.fingerprint p fingerprint hf
    exact ⟨api, hs ▸ List.mem_cons_of_mem _ hf⟩
  idle a idle hi := by
    obtain ⟨api, hi⟩ := hr.idle a idle hi
    exact ⟨api, hs ▸ List.mem_cons_of_mem _ hi⟩
  planRow p plan now hp := by
    obtain ⟨⟨a, hp⟩, hn⟩ := hr.planRow p plan now hp
    exact ⟨⟨a, List.mem_cons_of_mem _ hp⟩, List.mem_cons_of_mem _ hn⟩
  committed a r hc := by
    obtain ⟨ws, hws, hc⟩ := hr.committed a r hc
    exact ⟨ws, hws, List.mem_cons_of_mem _ hc⟩

theorem closed (hr : Readings m h) : Readings m.closed h where
  boots := hr.boots
  policy := by simp [Local.closed]
  plan := by simp [Local.closed]
  now := hr.now
  fingerprint := by simp [Local.closed]
  idle := by simp [Local.closed]
  planRow := hr.planRow
  committed := hr.committed

theorem step (hr : Readings m h) (o : Op T) (r : Except Exc o.Val) :
    Readings (m.next o r) (⟨o, r⟩ :: h) := by
  cases r with
  | error e =>
    cases o with
    | commit ws => exact (hr.mono rfl).closed
    | rollback => exact (hr.mono rfl).closed
    | _ => exact hr.mono rfl
  | ok v =>
    cases o with
    | clock =>
      have hm := hr.mono (e := ⟨.clock, .ok v⟩) rfl
      refine ⟨hm.boots, hm.policy, hm.plan, ?_, hm.fingerprint, hm.idle, hm.planRow, hm.committed⟩
      rintro now ⟨⟩
      exact List.mem_cons_self
    | accountForUpdate a =>
      cases v with
      | none => exact hr.mono rfl
      | some row =>
        refine ⟨fun api g hb => List.mem_cons_of_mem _ (hr.boots api g hb), by simp [Local.next],
          by simp [Local.next], by simp [Local.next], by simp [Local.next], by simp [Local.next],
          ?_, ?_⟩
        · intro p plan now hp
          obtain ⟨⟨a, hp⟩, hn⟩ := hr.planRow p plan now hp
          exact ⟨⟨a, List.mem_cons_of_mem _ hp⟩, List.mem_cons_of_mem _ hn⟩
        · intro a r hc
          obtain ⟨ws, hws, hc⟩ := hr.committed a r hc
          exact ⟨ws, hws, List.mem_cons_of_mem _ hc⟩
    | flushIdentity a g =>
      have hm := hr.mono (e := ⟨.flushIdentity a g, .ok v⟩) rfl
      cases v with
      | true =>
        exact ⟨hm.boots, hm.policy, hm.plan, hm.now, hm.fingerprint, hm.idle, hm.planRow,
          hm.committed⟩
      | false => exact hm
    | policyGet a =>
      have hm := hr.mono (e := ⟨.policyGet a, .ok v⟩) rfl
      refine ⟨hm.boots, ?_, hm.plan, hm.now, hm.fingerprint, hm.idle, hm.planRow, hm.committed⟩
      rintro b v' ⟨⟩
      exact List.mem_cons_self
    | getPlan p =>
      have hm := hr.mono (e := ⟨.getPlan p, .ok v⟩) rfl
      cases v with
      | none => exact hm
      | some plan =>
        refine ⟨hm.boots, hm.policy, ?_, hm.now, hm.fingerprint, hm.idle, hm.planRow, hm.committed⟩
        rintro q plan' ⟨⟩
        exact List.mem_cons_self
    | planForUpdate p a =>
      have hm := hr.mono (e := ⟨.planForUpdate p a, .ok v⟩) rfl
      cases v with
      | none => exact hm
      | some plan =>
        refine ⟨hm.boots, hm.policy, hm.plan, hm.now, hm.fingerprint, hm.idle, ?_, hm.committed⟩
        intro q plan' now hq
        obtain ⟨rfl, hplan⟩ := Prod.mk.inj (Option.some.inj hq)
        obtain ⟨rfl, hnow⟩ := Prod.mk.inj hplan
        exact ⟨⟨a, List.mem_cons_self⟩,
          List.mem_cons_of_mem _ (mem_of_mem_sinceLock (hr.now now hnow))⟩
    | bootstrap api =>
      have hm := hr.mono (e := ⟨.bootstrap api, .ok v⟩) rfl
      refine ⟨?_, hm.policy, hm.plan, hm.now, hm.fingerprint, hm.idle, hm.planRow, hm.committed⟩
      intro api' g hb
      rcases List.mem_cons.mp hb with heq | hb
      · cases heq
        exact List.mem_cons_self
      · exact hm.boots api' g hb
    | idleSummary a api =>
      have hm := hr.mono (e := ⟨.idleSummary a api, .ok v⟩) rfl
      refine ⟨hm.boots, hm.policy, hm.plan, hm.now, hm.fingerprint, ?_, hm.planRow, hm.committed⟩
      rintro b idle ⟨⟩
      exact ⟨api, List.mem_cons_self⟩
    | stateFingerprint p api =>
      have hm := hr.mono (e := ⟨.stateFingerprint p api, .ok v⟩) rfl
      cases v with
      | none => exact hm
      | some fingerprint =>
        refine ⟨hm.boots, hm.policy, hm.plan, hm.now, ?_, hm.idle, hm.planRow, hm.committed⟩
        rintro q fingerprint' ⟨⟩
        exact ⟨api, List.mem_cons_self⟩
    | uuid =>
      have hm := hr.mono (e := ⟨.uuid, .ok v⟩) rfl
      exact ⟨hm.boots, hm.policy, hm.plan, hm.now, hm.fingerprint, hm.idle, hm.planRow,
        hm.committed⟩
    | commit ws =>
      have hm := (hr.mono (e := ⟨.commit ws, .ok v⟩) rfl).closed
      refine ⟨hm.boots, hm.policy, hm.plan, hm.now, hm.fingerprint, hm.idle, hm.planRow, ?_⟩
      intro a r hc
      rcases List.mem_append.mp hc with hc | hc
      · exact ⟨ws, Option.mem_toList.mp hc, List.mem_cons_self⟩
      · exact hm.committed a r hc
    | rollback => exact (hr.mono rfl).closed
    | _ => exact hr.mono rfl

end Readings

theorem readings (P : Ports) (call : Call) (h : List (Event (sig T))) :
    Readings ((watch T P call).after h) h := by
  induction h with
  | nil => constructor <;> simp [Coop.Monitor.after, watch]
  | cons e h ih => exact ih.step e.op e.ans

end PlaceGame
