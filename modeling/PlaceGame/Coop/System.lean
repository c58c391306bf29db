import Mathlib.Logic.Function.Basic
import Mathlib.Logic.Relation
import PlaceGame.Coop.Monitor

/-!
# Coop.System

Any number of programs over one shared world.

A `Machine` says what a call runs, how the world answers an await of a given task, what the world
keeps of a task that dies, and how the world moves by itself. A step of the system starts a call,
finishes one await of one task, kills a task between two of its awaits, or moves the world, so
`Reachable` covers every interleaving of every set of calls.

* `Reachable.invariant`: a property of the start that every step preserves holds always.
* `Reachable.follows`: what `Proc.wp` proves about the tree of a call holds of each of its tasks, at
  every point of every run.
* `Reachable.amid`, `Reachable.alone`: what one call keeps while the others do only so much.
* `Path`: the awaits of one program that nothing else interrupts.
-/

namespace Coop

abbrev TaskId := Nat

structure Machine (S : Sig) (W : Type) where
  Call : Type
  Res : Type
  prog : Call → Proc S Res
  /-- The world finishes an await of the task with this answer. -/
  perform : TaskId → W → (o : S.Op) → S.Ans o → W → Prop
  /-- What is left of the world when the task dies. -/
  crash : TaskId → W → W
  /-- The world moves on its own. -/
  env : W → W → Prop

variable {S : Sig} {W : Type}

/-- A started call: what it has awaited so far (newest first) and what is left of it. -/
structure Task (K : Machine S W) where
  call : K.Call
  hist : List (Event S) := []
  prog : Proc S K.Res
  alive : Bool := true

structure Config (K : Machine S W) where
  world : W
  task : TaskId → Option (Task K)

variable {K : Machine S W}

namespace Config

def start (w : W) : Config K := ⟨w, fun _ => none⟩

def setTask (c : Config K) (t : TaskId) (T : Task K) : Config K :=
  { c with task := Function.update c.task t (some T) }

@[simp] theorem setTask_world (c : Config K) (t : TaskId) (T : Task K) :
    (c.setTask t T).world = c.world := rfl

@[simp] theorem setTask_self (c : Config K) (t : TaskId) (T : Task K) :
    (c.setTask t T).task t = some T := by simp [setTask]

theorem setTask_ne (c : Config K) {t u : TaskId} (T : Task K) (h : u ≠ t) :
    (c.setTask t T).task u = c.task u := by simp [setTask, h]

theorem setTask_task (c : Config K) (t u : TaskId) (T : Task K) :
    (c.setTask t T).task u = if u = t then some T else c.task u := by
  by_cases h : u = t
  · subst h; simp
  · rw [setTask_ne c T h, if_neg h]

end Config

def Task.pending (T : Task K) : Option S.Op :=
  match T.prog with
  | .ret _ => none
  | .call o _ => some o

def Task.Ended (T : Task K) : Prop := T.alive = false ∨ T.pending = none

theorem Task.pending_eq {T : Task K} {o : S.Op} (h : T.pending = some o) :
    ∃ k, T.prog = .call o k := by
  unfold pending at h
  split at h
  · cases h
  · rename_i o' k hp
    cases h
    exact ⟨k, hp⟩

def Config.awaits (c : Config K) (t : TaskId) : Option S.Op :=
  (c.task t).bind fun T => if T.alive then T.pending else none

theorem Config.awaits_eq {c : Config K} {t : TaskId} {o : S.Op} (h : c.awaits t = some o) :
    ∃ T, c.task t = some T ∧ T.alive = true ∧ T.pending = some o := by
  obtain ⟨T, hT, h⟩ := Option.bind_eq_some_iff.mp h
  split at h
  · rename_i ha
    exact ⟨T, hT, ha, h⟩
  · cases h

def Task.advance (T : Task K) (o : S.Op) (r : S.Ans o) (p : Proc S K.Res) : Task K :=
  { T with hist := ⟨o, r⟩ :: T.hist, prog := p }

inductive Step : Config K → Config K → Prop where
  | spawn {c : Config K} (t : TaskId) (call : K.Call) (h : c.task t = none) :
      Step c (c.setTask t { call := call, prog := K.prog call })
  | exec {c : Config K} (t : TaskId) {T : Task K} {o : S.Op} {k : S.Ans o → Proc S K.Res}
      (r : S.Ans o) {w' : W} (h : c.task t = some T) (ha : T.alive = true)
      (hp : T.prog = .call o k) (hw : K.perform t c.world o r w') :
      Step c ({ c with world := w' }.setTask t (T.advance o r (k r)))
  | crash {c : Config K} (t : TaskId) {T : Task K} (h : c.task t = some T)
      (ha : T.alive = true) :
      Step c ({ c with world := K.crash t c.world }.setTask t { T with alive := false })
  | env {c : Config K} {w' : W} (h : K.env c.world w') : Step c { c with world := w' }

/-- Where a task of the target of a step comes from. -/
theorem Step.task_cases {c c' : Config K} (hst : Step c c') {t : TaskId} {T' : Task K}
    (hT' : c'.task t = some T') :
    (c.task t = none ∧ T' = { call := T'.call, prog := K.prog T'.call }) ∨
    ∃ T, c.task t = some T ∧ T'.call = T.call ∧
      ((T'.hist = T.hist ∧ T'.prog = T.prog ∧ (T'.alive = true → T.alive = true)) ∨
      ∃ o k r, T.alive = true ∧ T.prog = .call o k ∧ K.perform t c.world o r c'.world ∧
        T' = T.advance o r (k r)) := by
  cases hst with
  | spawn u call hu =>
    rw [Config.setTask_task] at hT'
    split at hT'
    · rename_i htu
      cases hT'
      exact .inl ⟨htu ▸ hu, rfl⟩
    · exact .inr ⟨T', hT', rfl, .inl ⟨rfl, rfl, id⟩⟩
  | @exec u U o k r w' hu ha hp hw =>
    rw [Config.setTask_task] at hT'
    split at hT'
    · rename_i htu
      cases hT'
      subst htu
      exact .inr ⟨U, hu, rfl, .inr ⟨o, k, r, ha, hp, hw, rfl⟩⟩
    · exact .inr ⟨T', hT', rfl, .inl ⟨rfl, rfl, id⟩⟩
  | @crash u U hu ha =>
    rw [Config.setTask_task] at hT'
    split at hT'
    · rename_i htu
      cases hT'
      exact .inr ⟨U, htu ▸ hu, rfl, .inl ⟨rfl, rfl, fun h => by cases h⟩⟩
    · exact .inr ⟨T', hT', rfl, .inl ⟨rfl, rfl, id⟩⟩
  | env _ => exact .inr ⟨T', hT', rfl, .inl ⟨rfl, rfl, id⟩⟩

/-- The newest event of a history is the await that the step finished. -/
theorem Step.finished {c c' : Config K} (hst : Step c c') {t : TaskId} {T T' : Task K} {o : S.Op}
    {r : S.Ans o} (hT : c.task t = some T) (hT' : c'.task t = some T')
    (hhist : T'.hist = ⟨o, r⟩ :: T.hist) :
    ∃ k, T.alive = true ∧ T.prog = .call o k ∧ K.perform t c.world o r c'.world := by
  rcases hst.task_cases hT' with ⟨hnone, -⟩ | ⟨U, hU, -, ⟨hsame, -⟩ | ⟨o', k, r', ha, hp, hw, rfl⟩⟩
  · rw [hT] at hnone
    cases hnone
  · rw [hT] at hU
    cases hU
    rw [hsame] at hhist
    exact absurd hhist.symm (List.cons_ne_self _ _)
  · rw [hT] at hU
    cases hU
    obtain ⟨he, -⟩ := List.cons.inj hhist
    cases he
    exact ⟨k, ha, hp, hw⟩

theorem Step.others {c c' : Config K} (hst : Step c c') {t : TaskId} {T T' : Task K}
    (hT : c.task t = some T) (hT' : c'.task t = some T') (hhist : T'.hist ≠ T.hist) :
    ∀ u, u ≠ t → c'.task u = c.task u := by
  cases hst with
  | spawn v call hv =>
    have hne : t ≠ v := by
      rintro rfl
      rw [hT] at hv
      cases hv
    rw [Config.setTask_ne _ _ hne, hT] at hT'
    cases hT'
    exact absurd rfl hhist
  | @exec v V o k r w' hv ha hp hw =>
    by_cases hne : t = v
    · subst hne
      exact fun u hu => Config.setTask_ne _ _ hu
    · rw [Config.setTask_ne _ _ hne] at hT'
      cases hT.symm.trans hT'
      exact absurd rfl hhist
  | @crash v V hv ha =>
    by_cases hne : t = v
    · subst hne
      exact fun u hu => Config.setTask_ne _ _ hu
    · rw [Config.setTask_ne _ _ hne] at hT'
      cases hT.symm.trans hT'
      exact absurd rfl hhist
  | env _ => exact fun _ _ => rfl

/-- A step keeps every task and what it has done. -/
theorem Step.keeps {c c' : Config K} (hst : Step c c') {t : TaskId} {T : Task K}
    (hT : c.task t = some T) :
    ∃ T', c'.task t = some T' ∧ T'.call = T.call ∧ T.hist ⊆ T'.hist := by
  cases hst with
  | spawn u call hu =>
    refine ⟨T, ?_, rfl, fun _ h => h⟩
    rw [Config.setTask_ne _ _ fun h => by rw [h, hu] at hT; cases hT]
    exact hT
  | @exec u U o k r w' hu ha hp hw =>
    by_cases htu : t = u
    · subst htu
      rw [hT] at hu
      cases hu
      exact ⟨_, Config.setTask_self .., rfl, fun _ h => List.mem_cons_of_mem _ h⟩
    · refine ⟨T, ?_, rfl, fun _ h => h⟩
      rw [Config.setTask_ne _ _ htu]
      exact hT
  | @crash u U hu ha =>
    by_cases htu : t = u
    · subst htu
      rw [hT] at hu
      cases hu
      exact ⟨_, Config.setTask_self .., rfl, fun _ h => h⟩
    · refine ⟨T, ?_, rfl, fun _ h => h⟩
      rw [Config.setTask_ne _ _ htu]
      exact hT
  | env _ => exact ⟨T, hT, rfl, fun _ h => h⟩

theorem Step.world_cases {c c' : Config K} (hst : Step c c') :
    c'.world = c.world ∨ K.env c.world c'.world ∨ (∃ t, c'.world = K.crash t c.world) ∨
    ∃ t T o k r, c.task t = some T ∧ T.alive = true ∧ T.prog = .call o k ∧
      K.perform t c.world o r c'.world ∧ c'.task t = some (T.advance o r (k r)) := by
  cases hst with
  | spawn u call hu => exact .inl rfl
  | @exec u U o k r w' hu ha hp hw =>
    exact .inr (.inr (.inr ⟨u, U, o, k, r, hu, ha, hp, hw, Config.setTask_self ..⟩))
  | @crash u U hu ha => exact .inr (.inr (.inl ⟨u, rfl⟩))
  | env h => exact .inr (.inl h)

abbrev Reachable (c₀ c : Config K) : Prop := Relation.ReflTransGen Step c₀ c

/-- A step of the world or of one task, while the others wait. -/
def Alone (t : TaskId) (c c' : Config K) : Prop := Step c c' ∧ ∀ u, u ≠ t → c'.task u = c.task u

theorem Alone.reachable {t : TaskId} {c c' : Config K}
    (h : Relation.ReflTransGen (Alone t) c c') : Reachable c c' :=
  Relation.ReflTransGen.mono (fun _ _ hs => hs.1) _ _ h

theorem Alone.cases {t : TaskId} {c c' : Config K} (h : Alone t c c') {T : Task K}
    (hT : c.task t = some T) :
    (∃ w', K.env c.world w' ∧ c' = { c with world := w' }) ∨
    (∃ o k r w', T.alive = true ∧ T.prog = .call o k ∧ K.perform t c.world o r w' ∧
      c' = { c with world := w' }.setTask t (T.advance o r (k r))) ∨
    T.alive = true ∧
      c' = { c with world := K.crash t c.world }.setTask t { T with alive := false } := by
  obtain ⟨hst, hsame⟩ := h
  cases hst with
  | spawn u call hu =>
    by_cases htu : u = t
    · rw [htu, hT] at hu
      cases hu
    · have := hsame u htu
      rw [Config.setTask_self, hu] at this
      cases this
  | @exec u U o k r w' hu ha hp hw =>
    by_cases htu : u = t
    · subst htu
      rw [hT] at hu
      cases hu
      exact .inr (.inl ⟨o, k, r, w', ha, hp, hw, rfl⟩)
    · have := hsame u htu
      rw [Config.setTask_self, hu] at this
      have hhist := congrArg Task.hist (Option.some.inj this)
      exact absurd hhist (List.cons_ne_self _ _)
  | @crash u U hu ha =>
    by_cases htu : u = t
    · subst htu
      rw [hT] at hu
      cases hu
      exact .inr (.inr ⟨ha, rfl⟩)
    · have := hsame u htu
      rw [Config.setTask_self, hu] at this
      have halive := congrArg Task.alive (Option.some.inj this)
      rw [ha] at halive
      cases halive
  | env hw => exact .inl ⟨_, hw, rfl⟩

/-- A step of one task, or one in which the world moves within `R`. -/
def Amid (t : TaskId) (R : W → W → Prop) (c c' : Config K) : Prop :=
  Step c c' ∧ (c'.task t = c.task t → R c.world c'.world)

theorem Amid.reachable {t : TaskId} {R : W → W → Prop} {c c' : Config K}
    (h : Relation.ReflTransGen (Amid t R) c c') : Reachable c c' :=
  Relation.ReflTransGen.mono (fun _ _ hs => hs.1) _ _ h

theorem Amid.cases {t : TaskId} {R : W → W → Prop} {c c' : Config K} (h : Amid t R c c')
    {T : Task K} (hT : c.task t = some T) :
    R c.world c'.world ∧ c'.task t = some T ∨
    (∃ o k r w', T.alive = true ∧ T.prog = .call o k ∧ K.perform t c.world o r w' ∧
      c' = { c with world := w' }.setTask t (T.advance o r (k r))) ∨
    T.alive = true ∧
      c' = { c with world := K.crash t c.world }.setTask t { T with alive := false } := by
  obtain ⟨hst, hothers⟩ := h
  cases hst with
  | spawn u call hu =>
    have hne : t ≠ u := by
      rintro rfl
      rw [hT] at hu
      cases hu
    have hsame : (c.setTask u { call := call, prog := K.prog call }).task t = c.task t :=
      Config.setTask_ne _ _ hne
    exact .inl ⟨hothers hsame, hsame.trans hT⟩
  | @exec u U o k r w' hu ha hp hw =>
    by_cases hne : t = u
    · subst hne
      rw [hT] at hu
      cases hu
      exact .inr (.inl ⟨o, k, r, w', ha, hp, hw, rfl⟩)
    · have hsame : ({ c with world := w' }.setTask u (U.advance o r (k r))).task t = c.task t :=
        Config.setTask_ne _ _ hne
      exact .inl ⟨hothers hsame, hsame.trans hT⟩
  | @crash u U hu ha =>
    by_cases hne : t = u
    · subst hne
      rw [hT] at hu
      cases hu
      exact .inr (.inr ⟨ha, rfl⟩)
    · have hsame : ({ c with world := K.crash u c.world }.setTask u
          { U with alive := false }).task t = c.task t := Config.setTask_ne _ _ hne
      exact .inl ⟨hothers hsame, hsame.trans hT⟩
  | env hw => exact .inl ⟨hothers rfl, hT⟩

/-- While one task runs alone, only the world itself moves besides it. -/
theorem Alone.amid {t : TaskId} {c c' : Config K} {T : Task K} (hT : c.task t = some T)
    (h : Relation.ReflTransGen (Alone t) c c') : Relation.ReflTransGen (Amid t K.env) c c' := by
  have hstays : ∃ T', c'.task t = some T' ∧ Relation.ReflTransGen (Amid t K.env) c c' := by
    induction h with
    | refl => exact ⟨T, hT, .refl⟩
    | @tail c₁ c₂ _ hst ih =>
      obtain ⟨T₁, hT₁, hrun⟩ := ih
      rcases hst.cases hT₁ with ⟨w', hw, rfl⟩ | ⟨o, k, r, w', ha, hp, hw, rfl⟩ | ⟨ha, rfl⟩
      · exact ⟨T₁, hT₁, hrun.tail ⟨hst.1, fun _ => hw⟩⟩
      · refine ⟨_, Config.setTask_self .., hrun.tail ⟨hst.1, fun hsame => ?_⟩⟩
        rw [Config.setTask_self, hT₁] at hsame
        exact absurd (congrArg Task.hist (Option.some.inj hsame)) (List.cons_ne_self _ _)
      · refine ⟨_, Config.setTask_self .., hrun.tail ⟨hst.1, fun hsame => ?_⟩⟩
        rw [Config.setTask_self, hT₁] at hsame
        have halive := congrArg Task.alive (Option.some.inj hsame)
        rw [ha] at halive
        cases halive
  obtain ⟨-, -, hrun⟩ := hstays
  exact hrun

namespace Reachable

/-- One induction for every invariant: it holds at the start and each step preserves it. The step
may use that its source is reachable. -/
theorem invariant {c₀ c : Config K} (h : Reachable c₀ c) (I : Config K → Prop) (h₀ : I c₀)
    (hs : ∀ c c', Reachable c₀ c → I c → Step c c' → I c') : I c := by
  induction h with
  | refl => exact h₀
  | tail hr hst ih => exact hs _ _ hr ih hst

variable {μ : Type}

/-- The monitors that watch the calls of the machine accept them. -/
structure Watched (K : Machine S W) (M : K.Call → Monitor S μ)
    (post : K.Call → μ → K.Res → Prop) : Prop where
  prog : ∀ call, (K.prog call).wp (M call) (post call) (M call).init
  ans : ∀ call t w o r w', K.perform t w o r w' → ∀ m, (M call).ans m o r

/-- What a monitor knows about a task. -/
structure Follows (M : K.Call → Monitor S μ) (post : K.Call → μ → K.Res → Prop)
    (T : Task K) : Prop where
  wp : T.prog.wp (M T.call) (post T.call) ((M T.call).after T.hist)
  valid : (M T.call).Valid T.hist

theorem Follows.allowed {M : K.Call → Monitor S μ}
    {post : K.Call → μ → K.Res → Prop} {T : Task K} (h : Follows M post T)
    {o : S.Op} {k : S.Ans o → Proc S K.Res} (hp : T.prog = .call o k) :
    (M T.call).ok ((M T.call).after T.hist) o := by
  have := h.wp
  rw [hp] at this
  exact this.1

/-- Every task of every reachable configuration follows its monitor: the analysis of the trees
carries over to all interleavings. -/
theorem follows {M : K.Call → Monitor S μ} {post : K.Call → μ → K.Res → Prop}
    (hM : Watched K M post) {w : W} {c : Config K} (h : Reachable (.start w) c) :
    ∀ t T, c.task t = some T → Follows M post T := by
  refine h.invariant (fun c => ∀ t T, c.task t = some T → Follows M post T) ?_ ?_
  · intro t T hT
    cases hT
  · intro c c' _ ih hst t T hT
    cases hst with
    | spawn u call hu =>
      rw [Config.setTask_task] at hT
      split at hT
      · cases hT; exact ⟨hM.prog call, trivial⟩
      · exact ih t T hT
    | @exec u U o k r w' hu ha hp hw =>
      rw [Config.setTask_task] at hT
      split at hT
      · cases hT
        have hU := ih u U hu
        have hwp := hU.wp
        rw [hp] at hwp
        exact ⟨hwp.2 r (hM.ans _ _ _ _ _ _ hw _), hwp.1, hU.valid⟩
      · exact ih t T hT
    | @crash u U hu ha =>
      rw [Config.setTask_task] at hT
      split at hT
      · cases hT; exact ⟨(ih u U hu).wp, (ih u U hu).valid⟩
      · exact ih t T hT
    | env _ => exact ih t T hT

/-- A call among others that move the world within `R`: what its own awaits and `R` keep holds as
long as it runs. -/
theorem amid {M : K.Call → Monitor S μ} {post : K.Call → μ → K.Res → Prop} (hM : Watched K M post)
    {w : W} {c c' : Config K} {t : TaskId} {call : K.Call} {R : W → W → Prop}
    (h : Reachable (.start w) c) (ht : c.task t = none)
    (hrun : Relation.ReflTransGen (Amid t R)
      (c.setTask t { call := call, prog := K.prog call }) c')
    (I : μ → W → Prop) (h₀ : I (M call).init c.world)
    (hothers : ∀ m w w', I m w → R w w' → I m w') (hcrash : ∀ m w, I m w → I m (K.crash t w))
    (hexec : ∀ m w o r w', I m w → (M call).ok m o → K.perform t w o r w' →
      I ((M call).next m o r) w') :
    ∃ T, c'.task t = some T ∧ T.call = call ∧ Follows M post T ∧
      I ((M call).after T.hist) c'.world := by
  have hr : ∀ {c'}, Relation.ReflTransGen (Amid t R)
      (c.setTask t { call := call, prog := K.prog call }) c' → Reachable (.start w) c' :=
    fun hrun => (h.tail (.spawn t call ht)).trans (Amid.reachable hrun)
  have hkept : ∃ T, c'.task t = some T ∧ T.call = call ∧ I ((M call).after T.hist) c'.world := by
    induction hrun with
    | refl => exact ⟨_, Config.setTask_self .., rfl, h₀⟩
    | @tail c₁ c₂ hrun hst ih =>
      obtain ⟨T, hT, rfl, hI⟩ := ih
      rcases hst.cases hT with ⟨hw, hT'⟩ | ⟨o, k, r, w', ha, hp, hw, rfl⟩ | ⟨ha, rfl⟩
      · exact ⟨T, hT', rfl, hothers _ _ _ hI hw⟩
      · have hok := (follows hM (hr hrun) t T hT).allowed hp
        exact ⟨_, Config.setTask_self .., rfl, hexec _ _ _ _ _ hI hok hw⟩
      · exact ⟨_, Config.setTask_self .., rfl, hcrash _ _ hI⟩
  obtain ⟨T, hT, hcall, hI⟩ := hkept
  exact ⟨T, hT, hcall, follows hM (hr hrun) t T hT, hI⟩

/-- A call that runs alone: only the world itself moves besides it. -/
theorem alone {M : K.Call → Monitor S μ} {post : K.Call → μ → K.Res → Prop} (hM : Watched K M post)
    {w : W} {c c' : Config K} {t : TaskId} {call : K.Call} (h : Reachable (.start w) c)
    (ht : c.task t = none)
    (hrun : Relation.ReflTransGen (Alone t) (c.setTask t { call := call, prog := K.prog call }) c')
    (I : μ → W → Prop) (h₀ : I (M call).init c.world)
    (henv : ∀ m w w', I m w → K.env w w' → I m w') (hcrash : ∀ m w, I m w → I m (K.crash t w))
    (hexec : ∀ m w o r w', I m w → (M call).ok m o → K.perform t w o r w' →
      I ((M call).next m o r) w') :
    ∃ T, c'.task t = some T ∧ T.call = call ∧ Follows M post T ∧
      I ((M call).after T.hist) c'.world :=
  amid hM h ht (Alone.amid (Config.setTask_self ..) hrun) I h₀ henv hcrash hexec

end Reachable

/-- The awaits `h` (newest first) that take a program of task `t` from one world to another with
nothing else running in between. -/
inductive Path (K : Machine S W) (t : TaskId) {α : Type} :
    W → Proc S α → List (Event S) → W → Proc S α → Prop where
  | refl {w : W} {p : Proc S α} : Path K t w p [] w p
  | step {w w' w'' : W} {p : Proc S α} {h : List (Event S)} {o : S.Op}
      {k : S.Ans o → Proc S α} {r : S.Ans o} :
      Path K t w p h w' (.call o k) → K.perform t w' o r w'' →
      Path K t w p (⟨o, r⟩ :: h) w'' (k r)

end Coop
