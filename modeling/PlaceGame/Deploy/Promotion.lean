import Mathlib.Logic.Function.Basic
import PlaceGame.Deploy.Controller

/-!
# PlaceGame.Deploy.Promotion

What a deploy does on a host on which any effect can fail: `current.env` changes only when the deploy
returns, and a deploy that raises after it started the app starts the previous image again. A pattern
says, effect by effect, what fails and what the probes answer.
-/

namespace PlaceGame

open Coop Text

abbrev DeployEvent : Type := Event deploySig

/-- What befalls one effect; `residue` is what a write that fails leaves in its file. -/
structure Disturbance where
  failure : Option DeployError
  answer : Bool
  residue : Option (List UInt8)

/-- The files below the root, and the pattern with the number of its effects that are past. -/
structure Host where
  files : RelPath → Option (List UInt8)
  pattern : Nat → Disturbance
  step : Nat := 0

namespace Host

def fileNotFound : DeployError := .failed "FileNotFoundError"

variable (w : Host)

def answer (o : DeployOp) : deploySig.Ans o :=
  match (w.pattern w.step).failure with
  | some e => .error e
  | none =>
    match o with
    | .pathExists path => .ok (w.files path).isSome
    | .readBytes path =>
      match w.files path with
      | some bytes => .ok bytes
      | none => .error fileNotFound
    | .replace source _ => if (w.files source).isSome then .ok () else .error fileNotFound
    | .probe _ => .ok (w.pattern w.step).answer
    | .mkdir _ | .writeBytes _ _ | .run _ | .sleep => .ok ()

/-- The files after the next effect. A file is replaced at once or not at all. -/
def filesAfter (o : DeployOp) (r : deploySig.Ans o) : RelPath → Option (List UInt8) :=
  match o, r with
  | .writeBytes path bytes, .ok _ => Function.update w.files path (some bytes)
  | .writeBytes path _, .error _ => Function.update w.files path (w.pattern w.step).residue
  | .replace source target, .ok _ =>
    Function.update (Function.update w.files target (w.files source)) source none
  | _, _ => w.files

def perform : Handler deploySig Host := fun w o =>
  (w.answer o,
    { w with
      files := w.filesAfter o (w.answer o)
      step := w.step + 1 })

end Host

/-! ## Histories -/

/-- A command or a probe. -/
def DeployOp.isVisible : DeployOp → Bool
  | .run _ | .probe _ => true
  | _ => false

def visible (h : List DeployEvent) : List DeployEvent := h.filter fun e => e.op.isVisible

def ran (argv : List String) (r : Except DeployError Unit) : DeployEvent := ⟨.run argv, r⟩

def probed (url : String) (answer : Bool) : DeployEvent := ⟨.probe url, .ok answer⟩

def EndsWith (h : List DeployEvent) (e : DeployError) : Prop :=
  ∃ event rest, h = event :: rest ∧ event.ans = .error e

/-- Probing rounds, in none of which both probes answered true. -/
inductive FailedRounds : Nat → List DeployEvent → Prop
  | none : FailedRounds 0 []
  | round {n h live ready} (hbefore : FailedRounds n h) (hround : (live && ready) = false) :
    FailedRounds (n + 1) (probed readyUrl ready :: probed liveUrl live :: h)

/-- The command starts, stops or runs the app: it names the app and is not a pull. -/
def TouchesApp (event : DeployEvent) : Prop :=
  match event.op with
  | .run argv => "app" ∈ argv.drop 10 ∧ (argv.drop 10).head? ≠ some "pull"
  | _ => False

namespace Deployer

variable (deployer : Deployer)

def pullImages : List String := deployer.compose candidateEnv ["pull", "app", "migrate"]
def startDatabase : List String := deployer.compose candidateEnv ["up", "-d", "postgres"]

def migrate : List String :=
  deployer.compose candidateEnv ["--profile", "tools", "run", "--rm", "migrate"]

def startApp : List String := deployer.compose candidateEnv ["up", "-d", "--no-deps", "app"]
def stopApp : List String := deployer.compose candidateEnv ["stop", "app"]
def pullPrevious : List String := deployer.compose currentEnv ["pull", "app"]
def startPrevious : List String := deployer.compose currentEnv ["up", "-d", "--no-deps", "app"]

/-- The commands before the first probe, all of which succeeded. -/
def launched : List DeployEvent :=
  [ran deployer.startApp (.ok ()), ran deployer.migrate (.ok ()), ran deployer.startDatabase (.ok ()),
    ran deployer.pullImages (.ok ())]

/-- Why a deploy with this history raises this error. -/
inductive Cause (digest : String) (h : List DeployEvent) : DeployError → Prop
  | digest (hnone : h = []) (hinvalid : validateDigest digest = false) :
    Cause digest h (.valueError "invalid image digest")
  | state {bytes rest e} (hread : h = ⟨.readBytes currentEnv, .ok bytes⟩ :: rest)
    (hparse : parseBytes bytes = .error e) : Cause digest h e
  | effect {e} (hend : EndsWith h e) : Cause digest h e
  | unhealthy {rounds} (hrounds : FailedRounds deployer.healthAttempts.val rounds)
    (hvisible : visible h = rounds ++ deployer.launched) :
    Cause digest h (.runtimeError "health check failed")

end Deployer

/-! ## Rules -/

section Rules

variable {h h' : List DeployEvent} {e : DeployError} {w w' w'' w₀ : Host} {α : Type}

theorem EndsWith.append (hend : EndsWith h e) (older : List DeployEvent) : EndsWith (h ++ older) e := by
  obtain ⟨event, rest, rfl, hevent⟩ := hend
  exact ⟨event, rest ++ older, rfl, hevent⟩

@[simp] theorem visible_append : visible (h ++ h') = visible h ++ visible h' := List.filter_append ..

theorem not_touchesApp_of_visible {event : DeployEvent} (hquiet : visible h = []) (hmem : event ∈ h) :
    ¬ TouchesApp event := by
  have hinvisible := List.filter_eq_nil_iff.mp hquiet event hmem
  obtain ⟨o, r⟩ := event
  cases o <;> first | exact id | exact absurd rfl hinvisible

theorem FailedRounds.older {n : Nat} {live ready : Bool} (hrounds : FailedRounds n h)
    (hround : (live && ready) = false) :
    FailedRounds (n + 1) (h ++ [probed readyUrl ready, probed liveUrl live]) := by
  induction hrounds with
  | none => exact .round .none hround
  | round _ hlater ih => exact .round ih hlater

end Rules

namespace Deployer

/-! ## Parts -/

/-- What holds of a part of the controller: its history, the host it leaves and its outcome. -/
abbrev Does {α : Type} (c : Deploy α) (w : Host)
    (Q : List DeployEvent → Host → Except DeployError α → Prop) : Prop :=
  Coro.Does Host.perform c w () fun h w' r _ => Q h w' r

/-- What `current.env` holds is what `_read_current` returned. -/
def Reads (w : Host) (prior : Option String) : Prop :=
  (w.files currentEnv = none ∧ prior = none) ∨
    ∃ bytes image, w.files currentEnv = some bytes ∧ parseBytes bytes = .ok image ∧ prior = some image

/-- The history ends with a `current.env` that was refused. -/
def Refuses (h : List DeployEvent) (e : DeployError) : Prop :=
  ∃ bytes rest, h = ⟨.readBytes currentEnv, .ok bytes⟩ :: rest ∧ parseBytes bytes = .error e

variable {w : Host} {deployer : Deployer}

/-- One effect: it raises and ends the history, or it answers. -/
theorem does_perform {o : DeployOp} {Q : List DeployEvent → Host → Except DeployError o.Val → Prop}
    (herror : ∀ e, w.answer o = .error e → EndsWith [⟨o, .error e⟩] e →
      Q [⟨o, .error e⟩] { w with files := w.filesAfter o (.error e), step := w.step + 1 } (.error e))
    (hok : ∀ v, w.answer o = .ok v →
      Q [⟨o, .ok v⟩] { w with files := w.filesAfter o (.ok v), step := w.step + 1 } (.ok v)) :
    Does o.perform w Q := by
  refine Coro.does_await ?_
  cases hanswer : w.answer o with
  | error e =>
    rw [Host.perform, hanswer]
    exact herror e hanswer ⟨_, _, rfl, rfl⟩
  | ok v =>
    rw [Host.perform, hanswer]
    exact hok v hanswer

theorem readBytes_ok {path : RelPath} {bytes : List UInt8} (h : w.answer (.readBytes path) = .ok bytes) :
    w.files path = some bytes := by
  unfold Host.answer at h
  split at h
  · cases h
  · simp only at h
    split at h
    · cases h
      assumption
    · cases h

theorem pathExists_ok {path : RelPath} {found : Bool} (h : w.answer (.pathExists path) = .ok found) :
    found = (w.files path).isSome := by
  unfold Host.answer at h
  split at h
  · cases h
  · cases h
    rfl

theorem does_readCurrent : Does readCurrent w fun h w' r =>
    visible h = [] ∧ w'.files = w.files ∧
      match r with
      | .ok prior => Reads w prior
      | .error e => EndsWith h e ∨ Refuses h e := by
  unfold readCurrent
  refine Coro.does_bind (does_perform (Q := fun h w' r => visible h = [] ∧ w'.files = w.files ∧
    match r with
    | .ok found => found = (w.files currentEnv).isSome
    | .error e => EndsWith h e) ?_ ?_) ?_ ?_
  · exact fun e _ hend => ⟨rfl, rfl, hend⟩
  · exact fun found hfound => ⟨rfl, rfl, pathExists_ok hfound⟩
  · rintro h w' found ⟨⟩ ⟨hquiet, hfiles, hfound⟩
    cases found with
    | false => exact ⟨hquiet, hfiles, .inl ⟨Option.isSome_eq_false_iff.mp hfound.symm |>
        Option.isNone_iff_eq_none.mp, rfl⟩⟩
    | true =>
      refine Coro.does_bind (does_perform (Q := fun h w'' r => visible h = [] ∧ w''.files = w.files ∧
        match r with
        | .ok bytes => h = [⟨.readBytes currentEnv, .ok bytes⟩] ∧ w.files currentEnv = some bytes
        | .error e => EndsWith h e) ?_ ?_) ?_ ?_
      · exact fun e _ hend => ⟨rfl, hfiles, hend⟩
      · exact fun bytes hbytes => ⟨rfl, hfiles, rfl, hfiles ▸ readBytes_ok hbytes⟩
      · rintro later w'' bytes ⟨⟩ ⟨hlater, hfiles, rfl, hbytes⟩
        cases hparse : parseBytes bytes with
        | ok image =>
          refine Coro.does_pure ⟨?_, hfiles, .inr ⟨bytes, image, hbytes, hparse, rfl⟩⟩
          exact visible_append.trans (by rw [hquiet]; rfl)
        | error e =>
          refine Coro.does_raise ⟨?_, hfiles, .inr ⟨bytes, h, rfl, hparse⟩⟩
          exact visible_append.trans (by rw [hquiet]; rfl)
      · rintro later w'' e ⟨⟩ ⟨hlater, hfiles, hend⟩
        refine ⟨?_, hfiles, .inl (hend.append h)⟩
        rw [visible_append, hlater, hquiet]
        rfl
  · rintro h w' e ⟨⟩ ⟨hquiet, hfiles, hend⟩
    exact ⟨hquiet, hfiles, .inl hend⟩

/-- The part returns with `Q`, or its last effect raised the error. -/
def Ends {α : Type} (Q : Host → α → Prop) (h : List DeployEvent) (w' : Host) :
    Except DeployError α → Prop
  | .ok a => Q w' a
  | .error e => EndsWith h e

/-- The part shows no command and no probe, keeps these files, and ends with `Q`. -/
def Quiet {α : Type} (kept : RelPath → Prop) (Q : Host → α → Prop) (w : Host) (h : List DeployEvent)
    (w' : Host) (r : Except DeployError α) : Prop :=
  visible h = [] ∧ (∀ p, kept p → w'.files p = w.files p) ∧ Ends Q h w' r

theorem does_quiet_bind {α β : Type} {c : Deploy β} {f : β → Deploy α} {kept : RelPath → Prop}
    {R : Host → β → Prop} {Q : Host → α → Prop} (hc : Does c w (Quiet kept R w))
    (hf : ∀ w' b, R w' b → Does (f b) w' (Quiet kept Q w')) : Does (c >>= f) w (Quiet kept Q w) := by
  refine Coro.does_bind hc ?_ ?_
  · rintro h w' b ⟨⟩ ⟨hquiet, hkept, hR⟩
    refine (hf w' b hR).mono ?_
    rintro later w'' r ⟨⟩ ⟨hlater, hkept', hr⟩
    refine ⟨?_, fun p hp => (hkept' p hp).trans (hkept p hp), ?_⟩
    · rw [visible_append, hlater, hquiet]
      rfl
    · cases r with
      | ok a => exact hr
      | error e => exact hr.append h
  · exact fun h w' e _ hR => hR

theorem does_quiet_perform {o : DeployOp} {kept : RelPath → Prop} {Q : Host → o.Val → Prop}
    (hvisible : o.isVisible = false)
    (hkept : ∀ r p, kept p → w.filesAfter o r p = w.files p)
    (hok : ∀ v, w.answer o = .ok v →
      Q { w with files := w.filesAfter o (.ok v), step := w.step + 1 } v) :
    Does o.perform w (Quiet kept Q w) := by
  have hquiet : ∀ r, visible [⟨o, r⟩] = [] := fun r => List.filter_eq_nil_iff.mpr fun e he => by
    rw [List.mem_singleton.mp he, hvisible]
    exact Bool.false_ne_true
  exact does_perform (fun e _ hend => ⟨hquiet _, hkept _, hend⟩)
    fun v hv => ⟨hquiet _, hkept _, hok v hv⟩

theorem does_write (path : RelPath) (text : String) (htemporary : temporary path ≠ path) :
    Does (write path text) w (Quiet (fun p => p ≠ path ∧ p ≠ temporary path)
      (fun w' _ => w'.files path = some (encodeAscii text.toList)) w) := by
  unfold write
  refine does_quiet_bind (R := fun _ _ => True) (does_quiet_perform rfl ?_ ?_) ?_
  · exact fun r p _ => by cases r <;> rfl
  · exact fun _ _ => trivial
  · rintro w' - -
    refine does_quiet_bind
      (R := fun w'' _ => w''.files (temporary path) = some (encodeAscii text.toList))
      (does_quiet_perform rfl ?_ ?_) ?_
    · rintro r p ⟨-, hp⟩
      cases r with
      | ok v => exact Function.update_of_ne hp _ _
      | error e => exact Function.update_of_ne hp _ _
    · exact fun _ _ => Function.update_self _ _ _
    · intro w'' _ hwritten
      refine does_quiet_perform rfl ?_ ?_
      · rintro r p ⟨hpath, hp⟩
        cases r with
        | ok v => exact (Function.update_of_ne hp _ _).trans (Function.update_of_ne hpath _ _)
        | error e => rfl
      · intro _ _
        refine (Function.update_of_ne htemporary.symm _ _).trans ?_
        exact (Function.update_self _ _ _).trans hwritten

/-- A command is one event and leaves the files alone. -/
theorem does_run (env : RelPath) (args : List String) :
    Does (deployer.run env args) w fun h w' r =>
      h = [ran (deployer.compose env args) r] ∧ w'.files = w.files ∧
        ∀ e, r = .error e → EndsWith h e := by
  refine does_perform ?_ ?_
  · refine fun e _ hend => ⟨rfl, rfl, ?_⟩
    rintro _ ⟨⟩
    exact hend
  · refine fun _ _ => ⟨rfl, rfl, ?_⟩
    rintro _ ⟨⟩

/-! ## Before the app is started -/

theorem compose_drop (env : RelPath) (args : List String) :
    (deployer.compose env args).drop 10 = args := rfl

theorem not_touchesApp_pull {r : Except DeployError Unit} : ¬ TouchesApp (ran deployer.pullImages r) := by
  rintro ⟨-, hpull⟩
  exact hpull rfl

theorem not_touchesApp_database {r : Except DeployError Unit} :
    ¬ TouchesApp (ran deployer.startDatabase r) := by
  rintro ⟨happ, -⟩
  rw [startDatabase, compose_drop] at happ
  exact absurd happ (by decide)

theorem not_touchesApp_migrate {r : Except DeployError Unit} : ¬ TouchesApp (ran deployer.migrate r) := by
  rintro ⟨happ, -⟩
  rw [migrate, compose_drop] at happ
  exact absurd happ (by decide)

/-- Commands that leave the app alone: what they show satisfies `S`, or the last one raised. -/
def Untouched {α : Type} (S : List DeployEvent → α → Prop) (w : Host) (h : List DeployEvent)
    (w' : Host) (r : Except DeployError α) : Prop :=
  w'.files = w.files ∧ (∀ event ∈ h, ¬ TouchesApp event) ∧ Ends (fun _ => S (visible h)) h w' r

theorem does_command_bind {α : Type} {env : RelPath} {args : List String} {f : Unit → Deploy α}
    {S : List DeployEvent → α → Prop}
    (hargs : ∀ r, ¬ TouchesApp (ran (deployer.compose env args) r))
    (hf : ∀ w', Does (f ()) w'
      (Untouched (fun shown => S (shown ++ [ran (deployer.compose env args) (.ok ())])) w')) :
    Does (deployer.run env args >>= f) w (Untouched S w) := by
  refine Coro.does_bind (does_run env args) ?_ ?_
  · rintro h w' ⟨⟩ ⟨⟩ ⟨rfl, hfiles, -⟩
    refine (hf w').mono ?_
    rintro later w'' r ⟨⟩ ⟨hfiles', huntouched, hends⟩
    refine ⟨hfiles'.trans hfiles, fun event hevent => ?_, ?_⟩
    · cases List.mem_append.mp hevent with
      | inl hlater => exact huntouched event hlater
      | inr hfirst =>
        rw [List.mem_singleton.mp hfirst]
        exact hargs _
    · cases r with
      | ok a =>
        rw [Ends, visible_append]
        exact hends
      | error e => exact hends.append _
  · rintro h w' e ⟨⟩ ⟨rfl, hfiles, hend⟩
    refine ⟨hfiles, fun event hevent => ?_, hend e rfl⟩
    rw [List.mem_singleton.mp hevent]
    exact hargs _

/-- How the part before `try` ends. -/
def Preparing (deployer : Deployer) (image : String) (w : Host) (h : List DeployEvent) (w' : Host) :
    Except DeployError (Option String) → Prop
  | .ok prior => visible h = deployer.launched.tail ∧ Reads w prior ∧
      w'.files candidateEnv = some (encodeAscii (assignment image).toList)
  | .error e => EndsWith h e ∨ Refuses h e

theorem does_prepare (image : String) : Does (deployer.prepare image) w fun h w' r =>
    w'.files currentEnv = w.files currentEnv ∧ (∀ event ∈ h, ¬ TouchesApp event) ∧
      Preparing deployer image w h w' r := by
  unfold prepare
  refine Coro.does_bind does_readCurrent ?_ ?_
  · rintro h₁ w₁ prior ⟨⟩ ⟨hquiet₁, hfiles₁, hreads⟩
    have hall : ∀ h₂, visible h₂ = [] → ∀ event ∈ h₂ ++ h₁, ¬ TouchesApp event := by
      intro h₂ hquiet₂ event hevent
      refine not_touchesApp_of_visible ?_ hevent
      rw [visible_append, hquiet₂, hquiet₁]
      rfl
    refine Coro.does_bind (does_write candidateEnv _ (by decide)) ?_ ?_
    · rintro h₂ w₂ ⟨⟩ ⟨⟩ ⟨hquiet₂, hkept, hcandidate⟩
      have hcurrent : w₂.files currentEnv = w.files currentEnv :=
        (hkept currentEnv (by decide)).trans (congrFun hfiles₁ _)
      have hcommands : Does
          (do
            deployer.run candidateEnv ["pull", "app", "migrate"]
            deployer.run candidateEnv ["up", "-d", "postgres"]
            deployer.run candidateEnv ["--profile", "tools", "run", "--rm", "migrate"]
            pure prior) w₂
          (Untouched (fun shown a => shown = deployer.launched.tail ∧ a = prior) w₂) := by
        refine does_command_bind (fun _ => not_touchesApp_pull) fun w₃ => ?_
        refine does_command_bind (fun _ => not_touchesApp_database) fun w₄ => ?_
        refine does_command_bind (fun _ => not_touchesApp_migrate) fun w₅ => ?_
        exact Coro.does_pure ⟨rfl, fun _ h => absurd h List.not_mem_nil, rfl, rfl⟩
      refine hcommands.mono ?_
      rintro h₃ w₃ r ⟨⟩ ⟨hfiles₃, huntouched, hends⟩
      refine ⟨(congrFun hfiles₃ _).trans hcurrent, fun event hevent => ?_, ?_⟩
      · rw [List.append_assoc] at hevent
        cases List.mem_append.mp hevent with
        | inl hlater => exact huntouched event hlater
        | inr hearlier => exact hall h₂ hquiet₂ event hearlier
      · cases r with
        | ok a =>
          obtain ⟨hshown, rfl⟩ := hends
          refine ⟨?_, hreads, (congrFun hfiles₃ _).trans hcandidate⟩
          rw [visible_append, visible_append, hshown, hquiet₂, hquiet₁]
          rfl
        | error e =>
          rw [List.append_assoc]
          exact .inl (hends.append _)
    · rintro h₂ w₂ e ⟨⟩ ⟨hquiet₂, hkept, hend⟩
      exact ⟨(hkept currentEnv (by decide)).trans (congrFun hfiles₁ _), hall h₂ hquiet₂,
        .inl (hend.append h₁)⟩
  · rintro h w' e ⟨⟩ ⟨hquiet, hfiles, hend⟩
    exact ⟨congrFun hfiles _, fun _ => not_touchesApp_of_visible hquiet, hend⟩

/-! ## After the app is started -/

/-- How the promotion ends: the candidate is the current state, or nothing changed there. -/
def Promoting (w : Host) (h : List DeployEvent) (w' : Host) : Except DeployError Unit → Prop
  | .ok _ => w'.files currentEnv = w.files candidateEnv
  | .error e => w'.files currentEnv = w.files currentEnv ∧ EndsWith h e

theorem does_replace_current : Does (DeployOp.perform (.replace candidateEnv currentEnv)) w
    fun h w' r => visible h = [] ∧ Promoting w h w' r := by
  refine does_perform ?_ ?_
  · exact fun e _ hend => ⟨rfl, rfl, hend⟩
  · intro _ _
    have hne : currentEnv ≠ candidateEnv := by decide
    refine ⟨rfl, ?_⟩
    show Function.update (Function.update w.files currentEnv (w.files candidateEnv)) candidateEnv none
      currentEnv = w.files candidateEnv
    rw [Function.update_of_ne hne, Function.update_self]

theorem does_promote (prior : Option String) : Does (promote prior) w fun h w' r =>
    visible h = [] ∧ Promoting w h w' r := by
  cases prior with
  | none => exact does_replace_current
  | some prior =>
    refine Coro.does_bind (does_write previousImage _ (by decide)) ?_ ?_
    · rintro h₁ w₁ ⟨⟩ ⟨⟩ ⟨hquiet₁, hkept, -⟩
      refine does_replace_current.mono ?_
      rintro h₂ w₂ r ⟨⟩ ⟨hquiet₂, hpromote⟩
      refine ⟨?_, ?_⟩
      · rw [visible_append, hquiet₂, hquiet₁]
        rfl
      · cases r with
        | ok _ => exact Eq.trans hpromote (hkept candidateEnv (by decide))
        | error e =>
          exact ⟨hpromote.1.trans (hkept currentEnv (by decide)), hpromote.2.append h₁⟩
    · rintro h₁ w₁ e ⟨⟩ ⟨hquiet₁, hkept, hend⟩
      exact ⟨hquiet₁, hkept currentEnv (by decide), hend⟩

def unhealthy : DeployError := .runtimeError "health check failed"

/-- How the probing rounds end: with a promotion after a round in which both probes answered true, or
with an error. -/
def Probing (n : Nat) (w : Host) (h : List DeployEvent) (w' : Host) : Except DeployError Unit → Prop
  | .ok _ => w'.files currentEnv = w.files candidateEnv ∧ ∃ k rounds, k < n ∧ FailedRounds k rounds ∧
      visible h = probed readyUrl true :: probed liveUrl true :: rounds
  | .error e => w'.files currentEnv = w.files currentEnv ∧
      (EndsWith h e ∨ e = unhealthy ∧ FailedRounds n (visible h))

theorem does_probe (url : String) : Does (DeployOp.perform (.probe url)) w fun h w' r =>
    w'.files = w.files ∧ match r with
      | .ok answer => h = [probed url answer]
      | .error e => EndsWith h e :=
  does_perform (fun _ _ hend => ⟨rfl, hend⟩) fun _ _ => ⟨rfl, rfl⟩

theorem Probing.after_round {n : Nat} {w₀ : Host} {earlier h : List DeployEvent} {w' : Host}
    {r : Except DeployError Unit} {live ready : Bool} (h' : Probing n w h w' r)
    (hfiles : w.files = w₀.files) (hround : (live && ready) = false)
    (hearlier : visible earlier = [probed readyUrl ready, probed liveUrl live]) :
    Probing (n + 1) w₀ (h ++ earlier) w' r := by
  cases r with
  | ok _ =>
    obtain ⟨hcurrent, k, rounds, hk, hrounds, hvisible⟩ := h'
    refine ⟨by rw [hcurrent, hfiles], k + 1, _, by omega, hrounds.older hround, ?_⟩
    rw [visible_append, hvisible, hearlier]
    rfl
  | error e =>
    obtain ⟨hcurrent, hcause⟩ := h'
    refine ⟨by rw [hcurrent, hfiles], hcause.imp (fun hend => hend.append earlier) ?_⟩
    rintro ⟨rfl, hrounds⟩
    refine ⟨rfl, ?_⟩
    rw [visible_append, hearlier]
    exact hrounds.older hround

theorem does_probeRounds (prior : Option String) (n : Nat) :
    Does (probeRounds prior n) w (Probing n w) := by
  induction n generalizing w with
  | zero => exact Coro.does_raise ⟨rfl, .inr ⟨rfl, .none⟩⟩
  | succ n ih =>
    unfold probeRounds
    refine Coro.does_bind (does_probe liveUrl) ?_ ?_
    · rintro h₁ w₁ live ⟨⟩ ⟨hfiles₁, rfl⟩
      refine Coro.does_bind (does_probe readyUrl) ?_ ?_
      · rintro h₂ w₂ ready ⟨⟩ ⟨hfiles₂, rfl⟩
        have hfiles : w₂.files = w.files := hfiles₂.trans hfiles₁
        cases hround : live && ready with
        | true =>
          obtain ⟨rfl, rfl⟩ := Bool.and_eq_true_iff.mp hround
          refine (does_promote prior).mono ?_
          rintro h₃ w₃ r ⟨⟩ ⟨hquiet₃, hpromote⟩
          cases r with
          | ok _ =>
            refine ⟨by rw [← hfiles]; exact hpromote, 0, [], by omega, .none, ?_⟩
            rw [visible_append, visible_append, hquiet₃]
            rfl
          | error e =>
            rw [List.append_assoc]
            exact ⟨by rw [← hfiles]; exact hpromote.1, .inl (hpromote.2.append _)⟩
        | false =>
          have hearlier : visible ([probed readyUrl ready] ++ [probed liveUrl live]) =
              [probed readyUrl ready, probed liveUrl live] := rfl
          rw [if_neg Bool.false_ne_true]
          by_cases hleft : 0 < n
          · rw [if_pos hleft]
            refine Coro.does_bind (does_perform (o := .sleep)
              (Q := fun h w' r => w'.files = w.files ∧ visible h = [] ∧ Ends (fun _ _ => True) h w' r)
              (fun _ _ hend => ⟨hfiles, rfl, hend⟩) fun _ _ => ⟨hfiles, rfl, trivial⟩) ?_ ?_
            · rintro h₃ w₃ ⟨⟩ ⟨⟩ ⟨hfiles₃, hquiet₃, -⟩
              refine ih.mono ?_
              rintro h₄ w₄ r ⟨⟩ hrest
              rw [List.append_assoc, List.append_assoc]
              refine hrest.after_round hfiles₃ hround ?_
              rw [visible_append, hquiet₃]
              rfl
            · rintro h₃ w₃ e ⟨⟩ ⟨hfiles₃, -, hend⟩
              rw [List.append_assoc]
              exact ⟨by rw [hfiles₃], .inl (EndsWith.append hend _)⟩
          · rw [if_neg hleft]
            refine ih.mono ?_
            rintro h₃ w₃ r ⟨⟩ hrest
            rw [List.append_assoc]
            exact hrest.after_round hfiles hround hearlier
      · rintro h₂ w₂ e ⟨⟩ ⟨hfiles₂, hend⟩
        exact ⟨by rw [hfiles₂, hfiles₁], .inl (hend.append _)⟩
    · rintro h₁ w₁ e ⟨⟩ ⟨hfiles₁, hend⟩
      exact ⟨by rw [hfiles₁], .inl hend⟩

/-- How the body of `try` ends. -/
def Launching (deployer : Deployer) (w : Host) (h : List DeployEvent) (w' : Host) :
    Except DeployError Unit → Prop
  | .ok _ => w'.files currentEnv = w.files candidateEnv ∧ ∃ k rounds,
      k < deployer.healthAttempts.val ∧ FailedRounds k rounds ∧
        visible h = probed readyUrl true :: probed liveUrl true ::
          (rounds ++ [ran deployer.startApp (.ok ())])
  | .error e => w'.files currentEnv = w.files currentEnv ∧ (EndsWith h e ∨ e = unhealthy ∧
      ∃ rounds, FailedRounds deployer.healthAttempts.val rounds ∧
        visible h = rounds ++ [ran deployer.startApp (.ok ())])

theorem does_launch (prior : Option String) : Does (deployer.launch prior) w fun h w' r =>
    (∃ started, ran deployer.startApp started ∈ h) ∧ Launching deployer w h w' r := by
  unfold launch
  refine Coro.does_bind (does_run candidateEnv _) ?_ ?_
  · rintro h₁ w₁ ⟨⟩ ⟨⟩ ⟨rfl, hfiles₁, -⟩
    refine (does_probeRounds prior deployer.healthAttempts.val).mono ?_
    rintro h₂ w₂ r ⟨⟩ hprobing
    refine ⟨⟨.ok (), List.mem_append_right _ List.mem_cons_self⟩, ?_⟩
    cases r with
    | ok _ =>
      obtain ⟨hcurrent, k, rounds, hk, hrounds, hvisible⟩ := hprobing
      refine ⟨by rw [hcurrent, hfiles₁], k, rounds, hk, hrounds, ?_⟩
      rw [visible_append, hvisible]
      rfl
    | error e =>
      obtain ⟨hcurrent, hcause⟩ := hprobing
      refine ⟨by rw [hcurrent, hfiles₁], hcause.imp (fun hend => hend.append _) ?_⟩
      rintro ⟨rfl, hrounds⟩
      exact ⟨rfl, _, hrounds, visible_append⟩
  · rintro h₁ w₁ e ⟨⟩ ⟨rfl, hfiles₁, hend⟩
    exact ⟨⟨_, List.mem_cons_self⟩, by rw [hfiles₁], .inl (hend e rfl)⟩

/-- What the handler does: both steps are attempted, whether or not the first one fails. -/
def RolledBack (deployer : Deployer) (prior : Option String) (h : List DeployEvent) : Prop :=
  match prior with
  | some _ => ∃ pulled started,
      h = [ran deployer.startPrevious started, ran deployer.pullPrevious pulled]
  | none => ∃ stopped, h = [ran deployer.stopApp stopped]

theorem does_attempt_run (env : RelPath) (args : List String) :
    Does (Coro.attempt (deployer.run env args)) w fun h w' r => w'.files = w.files ∧
      ∃ outcome, r = .ok outcome ∧ h = [ran (deployer.compose env args) outcome] := by
  refine Coro.does_attempt ((does_run env args).mono ?_)
  rintro h w' r ⟨⟩ ⟨rfl, hfiles, -⟩
  exact ⟨hfiles, r, rfl, rfl⟩

theorem does_rollback (prior : Option String) : Does (deployer.rollback prior) w fun h w' r =>
    r = .ok () ∧ w'.files = w.files ∧ RolledBack deployer prior h := by
  cases prior with
  | none =>
    refine Coro.does_bind (does_attempt_run candidateEnv _) ?_ ?_
    · rintro h₁ w₁ _ ⟨⟩ ⟨hfiles₁, stopped, -, rfl⟩
      exact Coro.does_pure ⟨rfl, hfiles₁, stopped, rfl⟩
    · rintro h₁ w₁ e ⟨⟩ ⟨-, _, hok, -⟩
      cases hok
  | some prior =>
    refine Coro.does_bind (does_attempt_run currentEnv _) ?_ ?_
    · rintro h₁ w₁ _ ⟨⟩ ⟨hfiles₁, pulled, -, rfl⟩
      refine Coro.does_bind (does_attempt_run currentEnv _) ?_ ?_
      · rintro h₂ w₂ _ ⟨⟩ ⟨hfiles₂, started, -, rfl⟩
        exact Coro.does_pure ⟨rfl, hfiles₂.trans hfiles₁, pulled, started, rfl⟩
      · rintro h₂ w₂ e ⟨⟩ ⟨-, _, hok, -⟩
        cases hok
    · rintro h₁ w₁ e ⟨⟩ ⟨-, _, hok, -⟩
      cases hok

/-! ## A deploy -/

def imageOf (digest : String) : String := imageRepository ++ "@" ++ digest

/-- The content of `current.env` that names the image. -/
def record (digest : String) : List UInt8 := encodeAscii (assignment (imageOf digest)).toList

/-- The app was healthy in a round within the limit, after its start and what precedes it succeeded. -/
def Healthy (deployer : Deployer) (h : List DeployEvent) : Prop :=
  ∃ k rounds, k < deployer.healthAttempts.val ∧ FailedRounds k rounds ∧
    visible h = probed readyUrl true :: probed liveUrl true :: (rounds ++ deployer.launched)

/-- What follows the error, once the start of the app was attempted or if it was not. -/
structure Recovers (deployer : Deployer) (w : Host) (before after : List DeployEvent) : Prop where
  attempted : (∃ started, ran deployer.startApp started ∈ before) →
    ∃ prior, Reads w prior ∧ RolledBack deployer prior after
  untouched : (¬ ∃ started, ran deployer.startApp started ∈ before) →
    after = [] ∧ ∀ event ∈ before, ¬ TouchesApp event

def Deployed (deployer : Deployer) (digest : String) (w : Host) (h : List DeployEvent) (w' : Host) :
    Except DeployError Unit → Prop
  | .ok _ => validateDigest digest = true ∧ w'.files currentEnv = some (record digest) ∧
      Healthy deployer h
  | .error e => w'.files currentEnv = w.files currentEnv ∧ ∃ before after, h = after ++ before ∧
      Cause deployer digest before e ∧ Recovers deployer w before after

theorem touchesApp_startApp (r : Except DeployError Unit) : TouchesApp (ran deployer.startApp r) :=
  ⟨List.mem_of_getLast? rfl, fun h => absurd (Option.some.inj h) (by decide)⟩

theorem recovers_untouched {before : List DeployEvent}
    (huntouched : ∀ event ∈ before, ¬ TouchesApp event) : Recovers deployer w before [] where
  attempted := fun ⟨_, hmem⟩ => absurd (touchesApp_startApp _) (huntouched _ hmem)
  untouched _ := ⟨rfl, huntouched⟩

theorem does_deploy (digest : String) :
    Does (deployer.deploy digest) w (Deployed deployer digest w) := by
  have hcheck : Does (Coro.raiseIf (validateDigest digest = false)
      (.valueError "invalid image digest")) w fun h w' r => h = [] ∧ w'.files = w.files ∧
        match r with
        | .ok _ => validateDigest digest = true
        | .error e => e = .valueError "invalid image digest" ∧ validateDigest digest = false := by
    unfold Coro.raiseIf
    split
    · rename_i hinvalid
      exact Coro.does_raise ⟨rfl, rfl, rfl, hinvalid⟩
    · rename_i hvalid
      exact Coro.does_pure ⟨rfl, rfl, Bool.not_eq_false _ ▸ hvalid⟩
  unfold deploy
  refine Coro.does_bind hcheck ?_ ?_
  · rintro h₁ w₁ ⟨⟩ ⟨⟩ ⟨rfl, hfiles₁, hdigest⟩
    refine Coro.does_bind (does_prepare (imageRepository ++ "@" ++ digest)) ?_ ?_
    · rintro h₂ w₂ prior ⟨⟩ ⟨hcurrent₂, huntouched, hlaunched, hreads, hcandidate⟩
      have hcurrent : w₂.files currentEnv = w.files currentEnv := by rw [hcurrent₂, hfiles₁]
      have hreads : Reads w prior := by rwa [Reads, hfiles₁] at hreads
      have htry : Does (Coro.attempt (deployer.launch prior)) w₂ fun h w' r =>
          ∃ outcome, r = .ok outcome ∧ (∃ started, ran deployer.startApp started ∈ h) ∧
            Launching deployer w₂ h w' outcome :=
        Coro.does_attempt ((does_launch prior).mono fun h w' r _ hr => ⟨r, rfl, hr⟩)
      refine Coro.does_bind htry ?_ ?_
      · rintro h₃ w₃ r ⟨⟩ ⟨_, ⟨⟩, hstarted, hlaunch⟩
        cases r with
        | ok _ =>
          obtain ⟨hcurrent₃, k, rounds, hk, hrounds, hvisible⟩ := hlaunch
          refine Coro.does_pure ⟨hdigest, by rw [hcurrent₃, hcandidate]; rfl, k, rounds, hk, hrounds, ?_⟩
          simp only [List.nil_append, List.append_nil]
          rw [visible_append, hvisible, hlaunched]
          simp [launched]
        | error e =>
          obtain ⟨hcurrent₃, hcause⟩ := hlaunch
          refine Coro.does_bind (does_rollback prior) ?_ ?_
          · rintro h₄ w₄ ⟨⟩ ⟨⟩ ⟨-, hfiles₄, hrolled⟩
            refine Coro.does_raise ⟨?_, h₃ ++ h₂, h₄, ?_, ?_, ?_⟩
            · rw [hfiles₄, hcurrent₃, hcurrent]
            · simp
            · rcases hcause with hend | ⟨rfl, rounds, hrounds, hvisible⟩
              · exact .effect (hend.append _)
              · refine .unhealthy hrounds ?_
                rw [visible_append, hvisible, hlaunched]
                simp [launched]
            · exact
                { attempted := fun _ => ⟨prior, hreads, hrolled⟩
                  untouched := fun hnone => absurd
                    (hstarted.imp fun _ hmem => List.mem_append_left _ hmem) hnone }
          · rintro h₄ w₄ e ⟨⟩ ⟨hok, -⟩
            cases hok
      · rintro h₃ w₃ e ⟨⟩ ⟨_, hok, -⟩
        cases hok
    · rintro h₂ w₂ e ⟨⟩ ⟨hcurrent₂, huntouched, hcause⟩
      refine ⟨by rw [hcurrent₂, hfiles₁], h₂, [], List.append_nil h₂, ?_, recovers_untouched huntouched⟩
      rcases hcause with hend | ⟨bytes, rest, hread, hparse⟩
      · exact .effect hend
      · exact .state hread hparse
  · rintro h₁ w₁ e ⟨⟩ ⟨rfl, hfiles₁, rfl, hinvalid⟩
    exact ⟨by rw [hfiles₁], [], [], rfl, .digest rfl hinvalid,
      recovers_untouched fun _ hmem => absurd hmem List.not_mem_nil⟩

/-! ## The next deploy -/

/-- A visible ASCII character. -/
def IsGraphic (c : Char) : Prop := 33 ≤ c.toNat ∧ c.toNat < 127

instance (c : Char) : Decidable (IsGraphic c) := inferInstanceAs (Decidable (_ ∧ _))

theorem isGraphic_hex {c : Char} (h : isHexLower c = true) : IsGraphic c := by
  rw [isHexLower, Bool.or_eq_true, Bool.and_eq_true, decide_eq_true_eq, decide_eq_true_eq] at h
  rcases h with hdigit | ⟨hlow, hhigh⟩
  · have hdigit : 48 ≤ c.toNat ∧ c.toNat ≤ 57 := by
      simpa [Char.isDigit, UInt32.le_iff_toNat_le] using hdigit
    exact ⟨by omega, by omega⟩
  · have hlow : 97 ≤ c.toNat := hlow
    have hhigh : c.toNat ≤ 102 := hhigh
    exact ⟨by omega, by omega⟩

theorem isGraphic_of_all {text : List Char} (h : text.all (fun c => decide (IsGraphic c)) = true) :
    ∀ c ∈ text, IsGraphic c := fun c hc => of_decide_eq_true (List.all_eq_true.mp h c hc)

theorem isGraphic_digest {digest : String} (h : validateDigest digest = true) :
    ∀ c ∈ digest.toList, IsGraphic c := by
  rw [validateDigest, Bool.and_eq_true, Bool.and_eq_true, decide_eq_true_eq] at h
  obtain ⟨⟨htake, -⟩, hhex⟩ := h
  intro c hc
  rw [← List.take_append_drop 7 digest.toList, List.mem_append, htake] at hc
  cases hc with
  | inl hc => exact isGraphic_of_all (by decide) c hc
  | inr hc => exact isGraphic_hex (List.all_eq_true.mp hhex c hc)

theorem universalNewlines_eq {text : List Char} (h : '\r' ∉ text) : universalNewlines text = text := by
  induction text with
  | nil => rfl
  | cons c rest ih =>
    have hc : c ≠ '\r' := fun hc => h (hc ▸ List.mem_cons_self)
    have hrest := ih fun hmem => h (List.mem_cons_of_mem _ hmem)
    unfold universalNewlines
    split
    · rename_i heq
      exact absurd (List.cons.inj heq).1 hc
    · rename_i heq
      exact absurd (List.cons.inj heq).1 hc
    · rename_i heq
      cases heq
      rw [hrest]
    · rename_i heq
      cases heq

/-- A line without line ends before a line feed. -/
theorem splitlinesFrom_line {line : List Char} (before : List Char)
    (h : ∀ c ∈ line, isLineEnd c = false) :
    splitlinesFrom before (line ++ ['\n']) = [before.reverse ++ line] := by
  induction line generalizing before with
  | nil => simp [splitlinesFrom, isLineEnd]
  | cons c rest ih =>
    rw [List.cons_append, splitlinesFrom, h c List.mem_cons_self, if_neg Bool.false_ne_true,
      ih _ fun c hc => h c (List.mem_cons_of_mem _ hc)]
    simp

theorem parseBytes_record {digest : String} (h : validateDigest digest = true) :
    parseBytes (record digest) = .ok (imageOf digest) := by
  have htext : (assignment (imageOf digest)).toList =
      (assignmentPrefix.toList ++ ((imageRepository ++ "@").toList ++ digest.toList)) ++ ['\n'] := by
    simp only [assignment, imageOf, String.toList_append, List.append_assoc]
    rfl
  have hgraphic : ∀ c ∈ assignmentPrefix.toList ++ ((imageRepository ++ "@").toList ++ digest.toList),
      IsGraphic c := by
    intro c hc
    rw [List.mem_append, List.mem_append] at hc
    rcases hc with hc | hc | hc
    · exact isGraphic_of_all (by decide) c hc
    · exact isGraphic_of_all (by decide) c hc
    · exact isGraphic_digest h c hc
  generalize hline : assignmentPrefix.toList ++ ((imageRepository ++ "@").toList ++ digest.toList) =
    line at htext hgraphic
  have hascii : IsAscii (line ++ ['\n']) := by
    intro c hc
    cases List.mem_append.mp hc with
    | inl hc => exact (hgraphic c hc).2.trans (by decide)
    | inr hc => rw [List.mem_singleton.mp hc]; decide
  have hreturn : '\r' ∉ line ++ ['\n'] := by
    intro hc
    cases List.mem_append.mp hc with
    | inl hc => exact absurd (hgraphic _ hc).1 (by decide)
    | inr hc => exact absurd (List.mem_singleton.mp hc) (by decide)
  have hends : ∀ c ∈ line, isLineEnd c = false := by
    intro c hc
    have := (hgraphic c hc).1
    simp only [isLineEnd, Bool.or_eq_false_iff, Bool.and_eq_false_iff, decide_eq_false_iff_not]
    omega
  have hprefix : startsWith line assignmentPrefix.toList = true := by
    rw [startsWith, List.isPrefixOf_iff_prefix, ← hline]
    exact List.prefix_append _ _
  have himage : line.drop assignmentPrefix.toList.length =
      (imageRepository ++ "@").toList ++ digest.toList := by
    rw [← hline, List.drop_left]
  have hrepository : startsWith ((imageRepository ++ "@").toList ++ digest.toList)
      (imageRepository ++ "@").toList = true := by
    rw [startsWith, List.isPrefixOf_iff_prefix]
    exact List.prefix_append _ _
  have hsplit : splitOnce '@' ((imageRepository ++ "@").toList ++ digest.toList) =
      [imageRepository.toList, digest.toList] :=
    splitOnce_eq_pair.mpr ⟨by decide, by simp⟩
  rw [record, htext, parseBytes, decodeAscii_encodeAscii hascii]
  simp only [universalNewlines_eq hreturn]
  rw [parseCurrent, splitlines, splitlinesFrom_line [] hends]
  simp only [List.reverse_nil, List.nil_append, List.getLast?_concat, ne_eq, not_true_eq_false,
    if_false, hprefix, himage, hrepository, hsplit, Bool.true_eq_false, String.ofList_toList, h,
    if_true]
  rw [imageOf, ← String.toList_append, String.ofList_toList]

/-! ## Sequences of deploys -/

structure DeployCall where
  healthAttempts : { n : Nat // 1 ≤ n ∧ n ≤ 30 }
  digest : String

structure DeployReport where
  call : DeployCall
  before : Host
  history : List DeployEvent
  outcome : Except DeployError Unit
  after : Host

/-- One call of `deploy`, on the host as it is. -/
def report (root : String) (w : Host) (call : DeployCall) : DeployReport :=
  let body := deploy ⟨root, call.healthAttempts⟩ call.digest
  { call := call
    before := w
    history := (body ()).history Host.perform w
    outcome := (body.run Host.perform w ()).1.1
    after := (body.run Host.perform w ()).2 }

def reports (root : String) : Host → List DeployCall → List DeployReport
  | _, [] => []
  | w, call :: calls => report root w call :: reports root (report root w call).after calls

/-- What `current.env` holds after a deploy, if it held this before. -/
def recorded (current : Option (List UInt8)) (r : DeployReport) : Option (List UInt8) :=
  match r.outcome with
  | .ok _ => some (record r.call.digest)
  | .error _ => current

/-- The next deploy accepts what this one recorded. -/
def Accepted (r : DeployReport) : Prop :=
  match r.outcome with
  | .ok _ => parseBytes (record r.call.digest) = .ok (imageOf r.call.digest)
  | .error _ => True

/-- Every deploy finds in `current.env` what the last one that returned recorded there, and does what a
deploy does. -/
def Chronicle (root : String) : Option (List UInt8) → List DeployReport → Prop
  | _, [] => True
  | current, r :: rest =>
    r.before.files currentEnv = current ∧
      Deployed ⟨root, r.call.healthAttempts⟩ r.call.digest r.before r.history r.after r.outcome ∧
      Accepted r ∧ Chronicle root (recorded current r) rest

theorem deployed_report (root : String) (w : Host) (call : DeployCall) :
    Deployed ⟨root, call.healthAttempts⟩ call.digest w (report root w call).history
      (report root w call).after (report root w call).outcome :=
  does_deploy call.digest

theorem recorded_report (root : String) (w : Host) (call : DeployCall) :
    (report root w call).after.files currentEnv =
        recorded (w.files currentEnv) (report root w call) ∧
      Accepted (report root w call) := by
  have hdeployed := deployed_report root w call
  rw [recorded, Accepted]
  cases houtcome : (report root w call).outcome with
  | ok _ =>
    rw [houtcome] at hdeployed
    exact ⟨hdeployed.2.1, parseBytes_record hdeployed.1⟩
  | error e =>
    rw [houtcome] at hdeployed
    exact ⟨hdeployed.1, trivial⟩

/-- In every sequence of deploys, whatever fails and whatever the probes answer, `current.env` names the
image of the last deploy that returned, every deploy promotes a healthy image or restores the previous
one, and the next deploy accepts what was recorded. -/
theorem deploys_promote_healthy (root : String) (w : Host) (calls : List DeployCall) :
    Chronicle root (w.files currentEnv) (reports root w calls) := by
  induction calls generalizing w with
  | nil => trivial
  | cons call calls ih =>
    obtain ⟨hrecorded, haccepted⟩ := recorded_report root w call
    refine ⟨rfl, deployed_report root w call, haccepted, ?_⟩
    have hrest := ih (report root w call).after
    rwa [hrecorded] at hrest

end Deployer

end PlaceGame
