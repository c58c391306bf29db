import PlaceGame.Coop.Run
import PlaceGame.Text.Ascii

/-!
# PlaceGame.Deploy.Controller

`Deployer` of `deploy/placegame_deploy.py`. The file system, the commands, the probes and the clock are
effects, and every one of them can fail. What the controller logs is left out.
-/

namespace PlaceGame

open Coop Text

/-- The exceptions of a deploy; `failed` is one that an effect raises. -/
inductive DeployError where
  | valueError (message : String)
  | unicodeDecodeError
  | runtimeError (message : String)
  | failed (name : String)
  deriving DecidableEq, Repr

/-- A path below the root, part by part. -/
abbrev RelPath : Type := List String

inductive DeployOp where
  | pathExists (path : RelPath)
  | readBytes (path : RelPath)
  | mkdir (path : RelPath)
  | writeBytes (path : RelPath) (bytes : List UInt8)
  | replace (source target : RelPath)
  | run (argv : List String)
  | probe (url : String)
  | sleep
  deriving DecidableEq, Repr

namespace DeployOp

abbrev Val : DeployOp → Type
  | .pathExists _ | .probe _ => Bool
  | .readBytes _ => List UInt8
  | .mkdir _ | .writeBytes _ _ | .replace _ _ | .run _ | .sleep => Unit

end DeployOp

abbrev deploySig : Sig where
  Op := DeployOp
  Val := DeployOp.Val
  Err := DeployError

abbrev Deploy (α : Type) : Type := Coro deploySig Unit α

abbrev DeployOp.perform (o : DeployOp) : Deploy o.Val := Coro.await (S := deploySig) o

/-! ## Texts -/

def imageRepository : String := "ghcr.io/fengzaixing401/placegame-mcp"

def isHexLower (c : Char) : Bool := c.isDigit || ('a' ≤ c && c ≤ 'f')

/-- `sha256:[0-9a-f]{64}\Z`. -/
def validateDigest (value : String) : Bool :=
  decide (value.toList.take 7 = "sha256:".toList) && decide ((value.toList.drop 7).length = 64) &&
    (value.toList.drop 7).all isHexLower

def assignmentPrefix : String := "PLACEGAME_IMAGE="

def assignment (image : String) : String := assignmentPrefix ++ image ++ "\n"

/-- Reading text makes every line end a line feed. -/
def universalNewlines : List Char → List Char
  | '\r' :: '\n' :: rest => '\n' :: universalNewlines rest
  | '\r' :: rest => '\n' :: universalNewlines rest
  | c :: rest => c :: universalNewlines rest
  | [] => []

/-- The line ends of `str.splitlines` in ASCII. -/
def isLineEnd (c : Char) : Bool :=
  (10 ≤ c.toNat && c.toNat ≤ 13) || (28 ≤ c.toNat && c.toNat ≤ 30)

/-- `splitlines` of a text in which no carriage return is left; `line` is the line so far, reversed. -/
def splitlinesFrom (line : List Char) : List Char → List (List Char)
  | [] => if line = [] then [] else [line.reverse]
  | c :: rest =>
    if isLineEnd c then line.reverse :: splitlinesFrom [] rest else splitlinesFrom (c :: line) rest

def splitlines (text : List Char) : List (List Char) := splitlinesFrom [] text

def startsWith (text start : List Char) : Bool := start.isPrefixOf text

def invalidState : DeployError := .valueError "invalid current state"

/-- The image that the text of `current.env` names. -/
def parseCurrent (text : List Char) : Except DeployError String :=
  match splitlines text with
  | [line] =>
    if text.getLast? ≠ some '\n' then .error invalidState
    else if startsWith line assignmentPrefix.toList = false then .error invalidState
    else
      let image := line.drop assignmentPrefix.toList.length
      if startsWith image (imageRepository ++ "@").toList = false then .error invalidState
      else
        match splitOnce '@' image with
        | [_, digest] =>
          if validateDigest (String.ofList digest) then .ok (String.ofList image)
          else .error invalidState
        | _ => .error invalidState
  | _ => .error invalidState

/-- `read_text(encoding="ascii")` and the checks that follow. -/
def parseBytes (bytes : List UInt8) : Except DeployError String :=
  match decodeAscii bytes with
  | none => .error .unicodeDecodeError
  | some text => parseCurrent (universalNewlines text)

/-! ## The controller -/

def currentEnv : RelPath := ["current.env"]
def candidateEnv : RelPath := ["state", "candidate.env"]
def previousImage : RelPath := ["state", "previous-image"]

/-- `path.with_name(path.name + ".tmp")`. -/
def temporary (path : RelPath) : RelPath :=
  path.dropLast ++ (path.getLast?.map fun name => name ++ ".tmp").toList

def liveUrl : String := "http://127.0.0.1:18080/health/live"
def readyUrl : String := "http://127.0.0.1:18080/health/ready"

structure Deployer where
  root : String
  healthAttempts : { n : Nat // 1 ≤ n ∧ n ≤ 30 }

namespace Deployer

variable (deployer : Deployer)

/-- `str(self.root / path)`. -/
def pathText (path : RelPath) : String :=
  let text := "/".intercalate path
  if deployer.root = "." then text
  else if deployer.root = "/" then "/" ++ text
  else deployer.root ++ "/" ++ text

def compose (env : RelPath) (args : List String) : List String :=
  ["docker", "compose", "--project-name", "placegame-mcp", "--project-directory", deployer.root,
    "--env-file", deployer.pathText env, "--file",
    deployer.pathText ["deploy", "compose.yaml"]] ++ args

def run (env : RelPath) (args : List String) : Deploy Unit :=
  DeployOp.perform (.run (deployer.compose env args))

def readCurrent : Deploy (Option String) := do
  if ← DeployOp.perform (.pathExists currentEnv) then
    let bytes ← DeployOp.perform (.readBytes currentEnv)
    match parseBytes bytes with
    | .ok image => return some image
    | .error e => Coro.raise e
  else return none

def write (path : RelPath) (text : String) : Deploy Unit := do
  DeployOp.perform (.mkdir path.dropLast)
  DeployOp.perform (.writeBytes (temporary path) (encodeAscii text.toList))
  DeployOp.perform (.replace (temporary path) path)

/-- The previous image is noted and the candidate becomes the current state. -/
def promote (prior : Option String) : Deploy Unit := do
  match prior with
  | some prior => write previousImage (prior ++ "\n")
  | none => pure ()
  DeployOp.perform (.replace candidateEnv currentEnv)

def probeRounds (prior : Option String) : Nat → Deploy Unit
  | 0 => Coro.raise (.runtimeError "health check failed")
  | left + 1 => do
    let live ← DeployOp.perform (.probe liveUrl)
    let ready ← DeployOp.perform (.probe readyUrl)
    if live && ready then promote prior
    else
      if 0 < left then DeployOp.perform .sleep
      probeRounds prior left

/-- The body of `try`. -/
def launch (prior : Option String) : Deploy Unit := do
  deployer.run candidateEnv ["up", "-d", "--no-deps", "app"]
  probeRounds prior deployer.healthAttempts.val

/-- The handler of `except Exception`; a step that fails does not stop the next one. -/
def rollback : Option String → Deploy Unit
  | some _ => do
    let _ ← Coro.attempt (deployer.run currentEnv ["pull", "app"])
    let _ ← Coro.attempt (deployer.run currentEnv ["up", "-d", "--no-deps", "app"])
  | none => do
    let _ ← Coro.attempt (deployer.run candidateEnv ["stop", "app"])

/-- What precedes `try`. -/
def prepare (image : String) : Deploy (Option String) := do
  let prior ← readCurrent
  write candidateEnv (assignment image)
  deployer.run candidateEnv ["pull", "app", "migrate"]
  deployer.run candidateEnv ["up", "-d", "postgres"]
  deployer.run candidateEnv ["--profile", "tools", "run", "--rm", "migrate"]
  return prior

def deploy (digest : String) : Deploy Unit := do
  Coro.raiseIf (validateDigest digest = false) (.valueError "invalid image digest")
  let prior ← deployer.prepare (imageRepository ++ "@" ++ digest)
  match ← Coro.attempt (deployer.launch prior) with
  | .ok () => pure ()
  | .error e =>
    deployer.rollback prior
    Coro.raise e

end Deployer

end PlaceGame
