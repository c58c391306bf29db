/-!
# PlaceGame.Game.Registry

The endpoints of the game. An operation that changes the game is marked as a mutation.
-/

namespace PlaceGame

inductive OperationName where
  | login
  | bootstrap
  | catalog
  | idleSummary
  | viewSections
  | idleCollect
  | bossPreview
  | bossChallenge
  | bossAssist
  | professionSettle
  | professionEnqueue
  | professionSupplyEquip
  | dailyClaim
  | questClaim
  | achievementClaim
  | codexClaim
  | mailClaim
  deriving DecidableEq, Repr

inductive Method where
  | get
  | post
  deriving DecidableEq, Repr

structure EndpointSpec where
  method : Method
  path : String
  mutation : Bool
  deriving DecidableEq, Repr

def registry : OperationName → EndpointSpec
  | .login => ⟨.post, "/api/auth/login", true⟩
  | .bootstrap => ⟨.get, "/api/client/bootstrap", false⟩
  | .catalog => ⟨.get, "/api/client/catalog", false⟩
  | .idleSummary => ⟨.get, "/api/client/idle-summary", false⟩
  | .viewSections => ⟨.post, "/api/client/view-sections", false⟩
  | .idleCollect => ⟨.post, "/api/battle/idle-collect", true⟩
  | .bossPreview => ⟨.post, "/api/boss/preview", false⟩
  | .bossChallenge => ⟨.post, "/api/boss/challenge", true⟩
  | .bossAssist => ⟨.post, "/api/boss/assist", true⟩
  | .professionSettle => ⟨.post, "/api/professions/settle", true⟩
  | .professionEnqueue => ⟨.post, "/api/professions/queue/enqueue", true⟩
  | .professionSupplyEquip => ⟨.post, "/api/professions/supply/equip", true⟩
  | .dailyClaim => ⟨.post, "/api/daily/claim", true⟩
  | .questClaim => ⟨.post, "/api/quests/claim", true⟩
  | .achievementClaim => ⟨.post, "/api/achievements/claim", true⟩
  | .codexClaim => ⟨.post, "/api/codex/claim", true⟩
  | .mailClaim => ⟨.post, "/api/mail/claim", true⟩

end PlaceGame
