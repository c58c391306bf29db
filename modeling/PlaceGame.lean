import PlaceGame.System
import PlaceGame.Scheduler.Store
import PlaceGame.Scheduler.Discipline
import PlaceGame.Rules
import PlaceGame.Accounts.Edits
import PlaceGame.Accounts.Watch
import PlaceGame.Accounts.CycleSafe
import PlaceGame.Accounts.ServiceSafe
import PlaceGame.Accounts.MutateSafe
import PlaceGame.Accounts.CallsSafe
import PlaceGame.Accounts.Safety
import PlaceGame.Coop.Script
import PlaceGame.Accounts.Authorised
import PlaceGame.Accounts.Removal
import PlaceGame.Accounts.Identity
import PlaceGame.Accounts.Quiet
import PlaceGame.Policy.Ledger
import PlaceGame.Json.Encoding
import PlaceGame.Policy.Projection
import PlaceGame.Json.Wire
import PlaceGame.Policy.Actions
import PlaceGame.Policy.TypedPlans
import PlaceGame.Policy.StoredPlans
import PlaceGame.Policy.Engine
import PlaceGame.Game.Client
import PlaceGame.Game.Transport
import PlaceGame.Game.Versions
import PlaceGame.Admin.Auth
import PlaceGame.Admin.Sessions
import PlaceGame.Scheduler.Lease
import PlaceGame.Accounts.Entries
import PlaceGame.Accounts.Mutations
import PlaceGame.Accounts.Scope
import PlaceGame.Accounts.ScopeSafe
import PlaceGame.Accounts.Isolation
import PlaceGame.Policy.History
import PlaceGame.Game.States
import PlaceGame.Lists.Sorting
import PlaceGame.Policy.BossOptimizer
import PlaceGame.Coop.Asking
import PlaceGame.Policy.BossSelection
import PlaceGame.Policy.Builders
import PlaceGame.Policy.Arranged
import PlaceGame.Policy.ServerOrder
import PlaceGame.Policy.Coverage
import PlaceGame.Scheduler.Provision
import PlaceGame.Accounts.Outcomes
import PlaceGame.Application.StatusBlame
import PlaceGame.Accounts.PauseWindow
import PlaceGame.Accounts.CycleCalls
import PlaceGame.Accounts.CycleMutate
import PlaceGame.Accounts.CycleRuns
import PlaceGame.Accounts.EditRuns
import PlaceGame.Accounts.Unhandled
import PlaceGame.Policy.Profession
import PlaceGame.Mcp.Auth
import PlaceGame.Security.Values
import PlaceGame.Coop.Run
import PlaceGame.Admin.Lifetime
import PlaceGame.Security.Secrets
import PlaceGame.Policy.Rewards
import PlaceGame.Policy.RewardOrder
import PlaceGame.Deploy.Controller
import PlaceGame.Deploy.Promotion
import PlaceGame.Accounts.PreSend
import PlaceGame.Policy.Ownership
import PlaceGame.Policy.SpentOnce
import PlaceGame.Policy.Confirmation
import PlaceGame.Policy.Collected
import PlaceGame.Policy.Previewed
import PlaceGame.Admin.Access
