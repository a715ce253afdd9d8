import LiveResource.Cache.Session
import LiveResource.Client.Session
import LiveResource.Hooks.Presets
import LiveResource.Ledger.Session
import LiveResource.Multiplexer.Session
import LiveResource.Proofs.Passes
import LiveResource.Proofs.Counting
import LiveResource.Proofs.References
import LiveResource.Proofs.Eviction
import LiveResource.Proofs.Changes
import LiveResource.Proofs.Edits
import LiveResource.Proofs.Tokens
import LiveResource.Proofs.Merge
import LiveResource.Proofs.Filling
import LiveResource.Proofs.Upkeep
import LiveResource.Proofs.Operations
import LiveResource.Proofs.Calls
import LiveResource.Proofs.Runs
import LiveResource.Proofs.Frames
import LiveResource.Proofs.Stages
import LiveResource.Proofs.Courses
import LiveResource.Proofs.Subscriptions
import LiveResource.Proofs.Lineage
import LiveResource.Proofs.Tallies
import LiveResource.Proofs.Traces
import LiveResource.Proofs.Mirroring
import LiveResource.Proofs.Fetches
import LiveResource.Proofs.Joining
import LiveResource.Proofs.Accounts
import LiveResource.Proofs.History
import LiveResource.Proofs.Sessions
import LiveResource.Proofs.Losses
import LiveResource.Proofs.Staleness
import LiveResource.Proofs.Replay
import LiveResource.Proofs.Updates
import LiveResource.Proofs.Races
import LiveResource.Proofs.Requests
import LiveResource.Proofs.Resync
import LiveResource.Proofs.Agreement
import LiveResource.Proofs.Plain
import LiveResource.Proofs.HookCalls
import LiveResource.Proofs.Twins
import LiveResource.Proofs.Refusal
import LiveResource.Proofs.SideBySide
import LiveResource.Proofs.Indifference
import LiveResource.Proofs.Rollback
import LiveResource.Proofs.Contradictions
import LiveResource.Proofs.Identity
import LiveResource.Proofs.Patterns
import LiveResource.Proofs.Placeholders
import LiveResource.Proofs.Garbage
import LiveResource.Proofs.EditScripts
import LiveResource.Proofs.Differences
import LiveResource.Proofs.Messages
import LiveResource.Proofs.WireValues
import LiveResource.Proofs.Deliveries
import LiveResource.Proofs.Resubscription
