import Saipen.Accumulate
import Saipen.Assoc
import Saipen.Checks
import Saipen.Json
import Saipen.Text
import Saipen.Text.Scan
import Saipen.Text.Codec
import Saipen.Text.Repr
import Saipen.Text.Mention
import Saipen.Text.Lines
import Saipen.Text.Window
import Saipen.Text.Case
import Saipen.Binary64
import Saipen.Text.Number
import Saipen.DurableState.Program
import Saipen.FileTree.Basic
import Saipen.FileTree.Frame
import Saipen.FileTree.Leaf
import Saipen.FileTree.Undo
import Saipen.Journal.Vocabulary
import Saipen.Journal.Project
import Saipen.Journal.Paths
import Saipen.Journal.Hash
import Saipen.Journal.Decode
import Saipen.Journal.Codec
import Saipen.Journal.Request
import Saipen.Journal.Store
import Saipen.Journal.Append
import Saipen.Journal.Identity
import Saipen.Journal.Recover
import Saipen.Journal.Scan
import Saipen.Journal.Mutation
import Saipen.Journal.Snapshot
import Saipen.Journal.SnapshotMerge
import Saipen.Journal.Publish
import Saipen.Journal.Effects
import Saipen.Journal.Validation
import Saipen.Journal.Sample
import Saipen.Journal.Agreement
import Saipen.Journal.Advice
import Saipen.Journal.RollForward
import Saipen.Journal.Accounts
import Saipen.Journal.Dependencies
import Saipen.Journal.Rewrite
import Saipen.Journal.AppendSteps
import Saipen.Journal.AppendLaw
import Saipen.Journal.Conflict
import Saipen.Journal.ConflictLaw
import Saipen.Lock.Registry
import Saipen.Lock.Objects
import Saipen.Lock.Exclusion
import Saipen.Log.Grammar
import Saipen.Log.Render
import Saipen.Log.Redact
import Saipen.Log.Detail
import Saipen.Log.Compaction
import Saipen.Log.Restore
import Saipen.Log.Sealing
import Saipen.Log.SealingLaw
import Saipen.Log.SealingRuns
import Saipen.Log.History
import Saipen.Log.Claimed
import Saipen.Log.Readers
import Saipen.Log.Ledger
import Saipen.Board.Record
import Saipen.State.Scalar
import Saipen.State.Frontmatter
import Saipen.State.Kinds
import Saipen.State.Script
import Saipen.State.Lines
import Saipen.State.Emit
import Saipen.State.Patch
import Saipen.Run
import Saipen.HostAuthority.Authority
import Saipen.HostAuthority.Verification
import Saipen.HostAuthority.Admission
import Saipen.HostAuthority.Handshake
import Saipen.HostAuthority.BrokerLock
import Saipen.Watchdog.Lease
import Saipen.Watchdog.Interleaving
import Saipen.Watchdog.Fencing
import Saipen.OperatorOrigin.Events
import Saipen.OperatorOrigin.Calls
import Saipen.OperatorOrigin.Reservations
import Saipen.ProjectRoot.Binding
import Saipen.LinkTree.Basic
import Saipen.LinkTree.Edits
import Saipen.XPatch.Receipt
import Saipen.XPatch.Operations
import Saipen.XPatch.Steps
import Saipen.XPatch.Plans
import Saipen.XPatch.Boundary
import Saipen.XPatch.Records
import Saipen.XPatch.RoundTrip
import Saipen.XPatch.Atomic
import Saipen.XPatch.Attribution
import Saipen.Board.Parse
import Saipen.Operations.Phases
import Saipen.Operations.Blocker
import Saipen.Operations.Transition
import Saipen.Operations.Gate
import Saipen.Operations.GoalCounters
import Saipen.Operations.GoalRuns
import Saipen.Operations.GoalAgreement
import Saipen.Json.Python
import Saipen.Intake.Contract
import Saipen.Intake.Coverage
import Saipen.Intake.Writers
import Saipen.Intake.Sound
import Saipen.Intake.Revisions
import Saipen.Intake.LedgerLaw
import Saipen.Board.Grammar
import Saipen.Board.Rows
import Saipen.Board.Scrub
import Saipen.Board.Reading
import Saipen.Board.Fields
import Saipen.Board.Writing
import Saipen.Board.FieldLaw
import Saipen.AuditInbox.Binding
import Saipen.AuditInbox.Gate
import Saipen.AuditInbox.Interleaving
import Saipen.AuditInbox.Consumption
import Saipen.AuditInbox.Evidence
import Saipen.State.Brake
import Saipen.Text.Pattern
import Saipen.Log.Failure
import Saipen.Log.Evidence
import Saipen.Log.Attempts
import Saipen.Log.Regression
import Saipen.Graph.Search
import Saipen.Graph.Sweep
import Saipen.Graph.Chain
import Saipen.Board.Graph
import Saipen.Text.Stamp
import Saipen.Board.Pick
import Saipen.Grouping
import Saipen.Board.Blockers
import Saipen.Board.Idle
import Saipen.Board.Detail
import Saipen.Template
import Saipen.Log.ForeignTail
import Saipen.Log.Framing
import Saipen.Closure.Provenance
import Saipen.SourceAppend.LostUpdate
import Saipen.SourceAppend.Handoffs
import Saipen.Supersession.Capsules
import Saipen.Convergence.Verdict
import Saipen.Convergence.Chain
import Saipen.Faulty
import Saipen.Text.Document
import Saipen.Intake.Link
import Saipen.Intake.LinkRow
import Saipen.Intake.LinkLaw
import Saipen.Intake.AllOrNothing
import Saipen.Text.Ended
import Saipen.Board.Duplicates
import Saipen.Board.DuplicateDecision
import Saipen.Board.Renaming
import Saipen.Board.Standing
import Saipen.Board.DuplicateLaw
import Saipen.Board.DuplicateChoices
import Saipen.Json.Compact
import Saipen.Sorting
import Saipen.Storage.Tree
import Saipen.Storage.Order
import Saipen.Storage.Digest
import Saipen.Text.Representation
import Saipen.Intake.Ingress
import Saipen.Log.NextAttempt
import Saipen.Convergence.Deltas
import Saipen.Text.Insert
import Saipen.Text.Taken
import Saipen.Board.Walking
import Saipen.Board.Adding
import Saipen.Board.AddingLaw
import Saipen.Board.Added
import Saipen.Board.GraphLaw
import Saipen.Board.ScrubGraph
import Saipen.Board.ScrubLaw
import Saipen.Campaign.Laws
import Saipen.Campaign.Tail
import Saipen.Dispatch.Crash
import Saipen.Campaign.Effects
import Saipen.Campaign.Invariance
