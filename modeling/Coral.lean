import Coral.Graph.Apply
import Coral.Graph.Store
import Coral.Graph.Yaml
import Coral.Library.Codes
import Coral.Library.FileScript
import Coral.Library.FileTree
import Coral.Library.Forest
import Coral.Library.LastRun
import Coral.Library.Machine
import Coral.Library.Phrases
import Coral.Library.Recency
import Coral.Library.Rounds
import Coral.Library.Sha256
import Coral.Library.Sorted
import Coral.Library.Threads
import Coral.Node.Agent
import Coral.Node.AgentCore
import Coral.Node.AgentFs
import Coral.Node.CallTools
import Coral.Node.Decision
import Coral.Node.Evidence
import Coral.Node.Health
import Coral.Node.HealthFiles
import Coral.Node.Json
import Coral.Node.LlmDecide
import Coral.Node.LocalDisk
import Coral.Node.LocalWrites
import Coral.Node.ModelClient
import Coral.Node.PerAgentGit
import Coral.Node.Prompt
import Coral.Node.Reading
import Coral.Node.Schema
import Coral.Node.Storage
import Coral.Node.Text
import Coral.Node.Tools
import Coral.Node.TriggerQueue
import Coral.Node.VendorBodies
import Coral.Node.Wire
import Coral.Proofs.ActionExecution
import Coral.Proofs.AgentIsolation
import Coral.Proofs.AgentKeyspace
import Coral.Proofs.AgentPrefixes
import Coral.Proofs.ApplyPipeline
import Coral.Proofs.Authorship
import Coral.Proofs.BackendRefinement
import Coral.Proofs.BackendTransparency
import Coral.Proofs.BatchTail
import Coral.Proofs.CallBatch
import Coral.Proofs.CanonicalJson
import Coral.Proofs.ChildAuthority
import Coral.Proofs.ChildReplacement
import Coral.Proofs.ChildReports
import Coral.Proofs.CitationForgery
import Coral.Proofs.CitationPins
import Coral.Proofs.CitationRows
import Coral.Proofs.CommitHistory
import Coral.Proofs.CommitManifest
import Coral.Proofs.ConflictRecords
import Coral.Proofs.Continuation
import Coral.Proofs.CrashAtomicity
import Coral.Proofs.CycleBudget
import Coral.Proofs.DecideFaults
import Coral.Proofs.DecisionEncoding
import Coral.Proofs.DecisionJournal
import Coral.Proofs.DigestRows
import Coral.Proofs.DiskCalls
import Coral.Proofs.DiskRefinement
import Coral.Proofs.DispatchScoping
import Coral.Proofs.EvidenceNames
import Coral.Proofs.EvidenceWindow
import Coral.Proofs.FileFaults
import Coral.Proofs.ForceIdle
import Coral.Proofs.ForestWalk
import Coral.Proofs.GraphActivities
import Coral.Proofs.GraphSchema
import Coral.Proofs.GraphStep
import Coral.Proofs.HandoverWire
import Coral.Proofs.HealthAgreement
import Coral.Proofs.HostAgreement
import Coral.Proofs.IncidentArchive
import Coral.Proofs.LastingStorage
import Coral.Proofs.LifeBound
import Coral.Proofs.ListPaging
import Coral.Proofs.Lockstep
import Coral.Proofs.Navigation
import Coral.Proofs.NotePlan
import Coral.Proofs.Notebook
import Coral.Proofs.NotesIndex
import Coral.Proofs.NotesLedger
import Coral.Proofs.NotesListing
import Coral.Proofs.NotesRecency
import Coral.Proofs.NotesRecovery
import Coral.Proofs.Papers
import Coral.Proofs.PayloadBound
import Coral.Proofs.PersistConvergence
import Coral.Proofs.PinnedVersions
import Coral.Proofs.ProvenanceOrder
import Coral.Proofs.QuiescenceSoundness
import Coral.Proofs.ReconcileAtomicity
import Coral.Proofs.RetireTrace
import Coral.Proofs.RetirementPreemption
import Coral.Proofs.RetryTranscript
import Coral.Proofs.SignalAccounting
import Coral.Proofs.SignalConservation
import Coral.Proofs.SlugBodies
import Coral.Proofs.StatusPin
import Coral.Proofs.StatusTelemetry
import Coral.Proofs.Stopping
import Coral.Proofs.StorageLaws
import Coral.Proofs.StoreCalls
import Coral.Proofs.SweepTime
import Coral.Proofs.TailIdempotence
import Coral.Proofs.TailRebuild
import Coral.Proofs.TeardownOrder
import Coral.Proofs.Topology
import Coral.Proofs.TriggerDelivery
import Coral.Proofs.TriggerOrder
import Coral.Proofs.WakeReason
import Coral.Proofs.WindowLag
import Coral.Proofs.WorkflowInvariant
import Coral.Proofs.WorkflowStep
import Coral.Temporal.Activities
import Coral.Temporal.FileActivities
import Coral.Temporal.Graph
import Coral.Temporal.HostSteps
import Coral.Temporal.InputReading
import Coral.Temporal.Oracle
import Coral.Temporal.Provenance
import Coral.Temporal.Quiescence
import Coral.Temporal.State
import Coral.Temporal.ToolBatch
import Coral.Temporal.Workflow
import Coral.Worker.Reaper
import Coral.Worker.Sweeps
import Coral.Worker.Teardown
import Coral.Worker.ToolProvider
