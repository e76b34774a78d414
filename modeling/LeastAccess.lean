import LeastAccess.Text.Blank
import LeastAccess.Text.Utf8
import LeastAccess.Text.Units
import LeastAccess.Text.Quoted
import LeastAccess.Binary64.Basic
import LeastAccess.Binary64.Rounding
import LeastAccess.Binary64.Shortest
import LeastAccess.Binary64.Numeral
import LeastAccess.Json.Basic
import LeastAccess.Json.Printer
import LeastAccess.Json.Reader
import LeastAccess.Json.Plain
import LeastAccess.Json.View
import LeastAccess.Schema.Issue
import LeastAccess.Schema.Basic
import LeastAccess.Level
import LeastAccess.Declaration
import LeastAccess.UsageSite
import LeastAccess.Graph.Basic
import LeastAccess.Graph.Containment
import LeastAccess.Graph.Inheritance
import LeastAccess.Graph.Register
import LeastAccess.UsageIndex
import LeastAccess.Codebase
import LeastAccess.Annotations
import LeastAccess.EntryPoint
import LeastAccess.Subclassing
import LeastAccess.Options
import LeastAccess.Requirement
import LeastAccess.Token
import LeastAccess.Accumulator
import LeastAccess.Scan
import LeastAccess.Resolution
import LeastAccess.Resolver
import LeastAccess.Suggestion
import LeastAccess.Withdrawal
import LeastAccess.Failure
import LeastAccess.Report
import LeastAccess.Pool
import LeastAccess.Timetable
import LeastAccess.Analysis
import LeastAccess.Schedule
import LeastAccess.Logging
import LeastAccess.Logging.ErrorDetails
import LeastAccess.Logging.Logger
import LeastAccess.Journal
import LeastAccess.Snapshot.Format
import LeastAccess.Snapshot.Reading
import LeastAccess.Snapshot.Integrity
import LeastAccess.Snapshot.Loading
import LeastAccess.Config.Basic
import LeastAccess.Config.Format
import LeastAccess.Config.Reading
import LeastAccess.Files.Path
import LeastAccess.Files.FileSystem
import LeastAccess.Files.Tree
import LeastAccess.Snapshot.File
import LeastAccess.Config.Loading
import LeastAccess.Command.Transcript
import LeastAccess.Command.Analyze
import LeastAccess.Command.Init
import LeastAccess.CommandLine.Similarity
import LeastAccess.CommandLine.Arguments
import LeastAccess.CommandLine.Concurrency
import LeastAccess.CommandLine.Program
import LeastAccess.Main
import LeastAccess.Proofs.Graph.Nesting
import LeastAccess.Proofs.Graph.Supertypes
import LeastAccess.Proofs.Snapshot.Acceptance
import LeastAccess.Proofs.Resolver.PlainJoin
import LeastAccess.Proofs.Resolver.Undisturbed
import LeastAccess.Proofs.Schedule.Findings
import LeastAccess.Proofs.Report.Findings
import LeastAccess.Proofs.Report.Agreement
import LeastAccess.Proofs.Run.Answers
import LeastAccess.Proofs.Run.Schedules
import LeastAccess.Proofs.Requirement.Admission
import LeastAccess.Proofs.Resolver.Screening
import LeastAccess.Proofs.Run.Containment
import LeastAccess.Proofs.Run.Soundness
import LeastAccess.Proofs.Schedule.SingleWorker
import LeastAccess.Proofs.Run.Cancellation
import LeastAccess.Proofs.Adoption.Graph
import LeastAccess.Proofs.Adoption.Resolution
import LeastAccess.Proofs.Run.Adoption
import LeastAccess.Proofs.Schema.Grammar
import LeastAccess.Proofs.Json.KeyOrder
import LeastAccess.Proofs.Snapshot.Enumeration
import LeastAccess.Proofs.Snapshot.Violations
import LeastAccess.Proofs.Snapshot.Refusals
import LeastAccess.Proofs.Graph.Walks
import LeastAccess.Proofs.Config.Acceptance
import LeastAccess.Proofs.Run.Conclusive
import LeastAccess.Proofs.Requirement.Permission
import LeastAccess.Proofs.Resolver.Origin
import LeastAccess.Proofs.Run.Expressibility
import LeastAccess.Proofs.EntryPoint.Marks
import LeastAccess.Proofs.Resolver.Retention
import LeastAccess.Proofs.Scan.Lookout
import LeastAccess.Proofs.Scan.RoundRobin
import LeastAccess.Proofs.Resolver.RoundRobin
import LeastAccess.Proofs.Resolver.Failing
import LeastAccess.Proofs.Run.Locality
import LeastAccess.Proofs.Schedule.Failures
import LeastAccess.Proofs.Run.Failures
import LeastAccess.Proofs.Reordering.Graph
import LeastAccess.Proofs.Reordering.Resolution
import LeastAccess.Proofs.Reordering.Reading
import LeastAccess.Proofs.Reordering.Snapshot
import LeastAccess.Proofs.Run.Reordering
import LeastAccess.Proofs.Pool.Calls
import LeastAccess.Proofs.Schedule.Roster
import LeastAccess.Proofs.Withdrawal.TreeJoin
import LeastAccess.Proofs.Graph.Inheritance
import LeastAccess.Proofs.Resolver.MoreUsages
import LeastAccess.Proofs.Resolver.MoreRules
import LeastAccess.Proofs.Resolver.MoreOptions
import LeastAccess.Proofs.Graph.Forest
import LeastAccess.Proofs.Snapshot.Cycles
import LeastAccess.Proofs.EntryPoint.Leaves
import LeastAccess.Proofs.Schema.Fields
import LeastAccess.Proofs.UsageIndex.Readers
import LeastAccess.Proofs.Schema.Idempotence
import LeastAccess.Proofs.Config.Document
import LeastAccess.Proofs.Schema.Formats
import LeastAccess.Proofs.Snapshot.Description
import LeastAccess.Proofs.Snapshot.Loaded
import LeastAccess.Proofs.Accumulator.Order
import LeastAccess.Proofs.Binary64.Exact
import LeastAccess.Proofs.Binary64.Numeral
import LeastAccess.Proofs.Command.Outcomes
import LeastAccess.Proofs.CommandLine.Concurrency
