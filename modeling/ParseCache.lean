import ParseCache.Buffers
import ParseCache.Collection.Basic
import ParseCache.Collection.Handle
import ParseCache.Command.Basic
import ParseCache.Command.Footprint
import ParseCache.Command.Report
import ParseCache.Command.Run
import ParseCache.CommandLine.Invocation
import ParseCache.CommandLine.Level
import ParseCache.CommandLine.Switch
import ParseCache.CommandLine.Token
import ParseCache.Config
import ParseCache.Disk
import ParseCache.Document.Basic
import ParseCache.Document.Digest
import ParseCache.Document.Key
import ParseCache.Engine
import ParseCache.Error
import ParseCache.FileEntry
import ParseCache.Handle
import ParseCache.Include.Argument
import ParseCache.Include.Directive
import ParseCache.Include.Engine
import ParseCache.Include.Scan
import ParseCache.Json.Basic
import ParseCache.Json.Printer
import ParseCache.Json.Reader
import ParseCache.Json.Record
import ParseCache.Main
import ParseCache.Path.Basic
import ParseCache.Path.Normal
import ParseCache.PathSet
import ParseCache.ProjectPart
import ParseCache.Proofs.Collection.Action
import ParseCache.Proofs.Collection.Coherence
import ParseCache.Proofs.Collection.Configuration
import ParseCache.Proofs.Collection.Drift
import ParseCache.Proofs.Collection.Marking
import ParseCache.Proofs.Collection.Reachable
import ParseCache.Proofs.Collection.Requests
import ParseCache.Proofs.Disk.FileChange
import ParseCache.Proofs.Disk.Spelling
import ParseCache.Proofs.Include.Dependence
import ParseCache.Proofs.Include.SourceChange
import ParseCache.Proofs.Path.Canonical
import ParseCache.Proofs.Update.DirtyRace
import ParseCache.Proofs.Update.Notification
import ParseCache.Proofs.Update.Outdated
import ParseCache.Proofs.Update.Session
import ParseCache.Proofs.Update.Steps
import ParseCache.Scenario.Report
import ParseCache.Scenario.Run
import ParseCache.Scenario.Stage
import ParseCache.Scenario.Step
import ParseCache.Scenario.Updates
import ParseCache.Table
import ParseCache.Text.Blank
import ParseCache.TimePoint.Basic
import ParseCache.TimePoint.Issue
import ParseCache.Update.Basic
import ParseCache.Update.Run
import ParseCache.WatchRegistry
import ParseCache.Workspace
import ParseCache.Proofs.Lists
import ParseCache.Proofs.Path.Sets
import ParseCache.Proofs.Table.Keys
import ParseCache.Proofs.Watch.Balance
import ParseCache.Proofs.Collection.LateResults
import ParseCache.Proofs.Collection.Membership
import ParseCache.Proofs.Watch.History
import ParseCache.Proofs.Include.Reading
import ParseCache.Proofs.Include.Closure
import ParseCache.Proofs.Include.Sufficiency
import ParseCache.Proofs.Path.Walk
import ParseCache.Proofs.Collection.OwnFile
import ParseCache.Proofs.Include.Resolving
import ParseCache.Proofs.Collection.Refusal
import ParseCache.Proofs.Update.ConfigurationRace
import ParseCache.Proofs.Update.Journal
import ParseCache.Proofs.Collection.KeyOrder
import ParseCache.Proofs.Collection.Stamps
import ParseCache.Proofs.Collection.States
import ParseCache.Proofs.Update.Ledger
import ParseCache.Proofs.Update.Settling
import ParseCache.Proofs.Update.Combined
import ParseCache.Proofs.Update.Failure
import ParseCache.Proofs.Collection.Edits
import ParseCache.Proofs.Include.Shadowing
import ParseCache.Proofs.Collection.Removal
import ParseCache.Proofs.Collection.Registering
import ParseCache.Proofs.Collection.Configured
import ParseCache.Proofs.Update.Independence
import ParseCache.Proofs.Json.Tokens
import ParseCache.Proofs.Json.RoundTrip
import ParseCache.Proofs.Collection.Loading
import ParseCache.Proofs.Include.Verdict
import ParseCache.Proofs.Command.Running
import ParseCache.Proofs.Command.Touch
import ParseCache.Proofs.Command.ExitCode
import ParseCache.Proofs.TimePoint.Issuing
import ParseCache.Proofs.Update.Contract
import ParseCache.Proofs.Text.ByteOrder
import ParseCache.Proofs.Collection.Listing
import ParseCache.Proofs.Include.Following
import ParseCache.Proofs.Collection.Viewpoint
import ParseCache.Proofs.Command.WorkingDirectory
import ParseCache.Proofs.Text.Lines
import ParseCache.Proofs.Include.Recognition
import ParseCache.Proofs.Handle.Disposal
import ParseCache.Proofs.Buffers.LastWrite
