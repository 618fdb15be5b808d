import SignalAudit.Command.Audit
import SignalAudit.Command.Flags
import SignalAudit.Command.Help
import SignalAudit.Command.Run
import SignalAudit.Console.Level
import SignalAudit.Console.Log
import SignalAudit.Console.Terminal
import SignalAudit.FileSystem.Access
import SignalAudit.FileSystem.Basic
import SignalAudit.FileSystem.Resolve
import SignalAudit.Main
import SignalAudit.NameSet
import SignalAudit.Notice
import SignalAudit.Path
import SignalAudit.ProjectRoot
import SignalAudit.Report
import SignalAudit.Scan
import SignalAudit.Settings.Basic
import SignalAudit.Settings.File
import SignalAudit.Signal.Kind
import SignalAudit.Signal.Pattern
import SignalAudit.SourceFile
import SignalAudit.Text.Base64
import SignalAudit.Text.Basic
import SignalAudit.Text.Blank
import SignalAudit.Text.CodePoint
import SignalAudit.Text.Lines
import SignalAudit.Text.Lower
import SignalAudit.Text.Printable
import SignalAudit.Text.Quoted
import SignalAudit.Text.Template
import SignalAudit.Usage
import SignalAudit.Walk
import SignalAudit.Yaml.Decode
import SignalAudit.Yaml.Document
import SignalAudit.Yaml.Lexeme
import SignalAudit.Yaml.Node
import SignalAudit.Yaml.Number
import SignalAudit.Yaml.Reader
import SignalAudit.Yaml.Source
import SignalAudit.Yaml.Tag
import SignalAudit.Yaml.Timestamp
import SignalAudit.Yaml.Token
import SignalAudit.Yaml.TokenStream
import SignalAudit.Proofs.Resolution
import SignalAudit.Proofs.CanonicalSpelling
import SignalAudit.Proofs.CycleSafety
import SignalAudit.Proofs.Itinerary
import SignalAudit.Proofs.VisitOrder
import SignalAudit.Proofs.EntryObjects
import SignalAudit.Proofs.WalkExactness
import SignalAudit.Proofs.FileClassification
import SignalAudit.Proofs.ReportPartition
import SignalAudit.Proofs.ScanExactness
import SignalAudit.Proofs.SourceLines
import SignalAudit.Proofs.ReportTally
import SignalAudit.Proofs.OrderIndependence
import SignalAudit.Proofs.ReportReading
import SignalAudit.Proofs.ScanJournal
import SignalAudit.Proofs.ExitPolicy
import SignalAudit.Proofs.RootMarker
import SignalAudit.Proofs.ArgumentSpelling
import SignalAudit.Proofs.LiveLinks
import SignalAudit.Proofs.WalkFailure
import SignalAudit.Proofs.RootSpelling
import SignalAudit.Proofs.NameScanning
import SignalAudit.Proofs.CompatFolding
import SignalAudit.Proofs.DiagnosticsIndependence
import SignalAudit.Proofs.FaithfulJournal
import SignalAudit.Proofs.SignalAccount
import SignalAudit.Proofs.CodePoints
import SignalAudit.Proofs.LineReading
import SignalAudit.Proofs.BytewiseReading
import SignalAudit.Proofs.FirstCulprit
import SignalAudit.Proofs.SettingsLayers
import SignalAudit.Proofs.StableExtraction
import SignalAudit.Proofs.FileOutcome
import SignalAudit.Proofs.VisitedPaths
import SignalAudit.Proofs.WalkObstacles
import SignalAudit.Proofs.FailingVisit
import SignalAudit.Proofs.FilterIndependence
import SignalAudit.Proofs.IgnoredNames
import SignalAudit.Proofs.ReportIncrement
import SignalAudit.Proofs.LineEndings
import SignalAudit.Proofs.Concatenation
import SignalAudit.Proofs.SurroundingBlanks
import SignalAudit.Proofs.LogFiltering
import SignalAudit.Proofs.SetPrograms
