import Cytadel.Lib.PartialCompare
import Cytadel.Lib.Options
import Cytadel.Lib.Monitor
import Cytadel.Log.Log
import Cytadel.Proofs.LogLines
import Cytadel.Cli.Arguments
import Cytadel.Proofs.CommandLine
import Cytadel.Lib.PaddedLex
import Cytadel.Match.VersionCompare
import Cytadel.Proofs.VersionTokens
import Cytadel.Proofs.VersionOrder
import Cytadel.Proofs.VersionReference
import Cytadel.Proofs.VersionLaws
import Cytadel.Proofs.VersionSpelling
import Cytadel.Proofs.RangeCoherence
import Cytadel.Db.Schema
import Cytadel.Json
import Cytadel.Db.CveId
import Cytadel.Db.Ingest
import Cytadel.Db.NvdIngest
import Cytadel.Db.EpssIngest
import Cytadel.Proofs.IngestRun
import Cytadel.Proofs.NvdEffect
import Cytadel.Proofs.RecordEffect
import Cytadel.Proofs.CveKeys
import Cytadel.Proofs.PageAtomicity
import Cytadel.Lib.Faults
import Cytadel.Lib.FirstLess
import Cytadel.Lib.Upsert
import Cytadel.Proofs.PageTables
import Cytadel.Proofs.PageCounts
import Cytadel.Proofs.CpeAttribution
import Cytadel.Proofs.MalformedRows
import Cytadel.Db.ScanPersist
import Cytadel.Lib.GroupRuns
import Cytadel.Proofs.ScanAtomicity
import Cytadel.Proofs.ScanGroups
import Cytadel.Proofs.ScanVerdicts
import Cytadel.Proofs.RecordTables
import Cytadel.Lib.Course
import Cytadel.Proofs.IngestCourse
import Cytadel.Proofs.Replay
import Cytadel.Proofs.CpeRevision
import Cytadel.Lib.Writes
import Cytadel.Proofs.FeedOrder
import Cytadel.Proofs.TransientFailures
import Cytadel.Db.Instant
import Cytadel.Proofs.InstantRoundTrip
import Cytadel.Proofs.Calendar
import Cytadel.Proofs.TimestampOrder
import Cytadel.Proofs.InstantGrammar
import Cytadel.Db.NvdCatchup
import Cytadel.Proofs.WindowTrace
import Cytadel.Proofs.Watermark
import Cytadel.Proofs.CatchupWindows
import Cytadel.Lib.Strides
import Cytadel.Proofs.Pagination
import Cytadel.Lib.Chains
import Cytadel.Lib.Dependencies
import Cytadel.Lib.Utf8
import Cytadel.Lib.Runs
import Cytadel.Kb.KbValidate
import Cytadel.Kb.Kb
import Cytadel.Proofs.KbAdmits
import Cytadel.Proofs.KbMap
import Cytadel.Net.CpeMap
import Cytadel.Plugin.ApiReport
import Cytadel.Plugin.DepGraph
import Cytadel.Proofs.TopoSort
import Cytadel.Lib.Leases
import Cytadel.Lib.References
import Cytadel.Plugin.FdTracker
import Cytadel.Plugin.Invoke
import Cytadel.Proofs.FdOwnership
import Cytadel.Cli.ScanWiring
import Cytadel.Proofs.CpeRoundTrip
import Cytadel.Proofs.QuietPersist
import Cytadel.Proofs.FindingsKept
import Cytadel.Proofs.OpenPorts
import Cytadel.Db.EpssSync
import Cytadel.Proofs.EpssPaging
import Cytadel.Net.TargetList
import Cytadel.Lib.Bitmap
import Cytadel.Net.PortRange
import Cytadel.Net.NvdFetch
import Cytadel.Net.CidrWords
import Cytadel.Lib.Firsts
import Cytadel.Match.CpeMatchRaw
import Cytadel.Proofs.PortUnion
import Cytadel.Proofs.FetchBuffer
import Cytadel.Proofs.NullFields
import Cytadel.Proofs.CidrBlocks
import Cytadel.Proofs.TargetExpansion
import Cytadel.Proofs.TargetsFileLines
import Cytadel.Cli.ScanGate
import Cytadel.Lib.Tickets
import Cytadel.Core.WorkerPool
import Cytadel.Proofs.WorkerPool
import Cytadel.Proofs.TargetRecord
import Cytadel.Lib.JsonText
import Cytadel.Proofs.EscapeInverses
import Cytadel.Proofs.UrlSafety
import Cytadel.Report.RawBuffer
import Cytadel.Proofs.EscapeBuffer
import Cytadel.Report.ReportJson
import Cytadel.Proofs.ReportRun
import Cytadel.Proofs.JsonReport
import Cytadel.Lib.JsonUtf8
import Cytadel.Proofs.ReportUtf8
import Cytadel.Lib.HtmlTokens
import Cytadel.Lib.HtmlTree
import Cytadel.Report.ReportHtml
import Cytadel.Proofs.HtmlSkeleton
import Cytadel.Proofs.ReportTree
import Cytadel.Proofs.HostSections
import Cytadel.Proofs.ReportComplete
import Cytadel.Proofs.PointInTime
import Cytadel.Lib.Reads
import Cytadel.Lib.Race
import Cytadel.Db.Migrations
import Cytadel.Proofs.MigrationPrefix
import Cytadel.Net.HttpHead
import Cytadel.Net.HttpProbe
import Cytadel.Plugin.ApiHttp
import Cytadel.Proofs.HttpParsers
import Cytadel.Proofs.HttpRequest
import Cytadel.Plugin.ApiKb
import Cytadel.Plugin.Scheduler
import Cytadel.Proofs.WildcardDispatch
import Cytadel.Lib.Connections
import Cytadel.Db.Processes
import Cytadel.Proofs.Integrity
import Cytadel.Cli.ScanRun
import Cytadel.Proofs.ScanFaults
import Cytadel.Proofs.ScanLifecycle
import Cytadel.Proofs.CompletedScan
