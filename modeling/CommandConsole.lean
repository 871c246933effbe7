import CommandConsole.Main
import CommandConsole.Host.Scripted
import CommandConsole.Host.Watch
import CommandConsole.Proofs.Dialogue
import CommandConsole.Proofs.PipelineCourse
import CommandConsole.Proofs.LineRoundTrip
import CommandConsole.Proofs.ContextChanges
import CommandConsole.Proofs.Weave
import CommandConsole.Proofs.JobTable
import CommandConsole.Proofs.JobSteps
import CommandConsole.Proofs.Strands
import CommandConsole.Proofs.SteadyHost
import CommandConsole.Proofs.AtWork
import CommandConsole.Proofs.JobLife
import CommandConsole.Proofs.JobTasks
import CommandConsole.Proofs.JobCeiling
import CommandConsole.Proofs.JobOutcomes
import CommandConsole.Proofs.Schedule
import CommandConsole.Proofs.Driving
import CommandConsole.Proofs.TwoWays
import CommandConsole.Proofs.JobInPlay
import CommandConsole.Proofs.WaysAgree
import CommandConsole.Proofs.SessionTable
import CommandConsole.Proofs.Errands
import CommandConsole.Proofs.Relay
import CommandConsole.Proofs.SessionKeeping
import CommandConsole.Proofs.SessionStreams
import CommandConsole.Proofs.SessionLife
import CommandConsole.Proofs.SessionCalls
import CommandConsole.Proofs.Moments
import CommandConsole.Proofs.StageQuestions
import CommandConsole.Proofs.Cancellation
import CommandConsole.Proofs.LongestName
import CommandConsole.Proofs.Requests
import CommandConsole.Proofs.HistoryKeeping
import CommandConsole.Proofs.Recording
import CommandConsole.Proofs.WellFormed
import CommandConsole.Proofs.PathNormal
import CommandConsole.Proofs.BuiltinChanges
import CommandConsole.Proofs.Directories
import CommandConsole.Proofs.Variables
import CommandConsole.Proofs.EscapedValues
import CommandConsole.Proofs.Listings
import CommandConsole.Proofs.VirtualClock
import CommandConsole.Proofs.Eviction
import CommandConsole.Proofs.HistoryLog
import CommandConsole.Proofs.LastDeclared
import CommandConsole.Proofs.WordGrammar
import CommandConsole.Proofs.Cooperation
import CommandConsole.Proofs.Shrinking
import CommandConsole.Proofs.ShutDown
import CommandConsole.Proofs.PipeCutting
import CommandConsole.Proofs.TypedRedirects
import CommandConsole.Proofs.LeadingAlias
import CommandConsole.Proofs.TextPipes
import CommandConsole.Proofs.PathCourse
import CommandConsole.Proofs.Resolution
import CommandConsole.Proofs.VisibleText
import CommandConsole.Proofs.Stripping
import CommandConsole.Proofs.EscapedEnds
import CommandConsole.Proofs.HomePaths
import CommandConsole.Proofs.LossyText
import CommandConsole.Proofs.RawPaths
import CommandConsole.Proofs.WayBack
import CommandConsole.Proofs.RedirectedText
import CommandConsole.Proofs.ExportInTurn
import CommandConsole.Proofs.LiteralSearch
import CommandConsole.Proofs.FirstEnvironment
import CommandConsole.Proofs.SpawnOrder
import CommandConsole.Proofs.Completion
import CommandConsole.Proofs.ProcessLog
import CommandConsole.Proofs.FlagReading
import CommandConsole.Proofs.ByteCuts
import CommandConsole.Proofs.BytewiseReading
