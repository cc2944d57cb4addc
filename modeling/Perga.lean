import Perga.Runs
import Perga.PairMatching
import Perga.ScreenHistory
import Perga.Transport
import Perga.Cells
import Perga.RowEntries
import Perga.ProtocolEncoder
import Perga.ClientReplica
import Perga.Terminal
import Perga.ShellIntegration
import Perga.Engine
import Perga.Viewport
import Perga.FeedCuts
import Perga.Readings
import Perga.EngineRuns
import Perga.LineTerminal
import Perga.ScrollCounting
import Perga.ClientHistory
import Perga.Ledger
import Perga.Chunking
import Perga.CommandMarks
import Perga.InputEncoders
import Perga.EventLoop
import Perga.EventStream
import Perga.LineBase
import Perga.Transcript
import Perga.CommandEnds
import Perga.ExitContract
import Perga.PtySession
import Perga.ExitedLast
import Perga.PidReuse
import Perga.KnownHosts
import Perga.Profiles
import Perga.ProfileStore
import Perga.SerialOrder
import Perga.ProfileRequests
import Perga.Shuttle
import Perga.ShuttleEvents
import Perga.ShuttleExit
import Perga.ServerSession
import Perga.EventDelivery
import Perga.SizeLimits
import Perga.RawDebug
import Perga.RowScan
import Perga.CanonicalRows
import Perga.JsonTree
import Perga.WireFormat
import Perga.PasteGuard
import Perga.ByteReaders
import Perga.MouseReports
import Perga.ProfileFiles
import Perga.ScrolledRows
import Perga.MarkMachine
import Perga.FeedAssertions
import Perga.SyncMarks
import Perga.ZshStartup
import Perga.HostResponses
import Perga.Console
import Perga.Browser
import Perga.CatchUp
import Perga.BackendSession
import Perga.LocalSession
import Perga.SshSession
import Perga.RemoteSession
import Perga.PtyTeardown
import Perga.FileReplacement
import Perga.ReplacedFiles
import Perga.SshSetup
import Perga.SshSpawn
import Perga.InputStream
import Perga.PromptCycles
import Perga.PtyEnding
import Perga.PtyDemo
import Perga.DemoReturns
import Perga.TrustRaces
import Perga.JoinDeadline
