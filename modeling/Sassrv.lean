import Sassrv.Lib.Transition
import Sassrv.Trdp.Window
import Sassrv.Lib.Serial
import Sassrv.Trdp.Framing
import Sassrv.Trdp.Merge
import Sassrv.Trdp.Termination
import Sassrv.Trdp.Delivery
import Sassrv.Ft.Group
import Sassrv.Ft.Member
import Sassrv.Ft.Queue
import Sassrv.Lib.Tally
import Sassrv.Ft.Ledger
import Sassrv.Ft.Takeover
import Sassrv.Ft.Handlers
import Sassrv.Ft.Calls
import Sassrv.Ft.Messages
import Sassrv.Ft.Runs
import Sassrv.Ft.Rank
import Sassrv.Ft.Agreement
import Sassrv.Lib.Table
import Sassrv.SubMgr.Text
import Sassrv.SubMgr.Types
import Sassrv.SubMgr.Hosts
import Sassrv.SubMgr.Sessions
import Sassrv.SubMgr.Process
import Sassrv.Lib.Partial
import Sassrv.SubMgr.References
import Sassrv.SubMgr.Holding
import Sassrv.SubMgr.Counting
import Sassrv.SubMgr.Collecting
import Sassrv.SubMgr.Runs
import Sassrv.Client.Subjects
import Sassrv.Lib.Buckets
import Sassrv.Rv7.Listeners
import Sassrv.Rv7.Dispatch
import Sassrv.Rv7.Msg
import Sassrv.Rv7.MsgImages
import Sassrv.Daemon.Service
import Sassrv.Daemon.HostSafety
import Sassrv.Rv7.ClientView
import Sassrv.Rv7.Balance
import Sassrv.Lib.Slots
import Sassrv.Rv5.Listeners
import Sassrv.Rv5.Tables
import Sassrv.Rv5.Reentrancy
import Sassrv.Rv7.Batching
import Sassrv.Rv7.SendOrder
import Sassrv.Rv7.FinalFlush
import Sassrv.SubMgr.Turns
import Sassrv.SubMgr.Steps
import Sassrv.SubMgr.HostTurns
import Sassrv.SubMgr.StepTurns
import Sassrv.SubMgr.FreeSlots
import Sassrv.SubMgr.HostIndex
import Sassrv.Client.Connection
import Sassrv.Client.Framing
import Sassrv.Client.SendOrder
import Sassrv.Client.Bridge
import Sassrv.Daemon.Progress
import Sassrv.Daemon.Clients
import Sassrv.Daemon.References
import Sassrv.Daemon.Sharing
import Sassrv.Rv7.FtMonitor
import Sassrv.Rv7.FtMember
import Sassrv.Rv7.FtAlternation
import Sassrv.SubMgr.Held
import Sassrv.SubMgr.ListenInverse
import Sassrv.SubMgr.Recognition
import Sassrv.SubMgr.Wildcards
import Sassrv.SubMgr.StopAdvisories
import Sassrv.Lib.Rounds
import Sassrv.SubMgr.BulkRemoval
import Sassrv.SubMgr.SassKept
import Sassrv.SubMgr.Sass3
import Sassrv.Daemon.SubjectDecoding
import Sassrv.Daemon.Matching
import Sassrv.Daemon.Envelope
import Sassrv.SubMgr.Filters
import Sassrv.Daemon.Routes
import Sassrv.Daemon.RouteCollisions
import Sassrv.Daemon.Views
import Sassrv.Daemon.Reassert
import Sassrv.Trdp.Bounds
import Sassrv.Trdp.Wrap
import Sassrv.Trdp.Accounting
import Sassrv.Ft.Arming
import Sassrv.Ft.Latency
import Sassrv.Daemon.Digest
import Sassrv.Daemon.Advisory
import Sassrv.Daemon.Losses
import Sassrv.Ft.Listening
import Sassrv.Ft.Silence
import Sassrv.Ft.Notices
import Sassrv.Ft.Housing
import Sassrv.Ft.Restart
import Sassrv.Ft.Presence
import Sassrv.Ft.Promotion
import Sassrv.Ft.Bookkeeping
import Sassrv.Ft.TimerRuns
import Sassrv.Daemon.SessionNames
import Sassrv.Trdp.SavedList
import Sassrv.SubMgr.Issued
import Sassrv.SubMgr.SassExpiry
import Sassrv.SubMgr.SessionCodec
import Sassrv.Lib.Comparators
import Sassrv.Rv7.FieldGeometry
import Sassrv.Rv7.FieldIds
import Sassrv.Rv7.PeerOrder
import Sassrv.Rv7.SubMessages
import Sassrv.Rv7.Release
import Sassrv.Trdp.Fragments
import Sassrv.Trdp.Reassembly
import Sassrv.Trdp.Leftover
import Sassrv.Lib.Replay
import Sassrv.SubMgr.Callbacks
import Sassrv.SubMgr.Registry
import Sassrv.Lib.Digests
import Sassrv.SubMgr.Conditions
import Sassrv.SubMgr.DigestRuns
import Sassrv.Client.Handshake
import Sassrv.Daemon.Rpc
import Sassrv.SubMgr.Sync
