import Mcdma.Cli.Canonical
import Mcdma.Cli.Eui64
import Mcdma.Cli.Parse
import Mcdma.Cli.Topology
import Mcdma.Command.Codec
import Mcdma.Command.Mailbox
import Mcdma.Fabric.Calls
import Mcdma.Fabric.Contract
import Mcdma.Fabric.Counts
import Mcdma.Fabric.Cover
import Mcdma.Fabric.Credit
import Mcdma.Fabric.Deliver
import Mcdma.Fabric.Effect
import Mcdma.Fabric.Failure
import Mcdma.Fabric.FailureCauses
import Mcdma.Fabric.FailureMoves
import Mcdma.Fabric.FailureRuns
import Mcdma.Fabric.FailureSafety
import Mcdma.Fabric.Flush
import Mcdma.Fabric.Handoff
import Mcdma.Fabric.HandoffParallel
import Mcdma.Fabric.HandoffRuns
import Mcdma.Fabric.HandoffSafety
import Mcdma.Fabric.Hooks
import Mcdma.Fabric.Hostile
import Mcdma.Fabric.Idle
import Mcdma.Fabric.Invariant
import Mcdma.Fabric.Join
import Mcdma.Fabric.LanePorts
import Mcdma.Fabric.Ledger
import Mcdma.Fabric.Loops
import Mcdma.Fabric.Parts
import Mcdma.Fabric.Planning
import Mcdma.Fabric.Posting
import Mcdma.Fabric.Progress
import Mcdma.Fabric.RangeRuns
import Mcdma.Fabric.Ranges
import Mcdma.Fabric.Receive
import Mcdma.Fabric.Roce
import Mcdma.Fabric.RoceRuns
import Mcdma.Fabric.Runs
import Mcdma.Fabric.Safety
import Mcdma.Fabric.Sender
import Mcdma.Fabric.Spread
import Mcdma.Fabric.Steps
import Mcdma.Fabric.System
import Mcdma.Fabric.TakeStep
import Mcdma.Fabric.Units
import Mcdma.Fabric.Wake
import Mcdma.Fabric.Writing
import Mcdma.Hca.AccountRuns
import Mcdma.Hca.Accounts
import Mcdma.Hca.Index
import Mcdma.Hca.IndexRuns
import Mcdma.Hca.Mtu
import Mcdma.Hca.Pool
import Mcdma.Hca.PoolRuns
import Mcdma.Hca.Purge
import Mcdma.Hca.Queue
import Mcdma.Hca.State
import Mcdma.Kv.Answer
import Mcdma.Kv.Export
import Mcdma.Kv.ExportRuns
import Mcdma.Kv.Frames
import Mcdma.Kv.Geometry
import Mcdma.Kv.Labels
import Mcdma.Kv.Pages
import Mcdma.Kv.Reassembly
import Mcdma.Kv.Rows
import Mcdma.Kv.Wire
import Mcdma.Lib.Arith
import Mcdma.Lib.Bits
import Mcdma.Lib.Bytes
import Mcdma.Lib.Checked
import Mcdma.Lib.Circular
import Mcdma.Lib.Dict
import Mcdma.Lib.Follow
import Mcdma.Lib.Layout
import Mcdma.Lib.Machine
import Mcdma.Lib.Order
import Mcdma.Lib.Patch
import Mcdma.Lib.Probe
import Mcdma.Lib.Slots
import Mcdma.Lib.Text
import Mcdma.Lib.Tiles
import Mcdma.Lib.Window
import Mcdma.Link.Chain
import Mcdma.Link.Contain
import Mcdma.Link.Cost
import Mcdma.Link.Deadlock
import Mcdma.Link.Effects
import Mcdma.Link.Flow
import Mcdma.Link.Format
import Mcdma.Link.Misplaced
import Mcdma.Link.Pair
import Mcdma.Link.PairSafety
import Mcdma.Link.Plain
import Mcdma.Link.Refines
import Mcdma.Link.Ring
import Mcdma.Link.Send
import Mcdma.Link.Take
import Mcdma.Link.TakeSpec
import Mcdma.Link.Wire
import Mcdma.Link.WriteTry
import Mcdma.Mirror.Agreement
import Mcdma.Mirror.Core
import Mcdma.Mirror.Decode
import Mcdma.Mirror.Delivers
import Mcdma.Mirror.Ends
import Mcdma.Mirror.Ledger
import Mcdma.Mirror.Lists
import Mcdma.Mirror.Posts
import Mcdma.Mirror.Provider
import Mcdma.Mirror.Queue
import Mcdma.Mirror.Requests
import Mcdma.Mirror.Retired
import Mcdma.Mirror.Rings
import Mcdma.Mirror.Runs
import Mcdma.Mirror.Seen
import Mcdma.Setup.Codec
import Mcdma.Setup.Daemon
import Mcdma.Setup.DaemonRuns
import Mcdma.Setup.DaemonSafety
import Mcdma.Setup.Exchange
import Mcdma.Setup.ExchangeRuns
import Mcdma.Setup.ExchangeSafety
import Mcdma.Setup.Keys
import Mcdma.Setup.Mailbox
import Mcdma.Setup.MailboxSafety
import Mcdma.Setup.Message
import Mcdma.Setup.Xchg
import Mcdma.Verbs.Bits
import Mcdma.Verbs.Encode
import Mcdma.Verbs.Encoders
import Mcdma.Verbs.Pages
import Mcdma.Verbs.Register
import Mcdma.Verbs.Translate
