import NfsEmbed.Lib.BigEndian
import NfsEmbed.Lib.Numerals
import NfsEmbed.Lib.Format
import NfsEmbed.Lib.Fronts
import NfsEmbed.Lib.Parser
import NfsEmbed.Lib.Usize
import NfsEmbed.Lib.Vec
import NfsEmbed.Lib.Transition
import NfsEmbed.Lib.Resources
import NfsEmbed.Lib.Table
import NfsEmbed.Lib.Maximum
import NfsEmbed.Lib.Interaction
import NfsEmbed.Lib.Computation
import NfsEmbed.Lib.Streams
import NfsEmbed.Lib.Paging
import NfsEmbed.Vfs.Context
import NfsEmbed.Vfs.Address
import NfsEmbed.Vfs.Types
import NfsEmbed.Vfs.Interface
import NfsEmbed.Rpc.Codec
import NfsEmbed.Rpc.Primitives
import NfsEmbed.Rpc.Auth
import NfsEmbed.Rpc.Reply
import NfsEmbed.Rpc.Record
import NfsEmbed.Rpc.Reader
import NfsEmbed.Rpc.Segments
import NfsEmbed.Nfs3.Types
import NfsEmbed.Nfs3.Procedures
import NfsEmbed.Nfs3.Codec
import NfsEmbed.Mount3.Types
import NfsEmbed.Handles.Codec
import NfsEmbed.Replay.Cache
import NfsEmbed.Replay.Run
import NfsEmbed.Server.Config
import NfsEmbed.Server.Fingerprint
import NfsEmbed.Server.Reply
import NfsEmbed.Server.Nfs
import NfsEmbed.Server.Mount
import NfsEmbed.Server.Portmapper
import NfsEmbed.Server.Dispatch
import NfsEmbed.Server.Connection
import NfsEmbed.Server.Budgets
import NfsEmbed.Server.MountTable
import NfsEmbed.Client.Arguments
import NfsEmbed.Client.Results
import NfsEmbed.Client.Replies
import NfsEmbed.Client.Mounts
import NfsEmbed.Client.Walk
import NfsEmbed.Client.Transfers
import NfsEmbed.Laws.Vfs.Address
import NfsEmbed.Laws.Rpc.Codec
import NfsEmbed.Laws.Rpc.Auth
import NfsEmbed.Laws.Rpc.Record
import NfsEmbed.Laws.Rpc.Reader
import NfsEmbed.Laws.Rpc.Segments
import NfsEmbed.Laws.Handles.Codec
import NfsEmbed.Laws.Replay.Consistency
import NfsEmbed.Laws.Replay.Sections
import NfsEmbed.Laws.Replay.Invariant
import NfsEmbed.Laws.Replay.AtMostOnce
import NfsEmbed.Laws.Replay.Waiters
import NfsEmbed.Laws.Replay.Order
import NfsEmbed.Laws.Replay.Sources
import NfsEmbed.Laws.Replay.Steps
import NfsEmbed.Laws.Replay.Expiry
import NfsEmbed.Laws.Replay.Retention
import NfsEmbed.Laws.Nfs3.Fields
import NfsEmbed.Laws.Nfs3.Arguments
import NfsEmbed.Laws.Nfs3.Results
import NfsEmbed.Laws.Server.Fingerprint
import NfsEmbed.Laws.Server.Procedures
import NfsEmbed.Laws.Server.Mount
import NfsEmbed.Laws.Server.Execution
import NfsEmbed.Laws.Server.Isolation
import NfsEmbed.Laws.Server.Exports
import NfsEmbed.Laws.Server.MountLists
import NfsEmbed.Laws.Rpc.Primitives
import NfsEmbed.Laws.Server.MountPath
import NfsEmbed.Laws.Server.MountTable
import NfsEmbed.Server.Lifecycle
import NfsEmbed.Laws.Server.Readdir
import NfsEmbed.Laws.Server.Replies
import NfsEmbed.Laws.Server.Origin
import NfsEmbed.Laws.Server.Connection
import NfsEmbed.Laws.Server.Placement
import NfsEmbed.Laws.Server.Leases
import NfsEmbed.Laws.Server.Receivers
import NfsEmbed.Laws.Server.Provenance
import NfsEmbed.Laws.Server.Budgets
import NfsEmbed.Laws.Server.AtMostOnce
import NfsEmbed.Laws.Server.Lifecycle
import NfsEmbed.Laws.Server.Waiting
import NfsEmbed.Laws.Server.Progress
import NfsEmbed.Laws.Server.Delivery
import NfsEmbed.Laws.Client.Results
import NfsEmbed.Laws.Client.Replies
import NfsEmbed.Laws.Client.Walk
import NfsEmbed.Laws.Client.Reading
import NfsEmbed.Laws.Client.Writing
import NfsEmbed.Client.Call
import NfsEmbed.Laws.Server.Header
import NfsEmbed.Laws.Server.Credentials
import NfsEmbed.Laws.Nfs3.Sizes
import NfsEmbed.Laws.Nfs3.Truncation
import NfsEmbed.Laws.Server.Capacity
import NfsEmbed.Laws.Server.Mutations
import NfsEmbed.Laws.Server.Transfers
import NfsEmbed.Laws.Server.Listings
import NfsEmbed.Laws.Server.Discipline
import NfsEmbed.Laws.Server.Portmapper
import NfsEmbed.Laws.Server.Portmap
import NfsEmbed.Lib.Simulation
import NfsEmbed.Legacy.TransactionTracker
import NfsEmbed.Legacy.Xdr
import NfsEmbed.Legacy.Nfs
import NfsEmbed.Legacy.Message
import NfsEmbed.Legacy.RpcMessage
import NfsEmbed.Legacy.FileSystem
import NfsEmbed.Legacy.WriteCounter
import NfsEmbed.Legacy.Handlers
import NfsEmbed.Laws.Legacy.TransactionTracker
import NfsEmbed.Laws.Legacy.Xdr
import NfsEmbed.Laws.Legacy.Results
import NfsEmbed.Laws.Legacy.Arguments
import NfsEmbed.Laws.Legacy.Handlers
import NfsEmbed.Laws.Legacy.Pages
import NfsEmbed.Laws.Legacy.Arms
import NfsEmbed.Laws.Legacy.Guard
import NfsEmbed.Laws.Legacy.Limits
import NfsEmbed.Laws.Legacy.Listing
import NfsEmbed.Laws.Legacy.Replies
import NfsEmbed.Laws.Legacy.RpcMessage
