import UActor.PubSub.Unsubscribe
import UActor.PubSub.Stored
import UActor.PubSub.Merge
import UActor.PubSub.Announce
import UActor.Lib.Feed
import UActor.Remote.Processors
import UActor.Remote.Egress
import UActor.Lib.Watermark
import UActor.Remote.Ingress
import UActor.Runtime.Node
import UActor.Remote.Publishers
import UActor.Lib.BigEndian
import UActor.Remote.Framer
import UActor.Lib.Handles
import UActor.PubSub.Sharing
import UActor.Remote.Writer
import UActor.Runtime.Wrappers
import UActor.Lib.MsgPack
import UActor.PubSub.Codec
import UActor.PubSub.FilterMap
import UActor.Remote.Network
import UActor.PubSub.Alternation
import UActor.Remote.Connection
import UActor.Remote.Counters
import UActor.Remote.Session
import UActor.Remote.Propagation
import UActor.PubSub.Receivers
import UActor.Runtime.Scheduling
import UActor.Runtime.Mapping
import UActor.Runtime.Blocking
import UActor.Remote.PeerNodes
import UActor.Remote.Malformed
import UActor.Remote.Greeting
import UActor.Remote.PathVector
import UActor.Remote.BadFrames
import UActor.Remote.Numbering
import UActor.Remote.Operands
import UActor.PubSub.Grammar
import UActor.PubSub.Dispatch
import UActor.PubSub.Repeats
import UActor.PubSub.Copies
import UActor.Remote.Snapshot
import UActor.Runtime.ArrivalOrder
import UActor.Runtime.Deadlines
import UActor.Runtime.OwnSubscriptions
import UActor.Controllers.Confluence
import UActor.Controllers.Removals
import UActor.Controllers.Forgotten
import UActor.Controllers.ActiveCounter
import UActor.Controllers.Executors
import UActor.Controllers.Addressees
import UActor.Controllers.Incomplete
import UActor.Controllers.Termination
import UActor.Runtime.CodeLifetimes
import UActor.Runtime.Replies
import UActor.Controllers.Topology
import UActor.Runtime.ScriptFilters
import UActor.Runtime.FanOut
import UActor.PubSub.PlainIndex
import UActor.Controllers.Dependencies
import UActor.Runtime.CodeMisses
import UActor.Remote.Flooding
import UActor.Remote.Convergence
import UActor.Remote.Relay
import UActor.Runtime.Fairness
import UActor.Runtime.CodeDistribution
import UActor.Runtime.CodeRequests
import UActor.Runtime.Conservation
import UActor.Runtime.Subscribers
import UActor.Remote.Partners
