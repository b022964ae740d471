import MoqTransport.Lib.Decoder
import MoqTransport.Lib.Delimits
import MoqTransport.Lib.Encoder
import MoqTransport.Lib.InPlace
import MoqTransport.Lib.Expiring
import MoqTransport.Lib.Machine
import MoqTransport.Lib.Fanout
import MoqTransport.Lib.Latest
import MoqTransport.Lib.Locks
import MoqTransport.Lib.MaxHeap
import MoqTransport.Lib.Registry
import MoqTransport.Lib.Splitter
import MoqTransport.Coding.VarInt
import MoqTransport.Coding.Fields
import MoqTransport.Coding.Forms
import MoqTransport.Coding.Utf8
import MoqTransport.Message.Parts
import MoqTransport.Message.Announce
import MoqTransport.Message.Fetch
import MoqTransport.Message.Subscribe
import MoqTransport.Message.Message
import MoqTransport.Message.Framing
import MoqTransport.Setup.Setup
import MoqTransport.Error
import MoqTransport.Session.Reader
import MoqTransport.Session.ControlStream
import MoqTransport.Data.Object
import MoqTransport.Setup.Requests
import MoqTransport.Setup.Safety
import MoqTransport.Watch.State
import MoqTransport.Watch.Wakeups
import MoqTransport.Watch.Queue
import MoqTransport.Serve.Subgroup
import MoqTransport.Serve.Newest
import MoqTransport.Serve.Growth
import MoqTransport.Serve.Objects
import MoqTransport.Serve.Track
import MoqTransport.Serve.StreamGroup
import MoqTransport.Serve.StreamIds
import MoqTransport.Serve.Prioritised
import MoqTransport.Serve.Payload
import MoqTransport.Serve.Tracks
import MoqTransport.Serve.Requests
import MoqTransport.Session.Receive
import MoqTransport.Session.Subscribed
import MoqTransport.Session.Relay
import MoqTransport.Session.Serving
import MoqTransport.Session.TrackServing
import MoqTransport.Session.Position
import MoqTransport.Session.Completion
import MoqTransport.Session.Publisher
import MoqTransport.Session.Lifecycle
import MoqTransport.Session.Announce
import MoqTransport.Session.Subscriber
import MoqTransport.Session.Arrival
import MoqTransport.Session.Subscribe
import MoqTransport.Session.Rejection
import MoqTransport.Session.Fallback
import MoqTransport.Session.Delivery
import MoqTransport.Session.Announced
import MoqTransport.Session.Locking
import MoqTransport.Session.Deadlock
import MoqTransport.Api.Origins
import MoqTransport.Api.Agreement
import MoqTransport.Relay.Api
import MoqTransport.Relay.OriginKey
import MoqTransport.Relay.Consumer
import MoqTransport.Relay.Local
import MoqTransport.Relay.Remote
import MoqTransport.Relay.Remotes
import MoqTransport.Dir.Listing
import MoqTransport.Dir.Listings
import MoqTransport.Dir.Reader
import MoqTransport.Dir.Replication
import MoqTransport.Dir.Snapshot
import MoqTransport.Catalog.Common
import MoqTransport.Mp4.Atom
import MoqTransport.Mp4.Publish
import MoqTransport.Mp4.Fragments
import MoqTransport.Mp4.Keyframes
import MoqTransport.Mp4.Timing
import MoqTransport.Proto.VarInt
import MoqTransport.Ws.Frame
import MoqTransport.Lib.Demux
import MoqTransport.Ws.Session
import MoqTransport.Ws.Calls
import MoqTransport.Ws.Endpoint
import MoqTransport.Ws.Tables
import MoqTransport.Ws.Streams
import MoqTransport.Ws.Link
import MoqTransport.Ws.Writing
import MoqTransport.Ws.Delivery
import MoqTransport.Lib.Framed
import MoqTransport.Session.Control
import MoqTransport.Session.Greeting
import MoqTransport.Session.Negotiation
import MoqTransport.Session.Agreement
import MoqTransport.Session.Handles
import MoqTransport.Lib.Bits
import MoqTransport.Lib.Hashed
import MoqTransport.Lib.Rerun
import MoqTransport.Proto.Frame
import MoqTransport.Proto.Headers
import MoqTransport.Proto.Settings
