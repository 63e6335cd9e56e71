import KVLite.Semantics.Program
import KVLite.Semantics.Simulation
import KVLite.Math.BigEndian
import KVLite.Math.Bounded
import KVLite.Core.Errors
import KVLite.Core.Keys
import KVLite.Core.Envelope
import KVLite.Core.ListCodec
import KVLite.Core.IntWidth
import KVLite.Core.Engine
import KVLite.Core.MemoryDriver
import KVLite.Core.Database
import KVLite.Core.Collections
import KVLite.Core.Transport
import KVLite.Core.Requests
import KVLite.Core.Readers
import KVLite.Redis.Reply
import KVLite.Redis.Storage
import KVLite.Redis.Strings
import KVLite.Redis.Collections
import KVLite.Redis.Server
import KVLite.Redis.Lifecycle
import KVLite.Semantics.Stream
import KVLite.Semantics.Interleaving
import KVLite.Semantics.RelyGuarantee
import KVLite.Semantics.FailSafe
import KVLite.Core.Guard
import KVLite.Backend.Manifest
import KVLite.Backend.Fresh
import KVLite.Backend.Reopen
import KVLite.Backend.Concurrent
import KVLite.Backend.Binding
import KVLite.Modules.Strings
import KVLite.Modules.Manifest
import KVLite.Modules.ArtifactPaths
import KVLite.Modules.Discovery
import KVLite.Redis.Wire
import KVLite.Redis.Framing
import KVLite.Redis.Authentication
import KVLite.Keyspace.Layout
import KVLite.Keyspace.Kinds
import KVLite.Keyspace.Writes
import KVLite.Keyspace.Probe
import KVLite.Keyspace.OneKind
import KVLite.Keyspace.Reachable
import KVLite.Keyspace.Stored
import KVLite.Keyspace.Shapes
import KVLite.Keyspace.ProbeAt
import KVLite.Keyspace.ReadersAt
import KVLite.Keyspace.Confined
import KVLite.Keyspace.LiveData
import KVLite.Keyspace.Outcome
import KVLite.Keyspace.LiveLists
import KVLite.Keyspace.LiveMembers
import KVLite.Keyspace.Reads
import KVLite.TypedMap.Machine
import KVLite.TypedMap.Records
import KVLite.TypedMap.AnyClock
import KVLite.TypedMap.Probe
import KVLite.TypedMap.Serves
import KVLite.TypedMap.Strings
import KVLite.TypedMap.Hashes
import KVLite.TypedMap.Sets
import KVLite.TypedMap.Lists
import KVLite.TypedMap.Represents
import KVLite.TypedMap.Refinement
import KVLite.Http.ListCodec
import KVLite.Http.Utf8
import KVLite.Http.Server
import KVLite.Http.Remote
import KVLite.Http.Transparency
import KVLite.Http.RedisOverHttp
import KVLite.Faults.Engine
import KVLite.Faults.Removal
import KVLite.Faults.Replacement
import KVLite.Faults.ProtocolRoutes
import KVLite.TypedMap.Keeps
import KVLite.TypedMap.Maintains
import KVLite.TypedMap.Invariant
import KVLite.TypedMap.Existence
import KVLite.TypedMap.Scan
import KVLite.TypedMap.CoreReads
import KVLite.Expiry.Updates
import KVLite.Expiry.Physical
import KVLite.Expiry.Compaction
import KVLite.Expiry.CoreDeadlines
import KVLite.Expiry.Amounts
import KVLite.Expiry.Crossing
import KVLite.Replies.Records
import KVLite.Replies.LiveKeys
import KVLite.Replies.Errors
import KVLite.Replies.ScanRange
import KVLite.Replies.Counters
import KVLite.Replies.SharedCounters
import KVLite.Replies.Pops
import KVLite.Replies.Deletion
import KVLite.Replies.Elements
import KVLite.Replies.Pushes
import KVLite.Replies.Variadic
import KVLite.Expiry.Undated
import KVLite.Expiry.Created
import KVLite.Replies.Handshake
import KVLite.Replies.SetOptions
import KVLite.Replies.Ranges
import KVLite.Replies.ScanType
import KVLite.Expiry.FieldDeletes
import KVLite.Expiry.CodecErrors
import KVLite.Expiry.OnlyDeadline
import KVLite.Modules.ModuleEngine
import KVLite.Http.Entries
