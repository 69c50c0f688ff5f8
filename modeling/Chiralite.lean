import Chiralite.Framework.Json
import Chiralite.Framework.JsonLimits
import Chiralite.Framework.JsonRoundTrip
import Chiralite.Framework.JsonLocality
import Chiralite.Framework.Base64
import Chiralite.Framework.Schema
import Chiralite.Protocol.Messages
import Chiralite.Protocol.Wire
import Chiralite.Sync.Index
import Chiralite.Sync.LiveView
import Chiralite.Sync.Conflicts
import Chiralite.Sync.Journal
import Chiralite.Framework.Run
import Chiralite.Framework.Window
import Chiralite.Sync.JournalRun
import Chiralite.Sync.TornAppend
import Chiralite.Sync.CheckpointCrash
import Chiralite.Sync.Untyped
import Chiralite.Sync.Corruption
import Chiralite.Crypto.Payload
import Chiralite.Crypto.HttpPayload
import Chiralite.Crypto.Certificates
import Chiralite.Crypto.Handshake
import Chiralite.Crypto.HandshakeProgram
import Chiralite.Crypto.ServerHandshake
import Chiralite.Crypto.ClientHandshake
import Chiralite.Crypto.Duplex
import Chiralite.Crypto.Completeness
import Chiralite.Framework.FileTree
import Chiralite.Framework.PathWalk
import Chiralite.Fs.Jail
import Chiralite.Fs.JailWalk
import Chiralite.Framework.Effect
import Chiralite.Hash
import Chiralite.Server.Effects
import Chiralite.Filesystem.Writer
import Chiralite.Server.Session
import Chiralite.Server.Progress
import Chiralite.Sync.Engine
import Chiralite.Sync.Reconcile
import Chiralite.Sync.Diff
import Chiralite.Server.Permissions
import Chiralite.Server.Tracking
import Chiralite.Server.Ownership
import Chiralite.Server.Manifest
import Chiralite.Server.Totality
import Chiralite.Filesystem.WriteSafety
import Chiralite.Server.NamedEntries
import Chiralite.Sync.Watcher
import Chiralite.Sync.Debouncer
import Chiralite.Sync.Erasure
import Chiralite.Sync.SiloWatcher
import Chiralite.Sync.EventBounds
import Chiralite.Framework.Interleave
import Chiralite.Sync.Concurrent
import Chiralite.Framework.Locks
import Chiralite.Sync.PathLocks
import Chiralite.Server.Connections
import Chiralite.Transport.HttpSse
import Chiralite.Framework.Utf8
import Chiralite.Framework.Fifo
import Chiralite.Framework.LineIterator
import Chiralite.Transport.SseReader
import Chiralite.Framework.Chunked
import Chiralite.Sandbox.Instream
import Chiralite.Security.Audit
import Chiralite.Security.RateLimit
import Chiralite.Client.Session
import Chiralite.Client.Retry
import Chiralite.Server.PlainSilo
import Chiralite.Sync.Forwarding
import Chiralite.Sync.Replication
import Chiralite.Server.AuditTrail
import Chiralite.Server.AuditReplay
import Chiralite.Security.AuditText
import Chiralite.Server.Confinement
import Chiralite.Framework.TwoDigits
import Chiralite.Server.Admission
import Chiralite.Security.AuditTail
import Chiralite.Server.Provenance
import Chiralite.Server.FileModes
import Chiralite.Server.Scanned
import Chiralite.Framework.Answering
import Chiralite.Server.Reflection
import Chiralite.Client.Run
import Chiralite.HashBuilds
