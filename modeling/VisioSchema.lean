import VisioSchema.Crypto.B64url
import VisioSchema.Crypto.Envelope
import VisioSchema.Dataset.Lerobot
import VisioSchema.Dataset.Spec
import VisioSchema.Diag.RangeRead
import VisioSchema.Diag.ReadFile
import VisioSchema.Ingest.Manifests
import VisioSchema.Ingest.Requests
import VisioSchema.Ingest.Signing
import VisioSchema.Library.Base64
import VisioSchema.Library.Bimap
import VisioSchema.Library.Blocks
import VisioSchema.Library.Claims
import VisioSchema.Library.Crc
import VisioSchema.Library.Delimited
import VisioSchema.Library.Dict
import VisioSchema.Library.Draining
import VisioSchema.Library.Driving
import VisioSchema.Library.EndlessRuns
import VisioSchema.Library.Frames
import VisioSchema.Library.Generators
import VisioSchema.Library.Glob
import VisioSchema.Library.Interleave
import VisioSchema.Library.Json
import VisioSchema.Library.JsonLayout
import VisioSchema.Library.JsonRoundTrip
import VisioSchema.Library.Keystream
import VisioSchema.Library.LenientUtf8
import VisioSchema.Library.LittleEndian
import VisioSchema.Library.MirrorRing
import VisioSchema.Library.Order
import VisioSchema.Library.Retention
import VisioSchema.Library.Runs
import VisioSchema.Library.SlotGate
import VisioSchema.Library.Sorting
import VisioSchema.Library.Text
import VisioSchema.Library.Throwing
import VisioSchema.Library.Timeline
import VisioSchema.Library.Watermark
import VisioSchema.Mcap.AlignedCuts
import VisioSchema.Mcap.ArenaSafety
import VisioSchema.Mcap.Bookkeeping
import VisioSchema.Mcap.Calls
import VisioSchema.Mcap.Carrying
import VisioSchema.Mcap.Continuation
import VisioSchema.Mcap.Continuity
import VisioSchema.Mcap.EndpointConservation
import VisioSchema.Mcap.FaultSafety
import VisioSchema.Mcap.FileWrites
import VisioSchema.Mcap.FrozenMembership
import VisioSchema.Mcap.Groups
import VisioSchema.Mcap.KeyframeCuts
import VisioSchema.Mcap.Keyring
import VisioSchema.Mcap.KeyringFiles
import VisioSchema.Mcap.KeyringRuns
import VisioSchema.Mcap.KeyringSafety
import VisioSchema.Mcap.Numbering
import VisioSchema.Mcap.PartCeiling
import VisioSchema.Mcap.PartFile
import VisioSchema.Mcap.PartLife
import VisioSchema.Mcap.Parts
import VisioSchema.Mcap.PayloadArena
import VisioSchema.Mcap.PythonParts
import VisioSchema.Mcap.ReadbackAccounts
import VisioSchema.Mcap.ReadbackSafety
import VisioSchema.Mcap.ReadbackSound
import VisioSchema.Mcap.Record
import VisioSchema.Mcap.Replay
import VisioSchema.Mcap.SelfDescribing
import VisioSchema.Mcap.SpanCoverage
import VisioSchema.Mcap.SpanReadback
import VisioSchema.Mcap.Storage
import VisioSchema.Mcap.Stories
import VisioSchema.Mcap.Unfailing
import VisioSchema.Mcap.Vrec
import VisioSchema.Mcap.VrecReader
import VisioSchema.Mcap.WriterEndpoint
import VisioSchema.Ota.Agreement
import VisioSchema.Ota.Budget
import VisioSchema.Ota.CommitSafety
import VisioSchema.Ota.Fidelity
import VisioSchema.Ota.Interference
import VisioSchema.Ota.LoopExit
import VisioSchema.Ota.Quiescence
import VisioSchema.Ota.Relay
import VisioSchema.Ota.SendLoop
import VisioSchema.Ota.Session
import VisioSchema.Reader.Chains
import VisioSchema.Reader.Decode
import VisioSchema.Reader.Domain
import VisioSchema.Reader.ExposedStream
import VisioSchema.Reader.Exposure
import VisioSchema.Reader.ExposureJoin
import VisioSchema.Reader.KeyframeMerge
import VisioSchema.Reader.KeyframeStream
import VisioSchema.Reader.Keyframes
import VisioSchema.Reader.Matching
import VisioSchema.Reader.Ordering
import VisioSchema.Reader.Parts
import VisioSchema.Reader.Passes
import VisioSchema.Reader.Prefetch
import VisioSchema.Reader.Pruning
import VisioSchema.Reader.Reordering
import VisioSchema.Reader.Restarts
import VisioSchema.Reader.Rows
import VisioSchema.Reader.Selection
import VisioSchema.Reader.Session
import VisioSchema.Reader.SparseFrames
import VisioSchema.Reader.Splitting
import VisioSchema.Reader.Sync
import VisioSchema.Reader.TimeHistory
import VisioSchema.Reader.Transparency
import VisioSchema.Reader.WindowFrames
import VisioSchema.Reader.WindowItems
import VisioSchema.Reader.Windows
import VisioSchema.Recordings.Answers
import VisioSchema.Recordings.Contiguity
import VisioSchema.Recordings.Identity
import VisioSchema.Recordings.Listing
import VisioSchema.Recordings.Pull
import VisioSchema.Routing.Announce
import VisioSchema.Routing.Bijection
import VisioSchema.Routing.Registry
import VisioSchema.Routing.Relay
import VisioSchema.Routing.TopicMatch
import VisioSchema.SessionJson.Mapping
import VisioSchema.SessionJson.Metadata
import VisioSchema.SessionJson.Sidecar
import VisioSchema.SessionJson.Torn
import VisioSchema.SessionJson.TornMap
import VisioSchema.SettingsQr.Payload
import VisioSchema.SettingsQr.SealedBody
import VisioSchema.SettingsQr.SealedCodec
import VisioSchema.SettingsQr.SealedValidity
import VisioSchema.SettingsQr.Sealing
import VisioSchema.Transport.Boundary
import VisioSchema.Transport.Conservation
import VisioSchema.Transport.ControlPriority
import VisioSchema.Transport.DegradeLatch
import VisioSchema.Transport.DropBound
import VisioSchema.Transport.FramedFd
import VisioSchema.Transport.FramedOutbox
import VisioSchema.Transport.HostEndpoint
import VisioSchema.Transport.MessageInbox
import VisioSchema.Transport.OutboxTraffic
import VisioSchema.Transport.RateCap
import VisioSchema.Transport.Reassembly
import VisioSchema.Transport.SerialWatchdog
import VisioSchema.Transport.Splice
import VisioSchema.Transport.SyncPoints
import VisioSchema.Transport.WakeFd
import VisioSchema.Transport.WritePolicy
import VisioSchema.Wire.Cobs
import VisioSchema.Wire.CobsBuffer
import VisioSchema.Wire.Codec
import VisioSchema.Wire.Crc16
import VisioSchema.Wire.Frame
import VisioSchema.Wire.HostCodec
import VisioSchema.Wire.Image
import VisioSchema.Wire.ImageStream
import VisioSchema.Wire.Message
