import EntityIndex.Bucket.Host
import EntityIndex.Bucket.Index
import EntityIndex.Bucket.Shelf
import EntityIndex.Bucket.State
import EntityIndex.Bucket.Stored
import EntityIndex.Bytes.Base64
import EntityIndex.Bytes.Crc32c
import EntityIndex.Bytes.Hex
import EntityIndex.Bytes.XXHash64
import EntityIndex.Cluster.Directory
import EntityIndex.Cluster.Drain
import EntityIndex.Cluster.Entities
import EntityIndex.Cluster.Entity
import EntityIndex.Cluster.Fields
import EntityIndex.Cluster.Nodes
import EntityIndex.Cluster.Queues
import EntityIndex.Cluster.Register
import EntityIndex.Cluster.SharedDirectory
import EntityIndex.Cluster.World
import EntityIndex.Indexing.Coordinator
import EntityIndex.Indexing.Generate
import EntityIndex.Indexing.Recovery
import EntityIndex.Indexing.Schema
import EntityIndex.Json.Parse
import EntityIndex.Json.Print
import EntityIndex.Json.Value
import EntityIndex.Model.EntityRef
import EntityIndex.Model.Error
import EntityIndex.Model.Key
import EntityIndex.Model.Meta
import EntityIndex.Model.Record
import EntityIndex.Model.Run
import EntityIndex.Model.Update
import EntityIndex.Model.Uuid
import EntityIndex.Numeric.Binary
import EntityIndex.Numeric.Decimal
import EntityIndex.Numeric.FloatText
import EntityIndex.Persist.Builtin
import EntityIndex.Persist.Codec
import EntityIndex.Persist.Committer
import EntityIndex.Persist.Frame
import EntityIndex.Persist.Lz4
import EntityIndex.Persist.Zstd.Bits
import EntityIndex.Persist.Zstd.Codes
import EntityIndex.Persist.Zstd.Compress
import EntityIndex.Persist.Zstd.Frame
import EntityIndex.Persist.Zstd.Fse
import EntityIndex.Persist.Zstd.Huffman
import EntityIndex.Persist.Zstd.Literals
import EntityIndex.Persist.Zstd.Matches
import EntityIndex.Persist.Zstd.Sequences
import EntityIndex.Proofs.Bucket.Batches
import EntityIndex.Proofs.Bucket.Chains
import EntityIndex.Proofs.Bucket.Entries
import EntityIndex.Proofs.Bucket.Flat
import EntityIndex.Proofs.Bucket.FlatRuns
import EntityIndex.Proofs.Bucket.HostVia
import EntityIndex.Proofs.Bucket.Interleaving
import EntityIndex.Proofs.Bucket.Ownership
import EntityIndex.Proofs.Bucket.Shelf
import EntityIndex.Proofs.Bucket.StatusWalk
import EntityIndex.Proofs.Bucket.Steps
import EntityIndex.Proofs.Bucket.UniformStatus
import EntityIndex.Proofs.Cluster.ActiveSet
import EntityIndex.Proofs.Cluster.Reincarnation
import EntityIndex.Proofs.Cluster.SingleFlight
import EntityIndex.Proofs.Cluster.StaleReplay
import EntityIndex.Proofs.Indexing.AbandonedWrites
import EntityIndex.Proofs.Model.Maps
import EntityIndex.Proofs.Model.Run
import EntityIndex.Proofs.Persist.FrameLayout
import EntityIndex.Proofs.Persist.GroupCommit
import EntityIndex.Proofs.Workflow.QueueSteps
import EntityIndex.Requests.Answer
import EntityIndex.Requests.Buckets
import EntityIndex.Requests.Coordinators
import EntityIndex.Requests.Directories
import EntityIndex.Requests.Frames
import EntityIndex.Requests.Handlers
import EntityIndex.Requests.Indexes
import EntityIndex.Requests.Queues
import EntityIndex.Requests.Recoveries
import EntityIndex.Requests.Schemas
import EntityIndex.Requests.Systems
import EntityIndex.Requests.Values
import EntityIndex.Requests.Wire
import EntityIndex.Store.Blobs
import EntityIndex.Store.Documents
import EntityIndex.Store.Forms
import EntityIndex.Text.Printable
import EntityIndex.Text.Quote
import EntityIndex.Text.Time
import EntityIndex.Text.Utf8
import EntityIndex.Workflow.Handler
import EntityIndex.Workflow.Queue
import EntityIndex.Workflow.QueueId
import EntityIndex.Proofs.Bucket.Locality
import EntityIndex.Proofs.Bucket.Reversal
import EntityIndex.Proofs.Indexing.UniqueUndo
import EntityIndex.Proofs.Bucket.Replay
import EntityIndex.Proofs.Bucket.Staging
import EntityIndex.Proofs.Bucket.Rebuild
import EntityIndex.Proofs.Workflow.Redelivery
import EntityIndex.Proofs.Text.Utf8Bytes
import EntityIndex.Proofs.Json.ReadBack
import EntityIndex.Proofs.Model.UuidText
import EntityIndex.Proofs.Persist.StoredForms
import EntityIndex.Proofs.Bucket.Storable
import EntityIndex.Proofs.Persist.SaveLoad
import EntityIndex.Proofs.Indexing.Migration
import EntityIndex.Proofs.Cluster.EnforcedPairs
import EntityIndex.Proofs.Cluster.ActivationTracking
import EntityIndex.Proofs.Indexing.WriteWindow
import EntityIndex.Proofs.Workflow.QueueAddress
import EntityIndex.Proofs.Bucket.Growths
import EntityIndex.Proofs.Bucket.Filling
import EntityIndex.Proofs.Bucket.ChainCount
import EntityIndex.Proofs.Indexing.Generation
import EntityIndex.Proofs.Bytes.Base64Text
import EntityIndex.Proofs.Text.Fields
import EntityIndex.Proofs.Text.TimeText
import EntityIndex.Proofs.Numeric.Shortest
import EntityIndex.Proofs.Numeric.Rounding
import EntityIndex.Proofs.Numeric.FloatText
import EntityIndex.Proofs.Model.KeySeparation
import EntityIndex.Proofs.Persist.Retries
import EntityIndex.Proofs.Indexing.SchemaAcceptance
import EntityIndex.Proofs.Cluster.Registration
import EntityIndex.Proofs.Bucket.WalkBounds
