import Plexus.Backend.Benchmark
import Plexus.Engine.Mutation
import Plexus.Engine.Tick
import Plexus.Labelled.Convert
import Plexus.Layers.Preset
import Plexus.Layers.Recipe
import Plexus.Numeric.Single
import Plexus.Training.Epochs
import Plexus.Training.Feed
import Plexus.Value.Tensor
import Plexus.Proofs.Attempt
import Plexus.Proofs.Store.Keyed
import Plexus.Proofs.Store.Faults
import Plexus.Proofs.Store.Table
import Plexus.Proofs.Compiled.Index
import Plexus.Proofs.Compiled.Flatten
import Plexus.Proofs.Compiled.Snapshot
import Plexus.Proofs.Numeric.Exact
import Plexus.Proofs.Numeric.Conversion
import Plexus.Proofs.Numeric.Bits
import Plexus.Proofs.Numeric.Storage
import Plexus.Proofs.Numeric.Order
import Plexus.Proofs.Backend.Lifecycle
import Plexus.Proofs.Backend.Forward
import Plexus.Proofs.Backend.Gradients
import Plexus.Proofs.Backend.Descent
import Plexus.Proofs.Backend.Tiling
import Plexus.Proofs.Numeric.Loss
import Plexus.Proofs.Backend.Interchange
import Plexus.Proofs.Backend.Standing
import Plexus.Proofs.Engine.Coherence
import Plexus.Proofs.Engine.Sync
import Plexus.Proofs.Engine.Mutation
import Plexus.Proofs.Engine.Lifecycle
import Plexus.Proofs.Engine.Moves
import Plexus.Proofs.Engine.Tick
import Plexus.Proofs.Engine.Action
import Plexus.Proofs.Engine.Rate
import Plexus.Proofs.Engine.Reachable
import Plexus.Proofs.Engine.Restocking
import Plexus.Proofs.Engine.Meaning
import Plexus.Proofs.Engine.Retention
import Plexus.Proofs.Engine.Export
import Plexus.Proofs.Engine.Idle
import Plexus.Proofs.Engine.Trained
import Plexus.Proofs.Engine.Tracking
import Plexus.Proofs.Engine.Deletion
import Plexus.Proofs.Engine.Initialised
import Plexus.Proofs.Engine.Import
import Plexus.Proofs.Training.Packing
import Plexus.Proofs.Training.Order
import Plexus.Proofs.Training.Rate
import Plexus.Proofs.Training.Failure
import Plexus.Proofs.Store.Writes
import Plexus.Proofs.Store.Equivalence
import Plexus.Proofs.Store.Keys
import Plexus.Proofs.Store.ReadBack
import Plexus.Proofs.Compiled.Matching
import Plexus.Proofs.Backend.Reading
import Plexus.Proofs.Engine.Order
import Plexus.Proofs.Engine.Indexing
import Plexus.Proofs.Engine.Quiet
import Plexus.Proofs.Engine.Account
import Plexus.Proofs.Engine.Freshness
import Plexus.Proofs.Engine.GraphBuilt
import Plexus.Proofs.Store.Replacement
import Plexus.Proofs.Telemetry.Delivery
import Plexus.Proofs.Telemetry.Registration
import Plexus.Proofs.Graph.File
import Plexus.Proofs.Backend.Request
import Plexus.Proofs.Backend.Rejection
import Plexus.Proofs.Backend.Refill
import Plexus.Proofs.Backend.Soundness
import Plexus.Proofs.Backend.Allocation
import Plexus.Proofs.Backend.Deferral
import Plexus.Proofs.Engine.Mismatch
import Plexus.Proofs.Compiled.Simple
import Plexus.Proofs.Compiled.Counting
import Plexus.Proofs.Layers.Naming
import Plexus.Proofs.Layers.FeedForward
import Plexus.Proofs.Layers.Parallel
import Plexus.Proofs.Labelled.Adjacency
import Plexus.Proofs.Labelled.RoundTrip
import Plexus.Proofs.Labelled.Names
import Plexus.Proofs.Compiled.Permutation
import Plexus.Proofs.Backend.Permutation
import Plexus.Proofs.Store.Unique
import Plexus.Proofs.Store.Filling
import Plexus.Proofs.Engine.Writing
import Plexus.Proofs.Compiled.Projection
import Plexus.Proofs.Engine.Projection
import Plexus.Proofs.Engine.Staging
import Plexus.Proofs.Engine.Survival
import Plexus.Proofs.Engine.Bystanders
import Plexus.Proofs.Training.Flush
import Plexus.Proofs.Training.Reshaping
import Plexus.Proofs.Training.Limit
import Plexus.Proofs.Training.Waiting
import Plexus.Proofs.Training.Dataset
import Plexus.Proofs.Training.Epochs
import Plexus.Proofs.Training.Streaming
import Plexus.Proofs.Engine.Learning
import Plexus.Proofs.Training.Supervision
import Plexus.Proofs.Training.Padding
