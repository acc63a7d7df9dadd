import Recast.Foundation.Except
import Recast.Foundation.Slice
import Recast.Foundation.LittleEndian
import Recast.Foundation.Updates
import Recast.Foundation.Paged
import Recast.Foundation.Nibbles
import Recast.Foundation.Lanes
import Recast.Foundation.Simd
import Recast.Foundation.Sorted
import Recast.Foundation.SwapDelete
import Recast.Foundation.Positions
import Recast.Foundation.Reader
import Recast.Foundation.Separating
import Recast.Foundation.Scan
import Recast.Storage.File
import Recast.Storage.LocationDirectory
import Recast.Storage.DirectoryLaws
import Recast.Storage.DirectoryMap
import Recast.Storage.RecordStore
import Recast.Storage.RecordLaws
import Recast.Storage.RecordArray
import Recast.Storage.RecordAppend
import Recast.Postings.Packing
import Recast.Postings.PackingLaws
import Recast.Postings.FlatAppend
import Recast.Postings.MemoryList
import Recast.Postings.MemoryListLaws
import Recast.Index.Grouping
import Recast.Index.State
import Recast.Index.Update
import Recast.Index.Represents
import Recast.Index.Insertion
import Recast.Index.DeletionPlan
import Recast.Index.ListSizes
import Recast.Index.InsertionRoom
import Recast.Index.Deletion
import Recast.Index.Runs
import Recast.Index.Agreement
import Recast.Index.AtomicErase
import Recast.Model.Error
import Recast.Model.Numerics
import Recast.Model.File
import Recast.Uneven.Layout
import Recast.Uneven.Assignment
import Recast.Uneven.Profiles
import Recast.Uneven.Buckets
import Recast.Foundation.Waterline
import Recast.Uneven.Budgets
import Recast.Uneven.WaterFilling
import Recast.Uneven.Quantizer
import Recast.Model.Quantizer
import Recast.Model.Trained
import Recast.Model.Retraining
import Recast.Scan.Estimate
import Recast.Scan.ExactKernel
import Recast.Scan.Encoding
import Recast.Scan.ExactEstimate
import Recast.Scan.TrainingRows
import Recast.Model.Machine
import Recast.Model.Persistence
import Recast.Model.Ranges
import Recast.Model.RoundTrip
import Recast.Model.SavedModel
import Recast.Foundation.TopK
import Recast.Foundation.FloatBits
import Recast.Refiner.Plans
import Recast.Refiner.PlanLaws
import Recast.Refiner.BuildPlans
import Recast.Refiner.PlanCover
import Recast.Refiner.Worker
import Recast.Refiner.WorkerLaws
import Recast.Refiner.Lifetime
import Recast.Refiner.Exactness
import Recast.Refiner.CompletionOrder
import Recast.Foundation.Selection
import Recast.Foundation.Ieee
import Recast.Foundation.FloatOrder
import Recast.Scan.FuzzyRank
import Recast.Scan.IntervalSelection
import Recast.Scan.Reservoir
import Recast.Scan.SelectionLaws
import Recast.Scan.RankKeys
import Recast.Scan.SelectionBounds
import Recast.Scan.SelectionAvx512
import Recast.Foundation.Lookup
import Recast.Foundation.Segments
import Recast.Uneven.LaidOut
import Recast.Uneven.Tables
import Recast.Foundation.Buffers
import Recast.Uneven.CodingBounds
import Recast.Foundation.Disk
import Recast.Checkpoint.Format
import Recast.Checkpoint.Call
import Recast.Checkpoint.Publication
import Recast.Checkpoint.Reload
import Recast.Checkpoint.Concurrent
import Recast.Checkpoint.ConcurrentSteps
import Recast.Checkpoint.ConcurrentRuns
import Recast.Checkpoint.Recovery
import Recast.Scan.SelectionSpec
import Recast.Scan.BlockSelection
import Recast.Checkpoint.PaddedSizes
import Recast.Foundation.Decimal
import Recast.Storage.RecordAddress
import Recast.Storage.RecordCalls
import Recast.Storage.DirectoryCalls
import Recast.Index.UpdateCounters
import Recast.Index.CountedRuns
import Recast.Model.AcceptedUneven
import Recast.Foundation.CheckedWords
import Recast.Model.UnevenArithmetic
import Recast.Scan.BlockScan
import Recast.Search.Select
import Recast.Search.Tokens
import Recast.Search.Exact
import Recast.Search.Nearest
import Recast.Foundation.Interleaved
import Recast.Index.ParallelLoops
import Recast.Storage.Transfers
import Recast.Index.BatchSplit
import Recast.Index.InsertErase
import Recast.Index.Table
import Recast.Search.Congruence
import Recast.Checkpoint.Reopened
import Recast.Scan.PostprocessAvx512
import Recast.Scan.HostScan
import Recast.Scan.HostAgreement
