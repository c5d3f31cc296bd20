import PagedAlloc.Framework.Words
import PagedAlloc.Framework.Transition
import PagedAlloc.Framework.BoundedBuffer
import PagedAlloc.Framework.NextFit
import PagedAlloc.Framework.Intrusive
import PagedAlloc.Framework.Arena
import PagedAlloc.Framework.Projection
import PagedAlloc.Framework.Bytes
import PagedAlloc.Framework.Outcome
import PagedAlloc.Framework.HappensBefore
import PagedAlloc.Construction.Stats
import PagedAlloc.Construction.SizeClass
import PagedAlloc.Construction.PoolInterleaving
import PagedAlloc.Construction.AtomicPool
import PagedAlloc.Construction.MemoryOrder
import PagedAlloc.Construction.TeardownInterleaving
import PagedAlloc.Construction.TenantInterleaving
import PagedAlloc.Construction.HandleInterleaving
import PagedAlloc.Construction.PageInterleaving
import PagedAlloc.Construction.World
import PagedAlloc.Construction.PageOperations
import PagedAlloc.Construction.ChunkOperations
import PagedAlloc.Construction.Alignment
import PagedAlloc.Construction.Operations
import PagedAlloc.Construction.Ledger
import PagedAlloc.Construction.Custody
import PagedAlloc.Construction.PageRegister
import PagedAlloc.Properties.FreeListConservation
import PagedAlloc.Properties.Whereabouts
import PagedAlloc.Properties.BufferClaims
import PagedAlloc.Properties.HandleClaims
import PagedAlloc.Properties.RaceFreedom
import PagedAlloc.Properties.Linearization
import PagedAlloc.Properties.Progress
import PagedAlloc.Properties.FreePages
import PagedAlloc.Properties.Quiescence
import PagedAlloc.Properties.Peak
import PagedAlloc.Properties.InUseCounters
import PagedAlloc.Properties.ReferenceCounts
import PagedAlloc.Properties.Ownership
import PagedAlloc.Properties.OwnershipRuns
import PagedAlloc.Properties.Release
import PagedAlloc.Properties.Ranges
import PagedAlloc.Properties.Placement
import PagedAlloc.Properties.Isolation
import PagedAlloc.Properties.Footprint
import PagedAlloc.Properties.PageTally
import PagedAlloc.Properties.PageRegisterRuns
import PagedAlloc.Properties.Recycling
import PagedAlloc.Properties.PageLifetime
import PagedAlloc.Properties.Prewarm
import PagedAlloc.Properties.Teardown
import PagedAlloc.Properties.ConcurrentTeardown
import PagedAlloc.Properties.PackedLoop
import PagedAlloc.Properties.PackedArithmetic
import PagedAlloc.Properties.Cursor
import PagedAlloc.Properties.Packing
import PagedAlloc.Properties.FailedAllocation
import PagedAlloc.Properties.Journal
import PagedAlloc.Properties.Interference
import PagedAlloc.Properties.Accounting
import PagedAlloc.Properties.Charge
import PagedAlloc.Properties.Readers
import PagedAlloc.Properties.Builders
import PagedAlloc.Properties.FailedClosure
import PagedAlloc.Framework.BlobStore
import PagedAlloc.Framework.DemandZero
import PagedAlloc.Construction.Primitives
import PagedAlloc.Construction.PageSources
import PagedAlloc.Properties.Frames
import PagedAlloc.Properties.PageRefinement
import PagedAlloc.Properties.StoreRefinement
import PagedAlloc.Properties.HandleLives
import PagedAlloc.Properties.SourceContract
import PagedAlloc.Properties.SourceRefinement
