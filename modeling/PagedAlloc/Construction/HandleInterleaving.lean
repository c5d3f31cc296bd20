import PagedAlloc.Framework.Arena
import PagedAlloc.Framework.Transition
import PagedAlloc.Construction.SizeClass
import PagedAlloc.Construction.Stats

/-!
# Handles and counters under every interleaving

Any number of `PagePool`s, `ChunkPool`s and tenants, with allocations on their owners' threads
and hand-offs, seals, clones and drops of handles on any thread.  Every access to a counter and
every change of a reference count is one step.

A function of the source that makes several accesses is compiled to a list of instructions, in
source order, and a *task* is a thread inside such a function with the instructions it has still
to execute.  An instruction that decides what to do next replaces itself by the instructions of
the chosen branch: the find-or-open loop of `allocate_packed`, the three origins of a raw page,
the drop of an `Arc<PackedPage>`, which releases the page if the reference was the last one.

Two things are left to the event, so that the results hold whatever they are: whether the open
page has room for a packed request, and which of the local list, the return queue and the
source supplies a raw page.  The free lists themselves are the subject of `PoolInterleaving`.
-/

namespace PagedAlloc.HandleInterleaving

open Words Transition

/-! ## Objects -/

/-- A `PagePool`: used directly, or as the `pages` field of a `ChunkPool`. -/
inductive PoolId
  | page (n : ℕ)
  | chunk (n : ℕ)
  deriving DecidableEq, Repr

/-- A handle is an unsealed builder, or the inner value shared by the clones of a sealed one. -/
inductive Refs
  | builder
  | sealed (strong : ℕ)
  deriving DecidableEq, Repr

/-- `PageBuilder` and `PageInner`. -/
structure PageHandle where
  pool : ℕ
  tenant : ℕ
  refs : Refs
  deriving DecidableEq, Repr

/-- `ChunkBuilder` and `ChunkInner`; `packed` is the identity of the `PackedPage`. -/
structure ChunkHandle where
  pool : ℕ
  tenant : ℕ
  packed : Option ℕ
  oversizedBytes : ℕ
  capacity : ℕ
  refs : Refs
  deriving DecidableEq, Repr

/-- `Release`. -/
inductive Release
  | pool (n : ℕ)
  | heap
  deriving DecidableEq, Repr

/-- `PackedPage` inside its `Arc`. -/
structure PackedPage where
  release : Release
  strong : ℕ
  deriving DecidableEq, Repr

/-! ## Instructions -/

inductive Instr
  /-- An access to a counter. -/
  | pool (p : PoolId) (a : PoolAccess)
  | tenant (t : ℕ) (a : TenantAccess)
  | chunkPool (n : ℕ) (a : ChunkAccess)
  /-- The choice of a buffer in `PagePool::allocate_raw_page`. -/
  | takeBuffer (p : PoolId)
  /-- `source.allocate()`. -/
  | sourceAllocate
  /-- The find-or-open loop of `ChunkPool::allocate_packed`. -/
  | findPage (n t size : ℕ)
  /-- `Arc::new(PackedPage)` and `self.current = Some(..)` in `ChunkPool::open_new_page`. -/
  | openPage (n : ℕ)
  /-- `Arc::new(PackedPage)` in `ChunkPool::allocate_dedicated`. -/
  | dedicatePage (n t size : ℕ)
  /-- The layout check, `alloc_zeroed` and `Arc::new(PackedPage)` in
  `ChunkPool::allocate_oversized`. -/
  | heapPage (n t size : ℕ)
  /-- The drop of an `Arc<PackedPage>`. -/
  | dropPacked (id : ℕ)
  /-- The return of the new handle to the caller. -/
  | returnPage (h : PageHandle)
  | returnChunk (h : ChunkHandle)
  deriving DecidableEq, Repr

/-- `PagePool::allocate_raw_page`. -/
def allocateRawPage (p : PoolId) : List Instr := [.takeBuffer p, .pool p .addPagesInUse]

/-- The counters of `PoolShared::push_return`, once its exchange has succeeded. -/
def pushReturn (p : PoolId) : List Instr := [.pool p .subPagesInUse, .pool p (.addFreePages 1)]

/-- `PagePool::allocate`. -/
def allocatePage (pageSize n t : ℕ) : List Instr :=
  allocateRawPage (.page n) ++ (TenantAccess.recordAllocate pageSize).map (.tenant t) ++
    [.returnPage ⟨n, t, .builder⟩]

/-- `PageBuilder::drop` of an unsealed builder and `PageInner::drop`. -/
def releasePage (pageSize : ℕ) (h : PageHandle) : List Instr :=
  (TenantAccess.recordRelease pageSize).map (.tenant h.tenant) ++ pushReturn (.page h.pool)

/-- What all paths of `ChunkPool::allocate_aligned` do with the counters, before they return the
builder `h` for a request of `size` bytes: `path` are the counters of the path itself. -/
def returnBuilder (size : ℕ) (path : List ChunkAccess) (h : ChunkHandle) : List Instr :=
  (TenantAccess.recordChunkAllocate size).map (.tenant h.tenant) ++
    (ChunkAccess.addTotalChunks :: .addChunksInUse :: path).map (.chunkPool h.pool) ++
    [.returnChunk h]

/-- `ChunkPool::allocate_zero`. -/
def allocateZero (n t : ℕ) : List Instr := returnBuilder 0 [] ⟨n, t, none, 0, 0, .builder⟩

/-- `ChunkPool::allocate_packed`. -/
def allocatePacked (n t size : ℕ) : List Instr := [.findPage n t size]

/-- `ChunkPool::allocate_dedicated`. -/
def allocateDedicated (n t size : ℕ) : List Instr :=
  allocateRawPage (.chunk n) ++ [.dedicatePage n t size]

/-- `ChunkPool::allocate_oversized`. -/
def allocateOversized (n t size : ℕ) : List Instr := [.heapPage n t size]

/-- `ChunkPool::allocate_aligned`. -/
def allocateAligned (pageSize n t size align : ℕ) : List Instr :=
  match sizeClass pageSize size align with
  | .zero => allocateZero n t
  | .packed => allocatePacked n t size
  | .dedicated => allocateDedicated n t size
  | .oversized => allocateOversized n t size

/-- The drop of an optional `Arc<PackedPage>`. -/
def dropOptional : Option ℕ → List Instr
  | none => []
  | some id => [.dropPacked id]

/-- `ChunkBuilder::drop` of an unsealed builder and `ChunkInner::drop`, with the drop of the
`packed` field that follows. -/
def releaseChunk (h : ChunkHandle) : List Instr :=
  (TenantAccess.recordChunkRelease h.capacity).map (.tenant h.tenant) ++
    (.chunkPool h.pool .subChunksInUse ::
      if h.oversizedBytes > 0 then
        [.chunkPool h.pool (.subOversizedBytesInUse h.oversizedBytes)] else []) ++
    dropOptional h.packed

/-- `PackedPage::drop`; `dealloc` touches no counter. -/
def releasePacked : Release → List Instr
  | .pool n => pushReturn (.chunk n)
  | .heap => []

/-! ## States and steps -/

/-- A thread inside a function, with the instructions left and the pool it borrows mutably. -/
structure Task where
  borrow : Option PoolId
  code : List Instr
  locals : RecordLocals
  deriving DecidableEq, Repr

structure State where
  pools : PoolId → PoolStats
  chunkPools : ℕ → ChunkPoolStats
  tenants : ℕ → TenantStats
  /-- The pool has not been dropped. -/
  alive : PoolId → Bool
  /-- `ChunkPool::current`. -/
  current : ℕ → Option ℕ
  packed : Arena PackedPage
  pages : Arena PageHandle
  chunks : Arena ChunkHandle
  tasks : Arena Task

/-- Every pool and tenant is new. -/
def init : State where
  pools _ := PoolStats.default
  chunkPools _ := ChunkPoolStats.default
  tenants _ := TenantStats.default
  alive _ := true
  current _ := none
  packed := .empty
  pages := .empty
  chunks := .empty
  tasks := .empty

/-- Where `allocate_raw_page` finds its buffer. -/
inductive Origin
  | localList
  | returnQueue
  | source
  deriving DecidableEq, Repr

/-- The environment's choices for one instruction. -/
structure Reply where
  origin : Origin
  /-- The open page has room for the request. -/
  fits : Bool
  /-- The source, or the check of the layout, panics. -/
  panics : Bool
  deriving DecidableEq, Repr

inductive Event
  | allocatePage (n t : ℕ)
  | sealPage (i : ℕ)
  | clonePage (i : ℕ)
  | dropPage (i : ℕ)
  | allocateChunk (n t size align : ℕ)
  | sealChunk (i : ℕ)
  | cloneChunk (i : ℕ)
  | dropChunk (i : ℕ)
  | dropPool (p : PoolId)
  /-- The task `i` executes its next instruction. -/
  | task (i : ℕ) (reply : Reply)
  deriving DecidableEq, Repr

namespace State

/-- A thread enters a function. -/
def spawn (s : State) (borrow : Option PoolId) (code : List Instr) : State :=
  { s with tasks := s.tasks.push ⟨borrow, code, ⟨0, 0⟩⟩ }

/-- The task `i` goes on with `code`, or leaves its function if nothing is left. -/
def resume (s : State) (i : ℕ) (task : Task) (code : List Instr) : State :=
  { s with
    tasks := if code = [] then s.tasks.erase i else s.tasks.set i { task with code := code } }

/-- The pool exists and no thread is inside one of its `&mut self` functions. -/
def Available (s : State) (p : PoolId) : Prop :=
  s.alive p = true ∧ ∀ i < s.tasks.next, ((s.tasks.get i).bind Task.borrow) ≠ some p

instance (s : State) (p : PoolId) : Decidable (s.Available p) :=
  inferInstanceAs (Decidable (_ ∧ _))

/-- `Arc::clone` of an optional `Arc<PackedPage>`. -/
def clonePacked (s : State) : Option ℕ → State
  | none => s
  | some id =>
      match s.packed.get id with
      | none => s
      | some q => { s with packed := s.packed.set id { q with strong := q.strong + 1 } }

end State

/-- The instruction `ins` at the head of the code of task `i`, with `rest` after it. -/
def exec (s : State) (i : ℕ) (task : Task) (rest : List Instr) (reply : Reply) :
    Instr → State
  | .pool p a =>
      { s with pools := Function.update s.pools p (a.exec (s.pools p)) }.resume i task rest
  | .chunkPool n a =>
      { s with chunkPools := Function.update s.chunkPools n (a.exec (s.chunkPools n)) }.resume
        i task rest
  | .tenant t a =>
      let r := a.exec (s.tenants t, task.locals)
      { s with tenants := Function.update s.tenants t r.1 }.resume i
        { task with locals := r.2 } rest
  | .takeBuffer p =>
      match reply.origin with
      | .localList => s.resume i task (.pool p .subFreePages :: rest)
      | .returnQueue =>
          s.resume i task (.pool p .addReturnQueueDrains :: .pool p .subFreePages :: rest)
      | .source =>
          s.resume i task (.pool p (.addAllocationsFromHeap 1) :: .sourceAllocate :: rest)
  | .sourceAllocate => if reply.panics then s.resume i task [] else s.resume i task rest
  | .findPage n t size =>
      let retry := allocateRawPage (.chunk n) ++ [.openPage n, .findPage n t size] ++ rest
      match s.current n with
      | none => s.resume i task retry
      | some id =>
          if reply.fits then
            (s.clonePacked (some id)).resume i task
              (returnBuilder size [.addPackedAllocations]
                ⟨n, t, some id, 0, truncate32 size, .builder⟩ ++ rest)
          else
            { s with current := Function.update s.current n none }.resume i task
              (.dropPacked id :: retry)
  | .openPage n =>
      { s with
        packed := s.packed.push ⟨.pool n, 1⟩
        current := Function.update s.current n (some s.packed.next) }.resume i task
        (dropOptional (s.current n) ++ rest)
  | .dedicatePage n t size =>
      { s with packed := s.packed.push ⟨.pool n, 1⟩ }.resume i task
        (returnBuilder size [.addDedicatedAllocations]
          ⟨n, t, some s.packed.next, 0, truncate32 size, .builder⟩ ++ rest)
  | .heapPage n t size =>
      if reply.panics then s.resume i task []
      else
        { s with packed := s.packed.push ⟨.heap, 1⟩ }.resume i task
          (returnBuilder size [.addOversizedAllocations, .addOversizedBytesInUse size]
            ⟨n, t, some s.packed.next, size, truncate32 size, .builder⟩ ++ rest)
  | .dropPacked id =>
      match s.packed.get id with
      | none => s.resume i task rest
      | some q =>
          if q.strong = 1 then
            { s with packed := s.packed.erase id }.resume i task
              (releasePacked q.release ++ rest)
          else
            { s with packed := s.packed.set id { q with strong := q.strong - 1 } }.resume i
              task rest
  | .returnPage h => { s with pages := s.pages.push h }.resume i task rest
  | .returnChunk h => { s with chunks := s.chunks.push h }.resume i task rest

/-- One step of the system; `pageSize` gives the page size of every pool. -/
def step (pageSize : PoolId → ℕ) (s : State) : Event → Option State
  | .allocatePage n t =>
      if s.Available (.page n) then
        some (s.spawn (some (.page n)) (allocatePage (pageSize (.page n)) n t))
      else none
  | .allocateChunk n t size align =>
      if s.Available (.chunk n) ∧ IsPowerOfTwo align then
        some (s.spawn (some (.chunk n))
          (allocateAligned (pageSize (.chunk n)) n t size align))
      else none
  | .sealPage i =>
      match s.pages.get i with
      | some ⟨n, t, .builder⟩ => some { s with pages := s.pages.set i ⟨n, t, .sealed 1⟩ }
      | _ => none
  | .clonePage i =>
      match s.pages.get i with
      | some ⟨n, t, .sealed c⟩ => some { s with pages := s.pages.set i ⟨n, t, .sealed (c + 1)⟩ }
      | _ => none
  | .dropPage i =>
      match s.pages.get i with
      | none => none
      | some h =>
          if h.refs = .builder ∨ h.refs = .sealed 1 then
            some ({ s with pages := s.pages.erase i }.spawn none
              (releasePage (pageSize (.page h.pool)) h))
          else
            match h.refs with
            | .builder => none
            | .sealed c =>
                some { s with pages := s.pages.set i { h with refs := .sealed (c - 1) } }
  | .sealChunk i =>
      match s.chunks.get i with
      | none => none
      | some h =>
          if h.refs = .builder then
            let s' := s.clonePacked h.packed
            some ({ s' with
              chunks := s'.chunks.set i { h with refs := .sealed 1 } }.spawn none
                (dropOptional h.packed))
          else none
  | .cloneChunk i =>
      match s.chunks.get i with
      | none => none
      | some h =>
          match h.refs with
          | .builder => none
          | .sealed c =>
              some { s with chunks := s.chunks.set i { h with refs := .sealed (c + 1) } }
  | .dropChunk i =>
      match s.chunks.get i with
      | none => none
      | some h =>
          if h.refs = .builder ∨ h.refs = .sealed 1 then
            some ({ s with chunks := s.chunks.erase i }.spawn none (releaseChunk h))
          else
            match h.refs with
            | .builder => none
            | .sealed c =>
                some { s with chunks := s.chunks.set i { h with refs := .sealed (c - 1) } }
  | .dropPool p =>
      if s.Available p then
        match p with
        | .page _ => some { s with alive := Function.update s.alive p false }
        | .chunk n =>
            some ({ s with
              alive := Function.update s.alive p false
              current := Function.update s.current n none }.spawn none
                (dropOptional (s.current n)))
      else none
  | .task i reply =>
      match s.tasks.get i with
      | none => none
      | some task =>
          match task.code with
          | [] => none
          | ins :: rest => some (exec s i task rest reply ins)

end PagedAlloc.HandleInterleaving
