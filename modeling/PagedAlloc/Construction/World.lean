import PagedAlloc.Framework.Arena
import PagedAlloc.Framework.Bytes
import PagedAlloc.Framework.Outcome
import PagedAlloc.Construction.SizeClass
import PagedAlloc.Construction.Stats
import Mathlib.Data.Multiset.MapFold

/-!
# The sequential world: memory, pools, pages and chunks

The state of the whole crate between completed operations, and the functions that move buffers
and references around in it.

Addresses are natural numbers, and `0` is the null pointer.  Buffers live in one byte memory, and
a free list is what the source makes it: a pointer in the first eight bytes of every free buffer.
`blocks` are the live allocations, whether they came from the source of a pool or from the global
allocator; the environment may place a new one anywhere as long as it is a possible allocation
(`World.Supplies`).  Everything passed to a source or to the global allocator is logged, a release
together with the number of live handles that still refer to the buffer; so is what happens to the
pages of a pool while it has them (`PageEvent`); and so is everything that is done with memory, the
stores among it (`Access`).

Values behind an `Arc` sit in an arena under an identity that is never reused.  `PoolShared` is
mutable and a reference to it is its identity; `PackedPage` is immutable and a reference carries
its contents.  What would be undefined behaviour, a release of a buffer that is not live, a
second drop of the same reference or a walk that does not end, raises `fault`.
-/

namespace PagedAlloc.Sequential

open Words Bytes

/-- `std::alloc::Layout`. -/
structure Layout where
  size : ℕ
  align : ℕ
  deriving DecidableEq, Repr

/-- Who supplied an allocation: the source of a pool, or the global allocator directly. -/
inductive Origin
  | pool (id : ℕ)
  | heap
  deriving DecidableEq, Repr

/-- A live allocation. -/
structure Block where
  base : ℕ
  layout : Layout
  origin : Origin
  deriving DecidableEq, Repr

/-- A call to a source or to the global allocator; `referenced` is the number of live handles
that refer to the buffer at the time of its release. -/
inductive SourceEvent
  | allocate (origin : Origin) (layout : Layout) (base : ℕ)
  | release (origin : Origin) (layout : Layout) (base : ℕ) (referenced : ℕ)
  deriving DecidableEq, Repr

/-- What is done with memory: calls of the source of a pool or of the global allocator, stores, and
calls of `madvise_dontneed`. -/
inductive Access
  | allocate (origin : Origin) (layout : Layout) (base : ℕ)
  | prefault (id base : ℕ)
  | release (origin : Origin) (layout : Layout) (base : ℕ)
  | store (a : ℕ) (data : List UInt8)
  | dontneed (ptr len : ℕ)
  deriving DecidableEq, Repr

/-! ## Objects -/

/-- `Release`. -/
inductive Release
  | pool (id : ℕ)
  | heap (layout : Layout)
  deriving DecidableEq, Repr

/-- `PackedPage`. -/
structure PackedPage where
  buf : ℕ
  release : Release
  deriving DecidableEq, Repr

/-- An `Arc<PackedPage>`: the identity of the allocation and the page in it. -/
structure PackedArc where
  id : ℕ
  page : PackedPage
  deriving DecidableEq, Repr

/-- The allocation behind an `Arc<PackedPage>`. -/
structure PackedInner where
  page : PackedPage
  strong : ℕ
  deriving DecidableEq, Repr

/-- `OpenPage`. -/
structure OpenPage where
  shared : PackedArc
  writeOffset : ℕ
  deriving DecidableEq, Repr

/-- The owning half of a pool: `PagePool::local_head`, and `ChunkPool::current` if the pool is
the `pages` field of a `ChunkPool`.  That field is dropped before `current`, which is then the
only one left. -/
inductive Owner
  | pagePool (localHead : ℕ)
  | chunkPool (localHead : ℕ) (current : Option OpenPage)
  | dropped (current : Option OpenPage)
  deriving DecidableEq, Repr

/-- `PoolShared` behind its `Arc`, together with the owner of the pool. -/
structure Pool where
  pageSize : ℕ
  returnHead : ℕ
  stats : PoolStats
  strong : ℕ
  owner : Owner
  deriving DecidableEq, Repr

/-- A handle is an unsealed builder, or the inner value shared by the clones of a sealed one. -/
inductive Refs
  | builder
  | sealed (strong : ℕ)
  deriving DecidableEq, Repr

/-- `PageBuilder` and `PageInner`. -/
structure PageHandle where
  buf : ℕ
  capacity : ℕ
  len : ℕ
  pool : ℕ
  tenant : ℕ
  refs : Refs
  deriving DecidableEq, Repr

/-- What a chunk was asked for and the range that was claimed for it, before the casts to
`u32`.  No operation reads it. -/
structure Request where
  size : ℕ
  offset : ℕ
  sizeClass : SizeClass
  deriving DecidableEq, Repr

/-- `ChunkBuilder` and `ChunkInner`; `pool` names the `ChunkPoolStats`. -/
structure ChunkHandle where
  packed : Option PackedArc
  tenant : ℕ
  pool : ℕ
  oversizedBytes : ℕ
  offset : ℕ
  capacity : ℕ
  len : ℕ
  refs : Refs
  request : Request
  deriving DecidableEq, Repr

/-- A completed allocation, for a tenant from a pool. -/
inductive Made
  | page (tenant pool : ℕ)
  | chunk (tenant pool : ℕ) (sizeClass : SizeClass)
  deriving DecidableEq, Repr

/-- What happens to a page of a pool: `allocate_raw_page` returns it, `fresh` if it called the
source for it, or it is passed to `push_return`; and a `prewarm` of `n` pages returns. -/
inductive PageEvent
  | acquire (id a : ℕ) (fresh : Bool)
  | giveBack (id a : ℕ)
  | prewarm (id n : ℕ)
  deriving DecidableEq, Repr

structure World where
  mem : Memory
  blocks : Multiset Block
  log : List SourceEvent
  /-- What has been done with memory, the latest first. -/
  accesses : List Access
  pools : Arena Pool
  chunkStats : ℕ → ChunkPoolStats
  tenants : ℕ → TenantStats
  packed : Arena PackedInner
  pages : Arena PageHandle
  chunks : Arena ChunkHandle
  /-- Clones of `Arc<PoolShared>` held outside the crate. -/
  sharedHandles : ℕ → ℕ
  made : List Made
  /-- What has happened to the pages of pools, the latest first. -/
  trace : List PageEvent
  fault : Bool

def World.init : World where
  mem _ := 0
  blocks := 0
  log := []
  accesses := []
  pools := .empty
  chunkStats _ := ChunkPoolStats.default
  tenants _ := TenantStats.default
  packed := .empty
  pages := .empty
  chunks := .empty
  sharedHandles _ := 0
  made := []
  trace := []
  fault := false

namespace Owner

/-- `PagePool::local_head`. -/
def localHead : Owner → ℕ
  | pagePool l => l
  | chunkPool l _ => l
  | dropped _ => 0

/-- `ChunkPool::current`. -/
def current : Owner → Option OpenPage
  | pagePool _ => none
  | chunkPool _ c => c
  | dropped c => c

def setLocalHead (l : ℕ) : Owner → Owner
  | pagePool _ => pagePool l
  | chunkPool _ c => chunkPool l c
  | dropped c => dropped c

def setCurrent (c : Option OpenPage) : Owner → Owner
  | pagePool l => pagePool l
  | chunkPool l _ => chunkPool l c
  | dropped _ => dropped c

end Owner

/-- The layout a source allocates pages with; sources align pages to at least a pointer. -/
def Pool.layout (p : Pool) : Layout := ⟨p.pageSize, defaultAlign⟩

/-- A relaxed access to the statistics of the pool. -/
def Pool.access (p : Pool) (a : PoolAccess) : Pool := { p with stats := a.exec p.stats }

namespace World

variable (w : World)

/-! ## Memory from the environment and back -/

/-- How many live handles and open pages refer to the buffer at `a`. -/
def references (a : ℕ) : ℕ :=
  w.pages.sum (fun h => if h.buf = a then 1 else 0) +
    w.chunks.sum (fun h => if (h.packed.map fun p => p.page.buf) = some a then 1 else 0) +
    w.pools.sum fun p => if (p.owner.current.map fun o => o.shared.page.buf) = some a then 1 else 0

/-- A buffer at `a` is one an allocator can return for the layout: not null, aligned, inside the
address space and apart from everything that is live. -/
def Supplies (l : Layout) (a : ℕ) : Prop :=
  a ≠ 0 ∧ a % l.align = 0 ∧ a + l.size ≤ size64 ∧
    ∀ b ∈ w.blocks, Apart a l.size b.base b.layout.size

instance (l : Layout) (a : ℕ) : Decidable (w.Supplies l a) :=
  inferInstanceAs (Decidable (_ ∧ _))

/-- A store of `data` at `a`. -/
def store (a : ℕ) (data : List UInt8) : World :=
  { w with
    mem := write w.mem a data
    accesses := .store a data :: w.accesses }

/-- A store of the pointer `v` at `a`. -/
def storePtr (a v : ℕ) : World := w.store a (encode 8 v)

/-- A zeroed buffer becomes live at `a`. -/
def provide (o : Origin) (l : Layout) (a : ℕ) : World :=
  { w with
    mem := zero w.mem a l.size
    blocks := ⟨a, l, o⟩ ::ₘ w.blocks
    log := .allocate o l a :: w.log
    accesses := .allocate o l a :: w.accesses }

/-- `PageSource::allocate`; it panics if there is no reply. -/
def sourceAllocate (id : ℕ) (l : Layout) : Option ℕ → Outcome World ℕ
  | none => .panicked w
  | some a => if w.Supplies l a then .done a (w.provide (.pool id) l a) else .refused

/-- `alloc_zeroed`; a null reply ends in `handle_alloc_error`, which aborts. -/
def allocZeroed (l : Layout) : Option ℕ → Outcome World ℕ
  | none => .refused
  | some a => if w.Supplies l a then .done a (w.provide .heap l a) else .refused

/-- `PageSource::prefault`, which stores nothing but zeros in a new page. -/
def prefault (id a : ℕ) : World := { w with accesses := .prefault id a :: w.accesses }

/-- `PageSource::release` and `dealloc`. -/
def giveBack (o : Origin) (l : Layout) (a : ℕ) : World :=
  if ⟨a, l, o⟩ ∈ w.blocks then
    { w with
      blocks := w.blocks.erase ⟨a, l, o⟩
      log := .release o l a (w.references a) :: w.log
      accesses := .release o l a :: w.accesses }
  else { w with fault := true }

/-- The walk of `PagePool::drop` and `PoolShared::drop` over a free list. -/
def releaseChain (o : Origin) (l : Layout) : ℕ → World → ℕ → World
  | 0, w, head => if head = 0 then w else { w with fault := true }
  | fuel + 1, w, head =>
      if head = 0 then w
      else releaseChain o l fuel (w.giveBack o l head) (readPtr w.mem head)

/-! ## References -/

/-- `PoolShared::push_return`, without interference. -/
def pushReturn (id : ℕ) (a : ℕ) : World :=
  match w.pools.get id with
  | none => { w with fault := true }
  | some p =>
      { w.storePtr a p.returnHead with
        pools := w.pools.set id
          (({ p with returnHead := a }.access .subPagesInUse).access (.addFreePages 1))
        trace := .giveBack id a :: w.trace }

/-- `Arc::clone` of an `Arc<PoolShared>`. -/
def cloneShared (id : ℕ) : World :=
  match w.pools.get id with
  | none => { w with fault := true }
  | some p => { w with pools := w.pools.set id { p with strong := p.strong + 1 } }

/-- The drop of an `Arc<PoolShared>`: the last one runs `PoolShared::drop`, which releases the
return queue. -/
def dropShared (id : ℕ) : World :=
  match w.pools.get id with
  | none => { w with fault := true }
  | some p =>
      if p.strong = 1 then
        let w' := releaseChain (.pool id) p.layout w.blocks.card w p.returnHead
        { w' with pools := w'.pools.erase id }
      else { w with pools := w.pools.set id { p with strong := p.strong - 1 } }

/-- `Arc::new` of a `PackedPage`. -/
def newPacked (page : PackedPage) : World :=
  { w with packed := w.packed.push ⟨page, 1⟩ }

/-- `Arc::clone` of an `Arc<PackedPage>`. -/
def clonePacked (p : PackedArc) : World :=
  match w.packed.get p.id with
  | none => { w with fault := true }
  | some q => { w with packed := w.packed.set p.id { q with strong := q.strong + 1 } }

/-- `PackedPage::drop`, with the drop of the `Arc<PoolShared>` in its `release` field. -/
def releasePacked (page : PackedPage) : World :=
  match page.release with
  | .pool id => (w.pushReturn id page.buf).dropShared id
  | .heap l => w.giveBack .heap l page.buf

/-- The drop of an `Arc<PackedPage>`. -/
def dropPacked (p : PackedArc) : World :=
  match w.packed.get p.id with
  | none => { w with fault := true }
  | some q =>
      if q.strong = 1 then { w with packed := w.packed.erase p.id }.releasePacked q.page
      else { w with packed := w.packed.set p.id { q with strong := q.strong - 1 } }

/-- The drop of an `Option<Arc<PackedPage>>`. -/
def dropOptional : Option PackedArc → World
  | none => w
  | some p => w.dropPacked p

/-! ## Rules -/

variable {w} {l : Layout} {reply : Option ℕ} {Q : ℕ → World → Prop} {E : World → Prop}

/-- The walk over a free list changes nothing but the blocks and the records of the releases. -/
lemma releaseChain_frame (o : Origin) (l : Layout) (fuel head : ℕ) : ∃ bs es as f,
    releaseChain o l fuel w head =
      { w with blocks := bs, log := es, accesses := as, fault := f } := by
  induction fuel generalizing w head with
  | zero =>
      unfold releaseChain
      split <;> exact ⟨_, _, _, _, rfl⟩
  | succ fuel ih =>
      unfold releaseChain
      split
      · exact ⟨_, _, _, _, rfl⟩
      · obtain ⟨bs, es, as, f, h⟩ := ih (w := w.giveBack o l head) (readPtr w.mem head)
        rw [h]
        unfold giveBack
        split <;> exact ⟨_, _, _, _, rfl⟩

/-- The drop of an `Arc<PoolShared>` changes the pool, the blocks and the records of releases. -/
lemma dropShared_frame (id : ℕ) : ∃ ps bs es as f, w.dropShared id =
    { w with pools := ps, blocks := bs, log := es, accesses := as, fault := f } := by
  unfold dropShared
  split
  · exact ⟨_, _, _, _, _, rfl⟩
  · rename_i p hget
    obtain ⟨bs, es, as, f, h⟩ :=
      releaseChain_frame (w := w) (.pool id) p.layout w.blocks.card p.returnHead
    split
    · rw [h]
      exact ⟨_, _, _, _, _, rfl⟩
    · exact ⟨_, _, _, _, _, rfl⟩

/-- The source supplies an allocation, or it panics. -/
lemma post_sourceAllocate {id : ℕ} (hdone : ∀ a, w.Supplies l a → Q a (w.provide (.pool id) l a))
    (hpanic : reply = none → E w) : (w.sourceAllocate id l reply).Post Q E := by
  unfold sourceAllocate
  split
  · exact hpanic rfl
  · rename_i a
    split
    · rename_i hsupplies
      exact hdone a hsupplies
    · trivial

/-- The allocator supplies an allocation, or there is no such run. -/
lemma post_allocZeroed (hdone : ∀ a, w.Supplies l a → Q a (w.provide .heap l a)) :
    (w.allocZeroed l reply).Post Q E := by
  unfold allocZeroed
  split
  · trivial
  · rename_i a
    split
    · rename_i hsupplies
      exact hdone a hsupplies
    · trivial

end World

end PagedAlloc.Sequential
