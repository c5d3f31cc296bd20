import PagedAlloc.Construction.PageOperations

/-!
# Operations on chunk pools and chunks

`ChunkPool` and the chunk handles (`src/chunk.rs`), run to completion.  Addresses and offsets are
`usize`, with wrapping arithmetic; the handles keep `offset`, `capacity` and `len` as `u32`, so
the casts are written out.  Next to them each handle records the range that was claimed for it
before the casts (`Request`).

The find-or-open loop of `allocate_packed` recurses on a fuel argument.  Running out of it raises
`fault`; that two rounds are always enough is a theorem, not an assumption.
-/

namespace PagedAlloc

/-- The counters of a `ChunkPoolStats` that one allocation changes. -/
def ChunkPoolStats.recordAllocate (st : ChunkPoolStats) (size : ℕ) (c : SizeClass) :
    ChunkPoolStats :=
  let st := ChunkAccess.addChunksInUse.exec (ChunkAccess.addTotalChunks.exec st)
  match c with
  | .zero => st
  | .packed => ChunkAccess.addPackedAllocations.exec st
  | .dedicated => ChunkAccess.addDedicatedAllocations.exec st
  | .oversized =>
      (ChunkAccess.addOversizedBytesInUse size).exec
        (ChunkAccess.addOversizedAllocations.exec st)

/-- The counters of a `ChunkPoolStats` that the drop of a chunk changes. -/
def ChunkPoolStats.recordRelease (st : ChunkPoolStats) (oversizedBytes : ℕ) : ChunkPoolStats :=
  let st := ChunkAccess.subChunksInUse.exec st
  if oversizedBytes > 0 then (ChunkAccess.subOversizedBytesInUse oversizedBytes).exec st else st

end PagedAlloc

namespace PagedAlloc.Sequential

open Words Bytes

/-- `align_up`. -/
def alignUp (value align : ℕ) : ℕ :=
  ((value + align - 1) % size64) &&& (size64 - 1 - (align - 1))

/-- Wrapping subtraction on `usize`. -/
def wrappingSub (a b : ℕ) : ℕ := (a + size64 - b) % size64

/-- The offset of the next aligned range on an open page. -/
def OpenPage.alignedOffset (o : OpenPage) (align : ℕ) : ℕ :=
  let bufAddr := o.shared.page.buf
  let alignedAddr := alignUp ((bufAddr + o.writeOffset) % size64) align
  wrappingSub alignedAddr bufAddr

/-- The open page, if it has room for `size` bytes behind its cursor. -/
def Pool.room (p : Pool) (size align : ℕ) : Option OpenPage :=
  p.owner.current.filter fun o => saturatingAdd (o.alignedOffset align) size ≤ p.pageSize

/-- The `ChunkBuilder` for a range of `size` bytes at `offset`. -/
def newBuilder (id tenant size : ℕ) (c : SizeClass) (packed : Option PackedArc) (offset : ℕ) :
    ChunkHandle where
  packed := packed
  tenant := tenant
  pool := id
  oversizedBytes := if c = .oversized then size else 0
  offset := truncate32 offset
  capacity := truncate32 size
  len := 0
  refs := .builder
  request := ⟨size, offset, c⟩

/-- The address of the first byte of a chunk; a zero-size chunk has none. -/
def ChunkHandle.base (h : ChunkHandle) : Option ℕ :=
  h.packed.map fun p => p.page.buf + h.offset

/-- `ChunkBuilder::remaining`. -/
def ChunkHandle.remaining (h : ChunkHandle) : ℕ := h.capacity - h.len

namespace World

variable (w : World)

/-! ## Allocation -/

/-- `self.current = c`, which drops the old value. -/
def replaceCurrent (id : ℕ) (c : Option OpenPage) : World :=
  match w.pools.get id with
  | none => { w with fault := true }
  | some p =>
      { w with pools := w.pools.set id { p with owner := p.owner.setCurrent c } }.dropOptional
        (p.owner.current.map OpenPage.shared)

/-- `Arc::new` of a raw page of the pool. -/
def wrapPage (id : ℕ) (a : ℕ) : PackedArc × World :=
  (⟨w.packed.next, ⟨a, .pool id⟩⟩, w.newPacked ⟨a, .pool id⟩)

/-- `ChunkPool::open_new_page`. -/
def openNewPage (id : ℕ) (reply : Option ℕ) : Outcome World Unit :=
  (w.allocateRawPage id reply).bind fun a w =>
    let r := w.wrapPage id a
    .done () (r.2.replaceCurrent id (some ⟨r.1, 0⟩))

/-- The range is claimed on the open page, and the caller gets a clone of its `Arc`. -/
def claimRange (id : ℕ) (p : Pool) (o : OpenPage) (size align : ℕ) : Outcome World (PackedArc × ℕ) :=
  let offset := o.alignedOffset align
  let open' : OpenPage := { o with writeOffset := offset + size }
  .done (o.shared, offset)
    ({ w with
        pools := w.pools.set id { p with owner := p.owner.setCurrent (some open') } }.clonePacked
      o.shared)

/-- The find-or-open loop of `ChunkPool::allocate_packed`. -/
def findPage (id size align : ℕ) (reply : Option ℕ) : ℕ → World → Outcome World (PackedArc × ℕ)
  | 0, w => .panicked { w with fault := true }
  | fuel + 1, w =>
      match w.pools.get id with
      | none => .refused
      | some p =>
          match p.room size align with
          | some o => w.claimRange id p o size align
          | none =>
              ((w.replaceCurrent id none).openNewPage id reply).bind fun _ w =>
                findPage id size align reply fuel w

/-- What the four paths of `ChunkPool::allocate_aligned` end with: the charge to the tenant, the
counters of the pool and the new builder. -/
def returnBuilder (id tenant size : ℕ) (c : SizeClass) (packed : Option PackedArc)
    (offset : ℕ) : Outcome World ℕ :=
  .done w.chunks.next { w with
    tenants := Function.update w.tenants tenant ((w.tenants tenant).recordChunkAllocate size)
    chunkStats := Function.update w.chunkStats id ((w.chunkStats id).recordAllocate size c)
    chunks := w.chunks.push (newBuilder id tenant size c packed offset)
    made := .chunk tenant id c :: w.made }

/-- `ChunkPool::allocate_zero`. -/
def allocateZero (id tenant : ℕ) : Outcome World ℕ := w.returnBuilder id tenant 0 .zero none 0

/-- `ChunkPool::allocate_packed`. -/
def allocatePacked (id tenant size align : ℕ) (reply : Option ℕ) : Outcome World ℕ :=
  (findPage id size align reply 2 w).bind fun r w =>
    w.returnBuilder id tenant size .packed (some r.1) r.2

/-- `ChunkPool::allocate_dedicated`. -/
def allocateDedicated (id tenant size : ℕ) (reply : Option ℕ) : Outcome World ℕ :=
  (w.allocateRawPage id reply).bind fun a w =>
    let r := w.wrapPage id a
    r.2.returnBuilder id tenant size .dedicated (some r.1) 0

/-- `ChunkPool::allocate_oversized`. -/
def allocateOversized (id tenant size align : ℕ) (reply : Option ℕ) : Outcome World ℕ :=
  let layout : Layout := ⟨size, max align defaultAlign⟩
  if layout.Valid then
    (w.allocZeroed layout reply).bind fun a w =>
      (w.newPacked ⟨a, .heap layout⟩).returnBuilder id tenant size .oversized
        (some ⟨w.packed.next, ⟨a, .heap layout⟩⟩) 0
  else .panicked w

/-- `ChunkPool::allocate_aligned`; returns the identity of the new builder. -/
def allocateAligned (id tenant : ℕ) (p : Pool) (size align : ℕ) (reply : Option ℕ) :
    Outcome World ℕ :=
  if IsPowerOfTwo align then
    match sizeClass p.pageSize size align with
    | .zero => w.allocateZero id tenant
    | .packed => w.allocatePacked id tenant size align reply
    | .dedicated => w.allocateDedicated id tenant size reply
    | .oversized => w.allocateOversized id tenant size align reply
  else .panicked w

/-- `ChunkPool::allocate`. -/
def allocateChunk (id tenant : ℕ) (p : Pool) (size : ℕ) (reply : Option ℕ) : Outcome World ℕ :=
  w.allocateAligned id tenant p size defaultAlign reply

/-! ## Handles -/

/-- The drop of an unsealed `ChunkBuilder`, and of the last clone of a `Chunk`: the accounting,
then the `packed` field. -/
def releaseChunk (h : ChunkHandle) : World :=
  { w with
    tenants := Function.update w.tenants h.tenant
      ((w.tenants h.tenant).recordChunkRelease h.capacity)
    chunkStats := Function.update w.chunkStats h.pool
      ((w.chunkStats h.pool).recordRelease h.oversizedBytes) }.dropOptional h.packed

/-- The drop of a chunk handle. -/
def dropChunk (i : ℕ) (h : ChunkHandle) : World :=
  match h.refs with
  | .builder | .sealed 1 => { w with chunks := w.chunks.erase i }.releaseChunk h
  | .sealed c => { w with chunks := w.chunks.set i { h with refs := .sealed (c - 1) } }

/-- `ChunkBuilder::seal`: the chunk takes a clone of `packed`, the builder then drops its own. -/
def sealChunk (i : ℕ) (h : ChunkHandle) : World :=
  let w' := match h.packed with
    | none => w
    | some p => w.clonePacked p
  { w' with chunks := w'.chunks.set i { h with refs := .sealed 1 } }.dropOptional h.packed

/-- A store of `data` at position `pos` of the slice of a chunk. -/
def storeChunk (h : ChunkHandle) (pos : ℕ) (data : List UInt8) : World :=
  match h.base with
  | none => w
  | some a => w.store (a + pos) data

/-- `ChunkBuilder::append`. -/
def appendChunk (i : ℕ) (h : ChunkHandle) (data : List UInt8) : Except Full World :=
  if h.len + data.length > h.capacity then .error ⟨h.capacity, h.len, data.length⟩
  else
    let w' := w.storeChunk h h.len data
    .ok { w' with
      chunks := w'.chunks.set i { h with len := truncate32 (h.len + data.length) } }

/-- `ChunkBuilder::set_len`. -/
def setLenChunk (i : ℕ) (h : ChunkHandle) (len : ℕ) : Outcome World Unit :=
  if len ≤ h.capacity then
    .done () { w with chunks := w.chunks.set i { h with len := truncate32 len } }
  else .panicked w

/-- A write of `data` at `pos` through `ChunkBuilder::as_mut_slice`. -/
def writeChunk (h : ChunkHandle) (pos : ℕ) (data : List UInt8) : Outcome World Unit :=
  if pos + data.length ≤ h.capacity then .done () (w.storeChunk h pos data) else .panicked w

/-- The bytes of `n` positions of a chunk from its start. -/
def chunkBytes (h : ChunkHandle) (n : ℕ) : List UInt8 :=
  match h.base with
  | none => []
  | some a => read w.mem a n

/-- The bytes of `ChunkBuilder::as_mut_slice`. -/
def chunkMutSlice (h : ChunkHandle) : List UInt8 := w.chunkBytes h h.capacity

/-- The bytes of `ChunkBuilder::as_slice` and `Chunk::as_slice`. -/
def chunkSlice (h : ChunkHandle) : List UInt8 := w.chunkBytes h h.len

/-! ## The `alloc_*` functions -/

/-- The tail of the `alloc_*` functions: a new builder is filled, gets its length and is sealed;
if anything panics on the way, it is dropped. -/
def finishChunk (i : ℕ) (h : ChunkHandle) (data : List UInt8) (len : Option ℕ) : Outcome World ℕ :=
  let w := w.storeChunk h 0 (data.take h.capacity)
  match len with
  | none => .panicked (w.dropChunk i h)
  | some n =>
      if n ≤ h.capacity then
        .done i ({ w with chunks := w.chunks.set i { h with len := truncate32 n } }.sealChunk i
          { h with len := truncate32 n })
      else .panicked (w.dropChunk i h)

/-- `ChunkPool::alloc_from`; `copy_from_slice` panics unless the lengths agree. -/
def allocFromChunk (id tenant : ℕ) (p : Pool) (data : List UInt8) (reply : Option ℕ) :
    Outcome World ℕ :=
  (w.allocateChunk id tenant p data.length reply).bind fun i w =>
    match w.chunks.get i with
    | none => .refused
    | some h =>
        if data.length = h.capacity then w.finishChunk i h data (some data.length)
        else .panicked (w.dropChunk i h)

/-- `ChunkPool::alloc_with`. -/
def allocWithChunk (id tenant : ℕ) (p : Pool) (size : ℕ) (init : Closure)
    (reply : Option ℕ) : Outcome World ℕ :=
  (w.allocateChunk id tenant p size reply).bind fun i w =>
    match w.chunks.get i with
    | none => .refused
    | some h =>
        let slice := w.chunkBytes h h.capacity
        w.finishChunk i h (init.fill slice) ((init.result slice).map fun _ => size)

/-- `ChunkPool::alloc_with_len`. -/
def allocWithLenChunk (id tenant : ℕ) (p : Pool) (capacity : ℕ) (init : Closure)
    (reply : Option ℕ) : Outcome World ℕ :=
  (w.allocateChunk id tenant p capacity reply).bind fun i w =>
    match w.chunks.get i with
    | none => .refused
    | some h =>
        let slice := w.chunkBytes h h.capacity
        w.finishChunk i h (init.fill slice) (init.result slice)

/-- The drop of a `ChunkPool`: its fields in order, `pages` and then `current`. -/
def dropChunkPool (id : ℕ) (p : Pool) : World :=
  let w' := w.dropPagePool id p
  match p.owner.current with
  | none => w'
  | some _ => w'.replaceCurrent id none

variable {w} {id tenant size align : ℕ} {reply : Option ℕ} {Q : ℕ → World → Prop}
  {E : World → Prop}

/-- The oversized path: a builder for an allocation of its own, or a panic if there is no such
layout. -/
lemma post_allocateOversized
    (hdone : Layout.Valid ⟨size, max align defaultAlign⟩ → ∀ a,
      w.Supplies ⟨size, max align defaultAlign⟩ a →
      (((w.provide .heap ⟨size, max align defaultAlign⟩ a).newPacked
        ⟨a, .heap ⟨size, max align defaultAlign⟩⟩).returnBuilder id tenant size .oversized
          (some ⟨w.packed.next, ⟨a, .heap ⟨size, max align defaultAlign⟩⟩⟩) 0).Post Q E)
    (hpanic : ¬ Layout.Valid ⟨size, max align defaultAlign⟩ → E w) :
    (w.allocateOversized id tenant size align reply).Post Q E := by
  unfold allocateOversized
  dsimp only
  split
  · rename_i hvalid
    have hzeroed : (w.allocZeroed ⟨size, max align defaultAlign⟩ reply).Post
        (fun a w' => w.Supplies ⟨size, max align defaultAlign⟩ a ∧
          w' = w.provide .heap ⟨size, max align defaultAlign⟩ a) E :=
      post_allocZeroed fun a hsupplies => ⟨hsupplies, rfl⟩
    refine Outcome.Post.bind hzeroed ?_
    rintro a w' ⟨hsupplies, rfl⟩
    exact hdone hvalid a hsupplies
  · rename_i hvalid
    exact hpanic hvalid

end World

end PagedAlloc.Sequential
