import PagedAlloc.Construction.World

/-!
# Operations on page pools and pages

`PagePool` (`src/pool.rs`) and the page handles (`src/page.rs`), run to completion.  A function
that asks the source for memory takes the environment's reply as an argument and returns an
`Outcome`; the drops are total.
-/

namespace PagedAlloc.Sequential

open Words Bytes

/-- `Layout::from_size_align` succeeds: `size`, rounded up to `align`, is at most
`isize::MAX`. -/
def Layout.Valid (l : Layout) : Prop := IsPowerOfTwo l.align ∧ l.size + l.align ≤ 2 ^ 63

instance (l : Layout) : Decidable l.Valid := inferInstanceAs (Decidable (_ ∧ _))

/-- `PageFull` and `ChunkFull`. -/
structure Full where
  capacity : ℕ
  len : ℕ
  attempted : ℕ
  deriving DecidableEq, Repr

/-- An `init` closure: what it leaves in the slice it is given, and what it returns; `none` is a
panic. -/
structure Closure where
  fill : List UInt8 → List UInt8
  result : List UInt8 → Option ℕ

/-- `PageBuilder::remaining`. -/
def PageHandle.remaining (h : PageHandle) : ℕ := h.capacity - h.len

/-! ## The free lists -/

/-- `PagePool::pop_local`. -/
def Pool.popLocal (mem : Memory) (p : Pool) : Option (ℕ × Pool) :=
  if p.owner.localHead = 0 then none
  else
    let head := p.owner.localHead
    let next := readPtr mem head
    some (head, { p with owner := p.owner.setLocalHead next }.access .subFreePages)

/-- `PagePool::drain_return_queue`. -/
def Pool.drainReturnQueue (mem : Memory) (p : Pool) : Option (ℕ × Pool) :=
  if p.returnHead = 0 then none
  else
    Pool.popLocal mem
      { p.access .addReturnQueueDrains with
        returnHead := 0
        owner := p.owner.setLocalHead p.returnHead }

namespace World

variable (w : World)

/-- A relaxed access to the statistics of a pool. -/
def accessPool (id : ℕ) (a : PoolAccess) : World :=
  match w.pools.get id with
  | none => { w with fault := true }
  | some p => { w with pools := w.pools.set id (p.access a) }

/-- `PagePool::allocate_fresh`. -/
def allocateFresh (id : ℕ) (p : Pool) (reply : Option ℕ) : Outcome World ℕ :=
  sourceAllocate { w with pools := w.pools.set id (p.access (.addAllocationsFromHeap 1)) } id
    p.layout reply

/-- The buffer of `PagePool::allocate_raw_page`: from the local list, else from the return queue,
else from the source. -/
def takeBuffer (id : ℕ) (p : Pool) (reply : Option ℕ) : Outcome World ℕ :=
  match p.popLocal w.mem with
  | some (a, p') => .done a { w with pools := w.pools.set id p' }
  | none =>
      match p.drainReturnQueue w.mem with
      | some (a, p') => .done a { w with pools := w.pools.set id p' }
      | none => w.allocateFresh id p reply

/-- `PagePool::allocate_raw_page`. -/
def allocateRawPage (id : ℕ) (reply : Option ℕ) : Outcome World ℕ :=
  match w.pools.get id with
  | none => .refused
  | some p =>
      (w.takeBuffer id p reply).bind fun a w₁ =>
        let w₂ := (w₁.accessPool id .addPagesInUse).cloneShared id
        .done a { w₂ with trace := .acquire id a (w₁.log.length != w.log.length) :: w₂.trace }

/-! ## Pools -/

/-- `PagePool::with_source`, and `ChunkPool::from_pool` on top of it if `chunked`, with the check
of `HeapSource::new` that pages have a layout. -/
def newPool (pageSize : ℕ) (chunked : Bool) : Outcome World ℕ :=
  if defaultAlign ≤ pageSize ∧ Layout.Valid ⟨pageSize, defaultAlign⟩ then
    .done w.pools.next { w with
      pools := w.pools.push
        ⟨pageSize, 0, PoolStats.default, 1, if chunked then .chunkPool 0 none else .pagePool 0⟩ }
  else .panicked w

/-- The loop of `PagePool::prewarm`, one iteration for each reply. -/
def prewarmLoop (id : ℕ) : List (Option ℕ) → World → Outcome World Unit
  | [], w => .done () w
  | reply :: replies, w =>
      match w.pools.get id with
      | none => .refused
      | some p =>
          (w.sourceAllocate id p.layout reply).bind fun a w =>
            prewarmLoop id replies { (w.prefault id a).storePtr a p.owner.localHead with
              pools := w.pools.set id { p with owner := p.owner.setLocalHead a } }

/-- `PagePool::prewarm`. -/
def prewarm (id : ℕ) (replies : List (Option ℕ)) : Outcome World Unit :=
  (prewarmLoop id replies w).bind fun _ w =>
    let w' := ((w.accessPool id (.addAllocationsFromHeap replies.length)).accessPool id
      (.addFreePages replies.length)).accessPool id (.addPrewarmedPages replies.length)
    .done () { w' with trace := .prewarm id replies.length :: w'.trace }

/-- `PagePool::drop`: the local list is released. -/
def releaseLocal (id : ℕ) (p : Pool) : World :=
  let w' := releaseChain (.pool id) p.layout w.blocks.card w p.owner.localHead
  { w' with pools := w'.pools.set id { p with owner := .dropped p.owner.current } }

/-- The drop of a `PagePool`: `PagePool::drop`, then its `shared` field. -/
def dropPagePool (id : ℕ) (p : Pool) : World := (w.releaseLocal id p).dropShared id

/-! ## Pages -/

/-- `PagePool::allocate`; returns the identity of the new builder. -/
def allocatePage (id tenant : ℕ) (p : Pool) (reply : Option ℕ) : Outcome World ℕ :=
  (w.allocateRawPage id reply).bind fun a w =>
    .done w.pages.next { w with
      tenants := Function.update w.tenants tenant
        ((w.tenants tenant).recordAllocate p.pageSize)
      pages := w.pages.push ⟨a, p.pageSize, 0, id, tenant, .builder⟩
      made := .page tenant id :: w.made }

/-- The drop of an unsealed `PageBuilder`, and of the last clone of a `Page`. -/
def releasePage (h : PageHandle) : World :=
  { w with
    tenants := Function.update w.tenants h.tenant
      ((w.tenants h.tenant).recordRelease h.capacity) }.pushReturn h.pool h.buf
    |>.dropShared h.pool

/-- The drop of a page handle. -/
def dropPage (i : ℕ) (h : PageHandle) : World :=
  match h.refs with
  | .builder | .sealed 1 => { w with pages := w.pages.erase i }.releasePage h
  | .sealed c => { w with pages := w.pages.set i { h with refs := .sealed (c - 1) } }

/-- `PageBuilder::seal`: the page takes a clone of `shared`, the builder then drops its own. -/
def sealPage (i : ℕ) (h : PageHandle) : World :=
  let w' := w.cloneShared h.pool
  { w' with pages := w'.pages.set i { h with refs := .sealed 1 } }.dropShared h.pool

/-- `PageBuilder::append`. -/
def appendPage (i : ℕ) (h : PageHandle) (data : List UInt8) : Except Full World :=
  if h.len + data.length > h.capacity then .error ⟨h.capacity, h.len, data.length⟩
  else
    .ok { w.store (h.buf + h.len) data with
      pages := w.pages.set i { h with len := h.len + data.length } }

/-- `PageBuilder::set_len`. -/
def setLenPage (i : ℕ) (h : PageHandle) (len : ℕ) : Outcome World Unit :=
  if len ≤ h.capacity then .done () { w with pages := w.pages.set i { h with len := len } }
  else .panicked w

/-- A write of `data` at `pos` through `PageBuilder::as_mut_slice`. -/
def writePage (h : PageHandle) (pos : ℕ) (data : List UInt8) : Outcome World Unit :=
  if pos + data.length ≤ h.capacity then .done () (w.store (h.buf + pos) data)
  else .panicked w

/-- The bytes of `PageBuilder::as_mut_slice`. -/
def pageMutSlice (h : PageHandle) : List UInt8 := read w.mem h.buf h.capacity

/-- The bytes of `PageBuilder::as_slice` and `Page::as_slice`. -/
def pageSlice (h : PageHandle) : List UInt8 := read w.mem h.buf h.len

/-- The tail of the `alloc_*` functions: a new builder is filled, gets its length and is sealed;
if anything panics on the way, it is dropped. -/
def finishPage (i : ℕ) (data : List UInt8) (len : Option ℕ) : Outcome World ℕ :=
  match w.pages.get i with
  | none => .refused
  | some h =>
      let w := w.store h.buf (data.take h.capacity)
      match len with
      | none => .panicked (w.dropPage i h)
      | some n =>
          if n ≤ h.capacity then
            .done i ({ w with pages := w.pages.set i { h with len := n } }.sealPage i
              { h with len := n })
          else .panicked (w.dropPage i h)

/-- `PagePool::alloc_from`. -/
def allocFromPage (id tenant : ℕ) (p : Pool) (data : List UInt8) (reply : Option ℕ) :
    Outcome World ℕ :=
  if data.length ≤ p.pageSize then
    (w.allocatePage id tenant p reply).bind fun i w => w.finishPage i data (some data.length)
  else .panicked w

/-- `PagePool::alloc_with`. -/
def allocWithPage (id tenant : ℕ) (p : Pool) (init : Closure) (reply : Option ℕ) :
    Outcome World ℕ :=
  (w.allocatePage id tenant p reply).bind fun i w =>
    match w.pages.get i with
    | none => .refused
    | some h =>
        let slice := read w.mem h.buf h.capacity
        w.finishPage i (init.fill slice) ((init.result slice).map fun _ => h.capacity)

/-- `PagePool::alloc_with_len`. -/
def allocWithLenPage (id tenant : ℕ) (p : Pool) (init : Closure) (reply : Option ℕ) :
    Outcome World ℕ :=
  (w.allocatePage id tenant p reply).bind fun i w =>
    match w.pages.get i with
    | none => .refused
    | some h =>
        let slice := read w.mem h.buf h.capacity
        w.finishPage i (init.fill slice) (init.result slice)

variable {w}

/-- `PagePool::drop` marks the pool and changes the blocks and the records of releases. -/
lemma releaseLocal_frame (id : ℕ) (p : Pool) : ∃ bs es as f, w.releaseLocal id p = { w with
    pools := w.pools.set id { p with owner := .dropped p.owner.current }
    blocks := bs
    log := es
    accesses := as
    fault := f } := by
  obtain ⟨bs, es, as, f, h⟩ :=
    releaseChain_frame (w := w) (.pool id) p.layout w.blocks.card p.owner.localHead
  unfold releaseLocal
  rw [h]
  exact ⟨_, _, _, _, rfl⟩

end World

end PagedAlloc.Sequential
