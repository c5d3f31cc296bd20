import PagedAlloc.Properties.Charge
import PagedAlloc.Properties.Readers

/-!
# Closures that fail

`alloc_with` and `alloc_with_len` run a closure on a new buffer.  If the closure panics, or returns
more than the capacity, the builder is dropped on the way out: the counters in use are back, and
the buffer is where it would be after any other drop.

The bytes of everything else that is live are the same, with one exception.  A chunk on a page of
more than `2 ^ 32` bytes can be claimed behind the first `2 ^ 32`, and the closure is then given
the bytes at the truncated offset.  The call rolls back for every closure precisely if no live
chunk has bytes there (`World.Clobbers`).
-/

namespace PagedAlloc.Sequential

open Words Bytes Relation Transition

/-! ## Unwinding -/

section Unwind

variable {w : World} {i k a id : ℕ} {h : ChunkHandle} {p : Pool} {o : OpenPage}
  {data : List UInt8} {layout : Layout}

/-- The accounting of a dropped chunk, with the reference to its page still in hand. -/
def World.discharge (w : World) (i : ℕ) (h : ChunkHandle) : World :=
  { w with
    chunks := w.chunks.erase i
    tenants := Function.update w.tenants h.tenant
      ((w.tenants h.tenant).recordChunkRelease h.capacity)
    chunkStats := Function.update w.chunkStats h.pool
      ((w.chunkStats h.pool).recordRelease h.oversizedBytes) }

lemma dropChunk_builder (hbuilder : h.refs = .builder) :
    w.dropChunk i h = (w.discharge i h).dropOptional h.packed := by
  unfold World.dropChunk
  rw [hbuilder]
  rfl

lemma custody_discharge (hget : w.chunks.get i = some h) :
    Moves w.idle ⟨w.discharge i h, 0, 0, heldIds h.packed + 0⟩ := by
  have hremove : Moves w.idle ⟨{ w with chunks := w.chunks.erase i }, 0, 0,
      heldIds h.packed + 0⟩ := .single (.removeChunk hget)
  exact hremove.tail (.account _ _ w.made)

/-- The builder is filled and dropped: the ledger is as it was before the allocation, but for what
an allocation and a release leave in the counters. -/
lemma ledger_unwind (hbuilder : h.refs = .builder) :
    ((w.storeChunk h 0 data).dropChunk i h).ledger = w.ledger.removeChunk i h := by
  have hstore : (w.storeChunk h 0 data).ledger = w.ledger := ledger_storeChunk
  unfold World.dropChunk
  rw [hbuilder, ← hstore]
  exact ledger_releaseChunk

lemma dropPacked_pool (hlast : w.packed.get k = some ⟨⟨a, .pool id⟩, 1⟩)
    (hpool : w.pools.get id = some p) (hstrong : p.strong ≠ 1) :
    w.dropPacked ⟨k, ⟨a, .pool id⟩⟩ = { w.storePtr a p.returnHead with
      packed := w.packed.erase k
      pools := w.pools.set id { p with
        returnHead := a, stats := p.stats.giveBack, strong := p.strong - 1 }
      trace := .giveBack id a :: w.trace } := by
  rw [dropPacked_last hlast rfl,
    releasePacked_pool (w := { w with packed := w.packed.erase k }) hpool hstrong]
  rfl

lemma dropPacked_heap (hlast : w.packed.get k = some ⟨⟨a, .heap layout⟩, 1⟩)
    (hmem : ⟨a, layout, .heap⟩ ∈ w.blocks) :
    w.dropPacked ⟨k, ⟨a, .heap layout⟩⟩ = { w with
      packed := w.packed.erase k
      blocks := w.blocks.erase ⟨a, layout, .heap⟩
      log := .release .heap layout a (w.references a) :: w.log
      accesses := .release .heap layout a :: w.accesses } := by
  rw [dropPacked_last hlast rfl]
  exact if_pos hmem

lemma storeChunk_of_packed {arc : PackedArc} (harc : h.packed = some arc) :
    w.storeChunk h 0 data = w.store (arc.page.buf + h.offset) data := by
  unfold World.storeChunk ChunkHandle.base
  rw [harc]
  rfl

/-- A chunk without a buffer. -/
lemma unwind_zero (hbuilder : h.refs = .builder) (hpacked : h.packed = none) :
    ((w.storeChunk h 0 data).dropChunk i h).mem = w.mem := by
  have hstore : w.storeChunk h 0 data = w := by
    unfold World.storeChunk ChunkHandle.base
    rw [hpacked]
    rfl
  rw [hstore, dropChunk_builder hbuilder, hpacked]
  rfl

/-- A chunk on the open page: the pool still refers to the page. -/
lemma unwind_packed (data : List UInt8) (ho : Owned w.idle) (hget : w.chunks.get i = some h)
    (hbuilder : h.refs = .builder) (hpool : w.pools.get id = some p)
    (hcurrent : p.owner.current = some o) (harc : h.packed = some o.shared) :
    ((w.storeChunk h 0 data).dropChunk i h).mem =
        write w.mem (o.shared.page.buf + h.offset) data ∧
      ((w.storeChunk h 0 data).dropChunk i h).pools = w.pools := by
  obtain ⟨q, hq, -⟩ := ho.packed_of_current hpool hcurrent
  have hstrong : q.strong ≠ 1 := by
    have hcount := ho.references.packedCount o.shared.id
    unfold packedRefs at hcount
    dsimp only at hcount
    have hchunk := Arena.le_sum (f := fun h : ChunkHandle =>
      (heldIds h.packed).count o.shared.id) hget
    have hpools := Arena.le_sum (f := fun p : Pool =>
      (heldIds (p.owner.current.map OpenPage.shared)).count o.shared.id) hpool
    simp only [harc, hcurrent, Option.map_some, count_heldIds_some, if_true] at hchunk hpools
    rw [Arena.val_of_get hq] at hcount
    omega
  rw [storeChunk_of_packed harc, dropChunk_builder hbuilder, harc, World.dropOptional,
    dropPacked_shared (w := World.discharge (w.store _ data) i h) hq hstrong]
  exact ⟨rfl, rfl⟩

/-- A chunk with a page of its own: the page goes to the return queue. -/
lemma unwind_dedicated (data : List UInt8) (ho : Owned w.idle) (hbuilder : h.refs = .builder)
    (hpool : w.pools.get id = some p) (hlive : p.owner.Live)
    (harc : h.packed = some ⟨k, ⟨a, .pool id⟩⟩) (hlast : w.packed.get k = some ⟨⟨a, .pool id⟩, 1⟩) :
    ((w.storeChunk h 0 data).dropChunk i h).mem =
        writePtr (write w.mem (a + h.offset) data) a p.returnHead ∧
      ∃ p', ((w.storeChunk h 0 data).dropChunk i h).pools.get id = some p' ∧
        p'.returnHead = a := by
  have hpage : pageOf w.packed k = some ⟨a, .pool id⟩ := by
    unfold pageOf
    rw [hlast]
    rfl
  have hstrong : p.strong ≠ 1 := by
    have hpos := References.one_le_sum_release hpage
    have hcount := ho.references.sharedCount id
    unfold sharedRefs at hcount
    dsimp only at hcount
    rw [Arena.val_of_get hpool, Arena.val_of_get hpool, Owner.refs_of_live hlive] at hcount
    omega
  rw [storeChunk_of_packed harc, dropChunk_builder hbuilder, harc, World.dropOptional,
    dropPacked_pool (w := World.discharge (w.store _ data) i h) hlast hpool hstrong]
  exact ⟨rfl, _, Arena.get_set_self hpool, rfl⟩

/-- A chunk with an allocation of its own: it is freed, and nothing refers to it any more. -/
lemma unwind_oversized (data : List UInt8) (ho : Owned w.idle) (hget : w.chunks.get i = some h)
    (hbuilder : h.refs = .builder) (hle : data.length ≤ h.capacity)
    (harc : h.packed = some ⟨k, ⟨a, .heap layout⟩⟩)
    (hlast : w.packed.get k = some ⟨⟨a, .heap layout⟩, 1⟩)
    (hmem : ⟨a, layout, .heap⟩ ∈ w.blocks) :
    ((w.storeChunk h 0 data).dropChunk i h).mem = write w.mem (a + h.offset) data ∧
      ((w.storeChunk h 0 data).dropChunk i h).blocks = w.blocks.erase ⟨a, layout, .heap⟩ ∧
      ((w.storeChunk h 0 data).dropChunk i h).log = .release .heap layout a 0 :: w.log := by
  have ho₁ := ho.moves (custody_storeChunk hget hbuilder (by omega) :
    Moves w.idle (w.storeChunk h 0 data).idle)
  have hget₁ : (w.storeChunk h 0 data).chunks.get i = some h := by rwa [chunks_storeChunk]
  have ho₂ := ho₁.moves (custody_discharge hget₁)
  rw [storeChunk_of_packed harc] at ho₂ ⊢
  have hheld : heldIds h.packed + 0 = k ::ₘ 0 := by
    rw [harc]
    rfl
  rw [hheld] at ho₂
  have hrefs := ho₂.references_of_last hlast
  rw [dropChunk_builder hbuilder, harc, World.dropOptional,
    dropPacked_heap (w := World.discharge (w.store _ data) i h) hlast hmem]
  exact ⟨rfl, rfl, congrArg (fun n => SourceEvent.release .heap layout a n :: w.log) hrefs⟩

end Unwind

/-! ## Counters -/

/-- A lifetime total that is as before, or has grown by one. -/
def Grown (n n' : ℕ) : Prop := n' = n ∨ n' = fetchAdd n 1

/-- Of the counters of a tenant, only lifetime totals and the peak have grown. -/
structure TenantRolledBack (st st' : TenantStats) : Prop where
  bytesInUse : st'.bytesInUse = st.bytesInUse
  pagesInUse : st'.pagesInUse = st.pagesInUse
  chunksInUse : st'.chunksInUse = st.chunksInUse
  peakBytesInUse : st.peakBytesInUse ≤ st'.peakBytesInUse
  totalPagesAllocated : Grown st.totalPagesAllocated st'.totalPagesAllocated
  totalChunksAllocated : Grown st.totalChunksAllocated st'.totalChunksAllocated

/-- Of the counters of a chunk pool, only lifetime totals have grown. -/
structure PoolRolledBack (st st' : ChunkPoolStats) : Prop where
  chunksInUse : st'.chunksInUse = st.chunksInUse
  oversizedBytesInUse : st'.oversizedBytesInUse = st.oversizedBytesInUse
  totalChunks : Grown st.totalChunks st'.totalChunks
  packedAllocations : Grown st.packedAllocations st'.packedAllocations
  dedicatedAllocations : Grown st.dedicatedAllocations st'.dedicatedAllocations
  oversizedAllocations : Grown st.oversizedAllocations st'.oversizedAllocations

/-- Every counter in use is as before, every handle is there, and it reads the same bytes. -/
structure World.RolledBack (w w' : World) : Prop where
  tenants : ∀ t, TenantRolledBack (w.tenants t) (w'.tenants t)
  chunkStats : ∀ id, PoolRolledBack (w.chunkStats id) (w'.chunkStats id)
  pages : ∀ i, w'.pages.get i = w.pages.get i
  chunks : ∀ i, w'.chunks.get i = w.chunks.get i
  reads : w.ReadsSame w'

section Counters

variable {st : TenantStats} {st' : ChunkPoolStats} {n size : ℕ} {c : SizeClass}

lemma fetchSub_fetchAdd {b : ℕ} (hb : b < size64) (hn : n < size64) :
    fetchSub (fetchAdd b n) n = b := (fetchSub_fetchAdd_eq_iff hb hn (Nat.le_refl n)).2 rfl

lemma one_lt_size64 : 1 < size64 := by
  rw [size64_eq]
  decide

lemma TenantRolledBack.refl : TenantRolledBack st st :=
  ⟨rfl, rfl, rfl, Nat.le_refl _, Or.inl rfl, Or.inl rfl⟩

lemma PoolRolledBack.refl : PoolRolledBack st' st' :=
  ⟨rfl, rfl, Or.inl rfl, Or.inl rfl, Or.inl rfl, Or.inl rfl⟩

/-- One entry is changed and changed back; the others stay. -/
lemma rolledBack_update {α : Type} {R : α → α → Prop} {f : ℕ → α} {i : ℕ} (add remove : α → α)
    (hrefl : ∀ a, R a a) (hback : R (f i) (remove (add (f i)))) (j : ℕ) :
    R (f j) (Function.update (Function.update f i (add (f i))) i
      (remove (Function.update f i (add (f i)) i)) j) := by
  by_cases hj : j = i
  · rw [hj, Function.update_self, Function.update_self]
    exact hback
  · rw [Function.update_of_ne hj, Function.update_of_ne hj]
    exact hrefl (f j)

lemma le_peak_chargeBytes : st.peakBytesInUse ≤ (st.chargeBytes n).peakBytesInUse := by
  show st.peakBytesInUse ≤ if _ then _ else _
  split
  · rename_i hlt
    exact Nat.le_of_lt hlt
  · exact Nat.le_refl _

lemma rolledBack_page (hst : TenantStats.InWords st) (hn : n < size64) :
    TenantRolledBack st ((st.recordAllocate n).recordRelease n) where
  bytesInUse := fetchSub_fetchAdd hst.bytesInUse hn
  pagesInUse := fetchSub_fetchAdd hst.pagesInUse one_lt_size64
  chunksInUse := rfl
  peakBytesInUse := le_peak_chargeBytes
  totalPagesAllocated := Or.inr rfl
  totalChunksAllocated := Or.inl rfl

lemma rolledBack_chunk (hst : TenantStats.InWords st) (hn : n < size64) :
    TenantRolledBack st ((st.recordChunkAllocate n).recordChunkRelease n) where
  bytesInUse := fetchSub_fetchAdd hst.bytesInUse hn
  pagesInUse := rfl
  chunksInUse := fetchSub_fetchAdd hst.chunksInUse one_lt_size64
  peakBytesInUse := le_peak_chargeBytes
  totalPagesAllocated := Or.inl rfl
  totalChunksAllocated := Or.inr rfl

lemma rolledBack_stats (hst : ChunkPoolStats.InWords st') (hsize : size < size64)
    (hpos : c = .oversized → 0 < size) : PoolRolledBack st'
      ((st'.recordAllocate size c).recordRelease (if c = .oversized then size else 0)) := by
  have hchunks := fetchSub_fetchAdd hst.chunksInUse one_lt_size64
  cases c with
  | oversized =>
      have hrelease (x : ChunkPoolStats) : x.recordRelease size =
          (ChunkAccess.subOversizedBytesInUse size).exec (ChunkAccess.subChunksInUse.exec x) :=
        if_pos (hpos rfl)
      rw [if_pos rfl, hrelease]
      exact ⟨hchunks, fetchSub_fetchAdd hst.oversizedBytesInUse hsize, Or.inr rfl, Or.inl rfl,
        Or.inl rfl, Or.inr rfl⟩
  | zero => exact ⟨hchunks, rfl, Or.inr rfl, Or.inl rfl, Or.inl rfl, Or.inl rfl⟩
  | packed => exact ⟨hchunks, rfl, Or.inr rfl, Or.inr rfl, Or.inl rfl, Or.inl rfl⟩
  | dedicated => exact ⟨hchunks, rfl, Or.inr rfl, Or.inl rfl, Or.inr rfl, Or.inl rfl⟩

end Counters

/-! ## Chunks -/

/-- The two functions that run a closure. -/
inductive ClosureCall
  | allocWith
  | allocWithLen
  deriving DecidableEq, Repr

namespace ClosureCall

/-- The closure panics on the slice it is given, or returns more than there is. -/
def Fails (init : Closure) (slice : List UInt8) : ClosureCall → Prop
  | allocWith => init.result slice = none
  | allocWithLen => ∀ n, init.result slice = some n → slice.length < n

/-- The call on a `ChunkPool`. -/
def execChunk (w : World) (id tenant : ℕ) (p : Pool) (size : ℕ) (init : Closure)
    (reply : Option ℕ) : ClosureCall → Outcome World ℕ
  | allocWith => w.allocWithChunk id tenant p size init reply
  | allocWithLen => w.allocWithLenChunk id tenant p size init reply

/-- The call on a `PagePool`. -/
def execPage (w : World) (id tenant : ℕ) (p : Pool) (init : Closure) (reply : Option ℕ) :
    ClosureCall → Outcome World ℕ
  | allocWith => w.allocWithPage id tenant p init reply
  | allocWithLen => w.allocWithLenPage id tenant p init reply

end ClosureCall

/-- A chunk of the given size would be packed behind the cursor of the open page, and after the cast
of its offset to `u32` a byte of a live chunk on that page is in its range. -/
def World.Clobbers (w : World) (p : Pool) (size : ℕ) : Prop :=
  sizeClass p.pageSize size defaultAlign = .packed ∧
    ∃ o, p.room size defaultAlign = some o ∧ ∃ i h x, w.chunks.get i = some h ∧
      h.packed = some o.shared ∧ truncate32 (o.alignedOffset defaultAlign) ≤ x ∧
      x < truncate32 (o.alignedOffset defaultAlign) + size ∧ h.offset ≤ x ∧ x < h.offset + h.len

/-- What has become of the buffer of the chunk `h`, in its size class, after a call from `w` that
had allocated it in `w₁` has unwound: a packed range stays claimed behind the cursor, a page is on
the return queue, an allocation of its own is freed. -/
def Accounted (w w₁ w' : World) (id : ℕ) (h : ChunkHandle) : SizeClass → Prop
  | .zero => h.packed = none
  | .packed => ∃ p' o, w'.pools.get id = some p' ∧ p'.owner.current = some o ∧
      h.packed = some o.shared ∧ h.request.offset + h.request.size ≤ o.writeOffset
  | .dedicated => ∃ arc p', h.packed = some arc ∧ arc.page.release = .pool id ∧
      w'.pools.get id = some p' ∧ p'.returnHead = arc.page.buf
  | .oversized => ∃ arc layout, h.packed = some arc ∧ arc.page.release = .heap layout ∧
      ⟨arc.page.buf, layout, .heap⟩ ∉ w'.blocks ∧ w'.blocks = w.blocks ∧
      w'.log = .release .heap layout arc.page.buf 0 :: w₁.log

section Chunks

variable {ops : List Op} {w w₁ : World} {id tenant size i : ℕ} {p : Pool} {reply : Option ℕ}
  {h : ChunkHandle} {init : Closure} {call : ClosureCall} {data : List UInt8}

lemma length_chunkBytes (ho : Owned w.idle) (hget : w.chunks.get i = some h) :
    (w.chunkBytes h h.capacity).length = h.capacity := by
  have hfits := ho.fits.chunk i h hget
  unfold World.chunkBytes ChunkHandle.base
  cases hpacked : h.packed with
  | some arc => exact length_read
  | none =>
      have hcapacity : h.capacity = 0 := by
        rw [hfits.capacity, hfits.empty hpacked]
        rfl
      rw [hcapacity]
      rfl

/-- A call whose closure fails fills the builder and drops it. -/
lemma execChunk_of_fails (ho₁ : Owned w₁.idle)
    (halloc : w.allocateChunk id tenant p size reply = .done i w₁)
    (hget : w₁.chunks.get i = some h)
    (hfails : call.Fails init (w₁.chunkBytes h h.capacity)) :
    call.execChunk w id tenant p size init reply = .panicked ((w₁.storeChunk h 0
      ((init.fill (w₁.chunkBytes h h.capacity)).take h.capacity)).dropChunk i h) := by
  cases call with
  | allocWith =>
      show w.allocWithChunk id tenant p size init reply = _
      unfold World.allocWithChunk
      rw [halloc, Outcome.bind_done, hget]
      unfold World.finishChunk
      dsimp only
      rw [show init.result (w₁.chunkBytes h h.capacity) = none from hfails]
      rfl
  | allocWithLen =>
      show w.allocWithLenChunk id tenant p size init reply = _
      unfold World.allocWithLenChunk
      rw [halloc, Outcome.bind_done, hget]
      unfold World.finishChunk
      dsimp only
      cases hresult : init.result (w₁.chunkBytes h h.capacity) with
      | none => rfl
      | some n =>
          have hlt := hfails n hresult
          rw [length_chunkBytes ho₁ hget] at hlt
          exact if_neg (by omega)

/-- A handle without bytes. -/
lemma chunkSlice_of_len_eq_zero (hlen : h.len = 0) (w : World) : w.chunkSlice h = [] := by
  unfold World.chunkSlice World.chunkBytes
  rw [hlen]
  cases h.base <;> rfl

/-- If the reference of a chunk to its page is the only one, no other chunk is on the page. -/
lemma Owned.eq_of_only {j : ℕ} {g : ChunkHandle} {arc arc' : PackedArc} {page : PackedPage}
    (ho : Owned w.idle) (hi : w.chunks.get i = some h) (harc : h.packed = some arc)
    (hlast : w.packed.get arc.id = some ⟨page, 1⟩) (hj : w.chunks.get j = some g)
    (harc' : g.packed = some arc') (hid : arc'.id = arc.id) : j = i := by
  by_contra hne
  have hcount := ho.references.packedCount arc.id
  unfold packedRefs at hcount
  dsimp only at hcount
  have hsum := Arena.add_le_sum (f := fun h : ChunkHandle => (heldIds h.packed).count arc.id)
    hi hj (Ne.symm hne)
  simp only [harc, harc', count_heldIds_some, if_true, if_pos hid.symm] at hsum
  rw [Arena.val_of_get hlast] at hcount
  dsimp only at hcount
  omega

/-- The range of the chunk has no byte of another chunk in it. -/
def World.Clear (w : World) (i : ℕ) (h : ChunkHandle) : Prop :=
  ∀ j g arc x, j ≠ i → w.chunks.get j = some g → h.packed = some arc → g.packed = some arc →
    h.offset ≤ x → x < h.offset + h.capacity → ¬ (g.offset ≤ x ∧ x < g.offset + g.len)

/-- A store into the range of a new chunk, followed by a drop that changes nothing outside the
page of the chunk. -/
lemma Owned.readsSame_of_chunk {w' : World} {arc : PackedArc} (ho : Owned w.idle)
    (hfit : w.ledger.PagesFit) (hi : w.chunks.get i = some h) (hlen : h.len = 0)
    (harc : h.packed = some arc)
    (hagree : ∀ x : ℕ, x < arc.page.buf ∨ arc.page.buf + arc.page.size w.pools ≤ x →
      w'.mem x = w.mem x)
    (hsame : ∀ j g, j ≠ i → w.chunks.get j = some g → g.packed = some arc →
      w'.chunkSlice g = w.chunkSlice g) : w.ReadsSame w' := by
  have hpage := ho.references.chunk i h arc hi harc
  refine ho.readsSame_of_packed hfit hpage hagree ?_
  intro j g arc' hj harc' hid
  by_cases hji : j = i
  · obtain rfl : h = g := by
      rw [hji] at hj
      exact Option.some.inj (hi.symm.trans hj)
    rw [chunkSlice_of_len_eq_zero hlen, chunkSlice_of_len_eq_zero hlen]
  · refine hsame j g hji hj ?_
    have hpage' := ho.references.chunk j g arc' hj harc'
    rw [hid, hpage] at hpage'
    obtain ⟨k, page⟩ := arc
    obtain ⟨k', page'⟩ := arc'
    obtain rfl : k' = k := hid
    obtain rfl : page = page' := Option.some.inj hpage'
    exact harc'

lemma Owned.chunkSlice_of_clear {j : ℕ} {g : ChunkHandle} {arc : PackedArc} {w' : World}
    (hclear : w.Clear i h) (hji : j ≠ i) (hj : w.chunks.get j = some g) (harc : h.packed = some arc)
    (harc' : g.packed = some arc) (hle : data.length ≤ h.capacity)
    (hmem : w'.mem = write w.mem (arc.page.buf + h.offset) data) :
    w'.chunkSlice g = w.chunkSlice g := by
  unfold World.chunkSlice World.chunkBytes ChunkHandle.base
  rw [harc', hmem, Option.map_some]
  refine read_congr fun x hlow hhigh => write_of_outside ?_
  by_contra hinside
  exact hclear j g arc (x - arc.page.buf) hji hj harc harc' (by omega) (by omega)
    ⟨by omega, by omega⟩

/-- **Unwinding reaches no other bytes.** -/
lemma reads_unwind (ho : Owned w₁.idle) (hfit : w₁.ledger.PagesFit)
    (hi : w₁.chunks.get i = some h) (hbuilder : h.refs = .builder) (hlen : h.len = 0)
    (hle : data.length ≤ h.capacity) {k : SizeClass} (hholds : Holds w w₁ id p h k)
    (hclear : k = .packed → w₁.Clear i h) :
    w₁.ReadsSame ((w₁.storeChunk h 0 data).dropChunk i h) := by
  cases k with
  | zero => exact ReadsSame.of_mem_eq (unwind_zero hbuilder hholds)
  | packed =>
      obtain ⟨⟨p', o, hpool, hcurrent, harc, -⟩, -⟩ := hholds
      have hmem := (unwind_packed data ho hi hbuilder hpool hcurrent harc).1
      have hrange := ho.range_of_chunk hi harc
      refine ho.readsSame_of_chunk hfit hi hlen harc (fun x hx => ?_) fun j g hji hj harc' => ?_
      · dsimp only at hx hrange
        rw [hmem]
        exact write_of_outside (by omega)
      · exact Owned.chunkSlice_of_clear (hclear rfl) hji hj harc harc' hle hmem
  | dedicated =>
      obtain ⟨⟨k, a, harc, hlast⟩, p', hpool, hlive⟩ := hholds
      have hmem := (unwind_dedicated (i := i) data ho hbuilder hpool hlive harc hlast).1
      have hrange := ho.range_of_chunk hi harc
      have hsize := (ho.blocks.pageSize id p' hpool).1
      have hpage : (⟨a, .pool id⟩ : PackedPage).size w₁.pools = p'.pageSize :=
        size_of_pool hpool rfl
      unfold defaultAlign at hsize
      refine ho.readsSame_of_chunk hfit hi hlen harc (fun x hx => ?_) fun j g hji hj harc' => ?_
      · dsimp only at hx hrange
        rw [hpage] at hx hrange
        rw [hmem, writePtr_of_outside (by omega)]
        exact write_of_outside (by omega)
      · exact absurd (ho.eq_of_only hi harc hlast hj harc' rfl) hji
  | oversized =>
      obtain ⟨k, a, layout, harc, hlast, hblocks⟩ := hholds
      have hmem := (unwind_oversized data ho hi hbuilder hle harc hlast
        (by rw [hblocks]; exact Multiset.mem_cons_self _ _)).1
      have hrange := ho.range_of_chunk hi harc
      refine ho.readsSame_of_chunk hfit hi hlen harc (fun x hx => ?_) fun j g hji hj harc' => ?_
      · dsimp only at hx hrange
        rw [hmem]
        exact write_of_outside (by omega)
      · exact absurd (ho.eq_of_only hi harc hlast hj harc' rfl) hji

/-- What has become of the buffer. -/
lemma accounted_unwind (ho : Owned w₁.idle) (hi : w₁.chunks.get i = some h)
    (hbuilder : h.refs = .builder) (hle : data.length ≤ h.capacity) {k : SizeClass}
    (hholds : Holds w w₁ id p h k) :
    Accounted w w₁ ((w₁.storeChunk h 0 data).dropChunk i h) id h k := by
  cases k with
  | zero => exact hholds
  | packed =>
      obtain ⟨⟨p', o, hpool, hcurrent, harc, hcursor⟩, -⟩ := hholds
      have hpools := (unwind_packed data ho hi hbuilder hpool hcurrent harc).2
      refine ⟨p', o, ?_, hcurrent, harc, Nat.le_of_eq hcursor.symm⟩
      rwa [hpools]
  | dedicated =>
      obtain ⟨⟨k, a, harc, hlast⟩, p', hpool, hlive⟩ := hholds
      obtain ⟨-, p₂, hget, hreturn⟩ :=
        unwind_dedicated (i := i) data ho hbuilder hpool hlive harc hlast
      exact ⟨_, p₂, harc, rfl, hget, hreturn⟩
  | oversized =>
      obtain ⟨k, a, layout, harc, hlast, hblocks⟩ := hholds
      obtain ⟨-, hfreed, hlog⟩ := unwind_oversized data ho hi hbuilder hle harc hlast
        (by rw [hblocks]; exact Multiset.mem_cons_self _ _)
      have hnodup := ho.blocks.nodup
      change w₁.blocks.Nodup at hnodup
      rw [hblocks] at hnodup hfreed
      rw [Multiset.erase_cons_head] at hfreed
      refine ⟨_, layout, harc, rfl, ?_, hfreed, hlog⟩
      rw [hfreed]
      exact (Multiset.nodup_cons.1 hnodup).1

/-- The handle of the allocation is gone, and the counters in use are back. -/
lemma rolledBack_removeChunk {w' : World} (hwords : w.ledger.InWords)
    (hledger : w'.ledger = (w.ledger.addChunk h).removeChunk w.chunks.next h)
    (hcapacity : h.capacity = h.request.size) (hsize : h.request.size < size64)
    (hoversized : h.oversizedBytes =
      if h.request.sizeClass = .oversized then h.request.size else 0)
    (hpos : h.request.sizeClass = .oversized → 0 < h.request.size) (hreads : w.ReadsSame w') :
    w.RolledBack w' where
  tenants t := by
    have htenants : w'.tenants = _ := congrArg Ledger.tenants hledger
    rw [htenants]
    unfold Ledger.removeChunk Ledger.addChunk
    dsimp only
    rw [hcapacity]
    exact rolledBack_update (fun st => st.recordChunkAllocate h.request.size)
      (fun st => st.recordChunkRelease h.request.size) (fun _ => TenantRolledBack.refl)
      (rolledBack_chunk (hwords.tenants h.tenant) hsize) t
  chunkStats n := by
    have hstats : w'.chunkStats = _ := congrArg Ledger.chunkStats hledger
    rw [hstats]
    unfold Ledger.removeChunk Ledger.addChunk
    dsimp only
    have hback := rolledBack_stats (hwords.chunkStats h.pool) hsize hpos
    rw [← hoversized] at hback
    exact rolledBack_update (fun st => st.recordAllocate h.request.size h.request.sizeClass)
      (fun st => st.recordRelease h.oversizedBytes) (fun _ => PoolRolledBack.refl) hback n
  pages j := by
    have hpages : w'.pages = w.pages := congrArg Ledger.pages hledger
    rw [hpages]
  chunks j := by
    have hchunks : w'.chunks = (w.chunks.push h).erase w.chunks.next :=
      congrArg Ledger.chunks hledger
    rw [hchunks]
    exact Arena.get_erase_push
  reads := hreads

/-- A closure that changes every byte of the slice and panics. -/
def flip : Closure where
  fill slice := slice.map fun b => if b = 0 then 1 else 0
  result _ := none

/-- If the call clobbers a chunk, the chunk reads different bytes after `flip`. -/
lemma not_reads_of_clobbers {w' : World} {o : OpenPage} {x : ℕ} {g : ChunkHandle}
    (hpage : h.packed = some o.shared) (hg : g.packed = some o.shared)
    (hmem : w'.mem = write w₁.mem (o.shared.page.buf + h.offset)
      ((flip.fill (w₁.chunkBytes h h.capacity)).take h.capacity))
    (hlow : h.offset ≤ x) (hhigh : x < h.offset + h.capacity) (hfirst : g.offset ≤ x)
    (hlast : x < g.offset + g.len) : w'.chunkSlice g ≠ w₁.chunkSlice g := by
  intro heq
  unfold World.chunkSlice World.chunkBytes ChunkHandle.base at heq
  rw [hg, Option.map_some] at heq
  dsimp only at heq
  have hsame := eq_of_read_eq (x := o.shared.page.buf + x) heq (by omega) (by omega)
  have hslice : (flip.fill (w₁.chunkBytes h h.capacity)).take h.capacity =
      (read w₁.mem (o.shared.page.buf + h.offset) h.capacity).map
        fun b => if b = 0 then 1 else 0 := by
    unfold World.chunkBytes ChunkHandle.base flip
    rw [hpage]
    exact List.take_of_length_le (by simp)
  rw [hmem, hslice, write_map_read (by omega) (by omega)] at hsame
  split at hsame
  · rename_i hzero
    rw [hzero] at hsame
    exact absurd hsame (by decide)
  · rename_i hne
    exact hne hsame.symm

/-- What the allocation of a call has left when the closure is called: the builder `h`. -/
structure BuilderAt (w w₁ : World) (id : ℕ) (p : Pool) (size : ℕ) (h : ChunkHandle) : Prop where
  owned : Owned w₁.idle
  fit : w₁.ledger.PagesFit
  ledger : w₁.ledger = w.ledger.addChunk h
  reads : w.ReadsSame w₁
  holds : Holds w w₁ id p h (sizeClass p.pageSize size defaultAlign)
  requested : h.request.size = size
  classified : h.request.sizeClass = sizeClass p.pageSize size defaultAlign
  offset : h.offset = truncate32 h.request.offset
  capacity : h.capacity = size
  len : h.len = 0
  oversizedBytes : h.oversizedBytes = if h.request.sizeClass = .oversized then h.request.size else 0
  builder : h.refs = .builder

lemma builderAt_allocateChunk (hrun : runOps ops = some w) (hpool : w.chunkPool id = some p)
    (hsize : size < 2 ^ 32) (halloc : w.allocateChunk id tenant p size reply = .done i w₁) :
    i = w.chunks.next ∧ ∃ h, BuilderAt w w₁ id p size h := by
  obtain ⟨hget, l, c, howner⟩ := World.chunkPool_eq_some hpool
  have ho := owned_run hrun
  have hfit := pagesFit_run hrun
  have hissued := issued_allocateChunk tenant size reply ho (ranges_run hrun) hfit hget howner
  have hcustody : KeepsCustody w (w.allocateChunk id tenant p size reply) :=
    custody_allocateAligned ho hget howner
  rw [halloc] at hissued hcustody
  obtain ⟨hi, q, offset, hledger, hreads, hholds⟩ := hissued
  refine ⟨hi, _, ho.moves hcustody, ?_, hledger, hreads, hholds, rfl, rfl, rfl,
    Nat.mod_eq_of_lt hsize, rfl, rfl, rfl⟩
  rw [hledger]
  exact hfit

section BuilderAt

variable (hb : BuilderAt w w₁ id p size h)

include hb

lemma BuilderAt.chunks : w₁.chunks = w.chunks.push h := congrArg Ledger.chunks hb.ledger

lemma BuilderAt.get : w₁.chunks.get w.chunks.next = some h := by
  rw [hb.chunks]
  exact Arena.get_push_self

/-- Unless the call clobbers a chunk, no byte of another chunk is in the range of the new one. -/
lemma BuilderAt.clear (hclass : sizeClass p.pageSize size defaultAlign = .packed)
    (hnot : ¬ w.Clobbers p size) : w₁.Clear w.chunks.next h := by
  rintro j g arc x hj hget harc harc' hlow hhigh ⟨hfirst, hlast⟩
  rw [hb.chunks, Arena.get_push, if_neg hj] at hget
  have hholds := hb.holds
  rw [hclass] at hholds
  rcases hholds.2 with ⟨o, hroom, hshared, hoffset⟩ | ⟨-, hnone⟩
  · obtain rfl : o.shared = arc := Option.some.inj (hshared.symm.trans harc)
    rw [hb.requested] at hroom
    rw [hb.offset, hoffset] at hlow hhigh
    rw [hb.capacity] at hhigh
    exact hnot ⟨hclass, o, hroom, j, g, x, hget, harc', hlow, hhigh, hfirst, hlast⟩
  · exact hnone j g arc arc hget harc' harc rfl

/-- **A failed closure rolls back**, if it is not given the bytes of a live chunk. -/
lemma BuilderAt.rolls_back (hwords : w.ledger.InWords) (hsize : size < 2 ^ 32)
    (hle : data.length ≤ h.capacity) (hnot : ¬ w.Clobbers p size) :
    w.RolledBack ((w₁.storeChunk h 0 data).dropChunk w.chunks.next h) := by
  have hunwound := reads_unwind hb.owned hb.fit hb.get hb.builder hb.len hle hb.holds
    fun hclass => hb.clear hclass hnot
  refine rolledBack_removeChunk hwords ?_ (hb.capacity.trans hb.requested.symm) ?_ hb.oversizedBytes
    (fun hclass => ?_) ?_
  · rw [← hb.ledger]
    exact ledger_unwind hb.builder
  · rw [hb.requested, size64_eq]
    omega
  · apply Nat.pos_of_ne_zero
    intro hzero
    rw [hb.classified, ← hb.requested, sizeClass_eq_zero.2 hzero] at hclass
    exact absurd hclass (by decide)
  · refine hb.reads.trans hunwound (fun j g hj => ?_) fun j g hj => ?_
    · rwa [show w₁.pages = w.pages from congrArg Ledger.pages hb.ledger]
    · rw [hb.chunks]
      exact Arena.get_push_of_get hj

/-- If the call clobbers a chunk, `flip` does not roll back. -/
lemma BuilderAt.not_rolls_back (hclobbers : w.Clobbers p size) :
    ¬ w.RolledBack ((w₁.storeChunk h 0 ((flip.fill (w₁.chunkBytes h h.capacity)).take
      h.capacity)).dropChunk w.chunks.next h) := by
  intro hback
  obtain ⟨hclass, o, hroom, j, g, x, hj, hg, hlow, hhigh, hfirst, hlast⟩ := hclobbers
  have hholds := hb.holds
  rw [hclass] at hholds
  obtain ⟨⟨p', o', hpool, hcurrent, harc, -⟩, hplace⟩ := hholds
  rw [hb.requested] at hplace
  rcases hplace with ⟨o₁, hroom₁, harc₁, hstart⟩ | ⟨hnone, -⟩
  · obtain rfl : o = o₁ := Option.some.inj (hroom.symm.trans hroom₁)
    have hmem := (unwind_packed ((flip.fill (w₁.chunkBytes h h.capacity)).take h.capacity)
      hb.owned hb.get hb.builder hpool hcurrent harc).1
    have hpage : o'.shared = o.shared := Option.some.inj (harc.symm.trans harc₁)
    rw [hpage] at hmem
    rw [← hstart, ← hb.offset] at hlow hhigh
    have hread := hback.reads.chunk j g hj
    rw [← hb.reads.chunk j g hj] at hread
    refine not_reads_of_clobbers harc₁ hg hmem hlow ?_ hfirst hlast hread
    rwa [hb.capacity]
  · rw [hnone] at hroom
    exact absurd hroom (by simp)

end BuilderAt

lemma fails_flip {slice : List UInt8} : call.Fails flip slice := by
  cases call with
  | allocWith => rfl
  | allocWithLen => exact fun n hn => absurd hn (by simp [flip])

/-- **Chunks**: a call whose closure fails rolls back, unless it clobbers a chunk. -/
lemma execChunk_rolls_back (call : ClosureCall) (hrun : runOps ops = some w)
    (hpool : w.chunkPool id = some p) (hsize : size < 2 ^ 32)
    (halloc : w.allocateChunk id tenant p size reply = .done i w₁) :
    ∃ h, w₁.chunks.get i = some h ∧
      ((∀ init, call.Fails init (w₁.chunkBytes h h.capacity) →
        ∃ w', call.execChunk w id tenant p size init reply = .panicked w' ∧ w.RolledBack w' ∧
          Accounted w w₁ w' id h (sizeClass p.pageSize size defaultAlign)) ↔
        ¬ w.Clobbers p size) := by
  obtain ⟨rfl, h, hb⟩ := builderAt_allocateChunk hrun hpool hsize halloc
  refine ⟨h, hb.get, ?_, ?_⟩
  · intro hall hclobbers
    obtain ⟨w', hexec, hback, -⟩ := hall flip fails_flip
    rw [execChunk_of_fails hb.owned halloc hb.get fails_flip] at hexec
    obtain rfl := Outcome.panicked.inj hexec
    exact hb.not_rolls_back hclobbers hback
  · intro hnot init hfails
    refine ⟨_, execChunk_of_fails hb.owned halloc hb.get hfails, ?_, ?_⟩
    · exact hb.rolls_back (inWords_run hrun) hsize (List.length_take_le _ _) hnot
    · exact accounted_unwind hb.owned hb.get hb.builder (List.length_take_le _ _) hb.holds

/-- Only on a page of more than `2 ^ 32` bytes is there a chunk to clobber: elsewhere the range is
behind the cursor. -/
lemma lt_pageSize_of_clobbers (hrun : runOps ops = some w) (hpool : w.chunkPool id = some p)
    (hclobbers : w.Clobbers p size) : size32 < p.pageSize := by
  obtain ⟨hclass, o, hroom, j, g, x, hj, hg, hlow, hhigh, hfirst, hlast⟩ := hclobbers
  have ho := owned_run hrun
  have hr := ranges_run hrun
  obtain ⟨hget, -⟩ := World.chunkPool_eq_some hpool
  obtain ⟨hcurrent, hend⟩ := le_of_room (ho.blocks.pageSize id p hget).2 hroom
  obtain ⟨hbuf, hspace, -⟩ := ho.buf_of_current hget hcurrent
  have hcursor := hr.cursor id p o hget hcurrent
  have hstart := (alignedOffset_spec ⟨3, by decide, rfl⟩ hbuf (by omega) :
    o.writeOffset ≤ o.alignedOffset defaultAlign ∧ _).1
  have hbelow := hr.below j g o.shared id p o hj hg hget hcurrent rfl
  have hfits := ho.fits.chunk j g hj
  have hoffset : g.offset ≤ g.request.offset := by
    rw [hfits.offset]
    exact truncate32_le _
  have hcapacity : g.capacity ≤ g.request.size := by
    rw [hfits.capacity]
    exact truncate32_le _
  have hlen := hfits.len
  by_contra hsmall
  have hpos := (le_of_sizeClass_packed hclass).1
  rw [(truncate32_eq_iff (o.alignedOffset defaultAlign)).2 (by omega)] at hlow
  omega

end Chunks

/-! ## Pages -/

section Pages

variable {ops : List Op} {w w₁ w' : World} {id tenant i : ℕ} {p : Pool} {reply : Option ℕ}
  {h : PageHandle} {init : Closure} {call : ClosureCall} {data : List UInt8}

/-- A call whose closure fails fills the builder and drops it. -/
lemma execPage_of_fails (halloc : w.allocatePage id tenant p reply = .done i w₁)
    (hget : w₁.pages.get i = some h) (hfails : call.Fails init (read w₁.mem h.buf h.capacity)) :
    call.execPage w id tenant p init reply = .panicked ((w₁.store h.buf
      ((init.fill (read w₁.mem h.buf h.capacity)).take h.capacity)).dropPage i h) := by
  cases call with
  | allocWith =>
      show w.allocWithPage id tenant p init reply = _
      unfold World.allocWithPage
      rw [halloc, Outcome.bind_done, hget]
      dsimp only
      unfold World.finishPage
      rw [hget, show init.result (read w₁.mem h.buf h.capacity) = none from hfails]
      rfl
  | allocWithLen =>
      show w.allocWithLenPage id tenant p init reply = _
      unfold World.allocWithLenPage
      rw [halloc, Outcome.bind_done, hget]
      dsimp only
      unfold World.finishPage
      rw [hget]
      dsimp only
      cases hresult : init.result (read w₁.mem h.buf h.capacity) with
      | none => rfl
      | some n =>
          have hlt := hfails n hresult
          rw [length_read] at hlt
          exact if_neg (by omega)

/-- No two page handles have one buffer. -/
lemma Owned.eq_of_buf_eq {j : ℕ} {g : PageHandle} (ho : Owned w.idle) (hi : w.pages.get i = some h)
    (hj : w.pages.get j = some g) (heq : (g.pool, g.buf) = (h.pool, h.buf)) : j = i := by
  by_contra hne
  obtain ⟨p, hp, -⟩ := Option.map_eq_some_iff.1 (ho.fits.page i h hi)
  have hholders := ho.holders_le_one hp h.buf
  unfold holders at hholders
  have hsum := Arena.add_le_sum (f := fun r : PageHandle =>
    if (h.pool, h.buf) = (r.pool, r.buf) then 1 else 0) hi hj (Ne.symm hne)
  rw [if_pos rfl, if_pos heq.symm] at hsum
  dsimp only at hholders
  omega

/-- Nothing but the buffer of a page without bytes has changed. -/
lemma Owned.readsSame_of_page (ho : Owned w.idle) (hfit : w.ledger.PagesFit)
    (hi : w.pages.get i = some h) (hlen : h.len = 0)
    (hagree : ∀ x : ℕ, x < h.buf ∨ h.buf + h.capacity ≤ x → w'.mem x = w.mem x) :
    w.ReadsSame w' where
  page j g hj := by
    by_cases hji : j = i
    · obtain rfl : h = g := by
        rw [hji] at hj
        exact Option.some.inj (hi.symm.trans hj)
      unfold World.pageSlice
      rw [hlen]
      rfl
    · have hapart := ho.blocks.apart _ (ho.mem_of_page hi).1 _ (ho.mem_of_page hj).1 fun heq => by
        injection heq with hbuf _ horigin
        injection horigin with hpool
        exact hji (ho.eq_of_buf_eq hi hj (by rw [hbuf, hpool]))
      exact pageSlice_of_block hfit hj hapart hagree
  chunk j g hj := by
    refine chunkSlice_of_keeps (ho.fits.chunk j g hj).len
      (ho.keeps_of_block hj (ho.mem_of_page hi).1 (fun arc harc heq => ?_) hagree)
    have hpage := ho.references.chunk j g arc hj harc
    rw [page_of_block heq] at hpage
    exact (ho.packed_unheld hpage).2 i h hi rfl

/-- The accounting of a dropped page, with its buffer still in hand. -/
def World.dischargePage (w : World) (i : ℕ) (h : PageHandle) : World :=
  { w with
    pages := w.pages.erase i
    tenants := Function.update w.tenants h.tenant
      ((w.tenants h.tenant).recordRelease h.capacity) }

/-- The page goes to the return queue of its pool. -/
lemma unwind_page (data : List UInt8) (ho : Owned w.idle) (hget : w.pages.get i = some h)
    (hbuilder : h.refs = .builder) (hpool : w.pools.get h.pool = some p) (hlive : p.owner.Live) :
    ((w.store h.buf data).dropPage i h).mem =
        writePtr (write w.mem h.buf data) h.buf p.returnHead ∧
      ∃ p', ((w.store h.buf data).dropPage i h).pools.get h.pool = some p' ∧
        p'.returnHead = h.buf := by
  have hstrong : p.strong ≠ 1 := by
    have hpos := Arena.le_sum (f := fun g : PageHandle => if h.pool = g.pool then 1 else 0) hget
    rw [if_pos rfl] at hpos
    have hcount := ho.references.sharedCount h.pool
    unfold sharedRefs at hcount
    dsimp only at hcount
    rw [Arena.val_of_get hpool, Arena.val_of_get hpool, Owner.refs_of_live hlive] at hcount
    omega
  -- A builder gives its buffer back as a packed page does.
  have hdrop : (w.store h.buf data).dropPage i h =
      (World.dischargePage (w.store h.buf data) i h).releasePacked ⟨h.buf, .pool h.pool⟩ := by
    unfold World.dropPage
    rw [hbuilder]
    rfl
  rw [hdrop, releasePacked_pool (w := World.dischargePage (w.store h.buf data) i h) hpool hstrong]
  exact ⟨rfl, _, Arena.get_set_self hpool, rfl⟩

lemma ledger_unwindPage (hbuilder : h.refs = .builder) :
    ((w.store h.buf data).dropPage i h).ledger = w.ledger.removePage i h := by
  unfold World.dropPage
  rw [hbuilder]
  exact ledger_releasePage

/-- The handle of the allocation is gone, and the counters in use are back. -/
lemma rolledBack_removePage (hwords : w.ledger.InWords)
    (hledger : w'.ledger = (w.ledger.addPage h).removePage w.pages.next h)
    (hcapacity : h.capacity < size64) (hreads : w.ReadsSame w') : w.RolledBack w' where
  tenants t := by
    have htenants : w'.tenants = _ := congrArg Ledger.tenants hledger
    rw [htenants]
    exact rolledBack_update (fun st => st.recordAllocate h.capacity)
      (fun st => st.recordRelease h.capacity) (fun _ => TenantRolledBack.refl)
      (rolledBack_page (hwords.tenants h.tenant) hcapacity) t
  chunkStats n := by
    have hstats : w'.chunkStats = w.chunkStats := congrArg Ledger.chunkStats hledger
    rw [hstats]
    exact PoolRolledBack.refl
  pages j := by
    have hpages : w'.pages = (w.pages.push h).erase w.pages.next := congrArg Ledger.pages hledger
    rw [hpages]
    exact Arena.get_erase_push
  chunks j := by
    have hchunks : w'.chunks = w.chunks := congrArg Ledger.chunks hledger
    rw [hchunks]
  reads := hreads

/-- What an allocation leaves: a new builder, and everything that was live reads the same. -/
lemma issued_allocatePage {l : ℕ} (tenant : ℕ) (reply : Option ℕ) (ho : Owned w.idle)
    (hfit : w.ledger.PagesFit) (hget : w.pools.get id = some p) (howner : p.owner = .pagePool l) :
    (w.allocatePage id tenant p reply).Post
      (fun i w' => i = w.pages.next ∧ ∃ a,
        w'.ledger = w.ledger.addPage ⟨a, p.pageSize, 0, id, tenant, .builder⟩ ∧
        w.ReadsSame w' ∧ ∃ p', w'.pools.get id = some p' ∧ p'.owner.Live)
      fun _ => True := by
  have hlive := Owner.live_of_pagePool howner
  have hboth := (Outcome.Post.and (o := w.allocateRawPage id reply)
    (reads_allocateRawPage ho hfit) keepsLedger_allocateRawPage).and
    (custody_allocateRawPage hget hlive)
  refine Outcome.Post.bind hboth.returns ?_
  rintro a w₁ ⟨⟨hreads, hledger⟩, -, p₁, hget₁, -, l', howner₁⟩
  refine Outcome.post_done ⟨congrArg (fun l => l.pages.next) hledger, a, ?_,
    ⟨hreads.page, hreads.chunk⟩, p₁, hget₁, ?_⟩
  · rw [← hledger]
    rfl
  · rw [howner₁]
    exact Owner.live_setLocalHead hlive

/-- Unwinding reaches no other bytes. -/
lemma reads_unwindPage (ho : Owned w.idle) (hfit : w.ledger.PagesFit)
    (hget : w.pages.get i = some h) (hlen : h.len = 0) (hle : data.length ≤ h.capacity)
    (hpool : w.pools.get h.pool = some p) {head : ℕ}
    (hmem : w'.mem = writePtr (write w.mem h.buf data) h.buf head) : w.ReadsSame w' := by
  have hcapacity : defaultAlign ≤ h.capacity := by
    have hfits := ho.fits.page i h hget
    rw [hpool] at hfits
    rw [← Option.some.inj hfits]
    exact (ho.blocks.pageSize h.pool p hpool).1
  unfold defaultAlign at hcapacity
  refine ho.readsSame_of_page hfit hget hlen ?_
  intro x hx
  rw [hmem, writePtr_of_outside (by omega)]
  exact write_of_outside (by omega)

/-- **Pages**: a call whose closure fails rolls back, and the page is on the return queue. -/
lemma execPage_rolls_back (hrun : runOps ops = some w) (hpool : w.pagePool id = some p)
    (halloc : w.allocatePage id tenant p reply = .done i w₁) :
    ∃ h, w₁.pages.get i = some h ∧ ∀ (call : ClosureCall) init,
      call.Fails init (read w₁.mem h.buf h.capacity) →
      ∃ w', call.execPage w id tenant p init reply = .panicked w' ∧ w.RolledBack w' ∧
        ∃ p', w'.pools.get id = some p' ∧ p'.returnHead = h.buf := by
  obtain ⟨hp, l, howner⟩ := World.pagePool_eq_some hpool
  have ho := owned_run hrun
  have hfit := pagesFit_run hrun
  have hissued := issued_allocatePage tenant reply ho hfit hp howner
  have hcustody : KeepsCustody w (w.allocatePage id tenant p reply) :=
    custody_allocatePage hp howner
  rw [halloc] at hissued hcustody
  obtain ⟨rfl, a, hledger, hreads, p₁, hp₁, hlive⟩ := hissued
  have ho₁ : Owned w₁.idle := ho.moves hcustody
  have hfit₁ : w₁.ledger.PagesFit := by
    rw [hledger]
    exact hfit.step (.allocatePage _ a id tenant p.pageSize)
  have hpages : w₁.pages = w.pages.push ⟨a, p.pageSize, 0, id, tenant, .builder⟩ :=
    congrArg Ledger.pages hledger
  have hget : w₁.pages.get w.pages.next = some ⟨a, p.pageSize, 0, id, tenant, .builder⟩ := by
    rw [hpages]
    exact Arena.get_push_self
  refine ⟨_, hget, fun call init hfails => ?_⟩
  obtain ⟨hmem, hqueued⟩ := unwind_page
    ((init.fill (read w₁.mem a p.pageSize)).take p.pageSize) ho₁ hget rfl hp₁ hlive
  have hunwound := reads_unwindPage ho₁ hfit₁ hget rfl (List.length_take_le _ _) hp₁ hmem
  have hsize := (ho.blocks.pageSize id p hp).2
  refine ⟨_, execPage_of_fails halloc hget hfails, rolledBack_removePage
    (h := ⟨a, p.pageSize, 0, id, tenant, .builder⟩) (inWords_run hrun) ?_ ?_ ?_, hqueued⟩
  · rw [← hledger]
    exact ledger_unwindPage rfl
  · rw [size64_eq]
    dsimp only
    omega
  · refine hreads.trans hunwound (fun j g hj => ?_) fun j g hj => ?_
    · rw [hpages]
      exact Arena.get_push_of_get hj
    · rwa [show w₁.chunks = w.chunks from congrArg Ledger.chunks hledger]

end Pages

/-- **Failed closures roll the accounting back.** In every reachable state, a call on a chunk pool
rolls back for every closure that fails if and only if it clobbers no chunk; a call on a page pool
always does, and `alloc_from` with more data than a page holds changes nothing. -/
theorem failed_closure_rolls_back {ops : List Op} {w : World} (hrun : runOps ops = some w) :
    (∀ id tenant p size reply i w₁ (call : ClosureCall), w.chunkPool id = some p → size < 2 ^ 32 →
      w.allocateChunk id tenant p size reply = .done i w₁ →
      ∃ h, w₁.chunks.get i = some h ∧
        ((∀ init, call.Fails init (w₁.chunkBytes h h.capacity) →
          ∃ w', call.execChunk w id tenant p size init reply = .panicked w' ∧ w.RolledBack w' ∧
            Accounted w w₁ w' id h (sizeClass p.pageSize size defaultAlign)) ↔
          ¬ w.Clobbers p size)) ∧
    (∀ id tenant p reply i w₁, w.pagePool id = some p →
      w.allocatePage id tenant p reply = .done i w₁ →
      ∃ h, w₁.pages.get i = some h ∧ ∀ (call : ClosureCall) init,
        call.Fails init (read w₁.mem h.buf h.capacity) →
        ∃ w', call.execPage w id tenant p init reply = .panicked w' ∧ w.RolledBack w' ∧
          ∃ p', w'.pools.get id = some p' ∧ p'.returnHead = h.buf) ∧
    ∀ id tenant p data reply, w.pagePool id = some p → p.pageSize < data.length →
      w.allocFromPage id tenant p data reply = .panicked w := by
  refine ⟨?_, ?_, ?_⟩
  · intro id tenant p size reply i w₁ call hpool hsize halloc
    exact execChunk_rolls_back call hrun hpool hsize halloc
  · intro id tenant p reply i w₁ hpool halloc
    exact execPage_rolls_back hrun hpool halloc
  · intro id tenant p data reply hpool hlt
    exact if_neg (by omega)

/-- On a page of 64 bytes, behind a chunk of three bytes. -/
theorem failed_closure_rolls_back_small : ∃ w p i w₁ w',
    runOps [.newChunkPool 64, .allocFromChunk 0 0 [1, 2, 3] (some 8)] = some w ∧
      w.chunkPool 0 = some p ∧ w.allocateChunk 0 0 p 8 none = .done i w₁ ∧
      ClosureCall.allocWith.execChunk w 0 0 p 8 flip none = .panicked w' ∧ w.RolledBack w' := by
  obtain ⟨w, p, i, w₁, hw, hp, halloc⟩ := exists_allocateAligned
    [.newChunkPool 64, .allocFromChunk 0 0 [1, 2, 3] (some 8)] 0 0 8 8 none (by decide +kernel)
  have hsmall : (runOps [.newChunkPool 64, .allocFromChunk 0 0 [1, 2, 3] (some 8)]).bind
      (fun w => (w.chunkPool 0).map Pool.pageSize) = some 64 := by decide +kernel
  rw [hw, Option.bind_some, hp] at hsmall
  have hnot : ¬ w.Clobbers p 8 := by
    intro hclobbers
    have hlarge := lt_pageSize_of_clobbers hw hp hclobbers
    rw [Option.some.inj hsmall] at hlarge
    exact absurd hlarge (by decide)
  obtain ⟨h, -, hiff⟩ := (failed_closure_rolls_back hw).1 0 0 p 8 none i w₁ .allocWith hp
    (by decide) halloc
  obtain ⟨w', hexec, hback, -⟩ := hiff.2 hnot flip fails_flip
  exact ⟨w, p, i, w₁, w', hw, hp, halloc, hexec, hback⟩

/-- On a page of `2 ^ 33` bytes, chunks of 8 and of `2 ^ 32 - 8` bytes. -/
def clobberRun : List Op :=
  [.newChunkPool (2 ^ 33), .allocFromChunk 0 0 [1, 2, 3, 4, 5, 6, 7, 8] (some 8),
    .allocateChunk 0 0 (2 ^ 32 - 8) 8 none]

/-- The next chunk is claimed at offset `2 ^ 32`, and its closure is given the bytes of the first
chunk. -/
theorem clobbered_by_closure : ∃ w p g w', runOps clobberRun = some w ∧ w.chunkPool 0 = some p ∧
    w.chunks.get 0 = some g ∧ w.chunkSlice g = [1, 2, 3, 4, 5, 6, 7, 8] ∧
    ClosureCall.allocWith.execChunk w 0 0 p 8 flip none = .panicked w' ∧
    w'.chunkSlice g = [0, 0, 0, 0, 0, 0, 0, 0] ∧ ¬ w.RolledBack w' := by
  have heval : ((runOps clobberRun).bind fun w => (w.chunkPool 0).bind fun p =>
      (w.chunks.get 0).bind fun g =>
        match w.allocWithChunk 0 0 p 8 flip none with
        | .panicked w' => some (w.chunkSlice g, w'.chunkSlice g)
        | _ => none) = some ([1, 2, 3, 4, 5, 6, 7, 8], [0, 0, 0, 0, 0, 0, 0, 0]) := by
    decide +kernel
  obtain ⟨w, hw, heval⟩ := Option.bind_eq_some_iff.1 heval
  obtain ⟨p, hp, heval⟩ := Option.bind_eq_some_iff.1 heval
  obtain ⟨g, hg, heval⟩ := Option.bind_eq_some_iff.1 heval
  cases hexec : w.allocWithChunk 0 0 p 8 flip none with
  | panicked w' =>
      rw [hexec] at heval
      obtain ⟨hbefore, hafter⟩ := Prod.mk.inj (Option.some.inj heval)
      refine ⟨w, p, g, w', hw, hp, hg, hbefore, hexec, hafter, fun hback => ?_⟩
      have hsame := hback.reads.chunk 0 g hg
      rw [hbefore, hafter] at hsame
      exact absurd hsame (by decide)
  | done i w' =>
      rw [hexec] at heval
      exact absurd heval (by simp)
  | refused =>
      rw [hexec] at heval
      exact absurd heval (by simp)

end PagedAlloc.Sequential
