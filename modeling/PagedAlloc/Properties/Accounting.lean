import PagedAlloc.Construction.Ledger
import PagedAlloc.Properties.Footprint

/-!
# Accounting over whole runs

The counters of tenants and chunk pools against the live handles.  A *gauge* is a counter that
goes up and down; in every reachable state it is the sum of the charges of the live pages and
chunks.  A *total* only goes up and is the number of allocations made.  Both are statements about
ledgers, proved for one move and carried to runs of operations by the refinement of
`Construction/Ledger.lean`.

A chunk is charged with the size requested and released with its `capacity`, a `u32`, so all of
this needs requests below `2 ^ 32` bytes (`accounting_exact`).  `charge_eq_release_iff` says that
this is the exact condition for a single chunk.
-/

namespace PagedAlloc.Sequential

open Words Transition Relation

variable {l l' : Ledger} {w w' : World} {ops : List Op}

/-! ## Counters of many records -/

section Update

variable {α : Type} {f : α → ℕ} {x : ℕ → α} {k t n d : ℕ} {a : α}

/-- One of many records gains `d` in a counter. -/
lemma update_add (hn : f (x t) = n % size64)
    (ha : f (x k) = n % size64 → f a = (n + d) % size64) :
    f (Function.update x k a t) = (n + if k = t then d else 0) % size64 := by
  by_cases hk : k = t
  · subst hk
    rw [Function.update_self, if_pos rfl]
    exact ha hn
  · rw [Function.update_of_ne (Ne.symm hk), if_neg hk, Nat.add_zero]
    exact hn

/-- One of many records loses `d`, which it had. -/
lemma update_sub (hn : f (x t) = n % size64) (hle : (if k = t then d else 0) ≤ n)
    (ha : d ≤ n → f (x k) = n % size64 → f a = (n - d) % size64) :
    f (Function.update x k a t) = (n - if k = t then d else 0) % size64 := by
  by_cases hk : k = t
  · subst hk
    rw [if_pos rfl] at hle ⊢
    rw [Function.update_self]
    exact ha hle hn
  · rw [Function.update_of_ne (Ne.symm hk), if_neg hk, Nat.sub_zero]
    exact hn

/-- A counter that a change leaves alone. -/
lemma update_keep (ha : f a = f (x k)) : f (Function.update x k a t) = f (x t) := by
  by_cases hk : k = t
  · subst hk
    rw [Function.update_self, ha]
  · rw [Function.update_of_ne (Ne.symm hk)]

end Update

/-! ## Gauges -/

/-- The counters that go up and down. -/
inductive Gauge
  | bytesInUse (t : ℕ)
  | pagesInUse (t : ℕ)
  | chunksInUse (t : ℕ)
  | poolChunksInUse (n : ℕ)
  | oversizedBytesInUse (n : ℕ)
  deriving DecidableEq

namespace Gauge

def value (l : Ledger) : Gauge → ℕ
  | bytesInUse t => (l.tenants t).bytesInUse
  | pagesInUse t => (l.tenants t).pagesInUse
  | chunksInUse t => (l.tenants t).chunksInUse
  | poolChunksInUse n => (l.chunkStats n).chunksInUse
  | oversizedBytesInUse n => (l.chunkStats n).oversizedBytesInUse

/-- The charge of a live page. -/
def ofPage (h : PageHandle) : Gauge → ℕ
  | bytesInUse t => if h.tenant = t then h.capacity else 0
  | pagesInUse t => if h.tenant = t then 1 else 0
  | _ => 0

/-- The charge of a live chunk. -/
def ofChunk (h : ChunkHandle) : Gauge → ℕ
  | bytesInUse t => if h.tenant = t then h.capacity else 0
  | pagesInUse _ => 0
  | chunksInUse t => if h.tenant = t then 1 else 0
  | poolChunksInUse n => if h.pool = n then 1 else 0
  | oversizedBytesInUse n => if h.pool = n then h.oversizedBytes else 0

/-- The sum of the charges of all live handles. -/
def total (l : Ledger) (g : Gauge) : ℕ :=
  l.pages.sum (fun h => g.ofPage h) + l.chunks.sum fun h => g.ofChunk h

variable {g : Gauge} {n : ℕ}

lemma value_addPage {h : PageHandle} (hn : g.value l = n % size64) :
    g.value (l.addPage h) = (n + g.ofPage h) % size64 := by
  cases g with
  | bytesInUse t =>
      refine update_add (f := TenantStats.bytesInUse) hn ?_
      intro hn
      rw [TenantStats.recordAllocate, TenantStats.chargeBytes, hn, fetchAdd_mod]
  | pagesInUse t =>
      refine update_add (f := TenantStats.pagesInUse) hn ?_
      intro hn
      rw [TenantStats.recordAllocate, TenantStats.chargeBytes, hn, fetchAdd_mod]
  | chunksInUse t =>
      refine Eq.trans (update_keep (f := TenantStats.chunksInUse) ?_) hn
      rfl
  | poolChunksInUse m => exact hn
  | oversizedBytesInUse m => exact hn

lemma value_removePage {h : PageHandle} {i : ℕ} (hn : g.value l = n % size64)
    (hle : g.ofPage h ≤ n) : g.value (l.removePage i h) = (n - g.ofPage h) % size64 := by
  cases g with
  | bytesInUse t =>
      refine update_sub (f := TenantStats.bytesInUse) hn hle ?_
      intro hle hn
      rw [TenantStats.recordRelease, hn, fetchSub_mod hle]
  | pagesInUse t =>
      refine update_sub (f := TenantStats.pagesInUse) hn hle ?_
      intro hle hn
      rw [TenantStats.recordRelease, hn, fetchSub_mod hle]
  | chunksInUse t =>
      refine Eq.trans (update_keep (f := TenantStats.chunksInUse) ?_) hn
      rfl
  | poolChunksInUse m => exact hn
  | oversizedBytesInUse m => exact hn

lemma value_addChunk {h : ChunkHandle} (hissued : h.Issued) (hsmall : h.request.size < size32)
    (hn : g.value l = n % size64) :
    g.value (l.addChunk h) = (n + g.ofChunk h) % size64 := by
  have hcap : h.request.size = h.capacity := by
    rw [hissued.capacity, (truncate32_eq_iff _).2 hsmall]
  cases g with
  | bytesInUse t =>
      refine update_add (f := TenantStats.bytesInUse) hn ?_
      intro hn
      rw [TenantStats.recordChunkAllocate, TenantStats.chargeBytes, hn, fetchAdd_mod, hcap]
  | pagesInUse t =>
      refine Eq.trans (update_keep (f := TenantStats.pagesInUse) ?_) hn
      rfl
  | chunksInUse t =>
      refine update_add (f := TenantStats.chunksInUse) hn ?_
      intro hn
      rw [TenantStats.recordChunkAllocate, TenantStats.chargeBytes, hn, fetchAdd_mod]
  | poolChunksInUse m =>
      refine update_add (f := ChunkPoolStats.chunksInUse) hn ?_
      intro hn
      cases h.request.sizeClass <;>
        simp only [ChunkPoolStats.recordAllocate, ChunkAccess.exec, hn, fetchAdd_mod]
  | oversizedBytesInUse m =>
      refine update_add (f := ChunkPoolStats.oversizedBytesInUse) hn ?_
      intro hn
      rw [hissued.oversizedBytes]
      cases hclass : h.request.sizeClass <;>
        simp [ChunkPoolStats.recordAllocate, ChunkAccess.exec, hn, fetchAdd_mod]

lemma value_removeChunk {h : ChunkHandle} {i : ℕ} (hn : g.value l = n % size64)
    (hle : g.ofChunk h ≤ n) : g.value (l.removeChunk i h) = (n - g.ofChunk h) % size64 := by
  cases g with
  | bytesInUse t =>
      refine update_sub (f := TenantStats.bytesInUse) hn hle ?_
      intro hle hn
      rw [TenantStats.recordChunkRelease, hn, fetchSub_mod hle]
  | pagesInUse t =>
      refine Eq.trans (update_keep (f := TenantStats.pagesInUse) ?_) hn
      rfl
  | chunksInUse t =>
      refine update_sub (f := TenantStats.chunksInUse) hn hle ?_
      intro hle hn
      rw [TenantStats.recordChunkRelease, hn, fetchSub_mod hle]
  | poolChunksInUse m =>
      refine update_sub (f := ChunkPoolStats.chunksInUse) hn hle ?_
      intro hle hn
      unfold ChunkPoolStats.recordRelease
      split <;> simp only [ChunkAccess.exec, hn, fetchSub_mod hle]
  | oversizedBytesInUse m =>
      refine update_sub (f := ChunkPoolStats.oversizedBytesInUse) hn hle ?_
      intro hle hn
      unfold ChunkPoolStats.recordRelease
      split
      · simp only [ChunkAccess.exec, hn, fetchSub_mod hle]
      · rename_i hzero
        have h0 : h.oversizedBytes = 0 := Nat.eq_zero_of_not_pos hzero
        simp only [ChunkAccess.exec, hn, h0, Nat.sub_zero]

end Gauge

/-! ## Totals -/

/-- The counters that only go up. -/
inductive Total
  | pagesAllocated (t : ℕ)
  | chunksAllocated (t : ℕ)
  | poolChunks (n : ℕ)
  | packed (n : ℕ)
  | dedicated (n : ℕ)
  | oversized (n : ℕ)
  deriving DecidableEq

namespace Total

def value (l : Ledger) : Total → ℕ
  | pagesAllocated t => (l.tenants t).totalPagesAllocated
  | chunksAllocated t => (l.tenants t).totalChunksAllocated
  | poolChunks n => (l.chunkStats n).totalChunks
  | packed n => (l.chunkStats n).packedAllocations
  | dedicated n => (l.chunkStats n).dedicatedAllocations
  | oversized n => (l.chunkStats n).oversizedAllocations

/-- The allocation is one the counter counts. -/
def counts (c : Total) : Made → Bool
  | .page t _ => c = pagesAllocated t
  | .chunk t n k =>
      c = chunksAllocated t ∨ c = poolChunks n ∨ (k = .packed ∧ c = packed n) ∨
        (k = .dedicated ∧ c = dedicated n) ∨ (k = .oversized ∧ c = oversized n)

/-- The number of allocations the counter counts. -/
def count (l : Ledger) (c : Total) : ℕ := l.made.countP c.counts

variable {c : Total}

lemma value_addPage {h : PageHandle} (hc : c.value l = c.count l % size64) :
    c.value (l.addPage h) = c.count (l.addPage h) % size64 := by
  have hcount : c.count (l.addPage h) =
      c.count l + if c.counts (.page h.tenant h.pool) then 1 else 0 := List.countP_cons
  cases c with
  | pagesAllocated t =>
      rw [hcount]
      simp only [counts, pagesAllocated.injEq, decide_eq_true_eq, eq_comm (a := t)]
      refine update_add (f := TenantStats.totalPagesAllocated) hc ?_
      intro hc
      rw [TenantStats.recordAllocate, TenantStats.chargeBytes, hc, fetchAdd_mod]
  | chunksAllocated t =>
      refine Eq.trans (update_keep (f := TenantStats.totalChunksAllocated) ?_) hc
      rfl
  | _ => exact hc

lemma value_removePage {h : PageHandle} {i : ℕ} : c.value (l.removePage i h) = c.value l := by
  cases c with
  | pagesAllocated t =>
      apply update_keep (f := TenantStats.totalPagesAllocated)
      rfl
  | chunksAllocated t =>
      apply update_keep (f := TenantStats.totalChunksAllocated)
      rfl
  | _ => rfl

/-- The counters of a `ChunkPoolStats` count the paths. -/
lemma value_addChunk {h : ChunkHandle} (hc : c.value l = c.count l % size64) :
    c.value (l.addChunk h) = c.count (l.addChunk h) % size64 := by
  cases c with
  | pagesAllocated t =>
      by_cases ht : t = h.tenant
      · subst ht
        simpa [value, count, Ledger.addChunk, counts, TenantStats.recordChunkAllocate,
          TenantStats.chargeBytes] using hc
      · simpa [value, count, Ledger.addChunk, counts, ht] using hc
  | chunksAllocated t =>
      by_cases ht : t = h.tenant
      · subst ht
        simp only [value, count] at hc
        simp [value, count, Ledger.addChunk, counts, TenantStats.recordChunkAllocate,
          TenantStats.chargeBytes, hc, fetchAdd_mod]
      · simpa [value, count, Ledger.addChunk, counts, ht] using hc
  | poolChunks n | packed n | dedicated n | oversized n =>
      by_cases hn : n = h.pool
      · subst hn
        simp only [value, count] at hc
        cases hclass : h.request.sizeClass <;>
          simp [value, count, Ledger.addChunk, counts, ChunkPoolStats.recordAllocate,
            ChunkAccess.exec, hclass, hc, fetchAdd_mod]
      · simpa [value, count, Ledger.addChunk, counts, hn] using hc

lemma value_removeChunk {h : ChunkHandle} {i : ℕ} : c.value (l.removeChunk i h) = c.value l := by
  have hrelease : ∀ (st : ChunkPoolStats) (n : ℕ),
      (st.recordRelease n).totalChunks = st.totalChunks ∧
      (st.recordRelease n).packedAllocations = st.packedAllocations ∧
      (st.recordRelease n).dedicatedAllocations = st.dedicatedAllocations ∧
      (st.recordRelease n).oversizedAllocations = st.oversizedAllocations := by
    intro st n
    unfold ChunkPoolStats.recordRelease
    split <;> exact ⟨rfl, rfl, rfl, rfl⟩
  cases c with
  | pagesAllocated t =>
      by_cases ht : t = h.tenant
      · subst ht
        simp [value, Ledger.removeChunk, TenantStats.recordChunkRelease]
      · simp [value, Ledger.removeChunk, ht]
  | chunksAllocated t =>
      by_cases ht : t = h.tenant
      · subst ht
        simp [value, Ledger.removeChunk, TenantStats.recordChunkRelease]
      · simp [value, Ledger.removeChunk, ht]
  | poolChunks n | packed n | dedicated n | oversized n =>
      by_cases hn : n = h.pool
      · subst hn
        simp [value, Ledger.removeChunk, hrelease]
      · simp [value, Ledger.removeChunk, hn]

end Total

/-! ## The invariant -/

/-- Every gauge is the sum of the charges, and every total the number of allocations. -/
structure Ledger.Exact (l : Ledger) : Prop where
  issued : ∀ i h, l.chunks.get i = some h → h.Issued ∧ h.request.size < size32
  gauge : ∀ g : Gauge, g.value l = g.total l % size64
  total : ∀ c : Total, c.value l = c.count l % size64

lemma exact_init : World.init.ledger.Exact where
  issued i h hget := by simp [World.init, World.ledger] at hget
  gauge g := by
    cases g <;> simp [Gauge.value, Gauge.total, World.init, World.ledger, TenantStats.default,
      ChunkPoolStats.default]
  total c := by
    cases c <;> simp [Total.value, Total.count, World.init, World.ledger, TenantStats.default,
      ChunkPoolStats.default]

lemma ChunkHandle.SameCharge.ofChunk_eq {h h' : ChunkHandle} (hsame : h.SameCharge h')
    (g : Gauge) : g.ofChunk h' = g.ofChunk h := by
  cases g <;> simp [Gauge.ofChunk, hsame.tenant, hsame.pool, hsame.capacity,
    hsame.oversizedBytes]

lemma PageHandle.SameCharge.ofPage_eq {h h' : PageHandle} (hsame : h.SameCharge h')
    (g : Gauge) : g.ofPage h' = g.ofPage h := by
  cases g <;> simp [Gauge.ofPage, hsame.tenant, hsame.capacity]

/-- One move keeps every counter exact. -/
lemma Ledger.Exact.move (hl : l.Exact) (hmove : Ledger.Move (· < size32) l l') : l'.Exact := by
  cases hmove with
  | addPage h =>
      refine ⟨hl.issued, fun g => ?_, fun c => Total.value_addPage (hl.total c)⟩
      rw [Gauge.value_addPage (hl.gauge g)]
      simp only [Gauge.total, Ledger.addPage, Arena.sum_push]
      congr 1
      omega
  | @removePage i h hget =>
      refine ⟨hl.issued, fun g => ?_, fun c => ?_⟩
      · have hsum := Arena.sum_erase (f := fun h => g.ofPage h) hget
        have hle : g.ofPage h ≤ g.total l := by
          unfold Gauge.total
          omega
        rw [Gauge.value_removePage (hl.gauge g) hle]
        simp only [Gauge.total, Ledger.removePage]
        congr 1
        omega
      · rw [Total.value_removePage]
        exact hl.total c
  | @setPage i h h' hget hsame =>
      refine ⟨hl.issued, fun g => ?_, hl.total⟩
      have hsum := Arena.sum_set (f := fun h => g.ofPage h) (b := h') hget
      rw [hsame.ofPage_eq g] at hsum
      have hval : g.value { l with pages := l.pages.set i h' } = g.value l := by cases g <;> rfl
      rw [hval, hl.gauge g]
      simp only [Gauge.total]
      congr 1
      omega
  | addChunk h hissued hsmall =>
      refine ⟨fun i h' hget => ?_, fun g => ?_, fun c => Total.value_addChunk (hl.total c)⟩
      · simp only [Ledger.addChunk, Arena.get_push] at hget
        split at hget
        · obtain rfl := Option.some.inj hget
          exact ⟨hissued, hsmall⟩
        · exact hl.issued i h' hget
      · rw [Gauge.value_addChunk hissued hsmall (hl.gauge g)]
        simp only [Gauge.total, Ledger.addChunk, Arena.sum_push]
        congr 1
        omega
  | @removeChunk i h hget =>
      refine ⟨fun j h' hj => hl.issued j h' (Arena.get_of_get_erase hj).2, fun g => ?_,
        fun c => ?_⟩
      · have hsum := Arena.sum_erase (f := fun h => g.ofChunk h) hget
        have hle : g.ofChunk h ≤ g.total l := by
          unfold Gauge.total
          omega
        rw [Gauge.value_removeChunk (hl.gauge g) hle]
        simp only [Gauge.total, Ledger.removeChunk]
        congr 1
        omega
      · rw [Total.value_removeChunk]
        exact hl.total c
  | @setChunk i h h' hget hsame =>
      refine ⟨fun j hd hj => ?_, fun g => ?_, hl.total⟩
      · simp only [Arena.get_set hget] at hj
        split at hj
        · obtain rfl := Option.some.inj hj
          obtain ⟨hissued, hsmall⟩ := hl.issued i h hget
          refine ⟨⟨?_, ?_⟩, ?_⟩
          · rw [hsame.capacity, hsame.request, hissued.capacity]
          · rw [hsame.oversizedBytes, hsame.request, hissued.oversizedBytes]
          · rwa [hsame.request]
        · exact hl.issued j hd hj
      · have hsum := Arena.sum_set (f := fun h => g.ofChunk h) (b := h') hget
        rw [hsame.ofChunk_eq g] at hsum
        have hval : g.value { l with chunks := l.chunks.set i h' } = g.value l := by
          cases g <;> rfl
        rw [hval, hl.gauge g]
        simp only [Gauge.total]
        congr 1
        omega

lemma exact_run (h : runOps ops = some w) (hsmall : ∀ op ∈ ops, op.Requests (· < size32)) :
    w.ledger.Exact := by
  have hmoves := ledger_run hsmall h
  generalize w.ledger = l at hmoves
  induction hmoves with
  | refl => exact exact_init
  | tail _ hmove ih => exact ih.move hmove

/-! ## The counters of a reachable state -/

/-- The allocation is a page for the tenant. -/
def Made.IsPageOf (t : ℕ) : Made → Bool
  | .page t' _ => t' = t
  | .chunk _ _ _ => false

/-- The allocation is a chunk for the tenant. -/
def Made.IsChunkOf (t : ℕ) : Made → Bool
  | .page _ _ => false
  | .chunk t' _ _ => t' = t

/-- The allocation is a chunk of size zero from the pool. -/
def Made.IsZeroFrom (n : ℕ) : Made → Bool
  | .page _ _ => false
  | .chunk _ n' c => n' = n ∧ c = .zero

/-- The counters of a tenant are what its live pages and chunks, and its allocations so far, say
they are.  Bytes and pages in use cannot wrap around, since live memory fits the address space;
chunks of size zero take no memory, and totals grow forever, so those are counted modulo
`2 ^ 64`. -/
structure World.TenantExact (w : World) (t : ℕ) : Prop where
  bytesInUse : (w.tenants t).bytesInUse =
    w.pages.sum (fun h => if h.tenant = t then w.pools.val Pool.pageSize h.pool else 0) +
      w.chunks.sum fun h => if h.tenant = t then h.request.size else 0
  pagesInUse : (w.tenants t).pagesInUse = w.pages.sum fun h => if h.tenant = t then 1 else 0
  chunksInUse : (w.tenants t).chunksInUse =
    w.chunks.sum (fun h => if h.tenant = t then 1 else 0) % size64
  totalPagesAllocated :
    (w.tenants t).totalPagesAllocated = w.made.countP (Made.IsPageOf t) % size64
  totalChunksAllocated :
    (w.tenants t).totalChunksAllocated = w.made.countP (Made.IsChunkOf t) % size64

/-- So are the counters of a chunk pool. -/
structure World.ChunkPoolExact (w : World) (n : ℕ) : Prop where
  totalChunks : (w.chunkStats n).totalChunks =
    ((w.chunkStats n).packedAllocations + (w.chunkStats n).dedicatedAllocations +
      (w.chunkStats n).oversizedAllocations + w.made.countP (Made.IsZeroFrom n)) % size64
  chunksInUse : (w.chunkStats n).chunksInUse =
    w.chunks.sum (fun h => if h.pool = n then 1 else 0) % size64
  oversizedBytesInUse : (w.chunkStats n).oversizedBytesInUse =
    w.chunks.sum fun h =>
      if h.pool = n ∧ h.request.sizeClass = .oversized then h.request.size else 0

section Exact

variable {t n : ℕ} {f : PageHandle → ℕ} {k : ChunkHandle → ℕ}

/-- A gauge as a sum over live pages and chunks. -/
lemma gauge_eq (hl : w.ledger.Exact) (g : Gauge)
    (hf : ∀ i h, w.pages.get i = some h → g.ofPage h = f h)
    (hk : ∀ i h, w.chunks.get i = some h → g.ofChunk h = k h) :
    g.value w.ledger = (w.pages.sum f + w.chunks.sum k) % size64 := by
  rw [← Arena.sum_ext hf, ← Arena.sum_ext hk]
  exact hl.gauge g

/-- A gauge of live memory is below `2 ^ 64`. -/
lemma gauge_eq_of_le (hl : w.ledger.Exact) (ho : Owned w.idle) (hr : Ranges w.pools w.chunks)
    (g : Gauge) (hf : ∀ i h, w.pages.get i = some h → g.ofPage h = f h ∧ f h ≤ h.capacity)
    (hk : ∀ i h, w.chunks.get i = some h → g.ofChunk h = k h ∧ k h ≤ h.request.size) :
    g.value w.ledger = w.pages.sum f + w.chunks.sum k := by
  have hlive := ho.live_bytes_lt hr
  have hpages : w.pages.sum f ≤ w.pages.sum fun h => h.capacity :=
    Arena.sum_le_sum fun i h hi => (hf i h hi).2
  have hchunks : w.chunks.sum k ≤ w.chunks.sum fun h => h.request.size :=
    Arena.sum_le_sum fun i h hi => (hk i h hi).2
  dsimp only at hlive
  rw [gauge_eq hl g (fun i h hi => (hf i h hi).1) fun i h hi => (hk i h hi).1]
  exact Nat.mod_eq_of_lt (by omega)

lemma tenantExact (hl : w.ledger.Exact) (ho : Owned w.idle) (hr : Ranges w.pools w.chunks) :
    w.TenantExact t := by
  have hsize : ∀ i h, w.pages.get i = some h →
      w.pools.val Pool.pageSize h.pool = h.capacity ∧ 0 < h.capacity := by
    intro i h hi
    obtain ⟨p, hp, hcap⟩ := Option.map_eq_some_iff.1 (ho.fits.page i h hi)
    have hle := (ho.blocks.pageSize h.pool p hp).1
    rw [Arena.val_of_get hp]
    unfold defaultAlign at hle
    exact ⟨hcap, by omega⟩
  constructor
  case bytesInUse =>
    apply gauge_eq_of_le hl ho hr (.bytesInUse t)
    · intro i h hi
      rw [(hsize i h hi).1, Gauge.ofPage]
      exact ⟨rfl, by split <;> omega⟩
    · intro i h hi
      obtain ⟨hissued, hsmall⟩ := hl.issued i h hi
      rw [Gauge.ofChunk, hissued.capacity, (truncate32_eq_iff _).2 hsmall]
      exact ⟨rfl, by split <;> omega⟩
  case pagesInUse =>
    have hgauge : (w.tenants t).pagesInUse =
        w.pages.sum (fun h => if h.tenant = t then 1 else 0) + w.chunks.sum fun _ => 0 := by
      apply gauge_eq_of_le hl ho hr (.pagesInUse t)
      · intro i h hi
        have hpos := (hsize i h hi).2
        exact ⟨rfl, by split <;> omega⟩
      · exact fun i h hi => ⟨rfl, Nat.zero_le _⟩
    rw [hgauge, Arena.sum_eq_zero fun i h hi => rfl, Nat.add_zero]
  case chunksInUse =>
    have hgauge : (w.tenants t).chunksInUse = (w.pages.sum (fun _ => 0) +
        w.chunks.sum fun h => if h.tenant = t then 1 else 0) % size64 :=
      gauge_eq hl (.chunksInUse t) (fun i h hi => rfl) fun i h hi => rfl
    rw [hgauge, Arena.sum_eq_zero fun i h hi => rfl, Nat.zero_add]
  case totalPagesAllocated =>
    have htotal := hl.total (.pagesAllocated t)
    have hcount : Total.count w.ledger (.pagesAllocated t) = w.made.countP (Made.IsPageOf t) := by
      apply List.countP_congr
      intro m _
      cases m <;> simp [Total.counts, Made.IsPageOf, eq_comm]
    rw [hcount] at htotal
    exact htotal
  case totalChunksAllocated =>
    have htotal := hl.total (.chunksAllocated t)
    have hcount : Total.count w.ledger (.chunksAllocated t) = w.made.countP (Made.IsChunkOf t) := by
      apply List.countP_congr
      intro m _
      cases m <;> simp [Total.counts, Made.IsChunkOf, eq_comm]
    rw [hcount] at htotal
    exact htotal

/-- The four paths of `allocate_aligned`. -/
lemma count_poolChunks (made : List Made) (n : ℕ) :
    made.countP (Total.poolChunks n).counts = made.countP (Total.packed n).counts +
      made.countP (Total.dedicated n).counts + made.countP (Total.oversized n).counts +
      made.countP (Made.IsZeroFrom n) := by
  induction made with
  | nil => rfl
  | cons m made ih =>
      simp only [List.countP_cons, ih]
      cases m with
      | page t id => simp [Total.counts, Made.IsZeroFrom]
      | chunk t id c =>
          by_cases hid : n = id
          · subst hid
            cases c <;> simp [Total.counts, Made.IsZeroFrom] <;> omega
          · simp [Total.counts, Made.IsZeroFrom, hid, Ne.symm hid]

lemma chunkPoolExact (hl : w.ledger.Exact) (ho : Owned w.idle) (hr : Ranges w.pools w.chunks) :
    w.ChunkPoolExact n := by
  constructor
  case totalChunks =>
    have hall : (w.chunkStats n).totalChunks = _ % size64 := hl.total (.poolChunks n)
    have hpacked : (w.chunkStats n).packedAllocations = _ % size64 := hl.total (.packed n)
    have hdedicated : (w.chunkStats n).dedicatedAllocations = _ % size64 :=
      hl.total (.dedicated n)
    have hoversized : (w.chunkStats n).oversizedAllocations = _ % size64 :=
      hl.total (.oversized n)
    rw [hall, hpacked, hdedicated, hoversized]
    unfold Total.count
    rw [count_poolChunks]
    simp only [Nat.add_mod, Nat.mod_mod]
    rfl
  case chunksInUse =>
    have hgauge : (w.chunkStats n).chunksInUse = (w.pages.sum (fun _ => 0) +
        w.chunks.sum fun h => if h.pool = n then 1 else 0) % size64 :=
      gauge_eq hl (.poolChunksInUse n) (fun i h hi => rfl) fun i h hi => rfl
    rw [hgauge, Arena.sum_eq_zero fun i h hi => rfl, Nat.zero_add]
  case oversizedBytesInUse =>
    have hgauge : (w.chunkStats n).oversizedBytesInUse = w.pages.sum (fun _ => 0) +
        w.chunks.sum fun h =>
          if h.pool = n ∧ h.request.sizeClass = .oversized then h.request.size else 0 := by
      apply gauge_eq_of_le hl ho hr (.oversizedBytesInUse n)
      · exact fun i h hi => ⟨rfl, Nat.zero_le _⟩
      · intro i h hi
        rw [Gauge.ofChunk, (hl.issued i h hi).1.oversizedBytes, ← ite_and]
        exact ⟨rfl, by split <;> omega⟩
    rw [hgauge, Arena.sum_eq_zero fun i h hi => rfl, Nat.zero_add]

end Exact

/-- **Exact accounting.** After any sequence of completed operations, over any number of pools and
tenants and with requests below `2 ^ 32` bytes, every counter is exact. -/
theorem accounting_exact (h : runOps ops = some w)
    (hsmall : ∀ op ∈ ops, op.Requests (· < size32)) :
    (∀ t, w.TenantExact t) ∧ ∀ n, w.ChunkPoolExact n := by
  have hexact := exact_run h hsmall
  have ho := owned_run h
  have hr := ranges_run h
  exact ⟨fun t => tenantExact hexact ho hr, fun n => chunkPoolExact hexact ho hr⟩

/-- Two pools and two tenants, a page sealed and cloned, and chunks of all four classes. -/
def mixedRun : List Op :=
  [.newPagePool 64, .newChunkPool 64, .allocatePage 0 0 (some 8), .sealPage 0, .clonePage 0,
    .allocateChunk 1 0 24 8 (some 80), .allocateChunk 1 1 48 8 (some 160),
    .allocateChunk 1 0 100 8 (some 240), .allocateChunk 1 1 0 8 none, .dropPage 0, .dropChunk 1]

theorem accounting_exact_mixedRun : ∃ w, runOps mixedRun = some w ∧ (∀ t, w.TenantExact t) ∧
    ∀ n, w.ChunkPoolExact n := by
  obtain ⟨w, hw⟩ := Option.isSome_iff_exists.1
    (show (runOps mixedRun).isSome = true by decide +kernel)
  refine ⟨w, hw, accounting_exact hw ?_⟩
  simp [mixedRun, Op.Requests, size32]

end PagedAlloc.Sequential
