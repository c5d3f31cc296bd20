import PagedAlloc.Properties.PackedLoop
import PagedAlloc.Properties.Ranges

/-!
# A page the source does not supply

`allocate_fresh` counts the page in `allocations_from_heap` before it calls the source.  If the
source panics, everything else is as it was, on every path that asks for a page: the free lists
are empty before and after, the open page that was retired on the way was still referred to by a
chunk, and no tenant has been charged.  But the count stays, so no failed allocation is atomic
(`failed_allocation_counted`).
-/

namespace PagedAlloc.Sequential

open Words Bytes Intrusive Relation Transition

/-- A call that may take a page from the source of a pool. -/
inductive PageCall
  /-- `PagePool::allocate`. -/
  | page
  /-- `ChunkPool::allocate_aligned`. -/
  | chunk (size align : ℕ)
  deriving DecidableEq, Repr

namespace PageCall

def exec (call : PageCall) (w : World) (id tenant : ℕ) (p : Pool) (reply : Option ℕ) :
    Outcome World ℕ :=
  match call with
  | page => w.allocatePage id tenant p reply
  | chunk size align => w.allocateAligned id tenant p size align reply

/-- The pool is one of the kind the call is made on, and a chunk is packed or has a page of its
own. -/
def Reaches (p : Pool) : PageCall → Prop
  | page => ∃ l, p.owner = .pagePool l
  | chunk size align => (∃ l c, p.owner = .chunkPool l c) ∧ IsPowerOfTwo align ∧
      (sizeClass p.pageSize size align = .packed ∨ sizeClass p.pageSize size align = .dedicated)

end PageCall

/-- After a failed call on the pool `p`, `allocations_from_heap` is `heap`; every other counter,
the free buffers and the bytes of live pages and chunks are as before, the source has supplied and
got back nothing, and the call returns if the source supplies a page next time. -/
structure World.Fails (w : World) (call : PageCall) (id tenant : ℕ) (p : Pool) (heap : ℕ)
    (w' : World) : Prop where
  pool : ∃ p', w'.pools.get id = some p' ∧
    p'.stats = { p.stats with allocationsFromHeap := heap } ∧
    (∀ free, FreeLists w'.mem p' free ↔ FreeLists w.mem p free) ∧
    ∀ a, w'.Supplies p.layout a → ∃ i w'', call.exec w' id tenant p' (some a) = .done i w''
  otherPools : ∀ j, j ≠ id → w'.pools.get j = w.pools.get j ∧
    ∀ q free, FreeLists w'.mem q free ↔ FreeLists w.mem q free
  chunkStats : w'.chunkStats = w.chunkStats
  tenants : w'.tenants = w.tenants
  log : w'.log = w.log
  pages : ∀ i h, w.pages.get i = some h →
    w'.pages.get i = some h ∧ w'.pageSlice h = w.pageSlice h
  chunks : ∀ i h, w.chunks.get i = some h →
    w'.chunks.get i = some h ∧ w'.chunkSlice h = w.chunkSlice h

section Failure

variable {w w' : World} {id tenant a l size align : ℕ} {p : Pool} {reply : Option ℕ}
  {call : PageCall} {c : Option OpenPage}

/-! ## A call returns if the source supplies a page -/

lemma Retired.blocks_eq (h : Retired w id p l c w') : w'.blocks = w.blocks := by
  cases h <;> rfl

lemma findPage_returns (ho : Owned w.idle) (hget : w.pools.get id = some p)
    (howner : p.owner = .chunkPool l c) (halign : IsPowerOfTwo align)
    (hclass : sizeClass p.pageSize size align = .packed) (hsupplies : w.Supplies p.layout a) :
    ∃ r w', World.findPage id size align (some a) 2 w = .done r w' := by
  cases hroom : p.room size align with
  | some o => exact ⟨_, _, findPage_open hget hroom 1⟩
  | none =>
      obtain ⟨p₁, hget₁, -, hsize₁⟩ := owner_closeCurrent ho hget howner
      have hsupplies₁ : (w.replaceCurrent id none).Supplies p₁.layout a := by
        unfold World.Supplies Pool.layout
        rw [hsize₁, (retired_replaceCurrent ho hget howner).blocks_eq]
        exact hsupplies
      obtain ⟨b, w₁, hraw⟩ := exists_allocateRawPage hget₁ hsupplies₁
      have hopen : ∃ w₂, (w.replaceCurrent id none).openNewPage id (some a) = .done () w₂ := by
        unfold World.openNewPage
        rw [hraw]
        exact ⟨_, rfl⟩
      obtain ⟨w₂, hopen⟩ := hopen
      obtain ⟨b', fresh, k, p₂, q, -, -, -, -, -, hfind⟩ :=
        findPage_opened ho hget howner halign hclass hroom hopen
      exact ⟨_, _, hfind 0⟩

/-- **The pool is usable**: the call returns as soon as the source does. -/
lemma exec_returns (ho : Owned w.idle) (hget : w.pools.get id = some p) (hcall : call.Reaches p)
    (hsupplies : w.Supplies p.layout a) :
    ∃ i w', call.exec w id tenant p (some a) = .done i w' := by
  obtain ⟨b, w₁, hraw⟩ := exists_allocateRawPage hget hsupplies
  cases call with
  | page =>
      show ∃ i w', w.allocatePage id tenant p (some a) = .done i w'
      unfold World.allocatePage
      rw [hraw]
      exact ⟨_, _, rfl⟩
  | chunk size align =>
      obtain ⟨⟨l, c, howner⟩, halign, hclass⟩ := hcall
      show ∃ i w', w.allocateAligned id tenant p size align (some a) = .done i w'
      unfold World.allocateAligned
      rw [if_pos halign]
      rcases hclass with hclass | hclass
      · rw [hclass]
        obtain ⟨r, w₂, hfind⟩ := findPage_returns ho hget howner halign hclass hsupplies
        dsimp only
        unfold World.allocatePacked
        rw [hfind]
        exact ⟨_, _, rfl⟩
      · rw [hclass]
        dsimp only
        unfold World.allocateDedicated
        rw [hraw]
        exact ⟨_, _, rfl⟩

/-! ## What a refusal leaves -/

/-- The state after the source has refused a page: the lists were empty, the call was counted, and
the open page may have been retired. -/
structure Refused (w : World) (call : PageCall) (id : ℕ) (p : Pool) (w' : World) : Prop where
  localHead : p.owner.localHead = 0
  returnHead : p.returnHead = 0
  world : ∃ packed owner, owner.localHead = 0 ∧
    call.Reaches { p with owner := owner } ∧ w' = { w with
      packed := packed
      pools := w.pools.set id ({ p with owner := owner }.access (.addAllocationsFromHeap 1)) }

lemma refused_findPage (ho : Owned w.idle) (hget : w.pools.get id = some p)
    (howner : p.owner = .chunkPool l c) (halign : IsPowerOfTwo align)
    (hclass : sizeClass p.pageSize size align = .packed) :
    (World.findPage id size align reply 2 w).Post (fun _ _ => True)
      fun w' => reply = none ∧ Refused w (.chunk size align) id p w' := by
  cases hroom : p.room size align with
  | some o =>
      rw [findPage_open hget hroom]
      trivial
  | none =>
      obtain ⟨p₁, hget₁, howner₁, -⟩ := owner_closeCurrent ho hget howner
      have hretired := retired_replaceCurrent ho hget howner
      cases hopen : (w.replaceCurrent id none).openNewPage id reply with
      | done x w₂ =>
          obtain ⟨a, fresh, k, p₂, q, -, -, -, -, -, hfind⟩ :=
            findPage_opened ho hget howner halign hclass hroom hopen
          rw [hfind 0]
          trivial
      | refused =>
          rw [findPage_retire hget hroom, hopen]
          trivial
      | panicked w₂ =>
          have hpanic := opened_openNewPage reply hget₁ howner₁
          rw [hopen] at hpanic
          obtain ⟨hreply, hlocal, hreturn, hw₂⟩ := hpanic
          rw [findPage_retire hget hroom, hopen]
          refine Outcome.post_panicked ⟨hreply, ?_⟩
          have hzero : (Owner.chunkPool l none).localHead = 0 := by
            rw [← howner₁]
            exact hlocal
          have hlocal' : p.owner.localHead = 0 := by
            rw [howner]
            exact hzero
          have hreaches : (PageCall.chunk size align).Reaches { p with owner := .chunkPool l none } :=
            ⟨⟨l, none, rfl⟩, halign, Or.inl hclass⟩
          rw [hw₂]
          generalize w.replaceCurrent id none = w₁ at hretired hget₁
          cases hretired with
          | none =>
              obtain rfl := Option.some.inj (hget₁.symm.trans (Arena.get_set_self hget))
              refine ⟨hlocal', hreturn, w.packed, _, hzero, hreaches, ?_⟩
              dsimp only
              rw [Arena.set_set]
          | @shared o q hq hne =>
              obtain rfl := Option.some.inj (hget₁.symm.trans (Arena.get_set_self hget))
              refine ⟨hlocal', hreturn, w.packed.set o.shared.id { q with strong := q.strong - 1 },
                _, hzero, hreaches, ?_⟩
              dsimp only
              rw [Arena.set_set]
          | @last o hne =>
              -- The retired page would be on the return queue, and the source not called.
              obtain rfl := Option.some.inj (hget₁.symm.trans (Arena.get_set_self hget))
              exact absurd hreturn hne

lemma refused_exec (ho : Owned w.idle) (hget : w.pools.get id = some p) (hcall : call.Reaches p) :
    (call.exec w id tenant p reply).Post (fun _ _ => True)
      fun w' => reply = none ∧ Refused w call id p w' := by
  -- Everywhere but on the packed path the page is asked for at once.
  have hraw (hlive : p.owner.Live) : (w.allocateRawPage id reply).Post (fun _ _ => True)
      fun w' => reply = none ∧ Refused w call id p w' := by
    refine (refused_allocateRawPage hget hlive).mono (fun _ _ _ => trivial) ?_
    rintro w' ⟨hreply, hlocal, hreturn, hw'⟩
    exact ⟨hreply, hlocal, hreturn, w.packed, p.owner, hlocal, hcall, hw'⟩
  cases call with
  | page =>
      obtain ⟨l, howner⟩ := hcall
      exact Outcome.Post.bind (hraw (Owner.live_of_pagePool howner)) fun _ _ _ => trivial
  | chunk size align =>
      obtain ⟨⟨l, c, howner⟩, halign, hclass⟩ := hcall
      show (w.allocateAligned id tenant p size align reply).Post _ _
      unfold World.allocateAligned
      rw [if_pos halign]
      rcases hclass with hclass | hclass
      · rw [hclass]
        exact Outcome.Post.bind (refused_findPage ho hget howner halign hclass)
          fun _ _ _ => trivial
      · rw [hclass]
        exact Outcome.Post.bind (hraw (Owner.live_of_chunkPool howner)) fun _ _ _ => trivial

lemma custody_exec (ho : Owned w.idle) (hget : w.pools.get id = some p) (hcall : call.Reaches p) :
    KeepsCustody w (call.exec w id tenant p reply) := by
  cases call with
  | page =>
      obtain ⟨l, howner⟩ := hcall
      exact custody_allocatePage hget howner
  | chunk size align =>
      obtain ⟨⟨l, c, howner⟩, -, -⟩ := hcall
      exact custody_allocateAligned ho hget howner

/-- A pool with nothing on its lists. -/
lemma freeLists_iff_of_empty {mem : Memory} {free : Multiset ℕ} (hlocal : p.owner.localHead = 0)
    (hreturn : p.returnHead = 0) : FreeLists mem p free ↔ free = 0 := by
  constructor
  · rintro ⟨l, r, hl, hr, rfl⟩
    rw [hlocal] at hl
    rw [hreturn] at hr
    rw [chain_null_iff.1 hl, chain_null_iff.1 hr]
    rfl
  · rintro rfl
    exact .empty hlocal hreturn

/-- Everything but the one counter is as it was. -/
lemma Refused.fails (h : Refused w call id p w') (ho' : Owned w'.idle)
    (hget : w.pools.get id = some p) :
    w.Fails call id tenant p (fetchAdd p.stats.allocationsFromHeap 1) w' := by
  obtain ⟨hlocal, hreturn, packed, owner, hlocal', hreaches, rfl⟩ := h
  have hget' := Arena.get_set_self
    (b := Pool.access { p with owner := owner } (.addAllocationsFromHeap 1)) hget
  refine ⟨⟨_, hget', rfl, fun free => ?_, fun a hsupplies => ?_⟩,
    fun j hj => ⟨?_, fun _ _ => Iff.rfl⟩,
    rfl, rfl, rfl, fun i h hi => ⟨hi, rfl⟩, fun i h hi => ⟨hi, rfl⟩⟩
  · rw [freeLists_iff_of_empty hlocal hreturn]
    exact freeLists_iff_of_empty (p := Pool.access { p with owner := owner } _) hlocal' hreturn
  · refine exec_returns ho' hget' ?_ hsupplies
    cases call <;> exact hreaches
  · exact Arena.get_set_of_ne hj

end Failure

/-! ## The law -/

section Law

variable {w w' : World} {ops : List Op} {id tenant : ℕ} {p : Pool} {reply : Option ℕ}
  {call : PageCall}

/-- **No failed allocation is atomic.** Whenever the source panics, the call stays counted in
`allocations_from_heap`, and nothing else has changed. -/
theorem failed_allocation_counted (h : runOps ops = some w) (hget : w.pools.get id = some p)
    (hcall : call.Reaches p) (hpanic : call.exec w id tenant p reply = .panicked w') :
    reply = none ∧ w.Fails call id tenant p (fetchAdd p.stats.allocationsFromHeap 1) w' ∧
      ¬ w.Fails call id tenant p p.stats.allocationsFromHeap w' := by
  have ho : Owned w.idle := owned_run h
  have hcustody : KeepsCustody w (call.exec w id tenant p reply) := custody_exec ho hget hcall
  have hpost : (call.exec w id tenant p reply).Post (fun _ _ => True)
      fun w' => reply = none ∧ Refused w call id p w' := refused_exec ho hget hcall
  rw [hpanic] at hpost hcustody
  obtain ⟨hreply, hrefused⟩ := hpost
  have hfails : w.Fails call id tenant p (fetchAdd p.stats.allocationsFromHeap 1) w' :=
    hrefused.fails (ho.moves hcustody) hget
  refine ⟨hreply, hfails, fun hatomic => ?_⟩
  obtain ⟨p₁, hget₁, hst₁, -⟩ := hfails.pool
  obtain ⟨p₂, hget₂, hst₂, -⟩ := hatomic.pool
  obtain rfl := Option.some.inj (hget₁.symm.trans hget₂)
  have hcount : fetchAdd p.stats.allocationsFromHeap 1 = p.stats.allocationsFromHeap :=
    congrArg PoolStats.allocationsFromHeap (hst₁.symm.trans hst₂)
  rw [fetchAdd_eq, size64_eq] at hcount
  omega

/-- A packed call retires the open page, on which two chunks are live, and its source panics. -/
theorem failed_allocation_counted_retired : ∃ w p w',
    runOps [.newChunkPool 64, .allocateChunk 0 7 32 8 (some 64), .allocateChunk 0 7 24 8 none] =
      some w ∧
    w.pools.get 0 = some p ∧ (PageCall.chunk 16 8).exec w 0 7 p none = .panicked w' ∧
    w.Fails (.chunk 16 8) 0 7 p 2 w' ∧ p.stats.pagesInUse = 1 := by
  have heval : ((runOps [.newChunkPool 64, .allocateChunk 0 7 32 8 (some 64),
      .allocateChunk 0 7 24 8 none]).bind fun w => (w.pools.get 0).map fun p =>
        (p.pageSize, p.owner, p.stats.allocationsFromHeap, p.stats.pagesInUse,
          ((PageCall.chunk 16 8).exec w 0 7 p none).final.isSome,
          ((PageCall.chunk 16 8).exec w 0 7 p none).returned.isSome)) =
      some (64, .chunkPool 0 (some ⟨⟨0, ⟨64, .pool 0⟩⟩, 56⟩), 1, 1, true, false) := by
    decide +kernel
  obtain ⟨w, hw, heval⟩ := Option.bind_eq_some_iff.1 heval
  obtain ⟨p, hget, heq⟩ := Option.map_eq_some_iff.1 heval
  simp only [Prod.mk.injEq] at heq
  obtain ⟨hsize, howner, hheap, huse, hfinal, hreturned⟩ := heq
  have hcall : (PageCall.chunk 16 8).Reaches p := by
    refine ⟨⟨0, _, howner⟩, by decide, Or.inl ?_⟩
    rw [hsize]
    decide
  cases hexec : (PageCall.chunk 16 8).exec w 0 7 p none with
  | refused =>
      rw [hexec] at hfinal
      exact absurd hfinal (by simp [Outcome.final])
  | done i w' =>
      rw [hexec] at hreturned
      exact absurd hreturned (by simp [Outcome.returned])
  | panicked w' =>
      obtain ⟨-, hfails, -⟩ := failed_allocation_counted hw hget hcall hexec
      rw [hheap, show fetchAdd 1 1 = 2 by decide +kernel] at hfails
      exact ⟨w, p, w', hw, hget, hexec, hfails, huse⟩

/-- The first page of a pool is refused. -/
lemma first_page_refused : ∃ w p w', runOps [.newPagePool 64] = some w ∧
    w.pools.get 0 = some p ∧ p.owner = .pagePool 0 ∧ p.stats = PoolStats.default ∧
    PageCall.page.exec w 0 7 p none = .panicked w' ∧
    (w'.pools.get 0).map (fun q => q.stats.allocationsFromHeap) = some (fetchAdd 0 1) ∧
    w'.log = [] := by
  obtain ⟨w, hw⟩ : ∃ w, runOps [.newPagePool 64] = some w := ⟨_, rfl⟩
  obtain rfl := Option.some.inj hw
  exact ⟨_, _, _, rfl, rfl, rfl, rfl, rfl, rfl, rfl⟩

/-- One page has been counted, and the source has returned none. -/
theorem failed_allocation_not_atomic : ∃ w p w', runOps [.newPagePool 64] = some w ∧
    w.pools.get 0 = some p ∧ PageCall.page.exec w 0 7 p none = .panicked w' ∧
    (w'.pools.get 0).map (fun q => q.stats.allocationsFromHeap) = some 1 ∧ w'.log = [] ∧
    ¬ w.Fails .page 0 7 p p.stats.allocationsFromHeap w' := by
  obtain ⟨w, p, w', hw, hget, howner, hst, hpanic, hcount, hlog⟩ := first_page_refused
  rw [show fetchAdd 0 1 = 1 by decide +kernel] at hcount
  refine ⟨w, p, w', hw, hget, hpanic, hcount, hlog, fun hatomic => ?_⟩
  obtain ⟨p', hget', hst', -⟩ := hatomic.pool
  rw [hget', Option.map_some, hst', hst] at hcount
  exact absurd hcount (by decide)

end Law

end PagedAlloc.Sequential
