import PagedAlloc.Construction.Custody

/-!
# The page register of a pool

What the counters of one pool are about: the pages it obtained from its source, those it has
given out and those it has got back.  `World.register` forgets the rest of the world, memory and
reference counts included, and `Register.Move` is the abstract machine on registers; its labels
(`Label`) name the few things that can happen to the pages of a pool.

A page that the source returned to a `prewarm` that then panics is in the pool without having
been counted, and a request the source refuses has been counted without a page.  The machine
keeps both apart from the rest (`Label.leaked`, `Label.failed`), and the invariant `Tally` says
what the counters are, given how often either has happened.
-/

namespace PagedAlloc

open Words

/-- What `allocate_raw_page` does to the counters. -/
structure PoolStats.Acquires (fresh : Bool) (st st' : PoolStats) : Prop where
  allocationsFromHeap : st'.allocationsFromHeap =
    if fresh then fetchAdd st.allocationsFromHeap 1 else st.allocationsFromHeap
  pagesInUse : st'.pagesInUse = fetchAdd st.pagesInUse 1
  freePages : st'.freePages = if fresh then st.freePages else fetchSub st.freePages 1
  prewarmedPages : st'.prewarmedPages = st.prewarmedPages

/-- What `push_return` does to the counters. -/
def PoolStats.giveBack (st : PoolStats) : PoolStats :=
  (PoolAccess.addFreePages 1).exec (PoolAccess.subPagesInUse.exec st)

/-- What a `prewarm` of `n` pages does to the counters. -/
def PoolStats.prewarm (st : PoolStats) (n : ℕ) : PoolStats :=
  (PoolAccess.addPrewarmedPages n).exec
    ((PoolAccess.addFreePages n).exec ((PoolAccess.addAllocationsFromHeap n).exec st))

end PagedAlloc

namespace PagedAlloc.Sequential

open Words Relation

/-! ## The history of a pool -/

/-- The pool an event is about. -/
def PageEvent.pool : PageEvent → ℕ
  | acquire id _ _ => id
  | giveBack id _ => id
  | prewarm id _ => id

/-- What has happened to the pages of one pool, the latest first. -/
def World.history (w : World) (id : ℕ) : List PageEvent := w.trace.filter fun e => e.pool = id

namespace History

/-- The pages in use. -/
def inUse : List PageEvent → ℕ
  | [] => 0
  | .acquire _ _ _ :: t => inUse t + 1
  | .giveBack _ _ :: t => inUse t - 1
  | .prewarm _ _ :: t => inUse t

/-- The pages obtained from the source by completed operations. -/
def fromHeap : List PageEvent → ℕ
  | [] => 0
  | .acquire _ _ fresh :: t => fromHeap t + if fresh then 1 else 0
  | .giveBack _ _ :: t => fromHeap t
  | .prewarm _ n :: t => fromHeap t + n

/-- The pages prewarmed. -/
def prewarmed : List PageEvent → ℕ
  | [] => 0
  | .prewarm _ n :: t => prewarmed t + n
  | _ :: t => prewarmed t

/-- What `free_pages` counts: pages prewarmed and given back, less those taken again. -/
def free : List PageEvent → ℤ
  | [] => 0
  | .acquire _ _ fresh :: t => free t - if fresh then 0 else 1
  | .giveBack _ _ :: t => free t + 1
  | .prewarm _ n :: t => free t + n

/-- How often the buffer `a` has been acquired. -/
def acquired (a : ℕ) (t : List PageEvent) : ℕ :=
  t.countP fun e => match e with
    | .acquire _ b _ => a = b
    | _ => false

/-- How often the buffer `a` has been pushed to the return queue. -/
def returned (a : ℕ) (t : List PageEvent) : ℕ :=
  t.countP fun e => match e with
    | .giveBack _ b => a = b
    | _ => false

/-- The largest number of pages ever in use at once. -/
def peak : List PageEvent → ℕ
  | [] => 0
  | e :: t => max (peak t) (inUse (e :: t))

end History

/-! ## Registers -/

/-- What is left of a pool. -/
@[ext]
structure Register where
  /-- The pool has been created. -/
  born : Bool
  /-- The references its owner holds, none once it has been dropped. -/
  owner : ℕ
  stats : Option PoolStats
  history : List PageEvent
  /-- How many buffers the source has returned. -/
  obtained : ℕ
  /-- How many of them have not been released. -/
  blocks : ℕ
  /-- The buffers that are not on a free list. -/
  held : Multiset ℕ

/-- The event is a successful call to the source of the pool. -/
def SourceEvent.Supplies (id : ℕ) : SourceEvent → Bool
  | .allocate o _ _ => o = .pool id
  | .release _ _ _ _ => false

/-- The event is a release to the source of the pool. -/
def SourceEvent.Releases (id : ℕ) : SourceEvent → Bool
  | .allocate _ _ _ => false
  | .release o _ _ _ => o = .pool id

/-- The buffer of a page handle, if it is one of the pool. -/
def PageHandle.buffer (id : ℕ) (h : PageHandle) : Multiset ℕ := if id = h.pool then {h.buf} else 0

/-- The buffer of a packed page, if it is one of the pool. -/
def PackedInner.buffer (id : ℕ) (q : PackedInner) : Multiset ℕ :=
  if q.page.release = .pool id then {q.page.buf} else 0

/-- The buffers of the pool behind handles, and those in `B`, which the running operation holds. -/
def World.held (w : World) (B : Multiset (ℕ × ℕ)) (id : ℕ) : Multiset ℕ :=
  w.pages.sum (PageHandle.buffer id) + w.packed.sum (PackedInner.buffer id) +
    (B.filter fun b => id = b.1).map Prod.snd

def World.register (w : World) (B : Multiset (ℕ × ℕ)) (id : ℕ) : Register where
  born := decide (id < w.pools.next)
  owner := w.pools.val (fun p => p.owner.refs) id
  stats := (w.pools.get id).map Pool.stats
  history := w.history id
  obtained := w.log.countP (SourceEvent.Supplies id)
  blocks := w.blocks.countP fun b => b.origin = .pool id
  held := w.held B id

/-- What happens to the pages of a pool. -/
inductive Label
  | birth
  | acquire (a : ℕ) (fresh : Bool)
  | giveBack (a : ℕ)
  | prewarm (n : ℕ)
  /-- A `prewarm` that panics after `k` pages. -/
  | leak (k : ℕ)
  /-- The source refuses a page. -/
  | fail
  /-- The drop of the owner, which releases `k` buffers. -/
  | close (k : ℕ)
  /-- The drop of the last reference. -/
  | die
  deriving DecidableEq, Repr

/-- The pages in a pool that were not counted. -/
def Label.leaked : Label → ℕ
  | leak k => k
  | _ => 0

/-- The pages counted that the source did not return. -/
def Label.failed : Label → ℕ
  | fail => 1
  | _ => 0

/-- The buffers released by the owner. -/
def Label.closed : Label → ℕ
  | close k => k
  | _ => 0

namespace Register

/-- One move of the abstract machine. -/
inductive Move (id : ℕ) : Register → Label → Register → Prop
  | birth {r} (unborn : r.born = false) :
      Move id r .birth { r with born := true, owner := 1, stats := some PoolStats.default }
  -- The source is called if and only if no page of the pool is free.
  | acquire {r st st' a fresh} (live : r.owner = 1) (stats : r.stats = some st)
      (counted : st.Acquires fresh st') (empty : fresh = true → r.blocks = r.held.card)
      (nonempty : fresh = false → r.held.card < r.blocks) (unheld : a ∉ r.held) :
      Move id r (.acquire a fresh) { r with
        stats := some st'
        history := .acquire id a fresh :: r.history
        obtained := r.obtained + if fresh then 1 else 0
        blocks := r.blocks + if fresh then 1 else 0
        held := a ::ₘ r.held }
  | giveBack {r st a held} (stats : r.stats = some st) (mem : r.held = a ::ₘ held) :
      Move id r (.giveBack a) { r with
        stats := some st.giveBack
        history := .giveBack id a :: r.history
        held := held }
  | prewarm {r st} (n) (live : r.owner = 1) (stats : r.stats = some st) :
      Move id r (.prewarm n) { r with
        stats := some (st.prewarm n)
        history := .prewarm id n :: r.history
        obtained := r.obtained + n
        blocks := r.blocks + n }
  | leak {r} (k) (live : r.owner = 1) :
      Move id r (.leak k) { r with obtained := r.obtained + k, blocks := r.blocks + k }
  | fail {r st} (live : r.owner = 1) (stats : r.stats = some st)
      (empty : r.blocks = r.held.card) :
      Move id r .fail { r with
        stats := some ((PoolAccess.addAllocationsFromHeap 1).exec st) }
  | close {r} (k) (live : r.owner = 1) (le : k + r.held.card ≤ r.blocks) :
      Move id r (.close k) { r with owner := 0, blocks := r.blocks - k }
  | die {r st} (k) (stats : r.stats = some st) :
      Move id r .die { r with owner := 0, stats := none, blocks := r.blocks - k }

/-- Any number of moves with labels in `G`. -/
abbrev Moves (id : ℕ) (G : Label → Prop) : Register → Register → Prop :=
  ReflTransGen fun r r' => ∃ l, G l ∧ Move id r l r'

end Register

end PagedAlloc.Sequential
