import PagedAlloc.Construction.PoolInterleaving
import PagedAlloc.Framework.Arena
import PagedAlloc.Framework.HappensBefore

/-!
# The memory accesses of one pool

`PoolInterleaving` says what the steps do to the words of the buffers; here is who makes them, and
with which orderings.  Everything that uses a buffer is an agent: the owner, the user of a
`PageBuilder` or `ChunkBuilder`, and the user of every clone of a sealed handle.  A page is behind
one handle, or, as a `PackedPage`, behind an `Arc` shared by its chunks and by the open page of the
`ChunkPool`.

The agents are as far apart as the program allows: each is on a thread of its own and knows of the
others only what the program makes it know.  Agents that share a thread, or learn of each other
elsewhere, are ordered more.

The plain accesses and the operations that order them are emitted as the actions of an execution:
the exchange of `push_return` and the swap of `drain_return_queue` with the orderings they are
given, the decrements of the two kinds of `Arc`, which release, and acquire if they are the last,
and the hand-over of a buffer from the owner to its first user.  Relaxed loads and increments order
nothing and are left out.  The load of `return_head` may answer any value it has had.
-/

namespace PagedAlloc.MemoryOrder

open PoolInterleaving (Addr Push OwnerPc PushPc)
open HappensBefore Transition Words

/-- The orderings of the two accesses to `return_head` that are not relaxed. -/
structure Orderings where
  exchangeReleases : Bool
  swapAcquires : Bool
  deriving DecidableEq, Repr

/-- `Ordering::Release` of the exchange and `Ordering::Acquire` of the swap. -/
def Orderings.source : Orderings := ⟨true, true⟩

abbrev Agent := ℕ

/-- The thread of the pool. -/
def ownerAgent : Agent := 0

/-- The atomic locations that order anything. -/
inductive Atomic
  | returnHead
  /-- The strong count of the `PageInner` or `ChunkInner` of a handle. -/
  | inner (i : ℕ)
  /-- The strong count of a `PackedPage`. -/
  | packed (i : ℕ)
  deriving DecidableEq, Repr

/-- Who uses a handle. -/
inductive Users
  | builder (a : Agent)
  | sealed (clones : Multiset Agent)
  deriving DecidableEq

/-- A `Page`, a `Chunk` or the builder of one, with the bytes it may use. -/
structure Handle where
  span : Span Addr
  /-- The `PackedPage` of a chunk. -/
  packed : Option ℕ
  users : Users
  deriving DecidableEq

structure PackedPage where
  buf : Addr
  strong : ℕ
  deriving DecidableEq, Repr

/-- The open page of the `ChunkPool`. -/
structure OpenPage where
  packed : ℕ
  writeOffset : ℕ
  deriving DecidableEq, Repr

structure State where
  pool : PoolInterleaving.State
  pageSize : ℕ
  /-- The values `return_head` has had. -/
  heads : Finset Addr
  handles : Arena Handle
  packed : Arena PackedPage
  current : Option OpenPage
  /-- References to a `PackedPage` that an agent is about to drop. -/
  dropping : Multiset (ℕ × Agent)
  /-- Who pushes a buffer. -/
  pusher : Addr → Agent
  agents : ℕ

/-- `ChunkPool::from_pool` over a new pool; with no chunks, just the pool. -/
def init (pageSize : ℕ) : State where
  pool := PoolInterleaving.init
  pageSize := pageSize
  heads := {0}
  handles := .empty
  packed := .empty
  current := none
  dropping := 0
  pusher := fun _ => ownerAgent
  agents := 1

/-- What becomes of the buffer that `allocate_raw_page` returns. -/
inductive Purpose
  /-- `PagePool::allocate`. -/
  | page
  /-- `ChunkPool::allocate_dedicated`. -/
  | dedicated (capacity : ℕ)
  /-- `ChunkPool::open_new_page`. -/
  | packed
  deriving DecidableEq, Repr

inductive Event
  /-- The owner calls a pool operation or takes its next step in one, or the source fails it. -/
  | owner (e : PoolInterleaving.Event)
  /-- The end of `allocate_raw_page`. -/
  | returnBuffer (purpose : Purpose)
  /-- `push_return` loads `return_head`. -/
  | load (p : Push) (observed : Addr)
  /-- Any other step of a `push_return` call. -/
  | push (p : Push) (spurious : Bool)
  /-- `ChunkPool::allocate_packed` claims a range of the open page. -/
  | allocatePacked (lo hi : ℕ)
  /-- The owner gives up its open page. -/
  | retire
  /-- An agent reads through its handle. -/
  | read (i : ℕ) (a : Agent) (lo hi : ℕ)
  /-- The user of a builder writes through it; `word` is then the first word of the buffer, if the
  range touches that. -/
  | write (i : ℕ) (lo hi : ℕ) (word : Addr)
  | sealHandle (i : ℕ)
  | cloneHandle (i : ℕ) (a : Agent)
  | dropHandle (i : ℕ) (a : Agent)
  /-- A reference to a `PackedPage` is dropped. -/
  | dropPacked (i : ℕ) (a : Agent)
  deriving DecidableEq, Repr

namespace State

variable (s : State)

/-- All bytes of a buffer. -/
def whole (buf : Addr) : Span Addr := ⟨buf, 0, s.pageSize⟩

/-- The first word of a buffer. -/
def link (buf : Addr) : Span Addr := ⟨buf, 0, 8⟩

/-- The pool takes a step. -/
def stepPool (e : PoolInterleaving.Event) : Option State :=
  (PoolInterleaving.step s.pool e).map fun pool =>
    { s with pool := pool, heads := insert pool.returnHead s.heads }

/-- An agent calls `push_return`. -/
def startPush (buf : Addr) (a : Agent) : Option State :=
  ({ s with pusher := Function.update s.pusher buf a } : State).stepPool (.drop buf)

/-- A new handle, and its first user. -/
def addHandle (span : Span Addr) (packed : Option ℕ) : State :=
  { s with
    handles := s.handles.push ⟨span, packed, .builder s.agents⟩
    agents := s.agents + 1 }

/-- The bytes of a chunk for which `[lo, hi)` has been claimed: the builder stores `offset as u32`
and `capacity as u32`. -/
def chunkSpan (buf lo hi : Addr) : Span Addr :=
  ⟨buf, truncate32 lo, truncate32 lo + truncate32 (hi - lo)⟩

/-- `allocate_raw_page` returns `buf`. -/
def returned (buf : Addr) : Purpose → Option State
  | .page => some (s.addHandle (s.whole buf) none)
  | .dedicated capacity =>
      if capacity ≤ s.pageSize then
        some <| ({ s with packed := s.packed.push ⟨buf, 1⟩ } : State).addHandle
          (chunkSpan buf 0 capacity) (some s.packed.next)
      else none
  | .packed =>
      if s.current = none then
        some { s with
          packed := s.packed.push ⟨buf, 1⟩
          current := some ⟨s.packed.next, 0⟩ }
      else none

/-- One more reference to a `PackedPage`. -/
def clonePacked (i : ℕ) : State :=
  match s.packed.get i with
  | some page => { s with packed := s.packed.set i { page with strong := page.strong + 1 } }
  | none => s

/-- The handle `i`, if `a` uses it. -/
def used (i : ℕ) (a : Agent) : Option Handle :=
  (s.handles.get i).filter fun h => match h.users with
    | .builder a' => a = a'
    | .sealed clones => a ∈ clones

/-- The fields of a handle are dropped: a chunk has a reference to its page, a page the buffer. -/
def release (h : Handle) (a : Agent) : Option State :=
  match h.packed with
  | none => s.startPush h.span.block a
  | some page => some { s with dropping := (page, a) ::ₘ s.dropping }

/-- One step of the system. -/
def step : Event → Option State
  | .owner e => match e, s.pool.owner with
      | .drop _, _ | .push _ _, _ | .scribble _ _, _ => none
      | .owner _, .addPagesInUse _ => none
      | e, _ => s.stepPool e
  | .returnBuffer purpose => match s.pool.owner with
      | .addPagesInUse buf => (s.stepPool (.owner 0)).bind fun t => t.returned buf purpose
      | _ => none
  | .load p observed =>
      if p ∈ s.pool.pushers ∧ p.pc = .load ∧ observed ∈ s.heads then
        some { s with pool :=
          { s.pool with pushers := ⟨p.buf, .write observed⟩ ::ₘ s.pool.pushers.erase p } }
      else none
  | .push p spurious => if p.pc = .load then none else s.stepPool (.push p spurious)
  | .allocatePacked lo hi => match s.current with
      | none => none
      | some page => (s.packed.get page.packed).bind fun packed =>
          if s.pool.owner = .idle ∧ page.writeOffset ≤ lo ∧ lo ≤ hi ∧ hi ≤ s.pageSize then
            some <| ({ s.clonePacked page.packed with
              current := some ⟨page.packed, hi⟩ } : State).addHandle
                (chunkSpan packed.buf lo hi) (some page.packed)
          else none
  | .retire => match s.current with
      | none => none
      | some page =>
          if s.pool.owner = .idle then
            some { s with
              current := none
              dropping := (page.packed, ownerAgent) ::ₘ s.dropping }
          else none
  | .read i a lo hi => (s.used i a).bind fun h =>
      if h.span.lo ≤ lo ∧ hi ≤ h.span.hi then some s else none
  | .write i lo hi word => (s.handles.get i).bind fun h => match h.users with
      | .builder _ =>
          if h.span.lo ≤ lo ∧ hi ≤ h.span.hi then
            if (⟨h.span.block, lo, hi⟩ : Span Addr).Overlaps (link h.span.block) then
              s.stepPool (.scribble h.span.block word)
            else some s
          else none
      | .sealed _ => none
  | .sealHandle i => (s.handles.get i).bind fun h => match h.users with
      | .builder a =>
          let t := { s with handles := s.handles.set i { h with users := .sealed {a} } }
          some <| match h.packed with
            | none => t
            | some page =>
                -- The chunk clones the reference, and the builder drops its own.
                { t.clonePacked page with dropping := (page, a) ::ₘ t.dropping }
      | .sealed _ => none
  | .cloneHandle i a => (s.used i a).bind fun h => match h.users with
      | .builder _ => none
      | .sealed clones => some { s with
          handles := s.handles.set i { h with users := .sealed (s.agents ::ₘ clones) }
          agents := s.agents + 1 }
  | .dropHandle i a => (s.used i a).bind fun h => match h.users with
      | .builder _ => ({ s with handles := s.handles.erase i } : State).release h a
      | .sealed clones =>
          if clones = {a} then ({ s with handles := s.handles.erase i } : State).release h a
          else some { s with
            handles := s.handles.set i { h with users := .sealed (clones.erase a) } }
  | .dropPacked i a => (s.packed.get i).bind fun page =>
      if (i, a) ∈ s.dropping then
        let t := { s with dropping := s.dropping.erase (i, a) }
        if page.strong = 1 then
          ({ t with packed := s.packed.erase i } : State).startPush page.buf a
        else some { t with packed := s.packed.set i { page with strong := page.strong - 1 } }
      else none

end State

/-! ## Actions -/

/-- What the owner does to memory in its next step. -/
def ownerActions (o : Orderings) (reply : Addr) (s : State) : List (Action Agent Atomic Addr) :=
  match s.pool.owner with
  | .popLocal _ =>
      if s.pool.localHead = 0 then [] else [.read ownerAgent (State.link s.pool.localHead)]
  | .swap => [.rmw ownerAgent .returnHead false o.swapAcquires]
  -- The buffer comes zeroed.
  | .sourceAllocate | .prewarm (_ + 1) _ => [.write ownerAgent (s.whole reply)]
  | .link buf _ _ => [.write ownerAgent (State.link buf)]
  | _ => []

/-- What a `push_return` call does to memory in its next step. -/
def pushActions (o : Orderings) (p : Push) (spurious : Bool) (s : State) :
    List (Action Agent Atomic Addr) :=
  match p.pc with
  | .write _ => [.write (s.pusher p.buf) (State.link p.buf)]
  | .cas head =>
      if s.pool.returnHead = head ∧ spurious = false then
        [.rmw (s.pusher p.buf) .returnHead o.exchangeReleases false]
      else []
  | _ => []

/-- What an event does to memory. -/
def actions (o : Orderings) (s : State) : Event → List (Action Agent Atomic Addr)
  | .owner (.owner reply) => ownerActions o reply s
  | .returnBuffer .packed => []
  | .returnBuffer _ | .allocatePacked _ _ => [.spawn ownerAgent s.agents]
  | .push p spurious => pushActions o p spurious s
  | .read i a lo hi => match s.handles.get i with
      | some h => [.read a ⟨h.span.block, lo, hi⟩]
      | none => []
  | .write i lo hi _ => match s.handles.get i with
      | some ⟨span, _, .builder a⟩ => [.write a ⟨span.block, lo, hi⟩]
      | _ => []
  | .cloneHandle _ a => [.spawn a s.agents]
  | .dropHandle i a => match s.handles.get i with
      | some ⟨_, _, .sealed clones⟩ => [.rmw a (.inner i) true (clones = {a})]
      | _ => []
  | .dropPacked i a => match s.packed.get i with
      | some page => [.rmw a (.packed i) true (page.strong = 1)]
      | none => []
  | _ => []

/-- The memory actions of a run. -/
def execution (o : Orderings) (pageSize : ℕ) (es : List Event) :
    List (Action Agent Atomic Addr) :=
  emitted State.step (actions o) (init pageSize) es

end PagedAlloc.MemoryOrder
