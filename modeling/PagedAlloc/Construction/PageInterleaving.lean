import PagedAlloc.Construction.HandleInterleaving
import PagedAlloc.Construction.PoolInterleaving

/-!
# The page handles of one pool

`PoolInterleaving` knows the buffers that are held, but not by whom.  Here they are behind
`PageBuilder`s and `Page`s (`src/page.rs`): `PagePool::allocate` hands out a builder, which any
thread may write through, seal or drop, and a sealed page may be cloned and its clones dropped
anywhere.  The drop of a builder or of the last clone starts a `push_return` call; no other event
on a handle touches the pool.

The owner's steps and those of the calls in flight are the ones of `PoolInterleaving`.
-/

namespace PagedAlloc.PageInterleaving

open PoolInterleaving (Addr)
open HandleInterleaving (Refs)

/-- `PageBuilder` and `PageInner`. -/
structure PageHandle where
  buf : Addr
  refs : Refs
  deriving DecidableEq, Repr

structure State where
  pool : PoolInterleaving.State
  pages : Arena PageHandle

def init : State := ⟨PoolInterleaving.init, .empty⟩

inductive Event
  /-- A step of the owner or of a `push_return` call. -/
  | pool (e : PoolInterleaving.Event)
  | sealPage (i : ℕ)
  | clonePage (i : ℕ)
  | dropPage (i : ℕ)
  /-- A write through a builder, as far as the pool can see it: into the first word. -/
  | writePage (i : ℕ) (word : Addr)
  deriving DecidableEq, Repr

namespace State

variable (s : State)

/-- The pool takes a step and the handles stay. -/
def stepPool (e : PoolInterleaving.Event) : Option State :=
  (PoolInterleaving.step s.pool e).map fun pool => { s with pool := pool }

/-- The owner takes a step; the last one of `allocate_raw_page` returns the buffer, which goes
into a new builder. -/
def stepOwner (reply : Addr) : Option State :=
  (PoolInterleaving.step s.pool (.owner reply)).map fun pool =>
    match s.pool.owner with
    | .addPagesInUse buf => ⟨pool, s.pages.push ⟨buf, .builder⟩⟩
    | _ => ⟨pool, s.pages⟩

/-- The drop of a handle. -/
def dropPage (i : ℕ) (h : PageHandle) : Option State :=
  match h.refs with
  | .builder | .sealed 1 => ({ s with pages := s.pages.erase i } : State).stepPool (.drop h.buf)
  | .sealed c => some { s with pages := s.pages.set i { h with refs := .sealed (c - 1) } }

/-- One step of the system.  What a drop or a write does to the pool is not an event of its
own. -/
def step : Event → Option State
  | .pool (.owner reply) => s.stepOwner reply
  | .pool (.drop _) => none
  | .pool (.scribble _ _) => none
  | .pool e => s.stepPool e
  | .sealPage i => (s.pages.get i).bind fun h => match h.refs with
      | .builder => some { s with pages := s.pages.set i { h with refs := .sealed 1 } }
      | .sealed _ => none
  | .clonePage i => (s.pages.get i).bind fun h => match h.refs with
      | .builder => none
      | .sealed c => some { s with pages := s.pages.set i { h with refs := .sealed (c + 1) } }
  | .dropPage i => (s.pages.get i).bind fun h => s.dropPage i h
  | .writePage i word => (s.pages.get i).bind fun h => match h.refs with
      | .builder => s.stepPool (.scribble h.buf word)
      | .sealed _ => none

end State

/-- The walk of `PagePool::local_free_pages` over the local list. -/
def localFreePages (next : Addr → Addr) : ℕ → Addr → ℕ
  | 0, _ => 0
  | fuel + 1, head => if head = 0 then 0 else localFreePages next fuel (next head) + 1

end PagedAlloc.PageInterleaving
