import PagedAlloc.Construction.PoolInterleaving

/-!
# One pool under every interleaving, to its end

`PoolInterleaving` is a pool that lives for ever.  Here its parts are dropped, in any order and on
any thread: the `PagePool` by its owner, the handles, and the clones of `Arc<PoolShared>` that a
metrics reader holds.  Every change of the strong count of the `Arc` is a step of its own, and so is
every step of the two walks that give buffers back to the source: that of `PagePool::drop` over the
local list, and that of `PoolShared::drop` over the return queue, run by the thread that drops the
last reference.

What holds a reference: the `PagePool` until its `shared` field is dropped; every handle, from the
`clone` in `allocate_raw_page` to the drop of its `shared` field, which follows its `push_return`;
and every external clone.  `dropping` counts the references whose drop is about to happen.

A step that uses a `PoolShared` that is no longer there raises `fault`.
-/

namespace PagedAlloc.TeardownInterleaving

open PoolInterleaving (Addr Push)
open Transition

/-- Where the `PagePool` is. -/
inductive Owner
  | alive
  /-- In the loop of `PagePool::drop`. -/
  | walking
  /-- `head` is unlinked and about to be released. -/
  | releasing (head : Addr)
  /-- Its `shared` field is dropped or about to be. -/
  | dropped
  deriving DecidableEq, Repr

/-- Where the `PoolShared` is. -/
inductive Shared
  | alive
  /-- In `PoolShared::drop`, about to swap `return_head` with null. -/
  | swap
  /-- At the head of its loop. -/
  | walking (head : Addr)
  /-- The link of `head` is read; `head` is about to be released. -/
  | releasing (head next : Addr)
  | dropped
  deriving DecidableEq, Repr

structure State where
  pool : PoolInterleaving.State
  owner : Owner
  shared : Shared
  /-- The strong count of the `Arc<PoolShared>`. -/
  strong : ℕ
  /-- `allocate_raw_page` has this buffer and is about to clone the `Arc` for it. -/
  cloning : Option Addr
  /-- References that are about to be dropped. -/
  dropping : ℕ
  /-- Clones held outside the crate. -/
  external : ℕ
  /-- Buffers passed to `source.release`. -/
  released : Multiset Addr
  fault : Bool

/-- `PagePool::with_source`. -/
def init : State where
  pool := PoolInterleaving.init
  owner := .alive
  shared := .alive
  strong := 1
  cloning := none
  dropping := 0
  external := 0
  released := 0
  fault := false

inductive Event
  /-- The owner calls a pool operation or takes its next step in one, or the source fails it. -/
  | owner (e : PoolInterleaving.Event)
  /-- The clone of the `Arc` at the end of `allocate_raw_page`. -/
  | cloneShared
  /-- The last clone of the handle of `buf` is dropped. -/
  | dropHandle (buf : Addr)
  /-- The holder of `buf` writes to it. -/
  | scribble (buf word : Addr)
  /-- A `push_return` call takes its next step. -/
  | push (p : Push) (spurious : Bool)
  /-- `PageBuilder::seal`: the page clones the `Arc`, and the builder is going to drop its own. -/
  | sealHandle (buf : Addr)
  /-- A clone of `PagePool::shared`, or of such a clone. -/
  | cloneExternal
  | dropExternal
  /-- The owner drops the `PagePool`. -/
  | dropPool
  /-- The next step of `PagePool::drop`. -/
  | walkLocal
  /-- One of the references is dropped. -/
  | dropArc
  /-- The next step of `PoolShared::drop`. -/
  | walkReturn
  deriving DecidableEq, Repr

namespace State

variable (s : State)

/-- A use of the `PoolShared`. -/
def useShared : State := if s.shared = .alive then s else { s with fault := true }

/-- The events of the owner that `PoolInterleaving` has. -/
def ownerEvent : PoolInterleaving.Event → Bool
  | .allocate | .prewarm _ | .owner _ | .allocateFails | .prewarmFails => true
  | _ => false

/-- The buffer with which a step of the owner ends `allocate_raw_page`, up to the clone. -/
def returned : PoolInterleaving.Event → PoolInterleaving.OwnerPc → Option Addr
  | .owner _, .addPagesInUse buf => some buf
  | _, _ => none

/-- The owner's `&mut self` operations. -/
def stepOwner (e : PoolInterleaving.Event) : Option State :=
  if ownerEvent e ∧ s.owner = .alive ∧ s.cloning = none then
    (PoolInterleaving.step s.pool e).map fun pool =>
      { s with
        pool := pool
        cloning := returned e s.pool.owner }.useShared
  else none

/-- `buf` is behind a handle, which nobody else is giving out or dropping. -/
def Holds (buf : Addr) : Prop := buf ∈ s.pool.held ∧ s.cloning ≠ some buf

instance (buf : Addr) : Decidable (s.Holds buf) := inferInstanceAs (Decidable (_ ∧ _))

/-- A `push_return` call; after its last step the `shared` field of the handle is dropped. -/
def stepPush (p : Push) (spurious : Bool) : Option State :=
  (PoolInterleaving.step s.pool (.push p spurious)).map fun pool =>
    { s with
      pool := pool
      dropping :=
        if p.pc = PoolInterleaving.PushPc.addFreePages then s.dropping + 1
        else s.dropping }.useShared

/-- `Arc::drop`: who takes the last reference drops the `PoolShared`. -/
def dropArc : State :=
  { s with
    strong := s.strong - 1
    dropping := s.dropping - 1
    shared := if s.strong = 1 then .swap else s.shared }

/-- `PagePool::drop`, one step. -/
def walkLocal : Option State :=
  match s.owner with
  | .walking =>
      if s.pool.localHead = 0 then
        some { s with owner := .dropped, dropping := s.dropping + 1 }
      else
        some { s with
          pool := { s.pool with localHead := s.pool.next s.pool.localHead }
          owner := .releasing s.pool.localHead }
  | .releasing head =>
      some { s with owner := .walking, released := head ::ₘ s.released }.useShared
  | _ => none

/-- `PoolShared::drop`, one step. -/
def walkReturn : Option State :=
  match s.shared with
  | .swap =>
      some { s with
        pool := { s.pool with returnHead := 0 }
        shared := .walking s.pool.returnHead }
  | .walking head =>
      if head = 0 then some { s with shared := .dropped }
      else some { s with shared := .releasing head (s.pool.next head) }
  | .releasing head next =>
      some { s with shared := .walking next, released := head ::ₘ s.released }
  | _ => none

/-- One step of the system. -/
def step : Event → Option State
  | .owner e => s.stepOwner e
  | .cloneShared =>
      if s.cloning = none then none
      else some { s with strong := s.strong + 1, cloning := none }.useShared
  | .dropHandle buf =>
      if s.Holds buf then
        (PoolInterleaving.step s.pool (.drop buf)).map fun pool => { s with pool := pool }
      else none
  | .scribble buf word =>
      if s.Holds buf then
        (PoolInterleaving.step s.pool (.scribble buf word)).map fun pool => { s with pool := pool }
      else none
  | .push p spurious => s.stepPush p spurious
  | .sealHandle buf =>
      if s.Holds buf then
        some { s with strong := s.strong + 1, dropping := s.dropping + 1 }.useShared
      else none
  | .cloneExternal =>
      if (s.owner = .alive ∧ s.pool.owner = .idle ∧ s.cloning = none) ∨ 0 < s.external then
        some { s with strong := s.strong + 1, external := s.external + 1 }.useShared
      else none
  | .dropExternal =>
      if 0 < s.external then
        some { s with external := s.external - 1, dropping := s.dropping + 1 }
      else none
  | .dropPool =>
      if s.owner = .alive ∧ s.pool.owner = .idle ∧ s.cloning = none then
        some { s with owner := .walking }
      else none
  | .walkLocal => s.walkLocal
  | .dropArc => if 0 < s.dropping then some s.dropArc else none
  | .walkReturn => s.walkReturn

end State

end PagedAlloc.TeardownInterleaving
