import PagedAlloc.Construction.PoolInterleaving

/-!
# The pool as its callers see it

Two stacks of free buffers, and operations that take effect at one instant: `push_return` puts a
buffer on the return queue, `allocate_raw_page` takes the top of the local list, or of the return
queue with the rest of which it then works, or finds both empty and turns to the source.  The answer
of the source is for a call that has found both empty, and the owner does nothing else until then.

`linearize` says at which step of `PoolInterleaving` each operation takes effect.  That step is
always one of the operation's own: the successful exchange of a `push_return` call; for the owner,
the unlinking of the local head, or, with an empty local list, the swap of `drain_return_queue`.
-/

namespace PagedAlloc.PoolInterleaving

open Transition

/-- The free buffers of a pool, the one handed out next at the head. -/
structure AtomicPool where
  localList : List Addr
  returnQueue : List Addr
  /-- An `allocate_raw_page` has found both lists empty, and the source has not answered it. -/
  waiting : Bool
  deriving DecidableEq, Repr

inductive AtomicOp
  /-- `push_return`. -/
  | pushReturn (buf : Addr)
  /-- `allocate_raw_page` returns a free buffer. -/
  | take (buf : Addr)
  /-- `allocate_raw_page` finds no free buffer. -/
  | empty
  /-- The source answers the `allocate_raw_page` that has found no free buffer. -/
  | fresh (buf : Addr)
  /-- The source panics instead. -/
  | fail
  /-- One iteration of `prewarm`. -/
  | prewarm (buf : Addr)
  deriving DecidableEq, Repr

/-- `PagePool::with_source`. -/
def AtomicPool.empty : AtomicPool := ⟨[], [], false⟩

/-- A buffer can be taken if it is the next one; the source is asked if there is none. -/
def AtomicPool.step (a : AtomicPool) : AtomicOp → Option AtomicPool
  | .pushReturn buf => some { a with returnQueue := buf :: a.returnQueue }
  | .take buf =>
      match a.waiting, a.localList, a.returnQueue with
      | true, _, _ => none
      | false, next :: rest, queue => if buf = next then some ⟨rest, queue, false⟩ else none
      | false, [], next :: rest => if buf = next then some ⟨rest, [], false⟩ else none
      | false, [], [] => none
  | .empty =>
      if a.waiting = false ∧ a.localList = [] ∧ a.returnQueue = [] then
        some { a with waiting := true }
      else none
  | .fresh _ | .fail => if a.waiting then some { a with waiting := false } else none
  | .prewarm buf =>
      if a.waiting then none else some { a with localList := buf :: a.localList }

/-- The buffer an operation returns to the caller of `allocate_raw_page`. -/
def AtomicOp.result : AtomicOp → Option Addr
  | .take buf | .fresh buf => some buf
  | _ => none

/-! ## Where the operations take effect -/

/-- The operations that take effect at a step. -/
def linearize (s : State) : Event → List AtomicOp
  | .owner reply =>
      match s.owner with
      | .popLocal false => if s.localHead = 0 then [] else [.take s.localHead]
      | .swap => if s.returnHead = 0 then [.empty] else [.take s.returnHead]
      | .sourceAllocate => [.fresh reply]
      | .setLocalHead buf _ _ => [.prewarm buf]
      | _ => []
  | .push p spurious =>
      match p.pc with
      | .cas head => if s.returnHead = head ∧ spurious = false then [.pushReturn p.buf] else []
      | _ => []
  | .allocateFails => [.fail]
  | _ => []

/-- The buffer `allocate_raw_page` returns at a step. -/
def delivered (s : State) : Event → List Addr
  | .owner _ =>
      match s.owner with
      | .addPagesInUse buf => [buf]
      | _ => []
  | _ => []

/-- The buffer the owner is going to return, once that is decided. -/
def State.promised (s : State) : List Addr :=
  match s.owner with
  | .countDrain head | .install head => [head]
  | .popLocal true => [s.localHead]
  | .subFreePages buf | .addPagesInUse buf => [buf]
  | _ => []

end PagedAlloc.PoolInterleaving
