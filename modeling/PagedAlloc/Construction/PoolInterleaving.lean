import PagedAlloc.Construction.Stats
import PagedAlloc.Framework.Transition
import PagedAlloc.Framework.Intrusive
import Mathlib.Data.Multiset.Bind

/-!
# One `PagePool` under every interleaving

The free lists of a `PagePool` are intrusive: the first word of a free buffer holds the link.
The owner works on `local_head` through `&mut self`; any thread that drops the last handle of a
page runs `PoolShared::push_return` on `return_head`.  This file is the step relation of that
system.  Every atomic access of `src/pool.rs` is a step of its own: the load of `return_head`,
the compare-exchange (which may fail spuriously), the swap of `drain_return_queue`, and every
`fetch_add` and `fetch_sub` on `PoolStats`.  Plain reads and writes by the owner of `local_head`
and of the links of its own buffers are steps too, merged with a neighbour only where the source
does them in one expression.

A state has the link words (`next`), the two heads, the counters, the point at which the owner
is (`OwnerPc`), the `push_return` calls in flight (`pushers`, any number of them), the buffers
held by handles, and the buffers obtained from the source.  Events carry every choice of the
environment: which thread moves, whether a compare-exchange fails spuriously, which address the
source returns or that it panics, and what a holder writes into its buffer.

A thread is identified with the call it is executing: a thread that is not inside `push_return`
touches no field of the pool.
-/

namespace PagedAlloc.PoolInterleaving

open Words Transition

/-- Addresses of buffers.  `0` is the null pointer. -/
abbrev Addr := ℕ

/-! ## Program points -/

/-- Where a `push_return` call is.  The argument of `write` and `cas` is the local `head`. -/
inductive PushPc
  /-- About to load `return_head`. -/
  | load
  /-- About to write the loaded head into the first word of the buffer. -/
  | write (head : Addr)
  /-- About to run `compare_exchange_weak(head, raw)`. -/
  | cas (head : Addr)
  /-- The exchange succeeded; about to decrement `pages_in_use`. -/
  | subPagesInUse
  /-- About to increment `free_pages`. -/
  | addFreePages
  deriving DecidableEq, Repr

/-- A `push_return` call in flight. -/
structure Push where
  buf : Addr
  pc : PushPc
  deriving DecidableEq, Repr

/-- Where the owner is inside `allocate_raw_page` or `prewarm`. -/
inductive OwnerPc
  /-- Outside every pool operation. -/
  | idle
  /-- Entering `pop_local`; `drained` tells the call inside `drain_return_queue` from the first
  one. -/
  | popLocal (drained : Bool)
  /-- `buf` is unlinked; about to decrement `free_pages`. -/
  | subFreePages (buf : Addr)
  /-- Entering `drain_return_queue`, about to swap `return_head` with null. -/
  | swap
  /-- Swapped out a non-null `head`; about to count the drain. -/
  | countDrain (head : Addr)
  /-- About to install `head` as `local_head`. -/
  | install (head : Addr)
  /-- Entering `allocate_fresh`, about to count it in `allocations_from_heap`. -/
  | countFresh
  /-- About to call `source.allocate()`. -/
  | sourceAllocate
  /-- `buf` was acquired; about to increment `pages_in_use` and return it. -/
  | addPagesInUse (buf : Addr)
  /-- Head of the loop of `prewarm(total)` with `left` iterations to go. -/
  | prewarm (left total : ℕ)
  /-- `prewarm` got `buf`; about to write `local_head` into its first word. -/
  | link (buf : Addr) (left total : ℕ)
  /-- `prewarm` is about to make `buf` the new `local_head`. -/
  | setLocalHead (buf : Addr) (left total : ℕ)
  /-- After the loop: about to add `total` to `allocations_from_heap`. -/
  | prewarmHeap (total : ℕ)
  /-- About to add `total` to `free_pages`. -/
  | prewarmFree (total : ℕ)
  /-- About to add `total` to `prewarmed_pages`. -/
  | prewarmCount (total : ℕ)
  deriving DecidableEq, Repr

/-! ## States -/

/-- A state of one pool and of everything that touches it. -/
structure State where
  /-- The first word of each buffer. -/
  next : Addr → Addr
  localHead : Addr
  returnHead : Addr
  stats : PoolStats
  owner : OwnerPc
  pushers : Multiset Push
  /-- Buffers held by a handle. -/
  held : Multiset Addr
  /-- Buffers the source has returned. -/
  obtained : Multiset Addr
  /-- Sum of the counts of the `prewarm` calls that ran to completion. -/
  prewarmRequested : ℕ

/-- `PagePool::with_source`. -/
def init : State where
  next := fun _ => 0
  localHead := 0
  returnHead := 0
  stats := PoolStats.default
  owner := .idle
  pushers := 0
  held := 0
  obtained := 0
  prewarmRequested := 0

/-- Events: one step of one thread, with the choices of the environment. -/
inductive Event
  /-- The owner calls `allocate_raw_page`. -/
  | allocate
  /-- The owner calls `prewarm(n)`. -/
  | prewarm (n : ℕ)
  /-- The owner takes its next step; `reply` is what the source answers if it is called. -/
  | owner (reply : Addr)
  /-- `source.allocate()` panics inside `allocate_fresh` and the unwind is caught. -/
  | allocateFails
  /-- `source.allocate()` panics inside `prewarm` and the unwind is caught. -/
  | prewarmFails
  /-- The last handle of `buf` is dropped: its thread calls `push_return(buf)`. -/
  | drop (buf : Addr)
  /-- The call `p` takes its next step. -/
  | push (p : Push) (spurious : Bool)
  /-- The holder of `buf` overwrites its first word. -/
  | scribble (buf word : Addr)
  deriving DecidableEq, Repr

/-! ## Steps -/

/-- The answer of the source is a non-null 64-bit address distinct from every buffer it has out.
The contents are zero-initialised. -/
def sourceReturns (reply : Addr) (then_ : OwnerPc) (s : State) : Option State :=
  if reply ≠ 0 ∧ reply < size64 ∧ reply ∉ s.obtained then
    some { s with
      next := Function.update s.next reply 0
      obtained := reply ::ₘ s.obtained
      owner := then_ }
  else none

/-- The next step of the owner. -/
def ownerStep (reply : Addr) (s : State) : Option State :=
  match s.owner with
  | .idle => none
  | .popLocal drained =>
      if s.localHead = 0 then
        some { s with owner := if drained then .countFresh else .swap }
      else
        some { s with
          localHead := s.next s.localHead
          owner := .subFreePages s.localHead }
  | .subFreePages buf =>
      some { s with stats := PoolAccess.subFreePages.exec s.stats, owner := .addPagesInUse buf }
  | .swap =>
      some { s with
        returnHead := 0
        owner := if s.returnHead = 0 then .countFresh else .countDrain s.returnHead }
  | .countDrain head =>
      some { s with stats := PoolAccess.addReturnQueueDrains.exec s.stats, owner := .install head }
  | .install head => some { s with localHead := head, owner := .popLocal true }
  | .countFresh =>
      some { s with
        stats := (PoolAccess.addAllocationsFromHeap 1).exec s.stats
        owner := .sourceAllocate }
  | .sourceAllocate => sourceReturns reply (.addPagesInUse reply) s
  | .addPagesInUse buf =>
      some { s with
        stats := PoolAccess.addPagesInUse.exec s.stats
        held := buf ::ₘ s.held
        owner := .idle }
  | .prewarm 0 total => some { s with owner := .prewarmHeap total }
  | .prewarm (left + 1) total => sourceReturns reply (.link reply left total) s
  | .link buf left total =>
      some { s with
        next := Function.update s.next buf s.localHead
        owner := .setLocalHead buf left total }
  | .setLocalHead buf left total =>
      some { s with localHead := buf, owner := .prewarm left total }
  | .prewarmHeap total =>
      some { s with
        stats := (PoolAccess.addAllocationsFromHeap total).exec s.stats
        owner := .prewarmFree total }
  | .prewarmFree total =>
      some { s with
        stats := (PoolAccess.addFreePages total).exec s.stats
        owner := .prewarmCount total }
  | .prewarmCount total =>
      some { s with
        stats := (PoolAccess.addPrewarmedPages total).exec s.stats
        prewarmRequested := s.prewarmRequested + total
        owner := .idle }

/-- The next step of the `push_return` call `p`, which is in flight. -/
def pushStep (p : Push) (spurious : Bool) (s : State) : State :=
  let others := s.pushers.erase p
  match p.pc with
  | .load => { s with pushers := ⟨p.buf, .write s.returnHead⟩ ::ₘ others }
  | .write head =>
      { s with
        next := Function.update s.next p.buf head
        pushers := ⟨p.buf, .cas head⟩ ::ₘ others }
  | .cas head =>
      if s.returnHead = head ∧ spurious = false then
        { s with returnHead := p.buf, pushers := ⟨p.buf, .subPagesInUse⟩ ::ₘ others }
      else { s with pushers := ⟨p.buf, .load⟩ ::ₘ others }
  | .subPagesInUse =>
      { s with
        stats := PoolAccess.subPagesInUse.exec s.stats
        pushers := ⟨p.buf, .addFreePages⟩ ::ₘ others }
  | .addFreePages =>
      { s with stats := (PoolAccess.addFreePages 1).exec s.stats, pushers := others }

/-- One step of the system. -/
def step (s : State) : Event → Option State
  | .allocate => if s.owner = .idle then some { s with owner := .popLocal false } else none
  | .prewarm n => if s.owner = .idle then some { s with owner := .prewarm n n } else none
  | .owner reply => ownerStep reply s
  | .allocateFails =>
      if s.owner = .sourceAllocate then some { s with owner := .idle } else none
  | .prewarmFails =>
      match s.owner with
      | .prewarm (_ + 1) _ => some { s with owner := .idle }
      | _ => none
  | .drop buf =>
      if buf ∈ s.held then
        some { s with held := s.held.erase buf, pushers := ⟨buf, .load⟩ ::ₘ s.pushers }
      else none
  | .push p spurious => if p ∈ s.pushers then some (pushStep p spurious s) else none
  | .scribble buf word =>
      if buf ∈ s.held then some { s with next := Function.update s.next buf word } else none

/-! ## What each thread has in its hands -/

/-- The buffer a `push_return` call still owns; after its exchange succeeded it owns none. -/
def Push.inHand (p : Push) : Multiset Addr :=
  match p.pc with
  | .load | .write _ | .cas _ => {p.buf}
  | .subPagesInUse | .addFreePages => 0

/-- The single buffer the owner carries between two steps of one of its operations. -/
def OwnerPc.inHand : OwnerPc → Multiset Addr
  | .subFreePages buf | .addPagesInUse buf | .link buf _ _ | .setLocalHead buf _ _ => {buf}
  | _ => 0

/-- The head of the chain the owner has swapped out of `return_head` and not installed yet. -/
def OwnerPc.drained : OwnerPc → Addr
  | .countDrain head | .install head => head
  | _ => 0

/-- The buffers owned by the `push_return` calls in flight. -/
def State.beingPushed (s : State) : Multiset Addr := s.pushers.bind Push.inHand

/-! ## Frames -/

/-- The owner does not touch the calls in flight, and the return queue only by its swap. -/
lemma ownerStep_frame {s t : State} {reply : Addr} (h : ownerStep reply s = some t) :
    t.pushers = s.pushers ∧ (s.owner = .swap ∨ t.returnHead = s.returnHead) := by
  cases ho : s.owner with
  | idle => simp [ownerStep, ho] at h
  | popLocal drained =>
      simp only [ownerStep, ho] at h
      split at h <;> obtain rfl := Option.some.inj h <;> exact ⟨rfl, .inr rfl⟩
  | swap =>
      simp only [ownerStep, ho] at h
      obtain rfl := Option.some.inj h
      exact ⟨rfl, .inl rfl⟩
  | sourceAllocate =>
      simp only [ownerStep, ho, sourceReturns, Option.ite_none_right_eq_some] at h
      obtain ⟨-, h⟩ := h
      obtain rfl := Option.some.inj h
      exact ⟨rfl, .inr rfl⟩
  | prewarm left total =>
      cases left with
      | zero =>
          simp only [ownerStep, ho] at h
          obtain rfl := Option.some.inj h
          exact ⟨rfl, .inr rfl⟩
      | succ left =>
          simp only [ownerStep, ho, sourceReturns, Option.ite_none_right_eq_some] at h
          obtain ⟨-, h⟩ := h
          obtain rfl := Option.some.inj h
          exact ⟨rfl, .inr rfl⟩
  | _ =>
      simp only [ownerStep, ho] at h
      obtain rfl := Option.some.inj h
      exact ⟨rfl, .inr rfl⟩

end PagedAlloc.PoolInterleaving
