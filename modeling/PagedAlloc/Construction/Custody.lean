import PagedAlloc.Construction.Operations
import PagedAlloc.Framework.Intrusive
import Mathlib.Data.Multiset.AddSub
import Mathlib.Logic.Relation

/-!
# Custody of buffers and references

Who holds what: every buffer is on a free list, behind a handle, or in the hands of the operation
that is running, and so is every reference to a shared pool or a packed page.  A `Config` is a
world together with what the running operation holds in its local variables, and `Move` is the
abstract machine on configurations: each move hands one thing from one holder to another.

The moves leave open everything that custody does not depend on, the counters, the contents of
held buffers and the environment's choices, and they have no failures: that the operations of the
crate are sequences of such moves, so that nothing is ever dropped twice or looked for in vain,
is proved together with the invariant (`Properties/OwnershipRuns.lean`).
-/

namespace PagedAlloc.Sequential

open Words Bytes Intrusive Relation

/-- The world in the middle of an operation, with what the operation holds: raw buffers and the
pools they belong to, and references to shared pools and packed pages. -/
structure Config where
  world : World
  buffers : Multiset (ℕ × ℕ)
  shared : Multiset ℕ
  packed : Multiset ℕ

/-- Between two operations nothing is held. -/
abbrev World.idle (w : World) : Config := ⟨w, 0, 0, 0⟩

/-- The owner has not been dropped. -/
def Owner.Live : Owner → Prop
  | .dropped _ => False
  | _ => True

/-- The references to the shared half of a pool that its owner holds. -/
def Owner.refs : Owner → ℕ
  | .dropped _ => 0
  | _ => 1

namespace Owner

variable {o : Owner} {l : ℕ} {c : Option OpenPage}

@[simp] lemma refs_setLocalHead : (o.setLocalHead l).refs = o.refs := by cases o <;> rfl

@[simp] lemma current_setLocalHead : (o.setLocalHead l).current = o.current := by cases o <;> rfl

lemma localHead_setLocalHead (h : o.Live) : (o.setLocalHead l).localHead = l := by
  cases o with
  | dropped c => exact h.elim
  | _ => rfl

@[simp] lemma setLocalHead_setLocalHead {l' : ℕ} :
    (o.setLocalHead l).setLocalHead l' = o.setLocalHead l' := by cases o <;> rfl

@[simp] lemma setLocalHead_localHead : o.setLocalHead o.localHead = o := by cases o <;> rfl

@[simp] lemma refs_setCurrent : (o.setCurrent c).refs = o.refs := by cases o <;> rfl

@[simp] lemma localHead_setCurrent : (o.setCurrent c).localHead = o.localHead := by
  cases o <;> rfl

lemma current_setCurrent_none : (o.setCurrent none).current = none := by cases o <;> rfl

lemma setCurrent_none_of_current (h : o.current = none) : o.setCurrent none = o := by
  cases o with
  | pagePool l => rfl
  | chunkPool l c =>
      obtain rfl : c = none := h
      rfl
  | dropped c =>
      obtain rfl : c = none := h
      rfl

lemma current_setCurrent {x : OpenPage} (h : o.current = some x) :
    (o.setCurrent c).current = c := by
  cases o with
  | pagePool l => exact absurd h (by simp [current])
  | _ => rfl

lemma refs_of_live (h : o.Live) : o.refs = 1 := by
  cases o with
  | dropped c => exact h.elim
  | _ => rfl

lemma live_setLocalHead (h : o.Live) : (o.setLocalHead l).Live := by
  cases o with
  | dropped c => exact h.elim
  | _ => trivial

lemma live_of_pagePool (h : o = .pagePool l) : o.Live := by
  rw [h]
  trivial

lemma live_of_chunkPool (h : o = .chunkPool l c) : o.Live := by
  rw [h]
  trivial

lemma live_of_localHead_ne (h : o.localHead ≠ 0) : o.Live := by
  cases o with
  | dropped c => exact (h rfl).elim
  | _ => trivial

end Owner

/-- The references a chunk holds. -/
def heldIds : Option PackedArc → Multiset ℕ
  | none => 0
  | some q => {q.id}

/-- The size of the buffer of a packed page. -/
def PackedPage.size (pools : Arena Pool) (page : PackedPage) : ℕ :=
  match page.release with
  | .pool id => pools.val Pool.pageSize id
  | .heap l => l.size

/-- The pool after a range has been claimed on its open page. -/
def Pool.claim (p : Pool) (o : OpenPage) (size align : ℕ) : Pool :=
  { p with
    owner := p.owner.setCurrent (some { o with writeOffset := o.alignedOffset align + size }) }

/-- Buffers are passed to their source, or to `dealloc`, one after the other. -/
def World.releaseAll (w : World) (o : Origin) (l : Layout) (as : List ℕ) : World :=
  { w with
    blocks := w.blocks - (as.map fun a => ⟨a, l, o⟩ : List Block)
    log := (as.map fun a => SourceEvent.release o l a (w.references a)).reverse ++ w.log
    accesses := (as.map fun a => Access.release o l a).reverse ++ w.accesses }

/-- Two states of one page handle with the same buffer. -/
structure PageHandle.SamePlace (h h' : PageHandle) : Prop where
  buf : h'.buf = h.buf
  capacity : h'.capacity = h.capacity
  pool : h'.pool = h.pool

/-- Two states of one chunk handle with the same range; a sealed one stays as it is. -/
structure ChunkHandle.SamePlace (h h' : ChunkHandle) : Prop where
  packed : h'.packed = h.packed
  offset : h'.offset = h.offset
  capacity : h'.capacity = h.capacity
  request : h'.request = h.request
  len : h.len ≤ h.capacity → h'.len ≤ h.capacity
  frozen : h.refs ≠ .builder → h'.refs ≠ .builder ∧ h'.len = h.len

/-- One move of the machine. -/
inductive Move : Config → Config → Prop
  -- The counters are outside custody.
  | account {w B S P} (tenants chunkStats made) :
      Move ⟨w, B, S, P⟩
        ⟨{ w with tenants := tenants, chunkStats := chunkStats, made := made }, B, S, P⟩
  | record {w B S P} (trace) : Move ⟨w, B, S, P⟩ ⟨{ w with trace := trace }, B, S, P⟩
  | stats {w B S P id p} (get : w.pools.get id = some p) (st) :
      Move ⟨w, B, S, P⟩ ⟨{ w with pools := w.pools.set id { p with stats := st } }, B, S, P⟩
  -- Pools and their free lists.
  | newPool {w B S P pageSize st o} (le : defaultAlign ≤ pageSize)
      (valid : Layout.Valid ⟨pageSize, defaultAlign⟩)
      (fresh : o = .pagePool 0 ∨ o = .chunkPool 0 none) :
      Move ⟨w, B, S, P⟩ ⟨{ w with pools := w.pools.push ⟨pageSize, 0, st, 1, o⟩ }, B, S, P⟩
  | supply {w B S P id p a} (get : w.pools.get id = some p) (supplies : w.Supplies p.layout a) :
      Move ⟨w, B, S, P⟩ ⟨w.provide (.pool id) p.layout a, (id, a) ::ₘ B, S, P⟩
  | prefault {w B S P id p a} (get : w.pools.get id = some p)
      (zeroed : ∀ x, a ≤ x → x < a + p.pageSize → w.mem x = 0) :
      Move ⟨w, (id, a) ::ₘ B, S, P⟩ ⟨w.prefault id a, (id, a) ::ₘ B, S, P⟩
  | popLocal {w B S P id p} (get : w.pools.get id = some p) (ne : p.owner.localHead ≠ 0) (st) :
      Move ⟨w, B, S, P⟩
        ⟨{ w with pools := w.pools.set id { p with
            owner := p.owner.setLocalHead (readPtr w.mem p.owner.localHead), stats := st } },
          (id, p.owner.localHead) ::ₘ B, S, P⟩
  | drain {w B S P id p} (get : w.pools.get id = some p) (live : p.owner.Live)
      (empty : p.owner.localHead = 0) (st) :
      Move ⟨w, B, S, P⟩
        ⟨{ w with pools := w.pools.set id { p with
            returnHead := 0, owner := p.owner.setLocalHead p.returnHead, stats := st } },
          B, S, P⟩
  | linkLocal {w B S P id p a} (get : w.pools.get id = some p) (live : p.owner.Live) :
      Move ⟨w, (id, a) ::ₘ B, S, P⟩
        ⟨{ w.storePtr a p.owner.localHead with
            pools := w.pools.set id { p with owner := p.owner.setLocalHead a } }, B, S, P⟩
  | pushReturn {w B S P id p a} (get : w.pools.get id = some p) (st) :
      Move ⟨w, (id, a) ::ₘ B, S, P⟩
        ⟨{ w.storePtr a p.returnHead with
            pools := w.pools.set id { p with returnHead := a, stats := st } }, B, S, P⟩
  | releaseLocal {w B S P id p l} (get : w.pools.get id = some p) (live : p.owner.Live)
      (chain : Chain 0 (readPtr w.mem) p.owner.localHead l) :
      Move ⟨w, B, S, P⟩
        ⟨{ w.releaseAll (.pool id) p.layout l with
            pools := w.pools.set id { p with owner := .dropped p.owner.current } },
          B, id ::ₘ S, P⟩
  -- References to shared pools.
  | cloneShared {w B S P id p} (get : w.pools.get id = some p) :
      Move ⟨w, B, S, P⟩
        ⟨{ w with pools := w.pools.set id { p with strong := p.strong + 1 } }, B, id ::ₘ S, P⟩
  | dropShared {w B S P id p} (get : w.pools.get id = some p) (shared : p.strong ≠ 1) :
      Move ⟨w, B, id ::ₘ S, P⟩
        ⟨{ w with pools := w.pools.set id { p with strong := p.strong - 1 } }, B, S, P⟩
  | freeShared {w B S P id p r} (get : w.pools.get id = some p) (last : p.strong = 1)
      (none : ∀ a, (id, a) ∉ B) (chain : Chain 0 (readPtr w.mem) p.returnHead r) :
      Move ⟨w, B, id ::ₘ S, P⟩
        ⟨{ w.releaseAll (.pool id) p.layout r with pools := w.pools.erase id }, B, S, P⟩
  | giveShared {w B S P id} :
      Move ⟨w, B, id ::ₘ S, P⟩
        ⟨{ w with sharedHandles := Function.update w.sharedHandles id (w.sharedHandles id + 1) },
          B, S, P⟩
  | takeShared {w B S P id} (pos : 0 < w.sharedHandles id) :
      Move ⟨w, B, S, P⟩
        ⟨{ w with sharedHandles := Function.update w.sharedHandles id (w.sharedHandles id - 1) },
          B, id ::ₘ S, P⟩
  -- Page handles.
  | newPage {w B S P p l} {h : PageHandle} (get : w.pools.get h.pool = some p)
      (owner : p.owner = .pagePool l) (capacity : h.capacity = p.pageSize) :
      Move ⟨w, (h.pool, h.buf) ::ₘ B, h.pool ::ₘ S, P⟩ ⟨{ w with pages := w.pages.push h }, B, S, P⟩
  | removePage {w B S P i} {h : PageHandle} (get : w.pages.get i = some h) :
      Move ⟨w, B, S, P⟩
        ⟨{ w with pages := w.pages.erase i }, (h.pool, h.buf) ::ₘ B, h.pool ::ₘ S, P⟩
  | setPage {w B S P i} {h h' : PageHandle} (get : w.pages.get i = some h)
      (same : h.SamePlace h') :
      Move ⟨w, B, S, P⟩ ⟨{ w with pages := w.pages.set i h' }, B, S, P⟩
  | writePage {w B S P i pos data} {h : PageHandle} (get : w.pages.get i = some h)
      (le : pos + data.length ≤ h.capacity) :
      Move ⟨w, B, S, P⟩ ⟨w.store (h.buf + pos) data, B, S, P⟩
  -- Packed pages.
  | newPacked {w B S P id a} :
      Move ⟨w, (id, a) ::ₘ B, id ::ₘ S, P⟩
        ⟨{ w with packed := w.packed.push ⟨⟨a, .pool id⟩, 1⟩ }, B, S, w.packed.next ::ₘ P⟩
  | newHeap {w B S P l a} (pos : 0 < l.size) (supplies : w.Supplies l a) :
      Move ⟨w, B, S, P⟩
        ⟨{ w.provide .heap l a with packed := w.packed.push ⟨⟨a, .heap l⟩, 1⟩ },
          B, S, w.packed.next ::ₘ P⟩
  | clonePacked {w B S P k q} (get : w.packed.get k = some q) :
      Move ⟨w, B, S, P⟩
        ⟨{ w with packed := w.packed.set k { q with strong := q.strong + 1 } }, B, S, k ::ₘ P⟩
  | dropPacked {w B S P k q} (get : w.packed.get k = some q) (shared : q.strong ≠ 1) :
      Move ⟨w, B, S, k ::ₘ P⟩
        ⟨{ w with packed := w.packed.set k { q with strong := q.strong - 1 } }, B, S, P⟩
  | freePacked {w B S P k id a} (get : w.packed.get k = some ⟨⟨a, .pool id⟩, 1⟩) :
      Move ⟨w, B, S, k ::ₘ P⟩
        ⟨{ w with packed := w.packed.erase k }, (id, a) ::ₘ B, id ::ₘ S, P⟩
  | freeHeap {w B S P k l a} (get : w.packed.get k = some ⟨⟨a, .heap l⟩, 1⟩) :
      Move ⟨w, B, S, k ::ₘ P⟩
        ⟨{ w.releaseAll .heap l [a] with packed := w.packed.erase k }, B, S, P⟩
  -- The open page of a chunk pool.
  | takeCurrent {w B S P id p o} (get : w.pools.get id = some p)
      (current : p.owner.current = some o) :
      Move ⟨w, B, S, P⟩
        ⟨{ w with pools := w.pools.set id { p with owner := p.owner.setCurrent none } },
          B, S, o.shared.id ::ₘ P⟩
  | setCurrent {w B S P id p l a k} (get : w.pools.get id = some p)
      (owner : p.owner = .chunkPool l none) (only : w.packed.get k = some ⟨⟨a, .pool id⟩, 1⟩) :
      Move ⟨w, B, S, k ::ₘ P⟩
        ⟨{ w with pools := w.pools.set id { p with
            owner := .chunkPool l (some ⟨⟨k, ⟨a, .pool id⟩⟩, 0⟩) } }, B, S, P⟩
  -- Chunk handles.
  | claim {w B S P id p o q size align} (tenant) (pos : 0 < size) (aligned : IsPowerOfTwo align)
      (get : w.pools.get id = some p) (room : p.room size align = some o)
      (arc : w.packed.get o.shared.id = some q) :
      Move ⟨w, B, S, P⟩
        ⟨{ w with
            pools := w.pools.set id (p.claim o size align)
            packed := w.packed.set o.shared.id { q with strong := q.strong + 1 }
            chunks := w.chunks.push
              (newBuilder id tenant size .packed (some o.shared) (o.alignedOffset align)) },
          B, S, P⟩
  | newChunk {w B S P size q} (id tenant) (c : SizeClass)
      (only : ∀ arc, q = some arc → w.packed.get arc.id = some ⟨arc.page, 1⟩ ∧ 0 < size ∧
        size ≤ arc.page.size w.pools)
      (empty : q = none → size = 0) :
      Move ⟨w, B, S, heldIds q + P⟩
        ⟨{ w with chunks := w.chunks.push (newBuilder id tenant size c q 0) }, B, S, P⟩
  | removeChunk {w B S P i} {h : ChunkHandle} (get : w.chunks.get i = some h) :
      Move ⟨w, B, S, P⟩ ⟨{ w with chunks := w.chunks.erase i }, B, S, heldIds h.packed + P⟩
  | setChunk {w B S P i} {h h' : ChunkHandle} (get : w.chunks.get i = some h)
      (same : h.SamePlace h') :
      Move ⟨w, B, S, P⟩ ⟨{ w with chunks := w.chunks.set i h' }, B, S, P⟩
  | writeChunk {w B S P i a pos data} {h : ChunkHandle} (get : w.chunks.get i = some h)
      (builder : h.refs = .builder) (base : h.base = some a)
      (le : pos + data.length ≤ h.capacity) :
      Move ⟨w, B, S, P⟩ ⟨w.store (a + pos) data, B, S, P⟩

/-- Any number of moves. -/
abbrev Moves : Config → Config → Prop := ReflTransGen Move

end PagedAlloc.Sequential
