import PagedAlloc.Construction.ChunkOperations
import PagedAlloc.Framework.Transition

/-!
# Runs of completed operations

The public operations of the crate as events of a transition system on `World`: any number of
pools and tenants, handles used and dropped in any order.  An event names a handle by its
identity, and carries the environment's reply to every request for memory.  An event that names
a handle that does not exist, or carries a reply no allocator can give, is not enabled; an
operation that panics ends in the state after unwinding.
-/

namespace PagedAlloc.Sequential

open Words Transition

inductive Op
  | newPagePool (pageSize : ℕ)
  | newChunkPool (pageSize : ℕ)
  | prewarm (id : ℕ) (replies : List (Option ℕ))
  | dropPool (id : ℕ)
  /-- A clone of the `Arc` behind `PagePool::shared`, taken by the user. -/
  | cloneShared (id : ℕ)
  | dropSharedHandle (id : ℕ)
  | allocatePage (id tenant : ℕ) (reply : Option ℕ)
  | allocFromPage (id tenant : ℕ) (data : List UInt8) (reply : Option ℕ)
  | allocWithPage (id tenant : ℕ) (init : Closure) (reply : Option ℕ)
  | allocWithLenPage (id tenant : ℕ) (init : Closure) (reply : Option ℕ)
  | appendPage (i : ℕ) (data : List UInt8)
  | setLenPage (i len : ℕ)
  | writePage (i pos : ℕ) (data : List UInt8)
  | sealPage (i : ℕ)
  | clonePage (i : ℕ)
  | dropPage (i : ℕ)
  | allocateChunk (id tenant size align : ℕ) (reply : Option ℕ)
  | allocFromChunk (id tenant : ℕ) (data : List UInt8) (reply : Option ℕ)
  | allocWithChunk (id tenant size : ℕ) (init : Closure) (reply : Option ℕ)
  | allocWithLenChunk (id tenant capacity : ℕ) (init : Closure) (reply : Option ℕ)
  | appendChunk (i : ℕ) (data : List UInt8)
  | setLenChunk (i len : ℕ)
  | writeChunk (i pos : ℕ) (data : List UInt8)
  | sealChunk (i : ℕ)
  | cloneChunk (i : ℕ)
  | dropChunk (i : ℕ)

namespace World

variable (w : World)

/-- The pool, if its owner is a `PagePool` that has not been dropped. -/
def pagePool (id : ℕ) : Option Pool :=
  (w.pools.get id).filter fun p => match p.owner with
    | .pagePool _ => true
    | _ => false

/-- The pool, if its owner is a `ChunkPool` that has not been dropped. -/
def chunkPool (id : ℕ) : Option Pool :=
  (w.pools.get id).filter fun p => match p.owner with
    | .chunkPool _ _ => true
    | _ => false

/-- The page handle, if it is an unsealed builder. -/
def pageBuilder (i : ℕ) : Option PageHandle :=
  (w.pages.get i).filter fun h => h.refs = .builder

/-- The chunk handle, if it is an unsealed builder. -/
def chunkBuilder (i : ℕ) : Option ChunkHandle :=
  (w.chunks.get i).filter fun h => h.refs = .builder

/-- `Page::clone`. -/
def clonePage (i : ℕ) (h : PageHandle) : Option World :=
  match h.refs with
  | .builder => none
  | .sealed c => some { w with pages := w.pages.set i { h with refs := .sealed (c + 1) } }

/-- `Chunk::clone`. -/
def cloneChunk (i : ℕ) (h : ChunkHandle) : Option World :=
  match h.refs with
  | .builder => none
  | .sealed c => some { w with chunks := w.chunks.set i { h with refs := .sealed (c + 1) } }

/-- The drop of the owner of a pool. -/
def dropPool (id : ℕ) (p : Pool) : Option World :=
  match p.owner with
  | .pagePool _ => some (w.dropPagePool id p)
  | .chunkPool _ _ => some (w.dropChunkPool id p)
  | .dropped _ => none

/-- One operation. -/
def step : Op → Option World
  | .newPagePool ps => (w.newPool ps false).final
  | .newChunkPool ps => (w.newPool ps true).final
  | .prewarm id replies =>
      if (w.pagePool id).isSome ∨ (w.chunkPool id).isSome then (w.prewarm id replies).final
      else none
  | .dropPool id => (w.pools.get id).bind fun p => w.dropPool id p
  | .cloneShared id =>
      if (w.pagePool id).isSome ∨ (w.chunkPool id).isSome ∨ 0 < w.sharedHandles id then
        let w' := w.cloneShared id
        some { w' with
          sharedHandles := Function.update w'.sharedHandles id (w'.sharedHandles id + 1) }
      else none
  | .dropSharedHandle id =>
      if 0 < w.sharedHandles id then
        some ({ w with
          sharedHandles := Function.update w.sharedHandles id
            (w.sharedHandles id - 1) }.dropShared id)
      else none
  | .allocatePage id t reply =>
      (w.pagePool id).bind fun p => (w.allocatePage id t p reply).final
  | .allocFromPage id t data reply =>
      (w.pagePool id).bind fun p => (w.allocFromPage id t p data reply).final
  | .allocWithPage id t init reply =>
      (w.pagePool id).bind fun p => (w.allocWithPage id t p init reply).final
  | .allocWithLenPage id t init reply =>
      (w.pagePool id).bind fun p => (w.allocWithLenPage id t p init reply).final
  | .appendPage i data =>
      (w.pageBuilder i).bind fun h => match w.appendPage i h data with
        | .ok w' => some w'
        | .error _ => some w
  | .setLenPage i len => (w.pageBuilder i).bind fun h => (w.setLenPage i h len).final
  | .writePage i pos data => (w.pageBuilder i).bind fun h => (w.writePage h pos data).final
  | .sealPage i => (w.pageBuilder i).map fun h => w.sealPage i h
  | .clonePage i => (w.pages.get i).bind fun h => w.clonePage i h
  | .dropPage i => (w.pages.get i).map fun h => w.dropPage i h
  | .allocateChunk id t size align reply =>
      (w.chunkPool id).bind fun p => (w.allocateAligned id t p size align reply).final
  | .allocFromChunk id t data reply =>
      (w.chunkPool id).bind fun p => (w.allocFromChunk id t p data reply).final
  | .allocWithChunk id t size init reply =>
      (w.chunkPool id).bind fun p => (w.allocWithChunk id t p size init reply).final
  | .allocWithLenChunk id t capacity init reply =>
      (w.chunkPool id).bind fun p => (w.allocWithLenChunk id t p capacity init reply).final
  | .appendChunk i data =>
      (w.chunkBuilder i).bind fun h => match w.appendChunk i h data with
        | .ok w' => some w'
        | .error _ => some w
  | .setLenChunk i len => (w.chunkBuilder i).bind fun h => (w.setLenChunk i h len).final
  | .writeChunk i pos data => (w.chunkBuilder i).bind fun h => (w.writeChunk h pos data).final
  | .sealChunk i => (w.chunkBuilder i).map fun h => w.sealChunk i h
  | .cloneChunk i => (w.chunks.get i).bind fun h => w.cloneChunk i h
  | .dropChunk i => (w.chunks.get i).map fun h => w.dropChunk i h

end World

section Lookup

variable {w : World} {id i : ℕ} {p : Pool}

lemma World.pagePool_eq_some (h : w.pagePool id = some p) :
    w.pools.get id = some p ∧ ∃ l, p.owner = .pagePool l := by
  unfold World.pagePool at h
  obtain ⟨hget, hkind⟩ := Option.filter_eq_some_iff.1 h
  refine ⟨hget, ?_⟩
  cases howner : p.owner with
  | pagePool l => exact ⟨l, rfl⟩
  | chunkPool l c => simp [howner] at hkind
  | dropped c => simp [howner] at hkind

lemma World.chunkPool_eq_some (h : w.chunkPool id = some p) :
    w.pools.get id = some p ∧ ∃ l c, p.owner = .chunkPool l c := by
  unfold World.chunkPool at h
  obtain ⟨hget, hkind⟩ := Option.filter_eq_some_iff.1 h
  refine ⟨hget, ?_⟩
  cases howner : p.owner with
  | chunkPool l c => exact ⟨l, c, rfl⟩
  | pagePool l => simp [howner] at hkind
  | dropped c => simp [howner] at hkind

lemma World.pageBuilder_eq_some {h : PageHandle} (hi : w.pageBuilder i = some h) :
    w.pages.get i = some h ∧ h.refs = .builder := by
  unfold World.pageBuilder at hi
  simpa using Option.filter_eq_some_iff.1 hi

lemma World.chunkBuilder_eq_some {h : ChunkHandle} (hi : w.chunkBuilder i = some h) :
    w.chunks.get i = some h ∧ h.refs = .builder := by
  unfold World.chunkBuilder at hi
  simpa using Option.filter_eq_some_iff.1 hi

/-- The creation of a chunk pool, as a step. -/
lemma World.step_newChunkPool {w' : World} {pageSize : ℕ}
    (h : w.newPool pageSize true = .done id w') : w.step (.newChunkPool pageSize) = some w' :=
  congrArg Outcome.final h

/-- A step that creates a chunk pool returns the next free identity. -/
lemma World.newPool_of_step {w' : World} {pageSize : ℕ}
    (hvalid : defaultAlign ≤ pageSize ∧ Layout.Valid ⟨pageSize, defaultAlign⟩)
    (h : w.step (.newChunkPool pageSize) = some w') :
    w.newPool pageSize true = .done w.pools.next w' := by
  change (w.newPool pageSize true).final = some w' at h
  unfold World.newPool at h ⊢
  rw [if_pos hvalid] at h ⊢
  obtain rfl := Option.some.inj h
  rfl

end Lookup

/-- The state after a sequence of operations, from the start. -/
abbrev runOps (ops : List Op) : Option World := run World.step World.init ops

end PagedAlloc.Sequential
