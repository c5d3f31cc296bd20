import PagedAlloc.Construction.Operations
import Mathlib.Logic.Relation

/-!
# The ledger

Accounting depends on little of the world: the counters of tenants and chunk pools, the live
handles, and what has been allocated so far.  `World.ledger` forgets the rest, and `Ledger.Move`
is the abstract machine on ledgers: a handle is added with its charge, removed with its release,
or changed in a way that keeps its charge.

`ledger_step` is the refinement: every operation of the crate, whatever it does to memory, free
lists and reference counts and whether it returns or panics, is a sequence of such moves.
-/

namespace PagedAlloc.Sequential

open Words Bytes Relation

/-- What accounting depends on. -/
structure Ledger where
  tenants : ℕ → TenantStats
  chunkStats : ℕ → ChunkPoolStats
  pages : Arena PageHandle
  chunks : Arena ChunkHandle
  made : List Made

def World.ledger (w : World) : Ledger := ⟨w.tenants, w.chunkStats, w.pages, w.chunks, w.made⟩

/-- A chunk handle as the four allocation paths issue it. -/
structure ChunkHandle.Issued (h : ChunkHandle) : Prop where
  capacity : h.capacity = truncate32 h.request.size
  oversizedBytes :
    h.oversizedBytes = if h.request.sizeClass = .oversized then h.request.size else 0

/-- Two states of one chunk handle: nothing but its length and its clones has changed. -/
structure ChunkHandle.SameCharge (h h' : ChunkHandle) : Prop where
  tenant : h'.tenant = h.tenant
  pool : h'.pool = h.pool
  capacity : h'.capacity = h.capacity
  oversizedBytes : h'.oversizedBytes = h.oversizedBytes
  request : h'.request = h.request

/-- Two states of one page handle: nothing but its length and its clones has changed. -/
structure PageHandle.SameCharge (h h' : PageHandle) : Prop where
  tenant : h'.tenant = h.tenant
  pool : h'.pool = h.pool
  capacity : h'.capacity = h.capacity

namespace Ledger

variable (l : Ledger)

def addPage (h : PageHandle) : Ledger :=
  { l with
    tenants := Function.update l.tenants h.tenant ((l.tenants h.tenant).recordAllocate h.capacity)
    pages := l.pages.push h
    made := .page h.tenant h.pool :: l.made }

def removePage (i : ℕ) (h : PageHandle) : Ledger :=
  { l with
    tenants := Function.update l.tenants h.tenant ((l.tenants h.tenant).recordRelease h.capacity)
    pages := l.pages.erase i }

def addChunk (h : ChunkHandle) : Ledger :=
  { l with
    tenants := Function.update l.tenants h.tenant
      ((l.tenants h.tenant).recordChunkAllocate h.request.size)
    chunkStats := Function.update l.chunkStats h.pool
      ((l.chunkStats h.pool).recordAllocate h.request.size h.request.sizeClass)
    chunks := l.chunks.push h
    made := .chunk h.tenant h.pool h.request.sizeClass :: l.made }

def removeChunk (i : ℕ) (h : ChunkHandle) : Ledger :=
  { l with
    tenants := Function.update l.tenants h.tenant
      ((l.tenants h.tenant).recordChunkRelease h.capacity)
    chunkStats := Function.update l.chunkStats h.pool
      ((l.chunkStats h.pool).recordRelease h.oversizedBytes)
    chunks := l.chunks.erase i }

/-- One move of the abstract machine; `P` restricts the sizes of chunk requests. -/
inductive Move (P : ℕ → Prop) : Ledger → Ledger → Prop
  | addPage (l : Ledger) (h : PageHandle) : Move P l (l.addPage h)
  | removePage (l : Ledger) {i : ℕ} {h : PageHandle} (get : l.pages.get i = some h) :
      Move P l (l.removePage i h)
  | setPage (l : Ledger) {i : ℕ} {h h' : PageHandle} (get : l.pages.get i = some h)
      (same : h.SameCharge h') : Move P l { l with pages := l.pages.set i h' }
  | addChunk (l : Ledger) (h : ChunkHandle) (issued : h.Issued) (small : P h.request.size) :
      Move P l (l.addChunk h)
  | removeChunk (l : Ledger) {i : ℕ} {h : ChunkHandle} (get : l.chunks.get i = some h) :
      Move P l (l.removeChunk i h)
  | setChunk (l : Ledger) {i : ℕ} {h h' : ChunkHandle} (get : l.chunks.get i = some h)
      (same : h.SameCharge h') : Move P l { l with chunks := l.chunks.set i h' }

/-- Any number of moves. -/
abbrev Moves (P : ℕ → Prop) : Ledger → Ledger → Prop := ReflTransGen (Move P)

end Ledger

/-! ## What leaves the ledger alone -/

section Frame

variable {w w' : World} {id : ℕ} {a : ℕ} {o : Origin} {l : Layout} {reply : Option ℕ}
  {p : Pool} {α : Type}

/-- The program leaves the ledger as it was, returning or panicking. -/
def KeepsLedger (w : World) (o : Outcome World α) : Prop :=
  o.Post (fun _ w' => w'.ledger = w.ledger) fun w' => w'.ledger = w.ledger

@[simp] lemma ledger_giveBack : (w.giveBack o l a).ledger = w.ledger := by
  unfold World.giveBack
  split <;> rfl

@[simp] lemma ledger_pushReturn : (w.pushReturn id a).ledger = w.ledger := by
  unfold World.pushReturn
  split <;> rfl

@[simp] lemma ledger_cloneShared : (w.cloneShared id).ledger = w.ledger := by
  unfold World.cloneShared
  split <;> rfl

@[simp] lemma ledger_dropShared : (w.dropShared id).ledger = w.ledger := by
  obtain ⟨ps, bs, es, as, f, h⟩ := World.dropShared_frame (w := w) id
  rw [h]
  rfl

@[simp] lemma ledger_clonePacked {q : PackedArc} : (w.clonePacked q).ledger = w.ledger := by
  unfold World.clonePacked
  split <;> rfl

@[simp] lemma ledger_releasePacked {q : PackedPage} : (w.releasePacked q).ledger = w.ledger := by
  unfold World.releasePacked
  split
  · rw [ledger_dropShared, ledger_pushReturn]
  · exact ledger_giveBack

@[simp] lemma ledger_dropPacked {q : PackedArc} : (w.dropPacked q).ledger = w.ledger := by
  unfold World.dropPacked
  split
  · rfl
  · split
    · exact ledger_releasePacked
    · rfl

@[simp] lemma ledger_dropOptional {q : Option PackedArc} :
    (w.dropOptional q).ledger = w.ledger := by
  cases q with
  | none => rfl
  | some q => exact ledger_dropPacked

@[simp] lemma ledger_accessPool {x : PoolAccess} : (w.accessPool id x).ledger = w.ledger := by
  unfold World.accessPool
  split <;> rfl

@[simp] lemma ledger_replaceCurrent {c : Option OpenPage} :
    (w.replaceCurrent id c).ledger = w.ledger := by
  unfold World.replaceCurrent
  split
  · rfl
  · exact ledger_dropOptional

@[simp] lemma ledger_releaseLocal : (w.releaseLocal id p).ledger = w.ledger := by
  obtain ⟨bs, es, as, f, h⟩ := World.releaseLocal_frame (w := w) id p
  rw [h]
  rfl

@[simp] lemma ledger_dropPagePool : (w.dropPagePool id p).ledger = w.ledger := by
  unfold World.dropPagePool
  rw [ledger_dropShared, ledger_releaseLocal]

@[simp] lemma ledger_dropChunkPool : (w.dropChunkPool id p).ledger = w.ledger := by
  unfold World.dropChunkPool
  dsimp only
  split
  · exact ledger_dropPagePool
  · rw [ledger_replaceCurrent, ledger_dropPagePool]

@[simp] lemma ledger_storeChunk {h : ChunkHandle} {pos : ℕ} {data : List UInt8} :
    (w.storeChunk h pos data).ledger = w.ledger := by
  unfold World.storeChunk
  split <;> rfl

lemma keepsLedger_sourceAllocate : KeepsLedger w (w.sourceAllocate id l reply) := by
  apply World.post_sourceAllocate
  · exact fun a hsupplies => rfl
  · exact fun hreply => rfl

lemma keepsLedger_takeBuffer : KeepsLedger w (w.takeBuffer id p reply) := by
  unfold World.takeBuffer
  split
  · rfl
  · split
    · rfl
    · exact keepsLedger_sourceAllocate

/-- Sequencing of programs that leave the ledger alone. -/
lemma KeepsLedger.bind {β : Type} {o : Outcome World α} {f : α → World → Outcome World β}
    (h : KeepsLedger w o) (hf : ∀ a w', KeepsLedger w' (f a w')) : KeepsLedger w (o.bind f) := by
  refine Outcome.Post.bind h ?_
  intro a w' hw'
  have := hf a w'
  unfold KeepsLedger at this
  rwa [hw'] at this

lemma keepsLedger_allocateRawPage : KeepsLedger w (w.allocateRawPage id reply) := by
  unfold World.allocateRawPage
  split
  · trivial
  · apply keepsLedger_takeBuffer.bind
    intro a w'
    have hshared : ((w'.accessPool id .addPagesInUse).cloneShared id).ledger = w'.ledger := by
      rw [ledger_cloneShared, ledger_accessPool]
    exact Outcome.post_done hshared

lemma keepsLedger_prewarmLoop (replies : List (Option ℕ)) :
    KeepsLedger w (World.prewarmLoop id replies w) := by
  induction replies generalizing w with
  | nil => rfl
  | cons reply replies ih =>
      unfold World.prewarmLoop
      split
      · trivial
      · apply keepsLedger_sourceAllocate.bind
        intro a w'
        exact ih (w := _)

lemma keepsLedger_prewarm {replies : List (Option ℕ)} :
    KeepsLedger w (w.prewarm id replies) := by
  refine (keepsLedger_prewarmLoop replies).bind ?_
  intro _ w'
  have hcounted : (((w'.accessPool id (.addAllocationsFromHeap replies.length)).accessPool id
      (.addFreePages replies.length)).accessPool id
      (.addPrewarmedPages replies.length)).ledger = w'.ledger := by
    simp only [ledger_accessPool]
  exact Outcome.post_done hcounted

lemma keepsLedger_openNewPage : KeepsLedger w (w.openNewPage id reply) := by
  apply keepsLedger_allocateRawPage.bind
  intro a w'
  refine Outcome.post_done ?_
  rw [ledger_replaceCurrent]
  rfl

lemma keepsLedger_findPage {size align : ℕ} (fuel : ℕ) :
    KeepsLedger w (World.findPage id size align reply fuel w) := by
  induction fuel generalizing w with
  | zero => rfl
  | succ fuel ih =>
      unfold World.findPage
      split
      · trivial
      · split
        · exact Outcome.post_done ledger_clonePacked
        · have hopen : KeepsLedger (w.replaceCurrent id none)
              ((w.replaceCurrent id none).openNewPage id reply) := keepsLedger_openNewPage
          unfold KeepsLedger at hopen
          rw [ledger_replaceCurrent] at hopen
          exact KeepsLedger.bind hopen fun _ w' => ih

end Frame

/-! ## Every operation is a sequence of moves -/

section Refinement

variable {P : ℕ → Prop} {w w' : World} {id tenant i : ℕ} {p : Pool} {reply : Option ℕ}
  {α β : Type}

/-- The program moves the ledger on, returning or panicking. -/
def MovesLedger (P : ℕ → Prop) (w : World) (o : Outcome World α) : Prop :=
  o.Post (fun _ w' => Ledger.Moves P w.ledger w'.ledger)
    fun w' => Ledger.Moves P w.ledger w'.ledger

lemma KeepsLedger.moves {o : Outcome World α} (h : KeepsLedger w o) : MovesLedger P w o := by
  refine Outcome.Post.mono h (fun _ w' hw' => ?_) fun w' hw' => ?_
  · rw [hw']
  · rw [hw']

lemma MovesLedger.bind {o : Outcome World α} {f : α → World → Outcome World β}
    (h : MovesLedger P w o) (hf : ∀ a w', MovesLedger P w' (f a w')) :
    MovesLedger P w (o.bind f) := by
  refine Outcome.Post.bind h ?_
  intro a w' hw'
  exact (hf a w').mono (fun _ _ h => hw'.trans h) fun _ h => hw'.trans h

lemma MovesLedger.final {o : Outcome World α} (h : MovesLedger P w o) (hw' : o.final = some w') :
    Ledger.Moves P w.ledger w'.ledger := by
  unfold MovesLedger at h
  exact h.final (P := fun w' => Ledger.Moves P w.ledger w'.ledger) hw'

/-- A world with the same ledger has the same moves. -/
lemma MovesLedger.of_ledger_eq {o : Outcome World α} (w₁ : World) (heq : w₁.ledger = w.ledger)
    (h : MovesLedger P w₁ o) : MovesLedger P w o := by
  unfold MovesLedger at h
  rwa [heq] at h

lemma moves_setPage {h h' : PageHandle} (hget : w.pages.get i = some h)
    (hsame : h.SameCharge h') :
    Ledger.Moves P w.ledger ({ w with pages := w.pages.set i h' } : World).ledger :=
  .single (.setPage w.ledger hget hsame)

lemma moves_setChunk {h h' : ChunkHandle} (hget : w.chunks.get i = some h)
    (hsame : h.SameCharge h') :
    Ledger.Moves P w.ledger ({ w with chunks := w.chunks.set i h' } : World).ledger :=
  .single (.setChunk w.ledger hget hsame)

/-- A page is allocated. -/
lemma ledger_allocatePage : (w.allocatePage id tenant p reply).Post
    (fun i w' => i = w.pages.next ∧ ∃ a, w'.ledger =
      w.ledger.addPage ⟨a, p.pageSize, 0, id, tenant, .builder⟩)
    fun w' => w'.ledger = w.ledger := by
  refine Outcome.Post.bind keepsLedger_allocateRawPage ?_
  intro a w₁ hw₁
  refine Outcome.post_done ⟨congrArg (fun l => l.pages.next) hw₁, a, ?_⟩
  rw [← hw₁]
  rfl

lemma moves_allocatePage : MovesLedger P w (w.allocatePage id tenant p reply) := by
  refine ledger_allocatePage.mono (fun i w' h => ?_) fun w' h => ?_
  · obtain ⟨-, a, hledger⟩ := h
    rw [hledger]
    exact .single (.addPage w.ledger _)
  · rw [h]

lemma ledger_releasePage {h : PageHandle} :
    (({ w with pages := w.pages.erase i } : World).releasePage h).ledger =
      w.ledger.removePage i h := by
  unfold World.releasePage
  rw [ledger_dropShared, ledger_pushReturn]
  rfl

lemma moves_dropPage {h : PageHandle} (hget : w.pages.get i = some h) :
    Ledger.Moves P w.ledger (w.dropPage i h).ledger := by
  unfold World.dropPage
  split
  · rw [ledger_releasePage]
    exact .single (.removePage w.ledger hget)
  · rw [ledger_releasePage]
    exact .single (.removePage w.ledger hget)
  · exact moves_setPage hget ⟨rfl, rfl, rfl⟩

lemma ledger_sealPage {h : PageHandle} : (w.sealPage i h).ledger =
    { w.ledger with pages := w.pages.set i { h with refs := .sealed 1 } } := by
  have hclone : (w.cloneShared h.pool).ledger = w.ledger := ledger_cloneShared
  unfold World.sealPage
  dsimp only
  rw [ledger_dropShared, show (w.cloneShared h.pool).pages = w.pages from
    congrArg Ledger.pages hclone, ← hclone]
  rfl

lemma moves_sealPage {h : PageHandle} (hget : w.pages.get i = some h) :
    Ledger.Moves P w.ledger (w.sealPage i h).ledger := by
  rw [ledger_sealPage]
  exact moves_setPage hget ⟨rfl, rfl, rfl⟩

/-- A new page is sealed with its length, or it is dropped. -/
lemma ledger_finishPage {h : PageHandle} {data : List UInt8} {len : Option ℕ}
    (hget : w.pages.get i = some h) (hbuilder : h.refs = .builder) :
    (w.finishPage i data len).Post
      (fun _ w' => ∃ n, len = some n ∧ n ≤ h.capacity ∧ w'.ledger =
        { w.ledger with pages := w.pages.set i { h with len := n, refs := .sealed 1 } })
      fun w' => (∀ n, len = some n → h.capacity < n) ∧ w'.ledger = w.ledger.removePage i h := by
  have hdrop (w₁ : World) (hw₁ : w₁.ledger = w.ledger) :
      (w₁.dropPage i h).ledger = w.ledger.removePage i h := by
    unfold World.dropPage
    rw [hbuilder, ← hw₁]
    exact ledger_releasePage
  unfold World.finishPage
  rw [hget]
  dsimp only
  split
  · exact Outcome.post_panicked ⟨fun n hn => absurd hn (by simp), hdrop _ rfl⟩
  · rename_i n
    split
    · rename_i hle
      refine Outcome.post_done ⟨n, rfl, hle, ?_⟩
      rw [ledger_sealPage]
      dsimp only
      rw [Arena.set_set]
      rfl
    · rename_i hlt
      refine Outcome.post_panicked ⟨fun m hm => ?_, hdrop _ rfl⟩
      obtain rfl := Option.some.inj hm
      omega

/-- A page gets its length and is sealed. -/
lemma moves_setLenPage {h : PageHandle} {n : ℕ} (hget : w.pages.get i = some h) :
    Ledger.Moves P w.ledger (({ w with
      pages := w.pages.set i { h with len := n } } : World).sealPage i { h with len := n }).ledger := by
  have hlen : Ledger.Moves P w.ledger
      ({ w with pages := w.pages.set i { h with len := n } } : World).ledger :=
    moves_setPage hget ⟨rfl, rfl, rfl⟩
  refine hlen.trans (moves_sealPage ?_)
  exact Arena.get_set_self hget

lemma moves_finishPage {data : List UInt8} {len : Option ℕ} :
    MovesLedger P w (w.finishPage i data len) := by
  unfold World.finishPage
  split
  · trivial
  · rename_i h hget
    dsimp only
    -- The store into the buffer is outside the ledger.
    refine MovesLedger.of_ledger_eq (w.store h.buf (data.take h.capacity)) rfl ?_
    split
    · exact Outcome.post_panicked (moves_dropPage hget)
    · split
      · exact Outcome.post_done (moves_setLenPage hget)
      · exact Outcome.post_panicked (moves_dropPage hget)

/-- The four paths of `allocate_aligned` differ in memory and free lists only: the ledger gets a
new builder for the request. -/
lemma ledger_allocateAligned {size align : ℕ} :
    (w.allocateAligned id tenant p size align reply).Post
      (fun i w' => i = w.chunks.next ∧ ∃ c q offset,
        w'.ledger = w.ledger.addChunk (newBuilder id tenant size c q offset))
      fun w' => w'.ledger = w.ledger := by
  have hreturn : ∀ (w₁ : World) (c : SizeClass) (q : Option PackedArc) (offset : ℕ),
      w₁.ledger = w.ledger → (w₁.returnBuilder id tenant size c q offset).Post
        (fun i w' => i = w.chunks.next ∧ ∃ c q offset,
          w'.ledger = w.ledger.addChunk (newBuilder id tenant size c q offset))
        fun w' => w'.ledger = w.ledger := by
    intro w₁ c q offset hw₁
    rw [← hw₁, show w.chunks = w₁.chunks from congrArg Ledger.chunks hw₁.symm]
    exact Outcome.post_done ⟨rfl, c, q, offset, rfl⟩
  unfold World.allocateAligned
  split
  · split
    · rename_i hclass
      obtain rfl := sizeClass_eq_zero.1 hclass
      exact hreturn w .zero none 0 rfl
    · exact Outcome.Post.bind (keepsLedger_findPage 2) fun r w₁ hw₁ => hreturn _ _ _ _ hw₁
    · refine Outcome.Post.bind keepsLedger_allocateRawPage ?_
      intro a w₁ hw₁
      exact hreturn (w₁.wrapPage id a).2 _ _ _ hw₁
    · apply World.post_allocateOversized
      · exact fun hvalid a hsupplies => hreturn _ _ _ _ rfl
      · exact fun hvalid => rfl
  · rfl

lemma moves_allocateAligned {size align : ℕ} (hsize : P size) :
    MovesLedger P w (w.allocateAligned id tenant p size align reply) := by
  refine ledger_allocateAligned.mono (fun i w' h => ?_) fun w' h => ?_
  · obtain ⟨-, c, q, offset, hledger⟩ := h
    rw [hledger]
    exact .single (.addChunk w.ledger _ ⟨rfl, rfl⟩ hsize)
  · rw [h]

lemma ledger_releaseChunk {h : ChunkHandle} :
    (({ w with chunks := w.chunks.erase i } : World).releaseChunk h).ledger =
      w.ledger.removeChunk i h := by
  unfold World.releaseChunk
  rw [ledger_dropOptional]
  rfl

lemma ledger_sealChunk {h : ChunkHandle} : (w.sealChunk i h).ledger =
    { w.ledger with chunks := w.chunks.set i { h with refs := .sealed 1 } } := by
  unfold World.sealChunk
  dsimp only
  rw [ledger_dropOptional]
  split
  · rfl
  · rename_i q _
    have hclone : (w.clonePacked q).ledger = w.ledger := ledger_clonePacked
    rw [show (w.clonePacked q).chunks = w.chunks from congrArg Ledger.chunks hclone, ← hclone]
    rfl

lemma moves_dropChunk {h : ChunkHandle} (hget : w.chunks.get i = some h) :
    Ledger.Moves P w.ledger (w.dropChunk i h).ledger := by
  unfold World.dropChunk
  split
  · rw [ledger_releaseChunk]
    exact .single (.removeChunk w.ledger hget)
  · rw [ledger_releaseChunk]
    exact .single (.removeChunk w.ledger hget)
  · exact moves_setChunk hget ⟨rfl, rfl, rfl, rfl, rfl⟩

lemma moves_sealChunk {h : ChunkHandle} (hget : w.chunks.get i = some h) :
    Ledger.Moves P w.ledger (w.sealChunk i h).ledger := by
  rw [ledger_sealChunk]
  exact moves_setChunk hget ⟨rfl, rfl, rfl, rfl, rfl⟩

lemma chunks_storeChunk {h : ChunkHandle} {pos : ℕ} {data : List UInt8} :
    (w.storeChunk h pos data).chunks = w.chunks := congrArg Ledger.chunks ledger_storeChunk

/-- A new chunk is sealed with its length, or it is dropped. -/
lemma ledger_finishChunk {h : ChunkHandle} {data : List UInt8} {len : Option ℕ}
    (hbuilder : h.refs = .builder) :
    (w.finishChunk i h data len).Post
      (fun _ w' => ∃ n, len = some n ∧ n ≤ h.capacity ∧ w'.ledger = { w.ledger with
        chunks := w.chunks.set i { h with len := truncate32 n, refs := .sealed 1 } })
      fun w' => (∀ n, len = some n → h.capacity < n) ∧ w'.ledger = w.ledger.removeChunk i h := by
  have hstore : (w.storeChunk h 0 (data.take h.capacity)).ledger = w.ledger := ledger_storeChunk
  have hdrop : ((w.storeChunk h 0 (data.take h.capacity)).dropChunk i h).ledger =
      w.ledger.removeChunk i h := by
    unfold World.dropChunk
    rw [hbuilder, ← hstore]
    exact ledger_releaseChunk
  unfold World.finishChunk
  dsimp only
  split
  · exact Outcome.post_panicked ⟨fun n hn => absurd hn (by simp), hdrop⟩
  · rename_i n
    split
    · rename_i hle
      refine Outcome.post_done ⟨n, rfl, hle, ?_⟩
      rw [ledger_sealChunk]
      dsimp only
      rw [Arena.set_set, chunks_storeChunk, ← hstore]
      rfl
    · rename_i hlt
      refine Outcome.post_panicked ⟨fun m hm => ?_, hdrop⟩
      obtain rfl := Option.some.inj hm
      omega

/-- A chunk gets its length and is sealed. -/
lemma moves_setLenChunk {h : ChunkHandle} {n : ℕ} (hget : w.chunks.get i = some h) :
    Ledger.Moves P w.ledger (({ w with
      chunks := w.chunks.set i { h with len := n } } : World).sealChunk i { h with len := n }).ledger := by
  have hlen : Ledger.Moves P w.ledger
      ({ w with chunks := w.chunks.set i { h with len := n } } : World).ledger :=
    moves_setChunk hget ⟨rfl, rfl, rfl, rfl, rfl⟩
  refine hlen.trans (moves_sealChunk ?_)
  exact Arena.get_set_self hget

lemma moves_finishChunk {h : ChunkHandle} {data : List UInt8} {len : Option ℕ}
    (hget : w.chunks.get i = some h) : MovesLedger P w (w.finishChunk i h data len) := by
  unfold World.finishChunk
  dsimp only
  have hget' : (w.storeChunk h 0 (data.take h.capacity)).chunks.get i = some h := by
    rwa [chunks_storeChunk]
  refine MovesLedger.of_ledger_eq (w.storeChunk h 0 (data.take h.capacity)) ledger_storeChunk ?_
  split
  · exact Outcome.post_panicked (moves_dropChunk hget')
  · split
    · exact Outcome.post_done (moves_setLenChunk hget')
    · exact Outcome.post_panicked (moves_dropChunk hget')

/-- The chunk requests of the operation satisfy `P`. -/
def Op.Requests (P : ℕ → Prop) : Op → Prop
  | .allocateChunk _ _ size _ _ => P size
  | .allocFromChunk _ _ data _ => P data.length
  | .allocWithChunk _ _ size _ _ => P size
  | .allocWithLenChunk _ _ capacity _ _ => P capacity
  | _ => True

/-- The operation is one on the chunk `i`. -/
def Op.On (i : ℕ) : Op → Prop
  | .appendChunk j _ => j = i
  | .setLenChunk j _ => j = i
  | .writeChunk j _ _ => j = i
  | .sealChunk j => j = i
  | .cloneChunk j => j = i
  | .dropChunk j => j = i
  | _ => False

/-- An operation on a chunk changes nothing that the charge depends on, or it is the drop of the
last handle. -/
lemma ledger_step_of_on {op : Op} (hop : op.On i) (hstep : w.step op = some w') :
    ∃ h, w.chunks.get i = some h ∧
      ((∃ h', h.SameCharge h' ∧ w'.ledger = { w.ledger with chunks := w.chunks.set i h' }) ∨
        w'.ledger = w.ledger ∨ w'.ledger = w.ledger.removeChunk i h) := by
  cases op with
  | appendChunk j data =>
      obtain rfl : j = i := hop
      obtain ⟨h, hget, hstep⟩ := Option.bind_eq_some_iff.1 hstep
      refine ⟨h, (World.chunkBuilder_eq_some hget).1, ?_⟩
      unfold World.appendChunk at hstep
      split at hstep
      · rename_i heq
        split at heq
        · exact absurd heq (by simp)
        · obtain rfl := Except.ok.inj heq
          obtain rfl := Option.some.inj hstep
          have hstore : (w.storeChunk h h.len data).ledger = w.ledger := ledger_storeChunk
          have hchunks : (w.storeChunk h h.len data).chunks = w.chunks := chunks_storeChunk
          refine Or.inl ⟨{ h with len := truncate32 (h.len + data.length) },
            ⟨rfl, rfl, rfl, rfl, rfl⟩, ?_⟩
          rw [← hstore, ← hchunks]
          rfl
      · obtain rfl := Option.some.inj hstep
        exact Or.inr (Or.inl rfl)
  | setLenChunk j len =>
      obtain rfl : j = i := hop
      obtain ⟨h, hget, hstep⟩ := Option.bind_eq_some_iff.1 hstep
      refine ⟨h, (World.chunkBuilder_eq_some hget).1, ?_⟩
      unfold World.setLenChunk at hstep
      split at hstep
      · obtain rfl := Option.some.inj hstep
        exact Or.inl ⟨{ h with len := truncate32 len }, ⟨rfl, rfl, rfl, rfl, rfl⟩, rfl⟩
      · obtain rfl := Option.some.inj hstep
        exact Or.inr (Or.inl rfl)
  | writeChunk j pos data =>
      obtain rfl : j = i := hop
      obtain ⟨h, hget, hstep⟩ := Option.bind_eq_some_iff.1 hstep
      refine ⟨h, (World.chunkBuilder_eq_some hget).1, Or.inr (Or.inl ?_)⟩
      unfold World.writeChunk at hstep
      split at hstep
      · obtain rfl := Option.some.inj hstep
        exact ledger_storeChunk
      · obtain rfl := Option.some.inj hstep
        rfl
  | sealChunk j =>
      obtain rfl : j = i := hop
      obtain ⟨h, hget, rfl⟩ := Option.map_eq_some_iff.1 hstep
      refine ⟨h, (World.chunkBuilder_eq_some hget).1, Or.inl ?_⟩
      exact ⟨{ h with refs := .sealed 1 }, ⟨rfl, rfl, rfl, rfl, rfl⟩, ledger_sealChunk⟩
  | cloneChunk j =>
      obtain rfl : j = i := hop
      obtain ⟨h, hget, hstep⟩ := Option.bind_eq_some_iff.1 hstep
      refine ⟨h, hget, ?_⟩
      unfold World.cloneChunk at hstep
      split at hstep
      · exact absurd hstep (by simp)
      · rename_i c _
        obtain rfl := Option.some.inj hstep
        exact Or.inl ⟨{ h with refs := .sealed (c + 1) }, ⟨rfl, rfl, rfl, rfl, rfl⟩, rfl⟩
  | dropChunk j =>
      obtain rfl : j = i := hop
      obtain ⟨h, hget, rfl⟩ := Option.map_eq_some_iff.1 hstep
      refine ⟨h, hget, ?_⟩
      unfold World.dropChunk
      split
      · exact Or.inr (Or.inr ledger_releaseChunk)
      · exact Or.inr (Or.inr ledger_releaseChunk)
      · rename_i c _ _
        exact Or.inl ⟨{ h with refs := .sealed (c - 1) }, ⟨rfl, rfl, rfl, rfl, rfl⟩, rfl⟩
  | _ => exact hop.elim

lemma moves_of_on {op : Op} (hstep : w.step op = some w') (hop : op.On i) :
    Ledger.Moves P w.ledger w'.ledger := by
  obtain ⟨h, hget, hcase⟩ := ledger_step_of_on hop hstep
  rcases hcase with ⟨h', hsame, hledger⟩ | hledger | hledger
  · rw [hledger]
    exact .single (.setChunk w.ledger hget hsame)
  · rw [hledger]
  · rw [hledger]
    exact .single (.removeChunk w.ledger hget)

/-- **Refinement.** Every operation of the crate is a sequence of moves of the ledger. -/
theorem ledger_step {op : Op} (hop : op.Requests P) (h : w.step op = some w') :
    Ledger.Moves P w.ledger w'.ledger := by
  cases op with
  | newPagePool ps =>
      refine MovesLedger.final ?_ h
      unfold World.newPool
      split <;> exact ReflTransGen.refl
  | newChunkPool ps =>
      refine MovesLedger.final ?_ h
      unfold World.newPool
      split <;> exact ReflTransGen.refl
  | prewarm id replies =>
      simp only [World.step, Option.ite_none_right_eq_some] at h
      exact (KeepsLedger.moves keepsLedger_prewarm).final h.2
  | dropPool id =>
      obtain ⟨p, -, h⟩ := Option.bind_eq_some_iff.1 h
      unfold World.dropPool at h
      split at h
      · obtain rfl := Option.some.inj h
        rw [ledger_dropPagePool]
      · obtain rfl := Option.some.inj h
        rw [ledger_dropChunkPool]
      · exact absurd h (by simp)
  | cloneShared id =>
      simp only [World.step, Option.ite_none_right_eq_some] at h
      obtain rfl := Option.some.inj h.2
      have hledger : (w.cloneShared id).ledger = w.ledger := ledger_cloneShared
      rw [← hledger]
      exact .refl
  | dropSharedHandle id =>
      simp only [World.step, Option.ite_none_right_eq_some] at h
      obtain rfl := Option.some.inj h.2
      rw [ledger_dropShared]
      exact .refl
  | allocatePage id t reply =>
      obtain ⟨p, -, h⟩ := Option.bind_eq_some_iff.1 h
      exact moves_allocatePage.final h
  | allocFromPage id t data reply =>
      obtain ⟨p, -, h⟩ := Option.bind_eq_some_iff.1 h
      refine MovesLedger.final ?_ h
      unfold World.allocFromPage
      split
      · exact moves_allocatePage.bind fun _ _ => moves_finishPage
      · exact Outcome.post_panicked .refl
  | allocWithPage id t init reply =>
      obtain ⟨p, -, h⟩ := Option.bind_eq_some_iff.1 h
      refine MovesLedger.final ?_ h
      apply moves_allocatePage.bind
      intro i w₁
      dsimp only
      split
      · trivial
      · exact moves_finishPage
  | allocWithLenPage id t init reply =>
      obtain ⟨p, -, h⟩ := Option.bind_eq_some_iff.1 h
      refine MovesLedger.final ?_ h
      apply moves_allocatePage.bind
      intro i w₁
      dsimp only
      split
      · trivial
      · exact moves_finishPage
  | appendPage i data =>
      obtain ⟨hd, hget, h⟩ := Option.bind_eq_some_iff.1 h
      unfold World.appendPage at h
      split at h
      · rename_i heq
        split at heq
        · exact absurd heq (by simp)
        · obtain rfl := Except.ok.inj heq
          obtain rfl := Option.some.inj h
          exact moves_setPage (World.pageBuilder_eq_some hget).1 ⟨rfl, rfl, rfl⟩
      · obtain rfl := Option.some.inj h
        exact .refl
  | setLenPage i len =>
      obtain ⟨hd, hget, h⟩ := Option.bind_eq_some_iff.1 h
      refine MovesLedger.final ?_ h
      unfold World.setLenPage
      split
      · exact moves_setPage (World.pageBuilder_eq_some hget).1 ⟨rfl, rfl, rfl⟩
      · exact ReflTransGen.refl
  | writePage i pos data =>
      obtain ⟨hd, -, h⟩ := Option.bind_eq_some_iff.1 h
      refine MovesLedger.final ?_ h
      unfold World.writePage
      split <;> exact ReflTransGen.refl
  | sealPage i =>
      obtain ⟨hd, hget, rfl⟩ := Option.map_eq_some_iff.1 h
      exact moves_sealPage (World.pageBuilder_eq_some hget).1
  | clonePage i =>
      obtain ⟨hd, hget, h⟩ := Option.bind_eq_some_iff.1 h
      unfold World.clonePage at h
      split at h
      · exact absurd h (by simp)
      · obtain rfl := Option.some.inj h
        exact moves_setPage hget ⟨rfl, rfl, rfl⟩
  | dropPage i =>
      obtain ⟨hd, hget, rfl⟩ := Option.map_eq_some_iff.1 h
      exact moves_dropPage hget
  | allocateChunk id t size align reply =>
      obtain ⟨p, -, h⟩ := Option.bind_eq_some_iff.1 h
      exact (moves_allocateAligned hop).final h
  | allocFromChunk id t data reply =>
      obtain ⟨p, -, h⟩ := Option.bind_eq_some_iff.1 h
      refine MovesLedger.final ?_ h
      refine (moves_allocateAligned hop).bind ?_
      intro i w₁
      split
      · trivial
      · rename_i hd hget
        split
        · exact moves_finishChunk hget
        · exact Outcome.post_panicked (moves_dropChunk hget)
  | allocWithChunk id t size init reply =>
      obtain ⟨p, -, h⟩ := Option.bind_eq_some_iff.1 h
      refine MovesLedger.final ?_ h
      refine (moves_allocateAligned hop).bind ?_
      intro i w₁
      split
      · trivial
      · rename_i hd hget
        exact moves_finishChunk hget
  | allocWithLenChunk id t capacity init reply =>
      obtain ⟨p, -, h⟩ := Option.bind_eq_some_iff.1 h
      refine MovesLedger.final ?_ h
      refine (moves_allocateAligned hop).bind ?_
      intro i w₁
      split
      · trivial
      · rename_i hd hget
        exact moves_finishChunk hget
  | appendChunk i data | setLenChunk i len | writeChunk i pos data | sealChunk i | cloneChunk i
  | dropChunk i => exact moves_of_on (i := i) h rfl

/-- A run of operations is a sequence of moves from the empty ledger. -/
theorem ledger_run {ops : List Op} (hops : ∀ op ∈ ops, op.Requests P)
    (h : runOps ops = some w) : Ledger.Moves P World.init.ledger w.ledger := by
  revert hops
  refine Transition.run_induction (P := fun ops w => (∀ op ∈ ops, op.Requests P) →
    Ledger.Moves P World.init.ledger w.ledger) ?_ ?_ h
  · exact fun _ => .refl
  · intro ops w op w' _ ih hstep hops
    have hw := ih fun op hop => hops op (List.mem_append_left _ hop)
    exact hw.trans (ledger_step (hops op (by simp)) hstep)

end Refinement

end PagedAlloc.Sequential
