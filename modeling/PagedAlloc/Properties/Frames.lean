import PagedAlloc.Construction.Primitives
import PagedAlloc.Properties.Builders
import PagedAlloc.Properties.FailedClosure

/-!
# What an operation leaves alone

`ReadsSame` (`Properties/Readers.lean`) is about what the slices of handles show.  Here the whole
buffer of a handle counts, with what lies behind its length: `World.Spares` says that every page and
chunk of a world has the same bytes, up to its capacity, in another one.

An operation writes to the buffer of a handle it was called on, to a new allocation, or to a buffer
that it has in hand, and so it spares all handles that it was not called on (`frame_step`).
-/

namespace PagedAlloc.Sequential

open Words Bytes Relation Transition

/-- The bytes of the page are the same in both memories. -/
def PageHandle.Keeps (h : PageHandle) (mem mem' : Memory) : Prop :=
  ∀ x, h.buf ≤ x → x < h.buf + h.capacity → mem' x = mem x

/-- The bytes of all pages and chunks of `w` are the same in `w'`. -/
structure World.Spares (w w' : World) : Prop where
  page : ∀ i h, w.pages.get i = some h → h.Keeps w.mem w'.mem
  chunk : ∀ i h, w.chunks.get i = some h → h.Keeps w.mem w'.mem

section Spares

variable {w w' w₁ w₂ : World} {c : Config} {B : Multiset (ℕ × ℕ)} {S P : Multiset ℕ}
  {i id a : ℕ} {h : PageHandle} {p : Pool} {mem' : Memory}

lemma Spares.of_mem_eq (hmem : w'.mem = w.mem) : w.Spares w' where
  page i h _ x _ _ := by rw [hmem]
  chunk i h _ a _ x _ _ := by rw [hmem]

/-- The handles of `w` are still there in `w₁`. -/
lemma World.Spares.trans (hs : w.Spares w₁) (hs₁ : w₁.Spares w₂) (hledger : w₁.ledger = w.ledger) :
    w.Spares w₂ where
  page i h hget x hlow hhigh := by
    have hget₁ : w₁.pages.get i = some h := by
      rw [show w₁.pages = w.pages from congrArg Ledger.pages hledger]
      exact hget
    rw [hs₁.page i h hget₁ x hlow hhigh, hs.page i h hget x hlow hhigh]
  chunk i h hget a hbase x hlow hhigh := by
    have hget₁ : w₁.chunks.get i = some h := by
      rw [show w₁.chunks = w.chunks from congrArg Ledger.chunks hledger]
      exact hget
    rw [hs₁.chunk i h hget₁ a hbase x hlow hhigh, hs.chunk i h hget a hbase x hlow hhigh]

/-- A write to another live buffer. -/
lemma Owned.keepsPage_of_block {b : Block} (ho : Owned c) (hget : c.world.pages.get i = some h)
    (hmem : b ∈ c.world.blocks) (hne : b ≠ ⟨h.buf, ⟨h.capacity, defaultAlign⟩, .pool h.pool⟩)
    (hagree : ∀ x : ℕ, x < b.base ∨ b.base + b.layout.size ≤ x → mem' x = c.world.mem x) :
    h.Keeps c.world.mem mem' := by
  intro x hlow hhigh
  have hapart := ho.blocks.apart b hmem _ (ho.mem_of_page hget).1 hne
  apply hagree
  unfold Apart at hapart
  dsimp only at hapart
  omega

/-- A write to a new allocation. -/
lemma Owned.spares_of_supplies {l : Layout} (ho : Owned w.idle) (hsupplies : w.Supplies l a)
    (hagree : ∀ x : ℕ, x < a ∨ a + l.size ≤ x → w'.mem x = w.mem x) : w.Spares w' where
  page i h hget x hlow hhigh := by
    have hapart := hsupplies.2.2.2 _ (ho.mem_of_page hget).1
    apply hagree
    unfold Apart at hapart
    dsimp only at hapart
    omega
  chunk i h hget := ho.keeps_of_supplies hget hsupplies hagree

/-- A link stored in a buffer in hand. -/
lemma Owned.spares_of_hand {v : ℕ} (ho : Owned ⟨w, (id, a) ::ₘ B, S, P⟩)
    (hpool : w.pools.get id = some p) (hmem : w'.mem = writePtr w.mem a v) : w.Spares w' where
  page i h hget := by
    have hblock : (⟨a, p.layout, .pool id⟩ : Block) ∈ w.blocks :=
      ho.places.mem_of_held hpool holders_cons_ne_zero
    refine ho.keepsPage_of_block hget hblock (fun heq => ?_) fun x hx => ?_
    · -- The buffer would have two holders.
      injection heq with hbuf _ horigin
      injection horigin with hpool'
      have hholders := ho.holders_le_one hpool a
      have hle := Arena.le_sum (f := fun g : PageHandle =>
        if (id, a) = (g.pool, g.buf) then 1 else 0) hget
      rw [if_pos (by rw [hbuf, hpool'])] at hle
      unfold holders at hholders
      dsimp only at hholders
      rw [Multiset.count_cons_self] at hholders
      omega
    · have hsize := (ho.blocks.pageSize id p hpool).1
      change x < a ∨ a + p.pageSize ≤ x at hx
      unfold defaultAlign at hsize
      rw [hmem]
      exact writePtr_of_outside (by omega)
  chunk i h hget := by
    rw [hmem]
    exact ho.keeps_of_hand hget hpool

lemma spares_pushReturn (ho : Owned ⟨w, (id, a) ::ₘ B, S, P⟩) : w.Spares (w.pushReturn id a) := by
  cases hpool : w.pools.get id with
  | none =>
      unfold World.pushReturn
      rw [hpool]
      exact Spares.of_mem_eq rfl
  | some p =>
      refine ho.spares_of_hand (v := p.returnHead) hpool ?_
      unfold World.pushReturn
      rw [hpool]
      rfl

/-- The buffer and the reference of a handle go back to the pool. -/
lemma spares_release (ho : Owned ⟨w, (id, a) ::ₘ B, S, P⟩) :
    w.Spares ((w.pushReturn id a).dropShared id) :=
  (spares_pushReturn ho).trans (Spares.of_mem_eq mem_dropShared) ledger_pushReturn

lemma spares_dropPacked {arc : PackedArc} (ho : Owned ⟨w, B, S, arc.id ::ₘ P⟩) :
    w.Spares (w.dropPacked arc) := by
  have hdropped := dropped_dropPacked ho
  generalize w.dropPacked arc = w' at hdropped ⊢
  cases hdropped with
  | shared hget hne => exact Spares.of_mem_eq rfl
  | @pool id a hget =>
      have hfree : Move ⟨w, B, S, arc.id ::ₘ P⟩
          ⟨{ w with packed := w.packed.erase arc.id }, (id, a) ::ₘ B, id ::ₘ S, P⟩ :=
        .freePacked hget
      have hspares := spares_release (ho.move hfree)
      exact ⟨hspares.page, hspares.chunk⟩
  | heap hget hmem => exact Spares.of_mem_eq rfl

lemma spares_dropOptional {q : Option PackedArc} (ho : Owned ⟨w, B, S, heldIds q + P⟩) :
    w.Spares (w.dropOptional q) := by
  cases q with
  | none => exact Spares.of_mem_eq rfl
  | some arc =>
      unfold heldIds at ho
      rw [Multiset.singleton_add] at ho
      exact spares_dropPacked ho

/-- The open page is closed. -/
lemma spares_closeCurrent (ho : Owned w.idle) (hget : w.pools.get id = some p) :
    w.Spares (w.replaceCurrent id none) := by
  unfold World.replaceCurrent
  rw [hget]
  dsimp only
  cases hcurrent : p.owner.current with
  | none => exact Spares.of_mem_eq rfl
  | some o =>
      have htake := Move.takeCurrent (B := 0) (S := 0) (P := 0) hget hcurrent
      have hspares := spares_dropPacked (ho.move htake)
      exact ⟨hspares.page, hspares.chunk⟩

end Spares

/-! ## Pools -/

section Pools

variable {w w' : World} {id : ℕ} {p : Pool} {reply : Option ℕ}

lemma mem_releaseLocal : (w.releaseLocal id p).mem = w.mem := by
  obtain ⟨bs, es, as, f, h⟩ := World.releaseLocal_frame (w := w) id p
  rw [h]

lemma mem_dropPagePool : (w.dropPagePool id p).mem = w.mem :=
  mem_dropShared.trans mem_releaseLocal

lemma spares_dropChunkPool {l : ℕ} {c : Option OpenPage} (ho : Owned w.idle)
    (hget : w.pools.get id = some p) (howner : p.owner = .chunkPool l c) :
    w.Spares (w.dropChunkPool id p) := by
  have hmem : w.Spares (w.dropPagePool id p) := Spares.of_mem_eq mem_dropPagePool
  unfold World.dropChunkPool
  dsimp only
  split
  · exact hmem
  · have hdrop := custody_dropPagePool ho hget (Owner.live_of_chunkPool howner)
    cases hpool : (w.dropPagePool id p).pools.get id with
    | none =>
        unfold World.replaceCurrent
        rw [hpool]
        exact Spares.of_mem_eq mem_dropPagePool
    | some p' => exact hmem.trans (spares_closeCurrent (ho.moves hdrop) hpool) ledger_dropPagePool

/-- One page of `prewarm`, linked into the local list. -/
lemma spares_prewarmLoop {replies : List (Option ℕ)} (ho : Owned w.idle)
    (hget : w.pools.get id = some p) (hlive : p.owner.Live) :
    (World.prewarmLoop id replies w).Post (fun _ w' => w.Spares w') fun w' => w.Spares w' := by
  induction replies generalizing w p with
  | nil => exact Spares.of_mem_eq rfl
  | cons reply replies ih =>
      have hsource : (w.sourceAllocate id p.layout reply).Post
          (fun a w₁ => w.Supplies p.layout a ∧ w₁ = w.provide (.pool id) p.layout a)
          fun w' => w.Spares w' :=
        World.post_sourceAllocate (fun a hsupplies => ⟨hsupplies, rfl⟩)
          fun _ => Spares.of_mem_eq rfl
      unfold World.prewarmLoop
      rw [hget]
      refine Outcome.Post.bind hsource ?_
      rintro a w₁ ⟨hsupplies, rfl⟩
      have hlink : Moves w.idle (World.idle {
            ((w.provide (.pool id) p.layout a).prefault id a).storePtr a p.owner.localHead with
          pools := w.pools.set id { p with owner := p.owner.setLocalHead a } }) :=
        .head (.supply hget hsupplies)
          (.head (.prefault hget fun x hlow hhigh => if_pos ⟨hlow, hhigh⟩)
            (.single (.linkLocal (p := p) hget hlive)))
      have hfirst : w.Spares {
            ((w.provide (.pool id) p.layout a).prefault id a).storePtr a p.owner.localHead with
          pools := w.pools.set id { p with owner := p.owner.setLocalHead a } } := by
        refine ho.spares_of_supplies hsupplies fun x hx => ?_
        have hsize := (ho.blocks.pageSize id p hget).1
        change x < a ∨ a + p.pageSize ≤ x at hx
        unfold defaultAlign at hsize
        exact (writePtr_of_outside (by omega)).trans (zero_of_outside hx)
      have hrest := ih (ho.moves hlink) (Arena.get_set_self hget) (Owner.live_setLocalHead hlive)
      exact hrest.mono (fun _ w' h => hfirst.trans h rfl) fun w' h => hfirst.trans h rfl

lemma spares_prewarm {replies : List (Option ℕ)} (ho : Owned w.idle)
    (hget : w.pools.get id = some p) (hlive : p.owner.Live) :
    (w.prewarm id replies).Post (fun _ w' => w.Spares w') fun w' => w.Spares w' := by
  refine Outcome.Post.bind (spares_prewarmLoop ho hget hlive) fun _ w₁ hspares => ?_
  have hmem : (((w₁.accessPool id (.addAllocationsFromHeap replies.length)).accessPool id
      (.addFreePages replies.length)).accessPool id
      (.addPrewarmedPages replies.length)).mem = w₁.mem := by
    rw [mem_accessPool, mem_accessPool, mem_accessPool]
  refine Outcome.post_done ⟨fun i h hi x hlow hhigh => ?_, fun i h hi a hbase x hlow hhigh => ?_⟩
  · dsimp only
    rw [hmem]
    exact hspares.page i h hi x hlow hhigh
  · dsimp only
    rw [hmem]
    exact hspares.chunk i h hi a hbase x hlow hhigh

end Pools

/-! ## Allocations -/

section Allocations

variable {w w' : World} {id tenant size align l : ℕ} {p : Pool} {reply : Option ℕ}
  {c : Option OpenPage}

lemma spares_takeBuffer (ho : Owned w.idle) :
    (w.takeBuffer id p reply).Post (fun _ w' => w.Spares w') fun w' => w.Spares w' := by
  have hmem : ∀ w₁ : World, w₁.mem = w.mem → w.Spares w₁ := fun w₁ h => Spares.of_mem_eq h
  unfold World.takeBuffer
  split
  · exact Outcome.post_done (hmem _ rfl)
  · split
    · exact Outcome.post_done (hmem _ rfl)
    · apply World.post_sourceAllocate
      · exact fun a hsupplies => ho.spares_of_supplies hsupplies fun x hx => zero_of_outside hx
      · exact fun _ => hmem _ rfl

lemma spares_allocateRawPage (ho : Owned w.idle) :
    (w.allocateRawPage id reply).Post (fun _ w' => w.Spares w') fun w' => w.Spares w' := by
  unfold World.allocateRawPage
  split
  · trivial
  · refine Outcome.Post.bind (spares_takeBuffer ho) fun a w₁ hspares => Outcome.post_done ?_
    have hmem : ((w₁.accessPool id .addPagesInUse).cloneShared id).mem = w₁.mem := by
      rw [mem_cloneShared, mem_accessPool]
    constructor
    case page =>
      intro i h hi x hlow hhigh
      dsimp only
      rw [hmem]
      exact hspares.page i h hi x hlow hhigh
    case chunk =>
      intro i h hi b hbase x hlow hhigh
      dsimp only
      rw [hmem]
      exact hspares.chunk i h hi b hbase x hlow hhigh

lemma spares_allocatePage (ho : Owned w.idle) : (w.allocatePage id tenant p reply).Post
    (fun _ w' => w.Spares w') fun w' => w.Spares w' :=
  Outcome.Post.bind (spares_allocateRawPage ho) fun _ _ h => Outcome.post_done ⟨h.page, h.chunk⟩

lemma spares_openNewPage (ho : Owned w.idle) (hget : w.pools.get id = some p)
    (howner : p.owner = .chunkPool l none) :
    (w.openNewPage id reply).Post (fun _ w' => w.Spares w') fun w' => w.Spares w' := by
  have hraw := Outcome.Post.and (o := w.allocateRawPage id reply) (spares_allocateRawPage ho)
    (custody_allocateRawPage hget (Owner.live_of_chunkPool howner))
  refine Outcome.Post.bind (hraw.mono (fun _ _ h => h) fun _ h => h.1) ?_
  rintro a w₁ ⟨hspares, -, p₁, hget₁, -, l', howner₁⟩
  rw [howner] at howner₁
  refine Outcome.post_done ?_
  rw [replaceCurrent_wrapPage hget₁ howner₁]
  exact ⟨hspares.page, hspares.chunk⟩

/-- Retiring the open page, opening another one and claiming a range on it. -/
lemma spares_findPage (ho : Owned w.idle) (hget : w.pools.get id = some p)
    (howner : p.owner = .chunkPool l c) (halign : IsPowerOfTwo align)
    (hclass : sizeClass p.pageSize size align = .packed) :
    (World.findPage id size align reply 2 w).Post (fun _ w' => w.Spares w')
      fun w' => w.Spares w' := by
  cases hroom : p.room size align with
  | some o =>
      obtain ⟨q, -, heq⟩ := claimRange_eq ho hget hroom
      rw [findPage_open hget hroom, heq]
      exact Outcome.post_done (Spares.of_mem_eq rfl)
  | none =>
      have hclose : Moves w.idle (w.replaceCurrent id none).idle := custody_closeCurrent ho hget
      obtain ⟨p₁, hget₁, howner₁, -⟩ := owner_closeCurrent ho hget howner
      have hfirst := spares_closeCurrent ho hget
      have hopened : ((w.replaceCurrent id none).openNewPage id reply).Post
          (fun _ w' => w.Spares w') fun w' => w.Spares w' :=
        (spares_openNewPage (ho.moves hclose) hget₁ howner₁).mono
          (fun _ w' h => hfirst.trans h ledger_replaceCurrent)
          fun w' h => hfirst.trans h ledger_replaceCurrent
      cases hopen : (w.replaceCurrent id none).openNewPage id reply with
      | refused =>
          rw [findPage_retire hget hroom, hopen]
          trivial
      | panicked w₂ =>
          rw [findPage_retire hget hroom, hopen]
          rw [hopen] at hopened
          exact hopened
      | done x w₂ =>
          rw [hopen] at hopened
          obtain ⟨a, fresh, k, p₂, q, -, -, -, -, -, hfind⟩ :=
            findPage_opened ho hget howner halign hclass hroom hopen
          rw [hfind 0]
          exact Outcome.post_done ⟨hopened.page, hopened.chunk⟩

lemma spares_allocateAligned (ho : Owned w.idle) (hget : w.pools.get id = some p)
    (howner : p.owner = .chunkPool l c) :
    (w.allocateAligned id tenant p size align reply).Post (fun _ w' => w.Spares w')
      fun w' => w.Spares w' := by
  have hmem : ∀ w₁ : World, w₁.mem = w.mem → w.Spares w₁ := fun w₁ h => Spares.of_mem_eq h
  unfold World.allocateAligned
  split
  · rename_i halign
    split
    · exact Outcome.post_done (hmem _ rfl)
    · rename_i hclass
      exact Outcome.Post.bind (spares_findPage ho hget howner halign hclass)
        fun r w₁ h => Outcome.post_done ⟨h.page, h.chunk⟩
    · exact Outcome.Post.bind (spares_allocateRawPage ho)
        fun a w₁ h => Outcome.post_done ⟨h.page, h.chunk⟩
    · apply World.post_allocateOversized
      · intro _ a hsupplies
        have hspares : w.Spares (w.provide .heap ⟨size, max align defaultAlign⟩ a) :=
          ho.spares_of_supplies hsupplies fun x hx => zero_of_outside hx
        exact Outcome.post_done ⟨hspares.page, hspares.chunk⟩
      · exact fun _ => hmem _ rfl
  · exact Outcome.post_panicked (hmem _ rfl)

end Allocations

/-! ## Writes through builders -/

section Writes

variable {w : World} {i j pos : ℕ} {data : List UInt8}

lemma Owned.keepsPage_of_page {h g : PageHandle} (ho : Owned w.idle) (hj : w.pages.get j = some g)
    (hi : w.pages.get i = some h) (hji : j ≠ i) (hle : pos + data.length ≤ h.capacity) :
    g.Keeps w.mem (write w.mem (h.buf + pos) data) := by
  refine ho.keepsPage_of_block hj (ho.mem_of_page hi).1 (fun heq => ?_) fun x hx => ?_
  · injection heq with hbuf _ horigin
    injection horigin with hpool
    exact hji (ho.eq_of_buf_eq hi hj (by rw [hbuf, hpool]))
  · dsimp only at hx
    exact write_of_outside (by omega)

lemma Owned.keepsPage_of_chunk {g : PageHandle} {h : ChunkHandle} {a : ℕ} (ho : Owned w.idle)
    (hj : w.pages.get j = some g) (hi : w.chunks.get i = some h) (hbase : h.base = some a)
    (hle : pos + data.length ≤ h.capacity) : g.Keeps w.mem (write w.mem (a + pos) data) := by
  obtain ⟨arc, harc, rfl⟩ := Option.map_eq_some_iff.1 hbase
  have hpage := ho.references.chunk i h arc hi harc
  have hrange : h.offset + h.capacity ≤ arc.page.size w.pools := ho.range_of_chunk hi harc
  refine ho.keepsPage_of_block hj (ho.mem_of_packed hpage).1 (fun heq => ?_) fun x hx => ?_
  · rw [page_of_block heq.symm] at hpage
    exact (ho.packed_unheld hpage).2 j g hj rfl
  · rw [base_block, size_block] at hx
    dsimp only at hx
    exact write_of_outside (by omega)

lemma Owned.keepsChunk_of_page {h : PageHandle} {g : ChunkHandle} (ho : Owned w.idle)
    (hj : w.chunks.get j = some g) (hi : w.pages.get i = some h)
    (hle : pos + data.length ≤ h.capacity) :
    g.Keeps w.mem (write w.mem (h.buf + pos) data) := by
  refine ho.keeps_of_block hj (ho.mem_of_page hi).1 (fun arc harc heq => ?_) fun x hx => ?_
  · have hpage := ho.references.chunk j g arc hj harc
    rw [page_of_block heq] at hpage
    exact (ho.packed_unheld hpage).2 i h hi rfl
  · dsimp only at hx
    exact write_of_outside (by omega)

end Writes

/-! ## Operations -/

/-- The operation is one on the page `i`. -/
def Op.OnPage (i : ℕ) : Op → Prop
  | .appendPage j _ => j = i
  | .setLenPage j _ => j = i
  | .writePage j _ _ => j = i
  | .sealPage j => j = i
  | .clonePage j => j = i
  | .dropPage j => j = i
  | _ => False

/-- Of all pages for which `P` and all chunks for which `Q` nothing has changed in `w'`, their bytes
included; of the chunks only if they are not on a page of `2 ^ 32` bytes or more.  No handle is
new. -/
structure World.Frame (P Q : ℕ → Prop) (w w' : World) : Prop where
  nextPage : w'.pages.next = w.pages.next
  page : ∀ i, P i → w'.pages.get i = w.pages.get i
  keepsPage : ∀ i h, P i → w.pages.get i = some h → h.Keeps w.mem w'.mem
  nextChunk : w'.chunks.next = w.chunks.next
  chunk : ∀ i, Q i → w'.chunks.get i = w.chunks.get i
  keepsChunk : ∀ i h, Q i → w.chunks.get i = some h → h.OnSmallPage w.pools → h.Keeps w.mem w'.mem

section Frame

variable {w w' : World} {P Q : ℕ → Prop} {op : Op} {i : ℕ} {α : Type}

/-- The handles have not changed at all. -/
lemma World.Spares.frame (hs : w.Spares w') (hledger : w'.ledger = w.ledger) :
    w.Frame P Q w' where
  nextPage := congrArg (fun l => l.pages.next) hledger
  page i _ := congrArg (fun l => l.pages.get i) hledger
  keepsPage i h _ hget := hs.page i h hget
  nextChunk := congrArg (fun l => l.chunks.next) hledger
  chunk i _ := congrArg (fun l => l.chunks.get i) hledger
  keepsChunk i h _ hget _ := hs.chunk i h hget

/-- A program that spares all handles and leaves the ledger alone. -/
lemma frame_of_keepsLedger {o : Outcome World α}
    (hs : o.Post (fun _ w' => w.Spares w') fun w' => w.Spares w') (hledger : KeepsLedger w o)
    (hfinal : o.final = some w') : w.Frame P Q w' := by
  have hboth := Outcome.Post.and hs hledger
  exact Outcome.Post.final (P := fun w' => w.Frame P Q w')
    (hboth.mono (fun _ _ h => h.1.frame h.2) fun _ h => h.1.frame h.2) hfinal

/-- The page `i` is replaced. -/
lemma World.Spares.frame_setPage {h : PageHandle} (hs : w.Spares w')
    (hledger : w'.ledger = { w.ledger with pages := w.pages.set i h }) :
    w.Frame (fun j => ¬ i = j) Q w' where
  nextPage := congrArg (fun l => l.pages.next) hledger
  page j hj := by
    rw [show w'.pages = w.pages.set i h from congrArg Ledger.pages hledger,
      Arena.get_set_of_ne (Ne.symm hj)]
  keepsPage j h _ hget := hs.page j h hget
  nextChunk := congrArg (fun l => l.chunks.next) hledger
  chunk j _ := congrArg (fun l => l.chunks.get j) hledger
  keepsChunk j h _ hget _ := hs.chunk j h hget

/-- The chunk `i` is replaced. -/
lemma World.Spares.frame_setChunk {h : ChunkHandle} (hs : w.Spares w')
    (hledger : w'.ledger = { w.ledger with chunks := w.chunks.set i h }) :
    w.Frame P (fun j => ¬ i = j) w' where
  nextPage := congrArg (fun l => l.pages.next) hledger
  page j _ := congrArg (fun l => l.pages.get j) hledger
  keepsPage j h _ hget := hs.page j h hget
  nextChunk := congrArg (fun l => l.chunks.next) hledger
  chunk j hj := by
    rw [show w'.chunks = w.chunks.set i h from congrArg Ledger.chunks hledger,
      Arena.get_set_of_ne (Ne.symm hj)]
  keepsChunk j h _ hget _ := hs.chunk j h hget

lemma frame_pages_set {h : PageHandle} :
    w.Frame (fun j => ¬ i = j) Q { w with pages := w.pages.set i h } := by
  have hspares : w.Spares { w with pages := w.pages.set i h } := Spares.of_mem_eq rfl
  exact hspares.frame_setPage (h := h) rfl

lemma frame_chunks_set {h : ChunkHandle} :
    w.Frame P (fun j => ¬ i = j) { w with chunks := w.chunks.set i h } := by
  have hspares : w.Spares { w with chunks := w.chunks.set i h } := Spares.of_mem_eq rfl
  exact hspares.frame_setChunk (h := h) rfl

/-- A write to the page `i`, which gets a new length with it or not. -/
lemma frame_writePage {h : PageHandle} {pos : ℕ} {data : List UInt8} (ho : Owned w.idle)
    (hget : w.pages.get i = some h) (hle : pos + data.length ≤ h.capacity)
    (hmem : w'.mem = write w.mem (h.buf + pos) data) (hchunks : w'.chunks = w.chunks)
    (hnext : w'.pages.next = w.pages.next)
    (hpages : ∀ j, j ≠ i → w'.pages.get j = w.pages.get j) :
    w.Frame (fun j => ¬ i = j) Q w' where
  nextPage := hnext
  page j hj := hpages j (Ne.symm hj)
  keepsPage j g hj hget' := by
    rw [hmem]
    exact ho.keepsPage_of_page hget' hget (Ne.symm hj) hle
  nextChunk := by rw [hchunks]
  chunk j _ := by rw [hchunks]
  keepsChunk j g _ hget' _ := by
    rw [hmem]
    exact ho.keepsChunk_of_page hget' hget hle

/-- A write to the chunk `i`, which gets a new length with it or not. -/
lemma frame_writeChunk {h : ChunkHandle} {pos : ℕ} {data : List UInt8} (ho : Owned w.idle)
    (hr : Ranges w.pools w.chunks) (hget : w.chunks.get i = some h)
    (hle : pos + data.length ≤ h.capacity) (hmem : w'.mem = (w.storeChunk h pos data).mem)
    (hpages : w'.pages = w.pages) (hnext : w'.chunks.next = w.chunks.next)
    (hchunks : ∀ j, j ≠ i → w'.chunks.get j = w.chunks.get j) :
    w.Frame P (fun j => ¬ i = j) w' where
  nextPage := by rw [hpages]
  page j _ := by rw [hpages]
  keepsPage j g _ hget' := by
    rw [hmem, World.storeChunk]
    split
    · exact fun x _ _ => rfl
    · rename_i a hbase
      exact ho.keepsPage_of_chunk hget' hget hbase hle
  nextChunk := hnext
  chunk j hj := hchunks j (Ne.symm hj)
  keepsChunk j g hj hget' hsmall := by
    rw [hmem, World.storeChunk]
    split
    · exact ChunkHandle.Keeps.refl
    · rename_i a hbase
      exact ho.keeps_of_builder hr hget' hsmall hget (Ne.symm hj) hbase hle

/-- The drop of a page handle. -/
lemma frame_dropPage {h : PageHandle} (ho : Owned w.idle) (hget : w.pages.get i = some h) :
    w.Frame (fun j => ¬ i = j) Q (w.dropPage i h) := by
  have hrelease : w.Frame (fun j => ¬ i = j) Q
      (({ w with pages := w.pages.erase i } : World).releasePage h) := by
    have hremove : Moves w.idle ⟨{ w with pages := w.pages.erase i }, (h.pool, h.buf) ::ₘ 0,
        h.pool ::ₘ 0, 0⟩ := .single (.removePage hget)
    have haccount := hremove.tail (.account (Function.update w.tenants h.tenant
      ((w.tenants h.tenant).recordRelease h.capacity)) w.chunkStats w.made)
    have hspares := spares_release (ho.moves haccount)
    have hledger := ledger_releasePage (w := w) (i := i) (h := h)
    have herase : ∀ j, ¬ i = j → (w.pages.erase i).get j = w.pages.get j :=
      fun j hj => if_neg (Ne.symm hj)
    unfold World.releasePage at hledger ⊢
    constructor
    case nextPage => exact congrArg (fun l => l.pages.next) hledger
    case page => exact fun j hj => (congrArg (fun l => l.pages.get j) hledger).trans (herase j hj)
    case keepsPage => exact fun j g hj hget' => hspares.page j g ((herase j hj).trans hget')
    case nextChunk => exact congrArg (fun l => l.chunks.next) hledger
    case chunk => exact fun j _ => congrArg (fun l => l.chunks.get j) hledger
    case keepsChunk => exact fun j g _ hget' _ => hspares.chunk j g hget'
  unfold World.dropPage
  split
  · exact hrelease
  · exact hrelease
  · exact frame_pages_set

/-- The drop of a chunk handle. -/
lemma frame_dropChunk {h : ChunkHandle} (ho : Owned w.idle) (hget : w.chunks.get i = some h) :
    w.Frame P (fun j => ¬ i = j) (w.dropChunk i h) := by
  have hrelease : w.Frame P (fun j => ¬ i = j)
      (({ w with chunks := w.chunks.erase i } : World).releaseChunk h) := by
    have hremove : Moves w.idle ⟨{ w with chunks := w.chunks.erase i }, 0, 0,
        heldIds h.packed + 0⟩ := .single (.removeChunk hget)
    have haccount := hremove.tail (.account (Function.update w.tenants h.tenant
      ((w.tenants h.tenant).recordChunkRelease h.capacity)) (Function.update w.chunkStats h.pool
      ((w.chunkStats h.pool).recordRelease h.oversizedBytes)) w.made)
    have hspares := spares_dropOptional (ho.moves haccount)
    have hledger := ledger_releaseChunk (w := w) (i := i) (h := h)
    have herase : ∀ j, ¬ i = j → (w.chunks.erase i).get j = w.chunks.get j :=
      fun j hj => if_neg (Ne.symm hj)
    unfold World.releaseChunk at hledger ⊢
    constructor
    case nextPage => exact congrArg (fun l => l.pages.next) hledger
    case page => exact fun j _ => congrArg (fun l => l.pages.get j) hledger
    case keepsPage => exact fun j g _ hget' => hspares.page j g hget'
    case nextChunk => exact congrArg (fun l => l.chunks.next) hledger
    case chunk =>
      exact fun j hj => (congrArg (fun l => l.chunks.get j) hledger).trans (herase j hj)
    case keepsChunk => exact fun j g hj hget' _ => hspares.chunk j g ((herase j hj).trans hget')
  unfold World.dropChunk
  split
  · exact hrelease
  · exact hrelease
  · exact frame_chunks_set

/-- The operation allocates a handle. -/
def Op.Allocates : Op → Prop
  | .allocatePage _ _ _ => True
  | .allocateChunk _ _ _ _ _ => True
  | _ => False

/-- **An operation spares every handle that it is not called on.** -/
theorem frame_step (ho : Owned w.idle) (hr : Ranges w.pools w.chunks) (hop : op.Primitive)
    (hold : ¬ op.Allocates) (hstep : w.step op = some w') :
    w.Frame (fun i => ¬ op.OnPage i) (fun i => ¬ op.On i) w' := by
  have hmem : ∀ w' : World, w'.mem = w.mem → w.Spares w' := fun w' h => Spares.of_mem_eq h
  cases op with
  | newPagePool ps | newChunkPool ps =>
      refine frame_of_keepsLedger (o := w.newPool ps _) ?_ ?_ hstep
      · unfold World.newPool
        split <;> exact hmem _ rfl
      · unfold World.newPool
        split <;> rfl
  | prewarm id replies =>
      simp only [World.step, Option.ite_none_right_eq_some] at hstep
      obtain ⟨p, hget, hlive⟩ := exists_livePool hstep.1
      exact frame_of_keepsLedger (spares_prewarm ho hget hlive) keepsLedger_prewarm hstep.2
  | dropPool id =>
      obtain ⟨p, hget, hdrop⟩ := Option.bind_eq_some_iff.1 hstep
      unfold World.dropPool at hdrop
      split at hdrop
      · obtain rfl := Option.some.inj hdrop
        exact (hmem _ mem_dropPagePool).frame ledger_dropPagePool
      · rename_i howner
        obtain rfl := Option.some.inj hdrop
        exact (spares_dropChunkPool ho hget howner).frame ledger_dropChunkPool
      · exact absurd hdrop (by simp)
  | cloneShared id =>
      simp only [World.step, Option.ite_none_right_eq_some] at hstep
      obtain rfl := Option.some.inj hstep.2
      have hledger : (w.cloneShared id).ledger = w.ledger := ledger_cloneShared
      refine World.Spares.frame (Spares.of_mem_eq ?_) ?_
      · exact mem_cloneShared
      · exact hledger
  | dropSharedHandle id =>
      simp only [World.step, Option.ite_none_right_eq_some] at hstep
      obtain rfl := Option.some.inj hstep.2
      refine World.Spares.frame (Spares.of_mem_eq ?_) ?_
      · rw [mem_dropShared]
      · rw [ledger_dropShared]
        rfl
  | allocatePage id t reply => exact (hold trivial).elim
  | allocateChunk id t size align reply => exact (hold trivial).elim
  | appendPage i data =>
      obtain ⟨h, hi, hstep⟩ := Option.bind_eq_some_iff.1 hstep
      have hget := (World.pageBuilder_eq_some hi).1
      unfold World.appendPage at hstep
      split at hstep
      · rename_i heq
        split at heq
        · exact absurd heq (by simp)
        · rename_i hle
          obtain rfl := Except.ok.inj heq
          obtain rfl := Option.some.inj hstep
          exact frame_writePage ho hget (by omega) rfl rfl rfl fun j hj => Arena.get_set_of_ne hj
      · obtain rfl := Option.some.inj hstep
        exact (hmem _ rfl).frame rfl
  | setLenPage i len =>
      obtain ⟨h, hi, hfinal⟩ := Option.bind_eq_some_iff.1 hstep
      unfold World.setLenPage at hfinal
      split at hfinal
      · obtain rfl := Option.some.inj hfinal
        exact frame_pages_set
      · obtain rfl := Option.some.inj hfinal
        exact (hmem _ rfl).frame rfl
  | writePage i pos data =>
      obtain ⟨h, hi, hfinal⟩ := Option.bind_eq_some_iff.1 hstep
      unfold World.writePage at hfinal
      split at hfinal
      · rename_i hle
        obtain rfl := Option.some.inj hfinal
        exact frame_writePage ho (World.pageBuilder_eq_some hi).1 hle rfl rfl rfl fun j _ => rfl
      · obtain rfl := Option.some.inj hfinal
        exact (hmem _ rfl).frame rfl
  | sealPage i =>
      obtain ⟨h, hi, rfl⟩ := Option.map_eq_some_iff.1 hstep
      exact (hmem _ (sealPage_frame (World.pageBuilder_eq_some hi).1).1).frame_setPage
        ledger_sealPage
  | clonePage i =>
      obtain ⟨h, -, hclone⟩ := Option.bind_eq_some_iff.1 hstep
      unfold World.clonePage at hclone
      split at hclone
      · exact absurd hclone (by simp)
      · obtain rfl := Option.some.inj hclone
        exact frame_pages_set
  | dropPage i =>
      obtain ⟨h, hget, rfl⟩ := Option.map_eq_some_iff.1 hstep
      exact frame_dropPage ho hget
  | appendChunk i data =>
      obtain ⟨h, hi, hstep⟩ := Option.bind_eq_some_iff.1 hstep
      have hget := (World.chunkBuilder_eq_some hi).1
      unfold World.appendChunk at hstep
      split at hstep
      · rename_i heq
        split at heq
        · exact absurd heq (by simp)
        · rename_i hle
          obtain rfl := Except.ok.inj heq
          obtain rfl := Option.some.inj hstep
          have hledger : (w.storeChunk h h.len data).ledger = w.ledger := ledger_storeChunk
          refine frame_writeChunk ho hr hget (by omega) rfl (congrArg Ledger.pages hledger)
            (congrArg (fun l => l.chunks.next) hledger) fun j hj => ?_
          dsimp only
          rw [chunks_storeChunk]
          exact Arena.get_set_of_ne hj
      · obtain rfl := Option.some.inj hstep
        exact (hmem _ rfl).frame rfl
  | setLenChunk i len =>
      obtain ⟨h, hi, hfinal⟩ := Option.bind_eq_some_iff.1 hstep
      unfold World.setLenChunk at hfinal
      split at hfinal
      · obtain rfl := Option.some.inj hfinal
        exact frame_chunks_set
      · obtain rfl := Option.some.inj hfinal
        exact (hmem _ rfl).frame rfl
  | writeChunk i pos data =>
      obtain ⟨h, hi, hfinal⟩ := Option.bind_eq_some_iff.1 hstep
      unfold World.writeChunk at hfinal
      split at hfinal
      · rename_i hle
        obtain rfl := Option.some.inj hfinal
        have hledger : (w.storeChunk h pos data).ledger = w.ledger := ledger_storeChunk
        refine frame_writeChunk ho hr (World.chunkBuilder_eq_some hi).1 hle rfl
          (congrArg Ledger.pages hledger) (congrArg (fun l => l.chunks.next) hledger) fun j _ => ?_
        rw [chunks_storeChunk]
      · obtain rfl := Option.some.inj hfinal
        exact (hmem _ rfl).frame rfl
  | sealChunk i =>
      obtain ⟨h, hi, rfl⟩ := Option.map_eq_some_iff.1 hstep
      exact (hmem _ (sealChunk_frame ho (World.chunkBuilder_eq_some hi).1).1).frame_setChunk
        ledger_sealChunk
  | cloneChunk i =>
      obtain ⟨h, -, hclone⟩ := Option.bind_eq_some_iff.1 hstep
      unfold World.cloneChunk at hclone
      split at hclone
      · exact absurd hclone (by simp)
      · obtain rfl := Option.some.inj hclone
        exact frame_chunks_set
  | dropChunk i =>
      obtain ⟨h, hget, rfl⟩ := Option.map_eq_some_iff.1 hstep
      exact frame_dropChunk ho hget
  | _ => exact hop.elim

end Frame

end PagedAlloc.Sequential
