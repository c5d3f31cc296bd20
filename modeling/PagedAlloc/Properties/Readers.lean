import PagedAlloc.Properties.Isolation
import PagedAlloc.Properties.Journal

/-!
# What readers see

A reader of a live page or chunk sees the bytes up to its length.  `World.ReadsSame` says that every
handle of a world reads the same bytes in another one.  Taking a buffer or claiming a range keeps
them all: a new allocation is apart from everything that is live, the free lists are threaded
through buffers that nothing refers to, and the page that the packed path retires is given back
only if no chunk is on it.
-/

namespace PagedAlloc.Sequential

open Words Bytes Relation Transition

/-! ## Pages fit their buffers -/

/-- No page is longer than its buffer. -/
def Ledger.PagesFit (l : Ledger) : Prop := ∀ i h, l.pages.get i = some h → h.len ≤ h.capacity

section PagesFit

variable {l l' : Ledger} {es : List Entry} {i : ℕ} {w : World} {ops : List Op}

lemma Ledger.PagesFit.set {h : PageHandle} (hl : l.PagesFit) (hget : (l.pages.get i).isSome)
    (hle : h.len ≤ h.capacity) : Ledger.PagesFit { l with pages := l.pages.set i h } := by
  obtain ⟨h₀, hget⟩ := Option.isSome_iff_exists.1 hget
  intro j g hj
  dsimp only at hj
  rw [Arena.get_set hget] at hj
  split at hj
  · obtain rfl := Option.some.inj hj
    exact hle
  · exact hl j g hj

lemma Ledger.PagesFit.step (hl : l.PagesFit) (hstep : Ledger.Step es l l') : l'.PagesFit := by
  cases hstep with
  | allocatePage _ a id tenant pageSize =>
      intro j g hj
      change (l.pages.push _).get j = some g at hj
      rw [Arena.get_push] at hj
      split at hj
      · obtain rfl := Option.some.inj hj
        exact Nat.zero_le _
      · exact hl j g hj
  | fillPage _ hget hle => exact hl.set (Option.isSome_of_eq_some hget) hle
  | @sealPage _ i h hget => exact hl.set (Option.isSome_of_eq_some hget) (hl i h hget)
  | @clonePage _ i c h hget _ => exact hl.set (Option.isSome_of_eq_some hget) (hl i h hget)
  | @unsharePage _ i c h hget _ _ => exact hl.set (Option.isSome_of_eq_some hget) (hl i h hget)
  | releasePage _ hget _ => exact fun j g hj => hl j g (Arena.get_of_get_erase hj).2
  | _ => exact hl

lemma Ledger.PagesFit.steps (hl : l.PagesFit) (hsteps : Ledger.Steps es l l') : l'.PagesFit := by
  induction hsteps with
  | refl => exact hl
  | tail _ hstep ih => exact (ih hl).step hstep

lemma pagesFit_run (h : runOps ops = some w) : w.ledger.PagesFit := by
  refine Transition.run_induction (P := fun _ w => w.ledger.PagesFit) ?_ ?_ h
  · exact fun i h hget => absurd hget (by simp [World.ledger, World.init])
  · intro ops w op w' hrun ih hstep
    obtain ⟨es, hsteps, -⟩ := journal_step (owned_run hrun) hstep
    exact ih.steps hsteps

end PagesFit

/-! ## What readers see -/

/-- Every live page and chunk of `w` reads the same bytes in `w'`. -/
structure World.ReadsSame (w w' : World) : Prop where
  page : ∀ i h, w.pages.get i = some h → w'.pageSlice h = w.pageSlice h
  chunk : ∀ i h, w.chunks.get i = some h → w'.chunkSlice h = w.chunkSlice h

section ReadsSame

variable {w w' w₁ w₂ : World} {k i : ℕ} {page : PackedPage} {h : ChunkHandle}

lemma ReadsSame.of_mem_eq (hmem : w'.mem = w.mem) : w.ReadsSame w' where
  page i h hget := by
    unfold World.pageSlice
    rw [hmem]
  chunk i h hget := by
    unfold World.chunkSlice World.chunkBytes
    rw [hmem]

/-- The handles of `w` are still there in `w₁`. -/
lemma World.ReadsSame.trans (hr : w.ReadsSame w₁) (hr₁ : w₁.ReadsSame w₂)
    (hpages : ∀ i h, w.pages.get i = some h → w₁.pages.get i = some h)
    (hchunks : ∀ i h, w.chunks.get i = some h → w₁.chunks.get i = some h) : w.ReadsSame w₂ where
  page i h hget := (hr₁.page i h (hpages i h hget)).trans (hr.page i h hget)
  chunk i h hget := (hr₁.chunk i h (hchunks i h hget)).trans (hr.chunk i h hget)

lemma World.ReadsSame.trans_of_ledger (hr : w.ReadsSame w₁) (hr₁ : w₁.ReadsSame w₂)
    (hledger : w₁.ledger = w.ledger) : w.ReadsSame w₂ := by
  refine hr.trans hr₁ (fun i h hget => ?_) fun i h hget => ?_
  · rwa [show w₁.pages = w.pages from congrArg Ledger.pages hledger]
  · rwa [show w₁.chunks = w.chunks from congrArg Ledger.chunks hledger]

/-- A page in another buffer reads the same. -/
lemma pageSlice_of_block {b : Block} {g : PageHandle}
    (hfit : w.ledger.PagesFit) (hget : w.pages.get i = some g)
    (hapart : Apart b.base b.layout.size g.buf g.capacity)
    (hagree : ∀ x : ℕ, x < b.base ∨ b.base + b.layout.size ≤ x → w'.mem x = w.mem x) :
    w'.pageSlice g = w.pageSlice g := by
  have hlen := hfit i g hget
  apply read_congr
  intro x hlow hhigh
  apply hagree
  unfold Apart at hapart
  omega

/-- Nothing but a new allocation has changed. -/
lemma Owned.readsSame_of_supplies {l : Layout} {a : ℕ} (ho : Owned w.idle)
    (hfit : w.ledger.PagesFit) (hsupplies : w.Supplies l a)
    (hagree : ∀ x : ℕ, x < a ∨ a + l.size ≤ x → w'.mem x = w.mem x) : w.ReadsSame w' where
  page i g hget := by
    have hapart := hsupplies.2.2.2 _ (ho.mem_of_page hget).1
    exact pageSlice_of_block (b := ⟨a, l, .heap⟩) hfit hget hapart hagree
  chunk i h hget :=
    chunkSlice_of_keeps (ho.fits.chunk i h hget).len (ho.keeps_of_supplies hget hsupplies hagree)

/-- Nothing but the buffer of one packed page has changed. -/
lemma Owned.readsSame_of_packed (ho : Owned w.idle) (hfit : w.ledger.PagesFit)
    (hpage : pageOf w.packed k = some page)
    (hagree : ∀ x : ℕ, x < page.buf ∨ page.buf + page.size w.pools ≤ x → w'.mem x = w.mem x)
    (hsame : ∀ i h arc, w.chunks.get i = some h → h.packed = some arc → arc.id = k →
      w'.chunkSlice h = w.chunkSlice h) : w.ReadsSame w' := by
  have hmem := (ho.mem_of_packed hpage).1
  have hbase : (page.block w.pools).base = page.buf := base_block
  have hsize : (page.block w.pools).layout.size = page.size w.pools := size_block
  rw [← hbase, ← hsize] at hagree
  constructor
  case page =>
    intro i g hget
    have hne : page.block w.pools ≠ ⟨g.buf, ⟨g.capacity, defaultAlign⟩, .pool g.pool⟩ := by
      intro heq
      rw [page_of_block heq.symm] at hpage
      exact (ho.packed_unheld hpage).2 i g hget rfl
    have hapart := ho.blocks.apart _ hmem _ (ho.mem_of_page hget).1 hne
    exact pageSlice_of_block hfit hget hapart hagree
  case chunk =>
    intro i h hget
    by_cases hon : ∃ arc, h.packed = some arc ∧ arc.id = k
    · obtain ⟨arc, harc, hid⟩ := hon
      exact hsame i h arc hget harc hid
    · refine chunkSlice_of_keeps (ho.fits.chunk i h hget).len
        (ho.keeps_of_block hget hmem (fun arc harc heq => hon ⟨arc, harc, ?_⟩) hagree)
      have hpage' := ho.references.chunk i h arc hget harc
      rw [← block_injective heq] at hpage'
      exact ho.eq_of_page_eq hpage' hpage

end ReadsSame

/-! ## Allocations write to nothing that is live -/

section Allocations

variable {w w' : World} {id tenant size align l : ℕ} {p : Pool} {reply : Option ℕ}
  {c : Option OpenPage}

lemma mem_takeBuffer : (w.takeBuffer id p reply).Post
    (fun _ w' => w'.mem = w.mem ∨
      ∃ a, w.Supplies p.layout a ∧ w'.mem = zero w.mem a p.layout.size)
    fun _ => True := by
  unfold World.takeBuffer
  split
  · exact Outcome.post_done (Or.inl rfl)
  · split
    · exact Outcome.post_done (Or.inl rfl)
    · apply World.post_sourceAllocate
      · exact fun a hsupplies => Or.inr ⟨a, hsupplies, rfl⟩
      · exact fun _ => trivial

lemma mem_accessPool {x : PoolAccess} : (w.accessPool id x).mem = w.mem := by
  unfold World.accessPool
  split <;> rfl

lemma mem_cloneShared : (w.cloneShared id).mem = w.mem := by
  unfold World.cloneShared
  split <;> rfl

lemma reads_allocateRawPage (ho : Owned w.idle) (hfit : w.ledger.PagesFit) :
    (w.allocateRawPage id reply).Post (fun _ w' => w.ReadsSame w') fun _ => True := by
  unfold World.allocateRawPage
  split
  · trivial
  · refine Outcome.Post.bind mem_takeBuffer fun a w₁ hmem => Outcome.post_done ?_
    have hsame : ((w₁.accessPool id .addPagesInUse).cloneShared id).mem = w₁.mem := by
      rw [mem_cloneShared, mem_accessPool]
    rcases hmem with hmem | ⟨b, hsupplies, hmem⟩
    · exact ReadsSame.of_mem_eq (hsame.trans hmem)
    · refine ho.readsSame_of_supplies hfit hsupplies ?_
      intro x hx
      dsimp only
      rw [hsame, hmem]
      exact zero_of_outside hx

/-- The page that is retired has no chunk on it, if it is given back. -/
lemma Retired.reads (h : Retired w id p l c w') (ho : Owned w.idle) (ho' : Owned w'.idle)
    (hfit : w.ledger.PagesFit) (hget : w.pools.get id = some p) (howner : p.owner = .chunkPool l c) :
    w.ReadsSame w' := by
  cases h with
  | none => exact ReadsSame.of_mem_eq rfl
  | shared hq hne => exact ReadsSame.of_mem_eq rfl
  | @last o hne =>
      have hcurrent : p.owner.current = some o := by
        rw [howner]
        rfl
      obtain ⟨hpage, hrelease⟩ := ho.references.current id p o hget hcurrent
      refine ho.readsSame_of_packed hfit hpage (fun x hx => ?_) fun i h arc hi harc hid => ?_
      · rw [size_of_pool hget hrelease] at hx
        have hsize := (ho.blocks.pageSize id p hget).1
        unfold defaultAlign at hsize
        exact writePtr_of_outside (by omega)
      · have hpage' := ho'.references.chunk i h arc hi harc
        rw [hid] at hpage'
        exact absurd hpage' (by simp [pageOf, Arena.get_erase_self])

lemma reads_openNewPage (ho : Owned w.idle) (hfit : w.ledger.PagesFit)
    (hget : w.pools.get id = some p) (howner : p.owner = .chunkPool l none) :
    (w.openNewPage id reply).Post (fun _ w' => w.ReadsSame w') fun _ => True := by
  have hlive := Owner.live_of_chunkPool howner
  have hboth := Outcome.Post.and (o := w.allocateRawPage id reply)
    (custody_allocateRawPage hget hlive) (reads_allocateRawPage ho hfit)
  refine Outcome.Post.bind hboth.returns ?_
  rintro a w₁ ⟨⟨-, p₁, hget₁, -, l', howner₁⟩, hreads⟩
  rw [howner] at howner₁
  refine Outcome.post_done ?_
  rw [replaceCurrent_wrapPage hget₁ howner₁]
  exact ⟨hreads.page, hreads.chunk⟩

/-- Where `allocate_packed` puts a chunk: behind the cursor of the open page if it has room there,
else on a page without chunks. -/
lemma claimed_findPage (ho : Owned w.idle) (hr : Ranges w.pools w.chunks)
    (hfit : w.ledger.PagesFit) (hget : w.pools.get id = some p) (howner : p.owner = .chunkPool l c)
    (halign : IsPowerOfTwo align) (hclass : sizeClass p.pageSize size align = .packed) :
    (World.findPage id size align reply 2 w).Post
      (fun r w' => w.ReadsSame w' ∧
        (∃ p' o, w'.pools.get id = some p' ∧ p'.owner.current = some o ∧ o.shared = r.1 ∧
          o.writeOffset = r.2 + size) ∧
        ((∃ o, p.room size align = some o ∧ r = (o.shared, o.alignedOffset align)) ∨
          p.room size align = none ∧
            ∀ i h arc, w.chunks.get i = some h → h.packed = some arc → arc.id ≠ r.1.id))
      fun _ => True := by
  -- The cursor after the claim.
  have hclaim {w₁ : World} {p₁ : Pool} {o : OpenPage}
      (ho₁ : Owned w₁.idle) (hget₁ : w₁.pools.get id = some p₁)
      (hroom : p₁.room size align = some o) : ∃ p' o',
      (w₁.pools.set id (p₁.claim o size align)).get id = some p' ∧
        p'.owner.current = some o' ∧ o'.shared = o.shared ∧
        o'.writeOffset = o.alignedOffset align + size := by
    have hcurrent := (le_of_room (ho₁.blocks.pageSize id p₁ hget₁).2 hroom).1
    exact ⟨_, _, Arena.get_set_self hget₁, Owner.current_setCurrent hcurrent, rfl, rfl⟩
  cases hroom : p.room size align with
  | some o =>
      obtain ⟨q, -, heq⟩ := claimRange_eq ho hget hroom
      rw [findPage_open hget hroom, heq]
      exact Outcome.post_done ⟨ReadsSame.of_mem_eq rfl, hclaim ho hget hroom,
        Or.inl ⟨o, rfl, rfl⟩⟩
  | none =>
      have hretire := retired_replaceCurrent ho hget howner
      have hclose : Moves w.idle (w.replaceCurrent id none).idle := custody_closeCurrent ho hget
      obtain ⟨p₁, hget₁, howner₁, -⟩ := owner_closeCurrent ho hget howner
      have hledger₁ : (w.replaceCurrent id none).ledger = w.ledger := ledger_replaceCurrent
      have hreads₁ := hretire.reads ho (ho.moves hclose) hfit hget howner
      have hopened := Outcome.Post.and (o := (w.replaceCurrent id none).openNewPage id reply)
        (reads_openNewPage (ho.moves hclose) (by rwa [hledger₁]) hget₁ howner₁)
        keepsLedger_openNewPage.returns
      cases hopen : (w.replaceCurrent id none).openNewPage id reply with
      | refused =>
          rw [findPage_retire hget hroom, hopen]
          trivial
      | panicked w₂ =>
          rw [findPage_retire hget hroom, hopen]
          trivial
      | done x w₂ =>
          rw [hopen] at hopened
          obtain ⟨hreads₂, hledger₂⟩ := hopened
          obtain ⟨a, fresh, k, p₂, q, hmoves, hget₂, -, hroom₂, -, hfind⟩ :=
            findPage_opened ho hget howner halign hclass hroom hopen
          have ho₂ := ho.moves hmoves
          have hreads := hreads₁.trans_of_ledger hreads₂ hledger₁
          rw [hfind 0]
          refine Outcome.post_done ⟨⟨hreads.page, hreads.chunk⟩,
            hclaim ho₂ hget₂ hroom₂,
            Or.inr ⟨rfl, fun i h arc hi harc hid => ?_⟩⟩
          -- A chunk on the page would end below its cursor, which is at the start.
          have hi₂ : w₂.chunks.get i = some h := by
            rw [show w₂.chunks = w.chunks from congrArg Ledger.chunks (hledger₂.trans hledger₁)]
            exact hi
          have hcurrent₂ := (le_of_room (ho₂.blocks.pageSize id p₂ hget₂).2 hroom₂).1
          have hbelow := (hr.moves ho hmoves).below i h arc id p₂ _ hi₂ harc hget₂ hcurrent₂ hid
          have hpos := ((ho₂.fits.chunk i h hi₂).range arc harc).1
          dsimp only at hbelow
          omega

/-- What the chunk of an allocation that led from `w` to `w'` holds, in its size class. -/
def Holds (w w' : World) (id : ℕ) (p : Pool) (h : ChunkHandle) : SizeClass → Prop
  | .zero => h.packed = none
  | .packed =>
      (∃ p' o, w'.pools.get id = some p' ∧ p'.owner.current = some o ∧ h.packed = some o.shared ∧
        o.writeOffset = h.request.offset + h.request.size) ∧
      ((∃ o, p.room h.request.size defaultAlign = some o ∧ h.packed = some o.shared ∧
          h.request.offset = o.alignedOffset defaultAlign) ∨
        p.room h.request.size defaultAlign = none ∧
          ∀ i g arc arc', w.chunks.get i = some g → g.packed = some arc → h.packed = some arc' →
            arc.id ≠ arc'.id)
  | .dedicated => (∃ k a, h.packed = some ⟨k, ⟨a, .pool id⟩⟩ ∧
      w'.packed.get k = some ⟨⟨a, .pool id⟩, 1⟩) ∧
      ∃ p', w'.pools.get id = some p' ∧ p'.owner.Live
  | .oversized => ∃ k a layout, h.packed = some ⟨k, ⟨a, .heap layout⟩⟩ ∧
      w'.packed.get k = some ⟨⟨a, .heap layout⟩, 1⟩ ∧ w'.blocks = ⟨a, layout, .heap⟩ ::ₘ w.blocks

/-- **What an allocation leaves**: a new builder, and everything that was live reads the same. -/
lemma issued_allocateChunk (tenant size : ℕ) (reply : Option ℕ) (ho : Owned w.idle)
    (hr : Ranges w.pools w.chunks) (hfit : w.ledger.PagesFit) (hget : w.pools.get id = some p)
    (howner : p.owner = .chunkPool l c) :
    (w.allocateChunk id tenant p size reply).Post
      (fun i w' => i = w.chunks.next ∧ ∃ q offset,
        w'.ledger = w.ledger.addChunk (newBuilder id tenant size
          (sizeClass p.pageSize size defaultAlign) q offset) ∧
        w.ReadsSame w' ∧
        Holds w w' id p (newBuilder id tenant size (sizeClass p.pageSize size defaultAlign) q offset)
          (sizeClass p.pageSize size defaultAlign))
      fun _ => True := by
  have halign : IsPowerOfTwo defaultAlign := ⟨3, by decide, rfl⟩
  unfold World.allocateChunk World.allocateAligned
  rw [if_pos halign]
  cases hclass : sizeClass p.pageSize size defaultAlign with
  | zero =>
      obtain rfl := sizeClass_eq_zero.1 hclass
      exact Outcome.post_done ⟨rfl, none, 0, rfl, ReadsSame.of_mem_eq rfl, rfl⟩
  | packed =>
      have hboth := Outcome.Post.and (o := World.findPage id size defaultAlign reply 2 w)
        (claimed_findPage ho hr hfit hget howner halign hclass)
        (keepsLedger_findPage 2).returns
      refine Outcome.Post.bind hboth.returns ?_
      rintro ⟨arc, offset⟩ w₁ ⟨⟨hreads, ⟨p₁, o, hget₁, hcurrent, hshared, hoffset⟩, hplace⟩, hledger⟩
      refine Outcome.post_done ⟨congrArg (fun l => l.chunks.next) hledger, some arc, offset, ?_,
        ⟨hreads.page, hreads.chunk⟩, ⟨p₁, o, hget₁, hcurrent, ?_, hoffset⟩, ?_⟩
      · rw [← hledger]
        rfl
      · exact congrArg some hshared.symm
      · rcases hplace with ⟨o₀, hroom, heq⟩ | ⟨hroom, hnone⟩
        · obtain ⟨rfl, rfl⟩ := Prod.mk.inj heq
          exact Or.inl ⟨o₀, hroom, rfl, rfl⟩
        · refine Or.inr ⟨hroom, fun i g arc₁ arc' hi harc harc' => ?_⟩
          obtain rfl := Option.some.inj harc'
          exact hnone i g arc₁ hi harc
  | dedicated =>
      have hlive := Owner.live_of_chunkPool howner
      have hboth := (Outcome.Post.and (o := w.allocateRawPage id reply)
        (reads_allocateRawPage ho hfit) keepsLedger_allocateRawPage).and
        (custody_allocateRawPage hget hlive)
      refine Outcome.Post.bind hboth.returns ?_
      rintro a w₁ ⟨⟨hreads, hledger⟩, -, p₁, hget₁, -, l', howner₁⟩
      refine Outcome.post_done ⟨congrArg (fun l => l.chunks.next) hledger, _, 0, ?_,
        ⟨hreads.page, hreads.chunk⟩, ⟨_, a, rfl, Arena.get_push_self⟩, p₁, hget₁, ?_⟩
      · rw [← hledger]
        rfl
      · rw [howner₁]
        exact Owner.live_setLocalHead hlive
  | oversized =>
      refine World.post_allocateOversized (fun _ a hsupplies => ?_) fun _ => trivial
      refine Outcome.post_done ⟨rfl, _, 0, rfl, ?_, _, a, _, rfl, Arena.get_push_self, rfl⟩
      exact ho.readsSame_of_supplies hfit hsupplies fun x hx => zero_of_outside hx

end Allocations

end PagedAlloc.Sequential
