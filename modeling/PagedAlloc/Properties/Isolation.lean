import PagedAlloc.Properties.Ranges

/-!
# Isolation of chunks

Whatever happens after a chunk is sealed, its bytes stay what they were: no write through another
builder, no link of a free list and no page that is opened, closed or given back reaches them
(`chunk_isolation`).

Every write of the crate goes into a buffer that the writer holds (`Owned`), and a buffer has one
holder, so a write either goes to another buffer than the one the chunk is in, or it is a write
through another builder on the same page, whose range is apart from that of the chunk (`Ranges`).
-/

namespace PagedAlloc.Sequential

open Words Bytes Transition

/-! ## One holder for every buffer -/

section Holders

variable {c : Config} {i k k' id a : ℕ} {page : PackedPage} {p : Pool}

/-- A packed page is not in the buffer of a page handle, and not in a buffer in hand. -/
lemma Owned.packed_unheld (ho : Owned c) (hpage : pageOf c.world.packed k = some ⟨a, .pool id⟩) :
    (id, a) ∉ c.buffers ∧ ∀ i h, c.world.pages.get i = some h → (h.pool, h.buf) ≠ (id, a) := by
  obtain ⟨p, hp⟩ := ho.references.pool_of_packed hpage
  have hholders := ho.holders_le_one hp a
  have hone := one_le_sum_packed hpage
  unfold holders at hholders
  constructor
  · intro hmem
    have hpos := Multiset.count_pos.2 hmem
    omega
  · intro i h hi heq
    have hle := Arena.le_sum (f := fun g : PageHandle =>
      if (id, a) = (g.pool, g.buf) then 1 else 0) hi
    rw [if_pos heq.symm] at hle
    omega

/-- No two packed pages are in one buffer. -/
lemma Owned.eq_of_page_eq (ho : Owned c) (hpage : pageOf c.world.packed k = some page)
    (hpage' : pageOf c.world.packed k' = some page) : k = k' := by
  by_contra hne
  obtain ⟨q, hq, rfl⟩ := Option.map_eq_some_iff.1 hpage
  obtain ⟨q', hq', hsame⟩ := Option.map_eq_some_iff.1 hpage'
  have hsum := Arena.add_le_sum (f := fun r : PackedInner => if r.page = q.page then 1 else 0)
    hq hq' hne
  rw [if_pos rfl, if_pos hsame] at hsum
  cases hrelease : q.page.release with
  | pool id =>
      have hpool : q.page = ⟨q.page.buf, .pool id⟩ := by rw [← hrelease]
      rw [hpool] at hpage hsum
      obtain ⟨p, hp⟩ := ho.references.pool_of_packed hpage
      have hholders := ho.holders_le_one hp q.page.buf
      unfold holders at hholders
      omega
  | heap l =>
      have hheap : q.page = ⟨q.page.buf, .heap l⟩ := by rw [← hrelease]
      rw [hheap] at hsum
      have hcount := ho.places.heap q.page.buf l
      have hnodup := Multiset.nodup_iff_count_le_one.1 ho.blocks.nodup ⟨q.page.buf, l, .heap⟩
      omega

end Holders

/-! ## Writes around a chunk -/

/-- The bytes of the chunk are the same in both memories. -/
def ChunkHandle.Keeps (h : ChunkHandle) (mem mem' : Memory) : Prop :=
  ∀ a, h.base = some a → ∀ x, a ≤ x → x < a + h.capacity → mem' x = mem x

section Keeps

variable {c c' : Config} {i j id : ℕ} {h g : ChunkHandle} {arc : PackedArc} {mem mem' : Memory}

lemma ChunkHandle.Keeps.refl : h.Keeps mem mem := fun _ _ _ _ _ => rfl

/-- A write to a range that is apart from the page of the chunk. -/
lemma Owned.keeps_of_apart {b n : ℕ} (ho : Owned c) (hget : c.world.chunks.get i = some h)
    (hapart : ∀ arc, h.packed = some arc → Apart b n arc.page.buf (arc.page.size c.world.pools))
    (hagree : ∀ x : ℕ, x < b ∨ b + n ≤ x → mem' x = mem x) : h.Keeps mem mem' := by
  intro a hbase x hlow hhigh
  obtain ⟨arc, harc, rfl⟩ := Option.map_eq_some_iff.1 hbase
  have hrange := ho.range_of_chunk hget harc
  have hpage := hapart arc harc
  apply hagree
  unfold Apart at hpage
  omega

/-- A write to a new allocation. -/
lemma Owned.keeps_of_supplies {l : Layout} {a : ℕ} (ho : Owned c)
    (hget : c.world.chunks.get i = some h) (hsupplies : c.world.Supplies l a)
    (hagree : ∀ x : ℕ, x < a ∨ a + l.size ≤ x → mem' x = mem x) : h.Keeps mem mem' := by
  apply ho.keeps_of_apart hget _ hagree
  intro arc harc
  have hmem := (ho.mem_of_packed (ho.references.chunk i h arc hget harc)).1
  have hapart := hsupplies.2.2.2 _ hmem
  rwa [base_block, size_block] at hapart

/-- A write to another live buffer. -/
lemma Owned.keeps_of_block {b : Block} (ho : Owned c) (hget : c.world.chunks.get i = some h)
    (hmem : b ∈ c.world.blocks)
    (hne : ∀ arc, h.packed = some arc → b ≠ arc.page.block c.world.pools)
    (hagree : ∀ x : ℕ, x < b.base ∨ b.base + b.layout.size ≤ x → mem' x = mem x) :
    h.Keeps mem mem' := by
  apply ho.keeps_of_apart hget _ hagree
  intro arc harc
  have hpage := (ho.mem_of_packed (ho.references.chunk i h arc hget harc)).1
  have hapart := ho.blocks.apart b hmem _ hpage (hne arc harc)
  rwa [base_block, size_block] at hapart

lemma block_injective {pools : Arena Pool} {page page' : PackedPage}
    (heq : page.block pools = page'.block pools) : page = page' := by
  obtain ⟨a, r⟩ := page
  obtain ⟨a', r'⟩ := page'
  cases r with
  | pool id =>
      cases r' with
      | pool id' =>
          obtain ⟨rfl, -, horigin⟩ := Block.mk.inj heq
          rw [Origin.pool.inj horigin]
      | heap l' => exact absurd (Block.mk.inj heq).2.2 (by simp)
  | heap l =>
      cases r' with
      | pool id' => exact absurd (Block.mk.inj heq).2.2 (by simp)
      | heap l' =>
          obtain ⟨rfl, rfl, -⟩ := Block.mk.inj heq
          rfl

lemma page_of_block {pools : Arena Pool} {page : PackedPage} {l : Layout} {a : ℕ}
    (heq : (⟨a, l, .pool id⟩ : Block) = page.block pools) : page = ⟨a, .pool id⟩ := by
  obtain ⟨b, r⟩ := page
  cases r with
  | pool j =>
      obtain ⟨rfl, -, horigin⟩ := Block.mk.inj heq
      rw [Origin.pool.inj horigin]
  | heap l' => exact absurd (Block.mk.inj heq).2.2 (by simp)

/-- A link stored in a buffer in hand. -/
lemma Owned.keeps_of_hand {w : World} {B : Multiset (ℕ × ℕ)} {S P : Multiset ℕ} {p : Pool}
    {a v : ℕ} (ho : Owned ⟨w, (id, a) ::ₘ B, S, P⟩) (hget : w.chunks.get i = some h)
    (hpool : w.pools.get id = some p) : h.Keeps w.mem (writePtr w.mem a v) := by
  have hmem : (⟨a, p.layout, .pool id⟩ : Block) ∈ w.blocks :=
    ho.places.mem_of_held hpool holders_cons_ne_zero
  apply ho.keeps_of_block hget hmem
  · intro arc harc heq
    have hpage := ho.references.chunk i h arc hget harc
    rw [page_of_block heq] at hpage
    exact (ho.packed_unheld hpage).1 (Multiset.mem_cons_self _ _)
  · intro x hx
    have hsize := (ho.blocks.pageSize id p hpool).1
    change x < a ∨ a + p.pageSize ≤ x at hx
    unfold defaultAlign at hsize
    apply writePtr_of_outside
    omega

/-- A write through another builder. -/
lemma Owned.keeps_of_builder {b pos : ℕ} {data : List UInt8} (ho : Owned c)
    (hr : Ranges c.world.pools c.world.chunks) (hi : c.world.chunks.get i = some h)
    (hsmall : h.OnSmallPage c.world.pools) (hj : c.world.chunks.get j = some g) (hij : i ≠ j)
    (hbase : g.base = some b) (hle : pos + data.length ≤ g.capacity) :
    h.Keeps c.world.mem (write c.world.mem (b + pos) data) := by
  obtain ⟨arc', harc', rfl⟩ := Option.map_eq_some_iff.1 hbase
  have hpage' := ho.references.chunk j g arc' hj harc'
  have hrange' := ho.range_of_chunk hj harc'
  by_cases hsame : h.packed = some arc'
  · -- On the same page the ranges are apart.
    intro a ha x hlow hhigh
    obtain ⟨arc, harc, rfl⟩ := Option.map_eq_some_iff.1 ha
    obtain rfl : arc' = arc := Option.some.inj (hsame.symm.trans harc)
    have hapart := ho.apart_of_chunks hr hi hj hij harc harc' hsmall
    apply write_of_outside
    unfold Apart at hapart
    omega
  · apply ho.keeps_of_block hi (ho.mem_of_packed hpage').1
    · intro arc harc heq
      have hpage := ho.references.chunk i h arc hi harc
      have hpages : arc'.page = arc.page := block_injective heq
      rw [← hpages] at hpage
      have hid := ho.eq_of_page_eq hpage hpage'
      apply hsame
      rw [harc]
      obtain ⟨k, page⟩ := arc
      obtain ⟨k', page'⟩ := arc'
      dsimp only at hid hpages
      rw [hid, hpages]
    · intro x hx
      rw [base_block, size_block] at hx
      apply write_of_outside
      omega

/-- **One move** leaves the bytes of a sealed chunk as they are. -/
lemma Owned.keeps_move (ho : Owned c) (hr : Ranges c.world.pools c.world.chunks)
    (hget : c.world.chunks.get i = some h) (hsealed : h.refs ≠ .builder)
    (hsmall : h.OnSmallPage c.world.pools) (hmove : Move c c') :
    h.Keeps c.world.mem c'.world.mem := by
  cases hmove with
  | supply hpool hsupplies =>
      exact ho.keeps_of_supplies hget hsupplies fun x hx => zero_of_outside hx
  | newHeap hpos hsupplies =>
      exact ho.keeps_of_supplies hget hsupplies fun x hx => zero_of_outside hx
  | linkLocal hpool hlive => exact ho.keeps_of_hand hget hpool
  | pushReturn hpool st => exact ho.keeps_of_hand hget hpool
  | @writePage w B S P j pos data g hg hle =>
      apply ho.keeps_of_block hget (ho.mem_of_page hg).1
      · intro arc harc heq
        have hpage := ho.references.chunk i h arc hget harc
        rw [page_of_block heq] at hpage
        exact (ho.packed_unheld hpage).2 j g hg rfl
      · intro x hx
        dsimp only at hx
        apply write_of_outside
        omega
  | @writeChunk w B S P j b pos data g hg hbuilder hbase hle =>
      apply ho.keeps_of_builder hr hget hsmall hg _ hbase hle
      rintro rfl
      obtain rfl : h = g := Option.some.inj (hget.symm.trans hg)
      exact hsealed hbuilder
  | _ => exact ChunkHandle.Keeps.refl

end Keeps

/-! ## Runs -/

section Runs

variable {c c' : Config} {w w' : World} {ops rest : List Op} {i : ℕ} {h h' : ChunkHandle}

lemma ChunkHandle.SamePlace.refl (h : ChunkHandle) : h.SamePlace h :=
  ⟨rfl, rfl, rfl, rfl, fun hlen => hlen, fun hsealed => ⟨hsealed, rfl⟩⟩

lemma ChunkHandle.SamePlace.trans (h₁ h₂ h₃ : ChunkHandle) (h₁₂ : h₁.SamePlace h₂)
    (h₂₃ : h₂.SamePlace h₃) : h₁.SamePlace h₃ where
  packed := h₂₃.packed.trans h₁₂.packed
  offset := h₂₃.offset.trans h₁₂.offset
  capacity := h₂₃.capacity.trans h₁₂.capacity
  request := h₂₃.request.trans h₁₂.request
  len hlen := by
    have hlen₂ := h₁₂.len hlen
    rw [← h₁₂.capacity] at hlen₂ ⊢
    exact h₂₃.len hlen₂
  frozen hsealed := by
    obtain ⟨hsealed₂, hlen₂⟩ := h₁₂.frozen hsealed
    obtain ⟨hsealed₃, hlen₃⟩ := h₂₃.frozen hsealed₂
    exact ⟨hsealed₃, hlen₃.trans hlen₂⟩

/-- Chunks stay where they are, and sealed ones stay as they are. -/
lemma later_chunks (hmove : Move c c') :
    Arena.Later ChunkHandle.SamePlace c.world.chunks c'.world.chunks := by
  cases hmove with
  | claim tenant hpos halign hget hroom harc => exact Arena.later_push ChunkHandle.SamePlace.refl
  | newChunk id tenant c honly hempty => exact Arena.later_push ChunkHandle.SamePlace.refl
  | removeChunk hget => exact Arena.later_erase ChunkHandle.SamePlace.refl
  | setChunk hget hsame => exact Arena.later_set ChunkHandle.SamePlace.refl hget hsame
  | _ => exact Arena.Later.refl ChunkHandle.SamePlace.refl

/-- What holds of a sealed chunk at every later moment. -/
structure Frozen (w : World) (h : ChunkHandle) (w' : World) (h' : ChunkHandle) : Prop where
  same : h.SamePlace h'
  small : h'.OnSmallPage w'.pools
  keeps : h.Keeps w.mem w'.mem

lemma ChunkHandle.SamePlace.base_eq (hsame : h.SamePlace h') : h'.base = h.base := by
  unfold ChunkHandle.base
  rw [hsame.packed, hsame.offset]

/-- One move, from a state in which the chunk is as it was. -/
lemma Frozen.move {h₁ : ChunkHandle} (ho : Owned c) (hr : Ranges c.world.pools c.world.chunks)
    (hf : Frozen w h c.world h₁) (hget : c.world.chunks.get i = some h₁)
    (hsealed : h.refs ≠ .builder) (hmove : Move c c') (hget' : c'.world.chunks.get i = some h') :
    Frozen w h c'.world h' := by
  obtain ⟨h₂, hget₂, hsame⟩ := (later_chunks hmove).get i h' (Arena.lt_next hget) hget'
  obtain rfl : h₁ = h₂ := Option.some.inj (hget.symm.trans hget₂)
  have hkeeps := ho.keeps_move hr hget (hf.same.frozen hsealed).1 hf.small hmove
  constructor
  case same => exact hf.same.trans _ _ _ hsame
  case small =>
    intro arc id p harc hrelease hp
    rw [hsame.packed] at harc
    obtain ⟨q, hq⟩ := ho.pool_of_chunk hget harc hrelease
    obtain ⟨q', hq', hsize⟩ := (later_pools hmove).get id p (Arena.lt_next hq) hp
    rw [hsize]
    exact hf.small arc id q' harc hrelease hq'
  case keeps =>
    intro a hbase x hlow hhigh
    rw [← hf.keeps a hbase x hlow hhigh]
    apply hkeeps a _ x hlow
    · rw [hf.same.capacity]
      exact hhigh
    · rw [hf.same.base_eq]
      exact hbase

/-- Any number of moves. -/
lemma frozen_moves (ho : Owned c) (hr : Ranges c.world.pools c.world.chunks)
    (hget : c.world.chunks.get i = some h) (hsealed : h.refs ≠ .builder)
    (hsmall : h.OnSmallPage c.world.pools) (hmoves : Moves c c')
    (hget' : c'.world.chunks.get i = some h') : Frozen c.world h c'.world h' := by
  have hnext : ∀ d, Moves c d → i < d.world.chunks.next := by
    intro d hd
    induction hd with
    | refl => exact Arena.lt_next hget
    | tail _ hmove ih => exact ih.trans_le (later_chunks hmove).next_le
  induction hmoves generalizing h' with
  | refl =>
      obtain rfl : h = h' := Option.some.inj (hget.symm.trans hget')
      exact ⟨ChunkHandle.SamePlace.refl h, hsmall, ChunkHandle.Keeps.refl⟩
  | tail hbefore hmove ih =>
      obtain ⟨h₁, hget₁, -⟩ := (later_chunks hmove).get i h' (hnext _ hbefore) hget'
      exact (ih hget₁).move (ho.moves hbefore) (hr.moves ho hbefore) hget₁ hsealed hmove hget'

/-- A chunk that keeps its bytes reads the same. -/
lemma chunkSlice_of_keeps (hlen : h.len ≤ h.capacity) (hkeeps : h.Keeps w.mem w'.mem) :
    w'.chunkSlice h = w.chunkSlice h := by
  unfold World.chunkSlice World.chunkBytes
  cases hbase : h.base with
  | none => rfl
  | some a =>
      apply read_congr
      intro x hlow hhigh
      exact hkeeps a hbase x hlow (by omega)

lemma Frozen.chunkSlice_eq (hf : Frozen w h w' h') (hlen : h.len ≤ h.capacity)
    (hsealed : h.refs ≠ .builder) : w'.chunkSlice h' = w.chunkSlice h := by
  have hsame : w'.chunkSlice h' = w'.chunkSlice h := by
    unfold World.chunkSlice World.chunkBytes
    rw [hf.same.base_eq, (hf.same.frozen hsealed).2]
  exact hsame.trans (chunkSlice_of_keeps hlen hf.keeps)

/-- Sealing changes the handle and nothing else that a reader could see: the reference that the
builder drops is not the last one. -/
lemma sealChunk_frame (ho : Owned w.idle) (hget : w.chunks.get i = some h) :
    (w.sealChunk i h).mem = w.mem ∧ (w.sealChunk i h).pools = w.pools ∧
      (w.sealChunk i h).chunks.get i = some { h with refs := .sealed 1 } := by
  have hchunks : (w.sealChunk i h).chunks = w.chunks.set i { h with refs := .sealed 1 } :=
    congrArg Ledger.chunks ledger_sealChunk
  have hframe : (w.sealChunk i h).mem = w.mem ∧ (w.sealChunk i h).pools = w.pools := by
    unfold World.sealChunk
    cases hpacked : h.packed with
    | none => exact ⟨rfl, rfl⟩
    | some arc =>
        obtain ⟨q, hq, -⟩ := Option.map_eq_some_iff.1 (ho.references.chunk i h arc hget hpacked)
        have hpos := ho.references.packed_pos arc.id q hq
        have hq' : (w.packed.set arc.id { q with strong := q.strong + 1 }).get arc.id =
            some { q with strong := q.strong + 1 } := Arena.get_set_self hq
        unfold World.clonePacked World.dropOptional World.dropPacked
        dsimp only
        rw [hq]
        dsimp only
        rw [hq']
        dsimp only
        rw [if_neg (by omega)]
        exact ⟨rfl, rfl⟩
  refine ⟨hframe.1, hframe.2, ?_⟩
  rw [hchunks, Arena.get_set hget, if_pos rfl]

/-- The range of a chunk is inside its page, apart from the ranges of all other chunks on the page,
and below the cursor while the page is open. -/
structure World.Isolated (w : World) (i : ℕ) (h : ChunkHandle) : Prop where
  inside : ∀ arc, h.packed = some arc → h.offset + h.capacity ≤ arc.page.size w.pools
  apart : ∀ j g arc, w.chunks.get j = some g → i ≠ j → h.packed = some arc →
    g.packed = some arc → Apart h.offset h.capacity g.offset g.capacity
  below : ∀ id p o, w.pools.get id = some p → p.owner.current = some o →
    h.packed = some o.shared → h.offset + h.capacity ≤ o.writeOffset

lemma Owned.isolated (ho : Owned w.idle) (hr : Ranges w.pools w.chunks)
    (hget : w.chunks.get i = some h) (hsmall : h.OnSmallPage w.pools) : w.Isolated i h where
  inside arc harc := ho.range_of_chunk hget harc
  apart j g arc hj hij harc harc' := ho.apart_of_chunks hr hget hj hij harc harc' hsmall
  below id p o hp hcurrent hpacked := by
    have hbelow := hr.below i h o.shared id p o hget hpacked hp hcurrent rfl
    have hoffset := ho.offset_eq hget hsmall hpacked
    have hcapacity : h.capacity ≤ h.request.size := by
      rw [(ho.fits.chunk i h hget).capacity]
      exact truncate32_le _
    omega

/-- **Isolation.** In every reachable state, the range of a chunk that is not on a page of
`2 ^ 32` bytes or more is isolated; a sealed chunk reads the same after any further operations,
as long as it is live; and a builder that is sealed reads, from then on, what it read before. -/
theorem chunk_isolation (hrun : runOps ops = some w) (hget : w.chunks.get i = some h)
    (hsmall : h.OnSmallPage w.pools) :
    w.Isolated i h ∧
    (h.refs ≠ .builder → ∀ rest w' h', run World.step w rest = some w' →
      w'.chunks.get i = some h' → w'.chunkSlice h' = w.chunkSlice h) ∧
    (h.refs = .builder → ∀ rest w' h', run World.step w (.sealChunk i :: rest) = some w' →
      w'.chunks.get i = some h' → w'.chunkSlice h' = w.chunkSlice h) := by
  have ho := owned_run hrun
  have hr := ranges_run hrun
  have hlen := (ho.fits.chunk i h hget).len
  refine ⟨ho.isolated hr hget hsmall, fun hsealed rest w' h' hrest hget' => ?_,
    fun hbuilder rest w' h' hrest hget' => ?_⟩
  · exact (frozen_moves ho hr hget hsealed hsmall (custody_run ho hrest) hget').chunkSlice_eq
      hlen hsealed
  · obtain ⟨w₁, hstep, hrest⟩ := run_cons_eq_some.1 hrest
    have hmoves := custody_step ho hstep
    obtain ⟨g, hg, rfl⟩ := Option.map_eq_some_iff.1 hstep
    obtain rfl : h = g := Option.some.inj (hget.symm.trans (World.chunkBuilder_eq_some hg).1)
    obtain ⟨hmem, hpools, hget₁⟩ := sealChunk_frame ho hget
    have ho₁ := ho.moves hmoves
    have hsmall₁ : ({ h with refs := .sealed 1 } : ChunkHandle).OnSmallPage
        (w.sealChunk i h).pools := by
      rw [hpools]
      exact hsmall
    have hslice : (w.sealChunk i h).chunkSlice { h with refs := .sealed 1 } = w.chunkSlice h := by
      unfold World.chunkSlice World.chunkBytes
      rw [hmem]
      rfl
    rw [← hslice]
    exact (frozen_moves ho₁ (hr.moves ho hmoves) hget₁ (by simp) hsmall₁ (custody_run ho₁ hrest)
      hget').chunkSlice_eq hlen (by simp)

/-- Two bytes written and sealed, and a second builder on the same page. -/
def sealedRun : List Op :=
  [.newChunkPool 64, .allocateChunk 0 0 8 8 (some 8), .appendChunk 0 [1, 2], .sealChunk 0,
    .allocateChunk 0 0 8 8 none]

theorem chunk_isolation_sealedRun : ∃ w h, runOps sealedRun = some w ∧ w.chunks.get 0 = some h ∧
    w.chunkSlice h = [1, 2] ∧ w.Isolated 0 h ∧
    ∀ rest w' h', run World.step w rest = some w' → w'.chunks.get 0 = some h' →
      w'.chunkSlice h' = [1, 2] := by
  have heval : (runOps sealedRun).any (fun w => decide (
      (w.pools.get 0).map Pool.pageSize = some 64 ∧
      (w.chunks.get 0).map (fun h => (h.packed, h.refs, w.chunkSlice h)) =
        some (some ⟨0, ⟨8, .pool 0⟩⟩, .sealed 1, [1, 2]))) = true := by
    decide +kernel
  obtain ⟨w, hw, heval⟩ := (Option.any_eq_true _ _).1 heval
  obtain ⟨hpool, hchunk⟩ := of_decide_eq_true heval
  obtain ⟨h, hget, hfields⟩ := Option.map_eq_some_iff.1 hchunk
  simp only [Prod.mk.injEq] at hfields
  obtain ⟨hpacked, hrefs, hslice⟩ := hfields
  have hsmall : h.OnSmallPage w.pools := by
    intro arc id p harc hrelease hp
    obtain rfl := Option.some.inj (hpacked.symm.trans harc)
    obtain rfl : 0 = id := Release.pool.inj hrelease
    rw [hp] at hpool
    rw [show p.pageSize = 64 from Option.some.inj hpool]
    decide
  obtain ⟨hisolated, hsealed, -⟩ := chunk_isolation hw hget hsmall
  refine ⟨w, h, hw, hget, hslice, hisolated, fun rest w' h' hrest hget' => ?_⟩
  rw [← hslice]
  exact hsealed (by simp [hrefs]) rest w' h' hrest hget'

end Runs

end PagedAlloc.Sequential
