import PagedAlloc.Properties.PageRefinement

/-!
# The crate as a store of drafts and blobs

The same for chunks as in `Properties/PageRefinement.lean` for pages, and both over whole runs:
`store_refined` says that in every reachable state every handle shows, through its getters, what
the object under its identity is in the store, and that a builder answers as its draft does.

For chunks this takes page sizes and requests below `2 ^ 32` bytes (`World.SmallRequest`), where the
casts to `u32` do nothing; for pages it holds of every run.
-/

namespace PagedAlloc.Sequential

open Words Bytes Transition BoundedBuffer BlobStore

/-! ## Chunks below `2 ^ 32` bytes -/

/-- No chunk is on a page of `2 ^ 32` bytes or more, or as long as that. -/
def World.Small (w : World) : Prop :=
  ∀ i h, w.chunks.get i = some h → h.OnSmallPage w.pools ∧ h.request.size < size32

section Small

variable {w w' : World} {id tenant size align l : ℕ} {p : Pool} {reply : Option ℕ}
  {c : Option OpenPage} {op : Op}

lemma later_chunks_moves {c c' : Config} (hmoves : Moves c c') :
    Arena.Later ChunkHandle.SamePlace c.world.chunks c'.world.chunks := by
  induction hmoves with
  | refl => exact Arena.Later.refl ChunkHandle.SamePlace.refl
  | tail _ hmove ih => exact ih.trans ChunkHandle.SamePlace.trans (later_chunks hmove)

/-- A chunk is on a page of the pool that it was asked of, or on an allocation of its own. -/
lemma origin_allocateAligned (ho : Owned w.idle) (hget : w.pools.get id = some p)
    (howner : p.owner = .chunkPool l c) :
    (w.allocateAligned id tenant p size align reply).Post
      (fun i w' => ∀ h arc j, w'.chunks.get i = some h → h.packed = some arc →
        arc.page.release = .pool j → j = id)
      fun _ => True := by
  -- The new chunk is the one that was pushed.
  have hreturn : ∀ (w₁ : World) (k : SizeClass) (q : Option PackedArc) (offset : ℕ),
      (∀ arc j, q = some arc → arc.page.release = .pool j → j = id) →
      (w₁.returnBuilder id tenant size k q offset).Post
        (fun i w' => ∀ h arc j, w'.chunks.get i = some h → h.packed = some arc →
          arc.page.release = .pool j → j = id)
        fun _ => True := by
    intro w₁ k q offset hq
    refine Outcome.post_done fun h arc j hi harc hrelease => ?_
    obtain rfl := Option.some.inj (Arena.get_push_self.symm.trans hi)
    exact hq arc j harc hrelease
  unfold World.allocateAligned
  split
  · rename_i halign
    split
    · rename_i hclass
      obtain rfl := sizeClass_eq_zero.1 hclass
      exact hreturn w .zero none 0 fun arc j harc => absurd harc (by simp)
    · rename_i hclass
      have hclaims : (World.findPage id size align reply 2 w).Post _ _ :=
        (custody_findPage ho hget howner halign hclass).returns
      refine Outcome.Post.bind hclaims ?_
      rintro r w' ⟨w₁, p₁, o, q, hmoves, hget₁, hroom, -, rfl, -⟩
      have ho₁ := ho.moves hmoves
      have hcurrent := (le_of_room (ho₁.blocks.pageSize id p₁ hget₁).2 hroom).1
      refine hreturn _ _ _ _ fun arc j harc hrelease => ?_
      obtain rfl := Option.some.inj harc
      have hpool := (ho₁.references.current id p₁ o hget₁ hcurrent).2
      exact Release.pool.inj (hrelease.symm.trans hpool)
    · have hraw : (w.allocateRawPage id reply).Post (fun _ _ => True) fun _ => True := by
        cases w.allocateRawPage id reply <;> trivial
      refine Outcome.Post.bind hraw fun a w₁ _ => ?_
      refine hreturn _ _ _ _ fun arc j harc hrelease => ?_
      obtain rfl := Option.some.inj harc
      exact (Release.pool.inj hrelease).symm
    · apply World.post_allocateOversized
      · intro _ a _
        refine hreturn _ _ _ _ fun arc j harc hrelease => ?_
        obtain rfl := Option.some.inj harc
        exact absurd hrelease (by simp)
      · exact fun _ => trivial
  · exact Outcome.post_panicked trivial

/-- What was small stays small. -/
lemma small_of_moves (hs : w.Small) (ho : Owned w.idle) (hmoves : Moves w.idle w'.idle)
    (hnew : ∀ i h, w.chunks.next ≤ i → w'.chunks.get i = some h →
      h.OnSmallPage w'.pools ∧ h.request.size < size32) : w'.Small := by
  intro i h' hi
  by_cases hlt : i < w.chunks.next
  · obtain ⟨h, hget, hsame⟩ := (later_chunks_moves hmoves).get i h' hlt hi
    obtain ⟨hpage, hsize⟩ := hs i h hget
    constructor
    · intro arc id p harc hrelease hp
      rw [hsame.packed] at harc
      obtain ⟨q, hq⟩ := ho.pool_of_chunk hget harc hrelease
      obtain ⟨q', hq', heq⟩ := (later_pools_moves hmoves).get id p (Arena.lt_next hq) hp
      rw [heq]
      exact hpage arc id q' harc hrelease hq'
    · rw [hsame.request]
      exact hsize
  · exact hnew i h' (by omega) hi

/-- The handle that an allocation returns. -/
lemma small_allocateAligned (hs : w.Small) (ho : Owned w.idle) (hget : w.pools.get id = some p)
    (howner : p.owner = .chunkPool l c) (hsize : size < size32) (hpage : p.pageSize < size32)
    (hfinal : (w.allocateAligned id tenant p size align reply).final = some w') : w'.Small := by
  have hcustody : KeepsCustody w (w.allocateAligned id tenant p size align reply) :=
    custody_allocateAligned ho hget howner
  have hledger : (w.allocateAligned id tenant p size align reply).Post _ _ :=
    ledger_allocateAligned
  have horigin : (w.allocateAligned id tenant p size align reply).Post _ _ :=
    origin_allocateAligned ho hget howner
  have hboth := (Outcome.Post.and hcustody hledger).and horigin
  refine Outcome.Post.final (P := fun w' => w'.Small) (hboth.mono ?_ ?_) hfinal
  · rintro i w₁ ⟨⟨hmoves, rfl, k, q, offset, hledger⟩, horigin⟩
    have hchunks : w₁.chunks = w.chunks.push (newBuilder id tenant size k q offset) :=
      congrArg Ledger.chunks hledger
    refine small_of_moves hs ho hmoves fun j h hle hj => ?_
    have hj' := hj
    rw [hchunks, Arena.get_push] at hj'
    split at hj'
    · rename_i heq
      subst heq
      refine ⟨fun arc id' p' harc hrelease hp' => ?_, ?_⟩
      · obtain rfl := horigin h arc id' hj harc hrelease
        obtain ⟨q', hq', heq⟩ := (later_pools_moves hmoves).get id' p' (Arena.lt_next hget) hp'
        obtain rfl := Option.some.inj (hget.symm.trans hq')
        rw [heq]
        exact hpage
      · obtain rfl := Option.some.inj hj'
        exact hsize
    · rw [w.chunks.get_of_le j hle] at hj'
      exact absurd hj' (by simp)
  · rintro w₁ ⟨⟨hmoves, hledger⟩, -⟩
    refine small_of_moves hs ho hmoves fun j h hle hj => ?_
    rw [show w₁.chunks = w.chunks from congrArg Ledger.chunks hledger,
      w.chunks.get_of_le j hle] at hj
    exact absurd hj (by simp)

/-- **One primitive operation.** -/
lemma small_step (hs : w.Small) (hsound : w.Sound) (hop : op.Primitive)
    (hrequest : w.SmallRequest op) (hstep : w.step op = some w') : w'.Small := by
  have hmoves := custody_step hsound.owned hstep
  by_cases hnew : op.Allocates
  · cases op with
    | allocatePage id t reply =>
        obtain ⟨p, hp, hfinal⟩ := Option.bind_eq_some_iff.1 hstep
        have hchunks : w'.chunks = w.chunks := by
          refine Outcome.Post.final (P := fun w' => w'.chunks = w.chunks)
            (ledger_allocatePage.mono ?_ ?_) hfinal
          · rintro i w₁ ⟨-, a, hledger⟩
            exact congrArg Ledger.chunks hledger
          · exact fun w₁ hledger => congrArg Ledger.chunks hledger
        refine small_of_moves hs hsound.owned hmoves fun j h hle hj => ?_
        rw [hchunks, w.chunks.get_of_le j hle] at hj
        exact absurd hj (by simp)
    | allocateChunk id t size align reply =>
        obtain ⟨p, hp, hfinal⟩ := Option.bind_eq_some_iff.1 hstep
        obtain ⟨hget, l, c, howner⟩ := World.chunkPool_eq_some hp
        obtain ⟨hsize, hpage⟩ := hrequest ⟨id, size, align⟩ rfl
        exact small_allocateAligned hs hsound.owned hget howner hsize (hpage p hp) hfinal
    | _ => exact hnew.elim
  · have hf := frame_step hsound.owned hsound.ranges hop hnew hstep
    refine small_of_moves hs hsound.owned hmoves fun j h hle hj => ?_
    rw [w'.chunks.get_of_le j (by rw [hf.nextChunk]; exact hle)] at hj
    exact absurd hj (by simp)

end Small

/-! ## Chunks -/

section Chunks

variable {w w' : World} {P Q : ℕ → Prop} {i : ℕ} {h : ChunkHandle} {s : Arena (Item UInt8)}
  {op : Op}

lemma chunkView_congr (hlen : h.len ≤ h.capacity) (hkeeps : h.Keeps w.mem w'.mem) :
    w'.chunkView h = w.chunkView h := by
  have hmut : w'.chunkMutSlice h = w.chunkMutSlice h := by
    unfold World.chunkMutSlice World.chunkBytes
    cases hbase : h.base with
    | none => rfl
    | some a => exact read_congr (hkeeps a hbase)
  unfold World.chunkView
  rw [chunkSlice_of_keeps hlen hkeeps, hmut]

lemma viewChunk_of_frame (hf : w.Frame P Q w') (ho : Owned w.idle) (hsmall : w.Small) (hi : Q i) :
    w'.viewChunk i = w.viewChunk i := by
  unfold World.viewChunk
  rw [hf.chunk i hi]
  cases hget : w.chunks.get i with
  | none => rfl
  | some h =>
      rw [Option.map_some, Option.map_some, chunkView_congr (ho.fits.chunk i h hget).len
        (hf.keepsChunk i h hi hget (hsmall i h hget).1)]

lemma viewChunk_of_get (hget : w.chunks.get i = some h) :
    w.viewChunk i = some (w.chunkView h) := by
  unfold World.viewChunk
  rw [hget]
  rfl

lemma viewChunk_builder {o : Observation} :
    w.viewChunk i = some (.builder o) ↔ w.observeChunk i = some o := by
  unfold World.viewChunk World.observeChunk World.chunkBuilder
  cases hget : w.chunks.get i with
  | none => simp
  | some h =>
      cases hrefs : h.refs with
      | builder => simp [World.chunkView, hrefs]
      | sealed n => simp [World.chunkView, hrefs]

lemma viewChunk_of_builder (hi : w.chunkBuilder i = some h) : w.viewChunk i = some (.builder
    ⟨h.capacity, h.len, h.remaining, w.chunkSlice h, w.chunkMutSlice h⟩) := by
  obtain ⟨hget, hrefs⟩ := World.chunkBuilder_eq_some hi
  rw [viewChunk_of_get hget, World.chunkView, hrefs]

/-- A builder without bytes shows the buffer without cells. -/
lemma observeChunk_empty {b : Buffer UInt8 0} (hi : w.chunkBuilder i = some h)
    (hbase : h.base = none) (hcapacity : h.capacity = 0) (hlen : h.len = 0) :
    w.observeChunk i = some (.ofBuffer b) := by
  have hcells : b.cells = [] := List.eq_nil_of_length_eq_zero b.length_cells
  have hzero : b.len = 0 := Nat.le_zero.1 b.len_le
  unfold World.observeChunk
  rw [hi, Option.map_some]
  simp [Observation.ofBuffer, Buffer.content, World.chunkSlice, World.chunkMutSlice,
    World.chunkBytes, ChunkHandle.remaining, hbase, hcapacity, hlen, hcells, hzero]

/-- One command to a builder without bytes. -/
lemma refines_respondChunk_empty {b : Buffer UInt8 0} (hi : w.chunkBuilder i = some h)
    (hbase : h.base = none) (hcapacity : h.capacity = 0) (hlen : h.len = 0) (r : Command UInt8) :
    ∃ w', w.respondChunk i r = some ((b.respond r).1, w') ∧
      w'.observeChunk i = some (.ofBuffer (b.respond r).2) := by
  have hrefs := (World.chunkBuilder_eq_some hi).2
  have hzero : b.len = 0 := Nat.le_zero.1 b.len_le
  have hset : ({ w with chunks := w.chunks.set i { h with len := 0 } } : World).chunkBuilder i =
      some { h with len := 0 } :=
    chunkBuilder_set (m := w.mem) hi hrefs
  have htruncate : truncate32 0 = 0 := by decide
  unfold World.respondChunk
  rw [hi, Option.bind_some]
  cases r with
  | append data =>
      by_cases hfit : b.len + data.length ≤ 0
      · obtain rfl : data = [] := List.eq_nil_of_length_eq_zero (by omega)
        refine ⟨{ w with chunks := w.chunks.set i { h with len := 0 } }, ?_,
          observeChunk_empty hset hbase hcapacity rfl⟩
        simp [World.appendChunk, World.storeChunk, Buffer.respond, replyOfAppend, hbase, hcapacity,
          hlen, hzero, htruncate]
      · refine ⟨w, ?_, observeChunk_empty hi hbase hcapacity hlen⟩
        have hpos : 0 < data.length := by omega
        simp [World.appendChunk, Buffer.respond, replyOfAppend, hcapacity, hlen, hzero, hpos,
          Nat.ne_of_gt hpos]
  | setLen len =>
      by_cases hfit : len ≤ 0
      · obtain rfl : len = 0 := by omega
        refine ⟨{ w with chunks := w.chunks.set i { h with len := 0 } }, ?_,
          observeChunk_empty hset hbase hcapacity rfl⟩
        simp [World.setLenChunk, Buffer.respond, replyOf, htruncate]
      · refine ⟨w, ?_, observeChunk_empty hi hbase hcapacity hlen⟩
        have hne : len ≠ 0 := by omega
        simp [World.setLenChunk, Buffer.respond, replyOf, hcapacity, hne]
  | write pos data =>
      by_cases hfit : pos + data.length ≤ 0
      · refine ⟨w, ?_, observeChunk_empty hi hbase hcapacity hlen⟩
        simp only [World.writeChunk, World.storeChunk, Buffer.respond, replyOf, hbase, hcapacity,
          if_pos hfit, dif_pos hfit]
      · refine ⟨w, ?_, observeChunk_empty hi hbase hcapacity hlen⟩
        simp only [World.writeChunk, Buffer.respond, replyOf, hcapacity, if_neg hfit, dif_neg hfit]

lemma World.Small.capacity_eq (hs : w.Small) (ho : Owned w.idle) (hget : w.chunks.get i = some h) :
    h.capacity = h.request.size ∧ h.capacity < 2 ^ 32 := by
  have hsize := (hs i h hget).2
  have hcapacity : h.capacity = h.request.size := by
    rw [(ho.fits.chunk i h hget).capacity]
    exact (truncate32_eq_iff _).2 hsize
  exact ⟨hcapacity, by rw [hcapacity]; exact hsize⟩

/-- One command to the builder of a small chunk, with bytes or without. -/
lemma World.Small.respondChunk {c : ℕ} {b : Buffer UInt8 c} (hs : w.Small) (ho : Owned w.idle)
    (hshow : w.observeChunk i = some (.ofBuffer b)) (r : Command UInt8) :
    ∃ w', w.respondChunk i r = some ((b.respond r).1, w') ∧
      w'.observeChunk i = some (.ofBuffer (b.respond r).2) := by
  have hobserve := hshow
  unfold World.observeChunk at hobserve
  obtain ⟨h, hi, heq⟩ := Option.map_eq_some_iff.1 hobserve
  obtain ⟨hc, hlen, -⟩ := Observation.mk.inj heq
  have hget := (World.chunkBuilder_eq_some hi).1
  obtain ⟨hcapacity, hlt⟩ := hs.capacity_eq ho hget
  by_cases hpos : 0 < c
  · exact refines_respondChunk hpos (by omega) hshow r
  · obtain rfl : c = 0 := by omega
    -- A chunk on a page has bytes.
    have hpacked : h.packed = none := by
      cases hpacked : h.packed with
      | none => rfl
      | some arc =>
          have := ((ho.fits.chunk i h hget).range arc hpacked).1
          omega
    have hbase : h.base = none := by
      unfold ChunkHandle.base
      rw [hpacked, Option.map_none]
    have hzero := b.len_le
    exact refines_respondChunk_empty hi hbase hc (by omega) r

/-- A command to a builder is the command to its draft. -/
lemma shows_commandChunk {r : Command UInt8} (hs : Shows w.chunks.next w.viewChunk s)
    (hf : w.Frame P (fun j => ¬ i = j) w') (ho : Owned w.idle) (hsmall : w.Small)
    (hi : w.chunkBuilder i = some h) (hstep : w.step (onChunkBuilder i r) = some w') :
    ∃ s', run BlobStore.step s [.act i (.command r)] = some s' ∧
      Shows w'.chunks.next w'.viewChunk s' := by
  have hview := viewChunk_of_builder hi
  obtain ⟨c, b, hx, hobs⟩ := hs.draft hview
  rw [hobs] at hview
  obtain ⟨w₁, hrespond, hshow⟩ := hsmall.respondChunk ho (viewChunk_builder.1 hview) r
  obtain rfl : w₁ = w' := Option.some.inj ((step_of_respondChunk hrespond).symm.trans hstep)
  rw [hf.nextChunk]
  exact hs.act hx rfl (viewChunk_builder.2 hshow) fun j hj => viewChunk_of_frame hf ho hsmall hj

/-- A new builder. -/
lemma shows_allocateAligned {id tenant size align l : ℕ} {p : Pool} {c : Option OpenPage}
    {reply : Option ℕ} (ho : Owned w.idle) (hs : Shows w.chunks.next w.viewChunk s)
    (hget : w.pools.get id = some p) (howner : p.owner = .chunkPool l c) (hsize : size < size32)
    (hfinal : (w.allocateAligned id tenant p size align reply).final = some w') :
    ∃ s', run BlobStore.step s (World.created size
        (w.allocateAligned id tenant p size align reply) World.chunkCells) = some s' ∧
      Shows w'.chunks.next w'.viewChunk s' := by
  have hcustody : KeepsCustody w (w.allocateAligned id tenant p size align reply) :=
    custody_allocateAligned ho hget howner
  have hboth := (Outcome.Post.and (o := w.allocateAligned id tenant p size align reply)
    (spares_allocateAligned ho hget howner) ledger_allocateAligned).and hcustody
  have hview : ∀ (w₁ : World) (j : ℕ), w.Spares w₁ → w₁.chunks.get j = w.chunks.get j →
      w₁.viewChunk j = w.viewChunk j := by
    intro w₁ j hspares heq
    unfold World.viewChunk
    rw [heq]
    cases hj : w.chunks.get j with
    | none => rfl
    | some g =>
        rw [Option.map_some, Option.map_some,
          chunkView_congr (ho.fits.chunk j g hj).len (hspares.chunk j g hj)]
  cases hcall : w.allocateAligned id tenant p size align reply with
  | refused =>
      rw [hcall] at hfinal
      exact absurd hfinal (by simp [Outcome.final])
  | panicked w₁ =>
      rw [hcall] at hfinal hboth
      obtain rfl := Option.some.inj hfinal
      obtain ⟨⟨hspares, hledger⟩, -⟩ := hboth
      have hchunks : w₁.chunks = w.chunks := congrArg Ledger.chunks hledger
      rw [hchunks]
      exact ⟨s, rfl, hs.congr fun j => hview w₁ j hspares (by rw [hchunks])⟩
  | done k w₁ =>
      rw [hcall] at hfinal hboth
      obtain rfl := Option.some.inj hfinal
      obtain ⟨⟨hspares, rfl, k, q, offset, hledger⟩, hmoves⟩ := hboth
      have hchunks : w₁.chunks = w.chunks.push (newBuilder id tenant size k q offset) :=
        congrArg Ledger.chunks hledger
      have hnew : w₁.chunks.get w.chunks.next = some (newBuilder id tenant size k q offset) := by
        rw [hchunks]
        exact Arena.get_push_self
      have hcapacity : (newBuilder id tenant size k q offset).capacity = size :=
        (truncate32_eq_iff size).2 hsize
      have hlen : (newBuilder id tenant size k q offset).len = 0 := rfl
      have hcells : w₁.chunkCells w.chunks.next =
          w₁.chunkMutSlice (newBuilder id tenant size k q offset) := by
        unfold World.chunkCells
        rw [hnew]
        rfl
      rw [show w₁.chunks.next = w.chunks.next + 1 from congrArg Arena.next hchunks]
      refine hs.create ?_ ?_ fun j hj => ?_
      · rw [hcells, World.chunkMutSlice, length_chunkBytes (ho.moves hmoves) hnew, hcapacity]
      · rw [viewChunk_of_get hnew, hcells]
        unfold World.chunkView
        rw [show (newBuilder id tenant size k q offset).refs = .builder from rfl]
        dsimp only
        rw [ChunkHandle.remaining, hcapacity, hlen, chunkSlice_of_len_eq_zero hlen, Nat.sub_zero]
      · exact hview w₁ j hspares (by rw [hchunks, Arena.get_push, if_neg hj])

lemma dropChunk_last (hlast : h.refs = .builder ∨ h.refs = .sealed 1) :
    w.dropChunk i h = ({ w with chunks := w.chunks.erase i } : World).releaseChunk h := by
  unfold World.dropChunk
  rcases hlast with hrefs | hrefs
  · rw [hrefs]
  · rw [hrefs]
    rfl

lemma dropChunk_shared {n : ℕ} (hrefs : h.refs = .sealed n) (hn : n ≠ 1) : w.dropChunk i h =
    { w with chunks := w.chunks.set i { h with refs := .sealed (n - 1) } } := by
  unfold World.dropChunk
  split
  · rename_i heq
    exact absurd (hrefs.symm.trans heq) (by simp)
  · rename_i heq
    exact absurd (Refs.sealed.inj (hrefs.symm.trans heq)) hn
  · rename_i heq
    rw [Refs.sealed.inj (hrefs.symm.trans heq)]

/-- The last handle of a chunk is gone after its drop. -/
lemma viewChunk_dropChunk (hlast : h.refs = .builder ∨ h.refs = .sealed 1) :
    (w.dropChunk i h).viewChunk i = none := by
  have hchunks : (({ w with chunks := w.chunks.erase i } : World).releaseChunk h).chunks =
      w.chunks.erase i := congrArg Ledger.chunks ledger_releaseChunk
  unfold World.viewChunk
  rw [dropChunk_last hlast, hchunks, Arena.get_erase_self]
  rfl

/-- The drop of a handle is the drop of its object. -/
lemma shows_dropChunk (hs : Shows w.chunks.next w.viewChunk s)
    (hf : w.Frame P (fun j => ¬ i = j) (w.dropChunk i h)) (ho : Owned w.idle) (hsmall : w.Small)
    (hget : w.chunks.get i = some h) :
    ∃ s', run BlobStore.step s [.act i .drop] = some s' ∧
      Shows (w.dropChunk i h).chunks.next (w.dropChunk i h).viewChunk s' := by
  have hview := viewChunk_of_get hget
  have hrest : ∀ j, ¬ i = j → (w.dropChunk i h).viewChunk j = w.viewChunk j :=
    fun j hj => viewChunk_of_frame hf ho hsmall hj
  rw [hf.nextChunk]
  unfold World.chunkView at hview
  cases hrefs : h.refs with
  | builder =>
      rw [hrefs] at hview
      obtain ⟨c, b, hx, -⟩ := hs.draft hview
      exact hs.act hx (o := none) rfl (viewChunk_dropChunk (Or.inl hrefs)) hrest
  | sealed n =>
      rw [hrefs] at hview
      obtain ⟨hx, hlen⟩ := hs.blob hview
      by_cases hlast : n = 1
      · subst hlast
        exact hs.act hx (o := none) rfl (viewChunk_dropChunk (Or.inr hrefs)) hrest
      · refine hs.act hx (o := some (.blob h.capacity (w.chunkSlice h) (n - 1))) ?_ ?_ hrest
        · simp [Item.act, hlast]
        · rw [dropChunk_shared hrefs hlast]
          rw [viewChunk_of_get (Arena.get_set_self hget), Option.map_some, View.ofItem, ← hlen]
          rfl

/-- **One primitive operation**, in the store of chunks. -/
lemma shows_chunk_step (hsound : w.Sound) (hsmall : w.Small) (hop : op.Primitive)
    (hrequest : w.SmallRequest op) (hs : Shows w.chunks.next w.viewChunk s)
    (hstep : w.step op = some w') :
    ∃ s', run BlobStore.step s (w.chunkEvents op) = some s' ∧
      Shows w'.chunks.next w'.viewChunk s' := by
  have ho := hsound.owned
  have hframe (hold : ¬ op.Allocates) := frame_step ho hsound.ranges hop hold hstep
  -- An operation that is not about chunks shows nothing new.
  have hquiet (hold : ¬ op.Allocates) (hon : ∀ i, ¬ op.On i) :
      ∃ s', run BlobStore.step s [] = some s' ∧ Shows w'.chunks.next w'.viewChunk s' := by
    refine ⟨s, rfl, ?_⟩
    rw [(hframe hold).nextChunk]
    exact hs.congr fun j => viewChunk_of_frame (hframe hold) ho hsmall (hon j)
  cases op with
  | allocateChunk id t size align reply =>
      obtain ⟨p, hp, hfinal⟩ := Option.bind_eq_some_iff.1 hstep
      obtain ⟨hget, l, c, howner⟩ := World.chunkPool_eq_some hp
      rw [World.chunkEvents, hp]
      exact shows_allocateAligned ho hs hget howner (hrequest ⟨id, size, align⟩ rfl).1 hfinal
  | allocatePage id t reply =>
      obtain ⟨p, hp, hfinal⟩ := Option.bind_eq_some_iff.1 hstep
      have hpost : (w.allocatePage id t p reply).Post
          (fun _ w' => w.Spares w' ∧ w'.chunks = w.chunks)
          fun w' => w.Spares w' ∧ w'.chunks = w.chunks :=
        (Outcome.Post.and (o := w.allocatePage id t p reply)
          (spares_allocatePage ho) ledger_allocatePage).mono
          (fun i w₁ h => ⟨h.1, by
            obtain ⟨-, -, a, hledger⟩ := h
            exact congrArg Ledger.chunks hledger⟩)
          fun w₁ h => ⟨h.1, congrArg Ledger.chunks h.2⟩
      obtain ⟨hspares, hchunks⟩ := Outcome.Post.final
        (P := fun w' => w.Spares w' ∧ w'.chunks = w.chunks) hpost hfinal
      refine ⟨s, rfl, ?_⟩
      rw [hchunks]
      refine hs.congr fun j => ?_
      unfold World.viewChunk
      rw [hchunks]
      cases hj : w.chunks.get j with
      | none => rfl
      | some g =>
          rw [Option.map_some, Option.map_some,
            chunkView_congr (ho.fits.chunk j g hj).len (hspares.chunk j g hj)]
  | appendChunk i data =>
      obtain ⟨h, hi, -⟩ := Option.bind_eq_some_iff.1 hstep
      exact shows_commandChunk (r := .append data) hs (hframe id) ho hsmall hi hstep
  | setLenChunk i len =>
      obtain ⟨h, hi, -⟩ := Option.bind_eq_some_iff.1 hstep
      exact shows_commandChunk (r := .setLen len) hs (hframe id) ho hsmall hi hstep
  | writeChunk i pos data =>
      obtain ⟨h, hi, -⟩ := Option.bind_eq_some_iff.1 hstep
      exact shows_commandChunk (r := .write pos data) hs (hframe id) ho hsmall hi hstep
  | sealChunk i =>
      have hf := hframe id
      obtain ⟨h, hi, rfl⟩ := Option.map_eq_some_iff.1 hstep
      have hview := viewChunk_of_builder hi
      obtain ⟨c, b, hx, hobs⟩ := hs.draft hview
      obtain ⟨hmem, -, hget⟩ := sealChunk_frame ho (World.chunkBuilder_eq_some hi).1
      rw [hf.nextChunk]
      refine hs.act hx (o := some (.blob c b.content 1)) rfl ?_
        fun j hj => viewChunk_of_frame hf ho hsmall hj
      rw [viewChunk_of_get hget, Option.map_some, View.ofItem, b.length_content,
        ← show w.chunkSlice h = b.content from congrArg Observation.asSlice hobs,
        ← show h.len = b.len from congrArg Observation.len hobs,
        ← show h.capacity = c from congrArg Observation.capacity hobs]
      unfold World.chunkView World.chunkSlice World.chunkBytes
      rw [hmem]
      rfl
  | cloneChunk i =>
      have hf := hframe id
      obtain ⟨h, hget, hclone⟩ := Option.bind_eq_some_iff.1 hstep
      have hview := viewChunk_of_get hget
      unfold World.cloneChunk at hclone
      split at hclone
      · exact absurd hclone (by simp)
      · rename_i n hrefs
        obtain rfl := Option.some.inj hclone
        rw [World.chunkView, hrefs] at hview
        rw [hf.nextChunk]
        obtain ⟨hx, hlen⟩ := hs.blob hview
        refine hs.act hx (o := some (.blob h.capacity (w.chunkSlice h) (n + 1))) rfl ?_
          fun j hj => viewChunk_of_frame hf ho hsmall hj
        rw [viewChunk_of_get (Arena.get_set_self hget), Option.map_some, View.ofItem, ← hlen]
        rfl
  | dropChunk i =>
      have hf := hframe id
      obtain ⟨h, hget, rfl⟩ := Option.map_eq_some_iff.1 hstep
      exact shows_dropChunk hs hf ho hsmall hget
  | allocFromPage id t data reply | allocWithPage id t init reply
  | allocWithLenPage id t init reply | allocFromChunk id t data reply
  | allocWithChunk id t size init reply | allocWithLenChunk id t size init reply => exact hop.elim
  | _ => exact hquiet (by rintro ⟨⟩) (by rintro i ⟨⟩)

end Chunks

/-! ## Whole runs -/

/-- What an operation is written out as: itself, or a new handle and operations on this one. -/
inductive Expansion (w : World) (op : Op) : List Op → Prop
  | primitive (hop : op.Primitive) : Expansion w op [op]
  | rejected (hop : ¬ op.Primitive) : Expansion w op []
  | page {id t : ℕ} {reply : Option ℕ} {rest : List Op} (hop : ¬ op.Primitive)
      (hrest : ∀ e ∈ rest, e.OnPage w.pages.next) :
      Expansion w op (.allocatePage id t reply :: rest)
  | chunk {r : ChunkRequest} {t : ℕ} {reply : Option ℕ} {rest : List Op} (hop : ¬ op.Primitive)
      (hrequest : op.chunkRequest = some r) (hrest : ∀ e ∈ rest, e.On w.chunks.next) :
      Expansion w op (.allocateChunk r.pool t r.size r.align reply :: rest)

section Runs

variable {w w' : World} {op e : Op} {ops : List Op} {i : ℕ}

lemma onPage_fillPage {fill : List UInt8 → List UInt8} {len : List UInt8 → Option ℕ}
    (h : e ∈ w.fillPage i fill len) : e.OnPage i := by
  unfold World.fillPage at h
  split at h
  · exact absurd h (by simp)
  · rcases List.mem_cons.1 h with rfl | h
    · rfl
    · split at h
      · obtain rfl := List.mem_singleton.1 h
        rfl
      · rcases List.mem_cons.1 h with rfl | h
        · rfl
        · obtain rfl := List.mem_singleton.1 h
          split <;> rfl

lemma on_fillChunk {fill : List UInt8 → List UInt8} {len : List UInt8 → Option ℕ}
    (h : e ∈ w.fillChunk i fill len) : e.On i := by
  unfold World.fillChunk at h
  split at h
  · exact absurd h (by simp)
  · rcases List.mem_cons.1 h with rfl | h
    · rfl
    · split at h
      · obtain rfl := List.mem_singleton.1 h
        rfl
      · rcases List.mem_cons.1 h with rfl | h
        · rfl
        · obtain rfl := List.mem_singleton.1 h
          split <;> rfl

lemma on_copyChunk {data : List UInt8} (h : e ∈ w.copyChunk i data) : e.On i := by
  unfold World.copyChunk at h
  split at h
  · exact on_fillChunk h
  · obtain rfl := List.mem_singleton.1 h
    rfl

/-- What follows an allocation is about the handle that it returned. -/
lemma onPage_afterwards {id t : ℕ} {p : Pool} {reply : Option ℕ} {steps : ℕ → World → List Op}
    (hsteps : ∀ i w', ∀ e ∈ steps i w', e.OnPage i)
    (h : e ∈ World.afterwards (w.allocatePage id t p reply) steps) : e.OnPage w.pages.next := by
  have hledger : (w.allocatePage id t p reply).Post _ _ := ledger_allocatePage
  unfold World.afterwards at h
  split at h
  · rename_i j w' hcall
    rw [hcall] at hledger
    rw [← hledger.1]
    exact hsteps j w' e h
  · exact absurd h (by simp)

lemma on_afterwards {id t size : ℕ} {p : Pool} {reply : Option ℕ} {steps : ℕ → World → List Op}
    (hsteps : ∀ i w', ∀ e ∈ steps i w', e.On i)
    (h : e ∈ World.afterwards (w.allocateChunk id t p size reply) steps) : e.On w.chunks.next := by
  unfold World.allocateChunk at h
  have hledger : (w.allocateAligned id t p size defaultAlign reply).Post _ _ :=
    ledger_allocateAligned
  unfold World.afterwards at h
  split at h
  · rename_i j w' hcall
    rw [hcall] at hledger
    rw [← hledger.1]
    exact hsteps j w' e h
  · exact absurd h (by simp)

lemma expansion (w : World) (op : Op) : Expansion w op (w.expand op) := by
  cases op with
  | allocFromPage id t data reply =>
      rw [World.expand]
      split
      · exact .rejected not_false
      · split
        · exact .page not_false fun e => onPage_afterwards fun i w' e => onPage_fillPage
        · exact .rejected not_false
  | allocWithPage id t init reply | allocWithLenPage id t init reply =>
      rw [World.expand]
      split
      · exact .rejected not_false
      · exact .page not_false fun e => onPage_afterwards fun i w' e => onPage_fillPage
  | allocFromChunk id t data reply =>
      rw [World.expand]
      split
      · exact .rejected not_false
      · exact .chunk (r := ⟨id, data.length, defaultAlign⟩) not_false rfl
          fun e => on_afterwards fun i w' e => on_copyChunk
  | allocWithChunk id t size init reply | allocWithLenChunk id t size init reply =>
      rw [World.expand]
      split
      · exact .rejected not_false
      · exact .chunk (r := ⟨id, size, defaultAlign⟩) not_false rfl
          fun e => on_afterwards fun i w' e => on_fillChunk
  | _ => exact .primitive trivial

lemma Op.OnPage.primitive (h : e.OnPage i) : e.Primitive := by
  cases e <;> trivial

lemma Op.On.primitive (h : e.On i) : e.Primitive := by
  cases e <;> trivial

lemma primitive_expand (he : e ∈ w.expand op) : e.Primitive := by
  have hshape := expansion w op
  generalize w.expand op = es at he hshape
  cases hshape with
  | primitive hop =>
      obtain rfl := List.mem_singleton.1 he
      exact hop
  | rejected => exact absurd he (by simp)
  | page hop hon =>
      rcases List.mem_cons.1 he with rfl | he
      · trivial
      · exact (hon e he).primitive
  | chunk hop hrequest hon =>
      rcases List.mem_cons.1 he with rfl | he
      · trivial
      · exact (hon e he).primitive

/-- The steps of an operation are primitive, and they ask for no more than it does. -/
lemma always_expand (hsmall : w.SmallRequest op) (hstep : w.step op = some w') :
    Always World.step (fun w e => e.Primitive ∧ w.SmallRequest e) w (w.expand op) := by
  have hrun := run_expand hstep
  have hshape := expansion w op
  generalize w.expand op = es at hrun hshape
  have hrest : ∀ {w₁ : World} {rest : List Op},
      (∀ e ∈ rest, e.Primitive ∧ e.chunkRequest = none) →
        Always World.step (fun w e => e.Primitive ∧ w.SmallRequest e) w₁ rest := by
    intro w₁ rest hquiet
    refine always_of_forall fun e he w₂ => ⟨(hquiet e he).1, fun r hr => ?_⟩
    rw [(hquiet e he).2] at hr
    exact absurd hr (by simp)
  cases hshape with
  | primitive hop =>
      obtain ⟨w₁, hstep, -⟩ := run_cons_eq_some.1 hrun
      exact (always_cons hstep).2 ⟨⟨hop, hsmall⟩, trivial⟩
  | rejected => trivial
  | page hop hon =>
      obtain ⟨w₁, hstep, -⟩ := run_cons_eq_some.1 hrun
      refine (always_cons hstep).2
        ⟨⟨trivial, fun r hr => absurd hr (by simp [Op.chunkRequest])⟩, ?_⟩
      refine hrest fun e he => ⟨(hon e he).primitive, ?_⟩
      have hon := hon e he
      cases e <;> first | rfl | exact hon.elim
  | @chunk r t reply rest hop hrequest hon =>
      obtain ⟨w₁, hstep, -⟩ := run_cons_eq_some.1 hrun
      refine (always_cons hstep).2 ⟨⟨trivial, fun r' hr => ?_⟩, hrest fun e he => ?_⟩
      · obtain rfl := Option.some.inj hr
        exact hsmall r hrequest
      · refine ⟨(hon e he).primitive, ?_⟩
        have hon := hon e he
        cases e <;> first | rfl | exact hon.elim

/-- A run in the store of pages. -/
lemma shows_page_run {s : Arena (Item UInt8)} (hsound : w.Sound)
    (hs : Shows w.pages.next w.viewPage s) (hrun : run World.step w ops = some w') :
    ∃ s', run BlobStore.step s (pageHistory w ops) = some s' ∧
      Shows w'.pages.next w'.viewPage s' := by
  have hprimitive : Always World.step (fun _ e => e.Primitive) w (primitives w ops) :=
    always_emitted (G := fun _ _ => True)
      (fun w op w' _ hstep => ⟨run_expand hstep, always_of_forall fun e he _ =>
        primitive_expand he⟩)
      (always_of_forall fun _ _ _ => trivial) hrun
  have hsim : ∀ (w : World) (s : Arena (Item UInt8)) (e : Op) (w' : World), e.Primitive →
      w.Sound ∧ Shows w.pages.next w.viewPage s → w.step e = some w' →
      ∃ s', run BlobStore.step s (w.pageEvents e) = some s' ∧
        w'.Sound ∧ Shows w'.pages.next w'.viewPage s' := by
    rintro w s e w' hop ⟨hsound, hs⟩ hstep
    obtain ⟨s', hs', hshow⟩ := shows_page_step hsound hop hs hstep
    exact ⟨s', hs', hsound.step hstep, hshow⟩
  obtain ⟨s', hs', -, hshow⟩ := run_emitted_of_always hsim hprimitive ⟨hsound, hs⟩
    (run_primitives hrun)
  exact ⟨s', hs', hshow⟩

/-- A run in the store of chunks. -/
lemma shows_chunk_run {s : Arena (Item UInt8)} (hsound : w.Sound) (hsmall : w.Small)
    (hs : Shows w.chunks.next w.viewChunk s)
    (hrequests : Always World.step World.SmallRequest w ops)
    (hrun : run World.step w ops = some w') :
    w'.Small ∧ ∃ s', run BlobStore.step s (chunkHistory w ops) = some s' ∧
      Shows w'.chunks.next w'.viewChunk s' := by
  have hguard : Always World.step (fun w e => e.Primitive ∧ w.SmallRequest e) w
      (primitives w ops) :=
    always_emitted (fun w op w' hop hstep => ⟨run_expand hstep, always_expand hop hstep⟩)
      hrequests hrun
  have hsim : ∀ (w : World) (s : Arena (Item UInt8)) (e : Op) (w' : World),
      e.Primitive ∧ w.SmallRequest e →
      w.Sound ∧ w.Small ∧ Shows w.chunks.next w.viewChunk s → w.step e = some w' →
      ∃ s', run BlobStore.step s (w.chunkEvents e) = some s' ∧
        w'.Sound ∧ w'.Small ∧ Shows w'.chunks.next w'.viewChunk s' := by
    rintro w s e w' ⟨hop, hrequest⟩ ⟨hsound, hsmall, hs⟩ hstep
    obtain ⟨s', hs', hshow⟩ := shows_chunk_step hsound hsmall hop hrequest hs hstep
    exact ⟨s', hs', hsound.step hstep, small_step hsmall hsound hop hrequest hstep, hshow⟩
  obtain ⟨s', hs', -, hsmall', hshow⟩ := run_emitted_of_always hsim hguard ⟨hsound, hsmall, hs⟩
    (run_primitives hrun)
  exact ⟨hsmall', s', hs', hshow⟩

lemma shows_pages (hrun : runOps ops = some w) :
    ∃ s, run BlobStore.step .empty (pageHistory .init ops) = some s ∧
      Shows w.pages.next w.viewPage s := by
  have hempty : Shows World.init.pages.next World.init.viewPage .empty := ⟨rfl, fun _ => rfl⟩
  exact shows_page_run sound_init hempty hrun

lemma shows_chunks (hrun : runOps ops = some w)
    (hrequests : Always World.step World.SmallRequest .init ops) :
    w.Small ∧ ∃ s, run BlobStore.step .empty (chunkHistory .init ops) = some s ∧
      Shows w.chunks.next w.viewChunk s := by
  have hempty : Shows World.init.chunks.next World.init.viewChunk .empty := ⟨rfl, fun _ => rfl⟩
  have hnone : World.init.Small := fun i h hget => absurd hget (by simp [World.init])
  exact shows_chunk_run sound_init hnone hempty hrequests hrun

/-- The handles show the objects of the store, and a builder answers as its draft does. -/
structure Refines (next : ℕ) (view : ℕ → Option View)
    (respond : ℕ → Command UInt8 → Option (Reply × World)) (s : Arena (Item UInt8)) : Prop where
  shows : Shows next view s
  answers : ∀ i c (b : Buffer UInt8 c) r, s.get i = some (.draft b) →
    (respond i r).map Prod.fst = some (b.respond r).1

lemma Shows.view_draft {next c : ℕ} {view : ℕ → Option View} {s : Arena (Item UInt8)}
    {b : Buffer UInt8 c} (hs : Shows next view s) (hi : s.get i = some (.draft b)) :
    view i = some (.builder (.ofBuffer b)) := by
  rw [hs.view i, hi]
  rfl

/-- **The crate refines the store of drafts and blobs**, with any number of pools, tenants and
handles, recycled buffers and shared pages. -/
theorem store_refined (hrun : runOps ops = some w) :
    (∃ s, run BlobStore.step .empty (pageHistory .init ops) = some s ∧
      Refines w.pages.next w.viewPage (fun i r => w.respondPage i r) s) ∧
    (Always World.step World.SmallRequest .init ops →
      ∃ s, run BlobStore.step .empty (chunkHistory .init ops) = some s ∧
        Refines w.chunks.next w.viewChunk (fun i r => w.respondChunk i r) s) := by
  have ho := owned_run hrun
  constructor
  · obtain ⟨s, hs, hshow⟩ := shows_pages hrun
    refine ⟨s, hs, hshow, fun i c b r hi => ?_⟩
    obtain ⟨w', hrespond, -⟩ := refines_respondPage (viewPage_builder.1 (hshow.view_draft hi)) r
    rw [hrespond, Option.map_some]
  · intro hrequests
    obtain ⟨hsmall, s, hs, hshow⟩ := shows_chunks hrun hrequests
    refine ⟨s, hs, hshow, fun i c b r hi => ?_⟩
    obtain ⟨w', hrespond, -⟩ :=
      hsmall.respondChunk ho (viewChunk_builder.1 (hshow.view_draft hi)) r
    rw [hrespond, Option.map_some]

end Runs

/-- A page builder, and chunks from two of the `alloc_*` functions on one page. -/
def storeRun : List Op :=
  [.newPagePool 8, .newChunkPool 64, .allocatePage 0 0 (some 8), .appendPage 0 [1, 2],
    .allocFromChunk 1 0 [3, 4, 5] (some 16), .cloneChunk 0, .setLenPage 0 9,
    .allocWithLenChunk 1 1 4 ⟨fun _ => [6], fun _ => some 2⟩ none, .sealPage 0, .dropChunk 0]

theorem store_refined_storeRun : ∃ w s t, runOps storeRun = some w ∧
    run BlobStore.step .empty (pageHistory .init storeRun) = some s ∧
    Refines w.pages.next w.viewPage (fun i r => w.respondPage i r) s ∧
    run BlobStore.step .empty (chunkHistory .init storeRun) = some t ∧
    Refines w.chunks.next w.viewChunk (fun i r => w.respondChunk i r) t := by
  have hrun : (runOps storeRun).isSome := by decide +kernel
  have hrequests : Always World.step World.SmallRequest .init storeRun := by decide +kernel
  obtain ⟨w, hw⟩ := Option.isSome_iff_exists.1 hrun
  obtain ⟨⟨s, hs, hpages⟩, hchunks⟩ := store_refined hw
  obtain ⟨t, ht, hchunks⟩ := hchunks hrequests
  exact ⟨w, s, t, hw, hs, hpages, ht, hchunks⟩

end PagedAlloc.Sequential
