import PagedAlloc.Properties.OwnershipRuns

/-!
# Ranges on shared pages

Many chunks share one page.  The ranges claimed for them are apart, and all of them lie below the
cursor of the page while it is open (`Ranges`); since a new range starts at or behind the cursor,
every move of the machine keeps this.

The handles do not keep the range that was claimed but its image under the casts to `u32`.  On
pages below `2 ^ 32` bytes the two are the same, so the ranges that the handles expose are apart
as well; from `2 ^ 32` bytes on they differ for some request (`packedSound_iff`), and ranges of
different chunks can then overlap (`packed_overlap`).
-/

namespace PagedAlloc.Sequential

open Words Bytes Transition

/-- The ranges claimed on one page are apart, and those on an open page end at or below its
cursor. -/
structure Ranges (pools : Arena Pool) (chunks : Arena ChunkHandle) : Prop where
  apart : ∀ i j h g arc arc', chunks.get i = some h → chunks.get j = some g → i ≠ j →
    h.packed = some arc → g.packed = some arc' → arc.id = arc'.id →
    Apart h.request.offset h.request.size g.request.offset g.request.size
  below : ∀ i h arc id p o, chunks.get i = some h → h.packed = some arc →
    pools.get id = some p → p.owner.current = some o → arc.id = o.shared.id →
    h.request.offset + h.request.size ≤ o.writeOffset
  cursor : ∀ id p o, pools.get id = some p → p.owner.current = some o → o.writeOffset ≤ p.pageSize

section Ranges

variable {pools : Arena Pool} {chunks chunks' : Arena ChunkHandle} {id k a : ℕ} {p p' : Pool}
  {h : ChunkHandle}

lemma ranges_init : Ranges .empty .empty := by
  constructor
  case apart => exact fun i j h g arc arc' hi => absurd hi (by simp)
  case below => exact fun i h arc id p o hi => absurd hi (by simp)
  case cursor => exact fun id p o hget => absurd hget (by simp)

/-- A pool changes, and its open page stays as it is or is closed. -/
lemma Ranges.setPool (hr : Ranges pools chunks) (hget : pools.get id = some p)
    (hsize : p'.pageSize = p.pageSize)
    (hcurrent : ∀ o, p'.owner.current = some o → p.owner.current = some o) :
    Ranges (pools.set id p') chunks where
  apart := hr.apart
  below i h arc j q o hi harc hq ho hid := by
    rw [Arena.get_set hget] at hq
    split at hq
    · obtain rfl := Option.some.inj hq
      exact hr.below i h arc id p o hi harc hget (hcurrent o ho) hid
    · exact hr.below i h arc j q o hi harc hq ho hid
  cursor j q o hq ho := by
    rw [Arena.get_set hget] at hq
    split at hq
    · obtain rfl := Option.some.inj hq
      rw [hsize]
      exact hr.cursor id p o hget (hcurrent o ho)
    · exact hr.cursor j q o hq ho

lemma Ranges.pushPool (hr : Ranges pools chunks) (hcurrent : p.owner.current = none) :
    Ranges (pools.push p) chunks where
  apart := hr.apart
  below i h arc j q o hi harc hq ho hid := by
    rw [Arena.get_push] at hq
    split at hq
    · obtain rfl := Option.some.inj hq
      exact absurd (hcurrent.symm.trans ho) (by simp)
    · exact hr.below i h arc j q o hi harc hq ho hid
  cursor j q o hq ho := by
    rw [Arena.get_push] at hq
    split at hq
    · obtain rfl := Option.some.inj hq
      exact absurd (hcurrent.symm.trans ho) (by simp)
    · exact hr.cursor j q o hq ho

lemma Ranges.erasePool (hr : Ranges pools chunks) : Ranges (pools.erase id) chunks where
  apart := hr.apart
  below i h arc j q o hi harc hq :=
    hr.below i h arc j q o hi harc (Arena.get_of_get_erase hq).2
  cursor j q o hq := hr.cursor j q o (Arena.get_of_get_erase hq).2

/-- A page without chunks is opened. -/
lemma Ranges.openPage {o : OpenPage} (hr : Ranges pools chunks) (hget : pools.get id = some p)
    (hcurrent : p'.owner.current = some o) (hfresh : o.writeOffset = 0)
    (hnone : ∀ i h arc, chunks.get i = some h → h.packed = some arc → arc.id ≠ o.shared.id) :
    Ranges (pools.set id p') chunks where
  apart := hr.apart
  below i h arc j q o' hi harc hq ho' hid := by
    rw [Arena.get_set hget] at hq
    split at hq
    · obtain rfl := Option.some.inj hq
      obtain rfl : o = o' := Option.some.inj (hcurrent.symm.trans ho')
      exact absurd hid (hnone i h arc hi harc)
    · exact hr.below i h arc j q o' hi harc hq ho' hid
  cursor j q o' hq ho' := by
    rw [Arena.get_set hget] at hq
    split at hq
    · obtain rfl := Option.some.inj hq
      obtain rfl : o = o' := Option.some.inj (hcurrent.symm.trans ho')
      rw [hfresh]
      exact Nat.zero_le _
    · exact hr.cursor j q o' hq ho'

/-- Chunks are dropped, or change without moving. -/
lemma Ranges.setChunks (hr : Ranges pools chunks)
    (hsame : ∀ i h', chunks'.get i = some h' →
      ∃ h, chunks.get i = some h ∧ h'.packed = h.packed ∧ h'.request = h.request) :
    Ranges pools chunks' where
  apart i j h g arc arc' hi hj hij harc harc' hid := by
    obtain ⟨h₀, hi₀, hpacked, hrequest⟩ := hsame i h hi
    obtain ⟨g₀, hj₀, hpacked', hrequest'⟩ := hsame j g hj
    rw [hrequest, hrequest']
    exact hr.apart i j h₀ g₀ arc arc' hi₀ hj₀ hij (hpacked ▸ harc) (hpacked' ▸ harc') hid
  below i h arc id p o hi harc hget ho hid := by
    obtain ⟨h₀, hi₀, hpacked, hrequest⟩ := hsame i h hi
    rw [hrequest]
    exact hr.below i h₀ arc id p o hi₀ (hpacked ▸ harc) hget ho hid
  cursor := hr.cursor

/-- A new chunk, apart from all others on its page. -/
lemma Ranges.pushChunk (hr : Ranges pools chunks)
    (hapart : ∀ j g arc arc', chunks.get j = some g → h.packed = some arc → g.packed = some arc' →
      arc.id = arc'.id → Apart h.request.offset h.request.size g.request.offset g.request.size)
    (hbelow : ∀ arc id p o, h.packed = some arc → pools.get id = some p →
      p.owner.current = some o → arc.id = o.shared.id →
      h.request.offset + h.request.size ≤ o.writeOffset) : Ranges pools (chunks.push h) where
  apart i j f g arc arc' hi hj hij harc harc' hid := by
    rw [Arena.get_push] at hi hj
    split at hi
    · split at hj
      · omega
      · obtain rfl := Option.some.inj hi
        exact hapart j g arc arc' hj harc harc' hid
    · split at hj
      · obtain rfl := Option.some.inj hj
        exact (hapart i f arc' arc hi harc' harc hid.symm).symm
      · exact hr.apart i j f g arc arc' hi hj hij harc harc' hid
  below i f arc id p o hi harc hget ho hid := by
    rw [Arena.get_push] at hi
    split at hi
    · obtain rfl := Option.some.inj hi
      exact hbelow arc id p o harc hget ho hid
    · exact hr.below i f arc id p o hi harc hget ho hid
  cursor := hr.cursor

/-- The cursor of an open page moves on. -/
lemma Ranges.advance {o o' : OpenPage} (hr : Ranges pools chunks) (hget : pools.get id = some p)
    (hcurrent : p.owner.current = some o) (hcurrent' : p'.owner.current = some o')
    (hshared : o'.shared = o.shared) (hle : o.writeOffset ≤ o'.writeOffset)
    (hend : o'.writeOffset ≤ p'.pageSize) : Ranges (pools.set id p') chunks where
  apart := hr.apart
  below i h arc j q x hi harc hq hx hid := by
    rw [Arena.get_set hget] at hq
    split at hq
    · obtain rfl := Option.some.inj hq
      obtain rfl : o' = x := Option.some.inj (hcurrent'.symm.trans hx)
      rw [hshared] at hid
      exact (hr.below i h arc id p o hi harc hget hcurrent hid).trans hle
    · exact hr.below i h arc j q x hi harc hq hx hid
  cursor j q x hq hx := by
    rw [Arena.get_set hget] at hq
    split at hq
    · obtain rfl := Option.some.inj hq
      obtain rfl : o' = x := Option.some.inj (hcurrent'.symm.trans hx)
      exact hend
    · exact hr.cursor j q x hq hx

end Ranges

section Moves

variable {c c' : Config} {w w' : World} {ops : List Op}

/-- A page is open in one pool only. -/
lemma Owned.eq_of_current {id j : ℕ} {p q : Pool} {o x : OpenPage} (ho : Owned c)
    (hp : c.world.pools.get id = some p) (hcurrent : p.owner.current = some o)
    (hq : c.world.pools.get j = some q) (hcurrent' : q.owner.current = some x)
    (hid : o.shared.id = x.shared.id) : j = id := by
  obtain ⟨hpage, hrelease⟩ := ho.references.current id p o hp hcurrent
  obtain ⟨hpage', hrelease'⟩ := ho.references.current j q x hq hcurrent'
  rw [hid, hpage'] at hpage
  rw [Option.some.inj hpage, hrelease] at hrelease'
  exact (Release.pool.inj hrelease').symm

/-- **One move.** -/
lemma Ranges.move (ho : Owned c) (hr : Ranges c.world.pools c.world.chunks) (hmove : Move c c') :
    Ranges c'.world.pools c'.world.chunks := by
  cases hmove with
  | stats hget st => exact hr.setPool hget rfl fun o ho => ho
  | newPool hle hvalid hfresh =>
      refine hr.pushPool ?_
      rcases hfresh with rfl | rfl <;> rfl
  | popLocal hget hne st =>
      refine hr.setPool hget rfl ?_
      intro o ho
      rwa [Owner.current_setLocalHead] at ho
  | drain hget hlive hempty st =>
      refine hr.setPool hget rfl ?_
      intro o ho
      rwa [Owner.current_setLocalHead] at ho
  | linkLocal hget hlive =>
      refine hr.setPool hget rfl ?_
      intro o ho
      rwa [Owner.current_setLocalHead] at ho
  | pushReturn hget st => exact hr.setPool hget rfl fun o ho => ho
  | releaseLocal hget hlive hchain => exact hr.setPool hget rfl fun o ho => ho
  | cloneShared hget => exact hr.setPool hget rfl fun o ho => ho
  | dropShared hget hshared => exact hr.setPool hget rfl fun o ho => ho
  | freeShared hget hlast hnone hchain => exact hr.erasePool
  | takeCurrent hget hcurrent =>
      refine hr.setPool hget rfl ?_
      intro o ho
      rw [Owner.current_setCurrent_none] at ho
      exact absurd ho (by simp)
  | setCurrent hget howner honly =>
      exact hr.openPage hget rfl rfl (ho.references.ne_of_last honly rfl).2.1
  | @claim w B S P id p o q size align tenant hpos halign hget hroom harc =>
      obtain ⟨hcurrent, hend⟩ := le_of_room (ho.blocks.pageSize id p hget).2 hroom
      obtain ⟨hbuf, hspace, -⟩ := ho.buf_of_current hget hcurrent
      have hcursor := hr.cursor id p o hget hcurrent
      -- The new range starts at or behind the cursor.
      have hstart := (alignedOffset_spec halign hbuf (by omega)).1
      have hcurrent' : (p.claim o size align).owner.current =
          some { o with writeOffset := o.alignedOffset align + size } :=
        Owner.current_setCurrent hcurrent
      have hpool : Ranges (w.pools.set id (p.claim o size align)) w.chunks :=
        hr.advance hget hcurrent hcurrent' rfl (by dsimp only; omega) hend
      refine hpool.pushChunk (fun j g arc arc' hj harc harc' hid => ?_)
        fun arc j q x harc hq hx hid => ?_
      · obtain rfl := Option.some.inj harc
        have hbelow := hr.below j g arc' id p o hj harc' hget hcurrent hid.symm
        exact Or.inr (hbelow.trans hstart)
      · obtain rfl := Option.some.inj harc
        rw [Arena.get_set hget] at hq
        split at hq
        · obtain rfl := Option.some.inj hq
          obtain rfl := Option.some.inj (hcurrent'.symm.trans hx)
          exact Nat.le_refl _
        · rename_i hj
          exact absurd (ho.eq_of_current hget hcurrent hq hx hid) hj
  | @newChunk w B S P size q id tenant c honly hempty =>
      cases q with
      | none =>
          refine hr.pushChunk (fun j g arc arc' hj harc => ?_) fun arc j q x harc => ?_
          · exact absurd harc (by simp [newBuilder])
          · exact absurd harc (by simp [newBuilder])
      | some arc =>
          -- The reference in hand is the only one, so the page has no other chunk.
          obtain ⟨-, hchunks, hpools⟩ := ho.references.ne_of_last (honly arc rfl).1 rfl
          refine hr.pushChunk (fun j g arc₁ arc' hj harc harc' hid => ?_)
            fun arc₁ j q x harc hq hx hid => ?_
          · obtain rfl := Option.some.inj harc
            exact absurd hid.symm (hchunks j g arc' hj harc')
          · obtain rfl := Option.some.inj harc
            exact absurd hid.symm (hpools j q x hq hx)
  | removeChunk hget =>
      exact hr.setChunks fun i h' hi => ⟨h', (Arena.get_of_get_erase hi).2, rfl, rfl⟩
  | @setChunk w B S P i h h' hget hsame =>
      apply hr.setChunks
      intro j g hj
      rw [Arena.get_set hget] at hj
      split at hj
      · rename_i heq
        obtain rfl := Option.some.inj hj
        exact ⟨h, heq ▸ hget, hsame.packed, hsame.request⟩
      · exact ⟨g, hj, rfl, rfl⟩
  | _ => exact hr

lemma Ranges.moves (ho : Owned c) (hr : Ranges c.world.pools c.world.chunks)
    (hmoves : Moves c c') : Ranges c'.world.pools c'.world.chunks := by
  induction hmoves with
  | refl => exact hr
  | tail hbefore hmove ih => exact ih.move (ho.moves hbefore) hmove

lemma ranges_run (h : runOps ops = some w) : Ranges w.pools w.chunks :=
  ranges_init.moves owned_init (custody_run owned_init h)

/-- Pools keep their page size. -/
lemma later_pools (hmove : Move c c') :
    Arena.Later (fun p p' : Pool => p'.pageSize = p.pageSize) c.world.pools c'.world.pools := by
  have hrefl : ∀ p : Pool, p.pageSize = p.pageSize := fun _ => rfl
  cases hmove with
  | stats hget st => exact Arena.later_set hrefl hget rfl
  | newPool hle hvalid hfresh => exact Arena.later_push hrefl
  | popLocal hget hne st => exact Arena.later_set hrefl hget rfl
  | drain hget hlive hempty st => exact Arena.later_set hrefl hget rfl
  | linkLocal hget hlive => exact Arena.later_set hrefl hget rfl
  | pushReturn hget st => exact Arena.later_set hrefl hget rfl
  | releaseLocal hget hlive hchain => exact Arena.later_set hrefl hget rfl
  | cloneShared hget => exact Arena.later_set hrefl hget rfl
  | dropShared hget hshared => exact Arena.later_set hrefl hget rfl
  | freeShared hget hlast hnone hchain => exact Arena.later_erase hrefl
  | takeCurrent hget hcurrent => exact Arena.later_set hrefl hget rfl
  | setCurrent hget howner honly => exact Arena.later_set hrefl hget rfl
  | claim tenant hpos halign hget hroom harc => exact Arena.later_set hrefl hget rfl
  | _ => exact Arena.Later.refl hrefl

lemma later_pools_moves (hmoves : Moves c c') :
    Arena.Later (fun p p' : Pool => p'.pageSize = p.pageSize) c.world.pools c'.world.pools := by
  induction hmoves with
  | refl => exact Arena.Later.refl fun _ => rfl
  | tail _ hmove ih => exact ih.trans (fun _ _ _ h h' => h'.trans h) (later_pools hmove)

end Moves

/-! ## Ranges after the casts -/

section Stored

variable {c : Config} {w w' : World} {ops : List Op} {i j id : ℕ} {h g : ChunkHandle}
  {arc : PackedArc} {p : Pool}

/-- On a page below `2 ^ 32` bytes the casts do nothing. -/
lemma Owned.stored (ho : Owned c) (hget : c.world.chunks.get i = some h)
    (harc : h.packed = some arc) (hrelease : arc.page.release = .pool id)
    (hpool : c.world.pools.get id = some p) (hlt : p.pageSize < size32) :
    h.offset = h.request.offset ∧ h.capacity = h.request.size := by
  have hfits := ho.fits.chunk i h hget
  have hrange := (hfits.range arc harc).2
  rw [size_of_pool hpool hrelease] at hrange
  constructor
  · rw [hfits.offset]
    exact (truncate32_eq_iff _).2 (by omega)
  · rw [hfits.capacity]
    exact (truncate32_eq_iff _).2 (by omega)

/-- The pool behind a chunk is live. -/
lemma Owned.pool_of_chunk (ho : Owned c) (hget : c.world.chunks.get i = some h)
    (harc : h.packed = some arc) (hrelease : arc.page.release = .pool id) :
    ∃ p, c.world.pools.get id = some p := by
  have hpage := ho.references.chunk i h arc hget harc
  rw [show arc.page = ⟨arc.page.buf, .pool id⟩ by rw [← hrelease]] at hpage
  exact ho.references.pool_of_packed hpage

/-- The chunk is not on a page of a pool with `2 ^ 32` bytes a page or more. -/
def ChunkHandle.OnSmallPage (pools : Arena Pool) (h : ChunkHandle) : Prop :=
  ∀ arc id p, h.packed = some arc → arc.page.release = .pool id → pools.get id = some p →
    p.pageSize < size32

/-- Its offset is the one that was claimed. -/
lemma Owned.offset_eq (ho : Owned c) (hget : c.world.chunks.get i = some h)
    (hsmall : h.OnSmallPage c.world.pools) (harc : h.packed = some arc) :
    h.offset = h.request.offset := by
  cases hrelease : arc.page.release with
  | pool id =>
      obtain ⟨p, hp⟩ := ho.pool_of_chunk hget harc hrelease
      exact (ho.stored hget harc hrelease hp (hsmall arc id p harc hrelease hp)).1
  | heap l =>
      have hfits := ho.fits.chunk i h hget
      rw [hfits.offset, hfits.heap arc l harc hrelease]
      rfl

/-- The ranges of two handles on one such page are apart. -/
lemma Owned.apart_of_chunks (ho : Owned c) (hr : Ranges c.world.pools c.world.chunks)
    (hi : c.world.chunks.get i = some h) (hj : c.world.chunks.get j = some g) (hij : i ≠ j)
    (harc : h.packed = some arc) (harc' : g.packed = some arc)
    (hsmall : h.OnSmallPage c.world.pools) : Apart h.offset h.capacity g.offset g.capacity := by
  have hsmall' : g.OnSmallPage c.world.pools := by
    intro arc' id p hg
    obtain rfl : arc = arc' := Option.some.inj (harc'.symm.trans hg)
    exact hsmall arc id p harc
  have hoffset := ho.offset_eq hi hsmall harc
  have hoffset' := ho.offset_eq hj hsmall' harc'
  have hcapacity : h.capacity ≤ h.request.size := by
    rw [(ho.fits.chunk i h hi).capacity]
    exact truncate32_le _
  have hcapacity' : g.capacity ≤ g.request.size := by
    rw [(ho.fits.chunk j g hj).capacity]
    exact truncate32_le _
  have hapart := hr.apart i j h g arc arc hi hj hij harc harc' rfl
  exact hapart.mono (by omega) (by omega) (by omega) (by omega)

/-- Every chunk on a page of the pool has the range that was claimed for it, and the ranges of two
chunks on one page are apart. -/
structure World.PackedSound (w : World) (id : ℕ) : Prop where
  stored : ∀ i h arc, w.chunks.get i = some h → h.packed = some arc →
    arc.page.release = .pool id → h.offset = h.request.offset ∧ h.capacity = h.request.size
  apart : ∀ i j h g arc, w.chunks.get i = some h → w.chunks.get j = some g → i ≠ j →
    h.packed = some arc → g.packed = some arc → arc.page.release = .pool id →
    Apart h.offset h.capacity g.offset g.capacity

lemma Owned.packedSound (ho : Owned w.idle) (hr : Ranges w.pools w.chunks)
    (hlt : ∀ p, w.pools.get id = some p → p.pageSize < size32) : w.PackedSound id where
  stored i h arc hget harc hrelease := by
    obtain ⟨p, hp⟩ := ho.pool_of_chunk hget harc hrelease
    exact ho.stored hget harc hrelease hp (hlt p hp)
  apart i j h g arc hi hj hij harc harc' hrelease := by
    refine ho.apart_of_chunks hr hi hj hij harc harc' ?_
    intro arc₁ id₁ p harc₁ hrelease₁ hp
    obtain rfl : arc = arc₁ := Option.some.inj (harc.symm.trans harc₁)
    obtain rfl : id = id₁ := Release.pool.inj (hrelease.symm.trans hrelease₁)
    exact hlt p hp

/-- A raw page is there whenever the source can supply one. -/
lemma exists_allocateRawPage {a : ℕ} (hget : w.pools.get id = some p)
    (hsupplies : w.Supplies p.layout a) :
    ∃ x w', w.allocateRawPage id (some a) = .done x w' := by
  have htake : ∃ x w', w.takeBuffer id p (some a) = .done x w' := by
    unfold World.takeBuffer
    split
    · exact ⟨_, _, rfl⟩
    · split
      · exact ⟨_, _, rfl⟩
      · exact ⟨_, _, if_pos hsupplies⟩
  obtain ⟨x, w', htake⟩ := htake
  unfold World.allocateRawPage
  rw [hget]
  dsimp only
  rw [htake]
  exact ⟨_, _, rfl⟩

/-- A request for a whole page of a new pool goes to a page of its own, and its builder gets the
capacity after the cast. -/
lemma exists_wholePage {pageSize : ℕ} (hle : defaultAlign ≤ pageSize)
    (hvalid : Layout.Valid ⟨pageSize, defaultAlign⟩) :
    ∃ w i h arc, runOps [.newChunkPool pageSize, .allocateChunk 0 0 pageSize defaultAlign (some 8)] =
        some w ∧ w.chunks.get i = some h ∧ h.packed = some arc ∧ arc.page.release = .pool 0 ∧
        h.capacity = truncate32 pageSize ∧ h.request.size = pageSize := by
  obtain ⟨w, hstep, hpool, hblocks⟩ : ∃ w, World.init.step (.newChunkPool pageSize) = some w ∧
      w.chunkPool 0 = some ⟨pageSize, 0, PoolStats.default, 1, .chunkPool 0 none⟩ ∧
      w.blocks = 0 := ⟨_, congrArg Outcome.final (if_pos ⟨hle, hvalid⟩), rfl, rfl⟩
  have hget := (World.chunkPool_eq_some hpool).1
  have hsupplies : w.Supplies ⟨pageSize, defaultAlign⟩ 8 := by
    refine ⟨by decide, ?_, ?_, fun b hb => ?_⟩
    · show 8 % defaultAlign = 0
      decide
    · have hlt := hvalid.2
      rw [size64_eq]
      unfold defaultAlign at hlt
      dsimp only at hlt ⊢
      omega
    · rw [hblocks] at hb
      exact absurd hb (Multiset.notMem_zero b)
  have hclass : sizeClass pageSize pageSize defaultAlign = .dedicated := by
    unfold defaultAlign at hle
    unfold sizeClass
    dsimp only
    rw [if_neg (by omega), if_pos (Nat.le_refl _), if_neg (Nat.lt_irrefl _), if_pos (by omega)]
  obtain ⟨x, w₁, hraw⟩ := exists_allocateRawPage hget hsupplies
  have halloc : w.allocateAligned 0 0 ⟨pageSize, 0, PoolStats.default, 1, .chunkPool 0 none⟩
      pageSize defaultAlign (some 8) = (w₁.wrapPage 0 x).2.returnBuilder 0 0 pageSize .dedicated
        (some (w₁.wrapPage 0 x).1) 0 := by
    unfold World.allocateAligned
    rw [if_pos (by decide), hclass]
    dsimp only
    unfold World.allocateDedicated
    rw [hraw]
    rfl
  have hstep' : w.step (.allocateChunk 0 0 pageSize defaultAlign (some 8)) =
      ((w₁.wrapPage 0 x).2.returnBuilder 0 0 pageSize .dedicated
        (some (w₁.wrapPage 0 x).1) 0).final := by
    show (w.chunkPool 0).bind _ = _
    rw [hpool, Option.bind_some, halloc]
  refine ⟨_, _, _, (w₁.wrapPage 0 x).1,
    run_cons_eq_some.2 ⟨w, hstep, run_cons_eq_some.2 ⟨_, hstep', rfl⟩⟩, Arena.get_push_self, rfl,
    rfl, rfl, rfl⟩

/-- **Packed chunks are sound exactly below `2 ^ 32` bytes a page.** The property holds after every
sequence of allocations, whether `A` admits those of `allocate` alone or any other operations too,
on a pool with pages of the given size if and only if the size is below `2 ^ 32`. -/
theorem packedSound_iff {pageSize : ℕ} {A : Op → Prop}
    (haccepted : defaultAlign ≤ pageSize ∧ Layout.Valid ⟨pageSize, defaultAlign⟩)
    (hallocate : ∀ id t size reply, A (.allocateChunk id t size defaultAlign reply)) :
    (∀ ops w, (∀ op ∈ ops, A op) → runOps (.newChunkPool pageSize :: ops) = some w →
      w.PackedSound 0) ↔ pageSize < size32 := by
  constructor
  · intro hsound
    obtain ⟨w, i, h, arc, hrun, hget, harc, hrelease, hcapacity, hsize⟩ :=
      exists_wholePage haccepted.1 haccepted.2
    have hstored := (hsound _ w (by simp [hallocate]) hrun).stored i h arc hget harc hrelease
    rw [hcapacity, hsize] at hstored
    exact (truncate32_eq_iff _).1 hstored.2
  · intro hlt ops w _ hrun
    obtain ⟨w₁, hstep, hrest⟩ := run_cons_eq_some.1 hrun
    have howned : Owned w₁.idle := owned_init.moves (custody_step owned_init hstep)
    refine (owned_run hrun).packedSound (ranges_run hrun) ?_
    intro p hp
    -- The pool has been there since the first step.
    have hlater := later_pools_moves (custody_run howned hrest)
    obtain rfl := Option.some.inj
      (hstep.symm.trans (congrArg Outcome.final (if_pos haccepted)))
    obtain ⟨p₁, hp₁, hsize⟩ := hlater.get 0 p Nat.zero_lt_one hp
    obtain rfl := Option.some.inj (Arena.get_push_self.symm.trans hp₁)
    rw [hsize]
    exact hlt

/-- Three chunks on a page of 64 bytes. -/
theorem packedSound_iff_small : ∃ w, runOps [.newChunkPool 64, .allocateChunk 0 0 8 8 (some 8),
    .allocateChunk 0 0 24 8 none, .allocateChunk 0 0 8 8 none] = some w ∧ w.PackedSound 0 := by
  obtain ⟨w, hw⟩ := Option.isSome_iff_exists.1 (show (runOps [.newChunkPool 64,
    .allocateChunk 0 0 8 8 (some 8), .allocateChunk 0 0 24 8 none,
    .allocateChunk 0 0 8 8 none]).isSome = true by decide +kernel)
  have hsound := (packedSound_iff (A := fun _ => True)
    (show defaultAlign ≤ 64 ∧ Layout.Valid ⟨64, defaultAlign⟩ by decide)
    fun _ _ _ _ => trivial).2 (by decide)
  exact ⟨w, hw, hsound _ w (fun _ _ => trivial) hw⟩

/-- On a page of `2 ^ 33` bytes, chunks of 8, `2 ^ 32 - 8` and 8 bytes. -/
def overlapRun : List Op :=
  [.newChunkPool (2 ^ 33), .allocateChunk 0 0 8 8 (some 8),
    .allocateChunk 0 0 (2 ^ 32 - 8) 8 none, .allocateChunk 0 0 8 8 none]

/-- The third one was claimed at offset `2 ^ 32`; its builder writes to the bytes of the first. -/
theorem packed_overlap : ∃ w h g arc, runOps overlapRun = some w ∧ w.chunks.get 0 = some h ∧
    w.chunks.get 2 = some g ∧ h.packed = some arc ∧ g.packed = some arc ∧
    arc.page.release = .pool 0 ∧ g.request.offset = size32 ∧ g.offset = h.offset ∧
    ¬ Apart h.offset h.capacity g.offset g.capacity := by
  have heval : (runOps overlapRun).any (fun w => decide (
      (w.chunks.get 0).map (fun h => (h.packed, h.offset, h.capacity)) =
        some (some ⟨0, ⟨8, .pool 0⟩⟩, 0, 8) ∧
      (w.chunks.get 2).map (fun g => (g.packed, g.offset, g.capacity, g.request.offset)) =
        some (some ⟨0, ⟨8, .pool 0⟩⟩, 0, 8, size32))) = true := by
    decide +kernel
  obtain ⟨w, hw, heval⟩ := (Option.any_eq_true _ _).1 heval
  obtain ⟨hfirst, hthird⟩ := of_decide_eq_true heval
  obtain ⟨h, hh, hfields⟩ := Option.map_eq_some_iff.1 hfirst
  obtain ⟨g, hg, hfields'⟩ := Option.map_eq_some_iff.1 hthird
  simp only [Prod.mk.injEq] at hfields hfields'
  obtain ⟨hpacked, hoffset, hcapacity⟩ := hfields
  obtain ⟨hpacked', hoffset', hcapacity', hrequest⟩ := hfields'
  refine ⟨w, h, g, _, hw, hh, hg, hpacked, hpacked', rfl, hrequest, ?_, ?_⟩
  · rw [hoffset, hoffset']
  · rw [hoffset, hoffset', hcapacity, hcapacity']
    decide

end Stored

end PagedAlloc.Sequential
