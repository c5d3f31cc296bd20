import PagedAlloc.Properties.Isolation
import Mathlib.Order.Interval.Finset.Nat

/-!
# Live bytes fit the address space

The buffers of live pages and the ranges claimed for live chunks do not overlap, wherever they
are, and they lie inside the 64-bit address space without its null byte.  So the sizes of all of
them sum to less than `2 ^ 64` (`live_bytes_lt`), and counters of live bytes do not wrap around.
-/

namespace PagedAlloc.Sequential

open Words Bytes

/-- The addresses of a page. -/
def PageHandle.footprint (h : PageHandle) : Finset ℕ := Finset.Ico h.buf (h.buf + h.capacity)

/-- The addresses claimed for a chunk. -/
def ChunkHandle.footprint (h : ChunkHandle) : Finset ℕ :=
  h.packed.elim ∅ fun arc => Finset.Ico (arc.page.buf + h.request.offset)
    (arc.page.buf + h.request.offset + h.request.size)

section Footprint

variable {c : Config} {i j : ℕ} {h h' : PageHandle} {g g' : ChunkHandle} {arc : PackedArc}

lemma disjoint_Ico {a n b k : ℕ} (hapart : Apart a n b k) :
    Disjoint (Finset.Ico a (a + n)) (Finset.Ico b (b + k)) := by
  rw [Finset.disjoint_left]
  intro x hx hx'
  rw [Finset.mem_Ico] at hx hx'
  unfold Apart at hapart
  omega

lemma footprint_of_packed (harc : g.packed = some arc) : g.footprint =
    Finset.Ico (arc.page.buf + g.request.offset)
      (arc.page.buf + g.request.offset + g.request.size) := by
  unfold ChunkHandle.footprint
  rw [harc]
  rfl

lemma card_footprint_page : h.footprint.card = h.capacity := by
  unfold PageHandle.footprint
  rw [Nat.card_Ico]
  omega

lemma Owned.card_footprint (ho : Owned c) (hget : c.world.chunks.get i = some g) :
    g.footprint.card = g.request.size := by
  cases hpacked : g.packed with
  | none =>
      unfold ChunkHandle.footprint
      rw [hpacked, (ho.fits.chunk i g hget).empty hpacked]
      rfl
  | some arc =>
      rw [footprint_of_packed hpacked, Nat.card_Ico]
      omega

/-- Pages are in different buffers. -/
lemma Owned.disjoint_pages (ho : Owned c) (hi : c.world.pages.get i = some h)
    (hj : c.world.pages.get j = some h') (hij : i ≠ j) : Disjoint h.footprint h'.footprint := by
  apply disjoint_Ico
  refine ho.blocks.apart _ (ho.mem_of_page hi).1 _ (ho.mem_of_page hj).1 ?_
  intro heq
  obtain ⟨hbuf, -, horigin⟩ := Block.mk.inj heq
  have hpool : h.pool = h'.pool := Origin.pool.inj horigin
  obtain ⟨p, hp, -⟩ := Option.map_eq_some_iff.1 (ho.fits.page i h hi)
  have hholders := ho.holders_le_one hp h.buf
  have hsum := Arena.add_le_sum (f := fun r : PageHandle =>
    if (h.pool, h.buf) = (r.pool, r.buf) then 1 else 0) hi hj hij
  rw [if_pos rfl, if_pos (by rw [hpool, hbuf])] at hsum
  unfold holders at hholders
  omega

/-- A page and a chunk are in different buffers. -/
lemma Owned.disjoint_page_chunk (ho : Owned c) (hi : c.world.pages.get i = some h)
    (hj : c.world.chunks.get j = some g) : Disjoint h.footprint g.footprint := by
  cases hpacked : g.packed with
  | none =>
      unfold ChunkHandle.footprint
      rw [hpacked]
      exact Finset.disjoint_empty_right _
  | some arc =>
      have hpage := ho.references.chunk j g arc hj hpacked
      have hrange := ((ho.fits.chunk j g hj).range arc hpacked).2
      rw [footprint_of_packed hpacked]
      apply disjoint_Ico
      have hapart := ho.blocks.apart _ (ho.mem_of_page hi).1 _ (ho.mem_of_packed hpage).1
        fun heq => by
          rw [page_of_block heq] at hpage
          exact (ho.packed_unheld hpage).2 i h hi rfl
      rw [base_block, size_block] at hapart
      exact hapart.mono (Nat.le_refl _) (Nat.le_refl _) (by omega) (by omega)

/-- Chunks are in different buffers, or their ranges are apart. -/
lemma Owned.disjoint_chunks (ho : Owned c) (hr : Ranges c.world.pools c.world.chunks)
    (hi : c.world.chunks.get i = some g) (hj : c.world.chunks.get j = some g') (hij : i ≠ j) :
    Disjoint g.footprint g'.footprint := by
  cases hpacked : g.packed with
  | none =>
      unfold ChunkHandle.footprint
      rw [hpacked]
      exact Finset.disjoint_empty_left _
  | some arc =>
      cases hpacked' : g'.packed with
      | none =>
          unfold ChunkHandle.footprint
          rw [hpacked']
          exact Finset.disjoint_empty_right _
      | some arc' =>
          have hpage := ho.references.chunk i g arc hi hpacked
          have hpage' := ho.references.chunk j g' arc' hj hpacked'
          have hrange := ((ho.fits.chunk i g hi).range arc hpacked).2
          have hrange' := ((ho.fits.chunk j g' hj).range arc' hpacked').2
          rw [footprint_of_packed hpacked, footprint_of_packed hpacked']
          apply disjoint_Ico
          by_cases hid : arc.id = arc'.id
          · have hapart := hr.apart i j g g' arc arc' hi hj hij hpacked hpacked' hid
            rw [hid, hpage'] at hpage
            rw [Option.some.inj hpage]
            unfold Apart at hapart ⊢
            omega
          · have hapart := ho.blocks.apart _ (ho.mem_of_packed hpage).1 _
              (ho.mem_of_packed hpage').1 fun heq => by
                rw [block_injective heq] at hpage
                exact hid (ho.eq_of_page_eq hpage hpage')
            rw [base_block, base_block, size_block, size_block] at hapart
            exact hapart.mono (by omega) (by omega) (by omega) (by omega)

/-- **The live bytes fit the address space.** -/
theorem Owned.live_bytes_lt (ho : Owned c) (hr : Ranges c.world.pools c.world.chunks) :
    c.world.pages.sum (fun h => h.capacity) + c.world.chunks.sum (fun g => g.request.size) <
      size64 := by
  have hpages : (c.world.pages.cover PageHandle.footprint).card =
      c.world.pages.sum fun h => h.capacity := by
    rw [Arena.card_cover fun i j h h' hi hj hij => ho.disjoint_pages hi hj hij]
    exact Arena.sum_ext fun i h hi => card_footprint_page
  have hchunks : (c.world.chunks.cover ChunkHandle.footprint).card =
      c.world.chunks.sum fun g => g.request.size := by
    rw [Arena.card_cover fun i j g g' hi hj hij => ho.disjoint_chunks hr hi hj hij]
    exact Arena.sum_ext fun i g hi => ho.card_footprint hi
  have hdisjoint : Disjoint (c.world.pages.cover PageHandle.footprint)
      (c.world.chunks.cover ChunkHandle.footprint) := by
    rw [Finset.disjoint_left]
    intro x hx hx'
    obtain ⟨i, h, hi, hx⟩ := Arena.mem_cover.1 hx
    obtain ⟨j, g, hj, hx'⟩ := Arena.mem_cover.1 hx'
    exact Finset.disjoint_left.1 (ho.disjoint_page_chunk hi hj) hx hx'
  have hinside : c.world.pages.cover PageHandle.footprint ∪
      c.world.chunks.cover ChunkHandle.footprint ⊆ Finset.Ico 1 size64 := by
    intro x hx
    rw [Finset.mem_Ico]
    rcases Finset.mem_union.1 hx with hx | hx
    · obtain ⟨i, h, hi, hx⟩ := Arena.mem_cover.1 hx
      obtain ⟨hne, -, hend⟩ := ho.blocks.bounds _ (ho.mem_of_page hi).1
      have hx := Finset.mem_Ico.1 hx
      dsimp only at hne hend
      omega
    · obtain ⟨j, g, hj, hx⟩ := Arena.mem_cover.1 hx
      cases hpacked : g.packed with
      | none =>
          unfold ChunkHandle.footprint at hx
          rw [hpacked] at hx
          exact absurd hx (by simp)
      | some arc =>
          have hpage := ho.references.chunk j g arc hj hpacked
          have hrange := ((ho.fits.chunk j g hj).range arc hpacked).2
          obtain ⟨hne, -, hend⟩ := ho.blocks.bounds _ (ho.mem_of_packed hpage).1
          rw [base_block] at hne hend
          rw [size_block] at hend
          rw [footprint_of_packed hpacked, Finset.mem_Ico] at hx
          omega
  have hcard := Finset.card_le_card hinside
  rw [Finset.card_union_of_disjoint hdisjoint, hpages, hchunks, Nat.card_Ico] at hcard
  have hpos := size64_pos
  omega

end Footprint

end PagedAlloc.Sequential
