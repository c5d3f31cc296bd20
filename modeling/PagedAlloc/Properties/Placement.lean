import PagedAlloc.Properties.Charge
import PagedAlloc.Properties.Ranges

/-!
# Where a chunk is placed

Every chunk that `allocate_aligned` returns starts at an aligned address and ends inside its
buffer, on whichever path it was placed (`chunk_placement`).  What each path does is
`placed_allocateAligned`; that ranges are inside their buffers is part of the invariant.
-/

namespace PagedAlloc.Sequential

open Words Transition

/-- Where the chunk of a request was placed, on the path of its size class. -/
def PlacedAt (id size align : ℕ) (arc : PackedArc) (offset : ℕ) : SizeClass → Prop
  | .zero => False
  | .packed => arc.page.release = .pool id ∧ (arc.page.buf + offset) % align = 0
  | .dedicated => arc.page.release = .pool id ∧ offset = 0 ∧ align ≤ defaultAlign
  | .oversized => arc.page.release = .heap ⟨size, max align defaultAlign⟩ ∧ offset = 0

section Placement

variable {w w' : World} {ops : List Op} {id tenant size align i l : ℕ} {p : Pool}
  {reply : Option ℕ} {c : Option OpenPage} {arc : PackedArc}

lemma placed_allocateAligned (ho : Owned w.idle) (hr : Ranges w.pools w.chunks)
    (hget : w.pools.get id = some p) (howner : p.owner = .chunkPool l c) (hpos : 0 < size) :
    (w.allocateAligned id tenant p size align reply).Post
      (fun i w' => ∃ arc offset, w'.chunks.get i = some (newBuilder id tenant size
        (sizeClass p.pageSize size align) (some arc) offset) ∧
        PlacedAt id size align arc offset (sizeClass p.pageSize size align))
      fun _ => True := by
  have hlive := Owner.live_of_chunkPool howner
  unfold World.allocateAligned
  split
  · rename_i halign
    cases hclass : sizeClass p.pageSize size align with
    | zero => exact absurd (sizeClass_eq_zero.1 hclass) (by omega)
    | packed =>
        refine Outcome.Post.bind (custody_findPage ho hget howner halign hclass).returns ?_
        rintro r w' ⟨w₁, p₁, o, q, hmoves, hget₁, hroom, hq, rfl, rfl⟩
        have ho₁ := ho.moves hmoves
        have hcurrent := (le_of_room (ho₁.blocks.pageSize id p₁ hget₁).2 hroom).1
        have hcursor := (hr.moves ho hmoves).cursor id p₁ o hget₁ hcurrent
        obtain ⟨hbuf, hend, -⟩ := ho₁.buf_of_current hget₁ hcurrent
        have hspec := alignedOffset_spec halign hbuf (by omega)
        have hrelease := (ho₁.references.current id p₁ o hget₁ hcurrent).2
        exact Outcome.post_done ⟨o.shared, _, Arena.get_push_self, hrelease, hspec.2.2⟩
    | dedicated =>
        refine Outcome.Post.bind (custody_allocateRawPage hget hlive).returns ?_
        rintro a w₁ -
        exact Outcome.post_done ⟨_, 0, Arena.get_push_self, rfl, rfl,
          (le_of_sizeClass_dedicated hclass).2.2⟩
    | oversized =>
        apply World.post_allocateOversized
        · exact fun _ a _ => Outcome.post_done ⟨_, 0, Arena.get_push_self, rfl, rfl⟩
        · exact fun _ => trivial
  · exact Outcome.post_panicked trivial

/-- Powers of two up to `b` divide a multiple of `b`. -/
lemma mod_eq_zero_of_le {a b : ℕ} (halign : IsPowerOfTwo align) (hb : IsPowerOfTwo b)
    (hle : align ≤ b) (ha : a % b = 0) : a % align = 0 := by
  obtain ⟨k, -, rfl⟩ := halign
  obtain ⟨n, -, rfl⟩ := hb
  have hkn : k ≤ n := (Nat.pow_le_pow_iff_right (by decide)).1 hle
  exact Nat.mod_eq_zero_of_dvd ((Nat.pow_dvd_pow 2 hkn).trans (Nat.dvd_of_mod_eq_zero ha))

/-- The buffer of a chunk is aligned as its allocator was asked to. -/
lemma Owned.buf_of_chunk {hd : ChunkHandle} (ho : Owned w.idle) (hget : w.chunks.get i = some hd)
    (harc : hd.packed = some arc) :
    match arc.page.release with
    | .pool _ => arc.page.buf % defaultAlign = 0
    | .heap layout => arc.page.buf % layout.align = 0 := by
  have hblock := ho.blocks.aligned _ (ho.mem_of_packed (ho.references.chunk i hd arc hget harc)).1
  unfold PackedPage.block at hblock
  cases hrelease : arc.page.release with
  | pool id =>
      rw [hrelease] at hblock
      exact hblock
  | heap layout =>
      rw [hrelease] at hblock
      exact hblock

/-- **Alignment and containment on every path.** -/
theorem chunk_placement (h : runOps ops = some w) (hp : w.chunkPool id = some p)
    (hsmall : p.pageSize < 2 ^ 32) (halign : IsPowerOfTwo align) (hpos : 0 < size)
    (hdone : w.allocateAligned id tenant p size align reply = .done i w') :
    ∃ hd arc, w'.chunks.get i = some hd ∧ hd.packed = some arc ∧
      hd.base = some (arc.page.buf + hd.offset) ∧ (arc.page.buf + hd.offset) % align = 0 ∧
      match sizeClass p.pageSize size align with
      | .zero => False
      | .packed => arc.page.release = .pool id ∧ hd.offset + size ≤ p.pageSize
      | .dedicated => arc.page.release = .pool id ∧ hd.offset + size ≤ p.pageSize ∧
          align ≤ defaultAlign
      | .oversized => ∃ layout, arc.page.release = .heap layout ∧
          hd.offset + size ≤ layout.size := by
  obtain ⟨hget, l, c, howner⟩ := World.chunkPool_eq_some hp
  have ho : Owned w.idle := owned_run h
  have hplaced : (w.allocateAligned id tenant p size align reply).Post _ _ :=
    placed_allocateAligned ho (ranges_run h) hget howner hpos
  have hcustody : KeepsCustody w (w.allocateAligned id tenant p size align reply) :=
    custody_allocateAligned ho hget howner
  rw [hdone] at hplaced hcustody
  obtain ⟨arc, offset, hchunk, hat⟩ := hplaced
  have ho' : Owned w'.idle := ho.moves hcustody
  have hbuf := ho'.buf_of_chunk hchunk rfl
  have hrange := ((ho'.fits.chunk i _ hchunk).range arc rfl).2
  have hoffset (hlt : offset < 2 ^ 32) : truncate32 offset = offset := (truncate32_eq_iff _).2 hlt
  -- On a page of the pool, the range ends with the page.
  have hpage (hrelease : arc.page.release = .pool id) : offset + size ≤ p.pageSize := by
    obtain ⟨p', hget'⟩ := ho'.pool_of_chunk hchunk rfl hrelease
    obtain ⟨q, hq, hsize⟩ := (later_pools_moves hcustody).get id p' (Arena.lt_next hget) hget'
    obtain rfl := Option.some.inj (hget.symm.trans hq)
    rw [size_of_pool hget' hrelease, hsize] at hrange
    exact hrange
  have hdefault : IsPowerOfTwo defaultAlign := ⟨3, by decide, rfl⟩
  refine ⟨_, arc, hchunk, rfl, rfl, ?_⟩
  show (arc.page.buf + truncate32 offset) % align = 0 ∧ _
  cases hclass : sizeClass p.pageSize size align with
  | zero =>
      rw [hclass] at hat
      exact hat.elim
  | packed =>
      rw [hclass] at hat
      obtain ⟨hrelease, haligned⟩ := hat
      have hle := hpage hrelease
      have hstored := hoffset (by omega)
      refine ⟨by rwa [hstored], hrelease, ?_⟩
      show truncate32 offset + size ≤ p.pageSize
      rwa [hstored]
  | dedicated =>
      rw [hclass] at hat
      obtain ⟨hrelease, rfl, hle⟩ := hat
      rw [hrelease] at hbuf
      rw [hoffset (by decide), Nat.add_zero]
      exact ⟨mod_eq_zero_of_le halign hdefault hle hbuf, hrelease, hpage hrelease, hle⟩
  | oversized =>
      rw [hclass] at hat
      obtain ⟨hrelease, rfl⟩ := hat
      rw [hrelease] at hbuf
      rw [hoffset (by decide), Nat.add_zero]
      have hmax : IsPowerOfTwo (max align defaultAlign) := by
        rcases Nat.le_total align defaultAlign with hle | hle
        · rw [Nat.max_eq_right hle]
          exact hdefault
        · rw [Nat.max_eq_left hle]
          exact halign
      refine ⟨mod_eq_zero_of_le halign hmax (Nat.le_max_left _ _) hbuf, _, hrelease, ?_⟩
      exact Nat.le_of_eq (Nat.zero_add size)

/-- A second chunk on the open page, at a larger alignment: eight bytes are skipped. -/
theorem chunk_placement_padded : ∃ w p i w',
    runOps [.newChunkPool 64, .allocateChunk 0 7 8 8 (some 128)] = some w ∧
    w.chunkPool 0 = some p ∧ w.allocateAligned 0 7 p 8 16 none = .done i w' ∧
    ∃ hd arc, w'.chunks.get i = some hd ∧ hd.packed = some arc ∧
      (arc.page.buf + hd.offset) % 16 = 0 ∧ hd.offset + 8 ≤ 64 := by
  obtain ⟨w, p, i, w', hw, hp, hdone⟩ := exists_allocateAligned
    [.newChunkPool 64, .allocateChunk 0 7 8 8 (some 128)] 0 7 8 16 none (by decide +kernel)
  have hsize : (runOps [.newChunkPool 64, .allocateChunk 0 7 8 8 (some 128)]).bind
      (fun w => (w.chunkPool 0).map Pool.pageSize) = some 64 := by decide +kernel
  rw [hw, Option.bind_some, hp, Option.map_some] at hsize
  have hsize := Option.some.inj hsize
  have halign : IsPowerOfTwo 16 := ⟨4, by decide, rfl⟩
  obtain ⟨hd, arc, hget, harc, -, haligned, hrest⟩ :=
    chunk_placement hw hp (by rw [hsize]; decide) halign (by decide) hdone
  rw [hsize, show sizeClass 64 8 16 = .packed by decide +kernel] at hrest
  exact ⟨w, p, i, w', hw, hp, hdone, hd, arc, hget, harc, haligned, hrest.2⟩

end Placement

end PagedAlloc.Sequential
