import PagedAlloc.Properties.PackedLoop
import PagedAlloc.Properties.Ranges

/-!
# The arithmetic of the packed path

`allocate_packed` adds the cursor to the address of the open page, rounds the sum up to the
alignment with a mask, subtracts the address again and adds the size, all on `usize`.  If pages
end in the lower half of the address space, none of it wraps: the dispatch bounds the alignment by
the page size, and the cursor stays on the page in every reachable state.  What is computed is
then the least offset that is behind the cursor and aligned, so a page is given up only if no
range behind its cursor would do.
-/

namespace PagedAlloc.Sequential

open Words Transition

/-- The pages of a pool end in the lower half of the address space. -/
def World.LowPages (w : World) (id : ℕ) : Prop :=
  ∀ b ∈ w.blocks, b.origin = .pool id → b.base + b.layout.size ≤ 2 ^ 63

instance (w : World) (id : ℕ) : Decidable (w.LowPages id) :=
  inferInstanceAs (Decidable (∀ b ∈ w.blocks, b.origin = .pool id → _))

/-- There is an aligned range of `size` bytes behind the cursor of an open page. -/
def OpenPage.Fits (o : OpenPage) (pageSize size align : ℕ) : Prop :=
  ∃ offset, o.writeOffset ≤ offset ∧ (o.shared.page.buf + offset) % align = 0 ∧
    offset + size ≤ pageSize

/-- What `allocate_packed` computes on an open page is exact. -/
structure OpenPage.Exact (o : OpenPage) (pageSize size align : ℕ) : Prop where
  cursor : o.writeOffset ≤ pageSize
  /-- `buf_addr + open.write_offset`. -/
  address : o.shared.page.buf + o.writeOffset < size64
  /-- `value + align`, before the one is subtracted. -/
  padded : o.shared.page.buf + o.writeOffset + align < size64
  /-- The mask gives the least multiple of `align` that is not below the value. -/
  masked : IsLeast {x | o.shared.page.buf + o.writeOffset ≤ x ∧ x % align = 0}
    (alignUp (o.shared.page.buf + o.writeOffset) align)
  /-- `aligned_addr - buf_addr`. -/
  difference : o.shared.page.buf ≤ alignUp (o.shared.page.buf + o.writeOffset) align ∧
    o.alignedOffset align =
      alignUp (o.shared.page.buf + o.writeOffset) align - o.shared.page.buf
  /-- `aligned_offset + size`. -/
  sum : o.alignedOffset align + size < size64
  least : IsLeast {offset | o.writeOffset ≤ offset ∧ (o.shared.page.buf + offset) % align = 0}
    (o.alignedOffset align)

section Exact

variable {w w₂ : World} {ops : List Op} {id l size align pageSize : ℕ} {p : Pool} {o : OpenPage}
  {c : Option OpenPage} {reply : Option ℕ}

/-- The alignments of the packed path are at most the page size, and a padded range that starts on
the page ends in the address space. -/
lemma pad_lt_of_sizeClass_packed (hclass : sizeClass pageSize size align = .packed)
    (hmin : defaultAlign ≤ pageSize) (hlt : pageSize < 2 ^ 63) :
    align ≤ pageSize ∧ pageSize + (align - 1) + size < 2 ^ 64 := by
  obtain ⟨hpos, hhalf⟩ := le_of_sizeClass_packed hclass
  have hdefault : defaultAlign = 8 := rfl
  by_cases hsmall : align ≤ defaultAlign
  · omega
  · have hpad := pad_le_of_sizeClass_packed hclass (Nat.lt_of_not_le hsmall)
    unfold saturatingAdd at hpad
    rw [size64_eq] at hpad
    omega

lemma OpenPage.exact_of_low (hcursor : o.writeOffset ≤ pageSize)
    (hlow : o.shared.page.buf + pageSize ≤ 2 ^ 63) (hmin : defaultAlign ≤ pageSize)
    (hlt : pageSize < 2 ^ 63) (hpos : 0 < o.shared.page.buf) (halign : IsPowerOfTwo align)
    (hclass : sizeClass pageSize size align = .packed) : o.Exact pageSize size align := by
  obtain ⟨hle, hsum⟩ := pad_lt_of_sizeClass_packed hclass hmin hlt
  have hsize := size64_eq
  have hpadded : o.shared.page.buf + o.writeOffset + align < size64 := by omega
  obtain ⟨hbuf, hoffset, hleast⟩ := alignedOffset_isLeast halign hpadded
  obtain ⟨-, hnear, -⟩ := alignedOffset_spec (o := o) halign hpos (by omega)
  refine ⟨hcursor, by omega, hpadded, ?_, ⟨hbuf, hoffset⟩, by omega, hleast⟩
  obtain ⟨k, hk, rfl⟩ := halign
  exact alignUp_isLeast hk (by omega)

/-- The open page of a reachable state. -/
lemma Owned.exact (ho : Owned w.idle) (hget : w.pools.get id = some p)
    (hcurrent : p.owner.current = some o) (hcursor : o.writeOffset ≤ p.pageSize)
    (hlow : w.LowPages id) (halign : IsPowerOfTwo align)
    (hclass : sizeClass p.pageSize size align = .packed) : o.Exact p.pageSize size align := by
  obtain ⟨hmin, hlt⟩ := ho.blocks.pageSize id p hget
  have hend := hlow _ (ho.block_of_current hget hcurrent) rfl
  exact OpenPage.exact_of_low hcursor hend hmin hlt (ho.buf_of_current hget hcurrent).1 halign
    hclass

/-- A range fits behind the cursor if and only if the one that is computed does. -/
lemma OpenPage.Exact.fits_iff (he : o.Exact pageSize size align) :
    o.Fits pageSize size align ↔ o.alignedOffset align + size ≤ pageSize := by
  constructor
  · rintro ⟨offset, hbehind, haligned, hle⟩
    have hfirst := he.least.2 ⟨hbehind, haligned⟩
    omega
  · intro hle
    obtain ⟨hbehind, haligned⟩ := he.least.1
    exact ⟨o.alignedOffset align, hbehind, haligned, hle⟩

/-- **The address arithmetic of the packed path is exact** on the open page and on a page opened
in its place, and the page is replaced exactly if no aligned range fits behind its cursor. -/
theorem packed_arithmetic_exact (h : runOps ops = some w) (hp : w.chunkPool id = some p)
    (halign : IsPowerOfTwo align) (hclass : sizeClass p.pageSize size align = .packed)
    (hlow : w.LowPages id) (reply : Option ℕ) (fuel : ℕ) :
    (∀ o, p.owner.current = some o → o.Exact p.pageSize size align) ∧
    (∀ o, p.owner.current = some o → o.Fits p.pageSize size align →
      ∃ w', World.findPage id size align reply (fuel + 1) w =
        .done (o.shared, o.alignedOffset align) w' ∧ w'.trace = w.trace) ∧
    ((∀ o, p.owner.current = some o → ¬ o.Fits p.pageSize size align) →
      World.findPage id size align reply (fuel + 1) w =
        ((w.replaceCurrent id none).openNewPage id reply).bind (fun _ w₂ =>
          World.findPage id size align reply fuel w₂) ∧
      ∀ w₂, (w.replaceCurrent id none).openNewPage id reply = .done () w₂ → w₂.LowPages id →
        ∃ p₂ o₂, w₂.pools.get id = some p₂ ∧ p₂.pageSize = p.pageSize ∧
          p₂.owner.current = some o₂ ∧ o₂.Exact p.pageSize size align ∧
          o₂.Fits p.pageSize size align) := by
  obtain ⟨hget, l, c, howner⟩ := World.chunkPool_eq_some hp
  have ho : Owned w.idle := owned_run h
  have hlt := (ho.blocks.pageSize id p hget).2
  have hexact : ∀ o, p.owner.current = some o → o.Exact p.pageSize size align := by
    intro o hcurrent
    have hcursor := (ranges_run h).cursor id p o hget hcurrent
    exact ho.exact hget hcurrent hcursor hlow halign hclass
  refine ⟨hexact, fun o hcurrent hfits => ?_, fun hfull => ?_⟩
  · have hle := (hexact o hcurrent).fits_iff.1 hfits
    have hroom := (room_eq_some_iff hlt).2 ⟨hcurrent, hle⟩
    obtain ⟨q, -, hclaim⟩ := claimRange_eq ho hget hroom
    exact ⟨_, (findPage_open hget hroom fuel).trans hclaim, rfl⟩
  · have hroom : p.room size align = none := by
      apply Option.eq_none_iff_forall_ne_some.2
      intro o hroom
      obtain ⟨hcurrent, hle⟩ := (room_eq_some_iff hlt).1 hroom
      exact hfull o hcurrent ((hexact o hcurrent).fits_iff.2 hle)
    refine ⟨findPage_retire hget hroom fuel, fun w₂ hopen hlow₂ => ?_⟩
    obtain ⟨a, fresh, k, p₂, q, hmoves, hget₂, hsize₂, hroom₂, -, -⟩ :=
      findPage_opened ho hget howner halign hclass hroom hopen
    have ho₂ := ho.moves hmoves
    obtain ⟨hcurrent₂, hle₂⟩ := le_of_room (ho₂.blocks.pageSize id p₂ hget₂).2 hroom₂
    have hclass₂ : sizeClass p₂.pageSize size align = .packed := by
      rw [hsize₂]
      exact hclass
    have hexact₂ := ho₂.exact hget₂ hcurrent₂ (Nat.zero_le _) hlow₂ halign hclass₂
    rw [hsize₂] at hexact₂ hle₂
    exact ⟨p₂, _, hget₂, hsize₂, hcurrent₂, hexact₂, hexact₂.fits_iff.2 hle₂⟩

/-- Eight bytes at an alignment of 16 behind a cursor at 8, on a page at 128. -/
theorem packed_arithmetic_exact_padded : ∃ w p o,
    runOps [.newChunkPool 64, .allocateChunk 0 7 8 8 (some 128)] = some w ∧
    w.chunkPool 0 = some p ∧ p.owner.current = some o ∧ o.writeOffset = 8 ∧
    o.Exact 64 8 16 ∧ o.alignedOffset 16 = 16 := by
  have heval : (runOps [.newChunkPool 64, .allocateChunk 0 7 8 8 (some 128)]).any (fun w =>
      decide (w.LowPages 0 ∧ (w.chunkPool 0).map (fun p => (p.pageSize, p.owner)) =
        some (64, .chunkPool 0 (some ⟨⟨0, ⟨128, .pool 0⟩⟩, 8⟩)))) = true := by
    decide +kernel
  obtain ⟨w, hw, heval⟩ := (Option.any_eq_true _ _).1 heval
  obtain ⟨hlow, hpool⟩ := of_decide_eq_true heval
  obtain ⟨p, hp, hpool⟩ := Option.map_eq_some_iff.1 hpool
  obtain ⟨hsize, howner⟩ := Prod.mk.inj hpool
  have halign : IsPowerOfTwo 16 := ⟨4, by decide, rfl⟩
  have hclass : sizeClass p.pageSize 8 16 = .packed := by
    rw [hsize]
    decide +kernel
  have hcurrent : p.owner.current = some ⟨⟨0, ⟨128, .pool 0⟩⟩, 8⟩ := by
    rw [howner]
    rfl
  obtain ⟨hexact, -⟩ := packed_arithmetic_exact hw hp halign hclass hlow none 0
  have he := hexact _ hcurrent
  rw [hsize] at he
  exact ⟨w, p, _, hw, hp, hcurrent, rfl, he, by decide +kernel⟩

end Exact

end PagedAlloc.Sequential
