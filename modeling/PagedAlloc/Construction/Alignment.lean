import PagedAlloc.Construction.ChunkOperations

/-!
# Where the next range on a page starts

`allocate_packed` aligns the absolute address behind the cursor of the open page and subtracts
the address of the buffer again, in wrapping arithmetic.  `alignedOffset_spec` says that the
result is what it should be wherever the buffer was placed, up to the last byte of the address
space, `alignedOffset_isLeast` that below its end nothing wraps and no smaller offset would do,
and `room_of_fresh` that a new page has room for every request the packed path takes.
-/

namespace PagedAlloc.Sequential

open Words

lemma alignUp_eq {v k : ℕ} (hk : k < 64) :
    alignUp v (2 ^ k) = 2 ^ k * ((v + 2 ^ k - 1) % size64 / 2 ^ k) :=
  and_mask (Nat.mod_lt _ size64_pos) hk

/-- Rounding up without a wrap gives the least multiple. -/
lemma alignUp_isLeast {v k : ℕ} (hk : k < 64) (hwrap : v + 2 ^ k - 1 < size64) :
    IsLeast {x | v ≤ x ∧ x % 2 ^ k = 0} (alignUp v (2 ^ k)) := by
  have hpow : 0 < 2 ^ k := Nat.two_pow_pos k
  rw [alignUp_eq hk, Nat.mod_eq_of_lt hwrap]
  have hdiv := Nat.div_add_mod (v + 2 ^ k - 1) (2 ^ k)
  have hmod := Nat.mod_lt (v + 2 ^ k - 1) hpow
  refine ⟨⟨by omega, Nat.mul_mod_right _ _⟩, ?_⟩
  rintro x ⟨hle, hx⟩
  obtain ⟨q, rfl⟩ := Nat.dvd_of_mod_eq_zero hx
  refine Nat.mul_le_mul_left _ (Nat.le_of_lt_succ ((Nat.div_lt_iff_lt_mul hpow).2 ?_))
  rw [Nat.succ_mul, Nat.mul_comm]
  omega

lemma alignUp_lt {v align : ℕ} : alignUp v align < size64 :=
  lt_of_le_of_lt Nat.and_le_left (Nat.mod_lt _ size64_pos)

lemma wrappingSub_of_le {a b : ℕ} (hle : b ≤ a) (ha : a < size64) : wrappingSub a b = a - b := by
  unfold wrappingSub
  rw [show a + size64 - b = (a - b) + size64 by omega, Nat.add_mod_right]
  exact Nat.mod_eq_of_lt (by omega)

/-- The distance from `buf` to the next aligned address at or behind `buf + pos`, as the machine
computes it.  At the end of the address space the sums wrap around, and so does the difference. -/
lemma wrappingSub_alignUp {buf pos k : ℕ} (hk : k < 64) (hpos : 0 < buf)
    (hend : buf + pos ≤ size64) :
    let offset := wrappingSub (alignUp ((buf + pos) % size64) (2 ^ k)) buf
    pos ≤ offset ∧ offset ≤ pos + (2 ^ k - 1) ∧ (buf + offset) % 2 ^ k = 0 := by
  dsimp only
  have hpow : 0 < 2 ^ k := Nat.two_pow_pos k
  have hdvd : size64 % 2 ^ k = 0 := by
    rw [size64_eq]
    exact Nat.mod_eq_zero_of_dvd (Nat.pow_dvd_pow 2 hk.le)
  have hlt : 2 ^ k < size64 := by
    rw [size64_eq]
    exact Nat.pow_lt_pow_right (by decide) hk
  rw [alignUp_eq hk]
  unfold wrappingSub
  by_cases htop : buf + pos = size64
  · have hzero : ((buf + pos) % size64 + 2 ^ k - 1) % size64 / 2 ^ k = 0 := by
      rw [htop, Nat.mod_self, Nat.zero_add, Nat.mod_eq_of_lt (by omega)]
      exact Nat.div_eq_of_lt (by omega)
    have hoffset : (2 ^ k * 0 + size64 - buf) % size64 = pos := by
      rw [Nat.mul_zero, Nat.mod_eq_of_lt (by omega)]
      omega
    rw [hzero, hoffset, htop]
    exact ⟨Nat.le_refl _, Nat.le_add_right _ _, hdvd⟩
  · rw [Nat.mod_eq_of_lt (show buf + pos < size64 by omega)]
    by_cases hwrap : buf + pos + 2 ^ k - 1 < size64
    · rw [Nat.mod_eq_of_lt hwrap]
      have hdiv := Nat.div_add_mod (buf + pos + 2 ^ k - 1) (2 ^ k)
      have hmod := Nat.mod_lt (buf + pos + 2 ^ k - 1) hpow
      have hmul : (2 ^ k * ((buf + pos + 2 ^ k - 1) / 2 ^ k)) % 2 ^ k = 0 :=
        Nat.mul_mod_right _ _
      generalize 2 ^ k * ((buf + pos + 2 ^ k - 1) / 2 ^ k) = u at hdiv hmul
      have hoffset : (u + size64 - buf) % size64 = u - buf :=
        wrappingSub_of_le (by omega) (by omega)
      rw [hoffset]
      refine ⟨by omega, by omega, ?_⟩
      rwa [Nat.add_sub_of_le (by omega)]
    · have hzero : (buf + pos + 2 ^ k - 1) % size64 / 2 ^ k = 0 := by
        rw [Nat.mod_eq_sub_mod (by omega), Nat.mod_eq_of_lt (by omega)]
        exact Nat.div_eq_of_lt (by omega)
      have hoffset : (2 ^ k * 0 + size64 - buf) % size64 = size64 - buf := by
        rw [Nat.mul_zero, Nat.zero_add]
        exact Nat.mod_eq_of_lt (by omega)
      rw [hzero, hoffset]
      refine ⟨by omega, by omega, ?_⟩
      rwa [Nat.add_sub_of_le (by omega)]

variable {o : OpenPage} {align : ℕ}

/-- The next range on an open page starts at or behind the cursor, at an aligned address, and
less than `align` bytes behind it. -/
lemma alignedOffset_spec (halign : IsPowerOfTwo align) (hpos : 0 < o.shared.page.buf)
    (hend : o.shared.page.buf + o.writeOffset ≤ size64) :
    o.writeOffset ≤ o.alignedOffset align ∧
      o.alignedOffset align ≤ o.writeOffset + (align - 1) ∧
      (o.shared.page.buf + o.alignedOffset align) % align = 0 := by
  obtain ⟨k, hk, rfl⟩ := halign
  exact wrappingSub_alignUp hk hpos hend

/-- Without a wrap, the next range starts at the least offset that is behind the cursor and
aligned. -/
lemma alignedOffset_isLeast (halign : IsPowerOfTwo align)
    (hwrap : o.shared.page.buf + o.writeOffset + align < size64) :
    o.shared.page.buf ≤ alignUp (o.shared.page.buf + o.writeOffset) align ∧
      o.alignedOffset align =
        alignUp (o.shared.page.buf + o.writeOffset) align - o.shared.page.buf ∧
      IsLeast {offset | o.writeOffset ≤ offset ∧ (o.shared.page.buf + offset) % align = 0}
        (o.alignedOffset align) := by
  obtain ⟨k, hk, rfl⟩ := halign
  have hpow : 0 < 2 ^ k := Nat.two_pow_pos k
  obtain ⟨⟨hle, hmod⟩, hleast⟩ :=
    alignUp_isLeast (v := o.shared.page.buf + o.writeOffset) hk (by omega)
  have hbuf : o.shared.page.buf ≤ alignUp (o.shared.page.buf + o.writeOffset) (2 ^ k) := by omega
  have hoffset : o.alignedOffset (2 ^ k) =
      alignUp (o.shared.page.buf + o.writeOffset) (2 ^ k) - o.shared.page.buf := by
    unfold OpenPage.alignedOffset
    dsimp only
    rw [Nat.mod_eq_of_lt (by omega)]
    exact wrappingSub_of_le hbuf alignUp_lt
  refine ⟨hbuf, hoffset, ⟨?_, ?_⟩⟩
  · rw [hoffset]
    refine ⟨by omega, ?_⟩
    rwa [Nat.add_sub_of_le hbuf]
  · rintro offset ⟨hbehind, haligned⟩
    have hnext := hleast ⟨Nat.add_le_add_left hbehind o.shared.page.buf, haligned⟩
    omega

/-- A fresh page of a pool has room for every request of the packed path. -/
lemma room_of_fresh {p : Pool} {size : ℕ} (halign : IsPowerOfTwo align)
    (hclass : sizeClass p.pageSize size align = .packed) (hlt : p.pageSize < 2 ^ 63)
    (hcurrent : p.owner.current = some o) (hfresh : o.writeOffset = 0)
    (hpos : 0 < o.shared.page.buf) (hend : o.shared.page.buf ≤ size64)
    (hbuf : o.shared.page.buf % defaultAlign = 0) : p.room size align = some o := by
  obtain ⟨-, hle, hmod⟩ := alignedOffset_spec halign hpos (by rw [hfresh]; exact hend)
  rw [hfresh, Nat.zero_add] at hle
  have hfits : o.alignedOffset align + size ≤ p.pageSize := by
    have hhalf := (le_of_sizeClass_packed hclass).2
    by_cases hsmall : align ≤ defaultAlign
    · -- The buffer is aligned already, so there is no padding.
      have hdvd : align ∣ o.shared.page.buf := by
        obtain ⟨k, -, rfl⟩ := halign
        have hk : k ≤ 3 := (Nat.pow_le_pow_iff_right (by decide)).1 hsmall
        exact (Nat.pow_dvd_pow 2 hk).trans (Nat.dvd_of_mod_eq_zero hbuf)
      have hoffset : align ∣ o.alignedOffset align :=
        (Nat.dvd_add_right hdvd).1 (Nat.dvd_of_mod_eq_zero hmod)
      have halign : 0 < align := by
        obtain ⟨k, -, rfl⟩ := halign
        exact Nat.two_pow_pos k
      have hzero : o.alignedOffset align = 0 := Nat.eq_zero_of_dvd_of_lt hoffset (by omega)
      omega
    · have hpad := pad_le_of_sizeClass_packed hclass (Nat.lt_of_not_le hsmall)
      unfold saturatingAdd at hpad
      rw [size64_eq] at hpad
      omega
  unfold Pool.room
  refine Option.filter_eq_some_iff.2 ⟨hcurrent, ?_⟩
  refine decide_eq_true ?_
  exact (Nat.min_le_left _ _).trans hfits

end PagedAlloc.Sequential
