import PagedAlloc.Framework.Words

/-!
# The size classes of a `ChunkPool`

`ChunkPool::allocate_aligned` sends every request down one of four paths.  The choice depends on
the page size, the requested size and the alignment only, so it is a function of its own
(`sizeClass`), shared by the sequential model and the interleaved one.
-/

namespace PagedAlloc

open Words

/-- `ChunkPool::DEFAULT_ALIGN`, the alignment of a pointer. -/
def defaultAlign : ℕ := 8

/-- The path an allocation takes. -/
inductive SizeClass
  | zero
  | packed
  | dedicated
  | oversized
  deriving DecidableEq, Repr

/-- `usize::saturating_add`. -/
def saturatingAdd (a b : ℕ) : ℕ := min (a + b) (size64 - 1)

/-- The dispatch of `ChunkPool::allocate_aligned`, after the check of `align`. -/
def sizeClass (pageSize size align : ℕ) : SizeClass :=
  let threshold := pageSize / 2
  if size = 0 then .zero
  else if align ≤ defaultAlign then
    if size > pageSize then .oversized
    else if size > threshold then .dedicated
    else .packed
  else
    let worstPad := align - 1
    let needed := saturatingAdd size worstPad
    if size ≤ threshold ∧ needed ≤ pageSize then .packed
    else .oversized

/-- `usize::is_power_of_two`. -/
def IsPowerOfTwo (align : ℕ) : Prop := ∃ k < 64, align = 2 ^ k

instance (align : ℕ) : Decidable (IsPowerOfTwo align) :=
  inferInstanceAs (Decidable (∃ k < 64, align = 2 ^ k))

variable {pageSize size align : ℕ}

lemma sizeClass_eq_zero : sizeClass pageSize size align = .zero ↔ size = 0 := by
  unfold sizeClass
  dsimp only
  split_ifs <;> simp_all

/-- The packed path only takes requests of at most half a page. -/
lemma le_of_sizeClass_packed (h : sizeClass pageSize size align = .packed) :
    0 < size ∧ size ≤ pageSize / 2 := by
  unfold sizeClass at h
  dsimp only at h
  split_ifs at h <;> omega

/-- At larger alignments, the packed path only takes requests that fit with the worst padding. -/
lemma pad_le_of_sizeClass_packed (h : sizeClass pageSize size align = .packed)
    (halign : defaultAlign < align) : saturatingAdd size (align - 1) ≤ pageSize := by
  unfold sizeClass at h
  dsimp only at h
  split_ifs at h <;> omega

/-- The dedicated path only takes requests that fit one page, at the default alignment. -/
lemma le_of_sizeClass_dedicated (h : sizeClass pageSize size align = .dedicated) :
    0 < size ∧ size ≤ pageSize ∧ align ≤ defaultAlign := by
  unfold sizeClass at h
  dsimp only at h
  split_ifs at h
  omega

end PagedAlloc
