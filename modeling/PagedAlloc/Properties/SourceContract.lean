import PagedAlloc.Construction.PageSources

/-!
# What the sources do to the address space

The contract of `PageSource`, for each of the three sources on a kernel that keeps to its manual.
`allocate` maps a page where nothing was mapped, at an aligned address (`allocate_cases`), `release`
unmaps it without an error (`release_eq`), and `prefault` gives all of it frames and stores nothing
but zeros in it (`prefault_spec`).

That the flags of `HugePageSource` ask for pages of the size it has been given is `unit_huge`.
-/

namespace PagedAlloc.Sources

open Words Bytes DemandZero DemandZero.AddressSpace PagedAlloc.Sequential

namespace Kernel.Documented

variable {k : Kernel}

lemma pos (hk : k.Documented) : 0 < k.pageSize := by
  obtain ⟨n, -, -, hn⟩ := hk.pageSize
  exact hn ▸ Nat.two_pow_pos n

/-- `os_page_size` is the size of the pages of the kernel. -/
lemma osPageSize_eq (hk : k.Documented) : osPageSize k.sysconf = k.pageSize := by
  have hpos := hk.pos
  unfold osPageSize
  rw [hk.sysconf, if_neg (by omega), Int.toNat_natCast]

lemma align_dvd (hk : k.Documented) : defaultAlign ∣ k.pageSize := by
  obtain ⟨n, hle, -, hn⟩ := hk.pageSize
  exact hn ▸ pow_dvd_pow 2 hle

lemma dvd_huge (hk : k.Documented) : k.pageSize ∣ HugePageSource.size2Mib := by
  obtain ⟨n, -, hle, hn⟩ := hk.pageSize
  exact hn ▸ pow_dvd_pow 2 hle

end Kernel.Documented

namespace Source

variable (k : Kernel)

/-- The units of the memory that the source maps. -/
def unit : Source → ℕ
  | heap _ => 1
  | mmap _ => k.unit MmapSource.flags
  | huge s => k.unit s.flags

/-- What the addresses of the source are multiples of. -/
def align : Source → ℕ
  | heap _ => defaultAlign
  | s => s.unit k

/-- The source leaves it to the kernel to commit its memory. -/
def Lazy : Source → Prop
  | heap _ => False
  | _ => True

end Source

section Sources

variable {k : Kernel} {s : Source} {v : AddressSpace} {a n u x : ℕ}

/-! ## The constructors -/

lemma checkPointerFits_bind {α : Type} {f : Unit → Except String α} {y : α} :
    (checkPointerFits n >>= f) = .ok y ↔ 8 ≤ n ∧ f () = .ok y := by
  unfold checkPointerFits
  by_cases hn : 8 ≤ n
  · rw [if_pos hn]
    exact ⟨fun h => ⟨hn, h⟩, fun h => h.2⟩
  · rw [if_neg hn]
    exact ⟨fun h => absurd h (by simp [bind, Except.bind]), fun h => absurd h.1 hn⟩

lemma HeapSource.new_eq_ok {s : HeapSource} :
    HeapSource.new n = .ok s ↔
      8 ≤ n ∧ Layout.Valid ⟨n, defaultAlign⟩ ∧ s = ⟨n, ⟨n, defaultAlign⟩⟩ := by
  unfold HeapSource.new
  rw [checkPointerFits_bind]
  refine and_congr_right fun _ => ?_
  split
  · rename_i hvalid
    exact ⟨fun h => ⟨hvalid, (Except.ok.inj h).symm⟩, fun h => by rw [h.2]⟩
  · rename_i hvalid
    exact ⟨fun h => absurd h (by simp), fun h => absurd h.1 hvalid⟩

lemma MmapSource.new_eq_ok {s : MmapSource} :
    MmapSource.new k n = .ok s ↔ 8 ≤ n ∧ n % osPageSize k.sysconf = 0 ∧ s = ⟨n⟩ := by
  unfold MmapSource.new
  rw [checkPointerFits_bind]
  refine and_congr_right fun _ => ?_
  dsimp only
  split
  · rename_i hmod
    exact ⟨fun h => ⟨hmod, (Except.ok.inj h).symm⟩, fun h => by rw [h.2]⟩
  · rename_i hmod
    exact ⟨fun h => absurd h (by simp), fun h => absurd h.1 hmod⟩

lemma HugePageSource.new_eq_ok {s : HugePageSource} : HugePageSource.new n = .ok s ↔
    (n = size2Mib ∧ s = ⟨n, 21⟩) ∨ (n = size1Gib ∧ s = ⟨n, 30⟩) := by
  have hne : size1Gib ≠ size2Mib := by decide
  unfold HugePageSource.new
  split
  · rename_i hn
    refine ⟨fun h => Or.inl ⟨hn, (Except.ok.inj h).symm⟩, fun h => ?_⟩
    rcases h with ⟨-, rfl⟩ | ⟨hn', -⟩
    · rfl
    · exact absurd (hn'.symm.trans hn) hne
  · rename_i hn
    split
    · rename_i hn'
      refine ⟨fun h => Or.inr ⟨hn', (Except.ok.inj h).symm⟩, fun h => ?_⟩
      rcases h with ⟨h, -⟩ | ⟨-, rfl⟩
      · exact absurd h hn
      · rfl
    · rename_i hn'
      refine ⟨fun h => absurd h (by simp), fun h => ?_⟩
      rcases h with ⟨h, -⟩ | ⟨h, -⟩
      · exact absurd h hn
      · exact absurd h hn'

/-! ## Units -/

lemma unit_mmap (hk : k.Documented) : k.unit MmapSource.flags = k.pageSize :=
  hk.unit _ (by decide)

/-- The kernel reads the page size of the source off the flags. -/
lemma unit_huge {s : HugePageSource} (hk : k.Documented)
    (h : HugePageSource.new s.pageSize = .ok s) : k.unit s.flags = s.pageSize := by
  obtain ⟨pageSize, log2⟩ := s
  rcases HugePageSource.new_eq_ok.1 h with ⟨rfl, hs⟩ | ⟨rfl, hs⟩
  · obtain rfl : log2 = 21 := congrArg HugePageSource.log2HugeSize hs
    exact hk.unitHuge _ 21 (by decide) (by decide) (by decide)
  · obtain rfl : log2 = 30 := congrArg HugePageSource.log2HugeSize hs
    exact hk.unitHuge _ 30 (by decide) (by decide) (by decide)

/-- The flags ask for anonymous private memory. -/
lemma flags_huge {s : HugePageSource} (h : HugePageSource.new s.pageSize = .ok s) :
    s.flags &&& mapPrivate ≠ 0 ∧ s.flags &&& mapAnonymous ≠ 0 := by
  obtain ⟨pageSize, log2⟩ := s
  rcases HugePageSource.new_eq_ok.1 h with ⟨rfl, hs⟩ | ⟨rfl, hs⟩
  · obtain rfl : log2 = 21 := congrArg HugePageSource.log2HugeSize hs
    exact ⟨by decide, by decide⟩
  · obtain rfl : log2 = 30 := congrArg HugePageSource.log2HugeSize hs
    exact ⟨by decide, by decide⟩

/-- A page consists of whole units, and these of whole pages of the kernel unless the source is
the heap. -/
structure Source.Fits (k : Kernel) (s : Source) : Prop where
  pos : 0 < s.unit k
  size : 0 < s.pageSize
  dvd : s.unit k ∣ s.pageSize
  kernel : s.Lazy → k.pageSize ∣ s.unit k
  unit_align : s.unit k ∣ s.align k
  align : defaultAlign ∣ s.align k

lemma Source.IsNew.fits (hk : k.Documented) (h : s.IsNew k) : s.Fits k := by
  cases s with
  | heap s =>
      have hsize : 8 ≤ s.pageSize := (HeapSource.new_eq_ok.1 h).1
      exact ⟨Nat.one_pos, Nat.lt_of_lt_of_le (by decide) hsize, one_dvd _, False.elim, one_dvd _,
        dvd_rfl⟩
  | mmap s =>
      obtain ⟨hsize, hmod, -⟩ := MmapSource.new_eq_ok.1 h
      rw [hk.osPageSize_eq] at hmod
      have hunit : (Source.mmap s).unit k = k.pageSize := unit_mmap hk
      constructor
      case pos => exact hunit ▸ hk.pos
      case size => exact Nat.lt_of_lt_of_le (by decide) hsize
      case dvd => exact hunit ▸ Nat.dvd_of_mod_eq_zero hmod
      case kernel => exact fun _ => hunit ▸ dvd_rfl
      case unit_align => exact dvd_rfl
      case align =>
        show defaultAlign ∣ (Source.mmap s).unit k
        rw [hunit]
        exact hk.align_dvd
  | huge s =>
      have hunit : (Source.huge s).unit k = s.pageSize := unit_huge hk h
      have hsize : HugePageSource.size2Mib ∣ s.pageSize := by
        rcases HugePageSource.new_eq_ok.1 h with ⟨hs, -⟩ | ⟨hs, -⟩
        · exact hs ▸ dvd_rfl
        · exact hs ▸ by decide
      have hkernel : k.pageSize ∣ s.pageSize := hk.dvd_huge.trans hsize
      have hpos : 0 < s.pageSize := by
        rcases HugePageSource.new_eq_ok.1 h with ⟨hs, -⟩ | ⟨hs, -⟩ <;> exact hs ▸ by decide
      constructor
      case pos => exact hunit ▸ hpos
      case size => exact hpos
      case dvd => exact hunit ▸ dvd_rfl
      case kernel => exact fun _ => hunit ▸ hkernel
      case unit_align => exact dvd_rfl
      case align =>
        show defaultAlign ∣ (Source.huge s).unit k
        rw [hunit]
        exact hk.align_dvd.trans hkernel

/-! ## Pages -/

/-- Where a source can put a page. -/
def Source.Offers (k : Kernel) (s : Source) (v : AddressSpace) (a : ℕ) : Prop :=
  a ≠ 0 ∧ s.align k ∣ a ∧ a + s.pageSize ≤ size64 ∧ v.Free a s.pageSize

/-- **A page is mapped where nothing was mapped**, if the source can answer with the address. -/
theorem allocate_cases (hk : k.Documented) (hnew : s.IsNew k) :
    s.allocate k v (some a) = .refused ∨
      (s.Offers k v a ∧ s.allocate k v (some a) = .done a (v.map a s.pageSize (s.unit k))) := by
  have hf := hnew.fits hk
  cases s with
  | heap s =>
      obtain ⟨-, -, hs⟩ := HeapSource.new_eq_ok.1 hnew
      have hlayout : s.layout = ⟨s.pageSize, defaultAlign⟩ := congrArg HeapSource.layout hs
      show allocZeroed v s.layout (some a) = _ ∨ _
      unfold allocZeroed
      dsimp only
      split
      · rename_i hadmits
        rw [hlayout] at hadmits
        refine Or.inr ⟨⟨hadmits.1, Nat.dvd_of_mod_eq_zero hadmits.2.1, hadmits.2.2⟩, ?_⟩
        show allocZeroed v s.layout (some a) = _
        rw [hlayout]
        exact if_pos hadmits
      · exact Or.inl rfl
  | mmap s =>
      show MmapSource.allocate k s v (some a) = _ ∨ _
      unfold MmapSource.allocate
      dsimp only
      cases hmmap : k.mmap v s.pageSize MmapSource.flags a with
      | none => exact Or.inl rfl
      | some v' =>
          obtain ⟨hne, hdvd, hend, hfree, rfl⟩ :=
            hk.mmap _ _ _ _ _ hmmap (by decide) (by decide) hf.dvd
          refine Or.inr ⟨⟨hne, hdvd, hend, hfree⟩, ?_⟩
          show MmapSource.allocate k s v (some a) = _
          unfold MmapSource.allocate
          dsimp only
          rw [hmmap]
          rfl
  | huge s =>
      obtain ⟨hprivate, hanonymous⟩ := flags_huge hnew
      show HugePageSource.allocate k s v (some a) = _ ∨ _
      unfold HugePageSource.allocate
      dsimp only
      cases hmmap : k.mmap v s.pageSize s.flags a with
      | none => exact Or.inl rfl
      | some v' =>
          obtain ⟨hne, hdvd, hend, hfree, rfl⟩ :=
            hk.mmap _ _ _ _ _ hmmap hprivate hanonymous hf.dvd
          refine Or.inr ⟨⟨hne, hdvd, hend, hfree⟩, ?_⟩
          show HugePageSource.allocate k s v (some a) = _
          unfold HugePageSource.allocate
          dsimp only
          rw [hmmap]
          rfl

/-- The kernel can answer with any address at which there is room. -/
def Kernel.Willing (k : Kernel) : Prop :=
  ∀ v len flags a, k.unit flags ∣ len → a ≠ 0 → k.unit flags ∣ a → a + len ≤ size64 →
    v.Free a len → (k.mmap v len flags a).isSome

lemma allocate_of_offers (hk : k.Documented) (hw : k.Willing) (hnew : s.IsNew k)
    (h : s.Offers k v a) : s.allocate k v (some a) ≠ .refused := by
  have hf := hnew.fits hk
  obtain ⟨hne, hdvd, hend, hfree⟩ := h
  cases s with
  | heap s =>
      obtain ⟨-, -, hs⟩ := HeapSource.new_eq_ok.1 hnew
      have hlayout : s.layout = ⟨s.pageSize, defaultAlign⟩ := congrArg HeapSource.layout hs
      show allocZeroed v s.layout (some a) ≠ _
      rw [hlayout, allocZeroed, if_pos ⟨hne, Nat.mod_eq_zero_of_dvd hdvd, hend, hfree⟩]
      exact fun h => nomatch h
  | mmap s =>
      obtain ⟨v', hmmap⟩ :=
        Option.isSome_iff_exists.1 (hw v s.pageSize MmapSource.flags a hf.dvd hne hdvd hend hfree)
      show MmapSource.allocate k s v (some a) ≠ _
      unfold MmapSource.allocate
      dsimp only
      rw [hmmap]
      exact fun h => nomatch h
  | huge s =>
      obtain ⟨v', hmmap⟩ :=
        Option.isSome_iff_exists.1 (hw v s.pageSize s.flags a hf.dvd hne hdvd hend hfree)
      show HugePageSource.allocate k s v (some a) ≠ _
      unfold HugePageSource.allocate
      dsimp only
      rw [hmmap]
      exact fun h => nomatch h

/-- A page of the source consists of pages of the kernel. -/
lemma Source.Fits.pages (hf : s.Fits k) (ha : s.align k ∣ a)
    (hunit : ∀ i < s.pageSize, v.unit (a + i) = s.unit k) :
    Pages v (s.unit k) a s.pageSize :=
  ⟨hf.pos, hf.unit_align.trans ha, hf.dvd, hunit⟩

/-- **A page is unmapped without an error.** -/
theorem release_eq (hk : k.Documented) (hnew : s.IsNew k) (ha : s.align k ∣ a)
    (hunit : ∀ i < s.pageSize, v.unit (a + i) = s.unit k) :
    s.release k v a = .done () (v.unmap a s.pageSize) := by
  have hf := hnew.fits hk
  cases s with
  | heap s =>
      obtain ⟨-, -, hs⟩ := HeapSource.new_eq_ok.1 hnew
      have hlayout : s.layout = ⟨s.pageSize, defaultAlign⟩ := congrArg HeapSource.layout hs
      show Outcome.done () (v.unmap a s.layout.size) = _
      rw [hlayout]
      rfl
  | mmap s =>
      show MmapSource.release k s v a = _
      unfold MmapSource.release
      have hmunmap : k.munmap v a s.pageSize = some (v.unmap a s.pageSize) :=
        hk.munmap _ _ _ _ hf.size (hf.kernel trivial) (hf.pages ha hunit)
      rw [hmunmap]
      rfl
  | huge s =>
      show HugePageSource.release k s v a = _
      unfold HugePageSource.release
      have hmunmap : k.munmap v a s.pageSize = some (v.unmap a s.pageSize) :=
        hk.munmap _ _ _ _ hf.size (hf.kernel trivial) (hf.pages ha hunit)
      rw [hmunmap]
      rfl

/-! ## Prefaulting -/

/-- `v'` is `v` after zeros have been stored somewhere in the range. -/
structure Prefaulted (a n : ℕ) (v v' : AddressSpace) : Prop where
  unit : v'.unit = v.unit
  contents : ∀ x, v'.contents x = v.contents x ∨ (a ≤ x ∧ x < a + n ∧ v'.contents x = 0)
  kept : ∀ x, v.committed x → v'.committed x

lemma Prefaulted.refl : Prefaulted a n v v := ⟨rfl, fun _ => Or.inl rfl, fun _ h => h⟩

lemma Prefaulted.trans {v₁ v₂ : AddressSpace} (h : Prefaulted a n v v₁)
    (h' : Prefaulted a n v₁ v₂) : Prefaulted a n v v₂ where
  unit := h'.unit.trans h.unit
  contents x := by
    rcases h'.contents x with heq | hzero
    · rw [heq]
      exact h.contents x
    · exact Or.inr hzero
  kept x hx := h'.kept x (h.kept x hx)

/-- One store, which gives frames to the unit that it is in. -/
lemma prefaulted_storeByte (hlow : a ≤ x) (hhigh : x < a + n) (hunit : v.unit x ≠ 0) :
    ∃ v', v.storeByte x 0 = some v' ∧ Prefaulted a n v v' ∧
      ∀ y, v.SameUnit x y → v'.committed y := by
  obtain ⟨v', hstore, hunit', hcontents, hcommitted⟩ := storeByte_spec (b := 0) hunit
  refine ⟨v', hstore, ⟨hunit', fun y => ?_, fun y hy => ?_⟩, fun y hy => ?_⟩
  · rw [hcontents]
    by_cases hy : y = x
    · subst hy
      exact Or.inr ⟨hlow, hhigh, Function.update_self ..⟩
    · exact Or.inl (Function.update_of_ne hy ..)
  · rw [hcommitted, hy, Bool.true_or]
  · rw [hcommitted, decide_eq_true hy, Bool.or_true]

/-- The loop of `prefault` from an offset on; an offset is a multiple of the page size of the
kernel, so each store is in a unit of its own, and no unit is left out. -/
lemma prefaultLoop_spec (hu : 0 < u) (ha : u ∣ a) (hunit : ∀ i < n, v.unit (a + i) = u)
    {fuel offset : ℕ} (hoffset : u ∣ offset) (hfuel : n ≤ offset + fuel) :
    ∃ v', MmapSource.prefaultLoop u a n fuel offset v = some v' ∧ Prefaulted a n v v' ∧
      ∀ i, offset ≤ i → i < n → v'.committed (a + i) := by
  induction fuel generalizing v offset with
  | zero =>
      refine ⟨v, if_neg (by omega), .refl, fun i hlow hhigh => ?_⟩
      omega
  | succ fuel ih =>
      by_cases hlt : offset < n
      · obtain ⟨v₁, hstore, hpre, hsame⟩ := prefaulted_storeByte (v := v) (a := a) (n := n)
          (x := a + offset) (by omega) (by omega) (by rw [hunit offset hlt]; exact hu.ne')
        have hunit₁ : ∀ i < n, v₁.unit (a + i) = u := fun i hi => by rw [hpre.unit, hunit i hi]
        obtain ⟨v', hloop, hpre', hrest⟩ :=
          ih hunit₁ (Nat.dvd_add hoffset dvd_rfl) (by omega)
        refine ⟨v', ?_, hpre.trans hpre', fun i hlow hhigh => ?_⟩
        · rw [MmapSource.prefaultLoop, if_pos hlt, hstore, Option.bind_some, hloop]
        · by_cases hi : i < offset + u
          · refine hpre'.kept _ (hsame _ ⟨?_, ?_⟩)
            · rw [hunit i hhigh, hunit offset hlt]
            · obtain ⟨q, hq⟩ := Nat.dvd_add ha hoffset
              rw [hunit offset hlt, show a + i = i - offset + u * q by omega, hq,
                Nat.add_mul_div_left _ _ hu, Nat.div_eq_of_lt (by omega), Nat.zero_add,
                Nat.mul_div_cancel_left _ hu]
          · exact hrest i (by omega) hhigh
      · refine ⟨v, ?_, .refl, fun i hlow hhigh => ?_⟩
        · rw [MmapSource.prefaultLoop, if_neg hlt]
        · omega

/-- **A page that has been prefaulted has all its frames, and only zeros have been stored.** -/
theorem prefault_spec (hk : k.Documented) (hnew : s.IsNew k) (ha : s.align k ∣ a)
    (hunit : ∀ i < s.pageSize, v.unit (a + i) = s.unit k) :
    ∃ v', s.prefault k v a = some v' ∧ Prefaulted a s.pageSize v v' ∧
      (s.Lazy → ∀ i < s.pageSize, v'.committed (a + i)) := by
  have hf := hnew.fits hk
  cases s with
  | heap s => exact ⟨v, rfl, .refl, False.elim⟩
  | mmap s =>
      have hsize : (Source.mmap s).unit k = osPageSize k.sysconf :=
        (unit_mmap hk).trans hk.osPageSize_eq.symm
      change k.unit MmapSource.flags = _ at hsize
      obtain ⟨v', hloop, hpre, hcommitted⟩ := prefaultLoop_spec hf.pos ha hunit (dvd_zero _)
        (Nat.le_add_left s.pageSize 0)
      refine ⟨v', ?_, hpre, fun _ i hi => hcommitted i (Nat.zero_le i) hi⟩
      show MmapSource.prefaultLoop (osPageSize k.sysconf) a s.pageSize s.pageSize 0 v = some v'
      rw [← hsize]
      exact hloop
  | huge s =>
      have hsize : (Source.huge s).unit k = s.pageSize := unit_huge hk hnew
      have hpos : 0 < s.pageSize := hsize ▸ hf.pos
      have hunit₀ : v.unit a = s.pageSize := by
        have hfirst := hunit 0 hpos
        rwa [hsize] at hfirst
      obtain ⟨v', hstore, hpre, hsame⟩ := prefaulted_storeByte (v := v) (a := a) (n := s.pageSize)
        (x := a) le_rfl (by omega) (by rw [hunit₀]; exact hpos.ne')
      refine ⟨v', hstore, hpre, fun _ i (hi : i < s.pageSize) => hsame _ ⟨?_, ?_⟩⟩
      · rw [hunit i hi, hsize, hunit₀]
      · have hdvd : s.pageSize ∣ a := hsize ▸ ha
        obtain ⟨q, rfl⟩ := hdvd
        rw [hunit₀, Nat.add_comm, Nat.add_mul_div_left _ _ hpos, Nat.div_eq_of_lt hi,
          Nat.zero_add, Nat.mul_div_cancel_left _ hpos]

end Sources

/-! ## A kernel -/

/-- The kernel works on whole pages. -/
def roundUp (len u : ℕ) : ℕ := (len + u - 1) / u * u

/-- The range consists of whole pages of everything that is mapped in it. -/
def Whole (v : AddressSpace) (a n : ℕ) : Prop :=
  ∀ i < n, v.unit (a + i) ≠ 0 → v.unit (a + i) ∣ a ∧ v.unit (a + i) ∣ n

instance (v : AddressSpace) (a n : ℕ) : Decidable (Whole v a n) :=
  inferInstanceAs (Decidable (∀ i < n, _))

/-- Pages of 4 KiB, huge ones of 2 MiB if the flags name no size, and any address as an answer at
which there is room. -/
def Kernel.eager : Kernel where
  pageSize := 4096
  sysconf := 4096
  unit flags :=
    if flags &&& mapHugetlb = 0 then 4096
    else if ((flags >>> mapHugeShift) &&& 0x3f).toNat = 0 then 2097152
    else 2 ^ ((flags >>> mapHugeShift) &&& 0x3f).toNat
  mmap v len flags a :=
    let u :=
      if flags &&& mapHugetlb = 0 then 4096
      else if ((flags >>> mapHugeShift) &&& 0x3f).toNat = 0 then 2097152
      else 2 ^ ((flags >>> mapHugeShift) &&& 0x3f).toNat
    let n := roundUp len u
    if a ≠ 0 ∧ u ∣ a ∧ a + n ≤ size64 ∧ v.Free a n then some (v.map a n u) else none
  munmap v a len :=
    let n := roundUp len 4096
    if 4096 ∣ a ∧ Whole v a n then some (v.unmap a n) else none
  madvise v a len :=
    let n := roundUp len 4096
    if 4096 ∣ a ∧ Whole v a n ∧ ∀ i < n, v.unit (a + i) ≠ 0 then some (v.discard a n) else none

section Eager

variable {v : AddressSpace} {a n u : ℕ}

lemma roundUp_of_dvd (hu : 0 < u) (h : u ∣ n) : roundUp n u = n := by
  obtain ⟨q, rfl⟩ := h
  unfold roundUp
  rw [show u * q + u - 1 = u - 1 + u * q by omega, Nat.add_mul_div_left _ _ hu,
    Nat.div_eq_of_lt (by omega), Nat.zero_add, Nat.mul_comm]

lemma Pages.whole (h : Pages v u a n) : Whole v a n := by
  intro i hi _
  rw [h.unit i hi]
  exact ⟨h.base, h.length⟩

lemma unit_eager_pos (flags : BitVec 32) : 0 < Kernel.eager.unit flags := by
  show 0 < if _ then _ else _
  split
  · decide
  · split
    · decide
    · exact Nat.two_pow_pos _

lemma mmap_eager {flags : BitVec 32} (hdvd : Kernel.eager.unit flags ∣ n) :
    Kernel.eager.mmap v n flags a =
      if a ≠ 0 ∧ Kernel.eager.unit flags ∣ a ∧ a + n ≤ size64 ∧ v.Free a n then
        some (v.map a n (Kernel.eager.unit flags)) else none := by
  show (if a ≠ 0 ∧ Kernel.eager.unit flags ∣ a ∧
    a + roundUp n (Kernel.eager.unit flags) ≤ size64 ∧
      v.Free a (roundUp n (Kernel.eager.unit flags)) then
    some (v.map a (roundUp n (Kernel.eager.unit flags)) (Kernel.eager.unit flags)) else none) = _
  rw [roundUp_of_dvd (unit_eager_pos flags) hdvd]

lemma documented_eager : Kernel.eager.Documented where
  pageSize := ⟨12, by decide, by decide, rfl⟩
  sysconf := rfl
  unit flags h := if_pos h
  unitHuge flags log2 hhuge hlog hne := by
    subst hlog
    exact (if_neg hhuge).trans (if_neg hne)
  mmap v len flags a v' h _ _ hdvd := by
    rw [mmap_eager hdvd] at h
    obtain ⟨⟨hne, hbase, hend, hfree⟩, h⟩ := Option.ite_none_right_eq_some.1 h
    exact ⟨hne, hbase, hend, hfree, (Option.some.inj h).symm⟩
  munmap v u a len _ hkernel h := by
    have hround : roundUp len 4096 = len := roundUp_of_dvd (by decide) (hkernel.trans h.length)
    show (if 4096 ∣ a ∧ Whole v a (roundUp len 4096) then
      some (v.unmap a (roundUp len 4096)) else none) = _
    rw [hround]
    exact if_pos ⟨hkernel.trans h.base, h.whole⟩
  madvise v u a len hkernel h := by
    have hround : roundUp len 4096 = len := roundUp_of_dvd (by decide) (hkernel.trans h.length)
    have hmapped : ∀ i < len, v.unit (a + i) ≠ 0 := fun i hi => by
      rw [h.unit i hi]
      exact h.pos.ne'
    show (if 4096 ∣ a ∧ Whole v a (roundUp len 4096) ∧
        ∀ i < roundUp len 4096, v.unit (a + i) ≠ 0 then
      some (v.discard a (roundUp len 4096)) else none) = _
    rw [hround]
    exact if_pos ⟨hkernel.trans h.base, h.whole, hmapped⟩

lemma willing_eager : Kernel.eager.Willing := by
  intro v len flags a hdvd hne hbase hend hfree
  rw [mmap_eager hdvd, if_pos ⟨hne, hbase, hend, hfree⟩]
  rfl

end Eager

end PagedAlloc.Sources
