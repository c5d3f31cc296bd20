import PagedAlloc.Properties.ReferenceCounts

/-!
# Ownership of buffers

The invariant behind the crate's unsafe code.  Live allocations are apart from each other and
belong to a live pool or to the heap (`Blocks`); every allocation of a pool is in exactly one
place, on one of its two free lists, behind a page handle, behind a packed page or in the hands
of the running operation (`Places`); and the range of every handle is inside its buffer (`Fits`).
Together with exact reference counts this is `Owned`, which every move of the machine keeps
(`Owned.move`).

The free lists live inside the buffers, so `Places` is where the frame argument is: a write into
a buffer that somebody holds does not reach the links of a free one.
-/

namespace PagedAlloc.Sequential

open Words Bytes Intrusive Relation

/-! ## Live allocations -/

/-- Live allocations do not overlap, and those of a pool have its layout. -/
structure Blocks (blocks : Multiset Block) (pools : Arena Pool) : Prop where
  nodup : blocks.Nodup
  bounds : ∀ b ∈ blocks, b.base ≠ 0 ∧ 0 < b.layout.size ∧ b.base + b.layout.size ≤ size64
  aligned : ∀ b ∈ blocks, b.base % b.layout.align = 0
  apart : ∀ b ∈ blocks, ∀ b' ∈ blocks, b ≠ b' →
    Apart b.base b.layout.size b'.base b'.layout.size
  origin : ∀ b ∈ blocks, ∀ id, b.origin = .pool id →
    (pools.get id).map Pool.layout = some b.layout
  pageSize : ∀ id p, pools.get id = some p → defaultAlign ≤ p.pageSize ∧ p.pageSize < 2 ^ 63

section Blocks

variable {blocks blocks' : Multiset Block} {pools : Arena Pool} {id : ℕ} {p p' : Pool} {b b' : Block}

lemma layouts_set (hget : pools.get id = some p) (hsize : p'.pageSize = p.pageSize) (j : ℕ) :
    ((pools.set id p').get j).map Pool.layout = (pools.get j).map Pool.layout := by
  rw [Arena.get_set hget]
  split
  · rename_i hj
    rw [hj, hget, Option.map_some, Option.map_some, Pool.layout, Pool.layout, hsize]
  · rfl

lemma Blocks.setPool (hb : Blocks blocks pools) (hget : pools.get id = some p)
    (hsize : p'.pageSize = p.pageSize) : Blocks blocks (pools.set id p') where
  nodup := hb.nodup
  bounds := hb.bounds
  aligned := hb.aligned
  apart := hb.apart
  origin b hmem j hj := by
    rw [layouts_set hget hsize]
    exact hb.origin b hmem j hj
  pageSize j q hq := by
    rw [Arena.get_set hget] at hq
    split at hq
    · obtain rfl := Option.some.inj hq
      rw [hsize]
      exact hb.pageSize id p hget
    · exact hb.pageSize j q hq

lemma Blocks.pushPool (hb : Blocks blocks pools) (hle : defaultAlign ≤ p.pageSize)
    (hlt : p.pageSize < 2 ^ 63) : Blocks blocks (pools.push p) where
  nodup := hb.nodup
  bounds := hb.bounds
  aligned := hb.aligned
  apart := hb.apart
  origin b hmem j hj := by
    have hold := hb.origin b hmem j hj
    obtain ⟨q, hq, hlayout⟩ := Option.map_eq_some_iff.1 hold
    rw [Arena.get_push_of_get hq, Option.map_some, hlayout]
  pageSize j q hq := by
    rw [Arena.get_push] at hq
    split at hq
    · obtain rfl := Option.some.inj hq
      exact ⟨hle, hlt⟩
    · exact hb.pageSize j q hq

lemma Blocks.erasePool (hb : Blocks blocks pools) (hnone : ∀ b ∈ blocks, b.origin ≠ .pool id) :
    Blocks blocks (pools.erase id) where
  nodup := hb.nodup
  bounds := hb.bounds
  aligned := hb.aligned
  apart := hb.apart
  origin b hmem j hj := by
    rw [Arena.get_erase, if_neg]
    · exact hb.origin b hmem j hj
    · rintro rfl
      exact hnone b hmem hj
  pageSize j q hq := hb.pageSize j q (Arena.get_of_get_erase hq).2

/-- Fewer allocations. -/
lemma Blocks.mono (hb : Blocks blocks pools) (hle : blocks' ≤ blocks) : Blocks blocks' pools where
  nodup := Multiset.nodup_of_le hle hb.nodup
  bounds b hmem := hb.bounds b (Multiset.mem_of_le hle hmem)
  aligned b hmem := hb.aligned b (Multiset.mem_of_le hle hmem)
  apart b hmem b' hmem' := hb.apart b (Multiset.mem_of_le hle hmem) b' (Multiset.mem_of_le hle hmem')
  origin b hmem := hb.origin b (Multiset.mem_of_le hle hmem)
  pageSize := hb.pageSize

/-- A new allocation, apart from all others. -/
lemma Blocks.cons (hb : Blocks blocks pools) (hne : b.base ≠ 0) (hpos : 0 < b.layout.size)
    (hend : b.base + b.layout.size ≤ size64) (haligned : b.base % b.layout.align = 0)
    (hapart : ∀ b' ∈ blocks, Apart b.base b.layout.size b'.base b'.layout.size)
    (horigin : ∀ id, b.origin = .pool id → (pools.get id).map Pool.layout = some b.layout) :
    Blocks (b ::ₘ blocks) pools where
  nodup := by
    refine Multiset.nodup_cons.2 ⟨fun hmem => ?_, hb.nodup⟩
    have := hapart b hmem
    unfold Apart at this
    omega
  bounds b' hmem := by
    rcases Multiset.mem_cons.1 hmem with rfl | hmem
    · exact ⟨hne, hpos, hend⟩
    · exact hb.bounds b' hmem
  aligned b' hmem := by
    rcases Multiset.mem_cons.1 hmem with rfl | hmem
    · exact haligned
    · exact hb.aligned b' hmem
  apart b₁ hmem₁ b₂ hmem₂ hdistinct := by
    rcases Multiset.mem_cons.1 hmem₁ with hb₁ | hmem₁
    · rcases Multiset.mem_cons.1 hmem₂ with hb₂ | hmem₂
      · exact absurd (hb₁.trans hb₂.symm) hdistinct
      · rw [hb₁]
        exact hapart b₂ hmem₂
    · rcases Multiset.mem_cons.1 hmem₂ with hb₂ | hmem₂
      · rw [hb₂]
        exact (hapart b₁ hmem₁).symm
      · exact hb.apart b₁ hmem₁ b₂ hmem₂ hdistinct
  origin b' hmem := by
    rcases Multiset.mem_cons.1 hmem with rfl | hmem
    · exact horigin
    · exact hb.origin b' hmem
  pageSize := hb.pageSize

/-- Two live allocations at one address are the same. -/
lemma Blocks.eq_of_base_eq (hb : Blocks blocks pools) (hmem : b ∈ blocks) (hmem' : b' ∈ blocks)
    (hbase : b.base = b'.base) : b = b' := by
  by_contra hne
  have hapart := hb.apart b hmem b' hmem' hne
  rw [hbase] at hapart
  have hpos := (hb.bounds b hmem).2.1
  have hpos' := (hb.bounds b' hmem').2.1
  unfold Apart at hapart
  omega

end Blocks

/-! ## The two free lists of a pool -/

/-- The free lists of a pool hold exactly the buffers `free`. -/
def FreeLists (mem : Memory) (p : Pool) (free : Multiset ℕ) : Prop :=
  ∃ l r, Chain 0 (readPtr mem) p.owner.localHead l ∧ Chain 0 (readPtr mem) p.returnHead r ∧
    ((l ++ r : List ℕ) : Multiset ℕ) = free

section FreeLists

variable {mem mem' : Memory} {p : Pool} {free : Multiset ℕ} {a : ℕ} {st : PoolStats}

/-- **Frame.** Only the links in free buffers matter. -/
lemma FreeLists.congr (hf : FreeLists mem p free)
    (hagree : ∀ b ∈ free, readPtr mem' b = readPtr mem b) : FreeLists mem' p free := by
  obtain ⟨l, r, hl, hr, rfl⟩ := hf
  refine ⟨l, r, hl.congr fun b hb => hagree b ?_, hr.congr fun b hb => hagree b ?_, rfl⟩
  · exact Multiset.mem_coe.2 (List.mem_append_left r hb)
  · exact Multiset.mem_coe.2 (List.mem_append_right l hb)

lemma FreeLists.empty (hlocal : p.owner.localHead = 0) (hreturn : p.returnHead = 0) :
    FreeLists mem p 0 := by
  refine ⟨[], [], ?_, ?_, rfl⟩
  · rw [hlocal]
    exact .nil
  · rw [hreturn]
    exact .nil

lemma FreeLists.popLocal (hf : FreeLists mem p free) (hne : p.owner.localHead ≠ 0) :
    ∃ free', free = p.owner.localHead ::ₘ free' ∧
      FreeLists mem { p with
        owner := p.owner.setLocalHead (readPtr mem p.owner.localHead), stats := st } free' := by
  obtain ⟨l, r, hl, hr, rfl⟩ := hf
  obtain ⟨t, rfl, ht⟩ := (chain_of_ne hne).1 hl
  refine ⟨(t ++ r : List ℕ), rfl, t, r, ?_, hr, rfl⟩
  dsimp only
  rw [Owner.localHead_setLocalHead (Owner.live_of_localHead_ne hne)]
  exact ht

lemma FreeLists.drain (hf : FreeLists mem p free) (hlive : p.owner.Live)
    (hempty : p.owner.localHead = 0) : FreeLists mem { p with
      returnHead := 0, owner := p.owner.setLocalHead p.returnHead, stats := st } free := by
  obtain ⟨l, r, hl, hr, rfl⟩ := hf
  rw [hempty] at hl
  obtain rfl := chain_null_iff.1 hl
  refine ⟨r, [], ?_, .nil, by rw [List.append_nil, List.nil_append]⟩
  dsimp only
  rw [Owner.localHead_setLocalHead hlive]
  exact hr

/-- The head of a list is null or a free buffer. -/
lemma FreeLists.heads_mem (hf : FreeLists mem p free) :
    (p.owner.localHead = 0 ∨ p.owner.localHead ∈ free) ∧
      (p.returnHead = 0 ∨ p.returnHead ∈ free) := by
  obtain ⟨l, r, hl, hr, rfl⟩ := hf
  constructor
  · by_cases hne : p.owner.localHead = 0
    · exact Or.inl hne
    · obtain ⟨t, rfl, -⟩ := (chain_of_ne hne).1 hl
      exact Or.inr (Multiset.mem_coe.2 (List.mem_append_left r List.mem_cons_self))
  · by_cases hne : p.returnHead = 0
    · exact Or.inl hne
    · obtain ⟨t, rfl, -⟩ := (chain_of_ne hne).1 hr
      exact Or.inr (Multiset.mem_coe.2 (List.mem_append_right l List.mem_cons_self))

lemma FreeLists.linkLocal (hf : FreeLists mem p free) (hlive : p.owner.Live) (hne : a ≠ 0)
    (hhead : p.owner.localHead < size64)
    (hagree : ∀ b ∈ free, readPtr (writePtr mem a p.owner.localHead) b = readPtr mem b) :
    FreeLists (writePtr mem a p.owner.localHead) { p with owner := p.owner.setLocalHead a }
      (a ::ₘ free) := by
  obtain ⟨l, r, hl, hr, rfl⟩ := hf.congr hagree
  refine ⟨a :: l, r, ?_, hr, rfl⟩
  dsimp only
  rw [Owner.localHead_setLocalHead hlive]
  refine .cons hne ?_
  rw [readPtr_writePtr_self hhead]
  exact hl

lemma FreeLists.pushReturn (hf : FreeLists mem p free) (hne : a ≠ 0) (hhead : p.returnHead < size64)
    (hagree : ∀ b ∈ free, readPtr (writePtr mem a p.returnHead) b = readPtr mem b) :
    FreeLists (writePtr mem a p.returnHead) { p with returnHead := a, stats := st } (a ::ₘ free) := by
  obtain ⟨l, r, hl, hr, rfl⟩ := hf.congr hagree
  refine ⟨l, a :: r, hl, .cons hne ?_, ?_⟩
  · rw [readPtr_writePtr_self hhead]
    exact hr
  · exact Multiset.coe_eq_coe.2 List.perm_middle

end FreeLists

/-! ## Places -/

/-- How many page handles, packed pages and hands hold the buffer `a` of the pool `id`. -/
def holders (packed : Arena PackedInner) (pages : Arena PageHandle) (B : Multiset (ℕ × ℕ))
    (id : ℕ) (a : ℕ) : ℕ :=
  pages.sum (fun h => if (id, a) = (h.pool, h.buf) then 1 else 0) +
    packed.sum (fun q => if q.page = ⟨a, .pool id⟩ then 1 else 0) + B.count (id, a)

/-- Every allocation of a live pool is free or has one holder, and every allocation from the
heap is behind one packed page. -/
structure Places (mem : Memory) (blocks : Multiset Block) (pools : Arena Pool)
    (packed : Arena PackedInner) (pages : Arena PageHandle) (B : Multiset (ℕ × ℕ)) : Prop where
  lists : ∀ id p, pools.get id = some p → ∃ free, FreeLists mem p free ∧
    ∀ a, blocks.count ⟨a, p.layout, .pool id⟩ = free.count a + holders packed pages B id a
  heap : ∀ a l, blocks.count ⟨a, l, .heap⟩ =
    packed.sum fun q => if q.page = ⟨a, .heap l⟩ then 1 else 0
  live : ∀ id a, (id, a) ∈ B → ∃ p, pools.get id = some p

section Places

variable {mem mem' : Memory} {blocks : Multiset Block} {pools : Arena Pool}
  {packed packed' : Arena PackedInner} {pages pages' : Arena PageHandle}
  {B B' : Multiset (ℕ × ℕ)} {id : ℕ} {p p' : Pool} {a : ℕ} {b : Block}
  {free : Multiset ℕ}

lemma pool_ne_of_sum_eq_zero (hpages : pages.sum (fun h => if id = h.pool then 1 else 0) = 0) :
    ∀ i h, pages.get i = some h → h.pool ≠ id := by
  rintro i h hi rfl
  have hle := Arena.le_sum (f := fun g : PageHandle => if h.pool = g.pool then 1 else 0) hi
  rw [if_pos rfl] at hle
  omega

lemma release_ne_of_sum_eq_zero
    (hpacked : packed.sum (fun q => if q.page.release = .pool id then 1 else 0) = 0) :
    ∀ k q, packed.get k = some q → q.page.release ≠ .pool id := by
  intro k q hk hrelease
  have hle := Arena.le_sum (f := fun q : PackedInner =>
    if q.page.release = .pool id then 1 else 0) hk
  rw [if_pos hrelease] at hle
  omega

/-- No references to a pool, no holders of its buffers. -/
lemma holders_eq_zero (hpages : pages.sum (fun h => if id = h.pool then 1 else 0) = 0)
    (hpacked : packed.sum (fun q => if q.page.release = .pool id then 1 else 0) = 0)
    (hnone : ∀ a, (id, a) ∉ B) : ∀ a, holders packed pages B id a = 0 := by
  intro a
  have hpages : pages.sum (fun h => if (id, a) = (h.pool, h.buf) then 1 else 0) = 0 := by
    refine Arena.sum_eq_zero fun i h hi => if_neg fun heq => ?_
    exact pool_ne_of_sum_eq_zero hpages i h hi (Prod.mk.inj heq).1.symm
  have hpacked : packed.sum (fun q => if q.page = ⟨a, .pool id⟩ then 1 else 0) = 0 := by
    refine Arena.sum_eq_zero fun k q hk => if_neg fun heq => ?_
    exact release_ne_of_sum_eq_zero hpacked k q hk (by rw [heq])
  unfold holders
  rw [hpages, hpacked, Multiset.count_eq_zero.2 (hnone a)]

/-- The links in buffers that nobody holds are as before. -/
def Untouched (blocks : Multiset Block) (pools : Arena Pool) (held : ℕ → ℕ → ℕ)
    (mem mem' : Memory) : Prop :=
  ∀ id p a, pools.get id = some p → ⟨a, p.layout, .pool id⟩ ∈ blocks → held id a = 0 →
    readPtr mem' a = readPtr mem a

/-- **Frame.** A write inside one allocation that somebody holds reaches no link. -/
lemma untouched_of_held {held : ℕ → ℕ → ℕ} (hb : Blocks blocks pools) (hmem : b ∈ blocks)
    (hagree : ∀ x : ℕ, x < b.base ∨ b.base + b.layout.size ≤ x → mem' x = mem x)
    (hheld : ∀ id, b.origin = .pool id → held id b.base ≠ 0) :
    Untouched blocks pools held mem mem' := by
  intro id p a hget hblock hzero
  have hne : (⟨a, p.layout, .pool id⟩ : Block) ≠ b := by
    rintro rfl
    exact hheld id rfl hzero
  have hapart : Apart a p.pageSize b.base b.layout.size := hb.apart _ hblock b hmem hne
  have hsize := (hb.pageSize id p hget).1
  refine readPtr_congr fun x h1 h2 => hagree x ?_
  unfold Apart at hapart
  unfold defaultAlign at hsize
  omega

/-- A write outside all allocations reaches no link. -/
lemma untouched_of_outside {held : ℕ → ℕ → ℕ} {n : ℕ} (hb : Blocks blocks pools)
    (hagree : ∀ x : ℕ, x < a ∨ a + n ≤ x → mem' x = mem x)
    (hapart : ∀ b ∈ blocks, Apart a n b.base b.layout.size) :
    Untouched blocks pools held mem mem' := by
  intro id p c hget hblock _
  have hapart : Apart a n c p.pageSize := hapart _ hblock
  have hsize := (hb.pageSize id p hget).1
  refine readPtr_congr fun x h1 h2 => hagree x ?_
  unfold Apart at hapart
  unfold defaultAlign at hsize
  omega

lemma Untouched.agree {held : ℕ → ℕ → ℕ} (hu : Untouched blocks pools held mem mem')
    (hnodup : blocks.Nodup) (hget : pools.get id = some p)
    (hcount : ∀ a, blocks.count ⟨a, p.layout, .pool id⟩ = free.count a + held id a) :
    ∀ b ∈ free, readPtr mem' b = readPtr mem b := by
  intro b hb
  have hpos : 0 < free.count b := Multiset.count_pos.2 hb
  have hle := Multiset.nodup_iff_count_le_one.1 hnodup ⟨b, p.layout, .pool id⟩
  have heq := hcount b
  refine hu id p b hget ?_ (by omega)
  exact Multiset.count_pos.1 (by omega)

/-- Memory changes, but no link does. -/
lemma Places.setMem (hp : Places mem blocks pools packed pages B) (hnodup : blocks.Nodup)
    (hu : Untouched blocks pools (holders packed pages B) mem mem') :
    Places mem' blocks pools packed pages B :=
  { hp with
    lists := fun id p hget => by
      obtain ⟨free, hfree, hcount⟩ := hp.lists id p hget
      exact ⟨free, hfree.congr (hu.agree hnodup hget hcount), hcount⟩ }

/-- Buffers change hands. -/
lemma Places.setHolders (hp : Places mem blocks pools packed pages B)
    (hholders : ∀ id a, holders packed' pages' B' id a = holders packed pages B id a)
    (hheap : ∀ a l, packed'.sum (fun q => if q.page = ⟨a, .heap l⟩ then 1 else 0) =
      packed.sum fun q => if q.page = ⟨a, .heap l⟩ then 1 else 0)
    (hlive : ∀ id a, (id, a) ∈ B' → ∃ p, pools.get id = some p) :
    Places mem blocks pools packed' pages' B' where
  lists id p hget := by
    obtain ⟨free, hfree, hcount⟩ := hp.lists id p hget
    refine ⟨free, hfree, fun a => ?_⟩
    rw [hholders]
    exact hcount a
  heap a l := by
    rw [hheap]
    exact hp.heap a l
  live := hlive

lemma lt_of_mem_free (hb : Blocks blocks pools)
    (hcount : ∀ a, blocks.count ⟨a, p.layout, .pool id⟩ =
      free.count a + holders packed pages B id a) : ∀ a ∈ free, a < size64 := by
  intro a ha
  have hpos : 0 < free.count a := Multiset.count_pos.2 ha
  have hmem : (⟨a, p.layout, .pool id⟩ : Block) ∈ blocks :=
    Multiset.count_pos.1 (by rw [hcount a]; omega)
  obtain ⟨-, hsize, hend⟩ := hb.bounds _ hmem
  dsimp only at hsize hend
  omega

/-! The holders, as a handle or a packed page comes and goes. -/

lemma holders_push_page (h : PageHandle) (id a : ℕ) :
    holders packed (pages.push h) B id a = holders packed pages ((h.pool, h.buf) ::ₘ B) id a := by
  unfold holders
  rw [Arena.sum_push, Multiset.count_cons]
  omega

lemma holders_erase_page {i : ℕ} {h : PageHandle} (hget : pages.get i = some h) (id a : ℕ) :
    holders packed (pages.erase i) ((h.pool, h.buf) ::ₘ B) id a = holders packed pages B id a := by
  have hsum := Arena.sum_erase (f := fun h : PageHandle =>
    if (id, a) = (h.pool, h.buf) then 1 else 0) hget
  unfold holders
  rw [Multiset.count_cons]
  omega

lemma holders_set_page {i : ℕ} {h h' : PageHandle} (hget : pages.get i = some h)
    (hsame : h.SamePlace h') (id a : ℕ) :
    holders packed (pages.set i h') B id a = holders packed pages B id a := by
  have hsum := Arena.sum_set (b := h') (f := fun h : PageHandle =>
    if (id, a) = (h.pool, h.buf) then 1 else 0) hget
  rw [hsame.pool, hsame.buf] at hsum
  unfold holders
  omega

lemma packedPage_eq_iff {id j a x : ℕ} :
    (⟨a, .pool id⟩ : PackedPage) = ⟨x, .pool j⟩ ↔ (j, x) = (id, a) := by
  simp [and_comm, eq_comm]

lemma holders_push_packed (n id a j x : ℕ) :
    holders (packed.push ⟨⟨a, .pool id⟩, n⟩) pages B j x =
      holders packed pages ((id, a) ::ₘ B) j x := by
  unfold holders
  rw [Arena.sum_push, Multiset.count_cons]
  simp only [packedPage_eq_iff]
  omega

lemma holders_erase_packed {k n id a : ℕ} (hget : packed.get k = some ⟨⟨a, .pool id⟩, n⟩)
    (j x : ℕ) :
    holders (packed.erase k) pages ((id, a) ::ₘ B) j x = holders packed pages B j x := by
  have hsum := Arena.sum_erase (f := fun q : PackedInner =>
    if q.page = ⟨x, .pool j⟩ then 1 else 0) hget
  unfold holders
  rw [Multiset.count_cons]
  simp only [packedPage_eq_iff] at hsum
  omega

/-- A packed page is cloned or one of its references dropped. -/
lemma Places.setPacked {k : ℕ} {q q' : PackedInner} (hp : Places mem blocks pools packed pages B)
    (hget : packed.get k = some q) (hpage : q'.page = q.page) :
    Places mem blocks pools (packed.set k q') pages B := by
  have hsame : ∀ page : PackedPage, (packed.set k q').sum (fun r => if r.page = page then 1 else 0) =
      packed.sum fun r => if r.page = page then 1 else 0 := by
    intro page
    have hsum := Arena.sum_set (b := q') (f := fun r : PackedInner =>
      if r.page = page then 1 else 0) hget
    rw [hpage] at hsum
    omega
  refine hp.setHolders (fun id a => ?_) (fun a l => hsame _) hp.live
  unfold holders
  rw [hsame]

/-- The lists of one pool change, with its hands and with memory. -/
lemma Places.setPool (hp : Places mem blocks pools packed pages B) (hb : Blocks blocks pools)
    (hget : pools.get id = some p) (hsize : p'.pageSize = p.pageSize)
    (hu : Untouched blocks pools (holders packed pages B) mem mem')
    (hlists : ∀ free, FreeLists mem p free → (∀ b ∈ free, readPtr mem' b = readPtr mem b) →
      (∀ b ∈ free, b < size64) → ∃ free', FreeLists mem' p' free' ∧
        ∀ a, free'.count a + B'.count (id, a) = free.count a + B.count (id, a))
    (hothers : ∀ j a, j ≠ id → B'.count (j, a) = B.count (j, a)) :
    Places mem' blocks (pools.set id p') packed pages B' where
  lists j q hq := by
    rw [Arena.get_set hget] at hq
    split at hq
    · rename_i hj
      subst hj
      obtain rfl := Option.some.inj hq
      obtain ⟨free, hfree, hcount⟩ := hp.lists j p hget
      obtain ⟨free', hfree', hmoved⟩ := hlists free hfree (hu.agree hb.nodup hget hcount)
        (lt_of_mem_free hb hcount)
      refine ⟨free', hfree', fun a => ?_⟩
      have hold := hcount a
      have hmove := hmoved a
      rw [show p'.layout = p.layout by rw [Pool.layout, Pool.layout, hsize]]
      unfold holders at hold ⊢
      omega
    · rename_i hj
      obtain ⟨free, hfree, hcount⟩ := hp.lists j q hq
      refine ⟨free, hfree.congr (hu.agree hb.nodup hq hcount), fun a => ?_⟩
      have hold := hcount a
      have hsame := hothers j a hj
      unfold holders at hold ⊢
      omega
  heap := hp.heap
  live j a ha := by
    by_cases hj : j = id
    · exact ⟨p', by rw [Arena.get_set hget, if_pos hj]⟩
    · have hmem : (j, a) ∈ B := by
        rw [← Multiset.count_pos, ← hothers j a hj]
        exact Multiset.count_pos.2 ha
      obtain ⟨q, hq⟩ := hp.live j a hmem
      exact ⟨q, by rw [Arena.get_set hget, if_neg hj, hq]⟩

/-- A pool changes in something else than its lists. -/
lemma Places.setPool_same (hp : Places mem blocks pools packed pages B) (hb : Blocks blocks pools)
    (hget : pools.get id = some p) (hsize : p'.pageSize = p.pageSize)
    (hlocal : p'.owner.localHead = p.owner.localHead) (hreturn : p'.returnHead = p.returnHead) :
    Places mem blocks (pools.set id p') packed pages B := by
  refine hp.setPool hb hget hsize (fun _ _ _ _ _ _ => rfl) (fun free hfree _ _ => ?_)
    fun _ _ _ => rfl
  refine ⟨free, ?_, fun _ => rfl⟩
  unfold FreeLists at hfree ⊢
  rw [hlocal, hreturn]
  exact hfree

/-- Every holder holds a live allocation. -/
lemma Places.mem_of_held (hp : Places mem blocks pools packed pages B)
    (hget : pools.get id = some p) (hheld : holders packed pages B id a ≠ 0) :
    ⟨a, p.layout, .pool id⟩ ∈ blocks := by
  obtain ⟨free, -, hcount⟩ := hp.lists id p hget
  refine Multiset.count_pos.1 ?_
  rw [hcount a]
  omega

lemma holders_cons_ne_zero : holders packed pages ((id, a) ::ₘ B) id a ≠ 0 := by
  unfold holders
  rw [Multiset.count_cons_self]
  omega

/-- Storing a link in a buffer in hand reaches no other link. -/
lemma Places.untouched_writePtr (hp : Places mem blocks pools packed pages ((id, a) ::ₘ B))
    (hb : Blocks blocks pools) (hget : pools.get id = some p) {v : ℕ} :
    Untouched blocks pools (holders packed pages ((id, a) ::ₘ B)) mem (writePtr mem a v) := by
  have hmem := hp.mem_of_held hget holders_cons_ne_zero
  have hsize := (hb.pageSize id p hget).1
  refine untouched_of_held hb hmem (fun x hx => writePtr_of_outside ?_) fun j hj => ?_
  · unfold defaultAlign at hsize
    change x < a ∨ a + p.pageSize ≤ x at hx
    omega
  · obtain rfl : id = j := Origin.pool.inj hj
    exact holders_cons_ne_zero

lemma Places.hand_ne_zero (hp : Places mem blocks pools packed pages ((id, a) ::ₘ B))
    (hb : Blocks blocks pools) (hget : pools.get id = some p) : a ≠ 0 :=
  (hb.bounds _ (hp.mem_of_held hget holders_cons_ne_zero)).1

lemma count_cons_of_ne {j : ℕ} {c : ℕ} (hj : j ≠ id) :
    Multiset.count (j, c) ((id, a) ::ₘ B) = B.count (j, c) :=
  Multiset.count_cons_of_ne (by simp [hj]) B

lemma count_cons_self_pool {c : ℕ} : Multiset.count (id, c) ((id, a) ::ₘ B) =
    B.count (id, c) + if c = a then 1 else 0 := by
  rw [Multiset.count_cons]
  simp

/-- What a walk over a free list takes from the allocations. -/
lemma count_released {l l' : Layout} {o o' : Origin} {as : List ℕ} :
    (blocks - ((as.map fun a => ⟨a, l, o⟩ : List Block) : Multiset Block)).count ⟨a, l', o'⟩ =
      blocks.count ⟨a, l', o'⟩ - if l' = l ∧ o' = o then as.count a else 0 := by
  rw [Multiset.count_sub, Multiset.coe_count]
  congr 1
  split
  · rename_i h
    obtain ⟨rfl, rfl⟩ := h
    refine List.count_map_of_injective as (fun a => (⟨a, l', o'⟩ : Block)) (fun x y hxy => ?_) a
    exact congrArg Block.base hxy
  · rename_i h
    refine List.count_eq_zero.2 fun hmem => h ?_
    obtain ⟨x, -, hx⟩ := List.mem_map.1 hmem
    obtain ⟨-, hl, ho⟩ := Block.mk.inj hx
    exact ⟨hl.symm, ho.symm⟩

lemma Places.releaseLocal {l : List ℕ} (hp : Places mem blocks pools packed pages B)
    (hget : pools.get id = some p) (hchain : Chain 0 (readPtr mem) p.owner.localHead l) :
    Places mem (blocks - ((l.map fun a => ⟨a, p.layout, .pool id⟩ : List Block) : Multiset Block))
      (pools.set id { p with owner := .dropped p.owner.current }) packed pages B where
  lists j q hq := by
    rw [Arena.get_set hget] at hq
    split at hq
    · rename_i hj
      subst hj
      obtain rfl := Option.some.inj hq
      obtain ⟨free, ⟨l', r, hl', hr, rfl⟩, hcount⟩ := hp.lists j p hget
      obtain rfl := hl'.unique hchain
      refine ⟨r, ⟨[], r, .nil, hr, rfl⟩, fun a => ?_⟩
      have hold := hcount a
      rw [Multiset.coe_count, List.count_append] at hold
      change (blocks - _).count ⟨a, p.layout, .pool j⟩ = _
      rw [count_released, if_pos ⟨rfl, rfl⟩, Multiset.coe_count]
      omega
    · rename_i hj
      obtain ⟨free, hfree, hcount⟩ := hp.lists j q hq
      refine ⟨free, hfree, fun a => ?_⟩
      rw [count_released, if_neg (by simp [hj]), Nat.sub_zero]
      exact hcount a
  heap a l := by
    rw [count_released, if_neg (by simp), Nat.sub_zero]
    exact hp.heap a l
  live j a ha := by
    obtain ⟨q, hq⟩ := hp.live j a ha
    rw [Arena.get_set hget]
    split
    · exact ⟨_, rfl⟩
    · exact ⟨q, hq⟩

/-- The blocks of a pool to which nothing refers are on its return queue. -/
lemma Places.count_of_unheld {r : List ℕ} (hp : Places mem blocks pools packed pages B)
    (hget : pools.get id = some p) (hlocal : p.owner.localHead = 0)
    (hchain : Chain 0 (readPtr mem) p.returnHead r)
    (hheld : ∀ a, holders packed pages B id a = 0) (a : ℕ) :
    blocks.count ⟨a, p.layout, .pool id⟩ = r.count a := by
  obtain ⟨free, ⟨l, r', hl, hr, rfl⟩, hcount⟩ := hp.lists id p hget
  rw [hlocal] at hl
  obtain rfl := chain_null_iff.1 hl
  obtain rfl := hr.unique hchain
  rw [hcount a, hheld a, List.nil_append, Multiset.coe_count, Nat.add_zero]

lemma Places.freeShared {r : List ℕ} (hp : Places mem blocks pools packed pages B)
    (hnone : ∀ a, (id, a) ∉ B) :
    Places mem (blocks - ((r.map fun a => ⟨a, p.layout, .pool id⟩ : List Block) : Multiset Block))
      (pools.erase id) packed pages B where
  lists j q hq := by
    obtain ⟨hj, hq⟩ := Arena.get_of_get_erase hq
    obtain ⟨free, hfree, hcount⟩ := hp.lists j q hq
    refine ⟨free, hfree, fun a => ?_⟩
    rw [count_released, if_neg (by simp [hj]), Nat.sub_zero]
    exact hcount a
  heap a l := by
    rw [count_released, if_neg (by simp), Nat.sub_zero]
    exact hp.heap a l
  live j a ha := by
    obtain ⟨q, hq⟩ := hp.live j a ha
    refine ⟨q, ?_⟩
    rw [Arena.get_erase, if_neg]
    · exact hq
    · rintro rfl
      exact hnone a ha

lemma Places.pushPool (hp : Places mem blocks pools packed pages B) (hb : Blocks blocks pools)
    (hheld : ∀ a, holders packed pages B pools.next a = 0) (hlocal : p.owner.localHead = 0)
    (hreturn : p.returnHead = 0) : Places mem blocks (pools.push p) packed pages B where
  lists j q hq := by
    rw [Arena.get_push] at hq
    split at hq
    · rename_i hj
      subst hj
      obtain rfl := Option.some.inj hq
      refine ⟨0, .empty hlocal hreturn, fun a => ?_⟩
      rw [hheld a, Multiset.count_zero]
      apply Multiset.count_eq_zero.2
      intro hmem
      have horigin := hb.origin _ hmem pools.next rfl
      rw [pools.get_of_le _ (Nat.le_refl _)] at horigin
      exact absurd horigin (by simp)
    · exact hp.lists j q hq
  heap := hp.heap
  live j a ha := by
    obtain ⟨q, hq⟩ := hp.live j a ha
    exact ⟨q, Arena.get_push_of_get hq⟩

/-- A pool gets a new buffer, outside all others. -/
lemma Places.supply (hp : Places mem blocks pools packed pages B) (hb : Blocks blocks pools)
    (hget : pools.get id = some p)
    (hapart : ∀ b ∈ blocks, Apart a p.pageSize b.base b.layout.size) :
    Places (zero mem a p.pageSize) (⟨a, p.layout, .pool id⟩ ::ₘ blocks) pools packed pages
      ((id, a) ::ₘ B) := by
  have hu : Untouched blocks pools (holders packed pages B) mem (zero mem a p.pageSize) :=
    untouched_of_outside hb (fun x hx => zero_of_outside hx) hapart
  have hp' := hp.setMem hb.nodup hu
  constructor
  case lists =>
    intro j q hq
    obtain ⟨free, hfree, hcount⟩ := hp'.lists j q hq
    refine ⟨free, hfree, fun x => ?_⟩
    have hold := hcount x
    rw [Multiset.count_cons]
    unfold holders at hold ⊢
    rw [Multiset.count_cons]
    by_cases hj : j = id
    · subst hj
      obtain rfl := Option.some.inj (hq.symm.trans hget)
      by_cases hx : x = a
      · simp only [hx, if_true] at hold ⊢
        omega
      · simp only [hx, Block.mk.injEq, Prod.mk.injEq, false_and, and_false, if_false] at hold ⊢
        omega
    · simp only [hj, Block.mk.injEq, Origin.pool.injEq, Prod.mk.injEq, false_and, and_false,
        if_false] at hold ⊢
      omega
  case heap =>
    intro x l
    rw [Multiset.count_cons_of_ne (by simp)]
    exact hp'.heap x l
  case live =>
    intro j x hx
    rcases Multiset.mem_cons.1 hx with hx | hx
    · obtain ⟨rfl, rfl⟩ := Prod.mk.inj hx
      exact ⟨p, hget⟩
    · exact hp'.live j x hx

/-- An oversized buffer comes from the heap, behind a packed page. -/
lemma Places.newHeap {l : Layout} (hp : Places mem blocks pools packed pages B)
    (hb : Blocks blocks pools)
    (hapart : ∀ b ∈ blocks, Apart a l.size b.base b.layout.size) :
    Places (zero mem a l.size) (⟨a, l, .heap⟩ ::ₘ blocks) pools
      (packed.push ⟨⟨a, .heap l⟩, 1⟩) pages B := by
  have hu : Untouched blocks pools (holders packed pages B) mem (zero mem a l.size) :=
    untouched_of_outside hb (fun x hx => zero_of_outside hx) hapart
  have hp' := hp.setMem hb.nodup hu
  constructor
  case lists =>
    intro j q hq
    obtain ⟨free, hfree, hcount⟩ := hp'.lists j q hq
    refine ⟨free, hfree, fun x => ?_⟩
    have hold := hcount x
    rw [Multiset.count_cons_of_ne (by simp)]
    unfold holders at hold ⊢
    rw [Arena.sum_push, if_neg (by simp)]
    omega
  case heap =>
    intro x l'
    have hold := hp'.heap x l'
    rw [Multiset.count_cons, Arena.sum_push, hold]
    by_cases hx : x = a ∧ l' = l
    · obtain ⟨rfl, rfl⟩ := hx
      simp
    · rw [if_neg, if_neg]
      · simpa [eq_comm] using hx
      · simpa using hx
  case live => exact hp'.live

/-- The buffer of a packed page goes back to the heap. -/
lemma Places.freeHeap {l : Layout} {k : ℕ} (hp : Places mem blocks pools packed pages B)
    (hget : packed.get k = some ⟨⟨a, .heap l⟩, 1⟩) :
    Places mem (blocks - (([a].map fun a => ⟨a, l, .heap⟩ : List Block) : Multiset Block)) pools
      (packed.erase k) pages B where
  lists j q hq := by
    obtain ⟨free, hfree, hcount⟩ := hp.lists j q hq
    refine ⟨free, hfree, fun x => ?_⟩
    have hsum := Arena.sum_erase (f := fun q : PackedInner =>
      if q.page = ⟨x, .pool j⟩ then 1 else 0) hget
    have hold := hcount x
    rw [count_released, if_neg (by simp), Nat.sub_zero]
    unfold holders at hold ⊢
    rw [if_neg (by simp)] at hsum
    omega
  heap x l' := by
    have hsum := Arena.sum_erase (f := fun q : PackedInner =>
      if q.page = ⟨x, .heap l'⟩ then 1 else 0) hget
    have hold := hp.heap x l'
    rw [count_released, hold]
    by_cases hx : x = a ∧ l' = l
    · obtain ⟨rfl, rfl⟩ := hx
      simp only [if_true, and_self, List.count_singleton_self] at hsum ⊢
      omega
    · have hpage : (⟨a, .heap l⟩ : PackedPage) ≠ ⟨x, .heap l'⟩ := by
        intro heq
        obtain ⟨rfl, hrelease⟩ := PackedPage.mk.inj heq
        exact hx ⟨rfl, (Release.heap.inj hrelease).symm⟩
      have hcount : (if l' = l ∧ Origin.heap = .heap then [a].count x else 0) = 0 := by
        by_cases hl : l' = l
        · rw [if_pos ⟨hl, rfl⟩]
          refine List.count_eq_zero.2 fun hmem => hx ⟨?_, hl⟩
          exact List.mem_singleton.1 hmem
        · rw [if_neg fun h => hl h.1]
      rw [if_neg hpage] at hsum
      omega
  live := hp.live

/-! The moves of a buffer between the lists of its pool and a hand. -/

lemma Places.popLocal (hp : Places mem blocks pools packed pages B) (hb : Blocks blocks pools)
    (hget : pools.get id = some p) (hne : p.owner.localHead ≠ 0) (st : PoolStats) :
    Places mem blocks (pools.set id { p with
      owner := p.owner.setLocalHead (readPtr mem p.owner.localHead), stats := st })
      packed pages ((id, p.owner.localHead) ::ₘ B) := by
  refine hp.setPool hb hget rfl (fun _ _ _ _ _ _ => rfl) (fun free hfree _ _ => ?_)
    fun j a hj => count_cons_of_ne hj
  obtain ⟨free', rfl, hfree'⟩ := hfree.popLocal hne
  refine ⟨free', hfree', fun a => ?_⟩
  rw [count_cons_self_pool, Multiset.count_cons]
  omega

lemma Places.drain (hp : Places mem blocks pools packed pages B) (hb : Blocks blocks pools)
    (hget : pools.get id = some p) (hlive : p.owner.Live) (hempty : p.owner.localHead = 0)
    (st : PoolStats) :
    Places mem blocks (pools.set id { p with
      returnHead := 0, owner := p.owner.setLocalHead p.returnHead, stats := st })
      packed pages B := by
  refine hp.setPool hb hget rfl (fun _ _ _ _ _ _ => rfl) (fun free hfree _ _ => ?_)
    fun j a hj => rfl
  exact ⟨free, hfree.drain hlive hempty, fun a => rfl⟩

lemma Places.linkLocal (hp : Places mem blocks pools packed pages ((id, a) ::ₘ B))
    (hb : Blocks blocks pools) (hget : pools.get id = some p) (hlive : p.owner.Live) :
    Places (writePtr mem a p.owner.localHead) blocks
      (pools.set id { p with owner := p.owner.setLocalHead a }) packed pages B := by
  refine hp.setPool hb hget rfl (hp.untouched_writePtr hb hget)
    (fun free hfree hagree hlt => ?_) fun j c hj => (count_cons_of_ne hj).symm
  have hhead : p.owner.localHead < size64 := by
    rcases hfree.heads_mem.1 with hzero | hmem
    · rw [hzero]
      exact size64_pos
    · exact hlt _ hmem
  refine ⟨a ::ₘ free, hfree.linkLocal hlive (hp.hand_ne_zero hb hget) hhead hagree,
    fun c => ?_⟩
  rw [count_cons_self_pool, Multiset.count_cons]
  omega

lemma Places.pushReturn (hp : Places mem blocks pools packed pages ((id, a) ::ₘ B))
    (hb : Blocks blocks pools) (hget : pools.get id = some p) (st : PoolStats) :
    Places (writePtr mem a p.returnHead) blocks
      (pools.set id { p with returnHead := a, stats := st }) packed pages B := by
  refine hp.setPool hb hget rfl (hp.untouched_writePtr hb hget)
    (fun free hfree hagree hlt => ?_) fun j c hj => (count_cons_of_ne hj).symm
  have hhead : p.returnHead < size64 := by
    rcases hfree.heads_mem.2 with hzero | hmem
    · rw [hzero]
      exact size64_pos
    · exact hlt _ hmem
  refine ⟨a ::ₘ free, hfree.pushReturn (hp.hand_ne_zero hb hget) hhead hagree, fun c => ?_⟩
  rw [count_cons_self_pool, Multiset.count_cons]
  omega

/-! The moves of a buffer between a hand and its handle or packed page. -/

lemma Places.newPage {h : PageHandle}
    (hp : Places mem blocks pools packed pages ((h.pool, h.buf) ::ₘ B)) :
    Places mem blocks pools packed (pages.push h) B :=
  hp.setHolders (holders_push_page h) (fun _ _ => rfl) fun id a ha =>
    hp.live id a (Multiset.mem_cons_of_mem ha)

lemma Places.removePage {i : ℕ} {h : PageHandle} (hp : Places mem blocks pools packed pages B)
    (hget : pages.get i = some h) (hpool : ∃ p, pools.get h.pool = some p) :
    Places mem blocks pools packed (pages.erase i) ((h.pool, h.buf) ::ₘ B) := by
  refine hp.setHolders (holders_erase_page hget) (fun _ _ => rfl) fun id a ha => ?_
  rcases Multiset.mem_cons.1 ha with ha | ha
  · obtain ⟨rfl, rfl⟩ := Prod.mk.inj ha
    exact hpool
  · exact hp.live id a ha

lemma Places.newPacked (hp : Places mem blocks pools packed pages ((id, a) ::ₘ B)) :
    Places mem blocks pools (packed.push ⟨⟨a, .pool id⟩, 1⟩) pages B := by
  refine hp.setHolders (holders_push_packed 1 id a) (fun x l => ?_) fun j x hx =>
    hp.live j x (Multiset.mem_cons_of_mem hx)
  rw [Arena.sum_push, if_neg (by simp), Nat.add_zero]

lemma Places.freePacked {k : ℕ} (hp : Places mem blocks pools packed pages B)
    (hget : packed.get k = some ⟨⟨a, .pool id⟩, 1⟩) (hpool : ∃ p, pools.get id = some p) :
    Places mem blocks pools (packed.erase k) pages ((id, a) ::ₘ B) := by
  refine hp.setHolders (holders_erase_packed hget) (fun x l => ?_) fun j x hx => ?_
  · have hsum := Arena.sum_erase (f := fun q : PackedInner =>
      if q.page = ⟨x, .heap l⟩ then 1 else 0) hget
    rw [if_neg (by simp)] at hsum
    exact hsum
  · rcases Multiset.mem_cons.1 hx with hx | hx
    · obtain ⟨rfl, rfl⟩ := Prod.mk.inj hx
      exact hpool
    · exact hp.live j x hx

end Places

/-! ## Ranges -/

/-- The range claimed for a chunk is inside its buffer, and its handle has the range after the
casts. -/
structure ChunkHandle.Fits (pools : Arena Pool) (h : ChunkHandle) : Prop where
  offset : h.offset = truncate32 h.request.offset
  capacity : h.capacity = truncate32 h.request.size
  len : h.len ≤ h.capacity
  range : ∀ arc, h.packed = some arc →
    0 < h.request.size ∧ h.request.offset + h.request.size ≤ arc.page.size pools
  heap : ∀ arc l, h.packed = some arc → arc.page.release = .heap l → h.request.offset = 0
  empty : h.packed = none → h.request.size = 0

/-- The range of every handle is inside its buffer. -/
structure Fits (pools : Arena Pool) (pages : Arena PageHandle) (chunks : Arena ChunkHandle) :
    Prop where
  page : ∀ i h, pages.get i = some h → (pools.get h.pool).map Pool.pageSize = some h.capacity
  chunk : ∀ i h, chunks.get i = some h → h.Fits pools

section Fits

variable {pools pools' : Arena Pool} {pages : Arena PageHandle} {chunks : Arena ChunkHandle}
  {id i : ℕ} {p p' : Pool} {page : PackedPage}

lemma size_of_pool (hget : pools.get id = some p) (hrelease : page.release = .pool id) :
    page.size pools = p.pageSize := by
  unfold PackedPage.size
  rw [hrelease]
  exact Arena.val_of_get hget

lemma size_set (hget : pools.get id = some p) (hsize : p'.pageSize = p.pageSize) :
    page.size (pools.set id p') = page.size pools := by
  unfold PackedPage.size
  split
  · rename_i j _
    have hval := Arena.val_set (f := Pool.pageSize) (b := p') (j := j) hget
    rw [hsize] at hval
    omega
  · rfl

lemma size_le_push : page.size pools ≤ page.size (pools.push p) := by
  unfold PackedPage.size
  split
  · rw [Arena.val_push]
    omega
  · exact Nat.le_refl _

lemma size_erase (hne : page.release ≠ .pool id) :
    page.size (pools.erase id) = page.size pools := by
  unfold PackedPage.size
  split
  · rename_i j hrelease
    have hj : j ≠ id := by
      rintro rfl
      exact hne hrelease
    unfold Arena.val
    rw [Arena.get_erase, if_neg hj]
  · rfl

lemma ChunkHandle.Fits.mono {h : ChunkHandle} (hf : h.Fits pools)
    (hle : ∀ arc, h.packed = some arc → arc.page.size pools ≤ arc.page.size pools') :
    h.Fits pools' :=
  { hf with
    range := fun arc harc =>
      ⟨(hf.range arc harc).1, (hf.range arc harc).2.trans (hle arc harc)⟩ }

lemma Fits.setPool (hf : Fits pools pages chunks) (hget : pools.get id = some p)
    (hsize : p'.pageSize = p.pageSize) : Fits (pools.set id p') pages chunks where
  page i h hi := by
    rw [Arena.get_set hget]
    split
    · rename_i hpool
      have hold := hf.page i h hi
      rw [hpool, hget] at hold
      rw [← hold, Option.map_some, Option.map_some, hsize]
    · exact hf.page i h hi
  chunk i h hi := (hf.chunk i h hi).mono fun _ _ => Nat.le_of_eq (size_set hget hsize).symm

lemma Fits.pushPool (hf : Fits pools pages chunks) : Fits (pools.push p) pages chunks where
  page i h hi := by
    obtain ⟨q, hq, hcap⟩ := Option.map_eq_some_iff.1 (hf.page i h hi)
    rw [Arena.get_push_of_get hq, Option.map_some, hcap]
  chunk i h hi := (hf.chunk i h hi).mono fun _ _ => size_le_push

lemma Fits.erasePool (hf : Fits pools pages chunks)
    (hpages : ∀ i h, pages.get i = some h → h.pool ≠ id)
    (hchunks : ∀ i h arc, chunks.get i = some h → h.packed = some arc →
      arc.page.release ≠ .pool id) : Fits (pools.erase id) pages chunks where
  page i h hi := by
    rw [Arena.get_erase, if_neg (hpages i h hi)]
    exact hf.page i h hi
  chunk i h hi := (hf.chunk i h hi).mono fun arc harc =>
    Nat.le_of_eq (size_erase (hchunks i h arc hi harc)).symm

/-- A range that fits behind the cursor of the open page of a pool. -/
lemma le_of_room {size align : ℕ} {o : OpenPage} (hlt : p.pageSize < 2 ^ 63)
    (hroom : p.room size align = some o) :
    p.owner.current = some o ∧ o.alignedOffset align + size ≤ p.pageSize := by
  obtain ⟨hcurrent, hle⟩ := Option.filter_eq_some_iff.1 hroom
  refine ⟨hcurrent, ?_⟩
  have hle : min (o.alignedOffset align + size) (size64 - 1) ≤ p.pageSize :=
    of_decide_eq_true hle
  rw [size64_eq] at hle
  omega

lemma fits_newBuilder {tenant size offset : ℕ} {c : SizeClass} {q : Option PackedArc}
    (hrange : ∀ arc, q = some arc → 0 < size ∧ offset + size ≤ arc.page.size pools)
    (hheap : ∀ arc l, q = some arc → arc.page.release = .heap l → offset = 0)
    (hempty : q = none → size = 0) : (newBuilder id tenant size c q offset).Fits pools :=
  ⟨rfl, rfl, Nat.zero_le _, hrange, hheap, hempty⟩

end Fits

/-! ## The invariant -/

/-- Every buffer and every reference is in exactly one place. -/
structure Owned (c : Config) : Prop where
  references : c.References
  blocks : Blocks c.world.blocks c.world.pools
  places : Places c.world.mem c.world.blocks c.world.pools c.world.packed c.world.pages c.buffers
  fits : Fits c.world.pools c.world.pages c.world.chunks

lemma owned_init : Owned World.init.idle where
  references := references_init
  blocks := by
    constructor
    case nodup => exact Multiset.nodup_zero
    case bounds => exact fun b hb => absurd hb (Multiset.notMem_zero b)
    case aligned => exact fun b hb => absurd hb (Multiset.notMem_zero b)
    case apart => exact fun b hb => absurd hb (Multiset.notMem_zero b)
    case origin => exact fun b hb => absurd hb (Multiset.notMem_zero b)
    case pageSize => exact fun id p hget => absurd hget (by simp [World.init])
  places := by
    constructor
    case lists => exact fun id p hget => absurd hget (by simp [World.init])
    case heap => exact fun a l => rfl
    case live => exact fun id a ha => absurd ha (Multiset.notMem_zero _)
  fits := by
    constructor
    case page => exact fun i h hget => absurd hget (by simp [World.init])
    case chunk => exact fun i h hget => absurd hget (by simp [World.init])

section Moves

variable {c c' : Config} {w : World} {B : Multiset (ℕ × ℕ)} {S P : Multiset ℕ} {id : ℕ} {p : Pool}

/-- When the last reference to a pool is in hand, nothing is behind a handle any more. -/
structure Unheld (w : World) (B : Multiset (ℕ × ℕ)) (id : ℕ) (p : Pool) : Prop where
  localHead : p.owner.localHead = 0
  page : ∀ i h, w.pages.get i = some h → h.pool ≠ id
  packed : ∀ k q, w.packed.get k = some q → q.page.release ≠ .pool id
  chunk : ∀ i h arc, w.chunks.get i = some h → h.packed = some arc → arc.page.release ≠ .pool id
  holders : ∀ a, holders w.packed w.pages B id a = 0

lemma Owned.holders_le_one (ho : Owned c) (hget : c.world.pools.get id = some p) (a : ℕ) :
    holders c.world.packed c.world.pages c.buffers id a ≤ 1 := by
  obtain ⟨free, -, hcount⟩ := ho.places.lists id p hget
  have hle := Multiset.nodup_iff_count_le_one.1 ho.blocks.nodup ⟨a, p.layout, .pool id⟩
  have hplace := hcount a
  omega

lemma Owned.unheld (ho : Owned ⟨w, B, id ::ₘ S, P⟩) (hget : w.pools.get id = some p)
    (hlast : p.strong = 1) (hnone : ∀ a, (id, a) ∉ B) : Unheld w B id p := by
  obtain ⟨hrefs, -, -, -, hpages, hpacked⟩ := ho.references.eq_zero_of_last hget hlast
  dsimp only at hpages hpacked
  have hpacked' := release_ne_of_sum_eq_zero hpacked
  refine ⟨?_, pool_ne_of_sum_eq_zero hpages, hpacked', fun i h arc hi harc => ?_, fun a => ?_⟩
  · cases howner : p.owner with
    | dropped o => rfl
    | _ => exact absurd hrefs (by simp [howner, Owner.refs])
  · obtain ⟨q, hq, hpage⟩ := Option.map_eq_some_iff.1 (ho.references.chunk i h arc hi harc)
    rw [← hpage]
    exact hpacked' _ q hq
  · exact holders_eq_zero hpages hpacked hnone a

lemma Owned.blocks_move (ho : Owned c) (hmove : Move c c') :
    Blocks c'.world.blocks c'.world.pools := by
  have hb := ho.blocks
  cases hmove with
  | account => exact hb
  | record => exact hb
  | stats hget st => exact hb.setPool hget rfl
  | newPool hle hvalid hfresh =>
      have hlt := hvalid.2
      unfold defaultAlign at hlt
      exact hb.pushPool hle (by dsimp only at hlt ⊢; omega)
  | @supply w B S P id p a hget hsupplies =>
      obtain ⟨hne, haligned, hend, hapart⟩ := hsupplies
      have hsize := (hb.pageSize id p hget).1
      refine hb.cons hne (Nat.lt_of_lt_of_le (by decide) hsize) hend haligned hapart
        fun j hj => ?_
      obtain rfl : id = j := Origin.pool.inj hj
      exact congrArg (Option.map Pool.layout) hget
  | prefault => exact hb
  | popLocal hget hne st => exact hb.setPool hget rfl
  | drain hget hlive hempty st => exact hb.setPool hget rfl
  | linkLocal hget hlive => exact hb.setPool hget rfl
  | pushReturn hget st => exact hb.setPool hget rfl
  | releaseLocal hget hlive hchain => exact (hb.mono (Multiset.sub_le_self _ _)).setPool hget rfl
  | cloneShared hget => exact hb.setPool hget rfl
  | dropShared hget hshared => exact hb.setPool hget rfl
  | @freeShared w B S P id p r hget hlast hnone hchain =>
      have hunheld := ho.unheld hget hlast hnone
      refine (hb.mono (Multiset.sub_le_self _ _)).erasePool ?_
      intro b hmem horigin
      -- All blocks of the pool were on its return queue, and the walk has taken them.
      have hlayout := hb.origin b (Multiset.mem_of_le (Multiset.sub_le_self _ _) hmem) id horigin
      rw [hget] at hlayout
      obtain ⟨a, l, o⟩ := b
      obtain rfl : p.layout = l := Option.some.inj hlayout
      obtain rfl : o = .pool id := horigin
      have hcount := ho.places.count_of_unheld hget hunheld.localHead hchain hunheld.holders a
      have hpos := Multiset.count_pos.2 hmem
      rw [count_released, if_pos ⟨rfl, rfl⟩] at hpos
      dsimp only at hcount hpos
      omega
  | giveShared => exact hb
  | takeShared hpos => exact hb
  | newPage hget howner hcap => exact hb
  | removePage hget => exact hb
  | setPage hget hsame => exact hb
  | writePage hget hle => exact hb
  | newPacked => exact hb
  | newHeap hpos hsupplies =>
      obtain ⟨hne, haligned, hend, hapart⟩ := hsupplies
      exact hb.cons hne hpos hend haligned hapart fun j hj => absurd hj (by simp)
  | clonePacked hget => exact hb
  | dropPacked hget hshared => exact hb
  | freePacked hget => exact hb
  | freeHeap hget => exact hb.mono (Multiset.sub_le_self _ _)
  | takeCurrent hget hcurrent => exact hb.setPool hget rfl
  | setCurrent hget howner honly => exact hb.setPool hget rfl
  | claim tenant hpos halign hget hroom harc => exact hb.setPool hget rfl
  | newChunk id tenant c honly hempty => exact hb
  | removeChunk hget => exact hb
  | setChunk hget hsame => exact hb
  | writeChunk hget hbuilder hbase hle => exact hb

/-- The buffer of a page handle is live. -/
lemma Owned.mem_of_page {i : ℕ} {h : PageHandle} (ho : Owned c)
    (hget : c.world.pages.get i = some h) :
    ⟨h.buf, ⟨h.capacity, defaultAlign⟩, .pool h.pool⟩ ∈ c.world.blocks ∧
      holders c.world.packed c.world.pages c.buffers h.pool h.buf ≠ 0 := by
  obtain ⟨p, hp, hcap⟩ := Option.map_eq_some_iff.1 (ho.fits.page i h hget)
  have hle := Arena.le_sum (f := fun g : PageHandle =>
    if (h.pool, h.buf) = (g.pool, g.buf) then 1 else 0) hget
  rw [if_pos rfl] at hle
  have hheld : holders c.world.packed c.world.pages c.buffers h.pool h.buf ≠ 0 := by
    unfold holders
    omega
  have hmem := ho.places.mem_of_held hp hheld
  rw [Pool.layout, hcap] at hmem
  exact ⟨hmem, hheld⟩

/-- The block of a packed page. -/
def PackedPage.block (pools : Arena Pool) (page : PackedPage) : Block :=
  match page.release with
  | .pool id => ⟨page.buf, ⟨page.size pools, defaultAlign⟩, .pool id⟩
  | .heap l => ⟨page.buf, l, .heap⟩

lemma base_block {pools : Arena Pool} {page : PackedPage} :
    (page.block pools).base = page.buf := by
  unfold PackedPage.block
  split <;> rfl

lemma size_block {pools : Arena Pool} {page : PackedPage} :
    (page.block pools).layout.size = page.size pools := by
  unfold PackedPage.block
  split
  · rfl
  · rename_i l hrelease
    unfold PackedPage.size
    rw [hrelease]

lemma one_le_sum_packed {packed : Arena PackedInner} {k : ℕ} {page : PackedPage}
    (hpage : pageOf packed k = some page) :
    1 ≤ packed.sum fun q => if q.page = page then 1 else 0 := by
  obtain ⟨q, hq, rfl⟩ := Option.map_eq_some_iff.1 hpage
  have hle := Arena.le_sum (f := fun r : PackedInner => if r.page = q.page then 1 else 0) hq
  rwa [if_pos rfl] at hle

/-- The pool of a packed page is live. -/
lemma References.pool_of_packed {pools : Arena Pool} {packed : Arena PackedInner}
    {pages : Arena PageHandle} {chunks : Arena ChunkHandle} {handles : ℕ → ℕ} {k a : ℕ}
    (hr : References pools packed pages chunks handles S P)
    (hpage : pageOf packed k = some ⟨a, .pool id⟩) : ∃ p, pools.get id = some p := by
  have hle := References.one_le_sum_release hpage
  have hcount := hr.sharedCount id
  unfold sharedRefs at hcount
  cases hget : pools.get id with
  | some p => exact ⟨p, rfl⟩
  | none =>
      rw [Arena.val_of_none hget] at hcount
      omega

/-- The buffer of a packed page is live. -/
lemma Owned.mem_of_packed {k : ℕ} {page : PackedPage} (ho : Owned c)
    (hpage : pageOf c.world.packed k = some page) :
    page.block c.world.pools ∈ c.world.blocks ∧
      ∀ id, page.release = .pool id →
        holders c.world.packed c.world.pages c.buffers id page.buf ≠ 0 := by
  obtain ⟨a, release⟩ := page
  have hone := one_le_sum_packed hpage
  cases release with
  | heap l =>
      refine ⟨?_, fun id hid => absurd hid (by simp)⟩
      apply Multiset.count_pos.1
      show 0 < c.world.blocks.count ⟨a, l, .heap⟩
      rw [ho.places.heap]
      exact hone
  | pool id =>
      obtain ⟨p, hp⟩ := ho.references.pool_of_packed hpage
      have hheld : holders c.world.packed c.world.pages c.buffers id a ≠ 0 := by
        unfold holders
        omega
      refine ⟨?_, fun j hj => ?_⟩
      · have hmem := ho.places.mem_of_held hp hheld
        show (⟨a, ⟨c.world.pools.val Pool.pageSize id, defaultAlign⟩, .pool id⟩ : Block) ∈ _
        rw [Arena.val_of_get hp]
        exact hmem
      · obtain rfl : id = j := Release.pool.inj hj
        exact hheld

/-- The range of a chunk handle is inside its page. -/
lemma Owned.range_of_chunk {i : ℕ} {h : ChunkHandle} {arc : PackedArc} (ho : Owned c)
    (hget : c.world.chunks.get i = some h) (harc : h.packed = some arc) :
    h.offset + h.capacity ≤ arc.page.size c.world.pools := by
  have hfits := ho.fits.chunk i h hget
  have hrange := (hfits.range arc harc).2
  have hoffset : h.offset ≤ h.request.offset := by
    rw [hfits.offset]
    exact truncate32_le _
  have hcapacity : h.capacity ≤ h.request.size := by
    rw [hfits.capacity]
    exact truncate32_le _
  omega

/-- The range of a chunk handle is inside a live buffer that is not free. -/
lemma Owned.mem_of_chunk {i a : ℕ} {h : ChunkHandle} (ho : Owned c)
    (hget : c.world.chunks.get i = some h) (hbase : h.base = some a) :
    ∃ b ∈ c.world.blocks, b.base ≤ a ∧ a + h.capacity ≤ b.base + b.layout.size ∧
      ∀ id, b.origin = .pool id →
        holders c.world.packed c.world.pages c.buffers id b.base ≠ 0 := by
  obtain ⟨arc, harc, rfl⟩ := Option.map_eq_some_iff.1 hbase
  obtain ⟨hmem, hheld⟩ := ho.mem_of_packed (ho.references.chunk i h arc hget harc)
  have hrange := ho.range_of_chunk hget harc
  refine ⟨arc.page.block c.world.pools, hmem, ?_, ?_, fun id hid => ?_⟩
  · rw [base_block]
    omega
  · rw [base_block, size_block]
    omega
  · rw [base_block]
    refine hheld id ?_
    unfold PackedPage.block at hid
    split at hid
    · rename_i j hrelease
      obtain rfl : j = id := Origin.pool.inj hid
      exact hrelease
    · exact absurd hid (by simp)

lemma Owned.places_move (ho : Owned c) (hmove : Move c c') :
    Places c'.world.mem c'.world.blocks c'.world.pools c'.world.packed c'.world.pages
      c'.buffers := by
  have hp := ho.places
  have hb := ho.blocks
  cases hmove with
  | account => exact hp
  | record => exact hp
  | stats hget st => exact hp.setPool_same hb hget rfl rfl rfl
  | @newPool w B S P pageSize st o hle hvalid hfresh =>
      have hdead : w.pools.get w.pools.next = none := w.pools.get_of_le _ (Nat.le_refl _)
      have hcount := ho.references.sharedCount w.pools.next
      unfold sharedRefs at hcount
      dsimp only at hcount
      rw [Arena.val_of_none hdead] at hcount
      have hpages : w.pages.sum (fun h => if w.pools.next = h.pool then 1 else 0) = 0 := by omega
      have hpacked : w.packed.sum (fun q =>
          if q.page.release = .pool w.pools.next then 1 else 0) = 0 := by omega
      refine hp.pushPool hb (holders_eq_zero hpages hpacked fun a ha => ?_) ?_ rfl
      · obtain ⟨q, hq⟩ := hp.live _ a ha
        exact absurd (hdead.symm.trans hq) (by simp)
      · rcases hfresh with rfl | rfl <;> rfl
  | supply hget hsupplies => exact hp.supply hb hget hsupplies.2.2.2
  | prefault => exact hp
  | popLocal hget hne st => exact hp.popLocal hb hget hne st
  | drain hget hlive hempty st => exact hp.drain hb hget hlive hempty st
  | linkLocal hget hlive => exact hp.linkLocal hb hget hlive
  | pushReturn hget st => exact hp.pushReturn hb hget st
  | releaseLocal hget hlive hchain => exact hp.releaseLocal hget hchain
  | cloneShared hget => exact hp.setPool_same hb hget rfl rfl rfl
  | dropShared hget hshared => exact hp.setPool_same hb hget rfl rfl rfl
  | freeShared hget hlast hnone hchain => exact hp.freeShared hnone
  | giveShared => exact hp
  | takeShared hpos => exact hp
  | newPage hget howner hcap => exact hp.newPage
  | @removePage w B S P i h hget =>
      obtain ⟨p, hpool, -⟩ := Option.map_eq_some_iff.1 (ho.fits.page i h hget)
      exact hp.removePage hget ⟨p, hpool⟩
  | setPage hget hsame => exact hp.setHolders (holders_set_page hget hsame) (fun _ _ => rfl) hp.live
  | @writePage w B S P i pos data h hget hle =>
      obtain ⟨hmem, hheld⟩ := ho.mem_of_page hget
      refine hp.setMem hb.nodup ?_
      refine untouched_of_held hb hmem (fun x hx => write_of_outside ?_) fun id hid => ?_
      · dsimp only at hx
        omega
      · obtain rfl : h.pool = id := Origin.pool.inj hid
        exact hheld
  | newPacked => exact hp.newPacked
  | newHeap hpos hsupplies => exact hp.newHeap hb hsupplies.2.2.2
  | @clonePacked w B S P k q hget => exact hp.setPacked hget rfl
  | @dropPacked w B S P k q hget hshared => exact hp.setPacked hget rfl
  | freePacked hget =>
      exact hp.freePacked hget (ho.references.pool_of_packed (pageOf_of_get hget))
  | freeHeap hget => exact hp.freeHeap hget
  | takeCurrent hget hcurrent =>
      refine hp.setPool_same hb hget rfl ?_ rfl
      exact Owner.localHead_setCurrent
  | setCurrent hget howner honly =>
      refine hp.setPool_same hb hget rfl ?_ rfl
      rw [howner]
      rfl
  | @claim w B S P id p o q size align tenant hpos halign hget hroom harc =>
      have hpool : Places w.mem w.blocks (w.pools.set id (p.claim o size align)) w.packed w.pages
          B := hp.setPool_same hb hget rfl Owner.localHead_setCurrent rfl
      exact hpool.setPacked harc rfl
  | newChunk id tenant c honly hempty => exact hp
  | removeChunk hget => exact hp
  | setChunk hget hsame => exact hp
  | @writeChunk w B S P i a pos data h hget hbuilder hbase hle =>
      obtain ⟨b, hmem, hlow, hhigh, hheld⟩ := ho.mem_of_chunk hget hbase
      refine hp.setMem hb.nodup ?_
      refine untouched_of_held hb hmem (fun x hx => write_of_outside ?_) hheld
      omega

lemma Owned.fits_move (ho : Owned c) (hmove : Move c c') :
    Fits c'.world.pools c'.world.pages c'.world.chunks := by
  have hf := ho.fits
  cases hmove with
  | stats hget st => exact hf.setPool hget rfl
  | newPool hle hvalid hfresh => exact hf.pushPool
  | popLocal hget hne st => exact hf.setPool hget rfl
  | drain hget hlive hempty st => exact hf.setPool hget rfl
  | linkLocal hget hlive => exact hf.setPool hget rfl
  | pushReturn hget st => exact hf.setPool hget rfl
  | releaseLocal hget hlive hchain => exact hf.setPool hget rfl
  | cloneShared hget => exact hf.setPool hget rfl
  | dropShared hget hshared => exact hf.setPool hget rfl
  | freeShared hget hlast hnone hchain =>
      have hunheld := ho.unheld hget hlast hnone
      exact hf.erasePool hunheld.page hunheld.chunk
  | @newPage w B S P p l h hget howner hcap =>
      refine { hf with page := fun i g hg => ?_ }
      rw [Arena.get_push] at hg
      split at hg
      · obtain rfl := Option.some.inj hg
        rw [hcap]
        exact congrArg (Option.map Pool.pageSize) hget
      · exact hf.page i g hg
  | removePage hget =>
      exact { hf with page := fun i g hg => hf.page i g (Arena.get_of_get_erase hg).2 }
  | @setPage w B S P i h h' hget hsame =>
      refine { hf with page := fun j g hg => ?_ }
      rw [Arena.get_set hget] at hg
      split at hg
      · obtain rfl := Option.some.inj hg
        rw [hsame.pool, hsame.capacity]
        exact hf.page i h hget
      · exact hf.page j g hg
  | takeCurrent hget hcurrent => exact hf.setPool hget rfl
  | setCurrent hget howner honly => exact hf.setPool hget rfl
  | @claim w B S P id p o q size align tenant hpos halign hget hroom harc =>
      obtain ⟨hcurrent, hle⟩ := le_of_room (ho.blocks.pageSize id p hget).2 hroom
      obtain ⟨-, hrelease⟩ := ho.references.current id p o hget hcurrent
      have hf' : Fits (w.pools.set id (p.claim o size align)) w.pages w.chunks :=
        hf.setPool hget rfl
      refine { hf' with chunk := fun i g hg => ?_ }
      rw [Arena.get_push] at hg
      split at hg
      · obtain rfl := Option.some.inj hg
        refine fits_newBuilder (fun arc harc' => ?_) (fun arc l harc' hheap => ?_)
          fun hnone => absurd hnone (by simp)
        · obtain rfl := Option.some.inj harc'
          have hsize : o.shared.page.size (w.pools.set id (p.claim o size align)) = p.pageSize := by
            rw [size_set hget (show (p.claim o size align).pageSize = p.pageSize from rfl)]
            exact size_of_pool hget hrelease
          exact ⟨hpos, hle.trans (Nat.le_of_eq hsize.symm)⟩
        · obtain rfl := Option.some.inj harc'
          exact absurd (hrelease.symm.trans hheap) (by simp)
      · exact hf'.chunk i g hg
  | @newChunk w B S P size q id tenant c honly hempty =>
      refine { hf with chunk := fun i g hg => ?_ }
      rw [Arena.get_push] at hg
      split at hg
      · obtain rfl := Option.some.inj hg
        refine fits_newBuilder (fun arc harc => ?_) (fun _ _ _ _ => rfl) hempty
        rw [Nat.zero_add]
        exact (honly arc harc).2
      · exact hf.chunk i g hg
  | removeChunk hget =>
      exact { hf with chunk := fun i g hg => hf.chunk i g (Arena.get_of_get_erase hg).2 }
  | @setChunk w B S P i h h' hget hsame =>
      refine { hf with chunk := fun j g hg => ?_ }
      rw [Arena.get_set hget] at hg
      split at hg
      · obtain rfl := Option.some.inj hg
        have hold := hf.chunk i h hget
        refine ⟨?_, ?_, ?_, ?_, ?_, ?_⟩
        · rw [hsame.offset, hsame.request, hold.offset]
        · rw [hsame.capacity, hsame.request, hold.capacity]
        · rw [hsame.capacity]
          exact hsame.len hold.len
        · rw [hsame.packed, hsame.request]
          exact hold.range
        · rw [hsame.packed, hsame.request]
          exact hold.heap
        · rw [hsame.packed, hsame.request]
          exact hold.empty
      · exact hf.chunk j g hg
  | _ => exact hf

/-- **One move.** -/
theorem Owned.move (ho : Owned c) (hmove : Move c c') : Owned c' where
  references := ho.references.move hmove
  blocks := ho.blocks_move hmove
  places := ho.places_move hmove
  fits := ho.fits_move hmove

lemma Owned.moves (ho : Owned c) (hmoves : Moves c c') : Owned c' := by
  induction hmoves with
  | refl => exact ho
  | tail _ hmove ih => exact ih.move hmove

end Moves

end PagedAlloc.Sequential
