import PagedAlloc.Properties.OwnershipRuns

/-!
# Exactly-once release

The log of calls to the sources and to the global allocator, over whole runs.  A release is only
ever logged for a buffer to which no live handle refers, and for every origin, layout and address
the allocations are the releases plus what is live (`Logged`).  Nothing is live once its pool and
all handles are gone, so by then everything has been released once, to where it came from and
with the layout it was allocated with (`released_exactly_once`), in whatever order the pools and
the handles were dropped.
-/

namespace PagedAlloc.Sequential

open Words Bytes Intrusive Relation Transition

variable {c c' : Config} {w w' : World} {ops : List Op}

/-! ## Nothing refers to what is released -/

lemma references_eq_zero {a : ℕ} (hpage : ∀ i h, w.pages.get i = some h → h.buf ≠ a)
    (hchunk : ∀ i h arc, w.chunks.get i = some h → h.packed = some arc → arc.page.buf ≠ a)
    (hcurrent : ∀ id p o, w.pools.get id = some p → p.owner.current = some o →
      o.shared.page.buf ≠ a) : w.references a = 0 := by
  have hpages : w.pages.sum (fun h => if h.buf = a then 1 else 0) = 0 :=
    Arena.sum_eq_zero fun i h hi => if_neg (hpage i h hi)
  have hchunks : w.chunks.sum (fun h =>
      if (h.packed.map fun p => p.page.buf) = some a then 1 else 0) = 0 := by
    refine Arena.sum_eq_zero fun i h hi => if_neg fun heq => ?_
    obtain ⟨arc, harc, hbuf⟩ := Option.map_eq_some_iff.1 heq
    exact hchunk i h arc hi harc hbuf
  have hpools : w.pools.sum (fun p =>
      if (p.owner.current.map fun o => o.shared.page.buf) = some a then 1 else 0) = 0 := by
    refine Arena.sum_eq_zero fun id p hget => if_neg fun heq => ?_
    obtain ⟨o, ho, hbuf⟩ := Option.map_eq_some_iff.1 heq
    exact hcurrent id p o hget ho hbuf
  unfold World.references
  rw [hpages, hchunks, hpools]

/-- The block of a packed page determines the page. -/
lemma release_of_block {pools : Arena Pool} {page : PackedPage} {a : ℕ} {l : Layout} {o : Origin}
    (h : page.block pools = ⟨a, l, o⟩) :
    (∃ id, o = .pool id ∧ page = ⟨a, .pool id⟩) ∨ (o = .heap ∧ page = ⟨a, .heap l⟩) := by
  obtain ⟨buf, release⟩ := page
  cases release with
  | pool id =>
      obtain ⟨rfl, -, rfl⟩ := Block.mk.inj h
      exact Or.inl ⟨id, rfl, rfl⟩
  | heap l' =>
      obtain ⟨rfl, rfl, rfl⟩ := Block.mk.inj h
      exact Or.inr ⟨rfl, rfl⟩

/-- Whatever has its buffer at the address of a live block is a holder of that block. -/
lemma Owned.block_of_packed {k a : ℕ} {l : Layout} {o : Origin} {page : PackedPage} (ho : Owned c)
    (hmem : ⟨a, l, o⟩ ∈ c.world.blocks) (hpage : pageOf c.world.packed k = some page)
    (hbuf : page.buf = a) : page.block c.world.pools = ⟨a, l, o⟩ :=
  ho.blocks.eq_of_base_eq (ho.mem_of_packed hpage).1 hmem (base_block.trans hbuf)

/-- No handle refers to a free buffer. -/
lemma Owned.references_of_free {id a : ℕ} {p : Pool} (ho : Owned c)
    (hmem : ⟨a, p.layout, .pool id⟩ ∈ c.world.blocks)
    (hheld : holders c.world.packed c.world.pages c.buffers id a = 0) :
    c.world.references a = 0 := by
  have hpacked : ∀ k page, pageOf c.world.packed k = some page → page.buf ≠ a := by
    intro k page hpage hbuf
    rcases release_of_block (ho.block_of_packed hmem hpage hbuf) with ⟨j, hj, rfl⟩ | ⟨hheap, -⟩
    · obtain rfl : id = j := Origin.pool.inj hj
      exact (ho.mem_of_packed hpage).2 id rfl hheld
    · exact absurd hheap (by simp)
  refine references_eq_zero (fun i h hi hbuf => ?_) (fun i h arc hi harc => ?_)
    fun j q o hj hcurrent => ?_
  · obtain ⟨hmem', hheld'⟩ := ho.mem_of_page hi
    have hblock := ho.blocks.eq_of_base_eq hmem' hmem hbuf
    obtain ⟨-, -, horigin⟩ := Block.mk.inj hblock
    obtain rfl : h.pool = id := Origin.pool.inj horigin
    rw [hbuf] at hheld'
    exact hheld' hheld
  · exact hpacked arc.id arc.page (ho.references.chunk i h arc hi harc)
  · exact hpacked o.shared.id o.shared.page (ho.references.current j q o hj hcurrent).1

/-- No handle refers to an oversized buffer whose last reference is in hand. -/
lemma Owned.references_of_last {B : Multiset (ℕ × ℕ)} {S P : Multiset ℕ} {k a : ℕ} {l : Layout}
    (ho : Owned ⟨w, B, S, k ::ₘ P⟩) (hget : w.packed.get k = some ⟨⟨a, .heap l⟩, 1⟩) :
    w.references a = 0 := by
  have hmem : (⟨a, l, .heap⟩ : Block) ∈ w.blocks := (ho.mem_of_packed (pageOf_of_get hget)).1
  obtain ⟨-, hchunks, hpools⟩ := ho.references.ne_of_last hget rfl
  -- A second packed page with this buffer would make the block appear twice.
  have hpacked : ∀ j page, pageOf w.packed j = some page → j ≠ k → page.buf ≠ a := by
    intro j page hpage hj hbuf
    rcases release_of_block (ho.block_of_packed hmem hpage hbuf) with ⟨id, hid, -⟩ | ⟨-, rfl⟩
    · exact absurd hid (by simp)
    · have hsum := Arena.sum_erase (f := fun q : PackedInner =>
        if q.page = ⟨a, .heap l⟩ then 1 else 0) hget
      rw [if_pos rfl] at hsum
      obtain ⟨q, hq, hpage'⟩ := Option.map_eq_some_iff.1 hpage
      have hother : pageOf (w.packed.erase k) j = some ⟨a, .heap l⟩ := by
        rw [← hpage']
        exact pageOf_of_get ((Arena.get_erase).trans ((if_neg hj).trans hq))
      have hone := one_le_sum_packed hother
      have hcount := ho.places.heap a l
      have hle := Multiset.nodup_iff_count_le_one.1 ho.blocks.nodup ⟨a, l, .heap⟩
      dsimp only at hcount hle
      omega
  refine references_eq_zero (fun i h hi hbuf => ?_) (fun i h arc hi harc => ?_)
    fun j q o hj hcurrent => ?_
  · have hblock := ho.blocks.eq_of_base_eq (ho.mem_of_page hi).1 hmem hbuf
    exact absurd (Block.mk.inj hblock).2.2 (by simp)
  · exact hpacked arc.id arc.page (ho.references.chunk i h arc hi harc) (hchunks i h arc hi harc)
  · exact hpacked o.shared.id o.shared.page (ho.references.current j q o hj hcurrent).1
      (hpools j q o hj hcurrent)

/-- The walks of the destructors release live buffers to which nothing refers. -/
lemma Owned.walk {id head : ℕ} {p : Pool} {as : List ℕ} (ho : Owned c)
    (hget : c.world.pools.get id = some p) (hhead : head = p.owner.localHead ∨ head = p.returnHead)
    (hchain : Chain 0 (readPtr c.world.mem) head as) :
    ((as.map fun a => ⟨a, p.layout, .pool id⟩ : List Block) : Multiset Block) ≤ c.world.blocks ∧
      ∀ a ∈ as, c.world.references a = 0 := by
  obtain ⟨l, r, hl, hr, hlel, hler⟩ := map_le_blocks ho.places hget
  have hle : ((as.map fun a => ⟨a, p.layout, .pool id⟩ : List Block) : Multiset Block) ≤
      c.world.blocks := by
    rcases hhead with rfl | rfl
    · rw [hchain.unique hl]
      exact hlel
    · rw [hchain.unique hr]
      exact hler
  refine ⟨hle, fun a ha => ?_⟩
  have hmem : (⟨a, p.layout, .pool id⟩ : Block) ∈ c.world.blocks :=
    Multiset.mem_of_le hle (Multiset.mem_coe.2 (List.mem_map_of_mem ha))
  refine ho.references_of_free hmem ?_
  -- The buffer is on a list, and it is in one place only.
  obtain ⟨free, ⟨l', r', hl', hr', rfl⟩, hcount⟩ := ho.places.lists id p hget
  have hfree : a ∈ l' ++ r' := by
    rcases hhead with rfl | rfl
    · rw [hchain.unique hl'] at ha
      exact List.mem_append_left _ ha
    · rw [hchain.unique hr'] at ha
      exact List.mem_append_right _ ha
  have hpos : 0 < (l' ++ r').count a := List.count_pos_iff.2 hfree
  have hle' := Multiset.nodup_iff_count_le_one.1 ho.blocks.nodup ⟨a, p.layout, .pool id⟩
  have heq := hcount a
  rw [Multiset.coe_count] at heq
  omega

/-! ## The log -/

/-- Releases are of buffers without references, and allocations are releases plus what is
live. -/
structure Logged (log : List SourceEvent) (blocks : Multiset Block) : Prop where
  unreferenced : ∀ o l a n, .release o l a n ∈ log → n = 0
  balance : ∀ o l a, log.count (.allocate o l a) =
    log.count (.release o l a 0) + blocks.count ⟨a, l, o⟩

section Log

variable {log : List SourceEvent} {blocks : Multiset Block} {o : Origin} {l : Layout} {a : ℕ}

lemma Logged.allocate (hl : Logged log blocks) :
    Logged (.allocate o l a :: log) (⟨a, l, o⟩ ::ₘ blocks) where
  unreferenced o' l' a' n hmem := by
    rcases List.mem_cons.1 hmem with heq | hmem
    · exact absurd heq (by simp)
    · exact hl.unreferenced o' l' a' n hmem
  balance o' l' a' := by
    have hold := hl.balance o' l' a'
    have hiff : (SourceEvent.allocate o l a = .allocate o' l' a') ↔
        (⟨a', l', o'⟩ : Block) = ⟨a, l, o⟩ := by
      simp only [SourceEvent.allocate.injEq, Block.mk.injEq]
      constructor <;> rintro ⟨rfl, rfl, rfl⟩ <;> exact ⟨rfl, rfl, rfl⟩
    rw [List.count_cons, List.count_cons, Multiset.count_cons]
    simp only [beq_iff_eq, hiff, reduceCtorEq, if_false]
    omega

lemma Logged.releaseAll {as : List ℕ} {refs : ℕ → ℕ} (hl : Logged log blocks)
    (hle : ((as.map fun a => ⟨a, l, o⟩ : List Block) : Multiset Block) ≤ blocks)
    (hzero : ∀ a ∈ as, refs a = 0) :
    Logged ((as.map fun a => SourceEvent.release o l a (refs a)).reverse ++ log)
      (blocks - ((as.map fun a => ⟨a, l, o⟩ : List Block) : Multiset Block)) := by
  have hmap : (as.map fun a => SourceEvent.release o l a (refs a)) =
      as.map fun a => SourceEvent.release o l a 0 :=
    List.map_congr_left fun a ha => by rw [hzero a ha]
  rw [hmap]
  constructor
  case unreferenced =>
    intro o' l' a' n hmem
    rcases List.mem_append.1 hmem with hmem | hmem
    · obtain ⟨x, -, hx⟩ := List.mem_map.1 (List.mem_reverse.1 hmem)
      obtain ⟨-, -, -, rfl⟩ := SourceEvent.release.inj hx
      rfl
    · exact hl.unreferenced o' l' a' n hmem
  case balance =>
    intro o' l' a'
    have hold := hl.balance o' l' a'
    have hallocate : (as.map fun a => SourceEvent.release o l a 0).count (.allocate o' l' a') =
        0 := by
      apply List.count_eq_zero.2
      intro hmem
      obtain ⟨x, -, hx⟩ := List.mem_map.1 hmem
      exact absurd hx (by simp)
    have hrelease : (as.map fun a => SourceEvent.release o l a 0).count (.release o' l' a' 0) =
        (as.map fun a => (⟨a, l, o⟩ : Block)).count ⟨a', l', o'⟩ := by
      rw [List.count_eq_countP, List.count_eq_countP, List.countP_map, List.countP_map]
      apply List.countP_congr
      intro x _
      simp only [Function.comp_apply, beq_iff_eq, SourceEvent.release.injEq, Block.mk.injEq]
      constructor
      · rintro ⟨rfl, rfl, rfl, -⟩
        exact ⟨rfl, rfl, rfl⟩
      · rintro ⟨rfl, rfl, rfl⟩
        exact ⟨rfl, rfl, rfl, trivial⟩
    have hcount := Multiset.le_iff_count.1 hle ⟨a', l', o'⟩
    rw [Multiset.coe_count] at hcount
    rw [List.count_append, List.count_append, List.count_reverse, List.count_reverse, hallocate,
      hrelease, Multiset.count_sub, Multiset.coe_count]
    omega

end Log

/-- **One move.** -/
lemma Logged.move (ho : Owned c) (hl : Logged c.world.log c.world.blocks) (hmove : Move c c') :
    Logged c'.world.log c'.world.blocks := by
  cases hmove with
  | supply hget hsupplies => exact hl.allocate
  | newHeap hpos hsupplies => exact hl.allocate
  | releaseLocal hget hlive hchain =>
      obtain ⟨hle, hzero⟩ := ho.walk hget (Or.inl rfl) hchain
      exact hl.releaseAll hle hzero
  | freeShared hget hlast hnone hchain =>
      obtain ⟨hle, hzero⟩ := ho.walk hget (Or.inr rfl) hchain
      exact hl.releaseAll hle hzero
  | @freeHeap w B S P k l a hget =>
      have hmem : (⟨a, l, .heap⟩ : Block) ∈ w.blocks := (ho.mem_of_packed (pageOf_of_get hget)).1
      refine hl.releaseAll ?_ fun x hx => ?_
      · exact Multiset.singleton_le.2 hmem
      · obtain rfl := List.mem_singleton.1 hx
        exact ho.references_of_last hget
  | _ => exact hl

lemma Logged.moves (ho : Owned c) (hl : Logged c.world.log c.world.blocks)
    (hmoves : Moves c c') : Logged c'.world.log c'.world.blocks := by
  induction hmoves with
  | refl => exact hl
  | tail hbefore hmove ih => exact ih.move (ho.moves hbefore) hmove

lemma logged_run (h : runOps ops = some w) : Logged w.log w.blocks := by
  have hinit : Logged World.init.log World.init.blocks :=
    ⟨fun o l a n hmem => absurd hmem (by simp [World.init]), fun o l a => rfl⟩
  exact Logged.moves owned_init hinit (custody_run owned_init h)

/-- No move raises a fault. -/
lemma fault_move (hmove : Move c c') : c'.world.fault = c.world.fault := by
  cases hmove <;> rfl

lemma fault_moves (hmoves : Moves c c') : c'.world.fault = c.world.fault := by
  induction hmoves with
  | refl => rfl
  | tail _ hmove ih => exact (fault_move hmove).trans ih

lemma fault_run (h : runOps ops = some w) : w.fault = false :=
  fault_moves (custody_run owned_init h)

/-! ## Teardown -/

/-- The owner of a pool, the handles of its buffers and the references outside the crate are all
gone. -/
structure World.Gone (w : World) (id : ℕ) : Prop where
  owner : ∀ p, w.pools.get id = some p → p.owner = .dropped none
  page : ∀ i h, w.pages.get i = some h → h.pool ≠ id
  chunk : ∀ i h arc, w.chunks.get i = some h → h.packed = some arc → arc.page.release ≠ .pool id
  handles : w.sharedHandles id = 0

/-- Every packed page has a chunk or an open page that refers to it. -/
lemma Owned.exists_reference {k : ℕ} {q : PackedInner} (ho : Owned w.idle)
    (hget : w.packed.get k = some q) :
    (∃ i h arc, w.chunks.get i = some h ∧ h.packed = some arc ∧ arc.page = q.page) ∨
      ∃ id p o, w.pools.get id = some p ∧ p.owner.current = some o ∧ o.shared.page = q.page := by
  have hpos := ho.references.packed_pos k q hget
  have hcount := ho.references.packedCount k
  dsimp only at hcount
  rw [Arena.val_of_get hget, Multiset.count_zero] at hcount
  unfold packedRefs at hcount
  have hid : ∀ x : Option PackedArc, (heldIds x).count k ≠ 0 → ∃ arc, x = some arc ∧ arc.id = k := by
    intro x hx
    cases x with
    | none => exact absurd rfl hx
    | some arc =>
        rw [count_heldIds_some] at hx
        by_cases hk : k = arc.id
        · exact ⟨arc, rfl, hk.symm⟩
        · exact absurd (if_neg hk) hx
  by_cases hchunks : w.chunks.sum (fun h => (heldIds h.packed).count k) = 0
  · have hpools : w.pools.sum (fun p =>
        (heldIds (p.owner.current.map OpenPage.shared)).count k) ≠ 0 := by omega
    obtain ⟨id, p, hp, hne⟩ := Arena.exists_of_sum_ne_zero hpools
    obtain ⟨arc, harc, rfl⟩ := hid _ hne
    obtain ⟨o, hcurrent, rfl⟩ := Option.map_eq_some_iff.1 harc
    have hpage := (ho.references.current id p o hp hcurrent).1
    rw [show pageOf w.packed o.shared.id = some q.page from pageOf_of_get hget] at hpage
    exact Or.inr ⟨id, p, o, hp, hcurrent, (Option.some.inj hpage).symm⟩
  · obtain ⟨i, h, hi, hne⟩ := Arena.exists_of_sum_ne_zero hchunks
    obtain ⟨arc, harc, rfl⟩ := hid _ hne
    have hpage := ho.references.chunk i h arc hi harc
    rw [show pageOf w.packed arc.id = some q.page from pageOf_of_get hget] at hpage
    exact Or.inl ⟨i, h, arc, hi, harc, (Option.some.inj hpage).symm⟩

/-- A pool that is gone has been freed. -/
lemma Owned.get_eq_none {id : ℕ} (ho : Owned w.idle) (hgone : w.Gone id) :
    w.pools.get id = none := by
  cases hget : w.pools.get id with
  | none => rfl
  | some p =>
      have hpos := ho.references.shared_pos id p hget
      have hcount := ho.references.sharedCount id
      unfold sharedRefs at hcount
      dsimp only at hcount
      have hpages : w.pages.sum (fun h => if id = h.pool then 1 else 0) = 0 :=
        Arena.sum_eq_zero fun i h hi => if_neg (Ne.symm (hgone.page i h hi))
      have hpacked : w.packed.sum (fun q => if q.page.release = .pool id then 1 else 0) = 0 := by
        refine Arena.sum_eq_zero fun k q hk => if_neg fun hrelease => ?_
        rcases ho.exists_reference hk with ⟨i, h, arc, hi, harc, hpage⟩ | ⟨j, r, o, hj, ho', hpage⟩
        · exact hgone.chunk i h arc hi harc (by rw [hpage, hrelease])
        · have hpool := (ho.references.current j r o hj ho').2
          rw [hpage, hrelease] at hpool
          obtain rfl : id = j := Release.pool.inj hpool
          rw [hgone.owner r hj] at ho'
          exact absurd ho' (by simp [Owner.current])
      rw [Arena.val_of_get hget, Arena.val_of_get hget, hgone.owner p hget, hpages, hpacked,
        hgone.handles, Multiset.count_zero] at hcount
      change p.strong = 0 at hcount
      omega

/-- **Exactly-once release.** In every reachable state nothing has gone wrong in a destructor, no
buffer has been released while a handle referred to it, and no buffer more often than it was
allocated; and once a pool is gone, or an oversized buffer has no chunk any more, each of its
allocations has been released once, to its own source and with its own layout. -/
theorem released_exactly_once (h : runOps ops = some w) :
    w.fault = false ∧
    (∀ o l a n, .release o l a n ∈ w.log → n = 0) ∧
    (∀ o l a, w.log.count (.release o l a 0) ≤ w.log.count (.allocate o l a) ∧
      w.log.count (.allocate o l a) ≤ w.log.count (.release o l a 0) + 1) ∧
    (∀ id, w.Gone id → ∀ l a, w.log.count (.allocate (.pool id) l a) =
      w.log.count (.release (.pool id) l a 0)) ∧
    ∀ l a, (∀ i h arc, w.chunks.get i = some h → h.packed = some arc →
      arc.page ≠ ⟨a, .heap l⟩) →
      w.log.count (.allocate .heap l a) = w.log.count (.release .heap l a 0) := by
  have ho := owned_run h
  have hlog := logged_run h
  refine ⟨fault_run h, hlog.unreferenced, fun o l a => ?_, fun id hgone l a => ?_,
    fun l a hnone => ?_⟩
  · have hbalance := hlog.balance o l a
    have hle := Multiset.nodup_iff_count_le_one.1 ho.blocks.nodup ⟨a, l, o⟩
    dsimp only at hle
    omega
  · have hblocks : w.blocks.count ⟨a, l, .pool id⟩ = 0 := by
      apply Multiset.count_eq_zero.2
      intro hmem
      have horigin := ho.blocks.origin _ hmem id rfl
      dsimp only at horigin
      rw [ho.get_eq_none hgone] at horigin
      exact absurd horigin (by simp)
    rw [hlog.balance, hblocks, Nat.add_zero]
  · have hblocks : w.blocks.count ⟨a, l, .heap⟩ = 0 := by
      rw [ho.places.heap a l]
      refine Arena.sum_eq_zero fun k q hk => if_neg fun hpage => ?_
      rcases ho.exists_reference hk with ⟨i, h, arc, hi, harc, harc'⟩ | ⟨j, r, o, hj, ho', hpage'⟩
      · exact hnone i h arc hi harc (by rw [harc', hpage])
      · have hpool := (ho.references.current j r o hj ho').2
        rw [hpage', hpage] at hpool
        exact absurd hpool (by simp)
    rw [hlog.balance, hblocks, Nat.add_zero]

/-- A chunk pool that is dropped before its open page, a packed chunk and an oversized one. -/
def teardownRun : List Op :=
  [.newChunkPool 64, .allocateChunk 0 0 24 8 (some 8), .allocateChunk 0 0 100 8 (some 80),
    .dropPool 0, .sealChunk 0, .dropChunk 1, .dropChunk 0]

/-- After it, nothing of the pool is left. -/
lemma gone_teardownRun : ∃ w, runOps teardownRun = some w ∧ w.Gone 0 ∧
    ∀ i, w.chunks.get i = none := by
  have heval : (runOps teardownRun).any (fun w => decide (w.pools.get 0 = none ∧
      w.pages.next = 0 ∧ w.chunks.next = 2 ∧ w.chunks.get 0 = none ∧ w.chunks.get 1 = none ∧
      w.sharedHandles 0 = 0)) = true := by decide +kernel
  obtain ⟨w, hw, heval⟩ := (Option.any_eq_true _ _).1 heval
  obtain ⟨hpool, hpages, hchunks, hfirst, hsecond, hhandles⟩ := of_decide_eq_true heval
  have hnone : ∀ i, w.chunks.get i = none := by
    intro i
    match i with
    | 0 => exact hfirst
    | 1 => exact hsecond
    | i + 2 => exact w.chunks.get_of_le _ (by omega)
  refine ⟨w, hw, ⟨fun p hp => ?_, fun i h hi => ?_, fun i h arc hi => ?_, hhandles⟩, hnone⟩
  · exact absurd (hpool.symm.trans hp) (by simp)
  · exact absurd (Arena.lt_next hi) (by omega)
  · exact absurd ((hnone i).symm.trans hi) (by simp)

theorem released_exactly_once_teardownRun : ∃ w, runOps teardownRun = some w ∧ w.Gone 0 ∧
    (∀ l a, w.log.count (.allocate (.pool 0) l a) = w.log.count (.release (.pool 0) l a 0)) ∧
    ∀ l a, w.log.count (.allocate .heap l a) = w.log.count (.release .heap l a 0) := by
  obtain ⟨w, hw, hgone, hnone⟩ := gone_teardownRun
  obtain ⟨-, -, -, hpool, hheap⟩ := released_exactly_once hw
  refine ⟨w, hw, hgone, hpool 0 hgone, fun l a => hheap l a fun i h arc hi => ?_⟩
  exact absurd ((hnone i).symm.trans hi) (by simp)

end PagedAlloc.Sequential
