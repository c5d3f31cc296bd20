import PagedAlloc.Properties.Recycling
import PagedAlloc.Properties.Release

/-!
# The life of a page in a `ChunkPool`

A page of a chunk pool is shared between the cursor, the builders and the chunks on it.
`page_lifetime` says that it is in use exactly as long as one of them refers to it: then it is on
neither free list, it has been pushed to the return queue once for each acquisition but the last,
and `pages_in_use` counts it, once, however many chunks it has.

The handles of a chunk pool are chunks only.  That is `Chunked`, an invariant of the custody
machine: page handles are made from pools whose owner is a `PagePool`, and an owner never changes
its kind.
-/

namespace PagedAlloc.Sequential

open Words Bytes Intrusive Relation Transition History

/-! ## Chunk pools have no page handles -/

/-- The pool was created as a chunk pool. -/
structure Chunked (id : ℕ) (c : Config) : Prop where
  born : id < c.world.pools.next
  owner : ∀ p l, c.world.pools.get id = some p → p.owner ≠ .pagePool l
  page : ∀ i h, c.world.pages.get i = some h → h.pool ≠ id

section Chunked

variable {c c' : Config} {w w' : World} {B : Multiset (ℕ × ℕ)} {S P : Multiset ℕ} {id j : ℕ}
  {p p' : Pool} {o : Owner} {l : ℕ}

lemma Owner.kind_setLocalHead {x : ℕ} (h : o.setLocalHead x = .pagePool l) :
    ∃ l', o = .pagePool l' := by
  cases o with
  | pagePool l' => exact ⟨l', rfl⟩
  | chunkPool l' c => exact absurd h (by simp [Owner.setLocalHead])
  | dropped c => exact absurd h (by simp [Owner.setLocalHead])

lemma Owner.kind_setCurrent {x : Option OpenPage} (h : o.setCurrent x = .pagePool l) :
    ∃ l', o = .pagePool l' := by
  cases o with
  | pagePool l' => exact ⟨l', rfl⟩
  | chunkPool l' c => exact absurd h (by simp [Owner.setCurrent])
  | dropped c => exact absurd h (by simp [Owner.setCurrent])

/-- A change of one pool that does not make its owner a `PagePool`. -/
lemma Chunked.owner_set (hc : Chunked id c) (hget : c.world.pools.get j = some p)
    (hkind : ∀ l, p'.owner = .pagePool l → ∃ l', p.owner = .pagePool l') :
    ∀ q l, (c.world.pools.set j p').get id = some q → q.owner ≠ .pagePool l := by
  intro q l hq howner
  rw [Arena.get_set hget] at hq
  split at hq
  · rename_i hid
    obtain rfl := Option.some.inj hq
    obtain ⟨l', hl'⟩ := hkind l howner
    exact hc.owner p l' (by rw [hid]; exact hget) hl'
  · exact hc.owner q l hq howner

/-- **One move.** -/
lemma Chunked.move (hc : Chunked id c) (hmove : Move c c') : Chunked id c' := by
  have hset : ∀ {j : ℕ} {p p' : Pool}, c.world.pools.get j = some p →
      (∀ l, p'.owner = .pagePool l → ∃ l', p.owner = .pagePool l') →
      ∀ q l, (c.world.pools.set j p').get id = some q → q.owner ≠ .pagePool l := hc.owner_set
  have hkeep : ∀ {o : Owner} (l : ℕ), o = .pagePool l → ∃ l', o = .pagePool l' :=
    fun l h => ⟨l, h⟩
  cases hmove with
  | stats hget st => exact ⟨hc.born, hset hget hkeep, hc.page⟩
  | newPool hle hvalid hfresh =>
      refine ⟨Nat.lt_succ_of_lt hc.born, fun q l hq => ?_, hc.page⟩
      dsimp only at hq
      rw [Arena.get_push, if_neg hc.born.ne] at hq
      exact hc.owner q l hq
  | popLocal hget hne st =>
      exact ⟨hc.born, hset hget fun l => Owner.kind_setLocalHead, hc.page⟩
  | drain hget hlive hempty st =>
      exact ⟨hc.born, hset hget fun l => Owner.kind_setLocalHead, hc.page⟩
  | linkLocal hget hlive => exact ⟨hc.born, hset hget fun l => Owner.kind_setLocalHead, hc.page⟩
  | pushReturn hget st => exact ⟨hc.born, hset hget hkeep, hc.page⟩
  | releaseLocal hget hlive hchain =>
      exact ⟨hc.born, hset hget fun l h => absurd h (by simp), hc.page⟩
  | cloneShared hget => exact ⟨hc.born, hset hget hkeep, hc.page⟩
  | dropShared hget hshared => exact ⟨hc.born, hset hget hkeep, hc.page⟩
  | freeShared hget hlast hnone hchain =>
      exact ⟨hc.born, fun q l hq => hc.owner q l (Arena.get_of_get_erase hq).2, hc.page⟩
  | @newPage w B S P p l h hget howner hcap =>
      refine ⟨hc.born, hc.owner, fun i h' hi => ?_⟩
      dsimp only at hi
      rw [Arena.get_push] at hi
      split at hi
      · obtain rfl := Option.some.inj hi
        rintro rfl
        exact hc.owner p l hget howner
      · exact hc.page i h' hi
  | removePage hget =>
      exact ⟨hc.born, hc.owner, fun i h' hi => hc.page i h' (Arena.get_of_get_erase hi).2⟩
  | @setPage w B S P k h h' hget hsame =>
      refine ⟨hc.born, hc.owner, fun i h'' hi => ?_⟩
      dsimp only at hi
      rw [Arena.get_set hget] at hi
      split at hi
      · obtain rfl := Option.some.inj hi
        rw [hsame.pool]
        exact hc.page k h hget
      · exact hc.page i h'' hi
  | takeCurrent hget hcurrent => exact ⟨hc.born, hset hget fun l => Owner.kind_setCurrent, hc.page⟩
  | setCurrent hget howner honly =>
      exact ⟨hc.born, hset hget fun l h => absurd h (by simp), hc.page⟩
  | claim tenant hpos halign hget hroom harc =>
      exact ⟨hc.born, hset hget fun l => Owner.kind_setCurrent, hc.page⟩
  | _ => exact ⟨hc.born, hc.owner, hc.page⟩

lemma Chunked.moves (hc : Chunked id c) (hmoves : Moves c c') : Chunked id c' := by
  induction hmoves with
  | refl => exact hc
  | tail _ hmove ih => exact ih.move hmove

lemma chunked_newPool {pageSize : ℕ} (ho : Owned w.idle)
    (hnew : w.newPool pageSize true = .done id w') : Chunked id w'.idle := by
  unfold World.newPool at hnew
  split at hnew
  · obtain ⟨rfl, rfl⟩ := Outcome.done.inj hnew
    refine ⟨Nat.lt_succ_self _, fun q l hq => ?_, fun i h hi hpool => ?_⟩
    · dsimp only at hq
      rw [Arena.get_push_self] at hq
      obtain rfl := Option.some.inj hq
      simp
    · obtain ⟨p, hp, -⟩ := Option.map_eq_some_iff.1 (ho.fits.page i h hi)
      exact absurd (Arena.lt_next hp) (by rw [hpool]; exact Nat.lt_irrefl _)
  · exact absurd hnew (by simp)

end Chunked

/-! ## Who refers to a page -/

/-- The page at `a` of the pool is referred to by a live builder or chunk, or is open. -/
def World.Refers (w : World) (id a : ℕ) : Prop :=
  (∃ i h arc, w.chunks.get i = some h ∧ h.packed = some arc ∧ arc.page = ⟨a, .pool id⟩) ∨
    ∃ p o, w.pools.get id = some p ∧ p.owner.current = some o ∧ o.shared.page.buf = a

section Lifetime

variable {v v₁ w : World} {pre post : List Op} {id a pageSize : ℕ} {p : Pool}

lemma Owned.mem_held_iff (ho : Owned w.idle) (hc : Chunked id w.idle) :
    a ∈ w.held 0 id ↔ w.Refers id a := by
  have hpages : w.pages.sum (fun h => if (id, a) = (h.pool, h.buf) then 1 else 0) = 0 :=
    Arena.sum_eq_zero fun i h hi => if_neg fun heq =>
      hc.page i h hi (Prod.mk.inj heq).1.symm
  have hcount : (w.held 0 id).count a =
      w.packed.sum fun q => if q.page = ⟨a, .pool id⟩ then 1 else 0 := by
    rw [count_held]
    unfold holders
    rw [hpages, Multiset.count_zero]
    omega
  rw [← Multiset.count_ne_zero, hcount]
  constructor
  · intro hne
    obtain ⟨k, q, hk, hq⟩ := Arena.exists_of_sum_ne_zero hne
    have hpage : q.page = ⟨a, .pool id⟩ := by
      by_contra hpage
      exact hq (if_neg hpage)
    rcases ho.exists_reference hk with ⟨i, h, arc, hi, harc, harc'⟩ | ⟨j, r, o, hj, ho', hpage'⟩
    · exact Or.inl ⟨i, h, arc, hi, harc, harc'.trans hpage⟩
    · have hrelease := (ho.references.current j r o hj ho').2
      rw [hpage', hpage] at hrelease
      obtain rfl : id = j := Release.pool.inj hrelease
      exact Or.inr ⟨r, o, hj, ho', by rw [hpage', hpage]⟩
  · rintro (⟨i, h, arc, hi, harc, hpage⟩ | ⟨r, o, hr, ho', rfl⟩)
    · have hpacked := ho.references.chunk i h arc hi harc
      rw [hpage] at hpacked
      have := one_le_sum_packed hpacked
      dsimp only at this
      omega
    · obtain ⟨hpacked, hrelease⟩ := ho.references.current id r o hr ho'
      have heq : o.shared.page = ⟨o.shared.page.buf, .pool id⟩ := by rw [← hrelease]
      rw [heq] at hpacked
      have := one_le_sum_packed hpacked
      dsimp only at this
      omega

lemma Owned.nodup_held (ho : Owned w.idle) (hget : w.pools.get id = some p) :
    (w.held 0 id).Nodup := by
  apply Multiset.nodup_iff_count_le_one.2
  intro a
  rw [count_held]
  exact ho.holders_le_one hget a

/-- A page that is held is on neither list. -/
lemma Owned.notMem_lists {l r : List ℕ} (ho : Owned w.idle) (hget : w.pools.get id = some p)
    (hl : Chain 0 (readPtr w.mem) p.owner.localHead l)
    (hr : Chain 0 (readPtr w.mem) p.returnHead r) (ha : a ∈ w.held 0 id) : a ∉ l ∧ a ∉ r := by
  obtain ⟨free, ⟨l', r', hl', hr', rfl⟩, hcount⟩ := ho.places.lists id p hget
  obtain rfl := hl.unique hl'
  obtain rfl := hr.unique hr'
  have hle := Multiset.nodup_iff_count_le_one.1 ho.blocks.nodup ⟨a, p.layout, .pool id⟩
  have hone := Multiset.one_le_count_iff_mem.2 ha
  rw [count_held] at hone
  have hplace := hcount a
  rw [Multiset.coe_count, List.count_append] at hplace
  dsimp only at hle hplace
  have hzero : l.count a = 0 ∧ r.count a = 0 := by omega
  exact ⟨List.count_eq_zero.1 hzero.1, List.count_eq_zero.1 hzero.2⟩

/-- **Page lifetime.** In every state that a run reaches from the creation of a chunk pool, as long
as its shared half exists: a page that a builder, a chunk or the cursor refers to is on neither
free list; every page has been pushed to the return queue as often as it was acquired, and once
less while something refers to it, at every point of its history never more; and `pages_in_use`
is the number of distinct pages referred to. -/
theorem page_lifetime (hpre : runOps pre = some v)
    (hnew : v.newPool pageSize true = .done id v₁) (hpost : run World.step v₁ post = some w)
    (hget : w.pools.get id = some p) :
    (∃ l r, Chain 0 (readPtr w.mem) p.owner.localHead l ∧
      Chain 0 (readPtr w.mem) p.returnHead r ∧ ∀ a, w.Refers id a → a ∉ l ∧ a ∉ r) ∧
    (∀ a, (w.Refers id a →
        acquired a (w.history id) = returned a (w.history id) + 1) ∧
      (¬ w.Refers id a → acquired a (w.history id) = returned a (w.history id)) ∧
      ∀ t, t <:+ w.history id → returned a t ≤ acquired a t ∧ acquired a t ≤ returned a t + 1) ∧
    ∃ pages : Finset ℕ, (∀ a, a ∈ pages ↔ w.Refers id a) ∧ p.stats.pagesInUse = pages.card := by
  have hov := owned_run hpre
  have hstep := World.step_newChunkPool hnew
  have hrun : runOps (pre ++ .newChunkPool pageSize :: post) = some w :=
    run_append_eq_some.2 ⟨v, hpre, run_cons_eq_some.2 ⟨v₁, hstep, hpost⟩⟩
  have ho := owned_run hrun
  have hchunked : Chunked id w.idle := (chunked_newPool hov hnew).moves
    (custody_run (hov.moves (custody_step hov hstep)) hpost)
  obtain ⟨u, f, k, ht, -⟩ := tally_run owned_init (tally_init id) hrun
  obtain ⟨free, ⟨l, r, hl, hr, rfl⟩, hcount⟩ := ho.places.lists id p hget
  have hnodup := ho.nodup_held hget
  refine ⟨⟨l, r, hl, hr, fun a ha => ?_⟩, fun a => ⟨fun ha => ?_, fun ha => ?_, ?_⟩, ?_⟩
  · exact ho.notMem_lists hget hl hr ((ho.mem_held_iff hchunked).2 ha)
  · have hplaces : _ = _ + (w.held 0 id).count a := ht.places a
    rw [Multiset.count_eq_one_of_mem hnodup ((ho.mem_held_iff hchunked).2 ha)] at hplaces
    exact hplaces
  · have hplaces : _ = _ + (w.held 0 id).count a := ht.places a
    rw [Multiset.count_eq_zero.2 fun hmem => ha ((ho.mem_held_iff hchunked).1 hmem)] at hplaces
    exact hplaces
  · exact ht.alternates a
  · refine ⟨⟨w.held 0 id, hnodup⟩, fun a => ho.mem_held_iff hchunked, ?_⟩
    have hheld : (w.held 0 id).card = inUse (w.history id) := ht.held
    have hlt := ho.blocks_register_lt id
    have hblocks : (w.register 0 id).blocks = _ + (w.held 0 id).card :=
      ho.countP_blocks hget hcount
    have hcounts := (ht.counts p.stats (stats_register hget)).pagesInUse
    change p.stats.pagesInUse = inUse (w.history id) % size64 at hcounts
    rw [hcounts, ← hheld, Nat.mod_eq_of_lt (by omega)]
    rfl

/-- Three chunks in a new chunk pool with pages of 64 bytes, the third on a second page; then those
on the first page are dropped. -/
def rollOverRun : List Op :=
  [.allocateChunk 0 7 24 8 (some 64), .allocateChunk 0 7 24 8 (some 0),
    .allocateChunk 0 7 24 8 (some 128), .dropChunk 0, .dropChunk 1]

theorem page_lifetime_rollOverRun : ∃ v₁ w p, World.init.newPool 64 true = .done 0 v₁ ∧
    run World.step v₁ rollOverRun = some w ∧ w.pools.get 0 = some p ∧
    w.history 0 = [.giveBack 0 64, .acquire 0 128 true, .acquire 0 64 true] ∧
    w.Refers 0 128 ∧ ¬ w.Refers 0 64 ∧
    ∃ pages : Finset ℕ, (∀ a, a ∈ pages ↔ w.Refers 0 a) ∧ p.stats.pagesInUse = pages.card := by
  have heval : (runOps (.newChunkPool 64 :: rollOverRun)).any (fun w => decide (
      (w.pools.get 0).isSome ∧ w.history 0 = [.giveBack 0 64, .acquire 0 128 true, .acquire 0 64 true])) = true := by
    decide +kernel
  obtain ⟨w, hw, heval⟩ := (Option.any_eq_true _ _).1 heval
  obtain ⟨hsome, hhistory⟩ := of_decide_eq_true heval
  obtain ⟨p, hget⟩ := Option.isSome_iff_exists.1 hsome
  obtain ⟨v₁, hv₁, hrun⟩ := run_cons_eq_some.1 hw
  have hnew : World.init.newPool 64 true = .done 0 v₁ := World.newPool_of_step (by decide) hv₁
  obtain ⟨-, hplaces, hpages⟩ :=
    page_lifetime (show runOps [] = some World.init from rfl) hnew hrun hget
  rw [hhistory] at hplaces
  refine ⟨v₁, w, p, hnew, hrun, hget, hhistory, ?_, ?_, hpages⟩
  · by_contra hnot
    exact absurd ((hplaces 128).2.1 hnot) (by decide)
  · intro hrefers
    exact absurd ((hplaces 64).1 hrefers) (by decide)

end Lifetime

end PagedAlloc.Sequential
