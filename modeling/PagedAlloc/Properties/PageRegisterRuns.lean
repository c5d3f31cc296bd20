import PagedAlloc.Properties.OwnershipRuns
import PagedAlloc.Properties.PageTally

/-!
# Every operation keeps the page registers

The refinement between the crate and the machine of `Construction/PageRegister.lean`: every
operation is a sequence of moves on the register of every pool (`registers_step`), with labels
that the operation accounts for (`World.Permits`).  So every counter is what the history of its
pool says, in every reachable state (`tally_run`).

As in `Properties/OwnershipRuns.lean`, the lemmas follow the functions of the model, and what the
running operation holds is part of the configuration.
-/

namespace PagedAlloc.Sequential

open Words Bytes Intrusive Relation Transition

/-! ## What is held -/

section Held

variable {w : World} {B : Multiset (ℕ × ℕ)} {S P : Multiset ℕ} {id j a i : ℕ}

lemma held_cons : w.held ((j, a) ::ₘ B) id =
    (if id = j then {a} else 0) + w.held B id := by
  unfold World.held
  rw [Multiset.filter_cons]
  split
  · rw [Multiset.map_add, Multiset.map_singleton]
    abel
  · rw [Multiset.zero_add, Multiset.zero_add]

lemma held_pushPage {h : PageHandle} :
    ({ w with pages := w.pages.push h } : World).held B id =
      w.held ((h.pool, h.buf) ::ₘ B) id := by
  rw [held_cons]
  unfold World.held PageHandle.buffer
  dsimp only
  rw [Arena.sum_push]
  abel

lemma held_erasePage {h : PageHandle} (hget : w.pages.get i = some h) :
    ({ w with pages := w.pages.erase i } : World).held ((h.pool, h.buf) ::ₘ B) id =
      w.held B id := by
  rw [held_cons]
  unfold World.held
  dsimp only
  rw [← Arena.sum_erase (f := PageHandle.buffer id) hget]
  unfold PageHandle.buffer
  abel

lemma held_setPage {h h' : PageHandle} (hget : w.pages.get i = some h) (hsame : h.SamePlace h') :
    ({ w with pages := w.pages.set i h' } : World).held B id =
      w.held B id := by
  have hset := Arena.sum_set (f := PageHandle.buffer id) (b := h') hget
  have hbuffer : h'.buffer id = h.buffer id := by
    unfold PageHandle.buffer
    rw [hsame.pool, hsame.buf]
  rw [hbuffer] at hset
  unfold World.held
  dsimp only
  rw [add_right_cancel hset]

lemma held_pushPacked {q : PackedInner} :
    ({ w with packed := w.packed.push q } : World).held B id =
      q.buffer id + w.held B id := by
  unfold World.held
  dsimp only
  rw [Arena.sum_push]
  abel

lemma held_erasePacked {q : PackedInner} (hget : w.packed.get i = some q) :
    q.buffer id + ({ w with packed := w.packed.erase i } : World).held B id =
      w.held B id := by
  unfold World.held
  dsimp only
  rw [← Arena.sum_erase (f := PackedInner.buffer id) hget]
  abel

lemma held_setPacked (id : ℕ) {q : PackedInner} {n : ℕ} (hget : w.packed.get i = some q) :
    ({ w with packed := w.packed.set i { q with strong := n } } : World).held B id =
      w.held B id := by
  have hset := Arena.sum_set (f := PackedInner.buffer id) (b := { q with strong := n }) hget
  unfold World.held
  dsimp only
  rw [show (w.packed.set i { q with strong := n }).sum (PackedInner.buffer id) =
    w.packed.sum (PackedInner.buffer id) from add_right_cancel hset]

lemma count_held : (w.held B id).count a = holders w.packed w.pages B id a := by
  have hpages : (w.pages.sum (PageHandle.buffer id)).count a =
      w.pages.sum fun h => if (id, a) = (h.pool, h.buf) then 1 else 0 := by
    rw [← Multiset.coe_countAddMonoidHom, Arena.hom_sum]
    apply Arena.sum_ext
    intro i h _
    rw [Multiset.coe_countAddMonoidHom]
    unfold PageHandle.buffer
    by_cases hid : id = h.pool
    · simp [hid, Multiset.count_singleton]
    · simp [hid]
  have hpacked : (w.packed.sum (PackedInner.buffer id)).count a =
      w.packed.sum fun q => if q.page = ⟨a, .pool id⟩ then 1 else 0 := by
    rw [← Multiset.coe_countAddMonoidHom, Arena.hom_sum]
    apply Arena.sum_ext
    intro i q _
    obtain ⟨⟨buf, release⟩, strong⟩ := q
    rw [Multiset.coe_countAddMonoidHom]
    unfold PackedInner.buffer
    dsimp only
    by_cases hid : release = .pool id
    · simp [hid, Multiset.count_singleton, eq_comm]
    · simp [hid]
  have hhands : ((B.filter fun b => id = b.1).map Prod.snd).count a =
      B.count (id, a) := by
    induction B using Multiset.induction with
    | empty => rfl
    | cons b B ih =>
        obtain ⟨j, x⟩ := b
        rw [Multiset.filter_cons, Multiset.map_add, Multiset.count_add, ih, Multiset.count_cons]
        by_cases hid : id = j
        · simp [hid, Multiset.count_singleton, Nat.add_comm]
        · simp [hid]
  unfold World.held holders
  rw [Multiset.count_add, Multiset.count_add, hpages, hpacked, hhands]

variable {p : Pool} {free : Multiset ℕ}

/-- The live allocations of a pool are its free buffers and those that are held. -/
lemma Owned.filter_blocks (ho : Owned ⟨w, B, S, P⟩) (hget : w.pools.get id = some p)
    (hcount : ∀ a, w.blocks.count ⟨a, p.layout, .pool id⟩ =
      free.count a + holders w.packed w.pages B id a) :
    (w.blocks.filter fun b => b.origin = .pool id) =
      (free + w.held B id).map fun a => ⟨a, p.layout, .pool id⟩ := by
  have hinj : Function.Injective fun a => (⟨a, p.layout, .pool id⟩ : Block) :=
    fun x y hxy => congrArg Block.base hxy
  apply Multiset.ext.2
  intro b
  obtain ⟨x, l, o⟩ := b
  by_cases hb : l = p.layout ∧ o = .pool id
  · obtain ⟨rfl, rfl⟩ := hb
    rw [Multiset.count_filter, if_pos rfl, hcount, Multiset.count_map_eq_count' _ _ hinj,
      Multiset.count_add, count_held]
  · have hright : (⟨x, l, o⟩ : Block) ∉ (free + w.held B id).map fun a =>
        (⟨a, p.layout, .pool id⟩ : Block) := by
      intro hmem
      obtain ⟨y, -, hy⟩ := Multiset.mem_map.1 hmem
      obtain ⟨-, hl, ho⟩ := Block.mk.inj hy
      exact hb ⟨hl.symm, ho.symm⟩
    have hleft : (⟨x, l, o⟩ : Block) ∉ w.blocks.filter fun b => b.origin = .pool id := by
      intro hmem
      obtain ⟨hmem, horigin⟩ := Multiset.mem_filter.1 hmem
      have hlayout := ho.blocks.origin _ hmem id horigin
      dsimp only at hlayout
      rw [hget] at hlayout
      exact hb ⟨(Option.some.inj hlayout).symm, horigin⟩
    rw [Multiset.count_eq_zero.2 hright, Multiset.count_eq_zero.2 hleft]

lemma Owned.countP_blocks (ho : Owned ⟨w, B, S, P⟩) (hget : w.pools.get id = some p)
    (hcount : ∀ a, w.blocks.count ⟨a, p.layout, .pool id⟩ =
      free.count a + holders w.packed w.pages B id a) :
    (w.blocks.countP fun b => b.origin = .pool id) = free.card + (w.held B id).card := by
  rw [Multiset.countP_eq_card_filter, ho.filter_blocks hget hcount, Multiset.card_map,
    Multiset.card_add]

end Held

/-! ## Moves on every register -/

/-- Every register moves on, with labels in `G`, while the hands go from `B` to `B'`. -/
def Registers (G : ℕ → Label → Prop) (w : World) (B : Multiset (ℕ × ℕ)) (w' : World)
    (B' : Multiset (ℕ × ℕ)) : Prop :=
  ∀ id, Register.Moves id (G id) (w.register B id) (w'.register B' id)

/-- The labels that need no permission. -/
structure Basic (G : ℕ → Label → Prop) : Prop where
  birth : ∀ id, G id .birth
  acquire : ∀ id a fresh, G id (.acquire a fresh)
  giveBack : ∀ id a, G id (.giveBack a)
  die : ∀ id, G id .die

section Pools

variable {G : ℕ → Label → Prop} {w w' w'' : World} {B B' B'' : Multiset (ℕ × ℕ)}
  {S P : Multiset ℕ} {id j a : ℕ} {p p' : Pool} {l : Label}

lemma Registers.of_eq (h : ∀ id, w'.register B' id = w.register B id) : Registers G w B w' B' := by
  intro id
  rw [h id]

lemma Registers.trans (h : Registers G w B w' B') (h' : Registers G w' B' w'' B'') :
    Registers G w B w'' B'' := fun id => (h id).trans (h' id)

/-- A move of one register. -/
lemma Registers.single (hl : G j l)
    (hmove : Register.Move j (w.register B j) l (w'.register B' j))
    (hother : ∀ id, id ≠ j → w'.register B' id = w.register B id) : Registers G w B w' B' := by
  intro id
  by_cases hid : id = j
  · subst hid
    exact .single ⟨l, hl, hmove⟩
  · rw [hother id hid]

lemma owner_register (hget : w.pools.get j = some p) : (w.register B j).owner = p.owner.refs :=
  Arena.val_of_get hget

lemma stats_register (hget : w.pools.get j = some p) : (w.register B j).stats = some p.stats :=
  congrArg (Option.map Pool.stats) hget

lemma owner_register_set (hget : w.pools.get j = some p) (hpools : w'.pools = w.pools.set j p') :
    (w'.register B' j).owner = p'.owner.refs :=
  owner_register (by rw [hpools, Arena.get_set_self hget])

lemma stats_register_set (hget : w.pools.get j = some p) (hpools : w'.pools = w.pools.set j p') :
    (w'.register B' j).stats = some p'.stats :=
  stats_register (by rw [hpools, Arena.get_set_self hget])

lemma owner_register_of_ne (hpools : w'.pools = w.pools.set j p') (hid : id ≠ j) :
    (w'.register B' id).owner = (w.register B id).owner := by
  show w'.pools.val _ id = w.pools.val _ id
  rw [hpools, Arena.val_set_of_ne hid]

lemma stats_register_of_ne (hpools : w'.pools = w.pools.set j p') (hid : id ≠ j) :
    (w'.register B' id).stats = (w.register B id).stats := by
  show (w'.pools.get id).map Pool.stats = (w.pools.get id).map Pool.stats
  rw [hpools, Arena.get_set_of_ne hid]

/-- A change of a pool that the register does not see. -/
lemma register_setPool_same (hget : w.pools.get j = some p) (howner : p'.owner.refs = p.owner.refs)
    (hstats : p'.stats = p.stats) (id : ℕ) :
    ({ w with pools := w.pools.set j p' } : World).register B id = w.register B id := by
  by_cases hid : id = j
  · subst hid
    refine Register.ext rfl ?_ ?_ rfl rfl rfl rfl
    · rw [owner_register_set hget rfl, owner_register hget, howner]
    · rw [stats_register_set hget rfl, stats_register hget, hstats]
  · exact Register.ext rfl (owner_register_of_ne rfl hid) (stats_register_of_ne rfl hid)
      rfl rfl rfl rfl

lemma history_cons {e : PageEvent} (htrace : w'.trace = e :: w.trace) (hid : e.pool = id) :
    w'.history id = e :: w.history id := by
  unfold World.history
  rw [htrace, List.filter_cons_of_pos (by simp [hid])]

lemma history_cons_of_ne {e : PageEvent} (htrace : w'.trace = e :: w.trace) (hid : e.pool ≠ id) :
    w'.history id = w.history id := by
  unfold World.history
  rw [htrace, List.filter_cons_of_neg (by simp [hid])]

lemma register_record {e : PageEvent} (hid : e.pool = id) :
    ({ w with trace := e :: w.trace } : World).register B id =
      { w.register B id with history := e :: (w.register B id).history } :=
  Register.ext rfl rfl rfl (history_cons (w := w) rfl hid) rfl rfl rfl

lemma register_record_of_ne {e : PageEvent} (hid : e.pool ≠ id) :
    ({ w with trace := e :: w.trace } : World).register B id = w.register B id :=
  Register.ext rfl rfl rfl (history_cons_of_ne (w := w) rfl hid) rfl rfl rfl

lemma held_cons_self : w.held ((j, a) ::ₘ B) j = a ::ₘ w.held B j := by
  rw [held_cons, if_pos rfl, Multiset.singleton_add]

lemma held_cons_of_ne (hid : id ≠ j) : w.held ((j, a) ::ₘ B) id = w.held B id := by
  rw [held_cons, if_neg hid, Multiset.zero_add]

lemma registers_cloneShared (hget : w.pools.get j = some p) :
    Registers G w B (w.cloneShared j) B := by
  unfold World.cloneShared
  rw [hget]
  exact .of_eq (register_setPool_same hget rfl rfl)

lemma registers_pushReturn (hG : Basic G) (ho : Owned ⟨w, (j, a) ::ₘ B, S, P⟩) :
    Registers G w ((j, a) ::ₘ B) (w.pushReturn j a) B := by
  obtain ⟨p, hget⟩ := ho.places.live j a (Multiset.mem_cons_self _ _)
  dsimp only at hget
  unfold World.pushReturn
  rw [hget]
  refine .single (hG.giveBack j a) ?_ fun id hid => ?_
  · convert Register.Move.giveBack (stats_register hget) held_cons_self using 1
    refine Register.ext rfl ?_ ?_ (history_cons rfl rfl) rfl rfl rfl
    · rw [owner_register_set hget rfl, owner_register hget]
      rfl
    · rw [stats_register_set hget rfl]
      rfl
  · exact Register.ext rfl (owner_register_of_ne rfl hid) (stats_register_of_ne rfl hid)
      (history_cons_of_ne rfl (Ne.symm hid)) rfl rfl (held_cons_of_ne hid).symm

/-! ## Releases -/

lemma countP_log_releaseAll {o : Origin} {l : Layout} {as : List ℕ} :
    (w.releaseAll o l as).log.countP (SourceEvent.Supplies id) =
      w.log.countP (SourceEvent.Supplies id) := by
  unfold World.releaseAll
  dsimp only
  rw [List.countP_append, List.countP_reverse, List.countP_map, List.countP_eq_zero.2,
    Nat.zero_add]
  exact fun a _ => by simp [SourceEvent.Supplies]

lemma countP_blocks_releaseAll {o : Origin} {l : Layout} {as : List ℕ}
    (hle : ((as.map fun a => ⟨a, l, o⟩ : List Block) : Multiset Block) ≤ w.blocks) :
    ((w.releaseAll o l as).blocks.countP fun b => b.origin = .pool id) =
      (w.blocks.countP fun b => b.origin = .pool id) - if o = .pool id then as.length else 0 := by
  unfold World.releaseAll
  dsimp only
  rw [Multiset.countP_sub hle, Multiset.coe_countP, List.countP_map]
  congr 1
  split
  · rename_i ho
    exact List.countP_eq_length.2 fun a _ => by simp [ho]
  · rename_i ho
    exact List.countP_eq_zero.2 fun a _ => by simp [ho]

lemma registers_dropShared (hG : Basic G) (ho : Owned ⟨w, B, j ::ₘ S, P⟩) :
    Registers G w B (w.dropShared j) B := by
  obtain ⟨p, hget⟩ := ho.pool_of_shared
  unfold World.dropShared
  rw [hget]
  dsimp only
  split
  · obtain ⟨l, r, -, hr, -, hle⟩ := map_le_blocks ho.places hget
    dsimp only at hr hle
    rw [releaseChain_eq hr (length_le_card hle) hle]
    refine .single (hG.die j) ?_ fun id hid => ?_
    · convert Register.Move.die r.length (stats_register hget) using 1
      refine Register.ext rfl ?_ ?_ rfl countP_log_releaseAll ?_ rfl
      · exact Arena.val_of_none Arena.get_erase_self
      · exact congrArg (Option.map Pool.stats) Arena.get_erase_self
      · exact (countP_blocks_releaseAll hle).trans (by rw [if_pos rfl]; rfl)
    · refine Register.ext rfl ?_ ?_ rfl countP_log_releaseAll ?_ rfl
      · show (w.pools.erase j).val _ id = w.pools.val _ id
        unfold Arena.val
        rw [Arena.get_erase, if_neg hid]
      · show ((w.pools.erase j).get id).map _ = (w.pools.get id).map _
        rw [Arena.get_erase, if_neg hid]
      · refine (countP_blocks_releaseAll hle).trans ?_
        rw [if_neg (by simp [Ne.symm hid])]
        rfl
  · exact .of_eq (register_setPool_same hget rfl rfl)

lemma registers_releaseLocal (ho : Owned ⟨w, B, S, P⟩) (hget : w.pools.get j = some p)
    (hlive : p.owner.Live)
    (hclose : ∀ k, (p.owner.localHead = 0 → k = 0) → G j (.close k)) :
    Registers G w B (w.releaseLocal j p) B := by
  obtain ⟨free, ⟨l, r, hl, hr, rfl⟩, hcount⟩ := ho.places.lists j p hget
  obtain ⟨l', -, hl', -, hle, -⟩ := map_le_blocks ho.places hget
  obtain rfl := hl.unique hl'
  dsimp only at hl hle
  unfold World.releaseLocal
  rw [releaseChain_eq hl (length_le_card hle) hle]
  refine .single (hclose l.length fun hempty => ?_) ?_ fun id hid => ?_
  · rw [hempty] at hl
    rw [chain_null_iff.1 hl, List.length_nil]
  · have hroom : l.length + (w.held B j).card ≤ w.blocks.countP fun b => b.origin = .pool j := by
      rw [ho.countP_blocks hget hcount, Multiset.coe_card, List.length_append]
      omega
    have howner : (w.register B j).owner = 1 := by
      rw [owner_register hget, Owner.refs_of_live hlive]
    convert Register.Move.close l.length howner hroom using 1
    refine Register.ext rfl ?_ ?_ rfl countP_log_releaseAll ?_ rfl
    · rw [owner_register_set hget rfl]
      rfl
    · rw [stats_register_set hget rfl, ← stats_register (B := B) hget]
    · exact (countP_blocks_releaseAll hle).trans (by rw [if_pos rfl]; rfl)
  · refine Register.ext rfl (owner_register_of_ne rfl hid) (stats_register_of_ne rfl hid) rfl
      countP_log_releaseAll ?_ rfl
    refine (countP_blocks_releaseAll hle).trans ?_
    rw [if_neg (by simp [Ne.symm hid])]
    rfl

/-! ## Acquisitions -/

variable {reply : Option ℕ}

/-- What `allocate_raw_page` did to find the buffer `a`, called with the pool `p`. -/
structure Taken (w : World) (j : ℕ) (p : Pool) (a : ℕ) (w₁ : World) (fresh : Bool) : Prop where
  pools : ∃ p₁, w₁.pools = w.pools.set j p₁ ∧ p₁.owner.refs = p.owner.refs ∧
    p.stats.Acquires fresh (PoolAccess.addPagesInUse.exec p₁.stats)
  trace : w₁.trace = w.trace
  packed : w₁.packed = w.packed
  pages : w₁.pages = w.pages
  log : w₁.log = if fresh then .allocate (.pool j) p.layout a :: w.log else w.log
  blocks : w₁.blocks = if fresh then ⟨a, p.layout, .pool j⟩ ::ₘ w.blocks else w.blocks
  empty : fresh = true ↔ p.owner.localHead = 0 ∧ p.returnHead = 0

lemma popLocal_eq_none {mem : Memory} : p.popLocal mem = none ↔ p.owner.localHead = 0 := by
  unfold Pool.popLocal
  simp

lemma drainReturnQueue_eq_none {mem : Memory} (hlive : p.owner.Live) :
    p.drainReturnQueue mem = none ↔ p.returnHead = 0 := by
  unfold Pool.drainReturnQueue
  split
  · rename_i hzero
    exact ⟨fun _ => hzero, fun _ => rfl⟩
  · rename_i hne
    rw [popLocal_eq_none]
    dsimp only
    rw [Owner.localHead_setLocalHead hlive]

lemma acquires_popLocal {mem : Memory} (hpop : p.popLocal mem = some (a, p')) :
    p'.owner.refs = p.owner.refs ∧
      p.stats.Acquires false (PoolAccess.addPagesInUse.exec p'.stats) := by
  unfold Pool.popLocal at hpop
  split at hpop
  · exact absurd hpop (by simp)
  · obtain ⟨-, rfl⟩ := Prod.mk.inj (Option.some.inj hpop)
    exact ⟨Owner.refs_setLocalHead, rfl, rfl, rfl, rfl⟩

lemma acquires_drain {mem : Memory} (hdrain : p.drainReturnQueue mem = some (a, p')) :
    p'.owner.refs = p.owner.refs ∧
      p.stats.Acquires false (PoolAccess.addPagesInUse.exec p'.stats) := by
  unfold Pool.drainReturnQueue at hdrain
  split at hdrain
  · exact absurd hdrain (by simp)
  · obtain ⟨howner, hacquires⟩ := acquires_popLocal hdrain
    refine ⟨howner.trans Owner.refs_setLocalHead, ?_⟩
    exact ⟨hacquires.allocationsFromHeap, hacquires.pagesInUse, hacquires.freePages,
      hacquires.prewarmedPages⟩

/-- **The source is called if and only if both lists are empty.** -/
lemma taken_takeBuffer (hlive : p.owner.Live) : (w.takeBuffer j p reply).Post
    (fun a w₁ => ∃ fresh, Taken w j p a w₁ fresh)
    fun w₁ => reply = none ∧ p.owner.localHead = 0 ∧ p.returnHead = 0 ∧
      w₁ = { w with pools := w.pools.set j (p.access (.addAllocationsFromHeap 1)) } := by
  unfold World.takeBuffer
  split
  · rename_i a p' hpop
    have hne : ¬ p.owner.localHead = 0 := fun hzero => by
      rw [popLocal_eq_none.2 hzero] at hpop
      exact absurd hpop (by simp)
    obtain ⟨howner, hacquires⟩ := acquires_popLocal hpop
    exact Outcome.post_done ⟨false, ⟨p', rfl, howner, hacquires⟩, rfl, rfl, rfl, rfl, rfl,
      by simp [hne]⟩
  · rename_i hlocal
    split
    · rename_i a p' hdrain
      have hne : ¬ p.returnHead = 0 := fun hzero => by
        rw [(drainReturnQueue_eq_none hlive).2 hzero] at hdrain
        exact absurd hdrain (by simp)
      obtain ⟨howner, hacquires⟩ := acquires_drain hdrain
      exact Outcome.post_done ⟨false, ⟨p', rfl, howner, hacquires⟩, rfl, rfl, rfl, rfl, rfl,
        by simp [hne]⟩
    · rename_i hreturn
      have hempty := And.intro (popLocal_eq_none.1 hlocal)
        ((drainReturnQueue_eq_none hlive).1 hreturn)
      apply World.post_sourceAllocate
      · exact fun a _ => ⟨true, ⟨_, rfl, rfl, rfl, rfl, rfl, rfl⟩, rfl, rfl, rfl, rfl, rfl,
          by simp [hempty]⟩
      · exact fun hreply => ⟨hreply, hempty.1, hempty.2, rfl⟩

/-- Both lists are empty if and only if nothing of the pool is free. -/
lemma Owned.free_eq_zero_iff (ho : Owned ⟨w, B, S, P⟩) (hget : w.pools.get j = some p) :
    (p.owner.localHead = 0 ∧ p.returnHead = 0 →
      (w.register B j).blocks = (w.register B j).held.card) ∧
    (¬ (p.owner.localHead = 0 ∧ p.returnHead = 0) →
      (w.register B j).held.card < (w.register B j).blocks) := by
  obtain ⟨free, ⟨l, r, hl, hr, rfl⟩, hcount⟩ := ho.places.lists j p hget
  have hblocks : (w.register B j).blocks = l.length + r.length + (w.register B j).held.card := by
    refine (ho.countP_blocks hget hcount).trans ?_
    rw [Multiset.coe_card, List.length_append]
    rfl
  have hempty : ∀ {head : ℕ} {as : List ℕ}, Chain 0 (readPtr w.mem) head as →
      (head = 0 ↔ as.length = 0) := by
    intro head as hchain
    cases hchain with
    | nil => simp
    | cons hne _ => simp [hne]
  have hlocal := hempty hl
  have hreturn := hempty hr
  constructor
  · rintro ⟨h1, h2⟩
    have := hlocal.1 h1
    have := hreturn.1 h2
    omega
  · intro hne
    by_cases h1 : p.owner.localHead = 0
    · have h2 := mt hreturn.2 fun h2 => hne ⟨h1, h2⟩
      omega
    · have := mt hlocal.2 h1
      omega

/-- The register after an acquisition. -/
lemma Taken.acquires {w₁ : World} {fresh : Bool} (ht : Taken w j p a w₁ fresh)
    (hget : w.pools.get j = some p) :
    ∃ p₂, ((w₁.accessPool j .addPagesInUse).cloneShared j).pools = w.pools.set j p₂ ∧
      p₂.owner.refs = p.owner.refs ∧ p.stats.Acquires fresh p₂.stats := by
  obtain ⟨p₁, hpools, howner, hacquires⟩ := ht.pools
  have hget₁ : w₁.pools.get j = some p₁ := by rw [hpools, Arena.get_set_self hget]
  have hget₂ : (w₁.pools.set j (p₁.access .addPagesInUse)).get j =
      some (p₁.access .addPagesInUse) := Arena.get_set_self hget₁
  unfold World.accessPool World.cloneShared
  rw [hget₁]
  dsimp only
  rw [hget₂]
  dsimp only
  rw [Arena.set_set, hpools, Arena.set_set]
  exact ⟨_, rfl, howner, hacquires⟩

lemma log_cloneShared : (w.cloneShared j).log = w.log ∧ (w.cloneShared j).blocks = w.blocks ∧
    (w.cloneShared j).packed = w.packed ∧ (w.cloneShared j).pages = w.pages ∧
    (w.cloneShared j).trace = w.trace := by
  unfold World.cloneShared
  split <;> exact ⟨rfl, rfl, rfl, rfl, rfl⟩

lemma log_accessPool {x : PoolAccess} : (w.accessPool j x).log = w.log ∧
    (w.accessPool j x).blocks = w.blocks ∧ (w.accessPool j x).packed = w.packed ∧
    (w.accessPool j x).pages = w.pages ∧ (w.accessPool j x).trace = w.trace := by
  unfold World.accessPool
  split <;> exact ⟨rfl, rfl, rfl, rfl, rfl⟩

lemma Taken.fresh_eq {w₁ : World} {fresh : Bool} (ht : Taken w j p a w₁ fresh) :
    (w₁.log.length != w.log.length) = fresh := by
  rw [ht.log]
  cases fresh <;> simp

lemma registers_taken {w₁ : World} {fresh : Bool} (hG : Basic G) (ho : Owned w.idle)
    (hget : w.pools.get j = some p) (hlive : p.owner.Live) (ht : Taken w j p a w₁ fresh)
    (hunheld : a ∉ w.held 0 j) :
    Registers G w 0 { (w₁.accessPool j .addPagesInUse).cloneShared j with
      trace := .acquire j a (w₁.log.length != w.log.length) ::
        ((w₁.accessPool j .addPagesInUse).cloneShared j).trace } ((j, a) ::ₘ 0) := by
  obtain ⟨p₂, hpools, howner, hacquires⟩ := ht.acquires hget
  obtain ⟨hlog, hblocks, hpacked, hpages, htrace⟩ :=
    log_cloneShared (w := w₁.accessPool j .addPagesInUse) (j := j)
  obtain ⟨hlog', hblocks', hpacked', hpages', htrace'⟩ :=
    log_accessPool (w := w₁) (j := j) (x := .addPagesInUse)
  rw [ht.fresh_eq, htrace, htrace', ht.trace]
  generalize (w₁.accessPool j .addPagesInUse).cloneShared j = w₂ at *
  have hlog₂ := hlog.trans (hlog'.trans ht.log)
  have hblocks₂ := hblocks.trans (hblocks'.trans ht.blocks)
  have hheld : ∀ id, w₂.held ((j, a) ::ₘ 0) id = w.held ((j, a) ::ₘ 0) id := by
    intro id
    unfold World.held
    rw [hpacked.trans (hpacked'.trans ht.packed), hpages.trans (hpages'.trans ht.pages)]
  have hfree := ho.free_eq_zero_iff hget
  refine .single (hG.acquire j a fresh) ?_ fun id hid => ?_
  · have hrefs : (w.register 0 j).owner = 1 := by
      rw [owner_register hget, Owner.refs_of_live hlive]
    convert Register.Move.acquire (a := a) hrefs (stats_register hget) hacquires
      (fun hfresh => hfree.1 (ht.empty.1 hfresh))
      (fun hfresh => hfree.2 fun hboth => absurd (ht.empty.2 hboth) (by simp [hfresh]))
      hunheld using 1
    refine Register.ext ?_ ?_ ?_ (history_cons rfl rfl) ?_ ?_ ?_
    · show decide (j < w₂.pools.next) = decide (j < w.pools.next)
      rw [hpools]
      rfl
    · show (w₂.register 0 j).owner = (w.register 0 j).owner
      rw [owner_register_set hget hpools, owner_register hget, howner]
    · show (w₂.register 0 j).stats = some p₂.stats
      rw [stats_register_set hget hpools]
    · show w₂.log.countP _ = w.log.countP _ + _
      rw [hlog₂]
      cases fresh <;> simp [SourceEvent.Supplies]
    · show w₂.blocks.countP _ = w.blocks.countP _ + _
      rw [hblocks₂]
      cases fresh <;> simp
    · exact (hheld j).trans held_cons_self
  · refine Register.ext ?_ (owner_register_of_ne hpools hid) (stats_register_of_ne hpools hid)
      (history_cons_of_ne rfl (Ne.symm hid)) ?_ ?_ ?_
    · show decide (id < w₂.pools.next) = decide (id < w.pools.next)
      rw [hpools]
      rfl
    · show w₂.log.countP _ = w.log.countP _
      rw [hlog₂]
      cases fresh <;> simp [SourceEvent.Supplies, Ne.symm hid]
    · show w₂.blocks.countP _ = w.blocks.countP _
      rw [hblocks₂]
      cases fresh <;> simp [Ne.symm hid]
    · exact (hheld id).trans (held_cons_of_ne hid)

/-- A buffer that has just been found was not held by anyone. -/
lemma Taken.unheld {w₁ : World} {fresh : Bool} (ht : Taken w j p a w₁ fresh)
    (ho : Owned ⟨w₁, (j, a) ::ₘ 0, S, P⟩) (hget : w₁.pools.get j = some p') : a ∉ w.held 0 j := by
  have hle : (w₁.held ((j, a) ::ₘ 0) j).count a ≤ 1 := by
    rw [count_held]
    exact ho.holders_le_one hget a
  have hheld : w₁.held 0 j = w.held 0 j := by
    unfold World.held
    rw [ht.packed, ht.pages]
  rw [held_cons_self, Multiset.count_cons_self, hheld] at hle
  exact Multiset.count_eq_zero.1 (by omega)

lemma registers_allocateRawPage (hG : Basic G) (hfail : reply = none → G j .fail)
    (ho : Owned w.idle) (hget : w.pools.get j = some p) (hlive : p.owner.Live) :
    (w.allocateRawPage j reply).Post (fun a w' => Registers G w 0 w' ((j, a) ::ₘ 0))
      fun w' => Registers G w 0 w' 0 := by
  unfold World.allocateRawPage
  rw [hget]
  have hboth := Outcome.Post.and (o := w.takeBuffer j p reply) (custody_takeBuffer hget hlive)
    (taken_takeBuffer hlive)
  refine Outcome.Post.bind (hboth.mono (fun _ _ h => h) ?_) ?_
  · rintro w₁ ⟨-, hreply, hlocal, hreturn, rfl⟩
    refine .single (hfail hreply) ?_ fun id hid => ?_
    · have hrefs : (w.register 0 j).owner = 1 := by
        rw [owner_register hget, Owner.refs_of_live hlive]
      convert Register.Move.fail hrefs (stats_register hget)
        ((ho.free_eq_zero_iff hget).1 ⟨hlocal, hreturn⟩) using 1
      refine Register.ext rfl ?_ ?_ rfl rfl rfl rfl
      · rw [owner_register_set hget rfl, owner_register hget]
        rfl
      · rw [stats_register_set hget rfl]
        rfl
    · exact Register.ext rfl (owner_register_of_ne rfl hid) (stats_register_of_ne rfl hid) rfl rfl
        rfl rfl
  · rintro a w₁ ⟨⟨hmoves, p₁, hget₁, -⟩, fresh, ht⟩
    have hunheld := ht.unheld (ho.moves hmoves) hget₁
    exact Outcome.post_done (registers_taken hG ho hget hlive ht hunheld)

/-! ## New pools and prewarming -/

lemma registers_newPool {pageSize : ℕ} {chunked : Bool} (hG : Basic G) :
    (w.newPool pageSize chunked).Post (fun _ w' => Registers G w 0 w' 0)
      fun w' => Registers G w 0 w' 0 := by
  unfold World.newPool
  split
  · refine Outcome.post_done (.single (hG.birth w.pools.next) ?_ fun id hid => ?_)
    · have hunborn : (w.register 0 w.pools.next).born = false := by
        show decide (w.pools.next < w.pools.next) = false
        simp
      convert Register.Move.birth hunborn using 1
      refine Register.ext ?_ ?_ ?_ rfl rfl rfl rfl
      · show decide (w.pools.next < w.pools.next + 1) = true
        simp
      · show (w.pools.push _).val _ w.pools.next = 1
        rw [Arena.val_of_get Arena.get_push_self]
        cases chunked <;> rfl
      · show ((w.pools.push _).get w.pools.next).map _ = _
        rw [Arena.get_push_self]
        rfl
    · refine Register.ext ?_ ?_ ?_ rfl rfl rfl rfl
      · show decide (id < w.pools.next + 1) = decide (id < w.pools.next)
        exact decide_eq_decide.2 (by omega)
      · show (w.pools.push _).val _ id = w.pools.val _ id
        rw [Arena.val_push, if_neg hid, Nat.add_zero]
      · show ((w.pools.push _).get id).map _ = (w.pools.get id).map _
        rw [Arena.get_push, if_neg hid]
  · exact Outcome.post_panicked (.of_eq fun _ => rfl)

/-- The pool has `k` pages more, and the counters are as before. -/
structure Warmed (w : World) (j k : ℕ) (w' : World) : Prop where
  register : w'.register 0 j =
    { w.register 0 j with
      obtained := (w.register 0 j).obtained + k, blocks := (w.register 0 j).blocks + k }
  other : ∀ id, id ≠ j → w'.register 0 id = w.register 0 id

lemma Warmed.trans {k n : ℕ} (h : Warmed w j k w') (h' : Warmed w' j n w'') :
    Warmed w j (k + n) w'' where
  register := by
    rw [h'.register, h.register]
    dsimp only
    rw [Nat.add_assoc, Nat.add_assoc]
  other id hid := (h'.other id hid).trans (h.other id hid)

/-- One more page, on the local list. -/
lemma warmed_link (hget : w.pools.get j = some p) : Warmed w j 1
    { ((w.provide (.pool j) p.layout a).prefault j a).storePtr a p.owner.localHead with
      pools := w.pools.set j { p with owner := p.owner.setLocalHead a } } := by
  constructor
  case register =>
    refine Register.ext rfl ?_ ?_ rfl ?_ ?_ rfl
    · rw [owner_register_set hget rfl]
      exact Owner.refs_setLocalHead.trans (owner_register (B := 0) hget).symm
    · rw [stats_register_set hget rfl]
      exact (stats_register (B := 0) hget).symm
    · show (w.provide (.pool j) p.layout a).log.countP _ = w.log.countP _ + 1
      simp [World.provide, SourceEvent.Supplies]
    · show (w.provide (.pool j) p.layout a).blocks.countP _ = w.blocks.countP _ + 1
      simp [World.provide]
  case other =>
    intro id hid
    refine Register.ext rfl (owner_register_of_ne rfl hid) (stats_register_of_ne rfl hid) rfl
      ?_ ?_ rfl
    · show (w.provide (.pool j) p.layout a).log.countP _ = w.log.countP _
      simp [World.provide, SourceEvent.Supplies, Ne.symm hid]
    · show (w.provide (.pool j) p.layout a).blocks.countP _ = w.blocks.countP _
      simp [World.provide, Ne.symm hid]

/-- The loop of `prewarm`: a page for each reply, until the source refuses one. -/
lemma warmed_prewarmLoop {replies : List (Option ℕ)} (hget : w.pools.get j = some p) :
    (World.prewarmLoop j replies w).Post
      (fun _ w' => Warmed w j replies.length w' ∧ none ∉ replies ∧ w'.trace = w.trace)
      fun w' => ∃ pre rest,
        replies = pre ++ none :: rest ∧ none ∉ pre ∧ Warmed w j pre.length w' := by
  induction replies generalizing w p with
  | nil => exact ⟨⟨rfl, fun _ _ => rfl⟩, by simp, rfl⟩
  | cons reply replies ih =>
      unfold World.prewarmLoop
      rw [hget]
      unfold World.sourceAllocate
      cases reply with
      | none => exact ⟨[], replies, rfl, by simp, rfl, fun _ _ => rfl⟩
      | some a =>
          dsimp only
          split
          · have hlink := warmed_link (a := a) hget
            refine (ih (w := {
                ((w.provide (.pool j) p.layout a).prefault j a).storePtr a p.owner.localHead with
              pools := w.pools.set j { p with owner := p.owner.setLocalHead a } })
              (Arena.get_set_self hget)).mono ?_ ?_
            · rintro _ w' ⟨hw', hnone, htrace⟩
              have hboth := hlink.trans hw'
              rw [Nat.add_comm] at hboth
              exact ⟨hboth, by simpa using hnone, htrace⟩
            · rintro w' ⟨pre, rest, rfl, hnone, hw'⟩
              have hboth := hlink.trans hw'
              rw [Nat.add_comm] at hboth
              exact ⟨some a :: pre, rest, rfl, by simpa using hnone, hboth⟩
          · trivial

lemma register_accessPool {x : PoolAccess} {st : PoolStats}
    (hst : (w.register B j).stats = some st) :
    (w.accessPool j x).register B j = { w.register B j with stats := some (x.exec st) } ∧
      (∀ id, id ≠ j → (w.accessPool j x).register B id = w.register B id) ∧
      ((w.accessPool j x).register B j).stats = some (x.exec st) := by
  obtain ⟨p, hget, rfl⟩ := Option.map_eq_some_iff.1 hst
  unfold World.accessPool
  rw [hget]
  dsimp only
  refine ⟨Register.ext rfl ?_ ?_ rfl rfl rfl rfl, fun id hid => ?_, ?_⟩
  · rw [owner_register_set hget rfl]
    exact (owner_register (B := B) hget).symm
  · rw [stats_register_set hget rfl]
    rfl
  · exact Register.ext rfl (owner_register_of_ne rfl hid) (stats_register_of_ne rfl hid) rfl rfl
      rfl rfl
  · rw [stats_register_set hget rfl]
    rfl

lemma registers_prewarm {replies : List (Option ℕ)} (hget : w.pools.get j = some p)
    (hlive : p.owner.Live) (hdone : none ∉ replies → G j (.prewarm replies.length))
    (hleak : ∀ pre rest, replies = pre ++ none :: rest → none ∉ pre → G j (.leak pre.length)) :
    (w.prewarm j replies).Post (fun _ w' => Registers G w 0 w' 0)
      fun w' => Registers G w 0 w' 0 := by
  have hrefs : (w.register 0 j).owner = 1 := by
    rw [owner_register hget, Owner.refs_of_live hlive]
  refine Outcome.Post.bind ((warmed_prewarmLoop hget).mono (fun _ _ h => h) ?_) ?_
  · rintro w' ⟨pre, rest, heq, hnone, hw'⟩
    refine .single (hleak pre rest heq hnone) ?_ hw'.other
    rw [hw'.register]
    exact .leak pre.length hrefs
  · rintro _ w₁ ⟨hw₁, hnone, htrace⟩
    have hst₁ : (w₁.register 0 j).stats = some p.stats := by
      rw [hw₁.register]
      exact stats_register (B := 0) hget
    obtain ⟨hr₂, hother₂, hst₂⟩ :=
      register_accessPool (x := .addAllocationsFromHeap replies.length) hst₁
    obtain ⟨hr₃, hother₃, hst₃⟩ := register_accessPool (x := .addFreePages replies.length) hst₂
    obtain ⟨hr₄, hother₄, -⟩ := register_accessPool (x := .addPrewarmedPages replies.length) hst₃
    refine Outcome.post_done (.single (hdone hnone) ?_ fun id hid => ?_)
    · rw [register_record (e := .prewarm j replies.length) (show _ = j from rfl), hr₄, hr₃, hr₂,
        hw₁.register]
      exact .prewarm replies.length hrefs (stats_register hget)
    · rw [register_record_of_ne (e := .prewarm j replies.length) (Ne.symm hid), hother₄ id hid,
        hother₃ id hid, hother₂ id hid, hw₁.other id hid]

/-! ## Packed pages -/

variable {arc : PackedArc}

/-- Only the buffers that are held depend on handles and packed pages. -/
lemma register_of_held {packed : Arena PackedInner} {pages : Arena PageHandle}
    (hheld : ({ w with packed := packed, pages := pages } : World).held B' id = w.held B id) :
    ({ w with packed := packed, pages := pages } : World).register B' id = w.register B id :=
  Register.ext rfl rfl rfl rfl rfl rfl hheld

lemma registers_clonePacked {q : PackedInner} (hget : w.packed.get arc.id = some q) :
    Registers G w B (w.clonePacked arc) B := by
  unfold World.clonePacked
  rw [hget]
  exact .of_eq fun id => register_of_held (held_setPacked id hget)

lemma registers_release (hG : Basic G) (ho : Owned ⟨w, (j, a) ::ₘ 0, j ::ₘ S, P⟩) :
    Registers G w ((j, a) ::ₘ 0) ((w.pushReturn j a).dropShared j) 0 :=
  (registers_pushReturn hG ho).trans
    (registers_dropShared hG (ho.moves (custody_pushReturn ho)))

lemma registers_dropPacked (hG : Basic G) (ho : Owned ⟨w, 0, S, arc.id ::ₘ P⟩) :
    Registers G w 0 (w.dropPacked arc) 0 := by
  have hdropped := dropped_dropPacked ho
  generalize w.dropPacked arc = w' at hdropped ⊢
  cases hdropped with
  | @shared q hget hshared =>
      have hset := fun id => held_setPacked id (B := 0) (n := q.strong - 1) hget
      exact .of_eq fun id => Register.ext rfl rfl rfl rfl rfl rfl (hset id)
  | @pool j a hget =>
      have hfree : Move ⟨w, 0, S, arc.id ::ₘ P⟩
          ⟨{ w with packed := w.packed.erase arc.id }, (j, a) ::ₘ 0, j ::ₘ S, P⟩ :=
        .freePacked hget
      have herase (id : ℕ) : PackedInner.buffer id ⟨⟨a, .pool j⟩, 1⟩ +
          World.held { w with packed := w.packed.erase arc.id } 0 id = w.held 0 id :=
        held_erasePacked hget
      refine Registers.trans (.of_eq fun id => ?_) (registers_release hG (ho.move hfree))
      refine Register.ext rfl rfl rfl rfl rfl rfl ?_
      show World.held _ ((j, a) ::ₘ 0) id = w.held 0 id
      rw [held_cons, ← herase id]
      unfold PackedInner.buffer
      by_cases hid : id = j
      · rw [if_pos hid, if_pos (by rw [hid])]
      · rw [if_neg hid, if_neg (by simp [Ne.symm hid])]
  | @heap l a hget hmem =>
      have herase (id : ℕ) : PackedInner.buffer id ⟨⟨a, .heap l⟩, 1⟩ +
          World.held { w with packed := w.packed.erase arc.id } 0 id = w.held 0 id :=
        held_erasePacked hget
      have hle : (([a].map fun a => ⟨a, l, .heap⟩ : List Block) : Multiset Block) ≤ w.blocks :=
        Multiset.singleton_le.2 hmem
      refine .of_eq fun id => Register.ext rfl rfl rfl rfl countP_log_releaseAll ?_ ?_
      · refine (countP_blocks_releaseAll hle).trans ?_
        rw [if_neg (by simp)]
        rfl
      · refine Eq.trans ?_ (herase id)
        unfold PackedInner.buffer
        rw [if_neg (by simp), Multiset.zero_add]
        rfl

end Pools

/-! ## Page pools and pages -/

section Pages

variable {G : ℕ → Label → Prop} {w w' : World} {j i tenant : ℕ} {p : Pool} {reply : Option ℕ}
  {h : PageHandle} {α β : Type}

/-- The program moves every register on, returning or panicking. -/
def KeepsRegisters (G : ℕ → Label → Prop) (w : World) (o : Outcome World α) : Prop :=
  o.Post (fun _ w' => Registers G w 0 w' 0) fun w' => Registers G w 0 w' 0

lemma KeepsRegisters.bind {o : Outcome World α} {f : α → World → Outcome World β}
    (ho : Owned w.idle) (hcustody : KeepsCustody w o) (h : KeepsRegisters G w o)
    (hf : ∀ a w', Owned w'.idle → KeepsRegisters G w' (f a w')) :
    KeepsRegisters G w (o.bind f) := by
  have hboth := Outcome.Post.and hcustody h
  refine Outcome.Post.bind (hboth.mono (fun _ _ h => h) fun _ h => h.2) ?_
  rintro a w' ⟨hmoves, hw'⟩
  exact (hf a w' (ho.moves hmoves)).mono (fun _ _ h => hw'.trans h) fun _ h => hw'.trans h

lemma KeepsRegisters.final {o : Outcome World α} (h : KeepsRegisters G w o)
    (hw' : o.final = some w') : Registers G w 0 w' 0 := by
  unfold KeepsRegisters at h
  exact h.final (P := fun w' => Registers G w 0 w' 0) hw'

lemma registers_refl : Registers G w 0 w 0 := .of_eq fun _ => rfl

lemma registers_dropPagePool (hG : Basic G) (ho : Owned w.idle) (hget : w.pools.get j = some p)
    (hlive : p.owner.Live)
    (hclose : ∀ k, (p.owner.localHead = 0 → k = 0) → G j (.close k)) :
    Registers G w 0 (w.dropPagePool j p) 0 := by
  have hrelease := custody_releaseLocal ho hget hlive
  exact (registers_releaseLocal ho hget hlive hclose).trans
    (registers_dropShared hG (ho.moves hrelease))

lemma registers_allocatePage (hG : Basic G) (hfail : reply = none → G j .fail)
    (ho : Owned w.idle) (hget : w.pools.get j = some p) (hlive : p.owner.Live) :
    KeepsRegisters G w (w.allocatePage j tenant p reply) := by
  refine Outcome.Post.bind (registers_allocateRawPage hG hfail ho hget hlive) ?_
  intro a w₁ hw₁
  refine Outcome.post_done (hw₁.trans (.of_eq fun id => ?_))
  exact Register.ext rfl rfl rfl rfl rfl rfl
    (held_pushPage (w := w₁) (h := ⟨a, p.pageSize, 0, j, tenant, .builder⟩))

lemma registers_releasePage (hG : Basic G) (ho : Owned w.idle) (hget : w.pages.get i = some h) :
    Registers G w 0 (({ w with pages := w.pages.erase i } : World).releasePage h) 0 := by
  have hremove : Moves w.idle ⟨{ w with pages := w.pages.erase i }, (h.pool, h.buf) ::ₘ 0,
      h.pool ::ₘ 0, 0⟩ := .single (.removePage hget)
  have haccount := hremove.tail (.account (Function.update w.tenants h.tenant
    ((w.tenants h.tenant).recordRelease h.capacity)) w.chunkStats w.made)
  refine Registers.trans (.of_eq fun id => ?_) (registers_release hG (ho.moves haccount))
  exact Register.ext rfl rfl rfl rfl rfl rfl (held_erasePage hget)

lemma registers_setPage {h' : PageHandle} (hget : w.pages.get i = some h)
    (hsame : h.SamePlace h') : Registers G w 0 { w with pages := w.pages.set i h' } 0 :=
  .of_eq fun _ => Register.ext rfl rfl rfl rfl rfl rfl (held_setPage hget hsame)

lemma registers_dropPage (hG : Basic G) (ho : Owned w.idle) (hget : w.pages.get i = some h) :
    Registers G w 0 (w.dropPage i h) 0 := by
  unfold World.dropPage
  split
  · exact registers_releasePage hG ho hget
  · exact registers_releasePage hG ho hget
  · exact registers_setPage hget ⟨rfl, rfl, rfl⟩

lemma registers_sealPage (hG : Basic G) (ho : Owned w.idle) (hget : w.pages.get i = some h) :
    Registers G w 0 (w.sealPage i h) 0 := by
  obtain ⟨p, hp, -⟩ := Option.map_eq_some_iff.1 (ho.fits.page i h hget)
  have hclone : Moves w.idle ⟨w.cloneShared h.pool, 0, h.pool ::ₘ 0, 0⟩ := custody_cloneShared hp
  have hpages : (w.cloneShared h.pool).pages.get i = some h := by
    rw [log_cloneShared.2.2.2.1]
    exact hget
  have hsame : h.SamePlace { h with refs := .sealed 1 } := ⟨rfl, rfl, rfl⟩
  have hset := hclone.tail (.setPage hpages hsame)
  exact (registers_cloneShared hp).trans ((registers_setPage hpages hsame).trans
    (registers_dropShared hG (ho.moves hset)))

lemma registers_finishPage {data : List UInt8} {len : Option ℕ} (hG : Basic G)
    (ho : Owned w.idle) : KeepsRegisters G w (w.finishPage i data len) := by
  unfold World.finishPage
  split
  · trivial
  · rename_i h hget
    dsimp only
    have hwrite : Moves w.idle (w.store (h.buf + 0) (data.take h.capacity)).idle :=
      .single (.writePage hget (by rw [List.length_take]; omega))
    rw [Nat.add_zero] at hwrite
    have ho' := ho.moves hwrite
    -- The store into the buffer is outside the register.
    have hstored : Registers G w 0 (w.store h.buf (data.take h.capacity)) 0 :=
      .of_eq fun _ => rfl
    split
    · exact Outcome.post_panicked (hstored.trans (registers_dropPage hG ho' hget))
    · split
      · rename_i n hn
        have hsame : h.SamePlace { h with len := n } := ⟨rfl, rfl, rfl⟩
        have hset := hwrite.tail (.setPage (i := i) hget hsame)
        have hseal := registers_sealPage hG (ho.moves hset) (Arena.get_set_self hget)
        exact Outcome.post_done (hstored.trans ((registers_setPage hget hsame).trans hseal))
      · exact Outcome.post_panicked (hstored.trans (registers_dropPage hG ho' hget))

/-- The `alloc_*` functions: an allocation and something done to the new builder. -/
lemma registers_allocPageThen {l : ℕ} {f : ℕ → World → Outcome World ℕ} (hG : Basic G)
    (hfail : reply = none → G j .fail) (ho : Owned w.idle) (hget : w.pools.get j = some p)
    (howner : p.owner = .pagePool l)
    (hf : ∀ i w', Owned w'.idle → KeepsRegisters G w' (f i w')) :
    KeepsRegisters G w ((w.allocatePage j tenant p reply).bind f) :=
  KeepsRegisters.bind ho (custody_allocatePage hget howner)
    (registers_allocatePage hG hfail ho hget (Owner.live_of_pagePool howner)) hf

lemma registers_allocFromPage {l : ℕ} {data : List UInt8} (hG : Basic G)
    (hfail : reply = none → G j .fail) (ho : Owned w.idle) (hget : w.pools.get j = some p)
    (howner : p.owner = .pagePool l) :
    KeepsRegisters G w (w.allocFromPage j tenant p data reply) := by
  unfold World.allocFromPage
  split
  · exact registers_allocPageThen hG hfail ho hget howner fun _ _ => registers_finishPage hG
  · exact Outcome.post_panicked registers_refl

lemma registers_allocWithPage {l : ℕ} {init : Closure} (hG : Basic G)
    (hfail : reply = none → G j .fail) (ho : Owned w.idle) (hget : w.pools.get j = some p)
    (howner : p.owner = .pagePool l) :
    KeepsRegisters G w (w.allocWithPage j tenant p init reply) := by
  refine registers_allocPageThen hG hfail ho hget howner ?_
  intro i w₁ ho₁
  dsimp only
  split
  · trivial
  · exact registers_finishPage hG ho₁

lemma registers_allocWithLenPage {l : ℕ} {init : Closure} (hG : Basic G)
    (hfail : reply = none → G j .fail) (ho : Owned w.idle) (hget : w.pools.get j = some p)
    (howner : p.owner = .pagePool l) :
    KeepsRegisters G w (w.allocWithLenPage j tenant p init reply) := by
  refine registers_allocPageThen hG hfail ho hget howner ?_
  intro i w₁ ho₁
  dsimp only
  split
  · trivial
  · exact registers_finishPage hG ho₁

lemma registers_appendPage {data : List UInt8} (hget : w.pages.get i = some h)
    (happend : w.appendPage i h data = .ok w') : Registers G w 0 w' 0 := by
  unfold World.appendPage at happend
  split at happend
  · exact absurd happend (by simp)
  · obtain rfl := Except.ok.inj happend
    have hsame : h.SamePlace { h with len := h.len + data.length } := ⟨rfl, rfl, rfl⟩
    exact registers_setPage hget hsame

lemma registers_setLenPage {len : ℕ} (hget : w.pages.get i = some h) :
    KeepsRegisters G w (w.setLenPage i h len) := by
  unfold World.setLenPage
  split
  · exact Outcome.post_done (registers_setPage hget ⟨rfl, rfl, rfl⟩)
  · exact Outcome.post_panicked registers_refl

lemma registers_writePage {pos : ℕ} {data : List UInt8} :
    KeepsRegisters G w (w.writePage h pos data) := by
  unfold World.writePage
  split
  · exact Outcome.post_done (.of_eq fun _ => rfl)
  · exact Outcome.post_panicked registers_refl

lemma registers_clonePage (hget : w.pages.get i = some h) (hclone : w.clonePage i h = some w') :
    Registers G w 0 w' 0 := by
  unfold World.clonePage at hclone
  split at hclone
  · exact absurd hclone (by simp)
  · obtain rfl := Option.some.inj hclone
    exact registers_setPage hget ⟨rfl, rfl, rfl⟩

end Pages

/-! ## Chunk pools and chunks -/

section Chunks

variable {G : ℕ → Label → Prop} {w w' : World} {j i tenant size align l : ℕ} {p : Pool}
  {c : Option OpenPage} {reply : Option ℕ} {h : ChunkHandle} {data : List UInt8}

lemma registers_dropOptional {q : Option PackedArc} {S P : Multiset ℕ} (hG : Basic G)
    (ho : Owned ⟨w, 0, S, heldIds q + P⟩) : Registers G w 0 (w.dropOptional q) 0 := by
  cases q with
  | none => exact registers_refl
  | some arc =>
      unfold heldIds at ho
      rw [Multiset.singleton_add] at ho
      exact registers_dropPacked hG ho

lemma registers_closeCurrent (hG : Basic G) (ho : Owned w.idle) (hget : w.pools.get j = some p) :
    Registers G w 0 (w.replaceCurrent j none) 0 := by
  unfold World.replaceCurrent
  rw [hget]
  dsimp only
  have hset : Registers G w 0 { w with
      pools := w.pools.set j { p with owner := p.owner.setCurrent none } } 0 :=
    .of_eq (register_setPool_same hget Owner.refs_setCurrent rfl)
  refine hset.trans ?_
  cases hcurrent : p.owner.current with
  | none => exact registers_refl
  | some o =>
      have htake := Move.takeCurrent (B := 0) (S := 0) (P := 0) hget hcurrent
      exact registers_dropPacked hG (ho.move htake)

lemma held_wrapPage {a : ℕ} (id : ℕ) :
    (w.newPacked ⟨a, .pool j⟩).held 0 id = w.held ((j, a) ::ₘ 0) id := by
  rw [held_cons]
  refine held_pushPacked.trans ?_
  unfold PackedInner.buffer
  dsimp only
  by_cases hid : id = j
  · rw [if_pos hid, if_pos (by rw [hid])]
  · rw [if_neg hid, if_neg (by simp [Ne.symm hid])]

/-- A page that was taken is wrapped. -/
lemma registers_wrapPage {a : ℕ} :
    Registers G w ((j, a) ::ₘ 0) (w.newPacked ⟨a, .pool j⟩) 0 :=
  .of_eq fun id => Register.ext rfl rfl rfl rfl rfl rfl (held_wrapPage id)

/-- An allocation outside the pools is wrapped. -/
lemma registers_wrapHeap {a : ℕ} {layout : Layout} :
    Registers G w 0 (w.newPacked ⟨a, .heap layout⟩) 0 := by
  refine .of_eq fun id => Register.ext rfl rfl rfl rfl rfl rfl ?_
  refine held_pushPacked.trans ?_
  unfold PackedInner.buffer
  rw [if_neg (by simp), Multiset.zero_add]
  rfl

lemma registers_openNewPage (hG : Basic G) (hfail : reply = none → G j .fail)
    (ho : Owned w.idle) (hget : w.pools.get j = some p) (howner : p.owner = .chunkPool l none) :
    KeepsRegisters G w (w.openNewPage j reply) := by
  have hlive := Owner.live_of_chunkPool howner
  have hboth := Outcome.Post.and (o := w.allocateRawPage j reply)
    (custody_allocateRawPage hget hlive) (registers_allocateRawPage (G := G) hG hfail ho hget hlive)
  refine Outcome.Post.bind (hboth.mono (fun _ _ h => h) fun _ h => h.2) ?_
  rintro a w₁ ⟨⟨-, p₁, hget₁, -, l', howner₁⟩, hw₁⟩
  rw [howner] at howner₁
  refine Outcome.post_done (hw₁.trans ?_)
  refine registers_wrapPage.trans ?_
  unfold World.wrapPage World.replaceCurrent
  dsimp only
  have hget₁' : (w₁.newPacked ⟨a, .pool j⟩).pools.get j = some p₁ := hget₁
  have hcurrent : p₁.owner.current = none := by rw [howner₁, Owner.current_setLocalHead]; rfl
  rw [hget₁']
  dsimp only
  rw [hcurrent]
  exact .of_eq (register_setPool_same hget₁' Owner.refs_setCurrent rfl)

lemma registers_claimRange {o : OpenPage} (ho : Owned w.idle) (hget : w.pools.get j = some p)
    (hroom : p.room size align = some o) :
    KeepsRegisters G w (w.claimRange j p o size align) := by
  have hcurrent := (le_of_room (ho.blocks.pageSize j p hget).2 hroom).1
  obtain ⟨q, hq, -⟩ := ho.packed_of_current hget hcurrent
  refine Outcome.post_done (Registers.trans ?_ (registers_clonePacked hq))
  exact .of_eq (register_setPool_same hget Owner.refs_setCurrent rfl)

lemma registers_findPage (hG : Basic G) (hfail : reply = none → G j .fail) (fuel : ℕ)
    (ho : Owned w.idle) (hget : w.pools.get j = some p) (howner : p.owner = .chunkPool l c) :
    KeepsRegisters G w (World.findPage j size align reply fuel w) := by
  induction fuel generalizing w p l c with
  | zero => exact Outcome.post_panicked (.of_eq fun _ => rfl)
  | succ fuel ih =>
      unfold World.findPage
      rw [hget]
      dsimp only
      cases hroom : p.room size align with
      | some o => exact registers_claimRange ho hget hroom
      | none =>
          dsimp only
          have hclose : Moves w.idle (w.replaceCurrent j none).idle := custody_closeCurrent ho hget
          have hregisters : Registers G w 0 (w.replaceCurrent j none) 0 :=
            registers_closeCurrent hG ho hget
          obtain ⟨p₁, hget₁, howner₁, -⟩ := owner_closeCurrent ho hget howner
          have hboth := Outcome.Post.and (o := (w.replaceCurrent j none).openNewPage j reply)
            (custody_openNewPage hget₁ howner₁)
            (registers_openNewPage (G := G) hG hfail (ho.moves hclose) hget₁ howner₁)
          refine Outcome.Post.bind (hboth.mono (fun _ _ h => h) fun _ h => ?_) ?_
          · exact hregisters.trans h.2
          · rintro _ w₂ ⟨⟨hmoves, p₂, l₂, a, k, hget₂, -, howner₂⟩, hw₂⟩
            have hrest := ih (ho.moves (hclose.trans hmoves)) hget₂ howner₂
            exact hrest.mono (fun _ _ h => hregisters.trans (hw₂.trans h))
              fun _ h => hregisters.trans (hw₂.trans h)

lemma register_provideHeap {layout : Layout} {a id : ℕ} :
    (w.provide .heap layout a).register 0 id = w.register 0 id := by
  refine Register.ext rfl rfl rfl rfl ?_ ?_ rfl
  · show (w.provide .heap layout a).log.countP (SourceEvent.Supplies id) =
      w.log.countP (SourceEvent.Supplies id)
    simp [World.provide, SourceEvent.Supplies]
  · show (w.provide .heap layout a).blocks.countP _ = w.blocks.countP _
    simp [World.provide]

lemma registers_allocateAligned (hG : Basic G) (hfail : reply = none → G j .fail)
    (ho : Owned w.idle) (hget : w.pools.get j = some p) (howner : p.owner = .chunkPool l c) :
    KeepsRegisters G w (w.allocateAligned j tenant p size align reply) := by
  have hlive := Owner.live_of_chunkPool howner
  unfold World.allocateAligned
  split
  · split
    · exact Outcome.post_done (.of_eq fun _ => rfl)
    · refine Outcome.Post.bind (registers_findPage hG hfail 2 ho hget howner) ?_
      intro r w₁ hw₁
      exact Outcome.post_done (hw₁.trans (.of_eq fun _ => rfl))
    · refine Outcome.Post.bind (registers_allocateRawPage hG hfail ho hget hlive) ?_
      intro a w₁ hw₁
      exact Outcome.post_done ((hw₁.trans registers_wrapPage).trans (.of_eq fun _ => rfl))
    · refine World.post_allocateOversized (fun _ a _ => ?_) fun _ => registers_refl
      have hprovide : Registers G w 0 (w.provide .heap ⟨size, max align defaultAlign⟩ a) 0 :=
        .of_eq fun id => register_provideHeap
      exact Outcome.post_done ((hprovide.trans registers_wrapHeap).trans (.of_eq fun _ => rfl))
  · exact Outcome.post_panicked registers_refl

lemma registers_dropChunkPool (hG : Basic G) (ho : Owned w.idle) (hget : w.pools.get j = some p)
    (howner : p.owner = .chunkPool l c)
    (hclose : ∀ k, (p.owner.localHead = 0 → k = 0) → G j (.close k)) :
    Registers G w 0 (w.dropChunkPool j p) 0 := by
  have hlive := Owner.live_of_chunkPool howner
  have hdrop : Moves w.idle (w.dropPagePool j p).idle := custody_dropPagePool ho hget hlive
  have hregisters := registers_dropPagePool (G := G) hG ho hget hlive hclose
  unfold World.dropChunkPool
  dsimp only
  split
  · exact hregisters
  · rename_i o hcurrent
    obtain ⟨hpage, hrelease⟩ := ho.references.current j p o hget hcurrent
    have hpage' : pageOf (w.dropPagePool j p).packed o.shared.id =
        some ⟨o.shared.page.buf, .pool j⟩ := by
      rw [packed_dropPagePool, ← hrelease]
      exact hpage
    obtain ⟨p', hget'⟩ := (ho.moves hdrop).references.pool_of_packed hpage'
    exact hregisters.trans (registers_closeCurrent hG (ho.moves hdrop) hget')

lemma registers_dropChunk (hG : Basic G) (ho : Owned w.idle) (hget : w.chunks.get i = some h) :
    Registers G w 0 (w.dropChunk i h) 0 := by
  have hrelease : Registers G w 0
      (({ w with chunks := w.chunks.erase i } : World).releaseChunk h) 0 := by
    have hremove : Moves w.idle ⟨{ w with chunks := w.chunks.erase i }, 0, 0,
        heldIds h.packed + 0⟩ := .single (.removeChunk hget)
    have haccount := hremove.tail (.account (Function.update w.tenants h.tenant
      ((w.tenants h.tenant).recordChunkRelease h.capacity)) (Function.update w.chunkStats h.pool
      ((w.chunkStats h.pool).recordRelease h.oversizedBytes)) w.made)
    exact registers_dropOptional hG (ho.moves haccount)
  unfold World.dropChunk
  split
  · exact hrelease
  · exact hrelease
  · exact .of_eq fun _ => rfl

lemma registers_sealChunk (hG : Basic G) (ho : Owned w.idle) (hget : w.chunks.get i = some h)
    (hbuilder : h.refs = .builder) : Registers G w 0 (w.sealChunk i h) 0 := by
  have hsame : h.SamePlace { h with refs := .sealed 1 } :=
    ⟨rfl, rfl, rfl, rfl, fun hlen => hlen, fun hsealed => absurd hbuilder hsealed⟩
  unfold World.sealChunk
  dsimp only
  cases hpacked : h.packed with
  | none => exact .of_eq fun _ => rfl
  | some arc =>
      obtain ⟨q, hq, -⟩ := Option.map_eq_some_iff.1 (ho.references.chunk i h arc hget hpacked)
      have hclone : Moves w.idle ⟨w.clonePacked arc, 0, 0, arc.id ::ₘ 0⟩ := custody_clonePacked hq
      have hchunks : (w.clonePacked arc).chunks.get i = some h := by
        rw [show (w.clonePacked arc).chunks = w.chunks from
          congrArg Ledger.chunks ledger_clonePacked]
        exact hget
      have hset := hclone.tail (.setChunk hchunks hsame)
      rw [hpacked] at hset
      exact (registers_clonePacked hq).trans (registers_dropPacked hG (ho.moves hset))

lemma registers_storeChunk {pos : ℕ} : Registers G w 0 (w.storeChunk h pos data) 0 := by
  unfold World.storeChunk
  split <;> exact .of_eq fun _ => rfl

lemma registers_finishChunk {len : Option ℕ} (hG : Basic G) (ho : Owned w.idle)
    (hget : w.chunks.get i = some h) (hbuilder : h.refs = .builder) :
    KeepsRegisters G w (w.finishChunk i h data len) := by
  unfold World.finishChunk
  dsimp only
  have hmoves : Moves w.idle (w.storeChunk h 0 (data.take h.capacity)).idle :=
    custody_storeChunk hget hbuilder (by rw [List.length_take]; omega)
  have hstore : Registers G w 0 (w.storeChunk h 0 (data.take h.capacity)) 0 := registers_storeChunk
  have hget' : (w.storeChunk h 0 (data.take h.capacity)).chunks.get i = some h := by
    rw [chunks_storeChunk]
    exact hget
  have ho' := ho.moves hmoves
  split
  · exact Outcome.post_panicked (hstore.trans (registers_dropChunk hG ho' hget'))
  · split
    · rename_i n hn
      have hset := hmoves.tail (.setChunk (i := i) hget' (samePlace_len hbuilder hn))
      refine Outcome.post_done (hstore.trans (registers_sealChunk hG (ho.moves hset) ?_ hbuilder))
      exact Arena.get_set_self hget'
    · exact Outcome.post_panicked (hstore.trans (registers_dropChunk hG ho' hget'))

/-- The `alloc_*` functions: an allocation and something done to the new builder. -/
lemma registers_allocChunkThen {f : ℕ → World → Outcome World ℕ} (hG : Basic G)
    (hfail : reply = none → G j .fail) (ho : Owned w.idle) (hget : w.pools.get j = some p)
    (howner : p.owner = .chunkPool l c)
    (hf : ∀ i w', Owned w'.idle → (∀ h, w'.chunks.get i = some h → h.refs = .builder) →
      KeepsRegisters G w' (f i w')) :
    KeepsRegisters G w ((w.allocateAligned j tenant p size align reply).bind f) := by
  have hcustody : KeepsCustody w (w.allocateAligned j tenant p size align reply) :=
    custody_allocateAligned ho hget howner
  have hboth := (Outcome.Post.and hcustody allocateAligned_builder).and
    (registers_allocateAligned (G := G) hG hfail ho hget howner)
  refine Outcome.Post.bind (hboth.mono (fun _ _ h => h) fun _ h => h.2) ?_
  rintro i w' ⟨⟨hmoves, hbuilder⟩, hw'⟩
  exact (hf i w' (ho.moves hmoves) hbuilder).mono (fun _ _ h => hw'.trans h)
    fun _ h => hw'.trans h

lemma registers_allocFromChunk (hG : Basic G) (hfail : reply = none → G j .fail)
    (ho : Owned w.idle) (hget : w.pools.get j = some p) (howner : p.owner = .chunkPool l c) :
    KeepsRegisters G w (w.allocFromChunk j tenant p data reply) := by
  refine registers_allocChunkThen hG hfail ho hget howner ?_
  intro i w₁ ho₁ hbuilder
  split
  · trivial
  · rename_i hd hi
    split
    · exact registers_finishChunk hG ho₁ hi (hbuilder hd hi)
    · exact Outcome.post_panicked (registers_dropChunk hG ho₁ hi)

lemma registers_allocWithChunk {init : Closure} (hG : Basic G)
    (hfail : reply = none → G j .fail) (ho : Owned w.idle) (hget : w.pools.get j = some p)
    (howner : p.owner = .chunkPool l c) :
    KeepsRegisters G w (w.allocWithChunk j tenant p size init reply) := by
  refine registers_allocChunkThen hG hfail ho hget howner ?_
  intro i w₁ ho₁ hbuilder
  split
  · trivial
  · rename_i hd hi
    exact registers_finishChunk hG ho₁ hi (hbuilder hd hi)

lemma registers_allocWithLenChunk {init : Closure} (hG : Basic G)
    (hfail : reply = none → G j .fail) (ho : Owned w.idle) (hget : w.pools.get j = some p)
    (howner : p.owner = .chunkPool l c) :
    KeepsRegisters G w (w.allocWithLenChunk j tenant p size init reply) := by
  refine registers_allocChunkThen hG hfail ho hget howner ?_
  intro i w₁ ho₁ hbuilder
  split
  · trivial
  · rename_i hd hi
    exact registers_finishChunk hG ho₁ hi (hbuilder hd hi)

lemma registers_appendChunk (happend : w.appendChunk i h data = .ok w') :
    Registers G w 0 w' 0 := by
  unfold World.appendChunk at happend
  split at happend
  · exact absurd happend (by simp)
  · obtain rfl := Except.ok.inj happend
    exact (registers_storeChunk : Registers _ w 0 (w.storeChunk h h.len data) 0)

lemma registers_setLenChunk {len : ℕ} : KeepsRegisters G w (w.setLenChunk i h len) := by
  unfold World.setLenChunk
  split
  · exact Outcome.post_done (.of_eq fun _ => rfl)
  · exact Outcome.post_panicked registers_refl

lemma registers_writeChunk {pos : ℕ} : KeepsRegisters G w (w.writeChunk h pos data) := by
  unfold World.writeChunk
  split
  · exact Outcome.post_done registers_storeChunk
  · exact Outcome.post_panicked registers_refl

lemma registers_cloneChunk (hclone : w.cloneChunk i h = some w') : Registers G w 0 w' 0 := by
  unfold World.cloneChunk at hclone
  split at hclone
  · exact absurd hclone (by simp)
  · obtain rfl := Option.some.inj hclone
    exact .of_eq fun _ => rfl

end Chunks

/-! ## Runs -/

/-- The reply to a request for one page. -/
def Op.reply : Op → Option (Option ℕ)
  | .allocatePage _ _ reply => some reply
  | .allocFromPage _ _ _ reply => some reply
  | .allocWithPage _ _ _ reply => some reply
  | .allocWithLenPage _ _ _ reply => some reply
  | .allocateChunk _ _ _ _ reply => some reply
  | .allocFromChunk _ _ _ reply => some reply
  | .allocWithChunk _ _ _ _ reply => some reply
  | .allocWithLenChunk _ _ _ _ reply => some reply
  | _ => none

/-- What an operation may do to the pages of the pool `id`, apart from taking and returning them:
only `prewarm` brings in pages ahead of time, and leaves those uncounted that it got before the
source refused one; only an operation that is refused a page fails; and only the drop of the
owner releases pages, those of the local list. -/
def World.Permits (w : World) (op : Op) (id : ℕ) : Label → Prop
  | .prewarm n => ∃ replies, op = .prewarm id replies ∧ none ∉ replies ∧ replies.length = n
  | .leak k => ∃ pre rest, op = .prewarm id (pre ++ none :: rest) ∧ none ∉ pre ∧ pre.length = k
  | .fail => op.reply = some none
  | .close k => op = .dropPool id ∧ ∀ p, w.pools.get id = some p → p.owner.localHead = 0 → k = 0
  | _ => True

section Runs

variable {w w' : World} {op : Op} {ops : List Op} {id : ℕ}

lemma basic_permits : Basic (w.Permits op) :=
  ⟨fun _ => trivial, fun _ _ _ => trivial, fun _ _ => trivial, fun _ => trivial⟩

/-- The step of an operation on a `PagePool`. -/
lemma registers_onPagePool {α : Type} {f : Pool → Outcome World α} {G : ℕ → Label → Prop}
    (hf : ∀ p l, w.pools.get id = some p → p.owner = .pagePool l → KeepsRegisters G w (f p))
    (h : ((w.pagePool id).bind fun p => (f p).final) = some w') : Registers G w 0 w' 0 := by
  obtain ⟨p, hp, hfinal⟩ := Option.bind_eq_some_iff.1 h
  obtain ⟨hget, l, howner⟩ := World.pagePool_eq_some hp
  exact (hf p l hget howner).final hfinal

/-- The step of an operation on a `ChunkPool`. -/
lemma registers_onChunkPool {α : Type} {f : Pool → Outcome World α} {G : ℕ → Label → Prop}
    (hf : ∀ p l c, w.pools.get id = some p → p.owner = .chunkPool l c → KeepsRegisters G w (f p))
    (h : ((w.chunkPool id).bind fun p => (f p).final) = some w') : Registers G w 0 w' 0 := by
  obtain ⟨p, hp, hfinal⟩ := Option.bind_eq_some_iff.1 h
  obtain ⟨hget, l, c, howner⟩ := World.chunkPool_eq_some hp
  exact (hf p l c hget howner).final hfinal

lemma registers_dropPool {p : Pool} (ho : Owned w.idle) (hget : w.pools.get id = some p)
    (h : w.dropPool id p = some w') : Registers (w.Permits (.dropPool id)) w 0 w' 0 := by
  have hclose : ∀ k, (p.owner.localHead = 0 → k = 0) →
      w.Permits (.dropPool id) id (.close k) := by
    intro k hk
    refine ⟨rfl, fun p' hget' => ?_⟩
    obtain rfl := Option.some.inj (hget.symm.trans hget')
    exact hk
  unfold World.dropPool at h
  split at h
  · rename_i howner
    obtain rfl := Option.some.inj h
    exact registers_dropPagePool basic_permits ho hget (Owner.live_of_pagePool howner) hclose
  · rename_i howner
    obtain rfl := Option.some.inj h
    exact registers_dropChunkPool basic_permits ho hget howner hclose
  · exact absurd h (by simp)

/-- Who clones a shared half refers to the pool, as its owner or from outside the crate. -/
lemma exists_sharedPool (ho : Owned w.idle)
    (h : (w.pagePool id).isSome ∨ (w.chunkPool id).isSome ∨ 0 < w.sharedHandles id) :
    ∃ p, w.pools.get id = some p := by
  rcases or_assoc.2 h with hsome | hpos
  · obtain ⟨p, hget, -⟩ := exists_livePool hsome
    exact ⟨p, hget⟩
  · exact (ho.move (.takeShared hpos)).pool_of_shared

/-- **Refinement.** Every operation of the crate is a sequence of moves on every register. -/
theorem registers_step (ho : Owned w.idle) (h : w.step op = some w') :
    Registers (w.Permits op) w 0 w' 0 := by
  have hG : Basic (w.Permits op) := basic_permits
  cases op with
  | newPagePool ps => exact KeepsRegisters.final (registers_newPool hG) h
  | newChunkPool ps => exact KeepsRegisters.final (registers_newPool hG) h
  | prewarm id replies =>
      simp only [World.step, Option.ite_none_right_eq_some] at h
      obtain ⟨p, hget, hlive⟩ := exists_livePool h.1
      refine KeepsRegisters.final (registers_prewarm hget hlive (fun hnone => ?_) ?_) h.2
      · exact ⟨replies, rfl, hnone, rfl⟩
      · rintro pre rest rfl hnone
        exact ⟨pre, rest, rfl, hnone, rfl⟩
  | dropPool id =>
      obtain ⟨p, hget, h⟩ := Option.bind_eq_some_iff.1 h
      exact registers_dropPool ho hget h
  | cloneShared id =>
      simp only [World.step, Option.ite_none_right_eq_some] at h
      obtain rfl := Option.some.inj h.2
      obtain ⟨p, hget⟩ := exists_sharedPool ho h.1
      exact (registers_cloneShared hget).trans (.of_eq fun _ => rfl)
  | dropSharedHandle id =>
      simp only [World.step, Option.ite_none_right_eq_some] at h
      obtain rfl := Option.some.inj h.2
      have htake := Move.takeShared (B := 0) (S := 0) (P := 0) h.1
      exact registers_dropShared hG (ho.move htake)
  | allocatePage id t reply =>
      refine registers_onPagePool (fun p l hget howner => ?_) h
      exact registers_allocatePage hG (congrArg some) ho hget (Owner.live_of_pagePool howner)
  | allocFromPage id t data reply =>
      exact registers_onPagePool (fun p l => registers_allocFromPage hG (congrArg some) ho) h
  | allocWithPage id t init reply =>
      exact registers_onPagePool (fun p l => registers_allocWithPage hG (congrArg some) ho) h
  | allocWithLenPage id t init reply =>
      exact registers_onPagePool (fun p l => registers_allocWithLenPage hG (congrArg some) ho) h
  | appendPage i data =>
      obtain ⟨hd, hi, h⟩ := Option.bind_eq_some_iff.1 h
      split at h
      · rename_i happend
        obtain rfl := Option.some.inj h
        exact registers_appendPage (World.pageBuilder_eq_some hi).1 happend
      · obtain rfl := Option.some.inj h
        exact registers_refl
  | setLenPage i len =>
      obtain ⟨hd, hi, h⟩ := Option.bind_eq_some_iff.1 h
      exact (registers_setLenPage (World.pageBuilder_eq_some hi).1).final h
  | writePage i pos data =>
      obtain ⟨hd, hi, h⟩ := Option.bind_eq_some_iff.1 h
      exact registers_writePage.final h
  | sealPage i =>
      obtain ⟨hd, hi, rfl⟩ := Option.map_eq_some_iff.1 h
      exact registers_sealPage hG ho (World.pageBuilder_eq_some hi).1
  | clonePage i =>
      obtain ⟨hd, hget, h⟩ := Option.bind_eq_some_iff.1 h
      exact registers_clonePage hget h
  | dropPage i =>
      obtain ⟨hd, hget, rfl⟩ := Option.map_eq_some_iff.1 h
      exact registers_dropPage hG ho hget
  | allocateChunk id t size align reply =>
      exact registers_onChunkPool (fun p l c => registers_allocateAligned hG (congrArg some) ho) h
  | allocFromChunk id t data reply =>
      exact registers_onChunkPool (fun p l c => registers_allocFromChunk hG (congrArg some) ho) h
  | allocWithChunk id t size init reply =>
      exact registers_onChunkPool (fun p l c => registers_allocWithChunk hG (congrArg some) ho) h
  | allocWithLenChunk id t capacity init reply =>
      exact registers_onChunkPool
        (fun p l c => registers_allocWithLenChunk hG (congrArg some) ho) h
  | appendChunk i data =>
      obtain ⟨hd, hi, h⟩ := Option.bind_eq_some_iff.1 h
      split at h
      · rename_i happend
        obtain rfl := Option.some.inj h
        exact registers_appendChunk happend
      · obtain rfl := Option.some.inj h
        exact registers_refl
  | setLenChunk i len =>
      obtain ⟨hd, hi, h⟩ := Option.bind_eq_some_iff.1 h
      exact registers_setLenChunk.final h
  | writeChunk i pos data =>
      obtain ⟨hd, hi, h⟩ := Option.bind_eq_some_iff.1 h
      exact registers_writeChunk.final h
  | sealChunk i =>
      obtain ⟨hd, hi, rfl⟩ := Option.map_eq_some_iff.1 h
      obtain ⟨hget, hbuilder⟩ := World.chunkBuilder_eq_some hi
      exact registers_sealChunk hG ho hget hbuilder
  | cloneChunk i =>
      obtain ⟨hd, hget, h⟩ := Option.bind_eq_some_iff.1 h
      exact registers_cloneChunk h
  | dropChunk i =>
      obtain ⟨hd, hget, rfl⟩ := Option.map_eq_some_iff.1 h
      exact registers_dropChunk hG ho hget

/-- No page of the pool is left uncounted by a `prewarm` that panics. -/
def NoLeak (id : ℕ) (w : World) (op : Op) : Prop := ∀ k, w.Permits op id (.leak k) → k = 0

/-- The source refuses no page. -/
def NoFail (id : ℕ) (w : World) (op : Op) : Prop := ¬ w.Permits op id .fail

/-- The owner of the pool is not dropped with pages on its local list. -/
def NoClose (id : ℕ) (w : World) (op : Op) : Prop := ∀ k, w.Permits op id (.close k) → k = 0

variable {u f c : ℕ}

lemma tally_init (id : ℕ) : Register.Tally 0 0 0 (World.init.register 0 id) where
  unborn _ := by
    refine ⟨⟨rfl, rfl, rfl, rfl, rfl, ?_⟩, rfl, rfl⟩
    show World.init.held 0 id = 0
    simp [World.held, World.init]
  obtained := rfl
  held := by
    show (World.init.held 0 id).card = 0
    simp [World.held, World.init]
  balance := rfl
  places a := by
    show 0 = 0 + (World.init.held 0 id).count a
    simp [World.held, World.init]
  whole h := absurd h (by simp [World.register, World.init, Arena.val])
  released h := absurd h (by simp [World.register, World.init])
  counts st h := absurd h (by simp [World.register, World.init])
  recycles id a fresh s hs := by
    exact absurd (List.suffix_nil.1 hs) (by simp)
  alternates a s hs := by
    obtain rfl := List.suffix_nil.1 hs
    exact ⟨Nat.le_refl 0, Nat.le_succ 0⟩

/-- **The register is in order along every run**, and what the operations rule out has not
happened. -/
theorem tally_run {ops : List Op} (ho : Owned w.idle)
    (ht : Register.Tally u f c (w.register 0 id)) (h : run World.step w ops = some w') :
    ∃ u' f' c', Register.Tally u' f' c' (w'.register 0 id) ∧ u ≤ u' ∧
      (Always World.step (NoLeak id) w ops → u' = u) ∧
      (Always World.step (NoFail id) w ops → f' = f) ∧
      (Always World.step (NoClose id) w ops → c' = c) := by
  induction ops generalizing w u f c with
  | nil =>
      obtain rfl : w = w' := by simpa using h
      exact ⟨u, f, c, ht, Nat.le_refl u, fun _ => rfl, fun _ => rfl, fun _ => rfl⟩
  | cons op ops ih =>
      obtain ⟨w₁, hstep, hrest⟩ := run_cons_eq_some.1 h
      obtain ⟨u₁, f₁, c₁, ht₁, hle₁, hu₁, hf₁, hc₁⟩ := ht.moves (registers_step ho hstep id)
      obtain ⟨u₂, f₂, c₂, ht₂, hle₂, hu₂, hf₂, hc₂⟩ :=
        ih (ho.moves (custody_step ho hstep)) ht₁ hrest
      simp only [Always, hstep]
      refine ⟨u₂, f₂, c₂, ht₂, hle₁.trans hle₂, ?_, ?_, ?_⟩
      · rintro ⟨hfirst, hothers⟩
        exact (hu₂ hothers).trans (hu₁ hfirst)
      · rintro ⟨hfirst, hothers⟩
        exact (hf₂ hothers).trans (hf₁ hfirst)
      · rintro ⟨hfirst, hothers⟩
        exact (hc₂ hothers).trans (hc₁ hfirst)

end Runs

end PagedAlloc.Sequential
