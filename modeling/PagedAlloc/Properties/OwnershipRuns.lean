import PagedAlloc.Construction.Alignment
import PagedAlloc.Construction.Ledger
import PagedAlloc.Properties.Ownership

/-!
# Every operation keeps custody

The refinement between the crate and the machine of `Construction/Custody.lean`: from a state in
which everything is in its place, every operation is a sequence of moves (`custody_step`).  So no
operation looks for a pool, a page or a buffer that is gone, no walk over a free list is cut
short, and the invariant holds in every reachable state (`owned_run`).

The lemmas follow the functions of the model: one for each, saying what it takes from the hands
of the running operation and what it leaves there.
-/

namespace PagedAlloc.Sequential

open Words Bytes Intrusive Relation Transition

section Pools

variable {w w' : World} {B : Multiset (ℕ × ℕ)} {S P : Multiset ℕ} {id a : ℕ} {p : Pool}

lemma custody_accessPool {x : PoolAccess} (hget : w.pools.get id = some p) :
    Moves ⟨w, B, S, P⟩ ⟨w.accessPool id x, B, S, P⟩ := by
  unfold World.accessPool
  rw [hget]
  exact .single (.stats hget _)

lemma custody_cloneShared (hget : w.pools.get id = some p) :
    Moves ⟨w, B, S, P⟩ ⟨w.cloneShared id, B, id ::ₘ S, P⟩ := by
  unfold World.cloneShared
  rw [hget]
  exact .single (.cloneShared hget)

lemma custody_pushReturn (ho : Owned ⟨w, (id, a) ::ₘ B, S, P⟩) :
    Moves ⟨w, (id, a) ::ₘ B, S, P⟩ ⟨w.pushReturn id a, B, S, P⟩ := by
  obtain ⟨p, hget⟩ := ho.places.live id a (Multiset.mem_cons_self _ _)
  unfold World.pushReturn
  rw [hget]
  exact .head (.pushReturn hget _) (.single (.record _))

/-! ## Walks over free lists -/

lemma giveBack_eq {o : Origin} {l : Layout} (hmem : ⟨a, l, o⟩ ∈ w.blocks) :
    w.giveBack o l a = w.releaseAll o l [a] := by
  unfold World.giveBack World.releaseAll
  rw [if_pos hmem]
  simp only [List.map_cons, List.map_nil, List.reverse_singleton, List.singleton_append,
    Multiset.coe_singleton, Multiset.sub_singleton]

/-- The walk ends, and releases the buffers of the list one after the other. -/
lemma releaseChain_eq {o : Origin} {l : Layout} {head fuel : ℕ} {as : List ℕ}
    (hchain : Chain 0 (readPtr w.mem) head as) (hfuel : as.length ≤ fuel)
    (hle : ((as.map fun a => ⟨a, l, o⟩ : List Block) : Multiset Block) ≤ w.blocks) :
    World.releaseChain o l fuel w head = w.releaseAll o l as := by
  induction as generalizing w head fuel with
  | nil =>
      obtain rfl := chain_nil_iff.1 hchain
      have hnone : w.releaseAll o l [] = w := by
        unfold World.releaseAll
        simp
      rw [hnone]
      cases fuel <;> simp [World.releaseChain]
  | cons b as ih =>
      cases hchain with
      | cons hne htail =>
          obtain ⟨fuel, rfl⟩ : ∃ n, fuel = n + 1 := ⟨fuel - 1, by simp at hfuel; omega⟩
          rw [List.map_cons, ← Multiset.cons_coe] at hle
          have hmem : (⟨b, l, o⟩ : Block) ∈ w.blocks :=
            Multiset.mem_of_le hle (Multiset.mem_cons_self _ _)
          rw [World.releaseChain, if_neg hne, giveBack_eq hmem]
          have hle' : ((as.map fun a => ⟨a, l, o⟩ : List Block) : Multiset Block) ≤
              (w.releaseAll o l [b]).blocks := by
            have herase := Multiset.erase_le_erase (⟨b, l, o⟩ : Block) hle
            rw [Multiset.erase_cons_head, ← Multiset.sub_singleton] at herase
            exact herase
          rw [ih (w := w.releaseAll o l [b]) htail (by simpa using hfuel) hle']
          unfold World.releaseAll
          simp only [List.map_cons, List.map_nil, ← Multiset.cons_coe, Multiset.coe_nil,
            Multiset.sub_cons, Multiset.sub_zero, List.reverse_cons, List.reverse_nil,
            List.nil_append, List.singleton_append, List.append_assoc]
          rfl

/-- The buffers on the lists of a pool are live. -/
lemma map_le_blocks {mem : Memory} {blocks : Multiset Block} {pools : Arena Pool}
    {packed : Arena PackedInner} {pages : Arena PageHandle}
    (hp : Places mem blocks pools packed pages B) (hget : pools.get id = some p) :
    ∃ l r, Chain 0 (readPtr mem) p.owner.localHead l ∧ Chain 0 (readPtr mem) p.returnHead r ∧
      ((l.map fun a => ⟨a, p.layout, .pool id⟩ : List Block) : Multiset Block) ≤ blocks ∧
      ((r.map fun a => ⟨a, p.layout, .pool id⟩ : List Block) : Multiset Block) ≤ blocks := by
  obtain ⟨free, ⟨l, r, hl, hr, rfl⟩, hcount⟩ := hp.lists id p hget
  have hle : ∀ as : List ℕ, (∀ a, as.count a ≤ (l ++ r).count a) →
      ((as.map fun a => ⟨a, p.layout, .pool id⟩ : List Block) : Multiset Block) ≤ blocks := by
    intro as has
    apply Multiset.le_iff_count.2
    intro b
    obtain ⟨a, l', o'⟩ := b
    rw [Multiset.coe_count]
    by_cases hb : l' = p.layout ∧ o' = .pool id
    · obtain ⟨rfl, rfl⟩ := hb
      rw [hcount a, Multiset.coe_count, List.count_map_of_injective as
        (fun a => (⟨a, p.layout, .pool id⟩ : Block)) fun x y hxy => congrArg Block.base hxy]
      have := has a
      omega
    · rw [List.count_eq_zero.2]
      · exact Nat.zero_le _
      · intro hmem
        obtain ⟨x, -, hx⟩ := List.mem_map.1 hmem
        obtain ⟨-, hl, ho⟩ := Block.mk.inj hx
        exact hb ⟨hl.symm, ho.symm⟩
  refine ⟨l, r, hl, hr, hle l fun a => ?_, hle r fun a => ?_⟩
  · rw [List.count_append]
    omega
  · rw [List.count_append]
    omega

/-- A walk over a list of live buffers does not run out of fuel. -/
lemma length_le_card {blocks : Multiset Block} {l : Layout} {o : Origin} {as : List ℕ}
    (hle : ((as.map fun a => ⟨a, l, o⟩ : List Block) : Multiset Block) ≤ blocks) :
    as.length ≤ blocks.card := by
  have := Multiset.card_le_card hle
  rwa [Multiset.coe_card, List.length_map] at this

/-! ## Dropping references -/

lemma Owned.pool_of_shared (ho : Owned ⟨w, B, id ::ₘ S, P⟩) : ∃ p, w.pools.get id = some p := by
  cases hget : w.pools.get id with
  | some p => exact ⟨p, rfl⟩
  | none =>
      have hcount := ho.references.sharedCount id
      dsimp only at hcount
      rw [Arena.val_of_none hget, Multiset.count_cons_self] at hcount
      omega

lemma custody_dropShared (ho : Owned ⟨w, B, id ::ₘ S, P⟩) (hnone : ∀ a, (id, a) ∉ B) :
    Moves ⟨w, B, id ::ₘ S, P⟩ ⟨w.dropShared id, B, S, P⟩ := by
  obtain ⟨p, hget⟩ := ho.pool_of_shared
  unfold World.dropShared
  rw [hget]
  dsimp only
  split
  · rename_i hlast
    obtain ⟨l, r, -, hr, -, hle⟩ := map_le_blocks ho.places hget
    rw [releaseChain_eq hr (length_le_card hle) hle]
    exact .single (.freeShared hget hlast hnone hr)
  · rename_i hshared
    exact .single (.dropShared hget hshared)

variable {arc : PackedArc}

lemma Owned.packed_of_held (ho : Owned ⟨w, B, S, arc.id ::ₘ P⟩) :
    ∃ q, w.packed.get arc.id = some q := by
  cases hget : w.packed.get arc.id with
  | some q => exact ⟨q, rfl⟩
  | none =>
      have hcount := ho.references.packedCount arc.id
      dsimp only at hcount
      rw [Arena.val_of_none hget, Multiset.count_cons_self] at hcount
      omega

lemma custody_clonePacked {q : PackedInner} (hget : w.packed.get arc.id = some q) :
    Moves ⟨w, B, S, P⟩ ⟨w.clonePacked arc, B, S, arc.id ::ₘ P⟩ := by
  unfold World.clonePacked
  rw [hget]
  exact .single (.clonePacked hget)

/-- The buffer and the reference of a handle go back to the pool. -/
lemma custody_release (ho : Owned ⟨w, (id, a) ::ₘ 0, id ::ₘ S, P⟩) :
    Moves ⟨w, (id, a) ::ₘ 0, id ::ₘ S, P⟩ ⟨(w.pushReturn id a).dropShared id, 0, S, P⟩ := by
  have hpush := custody_pushReturn ho
  have hdrop := custody_dropShared (ho.moves hpush) fun a => Multiset.notMem_zero _
  exact hpush.trans hdrop

lemma dropPacked_last {q : PackedInner} (hget : w.packed.get arc.id = some q)
    (hlast : q.strong = 1) :
    w.dropPacked arc = World.releasePacked { w with packed := w.packed.erase arc.id } q.page := by
  unfold World.dropPacked
  rw [hget]
  dsimp only
  rw [if_pos hlast]

lemma dropPacked_shared {q : PackedInner} (hget : w.packed.get arc.id = some q)
    (hshared : q.strong ≠ 1) : w.dropPacked arc =
      { w with packed := w.packed.set arc.id { q with strong := q.strong - 1 } } := by
  unfold World.dropPacked
  rw [hget]
  dsimp only
  rw [if_neg hshared]

/-- What the drop of a reference to a packed page can do: there are others, or the page goes back
to its pool, or its allocation is freed. -/
inductive Dropped (w : World) (arc : PackedArc) : World → Prop
  | shared {q : PackedInner} (get : w.packed.get arc.id = some q) (ne : q.strong ≠ 1) :
      Dropped w arc { w with packed := w.packed.set arc.id { q with strong := q.strong - 1 } }
  | pool {id a : ℕ} (get : w.packed.get arc.id = some ⟨⟨a, .pool id⟩, 1⟩) :
      Dropped w arc
        ((World.pushReturn { w with packed := w.packed.erase arc.id } id a).dropShared id)
  | heap {l : Layout} {a : ℕ} (get : w.packed.get arc.id = some ⟨⟨a, .heap l⟩, 1⟩)
      (mem : ⟨a, l, .heap⟩ ∈ w.blocks) :
      Dropped w arc { w.releaseAll .heap l [a] with packed := w.packed.erase arc.id }

lemma dropped_dropPacked (ho : Owned ⟨w, B, S, arc.id ::ₘ P⟩) :
    Dropped w arc (w.dropPacked arc) := by
  obtain ⟨⟨⟨a, release⟩, strong⟩, hget⟩ := ho.packed_of_held
  by_cases hlast : strong = 1
  · subst hlast
    rw [dropPacked_last hget rfl]
    cases release with
    | pool id => exact .pool hget
    | heap l =>
        obtain ⟨hmem, -⟩ := ho.mem_of_packed (pageOf_of_get hget)
        have hback : World.releasePacked { w with packed := w.packed.erase arc.id }
            ⟨a, .heap l⟩ = { w.releaseAll .heap l [a] with packed := w.packed.erase arc.id } :=
          giveBack_eq hmem
        rw [hback]
        exact .heap hget hmem
  · rw [dropPacked_shared hget hlast]
    exact .shared hget hlast

lemma custody_dropPacked (ho : Owned ⟨w, 0, S, arc.id ::ₘ P⟩) :
    Moves ⟨w, 0, S, arc.id ::ₘ P⟩ ⟨w.dropPacked arc, 0, S, P⟩ := by
  have hdropped := dropped_dropPacked ho
  generalize w.dropPacked arc = w' at hdropped ⊢
  cases hdropped with
  | shared hget hshared => exact .single (.dropPacked hget hshared)
  | @pool id a hget =>
      have hfree : Move ⟨w, 0, S, arc.id ::ₘ P⟩
          ⟨{ w with packed := w.packed.erase arc.id }, (id, a) ::ₘ 0, id ::ₘ S, P⟩ :=
        .freePacked hget
      exact (ReflTransGen.single hfree).trans (custody_release (ho.move hfree))
  | heap hget hmem => exact .single (.freeHeap hget)

lemma custody_dropOptional {q : Option PackedArc} (ho : Owned ⟨w, 0, S, heldIds q + P⟩) :
    Moves ⟨w, 0, S, heldIds q + P⟩ ⟨w.dropOptional q, 0, S, P⟩ := by
  cases q with
  | none =>
      unfold heldIds
      rw [Multiset.zero_add]
      exact .refl
  | some arc =>
      unfold heldIds at ho ⊢
      rw [Multiset.singleton_add] at ho ⊢
      exact custody_dropPacked ho

/-! ## Taking a buffer -/

variable {reply : Option ℕ}

/-- What `allocate_raw_page` leaves as it was in a pool. -/
def Pool.Kept (p p' : Pool) : Prop :=
  p'.pageSize = p.pageSize ∧ ∃ l, p'.owner = p.owner.setLocalHead l

/-- The running operation holds a buffer of the pool and the references `S` to it. -/
def Takes (w : World) (id : ℕ) (p : Pool) (S : Multiset ℕ) (o : Outcome World ℕ) : Prop :=
  o.Post (fun a w' => Moves w.idle ⟨w', (id, a) ::ₘ 0, S, 0⟩ ∧
    ∃ p', w'.pools.get id = some p' ∧ p.Kept p') fun w' => Moves w.idle w'.idle

lemma popLocal_eq_some {mem : Memory} {p' : Pool} (h : p.popLocal mem = some (a, p')) :
    p.owner.localHead ≠ 0 ∧ a = p.owner.localHead ∧
      p' = { p with
        owner := p.owner.setLocalHead (readPtr mem p.owner.localHead), stats := p'.stats } := by
  unfold Pool.popLocal at h
  split at h
  · exact absurd h (by simp)
  · rename_i hne
    obtain ⟨rfl, rfl⟩ := Prod.mk.inj (Option.some.inj h)
    exact ⟨hne, rfl, rfl⟩

lemma custody_sourceAllocate (hget : w.pools.get id = some p) :
    (w.sourceAllocate id p.layout reply).Post
      (fun a w' => Moves w.idle ⟨w', (id, a) ::ₘ 0, 0, 0⟩ ∧ w'.pools = w.pools ∧
        ∀ x, a ≤ x → x < a + p.pageSize → w'.mem x = 0)
      fun w' => Moves w.idle w'.idle := by
  apply World.post_sourceAllocate
  · exact fun a hsupplies => ⟨.single (.supply hget hsupplies), rfl,
      fun x hlow hhigh => if_pos ⟨hlow, hhigh⟩⟩
  · exact fun hreply => .refl

lemma custody_popLocal {p' : Pool} (hget : w.pools.get id = some p)
    (hpop : p.popLocal w.mem = some (a, p')) :
    Moves w.idle ⟨{ w with pools := w.pools.set id p' }, (id, a) ::ₘ 0, 0, 0⟩ ∧ p.Kept p' := by
  obtain ⟨hne, rfl, hp'⟩ := popLocal_eq_some hpop
  rw [hp']
  exact ⟨.single (.popLocal hget hne _), rfl, _, rfl⟩

lemma custody_takeBuffer (hget : w.pools.get id = some p) (hlive : p.owner.Live) :
    Takes w id p 0 (w.takeBuffer id p reply) := by
  unfold World.takeBuffer
  split
  · rename_i a p' hpop
    obtain ⟨hmoves, hkept⟩ := custody_popLocal hget hpop
    refine Outcome.post_done ⟨hmoves, p', ?_, hkept⟩
    exact Arena.get_set_self hget
  · rename_i hempty
    split
    · rename_i a p' hdrain
      unfold Pool.drainReturnQueue at hdrain
      split at hdrain
      · exact absurd hdrain (by simp)
      · -- The return queue becomes the local list, which is then popped.
        have hlocal : p.owner.localHead = 0 := by
          unfold Pool.popLocal at hempty
          split at hempty
          · rename_i hzero
            exact hzero
          · exact absurd hempty (by simp)
        have hmove := Move.drain (B := 0) (S := 0) (P := 0) hget hlive hlocal
          (p.access .addReturnQueueDrains).stats
        have hget' := (Arena.get_set (b := { p with
          returnHead := 0, owner := p.owner.setLocalHead p.returnHead,
          stats := (p.access .addReturnQueueDrains).stats }) (j := id) hget).trans (if_pos rfl)
        obtain ⟨hmoves, hsize, l, howner⟩ := custody_popLocal (w := { w with
          pools := w.pools.set id { p with
            returnHead := 0, owner := p.owner.setLocalHead p.returnHead,
            stats := (p.access .addReturnQueueDrains).stats } }) hget' hdrain
        dsimp only at hmoves howner
        rw [Arena.set_set] at hmoves
        refine Outcome.post_done ⟨.head hmove hmoves, p', ?_, hsize, l, ?_⟩
        · exact Arena.get_set_self hget
        · rw [howner, Owner.setLocalHead_setLocalHead]
    · have hstats : Moves w.idle ({ w with
          pools := w.pools.set id (p.access (.addAllocationsFromHeap 1)) } : World).idle :=
        .single (.stats hget _)
      have hget' := (Arena.get_set (b := p.access (.addAllocationsFromHeap 1)) (j := id)
        hget).trans (if_pos rfl)
      refine (custody_sourceAllocate (w := { w with
        pools := w.pools.set id (p.access (.addAllocationsFromHeap 1)) }) hget').mono ?_ ?_
      · rintro a w' ⟨hmoves, hpools, -⟩
        refine ⟨hstats.trans hmoves, p.access (.addAllocationsFromHeap 1), ?_, rfl, ?_⟩
        · rw [hpools]
          exact hget'
        · exact ⟨p.owner.localHead, Owner.setLocalHead_localHead.symm⟩
      · exact fun w' hmoves => hstats.trans hmoves

lemma custody_allocateRawPage (hget : w.pools.get id = some p) (hlive : p.owner.Live) :
    Takes w id p (id ::ₘ 0) (w.allocateRawPage id reply) := by
  unfold World.allocateRawPage
  rw [hget]
  refine Outcome.Post.bind (custody_takeBuffer hget hlive) ?_
  rintro a w₁ ⟨hmoves, p₁, hget₁, hsize, l, howner⟩
  have hget₂ : (w₁.accessPool id .addPagesInUse).pools.get id =
      some (p₁.access .addPagesInUse) := by
    unfold World.accessPool
    rw [hget₁]
    exact Arena.get_set_self hget₁
  refine Outcome.post_done ⟨(hmoves.trans ((custody_accessPool hget₁).trans
    (custody_cloneShared hget₂))).tail (.record _), ?_⟩
  unfold World.cloneShared
  rw [hget₂]
  exact ⟨_, Arena.get_set_self hget₂, hsize, l, howner⟩

end Pools

/-! ## Page pools and pages -/

section Pages

variable {w w' : World} {id i tenant : ℕ} {p : Pool} {reply : Option ℕ} {h : PageHandle}
  {α β : Type}

/-- The program is a sequence of moves from one idle state to another, returning or panicking. -/
def KeepsCustody (w : World) (o : Outcome World α) : Prop :=
  o.Post (fun _ w' => Moves w.idle w'.idle) fun w' => Moves w.idle w'.idle

lemma KeepsCustody.bind {o : Outcome World α} {f : α → World → Outcome World β}
    (ho : Owned w.idle) (h : KeepsCustody w o)
    (hf : ∀ a w', Owned w'.idle → KeepsCustody w' (f a w')) : KeepsCustody w (o.bind f) := by
  refine Outcome.Post.bind h ?_
  intro a w' hw'
  exact (hf a w' (ho.moves hw')).mono (fun _ _ h => hw'.trans h) fun _ h => hw'.trans h

lemma KeepsCustody.final {o : Outcome World α} (h : KeepsCustody w o)
    (hw' : o.final = some w') : Moves w.idle w'.idle := by
  unfold KeepsCustody at h
  exact h.final (P := fun w' => Moves w.idle w'.idle) hw'

lemma custody_newPool {pageSize : ℕ} {chunked : Bool} :
    KeepsCustody w (w.newPool pageSize chunked) := by
  unfold World.newPool
  split
  · rename_i hcheck
    refine Outcome.post_done (.single (.newPool hcheck.1 hcheck.2 ?_))
    cases chunked
    · exact Or.inl rfl
    · exact Or.inr rfl
  · exact Outcome.post_panicked .refl

lemma custody_prewarmLoop {replies : List (Option ℕ)} (hget : w.pools.get id = some p)
    (hlive : p.owner.Live) : (World.prewarmLoop id replies w).Post
      (fun _ w' => Moves w.idle w'.idle ∧ ∃ p', w'.pools.get id = some p')
      fun w' => Moves w.idle w'.idle := by
  induction replies generalizing w p with
  | nil => exact ⟨.refl, p, hget⟩
  | cons reply replies ih =>
      unfold World.prewarmLoop
      rw [hget]
      refine Outcome.Post.bind (custody_sourceAllocate hget) ?_
      rintro a w₁ ⟨hmoves, hpools, hzeroed⟩
      have hget₁ : w₁.pools.get id = some p := by
        rw [hpools]
        exact hget
      have hlink := (hmoves.tail (.prefault hget₁ hzeroed)).tail (.linkLocal hget₁ hlive)
      have hrest := ih (w := { (w₁.prefault id a).storePtr a p.owner.localHead with
        pools := w₁.pools.set id { p with owner := p.owner.setLocalHead a } })
        (Arena.get_set_self hget₁) (Owner.live_setLocalHead hlive)
      refine hrest.mono (fun _ w' hw' => ?_) fun w' hw' => ?_
      · exact ⟨hlink.trans hw'.1, hw'.2⟩
      · exact hlink.trans hw'

lemma custody_prewarm {replies : List (Option ℕ)} (hget : w.pools.get id = some p)
    (hlive : p.owner.Live) : KeepsCustody w (w.prewarm id replies) := by
  refine Outcome.Post.bind (custody_prewarmLoop hget hlive) ?_
  rintro _ w₁ ⟨hmoves, p₁, hget₁⟩
  have haccess : ∀ (w : World) (p : Pool) (x : PoolAccess), w.pools.get id = some p →
      (w.accessPool id x).pools.get id = some (p.access x) := by
    intro w p x hget
    unfold World.accessPool
    rw [hget]
    exact Arena.get_set_self hget
  have hget₂ := haccess w₁ p₁ (.addAllocationsFromHeap replies.length) hget₁
  have hget₃ := haccess _ _ (.addFreePages replies.length) hget₂
  exact Outcome.post_done ((hmoves.trans ((custody_accessPool hget₁).trans
    ((custody_accessPool hget₂).trans (custody_accessPool hget₃)))).tail (.record _))

lemma custody_releaseLocal (ho : Owned w.idle) (hget : w.pools.get id = some p)
    (hlive : p.owner.Live) : Moves w.idle ⟨w.releaseLocal id p, 0, id ::ₘ 0, 0⟩ := by
  obtain ⟨l, r, hl, -, hle, -⟩ := map_le_blocks ho.places hget
  unfold World.releaseLocal
  rw [releaseChain_eq hl (length_le_card hle) hle]
  exact .single (.releaseLocal hget hlive hl)

lemma custody_dropPagePool (ho : Owned w.idle) (hget : w.pools.get id = some p)
    (hlive : p.owner.Live) : Moves w.idle (w.dropPagePool id p).idle := by
  have hrelease := custody_releaseLocal ho hget hlive
  exact hrelease.trans (custody_dropShared (ho.moves hrelease) fun a => Multiset.notMem_zero _)

lemma custody_allocatePage {l : ℕ} (hget : w.pools.get id = some p)
    (howner : p.owner = .pagePool l) : KeepsCustody w (w.allocatePage id tenant p reply) := by
  refine Outcome.Post.bind (custody_allocateRawPage hget (Owner.live_of_pagePool howner)) ?_
  rintro a w₁ ⟨hmoves, p₁, hget₁, hsize, l', howner₁⟩
  rw [howner] at howner₁
  refine Outcome.post_done (hmoves.trans ?_)
  have haccount : Move ⟨w₁, (id, a) ::ₘ 0, id ::ₘ 0, 0⟩ ⟨_, _, _, _⟩ :=
    .account (Function.update w₁.tenants tenant ((w₁.tenants tenant).recordAllocate p.pageSize))
      w₁.chunkStats (.page tenant id :: w₁.made)
  exact .head haccount (.single (.newPage (h := ⟨a, p.pageSize, 0, id, tenant, .builder⟩) hget₁
    howner₁ hsize.symm))

lemma custody_releasePage (ho : Owned w.idle) (hget : w.pages.get i = some h) :
    Moves w.idle (({ w with pages := w.pages.erase i } : World).releasePage h).idle := by
  have hremove : Moves w.idle ⟨{ w with pages := w.pages.erase i }, (h.pool, h.buf) ::ₘ 0,
      h.pool ::ₘ 0, 0⟩ := .single (.removePage hget)
  have haccount := hremove.tail (.account (Function.update w.tenants h.tenant
    ((w.tenants h.tenant).recordRelease h.capacity)) w.chunkStats w.made)
  exact haccount.trans (custody_release (ho.moves haccount))

lemma custody_dropPage (ho : Owned w.idle) (hget : w.pages.get i = some h) :
    Moves w.idle (w.dropPage i h).idle := by
  unfold World.dropPage
  split
  · exact custody_releasePage ho hget
  · exact custody_releasePage ho hget
  · exact .single (.setPage hget ⟨rfl, rfl, rfl⟩)

lemma custody_sealPage (ho : Owned w.idle) (hget : w.pages.get i = some h) :
    Moves w.idle (w.sealPage i h).idle := by
  obtain ⟨p, hp, -⟩ := Option.map_eq_some_iff.1 (ho.fits.page i h hget)
  have hclone : Moves w.idle ⟨w.cloneShared h.pool, 0, h.pool ::ₘ 0, 0⟩ := custody_cloneShared hp
  have hpages : (w.cloneShared h.pool).pages.get i = some h := by
    rw [show (w.cloneShared h.pool).pages = w.pages from congrArg Ledger.pages ledger_cloneShared]
    exact hget
  have hsame : h.SamePlace { h with refs := .sealed 1 } := ⟨rfl, rfl, rfl⟩
  have hset := hclone.tail (.setPage hpages hsame)
  exact hset.trans (custody_dropShared (ho.moves hset) fun a => Multiset.notMem_zero _)

lemma custody_finishPage {data : List UInt8} {len : Option ℕ} (ho : Owned w.idle) :
    KeepsCustody w (w.finishPage i data len) := by
  unfold World.finishPage
  split
  · trivial
  · rename_i h hget
    dsimp only
    have hwrite : Moves w.idle (w.store (h.buf + 0) (data.take h.capacity)).idle :=
      .single (.writePage hget (by rw [List.length_take]; omega))
    rw [Nat.add_zero] at hwrite
    have ho' := ho.moves hwrite
    split
    · exact Outcome.post_panicked (hwrite.trans (custody_dropPage ho' hget))
    · split
      · rename_i n hn
        have hsame : h.SamePlace { h with len := n } := ⟨rfl, rfl, rfl⟩
        have hset := hwrite.tail (.setPage (i := i) hget hsame)
        refine Outcome.post_done (hset.trans (custody_sealPage (ho.moves hset) ?_))
        exact Arena.get_set_self hget
      · exact Outcome.post_panicked (hwrite.trans (custody_dropPage ho' hget))

lemma custody_allocFromPage {l : ℕ} {data : List UInt8} (ho : Owned w.idle)
    (hget : w.pools.get id = some p) (howner : p.owner = .pagePool l) :
    KeepsCustody w (w.allocFromPage id tenant p data reply) := by
  unfold World.allocFromPage
  split
  · exact KeepsCustody.bind ho (custody_allocatePage hget howner) fun _ _ => custody_finishPage
  · exact Outcome.post_panicked .refl

lemma custody_allocWithPage {l : ℕ} {init : Closure} (ho : Owned w.idle)
    (hget : w.pools.get id = some p) (howner : p.owner = .pagePool l) :
    KeepsCustody w (w.allocWithPage id tenant p init reply) := by
  apply KeepsCustody.bind ho (custody_allocatePage hget howner)
  intro i w₁ ho₁
  dsimp only
  split
  · trivial
  · exact custody_finishPage ho₁

lemma custody_allocWithLenPage {l : ℕ} {init : Closure} (ho : Owned w.idle)
    (hget : w.pools.get id = some p) (howner : p.owner = .pagePool l) :
    KeepsCustody w (w.allocWithLenPage id tenant p init reply) := by
  apply KeepsCustody.bind ho (custody_allocatePage hget howner)
  intro i w₁ ho₁
  dsimp only
  split
  · trivial
  · exact custody_finishPage ho₁

lemma custody_appendPage {data : List UInt8} (hget : w.pages.get i = some h)
    (happend : w.appendPage i h data = .ok w') : Moves w.idle w'.idle := by
  unfold World.appendPage at happend
  split at happend
  · exact absurd happend (by simp)
  · rename_i hle
    obtain rfl := Except.ok.inj happend
    have hwrite : Move w.idle (w.store (h.buf + h.len) data).idle :=
      .writePage hget (by omega)
    have hsame : h.SamePlace { h with len := h.len + data.length } := ⟨rfl, rfl, rfl⟩
    exact .head hwrite (.single (.setPage hget hsame))

lemma custody_setLenPage {len : ℕ} (hget : w.pages.get i = some h) :
    KeepsCustody w (w.setLenPage i h len) := by
  unfold World.setLenPage
  split
  · exact Outcome.post_done (.single (.setPage hget ⟨rfl, rfl, rfl⟩))
  · exact Outcome.post_panicked .refl

lemma custody_writePage {pos : ℕ} {data : List UInt8} (hget : w.pages.get i = some h) :
    KeepsCustody w (w.writePage h pos data) := by
  unfold World.writePage
  split
  · rename_i hle
    exact Outcome.post_done (.single (.writePage hget hle))
  · exact Outcome.post_panicked .refl

lemma custody_clonePage (hget : w.pages.get i = some h) (hclone : w.clonePage i h = some w') :
    Moves w.idle w'.idle := by
  unfold World.clonePage at hclone
  split at hclone
  · exact absurd hclone (by simp)
  · obtain rfl := Option.some.inj hclone
    exact .single (.setPage hget ⟨rfl, rfl, rfl⟩)

end Pages

/-! ## Chunk pools -/

section ChunkPools

variable {w w' : World} {B : Multiset (ℕ × ℕ)} {S P : Multiset ℕ} {id i a tenant size align : ℕ}
  {p : Pool} {reply : Option ℕ} {arc : PackedArc}

/-- A pool whose owner is live stays, with its owner. -/
def KeepsOwner (w w' : World) : Prop :=
  ∀ id p, w.pools.get id = some p → p.owner.Live →
    ∃ p', w'.pools.get id = some p' ∧ p'.owner = p.owner ∧ p'.pageSize = p.pageSize

lemma KeepsOwner.trans {w₁ : World} (h : KeepsOwner w w₁) (h' : KeepsOwner w₁ w') :
    KeepsOwner w w' := by
  intro id p hget hlive
  obtain ⟨p₁, hget₁, howner₁, hsize₁⟩ := h id p hget hlive
  obtain ⟨p', hget', howner', hsize'⟩ := h' id p₁ hget₁ (by rwa [howner₁])
  exact ⟨p', hget', howner'.trans howner₁, hsize'.trans hsize₁⟩

/-- A change of one pool that leaves its owner alone. -/
lemma keepsOwner_set {p' : Pool} (hget : w.pools.get id = some p)
    (hpools : w'.pools = w.pools.set id p') (howner : p'.owner = p.owner)
    (hsize : p'.pageSize = p.pageSize) : KeepsOwner w w' := by
  intro j q hq _
  rw [hpools, Arena.get_set hget]
  split
  · rename_i hj
    subst hj
    obtain rfl := Option.some.inj (hq.symm.trans hget)
    exact ⟨p', rfl, howner, hsize⟩
  · exact ⟨q, hq, rfl, rfl⟩

lemma keepsOwner_pushReturn : KeepsOwner w (w.pushReturn id a) := by
  unfold World.pushReturn
  split
  · exact fun j q hq _ => ⟨q, hq, rfl, rfl⟩
  · rename_i p hget
    exact keepsOwner_set hget rfl rfl rfl

/-- The last reference to a pool is never dropped before its owner. -/
lemma keepsOwner_dropShared (ho : Owned ⟨w, B, id ::ₘ S, P⟩) : KeepsOwner w (w.dropShared id) := by
  obtain ⟨p, hget⟩ := ho.pool_of_shared
  intro j q hq hlive
  unfold World.dropShared
  rw [hget]
  dsimp only
  split
  · rename_i hlast
    have hne : j ≠ id := by
      rintro rfl
      obtain rfl := Option.some.inj (hq.symm.trans hget)
      have hpos := ho.references.pos_of_count hget
      rw [Owner.refs_of_live hlive] at hpos
      omega
    have hpools : (World.releaseChain (.pool id) p.layout w.blocks.card w p.returnHead).pools =
        w.pools := by
      obtain ⟨l, r, -, hr, -, hle⟩ := map_le_blocks ho.places hget
      rw [releaseChain_eq hr (length_le_card hle) hle]
      rfl
    refine ⟨q, ?_, rfl, rfl⟩
    dsimp only
    rw [hpools, Arena.get_erase, if_neg hne]
    exact hq
  · have hkeeps : KeepsOwner w { w with
        pools := w.pools.set id { p with strong := p.strong - 1 } } :=
      keepsOwner_set hget rfl rfl rfl
    exact hkeeps j q hq hlive

lemma keepsOwner_dropPacked (ho : Owned ⟨w, 0, S, arc.id ::ₘ P⟩) :
    KeepsOwner w (w.dropPacked arc) := by
  have hdropped := dropped_dropPacked ho
  generalize w.dropPacked arc = w' at hdropped ⊢
  cases hdropped with
  | shared hget hshared => exact fun j q hq _ => ⟨q, hq, rfl, rfl⟩
  | @pool id a hget =>
      have hfree : Move ⟨w, 0, S, arc.id ::ₘ P⟩
          ⟨{ w with packed := w.packed.erase arc.id }, (id, a) ::ₘ 0, id ::ₘ S, P⟩ :=
        .freePacked hget
      have hpush := custody_pushReturn (ho.move hfree)
      refine KeepsOwner.trans ?_ (keepsOwner_dropShared ((ho.move hfree).moves hpush))
      exact keepsOwner_pushReturn (w := { w with packed := w.packed.erase arc.id })
  | heap hget hmem => exact fun j q hq _ => ⟨q, hq, rfl, rfl⟩

/-- The open page is closed, and its reference dropped. -/
lemma custody_closeCurrent (ho : Owned w.idle) (hget : w.pools.get id = some p) :
    Moves w.idle (w.replaceCurrent id none).idle := by
  unfold World.replaceCurrent
  rw [hget]
  dsimp only
  cases hcurrent : p.owner.current with
  | none =>
      have hsame : ({ p with owner := p.owner.setCurrent none } : Pool) =
          { p with stats := p.stats } := by
        rw [Owner.setCurrent_none_of_current hcurrent]
      rw [hsame]
      exact .single (.stats hget _)
  | some o =>
      have htake := Move.takeCurrent (B := 0) (S := 0) (P := 0) hget hcurrent
      exact .head htake (custody_dropPacked (ho.move htake))

/-- After closing the open page the pool is ready for a new one. -/
lemma owner_closeCurrent {l : ℕ} {c : Option OpenPage} (ho : Owned w.idle)
    (hget : w.pools.get id = some p) (howner : p.owner = .chunkPool l c) :
    ∃ p', (w.replaceCurrent id none).pools.get id = some p' ∧ p'.owner = .chunkPool l none ∧
      p'.pageSize = p.pageSize := by
  unfold World.replaceCurrent
  rw [hget]
  dsimp only
  have hget₁ : ({ w with pools := w.pools.set id { p with owner := p.owner.setCurrent none } } :
      World).pools.get id = some { p with owner := p.owner.setCurrent none } :=
    Arena.get_set_self hget
  have hset : p.owner.setCurrent none = .chunkPool l none := by
    rw [howner]
    rfl
  cases hcurrent : p.owner.current with
  | none => exact ⟨_, hget₁, hset, rfl⟩
  | some o =>
      have htake := Move.takeCurrent (B := 0) (S := 0) (P := 0) hget hcurrent
      obtain ⟨p', hget', howner', hsize'⟩ := keepsOwner_dropPacked (ho.move htake) id _ hget₁
        (by dsimp only; rw [hset]; trivial)
      exact ⟨p', hget', howner'.trans hset, hsize'⟩

/-- A page is wrapped and becomes the open page of a pool that has none. -/
lemma replaceCurrent_wrapPage {l a : ℕ} (hget : w.pools.get id = some p)
    (howner : p.owner = .chunkPool l none) :
    (w.wrapPage id a).2.replaceCurrent id (some ⟨(w.wrapPage id a).1, 0⟩) = { w with
      packed := w.packed.push ⟨⟨a, .pool id⟩, 1⟩
      pools := w.pools.set id { p with
        owner := .chunkPool l (some ⟨⟨w.packed.next, ⟨a, .pool id⟩⟩, 0⟩) } } := by
  unfold World.replaceCurrent World.wrapPage World.newPacked
  dsimp only
  rw [hget]
  dsimp only
  rw [howner]
  rfl

lemma custody_openNewPage {l : ℕ} (hget : w.pools.get id = some p)
    (howner : p.owner = .chunkPool l none) : (w.openNewPage id reply).Post
      (fun _ w' => Moves w.idle w'.idle ∧ ∃ p' l a k, w'.pools.get id = some p' ∧
        p'.pageSize = p.pageSize ∧ p'.owner = .chunkPool l (some ⟨⟨k, ⟨a, .pool id⟩⟩, 0⟩))
      fun w' => Moves w.idle w'.idle := by
  refine Outcome.Post.bind (custody_allocateRawPage hget (Owner.live_of_chunkPool howner)) ?_
  rintro a w₁ ⟨hmoves, p₁, hget₁, hsize, l', howner'⟩
  rw [howner] at howner'
  have hwrap := hmoves.tail .newPacked
  have hset := hwrap.tail (.setCurrent (k := w₁.packed.next) (a := a) hget₁ howner'
    Arena.get_push_self)
  refine Outcome.post_done ?_
  rw [replaceCurrent_wrapPage hget₁ howner']
  exact ⟨hset, _, l', a, w₁.packed.next, Arena.get_set_self hget₁, hsize, rfl⟩

/-- The program returns a range that it has claimed on the open page of the pool. -/
def Claims (w : World) (id size align : ℕ) (o : Outcome World (PackedArc × ℕ)) : Prop :=
  o.Post
    (fun r w' => ∃ (w₁ : World) (p : Pool) (o : OpenPage) (q : PackedInner),
      Moves w.idle w₁.idle ∧ w₁.pools.get id = some p ∧ p.room size align = some o ∧
      w₁.packed.get o.shared.id = some q ∧ r = (o.shared, o.alignedOffset align) ∧ w' = { w₁ with
        pools := w₁.pools.set id (p.claim o size align)
        packed := w₁.packed.set o.shared.id { q with strong := q.strong + 1 } })
    fun w' => Moves w.idle w'.idle

lemma Owned.packed_of_current {o : OpenPage} (ho : Owned w.idle) (hget : w.pools.get id = some p)
    (hcurrent : p.owner.current = some o) :
    ∃ q, w.packed.get o.shared.id = some q ∧ q.page = o.shared.page :=
  Option.map_eq_some_iff.1 (ho.references.current id p o hget hcurrent).1

lemma claimRange_eq {o : OpenPage} (ho : Owned w.idle) (hget : w.pools.get id = some p)
    (hroom : p.room size align = some o) : ∃ q, w.packed.get o.shared.id = some q ∧
      w.claimRange id p o size align = .done (o.shared, o.alignedOffset align) { w with
        pools := w.pools.set id (p.claim o size align)
        packed := w.packed.set o.shared.id { q with strong := q.strong + 1 } } := by
  have hcurrent := (le_of_room (ho.blocks.pageSize id p hget).2 hroom).1
  obtain ⟨q, hq, -⟩ := ho.packed_of_current hget hcurrent
  refine ⟨q, hq, ?_⟩
  unfold World.claimRange World.clonePacked
  dsimp only
  rw [hq]
  rfl

lemma custody_claimRange {o : OpenPage} (ho : Owned w.idle) (hget : w.pools.get id = some p)
    (hroom : p.room size align = some o) :
    Claims w id size align (w.claimRange id p o size align) := by
  obtain ⟨q, hq, hclaim⟩ := claimRange_eq ho hget hroom
  rw [hclaim]
  exact Outcome.post_done ⟨w, p, o, q, .refl, hget, hroom, hq, rfl, rfl⟩

/-- The open page is a block of the pool. -/
lemma Owned.block_of_current {o : OpenPage} {B : Multiset (ℕ × ℕ)} {S P : Multiset ℕ}
    (ho : Owned ⟨w, B, S, P⟩) (hget : w.pools.get id = some p)
    (hcurrent : p.owner.current = some o) :
    ⟨o.shared.page.buf, ⟨p.pageSize, defaultAlign⟩, .pool id⟩ ∈ w.blocks := by
  obtain ⟨hpage, hrelease⟩ := ho.references.current id p o hget hcurrent
  obtain ⟨hmem, -⟩ := ho.mem_of_packed hpage
  have hblock : o.shared.page.block w.pools =
      ⟨o.shared.page.buf, ⟨p.pageSize, defaultAlign⟩, .pool id⟩ := by
    unfold PackedPage.block
    rw [size_of_pool hget hrelease, hrelease]
  rw [← hblock]
  exact hmem

/-- The buffer of the open page, as the source supplied it. -/
lemma Owned.buf_of_current {o : OpenPage} {B : Multiset (ℕ × ℕ)} {S P : Multiset ℕ}
    (ho : Owned ⟨w, B, S, P⟩) (hget : w.pools.get id = some p)
    (hcurrent : p.owner.current = some o) :
    0 < o.shared.page.buf ∧ o.shared.page.buf + p.pageSize ≤ size64 ∧
      o.shared.page.buf % defaultAlign = 0 := by
  have hmem := ho.block_of_current hget hcurrent
  obtain ⟨hne, -, hend⟩ := ho.blocks.bounds _ hmem
  exact ⟨Nat.pos_of_ne_zero hne, hend, ho.blocks.aligned _ hmem⟩

/-- A page that has just been opened has room for what the packed path is asked for. -/
lemma room_of_opened {l k a : ℕ} (ho : Owned w.idle) (hget : w.pools.get id = some p)
    (howner : p.owner = .chunkPool l (some ⟨⟨k, ⟨a, .pool id⟩⟩, 0⟩))
    (halign : IsPowerOfTwo align) (hclass : sizeClass p.pageSize size align = .packed) :
    p.room size align = some ⟨⟨k, ⟨a, .pool id⟩⟩, 0⟩ := by
  have hcurrent : p.owner.current = some ⟨⟨k, ⟨a, .pool id⟩⟩, 0⟩ := by
    rw [howner]
    rfl
  obtain ⟨hpos, hend, hbuf⟩ := ho.buf_of_current hget hcurrent
  exact room_of_fresh halign hclass (ho.blocks.pageSize id p hget).2 hcurrent rfl hpos
    (by omega) hbuf

/-- **Two rounds are enough**: a page opened in the first one has room. -/
lemma custody_findPage {l : ℕ} {c : Option OpenPage} (ho : Owned w.idle)
    (hget : w.pools.get id = some p) (howner : p.owner = .chunkPool l c)
    (halign : IsPowerOfTwo align) (hclass : sizeClass p.pageSize size align = .packed) :
    Claims w id size align (World.findPage id size align reply 2 w) := by
  unfold World.findPage
  rw [hget]
  dsimp only
  cases hroom : p.room size align with
  | some o => exact custody_claimRange ho hget hroom
  | none =>
      dsimp only
      have hclose := custody_closeCurrent ho hget
      obtain ⟨p₁, hget₁, howner₁, hsize₁⟩ := owner_closeCurrent ho hget howner
      refine Outcome.Post.bind ((custody_openNewPage hget₁ howner₁).mono
        (fun _ _ h => h) fun w' h => hclose.trans h) ?_
      rintro _ w₂ ⟨hopen, p₂, l₂, a, k, hget₂, hsize₂, howner₂⟩
      have hmoves := hclose.trans hopen
      have ho₂ := ho.moves hmoves
      have hroom₂ := room_of_opened ho₂ hget₂ howner₂ halign
        (by rw [hsize₂, hsize₁]; exact hclass)
      unfold World.findPage
      rw [hget₂]
      dsimp only
      rw [hroom₂]
      refine (custody_claimRange ho₂ hget₂ hroom₂).mono ?_ fun w' h => hmoves.trans h
      rintro r w' ⟨w₃, p₃, o, q, hmoves₃, hrest⟩
      exact ⟨w₃, p₃, o, q, hmoves.trans hmoves₃, hrest⟩

/-- A chunk on a page of its own, or without one. -/
lemma custody_returnBuilder {w₁ : World} {q : Option PackedArc} {c : SizeClass}
    (hmoves : Moves w.idle ⟨w₁, 0, 0, heldIds q + 0⟩)
    (honly : ∀ arc, q = some arc → w₁.packed.get arc.id = some ⟨arc.page, 1⟩ ∧ 0 < size ∧
      size ≤ arc.page.size w₁.pools)
    (hempty : q = none → size = 0) : KeepsCustody w (w₁.returnBuilder id tenant size c q 0) := by
  have hnew := hmoves.tail (.newChunk id tenant c honly hempty)
  exact Outcome.post_done (hnew.tail (.account _ _ _))

lemma custody_allocateAligned {l : ℕ} {c : Option OpenPage} (ho : Owned w.idle)
    (hget : w.pools.get id = some p) (howner : p.owner = .chunkPool l c) :
    KeepsCustody w (w.allocateAligned id tenant p size align reply) := by
  have hlive := Owner.live_of_chunkPool howner
  unfold World.allocateAligned
  split
  · rename_i halign
    split
    · exact custody_returnBuilder .refl (fun arc harc => absurd harc (by simp)) fun _ => rfl
    · rename_i hclass
      refine Outcome.Post.bind (custody_findPage ho hget howner halign hclass) ?_
      rintro r w' ⟨w₁, p₁, o, q, hmoves, hget₁, hroom, hq, rfl, rfl⟩
      have hpos := (le_of_sizeClass_packed hclass).1
      have hclaim := hmoves.tail (.claim tenant hpos halign hget₁ hroom hq)
      exact Outcome.post_done (hclaim.tail (.account _ _ _))
    · rename_i hclass
      obtain ⟨hpos, hle, -⟩ := le_of_sizeClass_dedicated hclass
      refine Outcome.Post.bind (custody_allocateRawPage hget hlive) ?_
      rintro a w₁ ⟨hmoves, p₁, hget₁, hsize, -⟩
      have hwrap := hmoves.tail .newPacked
      refine custody_returnBuilder hwrap (fun arc harc => ?_) fun hnone => absurd hnone (by simp)
      obtain rfl := Option.some.inj harc
      refine ⟨Arena.get_push_self, hpos, ?_⟩
      have hpage : PackedPage.size w₁.pools ⟨a, .pool id⟩ = p₁.pageSize := size_of_pool hget₁ rfl
      rw [hsize] at hpage
      exact hle.trans (Nat.le_of_eq hpage.symm)
    · rename_i hclass
      have hpos : 0 < size := Nat.pos_of_ne_zero fun hzero => by
        rw [sizeClass_eq_zero.2 hzero] at hclass
        exact absurd hclass (by simp)
      refine World.post_allocateOversized (fun _ a hsupplies => ?_) fun _ => .refl
      have hheap : Moves w.idle ⟨_, 0, 0, w.packed.next ::ₘ 0⟩ :=
        .single (.newHeap hpos hsupplies)
      refine custody_returnBuilder (q := some ⟨w.packed.next, ⟨a, .heap _⟩⟩) hheap
        (fun arc harc => ?_) fun hnone => absurd hnone (by simp)
      obtain rfl := Option.some.inj harc
      exact ⟨Arena.get_push_self, hpos, Nat.le_refl _⟩
  · exact Outcome.post_panicked .refl

lemma packed_dropPagePool : (w.dropPagePool id p).packed = w.packed := by
  obtain ⟨bs, es, as, f, hlocal⟩ := World.releaseLocal_frame (w := w) id p
  obtain ⟨ps, bs', es', as', f', hshared⟩ := World.dropShared_frame (w := w.releaseLocal id p) id
  unfold World.dropPagePool
  rw [hshared, hlocal]

lemma custody_dropChunkPool {l : ℕ} {c : Option OpenPage} (ho : Owned w.idle)
    (hget : w.pools.get id = some p) (howner : p.owner = .chunkPool l c) :
    Moves w.idle (w.dropChunkPool id p).idle := by
  have hdrop : Moves w.idle (w.dropPagePool id p).idle :=
    custody_dropPagePool ho hget (Owner.live_of_chunkPool howner)
  unfold World.dropChunkPool
  dsimp only
  split
  · exact hdrop
  · rename_i o hcurrent
    -- The open page still refers to the pool.
    obtain ⟨hpage, hrelease⟩ := ho.references.current id p o hget hcurrent
    have hpage' : pageOf (w.dropPagePool id p).packed o.shared.id =
        some ⟨o.shared.page.buf, .pool id⟩ := by
      rw [packed_dropPagePool, ← hrelease]
      exact hpage
    obtain ⟨p', hget'⟩ := (ho.moves hdrop).references.pool_of_packed hpage'
    exact hdrop.trans (custody_closeCurrent (ho.moves hdrop) hget')

lemma custody_dropPool (ho : Owned w.idle) (hget : w.pools.get id = some p)
    (hdrop : w.dropPool id p = some w') : Moves w.idle w'.idle := by
  unfold World.dropPool at hdrop
  split at hdrop
  · rename_i howner
    obtain rfl := Option.some.inj hdrop
    exact custody_dropPagePool ho hget (Owner.live_of_pagePool howner)
  · rename_i howner
    obtain rfl := Option.some.inj hdrop
    exact custody_dropChunkPool ho hget howner
  · exact absurd hdrop (by simp)

end ChunkPools

/-! ## Chunks -/

section Chunks

variable {w w' : World} {id i tenant size align : ℕ} {p : Pool} {reply : Option ℕ}
  {h : ChunkHandle} {data : List UInt8}

lemma custody_dropChunk (ho : Owned w.idle) (hget : w.chunks.get i = some h) :
    Moves w.idle (w.dropChunk i h).idle := by
  have hrelease : Moves w.idle
      (({ w with chunks := w.chunks.erase i } : World).releaseChunk h).idle := by
    have hremove : Moves w.idle ⟨{ w with chunks := w.chunks.erase i }, 0, 0,
        heldIds h.packed + 0⟩ := .single (.removeChunk hget)
    have haccount := hremove.tail (.account (Function.update w.tenants h.tenant
      ((w.tenants h.tenant).recordChunkRelease h.capacity)) (Function.update w.chunkStats h.pool
      ((w.chunkStats h.pool).recordRelease h.oversizedBytes)) w.made)
    exact haccount.trans (custody_dropOptional (ho.moves haccount))
  unfold World.dropChunk
  split
  · exact hrelease
  · exact hrelease
  · rename_i c hrefs _
    refine .single (.setChunk hget ⟨rfl, rfl, rfl, rfl, fun hlen => hlen, fun _ => ⟨?_, rfl⟩⟩)
    simp

lemma custody_sealChunk (ho : Owned w.idle) (hget : w.chunks.get i = some h)
    (hbuilder : h.refs = .builder) : Moves w.idle (w.sealChunk i h).idle := by
  have hsame : h.SamePlace { h with refs := .sealed 1 } :=
    ⟨rfl, rfl, rfl, rfl, fun hlen => hlen, fun hsealed => absurd hbuilder hsealed⟩
  unfold World.sealChunk
  dsimp only
  cases hpacked : h.packed with
  | none =>
      rw [hpacked] at hsame
      exact .single (.setChunk hget hsame)
  | some arc =>
      obtain ⟨q, hq, -⟩ := Option.map_eq_some_iff.1 (ho.references.chunk i h arc hget hpacked)
      have hclone : Moves w.idle ⟨w.clonePacked arc, 0, 0, arc.id ::ₘ 0⟩ := custody_clonePacked hq
      have hchunks : (w.clonePacked arc).chunks.get i = some h := by
        rw [show (w.clonePacked arc).chunks = w.chunks from
          congrArg Ledger.chunks ledger_clonePacked]
        exact hget
      have hset := hclone.tail (.setChunk hchunks hsame)
      rw [hpacked] at hset
      exact hset.trans (custody_dropPacked (ho.moves hset))

/-- A store through the slice of a builder. -/
lemma custody_storeChunk {pos : ℕ} (hget : w.chunks.get i = some h) (hbuilder : h.refs = .builder)
    (hle : pos + data.length ≤ h.capacity) : Moves w.idle (w.storeChunk h pos data).idle := by
  unfold World.storeChunk
  split
  · exact .refl
  · rename_i a hbase
    exact .single (.writeChunk hget hbuilder hbase hle)

lemma samePlace_len {n : ℕ} (hbuilder : h.refs = .builder) (hn : n ≤ h.capacity) :
    h.SamePlace { h with len := truncate32 n } :=
  ⟨rfl, rfl, rfl, rfl, fun _ => (truncate32_le n).trans hn, fun hsealed => absurd hbuilder hsealed⟩

lemma custody_finishChunk {len : Option ℕ} (ho : Owned w.idle) (hget : w.chunks.get i = some h)
    (hbuilder : h.refs = .builder) : KeepsCustody w (w.finishChunk i h data len) := by
  unfold World.finishChunk
  dsimp only
  have hstore : Moves w.idle (w.storeChunk h 0 (data.take h.capacity)).idle :=
    custody_storeChunk hget hbuilder (by rw [List.length_take]; omega)
  have hget' : (w.storeChunk h 0 (data.take h.capacity)).chunks.get i = some h := by
    rw [chunks_storeChunk]
    exact hget
  have ho' := ho.moves hstore
  split
  · exact Outcome.post_panicked (hstore.trans (custody_dropChunk ho' hget'))
  · split
    · rename_i n hn
      have hset := hstore.tail (.setChunk (i := i) hget' (samePlace_len hbuilder hn))
      refine Outcome.post_done (hset.trans (custody_sealChunk (ho.moves hset) ?_ hbuilder))
      exact Arena.get_set_self hget'
    · exact Outcome.post_panicked (hstore.trans (custody_dropChunk ho' hget'))

/-- An allocation returns an unsealed builder. -/
lemma allocateAligned_builder : (w.allocateAligned id tenant p size align reply).Post
    (fun i w' => ∀ h, w'.chunks.get i = some h → h.refs = .builder) fun _ => True := by
  refine ledger_allocateAligned.mono (fun i w' hledger h hget => ?_) fun _ _ => trivial
  obtain ⟨rfl, c, q, offset, hledger⟩ := hledger
  rw [show w'.chunks = w.chunks.push _ from congrArg Ledger.chunks hledger,
    Arena.get_push_self] at hget
  obtain rfl := Option.some.inj hget
  rfl

/-- The `alloc_*` functions: an allocation and something done to the new builder. -/
lemma custody_allocThen {l : ℕ} {c : Option OpenPage} {f : ℕ → World → Outcome World ℕ}
    (ho : Owned w.idle) (hget : w.pools.get id = some p) (howner : p.owner = .chunkPool l c)
    (hf : ∀ i w', Owned w'.idle → (∀ h, w'.chunks.get i = some h → h.refs = .builder) →
      KeepsCustody w' (f i w')) :
    KeepsCustody w ((w.allocateAligned id tenant p size align reply).bind f) := by
  have halloc : KeepsCustody w (w.allocateAligned id tenant p size align reply) :=
    custody_allocateAligned ho hget howner
  have hboth := Outcome.Post.and halloc allocateAligned_builder
  refine Outcome.Post.bind (Outcome.Post.mono hboth (fun _ _ h => h) fun _ h => h.1) ?_
  rintro i w' ⟨hmoves, hbuilder⟩
  exact (hf i w' (ho.moves hmoves) hbuilder).mono (fun _ _ h => hmoves.trans h)
    fun _ h => hmoves.trans h

lemma custody_allocFromChunk {l : ℕ} {c : Option OpenPage} (ho : Owned w.idle)
    (hget : w.pools.get id = some p) (howner : p.owner = .chunkPool l c) :
    KeepsCustody w (w.allocFromChunk id tenant p data reply) := by
  apply custody_allocThen ho hget howner
  intro i w₁ ho₁ hbuilder
  split
  · trivial
  · rename_i h hi
    split
    · exact custody_finishChunk ho₁ hi (hbuilder h hi)
    · exact Outcome.post_panicked (custody_dropChunk ho₁ hi)

lemma custody_allocWithChunk {l : ℕ} {c : Option OpenPage} {init : Closure} (ho : Owned w.idle)
    (hget : w.pools.get id = some p) (howner : p.owner = .chunkPool l c) :
    KeepsCustody w (w.allocWithChunk id tenant p size init reply) := by
  apply custody_allocThen ho hget howner
  intro i w₁ ho₁ hbuilder
  split
  · trivial
  · rename_i h hi
    exact custody_finishChunk ho₁ hi (hbuilder h hi)

lemma custody_allocWithLenChunk {l : ℕ} {c : Option OpenPage} {init : Closure} (ho : Owned w.idle)
    (hget : w.pools.get id = some p) (howner : p.owner = .chunkPool l c) :
    KeepsCustody w (w.allocWithLenChunk id tenant p size init reply) := by
  apply custody_allocThen ho hget howner
  intro i w₁ ho₁ hbuilder
  split
  · trivial
  · rename_i h hi
    exact custody_finishChunk ho₁ hi (hbuilder h hi)

lemma custody_appendChunk (hget : w.chunks.get i = some h) (hbuilder : h.refs = .builder)
    (happend : w.appendChunk i h data = .ok w') : Moves w.idle w'.idle := by
  unfold World.appendChunk at happend
  split at happend
  · exact absurd happend (by simp)
  · rename_i hle
    obtain rfl := Except.ok.inj happend
    have hstore : Moves w.idle (w.storeChunk h h.len data).idle :=
      custody_storeChunk hget hbuilder (by omega)
    have hget' : (w.storeChunk h h.len data).chunks.get i = some h := by
      rw [chunks_storeChunk]
      exact hget
    exact hstore.tail (.setChunk hget' (samePlace_len hbuilder (by omega)))

lemma custody_setLenChunk {len : ℕ} (hget : w.chunks.get i = some h)
    (hbuilder : h.refs = .builder) : KeepsCustody w (w.setLenChunk i h len) := by
  unfold World.setLenChunk
  split
  · rename_i hlen
    exact Outcome.post_done (.single (.setChunk hget (samePlace_len hbuilder hlen)))
  · exact Outcome.post_panicked .refl

lemma custody_writeChunk {pos : ℕ} (hget : w.chunks.get i = some h) (hbuilder : h.refs = .builder) :
    KeepsCustody w (w.writeChunk h pos data) := by
  unfold World.writeChunk
  split
  · rename_i hle
    exact Outcome.post_done (custody_storeChunk hget hbuilder hle)
  · exact Outcome.post_panicked .refl

lemma custody_cloneChunk (hget : w.chunks.get i = some h) (hclone : w.cloneChunk i h = some w') :
    Moves w.idle w'.idle := by
  unfold World.cloneChunk at hclone
  split at hclone
  · exact absurd hclone (by simp)
  · obtain rfl := Option.some.inj hclone
    exact .single (.setChunk hget
      ⟨rfl, rfl, rfl, rfl, fun hlen => hlen, fun _ => ⟨by simp, rfl⟩⟩)

end Chunks

/-! ## Runs -/

section Runs

variable {w w' : World} {ops : List Op}

/-- A pool that an operation is called on is there, with its owner. -/
lemma exists_livePool {id : ℕ} (h : (w.pagePool id).isSome ∨ (w.chunkPool id).isSome) :
    ∃ p, w.pools.get id = some p ∧ p.owner.Live := by
  rcases h with hsome | hsome
  · obtain ⟨p, hp⟩ := Option.isSome_iff_exists.1 hsome
    obtain ⟨hget, l, howner⟩ := World.pagePool_eq_some hp
    exact ⟨p, hget, Owner.live_of_pagePool howner⟩
  · obtain ⟨p, hp⟩ := Option.isSome_iff_exists.1 hsome
    obtain ⟨hget, l, c, howner⟩ := World.chunkPool_eq_some hp
    exact ⟨p, hget, Owner.live_of_chunkPool howner⟩

/-- The step of an operation on a `PagePool`. -/
lemma custody_onPagePool {id : ℕ} {α : Type} {f : Pool → Outcome World α}
    (hf : ∀ p l, w.pools.get id = some p → p.owner = .pagePool l → KeepsCustody w (f p))
    (h : ((w.pagePool id).bind fun p => (f p).final) = some w') : Moves w.idle w'.idle := by
  obtain ⟨p, hp, hfinal⟩ := Option.bind_eq_some_iff.1 h
  obtain ⟨hget, l, howner⟩ := World.pagePool_eq_some hp
  exact (hf p l hget howner).final hfinal

/-- The step of an operation on a `ChunkPool`. -/
lemma custody_onChunkPool {id : ℕ} {α : Type} {f : Pool → Outcome World α}
    (hf : ∀ p l c, w.pools.get id = some p → p.owner = .chunkPool l c → KeepsCustody w (f p))
    (h : ((w.chunkPool id).bind fun p => (f p).final) = some w') : Moves w.idle w'.idle := by
  obtain ⟨p, hp, hfinal⟩ := Option.bind_eq_some_iff.1 h
  obtain ⟨hget, l, c, howner⟩ := World.chunkPool_eq_some hp
  exact (hf p l c hget howner).final hfinal

/-- **Refinement.** Every operation of the crate is a sequence of moves. -/
theorem custody_step {op : Op} (ho : Owned w.idle) (h : w.step op = some w') :
    Moves w.idle w'.idle := by
  cases op with
  | newPagePool ps => exact custody_newPool.final h
  | newChunkPool ps => exact custody_newPool.final h
  | prewarm id replies =>
      simp only [World.step, Option.ite_none_right_eq_some] at h
      obtain ⟨p, hget, hlive⟩ := exists_livePool h.1
      exact (custody_prewarm hget hlive).final h.2
  | dropPool id =>
      obtain ⟨p, hget, h⟩ := Option.bind_eq_some_iff.1 h
      exact custody_dropPool ho hget h
  | cloneShared id =>
      simp only [World.step, Option.ite_none_right_eq_some] at h
      obtain rfl := Option.some.inj h.2
      have hpool : ∃ p, w.pools.get id = some p := by
        rcases or_assoc.2 h.1 with hsome | hpos
        · obtain ⟨p, hget, -⟩ := exists_livePool hsome
          exact ⟨p, hget⟩
        · exact (ho.move (.takeShared hpos)).pool_of_shared
      obtain ⟨p, hget⟩ := hpool
      have hclone : Moves w.idle ⟨w.cloneShared id, 0, id ::ₘ 0, 0⟩ := custody_cloneShared hget
      exact hclone.tail .giveShared
  | dropSharedHandle id =>
      simp only [World.step, Option.ite_none_right_eq_some] at h
      obtain rfl := Option.some.inj h.2
      have htake := Move.takeShared (B := 0) (S := 0) (P := 0) h.1
      exact .head htake (custody_dropShared (ho.move htake) fun a => Multiset.notMem_zero _)
  | allocatePage id t reply => exact custody_onPagePool (fun _ _ => custody_allocatePage) h
  | allocFromPage id t data reply => exact custody_onPagePool (fun _ _ => custody_allocFromPage ho) h
  | allocWithPage id t init reply => exact custody_onPagePool (fun _ _ => custody_allocWithPage ho) h
  | allocWithLenPage id t init reply =>
      exact custody_onPagePool (fun _ _ => custody_allocWithLenPage ho) h
  | appendPage i data =>
      obtain ⟨hd, hi, h⟩ := Option.bind_eq_some_iff.1 h
      split at h
      · rename_i happend
        obtain rfl := Option.some.inj h
        exact custody_appendPage (World.pageBuilder_eq_some hi).1 happend
      · obtain rfl := Option.some.inj h
        exact .refl
  | setLenPage i len =>
      obtain ⟨hd, hi, h⟩ := Option.bind_eq_some_iff.1 h
      exact (custody_setLenPage (World.pageBuilder_eq_some hi).1).final h
  | writePage i pos data =>
      obtain ⟨hd, hi, h⟩ := Option.bind_eq_some_iff.1 h
      exact (custody_writePage (World.pageBuilder_eq_some hi).1).final h
  | sealPage i =>
      obtain ⟨hd, hi, rfl⟩ := Option.map_eq_some_iff.1 h
      exact custody_sealPage ho (World.pageBuilder_eq_some hi).1
  | clonePage i =>
      obtain ⟨hd, hget, h⟩ := Option.bind_eq_some_iff.1 h
      exact custody_clonePage hget h
  | dropPage i =>
      obtain ⟨hd, hget, rfl⟩ := Option.map_eq_some_iff.1 h
      exact custody_dropPage ho hget
  | allocateChunk id t size align reply =>
      exact custody_onChunkPool (fun _ _ _ => custody_allocateAligned ho) h
  | allocFromChunk id t data reply =>
      exact custody_onChunkPool (fun _ _ _ => custody_allocFromChunk ho) h
  | allocWithChunk id t size init reply =>
      exact custody_onChunkPool (fun _ _ _ => custody_allocWithChunk ho) h
  | allocWithLenChunk id t capacity init reply =>
      exact custody_onChunkPool (fun _ _ _ => custody_allocWithLenChunk ho) h
  | appendChunk i data =>
      obtain ⟨hd, hi, h⟩ := Option.bind_eq_some_iff.1 h
      obtain ⟨hget, hbuilder⟩ := World.chunkBuilder_eq_some hi
      split at h
      · rename_i happend
        obtain rfl := Option.some.inj h
        exact custody_appendChunk hget hbuilder happend
      · obtain rfl := Option.some.inj h
        exact .refl
  | setLenChunk i len =>
      obtain ⟨hd, hi, h⟩ := Option.bind_eq_some_iff.1 h
      obtain ⟨hget, hbuilder⟩ := World.chunkBuilder_eq_some hi
      exact (custody_setLenChunk hget hbuilder).final h
  | writeChunk i pos data =>
      obtain ⟨hd, hi, h⟩ := Option.bind_eq_some_iff.1 h
      obtain ⟨hget, hbuilder⟩ := World.chunkBuilder_eq_some hi
      exact (custody_writeChunk hget hbuilder).final h
  | sealChunk i =>
      obtain ⟨hd, hi, rfl⟩ := Option.map_eq_some_iff.1 h
      obtain ⟨hget, hbuilder⟩ := World.chunkBuilder_eq_some hi
      exact custody_sealChunk ho hget hbuilder
  | cloneChunk i =>
      obtain ⟨hd, hget, h⟩ := Option.bind_eq_some_iff.1 h
      exact custody_cloneChunk hget h
  | dropChunk i =>
      obtain ⟨hd, hget, rfl⟩ := Option.map_eq_some_iff.1 h
      exact custody_dropChunk ho hget

/-- Every run of operations is a sequence of moves. -/
theorem custody_run (ho : Owned w.idle) (h : run World.step w ops = some w') :
    Moves w.idle w'.idle := by
  induction ops generalizing w with
  | nil =>
      obtain rfl : w = w' := by simpa using h
      exact .refl
  | cons op ops ih =>
      obtain ⟨w₁, hstep, hrest⟩ := run_cons_eq_some.1 h
      have hmoves := custody_step ho hstep
      exact hmoves.trans (ih (ho.moves hmoves) hrest)

/-- In every reachable state every buffer and every reference is in exactly one place. -/
theorem owned_run (h : runOps ops = some w) : Owned w.idle :=
  owned_init.moves (custody_run owned_init h)

end Runs

end PagedAlloc.Sequential
