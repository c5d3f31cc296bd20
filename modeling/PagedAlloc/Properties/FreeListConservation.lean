import PagedAlloc.Construction.PoolInterleaving
import Mathlib.Algebra.Order.Group.Multiset
import Mathlib.Tactic.Abel

/-!
# Free-list conservation under every interleaving

The invariant behind the intrusive free lists of `src/pool.rs` (`docs/design.md`, section 6.2).
In every reachable state of `PoolInterleaving` the chains hanging from `local_head` and from
`return_head` are finite, null-terminated and duplicate-free, and every buffer the source has
returned is in exactly one place.

`Conserved` is the inductive form.  Besides the two chains it has the chain the owner holds
between the swap of `drain_return_queue` and its installation, and two facts about writes that
are already made: a `push_return` call about to exchange has its loaded head in the first word
of its buffer, and `local_head` is null while a drained chain waits to overwrite it.  The stale
head a pusher works with needs no invariant of its own, because the exchange compares it with
the current one.

`freeLists_conserved` is the result over all runs, with the places listed in `Place`.
-/

namespace PagedAlloc.PoolInterleaving

open Words Transition Intrusive

/-! ## The invariant -/

/-- The owner is between finding `local_head` null and installing the drained chain. -/
def OwnerPc.drains : OwnerPc → Prop
  | .swap | .countDrain _ | .install _ => True
  | _ => False

/-- The conservation invariant, with the nodes `l`, `r` and `d` of the local chain, the return
chain and the drained chain. -/
structure Conserved (s : State) (l r d : List Addr) : Prop where
  local_chain : Chain 0 s.next s.localHead l
  return_chain : Chain 0 s.next s.returnHead r
  drained_chain : Chain 0 s.next s.owner.drained d
  partition : (l : Multiset Addr) + r + d + s.held + s.beingPushed + s.owner.inHand = s.obtained
  nodup : s.obtained.Nodup
  nonnull : 0 ∉ s.obtained
  linked : ∀ p ∈ s.pushers, ∀ head, p.pc = .cas head → s.next p.buf = head
  owner_linked : ∀ buf left total, s.owner = .setLocalHead buf left total →
    s.next buf = s.localHead
  local_empty : s.owner.drains → l = []

variable {s t : State} {l r d : List Addr} {p : Push} {buf word reply : Addr}

/-! ## Reading the partition -/

namespace Conserved

lemma mem_obtained (hc : Conserved s l r d) :
    buf ∈ s.obtained ↔ buf ∈ l ∨ buf ∈ r ∨ buf ∈ d ∨ buf ∈ s.held ∨ buf ∈ s.beingPushed ∨
      buf ∈ s.owner.inHand := by
  rw [← hc.partition]
  simp only [Multiset.mem_add, Multiset.mem_coe, or_assoc]

lemma ne_zero (hc : Conserved s l r d) (h : buf ∈ s.obtained) : buf ≠ 0 := by
  rintro rfl
  exact hc.nonnull h

/-- A buffer in somebody's hands is on no chain. -/
lemma not_mem_chains (hc : Conserved s l r d)
    (h : buf ∈ s.held + s.beingPushed + s.owner.inHand) : buf ∉ l ∧ buf ∉ r ∧ buf ∉ d := by
  have hn := hc.nodup
  rw [← hc.partition, add_assoc _ s.held, add_assoc _ (s.held + _), Multiset.nodup_add] at hn
  have hdisj := Multiset.disjoint_right.1 hn.2.2 h
  simp only [Multiset.mem_add, Multiset.mem_coe, not_or] at hdisj
  exact ⟨hdisj.1.1, hdisj.1.2, hdisj.2⟩

/-- A buffer held by a handle is not being pushed. -/
lemma not_mem_beingPushed_of_held (hc : Conserved s l r d) (h : buf ∈ s.held) :
    buf ∉ s.beingPushed := by
  have hn := hc.nodup
  rw [← hc.partition] at hn
  have hn := (Multiset.nodup_add.1 (Multiset.nodup_add.1 hn).1).2.2
  exact Multiset.disjoint_left.1 hn (Multiset.mem_add.2 (Or.inr h))

/-- A buffer in the owner's hands is not being pushed. -/
lemma not_mem_beingPushed_of_inHand (hc : Conserved s l r d) (h : buf ∈ s.owner.inHand) :
    buf ∉ s.beingPushed := by
  have hn := hc.nodup
  rw [← hc.partition] at hn
  have hn := (Multiset.nodup_add.1 hn).2.2
  intro hb
  exact Multiset.disjoint_right.1 hn h (Multiset.mem_add.2 (Or.inr hb))

end Conserved

lemma mem_beingPushed (h : p ∈ s.pushers) (hb : buf ∈ p.inHand) : buf ∈ s.beingPushed :=
  Multiset.mem_bind.2 ⟨p, h, hb⟩

lemma inHand_of_cas {head : Addr} (h : p.pc = .cas head) : p.buf ∈ p.inHand := by
  simp [Push.inHand, h]

/-- Splitting off the call that moves. -/
lemma beingPushed_eq (h : p ∈ s.pushers) :
    s.beingPushed = p.inHand + (s.pushers.erase p).bind Push.inHand := by
  rw [State.beingPushed, ← Multiset.cons_bind, Multiset.cons_erase h]

/-- Overwriting the first word of a buffer that no call is pushing keeps the written links. -/
lemma Conserved.linked_update (hc : Conserved s l r d) (h : buf ∉ s.beingPushed) :
    ∀ p ∈ s.pushers, ∀ head, p.pc = .cas head →
      Function.update s.next buf word p.buf = head := by
  intro p hp head hpc
  rw [Function.update_of_ne]
  · exact hc.linked p hp head hpc
  · rintro rfl
    exact h (mem_beingPushed hp (inHand_of_cas hpc))

/-! ## Initial state -/

lemma conserved_init : Conserved init [] [] [] where
  local_chain := .nil
  return_chain := .nil
  drained_chain := .nil
  partition := by simp [init, State.beingPushed, OwnerPc.inHand]
  nodup := by simp [init]
  nonnull := by simp [init]
  linked := by simp [init]
  owner_linked := by simp [init]
  local_empty := by simp

/-! ## Steps of a `push_return` call -/

/-- The links other calls have written are untouched when `p` rewrites its own buffer. -/
lemma Conserved.linked_others (hc : Conserved s l r d) (hp : p ∈ s.pushers)
    (hbuf : p.buf ∈ p.inHand) :
    ∀ q ∈ s.pushers.erase p, ∀ head, q.pc = .cas head →
      Function.update s.next p.buf word q.buf = head := by
  intro q hq head hpc
  rw [Function.update_of_ne]
  · exact hc.linked q (Multiset.mem_of_mem_erase hq) head hpc
  · -- Two calls pushing one buffer would put it twice into the partition.
    intro heq
    have hn := hc.nodup
    rw [← hc.partition, beingPushed_eq hp] at hn
    have hn := (Multiset.nodup_add.1 (Multiset.nodup_add.1 hn).1).2.1
    have hdisj := (Multiset.nodup_add.1 hn).2.2
    exact Multiset.disjoint_left.1 hdisj hbuf
      (Multiset.mem_bind.2 ⟨q, hq, heq ▸ inHand_of_cas hpc⟩)

/-- Moving one call to a point other than the exchange keeps the written links. -/
lemma Conserved.linked_replace (hc : Conserved s l r d) {p' : Push}
    (hp' : ∀ head, p'.pc ≠ .cas head) :
    ∀ q ∈ p' ::ₘ s.pushers.erase p, ∀ head, q.pc = .cas head → s.next q.buf = head := by
  intro q hq head hpc
  rcases Multiset.mem_cons.1 hq with rfl | hq
  · exact absurd hpc (hp' head)
  · exact hc.linked q (Multiset.mem_of_mem_erase hq) head hpc

lemma Conserved.pushStep (hc : Conserved s l r d) (hp : p ∈ s.pushers) (spurious : Bool) :
    ∃ r', Conserved (pushStep p spurious s) l r' d := by
  obtain ⟨b, pc⟩ := p
  have hpart := hc.partition
  rw [beingPushed_eq hp] at hpart
  cases pc with
  | load =>
      refine ⟨r, ?_⟩
      simp only [PoolInterleaving.pushStep]
      exact { hc with
        partition := by
          rw [← hpart]
          simp [State.beingPushed, Push.inHand]
        linked := hc.linked_replace (by simp) }
  | write head =>
      have hbuf : b ∈ (⟨b, .write head⟩ : Push).inHand := by simp [Push.inHand]
      have hmem : b ∈ s.beingPushed := mem_beingPushed hp hbuf
      obtain ⟨hl, hr, hd⟩ := hc.not_mem_chains (Multiset.mem_add.2 (Or.inl (Multiset.mem_add.2
        (Or.inr hmem))))
      refine ⟨r, ?_⟩
      simp only [PoolInterleaving.pushStep]
      exact { hc with
        local_chain := hc.local_chain.update hl
        return_chain := hc.return_chain.update hr
        drained_chain := hc.drained_chain.update hd
        partition := by
          rw [← hpart]
          simp [State.beingPushed, Push.inHand]
        linked := by
          intro q hq head' hpc
          rcases Multiset.mem_cons.1 hq with rfl | hq
          · obtain rfl : head = head' := by simpa using hpc
            exact Function.update_self ..
          · exact hc.linked_others hp hbuf q hq head' hpc
        owner_linked := by
          intro buf left total ho
          have hne : buf ≠ b := by
            rintro rfl
            have hhand : buf ∈ s.owner.inHand := by
              rw [show s.owner = .setLocalHead buf left total from ho]
              simp [OwnerPc.inHand]
            exact hc.not_mem_beingPushed_of_inHand hhand hmem
          exact (Function.update_of_ne hne ..).trans (hc.owner_linked buf left total ho) }
  | cas head =>
      have hbuf : b ∈ (⟨b, .cas head⟩ : Push).inHand := by simp [Push.inHand]
      have hmem : b ∈ s.beingPushed := mem_beingPushed hp hbuf
      have hob : b ∈ s.obtained := hc.mem_obtained.2 (by simp [hmem])
      simp only [PoolInterleaving.pushStep]
      split
      · -- The exchange succeeds: `b` heads the return chain, whose tail is the old chain.
        rename_i hcas
        refine ⟨b :: r, ?_⟩
        exact { hc with
          return_chain := by
            refine .cons (hc.ne_zero hob) ?_
            rw [hc.linked _ hp head rfl, ← hcas.1]
            exact hc.return_chain
          partition := by
            rw [← hpart, ← Multiset.cons_coe, ← Multiset.singleton_add]
            simp only [State.beingPushed, Multiset.cons_bind, Push.inHand, zero_add]
            abel
          linked := hc.linked_replace (by simp) }
      · -- The exchange fails, spuriously or not: `b` stays in hand and the loop restarts.
        refine ⟨r, ?_⟩
        exact { hc with
          partition := by
            rw [← hpart]
            simp [State.beingPushed, Push.inHand]
          linked := hc.linked_replace (by simp) }
  | subPagesInUse =>
      refine ⟨r, ?_⟩
      simp only [PoolInterleaving.pushStep]
      exact { hc with
        partition := by
          rw [← hpart]
          simp [State.beingPushed, Push.inHand]
        linked := hc.linked_replace (by simp) }
  | addFreePages =>
      refine ⟨r, ?_⟩
      simp only [PoolInterleaving.pushStep]
      exact { hc with
        partition := by
          rw [← hpart]
          simp [State.beingPushed, Push.inHand]
        linked := fun q hq => hc.linked q (Multiset.mem_of_mem_erase hq) }

/-! ## Steps of the owner -/

/-- A step of the owner that moves no buffer and writes no link keeps the invariant. -/
lemma Conserved.owner_move (hc : Conserved s l r d) {st : PoolStats} {n : ℕ} {o : OwnerPc}
    (hdrained : o.drained = s.owner.drained) (hhand : o.inHand = s.owner.inHand)
    (hlinked : ∀ buf left total, o ≠ .setLocalHead buf left total)
    (hempty : o.drains → l = []) :
    Conserved { s with stats := st, owner := o, prewarmRequested := n } l r d :=
  { hc with
    drained_chain := by
      rw [hdrained]
      exact hc.drained_chain
    partition := by
      rw [hhand]
      exact hc.partition
    owner_linked := fun buf left total ho => absurd ho (hlinked buf left total)
    local_empty := hempty }

/-- A buffer the source returns is new, so it joins the partition in the owner's hands. -/
lemma Conserved.sourceReturns (hc : Conserved s l r d) {o : OwnerPc}
    (hdrained : s.owner.drained = 0) (hhand : s.owner.inHand = 0)
    (ho : o.drained = 0) (ho' : o.inHand = {reply}) (hlinked : ∀ buf left total,
      o ≠ .setLocalHead buf left total) (hempty : ¬ o.drains)
    (hstep : sourceReturns reply o s = some t) : Conserved t l r d := by
  rw [PoolInterleaving.sourceReturns] at hstep
  split at hstep
  · rename_i hreply
    obtain ⟨hne, -, hnew⟩ := hreply
    obtain rfl := Option.some.inj hstep
    have hd : d = [] := by
      have := hc.drained_chain
      rw [hdrained] at this
      exact chain_null_iff.1 this
    subst hd
    have hnot := fun h => hnew (hc.mem_obtained.2 h)
    exact {
      local_chain := hc.local_chain.update fun h => hnot (Or.inl h)
      return_chain := hc.return_chain.update fun h => hnot (Or.inr (Or.inl h))
      drained_chain := by
        rw [show OwnerPc.drained _ = 0 from ho]
        exact .nil
      partition := by
        have hpart := hc.partition
        rw [hhand, add_zero] at hpart
        rw [← hpart, show OwnerPc.inHand _ = {reply} from ho', ← Multiset.singleton_add]
        simp only [State.beingPushed]
        abel
      nodup := Multiset.nodup_cons.2 ⟨hnew, hc.nodup⟩
      nonnull := by
        simp only [Multiset.mem_cons, not_or]
        exact ⟨hne.symm, hc.nonnull⟩
      linked := hc.linked_update fun h => hnot (by simp [h])
      owner_linked := fun buf left total h => absurd h (hlinked buf left total)
      local_empty := fun h => absurd h hempty }
  · exact absurd hstep (by simp)

/-- `pop_local`: the head of the local chain moves into the owner's hands. -/
lemma Conserved.popLocal {drained : Bool} (hc : Conserved s l r d)
    (ho : s.owner = .popLocal drained) (hstep : ownerStep reply s = some t) :
    ∃ l' r' d', Conserved t l' r' d' := by
  simp only [PoolInterleaving.ownerStep, ho] at hstep
  have hpart := hc.partition
  have hdr := hc.drained_chain
  rw [ho] at hpart hdr
  split at hstep
  · rename_i hz
    obtain rfl := Option.some.inj hstep
    have hl : l = [] := by
      have := hc.local_chain
      rw [hz] at this
      exact chain_null_iff.1 this
    refine ⟨l, r, d, hc.owner_move ?_ ?_ ?_ fun _ => hl⟩
    · cases drained <;> simp [ho, OwnerPc.drained]
    · cases drained <;> simp [ho, OwnerPc.inHand]
    · cases drained <;> simp
  · rename_i hz
    obtain rfl := Option.some.inj hstep
    obtain ⟨tail, rfl, htail⟩ := (chain_of_ne hz).1 hc.local_chain
    refine ⟨tail, r, d, { hc with
      local_chain := htail
      drained_chain := hdr
      partition := ?_
      owner_linked := by simp
      local_empty := by simp [OwnerPc.drains] }⟩
    rw [← hpart, ← Multiset.cons_coe, ← Multiset.singleton_add]
    simp only [State.beingPushed, OwnerPc.inHand]
    abel

/-- The swap: the whole return chain moves into the owner's hands. -/
lemma Conserved.swap (hc : Conserved s l r d) (ho : s.owner = .swap)
    (hstep : ownerStep reply s = some t) : ∃ l' r' d', Conserved t l' r' d' := by
  simp only [PoolInterleaving.ownerStep, ho] at hstep
  have hpart := hc.partition
  have hdr := hc.drained_chain
  rw [ho] at hpart hdr
  obtain rfl := Option.some.inj hstep
  obtain rfl : d = [] := chain_null_iff.1 hdr
  have hl : l = [] := hc.local_empty (by simp [ho, OwnerPc.drains])
  by_cases hz : s.returnHead = 0
  · obtain rfl : r = [] := by
      have := hc.return_chain
      rw [hz] at this
      exact chain_null_iff.1 this
    simp only [hz, if_true]
    exact ⟨l, [], [], { hc with
      return_chain := .nil
      drained_chain := .nil
      partition := hpart
      owner_linked := by simp
      local_empty := fun _ => hl }⟩
  · simp only [hz, if_false]
    refine ⟨l, [], r, { hc with
      return_chain := .nil
      drained_chain := hc.return_chain
      partition := ?_
      owner_linked := by simp
      local_empty := fun _ => hl }⟩
    rw [← hpart]
    simp only [State.beingPushed, OwnerPc.inHand, Multiset.coe_nil]
    abel

/-- The installation: `local_head` was null, so overwriting it loses nothing. -/
lemma Conserved.install {head : Addr} (hc : Conserved s l r d) (ho : s.owner = .install head)
    (hstep : ownerStep reply s = some t) : ∃ l' r' d', Conserved t l' r' d' := by
  simp only [PoolInterleaving.ownerStep, ho] at hstep
  have hpart := hc.partition
  have hdr := hc.drained_chain
  rw [ho] at hpart hdr
  obtain rfl := Option.some.inj hstep
  obtain rfl : l = [] := hc.local_empty (by simp [ho, OwnerPc.drains])
  refine ⟨d, r, [], { hc with
    local_chain := hdr
    drained_chain := .nil
    partition := ?_
    owner_linked := by simp
    local_empty := by simp [OwnerPc.drains] }⟩
  rw [← hpart]
  simp only [State.beingPushed, OwnerPc.inHand, Multiset.coe_nil]
  abel

/-- The hand-out: the buffer is now held by a handle. -/
lemma Conserved.handOut {buf : Addr} (hc : Conserved s l r d) (ho : s.owner = .addPagesInUse buf)
    (hstep : ownerStep reply s = some t) : ∃ l' r' d', Conserved t l' r' d' := by
  simp only [PoolInterleaving.ownerStep, ho] at hstep
  have hpart := hc.partition
  have hdr := hc.drained_chain
  rw [ho] at hpart hdr
  obtain rfl := Option.some.inj hstep
  refine ⟨l, r, d, { hc with
    drained_chain := hdr
    partition := ?_
    owner_linked := by simp
    local_empty := by simp [OwnerPc.drains] }⟩
  rw [← hpart, ← Multiset.singleton_add]
  simp only [State.beingPushed, OwnerPc.inHand]
  abel

/-- `prewarm` writes the link of its new buffer, which is on no chain. -/
lemma Conserved.link {buf : Addr} {left total : ℕ} (hc : Conserved s l r d)
    (ho : s.owner = .link buf left total) (hstep : ownerStep reply s = some t) :
    ∃ l' r' d', Conserved t l' r' d' := by
  simp only [PoolInterleaving.ownerStep, ho] at hstep
  have hpart := hc.partition
  have hdr := hc.drained_chain
  rw [ho] at hpart hdr
  obtain rfl := Option.some.inj hstep
  have hhand : buf ∈ s.owner.inHand := by simp [ho, OwnerPc.inHand]
  obtain ⟨hl, hr, hd⟩ := hc.not_mem_chains (Multiset.mem_add.2 (Or.inr hhand))
  exact ⟨l, r, d, { hc with
    local_chain := hc.local_chain.update hl
    return_chain := hc.return_chain.update hr
    drained_chain := hdr.update hd
    partition := hpart
    linked := hc.linked_update (hc.not_mem_beingPushed_of_inHand hhand)
    owner_linked := by
      intro buf' left' total' h
      obtain ⟨rfl, -⟩ : buf = buf' ∧ _ := by simpa using h
      exact Function.update_self ..
    local_empty := by simp [OwnerPc.drains] }⟩

/-- `prewarm` makes its buffer the new head of the local chain. -/
lemma Conserved.setLocalHead {buf : Addr} {left total : ℕ} (hc : Conserved s l r d)
    (ho : s.owner = .setLocalHead buf left total) (hstep : ownerStep reply s = some t) :
    ∃ l' r' d', Conserved t l' r' d' := by
  simp only [PoolInterleaving.ownerStep, ho] at hstep
  have hpart := hc.partition
  have hdr := hc.drained_chain
  obtain rfl := Option.some.inj hstep
  have hhand : buf ∈ s.owner.inHand := by simp [ho, OwnerPc.inHand]
  have hob : buf ∈ s.obtained := hc.mem_obtained.2 (by simp [hhand])
  rw [ho] at hpart hdr
  refine ⟨buf :: l, r, d, { hc with
    local_chain := ?_
    drained_chain := hdr
    partition := ?_
    owner_linked := by simp
    local_empty := by simp [OwnerPc.drains] }⟩
  · refine .cons (hc.ne_zero hob) ?_
    rw [hc.owner_linked buf left total ho]
    exact hc.local_chain
  · rw [← hpart, ← Multiset.cons_coe, ← Multiset.singleton_add]
    simp only [State.beingPushed, OwnerPc.inHand]
    abel

lemma Conserved.ownerStep (hc : Conserved s l r d) (hstep : ownerStep reply s = some t) :
    ∃ l' r' d', Conserved t l' r' d' := by
  have howner := hstep
  rw [PoolInterleaving.ownerStep] at hstep
  split at hstep
  · exact absurd hstep (by simp)
  · rename_i drained ho
    exact hc.popLocal ho howner
  · -- The decrement of `free_pages`.
    rename_i buf ho
    obtain rfl := Option.some.inj hstep
    exact ⟨l, r, d, hc.owner_move (by simp [ho, OwnerPc.drained]) (by simp [ho, OwnerPc.inHand])
      (by simp) (by simp [OwnerPc.drains])⟩
  · rename_i ho
    exact hc.swap ho howner
  · -- The count of the drain.
    rename_i head ho
    obtain rfl := Option.some.inj hstep
    exact ⟨l, r, d, hc.owner_move (by simp [ho, OwnerPc.drained]) (by simp [ho, OwnerPc.inHand])
      (by simp) fun _ => hc.local_empty (by simp [ho, OwnerPc.drains])⟩
  · rename_i head ho
    exact hc.install ho howner
  · -- The count of a fresh allocation.
    rename_i ho
    obtain rfl := Option.some.inj hstep
    exact ⟨l, r, d, hc.owner_move (by simp [ho, OwnerPc.drained]) (by simp [ho, OwnerPc.inHand])
      (by simp) (by simp [OwnerPc.drains])⟩
  · rename_i ho
    exact ⟨l, r, d, hc.sourceReturns (by simp [ho, OwnerPc.drained]) (by simp [ho, OwnerPc.inHand])
      rfl rfl (by simp) (by simp [OwnerPc.drains]) hstep⟩
  · rename_i buf ho
    exact hc.handOut ho howner
  · rename_i total ho
    obtain rfl := Option.some.inj hstep
    exact ⟨l, r, d, hc.owner_move (by simp [ho, OwnerPc.drained]) (by simp [ho, OwnerPc.inHand])
      (by simp) (by simp [OwnerPc.drains])⟩
  · rename_i left total ho
    exact ⟨l, r, d, hc.sourceReturns (by simp [ho, OwnerPc.drained]) (by simp [ho, OwnerPc.inHand])
      rfl rfl (by simp) (by simp [OwnerPc.drains]) hstep⟩
  · rename_i buf left total ho
    exact hc.link ho howner
  · rename_i buf left total ho
    exact hc.setLocalHead ho howner
  all_goals
    -- The three counters of `prewarm`.
    rename_i total ho
    obtain rfl := Option.some.inj hstep
    exact ⟨l, r, d, hc.owner_move (by simp [ho, OwnerPc.drained]) (by simp [ho, OwnerPc.inHand])
      (by simp) (by simp [OwnerPc.drains])⟩

/-! ## Whole runs -/

/-- **The step lemma.** Every event keeps the buffers conserved. -/
lemma Conserved.step (hc : Conserved s l r d) {e : Event} (hstep : step s e = some t) :
    ∃ l' r' d', Conserved t l' r' d' := by
  cases e with
  | allocate =>
      simp only [PoolInterleaving.step, Option.ite_none_right_eq_some] at hstep
      obtain ⟨ho, hstep⟩ := hstep
      obtain rfl := Option.some.inj hstep
      exact ⟨l, r, d, hc.owner_move (by simp [ho, OwnerPc.drained])
        (by simp [ho, OwnerPc.inHand]) (by simp) (by simp [OwnerPc.drains])⟩
  | prewarm n =>
      simp only [PoolInterleaving.step, Option.ite_none_right_eq_some] at hstep
      obtain ⟨ho, hstep⟩ := hstep
      obtain rfl := Option.some.inj hstep
      exact ⟨l, r, d, hc.owner_move (by simp [ho, OwnerPc.drained])
        (by simp [ho, OwnerPc.inHand]) (by simp) (by simp [OwnerPc.drains])⟩
  | owner reply => exact hc.ownerStep hstep
  | allocateFails =>
      simp only [PoolInterleaving.step, Option.ite_none_right_eq_some] at hstep
      obtain ⟨ho, hstep⟩ := hstep
      obtain rfl := Option.some.inj hstep
      exact ⟨l, r, d, hc.owner_move (by simp [ho, OwnerPc.drained])
        (by simp [ho, OwnerPc.inHand]) (by simp) (by simp [OwnerPc.drains])⟩
  | prewarmFails =>
      simp only [PoolInterleaving.step] at hstep
      split at hstep
      · rename_i left total ho
        obtain rfl := Option.some.inj hstep
        exact ⟨l, r, d, hc.owner_move (by simp [ho, OwnerPc.drained])
          (by simp [ho, OwnerPc.inHand]) (by simp) (by simp [OwnerPc.drains])⟩
      · exact absurd hstep (by simp)
  | drop buf =>
      simp only [PoolInterleaving.step, Option.ite_none_right_eq_some] at hstep
      obtain ⟨hb, hstep⟩ := hstep
      obtain rfl := Option.some.inj hstep
      refine ⟨l, r, d, { hc with partition := ?_, linked := ?_ }⟩
      · have hheld : {buf} + s.held.erase buf = s.held := by
          rw [Multiset.singleton_add, Multiset.cons_erase hb]
        rw [← hc.partition]
        conv_rhs => rw [← hheld]
        simp only [State.beingPushed, Multiset.cons_bind, Push.inHand]
        abel
      · intro q hq head hpc
        rcases Multiset.mem_cons.1 hq with rfl | hq
        · simp at hpc
        · exact hc.linked q hq head hpc
  | push p spurious =>
      simp only [PoolInterleaving.step, Option.ite_none_right_eq_some] at hstep
      obtain ⟨hp, hstep⟩ := hstep
      obtain rfl := Option.some.inj hstep
      obtain ⟨r', hc'⟩ := hc.pushStep hp spurious
      exact ⟨l, r', d, hc'⟩
  | scribble buf word =>
      simp only [PoolInterleaving.step, Option.ite_none_right_eq_some] at hstep
      obtain ⟨hb, hstep⟩ := hstep
      obtain rfl := Option.some.inj hstep
      obtain ⟨hl, hr, hd⟩ := hc.not_mem_chains (Multiset.mem_add.2 (Or.inl (Multiset.mem_add.2
        (Or.inl hb))))
      refine ⟨l, r, d, { hc with
        local_chain := hc.local_chain.update hl
        return_chain := hc.return_chain.update hr
        drained_chain := hc.drained_chain.update hd
        linked := hc.linked_update (hc.not_mem_beingPushed_of_held hb)
        owner_linked := ?_ }⟩
      intro buf' left total ho
      have hne : buf' ≠ buf := by
        rintro rfl
        have hn := hc.nodup
        rw [← hc.partition, show s.owner = .setLocalHead buf' left total from ho] at hn
        have hdisj := (Multiset.nodup_add.1 hn).2.2
        have hleft : buf' ∈ (l : Multiset Addr) + r + d + s.held + s.beingPushed := by simp [hb]
        exact Multiset.disjoint_left.1 hdisj hleft (by simp [OwnerPc.inHand])
      exact (Function.update_of_ne hne ..).trans (hc.owner_linked buf' left total ho)

lemma exists_conserved {es : List Event} (h : run PoolInterleaving.step init es = some s) :
    ∃ l r d, Conserved s l r d := by
  refine run_invariant (P := fun s => ∃ l r d, Conserved s l r d) ?_ ?_ h
  · rintro s e t ⟨l, r, d, hc⟩ hstep
    exact hc.step hstep
  · exact ⟨[], [], [], conserved_init⟩

/-! ## Where every buffer is -/

/-- The places a buffer obtained from the source can be in.  A buffer is in transit while one
thread carries it inside one of the operations: a `push_return` call before its exchange
succeeded, or the owner between two steps of `drain_return_queue`, `pop_local`,
`allocate_fresh` or `prewarm`. -/
inductive Place
  | localChain
  | returnChain
  | handle
  | inTransit
  deriving DecidableEq, Repr

/-- The buffers in transit, `d` being the chain the owner is installing. -/
def State.inTransit (s : State) (d : List Addr) : Multiset Addr :=
  d + s.beingPushed + s.owner.inHand

/-- The contents of each place. -/
def State.contents (s : State) (l r d : List Addr) : Place → Multiset Addr
  | .localChain => l
  | .returnChain => r
  | .handle => s.held
  | .inTransit => s.inTransit d

lemma Conserved.sum_contents (hc : Conserved s l r d) :
    s.contents l r d .localChain + s.contents l r d .returnChain + s.contents l r d .handle +
      s.contents l r d .inTransit = s.obtained := by
  rw [← hc.partition]
  simp only [State.contents, State.inTransit]
  abel

lemma Conserved.exists_place (hc : Conserved s l r d) (hb : buf ∈ s.obtained) :
    ∃ place, buf ∈ s.contents l r d place := by
  rw [← hc.sum_contents] at hb
  simp only [Multiset.mem_add] at hb
  rcases hb with ((hb | hb) | hb) | hb
  · exact ⟨_, hb⟩
  · exact ⟨_, hb⟩
  · exact ⟨_, hb⟩
  · exact ⟨_, hb⟩

lemma Conserved.place_unique (hc : Conserved s l r d) {place place' : Place}
    (hb : buf ∈ s.contents l r d place) (hb' : buf ∈ s.contents l r d place') :
    place = place' := by
  have hn := hc.nodup
  rw [← hc.sum_contents] at hn
  obtain ⟨hn, -, h4⟩ := Multiset.nodup_add.1 hn
  obtain ⟨hn, -, h3⟩ := Multiset.nodup_add.1 hn
  obtain ⟨-, -, h2⟩ := Multiset.nodup_add.1 hn
  have h2 : buf ∈ _ → buf ∉ _ := Multiset.disjoint_left.1 h2
  have h3 : buf ∈ _ → buf ∉ _ := Multiset.disjoint_left.1 h3
  have h4 : buf ∈ _ → buf ∉ _ := Multiset.disjoint_left.1 h4
  simp only [Multiset.mem_add] at h3 h4
  cases place <;> cases place' <;> first | rfl | (exfalso; tauto)

/-- **Free-list conservation.** In every reachable state of the pool, under every interleaving
of the owner with any number of `push_return` calls and of writes by the holders of buffers,
the chains from `local_head` and from `return_head` are finite, null-terminated and
duplicate-free, and every buffer obtained from the source is in exactly one place.  Outside the
operations nothing is in transit, so the place is then the local chain, the return chain or a
handle. -/
theorem freeLists_conserved {es : List Event} (h : run PoolInterleaving.step init es = some s) :
    ∃ l r d : List Addr,
      (Chain 0 s.next s.localHead l ∧ l.Nodup) ∧
      (Chain 0 s.next s.returnHead r ∧ r.Nodup) ∧
      (Chain 0 s.next s.owner.drained d ∧ d.Nodup) ∧
      s.obtained.Nodup ∧
      s.contents l r d .localChain + s.contents l r d .returnChain + s.contents l r d .handle +
        s.contents l r d .inTransit = s.obtained ∧
      (∀ buf ∈ s.obtained, ∃! place, buf ∈ s.contents l r d place) ∧
      (s.owner = .idle → s.pushers = 0 → s.contents l r d .inTransit = 0) := by
  obtain ⟨l, r, d, hc⟩ := exists_conserved h
  refine ⟨l, r, d, ⟨hc.local_chain, hc.local_chain.nodup⟩,
    ⟨hc.return_chain, hc.return_chain.nodup⟩, ⟨hc.drained_chain, hc.drained_chain.nodup⟩,
    hc.nodup, hc.sum_contents, ?_, ?_⟩
  · intro buf hb
    obtain ⟨place, hplace⟩ := hc.exists_place hb
    exact ⟨place, hplace, fun _ h' => hc.place_unique h' hplace⟩
  · intro ho hp
    have hd := hc.drained_chain
    rw [ho] at hd
    obtain rfl : d = [] := chain_null_iff.1 hd
    simp [State.contents, State.inTransit, State.beingPushed, ho, hp, OwnerPc.inHand]

/-- A run that stops in the middle of a drain: buffer `8` was allocated, scribbled on, dropped
and pushed, and the owner has swapped it out of the return queue. -/
def drainRun : List Event :=
  [.allocate, .owner 0, .owner 0, .owner 0, .owner 8, .owner 0, .scribble 8 5, .drop 8,
    .push ⟨8, .load⟩ false, .push ⟨8, .write 0⟩ false, .push ⟨8, .cas 0⟩ true,
    .push ⟨8, .load⟩ false, .push ⟨8, .write 0⟩ false, .push ⟨8, .cas 0⟩ false,
    .allocate, .owner 0, .owner 0]

theorem freeLists_conserved_drainRun :
    ∃ s, run PoolInterleaving.step init drainRun = some s ∧ ∃ l r d : List Addr,
      (Chain 0 s.next s.localHead l ∧ l.Nodup) ∧
      (Chain 0 s.next s.returnHead r ∧ r.Nodup) ∧
      (Chain 0 s.next s.owner.drained d ∧ d.Nodup) ∧
      s.obtained.Nodup ∧
      s.contents l r d .localChain + s.contents l r d .returnChain + s.contents l r d .handle +
        s.contents l r d .inTransit = s.obtained ∧
      (∀ buf ∈ s.obtained, ∃! place, buf ∈ s.contents l r d place) ∧
      (s.owner = .idle → s.pushers = 0 → s.contents l r d .inTransit = 0) := by
  have hsome : (run PoolInterleaving.step init drainRun).isSome := by decide +kernel
  obtain ⟨s, hs⟩ := Option.isSome_iff_exists.1 hsome
  exact ⟨s, hs, freeLists_conserved hs⟩

end PagedAlloc.PoolInterleaving
