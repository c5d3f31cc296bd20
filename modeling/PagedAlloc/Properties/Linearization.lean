import PagedAlloc.Construction.AtomicPool
import PagedAlloc.Properties.FreeListConservation

/-!
# The pool is linearizable

Under every interleaving the two free lists behave like two stacks whose operations happen one at
a time, in the order in which `linearize` lets them take effect (`pool_linearizable`): the run of
`AtomicPool` along these operations is legal, `allocate_raw_page` returns exactly what it returns
there, in the same order, and every `push_return` call takes effect once.

The exchange of `push_return` compares addresses only, so it also succeeds if the loaded head was
handed out and pushed again in between.  The link that was written is then right all the same: it
names the present head, whatever lies below it.
-/

namespace PagedAlloc.PoolInterleaving

open Words Transition Intrusive

variable {s t : State} {a : AtomicPool} {l r d l' r' d' : List Addr} {e : Event} {p : Push}
  {reply : Addr}

/-! ## The simulation relation -/

/-- The local list of the atomic pool, between two steps of the owner.  From the swap to the
`pop_local` that follows, the buffer to be returned is still linked in front of it. -/
def AtomicPool.IsLocal (a : AtomicPool) (o : OwnerPc) (l d : List Addr) : Prop :=
  match o with
  | .countDrain _ | .install _ => ∃ head, d = head :: a.localList
  | .popLocal true => ∃ head, l = head :: a.localList
  | _ => l = a.localList

/-- The owner has found both lists empty, and the source has not answered. -/
def OwnerPc.waits : OwnerPc → Bool
  | .countFresh | .sourceAllocate => true
  | _ => false

/-- The free lists of a state are those of the atomic pool. -/
def Linearized (s : State) (a : AtomicPool) : Prop :=
  ∃ l r d, Conserved s l r d ∧ r = a.returnQueue ∧ a.IsLocal s.owner l d ∧
    a.waiting = s.owner.waits

/-- A step leads to the chains it is seen to lead to. -/
lemma linearized_of_chains (hc : Conserved s l r d) (hstep : step s e = some t)
    (hlocal : Chain 0 t.next t.localHead l') (hreturn : Chain 0 t.next t.returnHead r')
    (hdrained : Chain 0 t.next t.owner.drained d') (hr : r' = a.returnQueue)
    (hl : a.IsLocal t.owner l' d') (hw : a.waiting = t.owner.waits) : Linearized t a := by
  obtain ⟨l₁, r₁, d₁, hc'⟩ := hc.step hstep
  obtain rfl := hc'.local_chain.unique hlocal
  obtain rfl := hc'.return_chain.unique hreturn
  obtain rfl := hc'.drained_chain.unique hdrained
  exact ⟨l₁, r₁, d₁, hc', hr, hl, hw⟩

/-! ## Steps -/

/-- The first word of a buffer in somebody's hands is on no chain. -/
lemma Conserved.update_chains (hc : Conserved s l r d) (word : Addr) {b : Addr}
    (hb : b ∈ s.held + s.beingPushed + s.owner.inHand) :
    Chain 0 (Function.update s.next b word) s.localHead l ∧
      Chain 0 (Function.update s.next b word) s.returnHead r ∧
      Chain 0 (Function.update s.next b word) s.owner.drained d := by
  obtain ⟨hl, hr, hd⟩ := hc.not_mem_chains hb
  exact ⟨hc.local_chain.update hl, hc.return_chain.update hr, hc.drained_chain.update hd⟩

/-- A `push_return` call takes effect at its exchange. -/
lemma linearized_pushStep (h : Linearized s a) (hp : p ∈ s.pushers) (spurious : Bool) :
    ∃ a', run AtomicPool.step a (linearize s (.push p spurious)) = some a' ∧
      Linearized (pushStep p spurious s) a' := by
  obtain ⟨l, r, d, hc, hr, hl, hw⟩ := h
  have hstep : step s (.push p spurious) = some (pushStep p spurious s) := if_pos hp
  obtain ⟨b, pc⟩ := p
  cases pc with
  | load =>
      refine ⟨a, rfl, ?_⟩
      exact linearized_of_chains hc hstep hc.local_chain hc.return_chain hc.drained_chain hr hl hw
  | write head =>
      have hb : b ∈ s.beingPushed := mem_beingPushed hp (by simp [Push.inHand])
      obtain ⟨hlocal, hreturn, hdrained⟩ := hc.update_chains head (b := b) (by simp [hb])
      exact ⟨a, rfl, linearized_of_chains hc hstep hlocal hreturn hdrained hr hl hw⟩
  | cas head =>
      have hb : b ∈ s.beingPushed := mem_beingPushed hp (inHand_of_cas rfl)
      have hob : b ∈ s.obtained := hc.mem_obtained.2 (by simp [hb])
      simp only [linearize]
      simp only [pushStep] at hstep ⊢
      split
      · rename_i hcas
        rw [if_pos hcas] at hstep
        refine ⟨_, rfl, linearized_of_chains hc hstep hc.local_chain ?_ hc.drained_chain
          (congrArg (b :: ·) hr) hl hw⟩
        -- The link in `b` is the loaded head, which the comparison found unchanged.
        refine .cons (hc.ne_zero hob) ?_
        rw [hc.linked _ hp head rfl, ← hcas.1]
        exact hc.return_chain
      · rename_i hcas
        rw [if_neg hcas] at hstep
        refine ⟨a, rfl, ?_⟩
        exact linearized_of_chains hc hstep hc.local_chain hc.return_chain hc.drained_chain hr hl hw
  | subPagesInUse =>
      refine ⟨a, rfl, ?_⟩
      exact linearized_of_chains hc hstep hc.local_chain hc.return_chain hc.drained_chain hr hl hw
  | addFreePages =>
      refine ⟨a, rfl, ?_⟩
      exact linearized_of_chains hc hstep hc.local_chain hc.return_chain hc.drained_chain hr hl hw

/-- A new buffer is on no chain. -/
lemma linearized_sourceReturns {o : OwnerPc} (hc : Conserved s l r d) (hr : r = a.returnQueue)
    (hl : l = a.localList) (ho : o.drained = 0)
    (hpc : ∀ l d, a.IsLocal o l d ↔ l = a.localList) (hw : a.waiting = o.waits)
    (hstep : step s e = some t) (hreturns : sourceReturns reply o s = some t) :
    Linearized t a := by
  rw [PoolInterleaving.sourceReturns] at hreturns
  split at hreturns
  · rename_i hreply
    obtain rfl := Option.some.inj hreturns
    have hnot := fun h => hreply.2.2 (hc.mem_obtained.2 h)
    have hnil : Chain 0 (Function.update s.next reply 0) o.drained [] := chain_nil_iff.2 ho
    exact linearized_of_chains hc hstep (hc.local_chain.update fun h => hnot (Or.inl h))
      (hc.return_chain.update fun h => hnot (Or.inr (Or.inl h))) hnil hr ((hpc l []).2 hl) hw
  · exact absurd hreturns (by simp)

/-- An allocation that finds the local list takes effect as it unlinks the head. -/
lemma linearized_popLocal {drained : Bool} (h : Linearized s a)
    (ho : s.owner = .popLocal drained) (hstep : step s (.owner reply) = some t) :
    ∃ a', run AtomicPool.step a (linearize s (.owner reply)) = some a' ∧ Linearized t a' := by
  obtain ⟨l, r, d, hc, hr, hl, hw⟩ := h
  have hown : ownerStep reply s = some t := hstep
  have hdr := hc.drained_chain
  rw [ho] at hl hw hdr
  simp only [ownerStep, ho] at hown
  simp only [linearize, ho]
  split at hown
  · rename_i hz
    obtain rfl := Option.some.inj hown
    have hempty : l = [] := by
      have := hc.local_chain
      rw [hz] at this
      exact chain_null_iff.1 this
    subst hempty
    cases drained with
    | true =>
        obtain ⟨head, hcons⟩ := hl
        exact absurd hcons (by simp)
    | false =>
        rw [if_pos hz]
        exact ⟨a, rfl,
          linearized_of_chains hc hstep hc.local_chain hc.return_chain hdr hr hl hw⟩
  · rename_i hz
    obtain rfl := Option.some.inj hown
    obtain ⟨tail, rfl, htail⟩ := (chain_of_ne hz).1 hc.local_chain
    cases drained with
    | true =>
        obtain ⟨head, hcons⟩ := hl
        obtain ⟨-, rfl⟩ := List.cons.inj hcons
        exact ⟨a, rfl, linearized_of_chains hc hstep htail hc.return_chain hdr hr rfl hw⟩
    | false =>
        have hlocal : s.localHead :: tail = a.localList := hl
        have hwaiting : a.waiting = false := hw
        refine ⟨⟨tail, a.returnQueue, false⟩, ?_,
          linearized_of_chains hc hstep htail hc.return_chain hdr hr rfl rfl⟩
        rw [if_neg hz, run_cons_eq_some]
        refine ⟨_, ?_, rfl⟩
        simp [AtomicPool.step, hwaiting, ← hlocal]

/-- Otherwise it takes effect at the swap: it takes the whole queue over, or finds both lists
empty. -/
lemma linearized_swap (h : Linearized s a) (ho : s.owner = .swap)
    (hstep : step s (.owner reply) = some t) :
    ∃ a', run AtomicPool.step a (linearize s (.owner reply)) = some a' ∧ Linearized t a' := by
  obtain ⟨l, r, d, hc, hr, hl, hw⟩ := h
  have hown : ownerStep reply s = some t := hstep
  have hdr := hc.drained_chain
  rw [ho] at hl hw hdr
  simp only [ownerStep, ho] at hown
  obtain rfl := Option.some.inj hown
  obtain rfl : d = [] := chain_null_iff.1 hdr
  have hempty : l = [] := hc.local_empty (by simp [ho, OwnerPc.drains])
  have hlocal : l = a.localList := hl
  simp only [linearize, ho]
  split
  · rename_i hz
    rw [if_pos hz] at hstep
    have hqueue : r = [] := by
      have := hc.return_chain
      rw [hz] at this
      exact chain_null_iff.1 this
    have hnil : Chain 0 s.next 0 [] := .nil
    have hlin : Linearized _ { a with waiting := true } :=
      linearized_of_chains hc hstep hc.local_chain hnil hnil (hqueue.symm.trans hr) hlocal rfl
    refine ⟨_, ?_, hlin⟩
    rw [run_cons_eq_some]
    refine ⟨_, ?_, rfl⟩
    exact if_pos ⟨hw, hlocal.symm.trans hempty, hr.symm.trans hqueue⟩
  · -- The whole queue is taken over, its head already promised.
    rename_i hz
    rw [if_neg hz] at hstep
    obtain ⟨tail, rfl, htail⟩ := (chain_of_ne hz).1 hc.return_chain
    have hwaiting : a.waiting = false := hw
    have hlocal' : AtomicPool.IsLocal ⟨tail, [], false⟩ (.countDrain s.returnHead) l
        (s.returnHead :: tail) := ⟨s.returnHead, rfl⟩
    refine ⟨⟨tail, [], false⟩, ?_, linearized_of_chains hc hstep hc.local_chain .nil
      hc.return_chain rfl hlocal' rfl⟩
    rw [run_cons_eq_some]
    refine ⟨_, ?_, rfl⟩
    simp [AtomicPool.step, hwaiting, ← hlocal, hempty, ← hr]

/-- A buffer of `prewarm` is on the local list from the store of `local_head` on. -/
lemma linearized_setLocalHead {buf : Addr} {left total : ℕ} (h : Linearized s a)
    (ho : s.owner = .setLocalHead buf left total) (hstep : step s (.owner reply) = some t) :
    ∃ a', run AtomicPool.step a (linearize s (.owner reply)) = some a' ∧ Linearized t a' := by
  obtain ⟨l, r, d, hc, hr, hl, hw⟩ := h
  have hown : ownerStep reply s = some t := hstep
  have hdr := hc.drained_chain
  have hhand : buf ∈ s.owner.inHand := by simp [ho, OwnerPc.inHand]
  have hob : buf ∈ s.obtained := hc.mem_obtained.2 (by simp [hhand])
  have hlinked := hc.owner_linked buf left total ho
  rw [ho] at hl hw hdr
  have hlocal : l = a.localList := hl
  simp only [ownerStep, ho] at hown
  obtain rfl := Option.some.inj hown
  simp only [linearize, ho]
  have hlink : Chain 0 s.next buf (buf :: l) := by
    refine .cons (hc.ne_zero hob) ?_
    rw [show s.next buf = s.localHead from hlinked]
    exact hc.local_chain
  have hwaiting : a.waiting = false := hw
  have hlin : Linearized _ { a with localList := buf :: a.localList } :=
    linearized_of_chains hc hstep hlink hc.return_chain hdr hr (congrArg (buf :: ·) hlocal) hw
  refine ⟨_, ?_, hlin⟩
  rw [run_cons_eq_some]
  refine ⟨_, ?_, rfl⟩
  rw [AtomicPool.step, hwaiting]
  rfl

/-- A step of the owner: the pop, the swap and the store of `prewarm` take effect. -/
lemma linearized_ownerStep (h : Linearized s a) (hstep : step s (.owner reply) = some t) :
    ∃ a', run AtomicPool.step a (linearize s (.owner reply)) = some a' ∧ Linearized t a' := by
  obtain ⟨l, r, d, hc, hr, hl, hw⟩ := id h
  have hown : ownerStep reply s = some t := hstep
  have hdr := hc.drained_chain
  cases ho : s.owner with
  | idle => simp [ownerStep, ho] at hown
  | popLocal drained => exact linearized_popLocal h ho hstep
  | swap => exact linearized_swap h ho hstep
  | install head =>
      rw [ho] at hl hw hdr
      simp only [ownerStep, ho] at hown
      obtain rfl := Option.some.inj hown
      simp only [linearize, ho]
      have hnil : Chain 0 s.next 0 [] := .nil
      exact ⟨a, rfl, linearized_of_chains hc hstep hdr hc.return_chain hnil hr hl hw⟩
  | sourceAllocate =>
      rw [ho] at hl hw
      simp only [ownerStep, ho] at hown
      simp only [linearize, ho]
      have hwaiting : a.waiting = true := hw
      have hlin : Linearized t { a with waiting := false } :=
        linearized_sourceReturns hc hr hl rfl (fun _ _ => Iff.rfl) rfl hstep hown
      refine ⟨_, ?_, hlin⟩
      rw [run_cons_eq_some]
      exact ⟨_, if_pos hwaiting, rfl⟩
  | prewarm left total =>
      rw [ho] at hl hw hdr
      simp only [linearize, ho]
      cases left with
      | zero =>
          simp only [ownerStep, ho] at hown
          obtain rfl := Option.some.inj hown
          exact ⟨a, rfl, linearized_of_chains hc hstep hc.local_chain hc.return_chain hdr hr hl hw⟩
      | succ left =>
          simp only [ownerStep, ho] at hown
          have hwaiting : a.waiting = (OwnerPc.link reply left total).waits := hw
          exact ⟨a, rfl,
            linearized_sourceReturns hc hr hl rfl (fun _ _ => Iff.rfl) hwaiting hstep hown⟩
  | link buf left total =>
      have hhand : buf ∈ s.owner.inHand := by simp [ho, OwnerPc.inHand]
      obtain ⟨hlocal, hreturn, hdrained⟩ :=
        hc.update_chains s.localHead (b := buf) (by simp [hhand])
      rw [ho] at hl hw hdrained
      simp only [ownerStep, ho] at hown
      obtain rfl := Option.some.inj hown
      simp only [linearize, ho]
      exact ⟨a, rfl, linearized_of_chains hc hstep hlocal hreturn hdrained hr hl hw⟩
  | setLocalHead buf left total => exact linearized_setLocalHead h ho hstep
  | subFreePages _ | countDrain _ | countFresh | addPagesInUse _ | prewarmHeap _ | prewarmFree _
  | prewarmCount _ =>
      -- Counters only.
      rw [ho] at hl hw hdr
      simp only [ownerStep, ho] at hown
      obtain rfl := Option.some.inj hown
      simp only [linearize, ho]
      exact ⟨a, rfl, linearized_of_chains hc hstep hc.local_chain hc.return_chain hdr hr hl hw⟩

/-- **The step lemma.** -/
lemma linearized_step (h : Linearized s a) (hstep : step s e = some t) :
    ∃ a', run AtomicPool.step a (linearize s e) = some a' ∧ Linearized t a' := by
  cases e with
  | owner reply => exact linearized_ownerStep h hstep
  | push p spurious =>
      have hpush := hstep
      simp only [step, Option.ite_none_right_eq_some] at hpush
      obtain ⟨hp, hpush⟩ := hpush
      obtain rfl := Option.some.inj hpush
      exact linearized_pushStep h hp spurious
  | scribble buf word =>
      obtain ⟨l, r, d, hc, hr, hl, hw⟩ := h
      have hwrite := hstep
      simp only [step, Option.ite_none_right_eq_some] at hwrite
      obtain ⟨hb, hwrite⟩ := hwrite
      obtain rfl := Option.some.inj hwrite
      obtain ⟨hlocal, hreturn, hdrained⟩ :=
        hc.update_chains word (b := buf) (by simp [hb])
      exact ⟨a, rfl, linearized_of_chains hc hstep hlocal hreturn hdrained hr hl hw⟩
  | drop buf =>
      obtain ⟨l, r, d, hc, hr, hl, hw⟩ := h
      have hdrop := hstep
      simp only [step, Option.ite_none_right_eq_some] at hdrop
      obtain ⟨-, hdrop⟩ := hdrop
      obtain rfl := Option.some.inj hdrop
      refine ⟨a, rfl, ?_⟩
      exact linearized_of_chains hc hstep hc.local_chain hc.return_chain hc.drained_chain hr hl hw
  | allocate | prewarm _ =>
      obtain ⟨l, r, d, hc, hr, hl, hw⟩ := h
      have hdr := hc.drained_chain
      have hcall := hstep
      simp only [step, Option.ite_none_right_eq_some] at hcall
      obtain ⟨ho, hcall⟩ := hcall
      obtain rfl := Option.some.inj hcall
      rw [ho] at hl hw hdr
      exact ⟨a, rfl, linearized_of_chains hc hstep hc.local_chain hc.return_chain hdr hr hl hw⟩
  | allocateFails =>
      obtain ⟨l, r, d, hc, hr, hl, hw⟩ := h
      have hdr := hc.drained_chain
      have hcall := hstep
      simp only [step, Option.ite_none_right_eq_some] at hcall
      obtain ⟨ho, hcall⟩ := hcall
      obtain rfl := Option.some.inj hcall
      rw [ho] at hl hw hdr
      have hwaiting : a.waiting = true := hw
      have hlin : Linearized _ { a with waiting := false } :=
        linearized_of_chains hc hstep hc.local_chain hc.return_chain hdr hr hl rfl
      refine ⟨_, ?_, hlin⟩
      rw [linearize, run_cons_eq_some]
      exact ⟨_, if_pos hwaiting, rfl⟩
  | prewarmFails =>
      obtain ⟨l, r, d, hc, hr, hl, hw⟩ := h
      have hdr := hc.drained_chain
      have hfail := hstep
      simp only [step] at hfail
      split at hfail
      · rename_i left total ho
        obtain rfl := Option.some.inj hfail
        rw [ho] at hl hw hdr
        exact ⟨a, rfl, linearized_of_chains hc hstep hc.local_chain hc.return_chain hdr hr hl hw⟩
      · exact absurd hfail (by simp)

/-! ## Results -/

/-- A buffer is promised when its allocation takes effect, and delivered later. -/
lemma promised_step (h : Linearized s a) (hstep : step s e = some t) :
    s.promised ++ (linearize s e).filterMap AtomicOp.result = delivered s e ++ t.promised := by
  cases e with
  | owner reply =>
      obtain ⟨l, r, d, hc, hr, hl, hw⟩ := h
      have hown : ownerStep reply s = some t := hstep
      cases ho : s.owner with
      | idle => simp [ownerStep, ho] at hown
      | popLocal drained =>
          simp only [ownerStep, ho] at hown
          split at hown
          · rename_i hz
            obtain rfl := Option.some.inj hown
            cases drained with
            | true =>
                -- The local chain is the drained one, which is not empty.
                rw [ho] at hl
                obtain ⟨head, rfl⟩ := hl
                have hchain := hc.local_chain
                rw [hz] at hchain
                exact absurd (chain_null_iff.1 hchain) (by simp)
            | false => simp [State.promised, linearize, delivered, ho, hz]
          · rename_i hz
            obtain rfl := Option.some.inj hown
            cases drained <;>
              simp [State.promised, linearize, delivered, ho, hz, AtomicOp.result]
      | swap =>
          simp only [ownerStep, ho] at hown
          obtain rfl := Option.some.inj hown
          by_cases hz : s.returnHead = 0 <;>
            simp [State.promised, linearize, delivered, ho, hz, AtomicOp.result]
      | sourceAllocate =>
          simp only [ownerStep, ho, sourceReturns, Option.ite_none_right_eq_some] at hown
          obtain ⟨-, hown⟩ := hown
          obtain rfl := Option.some.inj hown
          simp [State.promised, linearize, delivered, ho, AtomicOp.result]
      | prewarm left total =>
          cases left with
          | zero =>
              simp only [ownerStep, ho] at hown
              obtain rfl := Option.some.inj hown
              simp [State.promised, linearize, delivered, ho]
          | succ left =>
              simp only [ownerStep, ho, sourceReturns, Option.ite_none_right_eq_some] at hown
              obtain ⟨-, hown⟩ := hown
              obtain rfl := Option.some.inj hown
              simp [State.promised, linearize, delivered, ho]
      | _ =>
          simp only [ownerStep, ho] at hown
          obtain rfl := Option.some.inj hown
          simp [State.promised, linearize, delivered, ho, AtomicOp.result]
  | push p spurious =>
      simp only [step, Option.ite_none_right_eq_some] at hstep
      obtain ⟨-, hstep⟩ := hstep
      obtain rfl := Option.some.inj hstep
      have hresult : (linearize s (.push p spurious)).filterMap AtomicOp.result = [] := by
        cases hpc : p.pc with
        | cas head =>
            simp only [linearize, hpc]
            split <;> rfl
        | _ => simp [linearize, hpc]
      have hsame : (pushStep p spurious s).promised = s.promised := by
        unfold pushStep
        split
        · rfl
        · rfl
        · split <;> rfl
        · rfl
        · rfl
      rw [hresult, hsame, List.append_nil]
      rfl
  | drop buf | scribble buf word =>
      simp only [step, Option.ite_none_right_eq_some] at hstep
      obtain ⟨-, hstep⟩ := hstep
      obtain rfl := Option.some.inj hstep
      exact List.append_nil _
  | allocate | prewarm _ | allocateFails =>
      simp only [step, Option.ite_none_right_eq_some] at hstep
      obtain ⟨ho, hstep⟩ := hstep
      obtain rfl := Option.some.inj hstep
      simp [State.promised, linearize, delivered, ho, AtomicOp.result]
  | prewarmFails =>
      simp only [step] at hstep
      split at hstep
      · rename_i left total ho
        obtain rfl := Option.some.inj hstep
        simp [State.promised, linearize, delivered, ho]
      · exact absurd hstep (by simp)

/-- A `push_return` call is in flight until it takes effect. -/
lemma count_step (b : Addr) (hstep : step s e = some t) :
    (linearize s e).count (.pushReturn b) + t.beingPushed.count b =
      s.beingPushed.count b + [e].count (.drop b) := by
  cases e with
  | push p spurious =>
      simp only [step, Option.ite_none_right_eq_some] at hstep
      obtain ⟨hp, hstep⟩ := hstep
      obtain rfl := Option.some.inj hstep
      have hevent : [Event.push p spurious].count (.drop b) = 0 := by simp
      rw [beingPushed_eq hp, hevent, add_zero]
      obtain ⟨c, pc⟩ := p
      cases pc with
      | cas head =>
          simp only [linearize, pushStep]
          split
          · by_cases hcb : c = b
            · simp [State.beingPushed, Push.inHand, hcb, add_comm]
            · simp [State.beingPushed, Push.inHand, hcb, Ne.symm hcb]
          · simp [State.beingPushed, Push.inHand]
      | _ => simp [linearize, pushStep, State.beingPushed, Push.inHand]
  | drop buf =>
      simp only [step, Option.ite_none_right_eq_some] at hstep
      obtain ⟨-, hstep⟩ := hstep
      obtain rfl := Option.some.inj hstep
      by_cases hbuf : buf = b
      · simp [linearize, State.beingPushed, Push.inHand, hbuf, add_comm]
      · simp [linearize, State.beingPushed, Push.inHand, hbuf, Ne.symm hbuf]
  | owner reply =>
      have hframe := (ownerStep_frame (s := s) hstep).1
      have hlabel : (linearize s (.owner reply)).count (.pushReturn b) = 0 := by
        simp only [linearize]
        split <;> (try split) <;> simp
      simp [State.beingPushed, hframe, hlabel]
  | allocate | prewarm _ | allocateFails | scribble _ _ =>
      simp only [step, Option.ite_none_right_eq_some] at hstep
      obtain ⟨-, hstep⟩ := hstep
      obtain rfl := Option.some.inj hstep
      simp [linearize, State.beingPushed]
  | prewarmFails =>
      simp only [step] at hstep
      split at hstep
      · obtain rfl := Option.some.inj hstep
        simp [linearize, State.beingPushed]
      · exact absurd hstep (by simp)

/-! ## Whole runs -/

lemma linearized_init : Linearized init .empty :=
  ⟨[], [], [], conserved_init, rfl, rfl, rfl⟩

/-- The operations of a run in the order in which they take effect. -/
def history (es : List Event) : List AtomicOp := emitted step linearize init es

lemma linearized_run {es : List Event} (h : run step init es = some s) :
    ∃ a, run AtomicPool.step .empty (history es) = some a ∧ Linearized s a :=
  run_emitted (fun _ _ _ _ hlin hstep => linearized_step hlin hstep) linearized_init h

lemma results_run {es : List Event} (h : run step init es = some s) :
    (history es).filterMap AtomicOp.result = emitted step delivered init es ++ s.promised := by
  refine run_induction (P := fun es s => (history es).filterMap AtomicOp.result =
    emitted step delivered init es ++ s.promised) rfl ?_ h
  intro es s e t hs ih hstep
  obtain ⟨a, -, hlin⟩ := linearized_run hs
  rw [history, emitted_concat hs, emitted_concat hs, List.filterMap_append,
    show (emitted step linearize init es).filterMap AtomicOp.result = _ from ih,
    List.append_assoc, promised_step hlin hstep, List.append_assoc]

lemma count_run {es : List Event} (h : run step init es = some s) (b : Addr) :
    (history es).count (.pushReturn b) + s.beingPushed.count b = es.count (.drop b) := by
  refine run_induction (P := fun es s =>
    (history es).count (.pushReturn b) + s.beingPushed.count b = es.count (.drop b)) rfl ?_ h
  intro es s e t hs ih hstep
  have hcount := count_step b hstep
  rw [history, emitted_concat hs, List.count_append, List.count_append,
    show (emitted step linearize init es).count (.pushReturn b) = (history es).count _ from rfl]
  omega

/-- **The pool is linearizable.**  In every interleaving of the owner with any number of
`push_return` calls, the operations in the order of their effects are a run of two stacks that ends
in the free lists of the state; the allocations have returned the buffers they return in that run,
in the same order, but for the one whose result is decided and not yet returned; and every
`push_return` call that is not in flight took effect exactly once. -/
theorem pool_linearizable {es : List Event} (h : run step init es = some s) :
    ∃ a, run AtomicPool.step .empty (history es) = some a ∧
      Chain 0 s.next s.returnHead a.returnQueue ∧
      (s.owner = .idle → Chain 0 s.next s.localHead a.localList) ∧
      (history es).filterMap AtomicOp.result = emitted step delivered init es ++ s.promised ∧
      ∀ b, (history es).count (.pushReturn b) + s.beingPushed.count b = es.count (.drop b) := by
  obtain ⟨a, hrun, l, r, d, hc, hr, hl, -⟩ := linearized_run h
  refine ⟨a, hrun, hr ▸ hc.return_chain, ?_, results_run h, count_run h⟩
  intro ho
  rw [ho] at hl
  have hlocal : l = a.localList := hl
  exact hlocal ▸ hc.local_chain

/-- A call that pushes `16` loads the head `8`; before its exchange the owner drains the queue,
hands `8` out, and it is dropped and pushed again.  The exchange succeeds. -/
def sameHeadRun : List Event :=
  [.prewarm 2, .owner 8, .owner 0, .owner 0, .owner 16, .owner 0, .owner 0, .owner 0, .owner 0,
    .owner 0, .owner 0,
    .allocate, .owner 0, .owner 0, .owner 0, .allocate, .owner 0, .owner 0, .owner 0,
    .drop 8, .push ⟨8, .load⟩ false, .push ⟨8, .write 0⟩ false, .push ⟨8, .cas 0⟩ false,
    .drop 16, .push ⟨16, .load⟩ false,
    .allocate, .owner 0, .owner 0, .owner 0, .owner 0, .owner 0, .owner 0, .owner 0,
    .drop 8, .push ⟨8, .load⟩ false, .push ⟨8, .write 0⟩ false, .push ⟨8, .cas 0⟩ false,
    .push ⟨16, .write 8⟩ false, .push ⟨16, .cas 8⟩ false]

example : history sameHeadRun = [.prewarm 8, .prewarm 16, .take 16, .take 8, .pushReturn 8, .take 8,
    .pushReturn 8, .pushReturn 16] := by decide +kernel

theorem pool_linearizable_sameHead :
    ∃ s a, run step init sameHeadRun = some s ∧
      run AtomicPool.step .empty (history sameHeadRun) = some a ∧
      Chain 0 s.next s.returnHead a.returnQueue ∧
      (s.owner = .idle → Chain 0 s.next s.localHead a.localList) ∧
      (history sameHeadRun).filterMap AtomicOp.result =
        emitted step delivered init sameHeadRun ++ s.promised ∧
      ∀ b, (history sameHeadRun).count (.pushReturn b) + s.beingPushed.count b =
        sameHeadRun.count (.drop b) := by
  have hsome : (run step init sameHeadRun).isSome := by decide +kernel
  obtain ⟨s, hs⟩ := Option.isSome_iff_exists.1 hsome
  obtain ⟨a, hrun, hrest⟩ := pool_linearizable hs
  exact ⟨s, a, hs, hrun, hrest⟩

end PagedAlloc.PoolInterleaving
