import PagedAlloc.Properties.FreeListConservation

/-!
# Who has which buffer

The pool as a machine that moves buffers between hands: the owner's, with the local list and the
drained chain, the return queue's, those of the holders and those of the `push_return` calls.
Every step of `PoolInterleaving` is one of its moves (`isAt_step`), so what depends on who
has a buffer, and not on how the lists are linked, can be proved on the moves alone.
-/

namespace PagedAlloc.PoolInterleaving

open Transition Intrusive

/-- The buffers in the hands of each party, and all that were obtained. -/
structure Whereabouts where
  owned : Multiset Addr
  queued : Multiset Addr
  held : Multiset Addr
  pushed : Multiset Addr
  obtained : Multiset Addr
  deriving DecidableEq

inductive Move
  | stay
  /-- The owner gets a new buffer from the source. -/
  | obtain (buf : Addr)
  /-- The owner takes the return queue. -/
  | drain
  /-- The owner gives a buffer to a holder. -/
  | handOut (buf : Addr)
  /-- The last holder of a buffer calls `push_return`. -/
  | drop (buf : Addr)
  /-- `push_return` succeeds. -/
  | queue (buf : Addr)
  deriving DecidableEq, Repr

def Whereabouts.step (w : Whereabouts) : Move → Option Whereabouts
  | .stay => some w
  | .obtain buf =>
      if buf ∈ w.obtained then none
      else some { w with owned := buf ::ₘ w.owned, obtained := buf ::ₘ w.obtained }
  | .drain => some { w with owned := w.owned + w.queued, queued := 0 }
  | .handOut buf =>
      if buf ∈ w.owned then some { w with owned := w.owned.erase buf, held := buf ::ₘ w.held }
      else none
  | .drop buf =>
      if buf ∈ w.held then some { w with held := w.held.erase buf, pushed := buf ::ₘ w.pushed }
      else none
  | .queue buf =>
      if buf ∈ w.pushed then
        some { w with pushed := w.pushed.erase buf, queued := buf ::ₘ w.queued }
      else none

/-- The move that a step of the owner is. -/
def OwnerPc.move (o : OwnerPc) (reply : Addr) : Move :=
  match o with
  | .sourceAllocate | .prewarm (_ + 1) _ => .obtain reply
  | .swap => .drain
  | .addPagesInUse buf => .handOut buf
  | _ => .stay

/-- The move that a step of the pool is. -/
def moveOf (s : State) : Event → Move
  | .owner reply => s.owner.move reply
  | .drop buf => .drop buf
  | .push ⟨buf, .cas head⟩ spurious =>
      if s.returnHead = head ∧ spurious = false then .queue buf else .stay
  | _ => .stay

/-- The whereabouts of the buffers, with the nodes of the three chains. -/
def State.whereabouts (s : State) (l r d : List Addr) : Whereabouts :=
  ⟨l + d + s.owner.inHand, r, s.held, s.beingPushed, s.obtained⟩

/-- The buffers are where `w` says. -/
def State.IsAt (s : State) (w : Whereabouts) : Prop :=
  ∃ l r d, Conserved s l r d ∧ w = s.whereabouts l r d

variable {s t : State} {w w' : Whereabouts} {l r d l' r' d' : List Addr} {e : Event} {p : Push}
  {buf reply : Addr}

/-! ## The parties share the buffers -/

/-- Nobody has a buffer twice, and no two parties have the same. -/
structure Whereabouts.Shared (w : Whereabouts) : Prop where
  partition : w.owned + w.queued + w.held + w.pushed = w.obtained
  nodup : w.obtained.Nodup

lemma State.IsAt.shared (h : s.IsAt w) : w.Shared := by
  obtain ⟨l, r, d, hc, rfl⟩ := h
  refine ⟨?_, hc.nodup⟩
  show _ = s.obtained
  rw [← hc.partition]
  simp only [State.whereabouts]
  abel

namespace Whereabouts.Shared

lemma disjoint (h : w.Shared) :
    Disjoint w.owned w.queued ∧ Disjoint (w.owned + w.queued) w.held ∧
      Disjoint (w.owned + w.queued + w.held) w.pushed := by
  have hn := h.nodup
  rw [← h.partition] at hn
  obtain ⟨hn, -, h₃⟩ := Multiset.nodup_add.1 hn
  obtain ⟨hn, -, h₂⟩ := Multiset.nodup_add.1 hn
  exact ⟨(Multiset.nodup_add.1 hn).2.2, h₂, h₃⟩

lemma of_owned (h : w.Shared) (hb : buf ∈ w.owned) :
    buf ∉ w.queued ∧ buf ∉ w.held ∧ buf ∉ w.pushed ∧ buf ∈ w.obtained := by
  obtain ⟨h₁, h₂, h₃⟩ := h.disjoint
  refine ⟨Multiset.disjoint_left.1 h₁ hb, Multiset.disjoint_left.1 h₂ ?_,
    Multiset.disjoint_left.1 h₃ ?_, ?_⟩
  · simp [hb]
  · simp [hb]
  · rw [← h.partition]
    simp [hb]

lemma of_held (h : w.Shared) (hb : buf ∈ w.held) :
    buf ∉ w.owned ∧ buf ∉ w.queued ∧ buf ∉ w.pushed ∧ buf ∈ w.obtained := by
  obtain ⟨-, h₂, h₃⟩ := h.disjoint
  have hnot := Multiset.disjoint_right.1 h₂ hb
  simp only [Multiset.mem_add, not_or] at hnot
  refine ⟨hnot.1, hnot.2, Multiset.disjoint_left.1 h₃ ?_, ?_⟩
  · simp [hb]
  · rw [← h.partition]
    simp [hb]

lemma of_pushed (h : w.Shared) (hb : buf ∈ w.pushed) :
    buf ∉ w.owned ∧ buf ∉ w.queued ∧ buf ∉ w.held ∧ buf ∈ w.obtained := by
  obtain ⟨-, -, h₃⟩ := h.disjoint
  have hnot := Multiset.disjoint_right.1 h₃ hb
  simp only [Multiset.mem_add, not_or] at hnot
  refine ⟨hnot.1.1, hnot.1.2, hnot.2, ?_⟩
  rw [← h.partition]
  simp [hb]

lemma nodup_held (h : w.Shared) : w.held.Nodup := by
  have hn := h.nodup
  rw [← h.partition] at hn
  exact (Multiset.nodup_add.1 (Multiset.nodup_add.1 hn).1).2.1

end Whereabouts.Shared

/-! ## Steps -/

lemma isAt_init : init.IsAt ⟨0, 0, 0, 0, 0⟩ :=
  ⟨[], [], [], conserved_init, by simp [State.whereabouts, init, OwnerPc.inHand, State.beingPushed]⟩

/-- What the owner has is what is left. -/
lemma Conserved.owned_add (hc : Conserved s l r d) :
    (l + d + s.owner.inHand : Multiset Addr) + (r + s.held + s.beingPushed) = s.obtained := by
  rw [← hc.partition]
  abel

/-- A step after which all others have what they had leaves the owner what it had. -/
lemma Conserved.step_stay (hc : Conserved s l r d) (hc' : Conserved t l' r' d') (hr : r' = r)
    (hheld : t.held = s.held) (hpushed : t.beingPushed = s.beingPushed)
    (hobtained : t.obtained = s.obtained) :
    (s.whereabouts l r d).step .stay = some (t.whereabouts l' r' d') := by
  have h := hc.owned_add
  rw [← hobtained, ← hc'.owned_add, hr, hheld, hpushed] at h
  simp only [Whereabouts.step, State.whereabouts, hr, hheld, hpushed, hobtained,
    ← add_right_cancel h]

lemma Conserved.step_obtain (hc : Conserved s l r d) (hc' : Conserved t l' r' d') (hr : r' = r)
    (hheld : t.held = s.held) (hpushed : t.beingPushed = s.beingPushed)
    (hobtained : t.obtained = reply ::ₘ s.obtained) (hnew : reply ∉ s.obtained) :
    (s.whereabouts l r d).step (.obtain reply) = some (t.whereabouts l' r' d') := by
  have h := hc'.owned_add
  rw [hobtained, ← hc.owned_add, hr, hheld, hpushed, ← Multiset.cons_add] at h
  rw [Whereabouts.step, if_neg (show reply ∉ (s.whereabouts l r d).obtained from hnew)]
  simp only [State.whereabouts, hr, hheld, hpushed, hobtained, add_right_cancel h]

/-- The source answers with a new buffer, and the return queue stays. -/
lemma isAt_sourceReturns (hc : Conserved s l r d) (hc' : Conserved t l' r' d')
    {o : OwnerPc} (h : sourceReturns reply o s = some t) :
    (s.whereabouts l r d).step (.obtain reply) = some (t.whereabouts l' r' d') := by
  simp only [sourceReturns, Option.ite_none_right_eq_some] at h
  obtain ⟨⟨-, -, hnew⟩, h⟩ := h
  obtain rfl := Option.some.inj h
  have hr : reply ∉ r := fun hmem => hnew (hc.mem_obtained.2 (.inr (.inl hmem)))
  exact hc.step_obtain hc' (hc'.return_chain.unique (hc.return_chain.update hr)) rfl rfl rfl hnew

lemma isAt_ownerStep (hc : Conserved s l r d) (hc' : Conserved t l' r' d')
    (h : ownerStep reply s = some t) :
    (s.whereabouts l r d).step (s.owner.move reply) = some (t.whereabouts l' r' d') := by
  have stays : ∀ {u : State}, u = t → u.next = s.next → u.returnHead = s.returnHead →
      u.held = s.held → u.pushers = s.pushers → u.obtained = s.obtained →
      (s.whereabouts l r d).step .stay = some (t.whereabouts l' r' d') := by
    rintro u rfl hnext hreturn hheld hpushers hobtained
    have hr := hc'.return_chain
    rw [hnext, hreturn] at hr
    exact hc.step_stay hc' (hr.unique hc.return_chain) hheld
      (by rw [State.beingPushed, hpushers, State.beingPushed]) hobtained
  cases ho : s.owner with
  | idle => simp [ownerStep, ho] at h
  | popLocal drained =>
      simp only [ownerStep, ho] at h
      split at h <;> exact stays (Option.some.inj h) rfl rfl rfl rfl rfl
  | swap =>
      simp only [ownerStep, ho] at h
      obtain rfl := Option.some.inj h
      obtain rfl : r' = [] := chain_null_iff.1 hc'.return_chain
      have howned : _ + (0 + s.held + s.beingPushed) = s.obtained := hc'.owned_add
      rw [← hc.owned_add, zero_add, add_assoc (r : Multiset Addr),
        ← add_assoc _ (r : Multiset Addr)] at howned
      have howned := add_right_cancel howned
      simp only [OwnerPc.move, Whereabouts.step, State.whereabouts, howned, ho]
      rfl
  | link buf left total =>
      have hhand : buf ∈ s.owner.inHand := by simp [ho, OwnerPc.inHand]
      obtain ⟨-, hr, -⟩ := hc.not_mem_chains (Multiset.mem_add.2 (Or.inr hhand))
      simp only [ownerStep, ho] at h
      obtain rfl := Option.some.inj h
      exact hc.step_stay hc' (hc'.return_chain.unique (hc.return_chain.update hr)) rfl rfl rfl
  | addPagesInUse buf =>
      simp only [ownerStep, ho] at h
      obtain rfl := Option.some.inj h
      obtain rfl : r' = r := hc'.return_chain.unique hc.return_chain
      have howned := hc.owned_add
      rw [← show _ + (r' + buf ::ₘ s.held + s.beingPushed) = s.obtained from hc'.owned_add,
        Multiset.add_cons, Multiset.cons_add, Multiset.add_cons, ← Multiset.cons_add] at howned
      have howned := add_right_cancel howned
      have hmem : buf ∈ (s.whereabouts l r' d).owned := by
        rw [show (s.whereabouts l r' d).owned = _ from howned]
        exact Multiset.mem_cons_self ..
      rw [OwnerPc.move, Whereabouts.step, if_pos hmem]
      simp only [State.whereabouts, howned, Multiset.erase_cons_head]
      rfl
  | sourceAllocate =>
      simp only [ownerStep, ho] at h
      exact isAt_sourceReturns hc hc' h
  | prewarm left total =>
      cases left with
      | zero =>
          simp only [ownerStep, ho] at h
          exact stays (Option.some.inj h) rfl rfl rfl rfl rfl
      | succ left =>
          simp only [ownerStep, ho] at h
          exact isAt_sourceReturns hc hc' h
  | _ =>
      simp only [ownerStep, ho] at h
      exact stays (Option.some.inj h) rfl rfl rfl rfl rfl

/-- A `push_return` call that moves on and does not finish its exchange. -/
lemma beingPushed_move {p' : Push} (hp : p ∈ s.pushers) (h : p'.inHand = p.inHand) :
    (p' ::ₘ s.pushers.erase p).bind Push.inHand = s.beingPushed := by
  rw [beingPushed_eq hp, Multiset.cons_bind, h]

lemma isAt_pushStep (hc : Conserved s l r d) {spurious : Bool} (hp : p ∈ s.pushers)
    (hc' : Conserved (pushStep p spurious s) l' r' d') :
    (s.whereabouts l r d).step (moveOf s (.push p spurious)) =
      some ((pushStep p spurious s).whereabouts l' r' d') := by
  obtain ⟨buf, pc⟩ := p
  have hr := hc'.return_chain
  cases pc with
  | load =>
      exact hc.step_stay hc' (hr.unique hc.return_chain) rfl (beingPushed_move hp rfl) rfl
  | write head =>
      have hmem : buf ∈ s.beingPushed := mem_beingPushed hp (by simp [Push.inHand])
      obtain ⟨-, hnot, -⟩ := hc.not_mem_chains (Multiset.mem_add.2 (Or.inl (Multiset.mem_add.2
        (Or.inr hmem))))
      exact hc.step_stay hc' (hr.unique (hc.return_chain.update hnot)) rfl
        (beingPushed_move hp rfl) rfl
  | cas head =>
      by_cases hcas : s.returnHead = head ∧ spurious = false
      · have hmem : buf ∈ s.beingPushed := mem_beingPushed hp (by simp [Push.inHand])
        have hob : buf ∈ s.obtained := hc.mem_obtained.2 (by simp [hmem])
        have hpushed : s.beingPushed = buf ::ₘ ((⟨buf, .subPagesInUse⟩ : Push) ::ₘ
            s.pushers.erase ⟨buf, .cas head⟩).bind Push.inHand := by
          rw [beingPushed_eq hp, Multiset.cons_bind]
          simp [Push.inHand]
        rw [moveOf, if_pos hcas, Whereabouts.step,
          if_pos (show buf ∈ (s.whereabouts l r d).pushed from hmem)]
        simp only [pushStep, if_pos hcas] at hc' hr ⊢
        obtain rfl : r' = buf :: r := by
          refine hr.unique (.cons (hc.ne_zero hob) ?_)
          rw [hc.linked _ hp head rfl, ← hcas.1]
          exact hc.return_chain
        have howned := hc.owned_add
        rw [← show _ + (_ + s.held + _) = s.obtained from hc'.owned_add, hpushed,
          ← Multiset.cons_coe] at howned
        simp only [Multiset.add_cons, Multiset.cons_add] at howned
        have howned := add_right_cancel ((Multiset.cons_inj_right buf).1 howned)
        simp only [State.whereabouts, howned, hpushed, Multiset.erase_cons_head, Multiset.cons_coe]
        rfl
      · rw [moveOf, if_neg hcas]
        simp only [pushStep, if_neg hcas] at hc' hr ⊢
        exact hc.step_stay hc' (hr.unique hc.return_chain) rfl (beingPushed_move hp rfl) rfl
  | subPagesInUse =>
      exact hc.step_stay hc' (hr.unique hc.return_chain) rfl (beingPushed_move hp rfl) rfl
  | addFreePages =>
      refine hc.step_stay hc' (hr.unique hc.return_chain) rfl ?_ rfl
      rw [beingPushed_eq hp]
      simp [State.beingPushed, pushStep, Push.inHand]

/-- **Every step of the pool is a move.** -/
theorem isAt_step (hs : s.IsAt w) (h : step s e = some t) :
    ∃ w', w.step (moveOf s e) = some w' ∧ t.IsAt w' := by
  obtain ⟨l, r, d, hc, rfl⟩ := hs
  obtain ⟨l', r', d', hc'⟩ := hc.step h
  refine ⟨_, ?_, l', r', d', hc', rfl⟩
  cases e with
  | owner reply => exact isAt_ownerStep hc hc' h
  | push p spurious =>
      simp only [step, Option.ite_none_right_eq_some] at h
      obtain ⟨hp, h⟩ := h
      obtain rfl := Option.some.inj h
      exact isAt_pushStep hc hp hc'
  | drop buf =>
      simp only [step, Option.ite_none_right_eq_some] at h
      obtain ⟨hb, h⟩ := h
      obtain rfl := Option.some.inj h
      obtain rfl : r' = r := hc'.return_chain.unique hc.return_chain
      have hpushed : ((⟨buf, .load⟩ : Push) ::ₘ s.pushers).bind Push.inHand =
          buf ::ₘ s.beingPushed := by
        rw [Multiset.cons_bind]
        rfl
      have hdropped : (l' + d' + s.owner.inHand : Multiset Addr) +
          (r' + s.held.erase buf + buf ::ₘ s.beingPushed) = s.obtained := by
        rw [← hpushed]
        exact hc'.owned_add
      have howned := hc.owned_add
      rw [← hdropped] at howned
      conv_lhs at howned => rw [← Multiset.cons_erase hb]
      simp only [Multiset.add_cons, Multiset.cons_add] at howned
      have howned := add_right_cancel ((Multiset.cons_inj_right buf).1 howned)
      rw [moveOf, Whereabouts.step, if_pos (show buf ∈ (s.whereabouts l r' d).held from hb)]
      simp only [State.whereabouts, howned, ← hpushed]
      rfl
  | scribble buf word =>
      simp only [step, Option.ite_none_right_eq_some] at h
      obtain ⟨hb, h⟩ := h
      obtain rfl := Option.some.inj h
      obtain ⟨-, hr, -⟩ := hc.not_mem_chains (Multiset.mem_add.2 (Or.inl (Multiset.mem_add.2
        (Or.inl hb))))
      exact hc.step_stay hc' (hc'.return_chain.unique (hc.return_chain.update hr)) rfl rfl rfl
  | prewarmFails =>
      simp only [step] at h
      split at h
      · obtain rfl := Option.some.inj h
        exact hc.step_stay hc' (hc'.return_chain.unique hc.return_chain) rfl rfl rfl
      · exact absurd h (by simp)
  | _ =>
      simp only [step, Option.ite_none_right_eq_some] at h
      obtain ⟨-, h⟩ := h
      obtain rfl := Option.some.inj h
      exact hc.step_stay hc' (hc'.return_chain.unique hc.return_chain) rfl rfl rfl

end PagedAlloc.PoolInterleaving
