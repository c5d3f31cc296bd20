import PagedAlloc.Construction.PageInterleaving
import PagedAlloc.Properties.FreePages

/-!
# The counters of a pool when nothing is in progress

The counters of `PoolStats` change at other moments than the lists they describe: after the
exchange of `push_return`, when `pop_local` has already unlinked a buffer, and in bulk after the
loop of `prewarm`.  So in the middle of an operation they are off, each by an amount that the
program point of the owner and those of the calls in flight determine (`Settled`, and
`freePages_eq_balance` for `free_pages`).  When the owner is idle and no `push_return` call is in
flight these amounts are zero, and the counters are those of the lists and the handles
(`counters_exact`).
-/

namespace PagedAlloc.PoolInterleaving

open Words Transition Intrusive

variable {s t : State} {e : Event} {es : List Event}

/-- By how much `allocations_from_heap` is ahead of the buffers obtained. -/
def OwnerPc.ahead : OwnerPc → ℤ
  | .sourceAllocate => 1
  | .prewarm left total | .link _ left total | .setLocalHead _ left total => left - total
  | .prewarmHeap total => -total
  | _ => 0

/-- The count of the `prewarm` call in progress. -/
def OwnerPc.requested : OwnerPc → ℕ
  | .prewarm _ total | .link _ _ total | .setLocalHead _ _ total => total
  | .prewarmHeap total | .prewarmFree total | .prewarmCount total => total
  | _ => 0

/-- The buffers the `prewarm` call in progress has obtained. -/
def OwnerPc.warmed : OwnerPc → ℕ
  | .prewarm left total | .link _ left total | .setLocalHead _ left total => total - left
  | .prewarmHeap total | .prewarmFree total | .prewarmCount total => total
  | _ => 0

/-- The buffers held by a handle, and those whose `push_return` call has not decremented
`pages_in_use` yet. -/
def State.inUse (s : State) : ℕ :=
  s.held.card + s.pushers.countP fun p => p.pc ≠ .addFreePages

/-- The count of a `prewarm` event. -/
def Event.prewarmed : Event → ℕ
  | .prewarm n => n
  | _ => 0

/-- The source is called and panics. -/
def Event.Fails (e : Event) : Prop := e = .allocateFails ∨ e = .prewarmFails

/-- What three of the counters stand for in the middle of operations. -/
structure Settled (es : List Event) (s : State) : Prop where
  heap : (s.stats.allocationsFromHeap : ℤ) = (s.obtained.card + s.owner.ahead) % size64
  pagesInUse : (s.stats.pagesInUse : ℤ) = s.inUse % size64
  prewarmed : (s.stats.prewarmedPages : ℤ) = s.prewarmRequested % size64
  requested : (es.map Event.prewarmed).sum = s.prewarmRequested + s.owner.requested
  warmed : s.prewarmRequested + s.owner.warmed ≤ s.obtained.card

lemma settled_init : Settled [] init := by
  constructor <;> simp [init, PoolStats.default, OwnerPc.ahead, OwnerPc.requested,
    OwnerPc.warmed, State.inUse]

lemma sum_concat (es : List Event) (e : Event) :
    ((es ++ [e]).map Event.prewarmed).sum = (es.map Event.prewarmed).sum + e.prewarmed := by
  rw [List.map_append, List.sum_append, List.map_singleton, List.sum_singleton]

/-- A step that changes none of the three counters. -/
lemma Settled.keep (hs : Settled es s) (hstats : t.stats.allocationsFromHeap =
      s.stats.allocationsFromHeap ∧ t.stats.pagesInUse = s.stats.pagesInUse ∧
      t.stats.prewarmedPages = s.stats.prewarmedPages)
    (hheap : t.obtained.card + t.owner.ahead = s.obtained.card + s.owner.ahead)
    (hinUse : t.inUse = s.inUse) (hdone : t.prewarmRequested = s.prewarmRequested)
    (hrequested : t.owner.requested = s.owner.requested + e.prewarmed)
    (hwarmed : t.owner.warmed + s.obtained.card ≤ s.owner.warmed + t.obtained.card) :
    Settled (es ++ [e]) t where
  heap := by rw [hstats.1, hs.heap, hheap]
  pagesInUse := by rw [hstats.2.1, hs.pagesInUse, hinUse]
  prewarmed := by rw [hstats.2.2, hs.prewarmed, hdone]
  requested := by rw [sum_concat, hs.requested, hdone, hrequested, Nat.add_assoc]
  warmed := by
    have hold := hs.warmed
    omega

/-- A call in flight moves on from one program point to another. -/
lemma inUse_of_push {p : Push} {c : PushPc} (hp : p ∈ s.pushers) (hheld : t.held = s.held)
    (hpushers : t.pushers = ⟨p.buf, c⟩ ::ₘ s.pushers.erase p) :
    t.inUse + (if p.pc ≠ .addFreePages then 1 else 0) =
      s.inUse + if c ≠ .addFreePages then 1 else 0 := by
  have hcount := Multiset.countP_cons (fun q : Push => q.pc ≠ .addFreePages) p (s.pushers.erase p)
  rw [Multiset.cons_erase hp] at hcount
  unfold State.inUse
  rw [hheld, hpushers, hcount, Multiset.countP_cons]
  dsimp only
  omega

/-- Up to its last access, a call has not left `pages_in_use`. -/
lemma inUse_eq_of_push {p : Push} {c : PushPc} (hp : p ∈ s.pushers) (hheld : t.held = s.held)
    (hpushers : t.pushers = ⟨p.buf, c⟩ ::ₘ s.pushers.erase p) (hold : p.pc ≠ .addFreePages)
    (hnew : c ≠ .addFreePages) : t.inUse = s.inUse := by
  have hmove := inUse_of_push hp hheld hpushers
  rw [if_pos hold, if_pos hnew] at hmove
  exact Nat.add_right_cancel hmove

lemma Settled.pushStep {p : Push} {spurious : Bool} (hs : Settled es s) (hp : p ∈ s.pushers) :
    Settled (es ++ [.push p spurious]) (pushStep p spurious s) := by
  have hsum : ((es ++ [Event.push p spurious]).map Event.prewarmed).sum =
      (es.map Event.prewarmed).sum := sum_concat es _
  obtain ⟨b, pc⟩ := p
  cases pc with
  | load =>
      refine hs.keep ⟨rfl, rfl, rfl⟩ rfl ?_ rfl rfl (Nat.le_refl _)
      exact inUse_eq_of_push (c := .write s.returnHead) hp rfl rfl (by simp) (by simp)
  | write head =>
      refine hs.keep ⟨rfl, rfl, rfl⟩ rfl ?_ rfl rfl (Nat.le_refl _)
      exact inUse_eq_of_push (c := .cas head) hp rfl rfl (by simp) (by simp)
  | cas head =>
      simp only [PoolInterleaving.pushStep]
      split
      · refine hs.keep ⟨rfl, rfl, rfl⟩ rfl ?_ rfl rfl (Nat.le_refl _)
        exact inUse_eq_of_push (c := .subPagesInUse) hp rfl rfl (by simp) (by simp)
      · refine hs.keep ⟨rfl, rfl, rfl⟩ rfl ?_ rfl rfl (Nat.le_refl _)
        exact inUse_eq_of_push (c := .load) hp rfl rfl (by simp) (by simp)
  | subPagesInUse =>
      refine ⟨hs.heap, ?_, hs.prewarmed, hsum.trans hs.requested, hs.warmed⟩
      have hless := inUse_of_push (t := PoolInterleaving.pushStep ⟨b, .subPagesInUse⟩ spurious s)
        (c := .addFreePages) hp rfl rfl
      rw [if_pos (by simp), if_neg (by simp)] at hless
      change _ + 1 = s.inUse at hless
      have hsub := cast_fetchSub_emod hs.pagesInUse 1
      rw [← hless, Nat.cast_add, Nat.cast_one, add_sub_cancel_right] at hsub
      exact hsub
  | addFreePages =>
      refine hs.keep ⟨rfl, rfl, rfl⟩ rfl ?_ rfl rfl (Nat.le_refl _)
      have hcount := Multiset.countP_cons (fun q : Push => q.pc ≠ .addFreePages)
        ⟨b, .addFreePages⟩ (s.pushers.erase ⟨b, .addFreePages⟩)
      rw [Multiset.cons_erase hp, if_neg (by simp), Nat.add_zero] at hcount
      simp only [PoolInterleaving.pushStep, State.inUse]
      rw [hcount]

lemma Settled.ownerStep {reply : Addr} (hs : Settled es s) (hstep : ownerStep reply s = some t) :
    Settled (es ++ [.owner reply]) t := by
  have hheap := hs.heap
  have hrequested := hs.requested
  have hwarmed := hs.warmed
  simp only [PoolInterleaving.ownerStep] at hstep
  split at hstep
  case h_1 => exact absurd hstep (by simp)
  case h_2 drained ho =>
    split at hstep
    · obtain rfl := Option.some.inj hstep
      cases drained <;>
        exact hs.keep ⟨rfl, rfl, rfl⟩ (by simp [ho, OwnerPc.ahead]) rfl rfl
          (by simp [ho, OwnerPc.requested, Event.prewarmed]) (by simp [ho, OwnerPc.warmed])
    · obtain rfl := Option.some.inj hstep
      exact hs.keep ⟨rfl, rfl, rfl⟩ (by simp [ho, OwnerPc.ahead]) rfl rfl
        (by simp [ho, OwnerPc.requested, Event.prewarmed]) (by simp [ho, OwnerPc.warmed])
  case h_4 ho =>
    obtain rfl := Option.some.inj hstep
    refine hs.keep ⟨rfl, rfl, rfl⟩ ?_ rfl rfl ?_ ?_
    · dsimp only
      rw [ho]
      split <;> rfl
    · dsimp only
      rw [ho]
      split <;> rfl
    · dsimp only
      rw [ho]
      split <;> exact Nat.le_refl _
  case h_7 ho =>
    -- The call is counted before the source is asked.
    obtain rfl := Option.some.inj hstep
    rw [ho] at hheap hrequested hwarmed
    refine ⟨?_, hs.pagesInUse, hs.prewarmed, ?_, hwarmed⟩
    · simpa [OwnerPc.ahead, PoolAccess.exec] using cast_fetchAdd_emod hheap 1
    · rw [sum_concat, hrequested]
      rfl
  case h_8 ho =>
    simp only [sourceReturns, Option.ite_none_right_eq_some] at hstep
    obtain rfl := Option.some.inj hstep.2
    exact hs.keep ⟨rfl, rfl, rfl⟩ (by simp [ho, OwnerPc.ahead]) rfl rfl
      (by simp [ho, OwnerPc.requested, Event.prewarmed]) (by simp [ho, OwnerPc.warmed])
  case h_9 buf ho =>
    obtain rfl := Option.some.inj hstep
    rw [ho] at hheap hrequested hwarmed
    refine ⟨hheap, ?_, hs.prewarmed, ?_, hwarmed⟩
    · have hadd := cast_fetchAdd_emod hs.pagesInUse 1
      have hmore : (s.inUse : ℤ) + 1 = State.inUse { s with
          stats := PoolAccess.addPagesInUse.exec s.stats, held := buf ::ₘ s.held,
          owner := .idle } := by
        simp only [State.inUse, Multiset.card_cons]
        push_cast
        ring
      rw [← hmore]
      simpa [PoolAccess.exec] using hadd
    · rw [sum_concat, hrequested]
      rfl
  case h_11 left total ho =>
    simp only [sourceReturns, Option.ite_none_right_eq_some] at hstep
    obtain rfl := Option.some.inj hstep.2
    refine hs.keep ⟨rfl, rfl, rfl⟩ ?_ rfl rfl (by simp [ho, OwnerPc.requested, Event.prewarmed]) ?_
    · simp only [ho, OwnerPc.ahead, Multiset.card_cons]
      push_cast
      ring
    · simp only [ho, OwnerPc.warmed, Multiset.card_cons]
      omega
  case h_14 total ho =>
    obtain rfl := Option.some.inj hstep
    rw [ho] at hheap hrequested hwarmed
    refine ⟨?_, hs.pagesInUse, hs.prewarmed, ?_, hwarmed⟩
    · simpa [OwnerPc.ahead, PoolAccess.exec] using cast_fetchAdd_emod hheap total
    · rw [sum_concat, hrequested]
      rfl
  case h_16 total ho =>
    obtain rfl := Option.some.inj hstep
    rw [ho] at hheap hrequested hwarmed
    refine ⟨hheap, hs.pagesInUse, ?_, ?_, hwarmed⟩
    · simpa [PoolAccess.exec] using cast_fetchAdd_emod hs.prewarmed total
    · rw [sum_concat, hrequested]
      rfl
  all_goals
    rename_i ho
    obtain rfl := Option.some.inj hstep
    exact hs.keep ⟨rfl, rfl, rfl⟩ (by simp [ho, OwnerPc.ahead]) rfl rfl
      (by simp [ho, OwnerPc.requested, Event.prewarmed]) (by simp [ho, OwnerPc.warmed])

lemma Settled.step (hs : Settled es s) (hstep : PoolInterleaving.step s e = some t)
    (he : ¬ e.Fails) : Settled (es ++ [e]) t := by
  cases e with
  | allocateFails => exact absurd (Or.inl rfl) he
  | prewarmFails => exact absurd (Or.inr rfl) he
  | owner reply => exact hs.ownerStep hstep
  | push p spurious =>
      simp only [PoolInterleaving.step, Option.ite_none_right_eq_some] at hstep
      obtain rfl := Option.some.inj hstep.2
      exact hs.pushStep hstep.1
  | drop buf =>
      simp only [PoolInterleaving.step, Option.ite_none_right_eq_some] at hstep
      obtain rfl := Option.some.inj hstep.2
      refine hs.keep ⟨rfl, rfl, rfl⟩ rfl ?_ rfl rfl (Nat.le_refl _)
      have hcard := Multiset.card_erase_add_one hstep.1
      simp only [State.inUse, Multiset.countP_cons]
      simp
      omega
  | scribble buf word =>
      simp only [PoolInterleaving.step, Option.ite_none_right_eq_some] at hstep
      obtain rfl := Option.some.inj hstep.2
      exact hs.keep ⟨rfl, rfl, rfl⟩ rfl rfl rfl rfl (Nat.le_refl _)
  | allocate =>
      simp only [PoolInterleaving.step, Option.ite_none_right_eq_some] at hstep
      obtain ⟨ho, hstep⟩ := hstep
      obtain rfl := Option.some.inj hstep
      exact hs.keep ⟨rfl, rfl, rfl⟩ (by simp [ho, OwnerPc.ahead]) rfl rfl
        (by simp [ho, OwnerPc.requested, Event.prewarmed]) (by simp [ho, OwnerPc.warmed])
  | prewarm n =>
      simp only [PoolInterleaving.step, Option.ite_none_right_eq_some] at hstep
      obtain ⟨ho, hstep⟩ := hstep
      obtain rfl := Option.some.inj hstep
      exact hs.keep ⟨rfl, rfl, rfl⟩ (by simp [ho, OwnerPc.ahead]) rfl rfl
        (by simp [ho, OwnerPc.requested, Event.prewarmed]) (by simp [ho, OwnerPc.warmed])

lemma settled_run (h : run PoolInterleaving.step init es = some s) (hes : ∀ e ∈ es, ¬ e.Fails) :
    Settled es s := by
  revert hes
  refine run_induction (P := fun es s => (∀ e ∈ es, ¬ e.Fails) → Settled es s) ?_ ?_ h
  · exact fun _ => settled_init
  · intro es s e t _ ih hstep hes
    exact (ih fun e he => hes e (List.mem_append_left _ he)).step hstep (hes e (by simp))

end PagedAlloc.PoolInterleaving

namespace PagedAlloc.PageInterleaving

open Words Transition Intrusive
open PoolInterleaving (Addr)

variable {s t : State} {e : Event} {es : List Event} {es' : List PoolInterleaving.Event}

/-- The count of a `prewarm` event. -/
def Event.prewarmed : Event → ℕ
  | .pool e => e.prewarmed
  | _ => 0

/-- The source is called and panics. -/
def Event.Fails : Event → Prop
  | .pool e => e.Fails
  | _ => False

/-- The buffers behind the live handles. -/
def State.heldBuffers (s : State) : Multiset Addr := s.pages.sum fun h => {h.buf}

/-! ## The run of the pool -/

/-- The pool has taken the steps `es'`, and the buffers it knows to be held are those behind the
handles. -/
structure Projects (es : List Event) (s : State) (es' : List PoolInterleaving.Event) : Prop where
  run : run PoolInterleaving.step PoolInterleaving.init es' = some s.pool
  fails : ∀ e' ∈ es', e'.Fails → ∃ e ∈ es, e.Fails
  prewarmed : (es'.map PoolInterleaving.Event.prewarmed).sum = (es.map Event.prewarmed).sum
  held : s.heldBuffers = s.pool.held

lemma Projects.keep (hp : Projects es s es') (hpool : t.pool = s.pool)
    (hheld : t.heldBuffers = s.heldBuffers) (he : e.prewarmed = 0) :
    Projects (es ++ [e]) t es' where
  run := by rw [hpool, hp.run]
  fails e' he' hfails := by
    obtain ⟨e₁, hmem, hfails₁⟩ := hp.fails e' he' hfails
    exact ⟨e₁, List.mem_append_left _ hmem, hfails₁⟩
  prewarmed := by simp [hp.prewarmed, he]
  held := by rw [hheld, hpool, hp.held]

lemma Projects.next {e' : PoolInterleaving.Event} (hp : Projects es s es')
    (hstep : PoolInterleaving.step s.pool e' = some t.pool) (hheld : t.heldBuffers = t.pool.held)
    (hfails : e'.Fails → e.Fails) (he : e'.prewarmed = e.prewarmed) :
    Projects (es ++ [e]) t (es' ++ [e']) where
  run := run_concat_eq_some.2 ⟨s.pool, hp.run, hstep⟩
  fails e₁ he₁ hfails₁ := by
    rcases List.mem_append.1 he₁ with hmem | hmem
    · obtain ⟨e₂, hmem₂, hfails₂⟩ := hp.fails e₁ hmem hfails₁
      exact ⟨e₂, List.mem_append_left _ hmem₂, hfails₂⟩
    · obtain rfl := List.mem_singleton.1 hmem
      exact ⟨e, by simp, hfails hfails₁⟩
  prewarmed := by simp [hp.prewarmed, he]
  held := hheld

/-- The buffer of a handle does not change. -/
lemma heldBuffers_set {i : ℕ} {h h' : PageHandle} (hget : s.pages.get i = some h)
    (hbuf : h'.buf = h.buf) :
    State.heldBuffers { s with pages := s.pages.set i h' } = s.heldBuffers := by
  have hsum := Arena.sum_set (f := fun h : PageHandle => ({h.buf} : Multiset Addr)) (b := h') hget
  rw [hbuf] at hsum
  exact add_right_cancel hsum

lemma Projects.stepPool {e' : PoolInterleaving.Event} (hp : Projects es s es')
    (hstep : s.stepPool e' = some t) (hheld : t.pool.held = s.pool.held)
    (hfails : e'.Fails → e.Fails) (he : e'.prewarmed = e.prewarmed) :
    ∃ es', Projects (es ++ [e]) t es' := by
  obtain ⟨pool, hpool, rfl⟩ := Option.map_eq_some_iff.1 hstep
  exact ⟨_, hp.next hpool (hp.held.trans hheld.symm) hfails he⟩

/-- Only the end of `allocate_raw_page` and a drop change what is held. -/
lemma held_of_step {p p' : PoolInterleaving.State} {e : PoolInterleaving.Event}
    (hstep : PoolInterleaving.step p e = some p') (hdrop : ∀ buf, e ≠ .drop buf)
    (howner : ∀ reply buf, e = .owner reply → p.owner ≠ .addPagesInUse buf) : p'.held = p.held := by
  cases e with
  | owner reply =>
      simp only [PoolInterleaving.step, PoolInterleaving.ownerStep] at hstep
      split at hstep
      case h_1 => exact absurd hstep (by simp)
      case h_2 =>
        split at hstep
        · obtain rfl := Option.some.inj hstep
          rfl
        · obtain rfl := Option.some.inj hstep
          rfl
      case h_8 =>
        simp only [PoolInterleaving.sourceReturns, Option.ite_none_right_eq_some] at hstep
        obtain rfl := Option.some.inj hstep.2
        rfl
      case h_9 buf ho => exact absurd ho (howner reply buf rfl)
      case h_11 =>
        simp only [PoolInterleaving.sourceReturns, Option.ite_none_right_eq_some] at hstep
        obtain rfl := Option.some.inj hstep.2
        rfl
      all_goals
        obtain rfl := Option.some.inj hstep
        rfl
  | push p spurious =>
      simp only [PoolInterleaving.step, Option.ite_none_right_eq_some] at hstep
      obtain rfl := Option.some.inj hstep.2
      unfold PoolInterleaving.pushStep
      split <;> first | rfl | (split <;> rfl)
  | drop buf => exact absurd rfl (hdrop buf)
  | prewarmFails =>
      simp only [PoolInterleaving.step] at hstep
      split at hstep
      · obtain rfl := Option.some.inj hstep
        rfl
      · exact absurd hstep (by simp)
  | _ =>
      simp only [PoolInterleaving.step, Option.ite_none_right_eq_some] at hstep
      obtain rfl := Option.some.inj hstep.2
      rfl

lemma Projects.stepOwner {reply : Addr} (hp : Projects es s es')
    (hstep : s.stepOwner reply = some t) :
    ∃ es', Projects (es ++ [.pool (.owner reply)]) t es' := by
  obtain ⟨pool, hpool, rfl⟩ := Option.map_eq_some_iff.1 hstep
  by_cases howner : ∃ buf, s.pool.owner = .addPagesInUse buf
  · obtain ⟨buf, howner⟩ := howner
    simp only [howner]
    refine ⟨_, hp.next hpool ?_ (fun h => h) rfl⟩
    have hheld : pool.held = buf ::ₘ s.pool.held := by
      simp only [PoolInterleaving.step, PoolInterleaving.ownerStep, howner] at hpool
      obtain rfl := Option.some.inj hpool
      rfl
    show (s.pages.push ⟨buf, .builder⟩).sum _ = pool.held
    rw [Arena.sum_push, hheld, ← Multiset.singleton_add, add_comm]
    exact congrArg _ hp.held
  · have hheld : pool.held = s.pool.held := by
      refine held_of_step hpool (by simp) ?_
      intro r buf _ ho
      exact howner ⟨buf, ho⟩
    split
    · rename_i buf ho
      exact absurd ⟨buf, ho⟩ howner
    · exact ⟨_, hp.next hpool (hp.held.trans hheld.symm) (fun h => h) rfl⟩

lemma Projects.dropPage {i : ℕ} {h : PageHandle} (hp : Projects es s es')
    (hget : s.pages.get i = some h) (hstep : s.dropPage i h = some t) :
    ∃ es', Projects (es ++ [.dropPage i]) t es' := by
  have hlast : (({ s with pages := s.pages.erase i } : State).stepPool (.drop h.buf)) = some t →
      ∃ es', Projects (es ++ [.dropPage i]) t es' := by
    intro hstep
    obtain ⟨pool, hpool, rfl⟩ := Option.map_eq_some_iff.1 hstep
    refine ⟨_, hp.next hpool ?_ (fun h => by simp [PoolInterleaving.Event.Fails] at h) rfl⟩
    simp only [PoolInterleaving.step, Option.ite_none_right_eq_some] at hpool
    obtain ⟨hmem, hpool⟩ := hpool
    obtain rfl := Option.some.inj hpool
    have hsum := Arena.sum_erase (f := fun h : PageHandle => ({h.buf} : Multiset Addr)) hget
    rw [show s.pages.sum _ = s.pool.held from hp.held, ← Multiset.cons_erase hmem,
      ← Multiset.singleton_add, add_comm] at hsum
    exact add_left_cancel hsum
  unfold State.dropPage at hstep
  split at hstep
  · exact hlast hstep
  · exact hlast hstep
  · obtain rfl := Option.some.inj hstep
    exact ⟨_, hp.keep rfl (heldBuffers_set hget rfl) rfl⟩

lemma Projects.step (hp : Projects es s es') (hstep : s.step e = some t) :
    ∃ es', Projects (es ++ [e]) t es' := by
  cases e with
  | pool e =>
      cases e with
      | owner reply => exact hp.stepOwner hstep
      | drop buf => exact absurd hstep (by simp [State.step])
      | scribble buf word => exact absurd hstep (by simp [State.step])
      | _ =>
          obtain ⟨pool, hpool, -⟩ := Option.map_eq_some_iff.1 hstep
          refine hp.stepPool hstep ?_ (fun h => h) rfl
          obtain ⟨pool, hpool, rfl⟩ := Option.map_eq_some_iff.1 hstep
          exact held_of_step hpool (by simp) (by simp)
  | sealPage i =>
      obtain ⟨h, hget, hstep⟩ := Option.bind_eq_some_iff.1 hstep
      split at hstep
      · obtain rfl := Option.some.inj hstep
        exact ⟨_, hp.keep rfl (heldBuffers_set hget rfl) rfl⟩
      · exact absurd hstep (by simp)
  | clonePage i =>
      obtain ⟨h, hget, hstep⟩ := Option.bind_eq_some_iff.1 hstep
      split at hstep
      · exact absurd hstep (by simp)
      · obtain rfl := Option.some.inj hstep
        exact ⟨_, hp.keep rfl (heldBuffers_set hget rfl) rfl⟩
  | dropPage i =>
      obtain ⟨h, hget, hstep⟩ := Option.bind_eq_some_iff.1 hstep
      exact hp.dropPage hget hstep
  | writePage i word =>
      obtain ⟨h, hget, hstep⟩ := Option.bind_eq_some_iff.1 hstep
      split at hstep
      · refine hp.stepPool hstep ?_ (fun h => by simp [PoolInterleaving.Event.Fails] at h) rfl
        obtain ⟨pool, hpool, rfl⟩ := Option.map_eq_some_iff.1 hstep
        exact held_of_step hpool (by simp) (by simp)
      · exact absurd hstep (by simp)

lemma exists_projects (h : run State.step init es = some s) : ∃ es', Projects es s es' := by
  refine run_induction (P := fun es s => ∃ es', Projects es s es') ?_ ?_ h
  · exact ⟨[], rfl, by simp, rfl, rfl⟩
  · intro es s e t _ ih hstep
    obtain ⟨es', hp⟩ := ih
    exact hp.step hstep

/-! ## Nothing in progress -/

/-- The owner is outside every operation, and no `push_return` call is in flight. -/
def State.Quiescent (s : State) : Prop := s.pool.owner = .idle ∧ s.pool.pushers = 0

/-- The walk of `local_free_pages` counts the nodes of the list. -/
lemma localFreePages_eq {next : Addr → Addr} {head : Addr} {l : List Addr} {n : ℕ}
    (hchain : Chain 0 next head l) (hfuel : l.length ≤ n) :
    localFreePages next n head = l.length := by
  induction hchain generalizing n with
  | nil => cases n <;> rfl
  | @cons head l hne _ ih =>
      obtain ⟨n, rfl⟩ : ∃ m, n = m + 1 := ⟨n - 1, by simp at hfuel; omega⟩
      rw [localFreePages, if_neg hne, ih (by simpa using hfuel), List.length_cons]

/-- **Exact counters.** In every run in which the source does not fail, whenever nothing is in
progress: `free_pages` is the number of pages on the two lists, `pages_in_use` the number of
buffers behind handles, `allocations_from_heap` the number of buffers obtained from the source,
and `prewarmed_pages` the sum of all counts that were prewarmed. -/
theorem counters_exact (h : run State.step init es = some s) (hes : ∀ e ∈ es, ¬ e.Fails)
    (hquiet : s.Quiescent) :
    (∃ l r, Chain 0 s.pool.next s.pool.localHead l ∧ Chain 0 s.pool.next s.pool.returnHead r ∧
      localFreePages s.pool.next s.pool.obtained.card s.pool.localHead = l.length ∧
      s.pool.stats.freePages =
        localFreePages s.pool.next s.pool.obtained.card s.pool.localHead + r.length) ∧
    (s.heldBuffers.Nodup ∧ s.pool.stats.pagesInUse = s.heldBuffers.card) ∧
    s.pool.stats.allocationsFromHeap = s.pool.obtained.card ∧
    s.pool.stats.prewarmedPages = (es.map Event.prewarmed).sum ∧
    s.pool.stats.freePages + s.pool.stats.pagesInUse = s.pool.stats.allocationsFromHeap := by
  obtain ⟨es', hp⟩ := exists_projects h
  obtain ⟨howner, hpushers⟩ := hquiet
  have hes' : ∀ e' ∈ es', ¬ e'.Fails := by
    intro e' he' hfails
    obtain ⟨e, he, hfail⟩ := hp.fails e' he' hfails
    exact hes e he hfail
  have hsettled := PoolInterleaving.settled_run hp.run hes'
  obtain ⟨l, r, d, hc⟩ := PoolInterleaving.exists_conserved hp.run
  have hlt := PoolInterleaving.card_obtained_lt hp.run
  -- Everything obtained is on one of the two lists or held.
  have hpartition := hc.partition
  have hdrained := hc.drained_chain
  rw [howner] at hdrained
  obtain rfl : d = [] := chain_null_iff.1 hdrained
  have hcard := congrArg Multiset.card hpartition
  simp only [Multiset.card_add, Multiset.coe_card, List.length_nil, howner,
    PoolInterleaving.OwnerPc.inHand, PoolInterleaving.State.beingPushed, hpushers,
    Multiset.zero_bind, Multiset.card_zero, Nat.add_zero] at hcard
  have hlocal := localFreePages_eq (n := s.pool.obtained.card) hc.local_chain (by omega)
  have hfreePages : s.pool.stats.freePages = l.length + r.length := by
    have hbalance : s.pool.balance = l.length + r.length := by
      simp only [PoolInterleaving.State.balance, howner, hpushers, Multiset.card_zero,
        PoolInterleaving.OwnerPc.uncounted]
      omega
    have hfree := PoolInterleaving.freePages_eq_of_nonneg hp.run
      (fun hmem => hes' _ hmem (Or.inr rfl)) (by omega)
    omega
  have hpagesInUse : s.pool.stats.pagesInUse = s.heldBuffers.card := by
    have hcount := hsettled.pagesInUse
    rw [PoolInterleaving.State.inUse, hpushers, Multiset.countP_zero, Nat.add_zero,
      Int.emod_eq_of_lt (by omega) (by omega)] at hcount
    rw [hp.held]
    exact_mod_cast hcount
  have hheap : s.pool.stats.allocationsFromHeap = s.pool.obtained.card := by
    have hcount := hsettled.heap
    simp only [howner, PoolInterleaving.OwnerPc.ahead, add_zero] at hcount
    rw [Int.emod_eq_of_lt (by omega) (by omega)] at hcount
    exact_mod_cast hcount
  have hprewarmed : s.pool.stats.prewarmedPages = (es.map Event.prewarmed).sum := by
    have hcount := hsettled.prewarmed
    have hsum := hsettled.requested
    have hwarmed := hsettled.warmed
    simp only [howner, PoolInterleaving.OwnerPc.requested, Nat.add_zero] at hsum
    rw [Int.emod_eq_of_lt (by omega) (by omega)] at hcount
    rw [← hp.prewarmed, hsum]
    exact_mod_cast hcount
  refine ⟨⟨l, r, hc.local_chain, hc.return_chain, hlocal, ?_⟩, ⟨?_, hpagesInUse⟩, hheap,
    hprewarmed, ?_⟩
  · rw [hlocal, hfreePages]
  · have hnodup := hc.nodup
    rw [← hpartition] at hnodup
    rw [hp.held]
    exact (Multiset.nodup_add.1 (Multiset.nodup_add.1 (Multiset.nodup_add.1 hnodup).1).1).2.1
  · rw [hfreePages, hpagesInUse, hheap, hp.held]
    omega

/-- Two pages are prewarmed; one is allocated, sealed and cloned, and both handles are dropped,
the last one on another thread that is inside `push_return` while the owner allocates again. -/
def handOffRun : List Event :=
  [.pool (.prewarm 2), .pool (.owner 8), .pool (.owner 0), .pool (.owner 0), .pool (.owner 16),
    .pool (.owner 0), .pool (.owner 0), .pool (.owner 0), .pool (.owner 0), .pool (.owner 0),
    .pool (.owner 0), .pool .allocate, .pool (.owner 0), .pool (.owner 0), .pool (.owner 0),
    .sealPage 0, .clonePage 0, .dropPage 0, .dropPage 0, .pool (.push ⟨16, .load⟩ false),
    .pool .allocate, .pool (.owner 0), .pool (.push ⟨16, .write 0⟩ false),
    .pool (.push ⟨16, .cas 0⟩ false), .pool (.owner 0), .pool (.owner 0),
    .pool (.push ⟨16, .subPagesInUse⟩ false), .pool (.push ⟨16, .addFreePages⟩ false)]

theorem counters_exact_handOffRun : ∃ s, run State.step init handOffRun = some s ∧ s.Quiescent ∧
    s.pool.obtained.card = 2 ∧ s.pool.stats.allocationsFromHeap = s.pool.obtained.card ∧
    s.pool.stats.pagesInUse = s.heldBuffers.card ∧
    s.pool.stats.prewarmedPages = (handOffRun.map Event.prewarmed).sum ∧
    s.pool.stats.freePages + s.pool.stats.pagesInUse = s.pool.stats.allocationsFromHeap := by
  have heval : (run State.step init handOffRun).map (fun s => (s.pool.owner, s.pool.pushers,
      s.pool.obtained.card)) = some (.idle, 0, 2) := by decide +kernel
  obtain ⟨s, hs, hfields⟩ := Option.map_eq_some_iff.1 heval
  simp only [Prod.mk.injEq] at hfields
  obtain ⟨howner, hpushers, hcard⟩ := hfields
  have hfails : ∀ e ∈ handOffRun, ¬ e.Fails := by
    simp [handOffRun, Event.Fails, PoolInterleaving.Event.Fails]
  obtain ⟨-, ⟨-, hinUse⟩, hheap, hprewarmed, hsum⟩ := counters_exact hs hfails ⟨howner, hpushers⟩
  exact ⟨s, hs, ⟨howner, hpushers⟩, hcard, hheap, hinUse, hprewarmed, hsum⟩

end PagedAlloc.PageInterleaving
