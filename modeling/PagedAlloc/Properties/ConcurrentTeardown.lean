import PagedAlloc.Construction.TeardownInterleaving
import PagedAlloc.Properties.FreeListConservation

/-!
# Teardown under every interleaving

Whatever the order in which the owner drops its pool and other threads drop handles and clones of
the `Arc`, and however the steps of all these drops are interleaved, every buffer goes back to the
source once, after its last use, and the `PoolShared` is not used after it is gone
(`teardown_releases_once`).

While the `PoolShared` is alive, a released buffer is for the free lists one that is held and never
dropped.  So conservation (`Conserved`) carries over as it stands to the pool in which the released
buffers count as held (`Live`), and the strong count is the number of references.  When the last one
goes, nothing but the return queue is left, and one thread walks it (`Dying`).
-/

namespace PagedAlloc.TeardownInterleaving

open PoolInterleaving (Addr Push Conserved)
open Transition Intrusive

variable {s t : State} {e : Event} {es : List Event} {l r d w : List Addr} {buf : Addr} {p : Push}

/-! ## Buffers that count as held -/

/-- The pool, with more buffers held. -/
def addHeld (m : Multiset Addr) (s : PoolInterleaving.State) : PoolInterleaving.State :=
  { s with held := s.held + m }

lemma sourceReturns_addHeld {m : Multiset Addr} {s t : PoolInterleaving.State} {reply : Addr}
    {o : PoolInterleaving.OwnerPc} (h : PoolInterleaving.sourceReturns reply o s = some t) :
    PoolInterleaving.sourceReturns reply o (addHeld m s) = some (addHeld m t) := by
  simp only [PoolInterleaving.sourceReturns, Option.ite_none_right_eq_some] at h ⊢
  obtain ⟨hreply, h⟩ := h
  obtain rfl := Option.some.inj h
  exact ⟨hreply, rfl⟩

/-- Buffers that nobody drops do not disturb the owner. -/
lemma ownerStep_addHeld {m : Multiset Addr} {s t : PoolInterleaving.State} {reply : Addr}
    (h : PoolInterleaving.ownerStep reply s = some t) :
    PoolInterleaving.ownerStep reply (addHeld m s) = some (addHeld m t) := by
  cases ho : s.owner with
  | idle => simp [PoolInterleaving.ownerStep, ho] at h
  | popLocal drained =>
      simp only [PoolInterleaving.ownerStep, ho, addHeld] at h ⊢
      split at h
      · rename_i hz
        obtain rfl := Option.some.inj h
        rw [if_pos hz]
      · rename_i hz
        obtain rfl := Option.some.inj h
        rw [if_neg hz]
  | sourceAllocate =>
      simp only [PoolInterleaving.ownerStep, ho, show (addHeld m s).owner = _ from ho] at h ⊢
      exact sourceReturns_addHeld h
  | prewarm left total =>
      cases left with
      | zero =>
          simp only [PoolInterleaving.ownerStep, ho, show (addHeld m s).owner = _ from ho] at h ⊢
          obtain rfl := Option.some.inj h
          rfl
      | succ left =>
          simp only [PoolInterleaving.ownerStep, ho, show (addHeld m s).owner = _ from ho] at h ⊢
          exact sourceReturns_addHeld h
  | addPagesInUse buf =>
      simp only [PoolInterleaving.ownerStep, ho, show (addHeld m s).owner = _ from ho] at h ⊢
      obtain rfl := Option.some.inj h
      simp [addHeld]
  | _ =>
      simp only [PoolInterleaving.ownerStep, ho, show (addHeld m s).owner = _ from ho] at h ⊢
      obtain rfl := Option.some.inj h
      rfl

/-- Nor any other step. -/
lemma step_addHeld {m : Multiset Addr} {s t : PoolInterleaving.State} {e : PoolInterleaving.Event}
    (h : PoolInterleaving.step s e = some t) :
    PoolInterleaving.step (addHeld m s) e = some (addHeld m t) := by
  cases e with
  | owner reply => exact ownerStep_addHeld h
  | push p spurious =>
      simp only [PoolInterleaving.step, Option.ite_none_right_eq_some] at h ⊢
      obtain ⟨hp, h⟩ := h
      obtain rfl := Option.some.inj h
      refine ⟨hp, ?_⟩
      congr 1
      unfold PoolInterleaving.pushStep addHeld
      dsimp only
      split <;> first | rfl | (split <;> rfl)
  | drop buf =>
      simp only [PoolInterleaving.step, Option.ite_none_right_eq_some] at h ⊢
      obtain ⟨hmem, h⟩ := h
      obtain rfl := Option.some.inj h
      refine ⟨Multiset.mem_add.2 (.inl hmem), ?_⟩
      simp [addHeld, Multiset.erase_add_left_pos _ hmem]
  | scribble buf word =>
      simp only [PoolInterleaving.step, Option.ite_none_right_eq_some] at h ⊢
      obtain ⟨hmem, h⟩ := h
      obtain rfl := Option.some.inj h
      exact ⟨Multiset.mem_add.2 (.inl hmem), rfl⟩
  | allocate | prewarm _ | allocateFails =>
      simp only [PoolInterleaving.step, Option.ite_none_right_eq_some] at h ⊢
      obtain ⟨ho, h⟩ := h
      obtain rfl := Option.some.inj h
      exact ⟨ho, rfl⟩
  | prewarmFails =>
      simp only [PoolInterleaving.step] at h ⊢
      split at h
      · rename_i left total ho
        obtain rfl := Option.some.inj h
        simp only [addHeld, ho]
      · exact absurd h (by simp)

/-! ## The invariant -/

/-- The buffer `PagePool::drop` has unlinked. -/
def Owner.inHand : Owner → Multiset Addr
  | .releasing head => {head}
  | _ => 0

/-- The reference in the `shared` field of the `PagePool`. -/
def Owner.refs : Owner → ℕ
  | .dropped => 0
  | _ => 1

/-- The buffers that have left the pool for good. -/
def State.leaving (s : State) : Multiset Addr := s.released + s.owner.inHand

/-- While the `PoolShared` is alive. -/
structure Live (s : State) (l r d : List Addr) : Prop where
  shared : s.shared = .alive
  conserved : Conserved (addHeld s.leaving s.pool) l r d
  strong_eq : s.strong + (if s.cloning = none then 0 else 1) =
    s.owner.refs + s.pool.held.card + s.pool.pushers.card + s.dropping + s.external
  strong_pos : 0 < s.strong
  cloning : ∀ buf, s.cloning = some buf →
    buf ∈ s.pool.held ∧ s.owner = .alive ∧ s.pool.owner = .idle
  quiet : s.owner ≠ .alive → s.pool.owner = .idle
  walked : s.owner = .dropped → l = []
  fault : s.fault = false

/-- The walk of `PoolShared::drop` still has `w` before it. -/
def Shared.Walks (shared : Shared) (pool : PoolInterleaving.State) (w : List Addr) : Prop :=
  match shared with
  | .alive => False
  | .swap => Chain 0 pool.next pool.returnHead w
  | .walking head => Chain 0 pool.next head w ∧ pool.returnHead = 0
  | .releasing head next =>
      ∃ rest, w = head :: rest ∧ Chain 0 pool.next next rest ∧ pool.returnHead = 0
  | .dropped => w = [] ∧ pool.returnHead = 0

/-- After the last reference is gone: no thread but one has anything to do with the pool. -/
structure Dying (s : State) (w : List Addr) : Prop where
  walks : s.shared.Walks s.pool w
  partition : (w : Multiset Addr) + s.released = s.pool.obtained
  nodup : s.pool.obtained.Nodup
  held : s.pool.held = 0
  pushers : s.pool.pushers = 0
  idle : s.pool.owner = .idle
  localHead : s.pool.localHead = 0
  owner : s.owner = .dropped
  strong : s.strong = 0
  cloning : s.cloning = none
  dropping : s.dropping = 0
  external : s.external = 0
  fault : s.fault = false

lemma live_init : Live init [] [] [] where
  shared := rfl
  conserved := PoolInterleaving.conserved_init
  strong_eq := rfl
  strong_pos := Nat.one_pos
  cloning := by simp [init]
  quiet := by simp [init]
  walked := by simp [init]
  fault := rfl

/-! ## Steps while the `PoolShared` is alive -/

/-- The owner leaves the calls in flight alone, and handles too until it hands out a buffer. -/
lemma ownerEvent_frame {s t : PoolInterleaving.State} {e : PoolInterleaving.Event}
    (he : State.ownerEvent e = true) (h : PoolInterleaving.step s e = some t) :
    t.pushers = s.pushers ∧
      ((∃ reply buf, e = .owner reply ∧ s.owner = .addPagesInUse buf ∧ t.held = buf ::ₘ s.held ∧
          t.owner = .idle) ∨
        ((∀ reply buf, e = .owner reply → s.owner ≠ .addPagesInUse buf) ∧ t.held = s.held)) := by
  cases e with
  | owner reply =>
      refine ⟨(PoolInterleaving.ownerStep_frame (s := s) h).1, ?_⟩
      have hown : PoolInterleaving.ownerStep reply s = some t := h
      cases ho : s.owner with
      | idle => simp [PoolInterleaving.ownerStep, ho] at hown
      | addPagesInUse buf =>
          simp only [PoolInterleaving.ownerStep, ho] at hown
          obtain rfl := Option.some.inj hown
          exact .inl ⟨reply, buf, rfl, rfl, rfl, rfl⟩
      | popLocal drained =>
          simp only [PoolInterleaving.ownerStep, ho] at hown
          split at hown <;> obtain rfl := Option.some.inj hown <;> exact .inr ⟨by simp, rfl⟩
      | sourceAllocate =>
          simp only [PoolInterleaving.ownerStep, ho, PoolInterleaving.sourceReturns,
            Option.ite_none_right_eq_some] at hown
          obtain ⟨-, hown⟩ := hown
          obtain rfl := Option.some.inj hown
          exact .inr ⟨by simp, rfl⟩
      | prewarm left total =>
          cases left with
          | zero =>
              simp only [PoolInterleaving.ownerStep, ho] at hown
              obtain rfl := Option.some.inj hown
              exact .inr ⟨by simp, rfl⟩
          | succ left =>
              simp only [PoolInterleaving.ownerStep, ho, PoolInterleaving.sourceReturns,
                Option.ite_none_right_eq_some] at hown
              obtain ⟨-, hown⟩ := hown
              obtain rfl := Option.some.inj hown
              exact .inr ⟨by simp, rfl⟩
      | _ =>
          simp only [PoolInterleaving.ownerStep, ho] at hown
          obtain rfl := Option.some.inj hown
          exact .inr ⟨by simp, rfl⟩
  | allocate | prewarm _ | allocateFails =>
      simp only [PoolInterleaving.step, Option.ite_none_right_eq_some] at h
      obtain ⟨ho, h⟩ := h
      obtain rfl := Option.some.inj h
      exact ⟨rfl, .inr ⟨by simp, rfl⟩⟩
  | prewarmFails =>
      simp only [PoolInterleaving.step] at h
      split at h
      · obtain rfl := Option.some.inj h
        exact ⟨rfl, .inr ⟨by simp, rfl⟩⟩
      · exact absurd h (by simp)
  | drop _ | push _ _ | scribble _ _ => exact absurd he (by simp [State.ownerEvent])

lemma useShared_of_alive (h : s.shared = .alive) : s.useShared = s := if_pos h

/-- What a step of the pool does to the free lists. -/
lemma Live.conserved_step (hs : Live s l r d) {pool : PoolInterleaving.State}
    {e : PoolInterleaving.Event} (h : PoolInterleaving.step s.pool e = some pool) :
    ∃ l' r' d', Conserved (addHeld s.leaving pool) l' r' d' :=
  hs.conserved.step (step_addHeld h)

lemma Live.stepOwner (hs : Live s l r d) {e : PoolInterleaving.Event}
    (h : s.stepOwner e = some t) : ∃ l' r' d', Live t l' r' d' := by
  simp only [State.stepOwner, Option.ite_none_right_eq_some, Option.map_eq_some_iff] at h
  obtain ⟨⟨he, halive, hcloning⟩, pool, hpool, rfl⟩ := h
  rw [useShared_of_alive (by exact hs.shared)]
  obtain ⟨l', r', d', hc⟩ := hs.conserved_step hpool
  have hstrong := hs.strong_eq
  rw [hcloning, if_pos rfl] at hstrong
  obtain ⟨hpushers, ⟨reply, buf, rfl, ho, hheld, hidle⟩ | ⟨hno, hheld⟩⟩ :=
    ownerEvent_frame he hpool
  · refine ⟨l', r', d', { hs with
      conserved := hc
      strong_eq := ?_
      cloning := ?_
      quiet := ?_
      walked := ?_ }⟩
    · simp only [ho, hheld, hpushers, State.returned, Multiset.card_cons]
      simp
      omega
    · intro b hb
      simp only [ho, State.returned, Option.some.injEq] at hb
      exact ⟨hheld ▸ hb ▸ Multiset.mem_cons_self _ _, halive, hidle⟩
    · exact fun hne => absurd halive hne
    · exact fun hdropped => absurd (halive.symm.trans hdropped) (by simp)
  · have hnone : State.returned e s.pool.owner = none := by
      rw [State.returned.eq_def]
      split
      · rename_i reply buf ho
        exact absurd ho (hno reply buf rfl)
      · rfl
    refine ⟨l', r', d', { hs with
      conserved := hc
      strong_eq := ?_
      cloning := ?_
      quiet := ?_
      walked := ?_ }⟩
    · simp only [hheld, hpushers]
      simpa [hnone] using hstrong
    · intro buf hbuf
      exact absurd (hnone.symm.trans hbuf) (by simp)
    · exact fun hne => absurd halive hne
    · exact fun hdropped => absurd (halive.symm.trans hdropped) (by simp)

/-- A step of the handles or of the calls in flight: the owner stays where it is, and every
reference is still counted. -/
lemma Live.of_pool (hs : Live s l r d) {pool : PoolInterleaving.State}
    {e : PoolInterleaving.Event} {n : ℕ} (h : PoolInterleaving.step s.pool e = some pool)
    (howner : pool.owner = s.pool.owner) (hhead : pool.localHead = s.pool.localHead)
    (hheld : ∀ buf ∈ s.pool.held, s.cloning = some buf → buf ∈ pool.held)
    (hcount : pool.held.card + pool.pushers.card + n =
      s.pool.held.card + s.pool.pushers.card + s.dropping) :
    ∃ l' r' d', Live { s with pool := pool, dropping := n } l' r' d' := by
  obtain ⟨l', r', d', hc⟩ := hs.conserved_step h
  have hstrong := hs.strong_eq
  refine ⟨l', r', d', { hs with
    conserved := hc
    strong_eq := ?_
    cloning := ?_
    quiet := ?_
    walked := ?_ }⟩
  · dsimp only
    omega
  · intro buf hbuf
    obtain ⟨hmem, halive, hidle⟩ := hs.cloning buf hbuf
    exact ⟨hheld buf hmem hbuf, halive, howner.trans hidle⟩
  · exact fun hne => howner.trans (hs.quiet hne)
  · intro hdropped
    -- The local list was empty, and no other thread touches `local_head`.
    have hnil := hs.conserved.local_chain
    rw [hs.walked hdropped, chain_nil_iff] at hnil
    have hlocal := hc.local_chain
    rw [show (addHeld s.leaving pool).localHead = 0 from hhead.trans hnil] at hlocal
    exact chain_null_iff.1 hlocal

lemma Live.push (hs : Live s l r d) {spurious : Bool} (h : s.stepPush p spurious = some t) :
    ∃ l' r' d', Live t l' r' d' := by
  simp only [State.stepPush, Option.map_eq_some_iff] at h
  obtain ⟨pool, hpool, rfl⟩ := h
  rw [useShared_of_alive (by exact hs.shared)]
  have hpush := hpool
  simp only [PoolInterleaving.step, Option.ite_none_right_eq_some] at hpush
  obtain ⟨hp, hpush⟩ := hpush
  obtain rfl := Option.some.inj hpush
  have hcard := Multiset.card_erase_add_one hp
  obtain ⟨b, pc⟩ := p
  cases pc with
  | cas head =>
      refine hs.of_pool hpool ?_ ?_ ?_ ?_
      · simp only [PoolInterleaving.pushStep]
        split <;> rfl
      · simp only [PoolInterleaving.pushStep]
        split <;> rfl
      · simp only [PoolInterleaving.pushStep]
        split <;> exact fun _ hmem _ => hmem
      · simp only [PoolInterleaving.pushStep]
        split <;> simp <;> omega
  | addFreePages =>
      refine hs.of_pool hpool rfl rfl (fun _ hmem _ => hmem) ?_
      simp only [PoolInterleaving.pushStep, if_true]
      omega
  | _ =>
      refine hs.of_pool hpool rfl rfl (fun _ hmem _ => hmem) ?_
      simp [PoolInterleaving.pushStep]
      omega

/-- `PagePool::drop` unlinks the head of the local list: it leaves the pool. -/
lemma Live.unlink (hs : Live s l r d) (ho : s.owner = .walking) (hne : s.pool.localHead ≠ 0) :
    ∃ l', Live { s with
      pool := { s.pool with localHead := s.pool.next s.pool.localHead }
      owner := .releasing s.pool.localHead } l' r d := by
  obtain ⟨rest, rfl, hrest⟩ := (chain_of_ne hne).1 hs.conserved.local_chain
  have hquiet := hs.quiet (by rw [ho]; simp)
  have hpart := hs.conserved.partition
  refine ⟨rest, { hs with
    conserved := { hs.conserved with
      local_chain := hrest
      partition := ?_
      owner_linked := ?_
      local_empty := ?_ }
    strong_eq := ?_
    cloning := ?_
    quiet := fun _ => hquiet
    walked := by simp }⟩
  · refine Eq.trans ?_ hpart
    rw [← Multiset.cons_coe, ← Multiset.singleton_add]
    simp only [addHeld, State.leaving, Owner.inHand, ho, PoolInterleaving.State.beingPushed]
    abel
  · intro buf left total h
    exact absurd (hquiet.symm.trans h) (by simp)
  · intro h
    exact absurd (show PoolInterleaving.OwnerPc.drains s.pool.owner from h)
      (by simp [hquiet, PoolInterleaving.OwnerPc.drains])
  · have hstrong := hs.strong_eq
    rw [ho] at hstrong
    exact hstrong
  · intro buf hbuf
    exact absurd (ho.symm.trans (hs.cloning buf hbuf).2.1) (by simp)

/-- `PagePool::drop` begins: the owner starts on its local list. -/
lemma Live.dropPool (hs : Live s l r d) (halive : s.owner = .alive) (hidle : s.pool.owner = .idle)
    (hcloning : s.cloning = none) : Live { s with owner := .walking } l r d := by
  have hstrong := hs.strong_eq
  have hleaving : State.leaving { s with owner := .walking } = s.leaving := by
    simp [State.leaving, halive, Owner.inHand]
  refine { hs with
    conserved := hleaving ▸ hs.conserved
    strong_eq := ?_
    cloning := ?_
    quiet := fun _ => hidle
    walked := by simp }
  · rw [halive] at hstrong
    exact hstrong
  · intro buf hbuf
    exact absurd (hcloning.symm.trans hbuf) (by simp)

/-- The local list is empty: `PagePool::drop` is over, and its reference is dropped. -/
lemma Live.walked_out (hs : Live s l r d) (ho : s.owner = .walking)
    (hz : s.pool.localHead = 0) :
    Live { s with owner := .dropped, dropping := s.dropping + 1 } l r d := by
  have hstrong := hs.strong_eq
  have hquiet := hs.quiet (by rw [ho]; simp)
  have hleaving : State.leaving { s with owner := .dropped, dropping := s.dropping + 1 } =
      s.leaving := by
    simp [State.leaving, ho, Owner.inHand]
  refine { hs with
    conserved := hleaving ▸ hs.conserved
    strong_eq := ?_
    cloning := ?_
    quiet := fun _ => hquiet
    walked := ?_ }
  · rw [ho] at hstrong
    refine hstrong.trans ?_
    simp only [Owner.refs]
    omega
  · intro buf hbuf
    exact absurd (ho.symm.trans (hs.cloning buf hbuf).2.1) (by simp)
  · intro _
    have hlocal := hs.conserved.local_chain
    rw [show (addHeld s.leaving s.pool).localHead = 0 from hz] at hlocal
    exact chain_null_iff.1 hlocal

/-- The buffer that was unlinked goes back to the source. -/
lemma Live.giveBack (hs : Live s l r d) {head : Addr} (ho : s.owner = .releasing head) :
    Live { s with owner := .walking, released := head ::ₘ s.released } l r d := by
  have hstrong := hs.strong_eq
  have hquiet := hs.quiet (by rw [ho]; simp)
  have hleaving : State.leaving { s with
      owner := .walking
      released := head ::ₘ s.released } = s.leaving := by
    simp only [State.leaving, ho, Owner.inHand, add_zero]
    rw [add_comm, Multiset.singleton_add]
  refine { hs with
    conserved := hleaving ▸ hs.conserved
    strong_eq := ?_
    cloning := ?_
    quiet := fun _ => hquiet
    walked := by simp }
  · rw [ho] at hstrong
    exact hstrong
  · intro buf hbuf
    exact absurd (ho.symm.trans (hs.cloning buf hbuf).2.1) (by simp)

/-- A step of the walk over the local list. -/
lemma Live.walkLocal (hs : Live s l r d) (h : s.walkLocal = some t) :
    ∃ l' r' d', Live t l' r' d' := by
  simp only [State.walkLocal] at h
  split at h
  · rename_i ho
    split at h
    · rename_i hz
      obtain rfl := Option.some.inj h
      exact ⟨l, r, d, hs.walked_out ho hz⟩
    · rename_i hz
      obtain rfl := Option.some.inj h
      obtain ⟨l', hlive⟩ := hs.unlink ho hz
      exact ⟨l', r, d, hlive⟩
  · rename_i head ho
    obtain rfl := Option.some.inj h
    rw [useShared_of_alive (by exact hs.shared)]
    exact ⟨l, r, d, hs.giveBack ho⟩
  · exact absurd h (by simp)

/-- The reference that is dropped was not the last one. -/
lemma Live.dropArc (hs : Live s l r d) (hdropping : 0 < s.dropping) (hne : s.strong ≠ 1) :
    Live s.dropArc l r d := by
  have hstrong := hs.strong_eq
  have hpos := hs.strong_pos
  have hless : s.dropArc.strong + 1 = s.strong := Nat.sub_add_cancel hpos
  have hfewer : s.dropArc.dropping + 1 = s.dropping := Nat.sub_add_cancel hdropping
  refine { hs with
    shared := ?_
    strong_eq := ?_
    strong_pos := ?_ }
  · simp only [State.dropArc, if_neg hne]
    exact hs.shared
  · change s.dropArc.strong + (if s.cloning = none then 0 else 1) =
      s.owner.refs + s.pool.held.card + s.pool.pushers.card + s.dropArc.dropping + s.external
    omega
  · omega

/-- The reference that is dropped was the last one: nothing but the return queue is left. -/
lemma Live.dropLast (hs : Live s l r d) (hdropping : 0 < s.dropping) (hlast : s.strong = 1) :
    Dying s.dropArc r := by
  have hstrong := hs.strong_eq
  have hcloning : s.cloning = none := by
    by_contra hsome
    obtain ⟨buf, hbuf⟩ := Option.ne_none_iff_exists'.1 hsome
    obtain ⟨hmem, halive, -⟩ := hs.cloning buf hbuf
    have hheld := Multiset.card_pos_iff_exists_mem.2 ⟨buf, hmem⟩
    rw [if_neg hsome, halive] at hstrong
    simp only [Owner.refs] at hstrong
    omega
  rw [if_pos hcloning] at hstrong
  have hheld : s.pool.held = 0 := Multiset.card_eq_zero.1 (by omega)
  have hpushers : s.pool.pushers = 0 := Multiset.card_eq_zero.1 (by omega)
  have howner : s.owner = .dropped := by
    cases ho : s.owner <;> simp [ho, Owner.refs] at hstrong ⊢ <;> omega
  have hidle := hs.quiet (by rw [howner]; simp)
  have hl := hs.walked howner
  have hlocal := hs.conserved.local_chain
  rw [hl, chain_nil_iff] at hlocal
  have hd : d = [] := by
    have hdrained := hs.conserved.drained_chain
    rw [show (addHeld s.leaving s.pool).owner = .idle from hidle] at hdrained
    exact chain_null_iff.1 hdrained
  have hpart := hs.conserved.partition
  refine {
    walks := ?_
    partition := ?_
    nodup := hs.conserved.nodup
    held := hheld
    pushers := hpushers
    idle := hidle
    localHead := hlocal
    owner := howner
    strong := by simp [State.dropArc, hlast]
    cloning := hcloning
    dropping := by simp only [State.dropArc]; omega
    external := by simp only [State.dropArc]; omega
    fault := hs.fault }
  · simp only [State.dropArc, hlast, if_true]
    exact hs.conserved.return_chain
  · refine Eq.trans ?_ hpart
    simp only [State.dropArc, hl, hd, addHeld, State.leaving, howner, Owner.inHand, hheld, hidle,
      PoolInterleaving.State.beingPushed, hpushers, PoolInterleaving.OwnerPc.inHand]
    simp

/-- A new reference is counted. -/
lemma Live.clone (hs : Live s l r d) {c n k : ℕ} {o : Option Addr}
    (hcount : c + (if o = none then 0 else 1) =
      s.owner.refs + s.pool.held.card + s.pool.pushers.card + n + k)
    (hpos : 0 < c) (ho : ∀ buf, o = some buf → s.cloning = some buf) :
    Live { s with strong := c, cloning := o, dropping := n, external := k } l r d :=
  { hs with
    strong_eq := hcount
    strong_pos := hpos
    cloning := fun buf hbuf => hs.cloning buf (ho buf hbuf) }

/-- **The step lemma**, while the `PoolShared` is alive. -/
lemma Live.step (hs : Live s l r d) (h : s.step e = some t) :
    (∃ l' r' d', Live t l' r' d') ∨ ∃ w, Dying t w := by
  have hstrong := hs.strong_eq
  have hpos := hs.strong_pos
  cases e with
  | owner e => exact .inl (hs.stepOwner h)
  | push p spurious => exact .inl (hs.push h)
  | cloneShared =>
      simp only [State.step] at h
      split at h
      · exact absurd h (by simp)
      · rename_i hsome
        obtain rfl := Option.some.inj h
        rw [useShared_of_alive (by exact hs.shared)]
        rw [if_neg hsome] at hstrong
        exact .inl ⟨l, r, d, hs.clone (c := s.strong + 1) (n := s.dropping) (k := s.external)
          (o := none) (by simpa using hstrong) (by omega) (by simp)⟩
  | dropHandle buf =>
      simp only [State.step, Option.ite_none_right_eq_some, Option.map_eq_some_iff] at h
      obtain ⟨⟨hmem, hfree⟩, pool, hpool, rfl⟩ := h
      have hdrop := hpool
      simp only [PoolInterleaving.step, if_pos hmem] at hdrop
      obtain rfl := Option.some.inj hdrop
      have hcard := Multiset.card_erase_add_one hmem
      refine .inl (hs.of_pool (n := s.dropping) hpool rfl rfl ?_ ?_)
      · intro b hb hcloning
        exact (Multiset.mem_erase_of_ne fun heq : b = buf => hfree (heq ▸ hcloning)).2 hb
      · simp only [Multiset.card_cons]
        omega
  | scribble buf word =>
      simp only [State.step, Option.ite_none_right_eq_some, Option.map_eq_some_iff] at h
      obtain ⟨⟨hmem, -⟩, pool, hpool, rfl⟩ := h
      have hwrite := hpool
      simp only [PoolInterleaving.step, if_pos hmem] at hwrite
      obtain rfl := Option.some.inj hwrite
      exact .inl (hs.of_pool (n := s.dropping) hpool rfl rfl (fun _ hb _ => hb) rfl)
  | sealHandle buf =>
      simp only [State.step, Option.ite_none_right_eq_some] at h
      obtain ⟨-, h⟩ := h
      obtain rfl := Option.some.inj h
      rw [useShared_of_alive (by exact hs.shared)]
      exact .inl ⟨l, r, d, hs.clone (c := s.strong + 1) (n := s.dropping + 1) (k := s.external)
        (by omega) (by omega) fun _ hb => hb⟩
  | cloneExternal =>
      simp only [State.step, Option.ite_none_right_eq_some] at h
      obtain ⟨-, h⟩ := h
      obtain rfl := Option.some.inj h
      rw [useShared_of_alive (by exact hs.shared)]
      exact .inl ⟨l, r, d, hs.clone (c := s.strong + 1) (n := s.dropping) (k := s.external + 1)
        (by omega) (by omega) fun _ hb => hb⟩
  | dropExternal =>
      simp only [State.step, Option.ite_none_right_eq_some] at h
      obtain ⟨hext, h⟩ := h
      obtain rfl := Option.some.inj h
      exact .inl ⟨l, r, d, hs.clone (c := s.strong) (n := s.dropping + 1) (k := s.external - 1)
        (by omega) (by omega) fun _ hb => hb⟩
  | dropPool =>
      simp only [State.step, Option.ite_none_right_eq_some] at h
      obtain ⟨⟨halive, hidle, hcloning⟩, h⟩ := h
      obtain rfl := Option.some.inj h
      exact .inl ⟨l, r, d, hs.dropPool halive hidle hcloning⟩
  | walkLocal => exact .inl (hs.walkLocal h)
  | dropArc =>
      simp only [State.step, Option.ite_none_right_eq_some] at h
      obtain ⟨hdropping, h⟩ := h
      obtain rfl := Option.some.inj h
      by_cases hlast : s.strong = 1
      · exact .inr ⟨r, hs.dropLast hdropping hlast⟩
      · exact .inl ⟨l, r, d, hs.dropArc hdropping hlast⟩
  | walkReturn => simp [State.step, State.walkReturn, hs.shared] at h

/-! ## Steps of `PoolShared::drop` -/

/-- With the last reference gone, the only thread left is in `PoolShared::drop`. -/
lemma Dying.step (hs : Dying s w) (h : s.step e = some t) : ∃ w', Dying t w' := by
  cases e with
  | walkReturn =>
      simp only [State.step, State.walkReturn] at h
      have hwalks := hs.walks
      split at h
      · rename_i hshared
        rw [hshared] at hwalks
        obtain rfl := Option.some.inj h
        exact ⟨w, { hs with walks := ⟨hwalks, rfl⟩ }⟩
      · rename_i head hshared
        rw [hshared] at hwalks
        obtain ⟨hchain, hreturn⟩ := hwalks
        split at h
        · rename_i hz
          obtain rfl := Option.some.inj h
          rw [hz] at hchain
          exact ⟨w, { hs with walks := ⟨chain_null_iff.1 hchain, hreturn⟩ }⟩
        · rename_i hne
          obtain rfl := Option.some.inj h
          obtain ⟨rest, rfl, hrest⟩ := (chain_of_ne hne).1 hchain
          exact ⟨head :: rest, { hs with walks := ⟨rest, rfl, hrest, hreturn⟩ }⟩
      · rename_i head next hshared
        rw [hshared] at hwalks
        obtain ⟨rest, rfl, hrest, hreturn⟩ := hwalks
        obtain rfl := Option.some.inj h
        refine ⟨rest, { hs with
          walks := ⟨hrest, hreturn⟩
          partition := ?_ }⟩
        rw [← hs.partition, ← Multiset.cons_coe, Multiset.cons_add]
        simp
      · exact absurd h (by simp)
  | owner e => simp [State.step, State.stepOwner, hs.owner] at h
  | cloneShared => simp [State.step, hs.cloning] at h
  | dropHandle buf => simp [State.step, State.Holds, hs.held] at h
  | scribble buf word => simp [State.step, State.Holds, hs.held] at h
  | push p spurious => simp [State.step, State.stepPush, PoolInterleaving.step, hs.pushers] at h
  | sealHandle buf => simp [State.step, State.Holds, hs.held] at h
  | cloneExternal => simp [State.step, hs.owner, hs.external] at h
  | dropExternal => simp [State.step, hs.external] at h
  | dropPool => simp [State.step, hs.owner] at h
  | walkLocal => simp [State.step, State.walkLocal, hs.owner] at h
  | dropArc => simp [State.step, hs.dropping] at h

lemma live_or_dying (h : run State.step init es = some s) :
    (∃ l r d, Live s l r d) ∨ ∃ w, Dying s w := by
  refine run_invariant (P := fun s => (∃ l r d, Live s l r d) ∨ ∃ w, Dying s w) ?_
    (.inl ⟨[], [], [], live_init⟩) h
  rintro s e t (⟨l, r, d, hs⟩ | ⟨w, hs⟩) hstep
  · exact hs.step hstep
  · exact .inr (hs.step hstep)

/-- The walk comes to its end. -/
lemma Dying.finish (hs : Dying s w) :
    ∃ n t, run State.step s (List.replicate n .walkReturn) = some t ∧ t.shared = .dropped := by
  -- One round of the loop for every buffer left.
  have hloop : ∀ {w : List Addr} {s : State} {head : Addr}, Dying s w → s.shared = .walking head →
      ∃ n t, run State.step s (List.replicate n .walkReturn) = some t ∧ t.shared = .dropped := by
    intro w
    induction w with
    | nil =>
        intro s head hs hshared
        have hwalks := hs.walks
        rw [hshared] at hwalks
        obtain rfl := chain_nil_iff.1 hwalks.1
        refine ⟨1, { s with shared := .dropped }, ?_, rfl⟩
        simp [List.replicate, run, State.step, State.walkReturn, hshared]
    | cons a rest ih =>
        intro s head hs hshared
        have hwalks := hs.walks
        rw [hshared] at hwalks
        obtain ⟨hchain, hreturn⟩ := hwalks
        cases hchain with
        | cons hne htail =>
            have hstep₁ : s.step .walkReturn =
                some { s with shared := .releasing a (s.pool.next a) } := by
              simp [State.step, State.walkReturn, hshared, hne]
            have hstep₂ : State.step { s with shared := .releasing a (s.pool.next a) } .walkReturn =
                some { s with
                  shared := .walking (s.pool.next a)
                  released := a ::ₘ s.released } := rfl
            have hs' : Dying { s with
                shared := .walking (s.pool.next a)
                released := a ::ₘ s.released } rest :=
              { hs with
                walks := ⟨htail, hreturn⟩
                partition := by
                  rw [← hs.partition, ← Multiset.cons_coe, Multiset.cons_add]
                  simp }
            obtain ⟨n, t, hrun, hdropped⟩ := ih hs' rfl
            refine ⟨n + 2, t, ?_, hdropped⟩
            rw [List.replicate_succ, run_cons_eq_some]
            refine ⟨_, hstep₁, ?_⟩
            rw [List.replicate_succ, run_cons_eq_some]
            exact ⟨_, hstep₂, hrun⟩
  have hfirst : ∀ {s' : State} {head : Addr}, s.step .walkReturn = some s' →
      s'.shared = .walking head →
      ∃ n t, run State.step s (List.replicate n .walkReturn) = some t ∧ t.shared = .dropped := by
    intro s' head hstep hshared
    obtain ⟨w', hs'⟩ := hs.step hstep
    obtain ⟨n, t, hrun, hdropped⟩ := hloop hs' hshared
    refine ⟨n + 1, t, ?_, hdropped⟩
    rw [List.replicate_succ, run_cons_eq_some]
    exact ⟨s', hstep, hrun⟩
  have hwalks := hs.walks
  cases hshared : s.shared with
  | alive =>
      rw [hshared] at hwalks
      exact hwalks.elim
  | swap => exact hfirst (by rw [State.step, State.walkReturn, hshared]) rfl
  | walking head => exact hloop hs hshared
  | releasing head next => exact hfirst (by rw [State.step, State.walkReturn, hshared]) rfl
  | dropped => exact ⟨0, s, rfl, hshared⟩

/-! ## Whole runs -/

/-- Nothing refers to the `PoolShared` any more, nor is about to drop a reference to it. -/
def State.Unreferenced (s : State) : Prop :=
  s.owner = .dropped ∧ s.pool.held = 0 ∧ s.pool.pushers = 0 ∧ s.dropping = 0 ∧ s.external = 0

/-- What holds of the buffers passed to `source.release`. -/
structure ReleasedOnce (s : State) : Prop where
  /-- No step has used the `PoolShared` after its end. -/
  fault : s.fault = false
  once : s.released.Nodup
  obtained : s.released ≤ s.pool.obtained
  /-- Nobody has the buffer any more. -/
  unused : ∀ buf ∈ s.released, buf ∉ s.pool.held ∧ buf ∉ s.pool.beingPushed ∧
    buf ∉ s.pool.owner.inHand ∧ buf ∉ s.owner.inHand
  /-- It is on no free list. -/
  unlinked : ∃ l r, Chain 0 s.pool.next s.pool.localHead l ∧
    Chain 0 s.pool.next s.pool.returnHead r ∧ ∀ buf ∈ s.released, buf ∉ l ∧ buf ∉ r
  all : s.shared = .dropped → s.released = s.pool.obtained
  /-- Once nothing refers to the pool, `PoolShared::drop` runs to its end. -/
  ends : s.Unreferenced →
    ∃ n t, run State.step s (List.replicate n .walkReturn) = some t ∧ t.shared = .dropped

lemma Live.releasedOnce (hs : Live s l r d) : ReleasedOnce s := by
  have hpart : (l : Multiset Addr) + r + d + (s.pool.held + s.leaving) + s.pool.beingPushed +
      s.pool.owner.inHand = s.pool.obtained := hs.conserved.partition
  have hsplit : s.released + ((l : Multiset Addr) + r + d + s.pool.held + s.owner.inHand +
      s.pool.beingPushed + s.pool.owner.inHand) = s.pool.obtained := by
    rw [← hpart, State.leaving]
    abel
  have hnodup : s.pool.obtained.Nodup := hs.conserved.nodup
  rw [← hsplit, Multiset.nodup_add] at hnodup
  obtain ⟨honce, -, hdisj⟩ := hnodup
  have happart : ∀ buf ∈ s.released, buf ∉ l ∧ buf ∉ r ∧ buf ∉ s.pool.held ∧
      buf ∉ s.owner.inHand ∧ buf ∉ s.pool.beingPushed ∧ buf ∉ s.pool.owner.inHand := by
    intro buf hbuf
    have hnot := Multiset.disjoint_left.1 hdisj hbuf
    simp only [Multiset.mem_add, Multiset.mem_coe, not_or] at hnot
    obtain ⟨⟨⟨⟨⟨⟨hl, hr⟩, -⟩, hheld⟩, hhand⟩, hpush⟩, hown⟩ := hnot
    exact ⟨hl, hr, hheld, hhand, hpush, hown⟩
  exact {
    fault := hs.fault
    once := honce
    obtained := hsplit ▸ Multiset.le_add_right _ _
    unused := fun buf hbuf => by
      obtain ⟨-, -, hheld, hhand, hpush, hown⟩ := happart buf hbuf
      exact ⟨hheld, hpush, hown, hhand⟩
    unlinked := ⟨l, r, hs.conserved.local_chain, hs.conserved.return_chain, fun buf hbuf =>
      ⟨(happart buf hbuf).1, (happart buf hbuf).2.1⟩⟩
    all := fun hdropped => absurd (hs.shared.symm.trans hdropped) (by simp)
    ends := fun ⟨howner, hheld, hpushers, hdropping, hexternal⟩ => by
      -- The count would be zero, which it is not while the `PoolShared` is alive.
      have hstrong := hs.strong_eq
      have hpos := hs.strong_pos
      rw [howner, hheld, hpushers, hdropping, hexternal] at hstrong
      simp only [Owner.refs, Multiset.card_zero] at hstrong
      omega }

lemma Dying.releasedOnce (hs : Dying s w) : ReleasedOnce s := by
  have hnodup := hs.nodup
  rw [← hs.partition, Multiset.nodup_add] at hnodup
  obtain ⟨-, honce, hdisj⟩ := hnodup
  have hreturn : ∃ r, Chain 0 s.pool.next s.pool.returnHead r ∧ ∀ buf ∈ s.released, buf ∉ r := by
    have hwalks := hs.walks
    cases hshared : s.shared with
    | alive =>
        rw [hshared] at hwalks
        exact hwalks.elim
    | swap =>
        rw [hshared] at hwalks
        refine ⟨w, hwalks, ?_⟩
        exact fun buf hbuf hmem => Multiset.disjoint_left.1 hdisj (Multiset.mem_coe.2 hmem) hbuf
    | walking head =>
        rw [hshared] at hwalks
        exact ⟨[], hwalks.2 ▸ .nil, by simp⟩
    | releasing head next =>
        rw [hshared] at hwalks
        obtain ⟨-, -, -, hzero⟩ := hwalks
        exact ⟨[], hzero ▸ .nil, by simp⟩
    | dropped =>
        rw [hshared] at hwalks
        exact ⟨[], hwalks.2 ▸ .nil, by simp⟩
  obtain ⟨r, hchain, hnot⟩ := hreturn
  exact {
    fault := hs.fault
    once := honce
    obtained := hs.partition ▸ Multiset.le_add_left _ _
    unused := fun buf _ => by
      simp [hs.held, PoolInterleaving.State.beingPushed, hs.pushers, hs.idle,
        PoolInterleaving.OwnerPc.inHand, hs.owner, Owner.inHand]
    unlinked := ⟨[], r, hs.localHead ▸ .nil, hchain, fun buf hbuf => ⟨by simp, hnot buf hbuf⟩⟩
    all := fun hdropped => by
      have hwalks := hs.walks
      rw [hdropped] at hwalks
      have hpart := hs.partition
      rw [hwalks.1] at hpart
      simpa using hpart
    ends := fun _ => hs.finish }

/-- **Teardown under every interleaving.**  In every reachable state of a pool, its handles and its
owner, in whatever order they are dropped and however the drops are interleaved, what has been
passed to `source.release` came from the source, was passed once, and is nobody's any more; no step
has used the `PoolShared` after its end; when it has ended, every buffer has been released; and it
does end once nothing refers to it. -/
theorem teardown_releases_once (h : run State.step init es = some s) : ReleasedOnce s := by
  obtain ⟨l, r, d, hs⟩ | ⟨w, hs⟩ := live_or_dying h
  · exact hs.releasedOnce
  · exact hs.releasedOnce

/-- The owner gives out two buffers and drops its pool while one of them is being pushed; the
other is dropped last. -/
def lastHandleRun : List Event :=
  [.owner (.prewarm 3), .owner (.owner 8), .owner (.owner 0), .owner (.owner 0),
    .owner (.owner 16), .owner (.owner 0), .owner (.owner 0), .owner (.owner 24),
    .owner (.owner 0), .owner (.owner 0), .owner (.owner 0), .owner (.owner 0),
    .owner (.owner 0), .owner (.owner 0),
    .owner .allocate, .owner (.owner 0), .owner (.owner 0), .owner (.owner 0), .cloneShared,
    .owner .allocate, .owner (.owner 0), .owner (.owner 0), .owner (.owner 0), .cloneShared,
    .dropHandle 24, .push ⟨24, .load⟩ false, .dropPool, .walkLocal, .push ⟨24, .write 0⟩ false,
    .walkLocal, .walkLocal, .push ⟨24, .cas 0⟩ false, .dropArc, .push ⟨24, .subPagesInUse⟩ false,
    .push ⟨24, .addFreePages⟩ false, .dropArc, .dropHandle 16, .push ⟨16, .load⟩ false,
    .push ⟨16, .write 24⟩ false, .push ⟨16, .cas 24⟩ false, .push ⟨16, .subPagesInUse⟩ false,
    .push ⟨16, .addFreePages⟩ false, .dropArc, .walkReturn, .walkReturn, .walkReturn, .walkReturn,
    .walkReturn, .walkReturn]

theorem teardown_releases_once_lastHandle :
    ∃ s, run State.step init lastHandleRun = some s ∧ s.shared = .dropped ∧ ReleasedOnce s := by
  have hsome : (run State.step init lastHandleRun).isSome := by decide +kernel
  obtain ⟨s, hs⟩ := Option.isSome_iff_exists.1 hsome
  have hshared : (run State.step init lastHandleRun).map State.shared = some .dropped := by
    decide +kernel
  rw [hs] at hshared
  exact ⟨s, hs, Option.some.inj hshared, teardown_releases_once hs⟩

end PagedAlloc.TeardownInterleaving
