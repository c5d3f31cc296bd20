import PagedAlloc.Properties.Linearization

/-!
# Progress of the pool operations

`src/pool.rs` calls the return queue lock-free and the owner's path free of locks and retries.
Here is what that means in steps, under every interleaving and without any assumption on the
scheduler.

* The owner is wait-free (`owner_waitFree`): `allocate_raw_page` returns after at most seven steps
  of its own and `prewarm(n)` after `3 * n + 4`, whatever the other threads do, and only the source
  can keep it waiting.
* `push_return` is lock-free (`pushReturn_lockFree`): a call repeats its loop only because the
  exchange failed spuriously or because the head moved since its load, and the head moves at most
  once for every call and every allocation.  With at most `N` calls in flight this bounds the steps
  of all calls together.
-/

namespace PagedAlloc.PoolInterleaving

open Words Transition Intrusive

variable {s t : State} {e : Event} {es : List Event} {p : Push} {reply : Addr} {N n : ℕ}

/-! ## The owner -/

/-- How many steps the operation has left, at most. -/
def OwnerPc.stepsLeft : OwnerPc → ℕ
  | .idle => 0
  | .popLocal false => 7
  | .swap => 6
  | .countDrain _ => 5
  | .install _ => 4
  | .popLocal true => 3
  | .countFresh => 3
  | .subFreePages _ => 2
  | .sourceAllocate => 2
  | .addPagesInUse _ => 1
  | .prewarm left _ => 3 * left + 4
  | .link _ left _ => 3 * left + 6
  | .setLocalHead _ left _ => 3 * left + 5
  | .prewarmHeap _ => 3
  | .prewarmFree _ => 2
  | .prewarmCount _ => 1

lemma stepsLeft_eq_zero {o : OwnerPc} (h : o.stepsLeft = 0) : o = .idle := by
  unfold OwnerPc.stepsLeft at h
  split at h <;> first | rfl | omega

/-- A step of the owner. -/
def Event.isOwner : Event → Bool
  | .owner _ => true
  | _ => false

/-- A call of a pool operation. -/
def Event.isCall : Event → Bool
  | .allocate | .prewarm _ => true
  | _ => false

/-- Every step of the owner brings it closer to its return. -/
lemma stepsLeft_ownerStep {a : AtomicPool} (h : Linearized s a)
    (hstep : ownerStep reply s = some t) :
    t.owner.stepsLeft + 1 ≤ s.owner.stepsLeft := by
  cases ho : s.owner with
  | idle => simp [ownerStep, ho] at hstep
  | popLocal drained =>
      simp only [ownerStep, ho] at hstep
      split at hstep
      · rename_i hz
        obtain rfl := Option.some.inj hstep
        cases drained with
        | true =>
            -- After a drain the local chain is not empty.
            obtain ⟨l, r, d, hc, -, hl, -⟩ := h
            rw [ho] at hl
            obtain ⟨head, rfl⟩ := hl
            have hchain := hc.local_chain
            rw [hz] at hchain
            exact absurd (chain_null_iff.1 hchain) (by simp)
        | false => simp [OwnerPc.stepsLeft]
      · obtain rfl := Option.some.inj hstep
        cases drained <;> simp [OwnerPc.stepsLeft]
  | swap =>
      simp only [ownerStep, ho] at hstep
      obtain rfl := Option.some.inj hstep
      dsimp only
      split <;> simp [OwnerPc.stepsLeft]
  | sourceAllocate =>
      simp only [ownerStep, ho, sourceReturns, Option.ite_none_right_eq_some] at hstep
      obtain ⟨-, hstep⟩ := hstep
      obtain rfl := Option.some.inj hstep
      exact le_refl 2
  | prewarm left total =>
      cases left with
      | zero =>
          simp only [ownerStep, ho] at hstep
          obtain rfl := Option.some.inj hstep
          exact le_refl 4
      | succ left =>
          simp only [ownerStep, ho, sourceReturns, Option.ite_none_right_eq_some] at hstep
          obtain ⟨-, hstep⟩ := hstep
          obtain rfl := Option.some.inj hstep
          simp only [OwnerPc.stepsLeft]
          omega
  | _ =>
      simp only [ownerStep, ho] at hstep
      obtain rfl := Option.some.inj hstep
      simp [OwnerPc.stepsLeft]

lemma stepsLeft_step {a : AtomicPool} (h : Linearized s a) (hcall : e.isCall = false)
    (hstep : step s e = some t) :
    t.owner.stepsLeft + (if e.isOwner then 1 else 0) ≤ s.owner.stepsLeft := by
  cases e with
  | owner reply => exact stepsLeft_ownerStep h hstep
  | push p spurious =>
      simp only [step, Option.ite_none_right_eq_some] at hstep
      obtain ⟨-, hstep⟩ := hstep
      obtain rfl := Option.some.inj hstep
      have hsame : (pushStep p spurious s).owner = s.owner := by
        unfold pushStep
        dsimp only
        split <;> first | rfl | (split <;> rfl)
      exact hsame ▸ le_refl _
  | drop buf | scribble buf word =>
      simp only [step, Option.ite_none_right_eq_some] at hstep
      obtain ⟨-, hstep⟩ := hstep
      obtain rfl := Option.some.inj hstep
      exact le_refl _
  | allocateFails =>
      simp only [step, Option.ite_none_right_eq_some] at hstep
      obtain ⟨-, hstep⟩ := hstep
      obtain rfl := Option.some.inj hstep
      exact Nat.zero_le _
  | prewarmFails =>
      simp only [step] at hstep
      split at hstep
      · obtain rfl := Option.some.inj hstep
        exact Nat.zero_le _
      · exact absurd hstep (by simp)
  | allocate | prewarm _ => exact absurd hcall (by simp [Event.isCall])

/-- Until it calls a new operation, the owner takes at most as many steps as it has left. -/
lemma ownerSteps_run {a : AtomicPool} (h : Linearized s a) (hrun : run step s es = some t)
    (hcall : ∀ e ∈ es, e.isCall = false) :
    t.owner.stepsLeft + es.countP Event.isOwner ≤ s.owner.stepsLeft := by
  induction es generalizing s a with
  | nil =>
      obtain rfl : s = t := by simpa using hrun
      exact le_refl _
  | cons e es ih =>
      obtain ⟨m, hm, hrest⟩ := run_cons_eq_some.1 hrun
      obtain ⟨a', -, hlin⟩ := linearized_step h hm
      have hfirst := stepsLeft_step h (hcall e List.mem_cons_self) hm
      have htail := ih hlin hrest fun e he => hcall e (List.mem_cons_of_mem _ he)
      rw [List.countP_cons]
      omega

/-- The owner is about to call the source. -/
def OwnerPc.asksSource : OwnerPc → Prop
  | .sourceAllocate | .prewarm (_ + 1) _ => True
  | _ => False

/-- Away from the source the owner can always move. -/
lemma isSome_ownerStep (hidle : s.owner ≠ .idle) (hsource : ¬ s.owner.asksSource) :
    (ownerStep reply s).isSome := by
  unfold ownerStep
  cases ho : s.owner with
  | idle => exact absurd ho hidle
  | sourceAllocate =>
      rw [ho] at hsource
      exact absurd trivial hsource
  | prewarm left total =>
      cases left with
      | zero => rfl
      | succ left =>
          rw [ho] at hsource
          exact absurd trivial hsource
  | popLocal drained =>
      dsimp only
      split <;> rfl
  | _ => rfl

/-- **The owner is wait-free.**  In every reachable state in which it is inside an operation it can
take its next step whatever the other threads are doing, unless it is waiting for the source; and
however its steps and theirs are interleaved from a call on, the operation has returned after at
most seven of its own for `allocate_raw_page`, and `3 * n + 4` for `prewarm(n)`. -/
theorem owner_waitFree (h : run step init es = some s) :
    (s.owner ≠ .idle → ¬ s.owner.asksSource → ∀ reply, (step s (.owner reply)).isSome) ∧
    (∀ s₁ es' t, step s .allocate = some s₁ → run step s₁ es' = some t →
      (∀ e ∈ es', e.isCall = false) →
      es'.countP Event.isOwner ≤ 7 ∧ (es'.countP Event.isOwner = 7 → t.owner = .idle)) ∧
    (∀ n s₁ es' t, step s (.prewarm n) = some s₁ → run step s₁ es' = some t →
      (∀ e ∈ es', e.isCall = false) → es'.countP Event.isOwner ≤ 3 * n + 4 ∧
        (es'.countP Event.isOwner = 3 * n + 4 → t.owner = .idle)) := by
  obtain ⟨a, -, hlin⟩ := linearized_run h
  refine ⟨fun hidle hsource reply => isSome_ownerStep hidle hsource, ?_, ?_⟩
  · intro s₁ es' t hcall hrun hno
    obtain ⟨a', -, hlin'⟩ := linearized_step hlin hcall
    have hsteps := ownerSteps_run hlin' hrun hno
    simp only [step, Option.ite_none_right_eq_some] at hcall
    obtain ⟨-, hcall⟩ := hcall
    obtain rfl := Option.some.inj hcall
    have hsteps : t.owner.stepsLeft + es'.countP Event.isOwner ≤ 7 := hsteps
    refine ⟨by omega, fun hall => stepsLeft_eq_zero (by omega)⟩
  · intro n s₁ es' t hcall hrun hno
    obtain ⟨a', -, hlin'⟩ := linearized_step hlin hcall
    have hsteps := ownerSteps_run hlin' hrun hno
    simp only [step, Option.ite_none_right_eq_some] at hcall
    obtain ⟨-, hcall⟩ := hcall
    obtain rfl := Option.some.inj hcall
    have hsteps : t.owner.stepsLeft + es'.countP Event.isOwner ≤ 3 * n + 4 := hsteps
    refine ⟨by omega, fun hall => stepsLeft_eq_zero (by omega)⟩

/-- Two buffers are handed out, and the later one is back on the return queue. -/
def returnedRun : List Event :=
  [.allocate, .owner 0, .owner 0, .owner 0, .owner 8, .owner 0, .allocate, .owner 0, .owner 0,
    .owner 0, .owner 16, .owner 0, .drop 16, .push ⟨16, .load⟩ false, .push ⟨16, .write 0⟩ false,
    .push ⟨16, .cas 0⟩ false]

/-- An allocation that drains the queue, with steps of another call in between. -/
def drainingSteps : List Event :=
  [.owner 0, .owner 0, .drop 8, .owner 0, .push ⟨8, .load⟩ false, .owner 0, .owner 0, .owner 0,
    .owner 0]

theorem owner_waitFree_draining :
    ∃ s s₁ t, step s .allocate = some s₁ ∧ run step s₁ drainingSteps = some t ∧
      drainingSteps.countP Event.isOwner = 7 ∧ t.owner = .idle := by
  have hsome : (run step init (returnedRun ++ .allocate :: drainingSteps)).isSome := by
    decide +kernel
  obtain ⟨t, ht⟩ := Option.isSome_iff_exists.1 hsome
  obtain ⟨s, hs, hrest⟩ := run_append_eq_some.1 ht
  obtain ⟨s₁, hcall, hrun⟩ := run_cons_eq_some.1 hrest
  obtain ⟨-, hallocate, -⟩ := owner_waitFree hs
  have hsteps := hallocate s₁ drainingSteps t hcall hrun (by decide)
  exact ⟨s, s₁, t, hcall, hrun, rfl, hsteps.2 rfl⟩

/-! ## `push_return` -/

/-- How many steps a call has left, if its exchange does not fail. -/
def Push.stepsLeft (p : Push) : ℕ :=
  match p.pc with
  | .load => 5
  | .write _ => 4
  | .cas _ => 3
  | .subPagesInUse => 2
  | .addFreePages => 1

/-- Whether the exchange of the call is still to come. -/
def Push.movesLeft (p : Push) : ℕ :=
  match p.pc with
  | .load | .write _ | .cas _ => 1
  | .subPagesInUse | .addFreePages => 0

/-- The call works with a head that is not the head of the queue. -/
def Push.stale (head : Addr) (p : Push) : Bool :=
  match p.pc with
  | .write loaded | .cas loaded => loaded ≠ head
  | _ => false

def Event.isPush : Event → Bool
  | .push _ _ => true
  | _ => false

def Event.isDrop : Event → Bool
  | .drop _ => true
  | _ => false

def Event.isAllocate : Event → Bool
  | .allocate => true
  | _ => false

/-- An exchange that fails spuriously. -/
def Event.isSpurious : Event → Bool
  | .push ⟨_, .cas _⟩ true => true
  | _ => false

/-- An exchange that fails because the head has moved. -/
def retries (s : State) : Event → Bool
  | .push ⟨_, .cas head⟩ false => s.returnHead ≠ head
  | _ => false

/-- A call goes back to the beginning of its loop. -/
def repeats (s : State) (e : Event) : Bool := retries s e || e.isSpurious

/-- How often calls go back to the beginning of their loop in a run. -/
def repetitions (es : List Event) : ℕ :=
  total step (fun s e => if repeats s e then 1 else 0) init es

/-- The head of the queue moves: an exchange succeeds, or the owner drains. -/
def movesHead (s : State) : Event → Bool
  | .push ⟨_, .cas head⟩ false => s.returnHead = head
  | .owner _ => s.owner = .swap
  | _ => false

/-- The steps the calls in flight have left. -/
def State.stepsLeft (s : State) : ℕ := (s.pushers.map Push.stepsLeft).sum

/-- The calls that will have to repeat their loop. -/
def State.stale (s : State) : ℕ := s.pushers.countP fun p => p.stale s.returnHead = true

/-- The exchange of a call in flight, or the drain of the allocation that runs, is to come. -/
def State.movesLeft (s : State) : ℕ :=
  (s.pushers.map Push.movesLeft).sum +
    if s.owner = .popLocal false ∨ s.owner = .swap then 1 else 0

/-- Splitting off the call that moves. -/
lemma sum_pushers (hp : p ∈ s.pushers) (f : Push → ℕ) :
    (s.pushers.map f).sum = f p + ((s.pushers.erase p).map f).sum := by
  rw [← Multiset.sum_cons, ← Multiset.map_cons, Multiset.cons_erase hp]

/-- One call moves on and the head stays. -/
lemma stale_replace {c : Push} (hp : p ∈ s.pushers) (hpushers : t.pushers = c ::ₘ s.pushers.erase p)
    (hhead : t.returnHead = s.returnHead) :
    t.stale + (if p.stale s.returnHead = true then 1 else 0) =
      s.stale + if c.stale s.returnHead = true then 1 else 0 := by
  have hold := Multiset.countP_cons (fun q : Push => q.stale s.returnHead = true) p
    (s.pushers.erase p)
  rw [Multiset.cons_erase hp] at hold
  unfold State.stale
  rw [hpushers, hhead, Multiset.countP_cons, hold]
  omega

/-- One call returns and the head stays. -/
lemma stale_erase (hpushers : t.pushers = s.pushers.erase p)
    (hhead : t.returnHead = s.returnHead) : t.stale ≤ s.stale := by
  unfold State.stale
  rw [hpushers, hhead]
  exact Multiset.countP_le_of_le _ (Multiset.erase_le _ _)

/-- A call pays for its steps, five to begin with and three for every repetition. -/
lemma stepsLeft_push (hp : p ∈ s.pushers) (spurious : Bool) :
    1 + (pushStep p spurious s).stepsLeft ≤ s.stepsLeft +
      3 * ((if retries s (.push p spurious) then 1 else 0) +
        if (Event.push p spurious).isSpurious then 1 else 0) := by
  have hsum : s.stepsLeft = p.stepsLeft + ((s.pushers.erase p).map Push.stepsLeft).sum :=
    sum_pushers hp _
  rw [hsum]
  obtain ⟨b, pc⟩ := p
  cases pc with
  | cas head =>
      simp only [pushStep, retries, Event.isSpurious]
      split
      · simp only [State.stepsLeft, Multiset.map_cons, Multiset.sum_cons, Push.stepsLeft]
        omega
      · rename_i hcas
        simp only [State.stepsLeft, Multiset.map_cons, Multiset.sum_cons, Push.stepsLeft]
        cases spurious with
        | true => simp; omega
        | false =>
            have hne : s.returnHead ≠ head := fun heq => hcas ⟨heq, rfl⟩
            simp [hne]
            omega
  | addFreePages =>
      simp only [pushStep, State.stepsLeft, Push.stepsLeft]
      omega
  | _ =>
      simp only [pushStep, State.stepsLeft, Multiset.map_cons, Multiset.sum_cons, Push.stepsLeft]
      omega

/-- A call that repeats its loop was stale, and one that moves the head makes the others stale. -/
lemma stale_push (hp : p ∈ s.pushers) (spurious : Bool) :
    (if retries s (.push p spurious) then 1 else 0) + (pushStep p spurious s).stale ≤
      s.stale + if movesHead s (.push p spurious) then s.pushers.card else 0 := by
  obtain ⟨b, pc⟩ := p
  cases pc with
  | cas head =>
      by_cases hcas : s.returnHead = head ∧ spurious = false
      · obtain ⟨rfl, rfl⟩ := hcas
        have hle : (pushStep ⟨b, .cas s.returnHead⟩ false s).stale ≤ s.pushers.card := by
          refine (Multiset.countP_le_card _ _).trans_eq ?_
          simpa [pushStep] using Multiset.card_erase_add_one hp
        simp only [retries, movesHead]
        simp
        omega
      · have hstep : pushStep ⟨b, .cas head⟩ spurious s =
            { s with pushers := ⟨b, .load⟩ ::ₘ s.pushers.erase ⟨b, .cas head⟩ } := if_neg hcas
        rw [hstep]
        have hmove := stale_replace (c := ⟨b, .load⟩)
          (t := { s with pushers := ⟨b, .load⟩ ::ₘ s.pushers.erase ⟨b, .cas head⟩ }) hp rfl rfl
        have hload : (⟨b, .load⟩ : Push).stale s.returnHead = false := rfl
        have hstale : (⟨b, .cas head⟩ : Push).stale s.returnHead =
            decide (head ≠ s.returnHead) := rfl
        rw [hload, hstale] at hmove
        cases spurious with
        | true =>
            simp only [retries, movesHead]
            simp at hmove ⊢
            omega
        | false =>
            have hne : s.returnHead ≠ head := fun heq => hcas ⟨heq, rfl⟩
            simp only [retries, movesHead]
            simp [hne, hne.symm] at hmove ⊢
            omega
  | load =>
      have hmove := stale_replace (t := pushStep ⟨b, .load⟩ spurious s) hp rfl rfl
      simp [retries, movesHead, Push.stale] at hmove ⊢
      omega
  | write head =>
      have hmove := stale_replace (t := pushStep ⟨b, .write head⟩ spurious s) hp rfl rfl
      simp [retries, movesHead, Push.stale] at hmove ⊢
      omega
  | subPagesInUse =>
      have hmove := stale_replace (t := pushStep ⟨b, .subPagesInUse⟩ spurious s) hp rfl rfl
      simp [retries, movesHead, Push.stale] at hmove ⊢
      omega
  | addFreePages =>
      have hmove := stale_erase (t := pushStep ⟨b, .addFreePages⟩ spurious s)
        (p := ⟨b, .addFreePages⟩) rfl rfl
      simp [retries, movesHead] at hmove ⊢
      omega

/-- One call moves on, and the owner stays where it is. -/
lemma movesLeft_replace {c : Push} (hp : p ∈ s.pushers)
    (hpushers : t.pushers = c ::ₘ s.pushers.erase p) (howner : t.owner = s.owner) :
    t.movesLeft + p.movesLeft = s.movesLeft + c.movesLeft := by
  unfold State.movesLeft
  rw [hpushers, howner, sum_pushers hp, Multiset.map_cons, Multiset.sum_cons]
  omega

/-- A call that moves the head has no exchange to come. -/
lemma movesLeft_push (hp : p ∈ s.pushers) (spurious : Bool) :
    (if movesHead s (.push p spurious) then 1 else 0) + (pushStep p spurious s).movesLeft ≤
      s.movesLeft := by
  obtain ⟨b, pc⟩ := p
  cases pc with
  | cas head =>
      by_cases hcas : s.returnHead = head ∧ spurious = false
      · have hstep : pushStep ⟨b, .cas head⟩ spurious s = { s with
            returnHead := b
            pushers := ⟨b, .subPagesInUse⟩ ::ₘ s.pushers.erase ⟨b, .cas head⟩ } := if_pos hcas
        rw [hstep]
        have hmove := movesLeft_replace (c := ⟨b, .subPagesInUse⟩) (t := { s with
          returnHead := b
          pushers := ⟨b, .subPagesInUse⟩ ::ₘ s.pushers.erase ⟨b, .cas head⟩ }) hp rfl rfl
        have hone : (if movesHead s (.push ⟨b, .cas head⟩ spurious) then 1 else 0) ≤ 1 := by
          split <;> omega
        simp only [Push.movesLeft] at hmove
        omega
      · have hmoves : movesHead s (.push ⟨b, .cas head⟩ spurious) = false := by
          cases spurious with
          | true => rfl
          | false =>
              have hne : s.returnHead ≠ head := fun heq => hcas ⟨heq, rfl⟩
              simp [movesHead, hne]
        have hstep : pushStep ⟨b, .cas head⟩ spurious s =
            { s with pushers := ⟨b, .load⟩ ::ₘ s.pushers.erase ⟨b, .cas head⟩ } := if_neg hcas
        rw [hstep, hmoves]
        have hmove := movesLeft_replace (c := ⟨b, .load⟩)
          (t := { s with pushers := ⟨b, .load⟩ ::ₘ s.pushers.erase ⟨b, .cas head⟩ }) hp rfl rfl
        simp only [Push.movesLeft] at hmove
        simp
        omega
  | load =>
      have hmove := movesLeft_replace (t := pushStep ⟨b, .load⟩ spurious s) hp rfl rfl
      simp only [Push.movesLeft] at hmove
      simp [movesHead]
      omega
  | write head =>
      have hmove := movesLeft_replace (t := pushStep ⟨b, .write head⟩ spurious s) hp rfl rfl
      simp only [Push.movesLeft] at hmove
      simp [movesHead]
      omega
  | subPagesInUse =>
      have hmove := movesLeft_replace (t := pushStep ⟨b, .subPagesInUse⟩ spurious s) hp rfl rfl
      simp only [Push.movesLeft] at hmove
      simp [movesHead]
      omega
  | addFreePages =>
      have hsum := sum_pushers hp Push.movesLeft
      have hmove : (pushStep ⟨b, .addFreePages⟩ spurious s).movesLeft ≤ s.movesLeft := by
        unfold State.movesLeft
        rw [hsum]
        exact Nat.add_le_add_right (Nat.le_add_left _ _) _
      simpa [movesHead] using hmove

/-- A step of the owner that is not the swap does not move the head. -/
lemma movesLeft_owner (hstep : ownerStep reply s = some t) :
    (if movesHead s (.owner reply) then 1 else 0) + t.movesLeft ≤ s.movesLeft := by
  have hpushers := (ownerStep_frame hstep).1
  unfold State.movesLeft
  rw [hpushers]
  cases ho : s.owner with
  | idle => simp [ownerStep, ho] at hstep
  | popLocal drained =>
      simp only [ownerStep, ho] at hstep
      split at hstep <;> obtain rfl := Option.some.inj hstep <;>
        cases drained <;> simp [movesHead, ho]
  | swap =>
      simp only [ownerStep, ho] at hstep
      obtain rfl := Option.some.inj hstep
      simp only [movesHead, ho]
      by_cases hz : s.returnHead = 0 <;> simp [hz, add_comm]
  | sourceAllocate =>
      simp only [ownerStep, ho, sourceReturns, Option.ite_none_right_eq_some] at hstep
      obtain ⟨-, hstep⟩ := hstep
      obtain rfl := Option.some.inj hstep
      simp [movesHead, ho]
  | prewarm left total =>
      cases left with
      | zero =>
          simp only [ownerStep, ho] at hstep
          obtain rfl := Option.some.inj hstep
          simp [movesHead, ho]
      | succ left =>
          simp only [ownerStep, ho, sourceReturns, Option.ite_none_right_eq_some] at hstep
          obtain ⟨-, hstep⟩ := hstep
          obtain rfl := Option.some.inj hstep
          simp [movesHead, ho]
  | _ =>
      simp only [ownerStep, ho] at hstep
      obtain rfl := Option.some.inj hstep
      simp [movesHead, ho]

/-- **The three accounts** of one step: of the steps of calls, of their repetitions, and of the
moves of the head. -/
structure Paid (s : State) (e : Event) (t : State) : Prop where
  steps : (if e.isPush then 1 else 0) + t.stepsLeft ≤ s.stepsLeft +
    (5 * (if e.isDrop then 1 else 0) +
      3 * ((if retries s e then 1 else 0) + if e.isSpurious then 1 else 0))
  repetitions : (if retries s e then 1 else 0) + t.stale ≤
    s.stale + if movesHead s e then s.pushers.card else 0
  moves : (if movesHead s e then 1 else 0) + t.movesLeft ≤
    s.movesLeft + ((if e.isDrop then 1 else 0) + if e.isAllocate then 1 else 0)

/-- A step that leaves calls and head alone, and starts no allocation. -/
lemma paid_of_frame (hpush : e.isPush = false) (hretries : retries s e = false)
    (hpushers : t.pushers = s.pushers) (hhead : t.returnHead = s.returnHead)
    (hmoves : (if movesHead s e then 1 else 0) + t.movesLeft ≤
      s.movesLeft + if e.isAllocate then 1 else 0) : Paid s e t where
  steps := by
    simp only [State.stepsLeft, hpushers, hpush]
    simp
  repetitions := by
    simp only [State.stale, hpushers, hhead, hretries]
    simp
  moves := by omega

lemma paid (hstep : step s e = some t) : Paid s e t := by
  cases e with
  | push p spurious =>
      simp only [step, Option.ite_none_right_eq_some] at hstep
      obtain ⟨hp, hstep⟩ := hstep
      obtain rfl := Option.some.inj hstep
      have hsteps := stepsLeft_push hp spurious
      have hmoves := movesLeft_push hp spurious
      exact ⟨by simp only [Event.isPush, Event.isDrop]; simpa using hsteps,
        stale_push hp spurious, by simp only [Event.isDrop, Event.isAllocate]; simpa using hmoves⟩
  | owner reply =>
      have hframe := ownerStep_frame (s := s) hstep
      have hmoves := movesLeft_owner (s := s) hstep
      refine ⟨?_, ?_, by simpa [Event.isDrop, Event.isAllocate] using hmoves⟩
      · simp [State.stepsLeft, hframe.1, Event.isPush]
      · -- The swap makes calls stale, any other step of the owner none.
        have hcard : t.stale ≤ s.pushers.card := hframe.1 ▸ Multiset.countP_le_card _ _
        rcases hframe.2 with hswap | hhead
        · simp only [retries, movesHead, hswap]
          simp
          omega
        · have hsame : t.stale = s.stale := by
            unfold State.stale
            rw [hframe.1, hhead]
          simp [retries, hsame]
  | drop buf =>
      simp only [step, Option.ite_none_right_eq_some] at hstep
      obtain ⟨-, hstep⟩ := hstep
      obtain rfl := Option.some.inj hstep
      refine ⟨?_, ?_, ?_⟩
      · simp [State.stepsLeft, Push.stepsLeft, Event.isPush, Event.isDrop, add_comm]
      · simp [State.stale, Push.stale, retries]
      · simp [State.movesLeft, Push.movesLeft, movesHead, Event.isDrop]
        omega
  | allocate =>
      simp only [step, Option.ite_none_right_eq_some] at hstep
      obtain ⟨ho, hstep⟩ := hstep
      obtain rfl := Option.some.inj hstep
      refine paid_of_frame rfl rfl rfl rfl ?_
      simp [State.movesLeft, movesHead, Event.isAllocate, ho]
  | prewarm _ | allocateFails =>
      simp only [step, Option.ite_none_right_eq_some] at hstep
      obtain ⟨ho, hstep⟩ := hstep
      obtain rfl := Option.some.inj hstep
      refine paid_of_frame rfl rfl rfl rfl ?_
      simp [State.movesLeft, movesHead, Event.isAllocate]
  | prewarmFails =>
      simp only [step] at hstep
      split at hstep
      · obtain rfl := Option.some.inj hstep
        refine paid_of_frame rfl rfl rfl rfl ?_
        simp [State.movesLeft, movesHead, Event.isAllocate]
      · exact absurd hstep (by simp)
  | scribble _ _ =>
      simp only [step, Option.ite_none_right_eq_some] at hstep
      obtain ⟨-, hstep⟩ := hstep
      obtain rfl := Option.some.inj hstep
      refine paid_of_frame rfl rfl rfl rfl ?_
      simp [State.movesLeft, movesHead, Event.isAllocate]

/-- An exchange fails for one reason. -/
lemma repeats_eq : (if repeats s e then 1 else 0) =
    (if retries s e then 1 else 0) + if e.isSpurious then 1 else 0 := by
  have hone : retries s e = true → e.isSpurious = false := by
    intro h
    unfold retries at h
    split at h
    · rfl
    · exact absurd h (by simp)
  unfold repeats
  cases hretries : retries s e with
  | true =>
      rw [hone hretries]
      rfl
  | false => simp

/-- **`push_return` is lock-free.**  All calls together take at most five steps a call and three for
every repetition of a loop; and with at most `N` calls in flight there are no more than `N`
repetitions for every buffer dropped and every allocation, besides those after an exchange that
fails spuriously. -/
theorem pushReturn_lockFree (h : run step init es = some s)
    (hN : Always step (fun s _ => s.pushers.card ≤ N) init es) :
    es.countP Event.isPush ≤ 5 * es.countP Event.isDrop + 3 * repetitions es ∧
      repetitions es ≤ N * (es.countP Event.isDrop + es.countP Event.isAllocate) +
        es.countP Event.isSpurious := by
  have hsteps := run_amortized (fun s e t hst => (paid (s := s) (e := e) (t := t) hst).steps) h
  have hrepetitions :=
    run_amortized (fun s e t hst => (paid (s := s) (e := e) (t := t) hst).repetitions) h
  have hmoves := run_amortized (fun s e t hst => (paid (s := s) (e := e) (t := t) hst).moves) h
  have hdisturbed := total_le_total hN (f := fun s e => if movesHead s e then s.pushers.card else 0)
    (g := fun s e => N * if movesHead s e then 1 else 0) fun s e hcard => by
      split <;> simp [hcard]
  have hrepeats : repetitions es = total step (fun s e => if retries s e then 1 else 0) init es +
      es.countP Event.isSpurious := by
    unfold repetitions
    simp only [repeats_eq, total_add, total_eq_countP h]
  simp only [total_add, total_mul, total_eq_countP h] at hsteps hrepetitions hmoves hdisturbed
  have hinit : init.stepsLeft = 0 ∧ init.stale = 0 ∧ init.movesLeft = 0 := ⟨rfl, rfl, rfl⟩
  obtain ⟨hinit₁, hinit₂, hinit₃⟩ := hinit
  rw [hinit₁] at hsteps
  rw [hinit₂] at hrepetitions
  rw [hinit₃] at hmoves
  have hbound : N * total step (fun s e => if movesHead s e then 1 else 0) init es ≤
      N * (es.countP Event.isDrop + es.countP Event.isAllocate) := Nat.mul_le_mul_left N (by omega)
  constructor <;> omega

/-- Two calls race: an exchange fails because of the other, and then one fails spuriously. -/
def racingRun : List Event :=
  [.prewarm 2, .owner 8, .owner 0, .owner 0, .owner 16, .owner 0, .owner 0, .owner 0, .owner 0,
    .owner 0, .owner 0, .allocate, .owner 0, .owner 0, .owner 0, .allocate, .owner 0, .owner 0,
    .owner 0, .drop 8, .drop 16, .push ⟨8, .load⟩ false, .push ⟨16, .load⟩ false,
    .push ⟨8, .write 0⟩ false, .push ⟨16, .write 0⟩ false, .push ⟨16, .cas 0⟩ false,
    .push ⟨8, .cas 0⟩ false, .push ⟨8, .load⟩ false, .push ⟨8, .write 16⟩ false,
    .push ⟨8, .cas 16⟩ true, .push ⟨8, .load⟩ false]

theorem pushReturn_lockFree_racing :
    racingRun.countP Event.isPush ≤ 5 * racingRun.countP Event.isDrop +
      3 * repetitions racingRun ∧ repetitions racingRun = 2 ∧
    2 ≤ 2 * (racingRun.countP Event.isDrop + racingRun.countP Event.isAllocate) +
      racingRun.countP Event.isSpurious := by
  have hsome : (run step init racingRun).isSome := by decide +kernel
  obtain ⟨s, hs⟩ := Option.isSome_iff_exists.1 hsome
  have htwo : repetitions racingRun = 2 := by decide +kernel
  have hbounds := pushReturn_lockFree hs (N := 2) (by decide +kernel)
  rw [htwo] at hbounds ⊢
  exact ⟨hbounds.1, rfl, hbounds.2⟩

end PagedAlloc.PoolInterleaving
