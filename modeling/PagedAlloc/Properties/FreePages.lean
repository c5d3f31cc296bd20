import PagedAlloc.Properties.FreeListConservation
import Mathlib.Order.Interval.Finset.Nat

/-!
# The `free_pages` counter under concurrent returns

`push_return` publishes its buffer with the exchange and counts it in `free_pages` afterwards;
`pop_local` takes a buffer off the local chain and then decrements `free_pages`.  The two are
not ordered: the owner may drain, pop and decrement a buffer whose increment is still pending,
and the counter then wraps below zero (`freePages_wraps`).

The module says exactly when that happens.  `State.balance` is the integer the counter stands
for: buffers obtained, less those held by a handle, carried by a `push_return` call (until it
has counted), or carried by the owner.  The counter is the balance modulo `2 ^ 64` in every
reachable state (`freePages_eq_balance`), and the only step that lowers the balance is the
decrement of `pop_local`.  So the counter stays sound along a run exactly when every decrement
finds a free buffer that is already counted (`freePages_sound_iff`).
-/

namespace PagedAlloc.PoolInterleaving

open Words Transition Intrusive

variable {s t m : State} {l r d : List Addr} {e : Event} {es pre : List Event}

/-! ## What the counter stands for -/

/-- Buffers the owner has taken out of the count, or not put into it yet: the one it is about
to hand out, and those an unfinished `prewarm` has obtained. -/
def OwnerPc.uncounted : OwnerPc → ℤ
  | .addPagesInUse _ => 1
  | .prewarm left total | .link _ left total | .setLocalHead _ left total => total - left
  | .prewarmHeap total | .prewarmFree total => total
  | _ => 0

/-- The integer `free_pages` stands for. -/
def State.balance (s : State) : ℤ :=
  s.obtained.card - s.held.card - s.pushers.card - s.owner.uncounted

/-- The event is the decrement of `free_pages` by `pop_local`. -/
def PopsFree (s : State) (e : Event) : Prop :=
  (∃ reply, e = .owner reply) ∧ ∃ buf, s.owner = .subFreePages buf

/-- A step changes the balance by `δ` and the counter with it, and only the decrement of
`pop_local` lowers them. -/
structure Shifts (s : State) (e : Event) (t : State) (δ : ℤ) : Prop where
  balance : t.balance = s.balance + δ
  counter : ∀ z : ℤ, (s.stats.freePages : ℤ) = z % size64 →
    (t.stats.freePages : ℤ) = (z + δ) % size64
  pops : PopsFree s e → δ = -1
  keeps : ¬ PopsFree s e → 0 ≤ δ

/-- Most steps leave both alone. -/
lemma shifts_zero (hbalance : t.balance = s.balance)
    (hcounter : t.stats.freePages = s.stats.freePages) (hpops : ¬ PopsFree s e) :
    Shifts s e t 0 where
  balance := by rw [hbalance, add_zero]
  counter z hz := by rw [hcounter, hz, add_zero]
  pops h := absurd h hpops
  keeps _ := le_refl 0

lemma shifts_pushStep {p : Push} {spurious : Bool} (hp : p ∈ s.pushers) :
    ∃ δ, Shifts s (.push p spurious) (pushStep p spurious s) δ := by
  have hcard := Multiset.card_erase_add_one hp
  have hpops : ¬ PopsFree s (.push p spurious) := by simp [PopsFree]
  obtain ⟨b, pc⟩ := p
  cases pc with
  | addFreePages =>
      refine ⟨1, ?_, fun z hz => cast_fetchAdd_emod hz 1, fun h => absurd h hpops, by simp⟩
      simp only [pushStep, State.balance]
      omega
  | load =>
      refine ⟨0, shifts_zero ?_ rfl hpops⟩
      simp only [pushStep, State.balance, Multiset.card_cons]
      omega
  | write head =>
      refine ⟨0, shifts_zero ?_ rfl hpops⟩
      simp only [pushStep, State.balance, Multiset.card_cons]
      omega
  | cas head =>
      refine ⟨0, shifts_zero ?_ ?_ hpops⟩
      · simp only [pushStep, State.balance]
        split <;> simp only [Multiset.card_cons] <;> omega
      · simp only [pushStep]
        split <;> rfl
  | subPagesInUse =>
      refine ⟨0, shifts_zero ?_ rfl hpops⟩
      simp only [pushStep, State.balance, Multiset.card_cons]
      omega

lemma shifts_ownerStep {reply : Addr} (hstep : ownerStep reply s = some t) :
    ∃ δ, Shifts s (.owner reply) t δ := by
  simp only [ownerStep] at hstep
  split at hstep
  · exact absurd hstep (by simp)
  · rename_i drained ho
    split at hstep
    · obtain rfl := Option.some.inj hstep
      refine ⟨0, shifts_zero ?_ rfl (by simp [PopsFree, ho])⟩
      cases drained <;> simp [State.balance, ho, OwnerPc.uncounted]
    · obtain rfl := Option.some.inj hstep
      exact ⟨0, shifts_zero (by simp [State.balance, ho, OwnerPc.uncounted]) rfl
        (by simp [PopsFree, ho])⟩
  · -- The decrement itself: the buffer leaves the count.
    rename_i buf ho
    obtain rfl := Option.some.inj hstep
    refine ⟨-1, ?_, fun z hz => ?_, fun _ => rfl, fun h => ?_⟩
    · simp only [State.balance, ho, OwnerPc.uncounted]
      omega
    · have hsub := cast_fetchSub_emod hz 1
      simpa [PoolAccess.exec, sub_eq_add_neg] using hsub
    · exact absurd ⟨⟨reply, rfl⟩, buf, ho⟩ h
  · rename_i ho
    obtain rfl := Option.some.inj hstep
    refine ⟨0, shifts_zero ?_ rfl (by simp [PopsFree, ho])⟩
    simp only [State.balance, ho]
    split <;> rfl
  · rename_i head ho
    obtain rfl := Option.some.inj hstep
    exact ⟨0, shifts_zero (by simp [State.balance, ho, OwnerPc.uncounted]) rfl
      (by simp [PopsFree, ho])⟩
  · rename_i head ho
    obtain rfl := Option.some.inj hstep
    exact ⟨0, shifts_zero (by simp [State.balance, ho, OwnerPc.uncounted]) rfl
      (by simp [PopsFree, ho])⟩
  · rename_i ho
    obtain rfl := Option.some.inj hstep
    exact ⟨0, shifts_zero (by simp [State.balance, ho, OwnerPc.uncounted]) rfl
      (by simp [PopsFree, ho])⟩
  · rename_i ho
    simp only [sourceReturns, Option.ite_none_right_eq_some] at hstep
    obtain rfl := Option.some.inj hstep.2
    refine ⟨0, shifts_zero ?_ rfl (by simp [PopsFree, ho])⟩
    simp only [State.balance, ho, OwnerPc.uncounted, Multiset.card_cons]
    omega
  · rename_i buf ho
    obtain rfl := Option.some.inj hstep
    refine ⟨0, shifts_zero ?_ rfl (by simp [PopsFree, ho])⟩
    simp only [State.balance, ho, OwnerPc.uncounted, Multiset.card_cons]
    omega
  · rename_i total ho
    obtain rfl := Option.some.inj hstep
    exact ⟨0, shifts_zero (by simp [State.balance, ho, OwnerPc.uncounted]) rfl
      (by simp [PopsFree, ho])⟩
  · rename_i left total ho
    simp only [sourceReturns, Option.ite_none_right_eq_some] at hstep
    obtain rfl := Option.some.inj hstep.2
    refine ⟨0, shifts_zero ?_ rfl (by simp [PopsFree, ho])⟩
    simp only [State.balance, ho, OwnerPc.uncounted, Multiset.card_cons]
    omega
  · rename_i buf left total ho
    obtain rfl := Option.some.inj hstep
    exact ⟨0, shifts_zero (by simp [State.balance, ho, OwnerPc.uncounted]) rfl
      (by simp [PopsFree, ho])⟩
  · rename_i buf left total ho
    obtain rfl := Option.some.inj hstep
    exact ⟨0, shifts_zero (by simp [State.balance, ho, OwnerPc.uncounted]) rfl
      (by simp [PopsFree, ho])⟩
  · rename_i total ho
    obtain rfl := Option.some.inj hstep
    exact ⟨0, shifts_zero (by simp [State.balance, ho, OwnerPc.uncounted]) rfl
      (by simp [PopsFree, ho])⟩
  · -- `prewarm` counts all its pages at once.
    rename_i total ho
    obtain rfl := Option.some.inj hstep
    refine ⟨total, ?_, fun z hz => cast_fetchAdd_emod hz total, by simp [PopsFree, ho], by simp⟩
    simp only [State.balance, ho, OwnerPc.uncounted]
    omega
  · rename_i total ho
    obtain rfl := Option.some.inj hstep
    exact ⟨0, shifts_zero (by simp [State.balance, ho, OwnerPc.uncounted]) rfl
      (by simp [PopsFree, ho])⟩

/-- The effect of one step on the balance and on the counter. -/
lemma exists_shifts (hstep : step s e = some t) (he : e ≠ .prewarmFails) :
    ∃ δ, Shifts s e t δ := by
  cases e with
  | prewarmFails => exact absurd rfl he
  | owner reply => exact shifts_ownerStep hstep
  | push p spurious =>
      simp only [step, Option.ite_none_right_eq_some] at hstep
      obtain rfl := Option.some.inj hstep.2
      exact shifts_pushStep hstep.1
  | drop buf =>
      simp only [step, Option.ite_none_right_eq_some] at hstep
      obtain rfl := Option.some.inj hstep.2
      refine ⟨0, shifts_zero ?_ rfl (by simp [PopsFree])⟩
      have hcard := Multiset.card_erase_add_one hstep.1
      simp only [State.balance, Multiset.card_cons]
      omega
  | scribble buf word =>
      simp only [step, Option.ite_none_right_eq_some] at hstep
      obtain rfl := Option.some.inj hstep.2
      exact ⟨0, shifts_zero rfl rfl (by simp [PopsFree])⟩
  | allocate | prewarm n | allocateFails =>
      simp only [step, Option.ite_none_right_eq_some] at hstep
      obtain ⟨ho, hstep⟩ := hstep
      obtain rfl := Option.some.inj hstep
      exact ⟨0, shifts_zero (by simp [State.balance, ho, OwnerPc.uncounted]) rfl
        (by simp [PopsFree])⟩

/-- In every reachable state the counter is the balance modulo `2 ^ 64`. -/
lemma freePages_eq_balance (h : run step init es = some s) (hes : .prewarmFails ∉ es) :
    (s.stats.freePages : ℤ) = s.balance % size64 := by
  revert hes
  refine run_induction (P := fun es s => .prewarmFails ∉ es →
    (s.stats.freePages : ℤ) = s.balance % size64) ?_ ?_ h
  · intro _
    simp [init, PoolStats.default, State.balance, OwnerPc.uncounted]
  · intro es s e t _ ih hstep hes
    simp only [List.mem_append, List.mem_singleton, not_or] at hes
    obtain ⟨δ, hbal, hcount, -, -⟩ := exists_shifts hstep (Ne.symm hes.2)
    rw [hbal]
    exact hcount _ (ih hes.1)

/-! ## Bounds -/

/-- The remaining iterations of a `prewarm` never exceed its count. -/
def OwnerPc.Bounded : OwnerPc → Prop
  | .prewarm left total | .link _ left total | .setLocalHead _ left total => left ≤ total
  | _ => True

/-- The prewarm loop counts down from its total, and the source returns 64-bit addresses. -/
def Sane (s : State) : Prop := s.owner.Bounded ∧ ∀ buf ∈ s.obtained, buf < size64

lemma sane_sourceReturns {reply : Addr} {o : OwnerPc} (hs : Sane s) (ho : o.Bounded)
    (hstep : sourceReturns reply o s = some t) : Sane t := by
  simp only [sourceReturns, Option.ite_none_right_eq_some] at hstep
  obtain ⟨⟨-, hlt, -⟩, hstep⟩ := hstep
  obtain rfl := Option.some.inj hstep
  refine ⟨ho, fun buf hb => ?_⟩
  rcases Multiset.mem_cons.1 hb with rfl | hb
  · exact hlt
  · exact hs.2 buf hb

lemma sane_ownerStep {reply : Addr} (hs : Sane s) (hstep : ownerStep reply s = some t) :
    Sane t := by
  have hb := hs.1
  simp only [ownerStep] at hstep
  split at hstep
  case h_8 ho => exact sane_sourceReturns hs (o := .addPagesInUse reply) trivial hstep
  case h_11 left total ho =>
    rw [ho] at hb
    exact sane_sourceReturns hs (o := .link reply left total) (Nat.le_of_succ_le hb) hstep
  case h_1 => exact absurd hstep (by simp)
  case h_2 drained ho =>
    split at hstep
    · obtain rfl := Option.some.inj hstep
      cases drained <;> exact ⟨trivial, hs.2⟩
    · obtain rfl := Option.some.inj hstep
      exact ⟨trivial, hs.2⟩
  case h_4 ho =>
    obtain rfl := Option.some.inj hstep
    refine ⟨?_, hs.2⟩
    dsimp only
    split <;> trivial
  case h_12 ho =>
    obtain rfl := Option.some.inj hstep
    rw [ho] at hb
    exact ⟨hb, hs.2⟩
  case h_13 ho =>
    obtain rfl := Option.some.inj hstep
    rw [ho] at hb
    exact ⟨hb, hs.2⟩
  all_goals
    obtain rfl := Option.some.inj hstep
    exact ⟨trivial, hs.2⟩

lemma pushStep_owner (p : Push) (spurious : Bool) (s : State) :
    (pushStep p spurious s).owner = s.owner ∧ (pushStep p spurious s).obtained = s.obtained := by
  unfold pushStep
  cases p.pc with
  | cas head => dsimp only; split <;> exact ⟨rfl, rfl⟩
  | _ => exact ⟨rfl, rfl⟩

lemma sane_step (hs : Sane s) (hstep : step s e = some t) : Sane t := by
  cases e with
  | owner reply => exact sane_ownerStep hs hstep
  | push p spurious =>
      simp only [step, Option.ite_none_right_eq_some] at hstep
      obtain rfl := Option.some.inj hstep.2
      obtain ⟨ho, hob⟩ := pushStep_owner p spurious s
      unfold Sane
      rw [ho, hob]
      exact hs
  | prewarmFails =>
      simp only [step] at hstep
      split at hstep
      · obtain rfl := Option.some.inj hstep
        exact ⟨trivial, hs.2⟩
      · exact absurd hstep (by simp)
  | prewarm n =>
      simp only [step, Option.ite_none_right_eq_some] at hstep
      obtain rfl := Option.some.inj hstep.2
      exact ⟨le_refl n, hs.2⟩
  | drop buf =>
      simp only [step, Option.ite_none_right_eq_some] at hstep
      obtain rfl := Option.some.inj hstep.2
      exact hs
  | scribble buf word =>
      simp only [step, Option.ite_none_right_eq_some] at hstep
      obtain rfl := Option.some.inj hstep.2
      exact hs
  | _ =>
      simp only [step, Option.ite_none_right_eq_some] at hstep
      obtain rfl := Option.some.inj hstep.2
      exact ⟨trivial, hs.2⟩

lemma sane_run (h : run step init es = some s) : Sane s := by
  refine run_invariant (P := Sane) (fun _ _ _ hs hstep => sane_step hs hstep) ?_ h
  exact ⟨trivial, by simp [init]⟩

lemma OwnerPc.Bounded.uncounted_nonneg {o : OwnerPc} (h : o.Bounded) : 0 ≤ o.uncounted := by
  cases o <;> simp only [OwnerPc.Bounded] at h <;> simp only [OwnerPc.uncounted] <;> omega

lemma balance_le_card (h : run step init es = some s) : s.balance ≤ s.obtained.card := by
  have := (sane_run h).1.uncounted_nonneg
  unfold State.balance
  omega

/-- Distinct non-null 64-bit addresses are fewer than `2 ^ 64`. -/
lemma card_obtained_lt (h : run step init es = some s) : s.obtained.card < size64 := by
  obtain ⟨l, r, d, hc⟩ := exists_conserved h
  have hsub : s.obtained.toFinset ⊆ Finset.Ico 1 size64 := by
    intro buf hb
    rw [Multiset.mem_toFinset] at hb
    rw [Finset.mem_Ico]
    exact ⟨Nat.one_le_iff_ne_zero.2 (hc.ne_zero hb), (sane_run h).2 buf hb⟩
  have hcard := Finset.card_le_card hsub
  rw [Multiset.toFinset_card_of_nodup hc.nodup, Nat.card_Ico] at hcard
  have := size64_pos
  omega

/-! ## The exact condition -/

/-- `push_return` calls that have published their buffer and not counted it yet. -/
def State.uncounted (s : State) : ℕ :=
  s.pushers.countP fun p => p.pc = .subPagesInUse ∨ p.pc = .addFreePages

/-- Fewer published buffers are uncounted than there are free buffers: the local chain, the
return chain and the buffer that `pop_local` has just unlinked. -/
def FreeCounted (s : State) : Prop :=
  ∀ l r, Chain 0 s.next s.localHead l → Chain 0 s.next s.returnHead r →
    s.uncounted < l.length + r.length + 1

/-- Along the run, `free_pages` never exceeds the number of buffers obtained from the source,
and is never decremented below zero. -/
structure FreePagesSound (es : List Event) : Prop where
  le_obtained : ∀ pre m, pre <+: es → run step init pre = some m →
    m.stats.freePages ≤ m.obtained.card
  no_underflow : ∀ pre e m, pre ++ [e] <+: es → run step init pre = some m → PopsFree m e →
    1 ≤ m.stats.freePages

/-- Every call in flight either carries its buffer or has published it uncounted. -/
lemma card_pushers (s : State) : s.pushers.card = s.beingPushed.card + s.uncounted := by
  unfold State.beingPushed State.uncounted
  induction s.pushers using Multiset.induction_on with
  | empty => simp
  | cons p ps ih =>
      rw [Multiset.card_cons, Multiset.cons_bind, Multiset.card_add, Multiset.countP_cons, ih]
      obtain ⟨b, pc⟩ := p
      cases pc <;> simp [Push.inHand] <;> omega

/-- When `pop_local` is about to decrement, the balance counts the free buffers less the
uncounted ones. -/
lemma balance_of_popsFree (hc : Conserved s l r d) (hpop : PopsFree s e) :
    s.balance = (l.length + r.length + 1 : ℕ) - s.uncounted := by
  obtain ⟨-, buf, ho⟩ := hpop
  have hd := hc.drained_chain
  rw [ho] at hd
  obtain rfl : d = [] := chain_null_iff.1 hd
  have hcard := congrArg Multiset.card hc.partition
  simp only [Multiset.card_add, Multiset.coe_card, List.length_nil, ho, OwnerPc.inHand,
    Multiset.card_singleton] at hcard
  have := card_pushers s
  simp only [State.balance, ho, OwnerPc.uncounted]
  omega

lemma freeCounted_iff (h : run step init es = some s) (hpop : PopsFree s e) :
    FreeCounted s ↔ 1 ≤ s.balance := by
  obtain ⟨l, r, d, hc⟩ := exists_conserved h
  rw [balance_of_popsFree hc hpop]
  constructor
  · intro hf
    have := hf l r hc.local_chain hc.return_chain
    omega
  · intro hb l' r' hl hr
    obtain rfl := hl.unique hc.local_chain
    obtain rfl := hr.unique hc.return_chain
    omega

/-- If every decrement finds the balance positive, the balance is never negative. -/
lemma balance_nonneg (h : run step init es = some s) (hes : .prewarmFails ∉ es)
    (hpos : ∀ pre e m, pre ++ [e] <+: es → run step init pre = some m → PopsFree m e →
      0 ≤ m.balance → 1 ≤ m.balance) : 0 ≤ s.balance := by
  revert hes hpos
  refine run_induction (P := fun es s => .prewarmFails ∉ es → (∀ pre e m, pre ++ [e] <+: es →
    run step init pre = some m → PopsFree m e → 0 ≤ m.balance → 1 ≤ m.balance) →
      0 ≤ s.balance) ?_ ?_ h
  · intro _ _
    simp [init, State.balance, OwnerPc.uncounted]
  · intro es s e t hrun ih hstep hes hpos
    simp only [List.mem_append, List.mem_singleton, not_or] at hes
    have hs := ih hes.1 fun pre e m hpre =>
      hpos pre e m (hpre.trans (List.prefix_append _ _))
    obtain ⟨δ, hbal, -, hpop, hkeep⟩ := exists_shifts hstep (Ne.symm hes.2)
    by_cases hp : PopsFree s e
    · have hpos' := hpos es e s (List.prefix_refl _) hrun hp hs
      have := hpop hp
      omega
    · have := hkeep hp
      omega

/-- A non-negative balance below `2 ^ 64` is the counter itself. -/
lemma freePages_eq_of_nonneg (h : run step init es = some s) (hes : .prewarmFails ∉ es)
    (hb : 0 ≤ s.balance) : (s.stats.freePages : ℤ) = s.balance := by
  rw [freePages_eq_balance h hes, Int.emod_eq_of_lt hb]
  have h1 := balance_le_card h
  have h2 := card_obtained_lt h
  omega

/-- **When `free_pages` is sound.** Along a run of the pool without a failing `prewarm`,
`free_pages` never exceeds the number of buffers obtained and is never decremented below zero
if and only if every decrement of `pop_local` happens while fewer `push_return` calls are
between their exchange and their increment than there are free buffers. -/
theorem freePages_sound_iff (hes : .prewarmFails ∉ es) :
    FreePagesSound es ↔
      ∀ pre e m, pre ++ [e] <+: es → run step init pre = some m → PopsFree m e →
        FreeCounted m := by
  have hsub : ∀ {pre}, pre <+: es → .prewarmFails ∉ pre := fun hpre hmem =>
    hes (hpre.subset hmem)
  constructor
  · intro hsound pre e m hpre hrun hpop
    have hpre' : pre <+: es := (List.prefix_append _ _).trans hpre
    rw [freeCounted_iff hrun hpop]
    -- A positive counter and a non-negative balance make the balance positive, inductively.
    have hpos : ∀ pre' e' m', pre' ++ [e'] <+: es → run step init pre' = some m' →
        PopsFree m' e' → 0 ≤ m'.balance → 1 ≤ m'.balance := by
      intro pre' e' m' hp' hr' hpop' hb'
      have hle := hsound.no_underflow pre' e' m' hp' hr' hpop'
      have heq := freePages_eq_of_nonneg hr' (hsub ((List.prefix_append _ _).trans hp')) hb'
      omega
    have hb := balance_nonneg hrun (hsub hpre') fun pre' e' m' hp' =>
      hpos pre' e' m' (hp'.trans hpre')
    exact hpos pre e m hpre hrun hpop hb
  · intro hcond
    have hbal : ∀ pre m, pre <+: es → run step init pre = some m → 0 ≤ m.balance := by
      intro pre m hpre hrun
      refine balance_nonneg hrun (hsub hpre) ?_
      intro pre' e' m' hp' hr' hpop' _
      exact (freeCounted_iff hr' hpop').1 (hcond pre' e' m' (hp'.trans hpre) hr' hpop')
    constructor
    · intro pre m hpre hrun
      have h1 := freePages_eq_of_nonneg hrun (hsub hpre) (hbal pre m hpre hrun)
      have h2 := balance_le_card hrun
      omega
    · intro pre e m hpre hrun hpop
      have hpre' : pre <+: es := (List.prefix_append _ _).trans hpre
      have h1 := freePages_eq_of_nonneg hrun (hsub hpre') (hbal pre m hpre' hrun)
      have h2 := (freeCounted_iff hrun hpop).1 (hcond pre e m hpre hrun hpop)
      omega

/-- One buffer is allocated, dropped on another thread and published; before that thread has
counted it, the owner drains, pops and decrements. -/
def raceRun : List Event :=
  [.allocate, .owner 0, .owner 0, .owner 0, .owner 8, .owner 0, .drop 8,
    .push ⟨8, .load⟩ false, .push ⟨8, .write 0⟩ false, .push ⟨8, .cas 0⟩ false,
    .allocate, .owner 0, .owner 0, .owner 0, .owner 0, .owner 0, .owner 0]

/-- The decrement overtakes its increment: with a single buffer obtained from the source,
`free_pages()` returns `2 ^ 64 - 1`. -/
theorem freePages_wraps :
    ¬ FreePagesSound raceRun ∧ ∃ s, run step init raceRun = some s ∧ s.obtained.card = 1 ∧
      s.stats.freePages = 2 ^ 64 - 1 := by
  have hval : (run step init raceRun).map (fun s => (s.obtained.card, s.stats.freePages)) =
      some (1, 2 ^ 64 - 1) := by decide +kernel
  obtain ⟨s, hs, hpair⟩ := Option.map_eq_some_iff.1 hval
  obtain ⟨hcard, hfree⟩ := Prod.mk.inj hpair
  refine ⟨fun hsound => ?_, s, hs, hcard, hfree⟩
  have hle := hsound.le_obtained raceRun s (List.prefix_refl _) hs
  rw [hcard, hfree] at hle
  exact absurd hle (by decide)

/-- The same run with the increment taken before the owner starts to drain. -/
def countedRun : List Event :=
  [.allocate, .owner 0, .owner 0, .owner 0, .owner 8, .owner 0, .drop 8,
    .push ⟨8, .load⟩ false, .push ⟨8, .write 0⟩ false, .push ⟨8, .cas 0⟩ false,
    .push ⟨8, .subPagesInUse⟩ false, .push ⟨8, .addFreePages⟩ false,
    .allocate, .owner 0, .owner 0, .owner 0, .owner 0, .owner 0, .owner 0]

theorem freePages_sound_iff_countedRun :
    (run step init countedRun).isSome ∧ (FreePagesSound countedRun ↔
      ∀ pre e m, pre ++ [e] <+: countedRun → run step init pre = some m → PopsFree m e →
        FreeCounted m) := by
  exact ⟨by decide +kernel, freePages_sound_iff (by decide)⟩

end PagedAlloc.PoolInterleaving
