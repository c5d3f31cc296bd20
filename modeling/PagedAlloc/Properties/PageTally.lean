import PagedAlloc.Construction.PageRegister

/-!
# What the counters of a pool say

The invariant of the page register.  Every counter is a function of the history of the pool, up
to the pages that were leaked and the requests that failed (`Tally`); a page is acquired exactly
as often as it is given back, and once more while somebody holds it; and the source has only ever
been called with every page of the pool in use (`Recycles`).

`Tally.move` is the step and `Tally.moves` the run.
-/

namespace PagedAlloc.Sequential

open Words Relation

namespace History

variable {t : List PageEvent} {id a b : ℕ} {fresh : Bool}

@[simp] lemma acquired_acquire : acquired a (.acquire id b fresh :: t) =
    acquired a t + if a = b then 1 else 0 := by
  unfold acquired
  rw [List.countP_cons]
  simp

@[simp] lemma acquired_giveBack : acquired a (.giveBack id b :: t) = acquired a t := by
  unfold acquired
  rw [List.countP_cons]
  simp

@[simp] lemma acquired_prewarm {n : ℕ} : acquired a (.prewarm id n :: t) = acquired a t := by
  unfold acquired
  rw [List.countP_cons]
  simp

@[simp] lemma returned_acquire : returned a (.acquire id b fresh :: t) = returned a t := by
  unfold returned
  rw [List.countP_cons]
  simp

@[simp] lemma returned_giveBack : returned a (.giveBack id b :: t) =
    returned a t + if a = b then 1 else 0 := by
  unfold returned
  rw [List.countP_cons]
  simp

@[simp] lemma returned_prewarm {n : ℕ} : returned a (.prewarm id n :: t) = returned a t := by
  unfold returned
  rw [List.countP_cons]
  simp

/-- Every acquisition took a free page if there was one, and called the source if not; `u` pages
were free without having been counted. -/
def Recycles (u : ℕ) (t : List PageEvent) : Prop :=
  ∀ id a fresh s, .acquire id a fresh :: s <:+ t →
    (fresh = true → ∃ v ≤ u, fromHeap s + v = inUse s) ∧
      (fresh = false → inUse s < fromHeap s + u)

lemma Recycles.mono {u v : ℕ} (h : Recycles u t) (hle : u ≤ v) : Recycles v t := by
  intro id a fresh s hs
  obtain ⟨htrue, hfalse⟩ := h id a fresh s hs
  refine ⟨fun hfresh => ?_, fun hfresh => ?_⟩
  · obtain ⟨x, hx, heq⟩ := htrue hfresh
    exact ⟨x, hx.trans hle, heq⟩
  · have := hfalse hfresh
    omega

/-- An event that is not an acquisition. -/
lemma Recycles.cons {u : ℕ} {e : PageEvent} (h : Recycles u t)
    (hne : ∀ id a fresh, e ≠ .acquire id a fresh) : Recycles u (e :: t) := by
  intro id a fresh s hs
  rcases List.suffix_cons_iff.1 hs with heq | hs
  · obtain ⟨rfl, -⟩ := List.cons.inj heq
    exact absurd rfl (hne id a fresh)
  · exact h id a fresh s hs

lemma Recycles.acquire {u : ℕ} (h : Recycles u t)
    (htrue : fresh = true → fromHeap t + u = inUse t)
    (hfalse : fresh = false → inUse t < fromHeap t + u) :
    Recycles u (.acquire id a fresh :: t) := by
  intro id' a' fresh' s hs
  rcases List.suffix_cons_iff.1 hs with heq | hs
  · obtain ⟨he, rfl⟩ := List.cons.inj heq
    obtain ⟨-, -, rfl⟩ := PageEvent.acquire.inj he
    exact ⟨fun hfresh => ⟨u, Nat.le_refl u, htrue hfresh⟩, hfalse⟩
  · exact h id' a' fresh' s hs

/-- Every buffer is acquired and given back in turn. -/
def Alternates (t : List PageEvent) : Prop :=
  ∀ a s, s <:+ t → returned a s ≤ acquired a s ∧ acquired a s ≤ returned a s + 1

lemma Alternates.cons {e : PageEvent} (h : Alternates t)
    (he : ∀ a, returned a (e :: t) ≤ acquired a (e :: t) ∧
      acquired a (e :: t) ≤ returned a (e :: t) + 1) : Alternates (e :: t) := by
  intro a s hs
  rcases List.suffix_cons_iff.1 hs with rfl | hs
  · exact he a
  · exact h a s hs

end History

open History

/-- The counters after a history, with `f` requests that failed. -/
structure Counts (f : ℕ) (t : List PageEvent) (st : PoolStats) : Prop where
  heap : st.allocationsFromHeap = (fromHeap t + f) % size64
  pagesInUse : st.pagesInUse = inUse t % size64
  freePages : (st.freePages : ℤ) = free t % (size64 : ℤ)
  prewarmedPages : st.prewarmedPages = prewarmed t % size64

section Counts

variable {f id a n : ℕ} {st st' : PoolStats} {t : List PageEvent} {fresh : Bool}

lemma counts_nil : Counts 0 [] PoolStats.default := by
  constructor <;> simp [PoolStats.default, fromHeap, inUse, free, prewarmed]

lemma Counts.acquire (hc : Counts f t st) (ha : st.Acquires fresh st') :
    Counts f (.acquire id a fresh :: t) st' where
  heap := by
    rw [ha.allocationsFromHeap, hc.heap]
    cases fresh with
    | true =>
        rw [if_pos rfl, fetchAdd_mod]
        simp only [fromHeap, if_true]
        congr 1
        omega
    | false => rfl
  pagesInUse := by rw [ha.pagesInUse, hc.pagesInUse, fetchAdd_mod, inUse]
  freePages := by
    rw [ha.freePages]
    cases fresh with
    | true =>
        rw [if_pos rfl, hc.freePages]
        simp [free]
    | false =>
        rw [if_neg (by simp), cast_fetchSub_emod hc.freePages]
        rfl
  prewarmedPages := ha.prewarmedPages.trans hc.prewarmedPages

lemma Counts.giveBack (hc : Counts f t st) (hpos : 0 < inUse t) :
    Counts f (.giveBack id a :: t) st.giveBack where
  heap := hc.heap
  pagesInUse := by
    show fetchSub st.pagesInUse 1 = _
    rw [hc.pagesInUse, fetchSub_mod hpos, inUse]
  freePages := cast_fetchAdd_emod hc.freePages 1
  prewarmedPages := hc.prewarmedPages

lemma Counts.prewarm (hc : Counts f t st) : Counts f (.prewarm id n :: t) (st.prewarm n) where
  heap := by
    show fetchAdd st.allocationsFromHeap n = _
    rw [hc.heap, fetchAdd_mod, fromHeap]
    congr 1
    omega
  pagesInUse := hc.pagesInUse
  freePages := cast_fetchAdd_emod hc.freePages n
  prewarmedPages := by
    show fetchAdd st.prewarmedPages n = _
    rw [hc.prewarmedPages, fetchAdd_mod, History.prewarmed]

lemma Counts.fail (hc : Counts f t st) :
    Counts (f + 1) t ((PoolAccess.addAllocationsFromHeap 1).exec st) where
  heap := by
    show fetchAdd st.allocationsFromHeap 1 = _
    rw [hc.heap, fetchAdd_mod, Nat.add_assoc]
  pagesInUse := hc.pagesInUse
  freePages := hc.freePages
  prewarmedPages := hc.prewarmedPages

end Counts

namespace Register

/-- The register of a pool that does not exist yet. -/
structure Unborn (r : Register) : Prop where
  owner : r.owner = 0
  stats : r.stats = none
  history : r.history = []
  obtained : r.obtained = 0
  blocks : r.blocks = 0
  held : r.held = 0

/-- The register is in order: `u` pages leaked, `f` requests failed, and the owner released `c`
buffers when it was dropped. -/
structure Tally (u f c : ℕ) (r : Register) : Prop where
  unborn : r.born = false → r.Unborn ∧ f = 0 ∧ c = 0
  obtained : r.obtained = fromHeap r.history + u
  held : r.held.card = inUse r.history
  balance : free r.history + inUse r.history = fromHeap r.history
  places : ∀ a, acquired a r.history = returned a r.history + r.held.count a
  whole : r.owner = 1 → r.blocks = r.obtained
  released : r.stats.isSome → r.obtained = r.blocks + c
  counts : ∀ st, r.stats = some st → Counts f r.history st
  recycles : Recycles u r.history
  alternates : Alternates r.history

variable {u f c id a n k : ℕ} {r r' : Register} {l : Label} {G : Label → Prop} {st st' : PoolStats}
  {fresh : Bool} {held : Multiset ℕ}

lemma Tally.born_of_owner (ht : Tally u f c r) (hlive : r.owner = 1) : r.born = true := by
  by_contra hborn
  have hzero := (ht.unborn (by simpa using hborn)).1.owner
  omega

lemma Tally.born_of_stats (ht : Tally u f c r) (hst : r.stats = some st) : r.born = true := by
  by_contra hborn
  have hnone := (ht.unborn (by simpa using hborn)).1.stats
  exact absurd (hst.symm.trans hnone) (by simp)

lemma Tally.birth (ht : Tally u f c r) (hunborn : r.born = false) :
    Tally u f c { r with born := true, owner := 1, stats := some PoolStats.default } := by
  obtain ⟨hr, rfl, rfl⟩ := ht.unborn hunborn
  constructor
  case unborn => exact fun h => absurd h (by simp)
  case whole => exact fun _ => hr.blocks.trans hr.obtained.symm
  case released => exact fun _ => hr.obtained.trans hr.blocks.symm
  case counts =>
    intro st hst
    obtain rfl := Option.some.inj hst
    rw [show r.history = [] from hr.history]
    exact counts_nil
  case obtained => exact ht.obtained
  case held => exact ht.held
  case balance => exact ht.balance
  case places => exact ht.places
  case recycles => exact ht.recycles
  case alternates => exact ht.alternates

lemma Tally.acquire (ht : Tally u f c r) (hlive : r.owner = 1) (hst : r.stats = some st)
    (hcounted : st.Acquires fresh st') (hempty : fresh = true → r.blocks = r.held.card)
    (hnonempty : fresh = false → r.held.card < r.blocks) (hunheld : a ∉ r.held) :
    Tally u f c { r with
      stats := some st'
      history := .acquire id a fresh :: r.history
      obtained := r.obtained + if fresh then 1 else 0
      blocks := r.blocks + if fresh then 1 else 0
      held := a ::ₘ r.held } := by
  have hborn := ht.born_of_owner hlive
  have hwhole := ht.whole hlive
  have hobtained := ht.obtained
  have hheld := ht.held
  constructor
  case unborn => exact fun h => absurd (hborn.symm.trans h) (by simp)
  case obtained =>
    show r.obtained + _ = fromHeap r.history + _ + u
    rw [hobtained]
    omega
  case held =>
    show (a ::ₘ r.held).card = inUse r.history + 1
    rw [Multiset.card_cons, hheld]
  case balance =>
    have hbalance := ht.balance
    show free r.history - _ + ((inUse r.history + 1 : ℕ) : ℤ) = ((fromHeap r.history + _ : ℕ) : ℤ)
    cases fresh <;> simp <;> omega
  case places =>
    intro b
    have hplaces := ht.places b
    show acquired b (_ :: _) = returned b (_ :: _) + (a ::ₘ r.held).count b
    rw [acquired_acquire, returned_acquire, Multiset.count_cons]
    omega
  case whole =>
    intro _
    show r.blocks + _ = r.obtained + _
    rw [hwhole]
  case released =>
    intro _
    have hreleased := ht.released (by rw [hst]; rfl)
    show r.obtained + _ = r.blocks + _ + c
    omega
  case counts =>
    intro st₁ hst₁
    obtain rfl := Option.some.inj hst₁
    exact (ht.counts st hst).acquire hcounted
  case recycles =>
    refine ht.recycles.acquire (fun hfresh => ?_) fun hfresh => ?_
    · have := hempty hfresh
      omega
    · have := hnonempty hfresh
      omega
  case alternates =>
    apply ht.alternates.cons
    intro b
    have hplaces := ht.places b
    have halternates := ht.alternates b r.history (List.suffix_refl _)
    rw [acquired_acquire, returned_acquire]
    by_cases hb : b = a
    · rw [hb, Multiset.count_eq_zero.2 hunheld] at hplaces
      rw [hb, if_pos rfl]
      omega
    · rw [if_neg hb]
      omega

lemma Tally.giveBack (ht : Tally u f c r) (hst : r.stats = some st) (hmem : r.held = a ::ₘ held) :
    Tally u f c { r with
      stats := some st.giveBack
      history := .giveBack id a :: r.history
      held := held } := by
  have hborn := ht.born_of_stats hst
  have hheld := ht.held
  rw [hmem, Multiset.card_cons] at hheld
  constructor
  case unborn => exact fun h => absurd (hborn.symm.trans h) (by simp)
  case obtained => exact ht.obtained
  case held =>
    show held.card = inUse r.history - 1
    omega
  case balance =>
    have hbalance := ht.balance
    show free r.history + 1 + ((inUse r.history - 1 : ℕ) : ℤ) = (fromHeap r.history : ℤ)
    omega
  case places =>
    intro b
    have hplaces := ht.places b
    rw [hmem, Multiset.count_cons] at hplaces
    show acquired b (_ :: _) = returned b (_ :: _) + held.count b
    rw [acquired_giveBack, returned_giveBack]
    omega
  case whole => exact ht.whole
  case released => exact fun _ => ht.released (by rw [hst]; rfl)
  case counts =>
    intro st₁ hst₁
    obtain rfl := Option.some.inj hst₁
    exact (ht.counts st hst).giveBack (by omega)
  case recycles => exact ht.recycles.cons (by simp)
  case alternates =>
    apply ht.alternates.cons
    intro b
    have hplaces := ht.places b
    have halternates := ht.alternates b r.history (List.suffix_refl _)
    rw [hmem, Multiset.count_cons] at hplaces
    rw [acquired_giveBack, returned_giveBack]
    omega

lemma Tally.prewarm (ht : Tally u f c r) (hlive : r.owner = 1) (hst : r.stats = some st) :
    Tally u f c { r with
      stats := some (st.prewarm n)
      history := .prewarm id n :: r.history
      obtained := r.obtained + n
      blocks := r.blocks + n } := by
  have hborn := ht.born_of_owner hlive
  have hwhole := ht.whole hlive
  constructor
  case unborn => exact fun h => absurd (hborn.symm.trans h) (by simp)
  case obtained =>
    have hobtained := ht.obtained
    show r.obtained + n = fromHeap r.history + n + u
    omega
  case held => exact ht.held
  case balance =>
    have hbalance := ht.balance
    show free r.history + n + (inUse r.history : ℤ) = ((fromHeap r.history + n : ℕ) : ℤ)
    omega
  case places =>
    intro b
    show acquired b (_ :: _) = returned b (_ :: _) + r.held.count b
    rw [acquired_prewarm, returned_prewarm]
    exact ht.places b
  case whole =>
    intro _
    show r.blocks + n = r.obtained + n
    omega
  case released =>
    intro _
    have hreleased := ht.released (by rw [hst]; rfl)
    show r.obtained + n = r.blocks + n + c
    omega
  case counts =>
    intro st₁ hst₁
    obtain rfl := Option.some.inj hst₁
    exact (ht.counts st hst).prewarm
  case recycles => exact ht.recycles.cons (by simp)
  case alternates =>
    apply ht.alternates.cons
    intro b
    rw [acquired_prewarm, returned_prewarm]
    exact ht.alternates b r.history (List.suffix_refl _)

lemma Tally.leak (ht : Tally u f c r) (hlive : r.owner = 1) :
    Tally (u + k) f c { r with obtained := r.obtained + k, blocks := r.blocks + k } where
  unborn h := absurd ((ht.born_of_owner hlive).symm.trans h) (by simp)
  obtained := by
    have hobtained := ht.obtained
    show r.obtained + k = fromHeap r.history + (u + k)
    omega
  held := ht.held
  balance := ht.balance
  places := ht.places
  whole _ := by
    have hwhole := ht.whole hlive
    show r.blocks + k = r.obtained + k
    omega
  released h := by
    have hreleased := ht.released h
    show r.obtained + k = r.blocks + k + c
    omega
  counts := ht.counts
  recycles := ht.recycles.mono (Nat.le_add_right u k)
  alternates := ht.alternates

lemma Tally.fail (ht : Tally u f c r) (hlive : r.owner = 1) (hst : r.stats = some st) :
    Tally u (f + 1) c { r with
      stats := some ((PoolAccess.addAllocationsFromHeap 1).exec st) } where
  unborn h := absurd ((ht.born_of_owner hlive).symm.trans h) (by simp)
  obtained := ht.obtained
  held := ht.held
  balance := ht.balance
  places := ht.places
  whole := ht.whole
  released _ := ht.released (by rw [hst]; rfl)
  counts st₁ hst₁ := by
    obtain rfl := Option.some.inj hst₁
    exact (ht.counts st hst).fail
  recycles := ht.recycles
  alternates := ht.alternates

lemma Tally.close (ht : Tally u f c r) (hlive : r.owner = 1) (hle : k + r.held.card ≤ r.blocks) :
    Tally u f (c + k) { r with owner := 0, blocks := r.blocks - k } where
  unborn h := absurd ((ht.born_of_owner hlive).symm.trans h) (by simp)
  obtained := ht.obtained
  held := ht.held
  balance := ht.balance
  places := ht.places
  whole h := absurd h (by simp)
  released h := by
    have hreleased := ht.released h
    show r.obtained = r.blocks - k + (c + k)
    omega
  counts := ht.counts
  recycles := ht.recycles
  alternates := ht.alternates

lemma Tally.die (ht : Tally u f c r) (hst : r.stats = some st) :
    Tally u f c { r with owner := 0, stats := none, blocks := r.blocks - k } where
  unborn h := absurd ((ht.born_of_stats hst).symm.trans h) (by simp)
  obtained := ht.obtained
  held := ht.held
  balance := ht.balance
  places := ht.places
  whole h := absurd h (by simp)
  released h := absurd h (by simp)
  counts st h := absurd h (by simp)
  recycles := ht.recycles
  alternates := ht.alternates

/-- **One move.** -/
lemma Tally.move (ht : Tally u f c r) (hmove : Move id r l r') :
    Tally (u + l.leaked) (f + l.failed) (c + l.closed) r' := by
  cases hmove with
  | birth hunborn => exact ht.birth hunborn
  | acquire hlive hst hcounted hempty hnonempty hunheld =>
      exact ht.acquire hlive hst hcounted hempty hnonempty hunheld
  | giveBack hst hmem => exact ht.giveBack hst hmem
  | prewarm n hlive hst => exact ht.prewarm hlive hst
  | leak k hlive => exact ht.leak hlive
  | fail hlive hst hempty => exact ht.fail hlive hst
  | close k hlive hle => exact ht.close hlive hle
  | die k hst => exact ht.die hst

/-- **Many moves**; what the labels do not allow has not happened. -/
lemma Tally.moves (ht : Tally u f c r) (hmoves : Moves id G r r') :
    ∃ u' f' c', Tally u' f' c' r' ∧ u ≤ u' ∧
      ((∀ k, G (.leak k) → k = 0) → u' = u) ∧
      (¬ G .fail → f' = f) ∧
      ((∀ k, G (.close k) → k = 0) → c' = c) := by
  induction hmoves with
  | refl => exact ⟨u, f, c, ht, Nat.le_refl u, fun _ => rfl, fun _ => rfl, fun _ => rfl⟩
  | tail _ hlast ih =>
      obtain ⟨u', f', c', ht', hle, hu, hf, hc⟩ := ih
      obtain ⟨l, hl, hmove⟩ := hlast
      refine ⟨_, _, _, ht'.move hmove, by omega, fun hnone => ?_, fun hnone => ?_,
        fun hnone => ?_⟩
      · rw [hu hnone]
        cases l with
        | leak k => exact congrArg (u + ·) (hnone k hl)
        | _ => rfl
      · rw [hf hnone]
        cases l with
        | fail => exact absurd hl hnone
        | _ => rfl
      · rw [hc hnone]
        cases l with
        | close k => exact congrArg (c + ·) (hnone k hl)
        | _ => rfl

end Register

end PagedAlloc.Sequential
