import PagedAlloc.Properties.PageRegisterRuns

/-!
# Recycling

A pool asks its source for a page only if every page it has is in use, so it never owns more
pages than were in use at once, beyond those it was prewarmed with (`recycling_complete`).

The law is one about histories: `Recycles 0` says at every acquisition whether a page was free,
and the number of pages obtained is a high-water mark by induction on the history.
-/

namespace PagedAlloc.Sequential

open Words Bytes Intrusive Relation Transition History

namespace History

variable {s t : List PageEvent} {id a n : ℕ} {fresh : Bool}

/-- How many pages have been acquired. -/
def acquisitions : List PageEvent → ℕ
  | [] => 0
  | .acquire _ _ _ :: t => acquisitions t + 1
  | .giveBack _ _ :: t => acquisitions t
  | .prewarm _ _ :: t => acquisitions t

lemma Recycles.suffix {u : ℕ} (h : Recycles u t) (hs : s <:+ t) : Recycles u s :=
  fun id a fresh r hr => h id a fresh r (hr.trans hs)

/-- A fresh acquisition finds every page in use, any other one finds a free page. -/
lemma Recycles.fresh_iff (h : Recycles 0 (.acquire id a fresh :: t)) :
    (fresh = true ↔ fromHeap t = inUse t) ∧ (fresh = false → inUse t < fromHeap t) := by
  obtain ⟨htrue, hfalse⟩ := h id a fresh t (List.suffix_refl _)
  refine ⟨⟨fun hfresh => ?_, fun heq => ?_⟩, hfalse⟩
  · obtain ⟨v, hv, heq⟩ := htrue hfresh
    omega
  · by_contra hne
    have := hfalse (by simpa using hne)
    omega

/-- **The high-water mark**, one acquisition at a time. -/
lemma Recycles.fromHeap_acquire (h : Recycles 0 (.acquire id a fresh :: t)) :
    fromHeap (.acquire id a fresh :: t) =
      max (fromHeap t) (inUse (.acquire id a fresh :: t)) := by
  obtain ⟨htrue, hfalse⟩ := h.fresh_iff
  rw [fromHeap, inUse]
  cases fresh with
  | true =>
      have := htrue.1 rfl
      rw [if_pos rfl]
      omega
  | false =>
      have := hfalse rfl
      rw [if_neg (by simp)]
      omega

lemma Recycles.tail {e : PageEvent} (h : Recycles 0 (e :: t)) : Recycles 0 t :=
  h.suffix (List.suffix_cons e t)

lemma Recycles.inUse_le (h : Recycles 0 t) : inUse t ≤ fromHeap t := by
  induction t with
  | nil => exact Nat.le_refl 0
  | cons e t ih =>
      have hold := ih h.tail
      cases e with
      | acquire id a fresh =>
          rw [h.fromHeap_acquire]
          exact Nat.le_max_right _ _
      | giveBack id a =>
          rw [inUse, fromHeap]
          omega
      | prewarm id n =>
          rw [inUse, fromHeap]
          omega

lemma inUse_le_peak (t : List PageEvent) : inUse t ≤ peak t := by
  cases t with
  | nil => exact Nat.le_refl 0
  | cons e t => exact Nat.le_max_right _ _

/-- A history without `prewarm` beyond an initial one. -/
lemma Recycles.fromHeap_eq_peak (h : Recycles 0 (s ++ t)) (ht : fromHeap t = max n (peak t))
    (hnone : ∀ id m, .prewarm id m ∉ s) : fromHeap (s ++ t) = max n (peak (s ++ t)) := by
  induction s with
  | nil => exact ht
  | cons e s ih =>
      have hold := ih h.tail fun id m hmem => hnone id m (List.mem_cons_of_mem e hmem)
      rw [List.cons_append] at h ⊢
      cases e with
      | acquire id a fresh => rw [h.fromHeap_acquire, hold, peak, Nat.max_assoc]
      | giveBack id a =>
          have hle := inUse_le_peak (s ++ t)
          rw [fromHeap, hold, peak, inUse, Nat.max_eq_left (by omega : inUse (s ++ t) - 1 ≤ _)]
      | prewarm id m => exact absurd List.mem_cons_self (hnone id m)

/-- After `prewarm(n)`, as many acquisitions find a free page. -/
lemma Recycles.room_of_prewarm (h : Recycles 0 (s ++ .prewarm id n :: t)) :
    inUse (s ++ .prewarm id n :: t) + n ≤
      fromHeap (s ++ .prewarm id n :: t) + acquisitions s := by
  induction s with
  | nil =>
      have hle := h.tail.inUse_le
      rw [List.nil_append, inUse, fromHeap]
      omega
  | cons e s ih =>
      have hold := ih h.tail
      rw [List.cons_append] at h ⊢
      cases e with
      | acquire id' a fresh =>
          rw [inUse, fromHeap, acquisitions]
          omega
      | giveBack id' a =>
          rw [inUse, fromHeap, acquisitions]
          omega
      | prewarm id' m =>
          rw [inUse, fromHeap, acquisitions]
          omega

lemma Recycles.not_fresh_of_prewarm
    (h : Recycles 0 (.acquire id a fresh :: (s ++ .prewarm id n :: t)))
    (hlt : acquisitions s < n) : fresh = false := by
  have hroom := h.tail.room_of_prewarm
  by_contra hne
  have := h.fresh_iff.1.1 (by simpa using hne)
  omega

end History

/-! ## Counters without wrap-around -/

section Bounds

variable {c : Config} {w : World} {B : Multiset (ℕ × ℕ)} {id u f k : ℕ} {p : Pool}

/-- There are fewer live allocations than addresses. -/
lemma Owned.card_blocks_lt (ho : Owned c) : c.world.blocks.card < size64 := by
  have hnodup : (c.world.blocks.map Block.base).Nodup :=
    Multiset.Nodup.map_on (fun b hb b' hb' => ho.blocks.eq_of_base_eq hb hb') ho.blocks.nodup
  have hsub : (⟨c.world.blocks.map Block.base, hnodup⟩ : Finset ℕ) ⊆
      (Finset.range size64).erase 0 := by
    intro x hx
    obtain ⟨b, hb, rfl⟩ := Multiset.mem_map.1 (Finset.mem_def.1 hx)
    obtain ⟨hne, hpos, hend⟩ := ho.blocks.bounds b hb
    exact Finset.mem_erase.2 ⟨hne, Finset.mem_range.2 (by omega)⟩
  have hcard := Finset.card_le_card hsub
  rw [Finset.card_erase_of_mem (Finset.mem_range.2 size64_pos), Finset.card_range] at hcard
  have hmap : (⟨c.world.blocks.map Block.base, hnodup⟩ : Finset ℕ).card =
      c.world.blocks.card := Multiset.card_map _ _
  have := size64_pos
  omega

lemma Owned.blocks_register_lt (ho : Owned w.idle) (id : ℕ) : (w.register 0 id).blocks < size64 :=
  Nat.lt_of_le_of_lt (Multiset.countP_le_card _ _) ho.card_blocks_lt

/-- The counters of a pool whose owner is live, as numbers; `u` pages were leaked. -/
lemma Owned.counters_of_live (ho : Owned w.idle) (hget : w.pools.get id = some p)
    (hlive : p.owner.Live) (ht : Register.Tally u f k (w.register 0 id)) :
    fromHeap (w.history id) + u < size64 ∧
      p.stats.pagesInUse = inUse (w.history id) ∧
      p.stats.allocationsFromHeap = (fromHeap (w.history id) + f) % size64 := by
  have hst : (w.register 0 id).stats = some p.stats := stats_register hget
  have hrefs : (w.register 0 id).owner = 1 := by
    rw [owner_register hget, Owner.refs_of_live hlive]
  have hcounts := ht.counts p.stats hst
  have hlt := ho.blocks_register_lt id
  have hwhole := ht.whole hrefs
  have hobtained : (w.register 0 id).obtained = fromHeap (w.history id) + u := ht.obtained
  have hheld := ht.held
  obtain ⟨free, -, hcount⟩ := ho.places.lists id p hget
  have hcard : (w.register 0 id).blocks = free.card + (w.register 0 id).held.card :=
    ho.countP_blocks hget hcount
  refine ⟨by omega, ?_, hcounts.heap⟩
  refine hcounts.pagesInUse.trans (Nat.mod_eq_of_lt ?_)
  omega

end Bounds

/-! ## The law -/

/-- Every request for a page that the operation makes is granted. -/
def Op.Succeeds : Op → Prop
  | .prewarm _ replies => none ∉ replies
  | op => op.reply ≠ some none

section Law

variable {w : World} {ops : List Op} {id j a : ℕ} {p : Pool} {reply : Option ℕ}

lemma noLeak_of_succeeds {op : Op} (h : op.Succeeds) : NoLeak id w op := by
  rintro k ⟨pre, rest, rfl, -, -⟩
  exact absurd h (by simp [Op.Succeeds])

lemma noFail_of_succeeds {op : Op} (h : op.Succeeds) : NoFail id w op := by
  intro hfail
  change op.reply = some none at hfail
  cases op with
  | prewarm j replies => exact absurd hfail (by simp [Op.reply])
  | _ => exact h hfail

/-- A condition on operations alone. -/
lemma always_of_forall {G : World → Op → Prop} (h : ∀ op ∈ ops, ∀ w, G w op) :
    Always World.step G w ops := by
  induction ops generalizing w with
  | nil => trivial
  | cons op ops ih =>
      refine ⟨h op List.mem_cons_self w, ?_⟩
      cases w.step op with
      | none => trivial
      | some w' => exact ih fun op' hmem => h op' (List.mem_cons_of_mem op hmem)

/-- If the source never refuses a page, the register has no exceptions. -/
lemma tally_of_succeeds (id : ℕ) (h : runOps ops = some w) (hops : ∀ op ∈ ops, op.Succeeds) :
    ∃ k, Register.Tally 0 0 k (w.register 0 id) := by
  obtain ⟨u, f, k, ht, -, hu, hf, -⟩ := tally_run owned_init (tally_init id) h
  obtain rfl := hu (always_of_forall fun op hmem _ => noLeak_of_succeeds (hops op hmem))
  obtain rfl := hf (always_of_forall fun op hmem _ => noFail_of_succeeds (hops op hmem))
  exact ⟨k, ht⟩

/-- `allocate_raw_page` in any state: it calls the source if and only if both lists are empty,
and the history says so. -/
lemma acquire_calls_source (hget : w.pools.get id = some p) (hlive : p.owner.Live) :
    (w.allocateRawPage id reply).Post
      (fun a w' => ∃ fresh, w'.trace = .acquire id a fresh :: w.trace ∧
        (fresh = true ↔ w'.log = .allocate (.pool id) p.layout a :: w.log) ∧
        (fresh = false ↔ w'.log = w.log) ∧
        (fresh = true ↔ p.owner.localHead = 0 ∧ p.returnHead = 0))
      fun _ => p.owner.localHead = 0 ∧ p.returnHead = 0 := by
  unfold World.allocateRawPage
  rw [hget]
  refine Outcome.Post.bind ((taken_takeBuffer hlive).mono (fun _ _ h => h) ?_) ?_
  · rintro w₁ ⟨-, hlocal, hreturn, -⟩
    exact ⟨hlocal, hreturn⟩
  · rintro a w₁ ⟨fresh, ht⟩
    refine Outcome.post_done ⟨fresh, ?_, ?_, ?_, ht.empty⟩
    · rw [ht.fresh_eq]
      dsimp only
      rw [log_cloneShared.2.2.2.2, log_accessPool.2.2.2.2, ht.trace]
    · dsimp only
      rw [log_cloneShared.1, log_accessPool.1, ht.log]
      cases fresh <;> simp
    · dsimp only
      rw [log_cloneShared.1, log_accessPool.1, ht.log]
      cases fresh <;> simp

/-- **Recycling is complete.** An acquisition calls the source if and only if both lists are
empty.  In every run in which the source grants every request, the number of pages obtained
after an acquisition is the larger of the number before and the number of pages then in use; so
it is the peak of the pages in use, or what the pool was prewarmed with at the start if that is
more; and after `prewarm(n)` the next `n` acquisitions do not call the source. -/
theorem recycling_complete (h : runOps ops = some w) (hops : ∀ op ∈ ops, op.Succeeds)
    (hget : w.pools.get id = some p) (hlive : p.owner.Live) :
    (∀ (v : World) (q : Pool) (reply : Option ℕ), v.pools.get id = some q → q.owner.Live →
      (v.allocateRawPage id reply).Post
        (fun a v' => ∃ fresh, v'.trace = .acquire id a fresh :: v.trace ∧
          (fresh = true ↔ v'.log = .allocate (.pool id) q.layout a :: v.log) ∧
          (fresh = false ↔ v'.log = v.log) ∧
          (fresh = true ↔ q.owner.localHead = 0 ∧ q.returnHead = 0))
        fun _ => q.owner.localHead = 0 ∧ q.returnHead = 0) ∧
    (p.stats.allocationsFromHeap = fromHeap (w.history id) ∧
      p.stats.pagesInUse = inUse (w.history id)) ∧
    (∀ a fresh t, .acquire id a fresh :: t <:+ w.history id →
      (fresh = true ↔ fromHeap t = inUse t) ∧
      fromHeap (.acquire id a fresh :: t) =
        max (fromHeap t) (inUse (.acquire id a fresh :: t))) ∧
    (∀ n s, (w.history id = s ++ [.prewarm id n] ∨ w.history id = s ∧ n = 0) →
      (∀ j m, .prewarm j m ∉ s) →
      p.stats.allocationsFromHeap = max n (peak (w.history id))) ∧
    ∀ n s t, w.history id = s ++ .prewarm id n :: t →
      ∀ a fresh r, .acquire id a fresh :: r <:+ s → acquisitions r < n → fresh = false := by
  obtain ⟨k, ht⟩ := tally_of_succeeds id h hops
  obtain ⟨hlt, hinUse, hheap⟩ := (owned_run h).counters_of_live hget hlive ht
  have hheap' : p.stats.allocationsFromHeap = fromHeap (w.history id) := by
    rw [hheap, Nat.mod_eq_of_lt hlt]
    rfl
  have hrecycles : Recycles 0 (w.history id) := ht.recycles
  refine ⟨fun v q reply hq hlive' => acquire_calls_source hq hlive', ⟨hheap', hinUse⟩,
    fun a fresh t hsuffix => ?_, fun n s hhistory hnone => ?_,
    fun n s t hhistory a fresh r hr hlt' => ?_⟩
  · have hsub := hrecycles.suffix hsuffix
    exact ⟨hsub.fresh_iff.1, hsub.fromHeap_acquire⟩
  · rw [hheap']
    rcases hhistory with hhistory | ⟨hhistory, rfl⟩
    · rw [hhistory] at hrecycles ⊢
      exact hrecycles.fromHeap_eq_peak (by simp [fromHeap, peak, inUse]) hnone
    · rw [hhistory, ← List.append_nil s] at hrecycles
      have hpeak := hrecycles.fromHeap_eq_peak (n := 0) rfl hnone
      rw [List.append_nil] at hpeak
      rw [hhistory]
      exact hpeak
  · obtain ⟨x, rfl⟩ := hr
    have hsuffix : .acquire id a fresh :: (r ++ .prewarm id n :: t) <:+ w.history id := by
      rw [hhistory]
      exact ⟨x, by simp⟩
    exact (hrecycles.suffix hsuffix).not_fresh_of_prewarm hlt'

/-- A pool prewarmed with one page that has two in use at once. -/
def recyclingRun : List Op :=
  [.newPagePool 64, .prewarm 0 [some 64], .allocatePage 0 7 (some 0), .allocatePage 0 7 (some 128),
    .dropPage 0, .allocatePage 0 7 (some 0)]

lemma recyclingRun_ends : ∃ w p, runOps recyclingRun = some w ∧ w.pools.get 0 = some p ∧
    p.owner.Live ∧ w.history 0 = [.acquire 0 64 false, .giveBack 0 64, .acquire 0 128 true,
      .acquire 0 64 false] ++ [.prewarm 0 1] := by
  have heval : (runOps recyclingRun).any (fun w => decide (w.history 0 =
      [.acquire 0 64 false, .giveBack 0 64, .acquire 0 128 true, .acquire 0 64 false] ++
        [.prewarm 0 1] ∧ (w.pools.get 0).map (fun p => p.owner) = some (.pagePool 0))) = true := by
    decide +kernel
  obtain ⟨w, hw, heval⟩ := (Option.any_eq_true _ _).1 heval
  obtain ⟨hhistory, hpool⟩ := of_decide_eq_true heval
  obtain ⟨p, hget, howner⟩ := Option.map_eq_some_iff.1 hpool
  exact ⟨w, p, hw, hget, Owner.live_of_pagePool howner, hhistory⟩

theorem recycling_complete_recyclingRun : ∃ w p, runOps recyclingRun = some w ∧
    w.pools.get 0 = some p ∧ p.stats.pagesInUse = 2 ∧ peak (w.history 0) = 2 ∧
    p.stats.allocationsFromHeap = max 1 (peak (w.history 0)) := by
  obtain ⟨w, p, hw, hget, hlive, hhistory⟩ := recyclingRun_ends
  have hops : ∀ op ∈ recyclingRun, op.Succeeds := by
    simp [recyclingRun, Op.Succeeds, Op.reply]
  obtain ⟨-, ⟨-, hinUse⟩, -, hpeak, -⟩ := recycling_complete hw hops hget hlive
  refine ⟨w, p, hw, hget, ?_, ?_, hpeak 1 _ (Or.inl hhistory) (by simp)⟩
  · rw [hinUse, hhistory]
    rfl
  · rw [hhistory]
    rfl

end Law

end PagedAlloc.Sequential
