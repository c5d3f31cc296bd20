import PagedAlloc.Properties.Prewarm
import PagedAlloc.Properties.Release

/-!
# The counters after the owner is gone

`PagePool::drop` releases the local list and leaves `free_pages` as it is, so whoever still reads
the statistics through the shared half sees pages as free that have been released.  The counters
agree with the log in every run in which the owner is dropped with an empty local list
(`free_pages_truthful`); late drops and the return queue do no harm on either side of its death.
-/

namespace PagedAlloc.Sequential

open Words Bytes Intrusive Relation Transition History

section Balance

variable {c c' : Config} {w : World} {ops : List Op} {id : ℕ} {o : Origin} {l : Layout}
  {as : List ℕ}

/-- What the source of a pool has returned is what was released to it and what is live. -/
def World.Balanced (w : World) (id : ℕ) : Prop :=
  w.log.countP (SourceEvent.Supplies id) =
    w.log.countP (SourceEvent.Releases id) + w.blocks.countP fun b => b.origin = .pool id

lemma countP_releases_releaseAll : (w.releaseAll o l as).log.countP (SourceEvent.Releases id) =
    w.log.countP (SourceEvent.Releases id) + if o = .pool id then as.length else 0 := by
  unfold World.releaseAll
  dsimp only
  rw [List.countP_append, List.countP_reverse, List.countP_map, Nat.add_comm]
  congr 1
  split
  · rename_i ho
    exact List.countP_eq_length.2 fun a _ => by simp [SourceEvent.Releases, ho]
  · rename_i ho
    exact List.countP_eq_zero.2 fun a _ => by simp [SourceEvent.Releases, ho]

lemma World.Balanced.provide {a : ℕ} (hb : w.Balanced id) : (w.provide o l a).Balanced id := by
  unfold World.Balanced at hb ⊢
  unfold World.provide
  dsimp only
  rw [List.countP_cons, List.countP_cons, Multiset.countP_cons]
  by_cases ho : o = .pool id
  · simp only [SourceEvent.Supplies, SourceEvent.Releases, ho, decide_true, if_true]
    simp only [Bool.false_eq_true, if_false]
    omega
  · simp only [SourceEvent.Supplies, SourceEvent.Releases, ho, decide_false]
    simp only [Bool.false_eq_true, if_false]
    omega

lemma World.Balanced.releaseAll (hb : w.Balanced id)
    (hle : ((as.map fun a => ⟨a, l, o⟩ : List Block) : Multiset Block) ≤ w.blocks) :
    (w.releaseAll o l as).Balanced id := by
  have hlive : (if o = .pool id then as.length else 0) ≤
      w.blocks.countP fun b => b.origin = .pool id := by
    split
    · rename_i ho
      have hmono := Multiset.countP_le_of_le (fun b : Block => b.origin = .pool id) hle
      rw [Multiset.coe_countP, List.countP_map, List.countP_eq_length.2 fun a _ => by simp [ho]]
        at hmono
      exact hmono
    · exact Nat.zero_le _
  unfold World.Balanced at hb ⊢
  rw [countP_log_releaseAll, countP_releases_releaseAll, countP_blocks_releaseAll hle]
  omega

/-- **One move.** -/
lemma World.Balanced.move (ho : Owned c) (hb : c.world.Balanced id) (hmove : Move c c') :
    c'.world.Balanced id := by
  cases hmove with
  | supply hget hsupplies => exact hb.provide
  | newHeap hpos hsupplies => exact hb.provide
  | releaseLocal hget hlive hchain => exact hb.releaseAll (ho.walk hget (Or.inl rfl) hchain).1
  | freeShared hget hlast hnone hchain =>
      exact hb.releaseAll (ho.walk hget (Or.inr rfl) hchain).1
  | freeHeap hget =>
      exact hb.releaseAll (Multiset.singleton_le.2 (ho.mem_of_packed (pageOf_of_get hget)).1)
  | _ => exact hb

lemma balanced_run (h : runOps ops = some w) : w.Balanced id := by
  have hmoves := custody_run owned_init h
  generalize hc : w.idle = c' at hmoves
  have hbalanced : c'.world.Balanced id := by
    clear hc
    induction hmoves with
    | refl => exact rfl
    | tail hbefore hmove ih => exact ih.move (owned_init.moves hbefore) hmove
  rw [← hc] at hbalanced
  exact hbalanced

end Balance

/-- `free_pages` and `pages_in_use` together are the buffers obtained from the source less those
released to it, and the pages counted as free are the live ones on the two lists. -/
structure World.Truthful (w : World) (id : ℕ) (p : Pool) : Prop where
  total : p.stats.freePages + p.stats.pagesInUse + w.log.countP (SourceEvent.Releases id) =
    w.log.countP (SourceEvent.Supplies id)
  free : ∃ l r, Chain 0 (readPtr w.mem) p.owner.localHead l ∧
    Chain 0 (readPtr w.mem) p.returnHead r ∧ p.stats.freePages = l.length + r.length ∧
    ∀ a ∈ l ++ r, ⟨a, p.layout, .pool id⟩ ∈ w.blocks

section Law

variable {w : World} {ops : List Op} {id : ℕ} {p : Pool}

/-- The pages that the source has supplied and no counter has: a `prewarm` got them that failed. -/
def World.uncounted (w : World) (id : ℕ) : ℕ :=
  w.log.countP (SourceEvent.Supplies id) - History.fromHeap (w.history id)

/-- `free_pages` keeps the pages that the owner has released and misses those that were never
counted. -/
lemma World.Account.truthful_iff {u f k : ℕ} {l r : List ℕ} (hacc : w.Account id p u f k l r)
    (hb : w.Balanced id) : w.Truthful id p ↔ u % size64 = k % size64 := by
  have hbound := hacc.bound
  have hobtained := hacc.obtained
  have hreleased := hacc.released
  have hbalance := hacc.balance
  have hfree := hacc.counts.freePages
  have hinUse := hacc.counts.pagesInUse
  rw [Nat.mod_eq_of_lt (by omega)] at hinUse
  unfold World.Balanced at hb
  rw [← hacc.places] at hb
  rw [size64_eq] at hbound hfree ⊢
  constructor
  · intro ht
    have htotal := ht.total
    omega
  · intro heq
    have hlists : p.stats.freePages = l.length + r.length := by omega
    exact ⟨by omega, l, r, hacc.localChain, hacc.returnChain, hlists, hacc.live⟩

/-- **`free_pages` stays truthful through teardown**, in every run in which no `prewarm` fails
midway and the owner is not dropped with pages on its local list; of all states in those in which,
modulo `2 ^ 64`, as many pages were released as were never counted. -/
theorem free_pages_truthful (h : runOps ops = some w) (hget : w.pools.get id = some p) :
    (Always World.step (NoLeak id) World.init ops → Always World.step (NoClose id) World.init ops →
      w.Truthful id p) ∧
    (w.Truthful id p ↔
      w.uncounted id % size64 = w.log.countP (SourceEvent.Releases id) % size64) := by
  obtain ⟨u, f, k, ht, -, hu, -, hk⟩ := tally_run owned_init (tally_init id) h
  obtain ⟨l, r, hacc⟩ := (owned_run h).account hget ht
  have hbalanced : w.Balanced id := balanced_run h
  have hiff := hacc.truthful_iff hbalanced
  refine ⟨fun hleak hclose => hiff.2 ?_, ?_⟩
  · rw [hu hleak, hk hclose]
  · have hobtained := hacc.obtained
    have hreleased := hacc.released
    have hplaces := hacc.places
    unfold World.Balanced at hbalanced
    have huncounted : w.uncounted id = u := by
      unfold World.uncounted
      omega
    have hclosed : w.log.countP (SourceEvent.Releases id) = k := by omega
    rw [huncounted, hclosed]
    exact hiff

/-- If the operation drops the owner of the pool, its local list is empty. -/
def DropsEmpty (id : ℕ) (w : World) : Op → Bool
  | .dropPool j => j != id || (w.pools.get id).any fun p => p.owner.localHead == 0
  | _ => true

lemma noClose_of_dropsEmpty {op : Op} (h : DropsEmpty id w op = true) : NoClose id w op := by
  rintro k ⟨rfl, hempty⟩
  obtain ⟨p, hget, hlocal⟩ := (Option.any_eq_true _ _).1 (by simpa [DropsEmpty] using h)
  exact hempty p hget (beq_iff_eq.1 hlocal)

/-- A page is dropped before the owner and another one after it, and a metrics reader looks on. -/
def lateDropRun : List Op :=
  [.newPagePool 64, .allocatePage 0 7 (some 64), .allocatePage 0 7 (some 128), .cloneShared 0,
    .dropPage 0, .dropPool 0, .dropPage 1]

theorem free_pages_truthful_lateDropRun : ∃ w p, runOps lateDropRun = some w ∧
    w.pools.get 0 = some p ∧ p.owner = .dropped none ∧ p.stats.freePages = 2 ∧
    w.Truthful 0 p := by
  have heval : (runOps lateDropRun).any (fun w => decide ((w.pools.get 0).map
      (fun p => (p.owner, p.stats.freePages)) = some (.dropped none, 2))) = true := by
    decide +kernel
  obtain ⟨w, hw, heval⟩ := (Option.any_eq_true _ _).1 heval
  obtain ⟨p, hget, hp⟩ := Option.map_eq_some_iff.1 (of_decide_eq_true heval)
  obtain ⟨howner, hfree⟩ := Prod.mk.inj hp
  have hleak : Always World.step (NoLeak 0) World.init lateDropRun := by
    refine always_of_forall fun op hop w => noLeak_of_succeeds ?_
    have hall : ∀ op ∈ lateDropRun, op.Succeeds := by
      simp [lateDropRun, Op.Succeeds, Op.reply]
    exact hall op hop
  have hdrops : Always World.step (fun w op => DropsEmpty 0 w op = true) World.init lateDropRun := by
    decide +kernel
  have hclose : Always World.step (NoClose 0) World.init lateDropRun :=
    hdrops.mono fun w op => noClose_of_dropsEmpty
  exact ⟨w, p, hw, hget, howner, hfree, (free_pages_truthful hw hget).1 hleak hclose⟩

/-- The owner is dropped with a prewarmed page, and a metrics reader looks on. -/
def staleFreeRun : List Op :=
  [.newPagePool 64, .prewarm 0 [some 64], .cloneShared 0, .dropPool 0]

/-- The page has been released and is still counted as free. -/
theorem free_pages_stale : ∃ w p, runOps staleFreeRun = some w ∧ w.pools.get 0 = some p ∧
    p.stats.freePages = 1 ∧ p.stats.pagesInUse = 0 ∧
    w.log.countP (SourceEvent.Supplies 0) = 1 ∧ w.log.countP (SourceEvent.Releases 0) = 1 ∧
    ¬ w.Truthful 0 p := by
  have heval : (runOps staleFreeRun).any (fun w => decide ((w.pools.get 0).map
      (fun p => (p.stats.freePages, p.stats.pagesInUse)) = some (1, 0) ∧
      w.log.countP (SourceEvent.Supplies 0) = 1 ∧
      w.log.countP (SourceEvent.Releases 0) = 1)) = true := by
    decide +kernel
  obtain ⟨w, hw, heval⟩ := (Option.any_eq_true _ _).1 heval
  obtain ⟨hpool, hsupplied, hreleased⟩ := of_decide_eq_true heval
  obtain ⟨p, hget, hp⟩ := Option.map_eq_some_iff.1 hpool
  obtain ⟨hfree, hinUse⟩ := Prod.mk.inj hp
  refine ⟨w, p, hw, hget, hfree, hinUse, hsupplied, hreleased, fun htruthful => ?_⟩
  have htotal := htruthful.total
  omega

end Law

end PagedAlloc.Sequential
