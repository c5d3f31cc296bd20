import PagedAlloc.Properties.Quiescence
import PagedAlloc.Properties.Recycling

/-!
# A prewarm that fails midway

`PagePool::prewarm` links every page into the local list as it gets it, and counts them all after
the loop.  If the source panics on the way, the pages obtained so far stay on the list and are
never counted: `free_pages` is too small from then on, and wraps below zero when they are taken.

`prewarm_sound_iff` says exactly when a failing `prewarm` does no harm.
-/

namespace PagedAlloc.Sequential

open Words Bytes Intrusive Relation Transition History
open PageInterleaving (localFreePages localFreePages_eq)

namespace History

variable {s t : List PageEvent}

lemma free_append : free (s ++ t) = free s + free t := by
  induction s with
  | nil => exact (Int.zero_add _).symm
  | cons e s ih =>
      rw [List.cons_append]
      cases e with
      | acquire id a fresh =>
          rw [free, free, ih]
          omega
      | giveBack id a =>
          rw [free, free, ih]
          omega
      | prewarm id n =>
          rw [free, free, ih]
          omega

lemma fromHeap_le (t : List PageEvent) : (fromHeap t : ℤ) ≤ free t + inUse t := by
  induction t with
  | nil => exact Int.le_refl 0
  | cons e t ih =>
      cases e with
      | acquire id a fresh =>
          rw [free, fromHeap, inUse]
          cases fresh <;> simp <;> omega
      | giveBack id a =>
          rw [free, fromHeap, inUse]
          omega
      | prewarm id n =>
          rw [free, fromHeap, inUse]
          push_cast
          omega

/-- If every page is counted, `free_pages` counts down from no more than it has. -/
lemma Recycles.free_nonneg (h : Recycles 0 t) : 0 ≤ free t := by
  have hle := h.inUse_le
  have hfree := fromHeap_le t
  omega

/-- A counter that stands at `n` stays at or above zero through the events `t`. -/
def NeverWraps (n : ℕ) (t : List PageEvent) : Prop := ∀ s, s <:+ t → 0 ≤ (n : ℤ) + free s

end History

/-- `free_pages` is what `local_free_pages` counts on the local list and the length of the return
queue, and `allocations_from_heap` the number of buffers the source has returned. -/
def World.Counted (w : World) (id : ℕ) : Prop :=
  ∃ p l r, w.pools.get id = some p ∧ Chain 0 (readPtr w.mem) p.owner.localHead l ∧
    Chain 0 (readPtr w.mem) p.returnHead r ∧
    p.stats.freePages =
      localFreePages (readPtr w.mem) w.blocks.card p.owner.localHead + r.length ∧
    p.stats.allocationsFromHeap = w.log.countP (SourceEvent.Supplies id)

/-- The counters of the pool are in order, and whatever happens next short of another failing
`prewarm`, `free_pages` does not wrap and goes up and down with the events. -/
def World.SoundFrom (w : World) (id : ℕ) : Prop :=
  w.Counted id ∧
    ∀ ops w', Always World.step (NoLeak id) w ops → run World.step w ops = some w' →
      ∃ t, w'.history id = t ++ w.history id ∧
        ∀ p, w.pools.get id = some p →
          NeverWraps p.stats.freePages t ∧
            ∀ p', w'.pools.get id = some p' → p'.owner.Live →
              (p'.stats.freePages : ℤ) = p.stats.freePages + free t

section Counted

variable {w w' : World} {ops : List Op} {id u f k : ℕ} {p : Pool} {G : Label → Prop}
  {r r' : Register}

/-- Nothing is taken out of a history. -/
lemma Register.Moves.history_grows (h : Register.Moves id G r r') :
    ∃ t, r'.history = t ++ r.history := by
  induction h with
  | refl => exact ⟨[], rfl⟩
  | tail _ hlast ih =>
      obtain ⟨t, ht⟩ := ih
      obtain ⟨l, -, hmove⟩ := hlast
      cases hmove with
      | acquire => exact ⟨_ :: t, congrArg (_ :: ·) ht⟩
      | giveBack => exact ⟨_ :: t, congrArg (_ :: ·) ht⟩
      | prewarm => exact ⟨_ :: t, congrArg (_ :: ·) ht⟩
      | _ => exact ⟨t, ht⟩

lemma history_run (id : ℕ) (ho : Owned w.idle) (h : run World.step w ops = some w') :
    ∃ t, w'.history id = t ++ w.history id := by
  induction ops generalizing w with
  | nil =>
      obtain rfl : w = w' := by simpa using h
      exact ⟨[], rfl⟩
  | cons op ops ih =>
      obtain ⟨w₁, hstep, hrest⟩ := run_cons_eq_some.1 h
      obtain ⟨t₁, ht₁⟩ := Register.Moves.history_grows (registers_step ho hstep id)
      obtain ⟨t₂, ht₂⟩ := ih (ho.moves (custody_step ho hstep)) hrest
      have ht₁' : w₁.history id = t₁ ++ w.history id := ht₁
      refine ⟨t₂ ++ t₁, ?_⟩
      rw [ht₂, ht₁', List.append_assoc]

/-- Where the pages of a pool are and what its counters say: `l` and `r` are on the two lists, `u`
pages have not been counted, `f` requests failed, and the owner has released `k` pages. -/
structure World.Account (w : World) (id : ℕ) (p : Pool) (u f k : ℕ) (l r : List ℕ) : Prop where
  localChain : Chain 0 (readPtr w.mem) p.owner.localHead l
  returnChain : Chain 0 (readPtr w.mem) p.returnHead r
  localFree : localFreePages (readPtr w.mem) w.blocks.card p.owner.localHead = l.length
  live : ∀ a ∈ l ++ r, ⟨a, p.layout, .pool id⟩ ∈ w.blocks
  places : l.length + r.length + inUse (w.history id) =
    w.blocks.countP fun b => b.origin = .pool id
  bound : l.length + r.length + inUse (w.history id) < size64
  obtained : w.log.countP (SourceEvent.Supplies id) = fromHeap (w.history id) + u
  released : w.log.countP (SourceEvent.Supplies id) =
    l.length + r.length + inUse (w.history id) + k
  balance : free (w.history id) + inUse (w.history id) = fromHeap (w.history id)
  owner : p.owner.Live → k = 0
  counts : Counts f (w.history id) p.stats

lemma Owned.account (ho : Owned w.idle) (hget : w.pools.get id = some p)
    (ht : Register.Tally u f k (w.register 0 id)) : ∃ l r, w.Account id p u f k l r := by
  have hst : (w.register 0 id).stats = some p.stats := stats_register hget
  have hheld : (w.register 0 id).held.card = inUse (w.history id) := ht.held
  have hlt := ho.blocks_register_lt id
  have hreleased := ht.released (by rw [hst]; rfl)
  obtain ⟨_, ⟨l, r, hl, hr, rfl⟩, hcount⟩ := ho.places.lists id p hget
  have hcard : (w.register 0 id).blocks = l.length + r.length + inUse (w.history id) := by
    rw [← hheld, ← List.length_append]
    exact ho.countP_blocks hget hcount
  have hle : (w.register 0 id).blocks ≤ w.blocks.card := Multiset.countP_le_card _ _
  refine ⟨l, r, ⟨hl, hr, localFreePages_eq hl (by omega), fun a ha => ?_, hcard.symm, by omega,
    ht.obtained, ?_, ht.balance, fun hlive => ?_, ht.counts p.stats hst⟩⟩
  · have hpos : 0 < (l ++ r).count a := List.count_pos_iff.2 ha
    have hplace := hcount a
    rw [Multiset.coe_count] at hplace
    refine Multiset.count_pos.1 ?_
    rw [show w.blocks.count _ = _ from hplace]
    omega
  · exact hreleased.trans (congrArg (· + k) hcard)
  · have hwhole := ht.whole ((owner_register hget).trans (Owner.refs_of_live hlive))
    omega

/-- **The counters are right if and only if no page was leaked** and the requests that failed do
not show. -/
lemma Owned.counted_iff (ho : Owned w.idle) (hget : w.pools.get id = some p)
    (hlive : p.owner.Live) (ht : Register.Tally u f k (w.register 0 id)) :
    w.Counted id ↔ u = 0 ∧ f % size64 = 0 := by
  obtain ⟨l, r, hacc⟩ := ho.account hget ht
  have hk := hacc.owner hlive
  have hbound := hacc.bound
  have hobtained := hacc.obtained
  have hreleased := hacc.released
  have hbalance := hacc.balance
  have hfree := hacc.counts.freePages
  have hheap := hacc.counts.heap
  rw [size64_eq] at hbound hfree hheap ⊢
  constructor
  · rintro ⟨p', l', r', hget', -, hr', hfree', hheap'⟩
    obtain rfl := Option.some.inj (hget.symm.trans hget')
    obtain rfl := hacc.returnChain.unique hr'
    rw [hacc.localFree] at hfree'
    have hu : u = 0 := by omega
    refine ⟨hu, ?_⟩
    rw [hheap, hobtained, hu] at hheap'
    omega
  · rintro ⟨rfl, hf⟩
    refine ⟨p, l, r, hget, hacc.localChain, hacc.returnChain, ?_, ?_⟩
    · rw [hacc.localFree]
      omega
    · rw [hheap, hobtained]
      omega

/-- If every page is counted, `free_pages` is the number of those on the lists, and of those the
owner has released. -/
lemma World.Account.freePages_eq {l r : List ℕ} (hacc : w.Account id p 0 f k l r)
    (hlt : l.length + r.length + k < size64) : p.stats.freePages = l.length + r.length + k ∧
      (p.stats.freePages : ℤ) = free (w.history id) := by
  have hobtained := hacc.obtained
  have hreleased := hacc.released
  have hbalance := hacc.balance
  have hfree := hacc.counts.freePages
  rw [Int.emod_eq_of_lt (by omega) (by omega)] at hfree
  exact ⟨by omega, hfree⟩

lemma Owned.freePages_of_live (ho : Owned w.idle) (hget : w.pools.get id = some p)
    (hlive : p.owner.Live) (ht : Register.Tally 0 f k (w.register 0 id)) :
    (p.stats.freePages : ℤ) = free (w.history id) := by
  obtain ⟨l, r, hacc⟩ := ho.account hget ht
  have hbound := hacc.bound
  have hk := hacc.owner hlive
  exact (hacc.freePages_eq (by omega)).2

/-- **From right counters on**, they stay right as far as `free_pages` goes. -/
lemma Owned.soundFrom (ho : Owned w.idle) (hget : w.pools.get id = some p)
    (hlive : p.owner.Live) (ht : Register.Tally u f k (w.register 0 id))
    (hcounted : w.Counted id) : w.SoundFrom id := by
  obtain rfl := ((ho.counted_iff hget hlive ht).1 hcounted).1
  have hfree : (p.stats.freePages : ℤ) = free (w.history id) := ho.freePages_of_live hget hlive ht
  refine ⟨hcounted, fun ops w' hops hrun => ?_⟩
  obtain ⟨t, hhistory⟩ := history_run id ho hrun
  obtain ⟨u', f', k', ht', -, hu, -, -⟩ := tally_run ho ht hrun
  obtain rfl := hu hops
  refine ⟨t, hhistory, fun q hq => ?_⟩
  obtain rfl := Option.some.inj (hget.symm.trans hq)
  have hrecycles : Recycles 0 (w'.history id) := ht'.recycles
  refine ⟨fun s hs => ?_, fun p' hget' hlive' => ?_⟩
  · have hsuffix : s ++ w.history id <:+ w'.history id := by
      obtain ⟨x, rfl⟩ := hs
      exact ⟨x, by rw [hhistory, List.append_assoc]⟩
    have hnonneg := (hrecycles.suffix hsuffix).free_nonneg
    rw [free_append] at hnonneg
    omega
  · have ho' : Owned w'.idle := ho.moves (custody_run ho hrun)
    rw [ho'.freePages_of_live hget' hlive' ht', hhistory, free_append]
    omega

end Counted

/-! ## The law -/

section Law

variable {w w' : World} {ops : List Op} {id u f k : ℕ} {p : Pool}
  {pre rest : List (Option ℕ)}

lemma exists_live_of_register (h : (w.register 0 id).owner = 1) :
    ∃ p, w.pools.get id = some p ∧ p.owner.Live := by
  have hval : w.pools.val (fun p => p.owner.refs) id = 1 := h
  cases hget : w.pools.get id with
  | none => exact absurd ((Arena.val_of_none hget).symm.trans hval) (by simp)
  | some p =>
      rw [Arena.val_of_get hget] at hval
      refine ⟨p, rfl, ?_⟩
      cases howner : p.owner with
      | pagePool l => trivial
      | chunkPool l c => trivial
      | dropped c => exact absurd hval (by simp [howner, Owner.refs])

/-- A `prewarm` whose source panics after the pages of `pre`. -/
lemma warmed_of_step (hpre : none ∉ pre)
    (h : w.step (.prewarm id (pre ++ none :: rest)) = some w') :
    ∃ p, w.pools.get id = some p ∧ p.owner.Live ∧ Warmed w id pre.length w' := by
  simp only [World.step, Option.ite_none_right_eq_some] at h
  obtain ⟨p, hget, hlive⟩ := exists_livePool h.1
  refine ⟨p, hget, hlive, ?_⟩
  have hpost : (w.prewarm id (pre ++ none :: rest)).Post
      (fun _ v => Warmed w id pre.length v) fun v => Warmed w id pre.length v := by
    refine Outcome.Post.bind ((warmed_prewarmLoop hget).mono (fun _ _ h => h) ?_) ?_
    · rintro v ⟨pre', rest', heq, hpre', hv⟩
      have hfirst := congrArg (List.idxOf none) heq
      rw [List.idxOf_append_of_notMem hpre, List.idxOf_append_of_notMem hpre',
        List.idxOf_cons_self, Nat.add_zero, List.idxOf_cons_self, Nat.add_zero] at hfirst
      rw [hfirst]
      exact hv
    · rintro _ v ⟨-, hnone, -⟩
      exact absurd (List.mem_append_right pre List.mem_cons_self) hnone
  exact hpost.final h.2

/-- If the source panics on the first page, nothing has happened. -/
lemma step_prewarm_none (h : w.step (.prewarm id (none :: rest)) = some w') : w' = w := by
  simp only [World.step, Option.ite_none_right_eq_some] at h
  obtain ⟨p, hget, -⟩ := exists_livePool h.1
  have hrefused : w.prewarm id (none :: rest) = .panicked w := by
    unfold World.prewarm World.prewarmLoop
    rw [hget]
    rfl
  rw [hrefused] at h
  exact (Option.some.inj h.2).symm

/-- **A prewarm that fails midway** leaves the accounting consistent if and only if it fails on
its first page and the accounting was consistent before; which it is as long as no earlier
`prewarm` failed midway and no request for a page was refused. -/
theorem prewarm_sound_iff (h : runOps ops = some w) (hpre : none ∉ pre)
    (hstep : w.step (.prewarm id (pre ++ none :: rest)) = some w') :
    (w'.SoundFrom id ↔ pre = [] ∧ w.Counted id) ∧
      (Always World.step (NoLeak id) World.init ops →
        Always World.step (NoFail id) World.init ops → w.Counted id) := by
  have ho : Owned w.idle := owned_run h
  have ho' : Owned w'.idle := ho.moves (custody_step ho hstep)
  obtain ⟨u, f, k, ht, -, hu, hf, -⟩ := tally_run owned_init (tally_init id) h
  obtain ⟨p, hget, hlive, hwarmed⟩ := warmed_of_step hpre hstep
  refine ⟨⟨fun hsound => ?_, ?_⟩, fun hleak hfail => ?_⟩
  · have hrefs : (w.register 0 id).owner = 1 := by
      rw [owner_register hget, Owner.refs_of_live hlive]
    have ht' : Register.Tally (u + pre.length) f k (w'.register 0 id) := by
      rw [hwarmed.register]
      exact ht.leak hrefs
    have hrefs' : (w'.register 0 id).owner = 1 := by
      rw [hwarmed.register]
      exact hrefs
    obtain ⟨p', hget', hlive'⟩ := exists_live_of_register hrefs'
    obtain ⟨hzero, -⟩ := (ho'.counted_iff hget' hlive' ht').1 hsound.1
    obtain rfl : pre = [] := List.length_eq_zero_iff.1 (by omega)
    refine ⟨rfl, ?_⟩
    rw [← step_prewarm_none hstep]
    exact hsound.1
  · rintro ⟨rfl, hcounted⟩
    rw [step_prewarm_none hstep]
    exact ho.soundFrom hget hlive ht hcounted
  · refine (ho.counted_iff hget hlive ht).2 ⟨hu hleak, ?_⟩
    rw [hf hfail]
    exact Nat.zero_mod _

/-- One page is in use and one is free when the source panics on the first page of a `prewarm`. -/
theorem prewarm_sound_iff_first_page : ∃ w w',
    runOps [.newPagePool 64, .prewarm 0 [some 64, some 128],
      .allocatePage 0 7 (some 192)] = some w ∧
    w.step (.prewarm 0 ([] ++ none :: [])) = some w' ∧ w'.SoundFrom 0 ∧
    (w.pools.get 0).map (fun p => (p.stats.freePages, p.stats.pagesInUse)) = some (1, 1) := by
  have heval : ((runOps [.newPagePool 64, .prewarm 0 [some 64, some 128],
      .allocatePage 0 7 (some 192)]).bind fun w =>
        (w.step (.prewarm 0 ([] ++ none :: []))).map fun _ =>
          (w.pools.get 0).map fun p => (p.stats.freePages, p.stats.pagesInUse)) =
      some (some (1, 1)) := by
    decide +kernel
  obtain ⟨w, hw, heval⟩ := Option.bind_eq_some_iff.1 heval
  obtain ⟨w', hw', hstats⟩ := Option.map_eq_some_iff.1 heval
  have hsucceeds : ∀ op ∈ [Op.newPagePool 64, .prewarm 0 [some 64, some 128],
      .allocatePage 0 7 (some 192)], op.Succeeds := by
    simp [Op.Succeeds, Op.reply]
  obtain ⟨hiff, hcounted⟩ := prewarm_sound_iff hw (by simp) hw'
  refine ⟨w, w', hw, hw', hiff.2 ⟨rfl, hcounted ?_ ?_⟩, hstats⟩
  · exact always_of_forall fun op hop _ => noLeak_of_succeeds (hsucceeds op hop)
  · exact always_of_forall fun op hop _ => noFail_of_succeeds (hsucceeds op hop)

/-- The source panics on the second page.  The first is on the list and has not been counted, and
to take it makes `free_pages` wrap. -/
def leakyPrewarm : List Op := [.newPagePool 64, .prewarm 0 ([some 64] ++ none :: [])]

theorem prewarm_unsound : ∃ w w' w'', runOps [.newPagePool 64] = some w ∧
    w.step (.prewarm 0 ([some 64] ++ none :: [])) = some w' ∧ ¬ w'.SoundFrom 0 ∧
    (w'.pools.get 0).map (fun p => (p.stats.freePages, p.stats.allocationsFromHeap,
      localFreePages (readPtr w'.mem) w'.blocks.card p.owner.localHead)) = some (0, 0, 1) ∧
    w'.log.countP (SourceEvent.Supplies 0) = 1 ∧
    w'.step (.allocatePage 0 7 none) = some w'' ∧
    (w''.pools.get 0).map (fun p => p.stats.freePages) = some (2 ^ 64 - 1) := by
  have hfirst : (runOps leakyPrewarm).any (fun w => decide
      ((w.pools.get 0).map (fun p => (p.stats.freePages, p.stats.allocationsFromHeap,
        localFreePages (readPtr w.mem) w.blocks.card p.owner.localHead)) = some (0, 0, 1) ∧
        w.log.countP (SourceEvent.Supplies 0) = 1)) = true := by
    decide +kernel
  have hsecond : (runOps (leakyPrewarm ++ [.allocatePage 0 7 none])).any (fun w => decide
      ((w.pools.get 0).map (fun p => p.stats.freePages) = some (2 ^ 64 - 1))) = true := by
    decide +kernel
  obtain ⟨w'', hrun, heval''⟩ := (Option.any_eq_true _ _).1 hsecond
  obtain ⟨w', hrun', hstep''⟩ := run_concat_eq_some.1 hrun
  obtain ⟨v, hv, heval⟩ := (Option.any_eq_true _ _).1 hfirst
  obtain rfl := Option.some.inj (hrun'.symm.trans hv)
  obtain ⟨hstats, hlog⟩ := of_decide_eq_true heval
  have hsplit : run World.step World.init
      ([.newPagePool 64] ++ [.prewarm 0 ([some 64] ++ none :: [])]) = some w' := hrun'
  obtain ⟨w, hw, hstep'⟩ := run_concat_eq_some.1 hsplit
  refine ⟨w, w', w'', hw, hstep', ?_, hstats, hlog, hstep'', of_decide_eq_true heval''⟩
  rintro ⟨⟨p, l, r, hget, -, -, hfree, -⟩, -⟩
  rw [hget] at hstats
  simp only [Option.map_some, Option.some.injEq, Prod.mk.injEq] at hstats
  omega

end Law

end PagedAlloc.Sequential
