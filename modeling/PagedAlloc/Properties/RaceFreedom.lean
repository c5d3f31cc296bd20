import PagedAlloc.Properties.HandleClaims

/-!
# No data races on the memory of a pool

With the orderings of the source, every two conflicting accesses to a buffer are ordered, in every
run: the links of the free lists, the writes through builders and the reads through all clones,
through any number of lives of the buffer (`raceFree_iff`, which also says that neither ordering can
be relaxed).  So plain reads return what was last written, which is what `PoolInterleaving` takes
for granted.
-/

namespace PagedAlloc.MemoryOrder

open PoolInterleaving (Addr Push OwnerPc PushPc Whereabouts Move moveOf)
open HappensBefore Transition Words

variable {s t : State} {w w' : Whereabouts} {i j k : ℕ} {h h' : Handle} {page page' : PackedPage}
  {b : Addr} {a : Agent} {e : Event} {tr : List (Action Agent Atomic Addr)}
  {act : Action Agent Atomic Addr} {P : Action Agent Atomic Addr → Prop}
  {ps : Set (Place Agent Atomic)}

/-! ## Every step -/

/-- On a page of less than `2 ^ 32` bytes a chunk has what was claimed for it. -/
lemma chunkSpan_eq {lo hi : ℕ} (hs : s.pageSize < size32) (hle : lo ≤ hi)
    (hhi : hi ≤ s.pageSize) : State.chunkSpan b lo hi = ⟨b, lo, hi⟩ := by
  have hlo : truncate32 lo = lo := (truncate32_eq_iff lo).2 (by omega)
  have hsize : truncate32 (hi - lo) = hi - lo := (truncate32_eq_iff _).2 (by omega)
  unfold State.chunkSpan
  rw [hlo, hsize, Nat.add_sub_cancel' hle]

lemma stepPool_eq_some {e : PoolInterleaving.Event} : s.stepPool e = some t ↔
    ∃ pool, PoolInterleaving.step s.pool e = some pool ∧
      { s with pool := pool, heads := insert pool.returnHead s.heads } = t := by
  rw [State.stepPool, Option.map_eq_some_iff]

/-- The owner calls a pool operation, takes a step in one, or the source fails. -/
lemma sound_owner {e : PoolInterleaving.Event} (hs : Sound s w tr)
    (hstep : s.step (.owner e) = some t) :
    ∃ w', Sound t w' (tr ++ actions .source s (.owner e)) := by
  cases e with
  | owner reply =>
      have hne : ∀ buf, s.pool.owner ≠ .addPagesInUse buf := by
        intro buf ho
        simp [State.step, ho] at hstep
      have hstepPool : s.stepPool (.owner reply) = some t := by
        cases ho : s.pool.owner with
        | addPagesInUse buf => exact absurd ho (hne buf)
        | _ => simpa only [State.step, ho] using hstep
      obtain ⟨pool, hpool, rfl⟩ := stepPool_eq_some.1 hstepPool
      exact hs.owner hne hpool
  | drop buf => simp [State.step] at hstep
  | push p spurious => simp [State.step] at hstep
  | scribble buf word => simp [State.step] at hstep
  | allocate =>
      obtain ⟨pool, hpool, rfl⟩ := stepPool_eq_some.1 hstep
      exact ⟨w, by simpa [actions] using hs.call rfl hpool⟩
  | prewarm n =>
      obtain ⟨pool, hpool, rfl⟩ := stepPool_eq_some.1 hstep
      exact ⟨w, by simpa [actions] using hs.call rfl hpool⟩
  | allocateFails =>
      obtain ⟨pool, hpool, rfl⟩ := stepPool_eq_some.1 hstep
      exact ⟨w, by simpa [actions] using hs.call rfl hpool⟩
  | prewarmFails =>
      obtain ⟨pool, hpool, rfl⟩ := stepPool_eq_some.1 hstep
      exact ⟨w, by simpa [actions] using hs.call rfl hpool⟩

lemma sound_returnBuffer {purpose : Purpose} (hs : Sound s w tr)
    (hstep : s.step (.returnBuffer purpose) = some t) :
    ∃ w', Sound t w' (tr ++ actions .source s (.returnBuffer purpose)) := by
  rw [State.step] at hstep
  split at hstep
  swap
  · exact absurd hstep (by simp)
  rename_i buf ho
  obtain ⟨m, hm, hstep⟩ := Option.bind_eq_some_iff.1 hstep
  obtain ⟨pool, hpool, rfl⟩ := stepPool_eq_some.1 hm
  obtain ⟨w', hw, hisAt⟩ := PoolInterleaving.isAt_step hs.arranged.isAt hpool
  rw [moveOf, ho] at hw
  have howned := (handOut_eq_some hw).1
  have hknown := hs.custody _ _ _ (.pool (.owned howned))
  refine ⟨w', ?_⟩
  cases purpose with
  | page =>
      obtain rfl := Option.some.inj hstep
      exact hs.addPage hw hisAt
  | dedicated capacity =>
      simp only [State.returned, Option.ite_none_right_eq_some] at hstep
      obtain ⟨hcapacity, hstep⟩ := hstep
      rw [chunkSpan_eq hs.arranged.small (Nat.zero_le _) hcapacity] at hstep
      obtain rfl := Option.some.inj hstep
      have hnew := hs.newPacked (insert pool.returnHead s.heads) hw hisAt
      have hattach := hnew.attach (⟨buf, 0, capacity⟩) Arena.get_push_self
        (Multiset.mem_cons_self _ _) ⟨rfl, le_rfl, hcapacity⟩ (fun i h hi hover => ?_) ?_ ?_
      · simpa [actions, State.addHandle] using hattach
      · have hblock : h.span.block = buf := hover.1
        exact (hs.arranged.isAt.shared.of_owned howned).2.1 (hblock ▸ hs.arranged.block_held hi)
      · intro c hc hk
        have hsome := (hs.arranged.current c hc).1
        rw [hk, s.packed.get_of_le _ le_rfl] at hsome
        exact absurd hsome (by simp)
      · exact hknown.mono (fun _ h => h.mono ⟨rfl, le_rfl, hcapacity⟩) subset_rfl
  | packed =>
      simp only [State.returned, Option.ite_none_right_eq_some] at hstep
      obtain ⟨hcur, hstep⟩ := hstep
      obtain rfl := Option.some.inj hstep
      have hnew := hs.newPacked (insert pool.returnHead s.heads) hw hisAt
      have hopen := hnew.openPage Arena.get_push_self (Multiset.mem_cons_self _ _) hcur
        (fun i h hi hp => ?_) hknown
      · simpa [actions] using hopen
      · obtain ⟨page, hk, -⟩ := hs.arranged.chunk i h _ hi hp
        rw [s.packed.get_of_le _ le_rfl] at hk
        exact absurd hk (by simp)

lemma sound_allocatePacked {lo hi : ℕ} (hs : Sound s w tr)
    (hstep : s.step (.allocatePacked lo hi) = some t) :
    ∃ w', Sound t w' (tr ++ actions .source s (.allocatePacked lo hi)) := by
  rw [State.step] at hstep
  split at hstep
  · exact absurd hstep (by simp)
  rename_i c hc
  obtain ⟨page, hk, hstep⟩ := Option.bind_eq_some_iff.1 hstep
  simp only [Option.ite_none_right_eq_some] at hstep
  obtain ⟨⟨-, hlo, hle, hhi⟩, hstep⟩ := hstep
  rw [chunkSpan_eq hs.arranged.small hle hhi] at hstep
  obtain rfl := Option.some.inj hstep
  have hcur := hs.arranged.current c hc
  have hadvance := hs.advance hc (hlo.trans hle)
  have hreference := hadvance.addReference hk ownerAgent
  rw [clonePacked_eq (by exact hk)] at hreference
  rw [clonePacked_eq hk]
  have hattach := hreference.attach (⟨page.buf, lo, hi⟩) (Arena.get_set_self hk)
    (Multiset.mem_cons_self _ _) ⟨rfl, Nat.zero_le _, hhi⟩ (fun i h hget hover => ?_) ?_ ?_
  · exact ⟨w, by simpa [actions, State.addHandle] using hattach⟩
  · -- The chunks of the page lie below its old write offset.
    have hbelow := hcur.2 i h hget (hs.arranged.packed_eq hget hk hover.1.symm)
    have hlt : lo < h.span.hi := hover.2.2.1
    omega
  · intro c' hc' _
    obtain rfl := Option.some.inj hc'
    exact le_rfl
  · exact (hs.custody _ _ _ (.current hc hk)).mono
      (fun _ h => h.mono ⟨rfl, hlo, hhi⟩) subset_rfl

lemma sound_dropHandle (hs : Sound s w tr) (hstep : s.step (.dropHandle i a) = some t) :
    ∃ w', Sound t w' (tr ++ actions .source s (.dropHandle i a)) := by
  rw [State.step] at hstep
  obtain ⟨h, hused, hstep⟩ := Option.bind_eq_some_iff.1 hstep
  obtain ⟨hi, hu⟩ := used_eq_some.1 hused
  have herase : ∀ {tr'}, Sound s w tr' →
      (∀ P ps qs, Known tr P ps → (∀ p ∈ ps, p ∈ qs ∨ p ∈ h.places i) → .agent a ∈ qs →
        Known tr' P qs) →
      ({ s with handles := s.handles.erase i } : State).release h a = some t →
      ∃ w', Sound t w' tr' := by
    intro tr' hs' hpass hrelease
    rw [State.release] at hrelease
    split at hrelease
    · rename_i hp
      rw [State.startPush] at hrelease
      obtain ⟨pool, hpool, rfl⟩ := stepPool_eq_some.1 hrelease
      obtain ⟨w', hw, hisAt⟩ := PoolInterleaving.isAt_step hs.arranged.isAt hpool
      exact ⟨w', hs'.erasePage hi hp hw hisAt
        (hpass _ _ _ (hs.custody _ _ _ (.page hi hp)) (fun _ h => .inr h) rfl)⟩
    · rename_i k hp
      obtain rfl := Option.some.inj hrelease
      exact ⟨w, hs'.eraseChunk hs.custody hi hp hpass⟩
  rw [Handle.UsedBy] at hu
  rw [actions, hi]
  cases hh : h.users with
  | builder a' =>
      rw [hh] at hu hstep
      obtain rfl : a = a' := hu
      obtain ⟨span, packed, users⟩ := h
      obtain rfl : users = .builder a := hh
      have hend := herase hs (fun P ps qs hknown hps ha => hknown.mono (fun _ h => h)
        fun p hp => (hps p hp).elim id fun hmem => ?_) hstep
      · simpa using hend
      · obtain rfl : p = .agent a := hmem
        exact ha
  | sealed clones =>
      rw [hh] at hu hstep
      obtain ⟨span, packed, users⟩ := h
      obtain rfl : users = .sealed clones := hh
      dsimp only at hstep ⊢
      split at hstep
      · rename_i hlast
        have hs' := hs.orders (.rmw a (.inner i) true true) trivial
        have hend := herase hs' (fun P ps qs hknown hps ha =>
          hknown.acquire (fun p hp => ?_) ha) hstep
        · simpa [hlast] using hend
        · rcases hps p hp with hmem | hmem | ⟨a', ha', rfl⟩
          · exact .inr hmem
          · exact .inl hmem
          · rw [hlast, Multiset.mem_singleton] at ha'
            exact .inr (ha' ▸ ha)
      · rename_i hlast
        obtain rfl := Option.some.inj hstep
        refine ⟨w, ?_⟩
        rw [decide_eq_false hlast]
        exact hs.dropClone hi rfl

/-- **The step lemma.** -/
theorem sound_step (hs : Sound s w tr) (hstep : s.step e = some t) :
    ∃ w', Sound t w' (tr ++ actions .source s e) := by
  cases e with
  | owner e => exact sound_owner hs hstep
  | returnBuffer purpose => exact sound_returnBuffer hs hstep
  | load p observed =>
      simp only [State.step, Option.ite_none_right_eq_some] at hstep
      obtain ⟨⟨hp, hpc, -⟩, hstep⟩ := hstep
      obtain rfl := Option.some.inj hstep
      exact ⟨w, by simpa [actions] using hs.stay (isAt_load hs.arranged.isAt hp hpc observed)⟩
  | push p spurious =>
      simp only [State.step] at hstep
      split at hstep
      · exact absurd hstep (by simp)
      · obtain ⟨pool, hpool, rfl⟩ := stepPool_eq_some.1 hstep
        exact hs.push hpool
  | allocatePacked lo hi => exact sound_allocatePacked hs hstep
  | retire =>
      simp only [State.step] at hstep
      split at hstep
      · exact absurd hstep (by simp)
      · rename_i c hc
        simp only [Option.ite_none_right_eq_some] at hstep
        obtain rfl := Option.some.inj hstep.2
        exact ⟨w, by simpa [actions] using hs.retire hc⟩
  | read i a lo hi =>
      rw [State.step] at hstep
      obtain ⟨h, hused, hstep⟩ := Option.bind_eq_some_iff.1 hstep
      obtain ⟨hget, hu⟩ := used_eq_some.1 hused
      simp only [Option.ite_none_right_eq_some] at hstep
      obtain ⟨hle, hstep⟩ := hstep
      obtain rfl := Option.some.inj hstep
      obtain ⟨hcustody, hrace⟩ := access_used (.read a ⟨h.span.block, lo, hi⟩)
        (x := ⟨h.span.block, lo, hi⟩) hs.arranged hs.custody hs.raceFree hget hu ⟨rfl, hle⟩ rfl
        (by simp)
      rw [actions, hget]
      exact ⟨w, hs.arranged, hcustody, hrace⟩
  | write i lo hi word =>
      rw [State.step] at hstep
      obtain ⟨⟨span, packed, users⟩, hget, hstep⟩ := Option.bind_eq_some_iff.1 hstep
      cases users with
      | sealed clones => simp at hstep
      | builder a =>
          simp only [Option.ite_none_right_eq_some] at hstep
          obtain ⟨hle, hstep⟩ := hstep
          obtain ⟨hcustody, hrace⟩ := access_used (.write a ⟨span.block, lo, hi⟩)
            (x := ⟨span.block, lo, hi⟩) hs.arranged hs.custody hs.raceFree hget rfl ⟨rfl, hle⟩ rfl
            (by simp)
          rw [actions, hget]
          split at hstep
          · obtain ⟨pool, hpool, rfl⟩ := stepPool_eq_some.1 hstep
            exact ⟨w, Sound.call ⟨hs.arranged, hcustody, hrace⟩ rfl hpool⟩
          · obtain rfl := Option.some.inj hstep
            exact ⟨w, hs.arranged, hcustody, hrace⟩
  | sealHandle i =>
      rw [State.step] at hstep
      obtain ⟨h, hget, hstep⟩ := Option.bind_eq_some_iff.1 hstep
      cases hu : h.users with
      | sealed clones => simp [hu] at hstep
      | builder a =>
          have hsealed := hs.sealUsers hget hu
          rw [hu] at hstep
          obtain rfl := Option.some.inj hstep
          simp only [actions, List.append_nil]
          cases hp : h.packed with
          | none =>
              rw [hp] at hsealed
              exact ⟨w, hsealed⟩
          | some k =>
              obtain ⟨page, hk, -⟩ := hs.arranged.chunk i h k hget hp
              rw [hp] at hsealed
              exact ⟨w, hsealed.addReference hk a⟩
  | cloneHandle i a =>
      rw [State.step] at hstep
      obtain ⟨h, hused, hstep⟩ := Option.bind_eq_some_iff.1 hstep
      obtain ⟨hget, hu⟩ := used_eq_some.1 hused
      rw [Handle.UsedBy] at hu
      cases hh : h.users with
      | builder a' => simp [hh] at hstep
      | sealed clones =>
          rw [hh] at hu hstep
          obtain rfl := Option.some.inj hstep
          exact ⟨w, hs.cloneUsers hget hh hu⟩
  | dropHandle i a => exact sound_dropHandle hs hstep
  | dropPacked k a =>
      rw [State.step] at hstep
      obtain ⟨page, hk, hstep⟩ := Option.bind_eq_some_iff.1 hstep
      simp only [Option.ite_none_right_eq_some] at hstep
      obtain ⟨hmem, hstep⟩ := hstep
      rw [actions, hk]
      dsimp only
      split at hstep
      · rename_i hone
        rw [State.startPush] at hstep
        obtain ⟨pool, hpool, rfl⟩ := stepPool_eq_some.1 hstep
        obtain ⟨w', hw, hisAt⟩ := PoolInterleaving.isAt_step hs.arranged.isAt hpool
        rw [decide_eq_true hone]
        exact ⟨w', hs.dropLast hk hmem hone hw hisAt⟩
      · rename_i hone
        obtain rfl := Option.some.inj hstep
        rw [decide_eq_false hone]
        exact ⟨w, hs.dropReference hk hmem hone⟩

/-! ## Whole runs -/

variable {pageSize : ℕ} {es : List Event}

lemma sound_init (h : 8 ≤ pageSize) (hlt : pageSize < 2 ^ 32) :
    Sound (init pageSize) ⟨0, 0, 0, 0, 0⟩ [] where
  arranged := {
    size := h
    small := hlt
    isAt := PoolInterleaving.isAt_init
    held := rfl
    chunk := by simp [init]
    within := by simp [init]
    apart := by simp [init]
    current := by simp [init]
    strong := by simp [init]
    live := by simp [init]
    dropping := by simp [init] }
  custody := fun _ _ _ _ => known_nil
  raceFree := raceFree_nil

lemma sound_run (h : 8 ≤ pageSize) (hlt : pageSize < 2 ^ 32)
    (hrun : run State.step (init pageSize) es = some s) :
    ∃ w, Sound s w (execution .source pageSize es) := by
  refine run_induction (P := fun es s => ∃ w, Sound s w (execution .source pageSize es))
    ⟨_, sound_init h hlt⟩ ?_ hrun
  rintro es s e t hes ⟨w, hs⟩ hstep
  rw [execution, emitted_concat hes]
  exact sound_step hs hstep

/-- A buffer is dropped by its only user, pushed, and taken from the return queue. -/
def recycledRun : List Event :=
  [.owner .allocate, .owner (.owner 0), .owner (.owner 0), .owner (.owner 0), .owner (.owner 8),
    .returnBuffer .page, .dropHandle 0 1, .load ⟨8, .load⟩ 0, .push ⟨8, .write 0⟩ false,
    .push ⟨8, .cas 0⟩ false, .owner .allocate, .owner (.owner 0), .owner (.owner 0),
    .owner (.owner 0), .owner (.owner 0), .owner (.owner 0)]

lemma isSome_recycledRun (pageSize : ℕ) :
    (run State.step (init pageSize) recycledRun).isSome := by
  with_unfolding_all rfl

lemma execution_recycledRun (o : Orderings) (pageSize : ℕ) : execution o pageSize recycledRun =
    [.rmw 0 .returnHead false o.swapAcquires, .write 0 ⟨8, 0, pageSize⟩, .spawn 0 1,
      .write 1 ⟨8, 0, 8⟩, .rmw 1 .returnHead o.exchangeReleases false,
      .rmw 0 .returnHead false o.swapAcquires, .read 0 ⟨8, 0, 8⟩] := by
  with_unfolding_all rfl

/-- Unless the exchange releases and the swap acquires, the owner reads the link while, for all it
knows, it is still being written. -/
lemma not_ordered_recycledRun {o : Orderings} (ho : o ≠ .source) :
    ¬ Ordered (execution o pageSize recycledRun) 3 6 := by
  rw [execution_recycledRun]
  obtain ⟨releases, acquires⟩ := o
  cases releases <;> cases acquires
  · exact of_decide_eq_false (by with_unfolding_all rfl)
  · exact of_decide_eq_false (by with_unfolding_all rfl)
  · exact of_decide_eq_false (by with_unfolding_all rfl)
  · exact absurd rfl ho

/-- **No data races.** On pages of less than `2 ^ 32` bytes all runs are free of data races if the
exchange of `push_return` releases and the swap of `drain_return_queue` acquires, and only then. -/
theorem raceFree_iff (h : 8 ≤ pageSize) (hlt : pageSize < 2 ^ 32) (o : Orderings) :
    (∀ es s, run State.step (init pageSize) es = some s → RaceFree (execution o pageSize es)) ↔
      o = .source := by
  constructor
  · intro hall
    by_contra ho
    obtain ⟨s, hs⟩ := Option.isSome_iff_exists.1 (isSome_recycledRun pageSize)
    refine not_ordered_recycledRun ho (hall recycledRun s hs 3 6 (.write 1 ⟨8, 0, 8⟩)
      (.read 0 ⟨8, 0, 8⟩) (by decide) ?_ ?_ ?_)
    · rw [execution_recycledRun]
      rfl
    · rw [execution_recycledRun]
      rfl
    · simp [Action.Conflicts, Action.Modifies, Span.Overlaps]
  · rintro rfl es s hrun
    obtain ⟨w, hs⟩ := sound_run h hlt hrun
    exact hs.raceFree

theorem raceFree_iff_4096 :
    RaceFree (execution .source 4096 recycledRun) ∧
      ¬ ∀ es s, run State.step (init 4096) es = some s →
        RaceFree (execution ⟨true, false⟩ 4096 es) := by
  obtain ⟨s, hs⟩ := Option.isSome_iff_exists.1 (isSome_recycledRun 4096)
  refine ⟨(raceFree_iff (by decide) (by decide) .source).2 rfl recycledRun s hs, fun hall => ?_⟩
  exact absurd ((raceFree_iff (by decide) (by decide) ⟨true, false⟩).1 hall) (by decide)

/-- **The references to a page.** In every interleaving, on pages of less than `2 ^ 32` bytes, the
strong count of a `PackedPage` is the number of the references to it and never zero; every chunk,
every reference about to be dropped and the open page have their page; no two builders, chunks or
pages share a byte; and a buffer that any of them has is on no free list and nobody pushes it. -/
theorem packedPage_shared (h : 8 ≤ pageSize) (hlt : pageSize < 2 ^ 32)
    (hrun : run State.step (init pageSize) es = some s) :
    (∀ k page, s.packed.get k = some page → page.strong = s.references k ∧ 0 < page.strong) ∧
    (∀ i h k, s.handles.get i = some h → h.packed = some k →
      ∃ page, s.packed.get k = some page ∧ page.buf = h.span.block) ∧
    (∀ x ∈ s.dropping, (s.packed.get x.1).isSome) ∧
    (∀ c, s.current = some c → (s.packed.get c.packed).isSome) ∧
    (∀ i j h h', i ≠ j → s.handles.get i = some h → s.handles.get j = some h' →
      ¬ h.span.Overlaps h'.span) ∧
    ∃ l r, Intrusive.Chain 0 s.pool.next s.pool.localHead l ∧
      Intrusive.Chain 0 s.pool.next s.pool.returnHead r ∧
      ∀ b, (∃ k page, s.packed.get k = some page ∧ page.buf = b) ∨
          (∃ i h, s.handles.get i = some h ∧ h.span.block = b) →
        b ∉ l ∧ b ∉ r ∧ b ∉ s.pool.beingPushed := by
  obtain ⟨w, hs, -, -⟩ := sound_run h hlt hrun
  refine ⟨fun k page hk => ⟨hs.strong k page hk, hs.live k page hk⟩, hs.chunk, hs.dropping,
    fun c hc => (hs.current c hc).1, hs.apart, ?_⟩
  have hheld : ∀ b, (∃ k page, s.packed.get k = some page ∧ page.buf = b) ∨
      (∃ i h, s.handles.get i = some h ∧ h.span.block = b) → b ∈ w.held := by
    rintro b (⟨k, page, hk, rfl⟩ | ⟨i, h, hi, rfl⟩)
    · exact hs.packed_held hk
    · exact hs.block_held hi
  have hshared := hs.isAt.shared
  obtain ⟨l, r, d, hc, rfl⟩ := hs.isAt
  refine ⟨l, r, hc.local_chain, hc.return_chain, fun b hb => ?_⟩
  obtain ⟨howned, hqueued, hpushed, -⟩ := hshared.of_held (hheld b hb)
  refine ⟨fun hl => howned ?_, fun hr => hqueued hr, hpushed⟩
  simp [PoolInterleaving.State.whereabouts, hl]

/-- Two chunks of one page, of which one is sealed and read through a clone; the first clone and the
owner give up their references. -/
def sharedRun : List Event :=
  [.owner .allocate, .owner (.owner 0), .owner (.owner 0), .owner (.owner 0), .owner (.owner 8),
    .returnBuffer .packed, .allocatePacked 0 16, .allocatePacked 16 40, .write 0 0 16 5,
    .sealHandle 0, .dropPacked 0 1, .cloneHandle 0 1, .read 0 3 0 8, .dropHandle 0 1, .retire,
    .dropPacked 0 0]

theorem packedPage_shared_sharedRun :
    ∃ s page, run State.step (init 4096) sharedRun = some s ∧ s.packed.get 0 = some page ∧
      page.strong = s.references 0 ∧ 0 < page.strong := by
  have hsome : (run State.step (init 4096) sharedRun).isSome := by decide +kernel
  obtain ⟨s, hs⟩ := Option.isSome_iff_exists.1 hsome
  have hpage : ((run State.step (init 4096) sharedRun).bind fun s => s.packed.get 0).isSome := by
    decide +kernel
  obtain ⟨page, hpage⟩ := Option.isSome_iff_exists.1 hpage
  rw [hs] at hpage
  obtain ⟨hstrong, hlive⟩ := (packedPage_shared (by decide) (by decide) hs).1 0 page hpage
  exact ⟨s, page, hs, hpage, hstrong, hlive⟩

end PagedAlloc.MemoryOrder
