import PagedAlloc.Properties.PackedLoop

/-!
# Who moves the cursor

The open page of a chunk pool and its cursor belong to the packed path of that pool.  Everything
else the crate can do leaves them as they are: the other size classes and `prewarm`, which take
pages from the same free lists; the drops of chunks, which give the page back only if it is closed;
and whatever happens to other pools.  `undisturbed_step` says so for every operation.

The relation `Undisturbed` looks backwards: a pool that is there afterwards, with its owner, was
there before, with the same open page.  So the end of a pool needs no case of its own.
-/

namespace PagedAlloc.Sequential

open Words Bytes Transition History

/-- The pool keeps its page size, and an owner that has an open page had it before. -/
def SameCursor (p p' : Pool) : Prop :=
  p'.pageSize = p.pageSize ∧ ∀ l c, p'.owner = .chunkPool l c → ∃ l', p.owner = .chunkPool l' c

/-- The open page of the pool `id` has been left alone. -/
structure Undisturbed (id : ℕ) (w w' : World) : Prop where
  next_le : w.pools.next ≤ w'.pools.next
  get : ∀ p', id < w.pools.next → w'.pools.get id = some p' →
    ∃ p, w.pools.get id = some p ∧ SameCursor p p'

/-- The program leaves the open page of the pool `id` alone, returning or panicking. -/
def KeepsCursor {α : Type} (id : ℕ) (w : World) (o : Outcome World α) : Prop :=
  o.Post (fun _ w' => Undisturbed id w w') (Undisturbed id w)

section Rules

variable {w w₁ w' : World} {id j l : ℕ} {p p' : Pool} {α β : Type}

lemma sameCursor_of_owner (hsize : p'.pageSize = p.pageSize) (howner : p'.owner = p.owner) :
    SameCursor p p' :=
  ⟨hsize, fun l _ h => ⟨l, howner.symm.trans h⟩⟩

lemma sameCursor_setLocalHead (hsize : p'.pageSize = p.pageSize)
    (howner : p'.owner = p.owner.setLocalHead l) : SameCursor p p' := by
  refine ⟨hsize, fun l' c h => ?_⟩
  rw [howner] at h
  cases hp : p.owner with
  | pagePool m =>
      rw [hp] at h
      exact absurd h (by simp [Owner.setLocalHead])
  | chunkPool m c' =>
      rw [hp] at h
      obtain ⟨-, rfl⟩ := Owner.chunkPool.inj h
      exact ⟨m, rfl⟩
  | dropped c' =>
      rw [hp] at h
      exact absurd h (by simp [Owner.setLocalHead])

lemma SameCursor.trans {p'' : Pool} (h : SameCursor p p') (h' : SameCursor p' p'') :
    SameCursor p p'' := by
  refine ⟨h'.1.trans h.1, fun l c howner => ?_⟩
  obtain ⟨l', howner'⟩ := h'.2 l c howner
  exact h.2 l' c howner'

lemma undisturbed_of_pools (h : w'.pools = w.pools) : Undisturbed id w w' where
  next_le := by rw [h]
  get p' _ hget := ⟨p', by rwa [← h], sameCursor_of_owner rfl rfl⟩

lemma Undisturbed.trans (h : Undisturbed id w w₁) (h' : Undisturbed id w₁ w') :
    Undisturbed id w w' where
  next_le := h.next_le.trans h'.next_le
  get p' hid hget := by
    obtain ⟨p₁, hget₁, hsame₁⟩ := h'.get p' (lt_of_lt_of_le hid h.next_le) hget
    obtain ⟨p, hget, hsame⟩ := h.get p₁ hid hget₁
    exact ⟨p, hget, hsame.trans hsame₁⟩

lemma undisturbed_set (hget : w.pools.get j = some p) (hpools : w'.pools = w.pools.set j p')
    (hsame : SameCursor p p') : Undisturbed id w w' where
  next_le := by rw [hpools, Arena.next_set]
  get q _ hq := by
    rw [hpools, Arena.get_set hget] at hq
    split at hq
    · rename_i hid
      obtain rfl := Option.some.inj hq
      exact ⟨p, by rwa [hid], hsame⟩
    · exact ⟨q, hq, sameCursor_of_owner rfl rfl⟩

lemma undisturbed_set_of_ne (hne : id ≠ j) (hpools : w'.pools = w.pools.set j p') :
    Undisturbed id w w' where
  next_le := by rw [hpools, Arena.next_set]
  get q _ hq := by
    rw [hpools, Arena.get_set_of_ne hne] at hq
    exact ⟨q, hq, sameCursor_of_owner rfl rfl⟩

lemma undisturbed_erase (hpools : w'.pools = w.pools.erase j) : Undisturbed id w w' where
  next_le := by rw [hpools, Arena.next_erase]
  get q _ hq := by
    rw [hpools] at hq
    exact ⟨q, (Arena.get_of_get_erase hq).2, sameCursor_of_owner rfl rfl⟩

lemma undisturbed_push (hpools : w'.pools = w.pools.push p') : Undisturbed id w w' where
  next_le := by
    rw [hpools, Arena.next_push]
    exact Nat.le_succ _
  get q hid hq := by
    rw [hpools, Arena.get_push, if_neg hid.ne] at hq
    exact ⟨q, hq, sameCursor_of_owner rfl rfl⟩

variable {o : Outcome World α} {f : α → World → Outcome World β}

lemma keepsCursor_panicked (w : World) : KeepsCursor id w (.panicked w : Outcome World α) :=
  Outcome.post_panicked (undisturbed_of_pools rfl)

lemma KeepsCursor.of_undisturbed (h : Undisturbed id w w₁) (ho : KeepsCursor id w₁ o) :
    KeepsCursor id w o :=
  ho.mono (fun _ _ => h.trans) fun _ => h.trans

lemma KeepsCursor.bind (h : KeepsCursor id w o) (hf : ∀ a w₁, KeepsCursor id w₁ (f a w₁)) :
    KeepsCursor id w (o.bind f) :=
  Outcome.Post.bind h fun a w₁ hw₁ => (hf a w₁).of_undisturbed hw₁

lemma KeepsCursor.final (h : KeepsCursor id w o) (hfinal : o.final = some w') :
    Undisturbed id w w' :=
  Outcome.Post.final (h.mono (fun _ _ h => h) fun _ h => h) hfinal

end Rules

/-! ## References and pages -/

section Pages

variable {w w' : World} {id j a i tenant : ℕ} {p : Pool} {reply : Option ℕ} {arc : PackedArc}

lemma undisturbed_accessPool {x : PoolAccess} : Undisturbed id w (w.accessPool j x) := by
  unfold World.accessPool
  split
  · exact undisturbed_of_pools rfl
  · rename_i p hget
    exact undisturbed_set hget rfl (sameCursor_of_owner rfl rfl)

lemma undisturbed_cloneShared : Undisturbed id w (w.cloneShared j) := by
  unfold World.cloneShared
  split
  · exact undisturbed_of_pools rfl
  · rename_i p hget
    exact undisturbed_set hget rfl (sameCursor_of_owner rfl rfl)

lemma undisturbed_pushReturn : Undisturbed id w (w.pushReturn j a) := by
  unfold World.pushReturn
  split
  · exact undisturbed_of_pools rfl
  · rename_i p hget
    exact undisturbed_set hget rfl (sameCursor_of_owner rfl rfl)

lemma undisturbed_dropShared : Undisturbed id w (w.dropShared j) := by
  unfold World.dropShared
  split
  · exact undisturbed_of_pools rfl
  · rename_i p hget
    obtain ⟨bs, es, as, f, hchain⟩ :=
      World.releaseChain_frame (w := w) (.pool j) p.layout w.blocks.card p.returnHead
    split
    · rw [hchain]
      exact undisturbed_erase rfl
    · exact undisturbed_set hget rfl (sameCursor_of_owner rfl rfl)

lemma undisturbed_clonePacked : Undisturbed id w (w.clonePacked arc) := by
  unfold World.clonePacked
  split
  · exact undisturbed_of_pools rfl
  · exact undisturbed_of_pools rfl

lemma undisturbed_giveBack {o : Origin} {l : Layout} : Undisturbed id w (w.giveBack o l a) := by
  unfold World.giveBack
  split
  · exact undisturbed_of_pools rfl
  · exact undisturbed_of_pools rfl

lemma undisturbed_dropPacked : Undisturbed id w (w.dropPacked arc) := by
  unfold World.dropPacked
  split
  · exact undisturbed_of_pools rfl
  · rename_i q hget
    split
    · have herase : Undisturbed id w { w with packed := w.packed.erase arc.id } :=
        undisturbed_of_pools rfl
      refine herase.trans ?_
      unfold World.releasePacked
      split
      · exact undisturbed_pushReturn.trans undisturbed_dropShared
      · exact undisturbed_giveBack
    · exact undisturbed_of_pools rfl

lemma undisturbed_dropOptional {q : Option PackedArc} : Undisturbed id w (w.dropOptional q) := by
  cases q with
  | none => exact undisturbed_of_pools rfl
  | some arc => exact undisturbed_dropPacked

/-! ### Buffers -/

lemma keepsCursor_sourceAllocate {l : Layout} :
    KeepsCursor id w (w.sourceAllocate j l reply) := by
  apply World.post_sourceAllocate
  · exact fun a hsupplies => undisturbed_of_pools rfl
  · exact fun hreply => undisturbed_of_pools rfl

/-- Taking from a free list moves its head only. -/
lemma sameCursor_popLocal {mem : Memory} {p' : Pool} (h : p.popLocal mem = some (a, p')) :
    SameCursor p p' := by
  obtain ⟨-, -, hp'⟩ := popLocal_eq_some h
  rw [hp']
  exact sameCursor_setLocalHead rfl rfl

lemma sameCursor_drain {mem : Memory} {p' : Pool} (h : p.drainReturnQueue mem = some (a, p')) :
    SameCursor p p' := by
  unfold Pool.drainReturnQueue at h
  split at h
  · exact absurd h (by simp)
  · refine SameCursor.trans ?_ (sameCursor_popLocal h)
    exact sameCursor_setLocalHead rfl rfl

lemma keepsCursor_takeBuffer (hget : w.pools.get j = some p) :
    KeepsCursor id w (w.takeBuffer j p reply) := by
  unfold World.takeBuffer
  split
  · rename_i a p' hpop
    exact Outcome.post_done (undisturbed_set hget rfl (sameCursor_popLocal hpop))
  · split
    · rename_i a p' hdrain
      exact Outcome.post_done (undisturbed_set hget rfl (sameCursor_drain hdrain))
    · have hcounted : Undisturbed id w { w with
          pools := w.pools.set j (p.access (.addAllocationsFromHeap 1)) } :=
        undisturbed_set hget rfl (sameCursor_of_owner rfl rfl)
      exact keepsCursor_sourceAllocate.of_undisturbed hcounted

lemma keepsCursor_allocateRawPage : KeepsCursor id w (w.allocateRawPage j reply) := by
  unfold World.allocateRawPage
  split
  · trivial
  · rename_i p hget
    refine (keepsCursor_takeBuffer hget).bind fun a w₁ => Outcome.post_done ?_
    have hcounted : Undisturbed id w₁ ((w₁.accessPool j .addPagesInUse).cloneShared j) :=
      undisturbed_accessPool.trans undisturbed_cloneShared
    exact hcounted.trans (undisturbed_of_pools rfl)

/-! ### Pools -/

lemma keepsCursor_newPool {pageSize : ℕ} {chunked : Bool} :
    KeepsCursor id w (w.newPool pageSize chunked) := by
  unfold World.newPool
  split
  · exact Outcome.post_done (undisturbed_push rfl)
  · exact keepsCursor_panicked w

lemma keepsCursor_prewarmLoop {replies : List (Option ℕ)} :
    KeepsCursor id w (World.prewarmLoop j replies w) := by
  induction replies generalizing w with
  | nil => exact Outcome.post_done (undisturbed_of_pools rfl)
  | cons reply replies ih =>
      unfold World.prewarmLoop
      split
      · trivial
      · rename_i p hget
        -- The pool is the one from before the call of the source.
        have hsupplied : (w.sourceAllocate j p.layout reply).Post
            (fun _ w₁ => w₁.pools = w.pools) (Undisturbed id w) := by
          apply World.post_sourceAllocate
          · exact fun a hsupplies => rfl
          · exact fun hreply => undisturbed_of_pools rfl
        refine Outcome.Post.bind hsupplied fun a w₁ hpools => KeepsCursor.of_undisturbed ?_ ih
        have hget₁ : w₁.pools.get j = some p := by rwa [hpools]
        refine (undisturbed_of_pools hpools).trans (undisturbed_set hget₁ rfl ?_)
        exact sameCursor_setLocalHead rfl rfl

lemma keepsCursor_prewarm {replies : List (Option ℕ)} :
    KeepsCursor id w (w.prewarm j replies) := by
  refine keepsCursor_prewarmLoop.bind fun _ w₁ => Outcome.post_done ?_
  have hstats : Undisturbed id w₁ (((w₁.accessPool j (.addAllocationsFromHeap
      replies.length)).accessPool j (.addFreePages replies.length)).accessPool j
        (.addPrewarmedPages replies.length)) :=
    (undisturbed_accessPool.trans undisturbed_accessPool).trans undisturbed_accessPool
  exact hstats.trans (undisturbed_of_pools rfl)

/-- An owner that is dropped has no open page any more. -/
lemma sameCursor_dropped {c : Option OpenPage} :
    SameCursor p { p with owner := .dropped c } :=
  ⟨rfl, fun l c h => absurd h (by simp)⟩

lemma pools_releaseLocal : (w.releaseLocal j p).pools =
    w.pools.set j { p with owner := .dropped p.owner.current } := by
  obtain ⟨bs, es, as, f, h⟩ := World.releaseLocal_frame (w := w) j p
  rw [h]

lemma undisturbed_dropPagePool (hget : w.pools.get j = some p) :
    Undisturbed id w (w.dropPagePool j p) := by
  have hlocal : Undisturbed id w (w.releaseLocal j p) :=
    undisturbed_set hget pools_releaseLocal sameCursor_dropped
  exact hlocal.trans undisturbed_dropShared

/-- The drop of a chunk pool closes its page; by then the owner is gone. -/
lemma undisturbed_replaceCurrent {c : Option OpenPage}
    (h : id ≠ j ∨ ∀ q, w.pools.get j = some q → ∀ l d, q.owner ≠ .chunkPool l d) :
    Undisturbed id w (w.replaceCurrent j c) := by
  unfold World.replaceCurrent
  split
  · exact undisturbed_of_pools rfl
  · rename_i q hget
    refine Undisturbed.trans ?_ undisturbed_dropOptional
    rcases h with hne | hdead
    · exact undisturbed_set_of_ne hne rfl
    · refine undisturbed_set hget rfl ⟨rfl, fun l d howner => ?_⟩
      exfalso
      cases hq : q.owner with
      | pagePool m => exact absurd howner (by simp [hq, Owner.setCurrent])
      | chunkPool m e => exact hdead q hget m e hq
      | dropped e => exact absurd howner (by simp [hq, Owner.setCurrent])

lemma undisturbed_dropChunkPool (hget : w.pools.get j = some p) :
    Undisturbed id w (w.dropChunkPool j p) := by
  have hpool : Undisturbed id w (w.dropPagePool j p) := undisturbed_dropPagePool hget
  unfold World.dropChunkPool
  dsimp only
  split
  · exact hpool
  · refine hpool.trans (undisturbed_replaceCurrent (Or.inr fun q hq l d howner => ?_))
    -- `PagePool::drop` has run, so the pool is gone or its owner is.
    have hlocal : (w.releaseLocal j p).pools.get j =
        some { p with owner := .dropped p.owner.current } := by
      rw [pools_releaseLocal]
      exact Arena.get_set_self hget
    obtain ⟨p₁, hget₁, hsame⟩ := (undisturbed_dropShared (w := w.releaseLocal j p)).get q
      (Arena.lt_next hlocal) hq
    obtain rfl := Option.some.inj (hlocal.symm.trans hget₁)
    obtain ⟨l', howner'⟩ := hsame.2 l d howner
    exact absurd howner' (by simp)

lemma undisturbed_dropPool (hget : w.pools.get j = some p) (hdrop : w.dropPool j p = some w') :
    Undisturbed id w w' := by
  unfold World.dropPool at hdrop
  split at hdrop
  · obtain rfl := Option.some.inj hdrop
    exact undisturbed_dropPagePool hget
  · obtain rfl := Option.some.inj hdrop
    exact undisturbed_dropChunkPool hget
  · exact absurd hdrop (by simp)

/-! ### Page handles -/

variable {h : PageHandle} {data : List UInt8} {len : Option ℕ}

lemma keepsCursor_allocatePage : KeepsCursor id w (w.allocatePage j tenant p reply) :=
  keepsCursor_allocateRawPage.bind fun _ _ => Outcome.post_done (undisturbed_of_pools rfl)

lemma undisturbed_dropPage : Undisturbed id w (w.dropPage i h) := by
  have hrelease : Undisturbed id w ({ w with pages := w.pages.erase i }.releasePage h) := by
    unfold World.releasePage
    refine Undisturbed.trans ?_ undisturbed_dropShared
    refine Undisturbed.trans ?_ undisturbed_pushReturn
    exact undisturbed_of_pools rfl
  unfold World.dropPage
  split
  · exact hrelease
  · exact hrelease
  · exact undisturbed_of_pools rfl

lemma undisturbed_sealPage : Undisturbed id w (w.sealPage i h) := by
  unfold World.sealPage
  refine Undisturbed.trans ?_ undisturbed_dropShared
  have hclone : Undisturbed id w (w.cloneShared h.pool) := undisturbed_cloneShared
  exact hclone.trans (undisturbed_of_pools rfl)

lemma keepsCursor_finishPage : KeepsCursor id w (w.finishPage i data len) := by
  unfold World.finishPage
  split
  · trivial
  · rename_i h hget
    have hwrite : Undisturbed id w (w.store h.buf (data.take h.capacity)) :=
      undisturbed_of_pools rfl
    dsimp only
    split
    · exact Outcome.post_panicked (hwrite.trans undisturbed_dropPage)
    · split
      · refine Outcome.post_done (Undisturbed.trans ?_ undisturbed_sealPage)
        exact undisturbed_of_pools rfl
      · exact Outcome.post_panicked (hwrite.trans undisturbed_dropPage)

lemma keepsCursor_allocFromPage : KeepsCursor id w (w.allocFromPage j tenant p data reply) := by
  unfold World.allocFromPage
  split
  · exact keepsCursor_allocatePage.bind fun _ _ => keepsCursor_finishPage
  · exact keepsCursor_panicked w

lemma keepsCursor_allocWithPage {init : Closure} :
    KeepsCursor id w (w.allocWithPage j tenant p init reply) := by
  apply keepsCursor_allocatePage.bind
  intro i w₁
  split
  · trivial
  · exact keepsCursor_finishPage

lemma keepsCursor_allocWithLenPage {init : Closure} :
    KeepsCursor id w (w.allocWithLenPage j tenant p init reply) := by
  apply keepsCursor_allocatePage.bind
  intro i w₁
  split
  · trivial
  · exact keepsCursor_finishPage

/-! ### Contents -/

lemma undisturbed_appendPage (happend : w.appendPage i h data = .ok w') :
    Undisturbed id w w' := by
  unfold World.appendPage at happend
  split at happend
  · exact absurd happend (by simp)
  · obtain rfl := Except.ok.inj happend
    exact undisturbed_of_pools rfl

lemma keepsCursor_setLenPage {n : ℕ} : KeepsCursor id w (w.setLenPage i h n) := by
  unfold World.setLenPage
  split
  · exact Outcome.post_done (undisturbed_of_pools rfl)
  · exact keepsCursor_panicked w

lemma keepsCursor_writePage {pos : ℕ} : KeepsCursor id w (w.writePage h pos data) := by
  unfold World.writePage
  split
  · exact Outcome.post_done (undisturbed_of_pools rfl)
  · exact keepsCursor_panicked w

lemma undisturbed_clonePage (hclone : w.clonePage i h = some w') : Undisturbed id w w' := by
  unfold World.clonePage at hclone
  split at hclone
  · exact absurd hclone (by simp)
  · obtain rfl := Option.some.inj hclone
    exact undisturbed_of_pools rfl

end Pages

/-! ## Chunks -/

section Chunks

variable {w w' : World} {id j i tenant size align : ℕ} {p : Pool} {reply : Option ℕ}
  {h : ChunkHandle} {data : List UInt8}

lemma keepsCursor_returnBuilder {c : SizeClass} {q : Option PackedArc} {offset : ℕ} :
    KeepsCursor id w (w.returnBuilder j tenant size c q offset) :=
  Outcome.post_done (undisturbed_of_pools rfl)

/-- The packed path of another pool. -/
lemma keepsCursor_findPage (hne : id ≠ j) (fuel : ℕ) :
    KeepsCursor id w (World.findPage j size align reply fuel w) := by
  induction fuel generalizing w with
  | zero => exact Outcome.post_panicked (undisturbed_of_pools rfl)
  | succ fuel ih =>
      unfold World.findPage
      split
      · trivial
      · rename_i p hget
        split
        · rename_i o hroom
          refine Outcome.post_done (Undisturbed.trans ?_ undisturbed_clonePacked)
          exact undisturbed_set_of_ne hne rfl
        · have hclose : Undisturbed id w (w.replaceCurrent j none) :=
            undisturbed_replaceCurrent (Or.inl hne)
          refine KeepsCursor.of_undisturbed hclose (KeepsCursor.bind ?_ fun _ _ => ih)
          refine keepsCursor_allocateRawPage.bind fun a w₁ => Outcome.post_done ?_
          have hwrap : Undisturbed id w₁ (w₁.wrapPage j a).2 := undisturbed_of_pools rfl
          exact hwrap.trans (undisturbed_replaceCurrent (Or.inl hne))

/-- An allocation from another pool, or outside the packed path. -/
lemma keepsCursor_allocateAligned (h : id ≠ j ∨ sizeClass p.pageSize size align ≠ .packed) :
    KeepsCursor id w (w.allocateAligned j tenant p size align reply) := by
  unfold World.allocateAligned
  split
  · cases hclass : sizeClass p.pageSize size align with
    | zero => exact keepsCursor_returnBuilder
    | packed =>
        have hne : id ≠ j := h.resolve_right fun hnot => hnot hclass
        exact (keepsCursor_findPage hne 2).bind fun _ _ => keepsCursor_returnBuilder
    | dedicated =>
        apply keepsCursor_allocateRawPage.bind
        intro a w₁
        have hwrap : Undisturbed id w₁ (w₁.wrapPage j a).2 := undisturbed_of_pools rfl
        exact keepsCursor_returnBuilder.of_undisturbed hwrap
    | oversized =>
        apply World.post_allocateOversized
        · exact fun hvalid a hsupplies => Outcome.post_done (undisturbed_of_pools rfl)
        · exact fun hvalid => undisturbed_of_pools rfl
  · exact keepsCursor_panicked w

end Chunks

/-! ## After an allocation -/

/-- The number of pages the pool has acquired so far. -/
def World.pagesAcquired (w : World) (id : ℕ) : ℕ := acquisitions (w.history id)

/-- What becomes of a new builder, or of any handle: no page is acquired and no builder made. -/
structure Finished (w w' : World) : Prop where
  cursor : ∀ id, Undisturbed id w w'
  acquired : ∀ id, w'.pagesAcquired id = w.pagesAcquired id
  next : w'.chunks.next = w.chunks.next

/-- The program ends, returning or panicking, in such a state. -/
def Finishes {α : Type} (w : World) (o : Outcome World α) : Prop :=
  o.Post (fun _ w' => Finished w w') (Finished w)

section Finished

variable {w w₁ w' : World} {id i : ℕ} {h : ChunkHandle} {data : List UInt8} {arc : PackedArc}

lemma pagesAcquired_of_trace (htrace : w'.trace = w.trace) :
    w'.pagesAcquired id = w.pagesAcquired id := by
  unfold World.pagesAcquired World.history
  rw [htrace]

lemma finished_of_pools (hpools : w'.pools = w.pools) (htrace : w'.trace = w.trace)
    (hnext : w'.chunks.next = w.chunks.next) : Finished w w' :=
  ⟨fun _ => undisturbed_of_pools hpools, fun _ => pagesAcquired_of_trace htrace, hnext⟩

lemma Finished.trans (hw : Finished w w₁) (hw' : Finished w₁ w') : Finished w w' where
  cursor id := (hw.cursor id).trans (hw'.cursor id)
  acquired id := (hw'.acquired id).trans (hw.acquired id)
  next := hw'.next.trans hw.next

lemma pagesAcquired_pushReturn {j a : ℕ} :
    (w.pushReturn j a).pagesAcquired id = w.pagesAcquired id := by
  unfold World.pushReturn
  split
  · rfl
  · unfold World.pagesAcquired
    by_cases hj : j = id
    · rw [history_cons (w := w) (e := .giveBack j a) rfl hj]
      rfl
    · rw [history_cons_of_ne (w := w) (e := .giveBack j a) rfl hj]

lemma trace_dropShared {j : ℕ} : (w.dropShared j).trace = w.trace := by
  obtain ⟨ps, bs, es, as, f, h⟩ := World.dropShared_frame (w := w) j
  rw [h]

lemma pagesAcquired_dropPacked : (w.dropPacked arc).pagesAcquired id = w.pagesAcquired id := by
  unfold World.dropPacked
  split
  · rfl
  · split
    · unfold World.releasePacked
      split
      · exact (pagesAcquired_of_trace trace_dropShared).trans pagesAcquired_pushReturn
      · unfold World.giveBack
        split
        · rfl
        · rfl
    · rfl

lemma finished_clonePacked : Finished w (w.clonePacked arc) := by
  unfold World.clonePacked
  split
  · exact finished_of_pools rfl rfl rfl
  · exact finished_of_pools rfl rfl rfl

lemma finished_dropOptional {q : Option PackedArc} : Finished w (w.dropOptional q) := by
  cases q with
  | none => exact finished_of_pools rfl rfl rfl
  | some arc =>
      have hchunks : (w.dropPacked arc).chunks = w.chunks :=
        congrArg Ledger.chunks ledger_dropPacked
      exact ⟨fun _ => undisturbed_dropPacked, fun _ => pagesAcquired_dropPacked,
        congrArg Arena.next hchunks⟩

lemma finished_storeChunk {pos : ℕ} : Finished w (w.storeChunk h pos data) := by
  unfold World.storeChunk
  split
  · exact finished_of_pools rfl rfl rfl
  · exact finished_of_pools rfl rfl rfl

lemma finished_dropChunk : Finished w (w.dropChunk i h) := by
  have hrelease : Finished w ({ w with chunks := w.chunks.erase i }.releaseChunk h) := by
    unfold World.releaseChunk
    refine Finished.trans ?_ finished_dropOptional
    exact finished_of_pools rfl rfl rfl
  unfold World.dropChunk
  split
  · exact hrelease
  · exact hrelease
  · exact finished_of_pools rfl rfl rfl

lemma finished_sealChunk : Finished w (w.sealChunk i h) := by
  unfold World.sealChunk
  refine Finished.trans ?_ finished_dropOptional
  cases hpacked : h.packed with
  | none => exact finished_of_pools rfl rfl rfl
  | some arc =>
      have hclone : Finished w (w.clonePacked arc) := finished_clonePacked
      exact hclone.trans (finished_of_pools rfl rfl rfl)

lemma finishes_finishChunk {len : Option ℕ} : Finishes w (w.finishChunk i h data len) := by
  have hstore : Finished w (w.storeChunk h 0 (data.take h.capacity)) := finished_storeChunk
  unfold World.finishChunk
  dsimp only
  cases len with
  | none => exact Outcome.post_panicked (hstore.trans finished_dropChunk)
  | some n =>
      dsimp only
      split
      · refine Outcome.post_done (Finished.trans ?_ finished_sealChunk)
        exact hstore.trans (finished_of_pools rfl rfl rfl)
      · exact Outcome.post_panicked (hstore.trans finished_dropChunk)

/-! ### Contents -/

lemma undisturbed_appendChunk (happend : w.appendChunk i h data = .ok w') :
    Undisturbed id w w' := by
  unfold World.appendChunk at happend
  split at happend
  · exact absurd happend (by simp)
  · obtain rfl := Except.ok.inj happend
    have hstore : Undisturbed id w (w.storeChunk h h.len data) := finished_storeChunk.cursor id
    exact hstore.trans (undisturbed_of_pools rfl)

lemma keepsCursor_setLenChunk {n : ℕ} : KeepsCursor id w (w.setLenChunk i h n) := by
  unfold World.setLenChunk
  split
  · exact Outcome.post_done (undisturbed_of_pools rfl)
  · exact keepsCursor_panicked w

lemma keepsCursor_writeChunk {pos : ℕ} : KeepsCursor id w (w.writeChunk h pos data) := by
  unfold World.writeChunk
  split
  · exact Outcome.post_done (finished_storeChunk.cursor id)
  · exact keepsCursor_panicked w

lemma undisturbed_cloneChunk (hclone : w.cloneChunk i h = some w') : Undisturbed id w w' := by
  unfold World.cloneChunk at hclone
  split at hclone
  · exact absurd hclone (by simp)
  · obtain rfl := Option.some.inj hclone
    exact undisturbed_of_pools rfl

end Finished

/-! ## Requests -/

/-- What a chunk pool is asked for. -/
structure ChunkRequest where
  pool : ℕ
  size : ℕ
  align : ℕ
  deriving DecidableEq, Repr

/-- The request an operation makes. -/
def Op.chunkRequest : Op → Option ChunkRequest
  | .allocateChunk id _ size align _ => some ⟨id, size, align⟩
  | .allocFromChunk id _ data _ => some ⟨id, data.length, defaultAlign⟩
  | .allocWithChunk id _ size _ _ => some ⟨id, size, defaultAlign⟩
  | .allocWithLenChunk id _ capacity _ _ => some ⟨id, capacity, defaultAlign⟩
  | _ => none

section Requests

variable {w w' : World} {id : ℕ} {op : Op} {r : ChunkRequest}

/-- **A request** is an allocation, and something done to the new builder. -/
lemma step_chunkRequest (hr : op.chunkRequest = some r) (hstep : w.step op = some w') :
    ∃ (tenant : ℕ) (reply : Option ℕ) (p : Pool) (f : ℕ → World → Outcome World ℕ),
      w.chunkPool r.pool = some p ∧ (∀ i w₁, Finishes w₁ (f i w₁)) ∧
      ((w.allocateAligned r.pool tenant p r.size r.align reply).bind f).final = some w' := by
  cases op with
  | allocateChunk id t size align reply =>
      obtain rfl := Option.some.inj hr
      obtain ⟨p, hp, hfinal⟩ := Option.bind_eq_some_iff.1 hstep
      refine ⟨t, reply, p, fun i w₁ => .done i w₁, hp, fun i w₁ => ?_, ?_⟩
      · exact Outcome.post_done (finished_of_pools rfl rfl rfl)
      · rw [← hfinal]
        cases w.allocateAligned id t p size align reply <;> rfl
  | allocFromChunk id t data reply =>
      obtain rfl := Option.some.inj hr
      obtain ⟨p, hp, hfinal⟩ := Option.bind_eq_some_iff.1 hstep
      refine ⟨t, reply, p, _, hp, fun i w₁ => ?_, hfinal⟩
      split
      · trivial
      · split
        · exact finishes_finishChunk
        · exact Outcome.post_panicked finished_dropChunk
  | allocWithChunk id t size init reply =>
      obtain rfl := Option.some.inj hr
      obtain ⟨p, hp, hfinal⟩ := Option.bind_eq_some_iff.1 hstep
      refine ⟨t, reply, p, _, hp, fun i w₁ => ?_, hfinal⟩
      dsimp only
      split
      · trivial
      · exact finishes_finishChunk
  | allocWithLenChunk id t capacity init reply =>
      obtain rfl := Option.some.inj hr
      obtain ⟨p, hp, hfinal⟩ := Option.bind_eq_some_iff.1 hstep
      refine ⟨t, reply, p, _, hp, fun i w₁ => ?_, hfinal⟩
      dsimp only
      split
      · trivial
      · exact finishes_finishChunk
  | _ => exact absurd hr (by simp [Op.chunkRequest])

/-- A request to another pool, or outside the packed path. -/
lemma undisturbed_chunkRequest (hr : op.chunkRequest = some r) (hstep : w.step op = some w')
    (hother : ∀ p, w.chunkPool id = some p → r.pool = id →
      sizeClass p.pageSize r.size r.align ≠ .packed) : Undisturbed id w w' := by
  obtain ⟨tenant, reply, p, f, hp, hf, hfinal⟩ := step_chunkRequest hr hstep
  have hclass : id ≠ r.pool ∨ sizeClass p.pageSize r.size r.align ≠ .packed := by
    by_cases hid : r.pool = id
    · rw [hid] at hp
      exact Or.inr (hother p hp hid)
    · exact Or.inl (Ne.symm hid)
  refine KeepsCursor.final ((keepsCursor_allocateAligned hclass).bind fun i w₁ => ?_) hfinal
  exact (hf i w₁).mono (fun _ _ h => h.cursor id) fun _ h => h.cursor id

/-- **Nothing but the packed path of a pool moves its cursor.** -/
theorem undisturbed_step (hstep : w.step op = some w')
    (hother : ∀ r p, op.chunkRequest = some r → w.chunkPool id = some p → r.pool = id →
      sizeClass p.pageSize r.size r.align ≠ .packed) : Undisturbed id w w' := by
  cases op with
  | newPagePool ps => exact keepsCursor_newPool.final hstep
  | newChunkPool ps => exact keepsCursor_newPool.final hstep
  | prewarm j replies =>
      simp only [World.step, Option.ite_none_right_eq_some] at hstep
      exact keepsCursor_prewarm.final hstep.2
  | dropPool j =>
      obtain ⟨p, hget, hdrop⟩ := Option.bind_eq_some_iff.1 hstep
      exact undisturbed_dropPool hget hdrop
  | cloneShared j =>
      simp only [World.step, Option.ite_none_right_eq_some] at hstep
      obtain rfl := Option.some.inj hstep.2
      have hclone : Undisturbed id w (w.cloneShared j) := undisturbed_cloneShared
      exact hclone.trans (undisturbed_of_pools rfl)
  | dropSharedHandle j =>
      simp only [World.step, Option.ite_none_right_eq_some] at hstep
      obtain rfl := Option.some.inj hstep.2
      refine Undisturbed.trans ?_ undisturbed_dropShared
      exact undisturbed_of_pools rfl
  | allocatePage j t reply =>
      obtain ⟨p, -, hfinal⟩ := Option.bind_eq_some_iff.1 hstep
      exact keepsCursor_allocatePage.final hfinal
  | allocFromPage j t data reply =>
      obtain ⟨p, -, hfinal⟩ := Option.bind_eq_some_iff.1 hstep
      exact keepsCursor_allocFromPage.final hfinal
  | allocWithPage j t init reply =>
      obtain ⟨p, -, hfinal⟩ := Option.bind_eq_some_iff.1 hstep
      exact keepsCursor_allocWithPage.final hfinal
  | allocWithLenPage j t init reply =>
      obtain ⟨p, -, hfinal⟩ := Option.bind_eq_some_iff.1 hstep
      exact keepsCursor_allocWithLenPage.final hfinal
  | appendPage i data =>
      obtain ⟨h, -, hstep⟩ := Option.bind_eq_some_iff.1 hstep
      cases happend : w.appendPage i h data with
      | ok w₁ =>
          rw [happend] at hstep
          obtain rfl := Option.some.inj hstep
          exact undisturbed_appendPage happend
      | error e =>
          rw [happend] at hstep
          obtain rfl := Option.some.inj hstep
          exact undisturbed_of_pools rfl
  | setLenPage i len =>
      obtain ⟨h, -, hfinal⟩ := Option.bind_eq_some_iff.1 hstep
      exact keepsCursor_setLenPage.final hfinal
  | writePage i pos data =>
      obtain ⟨h, -, hfinal⟩ := Option.bind_eq_some_iff.1 hstep
      exact keepsCursor_writePage.final hfinal
  | sealPage i =>
      obtain ⟨h, -, rfl⟩ := Option.map_eq_some_iff.1 hstep
      exact undisturbed_sealPage
  | clonePage i =>
      obtain ⟨h, -, hclone⟩ := Option.bind_eq_some_iff.1 hstep
      exact undisturbed_clonePage hclone
  | dropPage i =>
      obtain ⟨h, -, rfl⟩ := Option.map_eq_some_iff.1 hstep
      exact undisturbed_dropPage
  | allocateChunk j t size align reply =>
      exact undisturbed_chunkRequest rfl hstep fun p => hother _ p rfl
  | allocFromChunk j t data reply =>
      exact undisturbed_chunkRequest rfl hstep fun p => hother _ p rfl
  | allocWithChunk j t size init reply =>
      exact undisturbed_chunkRequest rfl hstep fun p => hother _ p rfl
  | allocWithLenChunk j t capacity init reply =>
      exact undisturbed_chunkRequest rfl hstep fun p => hother _ p rfl
  | appendChunk i data =>
      obtain ⟨h, -, hstep⟩ := Option.bind_eq_some_iff.1 hstep
      cases happend : w.appendChunk i h data with
      | ok w₁ =>
          rw [happend] at hstep
          obtain rfl := Option.some.inj hstep
          exact undisturbed_appendChunk happend
      | error e =>
          rw [happend] at hstep
          obtain rfl := Option.some.inj hstep
          exact undisturbed_of_pools rfl
  | setLenChunk i len =>
      obtain ⟨h, -, hfinal⟩ := Option.bind_eq_some_iff.1 hstep
      exact keepsCursor_setLenChunk.final hfinal
  | writeChunk i pos data =>
      obtain ⟨h, -, hfinal⟩ := Option.bind_eq_some_iff.1 hstep
      exact keepsCursor_writeChunk.final hfinal
  | sealChunk i =>
      obtain ⟨h, -, rfl⟩ := Option.map_eq_some_iff.1 hstep
      exact finished_sealChunk.cursor id
  | cloneChunk i =>
      obtain ⟨h, -, hclone⟩ := Option.bind_eq_some_iff.1 hstep
      exact undisturbed_cloneChunk hclone
  | dropChunk i =>
      obtain ⟨h, -, rfl⟩ := Option.map_eq_some_iff.1 hstep
      exact finished_dropChunk.cursor id

end Requests

end PagedAlloc.Sequential
