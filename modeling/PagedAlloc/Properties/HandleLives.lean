import PagedAlloc.Properties.StoreRefinement

/-!
# The life of a handle

What the getters of a handle return after a run depends on what they returned before and on the
operations on this handle (`handle_lives`), whatever else happens: other handles, their tenants and
pools, drops of the pool itself, pages that are recycled.  For a builder this is what a bounded
buffer makes of its commands, for a sealed handle the same bytes until the last clone is dropped.

So the bytes given to `alloc_from` are read back by every clone, for as long as there is one
(`allocFrom_lives`).
-/

namespace PagedAlloc.Sequential

open Words Bytes Transition BoundedBuffer BlobStore

/-! ## The operations on a handle -/

section Actions

variable {w w' : World} {op e : Op} {ops rest : List Op} {i : ℕ}

lemma actions_pageEvents : actions i (w.pageEvents op) = actions i op.pageActs := by
  cases op with
  | allocatePage id t reply =>
      unfold World.pageEvents World.created
      dsimp only
      split
      · rfl
      · split <;> rfl
  | _ => rfl

lemma actions_chunkEvents : actions i (w.chunkEvents op) = actions i op.chunkActs := by
  cases op with
  | allocateChunk id t size align reply =>
      unfold World.chunkEvents World.created
      dsimp only
      split
      · rfl
      · split <;> rfl
  | _ => rfl

lemma actions_flatMap_eq_nil {acts : Op → List (Event UInt8)}
    (h : ∀ e ∈ ops, actions i (acts e) = []) : actions i (ops.flatMap acts) = [] := by
  induction ops with
  | nil => rfl
  | cons e ops ih =>
      rw [List.flatMap_cons, actions_append, h e List.mem_cons_self, List.nil_append]
      exact ih fun e he => h e (List.mem_cons_of_mem _ he)

lemma actions_on {j : ℕ} {a : Action UInt8} (hij : ¬ j = i) : actions i [.act j a] = [] :=
  List.filterMap_cons_none (if_neg hij)

/-- An operation does to the old objects what it says, however it is written out: what else it does
is about its new handle. -/
lemma actions_expand {acts : Op → List (Event UInt8)} (hcomposite : ¬ op.Primitive → acts op = [])
    (hallocates : ∀ e : Op, e.Allocates → acts e = [])
    (hpage : ∀ e : Op, e.OnPage w.pages.next → actions i (acts e) = [])
    (hchunk : ∀ e : Op, e.On w.chunks.next → actions i (acts e) = []) :
    actions i ((w.expand op).flatMap acts) = actions i (acts op) := by
  have hshape := expansion w op
  generalize w.expand op = es at hshape
  cases hshape with
  | primitive => rw [List.flatMap_singleton]
  | rejected hop => rw [hcomposite hop, List.flatMap_nil]
  | page hop hon =>
      rw [hcomposite hop, List.flatMap_cons, hallocates (.allocatePage _ _ _) trivial]
      exact actions_flatMap_eq_nil fun e he => hpage e (hon e he)
  | chunk hop _ hon =>
      rw [hcomposite hop, List.flatMap_cons, hallocates (.allocateChunk _ _ _ _ _) trivial]
      exact actions_flatMap_eq_nil fun e he => hchunk e (hon e he)

lemma actions_expand_page (hi : i < w.pages.next) :
    actions i ((w.expand op).flatMap Op.pageActs) = actions i op.pageActs := by
  refine actions_expand (fun hop => ?_) (fun e he => ?_) (fun e he => ?_) fun e he => ?_
  · cases op <;> first | rfl | exact (hop trivial).elim
  · cases e <;> first | rfl | exact he.elim
  · have hne : ¬ w.pages.next = i := Nat.ne_of_gt hi
    cases e <;> first | exact he.elim | exact actions_on (fun h => hne (he.symm.trans h))
  · cases e <;> first | rfl | exact he.elim

lemma actions_expand_chunk (hi : i < w.chunks.next) :
    actions i ((w.expand op).flatMap Op.chunkActs) = actions i op.chunkActs := by
  refine actions_expand (fun hop => ?_) (fun e he => ?_) (fun e he => ?_) fun e he => ?_
  · cases op <;> first | rfl | exact (hop trivial).elim
  · cases e <;> first | rfl | exact he.elim
  · cases e <;> first | rfl | exact he.elim
  · have hne : ¬ w.chunks.next = i := Nat.ne_of_gt hi
    cases e <;> first | exact he.elim | exact actions_on (fun h => hne (he.symm.trans h))

/-- Identities are not used again. -/
lemma next_le_step (hstep : w.step op = some w') :
    w.pages.next ≤ w'.pages.next ∧ w.chunks.next ≤ w'.chunks.next := by
  have hall : op.Requests fun _ => True := by cases op <;> trivial
  have hmoves := ledger_step hall hstep
  suffices h : ∀ l l' : Ledger, Ledger.Moves (fun _ => True) l l' →
      l.pages.next ≤ l'.pages.next ∧ l.chunks.next ≤ l'.chunks.next from h _ _ hmoves
  intro l l' hmoves
  induction hmoves with
  | refl => exact ⟨le_rfl, le_rfl⟩
  | tail _ hmove ih =>
      refine ⟨ih.1.trans ?_, ih.2.trans ?_⟩
      · cases hmove with
        | addPage => exact Nat.le_succ _
        | _ => exact le_rfl
      · cases hmove with
        | addChunk => exact Nat.le_succ _
        | _ => exact le_rfl

/-- The history of an object is made of the operations on its handle. -/
lemma actions_history {label : World → Op → List (Event UInt8)} {acts : Op → List (Event UInt8)}
    (next : World → ℕ) (hlabel : ∀ w e, actions i (label w e) = actions i (acts e))
    (hexpand : ∀ w op, i < next w → actions i ((w.expand op).flatMap acts) = actions i (acts op))
    (hnext : ∀ w op w', w.step op = some w' → next w ≤ next w') (hi : i < next w)
    (hrun : run World.step w ops = some w') :
    actions i (emitted World.step label w (primitives w ops)) = actions i (ops.flatMap acts) := by
  -- The labels of a run of the steps are what the steps say.
  have hwritten : ∀ {w w' : World} {es : List Op}, run World.step w es = some w' →
      actions i (emitted World.step label w es) = actions i (es.flatMap acts) := by
    intro w w' es hrun
    induction es generalizing w with
    | nil => rfl
    | cons e es ih =>
        obtain ⟨m, hm, hrest⟩ := run_cons_eq_some.1 hrun
        rw [emitted_cons hm, actions_append, hlabel, ih hrest, List.flatMap_cons, actions_append]
  rw [hwritten (run_primitives hrun)]
  unfold primitives
  induction ops generalizing w with
  | nil => rfl
  | cons op ops ih =>
      obtain ⟨m, hm, hrest⟩ := run_cons_eq_some.1 hrun
      rw [emitted_cons hm, List.flatMap_append, actions_append, hexpand w op hi,
        ih (hi.trans_le (hnext w op m hm)) hrest, List.flatMap_cons, actions_append]

lemma actions_pageHistory (hi : i < w.pages.next) (hrun : run World.step w ops = some w') :
    actions i (pageHistory w ops) = actions i (ops.flatMap Op.pageActs) :=
  actions_history (fun w => w.pages.next) (fun _ _ => actions_pageEvents)
    (fun _ _ => actions_expand_page) (fun _ _ _ h => (next_le_step h).1) hi hrun

lemma actions_chunkHistory (hi : i < w.chunks.next) (hrun : run World.step w ops = some w') :
    actions i (chunkHistory w ops) = actions i (ops.flatMap Op.chunkActs) :=
  actions_history (fun w => w.chunks.next) (fun _ _ => actions_chunkEvents)
    (fun _ _ => actions_expand_chunk) (fun _ _ _ h => (next_le_step h).2) hi hrun

end Actions

/-! ## Lives -/

/-- Between the views `v` and `v'`, the object `i` has become what its own actions make of it. -/
def Lives (i : ℕ) (es : List (Event UInt8)) (v v' : Option View) : Prop :=
  ∃ o o' : Option (Item UInt8), v = o.map View.ofItem ∧ v' = o'.map View.ofItem ∧
    run life o (actions i es) = some o'

section Lives

variable {w w' : World} {ops rest : List Op} {i n : ℕ} {es : List (Event UInt8)}
  {v v' : Option View} {bytes : List UInt8}

/-- The clones of a handle that are made, and those that are dropped. -/
def sharesOf (i : ℕ) (es : List (Event UInt8)) : ℕ := (actions i es).countP Action.isShare

def dropsOf (i : ℕ) (es : List (Event UInt8)) : ℕ := (actions i es).countP Action.isDrop

/-- A sealed handle shows the same bytes until all of its clones are dropped. -/
lemma Lives.sealed {c len : ℕ} (h : Lives i es (some (.sealed c len bytes n)) v') (hn : 0 < n) :
    (dropsOf i es < n + sharesOf i es ∧
      v' = some (.sealed c len bytes (n + sharesOf i es - dropsOf i es))) ∨
    (dropsOf i es = n + sharesOf i es ∧ v' = none) := by
  obtain ⟨o, o', hv, rfl, hrun⟩ := h
  obtain ⟨x, rfl, hx⟩ := Option.map_eq_some_iff.1 hv.symm
  cases x with
  | draft b => exact absurd hx (by simp [View.ofItem])
  | blob d y m =>
      obtain ⟨rfl, rfl, rfl, rfl⟩ := View.sealed.inj hx
      unfold dropsOf sharesOf
      rcases life_blob hn hrun with ⟨m', rfl, hpos, hcount⟩ | ⟨rfl, hcount⟩
      · refine Or.inl ⟨by omega, ?_⟩
        rw [← hcount, Nat.add_sub_cancel]
        rfl
      · exact Or.inr ⟨hcount, rfl⟩

lemma Lives.congr {es' : List (Event UInt8)} (h : Lives i es v v')
    (heq : actions i es = actions i es') : Lives i es' v v' := by
  unfold Lives at h ⊢
  rw [← heq]
  exact h

/-- Of a shown store, every object has the life that its handle shows. -/
lemma Shows.lives {next next' : ℕ} {view view' : ℕ → Option View} {s s' : Arena (Item UInt8)}
    (hs : Shows next view s) (hs' : Shows next' view' s') (hrun : run BlobStore.step s es = some s')
    (hi : i < next) : Lives i es (view i) (view' i) :=
  ⟨s.get i, s'.get i, hs.view i, hs'.view i, get_run hrun (hi.trans_eq hs.next.symm)⟩

lemma page_lives (hrun : runOps ops = some w) (hrest : run World.step w rest = some w')
    (hi : i < w.pages.next) :
    Lives i (rest.flatMap Op.pageActs) (w.viewPage i) (w'.viewPage i) := by
  obtain ⟨s, -, hshow⟩ := shows_pages hrun
  obtain ⟨s', hs', hshow'⟩ := shows_page_run (sound_init.run hrun) hshow hrest
  exact (hshow.lives hshow' hs' hi).congr (actions_pageHistory hi hrest)

lemma chunk_lives (hrun : runOps ops = some w)
    (hrequests : Always World.step World.SmallRequest .init (ops ++ rest))
    (hrest : run World.step w rest = some w') (hi : i < w.chunks.next) :
    Lives i (rest.flatMap Op.chunkActs) (w.viewChunk i) (w'.viewChunk i) := by
  obtain ⟨hfirst, hlater⟩ := (always_append hrun).1 hrequests
  obtain ⟨hsmall, s, -, hshow⟩ := shows_chunks hrun hfirst
  obtain ⟨-, s', hs', hshow'⟩ := shows_chunk_run (sound_init.run hrun) hsmall hshow hlater hrest
  exact (hshow.lives hshow' hs' hi).congr (actions_chunkHistory hi hrest)

/-- **Handles do not see each other.**  What the getters of a handle return depends on its own
operations alone. -/
theorem handle_lives (hrun : runOps ops = some w) (hrest : run World.step w rest = some w') :
    (∀ i < w.pages.next, Lives i (rest.flatMap Op.pageActs) (w.viewPage i) (w'.viewPage i)) ∧
    (Always World.step World.SmallRequest .init (ops ++ rest) →
      ∀ i < w.chunks.next,
        Lives i (rest.flatMap Op.chunkActs) (w.viewChunk i) (w'.viewChunk i)) :=
  ⟨fun _ => page_lives hrun hrest, fun hrequests _ => chunk_lives hrun hrequests hrest⟩

/-- A page builder and a chunk, while the pool of the page is dropped, other chunks come and go and
the page builder is sealed. -/
theorem handle_lives_dropPool : ∃ w w',
    runOps [.newPagePool 8, .newChunkPool 64, .allocatePage 0 0 (some 8),
      .allocFromChunk 1 0 [3, 4, 5] (some 16)] = some w ∧
    run World.step w [.appendPage 0 [1, 2], .dropPool 0, .allocateChunk 1 0 16 8 none,
      .appendChunk 1 [7], .dropChunk 1, .sealPage 0, .cloneChunk 0] = some w' ∧
    Lives 0 [.act 0 (.command (.append [1, 2])), .act 0 .freeze] (w.viewPage 0) (w'.viewPage 0) ∧
    Lives 0 [.act 1 (.command (.append [7])), .act 1 .drop, .act 0 .share] (w.viewChunk 0)
      (w'.viewChunk 0) := by
  have heval : ((runOps [.newPagePool 8, .newChunkPool 64, .allocatePage 0 0 (some 8),
      .allocFromChunk 1 0 [3, 4, 5] (some 16)]).bind fun w =>
        (run World.step w [.appendPage 0 [1, 2], .dropPool 0, .allocateChunk 1 0 16 8 none,
          .appendChunk 1 [7], .dropChunk 1, .sealPage 0, .cloneChunk 0]).map fun _ =>
            (w.pages.next, w.chunks.next)) = some (1, 1) := by
    decide +kernel
  have hrequests : Always World.step World.SmallRequest .init ([.newPagePool 8, .newChunkPool 64,
      .allocatePage 0 0 (some 8), .allocFromChunk 1 0 [3, 4, 5] (some 16)] ++
      [.appendPage 0 [1, 2], .dropPool 0, .allocateChunk 1 0 16 8 none,
        .appendChunk 1 [7], .dropChunk 1, .sealPage 0, .cloneChunk 0]) := by
    decide +kernel
  obtain ⟨w, hw, heval⟩ := Option.bind_eq_some_iff.1 heval
  obtain ⟨w', hw', heq⟩ := Option.map_eq_some_iff.1 heval
  obtain ⟨hpages, hchunks⟩ := Prod.mk.inj heq
  obtain ⟨hpage, hchunk⟩ := handle_lives hw hw'
  exact ⟨w, w', hw, hw', hpage 0 (by omega), hchunk hrequests 0 (by omega)⟩

end Lives

/-! ## From `alloc_from` to the last drop -/

section AllocFrom

variable {w w' w₁ : World} {ops rest : List Op} {i id t : ℕ} {p : Pool} {data : List UInt8}
  {reply : Option ℕ}

/-- `PagePool::alloc_from` creates a draft, fills it and freezes it. -/
lemma pageHistory_allocFrom (hp : w.pagePool id = some p)
    (hdone : w.allocFromPage id t p data reply = .done i w₁) :
    w.step (.allocFromPage id t data reply) = some w₁ ∧ i = w.pages.next ∧
      data.length ≤ p.pageSize ∧
      ∃ cells, pageHistory w [.allocFromPage id t data reply] =
        [.create p.pageSize cells, .act i (.command (.write 0 data)),
          .act i (.command (.setLen data.length)), .act i .freeze] := by
  have hstep : w.step (.allocFromPage id t data reply) = some w₁ := by
    show (w.pagePool id).bind _ = _
    rw [hp, Option.bind_some, hdone]
    rfl
  have hrun := run_expand hstep
  have hledger : (w.allocatePage id t p reply).Post _ _ := ledger_allocatePage
  unfold World.allocFromPage at hdone
  split at hdone
  · rename_i hle
    cases hcall : w.allocatePage id t p reply with
    | refused =>
        rw [hcall] at hdone
        exact absurd hdone (by simp [Outcome.bind])
    | panicked w₂ =>
        rw [hcall] at hdone
        exact absurd hdone (by simp [Outcome.bind])
    | done j w₂ =>
        rw [hcall] at hdone hledger
        rw [Outcome.bind_done] at hdone
        obtain ⟨hj, a, hledger⟩ := hledger
        have hget : w₂.pages.get j = some ⟨a, p.pageSize, 0, id, t, .builder⟩ := by
          rw [show w₂.pages = w.pages.push _ from congrArg Ledger.pages hledger, hj]
          exact Arena.get_push_self
        have hexpand : w.expand (.allocFromPage id t data reply) =
            [.allocatePage id t reply, .writePage j 0 data, .setLenPage j data.length,
              .sealPage j] := by
          rw [World.expand, hp]
          dsimp only
          rw [if_pos hle, hcall, World.afterwards, World.fillPage, hget]
          dsimp only
          rw [List.take_of_length_le hle, if_pos hle]
        have hij : i = j := by
          unfold World.finishPage at hdone
          rw [hget] at hdone
          dsimp only at hdone
          rw [if_pos hle] at hdone
          exact (Outcome.done.inj hdone).1.symm
        refine ⟨hstep, hij.trans hj, hle, w₂.pageCells j, ?_⟩
        rw [hexpand] at hrun
        obtain ⟨w₃, hfirst, hrest⟩ := run_cons_eq_some.1 hrun
        have hlabels : emitted World.step World.pageEvents w₃ [.writePage j 0 data,
            .setLenPage j data.length, .sealPage j] = _ :=
          emitted_eq_flatMap (f := Op.pageActs) (fun e he w => by
            simp only [List.mem_cons, List.not_mem_nil, or_false] at he
            rcases he with rfl | rfl | rfl <;> rfl) hrest
        unfold pageHistory primitives
        rw [emitted_cons hstep, hexpand, emitted, List.append_nil, emitted_cons hfirst, hlabels,
          World.pageEvents, hp, hij]
        dsimp only
        rw [hcall]
        rfl
  · exact absurd hdone (by simp)

/-- `ChunkPool::alloc_from` does so too, if the cast of the capacity has kept it. -/
lemma chunkHistory_allocFrom (hp : w.chunkPool id = some p)
    (hdone : w.allocFromChunk id t p data reply = .done i w₁) :
    w.step (.allocFromChunk id t data reply) = some w₁ ∧ i = w.chunks.next ∧
      ∃ cells, chunkHistory w [.allocFromChunk id t data reply] =
        [.create data.length cells, .act i (.command (.write 0 data)),
          .act i (.command (.setLen data.length)), .act i .freeze] := by
  have hstep : w.step (.allocFromChunk id t data reply) = some w₁ := by
    show (w.chunkPool id).bind _ = _
    rw [hp, Option.bind_some, hdone]
    rfl
  have hrun := run_expand hstep
  have hledger : (w.allocateAligned id t p data.length defaultAlign reply).Post _ _ :=
    ledger_allocateAligned
  unfold World.allocFromChunk at hdone
  cases hcall : w.allocateChunk id t p data.length reply with
  | refused =>
      rw [hcall] at hdone
      exact absurd hdone (by simp [Outcome.bind])
  | panicked w₂ =>
      rw [hcall] at hdone
      exact absurd hdone (by simp [Outcome.bind])
  | done j w₂ =>
      rw [hcall, Outcome.bind_done] at hdone
      rw [show w.allocateAligned id t p data.length defaultAlign reply = .done j w₂ from hcall]
        at hledger
      obtain ⟨hj, k, q, offset, hledger⟩ := hledger
      have hget : w₂.chunks.get j = some (newBuilder id t data.length k q offset) := by
        rw [show w₂.chunks = w.chunks.push _ from congrArg Ledger.chunks hledger, hj]
        exact Arena.get_push_self
      rw [hget] at hdone
      dsimp only at hdone
      generalize newBuilder id t data.length k q offset = h at hget hdone
      split at hdone
      · rename_i hlen
        have hexpand : w.expand (.allocFromChunk id t data reply) =
            [.allocateChunk id t data.length defaultAlign reply, .writeChunk j 0 data,
              .setLenChunk j data.length, .sealChunk j] := by
          rw [World.expand, hp]
          dsimp only
          rw [hcall, World.afterwards, World.copyChunk, hget, Option.map_some,
            if_pos (congrArg some hlen.symm), World.fillChunk, hget]
          dsimp only
          rw [List.take_of_length_le hlen.le, if_pos hlen.le]
        have hij : i = j := by
          unfold World.finishChunk at hdone
          dsimp only at hdone
          rw [if_pos hlen.le] at hdone
          exact (Outcome.done.inj hdone).1.symm
        refine ⟨hstep, hij.trans hj, w₂.chunkCells j, ?_⟩
        rw [hexpand] at hrun
        obtain ⟨w₃, hfirst, hrest⟩ := run_cons_eq_some.1 hrun
        have hlabels : emitted World.step World.chunkEvents w₃ [.writeChunk j 0 data,
            .setLenChunk j data.length, .sealChunk j] = _ :=
          emitted_eq_flatMap (f := Op.chunkActs) (fun e he w => by
            simp only [List.mem_cons, List.not_mem_nil, or_false] at he
            rcases he with rfl | rfl | rfl <;> rfl) hrest
        unfold chunkHistory primitives
        rw [emitted_cons hstep, hexpand, emitted, List.append_nil, emitted_cons hfirst, hlabels,
          World.chunkEvents, hp, hij]
        dsimp only
        rw [show w.allocateAligned id t p data.length defaultAlign reply = .done j w₂ from hcall]
        rfl
      · exact absurd hdone (by simp)

/-- A store to which a filled and frozen object is added shows its bytes. -/
lemma Shows.filled {next next' c : ℕ} {view view' : ℕ → Option View} {s s' : Arena (Item UInt8)}
    {cells : List UInt8} (hs : Shows next view s) (hs' : Shows next' view' s')
    (hlen : data.length ≤ c) (hrun : run BlobStore.step s [.create c cells,
      .act next (.command (.write 0 data)), .act next (.command (.setLen data.length)),
      .act next .freeze] = some s') :
    next < next' ∧ view' next = some (.sealed c data.length data 1) := by
  obtain rfl := hs.next
  have hget := run_fill hlen hrun
  refine ⟨(Arena.lt_next hget).trans_eq hs'.next, ?_⟩
  rw [hs'.view, hget]
  rfl

/-- What a handle shows that was made by `alloc_from` from `data`, after so many clones and
drops. -/
def ReadsBack (capacity : ℕ) (data : List UInt8) (clones drops : ℕ) (v : Option View) : Prop :=
  (drops < 1 + clones ∧ v = some (.sealed capacity data.length data (1 + clones - drops))) ∨
    (drops = 1 + clones ∧ v = none)

/-- **From `alloc_from` to the last drop.**  The bytes that a page or a chunk was made from are what
it shows until it is dropped once more than it is cloned. -/
theorem allocFrom_lives (hrun : runOps ops = some w) (hrest : run World.step w₁ rest = some w') :
    (w.pagePool id = some p → w.allocFromPage id t p data reply = .done i w₁ →
      ReadsBack p.pageSize data (sharesOf i (rest.flatMap Op.pageActs))
        (dropsOf i (rest.flatMap Op.pageActs)) (w'.viewPage i)) ∧
    (w.chunkPool id = some p → w.allocFromChunk id t p data reply = .done i w₁ →
      Always World.step World.SmallRequest .init
        (ops ++ .allocFromChunk id t data reply :: rest) →
      ReadsBack data.length data (sharesOf i (rest.flatMap Op.chunkActs))
        (dropsOf i (rest.flatMap Op.chunkActs)) (w'.viewChunk i)) := by
  constructor
  · intro hp hdone
    obtain ⟨hstep, rfl, hle, cells, hhistory⟩ := pageHistory_allocFrom hp hdone
    obtain ⟨s, -, hs⟩ := shows_pages hrun
    have hone : run World.step w [.allocFromPage id t data reply] = some w₁ :=
      run_cons_eq_some.2 ⟨w₁, hstep, rfl⟩
    obtain ⟨s₁, hs₁, hshow⟩ := shows_page_run (sound_init.run hrun) hs hone
    rw [hhistory] at hs₁
    obtain ⟨hnew, hview⟩ := hs.filled hshow hle hs₁
    have hlives := page_lives (run_append_eq_some.2 ⟨w, hrun, hone⟩) hrest hnew
    rw [hview] at hlives
    exact hlives.sealed Nat.one_pos
  · intro hp hdone hrequests
    obtain ⟨hstep, rfl, cells, hhistory⟩ := chunkHistory_allocFrom hp hdone
    obtain ⟨hfirst, hlater⟩ := (always_append hrun).1 hrequests
    obtain ⟨hsmall, s, -, hs⟩ := shows_chunks hrun hfirst
    have hone : run World.step w [.allocFromChunk id t data reply] = some w₁ :=
      run_cons_eq_some.2 ⟨w₁, hstep, rfl⟩
    have hrequest : Always World.step World.SmallRequest w [.allocFromChunk id t data reply] :=
      (always_cons hstep).2 ⟨((always_cons hstep).1 hlater).1, trivial⟩
    obtain ⟨-, s₁, hs₁, hshow⟩ :=
      shows_chunk_run (sound_init.run hrun) hsmall hs hrequest hone
    rw [hhistory] at hs₁
    obtain ⟨hnew, hview⟩ := hs.filled hshow le_rfl hs₁
    rw [List.append_cons] at hrequests
    have hlives := chunk_lives (run_append_eq_some.2 ⟨w, hrun, hone⟩) hrequests hrest hnew
    rw [hview] at hlives
    exact hlives.sealed Nat.one_pos

end AllocFrom

/-- A chunk that is cloned and dropped once: one clone is left, and reads the bytes. -/
theorem allocFrom_lives_cloned : ∃ w p w₁ w', runOps [.newChunkPool 64] = some w ∧
    w.chunkPool 0 = some p ∧ w.allocFromChunk 0 0 p [3, 4, 5] (some 16) = .done 0 w₁ ∧
    run World.step w₁ [.cloneChunk 0, .dropPool 0, .dropChunk 0] = some w' ∧
    ReadsBack 3 [3, 4, 5] 1 1 (w'.viewChunk 0) := by
  have heval : ((runOps [.newChunkPool 64]).bind fun w => (w.chunkPool 0).bind fun p =>
      (w.allocFromChunk 0 0 p [3, 4, 5] (some 16)).returned.bind fun r =>
        (run World.step r.2 [.cloneChunk 0, .dropPool 0, .dropChunk 0]).map fun _ => r.1) =
          some 0 := by
    decide +kernel
  have hrequests : Always World.step World.SmallRequest .init ([.newChunkPool 64] ++
      .allocFromChunk 0 0 [3, 4, 5] (some 16) :: [.cloneChunk 0, .dropPool 0, .dropChunk 0]) := by
    decide +kernel
  obtain ⟨w, hw, heval⟩ := Option.bind_eq_some_iff.1 heval
  obtain ⟨p, hp, heval⟩ := Option.bind_eq_some_iff.1 heval
  obtain ⟨⟨i, w₁⟩, hdone, heval⟩ := Option.bind_eq_some_iff.1 heval
  obtain ⟨w', hw', rfl⟩ := Option.map_eq_some_iff.1 heval
  have hdone := Outcome.returned_eq_some.1 hdone
  exact ⟨w, p, w₁, w', hw, hp, hdone, hw', (allocFrom_lives hw hw').2 hp hdone hrequests⟩

end PagedAlloc.Sequential
