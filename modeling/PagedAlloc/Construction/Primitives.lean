import PagedAlloc.Construction.Ledger

/-!
# The `alloc_*` functions in terms of the others

`alloc_from`, `alloc_with` and `alloc_with_len` of both pools do nothing that a user could not do
with a builder: allocate it, write to it, set its length and seal it, or drop it if any of that
panics.  `World.expand` writes each of them out as these steps, and `run_expand` says that the steps
end in the same world, counters, free lists and history included.  So what holds after every run of
the other operations holds after every run.
-/

namespace PagedAlloc.Sequential

open Words Bytes Transition

/-- The operation is not one of the `alloc_*` functions. -/
def Op.Primitive : Op → Prop
  | .allocFromPage _ _ _ _ => False
  | .allocWithPage _ _ _ _ => False
  | .allocWithLenPage _ _ _ _ => False
  | .allocFromChunk _ _ _ _ => False
  | .allocWithChunk _ _ _ _ _ => False
  | .allocWithLenChunk _ _ _ _ _ => False
  | _ => True

namespace World

variable (w : World)

/-- The steps on the new page `i`: it is filled, gets its length and is sealed, or it is dropped if
there is none or `set_len` panics. -/
def fillPage (i : ℕ) (fill : List UInt8 → List UInt8) (len : List UInt8 → Option ℕ) : List Op :=
  match w.pages.get i with
  | none => []
  | some h =>
      let slice := w.pageMutSlice h
      .writePage i 0 ((fill slice).take h.capacity) :: match len slice with
        | none => [.dropPage i]
        | some n => [.setLenPage i n, if n ≤ h.capacity then .sealPage i else .dropPage i]

/-- The steps on the new chunk `i`. -/
def fillChunk (i : ℕ) (fill : List UInt8 → List UInt8) (len : List UInt8 → Option ℕ) : List Op :=
  match w.chunks.get i with
  | none => []
  | some h =>
      let slice := w.chunkMutSlice h
      .writeChunk i 0 ((fill slice).take h.capacity) :: match len slice with
        | none => [.dropChunk i]
        | some n => [.setLenChunk i n, if n ≤ h.capacity then .sealChunk i else .dropChunk i]

/-- The steps that follow an allocation, if it returns. -/
def afterwards (call : Outcome World ℕ) (steps : ℕ → World → List Op) : List Op :=
  match call with
  | .done i w' => steps i w'
  | _ => []

/-- The chunk `i` gets the bytes of `data` if it is as long as they are. -/
def copyChunk (i : ℕ) (data : List UInt8) : List Op :=
  if (w.chunks.get i).map ChunkHandle.capacity = some data.length then
    w.fillChunk i (fun _ => data) fun _ => some data.length
  else [.dropChunk i]

/-- An operation in terms of the primitive ones. -/
def expand : Op → List Op
  | .allocFromPage id t data reply => match w.pagePool id with
      | none => []
      | some p =>
          if data.length ≤ p.pageSize then
            .allocatePage id t reply :: afterwards (w.allocatePage id t p reply) fun i w' =>
              w'.fillPage i (fun _ => data) fun _ => some data.length
          else []
  | .allocWithPage id t init reply => match w.pagePool id with
      | none => []
      | some p => .allocatePage id t reply :: afterwards (w.allocatePage id t p reply) fun i w' =>
          w'.fillPage i init.fill fun slice => (init.result slice).map fun _ => slice.length
  | .allocWithLenPage id t init reply => match w.pagePool id with
      | none => []
      | some p => .allocatePage id t reply :: afterwards (w.allocatePage id t p reply) fun i w' =>
          w'.fillPage i init.fill init.result
  | .allocFromChunk id t data reply => match w.chunkPool id with
      | none => []
      | some p => .allocateChunk id t data.length defaultAlign reply ::
          afterwards (w.allocateChunk id t p data.length reply) fun i w' => w'.copyChunk i data
  | .allocWithChunk id t size init reply => match w.chunkPool id with
      | none => []
      | some p => .allocateChunk id t size defaultAlign reply ::
          afterwards (w.allocateChunk id t p size reply) fun i w' =>
            w'.fillChunk i init.fill fun slice => (init.result slice).map fun _ => size
  | .allocWithLenChunk id t capacity init reply => match w.chunkPool id with
      | none => []
      | some p => .allocateChunk id t capacity defaultAlign reply ::
          afterwards (w.allocateChunk id t p capacity reply) fun i w' =>
            w'.fillChunk i init.fill init.result
  | op => [op]

end World

/-! ## Filling a new handle -/

section Fill

variable {w w' : World} {i n : ℕ} {fill : List UInt8 → List UInt8} {len : List UInt8 → Option ℕ}

/-- The steps of `World.fillPage` are those of `finishPage`. -/
lemma run_fillPage {h : PageHandle} (hget : w.pages.get i = some h) (hbuilder : h.refs = .builder)
    (hfinal : (w.finishPage i (fill (w.pageMutSlice h)) (len (w.pageMutSlice h))).final =
      some w') : run World.step w (w.fillPage i fill len) = some w' := by
  have hlen : 0 + ((fill (w.pageMutSlice h)).take h.capacity).length ≤ h.capacity := by
    rw [List.length_take]
    omega
  unfold World.finishPage at hfinal
  unfold World.fillPage
  rw [hget] at hfinal ⊢
  dsimp only at hfinal ⊢
  generalize fill (w.pageMutSlice h) = data at hlen hfinal ⊢
  have hbuild : w.pageBuilder i = some h := by
    unfold World.pageBuilder
    rw [hget, Option.filter_some, if_pos (by simpa using hbuilder)]
  have hwrite : w.step (.writePage i 0 (data.take h.capacity)) =
      some (w.store h.buf (data.take h.capacity)) := by
    show (w.pageBuilder i).bind _ = _
    rw [hbuild, Option.bind_some, World.writePage, if_pos hlen]
    rfl
  have hbuild' : (w.store h.buf (data.take h.capacity)).pageBuilder i = some h := hbuild
  refine run_cons_eq_some.2 ⟨_, hwrite, ?_⟩
  have hdrop : (w.store h.buf (data.take h.capacity)).step (.dropPage i) =
      some ((w.store h.buf (data.take h.capacity)).dropPage i h) := by
    show (w.pages.get i).map _ = _
    rw [hget]
    rfl
  cases hn : len (w.pageMutSlice h) with
  | none =>
      rw [hn] at hfinal
      obtain rfl := Option.some.inj hfinal
      exact run_cons_eq_some.2 ⟨_, hdrop, rfl⟩
  | some n =>
      rw [hn] at hfinal
      dsimp only at hfinal ⊢
      by_cases hle : n ≤ h.capacity
      · rw [if_pos hle] at hfinal ⊢
        obtain rfl := Option.some.inj hfinal
        refine run_cons_eq_some.2 ⟨{ w.store h.buf (data.take h.capacity) with
          pages := w.pages.set i { h with len := n } }, ?_, ?_⟩
        · show (World.pageBuilder _ i).bind _ = _
          rw [hbuild', Option.bind_some, World.setLenPage, if_pos hle]
          rfl
        · refine run_cons_eq_some.2 ⟨_, ?_, rfl⟩
          show (World.pageBuilder _ i).map _ = _
          unfold World.pageBuilder
          dsimp only
          rw [Arena.get_set_self hget, Option.filter_some, if_pos (by simpa using hbuilder)]
          rfl
      · rw [if_neg hle] at hfinal ⊢
        obtain rfl := Option.some.inj hfinal
        refine run_cons_eq_some.2 ⟨_, ?_, run_cons_eq_some.2 ⟨_, hdrop, rfl⟩⟩
        show (World.pageBuilder _ i).bind _ = _
        rw [hbuild', Option.bind_some, World.setLenPage, if_neg hle]
        rfl

/-- The steps of `World.fillChunk` are those of `finishChunk`. -/
lemma run_fillChunk {h : ChunkHandle} (hget : w.chunks.get i = some h)
    (hbuilder : h.refs = .builder)
    (hfinal : (w.finishChunk i h (fill (w.chunkMutSlice h)) (len (w.chunkMutSlice h))).final =
      some w') : run World.step w (w.fillChunk i fill len) = some w' := by
  have hlen : 0 + ((fill (w.chunkMutSlice h)).take h.capacity).length ≤ h.capacity := by
    rw [List.length_take]
    omega
  unfold World.finishChunk at hfinal
  unfold World.fillChunk
  rw [hget]
  dsimp only at hfinal ⊢
  generalize fill (w.chunkMutSlice h) = data at hlen hfinal ⊢
  have hbuild : w.chunkBuilder i = some h := by
    unfold World.chunkBuilder
    rw [hget, Option.filter_some, if_pos (by simpa using hbuilder)]
  have hwrite : w.step (.writeChunk i 0 (data.take h.capacity)) =
      some (w.storeChunk h 0 (data.take h.capacity)) := by
    show (w.chunkBuilder i).bind _ = _
    rw [hbuild, Option.bind_some, World.writeChunk, if_pos hlen]
    rfl
  have hget' : (w.storeChunk h 0 (data.take h.capacity)).chunks.get i = some h := by
    rw [chunks_storeChunk]
    exact hget
  have hbuild' : (w.storeChunk h 0 (data.take h.capacity)).chunkBuilder i = some h := by
    unfold World.chunkBuilder
    rw [hget', Option.filter_some, if_pos (by simpa using hbuilder)]
  refine run_cons_eq_some.2 ⟨_, hwrite, ?_⟩
  generalize w.storeChunk h 0 (data.take h.capacity) = w₁ at hfinal hget' hbuild' ⊢
  have hdrop : w₁.step (.dropChunk i) = some (w₁.dropChunk i h) := by
    show (w₁.chunks.get i).map _ = _
    rw [hget']
    rfl
  cases hn : len (w.chunkMutSlice h) with
  | none =>
      rw [hn] at hfinal
      obtain rfl := Option.some.inj hfinal
      exact run_cons_eq_some.2 ⟨_, hdrop, rfl⟩
  | some n =>
      rw [hn] at hfinal
      dsimp only at hfinal ⊢
      by_cases hle : n ≤ h.capacity
      · rw [if_pos hle] at hfinal ⊢
        obtain rfl := Option.some.inj hfinal
        refine run_cons_eq_some.2 ⟨{ w₁ with
          chunks := w₁.chunks.set i { h with len := truncate32 n } }, ?_, ?_⟩
        · show (w₁.chunkBuilder i).bind _ = _
          rw [hbuild', Option.bind_some, World.setLenChunk, if_pos hle]
          rfl
        · refine run_cons_eq_some.2 ⟨_, ?_, rfl⟩
          show (World.chunkBuilder _ i).map _ = _
          unfold World.chunkBuilder
          dsimp only
          rw [Arena.get_set_self hget', Option.filter_some, if_pos (by simpa using hbuilder)]
          rfl
      · rw [if_neg hle] at hfinal ⊢
        obtain rfl := Option.some.inj hfinal
        refine run_cons_eq_some.2 ⟨_, ?_, run_cons_eq_some.2 ⟨_, hdrop, rfl⟩⟩
        show (w₁.chunkBuilder i).bind _ = _
        rw [hbuild', Option.bind_some, World.setLenChunk, if_neg hle]
        rfl

end Fill

/-! ## The steps of an operation -/

section Expand

variable {w w' : World} {id tenant size : ℕ} {p : Pool} {reply : Option ℕ}
  {f : ℕ → World → Outcome World ℕ} {steps : ℕ → World → List Op}

/-- A page is allocated, and then something is done to it. -/
lemma run_thenPage (hp : w.pagePool id = some p)
    (hrest : ∀ i w₁ h w', w₁.pages.get i = some h → h.refs = .builder →
      (f i w₁).final = some w' → run World.step w₁ (steps i w₁) = some w')
    (hfinal : ((w.allocatePage id tenant p reply).bind f).final = some w') :
    run World.step w (.allocatePage id tenant reply ::
      World.afterwards (w.allocatePage id tenant p reply) steps) = some w' := by
  have hstep : w.step (.allocatePage id tenant reply) =
      (w.allocatePage id tenant p reply).final := by
    show (w.pagePool id).bind _ = _
    rw [hp, Option.bind_some]
  have hledger : (w.allocatePage id tenant p reply).Post _ _ := ledger_allocatePage
  rw [run_cons, hstep]
  cases hcall : w.allocatePage id tenant p reply with
  | refused =>
      rw [hcall] at hfinal
      exact absurd hfinal (by simp [Outcome.bind, Outcome.final])
  | panicked w₁ =>
      rw [hcall] at hfinal
      exact hfinal
  | done i w₁ =>
      rw [hcall] at hfinal hledger
      obtain ⟨rfl, a, hledger⟩ := hledger
      have hget : w₁.pages.get w.pages.next = some ⟨a, p.pageSize, 0, id, tenant, .builder⟩ := by
        rw [show w₁.pages = w.pages.push _ from congrArg Ledger.pages hledger]
        exact Arena.get_push_self
      exact hrest _ _ _ _ hget rfl hfinal

/-- A chunk is allocated, and then something is done to it. -/
lemma run_thenChunk (hp : w.chunkPool id = some p)
    (hrest : ∀ i w₁ h w', w₁.chunks.get i = some h → h.refs = .builder →
      (f i w₁).final = some w' → run World.step w₁ (steps i w₁) = some w')
    (hfinal : ((w.allocateChunk id tenant p size reply).bind f).final = some w') :
    run World.step w (.allocateChunk id tenant size defaultAlign reply ::
      World.afterwards (w.allocateChunk id tenant p size reply) steps) = some w' := by
  have hstep : w.step (.allocateChunk id tenant size defaultAlign reply) =
      (w.allocateChunk id tenant p size reply).final := by
    show (w.chunkPool id).bind _ = _
    rw [hp, Option.bind_some]
    rfl
  have hledger : (w.allocateAligned id tenant p size defaultAlign reply).Post _ _ :=
    ledger_allocateAligned
  rw [run_cons, hstep]
  cases hcall : w.allocateChunk id tenant p size reply with
  | refused =>
      rw [hcall] at hfinal
      exact absurd hfinal (by simp [Outcome.bind, Outcome.final])
  | panicked w₁ =>
      rw [hcall] at hfinal
      exact hfinal
  | done i w₁ =>
      rw [hcall] at hfinal
      rw [show w.allocateAligned id tenant p size defaultAlign reply = .done i w₁ from hcall]
        at hledger
      obtain ⟨rfl, c, q, offset, hledger⟩ := hledger
      have hget : w₁.chunks.get w.chunks.next = some (newBuilder id tenant size c q offset) := by
        rw [show w₁.chunks = w.chunks.push _ from congrArg Ledger.chunks hledger]
        exact Arena.get_push_self
      exact hrest _ _ _ _ hget rfl hfinal

/-- `copy_from_slice`, and the seal or the drop after it. -/
lemma run_copyChunk {i : ℕ} {h : ChunkHandle} {data : List UInt8} (hget : w.chunks.get i = some h)
    (hbuilder : h.refs = .builder)
    (hfinal : (if data.length = h.capacity then w.finishChunk i h data (some data.length)
      else .panicked (w.dropChunk i h)).final = some w') :
    run World.step w (w.copyChunk i data) = some w' := by
  unfold World.copyChunk
  rw [hget, Option.map_some]
  by_cases hlen : data.length = h.capacity
  · rw [if_pos hlen] at hfinal
    rw [if_pos (by rw [hlen])]
    exact run_fillChunk hget hbuilder hfinal
  · rw [if_neg hlen] at hfinal
    rw [if_neg (fun heq => hlen (Option.some.inj heq).symm)]
    obtain rfl := Option.some.inj hfinal
    refine run_cons_eq_some.2 ⟨_, ?_, rfl⟩
    show (w.chunks.get i).map _ = _
    rw [hget]
    rfl

/-- **Every operation is a run of primitive ones**, to the same world. -/
theorem run_expand {op : Op} (hstep : w.step op = some w') :
    run World.step w (w.expand op) = some w' := by
  cases op with
  | allocFromPage id t data reply =>
      obtain ⟨p, hp, hfinal⟩ := Option.bind_eq_some_iff.1 hstep
      unfold World.allocFromPage at hfinal
      rw [World.expand, hp]
      dsimp only
      by_cases hlen : data.length ≤ p.pageSize
      · rw [if_pos hlen] at hfinal ⊢
        refine run_thenPage hp (fun i w₁ h w' hget hbuilder hfinish => ?_) hfinal
        exact run_fillPage hget hbuilder hfinish
      · rw [if_neg hlen] at hfinal ⊢
        exact hfinal
  | allocWithPage id t init reply =>
      obtain ⟨p, hp, hfinal⟩ := Option.bind_eq_some_iff.1 hstep
      rw [World.expand, hp]
      refine run_thenPage hp (fun i w₁ h w' hget hbuilder hfinish => ?_) hfinal
      rw [hget] at hfinish
      refine run_fillPage hget hbuilder ?_
      rw [World.pageMutSlice, length_read]
      exact hfinish
  | allocWithLenPage id t init reply =>
      obtain ⟨p, hp, hfinal⟩ := Option.bind_eq_some_iff.1 hstep
      rw [World.expand, hp]
      refine run_thenPage hp (fun i w₁ h w' hget hbuilder hfinish => ?_) hfinal
      rw [hget] at hfinish
      exact run_fillPage hget hbuilder hfinish
  | allocFromChunk id t data reply =>
      obtain ⟨p, hp, hfinal⟩ := Option.bind_eq_some_iff.1 hstep
      rw [World.expand, hp]
      refine run_thenChunk hp (fun i w₁ h w' hget hbuilder hfinish => ?_) hfinal
      rw [hget] at hfinish
      exact run_copyChunk hget hbuilder hfinish
  | allocWithChunk id t size init reply =>
      obtain ⟨p, hp, hfinal⟩ := Option.bind_eq_some_iff.1 hstep
      rw [World.expand, hp]
      refine run_thenChunk hp (fun i w₁ h w' hget hbuilder hfinish => ?_) hfinal
      rw [hget] at hfinish
      exact run_fillChunk hget hbuilder hfinish
  | allocWithLenChunk id t capacity init reply =>
      obtain ⟨p, hp, hfinal⟩ := Option.bind_eq_some_iff.1 hstep
      rw [World.expand, hp]
      refine run_thenChunk hp (fun i w₁ h w' hget hbuilder hfinish => ?_) hfinal
      rw [hget] at hfinish
      exact run_fillChunk hget hbuilder hfinish
  | _ => exact run_cons_eq_some.2 ⟨w', hstep, rfl⟩

end Expand

/-! ## Runs -/

/-- A run in terms of the primitive operations. -/
def primitives (w : World) (ops : List Op) : List Op := emitted World.step World.expand w ops

lemma run_primitives {w w' : World} {ops : List Op} (h : run World.step w ops = some w') :
    run World.step w (primitives w ops) = some w' := by
  have hsim : ∀ s t op s', t = s → World.step s op = some s' →
      ∃ t', run World.step t (s.expand op) = some t' ∧ t' = s' := by
    rintro s _ op s' rfl hstep
    exact ⟨s', run_expand hstep, rfl⟩
  obtain ⟨w₁, hrun, rfl⟩ := run_emitted hsim rfl h
  exact hrun

end PagedAlloc.Sequential
