import PagedAlloc.Construction.Ledger

/-!
# The charge of one chunk

A chunk is charged to its tenant with the size requested, a `usize`, and released with the
`capacity` its handle keeps, a `u32`.  `charge_eq_release_iff` follows one chunk from its
allocation through everything that can be done with it to the drop of its last handle: the
accounts of the tenant balance precisely for requests below `2 ^ 32` bytes.
-/

namespace PagedAlloc.Sequential

open Words Transition

variable {w w' : World} {ops : List Op} {i id tenant size align : ℕ} {p : Pool}
  {reply : Option ℕ} {h : ChunkHandle}

/-- The chunk has the capacity it was asked for, it can be dropped, and whatever is done with it
until its last handle is gone, the bytes charged to the tenant are then what they were before
the allocation. -/
structure ChargeEqualsRelease (w w' : World) (i tenant size : ℕ) : Prop where
  capacity : ∃ h, w'.chunks.get i = some h ∧ h.capacity = size
  dropped : ∃ w₁, run World.step w' [.dropChunk i] = some w₁ ∧ w₁.chunks.get i = none
  sealed : ∃ w₁, run World.step w' [.sealChunk i, .dropChunk i] = some w₁ ∧
    w₁.chunks.get i = none
  release : ∀ ops w₁, (∀ op ∈ ops, op.On i) → run World.step w' ops = some w₁ →
    w₁.chunks.get i = none → (w₁.tenants tenant).bytesInUse = (w.tenants tenant).bytesInUse

/-- The drop of the only handle of a chunk ends its life. -/
lemma step_dropChunk (hget : w.chunks.get i = some h)
    (hrefs : h.refs = .builder ∨ h.refs = .sealed 1) :
    ∃ w₁, w.step (.dropChunk i) = some w₁ ∧ w₁.chunks.get i = none := by
  have hdrop : w.dropChunk i h =
      ({ w with chunks := w.chunks.erase i } : World).releaseChunk h := by
    unfold World.dropChunk
    rcases hrefs with hrefs | hrefs
    · rw [hrefs]
    · rw [hrefs]
      rfl
  refine ⟨w.dropChunk i h, ?_, ?_⟩
  · show (w.chunks.get i).map _ = _
    rw [hget]
    rfl
  · rw [hdrop]
    show (World.ledger _).chunks.get i = none
    rw [ledger_releaseChunk]
    exact Arena.get_erase_self

/-- The two states of a chunk's life: it is live with its charge, or it is gone and its
`capacity` has been released. -/
def Charged (l : Ledger) (i : ℕ) (h : ChunkHandle) (bytes : ℕ) : Prop :=
  (∃ h', l.chunks.get i = some h' ∧ h.SameCharge h' ∧
      (l.tenants h.tenant).bytesInUse = bytes) ∨
    (l.chunks.get i = none ∧ (l.tenants h.tenant).bytesInUse = fetchSub bytes h.capacity)

lemma charged_step {op : Op} {bytes : ℕ} (hop : op.On i) (hstep : w.step op = some w')
    (hw : Charged w.ledger i h bytes) : Charged w'.ledger i h bytes := by
  obtain ⟨h₁, hget, hcase⟩ := ledger_step_of_on hop hstep
  have hlive : h.SameCharge h₁ ∧ (w.tenants h.tenant).bytesInUse = bytes := by
    rcases hw with ⟨h₂, hget₂, hsame, hbytes⟩ | ⟨hnone, -⟩
    · obtain rfl : h₁ = h₂ := Option.some.inj (hget.symm.trans hget₂)
      exact ⟨hsame, hbytes⟩
    · exact absurd (hget.symm.trans hnone) (by simp)
  obtain ⟨hsame, hbytes⟩ := hlive
  rcases hcase with ⟨h₂, hsame₂, hledger⟩ | hledger | hledger
  · rw [hledger]
    refine Or.inl ⟨h₂, Arena.get_set_self hget, ⟨?_, ?_, ?_, ?_, ?_⟩, hbytes⟩
    · rw [hsame₂.tenant, hsame.tenant]
    · rw [hsame₂.pool, hsame.pool]
    · rw [hsame₂.capacity, hsame.capacity]
    · rw [hsame₂.oversizedBytes, hsame.oversizedBytes]
    · rw [hsame₂.request, hsame.request]
  · rw [hledger]
    exact hw
  · rw [hledger]
    refine Or.inr ⟨Arena.get_erase_self, ?_⟩
    show (Function.update w.tenants h₁.tenant ((w.tenants h₁.tenant).recordChunkRelease
      h₁.capacity) h.tenant).bytesInUse = _
    rw [hsame.tenant, Function.update_self, hsame.capacity, ← hbytes]
    rfl

lemma charged_run {bytes : ℕ} (hops : ∀ op ∈ ops, op.On i)
    (hrun : run World.step w ops = some w') (hw : Charged w.ledger i h bytes) :
    Charged w'.ledger i h bytes := by
  induction ops generalizing w with
  | nil =>
      obtain rfl : w = w' := by simpa using hrun
      exact hw
  | cons op ops ih =>
      obtain ⟨w₁, hstep, hrest⟩ := run_cons_eq_some.1 hrun
      have hw₁ := charged_step (hops op List.mem_cons_self) hstep hw
      exact ih (fun op hop => hops op (List.mem_cons_of_mem _ hop)) hrest hw₁

/-- The in-use counters of a tenant are words. -/
structure TenantStats.InWords (st : TenantStats) : Prop where
  bytesInUse : st.bytesInUse < size64
  pagesInUse : st.pagesInUse < size64
  chunksInUse : st.chunksInUse < size64

/-- The in-use counters of a chunk pool are words. -/
structure ChunkPoolStats.InWords (st : ChunkPoolStats) : Prop where
  chunksInUse : st.chunksInUse < size64
  oversizedBytesInUse : st.oversizedBytesInUse < size64

lemma inWords_recordAllocate {st : ChunkPoolStats} {c : SizeClass}
    (h : ChunkPoolStats.InWords st) : ChunkPoolStats.InWords (st.recordAllocate size c) := by
  unfold ChunkPoolStats.recordAllocate
  cases c with
  | oversized => exact ⟨fetchAdd_lt _ _, fetchAdd_lt _ _⟩
  | _ => exact ⟨fetchAdd_lt _ _, h.oversizedBytesInUse⟩

lemma inWords_recordRelease {st : ChunkPoolStats} {n : ℕ} (h : ChunkPoolStats.InWords st) :
    ChunkPoolStats.InWords (st.recordRelease n) := by
  unfold ChunkPoolStats.recordRelease
  dsimp only
  split
  · exact ⟨fetchSub_lt _ _, fetchSub_lt _ _⟩
  · exact ⟨fetchSub_lt _ _, h.oversizedBytesInUse⟩

/-- All in-use counters are words. -/
structure Ledger.InWords (l : Ledger) : Prop where
  tenants : ∀ t, TenantStats.InWords (l.tenants t)
  chunkStats : ∀ id, ChunkPoolStats.InWords (l.chunkStats id)

lemma inWords_update {α : Type} {P : α → Prop} {f : ℕ → α} {i : ℕ} {a : α} (hf : ∀ j, P (f j))
    (ha : P a) (j : ℕ) : P (Function.update f i a j) := by
  by_cases hj : j = i
  · rwa [hj, Function.update_self]
  · rw [Function.update_of_ne hj]
    exact hf j

lemma inWords_run (hw : runOps ops = some w) : w.ledger.InWords := by
  have hmoves := ledger_run (P := fun _ => True) (fun op _ => by cases op <;> trivial) hw
  generalize w.ledger = l at hmoves
  induction hmoves with
  | refl => exact ⟨fun t => ⟨size64_pos, size64_pos, size64_pos⟩, fun id => ⟨size64_pos, size64_pos⟩⟩
  | @tail l l' _ hmove ih =>
      cases hmove with
      | addPage h =>
          refine ⟨inWords_update ih.tenants ?_, ih.chunkStats⟩
          exact ⟨fetchAdd_lt _ _, fetchAdd_lt _ _, (ih.tenants h.tenant).chunksInUse⟩
      | @removePage i h hget =>
          refine ⟨inWords_update ih.tenants ?_, ih.chunkStats⟩
          exact ⟨fetchSub_lt _ _, fetchSub_lt _ _, (ih.tenants h.tenant).chunksInUse⟩
      | setPage hget hsame => exact ⟨ih.tenants, ih.chunkStats⟩
      | addChunk h hissued hsmall =>
          refine ⟨inWords_update ih.tenants ?_,
            inWords_update ih.chunkStats (inWords_recordAllocate (ih.chunkStats h.pool))⟩
          exact ⟨fetchAdd_lt _ _, (ih.tenants h.tenant).pagesInUse, fetchAdd_lt _ _⟩
      | @removeChunk i h hget =>
          refine ⟨inWords_update ih.tenants ?_,
            inWords_update ih.chunkStats (inWords_recordRelease (ih.chunkStats h.pool))⟩
          exact ⟨fetchSub_lt _ _, (ih.tenants h.tenant).pagesInUse, fetchSub_lt _ _⟩
      | setChunk hget hsame => exact ⟨ih.tenants, ih.chunkStats⟩

/-- A counter of bytes is a word. -/
lemma bytesInUse_lt (hw : runOps ops = some w) : (w.tenants tenant).bytesInUse < size64 :=
  ((inWords_run hw).tenants tenant).bytesInUse

/-- The builder an allocation returns. -/
lemma get_of_allocateAligned
    (halloc : w.allocateAligned id tenant p size align reply = .done i w') :
    i = w.chunks.next ∧ ∃ c q offset,
      w'.ledger = w.ledger.addChunk (newBuilder id tenant size c q offset) ∧
        w'.chunks.get w.chunks.next = some (newBuilder id tenant size c q offset) := by
  have hpost : (w.allocateAligned id tenant p size align reply).Post _ _ := ledger_allocateAligned
  rw [halloc] at hpost
  obtain ⟨hi, c, q, offset, hledger⟩ := hpost
  refine ⟨hi, c, q, offset, hledger, ?_⟩
  rw [show w'.chunks = w.chunks.push _ from congrArg Ledger.chunks hledger]
  exact Arena.get_push_self

/-- What a whole life of a chunk does to the bytes of its tenant. -/
lemma bytesInUse_of_life {w₁ : World}
    (halloc : w.allocateAligned id tenant p size align reply = .done i w')
    (hops : ∀ op ∈ ops, op.On i) (hrun : run World.step w' ops = some w₁)
    (hnone : w₁.chunks.get i = none) : (w₁.tenants tenant).bytesInUse =
      fetchSub (fetchAdd (w.tenants tenant).bytesInUse size) (truncate32 size) := by
  obtain ⟨rfl, c, q, offset, hledger, hget⟩ := get_of_allocateAligned halloc
  have hbytes : (w'.tenants tenant).bytesInUse =
      fetchAdd (w.tenants tenant).bytesInUse size := by
    rw [show w'.tenants = _ from congrArg Ledger.tenants hledger]
    show (Function.update w.tenants tenant _ tenant).bytesInUse = _
    rw [Function.update_self]
    rfl
  have hcharged : Charged w'.ledger w.chunks.next (newBuilder id tenant size c q offset)
      (fetchAdd (w.tenants tenant).bytesInUse size) :=
    Or.inl ⟨_, hget, ⟨rfl, rfl, rfl, rfl, rfl⟩, hbytes⟩
  rcases charged_run hops hrun hcharged with ⟨h', hget', -⟩ | ⟨-, hreleased⟩
  · exact absurd (hget'.symm.trans hnone) (by simp)
  · exact hreleased

/-- A new builder can be dropped, and it can be sealed and the chunk dropped. -/
lemma lives_of_allocateAligned
    (halloc : w.allocateAligned id tenant p size align reply = .done i w') :
    (∃ w₁, run World.step w' [.dropChunk i] = some w₁ ∧ w₁.chunks.get i = none) ∧
      ∃ w₁, run World.step w' [.sealChunk i, .dropChunk i] = some w₁ ∧
        w₁.chunks.get i = none := by
  obtain ⟨rfl, c, q, offset, -, hget⟩ := get_of_allocateAligned halloc
  constructor
  · obtain ⟨w₁, hstep, hnone⟩ := step_dropChunk hget (Or.inl rfl)
    exact ⟨w₁, run_cons_eq_some.2 ⟨w₁, hstep, rfl⟩, hnone⟩
  · have hsealed : (w'.sealChunk w.chunks.next (newBuilder id tenant size c q offset)).ledger =
        _ := ledger_sealChunk
    have hget₁ := congrArg (fun l => l.chunks.get w.chunks.next) hsealed
    obtain ⟨w₁, hstep, hnone⟩ := step_dropChunk
      (hget₁.trans (Arena.get_set_self hget)) (Or.inr rfl)
    refine ⟨w₁, run_cons_eq_some.2 ⟨_, ?_, run_cons_eq_some.2 ⟨w₁, hstep, rfl⟩⟩, hnone⟩
    have hbuilder : w'.chunkBuilder w.chunks.next =
        some (newBuilder id tenant size c q offset) := by
      unfold World.chunkBuilder
      rw [hget]
      rfl
    show (w'.chunkBuilder w.chunks.next).map _ = _
    rw [hbuilder]
    rfl

/-- A new chunk keeps the accounts of its tenant balanced precisely if the size asked for fits
the `u32` in which the handle remembers it. -/
theorem charge_eq_release_iff (hw : runOps ops = some w) (hsize : size < size64)
    (halloc : w.allocateAligned id tenant p size align reply = .done i w') :
    ChargeEqualsRelease w w' i tenant size ↔ size < size32 := by
  obtain ⟨rfl, c, q, offset, -, hget⟩ := get_of_allocateAligned halloc
  constructor
  · intro hexact
    obtain ⟨h, hget', hcap⟩ := hexact.capacity
    obtain rfl := Option.some.inj (hget.symm.trans hget')
    exact (truncate32_eq_iff size).1 hcap
  · intro hlt
    have hcap : truncate32 size = size := (truncate32_eq_iff size).2 hlt
    obtain ⟨hdropped, hsealed⟩ := lives_of_allocateAligned halloc
    refine ⟨⟨_, hget, hcap⟩, hdropped, hsealed, fun ops w₁ hops hrun hnone => ?_⟩
    rw [bytesInUse_of_life halloc hops hrun hnone]
    exact (fetchSub_fetchAdd_eq_iff (bytesInUse_lt hw) hsize (truncate32_le size)).2 hcap

/-- An allocation after a run returns, if evaluating it says so. -/
lemma exists_allocateAligned (ops : List Op) (id tenant size align : ℕ) (reply : Option ℕ)
    (heval : ((runOps ops).bind fun w => (w.chunkPool id).bind fun p =>
      match w.allocateAligned id tenant p size align reply with
        | .done i _ => some i
        | _ => none).isSome) :
    ∃ w p i w', runOps ops = some w ∧ w.chunkPool id = some p ∧
      w.allocateAligned id tenant p size align reply = .done i w' := by
  obtain ⟨i, heval⟩ := Option.isSome_iff_exists.1 heval
  obtain ⟨w, hw, heval⟩ := Option.bind_eq_some_iff.1 heval
  obtain ⟨p, hp, heval⟩ := Option.bind_eq_some_iff.1 heval
  cases halloc : w.allocateAligned id tenant p size align reply with
  | done j w' => exact ⟨w, p, j, w', hw, hp, halloc⟩
  | panicked w' =>
      rw [halloc] at heval
      exact absurd heval (by simp)
  | refused =>
      rw [halloc] at heval
      exact absurd heval (by simp)

/-- On a pool of 64-byte pages, a chunk of 24 bytes. -/
theorem charge_eq_release_iff_packed : ∃ w p i w', runOps [.newChunkPool 64] = some w ∧
    w.chunkPool 0 = some p ∧ w.allocateAligned 0 0 p 24 8 (some 8) = .done i w' ∧
    ChargeEqualsRelease w w' i 0 24 := by
  obtain ⟨w, p, i, w', hw, hp, halloc⟩ :=
    exists_allocateAligned [.newChunkPool 64] 0 0 24 8 (some 8) (by decide +kernel)
  refine ⟨w, p, i, w', hw, hp, halloc, ?_⟩
  exact (charge_eq_release_iff hw (by rw [size64_eq]; decide) halloc).2 (by decide)

/-- On the same pool, a chunk of 4 GiB: its handle remembers a capacity of zero, and after its
drop the tenant is still charged for it. -/
theorem charge_ne_release_oversized : ∃ w p i w', runOps [.newChunkPool 64] = some w ∧
    w.chunkPool 0 = some p ∧ w.allocateAligned 0 0 p size32 8 (some 8) = .done i w' ∧
    ¬ ChargeEqualsRelease w w' i 0 size32 ∧
    ∃ w₁, run World.step w' [.dropChunk i] = some w₁ ∧
      (w₁.tenants 0).bytesInUse ≠ (w.tenants 0).bytesInUse := by
  obtain ⟨w, p, i, w', hw, hp, halloc⟩ :=
    exists_allocateAligned [.newChunkPool 64] 0 0 size32 8 (some 8) (by decide +kernel)
  obtain ⟨⟨w₁, hrun, hnone⟩, -⟩ := lives_of_allocateAligned halloc
  have hne : (w₁.tenants 0).bytesInUse ≠ (w.tenants 0).bytesInUse := by
    rw [bytesInUse_of_life halloc (by simp [Op.On]) hrun hnone]
    intro heq
    have hcap := (fetchSub_fetchAdd_eq_iff (bytesInUse_lt hw) (by rw [size64_eq]; decide)
      (truncate32_le size32)).1 heq
    exact absurd hcap (by decide)
  refine ⟨w, p, i, w', hw, hp, halloc, fun hexact => ?_, w₁, hrun, hne⟩
  exact hne (hexact.release _ w₁ (by simp [Op.On]) hrun hnone)

end PagedAlloc.Sequential
