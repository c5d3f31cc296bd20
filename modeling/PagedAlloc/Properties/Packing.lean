import PagedAlloc.Framework.NextFit
import PagedAlloc.Properties.Cursor
import PagedAlloc.Properties.PageLifetime
import PagedAlloc.Properties.Ranges

/-!
# How densely chunks are packed

At the default alignment the packed path of a `ChunkPool` is next fit: a page is a bin, the cursor
rounded up to the alignment is its level, and a request takes its size rounded up.  `Packs` relates
the two, `placed_allocate` is the simulation of one request, and over a whole run the pages opened
for the packed path are those that next fit opens for the packed requests alone, whatever else
happens to the pool in between.  The bound on the waste is then the one of next fit.
-/

namespace PagedAlloc.Sequential

open Words Transition History

/-- A size rounded up to a multiple of `DEFAULT_ALIGN`. -/
def roundUp (size : ℕ) : ℕ := (size + (defaultAlign - 1)) / defaultAlign * defaultAlign

/-- Where the next chunk starts on an open page. -/
def OpenPage.level (o : OpenPage) : ℕ := roundUp o.writeOffset

/-! ## The packed requests of a run -/

/-- The size that the operation asks of the packed path of the pool. -/
def World.packedRequest (w : World) (id : ℕ) (op : Op) : Option ℕ :=
  (w.chunkPool id).bind fun p =>
    (op.chunkRequest.filter fun r =>
      r.pool = id ∧ sizeClass p.pageSize r.size r.align = .packed).map ChunkRequest.size

/-- A packed request: whether it returned a builder, and how many pages were acquired for it. -/
structure PackedStep where
  size : ℕ
  granted : Bool
  pages : ℕ
  deriving DecidableEq, Repr

def World.packedStep (w w' : World) (id : ℕ) (op : Op) : Option PackedStep :=
  (w.packedRequest id op).map fun size =>
    ⟨size, w.chunks.next < w'.chunks.next, w'.pagesAcquired id - w.pagesAcquired id⟩

/-- The packed requests to the pool along a run. -/
def packedSteps (id : ℕ) : World → List Op → List PackedStep
  | _, [] => []
  | w, op :: ops =>
      match w.step op with
      | none => []
      | some w' => (w.packedStep w' id op).toList ++ packedSteps id w' ops

/-- The pages opened for the packed path. -/
def pagesOpened (steps : List PackedStep) : ℕ := (steps.map PackedStep.pages).sum

/-- The sizes of the chunks on the packed path, each rounded up. -/
def bytesPacked (steps : List PackedStep) : ℕ :=
  ((steps.filter PackedStep.granted).map fun s => roundUp s.size).sum

def PackedStep.request (s : PackedStep) : NextFit.Request := ⟨s.size, roundUp s.size, s.granted⟩

/-- The operation asks the pool for the default alignment, if for anything. -/
def Op.Plain (id : ℕ) (op : Op) : Prop :=
  ∀ r ∈ op.chunkRequest, r.pool = id → r.align = defaultAlign

instance (id : ℕ) (op : Op) : Decidable (op.Plain id) :=
  inferInstanceAs (Decidable (∀ r ∈ op.chunkRequest, _))

/-! ## The level of a page -/

section Level

variable {o : OpenPage} {n m : ℕ}

lemma roundUp_add (h : n % defaultAlign = 0) : roundUp (n + m) = n + roundUp m := by
  unfold roundUp defaultAlign at *
  omega

lemma level_fresh {arc : PackedArc} : OpenPage.level ⟨arc, 0⟩ = 0 := by
  show roundUp 0 = 0
  decide

/-- On an aligned buffer, the next chunk at the default alignment starts at the level. -/
lemma alignedOffset_eq_level (hpos : 0 < o.shared.page.buf)
    (hend : o.shared.page.buf + o.writeOffset ≤ size64)
    (hbuf : o.shared.page.buf % defaultAlign = 0) : o.alignedOffset defaultAlign = o.level := by
  have halign : IsPowerOfTwo defaultAlign := ⟨3, by decide, rfl⟩
  obtain ⟨hle, hnear, hmod⟩ := alignedOffset_spec halign hpos hend
  unfold OpenPage.level roundUp defaultAlign at *
  omega

end Level

/-! ## One request -/

/-- The open page of the pool is the open bin of `s`.  A pool that is gone has none, and gets no
requests. -/
structure Packs (id pageSize : ℕ) (w : World) (s : NextFit.State) : Prop where
  born : id < w.pools.next
  pool : ∀ p l c, w.pools.get id = some p → p.owner = .chunkPool l c →
    p.pageSize = pageSize ∧ c.map OpenPage.level = s.level

/-- A packed request leads from `w` to `w'` as next fit does from `s`. -/
structure Placed (id pageSize size : ℕ) (w : World) (s : NextFit.State) (granted : Bool)
    (w' : World) : Prop where
  packs : Packs id pageSize w' (NextFit.place pageSize s ⟨size, roundUp size, granted⟩).2
  answer : (NextFit.place pageSize s ⟨size, roundUp size, granted⟩).1 = granted
  opened : (NextFit.place pageSize s ⟨size, roundUp size, granted⟩).2.opened +
    w.pagesAcquired id = s.opened + w'.pagesAcquired id
  next : w'.chunks.next = w.chunks.next + granted.toNat

section Request

variable {w w₁ w' : World} {id pageSize size tenant l : ℕ} {p : Pool} {c : Option OpenPage}
  {o : OpenPage} {s : NextFit.State} {reply : Option ℕ} {granted : Bool}

lemma Packs.undisturbed (h : Packs id pageSize w s) (hw : Undisturbed id w w') :
    Packs id pageSize w' s where
  born := lt_of_lt_of_le h.born hw.next_le
  pool p' l c hget howner := by
    obtain ⟨p, hget₀, hsize, hsame⟩ := hw.get p' h.born hget
    obtain ⟨l', howner₀⟩ := hsame l c howner
    obtain ⟨hps, hlevel⟩ := h.pool p l' c hget₀ howner₀
    exact ⟨hsize.trans hps, hlevel⟩

lemma Placed.finished (h : Placed id pageSize size w s granted w₁) (hw : Finished w₁ w') :
    Placed id pageSize size w s granted w' where
  packs := h.packs.undisturbed (hw.cursor id)
  answer := h.answer
  opened := by rw [hw.acquired id, h.opened]
  next := hw.next.trans h.next

/-- The page that is open after the request. -/
lemma packs_of_current {w : World} {q : Pool} (hget : w.pools.get id = some q)
    (hsize : q.pageSize = pageSize) (hcurrent : q.owner.current = c)
    (hlevel : c.map OpenPage.level = s.level) : Packs id pageSize w s where
  born := Arena.lt_next hget
  pool p' l' c' hget' howner := by
    obtain rfl := Option.some.inj (hget.symm.trans hget')
    rw [howner] at hcurrent
    obtain rfl : c' = c := hcurrent
    exact ⟨hsize, hlevel⟩

/-- The offset of a chunk on the open page, and the level behind it. -/
lemma Owned.level_of_current (ho : Owned w.idle) (hget : w.pools.get id = some p)
    (hcurrent : p.owner.current = some o) (hcursor : o.writeOffset ≤ p.pageSize) :
    o.alignedOffset defaultAlign = o.level ∧ ∀ size,
      roundUp (o.alignedOffset defaultAlign + size) = o.level + roundUp size := by
  obtain ⟨hpos, hend, hbuf⟩ := ho.buf_of_current hget hcurrent
  have hoffset := alignedOffset_eq_level hpos (by omega) hbuf
  refine ⟨hoffset, fun size => ?_⟩
  rw [hoffset]
  exact roundUp_add (Nat.mul_mod_left _ _)

/-- The open page has room for a request if and only if the open bin has. -/
lemma room_eq (ho : Owned w.idle) (hr : Ranges w.pools w.chunks) (hget : w.pools.get id = some p)
    (howner : p.owner = .chunkPool l c) (hlevel : c.map OpenPage.level = s.level)
    (r : NextFit.Request) :
    s.room p.pageSize r = (p.room r.size defaultAlign).map OpenPage.level := by
  have hlt := (ho.blocks.pageSize id p hget).2
  have hcurrent : p.owner.current = c := by
    rw [howner]
    rfl
  have hoffset : ∀ o, c = some o → o.alignedOffset defaultAlign = o.level := by
    rintro o rfl
    exact (ho.level_of_current hget hcurrent (hr.cursor id p o hget hcurrent)).1
  cases hroom : p.room r.size defaultAlign with
  | some o =>
      obtain ⟨hopen, hle⟩ := (room_eq_some_iff hlt).1 hroom
      have hc : c = some o := hcurrent.symm.trans hopen
      rw [hoffset o hc] at hle
      refine Option.filter_eq_some_iff.2 ⟨?_, decide_eq_true hle⟩
      rw [← hlevel, hc, Option.map_some]
  | none =>
      apply Option.eq_none_iff_forall_ne_some.2
      intro u hu
      obtain ⟨hu, hle⟩ := Option.filter_eq_some_iff.1 hu
      obtain ⟨o, hc, rfl⟩ := Option.map_eq_some_iff.1 (hlevel.trans hu)
      have hfits : o.alignedOffset defaultAlign + r.size ≤ p.pageSize := by
        rw [hoffset o hc]
        exact of_decide_eq_true hle
      have hsome := (room_eq_some_iff hlt).2 ⟨hcurrent.trans hc, hfits⟩
      rw [hroom] at hsome
      exact absurd hsome (by simp)

/-- The request fits on the open page. -/
lemma placed_open (ho : Owned w.idle) (hr : Ranges w.pools w.chunks)
    (hget : w.pools.get id = some p) (howner : p.owner = .chunkPool l c)
    (hlevel : c.map OpenPage.level = s.level) (hroom : p.room size defaultAlign = some o) :
    (w.allocatePacked id tenant size defaultAlign reply).Post
      (fun _ w' => Placed id p.pageSize size w s true w') fun _ => False := by
  obtain ⟨q, -, hclaim⟩ := claimRange_eq ho hget hroom
  obtain ⟨hcurrent, -⟩ := (room_eq_some_iff (ho.blocks.pageSize id p hget).2).1 hroom
  obtain ⟨-, hnext⟩ := ho.level_of_current hget hcurrent (hr.cursor id p o hget hcurrent)
  have hplace : NextFit.place p.pageSize s ⟨size, roundUp size, true⟩ =
      (true, ⟨s.opened, some (o.level + roundUp size), s.total + roundUp size⟩) := by
    unfold NextFit.place
    rw [room_eq ho hr hget howner hlevel, hroom]
    rfl
  unfold World.allocatePacked
  rw [findPage_open hget hroom, hclaim]
  refine Outcome.post_done ⟨?_, ?_, ?_, rfl⟩
  · rw [hplace]
    refine packs_of_current (Arena.get_set_self hget) rfl (Owner.current_setCurrent hcurrent) ?_
    exact congrArg some (hnext size)
  · rw [hplace]
  · rw [hplace]
    rfl

lemma pagesAcquired_replaceCurrent {c : Option OpenPage} :
    (w.replaceCurrent id c).pagesAcquired id = w.pagesAcquired id := by
  unfold World.replaceCurrent
  split
  · rfl
  · exact finished_dropOptional.acquired id

/-- The request does not fit: the open page is closed and a new one opened. -/
lemma placed_roll (ho : Owned w.idle) (hr : Ranges w.pools w.chunks)
    (hget : w.pools.get id = some p) (howner : p.owner = .chunkPool l c)
    (hlevel : c.map OpenPage.level = s.level)
    (hclass : sizeClass p.pageSize size defaultAlign = .packed)
    (hroom : p.room size defaultAlign = none) :
    (w.allocatePacked id tenant size defaultAlign reply).Post
      (fun _ w' => Placed id p.pageSize size w s true w')
      (Placed id p.pageSize size w s false) := by
  have halign : IsPowerOfTwo defaultAlign := ⟨3, by decide, rfl⟩
  have hfull : ∀ granted, s.room p.pageSize ⟨size, roundUp size, granted⟩ = none := by
    intro granted
    rw [room_eq ho hr hget howner hlevel, hroom]
    rfl
  have hledger : KeepsLedger w (World.findPage id size defaultAlign reply 2 w) :=
    keepsLedger_findPage 2
  unfold World.allocatePacked
  cases hopen : (w.replaceCurrent id none).openNewPage id reply with
  | done x w₂ =>
      obtain ⟨a, fresh, k, p₂, q, hmoves, hget₂, hsize₂, hroom₂, htrace, hfind⟩ :=
        findPage_opened ho hget howner halign hclass hroom hopen
      have hplace : NextFit.place p.pageSize s ⟨size, roundUp size, true⟩ =
          (true, ⟨s.opened + 1, some (roundUp size), s.total + roundUp size⟩) := by
        unfold NextFit.place
        rw [hfull]
        rfl
      have ho₂ := ho.moves hmoves
      obtain ⟨hcurrent₂, -⟩ := (room_eq_some_iff (ho₂.blocks.pageSize id p₂ hget₂).2).1 hroom₂
      obtain ⟨-, hnext⟩ := ho₂.level_of_current hget₂ hcurrent₂ (Nat.zero_le _)
      rw [hfind 0] at hledger ⊢
      have hchunks : w₂.chunks = w.chunks := congrArg Ledger.chunks hledger
      refine Outcome.post_done ⟨?_, ?_, ?_, ?_⟩
      · rw [hplace]
        refine packs_of_current (Arena.get_set_self hget₂) hsize₂
          (Owner.current_setCurrent hcurrent₂) ?_
        refine congrArg some ((hnext size).trans ?_)
        rw [level_fresh, Nat.zero_add]
      · rw [hplace]
      · have hacquired : w₂.pagesAcquired id = w.pagesAcquired id + 1 := by
          have hclosed : (w.replaceCurrent id none).pagesAcquired id = w.pagesAcquired id :=
            pagesAcquired_replaceCurrent
          have hhistory : w₂.history id =
              .acquire id a fresh :: (w.replaceCurrent id none).history id :=
            history_cons htrace rfl
          rw [← hclosed, World.pagesAcquired, hhistory]
          rfl
        rw [hplace]
        show s.opened + 1 + w.pagesAcquired id = s.opened + w₂.pagesAcquired id
        omega
      · exact congrArg (fun t => t.next + 1) hchunks
  | panicked w₂ =>
      obtain ⟨p₁, hget₁, howner₁, hsize₁⟩ := owner_closeCurrent ho hget howner
      have hopened := opened_openNewPage reply hget₁ howner₁
      rw [hopen] at hopened
      obtain ⟨-, -, -, rfl⟩ := hopened
      have hplace : NextFit.place p.pageSize s ⟨size, roundUp size, false⟩ =
          (false, ⟨s.opened, none, s.total⟩) := by
        unfold NextFit.place
        rw [hfull]
        rfl
      have hfind : World.findPage id size defaultAlign reply 2 w = .panicked
          { w.replaceCurrent id none with
            pools := (w.replaceCurrent id none).pools.set id
              (p₁.access (.addAllocationsFromHeap 1)) } := by
        rw [findPage_retire hget hroom, hopen]
        rfl
      rw [hfind] at hledger ⊢
      have hchunks : (w.replaceCurrent id none).chunks = w.chunks :=
        congrArg Ledger.chunks hledger
      refine Outcome.post_panicked ⟨?_, ?_, ?_, ?_⟩
      · rw [hplace]
        have hcurrent₁ : (p₁.access (.addAllocationsFromHeap 1)).owner.current = none := by
          show p₁.owner.current = none
          rw [howner₁]
          rfl
        exact packs_of_current (Arena.get_set_self hget₁) hsize₁ hcurrent₁ rfl
      · rw [hplace]
      · rw [hplace]
        exact congrArg (s.opened + ·) pagesAcquired_replaceCurrent.symm
      · exact congrArg Arena.next hchunks
  | refused =>
      rw [findPage_retire hget hroom, hopen]
      trivial

/-- **One packed request is one step of next fit.** -/
lemma placed_allocate (ho : Owned w.idle) (hr : Ranges w.pools w.chunks)
    (hget : w.pools.get id = some p) (howner : p.owner = .chunkPool l c)
    (hlevel : c.map OpenPage.level = s.level)
    (hclass : sizeClass p.pageSize size defaultAlign = .packed) :
    (w.allocateAligned id tenant p size defaultAlign reply).Post
      (fun _ w' => Placed id p.pageSize size w s true w')
      (Placed id p.pageSize size w s false) := by
  have halign : IsPowerOfTwo defaultAlign := ⟨3, by decide, rfl⟩
  have hpath : w.allocateAligned id tenant p size defaultAlign reply =
      w.allocatePacked id tenant size defaultAlign reply := by
    unfold World.allocateAligned
    rw [if_pos halign, hclass]
  rw [hpath]
  cases hroom : p.room size defaultAlign with
  | some o =>
      exact (placed_open ho hr hget howner hlevel hroom).mono (fun _ _ h => h) fun _ h => h.elim
  | none => exact placed_roll ho hr hget howner hlevel hclass hroom

end Request

/-! ## Runs -/

section Runs

variable {v v₁ w w' : World} {id pageSize size : ℕ} {op : Op} {pre ops : List Op}
  {s : NextFit.State}

lemma packedRequest_eq_some (h : w.packedRequest id op = some size) :
    ∃ p r, w.chunkPool id = some p ∧ op.chunkRequest = some r ∧ r.pool = id ∧ r.size = size ∧
      sizeClass p.pageSize size r.align = .packed := by
  obtain ⟨p, hp, h⟩ := Option.bind_eq_some_iff.1 h
  obtain ⟨r, hr, rfl⟩ := Option.map_eq_some_iff.1 h
  obtain ⟨hrequest, hpacked⟩ := Option.filter_eq_some_iff.1 hr
  obtain ⟨hid, hclass⟩ := of_decide_eq_true hpacked
  exact ⟨p, r, hp, hrequest, hid, rfl, hclass⟩

lemma not_packed_of_packedRequest {p : Pool} {r : ChunkRequest}
    (h : w.packedRequest id op = none) (hr : op.chunkRequest = some r)
    (hp : w.chunkPool id = some p) (hid : r.pool = id) :
    sizeClass p.pageSize r.size r.align ≠ .packed := by
  intro hclass
  have hsome : w.packedRequest id op = some r.size := by
    refine Option.bind_eq_some_iff.2 ⟨p, hp, Option.map_eq_some_iff.2 ⟨r, ?_, rfl⟩⟩
    exact Option.filter_eq_some_iff.2 ⟨hr, decide_eq_true ⟨hid, hclass⟩⟩
  rw [h] at hsome
  exact absurd hsome (by simp)

/-- A packed request, as the operation it is part of. -/
lemma placed_step (ho : Owned w.idle) (hr : Ranges w.pools w.chunks)
    (hpacks : Packs id pageSize w s) (hplain : op.Plain id) (hstep : w.step op = some w')
    (hrequest : w.packedRequest id op = some size) :
    2 * size ≤ pageSize ∧
      Placed id pageSize size w s (decide (w.chunks.next < w'.chunks.next)) w' := by
  obtain ⟨p, r, hp, hchunk, rfl, rfl, hclass⟩ := packedRequest_eq_some hrequest
  obtain ⟨tenant, reply, p', f, hp', hf, hfinal⟩ := step_chunkRequest hchunk hstep
  obtain rfl := Option.some.inj (hp.symm.trans hp')
  obtain ⟨hget, l, c, howner⟩ := World.chunkPool_eq_some hp
  obtain ⟨rfl, hlevel⟩ := hpacks.pool p l c hget howner
  rw [hplain r hchunk rfl] at hclass hfinal
  have hsmall := (le_of_sizeClass_packed hclass).2
  refine ⟨by omega, ?_⟩
  have hboth : ((w.allocateAligned r.pool tenant p r.size defaultAlign reply).bind f).Post
      (fun _ w₂ => ∃ granted, Placed r.pool p.pageSize r.size w s granted w₂)
      fun w₂ => ∃ granted, Placed r.pool p.pageSize r.size w s granted w₂ := by
    have halloc : (w.allocateAligned r.pool tenant p r.size defaultAlign reply).Post
        (fun _ w₂ => Placed r.pool p.pageSize r.size w s true w₂)
        (Placed r.pool p.pageSize r.size w s false) :=
      placed_allocate ho hr hget howner hlevel hclass
    refine Outcome.Post.bind (halloc.mono (fun _ _ h => h) fun _ h => ⟨false, h⟩) ?_
    intro i w₁ hw₁
    exact (hf i w₁).mono (fun _ _ h => ⟨true, hw₁.finished h⟩) fun _ h => ⟨true, hw₁.finished h⟩
  obtain ⟨granted, hplaced⟩ := hboth.final
    (P := fun w₂ => ∃ granted, Placed r.pool p.pageSize r.size w s granted w₂) hfinal
  have hgranted : decide (w.chunks.next < w'.chunks.next) = granted := by
    rw [hplaced.next]
    cases granted <;> simp
  rwa [hgranted]

lemma packedSteps_cons (hstep : w.step op = some w') : packedSteps id w (op :: ops) =
    (w.packedStep w' id op).toList ++ packedSteps id w' ops := by
  rw [packedSteps, hstep]

lemma pagesOpened_cons {x : PackedStep} {xs : List PackedStep} :
    pagesOpened (x :: xs) = x.pages + pagesOpened xs := by
  simp [pagesOpened]

lemma bytesPacked_cons {x : PackedStep} {xs : List PackedStep} :
    bytesPacked (x :: xs) = (if x.granted then roundUp x.size else 0) + bytesPacked xs := by
  by_cases hgranted : x.granted = true
  · simp [bytesPacked, hgranted]
  · simp [bytesPacked, hgranted]

/-- **A run of the pool is a run of next fit on its packed requests.** -/
theorem packs_run (ho : Owned w.idle) (hr : Ranges w.pools w.chunks)
    (hpacks : Packs id pageSize w s) (hplain : ∀ op ∈ ops, op.Plain id)
    (hrun : run World.step w ops = some w') :
    (∀ x ∈ packedSteps id w ops, 2 * x.size ≤ pageSize) ∧
    (serve (NextFit.place pageSize) s ((packedSteps id w ops).map PackedStep.request)).2.opened =
      s.opened + pagesOpened (packedSteps id w ops) ∧
    (serve (NextFit.place pageSize) s ((packedSteps id w ops).map PackedStep.request)).2.total =
      s.total + bytesPacked (packedSteps id w ops) := by
  induction ops generalizing w s with
  | nil => exact ⟨fun x hx => absurd hx (by simp [packedSteps]), rfl, rfl⟩
  | cons op ops ih =>
      obtain ⟨w₁, hstep, hrest⟩ := run_cons_eq_some.1 hrun
      have hmoves := custody_step ho hstep
      have hr₁ : Ranges w₁.pools w₁.chunks := hr.moves ho hmoves
      have hplain₁ : ∀ op' ∈ ops, op'.Plain id := by
        intro op' hop'
        exact hplain op' (List.mem_cons_of_mem op hop')
      rw [packedSteps_cons hstep]
      cases hrequest : w.packedRequest id op with
      | none =>
          have hquiet : Undisturbed id w w₁ :=
            undisturbed_step hstep fun r p => not_packed_of_packedRequest hrequest
          rw [World.packedStep, hrequest]
          exact ih (ho.moves hmoves) hr₁ (hpacks.undisturbed hquiet) hplain₁ hrest
      | some size =>
          obtain ⟨hsmall, hplaced⟩ :=
            placed_step ho hr hpacks (hplain op List.mem_cons_self) hstep hrequest
          obtain ⟨hsmall', hopened, htotal⟩ :=
            ih (ho.moves hmoves) hr₁ hplaced.packs hplain₁ hrest
          have hsteps : (w.packedStep w₁ id op).toList ++ packedSteps id w₁ ops =
              ⟨size, decide (w.chunks.next < w₁.chunks.next),
                w₁.pagesAcquired id - w.pagesAcquired id⟩ :: packedSteps id w₁ ops := by
            rw [World.packedStep, hrequest]
            rfl
          rw [hsteps, pagesOpened_cons, bytesPacked_cons]
          refine ⟨?_, ?_, ?_⟩
          · rintro x (_ | ⟨_, hx⟩)
            · exact hsmall
            · exact hsmall' x hx
          · have hpages := hplaced.opened
            have hle : s.opened ≤ (NextFit.place pageSize s
                ⟨size, roundUp size, decide (w.chunks.next < w₁.chunks.next)⟩).2.opened :=
              NextFit.opened_place_le
            refine hopened.trans ?_
            dsimp only
            omega
          · refine htotal.trans ?_
            rw [NextFit.total_place, hplaced.answer, Nat.add_assoc]

lemma packs_newPool (hnew : v.newPool pageSize true = .done id v₁) :
    Packs id pageSize v₁ NextFit.State.empty := by
  unfold World.newPool at hnew
  split at hnew
  · obtain ⟨rfl, rfl⟩ := Outcome.done.inj hnew
    exact packs_of_current (c := none) Arena.get_push_self rfl rfl rfl
  · exact absurd hnew (by simp)

/-- **Packing wastes at most half the space**, but for the page that is open.  In every run from the
creation of a chunk pool in which it is asked for the default alignment, with any other requests,
drops and operations in between: the pages opened for the packed path are those that next fit opens
for the packed requests alone; and if there is more than one, all but one of them together are
smaller than twice the packed chunks, each rounded up. -/
theorem packing_wastes_half (hpre : runOps pre = some v)
    (hnew : v.newPool pageSize true = .done id v₁) (hrun : run World.step v₁ ops = some w)
    (hplain : ∀ op ∈ ops, op.Plain id) :
    pagesOpened (packedSteps id v₁ ops) = (serve (NextFit.place pageSize) NextFit.State.empty
      ((packedSteps id v₁ ops).map PackedStep.request)).2.opened ∧
    (pagesOpened (packedSteps id v₁ ops) ≤ 1 ∨
      (pagesOpened (packedSteps id v₁ ops) - 1) * pageSize <
        2 * bytesPacked (packedSteps id v₁ ops)) := by
  have hov := owned_run hpre
  have hstep := World.step_newChunkPool hnew
  have hmoves := custody_step hov hstep
  have hr₁ : Ranges v₁.pools v₁.chunks := (ranges_run hpre).moves hov hmoves
  obtain ⟨hsmall, hopened, htotal⟩ :=
    packs_run (hov.moves hmoves) hr₁ (packs_newPool hnew) hplain hrun
  have hopened : _ = 0 + pagesOpened (packedSteps id v₁ ops) := hopened
  have htotal : _ = 0 + bytesPacked (packedSteps id v₁ ops) := htotal
  rw [Nat.zero_add] at hopened htotal
  have hhalf : (serve (NextFit.place pageSize) NextFit.State.empty
      ((packedSteps id v₁ ops).map PackedStep.request)).2.HalfFull pageSize := by
    apply NextFit.halfFull_empty.serve
    intro r hr
    obtain ⟨x, hx, rfl⟩ := List.mem_map.1 hr
    exact hsmall x hx
  refine ⟨hopened.symm, ?_⟩
  have hbound := NextFit.opened_le hhalf
  rwa [hopened, htotal] at hbound

/-- Three chunks of 24 bytes on pages of 64, with a dedicated one, an empty one and a drop in
between: the third opens a second page. -/
def denseRun : List Op :=
  [.allocateChunk 0 7 24 8 (some 64), .allocateChunk 0 7 40 8 (some 192), .dropChunk 0,
    .allocateChunk 0 7 20 8 none, .allocateChunk 0 7 0 8 none, .allocateChunk 0 7 24 8 (some 128)]

theorem packing_wastes_half_denseRun : ∃ v₁ w, World.init.newPool 64 true = .done 0 v₁ ∧
    run World.step v₁ denseRun = some w ∧
    packedSteps 0 v₁ denseRun = [⟨24, true, 1⟩, ⟨20, true, 0⟩, ⟨24, true, 1⟩] ∧
    pagesOpened (packedSteps 0 v₁ denseRun) = 2 ∧
    (pagesOpened (packedSteps 0 v₁ denseRun) - 1) * 64 <
      2 * bytesPacked (packedSteps 0 v₁ denseRun) := by
  have heval : (World.init.newPool 64 true).final.any (fun v₁ =>
      decide ((run World.step v₁ denseRun).isSome ∧
        packedSteps 0 v₁ denseRun = [⟨24, true, 1⟩, ⟨20, true, 0⟩, ⟨24, true, 1⟩])) = true := by
    decide +kernel
  obtain ⟨v₁, hv₁, heval⟩ := (Option.any_eq_true _ _).1 heval
  obtain ⟨hsome, hsteps⟩ := of_decide_eq_true heval
  obtain ⟨w, hrun⟩ := Option.isSome_iff_exists.1 hsome
  have hnew : World.init.newPool 64 true = .done 0 v₁ := World.newPool_of_step (by decide) hv₁
  have hplain : ∀ op ∈ denseRun, op.Plain 0 := by decide
  obtain ⟨-, hbound⟩ := packing_wastes_half (show runOps [] = some World.init from rfl) hnew hrun
    hplain
  have hpages : pagesOpened (packedSteps 0 v₁ denseRun) = 2 := by
    rw [hsteps]
    rfl
  exact ⟨v₁, w, hnew, hrun, hsteps, hpages, hbound.resolve_left (by omega)⟩

end Runs

end PagedAlloc.Sequential
