import PagedAlloc.Construction.HandleInterleaving
import Mathlib.Algebra.BigOperators.Group.List.Basic

/-!
# The in-use counters never underflow

Six counters go down again: `PoolStats::pages_in_use`, `bytes_in_use`, `pages_in_use` and
`chunks_in_use` of `TenantStats`, and `chunks_in_use` and `oversized_bytes_in_use` of
`ChunkPoolStats`.  Each of them is the sum of the charges of the live objects and of what the
tasks owe: an allocation owes from its increment to the hand-out of the new handle, a drop owes
from taking the handle apart to its decrement.

What a task owes is read off the instructions it has left (`pending`): an instruction owes what
it will put into a live object (`carries`) less what it will add to the counter (`delta`).  The
code of every function is *sound*: no suffix of it owes a negative amount, or more than the bytes
that the task has in hand, and where it can panic it owes nothing.  One step lemma for all counters
(`exec_spec`) then gives the result.  None of the counters exceeds what there has to be memory for
(`charged_add_owed_le`), so that they are exact as long as this fits the address space.
-/

namespace PagedAlloc.HandleInterleaving

open Words Transition

/-- The counters that are decremented. -/
inductive Counter
  | poolPagesInUse (p : PoolId)
  | tenantBytesInUse (t : ℕ)
  | tenantPagesInUse (t : ℕ)
  | tenantChunksInUse (t : ℕ)
  | chunksInUse (n : ℕ)
  | oversizedBytesInUse (n : ℕ)
  deriving DecidableEq, Repr

def State.value (s : State) : Counter → ℕ
  | .poolPagesInUse p => (s.pools p).pagesInUse
  | .tenantBytesInUse t => (s.tenants t).bytesInUse
  | .tenantPagesInUse t => (s.tenants t).pagesInUse
  | .tenantChunksInUse t => (s.tenants t).chunksInUse
  | .chunksInUse n => (s.chunkPools n).chunksInUse
  | .oversizedBytesInUse n => (s.chunkPools n).oversizedBytesInUse

/-! ## Charges -/

/-- What an access to the `PoolStats` of `p` adds to the counter. -/
def poolDelta (k : Counter) (p : PoolId) : PoolAccess → ℤ
  | .addPagesInUse => if k = .poolPagesInUse p then 1 else 0
  | .subPagesInUse => if k = .poolPagesInUse p then -1 else 0
  | _ => 0

/-- What an access to the `TenantStats` of `t` adds to the counter. -/
def tenantDelta (k : Counter) (t : ℕ) : TenantAccess → ℤ
  | .addBytesInUse n => if k = .tenantBytesInUse t then n else 0
  | .subBytesInUse n => if k = .tenantBytesInUse t then -n else 0
  | .addPagesInUse => if k = .tenantPagesInUse t then 1 else 0
  | .subPagesInUse => if k = .tenantPagesInUse t then -1 else 0
  | .addChunksInUse => if k = .tenantChunksInUse t then 1 else 0
  | .subChunksInUse => if k = .tenantChunksInUse t then -1 else 0
  | _ => 0

/-- What an access to the `ChunkPoolStats` of `n` adds to the counter. -/
def chunkDelta (k : Counter) (n : ℕ) : ChunkAccess → ℤ
  | .addChunksInUse => if k = .chunksInUse n then 1 else 0
  | .subChunksInUse => if k = .chunksInUse n then -1 else 0
  | .addOversizedBytesInUse b => if k = .oversizedBytesInUse n then b else 0
  | .subOversizedBytesInUse b => if k = .oversizedBytesInUse n then -b else 0
  | _ => 0

/-- What an instruction adds to the counter; negative for a decrement. -/
def Instr.delta (k : Counter) : Instr → ℤ
  | .pool p a => poolDelta k p a
  | .tenant t a => tenantDelta k t a
  | .chunkPool n a => chunkDelta k n a
  | _ => 0

variable (pageSize : PoolId → ℕ)

/-- The charge of a live page, in a builder or sealed. -/
def PageHandle.charge (k : Counter) (h : PageHandle) : ℤ :=
  (if k = .poolPagesInUse (.page h.pool) then 1 else 0) +
    (if k = .tenantBytesInUse h.tenant then (pageSize (.page h.pool) : ℤ) else 0) +
    if k = .tenantPagesInUse h.tenant then 1 else 0

/-- The charge of a live chunk, in a builder or sealed. -/
def ChunkHandle.charge (k : Counter) (h : ChunkHandle) : ℤ :=
  (if k = .tenantBytesInUse h.tenant then (h.capacity : ℤ) else 0) +
    (if k = .tenantChunksInUse h.tenant then 1 else 0) +
    (if k = .chunksInUse h.pool then 1 else 0) +
    if k = .oversizedBytesInUse h.pool then (h.oversizedBytes : ℤ) else 0

/-- The charge of a pool page that is open or referred to by chunks. -/
def PackedPage.charge (k : Counter) (q : PackedPage) : ℤ :=
  match q.release with
  | .pool n => if k = .poolPagesInUse (.chunk n) then 1 else 0
  | .heap => 0

/-- The charge of the object an instruction will bring to life. -/
def Instr.carries (k : Counter) : Instr → ℤ
  | .returnPage h => h.charge pageSize k
  | .returnChunk h => h.charge k
  | .openPage n => PackedPage.charge k ⟨.pool n, 1⟩
  | .dedicatePage n _ _ => PackedPage.charge k ⟨.pool n, 1⟩
  | _ => 0

/-- What a task with the instructions `code` left owes. -/
def pending (k : Counter) (code : List Instr) : ℤ :=
  (code.map fun ins => ins.carries pageSize k - ins.delta k).sum

/-- The charges of the live pages and chunks, and of the pool pages behind the chunks. -/
def State.charged (s : State) (k : Counter) : ℤ :=
  s.pages.sum (PageHandle.charge pageSize k) + s.chunks.sum (ChunkHandle.charge k) +
    s.packed.sum (PackedPage.charge k)

/-- What the tasks owe: charges whose hand-out or whose decrement is pending. -/
def State.owed (s : State) (k : Counter) : ℤ := s.tasks.sum fun τ => pending pageSize k τ.code

/-! ## Memory -/

/-- The instruction, or one it expands to, can panic: it has still to get its memory. -/
def Instr.CanPanic : Instr → Prop
  | .takeBuffer _ | .sourceAllocate | .findPage _ _ _ | .heapPage _ _ _ => True
  | _ => False

instance : DecidablePred Instr.CanPanic
  | .takeBuffer _ | .sourceAllocate | .findPage _ _ _ | .heapPage _ _ _ => isTrue trivial
  | .pool _ _ | .tenant _ _ | .chunkPool _ _ | .openPage _ | .dedicatePage _ _ _
  | .dropPacked _ | .returnPage _ | .returnChunk _ => isFalse id

/-- The bytes of a live page. -/
def PageHandle.bytes (h : PageHandle) : ℕ := pageSize (.page h.pool)

/-- The bytes of a live chunk. -/
def ChunkHandle.bytes (h : ChunkHandle) : ℕ := max h.capacity h.oversizedBytes

/-- The bytes of the handle that is returned, or of the one that is taken from the counters. -/
def Instr.bytes : Instr → ℕ
  | .returnPage h => h.bytes pageSize
  | .returnChunk h => h.bytes
  | .tenant _ (.subBytesInUse n) => n
  | .chunkPool _ (.subOversizedBytesInUse n) => n
  | _ => 0

/-- The bytes that a task has in hand, none while it has still to get them. -/
def inHand : List Instr → ℕ
  | [] => 0
  | ins :: rest => if ins.CanPanic then 0 else max (ins.bytes pageSize) (inHand rest)

/-- What there has to be memory for: the bytes of the live pages and chunks and those that the
tasks have in hand, with one byte at least for each handle, `PackedPage` and task itself. -/
def State.memory (s : State) : ℕ :=
  s.pages.sum (fun h => h.bytes pageSize + 1) + s.chunks.sum (fun h => h.bytes + 1) +
    s.packed.sum (fun _ => 1) + s.tasks.sum fun τ => inHand pageSize τ.code + 1

variable {pageSize} {s t : State} {i : ℕ} {task : Task} {ins : Instr} {rest code : List Instr}
  {reply : Reply} {k : Counter} {e : Event} {es : List Event}

@[simp] lemma pending_nil : pending pageSize k [] = 0 := rfl

lemma pending_cons :
    pending pageSize k (ins :: rest) =
      ins.carries pageSize k - ins.delta k + pending pageSize k rest := by
  simp [pending]

lemma pending_append {a b : List Instr} :
    pending pageSize k (a ++ b) = pending pageSize k a + pending pageSize k b := by
  simp [pending]

lemma PageHandle.charge_nonneg (h : PageHandle) : 0 ≤ h.charge pageSize k := by
  unfold PageHandle.charge
  split_ifs <;> omega

lemma ChunkHandle.charge_nonneg (h : ChunkHandle) : 0 ≤ h.charge k := by
  unfold ChunkHandle.charge
  split_ifs <;> omega

lemma PackedPage.charge_nonneg (q : PackedPage) : 0 ≤ q.charge k := by
  unfold PackedPage.charge
  split
  · split_ifs <;> omega
  · exact le_refl 0

lemma Instr.carries_nonneg (ins : Instr) : 0 ≤ ins.carries pageSize k := by
  unfold Instr.carries
  split
  · exact PageHandle.charge_nonneg _
  · exact ChunkHandle.charge_nonneg _
  · exact PackedPage.charge_nonneg _
  · exact PackedPage.charge_nonneg _
  · exact le_refl 0

/-! ## The counters follow the accesses -/

lemma value_pool {p : PoolId} {a : PoolAccess} {z : ℤ} (hz : (s.value k : ℤ) = z % size64) :
    (({ s with pools := Function.update s.pools p (a.exec (s.pools p)) } : State).value k : ℤ) =
      (z + poolDelta k p a) % size64 := by
  cases k with
  | poolPagesInUse q =>
      apply cast_update_emod (g := PoolStats.pagesInUse) hz
      · rintro rfl hself
        cases a with
        | addPagesInUse => simpa [poolDelta, PoolAccess.exec] using cast_fetchAdd_emod hself 1
        | subPagesInUse =>
            simpa [poolDelta, PoolAccess.exec, sub_eq_add_neg] using cast_fetchSub_emod hself 1
        | _ => simpa [poolDelta, PoolAccess.exec] using hself
      · intro hpq
        cases a <;> simp [poolDelta, hpq]
  | _ => cases a <;> simpa [State.value, poolDelta] using hz

/-- The peak is not one of the counters: both outcomes of its store keep them. -/
lemma storePeak_exec (st : TenantStats) (r : RecordLocals) :
    (TenantAccess.storePeak.exec (st, r)).1 =
      { st with peakBytesInUse := (TenantAccess.storePeak.exec (st, r)).1.peakBytesInUse } := by
  simp only [TenantAccess.exec]
  split <;> rfl

lemma value_tenant {u : ℕ} {a : TenantAccess} {r : RecordLocals} {z : ℤ}
    (hz : (s.value k : ℤ) = z % size64) :
    (({ s with tenants :=
      Function.update s.tenants u (a.exec (s.tenants u, r)).1 } : State).value k : ℤ) =
      (z + tenantDelta k u a) % size64 := by
  cases k with
  | tenantBytesInUse v =>
      apply cast_update_emod (g := TenantStats.bytesInUse) hz
      · rintro rfl hself
        cases a with
        | addBytesInUse n =>
            simpa [tenantDelta, TenantAccess.exec] using cast_fetchAdd_emod hself n
        | subBytesInUse n =>
            simpa [tenantDelta, TenantAccess.exec, sub_eq_add_neg] using cast_fetchSub_emod hself n
        | storePeak => rw [storePeak_exec]; simpa [tenantDelta] using hself
        | _ => simpa [tenantDelta, TenantAccess.exec] using hself
      · intro huv
        cases a <;> simp [tenantDelta, huv]
  | tenantPagesInUse v =>
      apply cast_update_emod (g := TenantStats.pagesInUse) hz
      · rintro rfl hself
        cases a with
        | addPagesInUse =>
            simpa [tenantDelta, TenantAccess.exec] using cast_fetchAdd_emod hself 1
        | subPagesInUse =>
            simpa [tenantDelta, TenantAccess.exec, sub_eq_add_neg] using cast_fetchSub_emod hself 1
        | storePeak => rw [storePeak_exec]; simpa [tenantDelta] using hself
        | _ => simpa [tenantDelta, TenantAccess.exec] using hself
      · intro huv
        cases a <;> simp [tenantDelta, huv]
  | tenantChunksInUse v =>
      apply cast_update_emod (g := TenantStats.chunksInUse) hz
      · rintro rfl hself
        cases a with
        | addChunksInUse =>
            simpa [tenantDelta, TenantAccess.exec] using cast_fetchAdd_emod hself 1
        | subChunksInUse =>
            simpa [tenantDelta, TenantAccess.exec, sub_eq_add_neg] using cast_fetchSub_emod hself 1
        | storePeak => rw [storePeak_exec]; simpa [tenantDelta] using hself
        | _ => simpa [tenantDelta, TenantAccess.exec] using hself
      · intro huv
        cases a <;> simp [tenantDelta, huv]
  | _ => cases a <;> simpa [State.value, tenantDelta] using hz

lemma value_chunkPool {n : ℕ} {a : ChunkAccess} {z : ℤ} (hz : (s.value k : ℤ) = z % size64) :
    (({ s with chunkPools :=
      Function.update s.chunkPools n (a.exec (s.chunkPools n)) } : State).value k : ℤ) =
      (z + chunkDelta k n a) % size64 := by
  cases k with
  | chunksInUse m =>
      apply cast_update_emod (g := ChunkPoolStats.chunksInUse) hz
      · rintro rfl hself
        cases a with
        | addChunksInUse => simpa [chunkDelta, ChunkAccess.exec] using cast_fetchAdd_emod hself 1
        | subChunksInUse =>
            simpa [chunkDelta, ChunkAccess.exec, sub_eq_add_neg] using cast_fetchSub_emod hself 1
        | _ => simpa [chunkDelta, ChunkAccess.exec] using hself
      · intro hmn
        cases a <;> simp [chunkDelta, hmn]
  | oversizedBytesInUse m =>
      apply cast_update_emod (g := ChunkPoolStats.oversizedBytesInUse) hz
      · rintro rfl hself
        cases a with
        | addOversizedBytesInUse b =>
            simpa [chunkDelta, ChunkAccess.exec] using cast_fetchAdd_emod hself b
        | subOversizedBytesInUse b =>
            simpa [chunkDelta, ChunkAccess.exec, sub_eq_add_neg] using cast_fetchSub_emod hself b
        | _ => simpa [chunkDelta, ChunkAccess.exec] using hself
      · intro hmn
        cases a <;> simp [chunkDelta, hmn]
  | _ => cases a <;> simpa [State.value, chunkDelta] using hz

@[simp] lemma value_resume : (s.resume i task code).value k = s.value k := by
  cases k <;> rfl

@[simp] lemma value_spawn {borrow : Option PoolId} : (s.spawn borrow code).value k = s.value k := by
  cases k <;> rfl

@[simp] lemma value_clonePacked {o : Option ℕ} : (s.clonePacked o).value k = s.value k := by
  unfold State.clonePacked
  split
  · rfl
  · split <;> cases k <;> rfl

/-- The value of every counter after an instruction. -/
lemma value_exec (i : ℕ) (task : Task) (rest : List Instr) (reply : Reply) (ins : Instr) {z : ℤ}
    (hz : (s.value k : ℤ) = z % size64) :
    ((exec s i task rest reply ins).value k : ℤ) = (z + ins.delta k) % size64 := by
  have hzero : (s.value k : ℤ) = (z + 0) % size64 := by rw [add_zero]; exact hz
  cases ins with
  | pool p a => exact value_pool hz
  | tenant u a => exact value_tenant hz
  | chunkPool n a => exact value_chunkPool hz
  | takeBuffer p =>
      simp only [exec]
      split <;> exact hzero
  | sourceAllocate =>
      simp only [exec]
      split <;> exact hzero
  | findPage n u size =>
      simp only [exec]
      split
      · exact hzero
      · split
        · rw [value_resume, value_clonePacked]
          exact hzero
        · cases k <;> exact hzero
  | heapPage n u size =>
      simp only [exec]
      split <;> cases k <;> exact hzero
  | dropPacked id =>
      simp only [exec]
      split
      · exact hzero
      · split <;> cases k <;> exact hzero
  | openPage n => cases k <;> exact hzero
  | dedicatePage n u size => cases k <;> exact hzero
  | returnPage h => cases k <;> exact hzero
  | returnChunk h => cases k <;> exact hzero

/-! ## Sound code -/

/-- A chunk request carried by the instruction is below `2 ^ 32`. -/
def Instr.Small : Instr → Prop
  | .findPage _ _ size | .dedicatePage _ _ size | .heapPage _ _ size => size < size32
  | _ => True

/-- An access to a counter cannot panic and brings nothing to life. -/
def Instr.IsAccess : Instr → Prop
  | .pool _ _ | .tenant _ _ | .chunkPool _ _ => True
  | _ => False

variable (pageSize) in
/-- What a task owes at the instruction `ins` is not negative and at most what it has in hand, and
behind anything but an access it owes nothing. -/
structure SoundAt (ins : Instr) (rest : List Instr) : Prop where
  nonneg : ∀ k, 0 ≤ pending pageSize k (ins :: rest)
  le_inHand : ∀ k, pending pageSize k (ins :: rest) ≤ inHand pageSize (ins :: rest) + 1
  clear : ¬ ins.IsAccess → ∀ k, pending pageSize k rest = 0
  small : ins.Small

variable (pageSize) in
/-- Sound at every instruction. -/
def Sound : List Instr → Prop
  | [] => True
  | ins :: rest => SoundAt pageSize ins rest ∧ Sound rest

lemma Sound.pending_nonneg (h : Sound pageSize code) : 0 ≤ pending pageSize k code := by
  cases code with
  | nil => exact le_refl 0
  | cons ins rest => exact h.1.nonneg k

lemma Sound.pending_le_inHand (h : Sound pageSize code) :
    pending pageSize k code ≤ inHand pageSize code + 1 := by
  cases code with
  | nil => exact Int.le_add_one (le_refl 0)
  | cons ins rest => exact h.1.le_inHand k

lemma Instr.IsAccess.carries_eq (h : ins.IsAccess) : ins.carries pageSize k = 0 := by
  cases ins <;> first | rfl | exact h.elim

lemma Instr.IsAccess.not_canPanic (h : ins.IsAccess) : ¬ ins.CanPanic := by
  cases ins <;> first | exact id | exact h.elim

lemma Instr.IsAccess.small (h : ins.IsAccess) : ins.Small := by
  cases ins <;> trivial

lemma Instr.CanPanic.not_isAccess (h : ins.CanPanic) : ¬ ins.IsAccess := fun hacc =>
  hacc.not_canPanic h

lemma Instr.CanPanic.carries_eq (h : ins.CanPanic) : ins.carries pageSize k = 0 := by
  cases ins <;> first | rfl | exact h.elim

lemma Instr.delta_eq_zero (h : ¬ ins.IsAccess) : ins.delta k = 0 := by
  cases ins <;> first | rfl | exact absurd trivial h

lemma inHand_cons (h : ¬ ins.CanPanic) :
    inHand pageSize (ins :: rest) = max (ins.bytes pageSize) (inHand pageSize rest) := if_neg h

lemma PageHandle.charge_le (h : PageHandle) : h.charge pageSize k ≤ h.bytes pageSize + 1 := by
  unfold PageHandle.charge PageHandle.bytes
  cases k <;> grind

lemma ChunkHandle.charge_le (h : ChunkHandle) : h.charge k ≤ h.bytes + 1 := by
  unfold ChunkHandle.charge ChunkHandle.bytes
  cases k <;> grind

lemma PackedPage.charge_le (q : PackedPage) : q.charge k ≤ 1 := by
  unfold PackedPage.charge
  split
  · split_ifs <;> omega
  · omega

/-- What is brought to life is in hand. -/
lemma Instr.carries_le (ins : Instr) :
    ins.carries pageSize k ≤ inHand pageSize (ins :: rest) + 1 := by
  by_cases hp : ins.CanPanic
  · rw [hp.carries_eq]
    omega
  · have hle : ins.carries pageSize k ≤ ins.bytes pageSize + 1 := by
      cases ins with
      | returnPage h => exact h.charge_le
      | returnChunk h => exact h.charge_le
      | openPage n | dedicatePage n u size =>
          simpa [Instr.carries, Instr.bytes] using PackedPage.charge_le _
      | _ => exact Int.le_add_one (Int.natCast_nonneg _)
    rw [inHand_cons hp]
    omega

/-- Instructions other than accesses, with nothing owed behind them. -/
lemma Sound.clear (hnot : ¬ ins.IsAccess) (hsmall : ins.Small)
    (h0 : ∀ k, pending pageSize k code = 0) (h : Sound pageSize code) :
    Sound pageSize (ins :: code) := by
  have hk : ∀ k, pending pageSize k (ins :: code) = ins.carries pageSize k := by
    intro k
    rw [pending_cons, h0 k, Instr.delta_eq_zero hnot]
    omega
  refine ⟨⟨fun k => ?_, fun k => ?_, fun _ => h0, hsmall⟩, h⟩
  · rw [hk k]
    exact ins.carries_nonneg
  · rw [hk k]
    exact ins.carries_le

/-- Where the code can panic it owes nothing. -/
lemma SoundAt.pending_eq_zero (h : SoundAt pageSize ins rest) (hp : ins.CanPanic) :
    pending pageSize k (ins :: rest) = 0 := by
  rw [pending_cons, h.clear hp.not_isAccess k, hp.carries_eq, Instr.delta_eq_zero hp.not_isAccess]
  rfl

/-- Increments before sound code are sound if the whole owes nothing negative: every increment
already made is owed by what follows. -/
lemma Sound.increments {a : List Instr} (ha : ∀ ins ∈ a, ins.IsAccess ∧ ∀ k, 0 ≤ ins.delta k)
    (hall : ∀ k, 0 ≤ pending pageSize k (a ++ code)) (h : Sound pageSize code) :
    Sound pageSize (a ++ code) := by
  induction a with
  | nil => exact h
  | cons ins a ih =>
      obtain ⟨hacc, hdelta⟩ := ha ins List.mem_cons_self
      have hk : ∀ k, pending pageSize k (ins :: (a ++ code)) =
          pending pageSize k (a ++ code) - ins.delta k := by
        intro k
        rw [pending_cons, hacc.carries_eq]
        omega
      have htail : Sound pageSize (a ++ code) := by
        refine ih (fun ins hmem => ha ins (List.mem_cons_of_mem _ hmem)) fun k => ?_
        have hnonneg := hall k
        rw [List.cons_append, hk k] at hnonneg
        have := hdelta k
        omega
      have hle : ∀ k, pending pageSize k (ins :: (a ++ code)) ≤
          inHand pageSize (ins :: (a ++ code)) + 1 := by
        intro k
        rw [hk k, inHand_cons hacc.not_canPanic]
        have := hdelta k
        have := htail.pending_le_inHand (k := k)
        omega
      exact ⟨⟨hall, hle, fun hnot => absurd hacc hnot, hacc.small⟩, htail⟩

/-- A decrement is by at most the bytes in hand. -/
lemma Instr.neg_delta_le : -ins.delta k ≤ ins.bytes pageSize + 1 := by
  cases ins with
  | pool p a => cases a <;> grind [Instr.delta, poolDelta]
  | tenant u a => cases a <;> grind [Instr.delta, tenantDelta, Instr.bytes]
  | chunkPool n a => cases a <;> grind [Instr.delta, chunkDelta, Instr.bytes]
  | _ => grind [Instr.delta]

/-- A decrement of counters that the code behind it does not owe any more. -/
lemma Sound.decrement (hacc : ins.IsAccess) (hdelta : ∀ k, ins.delta k ≤ 0)
    (honce : ∀ k, ins.delta k = 0 ∨ pending pageSize k code = 0) (h : Sound pageSize code) :
    Sound pageSize (ins :: code) := by
  refine ⟨⟨fun k => ?_, fun k => ?_, fun hnot => absurd hacc hnot, hacc.small⟩, h⟩
  · rw [pending_cons, hacc.carries_eq]
    have := hdelta k
    have := h.pending_nonneg (k := k)
    omega
  · rw [pending_cons, hacc.carries_eq, inHand_cons hacc.not_canPanic]
    have hcode := h.pending_le_inHand (k := k)
    have hbytes : -ins.delta k ≤ ins.bytes pageSize + 1 := Instr.neg_delta_le
    rcases honce k with hzero | hzero
    · omega
    · omega

/-- Accesses to counters that are not among the six. -/
lemma Sound.untracked {a : List Instr} (ha : ∀ ins ∈ a, ins.IsAccess ∧ ∀ k, ins.delta k = 0)
    (h : Sound pageSize code) : Sound pageSize (a ++ code) := by
  induction a with
  | nil => exact h
  | cons ins a ih =>
      obtain ⟨hacc, hdelta⟩ := ha ins List.mem_cons_self
      exact (ih fun ins hmem => ha ins (List.mem_cons_of_mem _ hmem)).decrement hacc
        (fun k => (hdelta k).le) fun k => Or.inl (hdelta k)

lemma Sound.dropPacked {id : ℕ} (h0 : ∀ k, pending pageSize k code = 0)
    (h : Sound pageSize code) : Sound pageSize (.dropPacked id :: code) :=
  h.clear not_false trivial h0

lemma Sound.dropOptional {o : Option ℕ} (h0 : ∀ k, pending pageSize k code = 0)
    (h : Sound pageSize code) : Sound pageSize (dropOptional o ++ code) := by
  cases o with
  | none => exact h
  | some id => exact h.dropPacked h0

lemma sound_dropOptional {o : Option ℕ} : Sound pageSize (dropOptional o) := by
  have hdrop : Sound pageSize (dropOptional o ++ []) := Sound.dropOptional (fun _ => rfl) trivial
  rwa [List.append_nil] at hdrop

lemma pending_dropOptional {o : Option ℕ} : pending pageSize k (dropOptional o) = 0 := by
  cases o <;> rfl

lemma Sound.findPage {n u size : ℕ} (hsize : size < size32)
    (h0 : ∀ k, pending pageSize k code = 0) (h : Sound pageSize code) :
    Sound pageSize (.findPage n u size :: code) := h.clear not_false hsize h0

/-! ### The code of each function -/

/-- A raw page is owed to the object that will hold it. -/
lemma Sound.allocateRawPage {p : PoolId}
    (hk : ∀ k, pending pageSize k code = if k = .poolPagesInUse p then 1 else 0)
    (h : Sound pageSize code) : Sound pageSize (allocateRawPage p ++ code) := by
  have hadd : ∀ k, pending pageSize k (.pool p .addPagesInUse :: code) = 0 := by
    intro k
    rw [pending_cons, hk k]
    simp [Instr.carries, Instr.delta, poolDelta]
  have hraw : Sound pageSize ([.pool p .addPagesInUse] ++ code) := by
    refine h.increments (fun ins hmem => ?_) fun k => (hadd k).ge
    obtain rfl := List.mem_singleton.1 hmem
    refine ⟨trivial, fun k => ?_⟩
    simp only [Instr.delta, poolDelta]
    split_ifs <;> omega
  exact hraw.clear not_false trivial hadd

lemma pending_pushReturn {p : PoolId} :
    pending pageSize k (pushReturn p) = if k = .poolPagesInUse p then 1 else 0 := by
  by_cases hk : k = .poolPagesInUse p <;>
    simp [pending, pushReturn, Instr.carries, Instr.delta, poolDelta, hk]

lemma Sound.pushReturn {p : PoolId} (h0 : ∀ k, pending pageSize k code = 0)
    (h : Sound pageSize code) : Sound pageSize (pushReturn p ++ code) := by
  have hadd : Sound pageSize ([.pool p (.addFreePages 1)] ++ code) := by
    refine h.untracked fun ins hmem => ?_
    obtain rfl := List.mem_singleton.1 hmem
    exact ⟨trivial, fun k => rfl⟩
  refine hadd.decrement trivial (fun k => ?_) fun k => Or.inr ?_
  · simp only [Instr.delta, poolDelta]
    split_ifs <;> omega
  · show pending pageSize k ([.pool p (.addFreePages 1)] ++ code) = 0
    rw [pending_append, h0 k]
    rfl

lemma pending_releasePacked {q : PackedPage} :
    pending pageSize k (releasePacked q.release) = q.charge k := by
  unfold releasePacked PackedPage.charge
  cases q.release with
  | pool n => exact pending_pushReturn
  | heap => rfl

lemma Sound.releasePacked {r : Release} (h0 : ∀ k, pending pageSize k code = 0)
    (h : Sound pageSize code) : Sound pageSize (releasePacked r ++ code) := by
  cases r with
  | pool n => exact h.pushReturn h0
  | heap => exact h

lemma pending_releasePage (h : PageHandle) :
    pending pageSize k (releasePage (pageSize (.page h.pool)) h) = h.charge pageSize k := by
  rw [releasePage, pending_append, pending_pushReturn]
  simp only [pending, TenantAccess.recordRelease, List.map_cons, List.map_nil, List.sum_cons,
    List.sum_nil, Instr.carries, Instr.delta, tenantDelta, PageHandle.charge]
  split_ifs <;> omega

lemma sound_releasePage (n : ℕ) (h : PageHandle) : Sound pageSize (releasePage n h) := by
  have hpush : Sound pageSize (pushReturn (.page h.pool) ++ []) :=
    Sound.pushReturn (fun _ => rfl) trivial
  rw [List.append_nil] at hpush
  have hpages : Sound pageSize (.tenant h.tenant .subPagesInUse :: pushReturn (.page h.pool)) := by
    refine hpush.decrement trivial (fun k => ?_) fun k => ?_
    · simp only [Instr.delta, tenantDelta]
      split_ifs <;> omega
    · rw [pending_pushReturn]
      cases k <;> simp [Instr.delta, tenantDelta]
  have hbytes : Sound pageSize (.tenant h.tenant (.subBytesInUse n) ::
      .tenant h.tenant .subPagesInUse :: pushReturn (.page h.pool)) := by
    refine hpages.decrement trivial (fun k => ?_) fun k => ?_
    · simp only [Instr.delta, tenantDelta]
      split_ifs <;> omega
    · rw [pending_cons, pending_pushReturn]
      cases k <;> simp [Instr.carries, Instr.delta, tenantDelta]
  exact hbytes

lemma sound_allocatePage (n u : ℕ) :
    Sound pageSize (allocatePage (pageSize (.page n)) n u) := by
  rw [allocatePage, List.append_assoc]
  have hk : ∀ k, pending pageSize k
      ((TenantAccess.recordAllocate (pageSize (.page n))).map (.tenant u) ++
        [.returnPage ⟨n, u, .builder⟩]) = if k = .poolPagesInUse (.page n) then 1 else 0 := by
    intro k
    simp only [pending, TenantAccess.recordAllocate, TenantAccess.updatePeak, List.cons_append,
      List.nil_append, List.map_cons, List.map_nil, List.sum_cons, List.sum_nil, Instr.carries,
      Instr.delta, tenantDelta, PageHandle.charge]
    split_ifs <;> omega
  refine Sound.allocateRawPage hk (Sound.increments ?_ ?_ ?_)
  · intro ins hmem
    simp only [TenantAccess.recordAllocate, TenantAccess.updatePeak, List.cons_append,
      List.nil_append, List.map_cons, List.map_nil, List.mem_cons, List.not_mem_nil,
      or_false] at hmem
    rcases hmem with rfl | rfl | rfl | rfl | rfl <;> refine ⟨trivial, fun k => ?_⟩ <;>
      simp only [Instr.delta, tenantDelta, le_refl] <;> split_ifs <;> omega
  · intro k
    rw [hk k]
    split_ifs <;> omega
  · exact Sound.clear not_false trivial (fun _ => rfl) trivial

lemma pending_chunkAccesses (n : ℕ) (path : List ChunkAccess) :
    pending pageSize k (path.map (.chunkPool n)) = -(path.map (chunkDelta k n)).sum := by
  induction path with
  | nil => rfl
  | cons a path ih =>
      rw [List.map_cons, pending_cons, ih, List.map_cons, List.sum_cons]
      simp only [Instr.carries, Instr.delta]
      ring

/-- The builder of a chunk takes over exactly what its allocation has charged, if its capacity
is the requested size and its path has charged its oversized bytes. -/
lemma pending_returnBuilder {size : ℕ} {path : List ChunkAccess} {h : ChunkHandle}
    (hcap : h.capacity = size)
    (hpath : ∀ k, (path.map (chunkDelta k h.pool)).sum =
      if k = .oversizedBytesInUse h.pool then (h.oversizedBytes : ℤ) else 0) :
    pending pageSize k (returnBuilder size path h) = 0 := by
  rw [returnBuilder, pending_append, pending_append, pending_chunkAccesses, List.map_cons,
    List.map_cons, List.sum_cons, List.sum_cons, hpath k, ← hcap]
  simp only [pending, TenantAccess.recordChunkAllocate, TenantAccess.updatePeak,
    List.cons_append, List.nil_append, List.map_cons, List.map_nil, List.sum_cons, List.sum_nil,
    Instr.carries, Instr.delta, tenantDelta, chunkDelta, ChunkHandle.charge]
  ring

lemma sound_returnBuilder {size : ℕ} {path : List ChunkAccess} {h : ChunkHandle}
    (hcap : h.capacity = size)
    (hpath : ∀ k, (path.map (chunkDelta k h.pool)).sum =
      if k = .oversizedBytesInUse h.pool then (h.oversizedBytes : ℤ) else 0)
    (hadds : ∀ a ∈ path, ∀ k, 0 ≤ chunkDelta k h.pool a) (h0 : ∀ k, pending pageSize k code = 0)
    (hcode : Sound pageSize code) : Sound pageSize (returnBuilder size path h ++ code) := by
  have hlast : Sound pageSize (.returnChunk h :: code) := hcode.clear not_false trivial h0
  have hall : ∀ k, 0 ≤ pending pageSize k (returnBuilder size path h ++ code) := by
    intro k
    rw [pending_append, pending_returnBuilder hcap hpath, zero_add]
    exact hcode.pending_nonneg
  rw [returnBuilder, List.append_assoc] at hall ⊢
  refine hlast.increments ?_ hall
  intro ins hmem
  simp only [TenantAccess.recordChunkAllocate, TenantAccess.updatePeak, List.cons_append,
    List.nil_append, List.map_cons, List.map_nil, List.mem_cons, List.mem_map] at hmem
  rcases hmem with rfl | rfl | rfl | rfl | rfl | rfl | rfl | ⟨a, ha, rfl⟩
  case inr.inr.inr.inr.inr.inr.inr => exact ⟨trivial, hadds a ha⟩
  all_goals
    refine ⟨trivial, fun k => ?_⟩
    simp only [Instr.delta, tenantDelta, chunkDelta, le_refl]
  all_goals split_ifs <;> omega

lemma pending_releaseChunk (h : ChunkHandle) :
    pending pageSize k (releaseChunk h) = h.charge k := by
  rw [releaseChunk, pending_append, pending_append, pending_dropOptional]
  by_cases hov : h.oversizedBytes > 0
  · simp only [hov, if_true, pending, TenantAccess.recordChunkRelease, List.map_cons,
      List.map_nil, List.sum_cons, List.sum_nil, Instr.carries, Instr.delta, tenantDelta,
      chunkDelta, ChunkHandle.charge]
    split_ifs <;> omega
  · simp only [hov, if_false, pending, TenantAccess.recordChunkRelease, List.map_cons,
      List.map_nil, List.sum_cons, List.sum_nil, Instr.carries, Instr.delta, tenantDelta,
      chunkDelta, ChunkHandle.charge]
    split_ifs <;> omega

/-- The oversized bytes are the last that a chunk owes. -/
lemma sound_releaseOversized (h : ChunkHandle) :
    Sound pageSize ((if h.oversizedBytes > 0 then
      [.chunkPool h.pool (.subOversizedBytesInUse h.oversizedBytes)] else []) ++
        dropOptional h.packed) := by
  split
  · refine sound_dropOptional.decrement trivial (fun k => ?_) fun k => Or.inr pending_dropOptional
    simp only [Instr.delta, chunkDelta]
    split_ifs <;> omega
  · exact sound_dropOptional

lemma pending_releaseOversized (h : ChunkHandle) :
    pending pageSize k ((if h.oversizedBytes > 0 then
      [.chunkPool h.pool (.subOversizedBytesInUse h.oversizedBytes)] else []) ++
        dropOptional h.packed) =
      if k = .oversizedBytesInUse h.pool then (h.oversizedBytes : ℤ) else 0 := by
  rw [pending_append, pending_dropOptional]
  by_cases hov : h.oversizedBytes > 0
  · simp only [hov, if_true, pending, List.map_cons, List.map_nil, List.sum_cons, List.sum_nil,
      Instr.carries, Instr.delta, chunkDelta]
    split_ifs <;> omega
  · simp [hov]
    omega

/-- Each counter is decremented once. -/
lemma Sound.releaseChunk {h : ChunkHandle} (hk : ∀ k, pending pageSize k code =
    if k = .oversizedBytesInUse h.pool then (h.oversizedBytes : ℤ) else 0)
    (hcode : Sound pageSize code) :
    Sound pageSize (.tenant h.tenant (.subBytesInUse h.capacity) ::
      .tenant h.tenant .subChunksInUse :: .chunkPool h.pool .subChunksInUse :: code) := by
  have hpool : Sound pageSize (.chunkPool h.pool .subChunksInUse :: code) := by
    refine hcode.decrement trivial (fun k => ?_) fun k => ?_
    · simp only [Instr.delta, chunkDelta]
      split_ifs <;> omega
    · rw [hk k]
      cases k <;> simp [Instr.delta, chunkDelta]
  have htenant : Sound pageSize
      (.tenant h.tenant .subChunksInUse :: .chunkPool h.pool .subChunksInUse :: code) := by
    refine hpool.decrement trivial (fun k => ?_) fun k => ?_
    · simp only [Instr.delta, tenantDelta]
      split_ifs <;> omega
    · rw [pending_cons, hk k]
      cases k <;> simp [Instr.carries, Instr.delta, tenantDelta, chunkDelta]
  refine htenant.decrement trivial (fun k => ?_) fun k => ?_
  · simp only [Instr.delta, tenantDelta]
    split_ifs <;> omega
  · rw [pending_cons, pending_cons, hk k]
    cases k <;> simp [Instr.carries, Instr.delta, tenantDelta, chunkDelta]

lemma sound_releaseChunk (h : ChunkHandle) : Sound pageSize (releaseChunk h) :=
  Sound.releaseChunk (fun _ => pending_releaseOversized h) (sound_releaseOversized h)

/-- One page is opened or dedicated: it is owed by the instruction that wraps it. -/
lemma pending_openPage (n u size : ℕ) :
    pending pageSize k [.openPage n, .findPage n u size] =
      if k = .poolPagesInUse (.chunk n) then 1 else 0 := by
  simp [pending, Instr.carries, Instr.delta, PackedPage.charge]

lemma sound_retry {n u size : ℕ} (hsize : size < size32)
    (h0 : ∀ k, pending pageSize k code = 0) (h : Sound pageSize code) :
    Sound pageSize (allocateRawPage (.chunk n) ++ [.openPage n, .findPage n u size] ++ code) := by
  rw [List.append_assoc]
  have hfind := Sound.findPage (n := n) (u := u) hsize h0 h
  have hk : ∀ k, pending pageSize k ([.openPage n, .findPage n u size] ++ code) =
      if k = .poolPagesInUse (.chunk n) then 1 else 0 := by
    intro k
    rw [pending_append, h0 k, pending_openPage, add_zero]
  refine Sound.allocateRawPage hk ?_
  have hfind0 : ∀ k, pending pageSize k (.findPage n u size :: code) = 0 := by
    intro k
    rw [pending_cons, h0 k]
    rfl
  exact hfind.clear not_false trivial hfind0

lemma sound_allocateAligned {n u size align : ℕ} (hsize : size < size32) (ps : ℕ) :
    Sound pageSize (allocateAligned ps n u size align) := by
  unfold allocateAligned
  split
  · rw [← List.append_nil (allocateZero n u)]
    exact sound_returnBuilder rfl (by simp) (by simp) (fun _ => rfl) trivial
  · exact Sound.findPage hsize (fun _ => rfl) trivial
  · refine Sound.allocateRawPage (fun k => ?_) (Sound.clear not_false hsize (fun _ => rfl) trivial)
    simp [pending, Instr.carries, Instr.delta, PackedPage.charge]
  · exact Sound.clear not_false hsize (fun _ => rfl) trivial

lemma pending_allocatePage (n u : ℕ) :
    pending pageSize k (allocatePage (pageSize (.page n)) n u) = 0 :=
  (sound_allocatePage n u).1.pending_eq_zero trivial

lemma pending_allocateAligned (ps n u size align : ℕ) :
    pending pageSize k (allocateAligned ps n u size align) = 0 := by
  unfold allocateAligned
  split
  · exact pending_returnBuilder rfl (by simp)
  · rfl
  · simp [pending, allocateDedicated, allocateRawPage, Instr.carries, Instr.delta, poolDelta,
      PackedPage.charge]
  · rfl

/-! ## One step -/

/-- Cloning an `Arc` changes no charge. -/
lemma charged_clonePacked {o : Option ℕ} :
    (s.clonePacked o).charged pageSize k = s.charged pageSize k := by
  unfold State.clonePacked
  cases o with
  | none => rfl
  | some id =>
      dsimp only
      split
      · rfl
      · rename_i q hq
        have hsum := Arena.sum_set (f := PackedPage.charge k)
          (b := { q with strong := q.strong + 1 }) hq
        have hsame : PackedPage.charge k { q with strong := q.strong + 1 } = q.charge k := rfl
        unfold State.charged
        dsimp only
        omega

/-- Cloning an `Arc` touches nothing but its reference count. -/
lemma clonePacked_eq {o : Option ℕ} :
    s.clonePacked o = { s with packed := (s.clonePacked o).packed } := by
  unfold State.clonePacked
  cases o with
  | none => rfl
  | some id =>
      dsimp only
      split <;> rfl

variable (pageSize) in
/-- The instruction `ins` of task `i` leads from `s` to `t`: the task goes on with sound code, and
what the counter gains is what the charges and the debt of the task gain. -/
def Balanced (s : State) (i : ℕ) (ins : Instr) (rest : List Instr) (t : State) : Prop :=
  ∃ (s' : State) (task' : Task) (code' : List Instr),
    t = s'.resume i task' code' ∧ s'.tasks = s.tasks ∧ Sound pageSize code' ∧
    ∀ k, s'.charged pageSize k + pending pageSize k code' =
      s.charged pageSize k + pending pageSize k (ins :: rest) + ins.delta k

/-- Taking a buffer brings no page to life yet, and the counters it moves are not among the six. -/
lemma balanced_takeBuffer {p : PoolId} (hs : Sound pageSize (.takeBuffer p :: rest)) :
    Balanced pageSize s i (.takeBuffer p) rest (exec s i task rest reply (.takeBuffer p)) := by
  obtain ⟨hat, hrest⟩ := hs
  simp only [exec]
  split
  · refine ⟨_, _, _, rfl, rfl, ?_, ?_⟩
    · exact hrest.untracked (a := [.pool p .subFreePages])
        (by simp [Instr.IsAccess, Instr.delta, poolDelta])
    · intro k
      simp [pending_cons, Instr.carries, Instr.delta, poolDelta]
  · refine ⟨_, _, _, rfl, rfl, ?_, ?_⟩
    · exact hrest.untracked (a := [.pool p .addReturnQueueDrains, .pool p .subFreePages])
        (by simp [Instr.IsAccess, Instr.delta, poolDelta])
    · intro k
      simp [pending_cons, Instr.carries, Instr.delta, poolDelta]
  · refine ⟨_, _, _, rfl, rfl, ?_, ?_⟩
    · have hsource : Sound pageSize (.sourceAllocate :: rest) :=
        hrest.clear not_false trivial (hat.clear not_false)
      exact hsource.untracked (a := [.pool p (.addAllocationsFromHeap 1)])
        (by simp [Instr.IsAccess, Instr.delta, poolDelta])
    · intro k
      simp [pending_cons, Instr.carries, Instr.delta, poolDelta]

/-- A turn of the packed loop: no page is open, the open page has room, or it is retired. -/
lemma balanced_findPage {n u size : ℕ} (hs : Sound pageSize (.findPage n u size :: rest)) :
    Balanced pageSize s i (.findPage n u size) rest
      (exec s i task rest reply (.findPage n u size)) := by
  obtain ⟨hat, hrest⟩ := hs
  have h0 : ∀ k, pending pageSize k rest = 0 := hat.clear not_false
  have hpanic : ∀ k, pending pageSize k (.findPage n u size :: rest) = 0 := fun k =>
    hat.pending_eq_zero trivial
  have hretry := sound_retry (n := n) (u := u) hat.small h0 hrest
  have hk : ∀ k, pending pageSize k (allocateRawPage (.chunk n) ++
      [.openPage n, .findPage n u size] ++ rest) = 0 := by
    intro k
    rw [pending_append, pending_append, pending_openPage, h0 k]
    simp [pending, allocateRawPage, Instr.carries, Instr.delta, poolDelta]
  simp only [exec]
  split
  · refine ⟨_, _, _, rfl, rfl, hretry, ?_⟩
    intro k
    rw [hk k, hpanic k]
    simp [Instr.delta]
  · split
    · rename_i id _ _
      have hcap : truncate32 size = size := (truncate32_eq_iff size).2 hat.small
      have htasks : (s.clonePacked (some id)).tasks = s.tasks := by rw [clonePacked_eq]
      refine ⟨_, _, _, rfl, htasks,
        sound_returnBuilder hcap (by simp [chunkDelta]) (by simp [chunkDelta]) h0 hrest, ?_⟩
      intro k
      rw [charged_clonePacked, pending_append,
        pending_returnBuilder hcap (by simp [chunkDelta]), h0 k, hpanic k]
      simp [Instr.delta]
    · refine ⟨_, _, _, rfl, rfl, hretry.dropPacked hk, ?_⟩
      intro k
      rw [pending_cons, hk k, hpanic k]
      simp [State.charged, Instr.carries, Instr.delta]

/-- An oversized chunk owns its heap allocation: no pool page is charged for it. -/
lemma balanced_heapPage {n u size : ℕ} (hs : Sound pageSize (.heapPage n u size :: rest)) :
    Balanced pageSize s i (.heapPage n u size) rest
      (exec s i task rest reply (.heapPage n u size)) := by
  obtain ⟨hat, hrest⟩ := hs
  simp only [exec]
  split
  · refine ⟨_, _, _, rfl, rfl, trivial, ?_⟩
    intro k
    rw [hat.pending_eq_zero trivial]
    simp [Instr.delta]
  · have hcap : truncate32 size = size := (truncate32_eq_iff size).2 hat.small
    refine ⟨_, _, _, rfl, rfl,
      sound_returnBuilder hcap (by simp [chunkDelta]) ?_ (hat.clear not_false) hrest, ?_⟩
    · intro a ha k
      simp only [List.mem_cons, List.not_mem_nil, or_false] at ha
      rcases ha with rfl | rfl
      · exact le_refl 0
      · simp only [chunkDelta]
        split_ifs <;> omega
    · intro k
      rw [pending_append, pending_returnBuilder hcap (by simp [chunkDelta]), pending_cons]
      simp [State.charged, Arena.sum_push, Instr.carries, Instr.delta, PackedPage.charge]

/-- The last reference to a packed page moves its charge to the code that returns it. -/
lemma balanced_dropPacked {id : ℕ} (hs : Sound pageSize (.dropPacked id :: rest)) :
    Balanced pageSize s i (.dropPacked id) rest
      (exec s i task rest reply (.dropPacked id)) := by
  obtain ⟨hat, hrest⟩ := hs
  simp only [exec]
  split
  · refine ⟨_, _, _, rfl, rfl, hrest, ?_⟩
    intro k
    simp [pending_cons, Instr.carries, Instr.delta]
  · rename_i q hq
    split
    · refine ⟨_, _, _, rfl, rfl, hrest.releasePacked (hat.clear not_false), ?_⟩
      intro k
      have hsum := Arena.sum_erase (f := PackedPage.charge k) hq
      rw [pending_append, pending_releasePacked, pending_cons]
      simp only [State.charged, Instr.carries, Instr.delta]
      omega
    · refine ⟨_, _, _, rfl, rfl, hrest, ?_⟩
      intro k
      have hsum := Arena.sum_set (f := PackedPage.charge k)
        (b := { q with strong := q.strong - 1 }) hq
      have hsame : PackedPage.charge k { q with strong := q.strong - 1 } = q.charge k := rfl
      rw [pending_cons]
      simp only [State.charged, Instr.carries, Instr.delta]
      omega

/-- Everything an instruction can do to the charges and to what its task owes. -/
lemma exec_spec (s : State) (i : ℕ) (task : Task) (reply : Reply)
    (hs : Sound pageSize (ins :: rest)) :
    Balanced pageSize s i ins rest (exec s i task rest reply ins) := by
  have hsound := hs
  obtain ⟨hat, hrest⟩ := hs
  cases ins with
  | takeBuffer p => exact balanced_takeBuffer hsound
  | findPage n u size => exact balanced_findPage hsound
  | heapPage n u size => exact balanced_heapPage hsound
  | dropPacked id => exact balanced_dropPacked hsound
  | pool _ _ | tenant _ _ | chunkPool _ _ =>
      refine ⟨_, _, _, rfl, rfl, hrest, ?_⟩
      intro k
      simp only [State.charged, pending_cons, Instr.carries]
      ring
  | sourceAllocate =>
      simp only [exec]
      split
      · refine ⟨_, _, _, rfl, rfl, trivial, ?_⟩
        intro k
        rw [hat.pending_eq_zero trivial]
        simp [Instr.delta]
      · refine ⟨_, _, _, rfl, rfl, hrest, ?_⟩
        intro k
        simp [pending_cons, Instr.carries, Instr.delta]
  | openPage n =>
      refine ⟨_, _, _, rfl, rfl, hrest.dropOptional (hat.clear not_false), ?_⟩
      intro k
      rw [pending_append, pending_dropOptional, pending_cons]
      simp only [State.charged, Arena.sum_push, Instr.carries, Instr.delta]
      ring
  | dedicatePage n u size =>
      have hcap : truncate32 size = size := (truncate32_eq_iff size).2 hat.small
      refine ⟨_, _, _, rfl, rfl, sound_returnBuilder hcap (by simp [chunkDelta])
        (by simp [chunkDelta]) (hat.clear not_false) hrest, ?_⟩
      intro k
      rw [pending_append, pending_returnBuilder hcap (by simp [chunkDelta]), pending_cons]
      simp only [State.charged, Arena.sum_push, Instr.carries, Instr.delta]
      ring
  | returnPage _ | returnChunk _ =>
      refine ⟨_, _, _, rfl, rfl, hrest, ?_⟩
      intro k
      rw [pending_cons]
      simp only [State.charged, Arena.sum_push, Instr.carries, Instr.delta]
      ring

/-! ## The invariant -/

variable (pageSize) in
/-- Every task runs sound code, and every counter is the sum of the charges of the live objects
and of what the tasks owe. -/
structure Accounted (s : State) : Prop where
  sound : ∀ j τ, s.tasks.get j = some τ → Sound pageSize τ.code
  value_eq : ∀ k, (s.value k : ℤ) = (s.charged pageSize k + s.owed pageSize k) % size64

lemma accounted_init : Accounted pageSize init where
  sound j τ h := by simp [init] at h
  value_eq k := by
    cases k <;> simp [init, State.value, State.charged, State.owed, PoolStats.default,
      TenantStats.default, ChunkPoolStats.default]

/-- A change of the objects that keeps the charges. -/
lemma Accounted.of_charged_eq {s' : State} (hs : Accounted pageSize s)
    (htasks : s'.tasks = s.tasks) (hval : ∀ k, s'.value k = s.value k)
    (hk : ∀ k, s'.charged pageSize k = s.charged pageSize k) : Accounted pageSize s' := by
  refine ⟨?_, fun k => ?_⟩
  · rw [htasks]
    exact hs.sound
  · unfold State.owed
    rw [hval, htasks, hk]
    exact hs.value_eq k

/-- Entering a function whose code owes the charges it takes from the live objects. -/
lemma Accounted.spawn {s' : State} {borrow : Option PoolId} (hs : Accounted pageSize s)
    (htasks : s'.tasks = s.tasks) (hval : ∀ k, s'.value k = s.value k)
    (hcode : Sound pageSize code)
    (hk : ∀ k, s'.charged pageSize k + pending pageSize k code = s.charged pageSize k) :
    Accounted pageSize (s'.spawn borrow code) := by
  refine ⟨fun j τ hj => ?_, fun k => ?_⟩
  · simp only [State.spawn, Arena.get_push, htasks] at hj
    split at hj
    · obtain rfl := Option.some.inj hj
      exact hcode
    · exact hs.sound j τ hj
  · have howed : (s'.spawn borrow code).owed pageSize k =
        s.owed pageSize k + pending pageSize k code := by
      simp only [State.owed, State.spawn, Arena.sum_push, htasks]
    have hcharged : (s'.spawn borrow code).charged pageSize k = s'.charged pageSize k := rfl
    rw [value_spawn, hval, hs.value_eq k, howed, hcharged, ← hk k]
    congr 1
    ring

/-- Leaving or going on in a function. -/
lemma owed_resume {s' : State} {task' : Task} (htasks : s'.tasks = s.tasks)
    (h : s.tasks.get i = some task) :
    (s'.resume i task' code).owed pageSize k + pending pageSize k task.code =
      s.owed pageSize k + pending pageSize k code := by
  unfold State.owed State.resume
  by_cases hnil : code = []
  · subst hnil
    have hsum := Arena.sum_erase (f := fun τ : Task => pending pageSize k τ.code) h
    simp only [if_true, htasks, pending_nil, add_zero]
    exact hsum
  · have hsum := Arena.sum_set (f := fun τ : Task => pending pageSize k τ.code)
      (b := { task' with code := code }) h
    simp only [hnil, if_false, htasks]
    exact hsum

lemma Accounted.exec (hs : Accounted pageSize s) (h : s.tasks.get i = some task)
    (hcode : task.code = ins :: rest) :
    Accounted pageSize (exec s i task rest reply ins) := by
  have hsound := hs.sound i task h
  rw [hcode] at hsound
  have hvalue := fun k => value_exec i task rest reply ins (hs.value_eq k)
  obtain ⟨s', task', code', heq, htasks, hcode', hk⟩ := exec_spec s i task reply hsound
  rw [heq] at hvalue ⊢
  refine ⟨fun j τ hj => ?_, fun k => ?_⟩
  · simp only [State.resume, htasks] at hj
    split at hj
    · exact hs.sound j τ (Arena.get_of_get_erase hj).2
    · rw [Arena.get_set h] at hj
      split at hj
      · obtain rfl := Option.some.inj hj
        exact hcode'
      · exact hs.sound j τ hj
  · rw [hvalue k]
    have howed : (s'.resume i task' code').owed pageSize k + pending pageSize k task.code =
        s.owed pageSize k + pending pageSize k code' := owed_resume htasks h
    have hcharged : (s'.resume i task' code').charged pageSize k = s'.charged pageSize k := rfl
    have := hk k
    rw [hcode] at howed
    rw [hcharged]
    congr 1
    omega

/-- A change of the reference count of a page changes no charge. -/
lemma charged_set_page {h h' : PageHandle} (hget : s.pages.get i = some h)
    (hpool : h'.pool = h.pool) (htenant : h'.tenant = h.tenant) :
    ({ s with pages := s.pages.set i h' } : State).charged pageSize k = s.charged pageSize k := by
  have hsum := Arena.sum_set (f := PageHandle.charge pageSize k) (b := h') hget
  have hsame : h'.charge pageSize k = h.charge pageSize k := by
    unfold PageHandle.charge
    rw [hpool, htenant]
  unfold State.charged
  dsimp only
  omega

/-- A change of the reference count of a chunk changes no charge. -/
lemma charged_set_chunk {h : ChunkHandle} {r : Refs} (hget : s.chunks.get i = some h) :
    ({ s with chunks := s.chunks.set i { h with refs := r } } : State).charged pageSize k =
      s.charged pageSize k := by
  have hsum := Arena.sum_set (f := ChunkHandle.charge k) (b := { h with refs := r }) hget
  have hsame : ChunkHandle.charge k { h with refs := r } = h.charge k := rfl
  unfold State.charged
  dsimp only
  omega

/-- The chunk requests of the run are below `2 ^ 32` bytes. -/
def Event.Small : Event → Prop
  | .allocateChunk _ _ size _ => size < size32
  | _ => True

lemma Accounted.step (hs : Accounted pageSize s) (hsmall : e.Small)
    (h : step pageSize s e = some t) : Accounted pageSize t := by
  cases e with
  | allocatePage n u =>
      simp only [HandleInterleaving.step, Option.ite_none_right_eq_some] at h
      obtain rfl := Option.some.inj h.2
      refine hs.spawn rfl (fun _ => rfl) (sound_allocatePage n u) ?_
      intro k
      rw [pending_allocatePage, add_zero]
  | allocateChunk n u size align =>
      simp only [HandleInterleaving.step, Option.ite_none_right_eq_some] at h
      obtain rfl := Option.some.inj h.2
      refine hs.spawn rfl (fun _ => rfl) (sound_allocateAligned hsmall _) ?_
      intro k
      rw [pending_allocateAligned, add_zero]
  | sealPage i =>
      simp only [HandleInterleaving.step] at h
      split at h
      · rename_i n u hget
        obtain rfl := Option.some.inj h
        exact hs.of_charged_eq rfl (fun k => by cases k <;> rfl)
          fun k => charged_set_page hget rfl rfl
      · exact absurd h (by simp)
  | clonePage i =>
      simp only [HandleInterleaving.step] at h
      split at h
      · rename_i n u c hget
        obtain rfl := Option.some.inj h
        exact hs.of_charged_eq rfl (fun k => by cases k <;> rfl)
          fun k => charged_set_page hget rfl rfl
      · exact absurd h (by simp)
  | dropPage i =>
      simp only [HandleInterleaving.step] at h
      split at h
      · exact absurd h (by simp)
      · rename_i hd hget
        split at h
        · obtain rfl := Option.some.inj h
          refine hs.spawn rfl (fun k => by cases k <;> rfl) (sound_releasePage _ hd) ?_
          intro k
          have hsum := Arena.sum_erase (f := PageHandle.charge pageSize k) hget
          rw [pending_releasePage]
          unfold State.charged
          dsimp only
          omega
        · split at h
          · exact absurd h (by simp)
          · obtain rfl := Option.some.inj h
            exact hs.of_charged_eq rfl (fun k => by cases k <;> rfl)
              fun k => charged_set_page hget rfl rfl
  | sealChunk i =>
      simp only [HandleInterleaving.step] at h
      split at h
      · exact absurd h (by simp)
      · rename_i hd hget
        simp only [Option.ite_none_right_eq_some] at h
        obtain rfl := Option.some.inj h.2
        have hclone : (s.clonePacked hd.packed).chunks.get i = some hd := by
          rw [clonePacked_eq]
          exact hget
        refine hs.spawn ?_ (fun k => ?_) ?_ fun k => ?_
        · rw [clonePacked_eq]
        · rw [← value_clonePacked (s := s) (o := hd.packed)]
          cases k <;> rfl
        · exact sound_dropOptional
        · rw [pending_dropOptional, add_zero, charged_set_chunk hclone, charged_clonePacked]
  | cloneChunk i =>
      simp only [HandleInterleaving.step] at h
      split at h
      · exact absurd h (by simp)
      · rename_i hd hget
        split at h
        · exact absurd h (by simp)
        · obtain rfl := Option.some.inj h
          exact hs.of_charged_eq rfl (fun k => by cases k <;> rfl)
            fun k => charged_set_chunk hget
  | dropChunk i =>
      simp only [HandleInterleaving.step] at h
      split at h
      · exact absurd h (by simp)
      · rename_i hd hget
        split at h
        · obtain rfl := Option.some.inj h
          refine hs.spawn rfl (fun k => by cases k <;> rfl) (sound_releaseChunk hd) ?_
          intro k
          have hsum := Arena.sum_erase (f := ChunkHandle.charge k) hget
          rw [pending_releaseChunk]
          unfold State.charged
          dsimp only
          omega
        · split at h
          · exact absurd h (by simp)
          · obtain rfl := Option.some.inj h
            exact hs.of_charged_eq rfl (fun k => by cases k <;> rfl)
              fun k => charged_set_chunk hget
  | dropPool p =>
      simp only [HandleInterleaving.step, Option.ite_none_right_eq_some] at h
      obtain ⟨-, h⟩ := h
      cases p with
      | page n =>
          obtain rfl := Option.some.inj h
          exact hs.of_charged_eq rfl (fun k => by cases k <;> rfl) fun k => rfl
      | chunk n =>
          obtain rfl := Option.some.inj h
          refine hs.spawn rfl (fun k => by cases k <;> rfl) sound_dropOptional ?_
          intro k
          rw [pending_dropOptional, add_zero]
          rfl
  | task i reply =>
      simp only [HandleInterleaving.step] at h
      split at h
      · exact absurd h (by simp)
      · rename_i task hget
        split at h
        · exact absurd h (by simp)
        · rename_i ins rest hcode
          obtain rfl := Option.some.inj h
          exact hs.exec hget hcode

lemma accounted_run (h : run (HandleInterleaving.step pageSize) init es = some s)
    (hsmall : ∀ e ∈ es, e.Small) : Accounted pageSize s := by
  revert hsmall
  refine run_induction (P := fun es s => (∀ e ∈ es, e.Small) → Accounted pageSize s) ?_ ?_ h
  · exact fun _ => accounted_init
  · intro es s e t _ ih hstep hsmall
    have hs := ih fun e he => hsmall e (List.mem_append_left _ he)
    exact hs.step (hsmall e (by simp)) hstep

lemma Accounted.owed_nonneg (hs : Accounted pageSize s) : 0 ≤ s.owed pageSize k :=
  Arena.sum_nonneg fun j τ hj => (hs.sound j τ hj).pending_nonneg

lemma charged_nonneg : 0 ≤ s.charged pageSize k := by
  have h1 : 0 ≤ s.pages.sum (PageHandle.charge pageSize k) :=
    Arena.sum_nonneg fun _ _ _ => PageHandle.charge_nonneg _
  have h2 : 0 ≤ s.chunks.sum (ChunkHandle.charge k) :=
    Arena.sum_nonneg fun _ _ _ => ChunkHandle.charge_nonneg _
  have h3 : 0 ≤ s.packed.sum (PackedPage.charge k) :=
    Arena.sum_nonneg fun _ _ _ => PackedPage.charge_nonneg _
  unfold State.charged
  omega

/-- What a task owes before a decrement pays for the decrement. -/
lemma Accounted.decrement_le (hs : Accounted pageSize s) (h : s.tasks.get i = some task)
    (hcode : task.code = ins :: rest) : -ins.delta k ≤ s.owed pageSize k := by
  have hsound := hs.sound i task h
  have hle : pending pageSize k task.code ≤ s.owed pageSize k :=
    Arena.le_sum_int (f := fun τ : Task => pending pageSize k τ.code)
      (fun j τ hj => (hs.sound j τ hj).pending_nonneg) h
  rw [hcode] at hsound hle
  have hcarries : 0 ≤ ins.carries pageSize k := ins.carries_nonneg
  have hrest := hsound.2.pending_nonneg (k := k)
  rw [pending_cons] at hle
  omega

/-- A counter counts bytes that are in memory, or objects that are. -/
lemma Accounted.charged_add_owed_le (hs : Accounted pageSize s) :
    s.charged pageSize k + s.owed pageSize k ≤ s.memory pageSize := by
  have hpages := s.pages.sum_le_sum (f := PageHandle.charge pageSize k)
    (g := fun h => ((h.bytes pageSize + 1 : ℕ) : ℤ)) fun i h _ => h.charge_le
  have hchunks := s.chunks.sum_le_sum (f := ChunkHandle.charge k)
    (g := fun h => ((h.bytes + 1 : ℕ) : ℤ)) fun i h _ => h.charge_le
  have hpacked := s.packed.sum_le_sum (f := PackedPage.charge k)
    (g := fun _ => ((1 : ℕ) : ℤ)) fun i q _ => q.charge_le
  have htasks := s.tasks.sum_le_sum (f := fun τ : Task => pending pageSize k τ.code)
    (g := fun τ => ((inHand pageSize τ.code + 1 : ℕ) : ℤ))
    fun i τ hi => (hs.sound i τ hi).pending_le_inHand
  rw [← Arena.cast_sum] at hpages hchunks hpacked htasks
  unfold State.charged State.owed State.memory
  push_cast
  omega

/-- **The in-use counters.** In every reachable state, with chunk requests below `2 ^ 32` bytes,
every in-use counter is the sum of the charges of the live objects and of the charges whose
hand-out or decrement is pending, both of them non-negative, and no task is about to decrement
a counter by more than that sum: as long as the sum fits the word, no decrement wraps.  It does as
long as what has to be in memory fits the address space. -/
theorem inUse_counters_never_underflow
    (h : run (HandleInterleaving.step pageSize) init es = some s)
    (hsmall : ∀ e ∈ es, e.Small) (k : Counter) :
    (s.value k : ℤ) = (s.charged pageSize k + s.owed pageSize k) % size64 ∧
      0 ≤ s.charged pageSize k ∧ 0 ≤ s.owed pageSize k ∧
      s.charged pageSize k + s.owed pageSize k ≤ s.memory pageSize ∧
      ∀ i task ins rest, s.tasks.get i = some task → task.code = ins :: rest →
        -ins.delta k ≤ s.charged pageSize k + s.owed pageSize k ∧
        (s.charged pageSize k + s.owed pageSize k < size64 → -ins.delta k ≤ s.value k) := by
  have hs := accounted_run h hsmall
  have hcharged : 0 ≤ s.charged pageSize k := charged_nonneg
  have howed : 0 ≤ s.owed pageSize k := hs.owed_nonneg
  refine ⟨hs.value_eq k, hcharged, howed, hs.charged_add_owed_le, ?_⟩
  intro i task ins rest hget hcode
  have hle : -ins.delta k ≤ s.owed pageSize k := hs.decrement_le hget hcode
  refine ⟨by omega, fun hlt => ?_⟩
  rw [hs.value_eq k, Int.emod_eq_of_lt (by omega) hlt]
  omega

/-- A packed chunk of `10` bytes is allocated on a fresh page, sealed and handed to another
thread, which drops it and has released the bytes but not the chunk. -/
def handOffRun : List Event :=
  .allocateChunk 0 7 10 8 :: List.replicate 16 (.task 0 ⟨.source, true, false⟩) ++
    [.sealChunk 0, .task 1 ⟨.source, true, false⟩, .dropChunk 0, .task 2 ⟨.source, true, false⟩]

theorem inUse_counters_never_underflow_handOffRun :
    ∃ s, run (HandleInterleaving.step fun _ => 64) init handOffRun = some s ∧
      s.value (.tenantBytesInUse 7) = 0 ∧ s.value (.tenantChunksInUse 7) = 1 ∧
      (1 : ℤ) = (s.charged (fun _ => 64) (.tenantChunksInUse 7) +
        s.owed (fun _ => 64) (.tenantChunksInUse 7)) % size64 := by
  have hval : (run (HandleInterleaving.step fun _ => 64) init handOffRun).map (fun s =>
      (s.value (.tenantBytesInUse 7), s.value (.tenantChunksInUse 7))) = some (0, 1) := by
    decide +kernel
  obtain ⟨s, hs, hpair⟩ := Option.map_eq_some_iff.1 hval
  obtain ⟨hbytes, hchunks⟩ := Prod.mk.inj hpair
  have hmain := inUse_counters_never_underflow hs (by simp [handOffRun, Event.Small]; decide)
    (.tenantChunksInUse 7)
  rw [hchunks] at hmain
  exact ⟨s, hs, hbytes, hchunks, hmain.1⟩

end PagedAlloc.HandleInterleaving
