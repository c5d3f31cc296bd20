import PagedAlloc.Construction.Stats
import PagedAlloc.Framework.Transition
import Mathlib.Data.Multiset.MapFold

/-!
# One `TenantStats` under every interleaving

A `Tenant` is `Clone`, and its clones share one `TenantStats`.  Allocations on any pool charge
it through `record_allocate` and `record_chunk_allocate`; dropping the last reference to a page
or chunk, on any thread, releases the charge through `record_release` and
`record_chunk_release`.  This file is the step relation of that system: a state has the
counters, the `record_*` calls in flight with the accesses each still has to make, and the
charges of the live handles; an event either starts a call on a thread that is not inside one,
or executes the next access of a call.

A charge is released only once its allocation has returned, because no handle exists before
that.  An addition to `bytes_in_use` is enabled only if the sum fits a 64-bit word: the charged
buffers are disjoint parts of one address space.
-/

namespace PagedAlloc.TenantInterleaving

open Words Transition

/-- The two granularities a tenant is charged at. -/
inductive Kind
  | page
  | chunk
  deriving DecidableEq, Repr

/-- A `record_*` call with its argument. -/
inductive Call
  | allocate (kind : Kind) (bytes : ℕ)
  | release (kind : Kind) (bytes : ℕ)
  deriving DecidableEq, Repr

/-- The accesses of a call, in source order. -/
def Call.accesses : Call → List TenantAccess
  | .allocate .page n => TenantAccess.recordAllocate n
  | .allocate .chunk n => TenantAccess.recordChunkAllocate n
  | .release .page n => TenantAccess.recordRelease n
  | .release .chunk n => TenantAccess.recordChunkRelease n

/-- A call in progress: `rest` are the accesses it has still to make. -/
structure InFlight where
  thread : ℕ
  call : Call
  rest : List TenantAccess
  locals : RecordLocals
  deriving DecidableEq, Repr

/-- The counters, the calls in progress and the charges of the live handles. -/
structure State where
  stats : TenantStats
  calls : Multiset InFlight
  live : Multiset (Kind × ℕ)

/-- `Tenant::new`. -/
def init : State := ⟨TenantStats.default, 0, 0⟩

inductive Event
  /-- `thread` enters a `record_*` call. -/
  | start (thread : ℕ) (call : Call)
  /-- The call `c` makes its next access. -/
  | access (c : InFlight)
  deriving DecidableEq, Repr

/-- The sum of the charges stays below `2 ^ 64`. -/
def Fits (st : TenantStats) : TenantAccess → Prop
  | .addBytesInUse n => st.bytesInUse + n < size64
  | _ => True

instance (st : TenantStats) (a : TenantAccess) : Decidable (Fits st a) :=
  match a with
  | .addBytesInUse n => inferInstanceAs (Decidable (st.bytesInUse + n < size64))
  | .addTotalPagesAllocated | .addPagesInUse | .subPagesInUse | .addTotalChunksAllocated
  | .addChunksInUse | .subChunksInUse | .subBytesInUse _ | .loadPeak | .storePeak =>
      isTrue trivial

/-- The charge a returning call hands to its new handle, which is what the handle's drop will
release: a page keeps its size, a chunk its `capacity`, a `u32`. -/
def Call.handOut : Call → Multiset (Kind × ℕ)
  | .allocate .page n => {(.page, n)}
  | .allocate .chunk n => {(.chunk, truncate32 n)}
  | .release _ _ => 0

/-- The state after the call `c` has made the access `a`, with `rest` left to do. -/
def afterAccess (s : State) (c : InFlight) (a : TenantAccess) (rest : List TenantAccess) :
    State where
  stats := (a.exec (s.stats, c.locals)).1
  calls :=
    if rest = [] then s.calls.erase c
    else { c with rest := rest, locals := (a.exec (s.stats, c.locals)).2 } ::ₘ s.calls.erase c
  live := if rest = [] then c.call.handOut + s.live else s.live

/-- One step of the system. -/
def step (s : State) : Event → Option State
  | .start t call =>
      if ∀ c ∈ s.calls, c.thread ≠ t then
        match call with
        | .allocate _ _ =>
            some { s with calls := ⟨t, call, call.accesses, ⟨0, 0⟩⟩ ::ₘ s.calls }
        | .release k n =>
            if (k, n) ∈ s.live then
              some { s with
                calls := ⟨t, call, call.accesses, ⟨0, 0⟩⟩ ::ₘ s.calls
                live := s.live.erase (k, n) }
            else none
      else none
  | .access c =>
      if c ∈ s.calls then
        match c.rest with
        | [] => none
        | a :: rest => if Fits s.stats a then some (afterAccess s c a rest) else none
      else none

/-! ## Inversion -/

variable {s t : State} {c : InFlight}

lemma step_start {th : ℕ} {call : Call} (h : step s (.start th call) = some t) :
    (∀ c ∈ s.calls, c.thread ≠ th) ∧ t.stats = s.stats ∧
      t.calls = ⟨th, call, call.accesses, ⟨0, 0⟩⟩ ::ₘ s.calls ∧
      ((∃ k n, call = .allocate k n ∧ t.live = s.live) ∨
        ∃ k n, call = .release k n ∧ (k, n) ∈ s.live ∧ t.live = s.live.erase (k, n)) := by
  simp only [step, Option.ite_none_right_eq_some] at h
  obtain ⟨hth, h⟩ := h
  cases call with
  | allocate k n =>
      obtain rfl := Option.some.inj h
      exact ⟨hth, rfl, rfl, Or.inl ⟨k, n, rfl, rfl⟩⟩
  | release k n =>
      simp only [Option.ite_none_right_eq_some] at h
      obtain rfl := Option.some.inj h.2
      exact ⟨hth, rfl, rfl, Or.inr ⟨k, n, rfl, h.1, rfl⟩⟩

lemma step_access (h : step s (.access c) = some t) :
    c ∈ s.calls ∧ ∃ a rest, c.rest = a :: rest ∧ Fits s.stats a ∧ t = afterAccess s c a rest := by
  simp only [step, Option.ite_none_right_eq_some] at h
  obtain ⟨hc, h⟩ := h
  cases hrest : c.rest with
  | nil => simp [hrest] at h
  | cons a rest =>
      simp only [hrest, Option.ite_none_right_eq_some] at h
      exact ⟨hc, a, rest, rfl, h.1, (Option.some.inj h.2).symm⟩

end PagedAlloc.TenantInterleaving
