import PagedAlloc.Construction.TenantInterleaving
import Mathlib.Algebra.BigOperators.Group.Multiset.Basic
import Mathlib.Order.Bounds.Basic

/-!
# The peak of a tenant's `bytes_in_use`

`record_allocate` and `record_chunk_allocate` update `peak_bytes_in_use` by a load and a store,
which the source justifies by a single writer.  The argument is per pool, but a `TenantStats` is
shared by all clones of its `Tenant`, and these may allocate from pools of different threads.

Two results.  With several allocating threads the peak can be lowered and a maximum lost
(`peak_lost`), and it is sound along every run in which no store is raced
(`peak_sound_of_unraced`).  With one allocating thread and any number of dropping threads the
peak is exact whenever that thread is outside `record_*` (`peak_exact`).

Both rest on one history invariant: every value `bytes_in_use` has taken is covered either by
the peak or by the `new_bytes` of a call that has still to update it (`Covers`).
-/

namespace PagedAlloc.TenantInterleaving

open Words Transition TenantAccess

variable {s t m : State} {c : InFlight} {e : Event} {es pre : List Event}

/-! ## The next access of a call -/

/-- What a call contributes to `bytes_in_use` with the accesses `rest` left to make: an
allocation from its `fetch_add` on, a release until its `fetch_sub`. -/
def charge (call : Call) (rest : List TenantAccess) : ℕ :=
  match call with
  | .allocate _ n => if .addBytesInUse n ∈ rest then 0 else n
  | .release _ n => if .subBytesInUse n ∈ rest then n else 0

/-- The access touches neither `bytes_in_use` nor the peak, nor the locals of the call. -/
def Silent (a : TenantAccess) : Prop :=
  ∀ p, (a.exec p).1.bytesInUse = p.1.bytesInUse ∧
    (a.exec p).1.peakBytesInUse = p.1.peakBytesInUse ∧ (a.exec p).2 = p.2

/-- A call that has added to `bytes_in_use` and not finished its peak update. -/
def Pending (rest : List TenantAccess) : Prop := rest = updatePeak ∨ rest = [.storePeak]

/-- Everything the next access of a call can be. -/
lemma next_access_cases {call : Call} {a : TenantAccess} {rest : List TenantAccess}
    (h : a :: rest <:+ call.accesses) :
    (∃ n, a = .addBytesInUse n ∧ rest = updatePeak ∧ charge call (a :: rest) = 0 ∧
      charge call rest = n) ∨
    (∃ n, a = .subBytesInUse n ∧ ¬ Pending rest ∧ charge call (a :: rest) = n ∧
      charge call rest = 0) ∨
    (a = .loadPeak ∧ rest = [.storePeak] ∧ charge call rest = charge call (a :: rest)) ∨
    (a = .storePeak ∧ rest = [] ∧ charge call rest = charge call (a :: rest)) ∨
    (Silent a ∧ ¬ Pending (a :: rest) ∧ ¬ Pending rest ∧
      charge call rest = charge call (a :: rest)) := by
  rcases call with ⟨_ | _, n⟩ | ⟨_ | _, n⟩
  all_goals
    simp only [Call.accesses, recordAllocate, recordChunkAllocate, recordRelease,
      recordChunkRelease, updatePeak, List.cons_append, List.nil_append, List.suffix_cons_iff,
      List.suffix_nil, List.cons.injEq, reduceCtorEq, or_false] at h
  · rcases h with h | h | h | h | h <;> obtain ⟨rfl, rfl⟩ := h <;>
      simp [charge, Silent, Pending, updatePeak, exec]
  · rcases h with h | h | h | h | h <;> obtain ⟨rfl, rfl⟩ := h <;>
      simp [charge, Silent, Pending, updatePeak, exec]
  · rcases h with h | h <;> obtain ⟨rfl, rfl⟩ := h <;>
      simp [charge, Silent, Pending, updatePeak, exec]
  · rcases h with h | h <;> obtain ⟨rfl, rfl⟩ := h <;>
      simp [charge, Silent, Pending, updatePeak, exec]

lemma Call.accesses_ne_nil (call : Call) : call.accesses ≠ [] := by
  rcases call with ⟨_ | _, n⟩ | ⟨_ | _, n⟩ <;>
    simp [Call.accesses, recordAllocate, recordChunkAllocate, recordRelease, recordChunkRelease]

/-- A handle never releases more than its allocation has charged. -/
lemma Call.handOut_le_charge (call : Call) :
    (call.handOut.map Prod.snd).sum ≤ charge call [] := by
  rcases call with ⟨_ | _, n⟩ | ⟨_ | _, n⟩ <;> simp [Call.handOut, charge, truncate32_le]

/-! ## The counters pay for every charge -/

/-- The charges of the live handles and of the calls in flight. -/
def State.charged (s : State) : ℕ :=
  (s.live.map Prod.snd).sum + (s.calls.map fun c => charge c.call c.rest).sum

/-- Every call in flight is at some point of its access list, threads run one call at a time,
and `bytes_in_use` is a word that covers every charge. -/
structure WellFormed (s : State) : Prop where
  suffix : ∀ c ∈ s.calls, c.rest <:+ c.call.accesses ∧ c.rest ≠ []
  threads : (s.calls.map InFlight.thread).Nodup
  charged_le : s.charged ≤ s.stats.bytesInUse
  lt_size64 : s.stats.bytesInUse < size64

lemma wellFormed_init : WellFormed init where
  suffix := by simp [init]
  threads := by simp [init]
  charged_le := by simp [init, State.charged]
  lt_size64 := size64_pos

/-- Starting a call moves the charge it will release from its handle to the call. -/
lemma charged_start {th : ℕ} {call : Call} (h : step s (.start th call) = some t) :
    t.charged = s.charged := by
  obtain ⟨-, -, hcalls, ⟨k, n, rfl, hlive⟩ | ⟨k, n, rfl, hmem, hlive⟩⟩ := step_start h
  · have hzero : charge (.allocate k n) (Call.allocate k n).accesses = 0 := by
      cases k <;> simp [charge, Call.accesses, recordAllocate, recordChunkAllocate]
    simp only [State.charged, hcalls, hlive, Multiset.map_cons, Multiset.sum_cons, hzero,
      Nat.zero_add]
  · have hn : charge (.release k n) (Call.release k n).accesses = n := by
      cases k <;> simp [charge, Call.accesses, recordRelease, recordChunkRelease]
    have hsum : n + ((s.live.erase (k, n)).map Prod.snd).sum = (s.live.map Prod.snd).sum := by
      rw [← Multiset.sum_cons, ← Multiset.map_cons Prod.snd (k, n), Multiset.cons_erase hmem]
    unfold State.charged
    rw [hcalls, hlive, Multiset.map_cons, Multiset.sum_cons, hn]
    omega

/-- The charges of the other calls. -/
lemma sum_charge_erase (hc : c ∈ s.calls) :
    charge c.call c.rest + ((s.calls.erase c).map fun c => charge c.call c.rest).sum =
      (s.calls.map fun c => charge c.call c.rest).sum := by
  rw [← Multiset.sum_cons, ← Multiset.map_cons (fun c : InFlight => charge c.call c.rest),
    Multiset.cons_erase hc]

/-- An access changes the total by what it changes in the charge of its own call; a call that
returns may hand out less. -/
lemma charged_afterAccess (hc : c ∈ s.calls) (a : TenantAccess) (rest : List TenantAccess) :
    (afterAccess s c a rest).charged + charge c.call c.rest ≤
      s.charged + charge c.call rest := by
  have hsum := sum_charge_erase hc
  unfold State.charged afterAccess
  by_cases hrest : rest = []
  · have hout := c.call.handOut_le_charge
    subst hrest
    rw [if_pos rfl, if_pos rfl, Multiset.map_add, Multiset.sum_add]
    dsimp only
    omega
  · rw [if_neg hrest, if_neg hrest, Multiset.map_cons, Multiset.sum_cons]
    dsimp only
    omega

lemma WellFormed.charge_le (hs : WellFormed s) (hc : c ∈ s.calls) :
    charge c.call c.rest ≤ s.stats.bytesInUse := by
  have hsum := sum_charge_erase hc
  have hle := hs.charged_le
  unfold State.charged at hle
  omega

/-- `bytes_in_use` moves with the charge of the call that accesses it, and never wraps. -/
lemma WellFormed.bytesInUse_access (hs : WellFormed s) (hc : c ∈ s.calls) {a : TenantAccess}
    {rest : List TenantAccess} (hrest : c.rest = a :: rest) (hfits : Fits s.stats a) :
    (afterAccess s c a rest).stats.bytesInUse + charge c.call c.rest =
        s.stats.bytesInUse + charge c.call rest ∧
      (afterAccess s c a rest).stats.bytesInUse < size64 := by
  have hle := hs.charge_le hc
  have hlt := hs.lt_size64
  have hsuf := (hs.suffix c hc).1
  rw [hrest] at hsuf hle ⊢
  obtain ⟨n, rfl, rfl, h0, hn⟩ | ⟨n, rfl, -, hn, h0⟩ | ⟨rfl, rfl, heq⟩ | ⟨rfl, rfl, heq⟩ |
    ⟨hsil, -, -, heq⟩ := next_access_cases hsuf
  · have hb : (afterAccess s c (.addBytesInUse n) updatePeak).stats.bytesInUse =
        s.stats.bytesInUse + n := fetchAdd_of_lt hfits
    rw [hb, h0, hn]
    exact ⟨rfl, hfits⟩
  · have hb : (afterAccess s c (.subBytesInUse n) rest).stats.bytesInUse =
        s.stats.bytesInUse - n := fetchSub_of_le (hn ▸ hle) hlt
    rw [hb, h0, hn]
    omega
  · rw [heq]
    exact ⟨rfl, hlt⟩
  · have hb : (afterAccess s c .storePeak []).stats.bytesInUse = s.stats.bytesInUse := by
      simp only [afterAccess, exec]
      split <;> rfl
    rw [heq, hb]
    exact ⟨rfl, hlt⟩
  · have hb : (afterAccess s c a rest).stats.bytesInUse = s.stats.bytesInUse := (hsil _).1
    rw [heq, hb]
    exact ⟨rfl, hlt⟩

/-- Membership after an access: another call, or the same call with its rest. -/
lemma mem_calls_afterAccess {a : TenantAccess} {rest : List TenantAccess} {c' : InFlight}
    (h : c' ∈ (afterAccess s c a rest).calls) :
    c' ∈ s.calls.erase c ∨
      rest ≠ [] ∧ c' = { c with rest := rest, locals := (a.exec (s.stats, c.locals)).2 } := by
  unfold afterAccess at h
  by_cases hnil : rest = []
  · simp only [hnil, if_true] at h
    exact Or.inl h
  · simp only [hnil, if_false, Multiset.mem_cons] at h
    exact h.symm.imp_right fun h => ⟨hnil, h⟩

lemma WellFormed.step (hs : WellFormed s) (h : step s e = some t) : WellFormed t := by
  cases e with
  | start th call =>
      have hcharged := charged_start h
      obtain ⟨hth, hstats, hcalls, -⟩ := step_start h
      refine ⟨?_, ?_, ?_, ?_⟩
      · intro c hc
        rw [hcalls, Multiset.mem_cons] at hc
        rcases hc with rfl | hc
        · exact ⟨List.suffix_refl _, call.accesses_ne_nil⟩
        · exact hs.suffix c hc
      · rw [hcalls, Multiset.map_cons, Multiset.nodup_cons]
        refine ⟨fun hmem => ?_, hs.threads⟩
        obtain ⟨c, hc, hcth⟩ := Multiset.mem_map.1 hmem
        exact hth c hc hcth
      · rw [hcharged, hstats]
        exact hs.charged_le
      · rw [hstats]
        exact hs.lt_size64
  | access c =>
      obtain ⟨hc, a, rest, hrest, hfits, rfl⟩ := step_access h
      obtain ⟨hbytes, hlt⟩ := hs.bytesInUse_access hc hrest hfits
      refine ⟨?_, ?_, ?_, hlt⟩
      · intro c' hc'
        rcases mem_calls_afterAccess hc' with hc' | ⟨hnil, rfl⟩
        · exact hs.suffix c' (Multiset.mem_of_mem_erase hc')
        · have hsuf := (hs.suffix c hc).1
          rw [hrest] at hsuf
          exact ⟨(List.suffix_cons a rest).trans hsuf, hnil⟩
      · have hth := hs.threads
        rw [← Multiset.cons_erase hc, Multiset.map_cons] at hth
        unfold afterAccess
        by_cases hnil : rest = []
        · simp only [hnil, if_true]
          exact (Multiset.nodup_cons.1 hth).2
        · simpa only [hnil, if_false, Multiset.map_cons] using hth
      · have hcharged := charged_afterAccess hc a rest
        have hold := hs.charged_le
        omega

lemma wellFormed_run (h : run TenantInterleaving.step init es = some s) : WellFormed s :=
  run_invariant (P := WellFormed) (fun _ _ _ hs hstep => hs.step hstep) wellFormed_init h

/-! ## Every past value is covered -/

/-- The next access of the call is a store to the peak that takes effect. -/
def Stores (c : InFlight) : Prop := c.rest = [.storePeak] ∧ c.locals.peakSeen < c.locals.newBytes

instance (c : InFlight) : Decidable (Stores c) := inferInstanceAs (Decidable (_ ∧ _))

/-- The event does not lower the peak: if it stores, it stores no less than the peak. -/
def Raises (s : State) : Event → Prop
  | .start _ _ => True
  | .access c => c ∈ s.calls → Stores c → s.stats.peakBytesInUse ≤ c.locals.newBytes

/-- `b` is covered: the peak is at least `b`, or some call has still to compare the peak with a
value that is. -/
def Covers (s : State) (b : ℕ) : Prop :=
  b ≤ s.stats.peakBytesInUse ∨ ∃ c ∈ s.calls, Pending c.rest ∧ b ≤ c.locals.newBytes

/-- The value a call has loaded is still a lower bound of the peak. -/
def SeenLe (s : State) : Prop :=
  ∀ c ∈ s.calls, c.rest = [.storePeak] → c.locals.peakSeen ≤ s.stats.peakBytesInUse

/-- Only an effective store changes the peak, and it stores the caller's `new_bytes`. -/
lemma peak_afterAccess (hs : WellFormed s) (hc : c ∈ s.calls) {a : TenantAccess}
    {rest : List TenantAccess} (hrest : c.rest = a :: rest) :
    (Stores c ∧ (afterAccess s c a rest).stats.peakBytesInUse = c.locals.newBytes) ∨
      ¬ Stores c ∧ (afterAccess s c a rest).stats.peakBytesInUse = s.stats.peakBytesInUse := by
  have hsuf := (hs.suffix c hc).1
  rw [hrest] at hsuf
  unfold Stores
  rw [hrest]
  obtain ⟨n, rfl, rfl, -, -⟩ | ⟨n, rfl, -, -, -⟩ | ⟨rfl, rfl, -⟩ | ⟨rfl, rfl, -⟩ |
    ⟨hsil, hnot, -, -⟩ := next_access_cases hsuf
  · exact Or.inr ⟨by simp, rfl⟩
  · exact Or.inr ⟨by simp, rfl⟩
  · exact Or.inr ⟨by simp, rfl⟩
  · by_cases hlt : c.locals.peakSeen < c.locals.newBytes
    · exact Or.inl ⟨⟨rfl, hlt⟩, by simp [afterAccess, exec, hlt]⟩
    · exact Or.inr ⟨fun h => hlt h.2, by simp [afterAccess, exec, hlt]⟩
  · exact Or.inr ⟨fun h => hnot (Or.inr h.1), (hsil _).2.1⟩

/-- Along a step that does not lower the peak, the peak does not decrease. -/
lemma peak_mono (hs : WellFormed s) (h : step s e = some t) (hr : Raises s e) :
    s.stats.peakBytesInUse ≤ t.stats.peakBytesInUse := by
  cases e with
  | start th call =>
      obtain ⟨-, hstats, -, -⟩ := step_start h
      rw [hstats]
  | access c =>
      obtain ⟨hc, a, rest, hrest, -, rfl⟩ := step_access h
      rcases peak_afterAccess hs hc hrest with ⟨hstores, heq⟩ | ⟨-, heq⟩
      · rw [heq]
        exact hr hc hstores
      · rw [heq]

lemma SeenLe.step (hs : WellFormed s) (hseen : SeenLe s) (h : step s e = some t)
    (hr : Raises s e) : SeenLe t := by
  have hmono := peak_mono hs h hr
  cases e with
  | start th call =>
      obtain ⟨-, -, hcalls, -⟩ := step_start h
      intro c hc hrest
      rw [hcalls, Multiset.mem_cons] at hc
      rcases hc with rfl | hc
      · exact Nat.zero_le _
      · exact (hseen c hc hrest).trans hmono
  | access c =>
      obtain ⟨hc, a, rest, hrest, -, rfl⟩ := step_access h
      intro c' hc' hrest'
      rcases mem_calls_afterAccess hc' with hc' | ⟨-, rfl⟩
      · exact (hseen c' (Multiset.mem_of_mem_erase hc') hrest').trans hmono
      · -- The call itself: with only the store left, it has just loaded the peak.
        obtain rfl : rest = [.storePeak] := hrest'
        have hsuf := (hs.suffix c hc).1
        rw [hrest] at hsuf
        obtain ⟨n, -, hup, -, -⟩ | ⟨n, -, hnot, -, -⟩ | ⟨rfl, -, -⟩ | ⟨-, hnil, -⟩ |
          ⟨-, -, hnot, -⟩ := next_access_cases hsuf
        · simp [updatePeak] at hup
        · exact absurd (Or.inr rfl) hnot
        · exact le_refl _
        · simp at hnil
        · exact absurd (Or.inr rfl) hnot

/-- What was covered stays covered: a call that stops covering a value has stored it, or has
found a peak at least as large. -/
lemma Covers.step {b : ℕ} (hs : WellFormed s) (hseen : SeenLe s) (hb : Covers s b)
    (h : step s e = some t) (hr : Raises s e) : Covers t b := by
  have hmono := peak_mono hs h hr
  rcases hb with hb | ⟨p, hp, hpend, hb⟩
  · exact Or.inl (hb.trans hmono)
  cases e with
  | start th call =>
      obtain ⟨-, -, hcalls, -⟩ := step_start h
      refine Or.inr ⟨p, ?_, hpend, hb⟩
      rw [hcalls]
      exact Multiset.mem_cons_of_mem hp
  | access c =>
      obtain ⟨hc, a, rest, hrest, -, rfl⟩ := step_access h
      by_cases hpc : p = c
      · subst hpc
        rw [hrest] at hpend
        rcases hpend with hpend | hpend
        · -- The load: the call keeps its `new_bytes`.
          obtain ⟨rfl, rfl⟩ := List.cons.inj hpend
          refine Or.inr ⟨{ p with
            rest := [.storePeak], locals := (exec .loadPeak (s.stats, p.locals)).2 }, ?_,
            Or.inr rfl, hb⟩
          unfold afterAccess
          rw [if_neg (by simp)]
          exact Multiset.mem_cons_self _ _
        · obtain ⟨rfl, rfl⟩ := List.cons.inj hpend
          refine Or.inl (hb.trans ?_)
          rcases peak_afterAccess hs hc hrest with ⟨-, heq⟩ | ⟨hnot, heq⟩
          · exact heq.ge
          · have hle : p.locals.newBytes ≤ p.locals.peakSeen := by
              by_contra hlt
              exact hnot ⟨hrest, Nat.lt_of_not_le hlt⟩
            rw [heq]
            exact hle.trans (hseen p hp hrest)
      · refine Or.inr ⟨p, ?_, hpend, hb⟩
        have hmem : p ∈ s.calls.erase c := (Multiset.mem_erase_of_ne hpc).2 hp
        unfold afterAccess
        dsimp only
        split
        · exact hmem
        · exact Multiset.mem_cons_of_mem hmem

/-- The value `bytes_in_use` takes is covered as soon as it is taken: an addition is covered
by its own call, and everything else does not increase it. -/
lemma covers_bytesInUse (hs : WellFormed s) (hseen : SeenLe s) (hb : Covers s s.stats.bytesInUse)
    (h : step s e = some t) (hr : Raises s e) : Covers t t.stats.bytesInUse := by
  have hcov := hb.step hs hseen h hr
  cases e with
  | start th call =>
      obtain ⟨-, hstats, -, -⟩ := step_start h
      rw [hstats]
      exact hcov
  | access c =>
      obtain ⟨hc, a, rest, hrest, hfits, rfl⟩ := step_access h
      obtain ⟨hbytes, -⟩ := hs.bytesInUse_access hc hrest hfits
      have hsuf := (hs.suffix c hc).1
      rw [hrest] at hsuf hbytes
      have hle : charge c.call rest ≤ charge c.call (a :: rest) →
          Covers (afterAccess s c a rest) (afterAccess s c a rest).stats.bytesInUse := by
        intro hle
        have hdown : (afterAccess s c a rest).stats.bytesInUse ≤ s.stats.bytesInUse := by omega
        exact hcov.imp hdown.trans fun ⟨p, hp, hpend, hb⟩ => ⟨p, hp, hpend, hdown.trans hb⟩
      obtain ⟨n, rfl, rfl, -, -⟩ | ⟨n, rfl, -, hn, h0⟩ | ⟨rfl, rfl, heq⟩ | ⟨rfl, rfl, heq⟩ |
        ⟨-, -, -, heq⟩ := next_access_cases hsuf
      · refine Or.inr ⟨{ c with
          rest := updatePeak, locals := (exec (.addBytesInUse n) (s.stats, c.locals)).2 }, ?_,
          Or.inl rfl, le_refl _⟩
        unfold afterAccess
        rw [if_neg (by simp [updatePeak])]
        exact Multiset.mem_cons_self _ _
      · exact hle (by omega)
      · exact hle heq.le
      · exact hle heq.le
      · exact hle heq.le

/-- **History.** If no step of a run lowers the peak, every value `bytes_in_use` has had is
covered at its end. -/
theorem covers_history (h : run step init es = some s) (hr : Always step Raises init es) :
    SeenLe s ∧ ∀ pre m, pre <+: es → run step init pre = some m →
      Covers s m.stats.bytesInUse := by
  revert hr
  refine run_induction (P := fun es s => Always step Raises init es → SeenLe s ∧
    ∀ pre m, pre <+: es → run step init pre = some m → Covers s m.stats.bytesInUse) ?_ ?_ h
  · intro _
    refine ⟨by simp [SeenLe, init], fun pre m hpre hm => ?_⟩
    obtain rfl := List.prefix_nil.1 hpre
    obtain rfl : init = m := by simpa using hm
    exact Or.inl (Nat.zero_le _)
  · intro es s e t hrun ih hstep hr
    rw [always_iff] at hr
    have hre : Raises s e := hr es e s (List.prefix_refl _) hrun
    have hs := wellFormed_run hrun
    obtain ⟨hseen, hcov⟩ := ih <| always_iff.2 fun pre e m hpre =>
      hr pre e m (hpre.trans (List.prefix_append _ _))
    refine ⟨hseen.step hs hstep hre, fun pre m hpre hm => ?_⟩
    rcases List.prefix_concat_iff.1 hpre with rfl | hpre
    · obtain rfl : m = t := by
        rw [run_concat_eq_some.2 ⟨s, hrun, hstep⟩] at hm
        exact (Option.some.inj hm).symm
      exact covers_bytesInUse hs hseen (hcov es s (List.prefix_refl _) hrun) hstep hre
    · exact (hcov pre m hpre hm).step hs hseen hstep hre

/-! ## Several allocating threads -/

/-- Along the run, the peak never decreases, and whenever no call is in progress it is at least
every value `bytes_in_use` has had. -/
structure PeakSound (es : List Event) : Prop where
  mono : ∀ pre e m m', pre ++ [e] <+: es → run step init pre = some m → step m e = some m' →
    m.stats.peakBytesInUse ≤ m'.stats.peakBytesInUse
  covers : ∀ pre pre' m m', pre <+: pre' → pre' <+: es → run step init pre = some m →
    run step init pre' = some m' → m'.calls = 0 →
    m.stats.bytesInUse ≤ m'.stats.peakBytesInUse

/-- The peak is sound along a run if and only if every store to it stores at least what it
finds there. -/
lemma peakSound_iff : PeakSound es ↔ Always step Raises init es := by
  constructor
  · intro hsound
    apply always_iff.2
    intro pre e m hpre hm
    cases e with
    | start th call => trivial
    | access c =>
        intro hc hstores
        have hstep : step m (.access c) = some (afterAccess m c .storePeak []) := by
          simp only [step, hc, if_true, hstores.1]
          rfl
        have hmono := hsound.mono pre _ m _ hpre hm hstep
        rcases peak_afterAccess (wellFormed_run hm) hc hstores.1 with ⟨-, heq⟩ | ⟨hnot, -⟩
        · exact heq ▸ hmono
        · exact absurd hstores hnot
  · intro hr
    refine ⟨fun pre e m m' hpre hm hstep => ?_, fun pre pre' m m' hpre hpre' hm hm' h0 => ?_⟩
    · exact peak_mono (wellFormed_run hm) hstep (always_iff.1 hr pre e m hpre hm)
    · have hr' : Always step Raises init pre' := always_iff.2 fun p e m hp =>
        always_iff.1 hr p e m (hp.trans hpre')
      rcases (covers_history hm' hr').2 pre m hpre hm with hle | ⟨c, hc, -⟩
      · exact hle
      · rw [h0] at hc
        exact absurd hc (Multiset.notMem_zero c)

/-- No other store has reached the peak between the load and the store of the same call. -/
def Unraced (s : State) : Event → Prop
  | .start _ _ => True
  | .access c => c ∈ s.calls → Stores c → s.stats.peakBytesInUse = c.locals.peakSeen

instance (s : State) (e : Event) : Decidable (Unraced s e) :=
  match e with
  | .start _ _ => isTrue trivial
  | .access c =>
      inferInstanceAs
        (Decidable (c ∈ s.calls → Stores c → s.stats.peakBytesInUse = c.locals.peakSeen))

lemma Unraced.raises (h : Unraced s e) : Raises s e := by
  cases e with
  | start th call => trivial
  | access c =>
      intro hc hstores
      rw [h hc hstores]
      exact hstores.2.le

/-- **The peak of a shared tenant.** In every run in which each store to the peak still finds
the value its call has loaded, the peak never decreases and, whenever no call is in progress,
is at least every value `bytes_in_use` has had; and this is so precisely in the runs in which no
store finds more than it stores. -/
theorem peak_sound_of_unraced : (Always step Unraced init es → PeakSound es) ∧
    (PeakSound es ↔ Always step Raises init es) := by
  refine ⟨fun h => ?_, peakSound_iff⟩
  exact peakSound_iff.2 <| always_iff.2 fun pre e m hpre hm =>
    (always_iff.1 h pre e m hpre hm).raises

/-- The accesses of a chunk allocation of `n` bytes by `thread`, with `bytes` the value of
`bytes_in_use` after its addition and `peak` the one it loads. -/
def chunkAccesses (thread n bytes peak : ℕ) : List Event :=
  [.access ⟨thread, .allocate .chunk n, recordChunkAllocate n, ⟨0, 0⟩⟩,
    .access ⟨thread, .allocate .chunk n, (recordChunkAllocate n).drop 1, ⟨0, 0⟩⟩,
    .access ⟨thread, .allocate .chunk n, (recordChunkAllocate n).drop 2, ⟨0, 0⟩⟩,
    .access ⟨thread, .allocate .chunk n, updatePeak, ⟨bytes, 0⟩⟩,
    .access ⟨thread, .allocate .chunk n, [.storePeak], ⟨bytes, peak⟩⟩]

/-- Two workers allocate chunks for clones of one tenant.  Both have loaded the peak when the
second stores `30`; then the first stores its `10`. -/
def lostPeakRun : List Event :=
  [.start 1 (.allocate .chunk 10), .start 2 (.allocate .chunk 20)] ++
    (chunkAccesses 1 10 10 0).take 4 ++ chunkAccesses 2 20 30 0 ++
    (chunkAccesses 1 10 10 0).drop 4

/-- The store of the first worker lowers the peak from `30` to `10`, and both calls return with
`30` bytes in use. -/
theorem peak_lost :
    ¬ PeakSound lostPeakRun ∧ ∃ s, run step init lostPeakRun = some s ∧ s.calls = 0 ∧
      s.stats.bytesInUse = 30 ∧ s.stats.peakBytesInUse = 10 := by
  have hval : (run step init lostPeakRun).map
      (fun s => (s.calls, s.stats.bytesInUse, s.stats.peakBytesInUse)) = some (0, 30, 10) := by
    decide +kernel
  obtain ⟨s, hs, htriple⟩ := Option.map_eq_some_iff.1 hval
  obtain ⟨hcalls, hbytes, hpeak⟩ : s.calls = 0 ∧ s.stats.bytesInUse = 30 ∧
      s.stats.peakBytesInUse = 10 := by simpa using htriple
  refine ⟨fun hsound => ?_, s, hs, hcalls, hbytes, hpeak⟩
  have hle := hsound.covers _ _ s s (List.prefix_refl _) (List.prefix_refl _) hs hs hcalls
  omega

/-- The same two allocations, the second loading the peak after the store of the first. -/
def orderedPeakRun : List Event :=
  [.start 1 (.allocate .chunk 10), .start 2 (.allocate .chunk 20)] ++
    chunkAccesses 1 10 10 0 ++ chunkAccesses 2 20 30 10

theorem peak_sound_of_unraced_orderedPeakRun :
    (run step init orderedPeakRun).isSome ∧ PeakSound orderedPeakRun :=
  ⟨by decide +kernel, peak_sound_of_unraced.1 (by decide +kernel)⟩

/-! ## One allocating thread -/

/-- All allocations of the run are made by the thread `owner`. -/
def SingleAllocator (owner : ℕ) (es : List Event) : Prop :=
  ∀ th k n, .start th (.allocate k n) ∈ es → th = owner

/-- `bytes_in_use` has had the value `b` at some point of the run. -/
def HasTaken (es : List Event) (b : ℕ) : Prop :=
  ∃ pre m, pre <+: es ∧ run step init pre = some m ∧ m.stats.bytesInUse = b

lemma HasTaken.mono {b : ℕ} (h : HasTaken pre b) (hpre : pre <+: es) : HasTaken es b := by
  obtain ⟨p, m, hp, hm, hb⟩ := h
  exact ⟨p, m, hp.trans hpre, hm, hb⟩

/-- What holds along a run with one allocating thread: that thread makes every allocation in
flight, no store can race with a load, and the peak and all pending values have been taken by
`bytes_in_use`. -/
structure SingleWriter (owner : ℕ) (es : List Event) (s : State) : Prop where
  thread : ∀ c ∈ s.calls, ∀ k n, c.call = .allocate k n → c.thread = owner
  seen : ∀ c ∈ s.calls, c.rest = [.storePeak] → c.locals.peakSeen = s.stats.peakBytesInUse
  peak_taken : HasTaken es s.stats.peakBytesInUse
  pending_taken : ∀ c ∈ s.calls, Pending c.rest → HasTaken es c.locals.newBytes

/-- Only allocations update the peak. -/
lemma WellFormed.allocate_of_pending (hs : WellFormed s) (hc : c ∈ s.calls)
    (hp : Pending c.rest) : ∃ k n, c.call = .allocate k n := by
  have hsuf := (hs.suffix c hc).1
  cases hcall : c.call with
  | allocate k n => exact ⟨k, n, rfl⟩
  | release k n =>
      rw [hcall] at hsuf
      have hmem : TenantAccess.storePeak ∈ (Call.release k n).accesses := by
        refine hsuf.subset ?_
        rcases hp with hp | hp <;> simp [hp, updatePeak]
      cases k <;> simp [Call.accesses, recordRelease, recordChunkRelease] at hmem

/-- Two calls of one thread are the same call. -/
lemma WellFormed.eq_of_thread (hs : WellFormed s) {c' : InFlight} (hc : c ∈ s.calls)
    (hc' : c' ∈ s.calls.erase c) : c'.thread ≠ c.thread := by
  intro heq
  have hth := hs.threads
  rw [← Multiset.cons_erase hc, Multiset.map_cons, Multiset.nodup_cons] at hth
  exact hth.1 (heq ▸ Multiset.mem_map_of_mem InFlight.thread hc')

lemma SingleWriter.step {owner : ℕ} (hs : WellFormed s) (hw : SingleWriter owner es s)
    (hrun : run step init es = some s) (hsingle : SingleAllocator owner (es ++ [e]))
    (h : step s e = some t) : SingleWriter owner (es ++ [e]) t := by
  have hpre : es <+: es ++ [e] := List.prefix_append _ _
  have hrun' := run_concat_eq_some.2 ⟨s, hrun, h⟩
  cases e with
  | start th call =>
      obtain ⟨-, hstats, hcalls, -⟩ := step_start h
      have hnew : ¬ Pending call.accesses := by
        rcases call with ⟨_ | _, n⟩ | ⟨_ | _, n⟩ <;>
          simp [Pending, Call.accesses, recordAllocate, recordChunkAllocate, recordRelease,
            recordChunkRelease, updatePeak]
      have hmem : ∀ c, c ∈ t.calls →
          c = ⟨th, call, call.accesses, ⟨0, 0⟩⟩ ∨ c ∈ s.calls := by
        intro c hc
        rwa [hcalls, Multiset.mem_cons] at hc
      refine ⟨?_, ?_, ?_, ?_⟩
      · intro c hc k n hcall
        rcases hmem c hc with rfl | hc
        · obtain rfl : call = .allocate k n := hcall
          exact hsingle th k n (by simp)
        · exact hw.thread c hc k n hcall
      · intro c hc hrest
        rw [hstats]
        rcases hmem c hc with rfl | hc
        · exact absurd (Or.inr hrest) hnew
        · exact hw.seen c hc hrest
      · rw [hstats]
        exact hw.peak_taken.mono hpre
      · intro c hc hpend
        rcases hmem c hc with rfl | hc
        · exact absurd hpend hnew
        · exact (hw.pending_taken c hc hpend).mono hpre
  | access c =>
      obtain ⟨hc, a, rest, hrest, hfits, rfl⟩ := step_access h
      have hpeak := peak_afterAccess hs hc hrest
      have hsuf := (hs.suffix c hc).1
      rw [hrest] at hsuf
      refine ⟨?_, ?_, ?_, ?_⟩
      · intro c' hc' k n hcall
        rcases mem_calls_afterAccess hc' with hc' | ⟨-, rfl⟩
        · exact hw.thread c' (Multiset.mem_of_mem_erase hc') k n hcall
        · exact hw.thread c hc k n hcall
      · intro c' hc' hrest'
        rcases mem_calls_afterAccess hc' with hc' | ⟨-, rfl⟩
        · -- A second call about to store would run on the same thread.
          have hc'' := Multiset.mem_of_mem_erase hc'
          rcases hpeak with ⟨hstores, -⟩ | ⟨-, heq⟩
          · obtain ⟨k, n, hcall⟩ := hs.allocate_of_pending hc (Or.inr hstores.1)
            obtain ⟨k', n', hcall'⟩ := hs.allocate_of_pending hc'' (Or.inr hrest')
            have hth := (hw.thread c' hc'' k' n' hcall').trans
              (hw.thread c hc k n hcall).symm
            exact absurd hth (hs.eq_of_thread hc hc')
          · rw [heq]
            exact hw.seen c' hc'' hrest'
        · obtain rfl : rest = [.storePeak] := hrest'
          obtain ⟨n, -, hup, -, -⟩ | ⟨n, -, hnot, -, -⟩ | ⟨rfl, -, -⟩ | ⟨-, hnil, -⟩ |
            ⟨-, -, hnot, -⟩ := next_access_cases hsuf
          · simp [updatePeak] at hup
          · exact absurd (Or.inr rfl) hnot
          · rfl
          · simp at hnil
          · exact absurd (Or.inr rfl) hnot
      · rcases hpeak with ⟨hstores, heq⟩ | ⟨-, heq⟩
        · rw [heq]
          exact (hw.pending_taken c hc (Or.inr hstores.1)).mono hpre
        · rw [heq]
          exact hw.peak_taken.mono hpre
      · intro c' hc' hpend
        rcases mem_calls_afterAccess hc' with hc' | ⟨-, rfl⟩
        · exact (hw.pending_taken c' (Multiset.mem_of_mem_erase hc') hpend).mono hpre
        · obtain ⟨n, rfl, rfl, -, -⟩ | ⟨n, -, hnot, -, -⟩ | ⟨rfl, rfl, -⟩ | ⟨-, rfl, -⟩ |
            ⟨-, -, hnot, -⟩ := next_access_cases hsuf
          · exact ⟨_, _, List.prefix_refl _, hrun', rfl⟩
          · exact absurd hpend hnot
          · exact (hw.pending_taken c hc (Or.inl hrest)).mono hpre
          · simp [Pending, updatePeak] at hpend
          · exact absurd hpend hnot

lemma singleWriter_run {owner : ℕ} (h : run step init es = some s)
    (hsingle : SingleAllocator owner es) : SingleWriter owner es s := by
  revert hsingle
  refine run_induction (P := fun es s => SingleAllocator owner es → SingleWriter owner es s)
    ?_ ?_ h
  · intro _
    exact ⟨by simp [init], by simp [init], ⟨[], init, List.prefix_refl _, rfl, rfl⟩,
      by simp [init]⟩
  · intro es s e t hrun ih hstep hsingle
    have hw := ih fun th k n hmem => hsingle th k n (List.mem_append_left _ hmem)
    exact hw.step (wellFormed_run hrun) hrun hsingle hstep

/-- **Exactness of the peak.** If one thread makes all allocations, then whenever that thread is
outside the `record_*` methods the peak is the largest value `bytes_in_use` has had, whatever
the other threads release in between. -/
theorem peak_exact {owner : ℕ} (h : run step init es = some s)
    (hsingle : SingleAllocator owner es) (hidle : ∀ c ∈ s.calls, c.thread ≠ owner) :
    IsGreatest {b | HasTaken es b} s.stats.peakBytesInUse := by
  have hw := singleWriter_run h hsingle
  refine ⟨hw.peak_taken, ?_⟩
  rintro b ⟨pre, m, hpre, hm, rfl⟩
  have hraises : Always step Raises init es := by
    refine always_iff.2 fun p e m hp hm => Unraced.raises ?_
    have hsub : SingleAllocator owner p := fun th k n hmem =>
      hsingle th k n (((List.prefix_append p [e]).trans hp).subset hmem)
    cases e with
    | start th call => trivial
    | access c => exact fun hc hstores =>
        ((singleWriter_run hm hsub).seen c hc hstores.1).symm
  rcases (covers_history h hraises).2 pre m hpre hm with hle | ⟨c, hc, hpend, -⟩
  · exact hle
  · obtain ⟨k, n, hcall⟩ := (wellFormed_run h).allocate_of_pending hc hpend
    exact absurd (hw.thread c hc k n hcall) (hidle c hc)

/-- One worker allocates `10` and `20` bytes; another thread releases the first chunk while the
second allocation is between its addition and its peak update. -/
def droppedRun : List Event :=
  [.start 1 (.allocate .chunk 10)] ++ chunkAccesses 1 10 10 0 ++
    [.start 1 (.allocate .chunk 20)] ++ (chunkAccesses 1 20 30 10).take 3 ++
    [.start 2 (.release .chunk 10),
      .access ⟨2, .release .chunk 10, recordChunkRelease 10, ⟨0, 0⟩⟩] ++
    (chunkAccesses 1 20 30 10).drop 3

theorem peak_exact_droppedRun :
    ∃ s, run step init droppedRun = some s ∧ s.stats.bytesInUse = 20 ∧
      s.stats.peakBytesInUse = 30 ∧ IsGreatest {b | HasTaken droppedRun b} 30 := by
  have hval : (run step init droppedRun).map (fun s => (s.stats.bytesInUse,
      s.stats.peakBytesInUse, decide (∀ c ∈ s.calls, c.thread ≠ 1))) = some (20, 30, true) := by
    decide +kernel
  obtain ⟨s, hs, htriple⟩ := Option.map_eq_some_iff.1 hval
  obtain ⟨hbytes, hpeak, hidle⟩ : s.stats.bytesInUse = 20 ∧ s.stats.peakBytesInUse = 30 ∧
      ∀ c ∈ s.calls, c.thread ≠ 1 := by simpa using htriple
  have hsingle : SingleAllocator 1 droppedRun := by
    intro th k n hmem
    simp [droppedRun, chunkAccesses] at hmem
    omega
  exact ⟨s, hs, hbytes, hpeak, hpeak ▸ peak_exact hs hsingle hidle⟩

end PagedAlloc.TenantInterleaving
