import PagedAlloc.Framework.Transition

/-!
# Next fit

Requests are put into bins of capacity `cap`, one after the other.  At most one bin is open: a
request that does not fit behind what is in it closes the bin for good, and a new one is opened,
if one is supplied.  A request takes its footprint in the bin, which may be more than its size;
whether it fits is decided by the size.

`opened_le` is the bound on the waste.  A bin may be closed with almost half of it free, but if no
request is larger than half a bin, a closed bin is more than half full; so the bins closed so far
take less than twice the footprint of what was placed.
-/

namespace NextFit

open Transition

structure Request where
  size : ℕ
  footprint : ℕ
  /-- There is a new bin, should the request need one. -/
  supplied : Bool
  deriving DecidableEq, Repr

structure State where
  /-- How many bins have been opened. -/
  opened : ℕ
  /-- How much of the open bin is taken. -/
  level : Option ℕ
  /-- The footprint of everything that was placed. -/
  total : ℕ
  deriving DecidableEq, Repr

def State.empty : State := ⟨0, none, 0⟩

/-- The level of the open bin, if the request fits behind it. -/
def State.room (cap : ℕ) (s : State) (r : Request) : Option ℕ :=
  s.level.filter fun u => u + r.size ≤ cap

/-- Whether the request is placed, and the state after it. -/
def place (cap : ℕ) (s : State) (r : Request) : Bool × State :=
  match s.room cap r with
  | some u => (true, ⟨s.opened, some (u + r.footprint), s.total + r.footprint⟩)
  | none =>
      if r.supplied then (true, ⟨s.opened + 1, some r.footprint, s.total + r.footprint⟩)
      else (false, ⟨s.opened, none, s.total⟩)

/-- Every closed bin is more than half full, counted in what was placed next to the open one. -/
def State.HalfFull (cap : ℕ) (s : State) : Prop :=
  ∃ closed, s.opened = closed + s.level.toList.length ∧
    closed * (cap + 1) + 2 * s.level.getD 0 ≤ 2 * s.total

variable {cap : ℕ} {s : State} {r : Request} {rs : List Request}

/-- What is placed is added to the total. -/
lemma total_place : (place cap s r).2.total =
    s.total + if (place cap s r).1 then r.footprint else 0 := by
  unfold place
  cases s.room cap r with
  | some u => rfl
  | none =>
      dsimp only
      split <;> rfl

lemma opened_place_le : s.opened ≤ (place cap s r).2.opened := by
  unfold place
  cases s.room cap r with
  | some u => exact Nat.le_refl _
  | none =>
      dsimp only
      split
      · exact Nat.le_succ _
      · exact Nat.le_refl _

lemma halfFull_empty : State.empty.HalfFull cap := ⟨0, rfl, by simp [State.empty]⟩

/-- The open bin is closed by a request that does not fit. -/
lemma State.HalfFull.close (h : s.HalfFull cap) (hsmall : 2 * r.size ≤ cap)
    (hroom : s.room cap r = none) : s.opened * (cap + 1) ≤ 2 * s.total := by
  obtain ⟨closed, hopened, hle⟩ := h
  cases hlevel : s.level with
  | none =>
      rw [hlevel] at hopened hle
      rw [hopened]
      exact hle
  | some u =>
      have hfull : cap < u + r.size := by
        by_contra hfits
        simp [State.room, hlevel, hfits] at hroom
      rw [hlevel] at hopened hle
      have hopened : s.opened = closed + 1 := hopened
      have hle : closed * (cap + 1) + 2 * u ≤ 2 * s.total := hle
      rw [hopened, Nat.succ_mul]
      omega

/-- **One request.** -/
lemma State.HalfFull.place (h : s.HalfFull cap) (hsmall : 2 * r.size ≤ cap) :
    (place cap s r).2.HalfFull cap := by
  unfold NextFit.place
  cases hroom : s.room cap r with
  | some u =>
      obtain ⟨hlevel, -⟩ := Option.filter_eq_some_iff.1 hroom
      obtain ⟨closed, hopened, hle⟩ := h
      rw [hlevel] at hopened hle
      refine ⟨closed, hopened, ?_⟩
      simp only [Option.getD_some] at hle ⊢
      omega
  | none =>
      have hclosed := h.close hsmall hroom
      dsimp only
      split
      · refine ⟨s.opened, rfl, ?_⟩
        simp only [Option.getD_some]
        omega
      · exact ⟨s.opened, rfl, hclosed⟩

lemma State.HalfFull.serve (h : s.HalfFull cap) (hsmall : ∀ r ∈ rs, 2 * r.size ≤ cap) :
    (serve (NextFit.place cap) s rs).2.HalfFull cap := by
  induction rs generalizing s with
  | nil => exact h
  | cons r rs ih =>
      have hfirst := h.place (hsmall r List.mem_cons_self)
      exact ih hfirst fun r' hr' => hsmall r' (List.mem_cons_of_mem r hr')

/-- **At most half of the space is wasted**, but for one bin. -/
theorem opened_le (h : s.HalfFull cap) : s.opened ≤ 1 ∨ (s.opened - 1) * cap < 2 * s.total := by
  obtain ⟨closed, hopened, hle⟩ := h
  have hlen : s.level.toList.length ≤ 1 := by cases s.level <;> simp
  rcases Nat.lt_or_ge 1 s.opened with hmany | hone
  · have hpred : s.opened - 1 ≤ closed := by omega
    have hmul : (s.opened - 1) * (cap + 1) ≤ closed * (cap + 1) := Nat.mul_le_mul_right _ hpred
    rw [Nat.mul_succ] at hmul
    omega
  · exact Or.inl hone

end NextFit
