import PagedAlloc.Framework.Bytes

/-!
# Demand-zero memory

Memory as an operating system gives it out.  An address is mapped or it is not.  Mapped memory comes
in units, the pages of its mapping, and a unit gets a frame only when one of its bytes is first
stored to; the frame is zeroed then, and before that the unit reads as zeros.  Frames can be taken
away again (`discard`).

A program cannot tell the difference.  `contents` is what it reads, and for the contents to map is
to zero (`contents_map`), to store is to write (`store_spec`), and to discard is to zero again
(`contents_discard`).  What it can tell is time, and for that there is `committed`: a store to a
unit that has its frame does not fault, and stores take no frame away.
-/

namespace DemandZero

open Bytes

structure AddressSpace where
  /-- The size of the unit that an address is in, `0` if it is not mapped. -/
  unit : ℕ → ℕ
  /-- The unit of the address has a frame. -/
  committed : ℕ → Bool
  frames : Memory

namespace AddressSpace

variable (v : AddressSpace)

def empty : AddressSpace := ⟨fun _ => 0, fun _ => false, fun _ => 0⟩

/-- What a load finds. -/
def contents : Memory := fun x => bif v.committed x then v.frames x else 0

/-- Nothing is mapped in the range. -/
def Free (a n : ℕ) : Prop := ∀ i < n, v.unit (a + i) = 0

instance (a n : ℕ) : Decidable (v.Free a n) :=
  inferInstanceAs (Decidable (∀ i < n, v.unit (a + i) = 0))

/-- The range is mapped, in units of `u` bytes and without frames. -/
def map (a n u : ℕ) : AddressSpace :=
  { v with
    unit := fun x => if a ≤ x ∧ x < a + n then u else v.unit x
    committed := fun x => if a ≤ x ∧ x < a + n then false else v.committed x }

/-- The range loses its frames. -/
def discard (a n : ℕ) : AddressSpace :=
  { v with committed := fun x => if a ≤ x ∧ x < a + n then false else v.committed x }

def unmap (a n : ℕ) : AddressSpace := v.map a n 0

/-- `y` is in the unit of `x`. -/
def SameUnit (x y : ℕ) : Prop := v.unit y = v.unit x ∧ y / v.unit x = x / v.unit x

instance (x y : ℕ) : Decidable (v.SameUnit x y) := inferInstanceAs (Decidable (_ ∧ _))

/-- A store of one byte, which commits its unit.  There is none to an address that is not mapped. -/
def storeByte (x : ℕ) (b : UInt8) : Option AddressSpace :=
  if v.unit x = 0 then none
  else some { v with
    committed := fun y => v.committed y || decide (v.SameUnit x y)
    frames := fun y => if y = x then b else v.contents y }

/-- A store of a byte string, byte by byte. -/
def store (v : AddressSpace) (a : ℕ) : List UInt8 → Option AddressSpace
  | [] => some v
  | b :: bs => (v.storeByte a b).bind fun v => v.store (a + 1) bs

variable {v} {v' : AddressSpace} {a n u x : ℕ} {b : UInt8} {bs : List UInt8}

lemma unit_map : (v.map a n u).unit x = if a ≤ x ∧ x < a + n then u else v.unit x := rfl

lemma contents_map : (v.map a n u).contents = zero v.contents a n := by
  funext x
  unfold contents map zero
  dsimp only
  by_cases hx : a ≤ x ∧ x < a + n
  · rw [if_pos hx, if_pos hx, cond_false]
  · rw [if_neg hx, if_neg hx]

lemma unit_unmap (h : x < a ∨ a + n ≤ x) : (v.unmap a n).unit x = v.unit x := by
  unfold unmap
  rw [unit_map, if_neg (by omega)]

lemma contents_unmap (h : x < a ∨ a + n ≤ x) : (v.unmap a n).contents x = v.contents x := by
  unfold unmap
  rw [contents_map, zero_of_outside h]

lemma contents_discard : (v.discard a n).contents = zero v.contents a n := contents_map (u := 0)

lemma committed_map (h : ¬ (a ≤ x ∧ x < a + n)) : (v.map a n u).committed x = v.committed x :=
  if_neg h

lemma committed_unmap (h : x < a ∨ a + n ≤ x) :
    (v.unmap a n).committed x = v.committed x := committed_map (by omega)

/-- A store changes one byte of the contents, with a fault or without. -/
lemma storeByte_spec (hx : v.unit x ≠ 0) : ∃ v', v.storeByte x b = some v' ∧ v'.unit = v.unit ∧
    v'.contents = Function.update v.contents x b ∧
    ∀ y, v'.committed y = (v.committed y || decide (v.SameUnit x y)) := by
  refine ⟨_, if_neg hx, rfl, ?_, fun y => rfl⟩
  funext y
  unfold contents
  dsimp only
  by_cases hy : y = x
  · subst hy
    have hself : v.SameUnit y y := ⟨rfl, rfl⟩
    rw [Function.update_self, decide_eq_true hself, Bool.or_true, cond_true, if_pos rfl]
  · rw [Function.update_of_ne hy, if_neg hy]
    cases v.committed y with
    | true => rfl
    | false => cases decide (v.SameUnit x y) <;> rfl

lemma write_cons {m : Memory} : write m a (b :: bs) = write (Function.update m a b) (a + 1) bs := by
  funext x
  unfold write
  rcases Nat.lt_trichotomy x a with hlt | rfl | hgt
  · rw [if_neg (by omega), if_neg (by omega), Function.update_of_ne hlt.ne]
  · rw [if_pos le_rfl, if_neg (by omega), Nat.sub_self, Function.update_self]
    rfl
  · rw [if_pos hgt.le, if_pos (Nat.succ_le_of_lt hgt), Function.update_of_ne hgt.ne',
      show x - a = x - (a + 1) + 1 by omega, List.getElem?_cons_succ]

/-- **A store is a write to the contents.** -/
theorem store_spec (h : ∀ i < bs.length, v.unit (a + i) ≠ 0) :
    ∃ v', v.store a bs = some v' ∧ v'.unit = v.unit ∧ v'.contents = write v.contents a bs ∧
      ∀ y, v.committed y → v'.committed y := by
  induction bs generalizing v a with
  | nil =>
      refine ⟨v, rfl, rfl, ?_, fun _ hy => hy⟩
      funext x
      exact (write_of_outside (by simp; omega)).symm
  | cons b bs ih =>
      obtain ⟨v₁, hstore, hunit, hcontents, hcommitted⟩ :=
        storeByte_spec (b := b) (h 0 (Nat.succ_pos _))
      rw [Nat.add_zero] at hstore hcontents
      have hrest : ∀ i < bs.length, v₁.unit (a + 1 + i) ≠ 0 := by
        intro i hi
        have hnext := h (i + 1) (Nat.succ_lt_succ hi)
        rw [hunit, Nat.add_assoc, Nat.add_comm 1 i]
        exact hnext
      obtain ⟨v', hrest, hunit', hcontents', hkept⟩ := ih hrest
      refine ⟨v', ?_, hunit'.trans hunit, ?_, fun y hy => hkept y ?_⟩
      · rw [store, hstore, Option.bind_some, hrest]
      · rw [hcontents', hcontents, write_cons]
      · rw [hcommitted, hy, Bool.true_or]

end AddressSpace

end DemandZero
