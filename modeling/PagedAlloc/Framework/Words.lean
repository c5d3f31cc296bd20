import Mathlib.Algebra.Order.Ring.Int
import Mathlib.Tactic.Ring

/-!
# Fixed-width words as natural numbers

Machine words are carried as natural numbers, with the wrap-around written out at every
operation that can wrap.  `fetchAdd` and `fetchSub` are the read-modify-write accesses of an
unsigned 64-bit atomic (the value *after* the access); `truncate32` is the narrowing cast from
a 64-bit to a 32-bit word.

The lemmas say how a counter that is only ever changed by these accesses tracks an ideal total:
if the counter is the total modulo `2 ^ 64` then it stays so, and a subtraction that the total
can pay for never wraps it.  The integer forms (`cast_fetchAdd`, `cast_fetchSub`) carry the
same fact for a total that is allowed to go negative, which is what a race needs.
-/

namespace Words

/-- The number of values of a 64-bit word.  Irreducible, so that unification never counts up
to it. -/
@[irreducible] def size64 : ℕ := 2 ^ 64

/-- The number of values of a 32-bit word. -/
def size32 : ℕ := 2 ^ 32

/-- The value of an unsigned 64-bit atomic after `fetch_add(n)`: the sum if it fits, wrapped
around if it does not. -/
def fetchAdd (c n : ℕ) : ℕ :=
  if c + n < size64 then c + n else (c + n) % size64

/-- The value of an unsigned 64-bit atomic after `fetch_sub(n)`: the difference if the value
can pay for it, wrapped around below zero if it cannot. -/
def fetchSub (c n : ℕ) : ℕ :=
  if n ≤ c then (c - n) % size64 else (size64 - (n - c) % size64) % size64

/-- The narrowing cast of a 64-bit word to a 32-bit one. -/
def truncate32 (n : ℕ) : ℕ := n % size32

lemma size64_eq : size64 = 2 ^ 64 := by rw [size64]

lemma size64_pos : 0 < size64 := by rw [size64_eq]; decide

lemma truncate32_lt (n : ℕ) : truncate32 n < size32 := Nat.mod_lt _ (by decide)

lemma truncate32_le (n : ℕ) : truncate32 n ≤ n := Nat.mod_le _ _

/-- The cast is exact precisely below `2 ^ 32`. -/
lemma truncate32_eq_iff (n : ℕ) : truncate32 n = n ↔ n < size32 := by
  constructor
  · intro h
    rw [← h]
    exact truncate32_lt n
  · exact Nat.mod_eq_of_lt

/-- Clearing the `k` low bits of a 64-bit word rounds it down to a multiple of `2 ^ k`. -/
lemma and_mask {x k : ℕ} (hx : x < size64) (hk : k < 64) :
    x &&& (size64 - 1 - (2 ^ k - 1)) = 2 ^ k * (x / 2 ^ k) := by
  have hpow : 0 < 2 ^ k := Nat.two_pow_pos k
  have hlt : 2 ^ k - 1 < 2 ^ 64 := by
    have := Nat.pow_lt_pow_right (a := 2) (by decide) hk
    omega
  rw [size64_eq] at hx ⊢
  have hmask : 2 ^ 64 - 1 - (2 ^ k - 1) = 2 ^ 64 - ((2 ^ k - 1) + 1) := by omega
  apply Nat.eq_of_testBit_eq
  intro i
  rw [hmask, Nat.testBit_and, Nat.testBit_two_pow_sub_succ hlt, Nat.testBit_two_pow_sub_one,
    Nat.testBit_two_pow_mul, Nat.testBit_div_two_pow]
  by_cases hik : k ≤ i
  · by_cases hi : i < 64
    · simp [hik, hi, Nat.not_lt.2 hik]
    · have hbit : x.testBit i = false :=
        Nat.testBit_lt_two_pow (Nat.lt_of_lt_of_le hx (Nat.pow_le_pow_right (by decide)
          (Nat.le_of_not_lt hi)))
      simp [hik, hi, hbit]
  · simp [hik, Nat.lt_of_not_le hik]

/-! ## Counters against an unbounded total -/

lemma fetchAdd_eq (c n : ℕ) : fetchAdd c n = (c + n) % size64 := by
  unfold fetchAdd
  split
  · rename_i h
    exact (Nat.mod_eq_of_lt h).symm
  · rfl

lemma fetchAdd_mod (total n : ℕ) : fetchAdd (total % size64) n = (total + n) % size64 := by
  rw [fetchAdd_eq, Nat.mod_add_mod]

lemma cast_fetchAdd (c n : ℕ) :
    ((fetchAdd c n : ℕ) : ℤ) = ((c : ℤ) + n) % (size64 : ℤ) := by
  rw [fetchAdd_eq]
  push_cast
  rfl

lemma cast_fetchSub (c n : ℕ) :
    ((fetchSub c n : ℕ) : ℤ) = ((c : ℤ) - n) % (size64 : ℤ) := by
  unfold fetchSub
  split
  · rename_i h
    push_cast [Nat.cast_sub h]
    rfl
  · rename_i h
    have hlt : (n - c) % size64 < size64 := Nat.mod_lt _ size64_pos
    push_cast [Nat.cast_sub hlt.le, Nat.cast_sub (Nat.le_of_not_le h)]
    rw [Int.sub_emod_emod, Int.sub_emod_left, neg_sub]

/-- A subtraction the total can pay for does not wrap. -/
lemma fetchSub_mod {total n : ℕ} (h : n ≤ total) :
    fetchSub (total % size64) n = (total - n) % size64 := by
  have hcast : ((fetchSub (total % size64) n : ℕ) : ℤ) = ((total - n) % size64 : ℕ) := by
    rw [cast_fetchSub]
    push_cast [Nat.cast_sub h]
    exact Int.emod_sub_emod ..
  exact_mod_cast hcast

lemma fetchAdd_lt (c n : ℕ) : fetchAdd c n < size64 := by
  rw [fetchAdd_eq]
  exact Nat.mod_lt _ size64_pos

lemma fetchSub_lt (c n : ℕ) : fetchSub c n < size64 := by
  unfold fetchSub
  split <;> exact Nat.mod_lt _ size64_pos

/-- Subtracting `n` undoes adding `m` exactly if the two are equal. -/
lemma fetchSub_fetchAdd_eq_iff {c m n : ℕ} (hc : c < size64) (hm : m < size64) (hle : n ≤ m) :
    fetchSub (fetchAdd c m) n = c ↔ n = m := by
  rw [fetchAdd_eq, fetchSub_mod (by omega)]
  constructor
  · intro h
    by_contra hne
    by_cases hwrap : c + m - n < size64
    · rw [Nat.mod_eq_of_lt hwrap] at h
      omega
    · rw [Nat.mod_eq_sub_mod (by omega), Nat.mod_eq_of_lt (by omega)] at h
      omega
  · rintro rfl
    rw [Nat.add_sub_cancel, Nat.mod_eq_of_lt hc]

lemma fetchAdd_of_lt {c n : ℕ} (h : c + n < size64) : fetchAdd c n = c + n := by
  rw [fetchAdd_eq, Nat.mod_eq_of_lt h]

lemma fetchSub_of_le {c n : ℕ} (h : n ≤ c) (hc : c < size64) : fetchSub c n = c - n := by
  unfold fetchSub
  rw [if_pos h, Nat.mod_eq_of_lt]
  omega

lemma cast_fetchAdd_emod {c : ℕ} {total : ℤ} (h : (c : ℤ) = total % (size64 : ℤ)) (n : ℕ) :
    ((fetchAdd c n : ℕ) : ℤ) = (total + n) % (size64 : ℤ) := by
  rw [cast_fetchAdd, h, Int.emod_add_emod]

lemma cast_fetchSub_emod {c : ℕ} {total : ℤ} (h : (c : ℤ) = total % (size64 : ℤ)) (n : ℕ) :
    ((fetchSub c n : ℕ) : ℤ) = (total - n) % (size64 : ℤ) := by
  rw [cast_fetchSub, h, Int.emod_sub_emod]

/-- A field of every entry of a table follows its total when one entry changes: the field of the
changed entry does, and the total of the others gains nothing. -/
lemma cast_update_emod {ι α : Type*} [DecidableEq ι] {f : ι → α} {g : α → ℕ} {a : α} {i j : ι}
    {total d : ℤ} (h : (g (f j) : ℤ) = total % (size64 : ℤ))
    (hself : j = i → (g (f i) : ℤ) = total % (size64 : ℤ) →
      (g a : ℤ) = (total + d) % (size64 : ℤ))
    (hne : j ≠ i → d = 0) :
    (g (Function.update f i a j) : ℤ) = (total + d) % (size64 : ℤ) := by
  by_cases hji : j = i
  · rw [hji, Function.update_self]
    exact hself hji (hji ▸ h)
  · rw [Function.update_of_ne hji, hne hji, add_zero]
    exact h

end Words
