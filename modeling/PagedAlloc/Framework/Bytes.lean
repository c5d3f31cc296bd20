import PagedAlloc.Framework.Words
import Mathlib.Data.List.Basic

/-!
# Byte memory

A flat memory of bytes with reads and writes of byte strings, and pointers stored in it as
eight little-endian bytes.  The frame lemmas say that a read only depends on the bytes it covers
(`read_congr`, `readPtr_congr`) and that a write only changes the bytes it covers
(`write_of_outside`), so a write leaves every read of a range apart from it unchanged.

`Apart a n b m` says that the ranges `[a, a + n)` and `[b, b + m)` do not meet, in the form that
linear arithmetic can use.
-/

namespace Bytes

open Words

/-- One byte for every address. -/
abbrev Memory := ℕ → UInt8

variable {m m' : Memory} {a b n k x : ℕ} {bs : List UInt8}

/-- The ranges `[a, a + n)` and `[b, b + k)` do not meet. -/
def Apart (a n b k : ℕ) : Prop := a + n ≤ b ∨ b + k ≤ a

instance : Decidable (Apart a n b k) := inferInstanceAs (Decidable (_ ∨ _))

lemma Apart.symm (h : Apart a n b k) : Apart b k a n := Or.symm h

/-- Parts of ranges that are apart are apart. -/
lemma Apart.mono {a' n' b' k' : ℕ} (h : Apart a n b k) (ha : a ≤ a') (hn : a' + n' ≤ a + n)
    (hb : b ≤ b') (hk : b' + k' ≤ b + k) : Apart a' n' b' k' := by
  unfold Apart at *
  omega

/-- The `n` bytes from `a` on. -/
def read (m : Memory) (a n : ℕ) : List UInt8 := (List.range n).map fun i => m (a + i)

/-- Stores a byte string at `a`. -/
def write (m : Memory) (a : ℕ) (bs : List UInt8) : Memory := fun x =>
  if a ≤ x then (bs[x - a]?).getD (m x) else m x

/-- Stores `n` zero bytes at `a`. -/
def zero (m : Memory) (a n : ℕ) : Memory := fun x => if a ≤ x ∧ x < a + n then 0 else m x

@[simp] lemma length_read : (read m a n).length = n := by simp [read]

lemma write_of_outside (h : x < a ∨ a + bs.length ≤ x) : write m a bs x = m x := by
  unfold write
  rcases h with h | h
  · rw [if_neg (by omega)]
  · rw [if_pos (by omega), List.getElem?_eq_none (by omega)]
    rfl

lemma zero_of_outside (h : x < a ∨ a + n ≤ x) : zero m a n x = m x := by
  unfold zero
  rw [if_neg (by omega)]

/-- A read depends only on the bytes it covers. -/
lemma read_congr (h : ∀ x, a ≤ x → x < a + n → m' x = m x) : read m' a n = read m a n := by
  unfold read
  apply List.map_congr_left
  intro i hi
  have := List.mem_range.1 hi
  exact h (a + i) (by omega) (by omega)

/-- A read determines the bytes it covers. -/
lemma eq_of_read_eq (h : read m' a n = read m a n) (hlow : a ≤ x) (hhigh : x < a + n) :
    m' x = m x := by
  have hget := congrArg (fun bs : List UInt8 => bs[x - a]?) h
  have hlt : x - a < n := by omega
  have hx : a + (x - a) = x := by omega
  simpa [read, hlt, hx] using hget

/-- A function applied to every byte of a range. -/
lemma write_map_read {f : UInt8 → UInt8} (hlow : a ≤ x) (hhigh : x < a + n) :
    write m a ((read m a n).map f) x = f (m x) := by
  have hlt : x - a < n := by omega
  have hx : a + (x - a) = x := by omega
  simp [write, read, hlow, hlt, hx]

lemma read_write_self : read (write m a bs) a bs.length = bs := by
  refine List.ext_getElem (by simp) ?_
  intro i h1 h2
  have hi : i < bs.length := h2
  simp [read, write, hi]

lemma getElem?_read {i : ℕ} (h : i < n) : (read m a n)[i]? = some (m (a + i)) := by
  simp [read, h]

/-- A part of a read is the read of the part. -/
lemma take_read (h : k ≤ n) : (read m a n).take k = read m a k := by
  unfold read
  rw [← List.map_take, List.take_range, Nat.min_eq_left h]

/-- A write inside a range replaces the bytes from its position on. -/
lemma read_write (h : k + bs.length ≤ n) : read (write m (a + k) bs) a n =
    (read m a n).take k ++ bs ++ (read m a n).drop (k + bs.length) := by
  refine List.ext_getElem? ?_
  intro i
  by_cases hi : i < n
  · have htake : ((read m a n).take k).length = k := by
      rw [List.length_take, length_read]
      omega
    rw [getElem?_read hi, List.append_assoc, write]
    by_cases hlow : i < k
    · rw [List.getElem?_append_left (by omega), List.getElem?_take_of_lt hlow, getElem?_read hi,
        if_neg (by omega)]
    · rw [List.getElem?_append_right (by omega), htake, if_pos (by omega),
        show a + i - (a + k) = i - k by omega]
      by_cases hhigh : i - k < bs.length
      · rw [List.getElem?_append_left hhigh, List.getElem?_eq_getElem hhigh]
        rfl
      · rw [List.getElem?_append_right (by omega), List.getElem?_eq_none (by omega),
          List.getElem?_drop, show k + bs.length + (i - k - bs.length) = i by omega,
          getElem?_read hi]
        rfl
  · rw [List.getElem?_eq_none (by rw [length_read]; omega), List.getElem?_eq_none]
    simp only [List.length_append, List.length_take, List.length_drop, length_read]
    omega

/-! ## Pointers -/

/-- The `n` low-order bytes of a word, least significant first. -/
def encode : ℕ → ℕ → List UInt8
  | 0, _ => []
  | n + 1, v => UInt8.ofNat v :: encode n (v / 256)

/-- The number a little-endian byte string stands for. -/
def decode : List UInt8 → ℕ
  | [] => 0
  | b :: bs => b.toNat + 256 * decode bs

@[simp] lemma length_encode (n v : ℕ) : (encode n v).length = n := by
  induction n generalizing v with
  | zero => rfl
  | succ n ih => simp [encode, ih]

lemma decode_encode (n v : ℕ) : decode (encode n v) = v % 256 ^ n := by
  induction n generalizing v with
  | zero => simp [encode, decode, Nat.mod_one]
  | succ n ih =>
      have hbyte : (UInt8.ofNat v).toNat = v % 256 := by simp
      rw [encode, decode, ih, hbyte, Nat.pow_succ', Nat.mod_mul]

/-- The pointer stored in the eight bytes from `a` on. -/
def readPtr (m : Memory) (a : ℕ) : ℕ := decode (read m a 8)

/-- Stores a pointer in the eight bytes from `a` on. -/
def writePtr (m : Memory) (a v : ℕ) : Memory := write m a (encode 8 v)

lemma readPtr_congr (h : ∀ x, a ≤ x → x < a + 8 → m' x = m x) : readPtr m' a = readPtr m a := by
  unfold readPtr
  rw [read_congr h]

/-- A zeroed pointer is null. -/
lemma readPtr_zero (hn : 8 ≤ n) : readPtr (zero m a n) a = 0 := by
  have hread : read (zero m a n) a 8 = read (fun _ => 0) a 8 :=
    read_congr fun x hlow hhigh => if_pos ⟨hlow, by omega⟩
  have hconst : read (fun _ => 0) a 8 = List.replicate 8 0 := by
    unfold read
    rw [List.map_const', List.length_range]
  have hdecode : decode (List.replicate 8 0) = 0 := by decide
  rw [readPtr, hread, hconst, hdecode]

lemma writePtr_of_outside {v : ℕ} (h : x < a ∨ a + 8 ≤ x) : writePtr m a v x = m x := by
  unfold writePtr
  exact write_of_outside (by rwa [length_encode])

lemma readPtr_writePtr_self {v : ℕ} (hv : v < size64) : readPtr (writePtr m a v) a = v := by
  have hread : read (writePtr m a v) a 8 = encode 8 v := by
    have hself : read (write m a (encode 8 v)) a (encode 8 v).length = encode 8 v :=
      read_write_self
    rwa [length_encode] at hself
  unfold readPtr
  rw [hread, decode_encode, Nat.mod_eq_of_lt]
  rw [size64_eq] at hv
  exact hv

end Bytes
