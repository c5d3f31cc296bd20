import Mathlib.Algebra.BigOperators.Group.Finset.Basic
import Mathlib.Algebra.Order.BigOperators.Group.Finset
import Mathlib.Data.Finset.Range
import Mathlib.Tactic.Abel

/-!
# Arenas: tables of live objects under identities that are never reused

An arena maps identities to objects.  `push` stores a new object under the next identity, `set`
replaces a live object, `erase` ends its life; the field `get_of_le` carries the fact that
identities from `next` on have not been given out, so a pushed object is always new.

`Arena.val f i` is `f` of the object `i`, and `Arena.sum f` the sum of `f` over the live objects.
The laws `sum_push`, `sum_set` and `sum_erase`, and those of `val`, say how they move with each
operation, written without subtraction, and are what an accounting invariant ("the counter is
the sum of the charges of the live objects") needs.
-/

/-- A table of live objects; identities are given out in order and never reused. -/
structure Arena (α : Type*) where
  get : ℕ → Option α
  next : ℕ
  get_of_le : ∀ i, next ≤ i → get i = none

namespace Arena

open Finset

variable {α M : Type*} {t : Arena α} {i j : ℕ} {a b : α}

/-- The arena without objects. -/
def empty : Arena α := ⟨fun _ => none, 0, fun _ _ => rfl⟩

/-- Stores a new object under the identity `t.next`. -/
def push (t : Arena α) (a : α) : Arena α where
  get j := if j = t.next then some a else t.get j
  next := t.next + 1
  get_of_le j hj := by
    rw [if_neg (by omega)]
    exact t.get_of_le j (by omega)

/-- Replaces the object `i`, if it is live. -/
def set (t : Arena α) (i : ℕ) (a : α) : Arena α where
  get j := if j = i then (t.get i).map fun _ => a else t.get j
  next := t.next
  get_of_le j hj := by
    split
    · rename_i h
      rw [← h, t.get_of_le j hj]
      rfl
    · exact t.get_of_le j hj

/-- Ends the life of the object `i`. -/
def erase (t : Arena α) (i : ℕ) : Arena α where
  get j := if j = i then none else t.get j
  next := t.next
  get_of_le j hj := by
    split
    · rfl
    · exact t.get_of_le j hj

lemma lt_next (h : t.get i = some a) : i < t.next := by
  by_contra hle
  rw [t.get_of_le i (Nat.le_of_not_lt hle)] at h
  exact absurd h (by simp)

@[simp] lemma get_empty : (empty : Arena α).get i = none := rfl

@[simp] lemma next_push : (t.push a).next = t.next + 1 := rfl

@[simp] lemma next_set : (t.set i a).next = t.next := rfl

@[simp] lemma next_erase : (t.erase i).next = t.next := rfl

lemma get_push : (t.push a).get j = if j = t.next then some a else t.get j := rfl

@[simp] lemma get_push_self : (t.push a).get t.next = some a := if_pos rfl

lemma get_push_of_get (h : t.get i = some b) : (t.push a).get i = some b := by
  rw [get_push, if_neg (lt_next h).ne, h]

lemma get_set (h : t.get i = some a) :
    (t.set i b).get j = if j = i then some b else t.get j := by
  show (if j = i then (t.get i).map fun _ => b else t.get j) = _
  rw [h]
  rfl

lemma get_set_self (h : t.get i = some a) : (t.set i b).get i = some b := by
  rw [get_set h, if_pos rfl]

@[simp] lemma get_set_of_ne (h : j ≠ i) : (t.set i b).get j = t.get j := if_neg h

lemma get_set_eq_some (h : t.get i = some a) {c : α} :
    (t.set i b).get j = some c ↔ j = i ∧ c = b ∨ j ≠ i ∧ t.get j = some c := by
  rw [get_set h]
  split
  · rename_i hj
    simp [hj, eq_comm]
  · rename_i hj
    simp [hj]

lemma get_push_eq_some {c : α} :
    (t.push a).get j = some c ↔ j = t.next ∧ c = a ∨ j ≠ t.next ∧ t.get j = some c := by
  rw [get_push]
  split
  · rename_i hj
    simp [hj, eq_comm]
  · rename_i hj
    simp [hj]

lemma get_erase : (t.erase i).get j = if j = i then none else t.get j := rfl

@[simp] lemma get_erase_self : (t.erase i).get i = none := if_pos rfl

lemma get_erase_push : ((t.push a).erase t.next).get j = t.get j := by
  rw [get_erase, get_push]
  split
  · rename_i hj
    exact (t.get_of_le j (Nat.le_of_eq hj.symm)).symm
  · rfl

lemma get_of_get_erase (h : (t.erase i).get j = some a) : j ≠ i ∧ t.get j = some a := by
  rw [get_erase] at h
  by_cases hji : j = i
  · rw [if_pos hji] at h
    exact absurd h (by simp)
  · rw [if_neg hji] at h
    exact ⟨hji, h⟩

lemma set_set : (t.set i a).set i b = t.set i b := by
  have hget : ((t.set i a).set i b).get = (t.set i b).get := by
    funext j
    by_cases hji : j = i
    · simp [set, hji, Function.comp_def]
    · rw [get_set_of_ne hji, get_set_of_ne hji, get_set_of_ne hji]
  unfold set at hget ⊢
  congr 1

/-! ## Values of one object -/

/-- `f` of the object `i`, and zero if it is not live. -/
def val (t : Arena α) (f : α → ℕ) (i : ℕ) : ℕ := (t.get i).elim 0 f

section Val

variable {f : α → ℕ}

lemma val_of_get (h : t.get i = some a) : t.val f i = f a := by
  unfold val
  rw [h]
  rfl

lemma val_of_none (h : t.get i = none) : t.val f i = 0 := by
  unfold val
  rw [h]
  rfl

lemma val_push : (t.push a).val f j = t.val f j + if j = t.next then f a else 0 := by
  by_cases hj : j = t.next
  · rw [if_pos hj, hj, val_of_get get_push_self, val_of_none (t.get_of_le _ (Nat.le_refl _)),
      Nat.zero_add]
  · unfold val
    rw [get_push, if_neg hj, if_neg hj]
    rfl

lemma val_set (h : t.get i = some a) :
    (t.set i b).val f j + (if j = i then f a else 0) = t.val f j + if j = i then f b else 0 := by
  by_cases hj : j = i
  · rw [if_pos hj, if_pos hj, hj, val_of_get h, val_of_get ((get_set h).trans (if_pos rfl)),
      Nat.add_comm]
  · unfold val
    rw [get_set_of_ne hj, if_neg hj, if_neg hj]

lemma val_set_of_ne (h : j ≠ i) : (t.set i b).val f j = t.val f j := by
  unfold val
  rw [get_set_of_ne h]

lemma val_erase (h : t.get i = some a) :
    (t.erase i).val f j + (if j = i then f a else 0) = t.val f j := by
  by_cases hj : j = i
  · rw [if_pos hj, hj, val_of_get h, val_of_none get_erase_self, Nat.zero_add]
  · unfold val
    rw [get_erase, if_neg hj, if_neg hj]
    rfl

end Val

/-! ## Sums over the live objects -/

section Sum

variable [AddCommMonoid M] {f : α → M}

/-- The sum of `f` over the live objects. -/
def sum (t : Arena α) (f : α → M) : M := ∑ i ∈ range t.next, (t.get i).elim 0 f

@[simp] lemma sum_empty : (empty : Arena α).sum f = 0 := rfl

lemma sum_push : (t.push a).sum f = t.sum f + f a := by
  unfold sum
  rw [next_push, sum_range_succ, get_push_self]
  congr 1
  refine sum_congr rfl ?_
  intro j hj
  rw [get_push, if_neg (mem_range.1 hj).ne]

/-- Splits off one live object. -/
lemma sum_eq_add (h : t.get i = some a) :
    t.sum f = f a + ∑ j ∈ (range t.next).erase i, (t.get j).elim 0 f := by
  unfold sum
  rw [← add_sum_erase _ _ (mem_range.2 (lt_next h)), h]
  rfl

lemma sum_set (h : t.get i = some a) : (t.set i b).sum f + f a = t.sum f + f b := by
  have hset : (t.set i b).get i = some b := by rw [get_set h, if_pos rfl]
  rw [sum_eq_add h, sum_eq_add hset, next_set]
  have hrest : ∑ j ∈ (range t.next).erase i, ((t.set i b).get j).elim 0 f =
      ∑ j ∈ (range t.next).erase i, (t.get j).elim 0 f := by
    refine sum_congr rfl ?_
    intro j hj
    rw [get_set_of_ne (ne_of_mem_erase hj)]
  rw [hrest]
  abel

lemma sum_set_of_eq [IsRightCancelAdd M] (h : t.get i = some a) (hf : f b = f a) :
    (t.set i b).sum f = t.sum f := by
  have hsum := sum_set (f := f) (b := b) h
  rw [hf] at hsum
  exact add_right_cancel hsum

lemma sum_erase (h : t.get i = some a) : (t.erase i).sum f + f a = t.sum f := by
  rw [sum_eq_add h, add_comm]
  congr 1
  unfold sum
  rw [next_erase, ← add_sum_erase _ _ (mem_range.2 (lt_next h)), get_erase_self]
  rw [Option.elim_none, zero_add]
  refine sum_congr rfl ?_
  intro j hj
  rw [get_erase, if_neg (ne_of_mem_erase hj)]

lemma sum_eq_zero (h : ∀ i a, t.get i = some a → f a = 0) : t.sum f = 0 := by
  apply Finset.sum_eq_zero
  intro i _
  cases hi : t.get i with
  | none => rfl
  | some a => exact h i a hi

lemma sum_ext {g : α → M} (h : ∀ i a, t.get i = some a → f a = g a) : t.sum f = t.sum g := by
  refine Finset.sum_congr rfl ?_
  intro i _
  cases hi : t.get i with
  | none => rfl
  | some a => exact h i a hi

lemma exists_of_sum_ne_zero (h : t.sum f ≠ 0) : ∃ i a, t.get i = some a ∧ f a ≠ 0 := by
  by_contra hnone
  refine h (sum_eq_zero fun i a hi => ?_)
  by_contra hne
  exact hnone ⟨i, a, hi, hne⟩

/-- Homomorphisms go through sums. -/
lemma hom_sum {N : Type*} [AddCommMonoid N] (φ : M →+ N) : φ (t.sum f) = t.sum fun a => φ (f a) := by
  unfold sum
  rw [map_sum]
  refine sum_congr rfl ?_
  intro i _
  cases t.get i with
  | none => exact map_zero φ
  | some a => rfl

end Sum

lemma cast_sum {f : α → ℕ} : ((t.sum f : ℕ) : ℤ) = t.sum fun a => (f a : ℤ) :=
  t.hom_sum (Nat.castAddMonoidHom ℤ)

lemma sum_nonneg {f : α → ℤ} (h : ∀ i a, t.get i = some a → 0 ≤ f a) : 0 ≤ t.sum f := by
  apply Finset.sum_nonneg
  intro i _
  cases hi : t.get i with
  | none => exact le_refl 0
  | some a => exact h i a hi

lemma le_sum {f : α → ℕ} (h : t.get i = some a) : f a ≤ t.sum f := by
  have := sum_erase (f := f) h
  omega

lemma add_le_sum {f : α → ℕ} (hi : t.get i = some a) (hj : t.get j = some b) (hij : i ≠ j) :
    f a + f b ≤ t.sum f := by
  have hsplit := sum_erase (f := f) hi
  have hrest : f b ≤ (t.erase i).sum f := le_sum (by rw [get_erase, if_neg hij.symm, hj])
  omega

lemma sum_le_sum {N : Type*} [AddCommMonoid N] [PartialOrder N] [IsOrderedAddMonoid N]
    {f g : α → N} (h : ∀ i a, t.get i = some a → f a ≤ g a) : t.sum f ≤ t.sum g := by
  apply Finset.sum_le_sum
  intro i _
  cases hi : t.get i with
  | none => exact le_refl 0
  | some a => exact h i a hi

lemma le_sum_int {f : α → ℤ} (hf : ∀ i a, t.get i = some a → 0 ≤ f a) (h : t.get i = some a) :
    f a ≤ t.sum f := by
  have hsplit := sum_erase (f := f) h
  have hrest : 0 ≤ (t.erase i).sum f :=
    sum_nonneg fun j b hj => hf j b (get_of_get_erase hj).2
  omega

/-! ## What the live objects cover -/

section Cover

variable {f : α → Finset ℕ} {x : ℕ}

/-- The points that the live objects cover. -/
def cover (t : Arena α) (f : α → Finset ℕ) : Finset ℕ :=
  (range t.next).biUnion fun i => (t.get i).elim ∅ f

lemma mem_cover : x ∈ t.cover f ↔ ∃ i a, t.get i = some a ∧ x ∈ f a := by
  unfold cover
  rw [mem_biUnion]
  constructor
  · rintro ⟨i, -, hx⟩
    cases hi : t.get i with
    | none =>
        rw [hi] at hx
        exact absurd hx (by simp)
    | some a =>
        rw [hi] at hx
        exact ⟨i, a, hi, hx⟩
  · rintro ⟨i, a, hi, hx⟩
    refine ⟨i, mem_range.2 (lt_next hi), ?_⟩
    rw [hi]
    exact hx

/-- Objects that do not overlap cover as many points as they have together. -/
lemma card_cover (h : ∀ i j a b, t.get i = some a → t.get j = some b → i ≠ j →
    Disjoint (f a) (f b)) : (t.cover f).card = t.sum fun a => (f a).card := by
  unfold cover sum
  rw [card_biUnion]
  · refine sum_congr rfl ?_
    intro i _
    cases t.get i with
    | none => rfl
    | some a => rfl
  · intro i _ j _ hij
    show Disjoint ((t.get i).elim ∅ f) ((t.get j).elim ∅ f)
    cases hi : t.get i with
    | none => exact disjoint_empty_left _
    | some a =>
        cases hj : t.get j with
        | none => exact disjoint_empty_right _
        | some b => exact h i j a b hi hj hij

end Cover

/-! ## Later states -/

/-- `t'` is a later state of `t`: what is live in both is related by `R`, and what has died stays
dead. -/
structure Later (R : α → α → Prop) (t t' : Arena α) : Prop where
  next_le : t.next ≤ t'.next
  get : ∀ i b, i < t.next → t'.get i = some b → ∃ a, t.get i = some a ∧ R a b

section Later

variable {R : α → α → Prop} {t' t'' : Arena α}

lemma Later.refl (hR : ∀ a, R a a) : Later R t t :=
  ⟨Nat.le_refl _, fun _ b _ hb => ⟨b, hb, hR b⟩⟩

lemma Later.trans (hR : ∀ a b c, R a b → R b c → R a c) (h : Later R t t')
    (h' : Later R t' t'') : Later R t t'' where
  next_le := h.next_le.trans h'.next_le
  get i c hi hc := by
    obtain ⟨b, hb, hbc⟩ := h'.get i c (hi.trans_le h.next_le) hc
    obtain ⟨a, ha, hab⟩ := h.get i b hi hb
    exact ⟨a, ha, hR a b c hab hbc⟩

lemma later_push (hR : ∀ a, R a a) : Later R t (t.push a) where
  next_le := Nat.le_succ _
  get i b hi hb := by
    rw [get_push, if_neg hi.ne] at hb
    exact ⟨b, hb, hR b⟩

lemma later_set (hR : ∀ a, R a a) (hget : t.get i = some a) (hab : R a b) :
    Later R t (t.set i b) where
  next_le := Nat.le_refl _
  get j c _ hc := by
    rw [get_set hget] at hc
    split at hc
    · rename_i hji
      obtain rfl := Option.some.inj hc
      exact ⟨a, hji ▸ hget, hab⟩
    · exact ⟨c, hc, hR c⟩

lemma later_erase (hR : ∀ a, R a a) : Later R t (t.erase i) where
  next_le := Nat.le_refl _
  get _ c _ hc := ⟨c, (get_of_get_erase hc).2, hR c⟩

end Later

end Arena
