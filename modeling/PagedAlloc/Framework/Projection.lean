import PagedAlloc.Framework.Arena
import Mathlib.Data.Nat.Count

/-!
# The part of an arena that belongs to one owner

Objects of many owners live in one arena, so an identity says when its object was made among all
others.  `rank` is the identity that an object has among the objects of its own owner; it depends
only on the owners of the objects made so far, and does not change when further ones are made.

`Projects` says that a second arena is the view one owner has of the first, with its objects under
their ranks: the operations on the objects of the owner are the same operations there, and those
on the objects of others cannot be seen.
-/

namespace Arena

variable {α β κ : Type*} [DecidableEq κ] {owners more : List κ} {k x : κ} {i j : ℕ}

/-- The number of objects of the owner `k` among the first `i`. -/
def rank (owners : List κ) (k : κ) (i : ℕ) : ℕ := Nat.count (fun j => owners[j]? = some k) i

lemma rank_append (h : i ≤ owners.length) : rank (owners ++ more) k i = rank owners k i := by
  unfold rank
  induction i with
  | zero => simp
  | succ i ih =>
      rw [Nat.count_succ, Nat.count_succ, ih (by omega), List.getElem?_append_left (by omega)]

lemma rank_concat : rank (owners ++ [x]) k (owners.length + 1) =
    rank owners k owners.length + if x = k then 1 else 0 := by
  have hbefore : rank (owners ++ [x]) k owners.length = rank owners k owners.length :=
    rank_append (Nat.le_refl _)
  unfold rank at hbefore ⊢
  rw [Nat.count_succ, hbefore]
  simp

/-- Two objects of one owner have different ranks. -/
lemma rank_inj (hi : owners[i]? = some k) (hj : owners[j]? = some k)
    (h : rank owners k i = rank owners k j) : i = j := Nat.count_injective hi hj h

/-- Changes the object `i`, if it is live. -/
def modify (t : Arena α) (i : ℕ) (f : α → α) : Arena α :=
  match t.get i with
  | none => t
  | some a => t.set i (f a)

lemma modify_of_get {t : Arena α} {a : α} {f : α → α} (h : t.get i = some a) :
    t.modify i f = t.set i (f a) := by
  unfold modify
  rw [h]

/-- The arena `s` is what the owner `k` sees of `t`. -/
structure Projects (owners : List κ) (k : κ) (own : α → κ) (view : α → β) (t : Arena α)
    (s : Arena β) : Prop where
  length : owners.length = t.next
  owned : ∀ i a, t.get i = some a → owners[i]? = some (own a)
  next : s.next = rank owners k t.next
  get : ∀ i a, t.get i = some a → own a = k → s.get (rank owners k i) = some (view a)

namespace Projects

variable {own : α → κ} {view : α → β} {t : Arena α} {s : Arena β} {a b : α}

lemma empty : Projects [] k own view (.empty : Arena α) .empty where
  length := rfl
  owned i a hget := absurd hget (by simp)
  next := by simp [rank, Arena.empty]
  get i a hget := absurd hget (by simp)

/-- A new object; its owner sees it, and nobody else. -/
lemma push (h : Projects owners k own view t s) :
    Projects (owners ++ [own a]) k own view (t.push a)
      (if own a = k then s.push (view a) else s) where
  length := by
    rw [List.length_append, h.length]
    rfl
  owned i b hget := by
    rw [get_push] at hget
    split at hget
    · rename_i hi
      obtain rfl := Option.some.inj hget
      rw [hi, ← h.length]
      simp
    · have hlt := lt_next hget
      rw [← h.length] at hlt
      rw [List.getElem?_append_left hlt]
      exact h.owned i b hget
  next := by
    rw [next_push, ← h.length, rank_concat, h.length, ← h.next]
    split
    · rfl
    · rfl
  get i b hget hown := by
    rw [get_push] at hget
    split at hget
    · rename_i hi
      obtain rfl := Option.some.inj hget
      rw [hi, if_pos hown, rank_append (by rw [h.length]), ← h.next, get_push_self]
    · have hlt := lt_next hget
      rw [rank_append (by rw [h.length]; omega)]
      have hold := h.get i b hget hown
      split
      · exact get_push_of_get hold
      · exact hold

/-- An object is replaced by one with the same owner. -/
lemma set (h : Projects owners k own view t s) (hget : t.get i = some a) (hown : own b = own a) :
    Projects owners k own view (t.set i b)
      (if own a = k then s.set (rank owners k i) (view b) else s) where
  length := h.length
  owned j x hj := by
    rw [get_set hget] at hj
    split at hj
    · rename_i hji
      obtain rfl := Option.some.inj hj
      rw [hji, hown]
      exact h.owned i a hget
    · exact h.owned j x hj
  next := by
    rw [next_set, ← h.next]
    split
    · rfl
    · rfl
  get j x hj hx := by
    rw [get_set hget] at hj
    split at hj
    · rename_i hji
      obtain rfl := Option.some.inj hj
      have hk : own a = k := hown.symm.trans hx
      rw [if_pos hk, hji, get_set_self (h.get i a hget hk)]
    · rename_i hji
      have hold := h.get j x hj hx
      split
      · rename_i hk
        rwa [get_set_of_ne fun hrank => hji (rank_inj ?_ ?_ hrank)]
        · rw [← hx]
          exact h.owned j x hj
        · rw [← hk]
          exact h.owned i a hget
      · exact hold

/-- An object changes, in the same way for its owner. -/
lemma modify {f : β → β} (h : Projects owners k own view t s) (hget : t.get i = some a)
    (hown : own b = own a) (hf : f (view a) = view b) :
    Projects owners k own view (t.set i b)
      (if own a = k then s.modify (rank owners k i) f else s) := by
  have hset := h.set hget hown
  split
  · rename_i hk
    rwa [if_pos hk, ← hf, ← modify_of_get (h.get i a hget hk)] at hset
  · rename_i hk
    rwa [if_neg hk] at hset

/-- A change that cannot be seen. -/
lemma set_of_view_eq (h : Projects owners k own view t s) (hget : t.get i = some a)
    (hown : own b = own a) (hview : own a = k → view b = view a) :
    Projects owners k own view (t.set i b) s where
  length := h.length
  owned j x hj := (h.set hget hown).owned j x hj
  next := h.next
  get j x hj hx := by
    rw [get_set hget] at hj
    split at hj
    · rename_i hji
      obtain rfl := Option.some.inj hj
      have hk : own a = k := hown.symm.trans hx
      rw [hji, hview hk]
      exact h.get i a hget hk
    · exact h.get j x hj hx

/-- An object ends. -/
lemma erase (h : Projects owners k own view t s) (hget : t.get i = some a) :
    Projects owners k own view (t.erase i)
      (if own a = k then s.erase (rank owners k i) else s) where
  length := h.length
  owned j x hj := h.owned j x (get_of_get_erase hj).2
  next := by
    rw [next_erase, ← h.next]
    split
    · rfl
    · rfl
  get j x hj hx := by
    obtain ⟨hji, hj⟩ := get_of_get_erase hj
    have hold := h.get j x hj hx
    split
    · rename_i hk
      rwa [get_erase, if_neg fun hrank => hji (rank_inj ?_ ?_ hrank)]
      · rw [← hx]
        exact h.owned j x hj
      · rw [← hk]
        exact h.owned i a hget
    · exact hold

end Projects

end Arena
