import PagedAlloc.Framework.Arena
import PagedAlloc.Framework.BoundedBuffer

/-!
# Drafts and blobs

A store of byte strings that are filled once and then shared.  An object starts as a draft, a
bounded buffer with one owner; frozen, it becomes a blob, whose content no longer changes and
which lives until its last reader drops it.

Objects do not see each other: what has become of one after a run of the store is what its own
actions have made of it, in their order (`get_run`).  So a draft shows what its owner has done to
it (`life_commands`), and a blob keeps its content and is there precisely as long as it has been
shared more often than dropped (`life_blob`), whatever happens to the rest of the store.
-/

namespace BlobStore

open BoundedBuffer Transition

variable {α : Type*}

/-! ## One object -/

inductive Item (α : Type*)
  | draft {c : ℕ} (b : Buffer α c)
  | blob (capacity : ℕ) (content : List α) (readers : ℕ)

inductive Action (α : Type*)
  | command (r : Command α)
  | freeze
  | share
  | drop

def Action.isShare : Action α → Bool
  | .share => true
  | _ => false

def Action.isDrop : Action α → Bool
  | .drop => true
  | _ => false

/-- What an action leaves of an object, `none` inside if it is gone.  Only a draft is written to
and frozen, and only a blob is shared. -/
def Item.act : Item α → Action α → Option (Option (Item α))
  | .draft b, .command r => some (some (.draft (b.respond r).2))
  | .draft (c := c) b, .freeze => some (some (.blob c b.content 1))
  | .draft _, .drop => some none
  | .blob c x n, .share => some (some (.blob c x (n + 1)))
  | .blob c x n, .drop => some (if n = 1 then none else some (.blob c x (n - 1)))
  | _, _ => none

/-- An action on what there is of an object. -/
def life (o : Option (Item α)) (a : Action α) : Option (Option (Item α)) := o.bind fun x => x.act a

/-! ## The store -/

inductive Event (α : Type*)
  | create (c : ℕ) (cells : List α)
  | act (i : ℕ) (a : Action α)

/-- Puts back what an action has left of the object `i`. -/
def putBack (s : Arena (Item α)) (i : ℕ) : Option (Item α) → Arena (Item α)
  | none => s.erase i
  | some y => s.set i y

/-- A draft begins with the cells it is given and no content. -/
def step (s : Arena (Item α)) : Event α → Option (Arena (Item α))
  | .create c cells =>
      if h : cells.length = c then some (s.push (.draft ⟨cells, 0, h, Nat.zero_le c⟩)) else none
  | .act i a => (s.get i).bind fun x => (x.act a).map (putBack s i)

/-- The action on the object `i`, if the event is one. -/
def Event.on (i : ℕ) : Event α → Option (Action α)
  | .create _ _ => none
  | .act j a => if j = i then some a else none

/-- The actions on the object `i`, in order. -/
def actions (i : ℕ) (es : List (Event α)) : List (Action α) := es.filterMap (Event.on i)

lemma actions_append (i : ℕ) (es es' : List (Event α)) :
    actions i (es ++ es') = actions i es ++ actions i es' := List.filterMap_append

/-! ## Objects do not see each other -/

section Independence

variable {s s' : Arena (Item α)} {e : Event α} {es : List (Event α)} {i j : ℕ} {a : Action α}

lemma get_putBack_self {x : Item α} (hx : s.get i = some x) (o : Option (Item α)) :
    (putBack s i o).get i = o := by
  cases o with
  | none => exact Arena.get_erase_self
  | some y => exact Arena.get_set_self hx

lemma get_putBack_of_ne (hj : j ≠ i) (o : Option (Item α)) :
    (putBack s i o).get j = s.get j := by
  cases o with
  | none => exact if_neg hj
  | some y => exact Arena.get_set_of_ne hj

@[simp] lemma next_putBack (o : Option (Item α)) : (putBack s i o).next = s.next := by
  cases o <;> rfl

lemma step_create_eq_some {c : ℕ} {cells : List α} :
    step s (.create c cells) = some s' ↔
      ∃ h : cells.length = c, s.push (.draft ⟨cells, 0, h, Nat.zero_le c⟩) = s' := by
  unfold step
  by_cases h : cells.length = c
  · simp [h]
  · simp [h]

lemma step_act_eq_some : step s (.act i a) = some s' ↔
    ∃ x o, s.get i = some x ∧ x.act a = some o ∧ putBack s i o = s' := by
  unfold step
  simp [Option.bind_eq_some_iff]

lemma next_le_of_step (h : step s e = some s') : s.next ≤ s'.next := by
  cases e with
  | create c cells =>
      obtain ⟨hlen, rfl⟩ := step_create_eq_some.1 h
      exact Nat.le_succ _
  | act j a =>
      obtain ⟨x, o, -, -, rfl⟩ := step_act_eq_some.1 h
      exact (next_putBack o).ge

/-- **One event**: an object sees its own action and nothing else. -/
lemma get_step (h : step s e = some s') (hi : i < s.next) :
    run life (s.get i) (e.on i).toList = some (s'.get i) := by
  cases e with
  | create c cells =>
      obtain ⟨hlen, rfl⟩ := step_create_eq_some.1 h
      rw [Arena.get_push, if_neg hi.ne]
      rfl
  | act j a =>
      obtain ⟨x, o, hx, hact, rfl⟩ := step_act_eq_some.1 h
      by_cases hji : j = i
      · subst hji
        rw [get_putBack_self hx, Event.on, if_pos rfl, Option.toList_some]
        refine run_cons_eq_some.2 ⟨o, ?_, rfl⟩
        rw [life, hx, Option.bind_some, hact]
      · rw [get_putBack_of_ne (Ne.symm hji), Event.on, if_neg hji]
        rfl

/-- **The store projects to its objects.** -/
theorem get_run (h : run step s es = some s') (hi : i < s.next) :
    run life (s.get i) (actions i es) = some (s'.get i) := by
  induction es generalizing s with
  | nil =>
      obtain rfl : s = s' := by simpa using h
      rfl
  | cons e es ih =>
      obtain ⟨m, hm, hrest⟩ := run_cons_eq_some.1 h
      have hfirst := get_step hm hi
      have hthen := ih hrest (hi.trans_le (next_le_of_step hm))
      have hsplit : actions i (e :: es) = (e.on i).toList ++ actions i es := by
        unfold actions
        rw [List.filterMap_cons]
        cases e.on i <;> rfl
      rw [hsplit]
      exact run_append_eq_some.2 ⟨m.get i, hfirst, hthen⟩

end Independence

/-! ## Lives -/

section Lives

variable {c n : ℕ} {b : Buffer α c} {x : List α} {as : List (Action α)} {o : Option (Item α)}

/-- Nothing can be done to an object that is gone. -/
lemma life_none (h : run life (none : Option (Item α)) as = some o) : as = [] ∧ o = none := by
  cases as with
  | nil => exact ⟨rfl, (Option.some.inj h).symm⟩
  | cons a as => exact absurd h (by simp [run_cons, life])

/-- **A draft is the buffer that its owner works on.** -/
theorem life_commands (rs : List (Command α)) :
    run life (some (.draft b)) (rs.map .command) =
      some (some (.draft (serve Buffer.respond b rs).2)) := by
  induction rs generalizing b with
  | nil => rfl
  | cons r rs ih => exact run_cons_eq_some.2 ⟨_, rfl, ih⟩

/-- **A blob keeps its capacity and its content**, and has as many readers as it was shared more
often than dropped; with none left it is gone. -/
theorem life_blob (hn : 0 < n) (h : run life (some (.blob c x n)) as = some o) :
    (∃ m, o = some (.blob c x m) ∧ 0 < m ∧
      m + as.countP Action.isDrop = n + as.countP Action.isShare) ∨
    o = none ∧ as.countP Action.isDrop = n + as.countP Action.isShare := by
  induction as generalizing n with
  | nil => exact Or.inl ⟨n, (Option.some.inj h).symm, hn, rfl⟩
  | cons a as ih =>
      obtain ⟨o₁, ho₁, hrest⟩ := run_cons_eq_some.1 h
      cases a with
      | command r => exact absurd ho₁ (by simp [life, Item.act])
      | freeze => exact absurd ho₁ (by simp [life, Item.act])
      | share =>
          obtain rfl : some (.blob c x (n + 1)) = o₁ := Option.some.inj ho₁
          have hthen := ih (Nat.succ_pos n) hrest
          simp only [List.countP_cons, Action.isDrop, Action.isShare]
          rcases hthen with ⟨m, ho, hm, hcount⟩ | ⟨ho, hcount⟩
          · exact Or.inl ⟨m, ho, hm, by simp; omega⟩
          · exact Or.inr ⟨ho, by simp; omega⟩
      | drop =>
          simp only [List.countP_cons, Action.isDrop, Action.isShare]
          by_cases hlast : n = 1
          · obtain rfl : none = o₁ := by simpa [life, Item.act, hlast] using ho₁
            obtain ⟨rfl, rfl⟩ := life_none hrest
            exact Or.inr ⟨rfl, by simp [hlast]⟩
          · obtain rfl : some (.blob c x (n - 1)) = o₁ := by
              simpa [life, Item.act, hlast] using ho₁
            rcases ih (by omega) hrest with ⟨m, ho, hm, hcount⟩ | ⟨ho, hcount⟩
            · exact Or.inl ⟨m, ho, hm, by simp; omega⟩
            · exact Or.inr ⟨ho, by simp; omega⟩

/-- A draft that is filled and frozen at once. -/
lemma run_fill {s s' : Arena (Item α)} {cells : List α} (hx : x.length ≤ c)
    (h : run step s [.create c cells, .act s.next (.command (.write 0 x)),
      .act s.next (.command (.setLen x.length)), .act s.next .freeze] = some s') :
    s'.get s.next = some (.blob c x 1) := by
  obtain ⟨m, hm, hrest⟩ := run_cons_eq_some.1 h
  obtain ⟨hcells, rfl⟩ := step_create_eq_some.1 hm
  have hlife := get_run hrest (Nat.lt_succ_self s.next)
  rw [Arena.get_push_self] at hlife
  have hacts : actions s.next [.act s.next (.command (.write 0 x)),
      .act s.next (.command (.setLen x.length)), .act s.next .freeze] =
      [.write 0 x, .setLen x.length].map .command ++ [.freeze] := by
    simp [actions, Event.on]
  rw [hacts] at hlife
  obtain ⟨o, hfilled, hfrozen⟩ := run_append_eq_some.1 hlife
  obtain rfl := Option.some.inj ((life_commands _).symm.trans hfilled)
  rw [← Option.some.inj hfrozen, content_fill hx]

end Lives

end BlobStore
