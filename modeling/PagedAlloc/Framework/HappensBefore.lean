import Mathlib.Data.Finset.Basic
import Mathlib.Data.List.Induction
import Mathlib.Logic.Relation

/-!
# Happens-before, data races and who knows what

An execution is the list of its memory actions in the order of one interleaving: plain reads and
writes of byte ranges, read-modify-writes of atomic locations, and hand-overs, by which one agent
starts another.  If an atomic location is only ever modified by read-modify-writes, every one of
them continues the release sequence of all the earlier ones, so an acquiring one synchronizes with
every releasing one before it.

`Ordered` is happens-before, in these terms alone, and an execution is `RaceFree` if any two
conflicting accesses are ordered.  `seen` computes, for every agent and every location, the
actions that are ordered before whatever the agent does next, or before whatever acquires from the
location next (`mem_seen`, `ordered_concat_iff`); it makes `Ordered` decidable.

The last part is the way to prove an execution race free.  `Known tr P ps` says that every action of
the kind `P` has been seen at one of the places `ps`: with `P` the accesses to a range, that
whoever is at these places together may use the range.  `Known.concat` is the frame rule,
`Known.transfer` moves knowledge from one place to another, and `RaceFree.concat` asks for the
knowledge of an accessing agent only.
-/

namespace HappensBefore

/-- A range of bytes in a block of memory. -/
structure Span (B : Type*) where
  block : B
  lo : ℕ
  hi : ℕ
  deriving DecidableEq, Repr

variable {A L B : Type*}

/-- The two ranges have a byte in common. -/
def Span.Overlaps (x y : Span B) : Prop :=
  x.block = y.block ∧ x.lo < y.hi ∧ y.lo < x.hi ∧ x.lo < x.hi ∧ y.lo < y.hi

instance [DecidableEq B] (x y : Span B) : Decidable (x.Overlaps y) :=
  inferInstanceAs (Decidable (_ ∧ _))

/-- Every byte of the one range is in the other. -/
def Span.Within (x y : Span B) : Prop := x.block = y.block ∧ y.lo ≤ x.lo ∧ x.hi ≤ y.hi

lemma Span.Overlaps.symm {x y : Span B} (h : x.Overlaps y) : y.Overlaps x :=
  ⟨h.1.symm, h.2.2.1, h.2.1, h.2.2.2.2, h.2.2.2.1⟩

lemma Span.Within.trans {x y z : Span B} (h : x.Within y) (h' : y.Within z) : x.Within z :=
  ⟨h.1.trans h'.1, h'.2.1.trans h.2.1, h.2.2.trans h'.2.2⟩

lemma Span.Overlaps.mono {x y z : Span B} (h : x.Overlaps y) (hyz : y.Within z) :
    x.Overlaps z := by
  obtain ⟨hblock, h₁, h₂, h₃, h₄⟩ := h
  obtain ⟨hyz, hlo, hhi⟩ := hyz
  exact ⟨hblock.trans hyz, by omega, by omega, h₃, by omega⟩

/-- What an agent of `A` does to memory: blocks `B` of bytes, and atomic locations `L`. -/
inductive Action (A L B : Type*)
  | read (a : A) (x : Span B)
  | write (a : A) (x : Span B)
  /-- A read-modify-write, and whether it releases and acquires. -/
  | rmw (a : A) (l : L) (releases acquires : Bool)
  /-- `b` starts with all that `a` has done. -/
  | spawn (a b : A)
  deriving DecidableEq, Repr

/-- Where an action can be known: by an agent, or in what a location has to pass on. -/
inductive Place (A L : Type*)
  | agent (a : A)
  | location (l : L)
  deriving DecidableEq, Repr

namespace Action

def actor : Action A L B → A
  | .read a _ | .write a _ | .rmw a _ _ _ | .spawn a _ => a

/-- The action adds to what is known there. -/
def Feeds : Action A L B → Place A L → Prop
  | act, .agent a => act.actor = a ∨ match act with
      | .spawn _ b => b = a
      | _ => False
  | act, .location l => match act with
      | .rmw _ l' releases _ => l' = l ∧ releases = true
      | _ => False

/-- What is known there comes before the action. -/
def Draws : Action A L B → Place A L → Prop
  | act, .agent a => act.actor = a
  | act, .location l => match act with
      | .rmw _ l' _ acquires => l' = l ∧ acquires = true
      | _ => False

/-- The access is one to `x`. -/
def Accesses (act : Action A L B) (x : Span B) : Prop :=
  match act with
  | .read _ y | .write _ y => y = x
  | _ => False

/-- A read or a write of a byte of `x`. -/
def Touches (act : Action A L B) (x : Span B) : Prop :=
  match act with
  | .read _ y | .write _ y => y.Overlaps x
  | _ => False

/-- A write of a byte of `x`. -/
def Modifies (act : Action A L B) (x : Span B) : Prop :=
  match act with
  | .write _ y => y.Overlaps x
  | _ => False

/-- The action is no access. -/
def Orders (act : Action A L B) : Prop :=
  match act with
  | .read _ _ | .write _ _ => False
  | _ => True

/-- Two accesses to one byte, one of which is a write. -/
def Conflicts (act act' : Action A L B) : Prop :=
  match act' with
  | .read _ x => act.Modifies x
  | .write _ x => act.Touches x
  | _ => False

instance [DecidableEq A] [DecidableEq L] (act : Action A L B) (p : Place A L) :
    Decidable (act.Feeds p) := by
  cases p <;> cases act <;> unfold Feeds <;> infer_instance

instance [DecidableEq A] [DecidableEq L] (act : Action A L B) (p : Place A L) :
    Decidable (act.Draws p) := by
  cases p <;> cases act <;> unfold Draws <;> infer_instance

lemma Modifies.touches {act : Action A L B} {x : Span B} (h : act.Modifies x) :
    act.Touches x := by
  cases act <;> simp_all [Modifies, Touches]

lemma Modifies.exists_write {act : Action A L B} {x : Span B} (h : act.Modifies x) :
    ∃ a y, act = .write a y := by
  cases act with
  | write a y => exact ⟨a, y, rfl⟩
  | read => exact h.elim
  | rmw => exact h.elim
  | spawn => exact h.elim

lemma Touches.mono {act : Action A L B} {x y : Span B} (h : act.Touches x) (hxy : x.Within y) :
    act.Touches y := by
  cases act with
  | read a z => exact Span.Overlaps.mono h hxy
  | write a z => exact Span.Overlaps.mono h hxy
  | rmw => exact h
  | spawn => exact h

lemma Modifies.mono {act : Action A L B} {x y : Span B} (h : act.Modifies x)
    (hxy : x.Within y) : act.Modifies y := by
  cases act with
  | write a z => exact Span.Overlaps.mono h hxy
  | read => exact h
  | rmw => exact h
  | spawn => exact h

lemma Accesses.overlaps {act : Action A L B} {x y : Span B} (h : act.Accesses x)
    (hy : act.Touches y) : x.Overlaps y := by
  cases act with
  | read a z =>
      obtain rfl : z = x := h
      exact hy
  | write a z =>
      obtain rfl : z = x := h
      exact hy
  | rmw => exact h.elim
  | spawn => exact h.elim

lemma Accesses.touches_of_conflicts {act e : Action A L B} {x : Span B} (h : act.Accesses x)
    (he : e.Conflicts act) : e.Touches x := by
  cases act with
  | read a z =>
      obtain rfl : z = x := h
      exact Modifies.touches he
  | write a z =>
      obtain rfl : z = x := h
      exact he
  | rmw => exact h.elim
  | spawn => exact h.elim

lemma Orders.not_touches {act : Action A L B} (h : act.Orders) (x : Span B) :
    ¬ act.Touches x := by
  cases act with
  | read => exact h.elim
  | write => exact h.elim
  | rmw => exact id
  | spawn => exact id

lemma Orders.not_conflicts {act : Action A L B} (h : act.Orders) (e : Action A L B) :
    ¬ e.Conflicts act := by
  cases act with
  | read => exact h.elim
  | write => exact h.elim
  | rmw => exact id
  | spawn => exact id

lemma feeds_actor (act : Action A L B) : act.Feeds (.agent act.actor) := .inl rfl

lemma draws_actor (act : Action A L B) : act.Draws (.agent act.actor) := rfl

end Action

variable {tr : List (Action A L B)} {act act' : Action A L B} {i j k : ℕ} {p q : Place A L}

/-! ## Happens-before -/

/-- The action `j` draws on a place which the earlier action `i` fed: the two have one actor, `i`
started the actor of `j`, or `i` releases and `j` acquires at one location. -/
def Edge (tr : List (Action A L B)) (i j : ℕ) : Prop :=
  i < j ∧ ∃ act act', tr[i]? = some act ∧ tr[j]? = some act' ∧
    ∃ p, act.Feeds p ∧ act'.Draws p

/-- Happens-before. -/
def Ordered (tr : List (Action A L B)) : ℕ → ℕ → Prop := Relation.TransGen (Edge tr)

/-- Any two conflicting accesses are ordered. -/
def RaceFree (tr : List (Action A L B)) : Prop :=
  ∀ i j act act', i < j → tr[i]? = some act → tr[j]? = some act' → act.Conflicts act' →
    Ordered tr i j

lemma raceFree_nil : RaceFree ([] : List (Action A L B)) := by
  intro i j act act' _ hi
  simp at hi

lemma Ordered.lt_length (h : Ordered tr i j) : j < tr.length := by
  obtain ⟨k, -, -, act, act', -, hact', -⟩ := Relation.TransGen.tail'_iff.1 h
  exact (List.getElem?_eq_some_iff.1 hact').1

lemma getElem?_concat_of_lt (h : i < tr.length) : (tr ++ [act])[i]? = tr[i]? :=
  List.getElem?_append_left h

lemma getElem?_concat_eq_some :
    (tr ++ [act])[i]? = some act' ↔ tr[i]? = some act' ∨ i = tr.length ∧ act' = act := by
  rcases lt_trichotomy i tr.length with hlt | rfl | hgt
  · rw [getElem?_concat_of_lt hlt]
    simp [hlt.ne]
  · simp [eq_comm]
  · rw [List.getElem?_eq_none (by simp; omega), List.getElem?_eq_none (by omega)]
    simp [hgt.ne']

/-- What comes later does not change the order. -/
lemma edge_concat_iff (h : j < tr.length) : Edge (tr ++ [act]) i j ↔ Edge tr i j := by
  constructor
  · rintro ⟨hlt, e, e', he, he', hp⟩
    rw [getElem?_concat_of_lt (by omega)] at he he'
    exact ⟨hlt, e, e', he, he', hp⟩
  · rintro ⟨hlt, e, e', he, he', hp⟩
    refine ⟨hlt, e, e', ?_, ?_, hp⟩
    · rwa [getElem?_concat_of_lt (by omega)]
    · rwa [getElem?_concat_of_lt h]

lemma ordered_concat_of_lt (h : j < tr.length) : Ordered (tr ++ [act]) i j ↔ Ordered tr i j := by
  constructor
  · intro hord
    induction hord with
    | single he => exact .single ((edge_concat_iff h).1 he)
    | tail _ he ih => exact .tail (ih (he.1.trans h)) ((edge_concat_iff h).1 he)
  · intro hord
    induction hord with
    | single he => exact .single ((edge_concat_iff h).2 he)
    | tail _ he ih => exact .tail (ih (he.1.trans h)) ((edge_concat_iff h).2 he)

lemma ordered_append_of_lt {tr' : List (Action A L B)} (h : j < tr.length) :
    Ordered (tr ++ tr') i j ↔ Ordered tr i j := by
  induction tr' using List.reverseRecOn with
  | nil => rw [List.append_nil]
  | append_singleton tr' last ih =>
      rw [← List.append_assoc, ordered_concat_of_lt (by rw [List.length_append]; omega), ih]

/-- What happens before the last action happens before, or is, one that feeds a place on which it
draws. -/
lemma ordered_last_iff : Ordered (tr ++ [act]) i tr.length ↔
    ∃ k e p, tr[k]? = some e ∧ e.Feeds p ∧ act.Draws p ∧ (i = k ∨ Ordered tr i k) := by
  constructor
  · intro h
    obtain ⟨k, hik, hlt, e, e', hk, hk', p, hfeeds, hdraws⟩ := Relation.TransGen.tail'_iff.1 h
    rw [getElem?_concat_of_lt hlt] at hk
    obtain hk' | ⟨-, rfl⟩ := getElem?_concat_eq_some.1 hk'
    · exact absurd (List.getElem?_eq_some_iff.1 hk').1 (lt_irrefl _)
    refine ⟨k, e, p, hk, hfeeds, hdraws, ?_⟩
    rcases Relation.reflTransGen_iff_eq_or_transGen.1 hik with rfl | hik
    · exact .inl rfl
    · exact .inr ((ordered_concat_of_lt hlt).1 hik)
  · rintro ⟨k, e, p, hk, hfeeds, hdraws, hik⟩
    have hlt : k < tr.length := (List.getElem?_eq_some_iff.1 hk).1
    have hedge : Edge (tr ++ [act]) k tr.length :=
      ⟨hlt, e, act, getElem?_concat_eq_some.2 (.inl hk),
        getElem?_concat_eq_some.2 (.inr ⟨rfl, rfl⟩), p, hfeeds, hdraws⟩
    rcases hik with rfl | hik
    · exact .single hedge
    · exact .tail ((ordered_concat_of_lt hlt).2 hik) hedge

/-! ## What has been seen where -/

/-- What comes before an action. -/
def Action.before (act : Action A L B) (v : Place A L → Finset ℕ) : Finset ℕ :=
  v (.agent act.actor) ∪ match act with
    | .rmw _ l _ true => v (.location l)
    | _ => ∅

lemma Action.mem_before {v : Place A L → Finset ℕ} :
    i ∈ act.before v ↔ ∃ p, act.Draws p ∧ i ∈ v p := by
  constructor
  · intro h
    rcases Finset.mem_union.1 h with h | h
    · exact ⟨_, act.draws_actor, h⟩
    · cases act with
      | rmw a l releases acquires =>
          cases acquires with
          | true => exact ⟨.location l, ⟨rfl, rfl⟩, h⟩
          | false => simp at h
      | read => simp at h
      | write => simp at h
      | spawn => simp at h
  · rintro ⟨p, hp, h⟩
    cases p with
    | agent a =>
        obtain rfl : act.actor = a := hp
        exact Finset.mem_union_left _ h
    | location l =>
        cases act with
        | rmw a l' releases acquires =>
            obtain ⟨rfl, rfl⟩ : l' = l ∧ acquires = true := hp
            exact Finset.mem_union_right _ h
        | read => exact hp.elim
        | write => exact hp.elim
        | spawn => exact hp.elim

section Seen

variable [DecidableEq A] [DecidableEq L]

/-- The action number `n` adds itself and what comes before it to the places it feeds. -/
def Action.update (act : Action A L B) (n : ℕ) (v : Place A L → Finset ℕ) (p : Place A L) :
    Finset ℕ :=
  if act.Feeds p then v p ∪ insert n (act.before v) else v p

/-- The actions that are known at each place. -/
def seen (tr : List (Action A L B)) : Place A L → Finset ℕ :=
  (tr.foldl (fun v act => (v.1 + 1, act.update v.1 v.2)) (0, fun _ => ∅)).2

lemma foldl_fst (tr : List (Action A L B)) (n : ℕ) (v : Place A L → Finset ℕ) :
    (tr.foldl (fun v act => (v.1 + 1, act.update v.1 v.2)) (n, v)).1 = n + tr.length := by
  induction tr generalizing n v with
  | nil => rfl
  | cons act tr ih =>
      rw [List.foldl_cons, ih, List.length_cons]
      omega

lemma seen_concat : seen (tr ++ [act]) = act.update tr.length (seen tr) := by
  rw [seen, List.foldl_append, List.foldl_cons, List.foldl_nil, foldl_fst, Nat.zero_add]
  rfl

lemma mem_seen_concat :
    i ∈ seen (tr ++ [act]) p ↔
      i ∈ seen tr p ∨ act.Feeds p ∧ (i = tr.length ∨ ∃ q, act.Draws q ∧ i ∈ seen tr q) := by
  rw [seen_concat, Action.update]
  split
  · rename_i hp
    rw [Finset.mem_union, Finset.mem_insert, Action.mem_before]
    simp [hp]
  · rename_i hp
    simp [hp]

/-- **What is seen at a place** is what feeds it, and all that happens before that. -/
theorem mem_seen :
    i ∈ seen tr p ↔ ∃ k act, tr[k]? = some act ∧ act.Feeds p ∧ (i = k ∨ Ordered tr i k) := by
  induction tr using List.reverseRecOn generalizing i p with
  | nil => simp [seen]
  | append_singleton tr last ih =>
      have hlast : (∃ q, last.Draws q ∧ i ∈ seen tr q) ↔ Ordered (tr ++ [last]) i tr.length := by
        rw [ordered_last_iff]
        constructor
        · rintro ⟨q, hq, h⟩
          obtain ⟨k, e, hk, hfeeds, hik⟩ := ih.1 h
          exact ⟨k, e, q, hk, hfeeds, hq, hik⟩
        · rintro ⟨k, e, q, hk, hfeeds, hq, hik⟩
          exact ⟨q, hq, ih.2 ⟨k, e, hk, hfeeds, hik⟩⟩
      rw [mem_seen_concat, hlast, ih]
      constructor
      · rintro (⟨k, act, hk, hfeeds, hik⟩ | ⟨hfeeds, hik⟩)
        · have hlt : k < tr.length := (List.getElem?_eq_some_iff.1 hk).1
          exact ⟨k, act, getElem?_concat_eq_some.2 (.inl hk), hfeeds,
            hik.imp_right (ordered_concat_of_lt hlt).2⟩
        · exact ⟨tr.length, last, getElem?_concat_eq_some.2 (.inr ⟨rfl, rfl⟩), hfeeds, hik⟩
      · rintro ⟨k, act, hk, hfeeds, hik⟩
        obtain hk | ⟨rfl, rfl⟩ := getElem?_concat_eq_some.1 hk
        · have hlt : k < tr.length := (List.getElem?_eq_some_iff.1 hk).1
          exact .inl ⟨k, act, hk, hfeeds, hik.imp_right (ordered_concat_of_lt hlt).1⟩
        · exact .inr ⟨hfeeds, hik⟩

/-- An action happens before the next one if it is seen where that one draws. -/
theorem ordered_concat_iff :
    Ordered (tr ++ [act]) i tr.length ↔ ∃ p, act.Draws p ∧ i ∈ seen tr p := by
  rw [ordered_last_iff]
  constructor
  · rintro ⟨k, e, p, hk, hfeeds, hdraws, hik⟩
    exact ⟨p, hdraws, mem_seen.2 ⟨k, e, hk, hfeeds, hik⟩⟩
  · rintro ⟨p, hdraws, h⟩
    obtain ⟨k, e, hk, hfeeds, hik⟩ := mem_seen.1 h
    exact ⟨k, e, p, hk, hfeeds, hdraws, hik⟩

/-- Happens-before can be computed. -/
theorem ordered_iff :
    Ordered tr i j ↔ ∃ act, tr[j]? = some act ∧ i ∈ act.before (seen (tr.take j)) := by
  by_cases hj : j < tr.length
  · obtain ⟨act, hact⟩ : ∃ act, tr[j]? = some act := ⟨_, List.getElem?_eq_getElem hj⟩
    have hlast : tr.take (j + 1) = tr.take j ++ [act] := by
      rw [List.take_add_one, hact, Option.toList_some]
    have hlen : (tr.take j).length = j := List.length_take_of_le hj.le
    have htake : Ordered tr i j ↔ Ordered (tr.take (j + 1)) i j := by
      conv_lhs => rw [← List.take_append_drop (j + 1) tr]
      exact ordered_append_of_lt (by rw [hlast, List.length_append, hlen]; simp)
    have hconcat : Ordered (tr.take j ++ [act]) i (tr.take j).length ↔ _ := ordered_concat_iff
    rw [hlen, ← hlast, ← htake] at hconcat
    rw [hconcat, hact, ← Action.mem_before]
    simp
  · have hnone : tr[j]? = none := List.getElem?_eq_none (by omega)
    simp only [hnone, reduceCtorEq, false_and, exists_false, iff_false]
    exact fun h => hj h.lt_length

instance : Decidable (Ordered tr i j) :=
  match h : tr[j]? with
  | none => isFalse fun hord => by
      obtain ⟨act, hact, -⟩ := ordered_iff.1 hord
      rw [h] at hact
      exact absurd hact (by simp)
  | some act => decidable_of_iff (i ∈ act.before (seen (tr.take j))) (by
      rw [ordered_iff]
      simp [h])

end Seen

/-! ## Knowledge -/

section Knowledge

variable [DecidableEq A] [DecidableEq L] {P Q : Action A L B → Prop} {ps qs : Set (Place A L)}

/-- Every action of the kind `P` has been seen at one of the places. -/
def Known (tr : List (Action A L B)) (P : Action A L B → Prop) (ps : Set (Place A L)) : Prop :=
  ∀ i act, tr[i]? = some act → P act → ∃ p ∈ ps, i ∈ seen tr p

lemma known_nil : Known ([] : List (Action A L B)) P ps := by
  simp [Known]

lemma Known.mono (h : Known tr P ps) (hP : ∀ act, Q act → P act) (hps : ps ⊆ qs) :
    Known tr Q qs := by
  intro i act hi hQ
  obtain ⟨p, hp, hseen⟩ := h i act hi (hP act hQ)
  exact ⟨p, hps hp, hseen⟩

lemma seen_subset : seen tr p ⊆ seen (tr ++ [act]) p :=
  fun _ h => mem_seen_concat.2 (.inl h)

/-- **The frame rule.** What is known stays known, if whoever does more of the kind is among those
who know. -/
theorem Known.concat (h : Known tr P ps) (hact : P act → ∃ p ∈ ps, act.Feeds p) :
    Known (tr ++ [act]) P ps := by
  intro i e hi he
  obtain hi | ⟨rfl, rfl⟩ := getElem?_concat_eq_some.1 hi
  · obtain ⟨p, hp, hseen⟩ := h i e hi he
    exact ⟨p, hp, seen_subset hseen⟩
  · obtain ⟨p, hp, hfeeds⟩ := hact he
    exact ⟨p, hp, mem_seen_concat.2 (.inr ⟨hfeeds, .inl rfl⟩)⟩

/-- **The transfer rule.** An action that draws on `q` and feeds `p` passes the knowledge on. -/
theorem Known.transfer (h : Known tr P ps) (hdraws : act.Draws q) (hfeeds : act.Feeds p)
    (hps : ∀ p' ∈ ps, p' = q ∨ p' ∈ qs) (hp : p ∈ qs) : Known (tr ++ [act]) P qs := by
  intro i e hi he
  obtain hi | ⟨rfl, rfl⟩ := getElem?_concat_eq_some.1 hi
  · obtain ⟨p', hp', hseen⟩ := h i e hi he
    rcases hps p' hp' with rfl | hp'
    · exact ⟨p, hp, mem_seen_concat.2 (.inr ⟨hfeeds, .inr ⟨p', hdraws, hseen⟩⟩)⟩
    · exact ⟨p', hp', seen_subset hseen⟩
  · exact ⟨p, hp, mem_seen_concat.2 (.inr ⟨hfeeds, .inl rfl⟩)⟩

section Transfer

variable {a b : A} {l : L} {r : Bool}

lemma Known.acquire (h : Known tr P ps) (hps : ∀ p ∈ ps, p = .location l ∨ p ∈ qs)
    (ha : .agent a ∈ qs) : Known (tr ++ [.rmw a l r true]) P qs :=
  h.transfer (q := .location l) (p := .agent a) ⟨rfl, rfl⟩ (.inl rfl) hps ha

lemma Known.release (h : Known tr P ps) (hps : ∀ p ∈ ps, p = .agent a ∨ p ∈ qs)
    (hl : .location l ∈ qs) : Known (tr ++ [.rmw a l true r]) P qs :=
  h.transfer (q := .agent a) (p := .location l) rfl ⟨rfl, rfl⟩ hps hl

lemma Known.spawn (h : Known tr P ps) (hps : ∀ p ∈ ps, p = .agent a ∨ p ∈ qs)
    (hb : .agent b ∈ qs) : Known (tr ++ [.spawn a b]) P qs :=
  h.transfer (q := .agent a) (p := .agent b) rfl (.inr rfl) hps hb

end Transfer

/-- **The access rule.** An execution stays race free if every agent knows of the accesses with
which its own conflict. -/
theorem RaceFree.concat (h : RaceFree tr)
    (hact : Known tr (fun e => e.Conflicts act) {.agent act.actor}) :
    RaceFree (tr ++ [act]) := by
  intro i j e e' hlt hi hj hconf
  obtain hj | ⟨rfl, rfl⟩ := getElem?_concat_eq_some.1 hj
  · have hjlt : j < tr.length := (List.getElem?_eq_some_iff.1 hj).1
    rw [getElem?_concat_of_lt (hlt.trans hjlt)] at hi
    exact (ordered_concat_of_lt hjlt).2 (h i j e e' hlt hi hj hconf)
  · rw [getElem?_concat_of_lt hlt] at hi
    obtain ⟨p, rfl, hseen⟩ := hact i e hi hconf
    exact ordered_concat_iff.2 ⟨_, e'.draws_actor, hseen⟩

lemma RaceFree.concat_orders (h : RaceFree tr) (hact : act.Orders) : RaceFree (tr ++ [act]) :=
  h.concat fun _ e _ hconf => absurd hconf (hact.not_conflicts e)

end Knowledge

end HappensBefore
