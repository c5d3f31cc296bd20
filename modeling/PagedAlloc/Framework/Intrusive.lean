import Mathlib.Data.List.Nodup
import Mathlib.Logic.Function.Basic

/-!
# Intrusive singly linked lists

An intrusive list keeps the link to the next node inside the node.  Over a link function
`next : α → α` and a distinguished `null`, `Chain null next h l` says that following the links
from `h` visits exactly the nodes `l`, in order, and then ends in `null`; it is the statement
that the list hanging from `h` is finite and null-terminated.

Because `next` is a function, such a list cannot repeat a node (`Chain.nodup`), and it is
unique (`Chain.unique`).  `Chain.congr` is the frame rule: a chain only depends on the links of
its own nodes.  A link that is lost ends it (`Chain.cut`).
-/

namespace Intrusive

variable {α : Type*} {null : α} {next next' : α → α} {h : α} {l l' : List α}

/-- Following `next` from `h` visits `l` and ends in `null`. -/
inductive Chain (null : α) (next : α → α) : α → List α → Prop
  | nil : Chain null next null []
  | cons {h : α} {l : List α} (ne : h ≠ null) (tail : Chain null next (next h) l) :
      Chain null next h (h :: l)

lemma chain_null_iff : Chain null next null l ↔ l = [] := by
  constructor
  · intro hc
    cases hc with
    | nil => rfl
    | cons ne _ => exact absurd rfl ne
  · rintro rfl
    exact .nil

lemma chain_nil_iff : Chain null next h [] ↔ h = null := by
  constructor
  · intro hc
    cases hc
    rfl
  · rintro rfl
    exact .nil

/-- A chain from a non-null head splits into the head and the chain from its link. -/
lemma chain_of_ne (hne : h ≠ null) :
    Chain null next h l ↔ ∃ t, l = h :: t ∧ Chain null next (next h) t := by
  constructor
  · intro hc
    cases hc with
    | nil => exact absurd rfl hne
    | cons _ tail => exact ⟨_, rfl, tail⟩
  · rintro ⟨t, rfl, tail⟩
    exact .cons hne tail

lemma Chain.unique (hc : Chain null next h l) (hc' : Chain null next h l') : l = l' := by
  induction hc generalizing l' with
  | nil => exact (chain_null_iff.1 hc').symm
  | cons ne _ ih =>
      obtain ⟨t, rfl, ht⟩ := (chain_of_ne ne).1 hc'
      rw [ih ht]

/-- Every node of a chain starts a suffix of it. -/
lemma Chain.exists_suffix (hc : Chain null next h l) {a : α} (ha : a ∈ l) :
    ∃ t, a :: t <:+ l ∧ Chain null next a (a :: t) := by
  induction hc with
  | nil => simp at ha
  | @cons h l ne tail ih =>
      rcases List.mem_cons.1 ha with rfl | ha
      · exact ⟨l, List.suffix_refl _, .cons ne tail⟩
      · obtain ⟨t, hsuf, ht⟩ := ih ha
        exact ⟨t, hsuf.trans (List.suffix_cons _ _), ht⟩

/-- A finite chain never visits a node twice: a second visit would restart the same walk and
give it two different lengths. -/
lemma Chain.nodup (hc : Chain null next h l) : l.Nodup := by
  induction hc with
  | nil => exact List.nodup_nil
  | @cons h l ne tail ih =>
      refine List.nodup_cons.2 ⟨fun hmem => ?_, ih⟩
      obtain ⟨t, hsuf, ht⟩ := tail.exists_suffix hmem
      have heq : h :: t = h :: l := ht.unique (.cons ne tail)
      have hlen := hsuf.length_le
      rw [heq, List.length_cons] at hlen
      omega

/-- **Frame rule.** A chain only depends on the links of its own nodes. -/
lemma Chain.congr (hc : Chain null next h l) (hagree : ∀ a ∈ l, next' a = next a) :
    Chain null next' h l := by
  induction hc with
  | nil => exact .nil
  | @cons h l ne tail ih =>
      refine .cons ne ?_
      rw [hagree h List.mem_cons_self]
      exact ih fun a ha => hagree a (List.mem_cons_of_mem _ ha)

/-- Rewriting the link of a node outside the chain leaves the chain alone. -/
lemma Chain.update [DecidableEq α] (hc : Chain null next h l) {a v : α} (ha : a ∉ l) :
    Chain null (Function.update next a v) h l := by
  apply hc.congr
  intro b hb
  rw [Function.update_of_ne]
  rintro rfl
  exact ha hb

/-- A link that is set to null ends the chain there. -/
lemma Chain.cut {a : α} (hc : Chain null next h (l ++ a :: l')) (hagree : ∀ b ∈ l, next' b = next b)
    (hnull : next' a = null) : Chain null next' h (l ++ [a]) := by
  induction l generalizing h with
  | nil =>
      cases hc with
      | cons ne _ =>
          refine .cons ne ?_
          rw [hnull]
          exact .nil
  | cons b l ih =>
      cases hc with
      | cons ne tail =>
          refine .cons ne ?_
          rw [hagree _ List.mem_cons_self]
          exact ih tail fun c hc => hagree c (List.mem_cons_of_mem _ hc)

end Intrusive
