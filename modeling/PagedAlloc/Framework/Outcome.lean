import Mathlib.Init

/-!
# Programs that may panic

The result of running a program on a state: it returns a value, or it panics and unwinds, and in
both cases it leaves a state; or the environment was asked for something and gave an answer it
cannot give (`refused`), so that there is no such run.

`Post Q E` is the pair of postconditions of a program, for its return and for its unwinding; the
rules below are those of a Hoare logic with exceptions.
-/

/-- The result of a program on a state of type `σ` with a value of type `α`. -/
inductive Outcome (σ α : Type)
  | done (a : α) (s : σ)
  | panicked (s : σ)
  | refused

namespace Outcome

variable {σ α β : Type} {o : Outcome σ α} {f : α → σ → Outcome σ β} {s : σ} {a : α}
  {Q Q' : α → σ → Prop} {R : β → σ → Prop} {E E' : σ → Prop}

/-- Sequencing; a panic skips the rest. -/
def bind (o : Outcome σ α) (f : α → σ → Outcome σ β) : Outcome σ β :=
  match o with
  | done a s => f a s
  | panicked s => panicked s
  | refused => refused

lemma bind_done : (done a s : Outcome σ α).bind f = f a s := rfl

/-- The state in which the program ends. -/
def final : Outcome σ α → Option σ
  | done _ s => some s
  | panicked s => some s
  | refused => none

/-- The value that the program returns, and the state after it. -/
def returned : Outcome σ α → Option (α × σ)
  | done a s => some (a, s)
  | _ => none

lemma returned_eq_some : o.returned = some (a, s) ↔ o = done a s := by
  cases o <;> simp [returned]

/-- `Q` holds if the program returns, and `E` if it panics. -/
def Post (o : Outcome σ α) (Q : α → σ → Prop) (E : σ → Prop) : Prop :=
  match o with
  | done a s => Q a s
  | panicked s => E s
  | refused => True

lemma post_done (h : Q a s) : (done a s : Outcome σ α).Post Q E := h

lemma post_panicked (h : E s) : (panicked s : Outcome σ α).Post Q E := h

/-- **Consequence.** -/
lemma Post.mono (h : o.Post Q E) (hQ : ∀ a s, Q a s → Q' a s) (hE : ∀ s, E s → E' s) :
    o.Post Q' E' := by
  cases o with
  | done a s => exact hQ a s h
  | panicked s => exact hE s h
  | refused => trivial

/-- Nothing is said of unwinding. -/
lemma Post.returns (h : o.Post Q E) : o.Post Q fun _ => True :=
  h.mono (fun _ _ hQ => hQ) fun _ _ => trivial

/-- **Conjunction.** -/
lemma Post.and (h : o.Post Q E) (h' : o.Post Q' E') :
    o.Post (fun a s => Q a s ∧ Q' a s) fun s => E s ∧ E' s := by
  cases o with
  | done a s => exact ⟨h, h'⟩
  | panicked s => exact ⟨h, h'⟩
  | refused => trivial

/-- **Sequencing.** -/
lemma Post.bind (h : o.Post Q E) (hf : ∀ a s, Q a s → (f a s).Post R E) :
    (o.bind f).Post R E := by
  cases o with
  | done a s => exact hf a s h
  | panicked s => exact h
  | refused => trivial

/-- What holds after return and after unwinding holds of the final state. -/
lemma Post.final {P : σ → Prop} (h : o.Post (fun _ => P) P) (hs : o.final = some s) : P s := by
  cases o with
  | done a t =>
      obtain rfl := Option.some.inj hs
      exact h
  | panicked t =>
      obtain rfl := Option.some.inj hs
      exact h
  | refused => exact absurd hs (by simp [Outcome.final])

end Outcome
