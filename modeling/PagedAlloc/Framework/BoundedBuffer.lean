import PagedAlloc.Framework.Transition

/-!
# The bounded buffer

An array of `c` cells of which the first `len` are the content.  A client appends, moves the
length, and overwrites cells at any position; the cells behind the content hold whatever was left
in them.  An append that does not fit is answered with what there was room for, a length or a
position out of range with a panic, and neither changes anything.

Two facts carry over to every implementation.  The answers depend on the length alone and never
on the cells (`serve_congr`), and a client that only appends finds in the content what was there
before, followed by the accepted pieces (`content_serve`).
-/

namespace BoundedBuffer

open Transition

variable {α : Type*} {c : ℕ}

inductive Command (α : Type*)
  | append (data : List α)
  | setLen (len : ℕ)
  | write (pos : ℕ) (data : List α)

inductive Reply
  | ok
  | full (capacity len attempted : ℕ)
  | panicked
  deriving DecidableEq, Repr

/-- The cells from `pos` on are replaced by `data`. -/
def overwrite (cells : List α) (pos : ℕ) (data : List α) : List α :=
  cells.take pos ++ data ++ cells.drop (pos + data.length)

lemma length_overwrite {cells data : List α} {pos : ℕ} (h : pos + data.length ≤ cells.length) :
    (overwrite cells pos data).length = cells.length := by
  simp only [overwrite, List.length_append, List.length_take, List.length_drop]
  omega

/-- What lies before the position is kept. -/
lemma take_overwrite {cells data : List α} {pos : ℕ} (h : pos ≤ cells.length) :
    (overwrite cells pos data).take (pos + data.length) = cells.take pos ++ data := by
  have hlen : (cells.take pos ++ data).length = pos + data.length := by
    rw [List.length_append, List.length_take, Nat.min_eq_left h]
  unfold overwrite
  rw [← hlen, List.take_left]

/-- A buffer of `c` cells. -/
structure Buffer (α : Type*) (c : ℕ) where
  cells : List α
  len : ℕ
  length_cells : cells.length = c
  len_le : len ≤ c

namespace Buffer

variable (b : Buffer α c)

def content : List α := b.cells.take b.len

lemma length_content : b.content.length = b.len :=
  List.length_take_of_le (b.len_le.trans_eq b.length_cells.symm)

/-- A write into the cells. -/
def store (pos : ℕ) (data : List α) (h : pos + data.length ≤ c) : Buffer α c where
  cells := overwrite b.cells pos data
  len := b.len
  length_cells := by rw [length_overwrite (by rw [b.length_cells]; exact h), b.length_cells]
  len_le := b.len_le

def resize (len : ℕ) (h : len ≤ c) : Buffer α c where
  cells := b.cells
  len := len
  length_cells := b.length_cells
  len_le := h

/-- The answer to a command and the buffer after it. -/
def respond : Command α → Reply × Buffer α c
  | .append data =>
      if h : b.len + data.length ≤ c then
        (.ok, (b.store b.len data h).resize (b.len + data.length) h)
      else (.full c b.len data.length, b)
  | .setLen len => if h : len ≤ c then (.ok, b.resize len h) else (.panicked, b)
  | .write pos data =>
      if h : pos + data.length ≤ c then (.ok, b.store pos data h) else (.panicked, b)

variable {b}

/-- An append that fits goes behind the content. -/
lemma content_append {data : List α} (h : b.len + data.length ≤ c) :
    ((b.store b.len data h).resize (b.len + data.length) h).content = b.content ++ data :=
  take_overwrite (by rw [b.length_cells]; exact b.len_le)

end Buffer

/-! ## Runs -/

/-- The pieces of the appends that were answered with `ok`, one after the other. -/
def accepted : List (Command α) → List Reply → List α
  | .append data :: rs, .ok :: replies => data ++ accepted rs replies
  | _ :: rs, _ :: replies => accepted rs replies
  | _, _ => []

def Command.IsAppend : Command α → Prop
  | .append _ => True
  | _ => False

variable {b b' : Buffer α c} {r : Command α} {rs : List (Command α)}

/-- One command: the answer and the new length depend on the old length only. -/
lemma respond_congr (hlen : b.len = b'.len) (r : Command α) :
    (b.respond r).1 = (b'.respond r).1 ∧ (b.respond r).2.len = (b'.respond r).2.len := by
  cases r with
  | append data =>
      by_cases hfit : b'.len + data.length ≤ c
      · simp [Buffer.respond, hlen, hfit, Buffer.resize]
      · simp [Buffer.respond, hlen, hfit]
  | setLen len =>
      by_cases hfit : len ≤ c
      · simp [Buffer.respond, hfit, Buffer.resize]
      · simp [Buffer.respond, hfit, hlen]
  | write pos data =>
      by_cases hfit : pos + data.length ≤ c
      · simp [Buffer.respond, hfit, Buffer.store, hlen]
      · simp [Buffer.respond, hfit, hlen]

/-- **The answers do not depend on what the cells held.** -/
theorem serve_congr (hlen : b.len = b'.len) :
    (serve Buffer.respond b rs).1 = (serve Buffer.respond b' rs).1 := by
  induction rs generalizing b b' with
  | nil => rfl
  | cons r rs ih =>
      obtain ⟨hreply, hlen'⟩ := respond_congr hlen r
      rw [serve, serve]
      exact congrArg₂ List.cons hreply (ih hlen')

/-- **The content of a buffer that is only appended to.** -/
theorem content_serve (happend : ∀ r ∈ rs, r.IsAppend) :
    (serve Buffer.respond b rs).2.content =
      b.content ++ accepted rs (serve Buffer.respond b rs).1 := by
  induction rs generalizing b with
  | nil => exact (List.append_nil b.content).symm
  | cons r rs ih =>
      have hrest := fun b' => ih (b := b') fun r' hr' => happend r' (List.mem_cons_of_mem r hr')
      cases r with
      | setLen len => exact (happend _ List.mem_cons_self).elim
      | write pos data => exact (happend _ List.mem_cons_self).elim
      | append data =>
          rw [serve]
          by_cases hfit : b.len + data.length ≤ c
          · simp only [Buffer.respond, dif_pos hfit, accepted]
            rw [hrest, Buffer.content_append hfit, List.append_assoc]
          · simp only [Buffer.respond, dif_neg hfit, accepted]
            exact hrest b

/-- A buffer that is filled from the start has what it was filled with. -/
lemma content_fill {data : List α} (h : data.length ≤ c) :
    (serve Buffer.respond b [.write 0 data, .setLen data.length]).2.content = data := by
  have hfit : 0 + data.length ≤ c := by omega
  have hcells : (overwrite b.cells 0 data).take (0 + data.length) = b.cells.take 0 ++ data :=
    take_overwrite (Nat.zero_le _)
  rw [Nat.zero_add, List.take_zero, List.nil_append] at hcells
  simp only [serve, Buffer.respond, dif_pos hfit, dif_pos h]
  exact hcells

end BoundedBuffer
