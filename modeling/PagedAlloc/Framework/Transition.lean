import Mathlib.Data.List.Infix
import Mathlib.Algebra.Order.Ring.Nat

/-!
# Labelled transition systems given by a partial step function

A system is a function `step : σ → ε → Option σ`: the event `ε` records every choice the
environment makes, so that a step is executable, and `none` means that the event is not
enabled.  `run` folds a list of events.  The file has the rules every proof about whole runs
uses: composition, the invariant rule, and the induction on the end of a run that history
properties need.

A step may also emit labels.  `emitted` collects those of a run, and `run_emitted` is the simulation
rule for them: if the labels of every step are a run of a second system that keeps the two states
related, then the labels of a whole run are one.

`total` adds up a cost of the steps of a run, and `run_amortized` bounds it by a potential.

A system may also answer each event.  `answers` collects the answers of a run, and
`answers_of_refines` is the simulation rule: a system whose steps give the answers of a reference
machine, and stay related to it, gives the same answers over whole runs.
-/

namespace Transition

variable {σ ε : Type*} (step : σ → ε → Option σ)

/-- The state after a list of events, if every one of them is enabled in turn. -/
def run (s : σ) : List ε → Option σ
  | [] => some s
  | e :: es => (step s e).bind fun s' => run s' es

/-- Every step the run takes satisfies the guard `G` on its event and the state before it. -/
def Always (G : σ → ε → Prop) (s : σ) : List ε → Prop
  | [] => True
  | e :: es => G s e ∧ match step s e with
      | none => True
      | some s' => Always G s' es

instance Always.decidable (G : σ → ε → Prop) [∀ s e, Decidable (G s e)] (s : σ) :
    (es : List ε) → Decidable (Always step G s es)
  | [] => isTrue trivial
  | e :: es =>
      @instDecidableAnd _ _ _ (match step s e with
        | none => isTrue trivial
        | some s' => Always.decidable G s' es)

@[simp] lemma run_nil (s : σ) : run step s [] = some s := rfl

lemma run_cons (s : σ) (e : ε) (es : List ε) :
    run step s (e :: es) = (step s e).bind fun s' => run step s' es := rfl

lemma run_append (s : σ) (es es' : List ε) :
    run step s (es ++ es') = (run step s es).bind fun s' => run step s' es' := by
  induction es generalizing s with
  | nil => rfl
  | cons e es ih =>
      rw [List.cons_append, run_cons, run_cons]
      cases step s e with
      | none => rfl
      | some s' => exact ih s'

variable {step}

lemma run_cons_eq_some {s t : σ} {e : ε} {es : List ε} :
    run step s (e :: es) = some t ↔ ∃ m, step s e = some m ∧ run step m es = some t := by
  rw [run_cons, Option.bind_eq_some_iff]

lemma run_append_eq_some {s t : σ} {es es' : List ε} :
    run step s (es ++ es') = some t ↔
      ∃ m, run step s es = some m ∧ run step m es' = some t := by
  rw [run_append, Option.bind_eq_some_iff]

lemma run_concat_eq_some {s t : σ} {es : List ε} {e : ε} :
    run step s (es ++ [e]) = some t ↔ ∃ m, run step s es = some m ∧ step m e = some t := by
  rw [run_append_eq_some]
  constructor
  · rintro ⟨m, hm, ht⟩
    obtain ⟨m', hm', ht'⟩ := run_cons_eq_some.1 ht
    obtain rfl : m' = t := by simpa using ht'
    exact ⟨m, hm, hm'⟩
  · rintro ⟨m, hm, ht⟩
    exact ⟨m, hm, run_cons_eq_some.2 ⟨t, ht, rfl⟩⟩

/-- **The invariant rule.** What every step preserves, every run preserves. -/
theorem run_invariant {P : σ → Prop} (hstep : ∀ s e t, P s → step s e = some t → P t)
    {s t : σ} {es : List ε} (hs : P s) (h : run step s es = some t) : P t := by
  induction es generalizing s with
  | nil =>
      obtain rfl : s = t := by simpa using h
      exact hs
  | cons e es ih =>
      obtain ⟨m, hm, ht⟩ := run_cons_eq_some.1 h
      exact ih (hstep s e m hs hm) ht

/-- **Induction on the end of a run.** The motive sees the events already taken, so it can
speak about the whole history. -/
theorem run_induction {init : σ} {P : List ε → σ → Prop} (hnil : P [] init)
    (hsnoc : ∀ es s e t, run step init es = some s → P es s → step s e = some t →
      P (es ++ [e]) t)
    {t : σ} {es : List ε} (h : run step init es = some t) : P es t := by
  induction es using List.reverseRecOn generalizing t with
  | nil =>
      obtain rfl : init = t := by simpa using h
      exact hnil
  | append_singleton es e ih =>
      obtain ⟨m, hm, ht⟩ := run_concat_eq_some.1 h
      exact hsnoc es m e t hm (ih hm) ht

/-- A guard holds along a run if and only if it holds at every step of every prefix. -/
lemma always_iff {G : σ → ε → Prop} {s : σ} {es : List ε} :
    Always step G s es ↔
      ∀ pre e m, pre ++ [e] <+: es → run step s pre = some m → G m e := by
  induction es generalizing s with
  | nil => simp [Always]
  | cons first es ih =>
      constructor
      · rintro ⟨hG, hrest⟩ pre e m hpre hrun
        cases pre with
        | nil =>
            obtain rfl : s = m := by simpa using hrun
            obtain ⟨rfl, -⟩ := List.cons_prefix_cons.1 hpre
            exact hG
        | cons a pre =>
            obtain ⟨rfl, htail⟩ := List.cons_prefix_cons.1 hpre
            obtain ⟨s', hs', hrun⟩ := run_cons_eq_some.1 hrun
            rw [hs'] at hrest
            exact ih.1 hrest pre e m htail hrun
      · intro hall
        refine ⟨hall [] first s (by simp) rfl, ?_⟩
        cases hs : step s first with
        | none => trivial
        | some s' =>
            apply ih.2
            intro pre e m hpre hrun
            refine hall (first :: pre) e m (List.cons_prefix_cons.2 ⟨rfl, hpre⟩) ?_
            exact run_cons_eq_some.2 ⟨s', hs, hrun⟩

lemma always_cons {G : σ → ε → Prop} {s m : σ} {e : ε} {es : List ε} (h : step s e = some m) :
    Always step G s (e :: es) ↔ G s e ∧ Always step G m es := by
  rw [Always, h]

lemma always_append {G : σ → ε → Prop} {s m : σ} {es es' : List ε} (h : run step s es = some m) :
    Always step G s (es ++ es') ↔ Always step G s es ∧ Always step G m es' := by
  induction es generalizing s with
  | nil =>
      obtain rfl : s = m := by simpa using h
      simp [Always]
  | cons e es ih =>
      obtain ⟨s', hs', hrest⟩ := run_cons_eq_some.1 h
      rw [List.cons_append, always_cons hs', always_cons hs', ih hrest, and_assoc]

/-- A guard on the events alone. -/
lemma always_of_forall {G : σ → ε → Prop} {s : σ} {es : List ε} (h : ∀ e ∈ es, ∀ s, G s e) :
    Always step G s es := by
  induction es generalizing s with
  | nil => trivial
  | cons e es ih =>
      refine ⟨h e List.mem_cons_self s, ?_⟩
      cases step s e with
      | none => trivial
      | some s' => exact ih fun e' he' => h e' (List.mem_cons_of_mem e he')

lemma Always.mono {G G' : σ → ε → Prop} {s : σ} {es : List ε} (h : Always step G s es)
    (hG : ∀ s e, G s e → G' s e) : Always step G' s es :=
  always_iff.2 fun pre e m hpre hrun => hG m e (always_iff.1 h pre e m hpre hrun)

/-! ## Labels -/

section Labels

variable {τ α : Type*}

variable (step) in
/-- What a run emits: the labels of its steps, in order. -/
def emitted (label : σ → ε → List α) (s : σ) : List ε → List α
  | [] => []
  | e :: es => label s e ++ match step s e with
      | none => []
      | some s' => emitted label s' es

variable {label : σ → ε → List α}

lemma emitted_cons {s s' : σ} {e : ε} {es : List ε} (h : step s e = some s') :
    emitted step label s (e :: es) = label s e ++ emitted step label s' es := by
  rw [emitted, h]

lemma emitted_concat {s m : σ} {e : ε} {es : List ε} (h : run step s es = some m) :
    emitted step label s (es ++ [e]) = emitted step label s es ++ label m e := by
  induction es generalizing s with
  | nil =>
      obtain rfl : s = m := by simpa using h
      simp only [List.nil_append, emitted]
      cases step s e <;> simp
  | cons first es ih =>
      obtain ⟨s', hs', hm⟩ := run_cons_eq_some.1 h
      rw [List.cons_append, emitted_cons hs', emitted_cons hs', ih hm, List.append_assoc]

/-- If the labels do not depend on the state, they are those of the events. -/
lemma emitted_eq_flatMap {f : ε → List α} {s t : σ} {es : List ε}
    (hlabel : ∀ e ∈ es, ∀ s, label s e = f e) (h : run step s es = some t) :
    emitted step label s es = es.flatMap f := by
  induction es generalizing s with
  | nil => rfl
  | cons e es ih =>
      obtain ⟨m, hm, hrest⟩ := run_cons_eq_some.1 h
      rw [emitted_cons hm, hlabel e List.mem_cons_self, List.flatMap_cons,
        ih (fun e' he' => hlabel e' (List.mem_cons_of_mem e he')) hrest]

/-- **The simulation rule for labels**, along runs that keep to a guard. -/
theorem run_emitted_of_always {step' : τ → α → Option τ} {R : σ → τ → Prop} {G : σ → ε → Prop}
    (hsim : ∀ s t e s', G s e → R s t → step s e = some s' →
      ∃ t', run step' t (label s e) = some t' ∧ R s' t')
    {s s' : σ} {t : τ} {es : List ε} (hG : Always step G s es) (hR : R s t)
    (h : run step s es = some s') :
    ∃ t', run step' t (emitted step label s es) = some t' ∧ R s' t' := by
  induction es generalizing s t with
  | nil =>
      obtain rfl : s = s' := by simpa using h
      exact ⟨t, rfl, hR⟩
  | cons e es ih =>
      obtain ⟨m, hm, hrest⟩ := run_cons_eq_some.1 h
      obtain ⟨hfirst, hG⟩ := (always_cons hm).1 hG
      obtain ⟨t₁, ht₁, hR₁⟩ := hsim s t e m hfirst hR hm
      obtain ⟨t', ht', hR'⟩ := ih hG hR₁ hrest
      refine ⟨t', ?_, hR'⟩
      rw [emitted_cons hm]
      exact run_append_eq_some.2 ⟨t₁, ht₁, ht'⟩

theorem run_emitted {step' : τ → α → Option τ} {R : σ → τ → Prop}
    (hsim : ∀ s t e s', R s t → step s e = some s' →
      ∃ t', run step' t (label s e) = some t' ∧ R s' t')
    {s s' : σ} {t : τ} {es : List ε} (hR : R s t) (h : run step s es = some s') :
    ∃ t', run step' t (emitted step label s es) = some t' ∧ R s' t' :=
  run_emitted_of_always (G := fun _ _ => True) (fun s t e s' _ => hsim s t e s')
    (always_of_forall fun _ _ _ => trivial) hR h

/-- If the labels of a step are a run of the system itself to the state after it, a guard on them
holds along all that is emitted. -/
lemma always_emitted {label : σ → ε → List ε} {G G' : σ → ε → Prop}
    (hlabel : ∀ s e s', G s e → step s e = some s' →
      run step s (label s e) = some s' ∧ Always step G' s (label s e))
    {s t : σ} {es : List ε} (hG : Always step G s es) (h : run step s es = some t) :
    Always step G' s (emitted step label s es) := by
  induction es generalizing s with
  | nil => trivial
  | cons e es ih =>
      obtain ⟨m, hm, hrest⟩ := run_cons_eq_some.1 h
      obtain ⟨hfirst, hG⟩ := (always_cons hm).1 hG
      obtain ⟨hrun, halways⟩ := hlabel s e m hfirst hm
      rw [emitted_cons hm]
      exact (always_append hrun).2 ⟨halways, ih hG hrest⟩

end Labels

/-! ## Costs -/

section Costs

variable {f g : σ → ε → ℕ} {s t : σ} {es : List ε}

variable (step) in
/-- The cost of a run: the sum of the costs of its steps. -/
def total (cost : σ → ε → ℕ) (s : σ) : List ε → ℕ
  | [] => 0
  | e :: es => cost s e + match step s e with
      | none => 0
      | some s' => total cost s' es

lemma total_cons {s' : σ} {e : ε} (h : step s e = some s') :
    total step f s (e :: es) = f s e + total step f s' es := by
  rw [total, h]

/-- The cost of a run that counts events. -/
lemma total_eq_countP {p : ε → Bool} (h : run step s es = some t) :
    total step (fun _ e => if p e then 1 else 0) s es = es.countP p := by
  induction es generalizing s with
  | nil => rfl
  | cons e es ih =>
      obtain ⟨m, hm, hrest⟩ := run_cons_eq_some.1 h
      rw [total_cons hm, ih hrest, List.countP_cons, add_comm]

/-- A bound on the cost of every step under the guard bounds the cost of the run. -/
lemma total_le_total {G : σ → ε → Prop} (hG : Always step G s es)
    (hle : ∀ s e, G s e → f s e ≤ g s e) : total step f s es ≤ total step g s es := by
  induction es generalizing s with
  | nil => exact le_refl 0
  | cons e es ih =>
      obtain ⟨hfirst, hrest⟩ := hG
      have := hle s e hfirst
      unfold total
      cases hs : step s e with
      | none => simpa [hs] using this
      | some s' =>
          rw [hs] at hrest
          have := ih hrest
          dsimp only
          omega

lemma total_add : total step (fun s e => f s e + g s e) s es =
    total step f s es + total step g s es := by
  induction es generalizing s with
  | nil => rfl
  | cons e es ih =>
      unfold total
      cases step s e with
      | none => rfl
      | some s' =>
          dsimp only
          rw [ih]
          omega

lemma total_mul (n : ℕ) : total step (fun s e => n * f s e) s es = n * total step f s es := by
  induction es generalizing s with
  | nil => rfl
  | cons e es ih =>
      unfold total
      cases step s e with
      | none => rfl
      | some s' =>
          dsimp only
          rw [ih, mul_add]

/-- **Amortised cost.**  If every step pays for its cost with the fall of a potential and a gain,
then so does every run. -/
theorem run_amortized {Φ : σ → ℕ}
    (hstep : ∀ s e t, step s e = some t → f s e + Φ t ≤ Φ s + g s e)
    (h : run step s es = some t) : total step f s es + Φ t ≤ Φ s + total step g s es := by
  induction es generalizing s with
  | nil =>
      obtain rfl : s = t := by simpa using h
      simp [total]
  | cons e es ih =>
      obtain ⟨m, hm, hrest⟩ := run_cons_eq_some.1 h
      have hfirst := hstep s e m hm
      have htail := ih hrest
      rw [total_cons hm, total_cons hm]
      omega

end Costs

/-! ## Systems that answer -/

section Answers

variable {τ ρ : Type*}

/-- The answers to a list of events and the state after them, if every event is enabled. -/
def answers (respond : σ → ε → Option (ρ × σ)) (s : σ) : List ε → Option (List ρ × σ)
  | [] => some ([], s)
  | e :: es => (respond s e).bind fun r =>
      (answers respond r.2 es).map fun rest => (r.1 :: rest.1, rest.2)

/-- The answers and the final state of a machine that has one for every event. -/
def serve (machine : τ → ε → ρ × τ) (t : τ) : List ε → List ρ × τ
  | [] => ([], t)
  | e :: es =>
      let rest := serve machine (machine t e).2 es
      ((machine t e).1 :: rest.1, rest.2)

variable {respond : σ → ε → Option (ρ × σ)} {machine : τ → ε → ρ × τ}

/-- **The simulation rule.** A system that answers every event as the machine does, and stays
related to it, answers every run as the machine does. -/
theorem answers_of_refines {R : σ → τ → Prop}
    (hstep : ∀ s t e, R s t →
      ∃ s', respond s e = some ((machine t e).1, s') ∧ R s' (machine t e).2)
    {s : σ} {t : τ} (es : List ε) (h : R s t) :
    ∃ s', answers respond s es = some ((serve machine t es).1, s') ∧
      R s' (serve machine t es).2 := by
  induction es generalizing s t with
  | nil => exact ⟨s, rfl, h⟩
  | cons e es ih =>
      obtain ⟨m, hm, hR⟩ := hstep s t e h
      obtain ⟨s', hs', hR'⟩ := ih hR
      refine ⟨s', ?_, hR'⟩
      rw [answers, hm, Option.bind_some, hs', Option.map_some]
      rfl

/-- A run that answers is a run of the transition system behind it. -/
lemma run_of_answers {ε' : Type*} {label : ε → ε'} {step : σ → ε' → Option σ}
    (hstep : ∀ s e a s', respond s e = some (a, s') → step s (label e) = some s')
    {s s' : σ} {es : List ε} {as : List ρ} (h : answers respond s es = some (as, s')) :
    run step s (es.map label) = some s' := by
  induction es generalizing s as with
  | nil =>
      obtain ⟨-, rfl⟩ := Prod.mk.inj (Option.some.inj h)
      exact run_nil step s
  | cons e es ih =>
      rw [answers, Option.bind_eq_some_iff] at h
      obtain ⟨⟨a, m⟩, hm, hrest⟩ := h
      obtain ⟨⟨as', t⟩, ht, heq⟩ := Option.map_eq_some_iff.1 hrest
      obtain ⟨-, rfl⟩ := Prod.mk.inj heq
      exact run_cons_eq_some.2 ⟨m, hstep s e a m hm, ih ht⟩

end Answers

end Transition
