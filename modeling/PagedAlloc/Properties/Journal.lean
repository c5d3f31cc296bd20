import PagedAlloc.Properties.FailedAllocation

/-!
# The journal

What is done on behalf of tenants, in the order in which it happens: allocations, and the seals,
clones and drops of handles.  `World.entries` reads off an operation what it comes to; a call that
fills a new handle is an allocation and then a seal, or a drop if it unwinds.

`Ledger.Step` is the ledger machine with the entries as labels, and with what the moves of
`Construction/Ledger.lean` leave open: the length of a handle and the number of its clones.
`journal_step` says that an operation takes the ledger through precisely its entries, unless the
source refuses a page.
-/

namespace PagedAlloc.Sequential

open Words

/-- Something done on behalf of a tenant, with the page size of the pool it is done on. -/
inductive Act
  | allocatePage (pageSize : ℕ)
  | allocateChunk (pageSize size align : ℕ)
  | sealPage (i : ℕ)
  | clonePage (i : ℕ)
  | dropPage (i : ℕ)
  | sealChunk (i : ℕ)
  | cloneChunk (i : ℕ)
  | dropChunk (i : ℕ)
  deriving DecidableEq, Repr

structure Entry where
  tenant : ℕ
  act : Act
  deriving DecidableEq, Repr

/-- `allocate_aligned` gets as far as asking for memory. -/
def Granted (pageSize size align : ℕ) : Prop :=
  IsPowerOfTwo align ∧
    (sizeClass pageSize size align = .oversized → Layout.Valid ⟨size, max align defaultAlign⟩)

instance (pageSize size align : ℕ) : Decidable (Granted pageSize size align) :=
  inferInstanceAs (Decidable (_ ∧ _))

namespace World

variable (w : World)

/-- What is done to a page is done on behalf of its tenant. -/
def onPage (i : ℕ) (act : Act) : List Entry :=
  match w.pages.get i with
  | none => []
  | some h => [⟨h.tenant, act⟩]

/-- What is done to a chunk is done on behalf of its tenant. -/
def onChunk (i : ℕ) (act : Act) : List Entry :=
  match w.chunks.get i with
  | none => []
  | some h => [⟨h.tenant, act⟩]

/-- A call allocates a page and fills it: it ends with a seal or, unwinding, with a drop. -/
def filledPage (tenant : ℕ) (p : Pool) (call : Outcome World ℕ) : List Entry :=
  [⟨tenant, .allocatePage p.pageSize⟩,
    ⟨tenant, match call with
      | .done _ _ => .sealPage w.pages.next
      | _ => .dropPage w.pages.next⟩]

/-- A call allocates a chunk and fills it, if the request is granted. -/
def filledChunk (tenant size : ℕ) (p : Pool) (call : Outcome World ℕ) : List Entry :=
  ⟨tenant, .allocateChunk p.pageSize size defaultAlign⟩ ::
    if Granted p.pageSize size defaultAlign then
      [⟨tenant, match call with
        | .done _ _ => .sealChunk w.chunks.next
        | _ => .dropChunk w.chunks.next⟩]
    else []

/-- What an operation does on behalf of tenants. -/
def entries : Op → List Entry
  | .allocatePage id t _ => match w.pagePool id with
      | none => []
      | some p => [⟨t, .allocatePage p.pageSize⟩]
  | .allocFromPage id t data reply => match w.pagePool id with
      | none => []
      | some p =>
          if data.length ≤ p.pageSize then w.filledPage t p (w.allocFromPage id t p data reply)
          else []
  | .allocWithPage id t init reply => match w.pagePool id with
      | none => []
      | some p => w.filledPage t p (w.allocWithPage id t p init reply)
  | .allocWithLenPage id t init reply => match w.pagePool id with
      | none => []
      | some p => w.filledPage t p (w.allocWithLenPage id t p init reply)
  | .sealPage i => w.onPage i (.sealPage i)
  | .clonePage i => w.onPage i (.clonePage i)
  | .dropPage i => w.onPage i (.dropPage i)
  | .allocateChunk id t size align _ => match w.chunkPool id with
      | none => []
      | some p => [⟨t, .allocateChunk p.pageSize size align⟩]
  | .allocFromChunk id t data reply => match w.chunkPool id with
      | none => []
      | some p => w.filledChunk t data.length p (w.allocFromChunk id t p data reply)
  | .allocWithChunk id t size init reply => match w.chunkPool id with
      | none => []
      | some p => w.filledChunk t size p (w.allocWithChunk id t p size init reply)
  | .allocWithLenChunk id t capacity init reply => match w.chunkPool id with
      | none => []
      | some p => w.filledChunk t capacity p (w.allocWithLenChunk id t p capacity init reply)
  | .sealChunk i => w.onChunk i (.sealChunk i)
  | .cloneChunk i => w.onChunk i (.cloneChunk i)
  | .dropChunk i => w.onChunk i (.dropChunk i)
  | _ => []

end World

/-! ## The machine -/

namespace Ledger

/-- One step of the ledger, with the entries it makes. -/
inductive Step : List Entry → Ledger → Ledger → Prop
  | allocatePage (l : Ledger) (a id tenant pageSize : ℕ) :
      Step [⟨tenant, .allocatePage pageSize⟩] l
        (l.addPage ⟨a, pageSize, 0, id, tenant, .builder⟩)
  | fillPage (l : Ledger) {i n : ℕ} {h : PageHandle} (get : l.pages.get i = some h)
      (le : n ≤ h.capacity) : Step [] l { l with pages := l.pages.set i { h with len := n } }
  | sealPage (l : Ledger) {i : ℕ} {h : PageHandle} (get : l.pages.get i = some h) :
      Step [⟨h.tenant, .sealPage i⟩] l
        { l with pages := l.pages.set i { h with refs := .sealed 1 } }
  | clonePage (l : Ledger) {i c : ℕ} {h : PageHandle} (get : l.pages.get i = some h)
      (refs : h.refs = .sealed c) :
      Step [⟨h.tenant, .clonePage i⟩] l
        { l with pages := l.pages.set i { h with refs := .sealed (c + 1) } }
  | unsharePage (l : Ledger) {i c : ℕ} {h : PageHandle} (get : l.pages.get i = some h)
      (refs : h.refs = .sealed c) (ne : c ≠ 1) :
      Step [⟨h.tenant, .dropPage i⟩] l
        { l with pages := l.pages.set i { h with refs := .sealed (c - 1) } }
  | releasePage (l : Ledger) {i : ℕ} {h : PageHandle} (get : l.pages.get i = some h)
      (last : h.refs = .builder ∨ h.refs = .sealed 1) :
      Step [⟨h.tenant, .dropPage i⟩] l (l.removePage i h)
  | allocateChunk (l : Ledger) {pageSize align : ℕ} {h : ChunkHandle}
      (granted : Granted pageSize h.request.size align)
      (capacity : h.capacity = truncate32 h.request.size) (refs : h.refs = .builder) :
      Step [⟨h.tenant, .allocateChunk pageSize h.request.size align⟩] l (l.addChunk h)
  | refuseChunk (l : Ledger) {tenant pageSize size align : ℕ}
      (refused : ¬ Granted pageSize size align) :
      Step [⟨tenant, .allocateChunk pageSize size align⟩] l l
  | fillChunk (l : Ledger) {i n : ℕ} {h : ChunkHandle} (get : l.chunks.get i = some h) :
      Step [] l { l with chunks := l.chunks.set i { h with len := n } }
  | sealChunk (l : Ledger) {i : ℕ} {h : ChunkHandle} (get : l.chunks.get i = some h) :
      Step [⟨h.tenant, .sealChunk i⟩] l
        { l with chunks := l.chunks.set i { h with refs := .sealed 1 } }
  | cloneChunk (l : Ledger) {i c : ℕ} {h : ChunkHandle} (get : l.chunks.get i = some h)
      (refs : h.refs = .sealed c) :
      Step [⟨h.tenant, .cloneChunk i⟩] l
        { l with chunks := l.chunks.set i { h with refs := .sealed (c + 1) } }
  | unshareChunk (l : Ledger) {i c : ℕ} {h : ChunkHandle} (get : l.chunks.get i = some h)
      (refs : h.refs = .sealed c) (ne : c ≠ 1) :
      Step [⟨h.tenant, .dropChunk i⟩] l
        { l with chunks := l.chunks.set i { h with refs := .sealed (c - 1) } }
  | releaseChunk (l : Ledger) {i : ℕ} {h : ChunkHandle} (get : l.chunks.get i = some h)
      (last : h.refs = .builder ∨ h.refs = .sealed 1) :
      Step [⟨h.tenant, .dropChunk i⟩] l (l.removeChunk i h)

/-- Any number of steps. -/
inductive Steps : List Entry → Ledger → Ledger → Prop
  | refl (l : Ledger) : Steps [] l l
  | tail {es e : List Entry} {l l₁ l₂ : Ledger} (steps : Steps es l l₁) (step : Step e l₁ l₂) :
      Steps (es ++ e) l l₂

variable {es e : List Entry} {l l' : Ledger}

lemma Steps.single (h : Step e l l') : Steps e l l' := .tail (.refl l) h

lemma Steps.of_eq (h : l' = l) : Steps [] l l' := by
  rw [h]
  exact .refl l

end Ledger

/-! ## Allocations -/

section Allocations

variable {w w' : World} {id tenant i size align l : ℕ} {p : Pool} {reply : Option ℕ}
  {c : Option OpenPage}

/-- `PagePool::allocate` panics only if the source does. -/
lemma panicked_allocatePage (hget : w.pools.get id = some p) (hlive : p.owner.Live) :
    (w.allocatePage id tenant p reply).Post (fun _ _ => True) fun _ => reply = none := by
  have hraw : (w.allocateRawPage id reply).Post (fun _ _ => True) fun _ => reply = none :=
    (refused_allocateRawPage hget hlive).mono (fun _ _ h => h) fun _ h => h.1
  exact hraw.bind fun _ _ _ => trivial

/-- `allocate_aligned` panics only if the request is not granted, or if the source panics. -/
lemma granted_allocateAligned (ho : Owned w.idle) (hget : w.pools.get id = some p)
    (howner : p.owner = .chunkPool l c) :
    (w.allocateAligned id tenant p size align reply).Post
      (fun _ _ => Granted p.pageSize size align)
      fun _ => reply = none ∨ ¬ Granted p.pageSize size align := by
  by_cases halign : IsPowerOfTwo align
  · -- A chunk on a page of the pool is refused only by the source.
    have hpaged (hclass : sizeClass p.pageSize size align = .packed ∨
        sizeClass p.pageSize size align = .dedicated) :
        (w.allocateAligned id tenant p size align reply).Post
          (fun _ _ => Granted p.pageSize size align)
          fun _ => reply = none ∨ ¬ Granted p.pageSize size align := by
      have hrefused : ((PageCall.chunk size align).exec w id tenant p reply).Post
          (fun _ _ => True) fun w' => reply = none ∧ Refused w (.chunk size align) id p w' :=
        refused_exec ho hget ⟨⟨l, c, howner⟩, halign, hclass⟩
      refine hrefused.mono (fun _ _ _ => ⟨halign, fun h => ?_⟩) fun _ h => Or.inl h.1
      rcases hclass with hclass | hclass
      · exact absurd (hclass.symm.trans h) (by simp)
      · exact absurd (hclass.symm.trans h) (by simp)
    cases hclass : sizeClass p.pageSize size align with
    | zero =>
        unfold World.allocateAligned
        rw [if_pos halign, hclass]
        exact Outcome.post_done ⟨halign, fun h => absurd (hclass.symm.trans h) (by simp)⟩
    | oversized =>
        unfold World.allocateAligned
        rw [if_pos halign, hclass]
        apply World.post_allocateOversized
        · exact fun hvalid a _ => Outcome.post_done ⟨halign, fun _ => hvalid⟩
        · exact fun hvalid => Or.inr fun h => hvalid (h.2 hclass)
    | packed => exact hpaged (Or.inl hclass)
    | dedicated => exact hpaged (Or.inr hclass)
  · unfold World.allocateAligned
    rw [if_neg halign]
    exact Outcome.post_panicked (Or.inr fun h => halign h.1)

lemma steps_allocatePage (hget : w.pools.get id = some p) (hlive : p.owner.Live) :
    (w.allocatePage id tenant p reply).Post
      (fun i w' => i = w.pages.next ∧
        Ledger.Steps [⟨tenant, .allocatePage p.pageSize⟩] w.ledger w'.ledger ∧
        ∃ h, w'.pages.get i = some h ∧ h.tenant = tenant ∧ h.refs = .builder)
      fun w' => reply = none ∧ w'.ledger = w.ledger := by
  have hboth := Outcome.Post.and (o := w.allocatePage id tenant p reply) ledger_allocatePage
    (panicked_allocatePage hget hlive)
  refine hboth.mono ?_ fun w' h => ⟨h.2, h.1⟩
  rintro i w' ⟨⟨rfl, a, hledger⟩, -⟩
  have hpages : w'.pages = w.pages.push ⟨a, p.pageSize, 0, id, tenant, .builder⟩ :=
    congrArg Ledger.pages hledger
  refine ⟨rfl, ?_, ⟨a, p.pageSize, 0, id, tenant, .builder⟩, ?_, rfl, rfl⟩
  · rw [hledger]
    exact .single (.allocatePage w.ledger a id tenant p.pageSize)
  · rw [hpages]
    exact Arena.get_push_self

lemma steps_allocateAligned (ho : Owned w.idle) (hget : w.pools.get id = some p)
    (howner : p.owner = .chunkPool l c) :
    (w.allocateAligned id tenant p size align reply).Post
      (fun i w' => i = w.chunks.next ∧ Granted p.pageSize size align ∧
        Ledger.Steps [⟨tenant, .allocateChunk p.pageSize size align⟩] w.ledger w'.ledger ∧
        ∃ h, w'.chunks.get i = some h ∧ h.tenant = tenant ∧ h.refs = .builder)
      fun w' => (reply = none ∨ ¬ Granted p.pageSize size align) ∧ w'.ledger = w.ledger := by
  have hboth := Outcome.Post.and (o := w.allocateAligned id tenant p size align reply)
    ledger_allocateAligned (granted_allocateAligned ho hget howner)
  refine hboth.mono ?_ fun w' h => ⟨h.2, h.1⟩
  rintro i w' ⟨⟨rfl, k, q, offset, hledger⟩, hgranted⟩
  have hchunks : w'.chunks = w.chunks.push (newBuilder id tenant size k q offset) :=
    congrArg Ledger.chunks hledger
  refine ⟨rfl, hgranted, ?_, newBuilder id tenant size k q offset, ?_, rfl, rfl⟩
  · rw [hledger]
    exact .single (.allocateChunk w.ledger (h := newBuilder id tenant size k q offset) hgranted
      rfl rfl)
  · rw [hchunks]
    exact Arena.get_push_self

/-- The entries of a panic on the way to a chunk. -/
lemma steps_of_panicked {es : List Entry}
    (hcase : reply = none ∨ ¬ Granted p.pageSize size align) (hledger : w'.ledger = w.ledger)
    (hes : ¬ Granted p.pageSize size align → es = [⟨tenant, .allocateChunk p.pageSize size align⟩]) :
    ∃ es', Ledger.Steps es' w.ledger w'.ledger ∧ (reply ≠ none → es' = es) := by
  by_cases hgranted : Granted p.pageSize size align
  · have hreply : reply = none := hcase.resolve_right fun h => h hgranted
    exact ⟨[], .of_eq hledger, fun h => absurd hreply h⟩
  · refine ⟨_, ?_, fun _ => (hes hgranted).symm⟩
    rw [hledger]
    exact .single (.refuseChunk w.ledger hgranted)

end Allocations

/-! ## Calls that fill a new handle -/

section Filled

variable {w w' : World} {id tenant i size l : ℕ} {p : Pool} {reply : Option ℕ}
  {c : Option OpenPage} {f : ℕ → World → Outcome World ℕ}

/-- The rest of a call fills the page `i` and seals it, or drops it. -/
def FinishesPage (f : ℕ → World → Outcome World ℕ) : Prop :=
  ∀ (w : World) (i : ℕ) (h : PageHandle), w.pages.get i = some h → h.refs = .builder →
    (f i w).Post (fun _ w' => Ledger.Steps [⟨h.tenant, .sealPage i⟩] w.ledger w'.ledger)
      fun w' => Ledger.Steps [⟨h.tenant, .dropPage i⟩] w.ledger w'.ledger

/-- The rest of a call fills the chunk `i` and seals it, or drops it. -/
def FinishesChunk (f : ℕ → World → Outcome World ℕ) : Prop :=
  ∀ (w : World) (i : ℕ) (h : ChunkHandle), w.chunks.get i = some h → h.refs = .builder →
    (f i w).Post (fun _ w' => Ledger.Steps [⟨h.tenant, .sealChunk i⟩] w.ledger w'.ledger)
      fun w' => Ledger.Steps [⟨h.tenant, .dropChunk i⟩] w.ledger w'.ledger

lemma steps_finishPage {h : PageHandle} {data : List UInt8} {len : Option ℕ}
    (hget : w.pages.get i = some h) (hbuilder : h.refs = .builder) :
    (w.finishPage i data len).Post
      (fun _ w' => Ledger.Steps [⟨h.tenant, .sealPage i⟩] w.ledger w'.ledger)
      fun w' => Ledger.Steps [⟨h.tenant, .dropPage i⟩] w.ledger w'.ledger := by
  refine (ledger_finishPage hget hbuilder).mono ?_ ?_
  · rintro _ w' ⟨n, -, hle, hledger⟩
    have hfill : Ledger.Step [] w.ledger _ := .fillPage w.ledger hget hle
    have hseal := Ledger.Step.sealPage { w.ledger with
      pages := w.pages.set i { h with len := n } } (Arena.get_set_self hget)
    have hsteps := (Ledger.Steps.single hfill).tail hseal
    dsimp only at hsteps
    rw [Arena.set_set] at hsteps
    rw [hledger]
    exact hsteps
  · rintro w' ⟨-, hledger⟩
    rw [hledger]
    exact .single (.releasePage w.ledger hget (Or.inl hbuilder))

lemma steps_finishChunk {h : ChunkHandle} {data : List UInt8} {len : Option ℕ}
    (hget : w.chunks.get i = some h) (hbuilder : h.refs = .builder) :
    (w.finishChunk i h data len).Post
      (fun _ w' => Ledger.Steps [⟨h.tenant, .sealChunk i⟩] w.ledger w'.ledger)
      fun w' => Ledger.Steps [⟨h.tenant, .dropChunk i⟩] w.ledger w'.ledger := by
  refine (ledger_finishChunk hbuilder).mono ?_ ?_
  · rintro _ w' ⟨n, -, -, hledger⟩
    have hfill : Ledger.Step [] w.ledger _ := .fillChunk w.ledger (n := truncate32 n) hget
    have hseal := Ledger.Step.sealChunk { w.ledger with
      chunks := w.chunks.set i { h with len := truncate32 n } } (Arena.get_set_self hget)
    have hsteps := (Ledger.Steps.single hfill).tail hseal
    dsimp only at hsteps
    rw [Arena.set_set] at hsteps
    rw [hledger]
    exact hsteps
  · rintro w' ⟨-, hledger⟩
    rw [hledger]
    exact .single (.releaseChunk w.ledger hget (Or.inl hbuilder))

lemma steps_dropChunk {h : ChunkHandle} (hget : w.chunks.get i = some h) :
    Ledger.Steps [⟨h.tenant, .dropChunk i⟩] w.ledger (w.dropChunk i h).ledger := by
  unfold World.dropChunk
  split
  · rename_i hrefs
    rw [ledger_releaseChunk]
    exact .single (.releaseChunk w.ledger hget (Or.inl hrefs))
  · rename_i hrefs
    rw [ledger_releaseChunk]
    exact .single (.releaseChunk w.ledger hget (Or.inr hrefs))
  · rename_i c hne hrefs
    exact .single (.unshareChunk w.ledger hget hrefs hne)

lemma steps_dropPage {h : PageHandle} (hget : w.pages.get i = some h) :
    Ledger.Steps [⟨h.tenant, .dropPage i⟩] w.ledger (w.dropPage i h).ledger := by
  unfold World.dropPage
  split
  · rename_i hrefs
    rw [ledger_releasePage]
    exact .single (.releasePage w.ledger hget (Or.inl hrefs))
  · rename_i hrefs
    rw [ledger_releasePage]
    exact .single (.releasePage w.ledger hget (Or.inr hrefs))
  · rename_i c hne hrefs
    exact .single (.unsharePage w.ledger hget hrefs hne)

lemma Ledger.Steps.append {es es' : List Entry} {l l' l'' : Ledger} (h : Steps es l l')
    (h' : Steps es' l' l'') : Steps (es ++ es') l l'' := by
  induction h' with
  | refl =>
      rw [List.append_nil]
      exact h
  | tail _ step ih =>
      rw [← List.append_assoc]
      exact (ih h).tail step

lemma steps_filledPage (hget : w.pools.get id = some p) (hlive : p.owner.Live)
    (hf : FinishesPage f)
    (hfinal : ((w.allocatePage id tenant p reply).bind f).final = some w') :
    ∃ es, Ledger.Steps es w.ledger w'.ledger ∧ (reply ≠ none →
      es = w.filledPage tenant p ((w.allocatePage id tenant p reply).bind f)) := by
  have halloc : (w.allocatePage id tenant p reply).Post _ _ := steps_allocatePage hget hlive
  cases hcall : w.allocatePage id tenant p reply with
  | refused =>
      rw [hcall] at hfinal
      exact absurd hfinal (by simp [Outcome.bind, Outcome.final])
  | panicked w₁ =>
      rw [hcall] at hfinal halloc
      obtain rfl := Option.some.inj hfinal
      obtain ⟨hreply, hledger⟩ := halloc
      exact ⟨[], .of_eq hledger, fun h => absurd hreply h⟩
  | done i w₁ =>
      rw [hcall] at hfinal halloc
      obtain ⟨rfl, hsteps, h, hi, rfl, hbuilder⟩ := halloc
      have hrest := hf w₁ w.pages.next h hi hbuilder
      rw [Outcome.bind_done] at hfinal ⊢
      cases hend : f w.pages.next w₁ with
      | refused =>
          rw [hend] at hfinal
          exact absurd hfinal (by simp [Outcome.final])
      | panicked w₂ =>
          rw [hend] at hfinal hrest
          obtain rfl := Option.some.inj hfinal
          exact ⟨_, hsteps.append hrest, fun _ => rfl⟩
      | done j w₂ =>
          rw [hend] at hfinal hrest
          obtain rfl := Option.some.inj hfinal
          exact ⟨_, hsteps.append hrest, fun _ => rfl⟩

lemma steps_filledChunk (ho : Owned w.idle) (hget : w.pools.get id = some p)
    (howner : p.owner = .chunkPool l c) (hf : FinishesChunk f)
    (hfinal : ((w.allocateChunk id tenant p size reply).bind f).final = some w') :
    ∃ es, Ledger.Steps es w.ledger w'.ledger ∧ (reply ≠ none →
      es = w.filledChunk tenant size p ((w.allocateChunk id tenant p size reply).bind f)) := by
  have halloc : (w.allocateChunk id tenant p size reply).Post _ _ :=
    steps_allocateAligned ho hget howner
  cases hcall : w.allocateChunk id tenant p size reply with
  | refused =>
      rw [hcall] at hfinal
      exact absurd hfinal (by simp [Outcome.bind, Outcome.final])
  | panicked w₁ =>
      rw [hcall] at hfinal halloc
      obtain rfl := Option.some.inj hfinal
      obtain ⟨hcase, hledger⟩ := halloc
      have hes (hrefused : ¬ Granted p.pageSize size defaultAlign) :
          w.filledChunk tenant size p (.panicked w₁) =
            [⟨tenant, .allocateChunk p.pageSize size defaultAlign⟩] := by
        unfold World.filledChunk
        rw [if_neg hrefused]
      exact steps_of_panicked hcase hledger hes
  | done i w₁ =>
      rw [hcall] at hfinal halloc
      obtain ⟨rfl, hgranted, hsteps, h, hi, rfl, hbuilder⟩ := halloc
      have hrest := hf w₁ w.chunks.next h hi hbuilder
      rw [Outcome.bind_done] at hfinal ⊢
      unfold World.filledChunk
      rw [if_pos hgranted]
      cases hend : f w.chunks.next w₁ with
      | refused =>
          rw [hend] at hfinal
          exact absurd hfinal (by simp [Outcome.final])
      | panicked w₂ =>
          rw [hend] at hfinal hrest
          obtain rfl := Option.some.inj hfinal
          exact ⟨_, hsteps.append hrest, fun _ => rfl⟩
      | done j w₂ =>
          rw [hend] at hfinal hrest
          obtain rfl := Option.some.inj hfinal
          exact ⟨_, hsteps.append hrest, fun _ => rfl⟩

end Filled

/-! ## Every operation -/

section Steps

variable {w w' : World} {op : Op}

/-- The ledger goes through the entries of the operation, if the source grants what it asks for. -/
def Journals (w : World) (op : Op) (w' : World) : Prop :=
  ∃ es, Ledger.Steps es w.ledger w'.ledger ∧ (op.Succeeds → es = w.entries op)

/-- An operation that tenants have no part in. -/
lemma Journals.of_eq (hentries : w.entries op = []) (hledger : w'.ledger = w.ledger) :
    Journals w op w' := ⟨[], .of_eq hledger, fun _ => hentries.symm⟩

lemma onPage_of_get {i : ℕ} {h : PageHandle} {act : Act} (hget : w.pages.get i = some h) :
    w.onPage i act = [⟨h.tenant, act⟩] := by
  unfold World.onPage
  rw [hget]

lemma onChunk_of_get {i : ℕ} {h : ChunkHandle} {act : Act} (hget : w.chunks.get i = some h) :
    w.onChunk i act = [⟨h.tenant, act⟩] := by
  unfold World.onChunk
  rw [hget]

lemma KeepsLedger.final {α : Type} {o : Outcome World α} (h : KeepsLedger w o)
    (hw' : o.final = some w') : w'.ledger = w.ledger := by
  unfold KeepsLedger at h
  exact h.final (P := fun w' => w'.ledger = w.ledger) hw'

lemma journal_page {id tenant : ℕ} {reply : Option ℕ} (h : w.step (.allocatePage id tenant reply) =
    some w') : Journals w (.allocatePage id tenant reply) w' := by
  obtain ⟨p, hp, h⟩ := Option.bind_eq_some_iff.1 h
  obtain ⟨hget, l, howner⟩ := World.pagePool_eq_some hp
  have hlive := Owner.live_of_pagePool howner
  have hentries : w.entries (.allocatePage id tenant reply) =
      [⟨tenant, .allocatePage p.pageSize⟩] := by
    simp only [World.entries, hp]
  have hsteps : (w.allocatePage id tenant p reply).Post _ _ := steps_allocatePage hget hlive
  cases hcall : w.allocatePage id tenant p reply with
  | refused =>
      rw [hcall] at h
      exact absurd h (by simp [Outcome.final])
  | panicked w₁ =>
      rw [hcall] at h hsteps
      obtain rfl := Option.some.inj h
      obtain ⟨hreply, hledger⟩ := hsteps
      exact ⟨[], .of_eq hledger, fun hok => absurd (congrArg some hreply) hok⟩
  | done i w₁ =>
      rw [hcall] at h hsteps
      obtain rfl := Option.some.inj h
      exact ⟨_, hsteps.2.1, fun _ => hentries.symm⟩

lemma journal_chunk {id tenant size align : ℕ} {reply : Option ℕ} (ho : Owned w.idle)
    (h : w.step (.allocateChunk id tenant size align reply) = some w') :
    Journals w (.allocateChunk id tenant size align reply) w' := by
  obtain ⟨p, hp, h⟩ := Option.bind_eq_some_iff.1 h
  obtain ⟨hget, l, c, howner⟩ := World.chunkPool_eq_some hp
  have hentries : w.entries (.allocateChunk id tenant size align reply) =
      [⟨tenant, .allocateChunk p.pageSize size align⟩] := by
    simp only [World.entries, hp]
  have hsteps : (w.allocateAligned id tenant p size align reply).Post _ _ :=
    steps_allocateAligned ho hget howner
  cases hcall : w.allocateAligned id tenant p size align reply with
  | refused =>
      rw [hcall] at h
      exact absurd h (by simp [Outcome.final])
  | panicked w₁ =>
      rw [hcall] at h hsteps
      obtain rfl := Option.some.inj h
      obtain ⟨hcase, hledger⟩ := hsteps
      obtain ⟨es, hes, heq⟩ := steps_of_panicked hcase hledger fun _ => hentries
      exact ⟨es, hes, fun hok => heq fun hreply => hok (congrArg some hreply)⟩
  | done i w₁ =>
      rw [hcall] at h hsteps
      obtain rfl := Option.some.inj h
      exact ⟨_, hsteps.2.2.1, fun _ => hentries.symm⟩

/-- A call that fills a new page. -/
lemma journal_filledPage {id tenant : ℕ} {p : Pool} {reply : Option ℕ}
    {f : ℕ → World → Outcome World ℕ} (hp : w.pagePool id = some p) (hf : FinishesPage f)
    (hok : op.Succeeds → reply ≠ none) (hentries : w.entries op =
      w.filledPage tenant p ((w.allocatePage id tenant p reply).bind f))
    (h : ((w.allocatePage id tenant p reply).bind f).final = some w') : Journals w op w' := by
  obtain ⟨hget, l, howner⟩ := World.pagePool_eq_some hp
  have hlive := Owner.live_of_pagePool howner
  obtain ⟨es, hsteps, heq⟩ := steps_filledPage hget hlive hf h
  exact ⟨es, hsteps, fun h => (heq (hok h)).trans hentries.symm⟩

/-- A call that fills a new chunk. -/
lemma journal_filledChunk {id tenant size : ℕ} {p : Pool} {reply : Option ℕ}
    {f : ℕ → World → Outcome World ℕ} (ho : Owned w.idle) (hp : w.chunkPool id = some p)
    (hf : FinishesChunk f) (hok : op.Succeeds → reply ≠ none) (hentries : w.entries op =
      w.filledChunk tenant size p ((w.allocateChunk id tenant p size reply).bind f))
    (h : ((w.allocateChunk id tenant p size reply).bind f).final = some w') : Journals w op w' := by
  obtain ⟨hget, l, c, howner⟩ := World.chunkPool_eq_some hp
  obtain ⟨es, hsteps, heq⟩ := steps_filledChunk ho hget howner hf h
  exact ⟨es, hsteps, fun h => (heq (hok h)).trans hentries.symm⟩

/-! ### Pools -/

lemma keepsLedger_newPool {pageSize : ℕ} {chunked : Bool} :
    KeepsLedger w (w.newPool pageSize chunked) := by
  unfold World.newPool
  split <;> rfl

lemma ledger_dropPool {id : ℕ} {p : Pool} (h : w.dropPool id p = some w') :
    w'.ledger = w.ledger := by
  unfold World.dropPool at h
  split at h
  · obtain rfl := Option.some.inj h
    exact ledger_dropPagePool
  · obtain rfl := Option.some.inj h
    exact ledger_dropChunkPool
  · exact absurd h (by simp)

/-! ### Pages -/

section Pages

variable {id i tenant : ℕ} {p : Pool} {h : PageHandle} {reply : Option ℕ} {data : List UInt8}
  {init : Closure}

lemma journal_allocFromPage (hp : w.pagePool id = some p)
    (hfinal : (w.allocFromPage id tenant p data reply).final = some w') :
    Journals w (.allocFromPage id tenant data reply) w' := by
  have hentries : w.entries (.allocFromPage id tenant data reply) =
      if data.length ≤ p.pageSize then
        w.filledPage tenant p (w.allocFromPage id tenant p data reply)
      else [] := by
    simp only [World.entries, hp]
  by_cases hle : data.length ≤ p.pageSize
  · rw [if_pos hle] at hentries
    unfold World.allocFromPage at hfinal hentries
    rw [if_pos hle] at hfinal hentries
    refine journal_filledPage hp ?_ (fun hok hreply => hok (congrArg some hreply)) hentries hfinal
    exact fun w i h hget hbuilder => steps_finishPage hget hbuilder
  · rw [if_neg hle] at hentries
    unfold World.allocFromPage at hfinal
    rw [if_neg hle] at hfinal
    obtain rfl := Option.some.inj hfinal
    exact .of_eq hentries rfl

lemma journal_allocWithPage (hp : w.pagePool id = some p)
    (hfinal : (w.allocWithPage id tenant p init reply).final = some w') :
    Journals w (.allocWithPage id tenant init reply) w' := by
  have hentries : w.entries (.allocWithPage id tenant init reply) =
      w.filledPage tenant p (w.allocWithPage id tenant p init reply) := by
    simp only [World.entries, hp]
  refine journal_filledPage hp (fun w i h hget hbuilder => ?_)
    (fun hok hreply => hok (congrArg some hreply)) hentries hfinal
  dsimp only
  rw [hget]
  exact steps_finishPage hget hbuilder

lemma journal_allocWithLenPage (hp : w.pagePool id = some p)
    (hfinal : (w.allocWithLenPage id tenant p init reply).final = some w') :
    Journals w (.allocWithLenPage id tenant init reply) w' := by
  have hentries : w.entries (.allocWithLenPage id tenant init reply) =
      w.filledPage tenant p (w.allocWithLenPage id tenant p init reply) := by
    simp only [World.entries, hp]
  refine journal_filledPage hp (fun w i h hget hbuilder => ?_)
    (fun hok hreply => hok (congrArg some hreply)) hentries hfinal
  dsimp only
  rw [hget]
  exact steps_finishPage hget hbuilder

lemma journal_appendPage (hget : w.pages.get i = some h)
    (happend : w.appendPage i h data = .ok w') : Journals w (.appendPage i data) w' := by
  unfold World.appendPage at happend
  split at happend
  · exact absurd happend (by simp)
  · rename_i hle
    obtain rfl := Except.ok.inj happend
    exact ⟨[], .single (.fillPage w.ledger hget (by omega)), fun _ => rfl⟩

lemma journal_setLenPage {len : ℕ} (hget : w.pages.get i = some h)
    (hfinal : (w.setLenPage i h len).final = some w') : Journals w (.setLenPage i len) w' := by
  unfold World.setLenPage at hfinal
  split at hfinal
  · rename_i hle
    obtain rfl := Option.some.inj hfinal
    exact ⟨[], .single (.fillPage w.ledger hget hle), fun _ => rfl⟩
  · obtain rfl := Option.some.inj hfinal
    exact .of_eq rfl rfl

lemma keepsLedger_writePage {pos : ℕ} : KeepsLedger w (w.writePage h pos data) := by
  unfold World.writePage
  split <;> rfl

lemma journal_sealPage (hget : w.pages.get i = some h) :
    Journals w (.sealPage i) (w.sealPage i h) := by
  refine ⟨_, ?_, fun _ => (onPage_of_get hget).symm⟩
  rw [ledger_sealPage]
  exact .single (.sealPage w.ledger hget)

lemma journal_clonePage (hget : w.pages.get i = some h) (hclone : w.clonePage i h = some w') :
    Journals w (.clonePage i) w' := by
  unfold World.clonePage at hclone
  split at hclone
  · exact absurd hclone (by simp)
  · rename_i c hrefs
    obtain rfl := Option.some.inj hclone
    exact ⟨_, .single (.clonePage w.ledger hget hrefs), fun _ => (onPage_of_get hget).symm⟩

end Pages

/-! ### Chunks -/

section Chunks

variable {id i tenant size : ℕ} {p : Pool} {h : ChunkHandle} {reply : Option ℕ}
  {data : List UInt8} {init : Closure}

lemma journal_allocFromChunk (ho : Owned w.idle) (hp : w.chunkPool id = some p)
    (hfinal : (w.allocFromChunk id tenant p data reply).final = some w') :
    Journals w (.allocFromChunk id tenant data reply) w' := by
  have hentries : w.entries (.allocFromChunk id tenant data reply) =
      w.filledChunk tenant data.length p (w.allocFromChunk id tenant p data reply) := by
    simp only [World.entries, hp]
  refine journal_filledChunk ho hp (fun w i h hget hbuilder => ?_)
    (fun hok hreply => hok (congrArg some hreply)) hentries hfinal
  rw [hget]
  dsimp only
  split
  · exact steps_finishChunk hget hbuilder
  · exact Outcome.post_panicked (steps_dropChunk hget)

lemma journal_allocWithChunk (ho : Owned w.idle) (hp : w.chunkPool id = some p)
    (hfinal : (w.allocWithChunk id tenant p size init reply).final = some w') :
    Journals w (.allocWithChunk id tenant size init reply) w' := by
  have hentries : w.entries (.allocWithChunk id tenant size init reply) =
      w.filledChunk tenant size p (w.allocWithChunk id tenant p size init reply) := by
    simp only [World.entries, hp]
  refine journal_filledChunk ho hp (fun w i h hget hbuilder => ?_)
    (fun hok hreply => hok (congrArg some hreply)) hentries hfinal
  dsimp only
  rw [hget]
  exact steps_finishChunk hget hbuilder

lemma journal_allocWithLenChunk (ho : Owned w.idle) (hp : w.chunkPool id = some p)
    (hfinal : (w.allocWithLenChunk id tenant p size init reply).final = some w') :
    Journals w (.allocWithLenChunk id tenant size init reply) w' := by
  have hentries : w.entries (.allocWithLenChunk id tenant size init reply) =
      w.filledChunk tenant size p (w.allocWithLenChunk id tenant p size init reply) := by
    simp only [World.entries, hp]
  refine journal_filledChunk ho hp (fun w i h hget hbuilder => ?_)
    (fun hok hreply => hok (congrArg some hreply)) hentries hfinal
  dsimp only
  rw [hget]
  exact steps_finishChunk hget hbuilder

lemma journal_appendChunk (hget : w.chunks.get i = some h)
    (happend : w.appendChunk i h data = .ok w') : Journals w (.appendChunk i data) w' := by
  unfold World.appendChunk at happend
  split at happend
  · exact absurd happend (by simp)
  · obtain rfl := Except.ok.inj happend
    have hstore : (w.storeChunk h h.len data).ledger = w.ledger := ledger_storeChunk
    refine ⟨[], ?_, fun _ => rfl⟩
    rw [← hstore]
    refine .single (.fillChunk (w.storeChunk h h.len data).ledger ?_)
    rw [hstore]
    exact hget

lemma journal_setLenChunk {len : ℕ} (hget : w.chunks.get i = some h)
    (hfinal : (w.setLenChunk i h len).final = some w') : Journals w (.setLenChunk i len) w' := by
  unfold World.setLenChunk at hfinal
  split at hfinal
  · obtain rfl := Option.some.inj hfinal
    exact ⟨[], .single (.fillChunk w.ledger hget), fun _ => rfl⟩
  · obtain rfl := Option.some.inj hfinal
    exact .of_eq rfl rfl

lemma keepsLedger_writeChunk {pos : ℕ} : KeepsLedger w (w.writeChunk h pos data) := by
  unfold World.writeChunk
  split
  · exact Outcome.post_done ledger_storeChunk
  · exact Outcome.post_panicked rfl

lemma journal_sealChunk (hget : w.chunks.get i = some h) :
    Journals w (.sealChunk i) (w.sealChunk i h) := by
  refine ⟨_, ?_, fun _ => (onChunk_of_get hget).symm⟩
  rw [ledger_sealChunk]
  exact .single (.sealChunk w.ledger hget)

lemma journal_cloneChunk (hget : w.chunks.get i = some h) (hclone : w.cloneChunk i h = some w') :
    Journals w (.cloneChunk i) w' := by
  unfold World.cloneChunk at hclone
  split at hclone
  · exact absurd hclone (by simp)
  · rename_i c hrefs
    obtain rfl := Option.some.inj hclone
    exact ⟨_, .single (.cloneChunk w.ledger hget hrefs), fun _ => (onChunk_of_get hget).symm⟩

end Chunks

/-- **Refinement.** Every operation takes the ledger through its entries. -/
theorem journal_step (ho : Owned w.idle) (h : w.step op = some w') : Journals w op w' := by
  cases op with
  | newPagePool ps => exact .of_eq rfl (keepsLedger_newPool.final h)
  | newChunkPool ps => exact .of_eq rfl (keepsLedger_newPool.final h)
  | prewarm id replies =>
      simp only [World.step, Option.ite_none_right_eq_some] at h
      exact .of_eq rfl (keepsLedger_prewarm.final h.2)
  | dropPool id =>
      obtain ⟨p, -, h⟩ := Option.bind_eq_some_iff.1 h
      exact .of_eq rfl (ledger_dropPool h)
  | cloneShared id =>
      simp only [World.step, Option.ite_none_right_eq_some] at h
      obtain rfl := Option.some.inj h.2
      have hledger : (w.cloneShared id).ledger = w.ledger := ledger_cloneShared
      exact .of_eq rfl hledger
  | dropSharedHandle id =>
      simp only [World.step, Option.ite_none_right_eq_some] at h
      obtain rfl := Option.some.inj h.2
      exact .of_eq rfl ledger_dropShared
  | allocatePage id t reply => exact journal_page h
  | allocFromPage id t data reply =>
      obtain ⟨p, hp, h⟩ := Option.bind_eq_some_iff.1 h
      exact journal_allocFromPage hp h
  | allocWithPage id t init reply =>
      obtain ⟨p, hp, h⟩ := Option.bind_eq_some_iff.1 h
      exact journal_allocWithPage hp h
  | allocWithLenPage id t init reply =>
      obtain ⟨p, hp, h⟩ := Option.bind_eq_some_iff.1 h
      exact journal_allocWithLenPage hp h
  | appendPage i data =>
      obtain ⟨hd, hget, h⟩ := Option.bind_eq_some_iff.1 h
      split at h
      · rename_i happend
        obtain rfl := Option.some.inj h
        exact journal_appendPage (World.pageBuilder_eq_some hget).1 happend
      · obtain rfl := Option.some.inj h
        exact .of_eq rfl rfl
  | setLenPage i len =>
      obtain ⟨hd, hget, h⟩ := Option.bind_eq_some_iff.1 h
      exact journal_setLenPage (World.pageBuilder_eq_some hget).1 h
  | writePage i pos data =>
      obtain ⟨hd, hget, h⟩ := Option.bind_eq_some_iff.1 h
      exact .of_eq rfl (keepsLedger_writePage.final h)
  | sealPage i =>
      obtain ⟨hd, hget, rfl⟩ := Option.map_eq_some_iff.1 h
      exact journal_sealPage (World.pageBuilder_eq_some hget).1
  | clonePage i =>
      obtain ⟨hd, hget, h⟩ := Option.bind_eq_some_iff.1 h
      exact journal_clonePage hget h
  | dropPage i =>
      obtain ⟨hd, hget, rfl⟩ := Option.map_eq_some_iff.1 h
      exact ⟨_, steps_dropPage hget, fun _ => (onPage_of_get hget).symm⟩
  | allocateChunk id t size align reply => exact journal_chunk ho h
  | allocFromChunk id t data reply =>
      obtain ⟨p, hp, h⟩ := Option.bind_eq_some_iff.1 h
      exact journal_allocFromChunk ho hp h
  | allocWithChunk id t size init reply =>
      obtain ⟨p, hp, h⟩ := Option.bind_eq_some_iff.1 h
      exact journal_allocWithChunk ho hp h
  | allocWithLenChunk id t capacity init reply =>
      obtain ⟨p, hp, h⟩ := Option.bind_eq_some_iff.1 h
      exact journal_allocWithLenChunk ho hp h
  | appendChunk i data =>
      obtain ⟨hd, hget, h⟩ := Option.bind_eq_some_iff.1 h
      split at h
      · rename_i happend
        obtain rfl := Option.some.inj h
        exact journal_appendChunk (World.chunkBuilder_eq_some hget).1 happend
      · obtain rfl := Option.some.inj h
        exact .of_eq rfl rfl
  | setLenChunk i len =>
      obtain ⟨hd, hget, h⟩ := Option.bind_eq_some_iff.1 h
      exact journal_setLenChunk (World.chunkBuilder_eq_some hget).1 h
  | writeChunk i pos data =>
      obtain ⟨hd, hget, h⟩ := Option.bind_eq_some_iff.1 h
      exact .of_eq rfl (keepsLedger_writeChunk.final h)
  | sealChunk i =>
      obtain ⟨hd, hget, rfl⟩ := Option.map_eq_some_iff.1 h
      exact journal_sealChunk (World.chunkBuilder_eq_some hget).1
  | cloneChunk i =>
      obtain ⟨hd, hget, h⟩ := Option.bind_eq_some_iff.1 h
      exact journal_cloneChunk hget h
  | dropChunk i =>
      obtain ⟨hd, hget, rfl⟩ := Option.map_eq_some_iff.1 h
      exact ⟨_, steps_dropChunk hget, fun _ => (onChunk_of_get hget).symm⟩

end Steps

end PagedAlloc.Sequential
