import PagedAlloc.Framework.BlobStore
import PagedAlloc.Properties.Accounting
import PagedAlloc.Properties.Cursor
import PagedAlloc.Properties.Frames

/-!
# The crate as a store of drafts and blobs: pages

Pools, free lists, shared pages, reference counts and casts are there so that a user need not know
of them.  What the user is left with is the store of `Framework/BlobStore.lean`: a builder is a
draft of its own, a sealed page or chunk is a blob, and an operation on one handle is an action on
one object.

`World.pageEvents` and `World.chunkEvents` read an operation as events of two such stores, one with
the pages and one with the chunks of all pools and tenants.  A world shows a store (`Shows`) if
through its getters every handle looks like the object under its identity; here it is proved
that a primitive operation on the world and its events in the store of pages keep this
(`shows_page_step`).
-/

namespace PagedAlloc.Sequential

open Words Bytes Transition BoundedBuffer BlobStore

/-! ## What handles show -/

/-- What the getters return: of a builder, or of a sealed handle with as many clones. -/
inductive View
  | builder (o : Observation)
  | sealed (capacity len : ℕ) (asSlice : List UInt8) (clones : ℕ)
  deriving DecidableEq, Repr

/-- What an object of the store looks like. -/
def View.ofItem : Item UInt8 → View
  | .draft b => .builder (.ofBuffer b)
  | .blob c x n => .sealed c x.length x n

namespace World

variable (w : World)

def pageView (h : PageHandle) : View :=
  match h.refs with
  | .builder => .builder ⟨h.capacity, h.len, h.remaining, w.pageSlice h, w.pageMutSlice h⟩
  | .sealed n => .sealed h.capacity h.len (w.pageSlice h) n

def chunkView (h : ChunkHandle) : View :=
  match h.refs with
  | .builder => .builder ⟨h.capacity, h.len, h.remaining, w.chunkSlice h, w.chunkMutSlice h⟩
  | .sealed n => .sealed h.capacity h.len (w.chunkSlice h) n

def viewPage (i : ℕ) : Option View := (w.pages.get i).map w.pageView

def viewChunk (i : ℕ) : Option View := (w.chunks.get i).map w.chunkView

end World

/-! ## Operations as events -/

/-- What an operation on a page does to its object. -/
def Op.pageActs : Op → List (Event UInt8)
  | .appendPage i data => [.act i (.command (.append data))]
  | .setLenPage i len => [.act i (.command (.setLen len))]
  | .writePage i pos data => [.act i (.command (.write pos data))]
  | .sealPage i => [.act i .freeze]
  | .clonePage i => [.act i .share]
  | .dropPage i => [.act i .drop]
  | _ => []

/-- What an operation on a chunk does to its object. -/
def Op.chunkActs : Op → List (Event UInt8)
  | .appendChunk i data => [.act i (.command (.append data))]
  | .setLenChunk i len => [.act i (.command (.setLen len))]
  | .writeChunk i pos data => [.act i (.command (.write pos data))]
  | .sealChunk i => [.act i .freeze]
  | .cloneChunk i => [.act i .share]
  | .dropChunk i => [.act i .drop]
  | _ => []

namespace World

variable (w : World)

/-- A call that returns a builder creates a draft of `c` bytes. -/
def created (c : ℕ) (call : Outcome World ℕ) (cells : World → ℕ → List UInt8) :
    List (Event UInt8) :=
  match call with
  | .done i w' => [.create c (cells w' i)]
  | _ => []

/-- The bytes of the buffer of the page `i`. -/
def pageCells (i : ℕ) : List UInt8 := (w.pages.get i).elim [] w.pageMutSlice

/-- The bytes of the range of the chunk `i`. -/
def chunkCells (i : ℕ) : List UInt8 := (w.chunks.get i).elim [] w.chunkMutSlice

/-- What a primitive operation does to the store of pages. -/
def pageEvents : Op → List (Event UInt8)
  | .allocatePage id t reply => match w.pagePool id with
      | none => []
      | some p => created p.pageSize (w.allocatePage id t p reply) World.pageCells
  | op => op.pageActs

/-- What a primitive operation does to the store of chunks. -/
def chunkEvents : Op → List (Event UInt8)
  | .allocateChunk id t size align reply => match w.chunkPool id with
      | none => []
      | some p => created size (w.allocateAligned id t p size align reply) World.chunkCells
  | op => op.chunkActs

/-- A request for a chunk is for less than `2 ^ 32` bytes, from a pool with smaller pages than
that. -/
def SmallRequest (op : Op) : Prop :=
  ∀ r ∈ op.chunkRequest, r.size < size32 ∧ ∀ p ∈ w.chunkPool r.pool, p.pageSize < size32

instance (op : Op) : Decidable (w.SmallRequest op) :=
  inferInstanceAs (Decidable (∀ r ∈ op.chunkRequest, _ ∧ ∀ p ∈ w.chunkPool r.pool, _))

end World

/-- The events of a run in the store of pages. -/
def pageHistory (w : World) (ops : List Op) : List (Event UInt8) :=
  emitted World.step World.pageEvents w (primitives w ops)

/-- The events of a run in the store of chunks. -/
def chunkHistory (w : World) (ops : List Op) : List (Event UInt8) :=
  emitted World.step World.chunkEvents w (primitives w ops)

/-! ## Showing a store -/

/-- Handles under the identities below `next` show the objects of the store. -/
structure Shows (next : ℕ) (view : ℕ → Option View) (s : Arena (Item UInt8)) : Prop where
  next : s.next = next
  view : ∀ i, view i = (s.get i).map View.ofItem

section Shows

variable {n i c : ℕ} {v v' : ℕ → Option View} {s : Arena (Item UInt8)} {x : Item UInt8}
  {o : Option (Item UInt8)} {a : Action UInt8} {b : Buffer UInt8 c} {cells bytes : List UInt8}

lemma Shows.congr (hs : Shows n v s) (hview : ∀ j, v' j = v j) : Shows n v' s where
  next := hs.next
  view j := (hview j).trans (hs.view j)

/-- A new handle shows a new draft. -/
lemma Shows.create (hs : Shows n v s) (hlen : cells.length = c)
    (hnew : v' n = some (.builder ⟨c, 0, c, [], cells⟩)) (hrest : ∀ j, j ≠ n → v' j = v j) :
    ∃ s', run BlobStore.step s [.create c cells] = some s' ∧ Shows (n + 1) v' s' := by
  refine ⟨_, run_cons_eq_some.2 ⟨_, step_create_eq_some.2 ⟨hlen, rfl⟩, rfl⟩, ?_, fun j => ?_⟩
  · exact congrArg (· + 1) hs.next
  · rw [Arena.get_push, hs.next]
    split
    · rename_i hj
      rw [hj, hnew]
      rfl
    · rename_i hj
      rw [hrest j hj, hs.view]

/-- An action on one object, of which the handle shows the outcome. -/
lemma Shows.act (hs : Shows n v s) (hx : s.get i = some x) (hact : x.act a = some o)
    (hself : v' i = o.map View.ofItem) (hrest : ∀ j, ¬ i = j → v' j = v j) :
    ∃ s', run BlobStore.step s [.act i a] = some s' ∧ Shows n v' s' := by
  refine ⟨putBack s i o, run_cons_eq_some.2 ⟨_, step_act_eq_some.2 ⟨x, o, hx, hact, rfl⟩, rfl⟩, ?_,
    fun j => ?_⟩
  · rw [next_putBack]
    exact hs.next
  · by_cases hj : i = j
    · subst hj
      rw [get_putBack_self hx, hself]
    · rw [get_putBack_of_ne (Ne.symm hj), hrest j hj, hs.view]

lemma Shows.draft {obs : Observation} (hs : Shows n v s) (hv : v i = some (.builder obs)) :
    ∃ c, ∃ b : Buffer UInt8 c, s.get i = some (.draft b) ∧ obs = .ofBuffer b := by
  rw [hs.view i] at hv
  obtain ⟨x, hx, heq⟩ := Option.map_eq_some_iff.1 hv
  cases x with
  | draft b => exact ⟨_, b, hx, (View.builder.inj heq).symm⟩
  | blob d y m => exact absurd heq (by simp [View.ofItem])

lemma Shows.blob {c len m : ℕ} (hs : Shows n v s) (hv : v i = some (.sealed c len bytes m)) :
    s.get i = some (.blob c bytes m) ∧ len = bytes.length := by
  rw [hs.view i] at hv
  obtain ⟨x, hx, heq⟩ := Option.map_eq_some_iff.1 hv
  cases x with
  | draft b => exact absurd heq (by simp [View.ofItem])
  | blob d y k =>
      obtain ⟨rfl, rfl, rfl, rfl⟩ := View.sealed.inj heq
      exact ⟨hx, rfl⟩

end Shows

/-! ## Sound states -/

/-- What every reachable state has. -/
structure World.Sound (w : World) : Prop where
  owned : Owned w.idle
  ranges : Ranges w.pools w.chunks
  fit : w.ledger.PagesFit

section Sound

variable {w w' : World} {op : Op} {ops : List Op}

lemma sound_init : World.init.Sound where
  owned := owned_init
  ranges := ranges_init
  fit := by
    have hrun : runOps [] = some World.init := rfl
    exact pagesFit_run hrun

lemma World.Sound.step (hs : w.Sound) (hstep : w.step op = some w') : w'.Sound where
  owned := hs.owned.moves (custody_step hs.owned hstep)
  ranges := hs.ranges.moves hs.owned (custody_step hs.owned hstep)
  fit := by
    obtain ⟨es, hsteps, -⟩ := journal_step hs.owned hstep
    exact hs.fit.steps hsteps

lemma World.Sound.run (hs : w.Sound) (hrun : Transition.run World.step w ops = some w') :
    w'.Sound :=
  run_invariant (fun _ _ _ h => World.Sound.step h) hs hrun

end Sound

/-! ## Pages -/

section Pages

variable {w w' : World} {P Q : ℕ → Prop} {i : ℕ} {h : PageHandle} {s : Arena (Item UInt8)}
  {op : Op}

lemma pageView_congr (hlen : h.len ≤ h.capacity) (hkeeps : h.Keeps w.mem w'.mem) :
    w'.pageView h = w.pageView h := by
  have hslice : w'.pageSlice h = w.pageSlice h :=
    read_congr fun x hlow hhigh => hkeeps x hlow (by omega)
  have hmut : w'.pageMutSlice h = w.pageMutSlice h := read_congr hkeeps
  unfold World.pageView
  rw [hslice, hmut]

lemma viewPage_of_frame (hf : w.Frame P Q w') (hfit : w.ledger.PagesFit) (hi : P i) :
    w'.viewPage i = w.viewPage i := by
  unfold World.viewPage
  rw [hf.page i hi]
  cases hget : w.pages.get i with
  | none => rfl
  | some h =>
      rw [Option.map_some, Option.map_some,
        pageView_congr (hfit i h hget) (hf.keepsPage i h hi hget)]

lemma viewPage_of_get (hget : w.pages.get i = some h) : w.viewPage i = some (w.pageView h) := by
  unfold World.viewPage
  rw [hget]
  rfl

lemma viewPage_builder {o : Observation} :
    w.viewPage i = some (.builder o) ↔ w.observePage i = some o := by
  unfold World.viewPage World.observePage World.pageBuilder
  cases hget : w.pages.get i with
  | none => simp
  | some h =>
      cases hrefs : h.refs with
      | builder => simp [World.pageView, hrefs]
      | sealed n => simp [World.pageView, hrefs]

lemma viewPage_of_builder (hi : w.pageBuilder i = some h) : w.viewPage i = some (.builder
    ⟨h.capacity, h.len, h.remaining, w.pageSlice h, w.pageMutSlice h⟩) := by
  obtain ⟨hget, hrefs⟩ := World.pageBuilder_eq_some hi
  rw [viewPage_of_get hget, World.pageView, hrefs]

/-- A command to a builder is the command to its draft. -/
lemma shows_commandPage {r : Command UInt8} (hs : Shows w.pages.next w.viewPage s)
    (hf : w.Frame (fun j => ¬ i = j) Q w') (hfit : w.ledger.PagesFit)
    (hi : w.pageBuilder i = some h) (hstep : w.step (onPageBuilder i r) = some w') :
    ∃ s', run BlobStore.step s [.act i (.command r)] = some s' ∧
      Shows w'.pages.next w'.viewPage s' := by
  have hview := viewPage_of_builder hi
  obtain ⟨c, b, hx, hobs⟩ := hs.draft hview
  rw [hobs] at hview
  obtain ⟨w₁, hrespond, hshow⟩ := refines_respondPage (viewPage_builder.1 hview) r
  obtain rfl : w₁ = w' := Option.some.inj ((step_of_respondPage hrespond).symm.trans hstep)
  rw [hf.nextPage]
  exact hs.act hx rfl (viewPage_builder.2 hshow) fun j hj => viewPage_of_frame hf hfit hj

/-- A new builder. -/
lemma shows_allocatePage {id tenant : ℕ} {p : Pool} {reply : Option ℕ} (hsound : w.Sound)
    (hs : Shows w.pages.next w.viewPage s)
    (hfinal : (w.allocatePage id tenant p reply).final = some w') :
    ∃ s', run BlobStore.step s
        (World.created p.pageSize (w.allocatePage id tenant p reply) World.pageCells) = some s' ∧
      Shows w'.pages.next w'.viewPage s' := by
  have hboth := Outcome.Post.and (o := w.allocatePage id tenant p reply)
    (spares_allocatePage hsound.owned) ledger_allocatePage
  cases hcall : w.allocatePage id tenant p reply with
  | refused =>
      rw [hcall] at hfinal
      exact absurd hfinal (by simp [Outcome.final])
  | panicked w₁ =>
      rw [hcall] at hfinal hboth
      obtain rfl := Option.some.inj hfinal
      have hf : w.Frame (fun _ => True) (fun _ => True) w₁ := hboth.1.frame hboth.2
      rw [hf.nextPage]
      exact ⟨s, rfl, hs.congr fun j => viewPage_of_frame hf hsound.fit trivial⟩
  | done k w₁ =>
      rw [hcall] at hfinal hboth
      obtain rfl := Option.some.inj hfinal
      obtain ⟨hspares, rfl, a, hledger⟩ := hboth
      have hpages : w₁.pages = w.pages.push ⟨a, p.pageSize, 0, id, tenant, .builder⟩ :=
        congrArg Ledger.pages hledger
      have hget : w₁.pages.get w.pages.next = some ⟨a, p.pageSize, 0, id, tenant, .builder⟩ := by
        rw [hpages]
        exact Arena.get_push_self
      have hcells : w₁.pageCells w.pages.next = read w₁.mem a p.pageSize := by
        unfold World.pageCells
        rw [hget]
        rfl
      rw [show w₁.pages.next = w.pages.next + 1 from congrArg Arena.next hpages]
      refine hs.create ?_ ?_ fun j hj => ?_
      · rw [hcells, length_read]
      · rw [viewPage_of_get hget, hcells]
        rfl
      · unfold World.viewPage
        rw [hpages, Arena.get_push, if_neg hj]
        cases hj' : w.pages.get j with
        | none => rfl
        | some g =>
            rw [Option.map_some, Option.map_some,
              pageView_congr (hsound.fit j g hj') (hspares.page j g hj')]

lemma dropPage_last (hlast : h.refs = .builder ∨ h.refs = .sealed 1) :
    w.dropPage i h = ({ w with pages := w.pages.erase i } : World).releasePage h := by
  unfold World.dropPage
  rcases hlast with hrefs | hrefs
  · rw [hrefs]
  · rw [hrefs]
    rfl

lemma dropPage_shared {n : ℕ} (hrefs : h.refs = .sealed n) (hn : n ≠ 1) : w.dropPage i h =
    { w with pages := w.pages.set i { h with refs := .sealed (n - 1) } } := by
  unfold World.dropPage
  split
  · rename_i heq
    exact absurd (hrefs.symm.trans heq) (by simp)
  · rename_i heq
    exact absurd (Refs.sealed.inj (hrefs.symm.trans heq)) hn
  · rename_i heq
    rw [Refs.sealed.inj (hrefs.symm.trans heq)]

/-- The last handle of a page is gone after its drop. -/
lemma viewPage_dropPage (hlast : h.refs = .builder ∨ h.refs = .sealed 1) :
    (w.dropPage i h).viewPage i = none := by
  have hpages : (({ w with pages := w.pages.erase i } : World).releasePage h).pages =
      w.pages.erase i := congrArg Ledger.pages ledger_releasePage
  unfold World.viewPage
  rw [dropPage_last hlast, hpages, Arena.get_erase_self]
  rfl

/-- The drop of a handle is the drop of its object. -/
lemma shows_dropPage (hs : Shows w.pages.next w.viewPage s)
    (hf : w.Frame (fun j => ¬ i = j) Q (w.dropPage i h)) (hfit : w.ledger.PagesFit)
    (hget : w.pages.get i = some h) :
    ∃ s', run BlobStore.step s [.act i .drop] = some s' ∧
      Shows (w.dropPage i h).pages.next (w.dropPage i h).viewPage s' := by
  have hview := viewPage_of_get hget
  have hrest : ∀ j, ¬ i = j → (w.dropPage i h).viewPage j = w.viewPage j :=
    fun j hj => viewPage_of_frame hf hfit hj
  rw [hf.nextPage]
  unfold World.pageView at hview
  cases hrefs : h.refs with
  | builder =>
      rw [hrefs] at hview
      obtain ⟨c, b, hx, -⟩ := hs.draft hview
      exact hs.act hx (o := none) rfl (viewPage_dropPage (Or.inl hrefs)) hrest
  | sealed n =>
      rw [hrefs] at hview
      obtain ⟨hx, hlen⟩ := hs.blob hview
      by_cases hlast : n = 1
      · subst hlast
        exact hs.act hx (o := none) rfl (viewPage_dropPage (Or.inr hrefs)) hrest
      · refine hs.act hx (o := some (.blob h.capacity (w.pageSlice h) (n - 1))) ?_ ?_ hrest
        · simp [Item.act, hlast]
        · rw [dropPage_shared hrefs hlast]
          rw [viewPage_of_get (Arena.get_set_self hget), Option.map_some, View.ofItem, ← hlen]
          rfl

/-- **One primitive operation**, in the store of pages. -/
lemma shows_page_step (hsound : w.Sound) (hop : op.Primitive)
    (hs : Shows w.pages.next w.viewPage s) (hstep : w.step op = some w') :
    ∃ s', run BlobStore.step s (w.pageEvents op) = some s' ∧
      Shows w'.pages.next w'.viewPage s' := by
  have hframe (hold : ¬ op.Allocates) := frame_step hsound.owned hsound.ranges hop hold hstep
  -- An operation that is not about pages shows nothing new.
  have hquiet (hold : ¬ op.Allocates) (hon : ∀ i, ¬ op.OnPage i) :
      ∃ s', run BlobStore.step s [] = some s' ∧ Shows w'.pages.next w'.viewPage s' := by
    refine ⟨s, rfl, ?_⟩
    rw [(hframe hold).nextPage]
    exact hs.congr fun j => viewPage_of_frame (hframe hold) hsound.fit (hon j)
  cases op with
  | allocatePage id t reply =>
      obtain ⟨p, hp, hfinal⟩ := Option.bind_eq_some_iff.1 hstep
      rw [World.pageEvents, hp]
      exact shows_allocatePage hsound hs hfinal
  | allocateChunk id t size align reply =>
      obtain ⟨p, hp, hfinal⟩ := Option.bind_eq_some_iff.1 hstep
      obtain ⟨hget, l, c, howner⟩ := World.chunkPool_eq_some hp
      have hpost : (w.allocateAligned id t p size align reply).Post
          (fun _ w' => w.Spares w' ∧ w'.pages = w.pages)
          fun w' => w.Spares w' ∧ w'.pages = w.pages :=
        (Outcome.Post.and (o := w.allocateAligned id t p size align reply)
          (spares_allocateAligned hsound.owned hget howner) ledger_allocateAligned).mono
          (fun i w₁ h => ⟨h.1, by
            obtain ⟨-, -, k, q, offset, hledger⟩ := h
            exact congrArg Ledger.pages hledger⟩)
          fun w₁ h => ⟨h.1, congrArg Ledger.pages h.2⟩
      obtain ⟨hspares, hpages⟩ := Outcome.Post.final
        (P := fun w' => w.Spares w' ∧ w'.pages = w.pages) hpost hfinal
      refine ⟨s, rfl, ?_⟩
      rw [hpages]
      refine hs.congr fun j => ?_
      unfold World.viewPage
      rw [hpages]
      cases hj : w.pages.get j with
      | none => rfl
      | some g =>
          rw [Option.map_some, Option.map_some,
            pageView_congr (hsound.fit j g hj) (hspares.page j g hj)]
  | appendPage i data =>
      obtain ⟨h, hi, -⟩ := Option.bind_eq_some_iff.1 hstep
      exact shows_commandPage (r := .append data) hs (hframe id) hsound.fit hi hstep
  | setLenPage i len =>
      obtain ⟨h, hi, -⟩ := Option.bind_eq_some_iff.1 hstep
      exact shows_commandPage (r := .setLen len) hs (hframe id) hsound.fit hi hstep
  | writePage i pos data =>
      obtain ⟨h, hi, -⟩ := Option.bind_eq_some_iff.1 hstep
      exact shows_commandPage (r := .write pos data) hs (hframe id) hsound.fit hi hstep
  | sealPage i =>
      have hf := hframe id
      obtain ⟨h, hi, rfl⟩ := Option.map_eq_some_iff.1 hstep
      have hview := viewPage_of_builder hi
      obtain ⟨c, b, hx, hobs⟩ := hs.draft hview
      obtain ⟨hmem, hget⟩ := sealPage_frame (World.pageBuilder_eq_some hi).1
      rw [hf.nextPage]
      refine hs.act hx (o := some (.blob c b.content 1)) rfl ?_
        fun j hj => viewPage_of_frame hf hsound.fit hj
      rw [viewPage_of_get hget, Option.map_some, View.ofItem, b.length_content,
        ← show w.pageSlice h = b.content from congrArg Observation.asSlice hobs,
        ← show h.len = b.len from congrArg Observation.len hobs,
        ← show h.capacity = c from congrArg Observation.capacity hobs]
      unfold World.pageView World.pageSlice
      rw [hmem]
  | clonePage i =>
      have hf := hframe id
      obtain ⟨h, hget, hclone⟩ := Option.bind_eq_some_iff.1 hstep
      have hview := viewPage_of_get hget
      unfold World.clonePage at hclone
      split at hclone
      · exact absurd hclone (by simp)
      · rename_i n hrefs
        obtain rfl := Option.some.inj hclone
        rw [World.pageView, hrefs] at hview
        rw [hf.nextPage]
        obtain ⟨hx, hlen⟩ := hs.blob hview
        refine hs.act hx (o := some (.blob h.capacity (w.pageSlice h) (n + 1))) rfl ?_
          fun j hj => viewPage_of_frame hf hsound.fit hj
        rw [viewPage_of_get (Arena.get_set_self hget), Option.map_some, View.ofItem, ← hlen]
        rfl
  | dropPage i =>
      have hf := hframe id
      obtain ⟨h, hget, rfl⟩ := Option.map_eq_some_iff.1 hstep
      exact shows_dropPage hs hf hsound.fit hget
  | allocFromPage id t data reply | allocWithPage id t init reply
  | allocWithLenPage id t init reply | allocFromChunk id t data reply
  | allocWithChunk id t size init reply | allocWithLenChunk id t size init reply => exact hop.elim
  | _ => exact hquiet (by rintro ⟨⟩) (by rintro i ⟨⟩)

end Pages

end PagedAlloc.Sequential
