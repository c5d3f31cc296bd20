import PagedAlloc.Construction.MemoryOrder
import PagedAlloc.Properties.Whereabouts

/-!
# Who may access a buffer

`Arranged` says which buffer is behind which handles, and that the strong count of a `PackedPage` is
the number of the references to it.  `Claim` lists who must know of which accesses: whoever may
use a range of bytes.  A free buffer is claimed by the owner or by the return queue, one that is
pushed by its pusher; the bytes of a handle by its user, and the page by its users together, with
what those that are gone have left at the strong count.

Whoever has a claim may make the accesses it is about (`access_free`, `access_used`), and the steps
of the pool pass the claims on with the buffers.
-/

namespace PagedAlloc.MemoryOrder

open PoolInterleaving (Addr Push OwnerPc PushPc Whereabouts Move moveOf)
open HappensBefore Transition Words

/-! ## The buffers and the handles -/

/-- The buffer that a handle has for itself. -/
def Handle.own (h : Handle) : Multiset Addr :=
  match h.packed with
  | none => {h.span.block}
  | some _ => 0

/-- The buffers behind the handles. -/
def State.heldBuffers (s : State) : Multiset Addr :=
  s.handles.sum Handle.own + s.packed.sum fun page => {page.buf}

/-- What a handle adds to the strong count of a `PackedPage`. -/
def Handle.refers (k : ℕ) (h : Handle) : ℕ := if h.packed = some k then 1 else 0

/-- The references to a `PackedPage`. -/
def State.references (s : State) (k : ℕ) : ℕ :=
  s.handles.sum (Handle.refers k) + s.dropping.countP (fun x => x.1 = k) +
    if s.current.map OpenPage.packed = some k then 1 else 0

structure Arranged (s : State) (w : Whereabouts) : Prop where
  /-- A buffer has room for a link. -/
  size : 8 ≤ s.pageSize
  /-- The casts of a chunk do not lose anything. -/
  small : s.pageSize < size32
  isAt : s.pool.IsAt w
  held : s.heldBuffers = w.held
  /-- The page of a chunk is there. -/
  chunk : ∀ i h k, s.handles.get i = some h → h.packed = some k →
    ∃ page, s.packed.get k = some page ∧ page.buf = h.span.block
  within : ∀ i h, s.handles.get i = some h → h.span.Within (s.whole h.span.block)
  apart : ∀ i j h h', i ≠ j → s.handles.get i = some h → s.handles.get j = some h' →
    ¬ h.span.Overlaps h'.span
  current : ∀ c, s.current = some c → (s.packed.get c.packed).isSome ∧
    ∀ i h, s.handles.get i = some h → h.packed = some c.packed → h.span.hi ≤ c.writeOffset
  strong : ∀ k page, s.packed.get k = some page → page.strong = s.references k
  live : ∀ k page, s.packed.get k = some page → 0 < page.strong
  dropping : ∀ x ∈ s.dropping, (s.packed.get x.1).isSome

variable {s t : State} {w w' : Whereabouts} {i j k : ℕ} {h h' : Handle} {page page' : PackedPage}
  {b : Addr} {a : Agent} {e : Event}

namespace Arranged

/-- How often a buffer is held, handle by handle. -/
lemma count_held (hs : Arranged s w) (b : Addr) :
    w.held.count b = s.handles.sum (fun h => h.own.count b) +
      s.packed.sum fun page => Multiset.count b {page.buf} := by
  rw [← hs.held, State.heldBuffers, Multiset.count_add]
  have h₁ := s.handles.hom_sum (f := Handle.own) (Multiset.countAddMonoidHom b)
  have h₂ := s.packed.hom_sum (f := fun page => {page.buf}) (Multiset.countAddMonoidHom b)
  exact congrArg₂ (· + ·) h₁ h₂

lemma count_held_le (hs : Arranged s w) (b : Addr) : w.held.count b ≤ 1 :=
  Multiset.nodup_iff_count_le_one.1 hs.isAt.shared.nodup_held b

lemma count_own (hp : h.packed = none) : h.own.count h.span.block = 1 := by
  simp [Handle.own, hp]

lemma packed_held (hs : Arranged s w) (hk : s.packed.get k = some page) : page.buf ∈ w.held := by
  rw [← Multiset.one_le_count_iff_mem, hs.count_held]
  have hle := Arena.le_sum (f := fun p : PackedPage =>
    Multiset.count page.buf ({p.buf} : Multiset Addr)) hk
  simp only [Multiset.count_singleton_self] at hle
  omega

/-- The buffer of a handle is held. -/
lemma block_held (hs : Arranged s w) (hi : s.handles.get i = some h) : h.span.block ∈ w.held := by
  cases hp : h.packed with
  | some k =>
      obtain ⟨page, hk, hbuf⟩ := hs.chunk i h k hi hp
      exact hbuf ▸ hs.packed_held hk
  | none =>
      rw [← Multiset.one_le_count_iff_mem, hs.count_held]
      have hle := Arena.le_sum (f := fun h' : Handle => h'.own.count h.span.block) hi
      simp only [count_own hp] at hle
      omega

/-- A page that has the buffer of a handle is the page of the handle. -/
lemma packed_eq (hs : Arranged s w) (hi : s.handles.get i = some h)
    (hk : s.packed.get k = some page) (hbuf : page.buf = h.span.block) : h.packed = some k := by
  have hcount := hs.count_held page.buf
  have hone := hs.count_held_le page.buf
  have hpage := Arena.le_sum (f := fun p : PackedPage =>
    Multiset.count page.buf ({p.buf} : Multiset Addr)) hk
  simp only [Multiset.count_singleton_self] at hpage
  cases hp : h.packed with
  | none =>
      have hle := Arena.le_sum (f := fun h' : Handle => h'.own.count page.buf) hi
      simp only [hbuf, count_own hp] at hle hpage hcount hone
      omega
  | some k' =>
      obtain ⟨page', hk', hbuf'⟩ := hs.chunk i h k' hi hp
      by_contra hne
      have htwo := Arena.add_le_sum (f := fun p : PackedPage =>
        Multiset.count page.buf ({p.buf} : Multiset Addr)) hk hk' (by rintro rfl; exact hne rfl)
      simp only [hbuf', ← hbuf, Multiset.count_singleton_self] at htwo
      omega

/-- Two handles without a `PackedPage` have different buffers. -/
lemma eq_of_block (hs : Arranged s w) (hi : s.handles.get i = some h)
    (hj : s.handles.get j = some h') (hp : h.packed = none) (hp' : h'.packed = none)
    (hblock : h.span.block = h'.span.block) : i = j := by
  by_contra hne
  have hcount := hs.count_held h.span.block
  have hone := hs.count_held_le h.span.block
  have htwo := Arena.add_le_sum (f := fun x : Handle => x.own.count h.span.block) hi hj hne
  have hj' := count_own hp'
  rw [← hblock] at hj'
  simp only [count_own hp, hj'] at htwo
  omega

end Arranged

/-! ## Who must know of which accesses -/

/-- Where the users of a handle, those that are gone included, are known. -/
def Handle.places (i : ℕ) (h : Handle) : Set (Place Agent Atomic) :=
  match h.users with
  | .builder a => {.agent a}
  | .sealed clones => {p | p = .location (.inner i) ∨ ∃ a ∈ clones, p = .agent a}

/-- Where those that refer or referred to a `PackedPage` are known. -/
def State.packedPlaces (s : State) (k : ℕ) : Set (Place Agent Atomic) :=
  {p | p = .location (.packed k) ∨ (∃ a, (k, a) ∈ s.dropping ∧ p = .agent a) ∨
    (s.current.map OpenPage.packed = some k ∧ p = .agent ownerAgent) ∨
    ∃ i h, s.handles.get i = some h ∧ h.packed = some k ∧ p ∈ h.places i}

/-- Who must know of all accesses to a buffer that no handle has. -/
inductive PoolClaim (s : State) (w : Whereabouts) : Addr → Set (Place Agent Atomic) → Prop
  | owned {b : Addr} (hb : b ∈ w.owned) : PoolClaim s w b {.agent ownerAgent}
  | queued {b : Addr} (hb : b ∈ w.queued) : PoolClaim s w b {.location .returnHead}
  | pushed {b : Addr} (hb : b ∈ w.pushed) : PoolClaim s w b {.agent (s.pusher b)}
  | unused {b : Addr} (hb : b ∉ w.obtained) : PoolClaim s w b ∅

/-- Who must know of which accesses to a buffer. -/
inductive Claim (s : State) (w : Whereabouts) :
    Addr → (Action Agent Atomic Addr → Prop) → Set (Place Agent Atomic) → Prop
  | pool {b : Addr} {ps : Set (Place Agent Atomic)} (hb : PoolClaim s w b ps) :
      Claim s w b (·.Touches (s.whole b)) ps
  | building {i : ℕ} {h : Handle} {a : Agent} (hi : s.handles.get i = some h)
      (hu : h.users = .builder a) : Claim s w h.span.block (·.Touches h.span) {.agent a}
  | reading {i : ℕ} {h : Handle} {clones : Multiset Agent} {a : Agent}
      (hi : s.handles.get i = some h) (hu : h.users = .sealed clones) (ha : a ∈ clones) :
      Claim s w h.span.block (·.Modifies h.span) {.agent a}
  | page {i : ℕ} {h : Handle} (hi : s.handles.get i = some h) (hp : h.packed = none) :
      Claim s w h.span.block (·.Touches (s.whole h.span.block)) (h.places i)
  | packed {k : ℕ} {page : PackedPage} (hk : s.packed.get k = some page) :
      Claim s w page.buf (·.Touches (s.whole page.buf)) (s.packedPlaces k)
  | current {c : OpenPage} {page : PackedPage} (hc : s.current = some c)
      (hk : s.packed.get c.packed = some page) :
      Claim s w page.buf (·.Touches ⟨page.buf, c.writeOffset, s.pageSize⟩) {.agent ownerAgent}

/-- Whoever must know does. -/
def Custody (s : State) (w : Whereabouts) (tr : List (Action Agent Atomic Addr)) : Prop :=
  ∀ b P ps, Claim s w b P ps → Known tr P ps

variable {tr : List (Action Agent Atomic Addr)} {act : Action Agent Atomic Addr}
  {P : Action Agent Atomic Addr → Prop} {ps : Set (Place Agent Atomic)}

/-- A claim is about accesses to its buffer. -/
lemma Claim.touches (hs : Arranged s w) (hc : Claim s w b P ps) (hP : P act) :
    act.Touches (s.whole b) := by
  cases hc with
  | pool => exact hP
  | building hi => exact hP.mono (hs.within _ _ hi)
  | reading hi => exact hP.touches.mono (hs.within _ _ hi)
  | page => exact hP
  | packed => exact hP
  | current => exact hP.mono ⟨rfl, Nat.zero_le _, le_rfl⟩

lemma PoolClaim.not_held (hs : Arranged s w) (hb : PoolClaim s w b ps) : b ∉ w.held := by
  have hshared := hs.isAt.shared
  cases hb with
  | owned hb => exact (hshared.of_owned hb).2.1
  | queued hb => exact fun h => (hshared.of_held h).2.1 hb
  | pushed hb => exact (hshared.of_pushed hb).2.2.1
  | unused hb => exact fun h => hb (hshared.of_held h).2.2.2

lemma PoolClaim.congr (hb : PoolClaim t w b ps) (h : t.pusher = s.pusher) :
    PoolClaim s w b ps := by
  cases hb with
  | owned hb => exact .owned hb
  | queued hb => exact .queued hb
  | pushed hb => exact h ▸ .pushed hb
  | unused hb => exact .unused hb

/-- Only one party has a claim on a buffer that no handle has. -/
lemma PoolClaim.unique (hs : Arranged s w) (hb : PoolClaim s w b ps)
    {ps' : Set (Place Agent Atomic)} (hc : Claim s w b P ps') : ps' = ps := by
  have hshared := hs.isAt.shared
  have hheld := hb.not_held hs
  cases hc with
  | building hi => exact absurd (hs.block_held hi) hheld
  | reading hi => exact absurd (hs.block_held hi) hheld
  | page hi => exact absurd (hs.block_held hi) hheld
  | packed hk => exact absurd (hs.packed_held hk) hheld
  | current _ hk => exact absurd (hs.packed_held hk) hheld
  | pool hb' =>
      have hdisj := hshared.disjoint
      have hmem : ∀ {x}, x ∈ w.owned ∨ x ∈ w.queued ∨ x ∈ w.pushed → x ∈ w.obtained := by
        intro x hx
        rw [← hshared.partition]
        simp only [Multiset.mem_add]
        tauto
      have hqueued : b ∈ w.queued → b ∉ w.pushed := fun h h' => (hshared.of_pushed h').2.1 h
      cases hb with
      | owned hb =>
          obtain ⟨hq, -, hp, ho⟩ := hshared.of_owned hb
          cases hb' with
          | owned => rfl
          | queued h => exact absurd h hq
          | pushed h => exact absurd h hp
          | unused h => exact absurd ho h
      | queued hb =>
          cases hb' with
          | owned h => exact absurd hb (hshared.of_owned h).1
          | queued => rfl
          | pushed h => exact absurd h (hqueued hb)
          | unused h => exact absurd (hmem (.inr (.inl hb))) h
      | pushed hb =>
          obtain ⟨ho, hq, -, ho'⟩ := hshared.of_pushed hb
          cases hb' with
          | owned h => exact absurd h ho
          | queued h => exact absurd h hq
          | pushed => rfl
          | unused h => exact absurd ho' h
      | unused hb =>
          cases hb' with
          | owned h => exact absurd (hmem (.inl h)) hb
          | queued h => exact absurd (hmem (.inr (.inl h))) hb
          | pushed h => exact absurd (hmem (.inr (.inr h))) hb
          | unused => rfl

/-! ## Actions that keep every claim -/

lemma Custody.orders (hs : Arranged s w) (hc : Custody s w tr)
    (act : Action Agent Atomic Addr) (hact : act.Orders) :
    Custody s w (tr ++ [act]) := fun b _ _ hclaim =>
  (hc _ _ _ hclaim).concat fun hP => absurd (hclaim.touches hs hP) (hact.not_touches (s.whole b))

/-- An access keeps every claim if the agent is among those who must know of it. -/
lemma Custody.access (hc : Custody s w tr)
    (hact : ∀ b P ps, Claim s w b P ps → P act → .agent act.actor ∈ ps) :
    Custody s w (tr ++ [act]) := fun b P ps hclaim =>
  (hc b P ps hclaim).concat fun hP => ⟨_, hact b P ps hclaim hP, act.feeds_actor⟩

/-- Who alone has a buffer may access it. -/
lemma access_free (act : Action Agent Atomic Addr) (hs : Arranged s w)
    (hc : Custody s w tr) (hr : RaceFree tr) {x : Span Addr}
    (hb : PoolClaim s w b {.agent act.actor}) (hx : x.Within (s.whole b))
    (hact : act.Accesses x) : Custody s w (tr ++ [act]) ∧ RaceFree (tr ++ [act]) := by
  constructor
  · refine hc.access fun b' P ps hclaim hP => ?_
    have hoverlap := hact.overlaps (hclaim.touches hs hP)
    obtain rfl : b = b' := hx.1.symm.trans hoverlap.1
    rw [hb.unique hs hclaim]
    rfl
  · refine hr.concat ((hc _ _ _ (.pool hb)).mono (fun e he => ?_) subset_rfl)
    exact (hact.touches_of_conflicts he).mono hx

/-! ## Accesses through a handle -/

/-- `a` uses the handle. -/
def Handle.UsedBy (h : Handle) (a : Agent) : Prop :=
  match h.users with
  | .builder a' => a = a'
  | .sealed clones => a ∈ clones

lemma used_eq_some : s.used i a = some h ↔ s.handles.get i = some h ∧ h.UsedBy a := by
  rw [State.used, Option.filter_eq_some_iff]
  refine and_congr_right fun _ => ?_
  rw [Handle.UsedBy]
  cases h.users <;> simp

lemma Handle.UsedBy.mem_places (hu : h.UsedBy a) (i : ℕ) :
    (.agent a : Place Agent Atomic) ∈ h.places i := by
  rw [Handle.UsedBy] at hu
  rw [Handle.places]
  cases hh : h.users with
  | builder a' =>
      rw [hh] at hu
      exact congrArg Place.agent hu
  | sealed clones =>
      rw [hh] at hu
      exact .inr ⟨a, hu, rfl⟩

/-- Whoever must know of an access through a handle includes its user. -/
lemma Claim.user_mem (hs : Arranged s w) (hi : s.handles.get i = some h) (hu : h.UsedBy act.actor)
    {x : Span Addr} (hx : x.Within h.span) (hact : act.Accesses x)
    (hwrite : ∀ a y, act = .write a y → h.users = .builder a)
    (hclaim : Claim s w b P ps) (hP : P act) : .agent act.actor ∈ ps := by
  have hoverlap := hact.overlaps (hclaim.touches hs hP)
  have hblock : h.span.block = b := hx.1.symm.trans hoverlap.1
  have hover : ∀ {j h'}, s.handles.get j = some h' → act.Touches h'.span → i = j := by
    intro j h' hj htouch
    by_contra hne
    exact hs.apart i j h h' hne hi hj ((hact.overlaps htouch).symm.mono hx).symm
  cases hclaim with
  | pool hb => exact absurd (hblock ▸ hs.block_held hi) (hb.not_held hs)
  | building hj hu' =>
      obtain rfl := hover hj hP
      obtain rfl := Option.some.inj (hi.symm.trans hj)
      rw [Handle.UsedBy, hu'] at hu
      exact congrArg Place.agent hu
  | reading hj hu' =>
      obtain rfl := hover hj hP.touches
      obtain rfl := Option.some.inj (hi.symm.trans hj)
      obtain ⟨a', y, heq⟩ := hP.exists_write
      rw [hwrite a' y heq] at hu'
      exact absurd hu' (by simp)
  | page hj hp =>
      cases hp' : h.packed with
      | none =>
          obtain rfl := hs.eq_of_block hi hj hp' hp hblock
          obtain rfl := Option.some.inj (hi.symm.trans hj)
          exact hu.mem_places i
      | some k =>
          obtain ⟨page, hk, hbuf⟩ := hs.chunk i h k hi hp'
          rw [hs.packed_eq hj hk (hbuf.trans hblock)] at hp
          exact absurd hp (by simp)
  | packed hk =>
      exact .inr (.inr (.inr ⟨i, h, hi, hs.packed_eq hi hk hblock.symm, hu.mem_places i⟩))
  | current hc hk =>
      have hle := (hs.current _ hc).2 i h hi (hs.packed_eq hi hk hblock.symm)
      obtain ⟨-, -, hlt, -⟩ := hact.overlaps hP
      exact absurd (hlt.trans_le (hx.2.2.trans hle)) (lt_irrefl _)

/-- The user of a builder may access its bytes, and the user of a clone may read them. -/
lemma access_used (act : Action Agent Atomic Addr) (hs : Arranged s w)
    (hc : Custody s w tr) (hr : RaceFree tr)
    (hi : s.handles.get i = some h) (hu : h.UsedBy act.actor) {x : Span Addr}
    (hx : x.Within h.span) (hact : act.Accesses x)
    (hwrite : ∀ a y, act = .write a y → h.users = .builder a) :
    Custody s w (tr ++ [act]) ∧ RaceFree (tr ++ [act]) := by
  refine ⟨hc.access fun b P ps hclaim hP => hclaim.user_mem hs hi hu hx hact hwrite hP,
    hr.concat ?_⟩
  cases hh : h.users with
  | builder a =>
      rw [Handle.UsedBy, hh] at hu
      rw [hu]
      exact (hc _ _ _ (.building hi hh)).mono
        (fun e he => (hact.touches_of_conflicts he).mono hx) subset_rfl
  | sealed clones =>
      rw [Handle.UsedBy, hh] at hu
      refine (hc _ _ _ (.reading hi hh hu)).mono (fun e he => ?_) subset_rfl
      cases act with
      | read a y =>
          obtain rfl : y = x := hact
          exact Action.Modifies.mono he hx
      | write a y =>
          rw [hwrite a y rfl] at hh
          exact absurd hh (by simp)
      | rmw => exact hact.elim
      | spawn => exact hact.elim

/-! ## Steps of the pool -/

structure Sound (s : State) (w : Whereabouts) (tr : List (Action Agent Atomic Addr)) : Prop where
  arranged : Arranged s w
  custody : Custody s w tr
  raceFree : RaceFree tr

lemma Arranged.link_within (hs : Arranged s w) : (State.link b).Within (s.whole b) :=
  ⟨rfl, le_rfl, hs.size⟩

section Pool

variable {pool : PoolInterleaving.State} {heads : Finset Addr} {p : Push} {reply : Addr}

/-- The buffers move among those that are behind no handle. -/
lemma Sound.withPool (h : Sound s w tr) (heads : Finset Addr) (hisAt : pool.IsAt w')
    (hheld : w'.held = w.held)
    (hpool : ∀ b ps, PoolClaim s w' b ps → Known tr (·.Touches (s.whole b)) ps) :
    Sound { s with pool := pool, heads := heads } w' tr := by
  refine ⟨{ h.arranged with isAt := hisAt, held := h.arranged.held.trans hheld.symm }, ?_,
    h.raceFree⟩
  intro b P ps hclaim
  cases hclaim with
  | pool hb => exact hpool b ps (hb.congr rfl)
  | building hi hu => exact h.custody _ _ _ (.building hi hu)
  | reading hi hu ha => exact h.custody _ _ _ (.reading hi hu ha)
  | page hi hp => exact h.custody _ _ _ (.page hi hp)
  | packed hk => exact h.custody _ _ _ (.packed hk)
  | current hc hk => exact h.custody _ _ _ (.current hc hk)

lemma Sound.stay (h : Sound s w tr) (hisAt : pool.IsAt w) :
    Sound { s with pool := pool, heads := heads } w tr :=
  h.withPool heads hisAt rfl fun b ps hb => h.custody b _ ps (.pool hb)

/-- The source returns a buffer, to which nobody has access yet; it comes zeroed. -/
lemma Sound.obtain (h : Sound s w tr) (hw : w.step (.obtain b) = some w') (hisAt : pool.IsAt w') :
    Sound { s with pool := pool, heads := heads } w' (tr ++ [.write ownerAgent (s.whole b)]) := by
  rw [Whereabouts.step] at hw
  split at hw
  · exact absurd hw (by simp)
  rename_i hnew
  obtain rfl := Option.some.inj hw
  have ht := h.withPool heads hisAt rfl fun b' ps hb => by
    cases hb with
    | owned hb =>
        rcases Multiset.mem_cons.1 hb with rfl | hb
        · exact (h.custody _ _ _ (.pool (.unused hnew))).mono (fun _ h => h) (Set.empty_subset _)
        · exact h.custody _ _ _ (.pool (.owned hb))
    | queued hb => exact h.custody _ _ _ (.pool (.queued hb))
    | pushed hb => exact h.custody _ _ _ (.pool (.pushed hb))
    | unused hb =>
        exact h.custody _ _ _ (.pool (.unused fun hmem => hb (Multiset.mem_cons_of_mem hmem)))
  obtain ⟨hcustody, hrace⟩ := access_free (.write ownerAgent (s.whole b)) ht.arranged
    ht.custody ht.raceFree (.owned (Multiset.mem_cons_self ..)) ⟨rfl, le_rfl, le_rfl⟩ rfl
  exact ⟨ht.arranged, hcustody, hrace⟩

/-- The swap acquires what the exchanges have released. -/
lemma Sound.drain (h : Sound s w tr) (hw : w.step .drain = some w') (hisAt : pool.IsAt w') :
    Sound { s with pool := pool, heads := heads } w'
      (tr ++ [.rmw ownerAgent .returnHead false true]) := by
  obtain rfl := Option.some.inj hw
  have hcustody := h.custody.orders h.arranged (.rmw ownerAgent .returnHead false true) trivial
  have hs : Sound s w (tr ++ [.rmw ownerAgent .returnHead false true]) :=
    ⟨h.arranged, hcustody, h.raceFree.concat_orders trivial⟩
  refine hs.withPool heads hisAt rfl fun b ps hb => ?_
  cases hb with
  | owned hb =>
      rcases Multiset.mem_add.1 hb with hb | hb
      · exact hcustody _ _ _ (.pool (.owned hb))
      · exact (h.custody _ _ _ (.pool (.queued hb))).acquire (fun _ h => .inl h) rfl
  | queued hb => exact absurd hb (Multiset.notMem_zero _)
  | pushed hb => exact hcustody _ _ _ (.pool (.pushed hb))
  | unused hb => exact hcustody _ _ _ (.pool (.unused hb))

/-- The exchange releases what the pusher knows. -/
lemma Sound.queue (h : Sound s w tr) (hw : w.step (.queue b) = some w') (hisAt : pool.IsAt w') :
    Sound { s with pool := pool, heads := heads } w'
      (tr ++ [.rmw (s.pusher b) .returnHead true false]) := by
  rw [Whereabouts.step] at hw
  split at hw
  swap
  · exact absurd hw (by simp)
  rename_i hpushed
  obtain rfl := Option.some.inj hw
  have hcustody := h.custody.orders h.arranged (.rmw (s.pusher b) .returnHead true false) trivial
  have hs : Sound s w (tr ++ [.rmw (s.pusher b) .returnHead true false]) :=
    ⟨h.arranged, hcustody, h.raceFree.concat_orders trivial⟩
  refine hs.withPool heads hisAt rfl fun b' ps hb => ?_
  cases hb with
  | owned hb => exact hcustody _ _ _ (.pool (.owned hb))
  | queued hb =>
      rcases Multiset.mem_cons.1 hb with rfl | hb
      · exact (h.custody _ _ _ (.pool (.pushed hpushed))).release (fun _ h => .inl h) rfl
      · exact hcustody _ _ _ (.pool (.queued hb))
  | pushed hb => exact hcustody _ _ _ (.pool (.pushed (Multiset.mem_of_mem_erase hb)))
  | unused hb => exact hcustody _ _ _ (.pool (.unused hb))

/-- The owner uses the link of a buffer that it has. -/
lemma Sound.accessLink (h : Sound s w tr) (act : Action Agent Atomic Addr) (hb : b ∈ w.owned)
    (hact : act.Accesses (State.link b)) (hactor : act.actor = ownerAgent) :
    Sound s w (tr ++ [act]) := by
  obtain ⟨hcustody, hrace⟩ := access_free act h.arranged h.custody h.raceFree
    (by rw [hactor]; exact .owned hb) h.arranged.link_within hact
  exact ⟨h.arranged, hcustody, hrace⟩

lemma owned_localHead (h : s.pool.IsAt w) (hne : s.pool.localHead ≠ 0) :
    s.pool.localHead ∈ w.owned := by
  obtain ⟨l, r, d, hc, rfl⟩ := h
  obtain ⟨tail, rfl, -⟩ := (Intrusive.chain_of_ne hne).1 hc.local_chain
  simp [PoolInterleaving.State.whereabouts]

lemma owned_inHand (h : s.pool.IsAt w) (hb : b ∈ s.pool.owner.inHand) : b ∈ w.owned := by
  obtain ⟨l, r, d, -, rfl⟩ := h
  exact Multiset.mem_add.2 (.inr hb)

/-- A step of the owner inside a pool operation. -/
lemma Sound.owner (h : Sound s w tr) (hne : ∀ buf, s.pool.owner ≠ .addPagesInUse buf)
    (hpool : PoolInterleaving.step s.pool (.owner reply) = some pool) :
    ∃ w', Sound { s with pool := pool, heads := heads } w'
      (tr ++ ownerActions .source reply s) := by
  obtain ⟨w', hw, hisAt⟩ := PoolInterleaving.isAt_step h.arranged.isAt hpool
  rw [moveOf] at hw
  rw [ownerActions]
  cases ho : s.pool.owner with
  | popLocal drained =>
      rw [ho] at hw
      obtain rfl := Option.some.inj hw
      dsimp only
      split
      · exact ⟨w, by simpa using h.stay hisAt⟩
      · rename_i hhead
        have hlink := h.accessLink (.read ownerAgent (State.link s.pool.localHead))
          (owned_localHead h.arranged.isAt hhead) rfl rfl
        exact ⟨w, hlink.stay hisAt⟩
  | swap =>
      rw [ho] at hw
      exact ⟨w', h.drain hw hisAt⟩
  | sourceAllocate =>
      rw [ho] at hw
      exact ⟨w', h.obtain hw hisAt⟩
  | prewarm left total =>
      rw [ho] at hw
      cases left with
      | zero =>
          obtain rfl := Option.some.inj hw
          exact ⟨w, by simpa using h.stay hisAt⟩
      | succ left => exact ⟨w', h.obtain hw hisAt⟩
  | link buf left total =>
      rw [ho] at hw
      obtain rfl := Option.some.inj hw
      have hhand : buf ∈ s.pool.owner.inHand := by simp [ho, OwnerPc.inHand]
      have hlink := h.accessLink (.write ownerAgent (State.link buf))
        (owned_inHand h.arranged.isAt hhand) rfl rfl
      exact ⟨w, hlink.stay hisAt⟩
  | addPagesInUse buf => exact absurd ho (hne buf)
  | _ =>
      rw [ho] at hw
      obtain rfl := Option.some.inj hw
      exact ⟨w, by simpa using h.stay hisAt⟩

/-- A call of the owner, or a failure of the source. -/
lemma Sound.call {e : PoolInterleaving.Event} (h : Sound s w tr) (hmove : moveOf s.pool e = .stay)
    (hpool : PoolInterleaving.step s.pool e = some pool) :
    Sound { s with pool := pool, heads := heads } w tr := by
  obtain ⟨w', hw, hisAt⟩ := PoolInterleaving.isAt_step h.arranged.isAt hpool
  rw [hmove] at hw
  obtain rfl := Option.some.inj hw
  exact h.stay hisAt

/-- A step of a `push_return` call. -/
lemma Sound.push {spurious : Bool} (h : Sound s w tr)
    (hpool : PoolInterleaving.step s.pool (.push p spurious) = some pool) :
    ∃ w', Sound { s with pool := pool, heads := heads } w'
      (tr ++ pushActions .source p spurious s) := by
  obtain ⟨w', hw, hisAt⟩ := PoolInterleaving.isAt_step h.arranged.isAt hpool
  obtain ⟨buf, pc⟩ := p
  rw [pushActions]
  cases pc with
  | write head =>
      obtain rfl := Option.some.inj hw
      have hmem : buf ∈ w.pushed := by
        obtain ⟨l, r, d, -, rfl⟩ := h.arranged.isAt
        simp only [PoolInterleaving.step, Option.ite_none_right_eq_some] at hpool
        exact PoolInterleaving.mem_beingPushed hpool.1 (by simp [Push.inHand])
      obtain ⟨hcustody, hrace⟩ := access_free (.write (s.pusher buf) (State.link buf))
        h.arranged h.custody h.raceFree (.pushed hmem) h.arranged.link_within rfl
      exact ⟨w, Sound.stay ⟨h.arranged, hcustody, hrace⟩ hisAt⟩
  | cas head =>
      rw [moveOf] at hw
      dsimp only
      split at hw
      · rename_i hcas
        rw [if_pos hcas]
        exact ⟨w', h.queue hw hisAt⟩
      · rename_i hcas
        rw [if_neg hcas]
        obtain rfl := Option.some.inj hw
        exact ⟨w, by simpa using h.stay hisAt⟩
  | _ =>
      obtain rfl := Option.some.inj hw
      exact ⟨w, by simpa using h.stay hisAt⟩

/-- A load may answer anything: nothing depends on it until the exchange. -/
lemma isAt_load (h : s.pool.IsAt w) (hp : p ∈ s.pool.pushers) (hpc : p.pc = .load)
    (observed : Addr) :
    PoolInterleaving.State.IsAt { s.pool with
      pushers := ⟨p.buf, .write observed⟩ ::ₘ s.pool.pushers.erase p } w := by
  obtain ⟨l, r, d, hc, rfl⟩ := h
  have hpushed : PoolInterleaving.State.beingPushed { s.pool with
      pushers := ⟨p.buf, .write observed⟩ ::ₘ s.pool.pushers.erase p } = s.pool.beingPushed :=
    PoolInterleaving.beingPushed_move hp (by simp [Push.inHand, hpc])
  refine ⟨l, r, d, { hc with partition := ?_, linked := hc.linked_replace (by simp) }, ?_⟩
  · rw [hpushed]
    exact hc.partition
  · simp only [PoolInterleaving.State.whereabouts, hpushed]

end Pool

end PagedAlloc.MemoryOrder
