import PagedAlloc.Construction.Custody

/-!
# Reference counts

The strong count of every `Arc` is the number of references to it: for a shared pool, from its
owner, its page handles, its packed pages and the handles outside the crate; for a packed page,
from chunk handles and open pages; and in both cases those that the running operation holds.
`References` says so for the parts of a configuration that references depend on, and every move
of the machine keeps it (`References.move`).
-/

namespace PagedAlloc.Sequential

open Words Bytes Intrusive Relation

/-- The references to the shared half of the pool `id`, apart from those in hand. -/
def sharedRefs (pools : Arena Pool) (packed : Arena PackedInner) (pages : Arena PageHandle)
    (handles : ℕ → ℕ) (id : ℕ) : ℕ :=
  pools.val (fun p => p.owner.refs) id + pages.sum (fun h => if id = h.pool then 1 else 0) +
    packed.sum (fun q => if q.page.release = .pool id then 1 else 0) + handles id

/-- The references to the packed page `k`, apart from those in hand. -/
def packedRefs (pools : Arena Pool) (chunks : Arena ChunkHandle) (k : ℕ) : ℕ :=
  chunks.sum (fun h => (heldIds h.packed).count k) +
    pools.sum fun p => (heldIds (p.owner.current.map OpenPage.shared)).count k

/-- The page behind a reference. -/
def pageOf (packed : Arena PackedInner) (k : ℕ) : Option PackedPage :=
  (packed.get k).map PackedInner.page

/-- Reference counts are exact, and references carry the page they refer to. -/
structure References (pools : Arena Pool) (packed : Arena PackedInner) (pages : Arena PageHandle)
    (chunks : Arena ChunkHandle) (handles : ℕ → ℕ) (S P : Multiset ℕ) : Prop where
  sharedCount : ∀ id, pools.val Pool.strong id = sharedRefs pools packed pages handles id + S.count id
  packedCount : ∀ k, packed.val PackedInner.strong k = packedRefs pools chunks k + P.count k
  shared_pos : ∀ id p, pools.get id = some p → 0 < p.strong
  packed_pos : ∀ k q, packed.get k = some q → 0 < q.strong
  chunk : ∀ i h arc, chunks.get i = some h → h.packed = some arc →
    pageOf packed arc.id = some arc.page
  current : ∀ id p o, pools.get id = some p → p.owner.current = some o →
    pageOf packed o.shared.id = some o.shared.page ∧ o.shared.page.release = .pool id

variable {pools : Arena Pool} {packed : Arena PackedInner} {pages : Arena PageHandle}
  {chunks : Arena ChunkHandle} {handles : ℕ → ℕ} {S S' P P' : Multiset ℕ} {id k i : ℕ} {p p' : Pool}
  {a : ℕ} {page : PackedPage}

lemma count_heldIds_some {q : PackedArc} : (heldIds (some q)).count k = if k = q.id then 1 else 0 :=
  Multiset.count_singleton k q.id

lemma references_init : References .empty .empty .empty .empty (fun _ => 0) 0 0 where
  sharedCount id := rfl
  packedCount k := rfl
  shared_pos id p h := by simp at h
  packed_pos k q h := by simp at h
  chunk i h arc hget := by simp at hget
  current id p o hget := by simp at hget

/-- A pool changes; the references it gives up or takes over are in hand. -/
lemma References.setPool (hr : References pools packed pages chunks handles S P)
    (hget : pools.get id = some p) (hpos : 0 < p'.strong)
    (hshared : ∀ j, S'.count j + (if j = id then p.strong + p'.owner.refs else 0) =
      S.count j + if j = id then p'.strong + p.owner.refs else 0)
    (hpacked : ∀ k, P'.count k + (heldIds (p'.owner.current.map OpenPage.shared)).count k =
      P.count k + (heldIds (p.owner.current.map OpenPage.shared)).count k)
    (hcurrent : ∀ o, p'.owner.current = some o →
      pageOf packed o.shared.id = some o.shared.page ∧ o.shared.page.release = .pool id) :
    References (pools.set id p') packed pages chunks handles S' P' where
  sharedCount j := by
    have hstrong := Arena.val_set (f := Pool.strong) (b := p') (j := j) hget
    have hrefs := Arena.val_set (f := fun p => p.owner.refs) (b := p') (j := j) hget
    have hold := hr.sharedCount j
    have hmove := hshared j
    unfold sharedRefs at hold ⊢
    by_cases hj : j = id
    · simp only [hj, if_true] at *
      omega
    · simp only [hj, if_false] at *
      omega
  packedCount k := by
    have hsum := Arena.sum_set (b := p')
      (f := fun p => (heldIds (p.owner.current.map OpenPage.shared)).count k) hget
    have hold := hr.packedCount k
    have hmove := hpacked k
    unfold packedRefs at hold ⊢
    omega
  shared_pos j q hq := by
    rw [Arena.get_set hget] at hq
    split at hq
    · obtain rfl := Option.some.inj hq
      exact hpos
    · exact hr.shared_pos j q hq
  packed_pos := hr.packed_pos
  chunk := hr.chunk
  current j q o hq ho := by
    rw [Arena.get_set hget] at hq
    split at hq
    · obtain rfl := Option.some.inj hq
      rename_i hj
      rw [hj]
      exact hcurrent o ho
    · exact hr.current j q o hq ho

/-- A new pool is referred to by its owner alone. -/
lemma References.pushPool (hr : References pools packed pages chunks handles S P)
    (hstrong : p.strong = 1) (hrefs : p.owner.refs = 1) (hcurrent : p.owner.current = none) :
    References (pools.push p) packed pages chunks handles S P where
  sharedCount j := by
    have hold := hr.sharedCount j
    unfold sharedRefs at hold ⊢
    rw [Arena.val_push, Arena.val_push, hstrong, hrefs]
    omega
  packedCount k := by
    have hold := hr.packedCount k
    unfold packedRefs at hold ⊢
    rw [Arena.sum_push, hcurrent]
    exact hold
  shared_pos j q hq := by
    rw [Arena.get_push] at hq
    split at hq
    · obtain rfl := Option.some.inj hq
      omega
    · exact hr.shared_pos j q hq
  packed_pos := hr.packed_pos
  chunk := hr.chunk
  current j q o hq ho := by
    rw [Arena.get_push] at hq
    split at hq
    · obtain rfl := Option.some.inj hq
      exact absurd (hcurrent.symm.trans ho) (by simp)
    · exact hr.current j q o hq ho

/-- Whoever refers to a packed page of the pool keeps the pool alive. -/
lemma References.one_le_sum_release (hp : pageOf packed k = some ⟨a, .pool id⟩) :
    1 ≤ packed.sum fun q => if q.page.release = .pool id then 1 else 0 := by
  obtain ⟨q, hq, hpage⟩ := Option.map_eq_some_iff.1 hp
  have hle := Arena.le_sum (f := fun q : PackedInner =>
    if q.page.release = .pool id then 1 else 0) hq
  simp only [hpage, if_true] at hle
  exact hle

/-- The last reference to a pool is dropped: nothing refers to it any more. -/
lemma References.eq_zero_of_last (hr : References pools packed pages chunks handles (id ::ₘ S) P)
    (hget : pools.get id = some p) (hlast : p.strong = 1) :
    p.owner.refs = 0 ∧ p.owner.current = none ∧ S.count id = 0 ∧ handles id = 0 ∧
      pages.sum (fun h => if id = h.pool then 1 else 0) = 0 ∧
      packed.sum (fun q => if q.page.release = .pool id then 1 else 0) = 0 := by
  have hcount := hr.sharedCount id
  unfold sharedRefs at hcount
  rw [Arena.val_of_get hget, Arena.val_of_get hget, hlast, Multiset.count_cons_self] at hcount
  refine ⟨by omega, ?_, by omega, by omega, by omega, by omega⟩
  cases hcurrent : p.owner.current with
  | none => rfl
  | some o =>
      obtain ⟨hpage, hrelease⟩ := hr.current id p o hget hcurrent
      have hpos : 1 ≤ packed.sum fun q => if q.page.release = .pool id then 1 else 0 := by
        apply References.one_le_sum_release (k := o.shared.id) (a := o.shared.page.buf)
        rw [hpage, ← hrelease]
      omega

lemma References.erasePool (hr : References pools packed pages chunks handles (id ::ₘ S) P)
    (hget : pools.get id = some p) (hlast : p.strong = 1) :
    References (pools.erase id) packed pages chunks handles S P where
  sharedCount j := by
    obtain ⟨hrefs, -, hS, hhandles, hpages, hpacked⟩ := hr.eq_zero_of_last hget hlast
    have hstrong := Arena.val_erase (f := Pool.strong) (j := j) hget
    have howner := Arena.val_erase (f := fun p => p.owner.refs) (j := j) hget
    have hold := hr.sharedCount j
    unfold sharedRefs at hold ⊢
    rw [Multiset.count_cons] at hold
    by_cases hj : j = id
    · subst hj
      simp only [if_true] at hstrong howner hold
      omega
    · simp only [hj, if_false] at hstrong howner hold
      omega
  packedCount k := by
    obtain ⟨-, hcurrent, -⟩ := hr.eq_zero_of_last hget hlast
    have hsum := Arena.sum_erase
      (f := fun p => (heldIds (p.owner.current.map OpenPage.shared)).count k) hget
    have hold := hr.packedCount k
    unfold packedRefs at hold ⊢
    have hzero : (heldIds (p.owner.current.map OpenPage.shared)).count k = 0 := by
      rw [hcurrent]
      rfl
    omega
  shared_pos j q hq := hr.shared_pos j q (Arena.get_of_get_erase hq).2
  packed_pos := hr.packed_pos
  chunk := hr.chunk
  current j q o hq ho := hr.current j q o (Arena.get_of_get_erase hq).2 ho

/-- A handle outside the crate is handed over or taken back. -/
lemma References.setHandles (hr : References pools packed pages chunks handles S P)
    {handles' : ℕ → ℕ} (hcount : ∀ j, handles' j + S'.count j = handles j + S.count j) :
    References pools packed pages chunks handles' S' P :=
  { hr with
    sharedCount := fun j => by
      have hold := hr.sharedCount j
      have hmove := hcount j
      unfold sharedRefs at hold ⊢
      omega }

/-- The page handles change; the references they give up or take over are in hand. -/
lemma References.setPages (hr : References pools packed pages chunks handles S P)
    {pages' : Arena PageHandle}
    (hcount : ∀ j, pages'.sum (fun h => if j = h.pool then 1 else 0) + S'.count j =
      pages.sum (fun h => if j = h.pool then 1 else 0) + S.count j) :
    References pools packed pages' chunks handles S' P :=
  { hr with
    sharedCount := fun j => by
      have hold := hr.sharedCount j
      have hmove := hcount j
      unfold sharedRefs at hold ⊢
      omega }

/-- The chunk handles change; the references they give up or take over are in hand. -/
lemma References.setChunks (hr : References pools packed pages chunks handles S P)
    {chunks' : Arena ChunkHandle}
    (hcount : ∀ k, chunks'.sum (fun h => (heldIds h.packed).count k) + P'.count k =
      chunks.sum (fun h => (heldIds h.packed).count k) + P.count k)
    (hpage : ∀ i h arc, chunks'.get i = some h → h.packed = some arc →
      pageOf packed arc.id = some arc.page) :
    References pools packed pages chunks' handles S P' :=
  { hr with
    packedCount := fun k => by
      have hold := hr.packedCount k
      have hmove := hcount k
      unfold packedRefs at hold ⊢
      omega
    chunk := hpage }

variable {q q' : PackedInner}

lemma pageOf_of_get (h : packed.get k = some q) : pageOf packed k = some q.page := by
  unfold pageOf
  rw [h]
  rfl

lemma pageOf_set (hget : packed.get k = some q) (hpage : q'.page = q.page) (j : ℕ) :
    pageOf (packed.set k q') j = pageOf packed j := by
  unfold pageOf
  rw [Arena.get_set hget]
  split
  · rename_i hj
    rw [hj, hget, Option.map_some, Option.map_some, hpage]
  · rfl

/-- A reference to a packed page is cloned, or dropped while there are others. -/
lemma References.setPacked (hr : References pools packed pages chunks handles S P)
    (hget : packed.get k = some q) (hpage : q'.page = q.page) (hpos : 0 < q'.strong)
    (hcount : ∀ j, P'.count j + (if j = k then q.strong else 0) =
      P.count j + if j = k then q'.strong else 0) :
    References pools (packed.set k q') pages chunks handles S P' where
  sharedCount j := by
    have hsum := Arena.sum_set (b := q') (f := fun q : PackedInner =>
      if q.page.release = .pool j then 1 else 0) hget
    have hold := hr.sharedCount j
    unfold sharedRefs at hold ⊢
    simp only [hpage] at hsum
    omega
  packedCount j := by
    have hval := Arena.val_set (f := PackedInner.strong) (b := q') (j := j) hget
    have hold := hr.packedCount j
    have hmove := hcount j
    omega
  shared_pos := hr.shared_pos
  packed_pos j r hj := by
    rw [Arena.get_set hget] at hj
    split at hj
    · obtain rfl := Option.some.inj hj
      exact hpos
    · exact hr.packed_pos j r hj
  chunk i h arc hi harc := by
    rw [pageOf_set hget hpage]
    exact hr.chunk i h arc hi harc
  current j r o hj ho := by
    rw [pageOf_set hget hpage]
    exact hr.current j r o hj ho

lemma pageOf_push (h : pageOf packed k = some page) :
    pageOf (packed.push q) k = some page := by
  obtain ⟨r, hr, hpage⟩ := Option.map_eq_some_iff.1 h
  rw [pageOf_of_get (Arena.get_push_of_get hr), hpage]

/-- A new packed page; its only reference is in hand. -/
lemma References.pushPacked (hr : References pools packed pages chunks handles S P)
    (hstrong : q.strong = 1)
    (hcount : ∀ j, S'.count j + (if q.page.release = .pool j then 1 else 0) = S.count j) :
    References pools (packed.push q) pages chunks handles S' (packed.next ::ₘ P) where
  sharedCount j := by
    have hold := hr.sharedCount j
    have hmove := hcount j
    unfold sharedRefs at hold ⊢
    rw [Arena.sum_push]
    omega
  packedCount j := by
    have hold := hr.packedCount j
    rw [Arena.val_push, Multiset.count_cons, hstrong]
    omega
  shared_pos := hr.shared_pos
  packed_pos j r hj := by
    rw [Arena.get_push] at hj
    split at hj
    · obtain rfl := Option.some.inj hj
      omega
    · exact hr.packed_pos j r hj
  chunk i h arc hi harc := pageOf_push (hr.chunk i h arc hi harc)
  current j r o hj ho := ⟨pageOf_push (hr.current j r o hj ho).1, (hr.current j r o hj ho).2⟩

/-- If the reference in hand is the last one, no chunk and no open page has one. -/
lemma References.ne_of_last (hr : References pools packed pages chunks handles S (k ::ₘ P))
    (hget : packed.get k = some q) (hlast : q.strong = 1) :
    P.count k = 0 ∧
    (∀ i h arc, chunks.get i = some h → h.packed = some arc → arc.id ≠ k) ∧
      ∀ id p o, pools.get id = some p → p.owner.current = some o → o.shared.id ≠ k := by
  have hcount := hr.packedCount k
  unfold packedRefs at hcount
  rw [Arena.val_of_get hget, hlast, Multiset.count_cons_self] at hcount
  refine ⟨by omega, ?_, ?_⟩
  · rintro i h arc hi harc rfl
    have hle := Arena.le_sum (f := fun h : ChunkHandle => (heldIds h.packed).count arc.id) hi
    simp only [harc, count_heldIds_some, if_true] at hle
    omega
  · rintro id p o hi ho rfl
    have hle := Arena.le_sum (f := fun p : Pool =>
      (heldIds (p.owner.current.map OpenPage.shared)).count o.shared.id) hi
    simp only [ho, Option.map_some, count_heldIds_some, if_true] at hle
    omega

/-- The last reference to a packed page is dropped; its reference to the pool is in hand. -/
lemma References.erasePacked (hr : References pools packed pages chunks handles S (k ::ₘ P))
    (hget : packed.get k = some q) (hlast : q.strong = 1)
    (hcount : ∀ j, S'.count j = S.count j + if q.page.release = .pool j then 1 else 0) :
    References pools (packed.erase k) pages chunks handles S' P := by
  obtain ⟨hP, hchunks, hpools⟩ := hr.ne_of_last hget hlast
  have herase : ∀ j, j ≠ k → pageOf (packed.erase k) j = pageOf packed j := by
    intro j hj
    unfold pageOf
    rw [Arena.get_erase, if_neg hj]
  constructor
  case sharedCount =>
    intro j
    have hsum := Arena.sum_erase (f := fun q : PackedInner =>
      if q.page.release = .pool j then 1 else 0) hget
    have hold := hr.sharedCount j
    have hmove := hcount j
    unfold sharedRefs at hold ⊢
    omega
  case packedCount =>
    intro j
    have hval := Arena.val_erase (f := PackedInner.strong) (j := j) hget
    have hold := hr.packedCount j
    rw [Multiset.count_cons] at hold
    rw [hlast] at hval
    omega
  case shared_pos => exact hr.shared_pos
  case packed_pos =>
    intro j r hj
    exact hr.packed_pos j r (Arena.get_of_get_erase hj).2
  case chunk =>
    intro i h arc hi harc
    rw [herase _ (hchunks i h arc hi harc)]
    exact hr.chunk i h arc hi harc
  case current =>
    intro j r o hj ho
    rw [herase _ (hpools j r o hj ho)]
    exact hr.current j r o hj ho

/-- A change of a pool that keeps its references. -/
lemma References.setPool_same (hr : References pools packed pages chunks handles S P)
    (hget : pools.get id = some p) (hstrong : p'.strong = p.strong)
    (hrefs : p'.owner.refs = p.owner.refs)
    (hcurrent : p'.owner.current.map OpenPage.shared = p.owner.current.map OpenPage.shared) :
    References (pools.set id p') packed pages chunks handles S P := by
  refine hr.setPool hget ?_ (fun j => ?_) (fun k => ?_) fun o ho => ?_
  · rw [hstrong]
    exact hr.shared_pos id p hget
  · rw [hstrong, hrefs]
  · rw [hcurrent]
  · rw [ho] at hcurrent
    obtain ⟨o', ho', hshared⟩ := Option.map_eq_some_iff.1 hcurrent.symm
    rw [← hshared]
    exact hr.current id p o' hget ho'

lemma References.pos_of_count (hr : References pools packed pages chunks handles (id ::ₘ S) P)
    (hget : pools.get id = some p) : p.owner.refs + 1 ≤ p.strong := by
  have hcount := hr.sharedCount id
  unfold sharedRefs at hcount
  rw [Arena.val_of_get hget, Arena.val_of_get hget, Multiset.count_cons_self] at hcount
  omega

/-! ## Moves of the shared pools -/

/-- The owner goes, and the reference that it had is in hand. -/
lemma References.dropOwner (hr : References pools packed pages chunks handles S P)
    (hget : pools.get id = some p) (hlive : p.owner.Live) :
    References (pools.set id { p with owner := .dropped p.owner.current }) packed pages chunks
      handles (id ::ₘ S) P := by
  have hrefs := Owner.refs_of_live hlive
  refine hr.setPool hget (hr.shared_pos id p hget) (fun j => ?_) (fun k => rfl)
    fun o ho => hr.current id p o hget ho
  show _ + (if j = id then p.strong + 0 else 0) = _ + if j = id then p.strong + p.owner.refs else 0
  rw [Multiset.count_cons, hrefs]
  split <;> omega

lemma References.cloneShared (hr : References pools packed pages chunks handles S P)
    (hget : pools.get id = some p) :
    References (pools.set id { p with strong := p.strong + 1 }) packed pages chunks handles
      (id ::ₘ S) P := by
  refine hr.setPool hget (Nat.succ_pos _) (fun j => ?_) (fun k => rfl)
    fun o ho => hr.current id p o hget ho
  dsimp only
  rw [Multiset.count_cons]
  split <;> omega

lemma References.dropShared (hr : References pools packed pages chunks handles (id ::ₘ S) P)
    (hget : pools.get id = some p) (hshared : p.strong ≠ 1) :
    References (pools.set id { p with strong := p.strong - 1 }) packed pages chunks handles S P := by
  have hpos := hr.shared_pos id p hget
  refine hr.setPool hget (Nat.sub_pos_of_lt (by omega)) (fun j => ?_) (fun k => rfl)
    fun o ho => hr.current id p o hget ho
  dsimp only
  rw [Multiset.count_cons]
  split <;> omega

lemma References.giveShared (hr : References pools packed pages chunks handles (id ::ₘ S) P) :
    References pools packed pages chunks (Function.update handles id (handles id + 1)) S P := by
  apply hr.setHandles
  intro j
  rw [Multiset.count_cons]
  by_cases hj : j = id
  · subst hj
    rw [Function.update_self, if_pos rfl]
    omega
  · rw [Function.update_of_ne hj, if_neg hj]
    rfl

lemma References.takeShared (hr : References pools packed pages chunks handles S P)
    (hpos : 0 < handles id) :
    References pools packed pages chunks (Function.update handles id (handles id - 1)) (id ::ₘ S)
      P := by
  apply hr.setHandles
  intro j
  rw [Multiset.count_cons]
  by_cases hj : j = id
  · subst hj
    rw [Function.update_self, if_pos rfl]
    omega
  · rw [Function.update_of_ne hj, if_neg hj]
    rfl

/-! ## Moves of the packed pages -/

/-- A packed page of a pool has one reference to it. -/
lemma count_cons_pool (S : Multiset ℕ) (id j : ℕ) :
    (id ::ₘ S).count j = S.count j + if Release.pool id = .pool j then 1 else 0 := by
  rw [Multiset.count_cons]
  by_cases hj : j = id
  · rw [if_pos hj, if_pos (by rw [hj])]
  · rw [if_neg hj, if_neg (by simpa using Ne.symm hj)]

lemma count_heap {l : Layout} (S : Multiset ℕ) (j : ℕ) :
    S.count j = S.count j + if Release.heap l = .pool j then 1 else 0 := by
  rw [if_neg (by simp), Nat.add_zero]

lemma References.clonePacked (hr : References pools packed pages chunks handles S P)
    (hget : packed.get k = some q) :
    References pools (packed.set k { q with strong := q.strong + 1 }) pages chunks handles S
      (k ::ₘ P) := by
  refine hr.setPacked hget rfl (Nat.succ_pos _) ?_
  intro j
  dsimp only
  rw [Multiset.count_cons]
  split <;> omega

lemma References.dropPacked (hr : References pools packed pages chunks handles S (k ::ₘ P))
    (hget : packed.get k = some q) (hshared : q.strong ≠ 1) :
    References pools (packed.set k { q with strong := q.strong - 1 }) pages chunks handles S P := by
  have hpos := hr.packed_pos k q hget
  refine hr.setPacked hget rfl (Nat.sub_pos_of_lt (by omega)) ?_
  intro j
  dsimp only
  rw [Multiset.count_cons]
  split <;> omega

/-! ## Moves of the open page -/

variable {o : OpenPage} {l : ℕ}

lemma References.takeCurrent (hr : References pools packed pages chunks handles S P)
    (hget : pools.get id = some p) (hcurrent : p.owner.current = some o) :
    References (pools.set id { p with owner := p.owner.setCurrent none }) packed pages chunks
      handles S (o.shared.id ::ₘ P) := by
  have hnone : (p.owner.setCurrent none).current = none := Owner.current_setCurrent_none
  refine hr.setPool hget (hr.shared_pos id p hget) (fun j => ?_) (fun k => ?_) fun o ho => ?_
  · dsimp only
    rw [Owner.refs_setCurrent]
  · dsimp only
    rw [hnone, hcurrent, Option.map_some, count_heldIds_some, Multiset.count_cons]
    rfl
  · exact absurd (hnone.symm.trans ho) (by simp)

lemma References.setCurrent (hr : References pools packed pages chunks handles S (k ::ₘ P))
    (hget : pools.get id = some p) (howner : p.owner = .chunkPool l none)
    (honly : packed.get k = some ⟨⟨a, .pool id⟩, 1⟩) :
    References (pools.set id { p with
        owner := .chunkPool l (some ⟨⟨k, ⟨a, .pool id⟩⟩, 0⟩) }) packed pages chunks handles S P := by
  refine hr.setPool hget (hr.shared_pos id p hget) (fun j => ?_) (fun j => ?_) fun o ho => ?_
  · rw [howner]
    rfl
  · dsimp only [Owner.current]
    rw [howner, Option.map_some, count_heldIds_some, Multiset.count_cons]
    rfl
  · obtain rfl := Option.some.inj ho
    exact ⟨pageOf_of_get honly, rfl⟩

/-- The open page moves its cursor. -/
lemma References.advance (hr : References pools packed pages chunks handles S P)
    (hget : pools.get id = some p) (hcurrent : p.owner.current = some o) (size align : ℕ) :
    References (pools.set id (p.claim o size align)) packed pages chunks handles S P := by
  refine hr.setPool_same hget rfl Owner.refs_setCurrent ?_
  unfold Pool.claim
  rw [Owner.current_setCurrent hcurrent, hcurrent]
  rfl

/-! ## Moves of the chunk handles -/

variable {h h' : ChunkHandle}

/-- A chunk takes over the reference to its page. -/
lemma References.pushChunk
    (hr : References pools packed pages chunks handles S (heldIds h.packed + P))
    (hpage : ∀ arc, h.packed = some arc → pageOf packed arc.id = some arc.page) :
    References pools packed pages (chunks.push h) handles S P := by
  refine hr.setChunks (fun j => ?_) fun i g arc hi harc => ?_
  · rw [Arena.sum_push, Multiset.count_add]
    omega
  · rw [Arena.get_push] at hi
    split at hi
    · obtain rfl := Option.some.inj hi
      exact hpage arc harc
    · exact hr.chunk i g arc hi harc

lemma References.eraseChunk (hr : References pools packed pages chunks handles S P)
    (hget : chunks.get i = some h) :
    References pools packed pages (chunks.erase i) handles S (heldIds h.packed + P) := by
  refine hr.setChunks (fun j => ?_) fun j g arc hj harc => ?_
  · have hsum := Arena.sum_erase (f := fun h : ChunkHandle => (heldIds h.packed).count j) hget
    rw [Multiset.count_add]
    omega
  · exact hr.chunk j g arc (Arena.get_of_get_erase hj).2 harc

lemma References.setChunk (hr : References pools packed pages chunks handles S P)
    (hget : chunks.get i = some h) (hsame : h'.packed = h.packed) :
    References pools packed pages (chunks.set i h') handles S P := by
  refine hr.setChunks (fun j => ?_) fun j g arc hj harc => ?_
  · have hsum := Arena.sum_set (b := h') (f := fun h : ChunkHandle =>
      (heldIds h.packed).count j) hget
    rw [hsame] at hsum
    omega
  · rw [Arena.get_set hget] at hj
    split at hj
    · obtain rfl := Option.some.inj hj
      exact hr.chunk i h arc hget (hsame.symm.trans harc)
    · exact hr.chunk j g arc hj harc

/-! ## Every move -/

variable {c c' : Config}

/-- The references of a configuration are exact. -/
abbrev Config.References (c : Config) : Prop :=
  Sequential.References c.world.pools c.world.packed c.world.pages c.world.chunks
    c.world.sharedHandles c.shared c.packed

/-- **One move.** -/
lemma References.move (hr : c.References) (hmove : Move c c') : c'.References := by
  cases hmove with
  | account => exact hr
  | record => exact hr
  | stats hget st => exact hr.setPool_same hget rfl rfl rfl
  | newPool hle hvalid hfresh =>
      refine hr.pushPool rfl ?_ ?_
      · rcases hfresh with rfl | rfl <;> rfl
      · rcases hfresh with rfl | rfl <;> rfl
  | supply => exact hr
  | prefault => exact hr
  | @popLocal w B S P id p hget hne st =>
      refine hr.setPool_same hget rfl ?_ ?_
      · exact Owner.refs_setLocalHead
      · rw [Owner.current_setLocalHead]
  | @drain w B S P id p hget hlive hempty st =>
      refine hr.setPool_same hget rfl ?_ ?_
      · exact Owner.refs_setLocalHead
      · rw [Owner.current_setLocalHead]
  | @linkLocal w B S P id p a hget hlive =>
      refine hr.setPool_same hget rfl ?_ ?_
      · exact Owner.refs_setLocalHead
      · rw [Owner.current_setLocalHead]
  | pushReturn hget st => exact hr.setPool_same hget rfl rfl rfl
  | releaseLocal hget hlive hchain => exact hr.dropOwner hget hlive
  | cloneShared hget => exact hr.cloneShared hget
  | dropShared hget hshared => exact hr.dropShared hget hshared
  | freeShared hget hlast hnone hchain => exact hr.erasePool hget hlast
  | giveShared => exact hr.giveShared
  | takeShared hpos => exact hr.takeShared hpos
  | @newPage w B S P p l h hget howner hcap =>
      apply hr.setPages
      intro j
      dsimp only
      rw [Arena.sum_push, Multiset.count_cons]
      omega
  | @removePage w B S P i h hget =>
      apply hr.setPages
      intro j
      have hsum := Arena.sum_erase (f := fun h : PageHandle => if j = h.pool then 1 else 0) hget
      dsimp only
      rw [Multiset.count_cons]
      omega
  | @setPage w B S P i h h' hget hsame =>
      apply hr.setPages
      intro j
      have hsum := Arena.sum_set (b := h') (f := fun h : PageHandle =>
        if j = h.pool then 1 else 0) hget
      rw [hsame.pool] at hsum
      dsimp only
      omega
  | writePage => exact hr
  | @newPacked w B S P id a => exact hr.pushPacked rfl fun j => (count_cons_pool S id j).symm
  | @newHeap w B S P l a hpos hsupplies => exact hr.pushPacked rfl fun j => (count_heap S j).symm
  | clonePacked hget => exact hr.clonePacked hget
  | dropPacked hget hshared => exact hr.dropPacked hget hshared
  | @freePacked w B S P k id a hget => exact hr.erasePacked hget rfl fun j => count_cons_pool S id j
  | @freeHeap w B S P k l a hget => exact hr.erasePacked hget rfl fun j => count_heap S j
  | takeCurrent hget hcurrent => exact hr.takeCurrent hget hcurrent
  | setCurrent hget howner honly => exact hr.setCurrent hget howner honly
  | @claim w B S P id p o q size align tenant hpos halign hget hroom harc =>
      have hcurrent : p.owner.current = some o := (Option.filter_eq_some_iff.1 hroom).1
      -- The open page moves its cursor, then the page is cloned, then the chunk takes the clone.
      have hclone := (hr.advance hget hcurrent size align).clonePacked harc
      refine hclone.pushChunk fun arc harc' => ?_
      obtain rfl : o.shared = arc := Option.some.inj harc'
      have hpage : ∀ j, pageOf (w.packed.set o.shared.id { q with strong := q.strong + 1 }) j =
          pageOf w.packed j := pageOf_set harc rfl
      exact (hpage o.shared.id).trans (hr.current id p o hget hcurrent).1
  | newChunk id tenant c honly hempty =>
      exact hr.pushChunk fun arc harc => pageOf_of_get (honly arc harc).1
  | removeChunk hget => exact hr.eraseChunk hget
  | setChunk hget hsame => exact hr.setChunk hget hsame.packed
  | writeChunk => exact hr

end PagedAlloc.Sequential
