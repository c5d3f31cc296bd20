import PagedAlloc.Properties.Recycling
import PagedAlloc.Properties.Release

/-!
# The find-or-open loop

The loop of `allocate_packed` has no counter: it ends because a page that was just opened has room
for whatever the packed path is asked for.  `Retired` says what becomes of the open page that had
none, `findPage_open` and `findPage_retire` what the rounds of the loop come to, with any fuel,
and `packed_loop_ends` puts them together.
-/

namespace PagedAlloc.Sequential

open Words Bytes Intrusive Relation Transition

/-! ## Retiring the open page -/

/-- The open page `c` of a chunk pool is retired: its reference is dropped, and if it was the last
one, the page goes to the return queue. -/
inductive Retired (w : World) (id : ℕ) (p : Pool) (l : ℕ) : Option OpenPage → World → Prop
  | none : Retired w id p l none
      { w with pools := w.pools.set id { p with owner := .chunkPool l none } }
  | shared {o q} (get : w.packed.get o.shared.id = some q) (ne : q.strong ≠ 1) :
      Retired w id p l (some o) { w with
        pools := w.pools.set id { p with owner := .chunkPool l none }
        packed := w.packed.set o.shared.id { q with strong := q.strong - 1 } }
  | last {o} (ne : o.shared.page.buf ≠ 0) :
      Retired w id p l (some o) { w.storePtr o.shared.page.buf p.returnHead with
        pools := w.pools.set id { p with
          returnHead := o.shared.page.buf
          stats := p.stats.giveBack
          strong := p.strong - 1
          owner := .chunkPool l none }
        packed := w.packed.erase o.shared.id
        trace := .giveBack id o.shared.page.buf :: w.trace }

section Retire

variable {w w' : World} {id l size align : ℕ} {p : Pool} {c : Option OpenPage}

lemma dropShared_of_ne (hget : w.pools.get id = some p) (hstrong : p.strong ≠ 1) :
    w.dropShared id = { w with pools := w.pools.set id { p with strong := p.strong - 1 } } := by
  unfold World.dropShared
  rw [hget]
  dsimp only
  rw [if_neg hstrong]

/-- A page whose last reference is dropped goes to the return queue. -/
lemma releasePacked_pool {a : ℕ} (hget : w.pools.get id = some p) (hstrong : p.strong ≠ 1) :
    w.releasePacked ⟨a, .pool id⟩ = { w.storePtr a p.returnHead with
      pools := w.pools.set id { p with
        returnHead := a, stats := p.stats.giveBack, strong := p.strong - 1 }
      trace := .giveBack id a :: w.trace } := by
  have hpush : w.pushReturn id a = { w.storePtr a p.returnHead with
      pools := w.pools.set id { p with returnHead := a, stats := p.stats.giveBack }
      trace := .giveBack id a :: w.trace } := by
    unfold World.pushReturn
    rw [hget]
    rfl
  show (w.pushReturn id a).dropShared id = _
  rw [hpush, dropShared_of_ne (p := { p with returnHead := a, stats := p.stats.giveBack })
    (Arena.get_set_self hget) hstrong, Arena.set_set]

/-- A pool with an owner and an open page has two references. -/
lemma Owned.strong_of_current {o : OpenPage} (ho : Owned w.idle) (hget : w.pools.get id = some p)
    (hcurrent : p.owner.current = some o) (hlive : p.owner.Live) : p.strong ≠ 1 := by
  obtain ⟨hpage, hrelease⟩ := ho.references.current id p o hget hcurrent
  have hpage' : pageOf w.packed o.shared.id = some ⟨o.shared.page.buf, .pool id⟩ := by
    rw [← hrelease]
    exact hpage
  have hpos := References.one_le_sum_release hpage'
  have hcount := ho.references.sharedCount id
  unfold sharedRefs at hcount
  dsimp only at hcount
  rw [Arena.val_of_get hget, Arena.val_of_get hget, Owner.refs_of_live hlive] at hcount
  omega

lemma retired_replaceCurrent (ho : Owned w.idle) (hget : w.pools.get id = some p)
    (howner : p.owner = .chunkPool l c) : Retired w id p l c (w.replaceCurrent id none) := by
  have hset : p.owner.setCurrent none = .chunkPool l none := by
    rw [howner]
    rfl
  have hcurrent : p.owner.current = c := by
    rw [howner]
    rfl
  have hget₁ := Arena.get_set_self (b := { p with owner := .chunkPool l none }) hget
  unfold World.replaceCurrent
  rw [hget]
  dsimp only
  rw [hset, hcurrent]
  cases c with
  | none => exact .none
  | some o =>
      obtain ⟨hpage, hrelease⟩ := ho.references.current id p o hget hcurrent
      obtain ⟨q, hq, hqpage⟩ := Option.map_eq_some_iff.1 hpage
      have hq' : w.packed.get o.shared.id = some q := hq
      show Retired w id p l (some o) (World.dropPacked _ o.shared)
      by_cases hlast : q.strong = 1
      · rw [dropPacked_last (w := { w with pools := w.pools.set id _ }) hq' hlast]
        have hbuf := (ho.buf_of_current hget hcurrent).1
        have hstrong := ho.strong_of_current hget hcurrent (Owner.live_of_chunkPool howner)
        rw [hqpage, show o.shared.page = ⟨o.shared.page.buf, .pool id⟩ by rw [← hrelease],
          releasePacked_pool (p := { p with owner := .chunkPool l none }) hget₁ hstrong]
        dsimp only
        rw [Arena.set_set]
        exact .last (by omega)
      · rw [dropPacked_shared (w := { w with pools := w.pools.set id _ }) hq' hlast]
        exact .shared hq' hlast

/-- At most one page is given back. -/
lemma Retired.trace_eq (h : Retired w id p l c w') : ∃ retired, w'.trace = retired ++ w.trace ∧
    (retired = [] ∨ ∃ b, retired = [.giveBack id b]) := by
  cases h with
  | none => exact ⟨[], rfl, Or.inl rfl⟩
  | shared hget hne => exact ⟨[], rfl, Or.inl rfl⟩
  | last hne => exact ⟨[_], rfl, Or.inr ⟨_, rfl⟩⟩

lemma Retired.fault_eq (h : Retired w id p l c w') : w'.fault = w.fault := by
  cases h <;> rfl

lemma room_eq_some_iff {o : OpenPage} (hlt : p.pageSize < 2 ^ 63) :
    p.room size align = some o ↔
      p.owner.current = some o ∧ o.alignedOffset align + size ≤ p.pageSize := by
  refine ⟨le_of_room hlt, fun ⟨hcurrent, hle⟩ => ?_⟩
  refine Option.filter_eq_some_iff.2 ⟨hcurrent, decide_eq_true ?_⟩
  exact (Nat.min_le_left _ _).trans hle

end Retire

/-! ## The rounds of the loop -/

section Rounds

variable {w w₂ : World} {ops : List Op} {id l size align : ℕ} {p : Pool} {c : Option OpenPage}
  {reply : Option ℕ}

/-- If the source panics, both lists were empty and only the call has been counted. -/
lemma refused_allocateRawPage (hget : w.pools.get id = some p) (hlive : p.owner.Live) :
    (w.allocateRawPage id reply).Post (fun _ _ => True)
      fun w' => reply = none ∧ p.owner.localHead = 0 ∧ p.returnHead = 0 ∧
        w' = { w with pools := w.pools.set id (p.access (.addAllocationsFromHeap 1)) } := by
  unfold World.allocateRawPage
  rw [hget]
  exact Outcome.Post.bind ((taken_takeBuffer hlive).mono (fun _ _ _ => trivial) fun _ h => h)
    fun _ _ _ => trivial

/-- What `open_new_page` leaves, for a pool without an open page. -/
lemma opened_openNewPage (reply : Option ℕ) (hget : w.pools.get id = some p)
    (howner : p.owner = .chunkPool l none) :
    (w.openNewPage id reply).Post
      (fun _ w' => ∃ a fresh k l' p', w'.trace = .acquire id a fresh :: w.trace ∧
        w'.pools.get id = some p' ∧ p'.pageSize = p.pageSize ∧
        p'.owner = .chunkPool l' (some ⟨⟨k, ⟨a, .pool id⟩⟩, 0⟩))
      fun w' => reply = none ∧ p.owner.localHead = 0 ∧ p.returnHead = 0 ∧
        w' = { w with pools := w.pools.set id (p.access (.addAllocationsFromHeap 1)) } := by
  have hlive := Owner.live_of_chunkPool howner
  have hboth := (Outcome.Post.and (o := w.allocateRawPage id reply)
    (custody_allocateRawPage hget hlive) (acquire_calls_source hget hlive)).and
    (refused_allocateRawPage hget hlive)
  refine Outcome.Post.bind (hboth.mono (fun _ _ h => h) fun _ h => h.2) ?_
  rintro a w₁ ⟨⟨⟨-, p₁, hget₁, hsize, l', howner'⟩, fresh, htrace, -⟩, -⟩
  rw [howner] at howner'
  refine Outcome.post_done ?_
  rw [replaceCurrent_wrapPage hget₁ howner']
  exact ⟨a, fresh, w₁.packed.next, l', _, htrace, Arena.get_set_self hget₁, hsize, rfl⟩

/-- **A range that fits** is claimed in the first round. -/
lemma findPage_open {o : OpenPage} (hget : w.pools.get id = some p)
    (hroom : p.room size align = some o) (fuel : ℕ) :
    World.findPage id size align reply (fuel + 1) w = w.claimRange id p o size align := by
  unfold World.findPage
  rw [hget]
  dsimp only
  rw [hroom]

/-- One that does not fit costs a round. -/
lemma findPage_retire (hget : w.pools.get id = some p) (hroom : p.room size align = none)
    (fuel : ℕ) : World.findPage id size align reply (fuel + 1) w =
      ((w.replaceCurrent id none).openNewPage id reply).bind fun _ w₁ =>
        World.findPage id size align reply fuel w₁ := by
  rw [World.findPage, hget]
  dsimp only
  rw [hroom]

/-- The first round opens a page and the second claims the range on it. -/
lemma findPage_opened (ho : Owned w.idle) (hget : w.pools.get id = some p)
    (howner : p.owner = .chunkPool l c) (halign : IsPowerOfTwo align)
    (hclass : sizeClass p.pageSize size align = .packed) (hroom : p.room size align = none)
    (hopen : (w.replaceCurrent id none).openNewPage id reply = .done () w₂) :
    ∃ (a : ℕ) (fresh : Bool) (k : ℕ) (p₂ : Pool) (q : PackedInner), Moves w.idle w₂.idle ∧
      w₂.pools.get id = some p₂ ∧ p₂.pageSize = p.pageSize ∧
      p₂.room size align = some ⟨⟨k, ⟨a, .pool id⟩⟩, 0⟩ ∧
      w₂.trace = .acquire id a fresh :: (w.replaceCurrent id none).trace ∧
      ∀ fuel, World.findPage id size align reply (fuel + 2) w =
        .done (⟨k, ⟨a, .pool id⟩⟩, OpenPage.alignedOffset ⟨⟨k, ⟨a, .pool id⟩⟩, 0⟩ align) { w₂ with
          pools := w₂.pools.set id (p₂.claim ⟨⟨k, ⟨a, .pool id⟩⟩, 0⟩ size align)
          packed := w₂.packed.set k { q with strong := q.strong + 1 } } := by
  have hclose : Moves w.idle (w.replaceCurrent id none).idle := custody_closeCurrent ho hget
  obtain ⟨p₁, hget₁, howner₁, hsize₁⟩ := owner_closeCurrent ho hget howner
  have hboth := Outcome.Post.and (o := (w.replaceCurrent id none).openNewPage id reply)
    (custody_openNewPage hget₁ howner₁) (opened_openNewPage reply hget₁ howner₁)
  rw [hopen] at hboth
  obtain ⟨⟨hmoves, -⟩, a, fresh, k, l', p₂, htrace, hget₂, hsize₂, howner₂⟩ := hboth
  have hmoves₂ : Moves w.idle w₂.idle := hclose.trans hmoves
  have ho₂ := ho.moves hmoves₂
  have hclass₂ : sizeClass p₂.pageSize size align = .packed := by
    rw [hsize₂, hsize₁]
    exact hclass
  have hroom₂ := room_of_opened ho₂ hget₂ howner₂ halign hclass₂
  obtain ⟨q, hq, hclaim⟩ := claimRange_eq ho₂ hget₂ hroom₂
  refine ⟨a, fresh, k, p₂, q, hmoves₂, hget₂, hsize₂.trans hsize₁, hroom₂, htrace, fun fuel => ?_⟩
  rw [findPage_retire hget hroom, hopen]
  show World.findPage id size align reply (fuel + 1) w₂ = _
  rw [findPage_open hget₂ hroom₂, hclaim]

end Rounds

/-! ## The law -/

section Law

variable {w : World} {ops : List Op} {id size align : ℕ} {p : Pool} {reply : Option ℕ}

/-- **The packed loop ends** after at most two rounds, for whatever fuel.  It acquires no page if
the aligned range fits on the open page.  If not, it retires the open page, acquires exactly one
and claims the range on it, unless the source does not supply it. -/
theorem packed_loop_ends (h : runOps ops = some w) (hp : w.chunkPool id = some p)
    (halign : IsPowerOfTwo align) (hclass : sizeClass p.pageSize size align = .packed)
    (reply : Option ℕ) (fuel : ℕ) :
    (∀ o, p.owner.current = some o → o.alignedOffset align + size ≤ p.pageSize →
      ∃ w', World.findPage id size align reply (fuel + 1) w =
          .done (o.shared, o.alignedOffset align) w' ∧
        w'.trace = w.trace ∧ w'.log = w.log ∧ w'.fault = false) ∧
    ((∀ o, p.owner.current = some o → p.pageSize < o.alignedOffset align + size) →
      World.findPage id size align reply (fuel + 2) w = World.findPage id size align reply 2 w ∧
      ((w.replaceCurrent id none).pools.get id).map (fun q => q.owner.current) = some none ∧
      ∃ retired, (w.replaceCurrent id none).trace = retired ++ w.trace ∧
        (retired = [] ∨ ∃ b, retired = [.giveBack id b]) ∧
        match (w.replaceCurrent id none).openNewPage id reply with
        | .done _ _ => ∃ a fresh arc offset w', arc.page = ⟨a, .pool id⟩ ∧
            World.findPage id size align reply (fuel + 2) w = .done (arc, offset) w' ∧
            offset + size ≤ p.pageSize ∧ w'.trace = .acquire id a fresh :: (retired ++ w.trace) ∧
            (w'.pools.get id).map (fun q => q.owner.current) =
              some (some ⟨arc, offset + size⟩) ∧ w'.fault = false
        | .panicked w' => reply = none ∧
            World.findPage id size align reply (fuel + 2) w = .panicked w' ∧
            w'.trace = retired ++ w.trace ∧ w'.fault = false
        | .refused => World.findPage id size align reply (fuel + 2) w = .refused) := by
  obtain ⟨hget, l, c, howner⟩ := World.chunkPool_eq_some hp
  have ho : Owned w.idle := owned_run h
  have hlt := (ho.blocks.pageSize id p hget).2
  have hfault := fault_run h
  refine ⟨fun o hcurrent hle => ?_, fun hfull => ?_⟩
  · have hroom := (room_eq_some_iff hlt).2 ⟨hcurrent, hle⟩
    obtain ⟨q, -, hclaim⟩ := claimRange_eq ho hget hroom
    exact ⟨_, (findPage_open hget hroom fuel).trans hclaim, rfl, rfl, hfault⟩
  · have hroom : p.room size align = none := by
      apply Option.eq_none_iff_forall_ne_some.2
      intro o ho'
      obtain ⟨hcurrent, hle⟩ := (room_eq_some_iff hlt).1 ho'
      exact absurd (hfull o hcurrent) (by omega)
    have hretired := retired_replaceCurrent ho hget howner
    obtain ⟨retired, htrace, hshape⟩ := hretired.trace_eq
    obtain ⟨p₁, hget₁, howner₁, -⟩ := owner_closeCurrent ho hget howner
    have hopened := opened_openNewPage reply hget₁ howner₁
    have hcurrent₁ : ((w.replaceCurrent id none).pools.get id).map (fun q => q.owner.current) =
        some none := by
      rw [hget₁, Option.map_some, howner₁]
      rfl
    cases hopen : (w.replaceCurrent id none).openNewPage id reply with
    | done x w₂ =>
        obtain ⟨a, fresh, k, p₂, q, hmoves, hget₂, hsize₂, hroom₂, htrace₂, hfind⟩ :=
          findPage_opened ho hget howner halign hclass hroom hopen
        obtain ⟨hcurrent₂, hle⟩ :=
          le_of_room ((ho.moves hmoves).blocks.pageSize id p₂ hget₂).2 hroom₂
        refine ⟨(hfind fuel).trans (hfind 0).symm, hcurrent₁, retired, htrace, hshape,
          a, fresh, _, _, _, rfl, hfind fuel, by omega, ?_, ?_, ?_⟩
        · rw [← htrace]
          exact htrace₂
        · dsimp only
          rw [Arena.get_set_self hget₂, Option.map_some]
          exact congrArg some (Owner.current_setCurrent hcurrent₂)
        · exact (fault_moves hmoves).trans hfault
    | panicked w₂ =>
        rw [hopen] at hopened
        obtain ⟨hreply, -, -, rfl⟩ := hopened
        have hfind (n : ℕ) : World.findPage id size align reply (n + 2) w = .panicked
            { w.replaceCurrent id none with
              pools := (w.replaceCurrent id none).pools.set id
                (p₁.access (.addAllocationsFromHeap 1)) } := by
          rw [findPage_retire hget hroom, hopen]
          rfl
        exact ⟨(hfind fuel).trans (hfind 0).symm, hcurrent₁, retired, htrace, hshape, hreply,
          hfind fuel, htrace, hretired.fault_eq.trans hfault⟩
    | refused =>
        have hfind (n : ℕ) : World.findPage id size align reply (n + 2) w = .refused := by
          rw [findPage_retire hget hroom, hopen]
          rfl
        exact ⟨(hfind fuel).trans (hfind 0).symm, hcurrent₁, retired, htrace, hshape, hfind fuel⟩

/-- A second chunk on the open page. -/
theorem packed_loop_ends_second_chunk : ∃ w p,
    runOps [.newChunkPool 64, .allocateChunk 0 7 24 8 (some 128)] = some w ∧
    w.chunkPool 0 = some p ∧ sizeClass p.pageSize 24 8 = .packed ∧
    ∃ w', World.findPage 0 24 8 none 1 w = .done (⟨0, ⟨128, .pool 0⟩⟩, 24) w' ∧
      w'.trace = w.trace := by
  have heval : (runOps [.newChunkPool 64, .allocateChunk 0 7 24 8 (some 128)]).any (fun w =>
      decide ((w.chunkPool 0).map (fun p => (p.pageSize, p.owner)) =
        some (64, .chunkPool 0 (some ⟨⟨0, ⟨128, .pool 0⟩⟩, 24⟩)))) = true := by
    decide +kernel
  obtain ⟨w, hw, heval⟩ := (Option.any_eq_true _ _).1 heval
  obtain ⟨p, hp, hpool⟩ := Option.map_eq_some_iff.1 (of_decide_eq_true heval)
  obtain ⟨hsize, howner⟩ := Prod.mk.inj hpool
  have hclass : sizeClass p.pageSize 24 8 = .packed := by
    rw [hsize]
    decide
  have halign : IsPowerOfTwo 8 := ⟨3, by decide, rfl⟩
  obtain ⟨hfits, -⟩ := packed_loop_ends hw hp halign hclass none 0
  obtain ⟨w', hfind, htrace, -⟩ := hfits ⟨⟨0, ⟨128, .pool 0⟩⟩, 24⟩ (by rw [howner]; rfl)
    (by rw [hsize]; decide +kernel)
  rw [show OpenPage.alignedOffset ⟨⟨0, ⟨128, .pool 0⟩⟩, 24⟩ 8 = 24 by decide +kernel] at hfind
  exact ⟨w, p, hw, hp, hclass, w', hfind, htrace⟩

end Law

end PagedAlloc.Sequential
