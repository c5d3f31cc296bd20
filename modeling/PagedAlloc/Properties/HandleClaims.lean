import PagedAlloc.Properties.BufferClaims

/-!
# How handles pass on what they know

The steps of the handles keep `Sound`: a seal and a clone add a user that knows what it must, a drop
leaves what its user knew at the strong count, and the last one takes all of it to `push_return`.
References to a `PackedPage` go from the owner to its chunks and from there to whoever drops them.
-/

namespace PagedAlloc.MemoryOrder

open PoolInterleaving (Addr Push OwnerPc PushPc Whereabouts Move moveOf)
open HappensBefore Transition

variable {s t : State} {w w' : Whereabouts} {i j k : ℕ} {h h' : Handle} {page page' : PackedPage}
  {b : Addr} {a : Agent} {e : Event} {tr : List (Action Agent Atomic Addr)}
  {act : Action Agent Atomic Addr} {P : Action Agent Atomic Addr → Prop}
  {ps : Set (Place Agent Atomic)}

/-! ## Steps of the users of a handle -/

section Users

variable {u : Users}

/-- Who uses a handle has no bearing on where it is. -/
lemma Arranged.setUsers (hs : Arranged s w) (hi : s.handles.get i = some h) (n : ℕ) :
    Arranged { s with handles := s.handles.set i { h with users := u }, agents := n } w := by
  have hold : ∀ {j h'}, (s.handles.set i { h with users := u }).get j = some h' →
      ∃ x, s.handles.get j = some x ∧ x.span = h'.span ∧ x.packed = h'.packed := by
    intro j h' hj
    rcases (Arena.get_set_eq_some hi).1 hj with ⟨rfl, rfl⟩ | ⟨-, hj⟩
    · exact ⟨h, hi, rfl, rfl⟩
    · exact ⟨h', hj, rfl, rfl⟩
  have hown : (s.handles.set i { h with users := u }).sum Handle.own = s.handles.sum Handle.own :=
    Arena.sum_set_of_eq hi rfl
  have hrefers : ∀ k, (s.handles.set i { h with users := u }).sum (Handle.refers k) =
      s.handles.sum (Handle.refers k) := fun k => Arena.sum_set_of_eq hi rfl
  exact { hs with
    held := by
      rw [← hs.held, State.heldBuffers, State.heldBuffers, hown]
    chunk := by
      intro j h' k hj hp
      obtain ⟨x, hx, hspan, hpacked⟩ := hold hj
      rw [← hspan]
      exact hs.chunk j x k hx (hpacked.trans hp)
    within := by
      intro j h' hj
      obtain ⟨x, hx, hspan, -⟩ := hold hj
      rw [← hspan]
      exact hs.within j x hx
    apart := by
      intro j j' h₁ h₂ hne hj hj'
      obtain ⟨x, hx, hspan, -⟩ := hold hj
      obtain ⟨x', hx', hspan', -⟩ := hold hj'
      rw [← hspan, ← hspan']
      exact hs.apart j j' x x' hne hx hx'
    current := by
      intro c hc
      refine ⟨(hs.current c hc).1, fun j h' hj hp => ?_⟩
      obtain ⟨x, hx, hspan, hpacked⟩ := hold hj
      rw [← hspan]
      exact (hs.current c hc).2 j x hx (hpacked.trans hp)
    strong := by
      intro k page hk
      rw [hs.strong k page hk, State.references, State.references, hrefers] }

lemma clonePacked_eq (hk : s.packed.get k = some page) : s.clonePacked k =
    { s with packed := s.packed.set k { page with strong := page.strong + 1 } } := by
  rw [State.clonePacked, hk]

/-- A reference to a page is cloned for somebody who is going to drop it. -/
lemma Arranged.addReference (hs : Arranged s w) (hk : s.packed.get k = some page) (a : Agent) :
    Arranged { s.clonePacked k with dropping := (k, a) ::ₘ s.dropping } w := by
  rw [clonePacked_eq hk]
  have hold : ∀ {k' page'}, (s.packed.set k { page with strong := page.strong + 1 }).get k' =
      some page' → ∃ x, s.packed.get k' = some x ∧ x.buf = page'.buf ∧
        page'.strong = x.strong + if k = k' then 1 else 0 := by
    intro k' page' hk'
    rcases (Arena.get_set_eq_some hk).1 hk' with ⟨rfl, rfl⟩ | ⟨hne, hk'⟩
    · exact ⟨page, hk, rfl, by simp⟩
    · exact ⟨page', hk', rfl, by simp [Ne.symm hne]⟩
  have hsome : ∀ k', (s.packed.get k').isSome →
      ((s.packed.set k { page with strong := page.strong + 1 }).get k').isSome := by
    intro k' hk'
    rw [Arena.get_set hk]
    split
    · rfl
    · exact hk'
  exact { hs with
    held := by
      rw [← hs.held, State.heldBuffers, State.heldBuffers]
      exact congrArg (s.handles.sum Handle.own + ·) (Arena.sum_set_of_eq hk rfl)
    chunk := by
      intro i h k' hi hp
      obtain ⟨x, hx, hbuf⟩ := hs.chunk i h k' hi hp
      dsimp only
      rw [Arena.get_set hk]
      split
      · rename_i heq
        subst heq
        obtain rfl := Option.some.inj (hk.symm.trans hx)
        exact ⟨_, rfl, hbuf⟩
      · exact ⟨x, hx, hbuf⟩
    current := fun c hc => ⟨hsome _ (hs.current c hc).1, (hs.current c hc).2⟩
    strong := by
      intro k' page' hk'
      obtain ⟨x, hx, -, hstrong⟩ := hold hk'
      rw [hstrong, hs.strong k' x hx, State.references, State.references,
        Multiset.countP_cons]
      dsimp only
      omega
    live := by
      intro k' page' hk'
      obtain ⟨x, hx, -, hstrong⟩ := hold hk'
      rw [hstrong]
      exact Nat.lt_add_right _ (hs.live k' x hx)
    dropping := by
      intro x hx
      rcases Multiset.mem_cons.1 hx with rfl | hx
      · exact hsome k (by rw [hk]; rfl)
      · exact hsome _ (hs.dropping x hx) }

/-- A handle has other users now, who know what they must. -/
lemma Sound.setUsers {tr' : List (Action Agent Atomic Addr)} {clones : Multiset Agent}
    (hs : Sound s w tr') (hi : s.handles.get i = some h) (hold : Custody s w tr)
    (hread : ∀ a ∈ clones, Known tr' (·.Modifies h.span) {.agent a})
    (hpass : ∀ P ps qs, Known tr P ps → (∀ p ∈ ps, p ∈ qs ∨ p ∈ h.places i) →
      ({ h with users := .sealed clones } : Handle).places i ⊆ qs → Known tr' P qs) (n : ℕ) :
    Sound { s with
      handles := s.handles.set i { h with users := .sealed clones }
      agents := n } w tr' := by
  refine ⟨hs.arranged.setUsers hi n, ?_, hs.raceFree⟩
  intro b P ps hclaim
  cases hclaim with
  | pool hb => exact hs.custody _ _ _ (.pool (hb.congr rfl))
  | building hj hu =>
      rcases (Arena.get_set_eq_some hi).1 hj with ⟨rfl, rfl⟩ | ⟨-, hj⟩
      · exact absurd hu (by simp)
      · exact hs.custody _ _ _ (.building hj hu)
  | reading hj hu ha =>
      rcases (Arena.get_set_eq_some hi).1 hj with ⟨rfl, rfl⟩ | ⟨-, hj⟩
      · obtain rfl := Users.sealed.inj hu
        exact hread _ ha
      · exact hs.custody _ _ _ (.reading hj hu ha)
  | page hj hp =>
      rcases (Arena.get_set_eq_some hi).1 hj with ⟨rfl, rfl⟩ | ⟨-, hj⟩
      · exact hpass _ _ _ (hold _ _ _ (.page (h := h) hi hp)) (fun _ hmem => .inr hmem) subset_rfl
      · exact hs.custody _ _ _ (.page hj hp)
  | @packed k page hk =>
      have hplaces : ∀ p ∈ s.packedPlaces k, (p ∈ State.packedPlaces { s with
          handles := s.handles.set i { h with users := .sealed clones }
          agents := n } k) ∨ p ∈ h.places i ∧ h.packed = some k := by
        rintro p (hp | hp | hp | ⟨j, h', hj, hp, hmem⟩)
        · exact .inl (.inl hp)
        · exact .inl (.inr (.inl hp))
        · exact .inl (.inr (.inr (.inl hp)))
        · by_cases hne : j = i
          · subst hne
            obtain rfl := Option.some.inj (hi.symm.trans hj)
            exact .inr ⟨hmem, hp⟩
          · exact .inl (.inr (.inr (.inr ⟨j, h',
              (Arena.get_set_eq_some hi).2 (.inr ⟨hne, hj⟩), hp, hmem⟩)))
      by_cases hp : h.packed = some k
      · refine hpass _ _ _ (hold _ _ _ (.packed hk)) (fun p hmem => ?_) fun p hmem => ?_
        · exact (hplaces p hmem).imp_right And.left
        · exact .inr (.inr (.inr ⟨i, _, Arena.get_set_self hi, hp, hmem⟩))
      · refine (hs.custody _ _ _ (.packed hk)).mono (fun _ h => h) fun p hmem => ?_
        exact (hplaces p hmem).resolve_right fun h => hp h.2
  | current hc hk => exact hs.custody _ _ _ (.current hc hk)

lemma Sound.orders (hs : Sound s w tr) (act : Action Agent Atomic Addr) (hact : act.Orders) :
    Sound s w (tr ++ [act]) :=
  ⟨hs.arranged, hs.custody.orders hs.arranged act hact, hs.raceFree.concat_orders hact⟩

/-- `seal`, as far as the users are concerned. -/
lemma Sound.sealUsers (hs : Sound s w tr) (hi : s.handles.get i = some h)
    (hu : h.users = .builder a) :
    Sound { s with handles := s.handles.set i { h with users := .sealed {a} } } w tr := by
  refine hs.setUsers hi hs.custody ?_ (fun P ps qs hknown hps hqs => ?_) s.agents
  · intro a' ha
    obtain rfl := Multiset.mem_singleton.1 ha
    exact (hs.custody _ _ _ (.building hi hu)).mono (fun _ h => h.touches) subset_rfl
  · refine hknown.mono (fun _ h => h) fun p hp => (hps p hp).elim id fun hmem => hqs (.inr ?_)
    rw [Handle.places, hu] at hmem
    exact ⟨a, Multiset.mem_singleton_self a, hmem⟩

/-- The thread of the new clone knows what the one that made it knows. -/
lemma Sound.cloneUsers {clones : Multiset Agent} (hs : Sound s w tr)
    (hi : s.handles.get i = some h) (hu : h.users = .sealed clones) (ha : a ∈ clones) :
    Sound { s with
      handles := s.handles.set i { h with users := .sealed (s.agents ::ₘ clones) }
      agents := s.agents + 1 } w (tr ++ [.spawn a s.agents]) := by
  have hs' := hs.orders (.spawn a s.agents) trivial
  refine hs'.setUsers hi hs.custody ?_ (fun P ps qs hknown hps hqs => ?_) _
  · intro a' ha'
    rcases Multiset.mem_cons.1 ha' with rfl | ha'
    · exact (hs.custody _ _ _ (.reading hi hu ha)).spawn (fun _ h => .inl h) rfl
    · exact hs'.custody _ _ _ (.reading hi hu ha')
  · refine hknown.spawn (fun p hp => .inr ((hps p hp).elim id fun hmem => hqs ?_))
      (hqs (.inr ⟨_, Multiset.mem_cons_self _ _, rfl⟩))
    rw [Handle.places, hu] at hmem
    rcases hmem with hmem | ⟨a', ha', heq⟩
    · exact .inl hmem
    · exact .inr ⟨a', Multiset.mem_cons_of_mem ha', heq⟩

/-- A clone that is not the last leaves what it knows at the strong count. -/
lemma Sound.dropClone {clones : Multiset Agent} (hs : Sound s w tr)
    (hi : s.handles.get i = some h) (hu : h.users = .sealed clones) :
    Sound { s with handles := s.handles.set i { h with users := .sealed (clones.erase a) } } w
      (tr ++ [.rmw a (.inner i) true false]) := by
  have hs' := hs.orders (.rmw a (.inner i) true false) trivial
  refine hs'.setUsers hi hs.custody ?_ (fun P ps qs hknown hps hqs => ?_) s.agents
  · intro a' ha'
    exact hs'.custody _ _ _ (.reading hi hu (Multiset.mem_of_mem_erase ha'))
  · refine hknown.release (fun p hp => ?_) (hqs (.inl rfl))
    rcases hps p hp with hmem | hmem
    · exact .inr hmem
    · rw [Handle.places, hu] at hmem
      rcases hmem with rfl | ⟨a', ha', rfl⟩
      · exact .inr (hqs (.inl rfl))
      · by_cases hne : a' = a
        · exact .inl (congrArg Place.agent hne)
        · exact .inr (hqs (.inr ⟨a', (Multiset.mem_erase_of_ne hne).2 ha', rfl⟩))

/-- The reference that is going to be dropped is one more place to ask for knowledge. -/
lemma Sound.addReference (hs : Sound s w tr) (hk : s.packed.get k = some page) (a : Agent) :
    Sound { s.clonePacked k with dropping := (k, a) ::ₘ s.dropping } w tr := by
  refine ⟨hs.arranged.addReference hk a, ?_, hs.raceFree⟩
  rw [clonePacked_eq hk]
  intro b P ps hclaim
  cases hclaim with
  | pool hb => exact hs.custody _ _ _ (.pool (hb.congr rfl))
  | building hi hu => exact hs.custody _ _ _ (.building hi hu)
  | reading hi hu ha => exact hs.custody _ _ _ (.reading hi hu ha)
  | page hi hp => exact hs.custody _ _ _ (.page hi hp)
  | @packed k' page' hk' =>
      obtain ⟨x, hx, hbuf⟩ : ∃ x, s.packed.get k' = some x ∧ x.buf = page'.buf := by
        rcases (Arena.get_set_eq_some hk).1 hk' with ⟨rfl, rfl⟩ | ⟨-, hk'⟩
        · exact ⟨page, hk, rfl⟩
        · exact ⟨page', hk', rfl⟩
      rw [← hbuf]
      refine (hs.custody _ _ _ (.packed hx)).mono (fun _ h => h) ?_
      rintro p (hp | ⟨a', ha', hp⟩ | hp | hp)
      · exact .inl hp
      · exact .inr (.inl ⟨a', Multiset.mem_cons_of_mem ha', hp⟩)
      · exact .inr (.inr (.inl hp))
      · exact .inr (.inr (.inr hp))
  | @current c page' hc hk' =>
      obtain ⟨x, hx, hbuf⟩ : ∃ x, s.packed.get c.packed = some x ∧ x.buf = page'.buf := by
        rcases (Arena.get_set_eq_some hk).1 hk' with ⟨hck, rfl⟩ | ⟨-, hk'⟩
        · exact ⟨page, hck ▸ hk, rfl⟩
        · exact ⟨page', hk', rfl⟩
      rw [← hbuf]
      exact hs.custody _ _ _ (.current hc hx)

end Users

/-! ## References to a page -/

section References

variable {c : OpenPage} {n : ℕ}

/-- The owner's reference to its open page becomes one it is going to drop. -/
lemma Sound.retire (hs : Sound s w tr) (hc : s.current = some c) :
    Sound { s with
      current := none
      dropping := (c.packed, ownerAgent) ::ₘ s.dropping } w tr := by
  have ha := hs.arranged
  refine ⟨{ ha with
    current := by simp
    strong := ?_
    dropping := ?_ }, ?_, hs.raceFree⟩
  · intro k page hk
    rw [ha.strong k page hk, State.references, State.references, Multiset.countP_cons, hc]
    simp
    omega
  · intro x hx
    rcases Multiset.mem_cons.1 hx with rfl | hx
    · exact (ha.current c hc).1
    · exact ha.dropping x hx
  · intro b P ps hclaim
    cases hclaim with
    | pool hb => exact hs.custody _ _ _ (.pool (hb.congr rfl))
    | building hi hu => exact hs.custody _ _ _ (.building hi hu)
    | reading hi hu ha => exact hs.custody _ _ _ (.reading hi hu ha)
    | page hi hp => exact hs.custody _ _ _ (.page hi hp)
    | @packed k page hk =>
        refine (hs.custody _ _ _ (.packed hk)).mono (fun _ h => h) ?_
        rintro p (hp | ⟨a', ha', hp⟩ | ⟨hcur, hp⟩ | hp)
        · exact .inl hp
        · exact .inr (.inl ⟨a', Multiset.mem_cons_of_mem ha', hp⟩)
        · rw [hc] at hcur
          obtain rfl : c.packed = k := Option.some.inj hcur
          exact .inr (.inl ⟨ownerAgent, Multiset.mem_cons_self _ _, hp⟩)
        · exact .inr (.inr (.inr hp))
    | current hc' => exact absurd hc' (by simp)

/-- The write offset of the open page moves up. -/
lemma Sound.advance (hs : Sound s w tr) (hc : s.current = some c) (hn : c.writeOffset ≤ n) :
    Sound { s with current := some ⟨c.packed, n⟩ } w tr := by
  have ha := hs.arranged
  refine ⟨{ ha with
    current := ?_
    strong := ?_ }, ?_, hs.raceFree⟩
  · rintro c' hc'
    obtain rfl := Option.some.inj hc'
    exact ⟨(ha.current c hc).1, fun i h hi hp => ((ha.current c hc).2 i h hi hp).trans hn⟩
  · intro k page hk
    rw [ha.strong k page hk, State.references, State.references, hc]
    rfl
  · intro b P ps hclaim
    cases hclaim with
    | pool hb => exact hs.custody _ _ _ (.pool (hb.congr rfl))
    | building hi hu => exact hs.custody _ _ _ (.building hi hu)
    | reading hi hu ha => exact hs.custody _ _ _ (.reading hi hu ha)
    | page hi hp => exact hs.custody _ _ _ (.page hi hp)
    | @packed k page hk =>
        refine (hs.custody _ _ _ (.packed hk)).mono (fun _ h => h) ?_
        rintro p (hp | hp | ⟨hcur, hp⟩ | hp)
        · exact .inl hp
        · exact .inr (.inl hp)
        · rw [hc] at hcur
          exact .inr (.inr (.inl ⟨hcur, hp⟩))
        · exact .inr (.inr (.inr hp))
    | current hc' hk =>
        obtain rfl := Option.some.inj hc'
        exact (hs.custody _ _ _ (.current hc hk)).mono
          (fun _ h => h.mono ⟨rfl, hn, le_rfl⟩) subset_rfl

/-- A reference of the owner goes into a new chunk, whose bytes nobody else has. -/
lemma Sound.attach (hs : Sound s w tr) (span : Span Addr) (hk : s.packed.get k = some page)
    (hmem : (k, ownerAgent) ∈ s.dropping) (hspan : span.Within (s.whole page.buf))
    (hapart : ∀ i h, s.handles.get i = some h → ¬ h.span.Overlaps span)
    (hcur : ∀ c, s.current = some c → c.packed = k → span.hi ≤ c.writeOffset)
    (hknown : Known tr (·.Touches span) {.agent ownerAgent}) :
    Sound { s with
      dropping := s.dropping.erase (k, ownerAgent)
      handles := s.handles.push ⟨span, some k, .builder s.agents⟩
      agents := s.agents + 1 } w (tr ++ [.spawn ownerAgent s.agents]) := by
  have ha := hs.arranged
  have hs' := hs.orders (.spawn ownerAgent s.agents) trivial
  have hblock : span.block = page.buf := hspan.1
  refine ⟨{ ha with
    held := ?_
    chunk := ?_
    within := ?_
    apart := ?_
    current := ?_
    strong := ?_
    dropping := fun x hx => ha.dropping x (Multiset.mem_of_mem_erase hx) }, ?_, hs'.raceFree⟩
  · rw [← ha.held, State.heldBuffers, State.heldBuffers, Arena.sum_push]
    simp [Handle.own]
  · intro i h k' hi hp
    rcases Arena.get_push_eq_some.1 hi with ⟨rfl, rfl⟩ | ⟨-, hi⟩
    · obtain rfl : k = k' := Option.some.inj hp
      exact ⟨page, hk, hblock.symm⟩
    · exact ha.chunk i h k' hi hp
  · intro i h hi
    rcases Arena.get_push_eq_some.1 hi with ⟨rfl, rfl⟩ | ⟨-, hi⟩
    · exact ⟨rfl, hspan.2.1, hspan.2.2⟩
    · exact ha.within i h hi
  · intro i j h h' hne hi hj
    rcases Arena.get_push_eq_some.1 hi with ⟨rfl, rfl⟩ | ⟨-, hi⟩
    · rcases Arena.get_push_eq_some.1 hj with ⟨rfl, rfl⟩ | ⟨-, hj⟩
      · exact absurd rfl hne
      · exact fun hover => hapart j h' hj hover.symm
    · rcases Arena.get_push_eq_some.1 hj with ⟨rfl, rfl⟩ | ⟨-, hj⟩
      · exact hapart i h hi
      · exact ha.apart i j h h' hne hi hj
  · intro c hc
    refine ⟨(ha.current c hc).1, fun i h hi hp => ?_⟩
    rcases Arena.get_push_eq_some.1 hi with ⟨rfl, rfl⟩ | ⟨-, hi⟩
    · exact hcur c hc (Option.some.inj hp).symm
    · exact (ha.current c hc).2 i h hi hp
  · intro k' page' hk'
    have hcount : (s.dropping.erase (k, ownerAgent)).countP (fun x => x.1 = k') +
        (if k = k' then 1 else 0) = s.dropping.countP (fun x => x.1 = k') := by
      conv_rhs => rw [← Multiset.cons_erase hmem]
      rw [Multiset.countP_cons]
    rw [ha.strong k' page' hk', State.references, State.references, Arena.sum_push, ← hcount]
    simp only [Handle.refers, Option.some.injEq]
    omega
  · intro b P ps hclaim
    cases hclaim with
    | pool hb => exact hs'.custody _ _ _ (.pool (hb.congr rfl))
    | building hi hu =>
        rcases Arena.get_push_eq_some.1 hi with ⟨rfl, rfl⟩ | ⟨-, hi⟩
        · obtain rfl := Users.builder.inj hu
          exact hknown.spawn (fun _ h => .inl h) rfl
        · exact hs'.custody _ _ _ (.building hi hu)
    | reading hi hu ha' =>
        rcases Arena.get_push_eq_some.1 hi with ⟨rfl, rfl⟩ | ⟨-, hi⟩
        · exact absurd hu (by simp)
        · exact hs'.custody _ _ _ (.reading hi hu ha')
    | page hi hp =>
        rcases Arena.get_push_eq_some.1 hi with ⟨rfl, rfl⟩ | ⟨-, hi⟩
        · exact absurd hp (by simp)
        · exact hs'.custody _ _ _ (.page hi hp)
    | @packed k' page' hk' =>
        -- What the owner knew of the page as the holder of `k` is now known by its new user.
        have hplaces : ∀ p ∈ s.packedPlaces k', (p = .agent ownerAgent ∧ k' = k) ∨
            p ∈ State.packedPlaces { s with
              dropping := s.dropping.erase (k, ownerAgent)
              handles := s.handles.push ⟨span, some k, .builder s.agents⟩
              agents := s.agents + 1 } k' := by
          rintro p (hp | ⟨a', ha', hp⟩ | hp | ⟨i, h, hi, hp, hmem⟩)
          · exact .inr (.inl hp)
          · by_cases heq : (k', a') = (k, ownerAgent)
            · exact .inl ⟨hp.trans (congrArg (fun x => Place.agent x.2) heq), congrArg Prod.fst heq⟩
            · exact .inr (.inr (.inl ⟨a', (Multiset.mem_erase_of_ne heq).2 ha', hp⟩))
          · exact .inr (.inr (.inr (.inl hp)))
          · exact .inr (.inr (.inr (.inr ⟨i, h, Arena.get_push_of_get hi, hp, hmem⟩)))
        by_cases heq : k' = k
        · refine (hs.custody _ _ _ (.packed hk')).spawn
            (fun p hp => (hplaces p hp).imp_left And.left)
            (.inr (.inr (.inr ⟨_, _, Arena.get_push_self, ?_, rfl⟩)))
          rw [heq]
        · exact (hs'.custody _ _ _ (.packed hk')).mono (fun _ h => h)
            fun p hp => (hplaces p hp).resolve_left fun h => heq h.2
    | current hc hk' => exact hs'.custody _ _ _ (.current hc hk')

end References

/-! ## The end of `allocate_raw_page` -/

section Return

variable {pool : PoolInterleaving.State} {heads : Finset Addr}

/-- A buffer that is handed out was the owner's, and the other claims stay. -/
lemma handOut_eq_some (hw : w.step (.handOut b) = some w') :
    b ∈ w.owned ∧ w' = { w with owned := w.owned.erase b, held := b ::ₘ w.held } := by
  rw [Whereabouts.step] at hw
  split at hw
  · exact ⟨‹_›, (Option.some.inj hw).symm⟩
  · exact absurd hw (by simp)

lemma PoolClaim.of_handOut (hw : w.step (.handOut b) = some w') {b' : Addr}
    (hb : PoolClaim s w' b' ps) : PoolClaim s w b' ps := by
  obtain ⟨-, rfl⟩ := handOut_eq_some hw
  cases hb with
  | owned hb => exact .owned (Multiset.mem_of_mem_erase hb)
  | queued hb => exact .queued hb
  | pushed hb => exact .pushed hb
  | unused hb => exact .unused hb

/-- The buffer goes into a new `PageBuilder`. -/
lemma Sound.addPage (hs : Sound s w tr) (hw : w.step (.handOut b) = some w')
    (hisAt : pool.IsAt w') :
    Sound { s with
      pool := pool
      heads := heads
      handles := s.handles.push ⟨s.whole b, none, .builder s.agents⟩
      agents := s.agents + 1 } w' (tr ++ [.spawn ownerAgent s.agents]) := by
  have ha := hs.arranged
  have hs' := hs.orders (.spawn ownerAgent s.agents) trivial
  obtain ⟨howned, rfl⟩ := handOut_eq_some hw
  have hnew : ∀ i h, s.handles.get i = some h → h.span.block ≠ b := by
    rintro i h hi rfl
    exact (ha.isAt.shared.of_owned howned).2.1 (ha.block_held hi)
  have hknown := hs.custody _ _ _ (.pool (.owned howned))
  refine ⟨{ ha with
    isAt := hisAt
    held := ?_
    chunk := ?_
    within := ?_
    apart := ?_
    current := ?_
    strong := ?_ }, ?_, hs'.raceFree⟩
  · rw [State.heldBuffers, Arena.sum_push, ← ha.held, State.heldBuffers, ← Multiset.singleton_add]
    simp only [Handle.own, State.whole]
    rw [add_right_comm, add_comm]
  · intro i h k hi hp
    rcases Arena.get_push_eq_some.1 hi with ⟨rfl, rfl⟩ | ⟨-, hi⟩
    · exact absurd hp (by simp)
    · exact ha.chunk i h k hi hp
  · intro i h hi
    rcases Arena.get_push_eq_some.1 hi with ⟨rfl, rfl⟩ | ⟨-, hi⟩
    · exact ⟨rfl, le_rfl, le_rfl⟩
    · exact ha.within i h hi
  · intro i j h h' hne hi hj
    rcases Arena.get_push_eq_some.1 hi with ⟨rfl, rfl⟩ | ⟨-, hi⟩
    · rcases Arena.get_push_eq_some.1 hj with ⟨rfl, rfl⟩ | ⟨-, hj⟩
      · exact absurd rfl hne
      · exact fun hover => hnew j h' hj hover.1.symm
    · rcases Arena.get_push_eq_some.1 hj with ⟨rfl, rfl⟩ | ⟨-, hj⟩
      · exact fun hover => hnew i h hi hover.1
      · exact ha.apart i j h h' hne hi hj
  · intro c hc
    refine ⟨(ha.current c hc).1, fun i h hi hp => ?_⟩
    rcases Arena.get_push_eq_some.1 hi with ⟨rfl, rfl⟩ | ⟨-, hi⟩
    · exact absurd hp (by simp)
    · exact (ha.current c hc).2 i h hi hp
  · intro k page hk
    rw [ha.strong k page hk, State.references, State.references, Arena.sum_push]
    simp [Handle.refers]
  · intro b' P ps hclaim
    cases hclaim with
    | pool hb => exact hs'.custody _ _ _ (.pool ((hb.of_handOut hw).congr rfl))
    | building hi hu =>
        rcases Arena.get_push_eq_some.1 hi with ⟨rfl, rfl⟩ | ⟨-, hi⟩
        · obtain rfl := Users.builder.inj hu
          exact hknown.spawn (fun _ h => .inl h) rfl
        · exact hs'.custody _ _ _ (.building hi hu)
    | reading hi hu ha' =>
        rcases Arena.get_push_eq_some.1 hi with ⟨rfl, rfl⟩ | ⟨-, hi⟩
        · exact absurd hu (by simp)
        · exact hs'.custody _ _ _ (.reading hi hu ha')
    | page hi hp =>
        rcases Arena.get_push_eq_some.1 hi with ⟨rfl, rfl⟩ | ⟨-, hi⟩
        · exact hknown.spawn (fun _ h => .inl h) rfl
        · exact hs'.custody _ _ _ (.page hi hp)
    | packed hk =>
        refine (hs'.custody _ _ _ (.packed hk)).mono (fun _ h => h) ?_
        rintro p (hp | hp | hp | ⟨i, h, hi, hp, hmem⟩)
        · exact .inl hp
        · exact .inr (.inl hp)
        · exact .inr (.inr (.inl hp))
        · exact .inr (.inr (.inr ⟨i, h, Arena.get_push_of_get hi, hp, hmem⟩))
    | current hc hk => exact hs'.custody _ _ _ (.current hc hk)

lemma Arranged.references_next (ha : Arranged s w) : s.references s.packed.next = 0 := by
  have hnone := s.packed.get_of_le s.packed.next le_rfl
  have h₁ : s.handles.sum (Handle.refers s.packed.next) = 0 := by
    refine Arena.sum_eq_zero fun i h hi => ?_
    rw [Handle.refers, if_neg]
    intro hp
    obtain ⟨page, hk, -⟩ := ha.chunk i h _ hi hp
    rw [hnone] at hk
    exact absurd hk (by simp)
  have h₂ : s.dropping.countP (fun x => x.1 = s.packed.next) = 0 := by
    refine Multiset.countP_eq_zero.2 fun x hx heq => ?_
    have hsome := ha.dropping x hx
    rw [heq, hnone] at hsome
    exact absurd hsome (by simp)
  have h₃ : s.current.map OpenPage.packed ≠ some s.packed.next := by
    intro hcur
    obtain ⟨c, hc, hk⟩ := Option.map_eq_some_iff.1 hcur
    have hsome := (ha.current c hc).1
    rw [hk, hnone] at hsome
    exact absurd hsome (by simp)
  rw [State.references, h₁, h₂, if_neg h₃]

/-- The buffer goes into a new `PackedPage`, to which the owner has the reference. -/
lemma Sound.newPacked (hs : Sound s w tr) (heads : Finset Addr) (hw : w.step (.handOut b) = some w')
    (hisAt : pool.IsAt w') :
    Sound { s with
      pool := pool
      heads := heads
      packed := s.packed.push ⟨b, 1⟩
      dropping := (s.packed.next, ownerAgent) ::ₘ s.dropping } w' tr := by
  have ha := hs.arranged
  have hnext := ha.references_next
  obtain ⟨howned, rfl⟩ := handOut_eq_some hw
  have hsome : ∀ k, (s.packed.get k).isSome → ((s.packed.push ⟨b, 1⟩).get k).isSome := by
    intro k hk
    obtain ⟨page, hpage⟩ := Option.isSome_iff_exists.1 hk
    rw [Arena.get_push_of_get hpage]
    rfl
  refine ⟨{ ha with
    isAt := hisAt
    held := ?_
    chunk := ?_
    current := fun c hc => ⟨hsome _ (ha.current c hc).1, (ha.current c hc).2⟩
    strong := ?_
    live := ?_
    dropping := ?_ }, ?_, hs.raceFree⟩
  · rw [State.heldBuffers, Arena.sum_push, ← ha.held, State.heldBuffers]
    show _ + (_ + {b}) = b ::ₘ (_ + _)
    rw [← add_assoc, add_comm, Multiset.singleton_add]
  · intro i h k hi hp
    obtain ⟨page, hk, hbuf⟩ := ha.chunk i h k hi hp
    exact ⟨page, Arena.get_push_of_get hk, hbuf⟩
  · intro k page hk
    rcases Arena.get_push_eq_some.1 hk with ⟨rfl, rfl⟩ | ⟨hne, hk⟩
    · rw [State.references] at hnext ⊢
      rw [Multiset.countP_cons]
      dsimp only
      rw [if_pos rfl]
      omega
    · rw [ha.strong k page hk, State.references, State.references, Multiset.countP_cons]
      dsimp only
      rw [if_neg (Ne.symm hne), add_zero]
  · intro k page hk
    rcases Arena.get_push_eq_some.1 hk with ⟨rfl, rfl⟩ | ⟨-, hk⟩
    · exact Nat.one_pos
    · exact ha.live k page hk
  · intro x hx
    rcases Multiset.mem_cons.1 hx with rfl | hx
    · rw [Arena.get_push_self]
      rfl
    · exact hsome _ (ha.dropping x hx)
  · intro b' P ps hclaim
    cases hclaim with
    | pool hb => exact hs.custody _ _ _ (.pool ((hb.of_handOut hw).congr rfl))
    | building hi hu => exact hs.custody _ _ _ (.building hi hu)
    | reading hi hu ha' => exact hs.custody _ _ _ (.reading hi hu ha')
    | page hi hp => exact hs.custody _ _ _ (.page hi hp)
    | packed hk =>
        rcases Arena.get_push_eq_some.1 hk with ⟨rfl, rfl⟩ | ⟨-, hk⟩
        · refine (hs.custody _ _ _ (.pool (.owned howned))).mono (fun _ h => h) ?_
          rintro p rfl
          exact .inr (.inl ⟨ownerAgent, Multiset.mem_cons_self _ _, rfl⟩)
        · refine (hs.custody _ _ _ (.packed hk)).mono (fun _ h => h) ?_
          rintro p (hp | ⟨a', ha', hp⟩ | hp | hp)
          · exact .inl hp
          · exact .inr (.inl ⟨a', Multiset.mem_cons_of_mem ha', hp⟩)
          · exact .inr (.inr (.inl hp))
          · exact .inr (.inr (.inr hp))
    | @current c page hc hk =>
        obtain ⟨page', hk'⟩ := Option.isSome_iff_exists.1 (ha.current c hc).1
        obtain rfl := Option.some.inj ((Arena.get_push_of_get hk').symm.trans hk)
        exact hs.custody _ _ _ (.current hc hk')

/-- A reference of the owner to a page without chunks becomes its open page. -/
lemma Sound.openPage (hs : Sound s w tr) (hk : s.packed.get k = some page)
    (hmem : (k, ownerAgent) ∈ s.dropping) (hcur : s.current = none)
    (hempty : ∀ i h, s.handles.get i = some h → h.packed ≠ some k)
    (hknown : Known tr (·.Touches (s.whole page.buf)) {.agent ownerAgent}) :
    Sound { s with
      dropping := s.dropping.erase (k, ownerAgent)
      current := some ⟨k, 0⟩ } w tr := by
  have ha := hs.arranged
  refine ⟨{ ha with
    current := ?_
    strong := ?_
    dropping := fun x hx => ha.dropping x (Multiset.mem_of_mem_erase hx) }, ?_, hs.raceFree⟩
  · intro c hc
    obtain rfl := Option.some.inj hc
    exact ⟨by rw [hk]; rfl, fun i h hi hp => absurd hp (hempty i h hi)⟩
  · intro k' page' hk'
    have hcount : (s.dropping.erase (k, ownerAgent)).countP (fun x => x.1 = k') +
        (if k = k' then 1 else 0) = s.dropping.countP (fun x => x.1 = k') := by
      conv_rhs => rw [← Multiset.cons_erase hmem]
      rw [Multiset.countP_cons]
    rw [ha.strong k' page' hk', State.references, State.references, ← hcount, hcur]
    simp only [Option.map_none, Option.map_some, Option.some.injEq, reduceCtorEq, if_false]
    omega
  · intro b P ps hclaim
    cases hclaim with
    | pool hb => exact hs.custody _ _ _ (.pool (hb.congr rfl))
    | building hi hu => exact hs.custody _ _ _ (.building hi hu)
    | reading hi hu ha' => exact hs.custody _ _ _ (.reading hi hu ha')
    | page hi hp => exact hs.custody _ _ _ (.page hi hp)
    | @packed k' page' hk' =>
        refine (hs.custody _ _ _ (.packed hk')).mono (fun _ h => h) ?_
        rintro p (hp | ⟨a', ha', hp⟩ | ⟨hp, -⟩ | hp)
        · exact .inl hp
        · by_cases heq : (k', a') = (k, ownerAgent)
          · obtain ⟨rfl, rfl⟩ := Prod.mk.inj heq
            exact .inr (.inr (.inl ⟨rfl, hp⟩))
          · exact .inr (.inl ⟨a', (Multiset.mem_erase_of_ne heq).2 ha', hp⟩)
        · rw [hcur] at hp
          exact absurd hp (by simp)
        · exact .inr (.inr (.inr hp))
    | current hc hk' =>
        obtain rfl := Option.some.inj hc
        obtain rfl := Option.some.inj (hk.symm.trans hk')
        exact hknown

end Return

/-! ## The end of a handle -/

section Drop

variable {pool : PoolInterleaving.State} {heads : Finset Addr}
  {tr' : List (Action Agent Atomic Addr)}

lemma drop_eq_some (hw : w.step (.drop b) = some w') :
    b ∈ w.held ∧ w' = { w with held := w.held.erase b, pushed := b ::ₘ w.pushed } := by
  rw [Whereabouts.step] at hw
  split at hw
  · exact ⟨‹_›, (Option.some.inj hw).symm⟩
  · exact absurd hw (by simp)

/-- Who calls `push_return` knows of all accesses to the buffer. -/
lemma Custody.known_drop (hs : Sound s w tr) (hw : w.step (.drop b) = some w')
    (ht : t.pusher = Function.update s.pusher b a)
    (hknown : Known tr (·.Touches (s.whole b)) {.agent a}) {b' : Addr}
    (hb : PoolClaim t w' b' ps) : Known tr (·.Touches (s.whole b')) ps := by
  obtain ⟨hheld, rfl⟩ := drop_eq_some hw
  cases hb with
  | owned hb => exact hs.custody _ _ _ (.pool (.owned hb))
  | queued hb => exact hs.custody _ _ _ (.pool (.queued hb))
  | unused hb => exact hs.custody _ _ _ (.pool (.unused hb))
  | pushed hb =>
      rw [ht]
      rcases Multiset.mem_cons.1 hb with rfl | hb
      · rw [Function.update_self]
        exact hknown
      · have hne : b' ≠ b := fun heq =>
          (hs.arranged.isAt.shared.of_pushed hb).2.2.1 (heq ▸ hheld)
        rw [Function.update_of_ne hne]
        exact hs.custody _ _ _ (.pool (.pushed hb))

/-- The fields of a chunk are dropped; its last user has the reference to the page. -/
lemma Sound.eraseChunk (hs : Sound s w tr') (hold : Custody s w tr)
    (hi : s.handles.get i = some h) (hp : h.packed = some k)
    (hpass : ∀ P ps qs, Known tr P ps → (∀ p ∈ ps, p ∈ qs ∨ p ∈ h.places i) →
      .agent a ∈ qs → Known tr' P qs) :
    Sound { s with
      handles := s.handles.erase i
      dropping := (k, a) ::ₘ s.dropping } w tr' := by
  have ha := hs.arranged
  refine ⟨{ ha with
    held := ?_
    chunk := fun j h' k' hj => ha.chunk j h' k' (Arena.get_of_get_erase hj).2
    within := fun j h' hj => ha.within j h' (Arena.get_of_get_erase hj).2
    apart := fun j j' h₁ h₂ hne hj hj' => ha.apart j j' h₁ h₂ hne (Arena.get_of_get_erase hj).2
      (Arena.get_of_get_erase hj').2
    current := fun c hc => ⟨(ha.current c hc).1, fun j h' hj =>
      (ha.current c hc).2 j h' (Arena.get_of_get_erase hj).2⟩
    strong := ?_
    dropping := ?_ }, ?_, hs.raceFree⟩
  · have hsum := Arena.sum_erase (f := Handle.own) hi
    rw [Handle.own, hp, add_zero] at hsum
    rw [← ha.held, State.heldBuffers, State.heldBuffers, hsum]
  · intro k' page hk'
    have hsum := Arena.sum_erase (f := Handle.refers k') hi
    rw [Handle.refers, hp] at hsum
    rw [ha.strong k' page hk', State.references, State.references, ← hsum, Multiset.countP_cons]
    simp only [Option.some.injEq]
    omega
  · intro x hx
    rcases Multiset.mem_cons.1 hx with rfl | hx
    · obtain ⟨page, hk, -⟩ := ha.chunk i h k hi hp
      rw [hk]
      rfl
    · exact ha.dropping x hx
  · intro b P ps hclaim
    cases hclaim with
    | pool hb => exact hs.custody _ _ _ (.pool (hb.congr rfl))
    | building hj hu => exact hs.custody _ _ _ (.building (Arena.get_of_get_erase hj).2 hu)
    | reading hj hu ha' => exact hs.custody _ _ _ (.reading (Arena.get_of_get_erase hj).2 hu ha')
    | page hj hp' => exact hs.custody _ _ _ (.page (Arena.get_of_get_erase hj).2 hp')
    | @packed k' page hk' =>
        have hplaces : ∀ p ∈ s.packedPlaces k', (p ∈ State.packedPlaces { s with
            handles := s.handles.erase i
            dropping := (k, a) ::ₘ s.dropping } k') ∨ p ∈ h.places i ∧ k' = k := by
          rintro p (hp' | ⟨a', ha', hp'⟩ | hp' | ⟨j, h', hj, hp', hmem⟩)
          · exact .inl (.inl hp')
          · exact .inl (.inr (.inl ⟨a', Multiset.mem_cons_of_mem ha', hp'⟩))
          · exact .inl (.inr (.inr (.inl hp')))
          · by_cases hne : j = i
            · subst hne
              obtain rfl := Option.some.inj (hi.symm.trans hj)
              exact .inr ⟨hmem, Option.some.inj (hp'.symm.trans hp)⟩
            · refine .inl (.inr (.inr (.inr ⟨j, h', ?_, hp', hmem⟩)))
              rw [Arena.get_erase, if_neg hne, hj]
        by_cases heq : k' = k
        · subst heq
          exact hpass _ _ _ (hold _ _ _ (.packed hk'))
            (fun p hmem => (hplaces p hmem).imp_right And.left)
            (.inr (.inl ⟨a, Multiset.mem_cons_self _ _, rfl⟩))
        · exact (hs.custody _ _ _ (.packed hk')).mono (fun _ h => h)
            fun p hmem => (hplaces p hmem).resolve_right fun h => heq h.2
    | current hc hk => exact hs.custody _ _ _ (.current hc hk)

/-- The fields of a page are dropped; its last user calls `push_return`. -/
lemma Sound.erasePage (hs : Sound s w tr') (hi : s.handles.get i = some h) (hp : h.packed = none)
    (hw : w.step (.drop h.span.block) = some w') (hisAt : pool.IsAt w')
    (hknown : Known tr' (·.Touches (s.whole h.span.block)) {.agent a}) :
    Sound { s with
      pool := pool
      heads := heads
      handles := s.handles.erase i
      pusher := Function.update s.pusher h.span.block a } w' tr' := by
  have ha := hs.arranged
  have hdrop := hw
  obtain ⟨-, rfl⟩ := drop_eq_some hw
  refine ⟨{ ha with
    isAt := hisAt
    held := ?_
    chunk := fun j h' k' hj => ha.chunk j h' k' (Arena.get_of_get_erase hj).2
    within := fun j h' hj => ha.within j h' (Arena.get_of_get_erase hj).2
    apart := fun j j' h₁ h₂ hne hj hj' => ha.apart j j' h₁ h₂ hne (Arena.get_of_get_erase hj).2
      (Arena.get_of_get_erase hj').2
    current := fun c hc => ⟨(ha.current c hc).1, fun j h' hj =>
      (ha.current c hc).2 j h' (Arena.get_of_get_erase hj).2⟩
    strong := ?_ }, ?_, hs.raceFree⟩
  · have hsum := Arena.sum_erase (f := Handle.own) hi
    rw [show h.own = {h.span.block} by rw [Handle.own, hp]] at hsum
    show (s.handles.erase i).sum Handle.own + _ = w.held.erase h.span.block
    rw [← ha.held, State.heldBuffers, ← hsum, add_right_comm,
      add_comm _ ({h.span.block} : Multiset Addr),
      Multiset.singleton_add, Multiset.erase_cons_head]
  · intro k page hk
    have hsum := Arena.sum_erase (f := Handle.refers k) hi
    rw [Handle.refers, hp, if_neg (by simp), add_zero] at hsum
    rw [ha.strong k page hk, State.references, State.references, ← hsum]
  · intro b P ps hclaim
    cases hclaim with
    | pool hb => exact Custody.known_drop hs hdrop rfl hknown hb
    | building hj hu => exact hs.custody _ _ _ (.building (Arena.get_of_get_erase hj).2 hu)
    | reading hj hu ha' => exact hs.custody _ _ _ (.reading (Arena.get_of_get_erase hj).2 hu ha')
    | page hj hp' => exact hs.custody _ _ _ (.page (Arena.get_of_get_erase hj).2 hp')
    | @packed k page hk =>
        refine (hs.custody _ _ _ (.packed hk)).mono (fun _ h => h) ?_
        rintro p (hp' | hp' | hp' | ⟨j, h', hj, hp', hmem⟩)
        · exact .inl hp'
        · exact .inr (.inl hp')
        · exact .inr (.inr (.inl hp'))
        · refine .inr (.inr (.inr ⟨j, h', ?_, hp', hmem⟩))
          rw [Arena.get_erase, if_neg, hj]
          rintro rfl
          obtain rfl := Option.some.inj (hi.symm.trans hj)
          rw [hp] at hp'
          exact absurd hp' (by simp)
    | current hc hk => exact hs.custody _ _ _ (.current hc hk)

/-- A reference to a page is dropped that is not the last. -/
lemma Sound.dropReference (hs : Sound s w tr) (hk : s.packed.get k = some page)
    (hmem : (k, a) ∈ s.dropping) (hone : page.strong ≠ 1) :
    Sound { s with
      dropping := s.dropping.erase (k, a)
      packed := s.packed.set k { page with strong := page.strong - 1 } } w
      (tr ++ [.rmw a (.packed k) true false]) := by
  have hs' := hs.orders (.rmw a (.packed k) true false) trivial
  have ha := hs.arranged
  have hcount : ∀ k', (s.dropping.erase (k, a)).countP (fun x => x.1 = k') +
      (if k = k' then 1 else 0) = s.dropping.countP (fun x => x.1 = k') := by
    intro k'
    conv_rhs => rw [← Multiset.cons_erase hmem]
    rw [Multiset.countP_cons]
  have hold : ∀ {k' page'}, (s.packed.set k { page with strong := page.strong - 1 }).get k' =
      some page' → ∃ x, s.packed.get k' = some x ∧ x.buf = page'.buf := by
    intro k' page' hk'
    rcases (Arena.get_set_eq_some hk).1 hk' with ⟨rfl, rfl⟩ | ⟨-, hk'⟩
    · exact ⟨page, hk, rfl⟩
    · exact ⟨page', hk', rfl⟩
  have hsome : ∀ k', (s.packed.get k').isSome →
      ((s.packed.set k { page with strong := page.strong - 1 }).get k').isSome := by
    intro k' hk'
    rw [Arena.get_set hk]
    split
    · rfl
    · exact hk'
  refine ⟨{ ha with
    held := ?_
    chunk := ?_
    current := fun c hc => ⟨hsome _ (ha.current c hc).1, (ha.current c hc).2⟩
    strong := ?_
    live := ?_
    dropping := fun x hx => hsome _ (ha.dropping x (Multiset.mem_of_mem_erase hx)) }, ?_,
    hs'.raceFree⟩
  · rw [← ha.held, State.heldBuffers, State.heldBuffers]
    exact congrArg (s.handles.sum Handle.own + ·) (Arena.sum_set_of_eq hk rfl)
  · intro i h k' hi hp
    obtain ⟨x, hx, hbuf⟩ := ha.chunk i h k' hi hp
    by_cases heq : k' = k
    · subst heq
      obtain rfl := Option.some.inj (hk.symm.trans hx)
      exact ⟨_, Arena.get_set_self hk, hbuf⟩
    · exact ⟨x, (Arena.get_set_of_ne heq).trans hx, hbuf⟩
  · intro k' page' hk'
    rcases (Arena.get_set_eq_some hk).1 hk' with ⟨rfl, rfl⟩ | ⟨hne, hk'⟩
    · have hstrong := ha.strong k' page hk
      have hcount := hcount k'
      rw [if_pos rfl] at hcount
      rw [State.references] at hstrong ⊢
      dsimp only
      omega
    · have hcount := hcount k'
      rw [if_neg (Ne.symm hne), add_zero] at hcount
      rw [ha.strong k' page' hk', State.references, State.references, hcount]
  · intro k' page' hk'
    rcases (Arena.get_set_eq_some hk).1 hk' with ⟨rfl, rfl⟩ | ⟨-, hk'⟩
    · have hlive := ha.live k' page hk
      dsimp only
      omega
    · exact ha.live k' page' hk'
  · intro b P ps hclaim
    cases hclaim with
    | pool hb => exact hs'.custody _ _ _ (.pool (hb.congr rfl))
    | building hi hu => exact hs'.custody _ _ _ (.building hi hu)
    | reading hi hu ha' => exact hs'.custody _ _ _ (.reading hi hu ha')
    | page hi hp => exact hs'.custody _ _ _ (.page hi hp)
    | @packed k' page' hk' =>
        obtain ⟨x, hx, hbuf⟩ := hold hk'
        rw [← hbuf]
        have hplaces : ∀ p ∈ s.packedPlaces k', (p = .agent a ∧ k' = k) ∨
            p ∈ State.packedPlaces { s with
              dropping := s.dropping.erase (k, a)
              packed := s.packed.set k { page with strong := page.strong - 1 } } k' := by
          rintro p (hp | ⟨a', ha', hp⟩ | hp | hp)
          · exact .inr (.inl hp)
          · by_cases heq : (k', a') = (k, a)
            · obtain ⟨rfl, rfl⟩ := Prod.mk.inj heq
              exact .inl ⟨hp, rfl⟩
            · exact .inr (.inr (.inl ⟨a', (Multiset.mem_erase_of_ne heq).2 ha', hp⟩))
          · exact .inr (.inr (.inr (.inl hp)))
          · exact .inr (.inr (.inr (.inr hp)))
        by_cases heq : k' = k
        · subst heq
          exact (hs.custody _ _ _ (.packed hx)).release
            (fun p hp => (hplaces p hp).imp_left And.left) (.inl rfl)
        · exact (hs'.custody _ _ _ (.packed hx)).mono (fun _ h => h)
            fun p hp => (hplaces p hp).resolve_left fun h => heq h.2
    | @current c page' hc hk' =>
        obtain ⟨x, hx, hbuf⟩ := hold hk'
        rw [← hbuf]
        exact hs'.custody _ _ _ (.current hc hx)

/-- The last reference to a page is dropped: whoever had one has left what it knew. -/
lemma Sound.dropLast (hs : Sound s w tr) (hk : s.packed.get k = some page)
    (hmem : (k, a) ∈ s.dropping) (hone : page.strong = 1)
    (hw : w.step (.drop page.buf) = some w') (hisAt : pool.IsAt w') :
    Sound { s with
      pool := pool
      heads := heads
      dropping := s.dropping.erase (k, a)
      packed := s.packed.erase k
      pusher := Function.update s.pusher page.buf a } w'
      (tr ++ [.rmw a (.packed k) true true]) := by
  have hs' := hs.orders (.rmw a (.packed k) true true) trivial
  have ha := hs.arranged
  have hcount : ∀ k', (s.dropping.erase (k, a)).countP (fun x => x.1 = k') +
      (if k = k' then 1 else 0) = s.dropping.countP (fun x => x.1 = k') := by
    intro k'
    conv_rhs => rw [← Multiset.cons_erase hmem]
    rw [Multiset.countP_cons]
  have hreferences := ha.strong k page hk
  have hself := hcount k
  rw [if_pos rfl] at hself
  rw [hone, State.references] at hreferences
  have hnone : ∀ i h, s.handles.get i = some h → h.packed ≠ some k := by
    intro i h hi hp
    have hle := Arena.le_sum (f := Handle.refers k) hi
    rw [Handle.refers, if_pos hp] at hle
    omega
  have hcur : s.current.map OpenPage.packed ≠ some k := by
    intro hc
    rw [if_pos hc] at hreferences
    omega
  have hrest : ∀ x ∈ s.dropping.erase (k, a), x.1 ≠ k := by
    have hzero : (s.dropping.erase (k, a)).countP (fun x => x.1 = k) = 0 := by omega
    exact Multiset.countP_eq_zero.1 hzero
  have hdrop := hw
  obtain ⟨-, rfl⟩ := drop_eq_some hw
  refine ⟨{ ha with
    isAt := hisAt
    held := ?_
    chunk := ?_
    current := ?_
    strong := ?_
    live := fun k' page' hk' => ha.live k' page' (Arena.get_of_get_erase hk').2
    dropping := ?_ }, ?_, hs'.raceFree⟩
  · have hsum := Arena.sum_erase (f := fun page : PackedPage => ({page.buf} : Multiset Addr)) hk
    show _ + (s.packed.erase k).sum _ = w.held.erase page.buf
    rw [← ha.held, State.heldBuffers, ← hsum, ← add_assoc,
      add_comm _ ({page.buf} : Multiset Addr),
      Multiset.singleton_add, Multiset.erase_cons_head]
  · intro i h k' hi hp
    obtain ⟨x, hx, hbuf⟩ := ha.chunk i h k' hi hp
    refine ⟨x, ?_, hbuf⟩
    rw [Arena.get_erase, if_neg, hx]
    rintro rfl
    exact hnone i h hi hp
  · intro c hc
    refine ⟨?_, (ha.current c hc).2⟩
    rw [Arena.get_erase, if_neg]
    · exact (ha.current c hc).1
    · rintro rfl
      rw [show s.current = some c from hc] at hcur
      exact hcur rfl
  · intro k' page' hk'
    obtain ⟨hne, hk'⟩ := Arena.get_of_get_erase hk'
    have hcount := hcount k'
    rw [if_neg (Ne.symm hne), add_zero] at hcount
    rw [ha.strong k' page' hk', State.references, State.references, hcount]
  · intro x hx
    rw [Arena.get_erase, if_neg (hrest x hx)]
    exact ha.dropping x (Multiset.mem_of_mem_erase hx)
  · have hknown : Known (tr ++ [.rmw a (.packed k) true true]) (·.Touches (s.whole page.buf))
        {.agent a} := by
      refine (hs.custody _ _ _ (.packed hk)).acquire ?_ rfl
      rintro p (hp | ⟨a', ha', hp⟩ | ⟨hp, -⟩ | ⟨i, h, hi, hp, -⟩)
      · exact .inl hp
      · by_cases heq : (k, a') = (k, a)
        · obtain ⟨-, rfl⟩ := Prod.mk.inj heq
          exact .inr hp
        · exact absurd rfl (hrest _ ((Multiset.mem_erase_of_ne heq).2 ha'))
      · exact absurd hp hcur
      · exact absurd hp (hnone i h hi)
    intro b P ps hclaim
    cases hclaim with
    | pool hb => exact Custody.known_drop hs' hdrop rfl hknown hb
    | building hi hu => exact hs'.custody _ _ _ (.building hi hu)
    | reading hi hu ha' => exact hs'.custody _ _ _ (.reading hi hu ha')
    | page hi hp => exact hs'.custody _ _ _ (.page hi hp)
    | @packed k' page' hk' =>
        obtain ⟨hne, hk'⟩ := Arena.get_of_get_erase hk'
        refine (hs'.custody _ _ _ (.packed hk')).mono (fun _ h => h) ?_
        rintro p (hp | ⟨a', ha', hp⟩ | hp | hp)
        · exact .inl hp
        · refine .inr (.inl ⟨a', (Multiset.mem_erase_of_ne ?_).2 ha', hp⟩)
          exact fun heq => hne (congrArg Prod.fst heq)
        · exact .inr (.inr (.inl hp))
        · exact .inr (.inr (.inr hp))
    | current hc hk' => exact hs'.custody _ _ _ (.current hc (Arena.get_of_get_erase hk').2)

end Drop

end PagedAlloc.MemoryOrder
