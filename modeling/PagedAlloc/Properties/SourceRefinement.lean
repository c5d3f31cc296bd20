import PagedAlloc.Properties.Release
import PagedAlloc.Properties.SourceContract

/-!
# The crate on demand-zero memory

The worlds of the other modules have a byte memory and a multiset of live allocations.  Here the
pools have one of the three sources each, and below these is the address space of a kernel, of which
no more is known than what its manual says.  On top of the crate is a cache that may call
`madvise_dontneed` for the pages it has.

Everything that a run does with memory can be done there, call by call and store by store in the
order of the run (`world_on_sources`): no `munmap` fails and no store faults.  What is mapped are
the live allocations, each in units of its source, and what a load finds there is what the byte
memory has (`Backs`); pages that `prewarm` has prefaulted have all their frames until they are
released or advised away (`Resident`).  The run has to be one with these sources: where it was
answered with a page, the source answers with that page (`Answered`).  The next page that a source
can answer with is always one that the pool takes.

The cache has to have the page: a free page keeps the link to the next one in its first bytes, and
`madvise_dontneed` takes that too (`dontneed_free_page`).
-/

namespace PagedAlloc.Sequential

open Words Bytes Intrusive Relation Transition DemandZero DemandZero.AddressSpace Sources

/-! ## What backs a world -/

/-- The units of the memory from a source or from the global allocator. -/
def Origin.unit (k : Kernel) (sources : ℕ → Source) : Origin → ℕ
  | pool id => (sources id).unit k
  | heap => 1

/-- An allocation that the source of a pool can have made. -/
def FromSource (k : Kernel) (sources : ℕ → Source) (b : Block) : Prop :=
  ∀ id, b.origin = .pool id →
    b.layout.size = (sources id).pageSize ∧ (sources id).align k ∣ b.base

/-- The live allocations are what is mapped, with the contents of the byte memory. -/
structure Backs (k : Kernel) (sources : ℕ → Source) (mem : Memory) (blocks : Multiset Block)
    (v : AddressSpace) : Prop where
  source : ∀ b ∈ blocks, FromSource k sources b
  unit : ∀ b ∈ blocks, ∀ i < b.layout.size, v.unit (b.base + i) = b.origin.unit k sources
  free : ∀ x, (∀ b ∈ blocks, x < b.base ∨ b.base + b.layout.size ≤ x) → v.unit x = 0
  contents : ∀ b ∈ blocks, ∀ i < b.layout.size, v.contents (b.base + i) = mem (b.base + i)

/-- Since it was last allocated the page has been prefaulted, and since then nothing of it has been
advised away.  The latest access is the first. -/
def Block.prefaulted (b : Block) : List Access → Bool
  | [] => false
  | .allocate o l a :: es => if b = ⟨a, l, o⟩ then false else b.prefaulted es
  | .prefault id a :: es =>
      if b.origin = .pool id ∧ b.base = a then true else b.prefaulted es
  | .dontneed ptr len :: es =>
      if Apart b.base b.layout.size ptr len then b.prefaulted es else false
  | .release _ _ _ :: es => b.prefaulted es
  | .store _ _ :: es => b.prefaulted es

/-- The prefaulted pages have all their frames, unless they are of the heap. -/
def Resident (sources : ℕ → Source) (accesses : List Access) (blocks : Multiset Block)
    (v : AddressSpace) : Prop :=
  ∀ b ∈ blocks, ∀ id, b.origin = .pool id → (sources id).Lazy → b.prefaulted accesses = true →
    ∀ i < b.layout.size, v.committed (b.base + i)

/-- The accesses can be made one after the other, from an address space in which nothing is mapped,
and then the address space backs the world. -/
def Carried (k : Kernel) (sources : ℕ → Source) (w : World) (v : AddressSpace) : Prop :=
  run (Access.exec k sources) .empty w.accesses.reverse = some v ∧
    Backs k sources w.mem w.blocks v ∧ Resident sources w.accesses w.blocks v

/-- The accesses are those of pools with these sources: the pages have the size of the source, and
when a source is called, it can answer as it has answered. -/
def Answered (k : Kernel) (sources : ℕ → Source) (es : List Access) : Prop :=
  ∀ pre id l a v, pre ++ [.allocate (.pool id) l a] <+: es →
    run (Access.exec k sources) .empty pre = some v →
      l.size = (sources id).pageSize ∧ (sources id).allocate k v (some a) ≠ .refused

section Backs

variable {k : Kernel} {sources : ℕ → Source} {mem mem' : Memory} {blocks : Multiset Block}
  {pools : Arena Pool} {v v' : AddressSpace} {b : Block} {o : Origin} {l : Layout} {a id : ℕ}
  {es : List Access}

lemma Origin.unit_pos (hk : k.Documented) (hnew : ∀ id, (sources id).IsNew k) :
    0 < o.unit k sources := by
  cases o with
  | pool id => exact ((hnew id).fits hk).pos
  | heap => exact Nat.one_pos

lemma backs_empty : Backs k sources mem 0 .empty where
  source b hb := absurd hb (Multiset.notMem_zero b)
  unit b hb := absurd hb (Multiset.notMem_zero b)
  free _ _ := rfl
  contents b hb := absurd hb (Multiset.notMem_zero b)

/-- Nothing is mapped in a range that is apart from all live allocations. -/
lemma Backs.free_of_apart {n : ℕ} (hb : Backs k sources mem blocks v)
    (hapart : ∀ b ∈ blocks, Apart a n b.base b.layout.size) : v.Free a n := by
  intro i hi
  refine hb.free _ fun b hmem => ?_
  have hrange := hapart b hmem
  unfold Apart at hrange
  omega

lemma Backs.apart_of_free {n : ℕ} (hk : k.Documented) (hnew : ∀ id, (sources id).IsNew k)
    (hn : 0 < n) (hb : Backs k sources mem blocks v) (hbounds : ∀ b ∈ blocks, 0 < b.layout.size)
    (hfree : v.Free a n) : ∀ b ∈ blocks, Apart a n b.base b.layout.size := by
  intro b hmem
  by_contra hmeet
  unfold Apart at hmeet
  have hsize := hbounds b hmem
  have hpos : 0 < b.origin.unit k sources := Origin.unit_pos hk hnew
  -- The larger of the two addresses is in both ranges.
  have hzero := hfree (max a b.base - a) (by omega)
  have hunit := hb.unit b hmem (max a b.base - b.base) (by omega)
  rw [show a + (max a b.base - a) = max a b.base by omega] at hzero
  rw [show b.base + (max a b.base - b.base) = max a b.base by omega, hzero] at hunit
  omega

/-- A new allocation. -/
lemma Backs.allocate (hb : Backs k sources mem blocks v) (hsource : FromSource k sources ⟨a, l, o⟩)
    (hapart : ∀ b ∈ blocks, Apart a l.size b.base b.layout.size) :
    Backs k sources (zero mem a l.size) (⟨a, l, o⟩ ::ₘ blocks)
      (v.map a l.size (o.unit k sources)) where
  source b hmem := by
    rcases Multiset.mem_cons.1 hmem with rfl | hmem
    · exact hsource
    · exact hb.source b hmem
  unit b hmem i hi := by
    rw [unit_map]
    rcases Multiset.mem_cons.1 hmem with rfl | hmem
    · exact if_pos ⟨Nat.le_add_right .., Nat.add_lt_add_left hi _⟩
    · have hrange := hapart b hmem
      unfold Apart at hrange
      rw [if_neg (by omega)]
      exact hb.unit b hmem i hi
  free x hx := by
    have hnew := hx _ (Multiset.mem_cons_self _ _)
    dsimp only at hnew
    rw [unit_map, if_neg (by omega)]
    exact hb.free x fun b hmem => hx b (Multiset.mem_cons_of_mem hmem)
  contents b hmem i hi := by
    rw [contents_map]
    rcases Multiset.mem_cons.1 hmem with rfl | hmem
    · have hin : a ≤ a + i ∧ a + i < a + l.size := ⟨Nat.le_add_right .., Nat.add_lt_add_left hi _⟩
      unfold zero
      rw [if_pos hin, if_pos hin]
    · have hrange := hapart b hmem
      unfold Apart at hrange
      rw [zero_of_outside (by omega), zero_of_outside (by omega)]
      exact hb.contents b hmem i hi

/-- Other allocations keep their frames. -/
lemma Resident.allocate (hr : Resident sources es blocks v) {u : ℕ}
    (hapart : ∀ b ∈ blocks, Apart a l.size b.base b.layout.size) :
    Resident sources (.allocate o l a :: es) (⟨a, l, o⟩ ::ₘ blocks) (v.map a l.size u) := by
  intro b hmem id horigin hlazy hwarm i hi
  rw [Block.prefaulted] at hwarm
  split at hwarm
  · exact absurd hwarm (by simp)
  · rename_i hne
    have hmem : b ∈ blocks := (Multiset.mem_cons.1 hmem).resolve_left hne
    have hrange := hapart b hmem
    unfold Apart at hrange
    rw [committed_map (by omega)]
    exact hr b hmem id horigin hlazy hwarm i hi

/-- A release. -/
lemma Backs.release (hb : Backs k sources mem blocks v) (hblocks : Blocks blocks pools)
    (hmem : b ∈ blocks) : Backs k sources mem (blocks.erase b) (v.unmap b.base b.layout.size) where
  source b' hmem' := hb.source b' (Multiset.mem_of_mem_erase hmem')
  unit b' hmem' i hi := by
    obtain ⟨hne, hmem'⟩ := (hblocks.nodup.mem_erase_iff).1 hmem'
    have hrange := hblocks.apart b' hmem' b hmem hne
    unfold Apart at hrange
    rw [unit_unmap (by omega)]
    exact hb.unit b' hmem' i hi
  free x hx := by
    by_cases hin : b.base ≤ x ∧ x < b.base + b.layout.size
    · exact if_pos hin
    · rw [unit_unmap (by omega)]
      refine hb.free x fun b' hmem' => ?_
      by_cases hne : b' = b
      · rw [hne]
        omega
      · exact hx b' ((hblocks.nodup.mem_erase_iff).2 ⟨hne, hmem'⟩)
  contents b' hmem' i hi := by
    obtain ⟨hne, hmem'⟩ := (hblocks.nodup.mem_erase_iff).1 hmem'
    have hrange := hblocks.apart b' hmem' b hmem hne
    unfold Apart at hrange
    rw [contents_unmap (by omega)]
    exact hb.contents b' hmem' i hi

lemma Resident.release (hr : Resident sources es blocks v) (hblocks : Blocks blocks pools)
    (hmem : b ∈ blocks) : Resident sources (.release b.origin b.layout b.base :: es)
      (blocks.erase b) (v.unmap b.base b.layout.size) := by
  intro b' hmem' id horigin hlazy hwarm i hi
  obtain ⟨hne, hmem'⟩ := (hblocks.nodup.mem_erase_iff).1 hmem'
  have hrange := hblocks.apart b' hmem' b hmem hne
  unfold Apart at hrange
  rw [committed_unmap (by omega)]
  exact hr b' hmem' id horigin hlazy hwarm i hi

lemma Resident.store {data : List UInt8} (hr : Resident sources es blocks v)
    (hkept : ∀ x, v.committed x → v'.committed x) :
    Resident sources (.store a data :: es) blocks v' :=
  fun b hmem id horigin hlazy hwarm i hi => hkept _ (hr b hmem id horigin hlazy hwarm i hi)

/-- The page that is prefaulted gets all its frames. -/
lemma Resident.prefault (hr : Resident sources es blocks v) (hblocks : Blocks blocks pools)
    (hmem : ⟨a, l, .pool id⟩ ∈ blocks) (hkept : ∀ x, v.committed x → v'.committed x)
    (hcommitted : (sources id).Lazy → ∀ i < l.size, v'.committed (a + i)) :
    Resident sources (.prefault id a :: es) blocks v' := by
  intro b hmem' j horigin hlazy hwarm i hi
  rw [Block.prefaulted] at hwarm
  split at hwarm
  · rename_i hthis
    obtain ⟨hpool, hbase⟩ := hthis
    obtain rfl : j = id := Origin.pool.inj (horigin.symm.trans hpool)
    have hsame : b = ⟨a, l, .pool j⟩ := by
      by_contra hne
      have hrange := hblocks.apart b hmem' _ hmem hne
      have hsize := (hblocks.bounds b hmem').2.1
      have hsize' := (hblocks.bounds _ hmem).2.1
      unfold Apart at hrange
      dsimp only at hrange hsize'
      omega
    rw [hsame] at hi ⊢
    exact hcommitted hlazy i hi
  · exact hkept _ (hr b hmem' j horigin hlazy hwarm i hi)

lemma Resident.dontneed {ptr len : ℕ} (hr : Resident sources es blocks v) :
    Resident sources (.dontneed ptr len :: es) blocks (v.discard ptr len) := by
  intro b hmem id horigin hlazy hwarm i hi
  rw [Block.prefaulted] at hwarm
  split at hwarm
  · rename_i hrange
    unfold Apart at hrange
    have hin : ¬ (ptr ≤ b.base + i ∧ b.base + i < ptr + len) := by omega
    exact (committed_map (u := 0) hin).trans (hr b hmem id horigin hlazy hwarm i hi)
  · exact absurd hwarm (by simp)

lemma write_congr {bs : List UInt8} {x : ℕ} (h : mem' x = mem x) :
    write mem' a bs x = write mem a bs x := by
  unfold write
  rw [h]

/-- A store to a live allocation. -/
lemma Backs.store {data : List UInt8} (hk : k.Documented) (hnew : ∀ id, (sources id).IsNew k)
    (hb : Backs k sources mem blocks v) (hmem : b ∈ blocks) (hlow : b.base ≤ a)
    (hhigh : a + data.length ≤ b.base + b.layout.size) :
    ∃ v', v.store a data = some v' ∧ Backs k sources (write mem a data) blocks v' ∧
      ∀ x, v.committed x → v'.committed x := by
  have hmapped : ∀ i < data.length, v.unit (a + i) ≠ 0 := by
    intro i hi
    rw [show a + i = b.base + (a - b.base + i) by omega, hb.unit b hmem _ (by omega)]
    exact (Origin.unit_pos hk hnew).ne'
  obtain ⟨v', hstore, hunit, hcontents, hkept⟩ := store_spec hmapped
  refine ⟨v', hstore, ⟨hb.source, ?_, ?_, ?_⟩, hkept⟩
  · rw [hunit]
    exact hb.unit
  · rw [hunit]
    exact hb.free
  · intro b' hmem' i hi
    rw [hcontents]
    exact write_congr (hb.contents b' hmem' i hi)

/-- Prefaulting a page that reads as zeros. -/
lemma Backs.prefault (hk : k.Documented) (hnew : ∀ id, (sources id).IsNew k)
    (hb : Backs k sources mem blocks v) (hmem : ⟨a, l, .pool id⟩ ∈ blocks)
    (hzero : ∀ x, a ≤ x → x < a + l.size → mem x = 0) :
    ∃ v', (sources id).prefault k v a = some v' ∧ Backs k sources mem blocks v' ∧
      (∀ x, v.committed x → v'.committed x) ∧
      ((sources id).Lazy → ∀ i < l.size, v'.committed (a + i)) := by
  obtain ⟨hsize, halign⟩ := hb.source _ hmem id rfl
  dsimp only at hsize halign
  have hunit : ∀ i < (sources id).pageSize, v.unit (a + i) = (sources id).unit k := by
    rw [← hsize]
    exact hb.unit _ hmem
  obtain ⟨v', hprefault, hpre, hcommitted⟩ := prefault_spec hk (hnew id) halign hunit
  rw [← hsize] at hpre hcommitted
  refine ⟨v', hprefault, ⟨hb.source, ?_, ?_, ?_⟩, hpre.kept, hcommitted⟩
  · rw [hpre.unit]
    exact hb.unit
  · rw [hpre.unit]
    exact hb.free
  · intro b' hmem' i hi
    rcases hpre.contents (b'.base + i) with heq | ⟨hlow, hhigh, heq⟩
    · rw [heq]
      exact hb.contents b' hmem' i hi
    · rw [heq, hzero _ hlow hhigh]

/-! ## Accesses -/

lemma exec_release (hk : k.Documented) (hnew : ∀ id, (sources id).IsNew k)
    (hb : Backs k sources mem blocks v) (hmem : ⟨a, l, o⟩ ∈ blocks) :
    Access.exec k sources v (.release o l a) = some (v.unmap a l.size) := by
  cases o with
  | pool id =>
      obtain ⟨hsize, hdvd⟩ := hb.source _ hmem id rfl
      have hunit := hb.unit _ hmem
      dsimp only at hsize hdvd hunit
      rw [hsize] at hunit ⊢
      rw [Access.exec, release_eq hk (hnew id) hdvd hunit]
      rfl
  | heap => rfl

/-- The calls of a destructor. -/
lemma run_releaseAll {as : List ℕ} (hk : k.Documented) (hnew : ∀ id, (sources id).IsNew k)
    (hblocks : Blocks blocks pools) (hb : Backs k sources mem blocks v)
    (hr : Resident sources es blocks v)
    (hle : ((as.map fun a => ⟨a, l, o⟩ : List Block) : Multiset Block) ≤ blocks) :
    ∃ v', run (Access.exec k sources) v (as.map fun a => .release o l a) = some v' ∧
      Backs k sources mem
        (blocks - ((as.map fun a => ⟨a, l, o⟩ : List Block) : Multiset Block)) v' ∧
      Resident sources ((as.map fun a => Access.release o l a).reverse ++ es)
        (blocks - ((as.map fun a => ⟨a, l, o⟩ : List Block) : Multiset Block)) v' := by
  induction as generalizing blocks v es with
  | nil =>
      have hnil : blocks - (([].map fun a => ⟨a, l, o⟩ : List Block) : Multiset Block) = blocks :=
        Multiset.sub_zero _
      rw [hnil]
      exact ⟨v, rfl, hb, hr⟩
  | cons a as ih =>
      have hcons : (((a :: as).map fun a => ⟨a, l, o⟩ : List Block) : Multiset Block) =
          ⟨a, l, o⟩ ::ₘ ((as.map fun a => ⟨a, l, o⟩ : List Block) : Multiset Block) := rfl
      rw [hcons] at hle ⊢
      have hmem : (⟨a, l, o⟩ : Block) ∈ blocks :=
        Multiset.mem_of_le hle (Multiset.mem_cons_self _ _)
      have hrest := Multiset.erase_le_erase (⟨a, l, o⟩ : Block) hle
      rw [Multiset.erase_cons_head] at hrest
      have hr₁ : Resident sources (.release o l a :: es) (blocks.erase ⟨a, l, o⟩)
          (v.unmap a l.size) := hr.release hblocks hmem
      obtain ⟨v', hrun, hb', hr'⟩ := ih (hblocks.mono (Multiset.erase_le _ _))
        (hb.release hblocks hmem) hr₁ hrest
      rw [Multiset.sub_cons]
      refine ⟨v', ?_, hb', ?_⟩
      · rw [List.map_cons, run_cons, exec_release hk hnew hb hmem, Option.bind_some, hrun]
      · rw [List.map_cons, List.reverse_cons, List.append_assoc]
        exact hr'

lemma Answered.mono {es' : List Access} (h : Answered k sources es') (hearlier : es <+: es') :
    Answered k sources es :=
  fun pre id l a v hpre hrun => h pre id l a v (hpre.trans hearlier) hrun

lemma Answered.concat {x : Access} (h : Answered k sources es)
    (hx : ∀ id l a v, x = .allocate (.pool id) l a →
      run (Access.exec k sources) .empty es = some v →
        l.size = (sources id).pageSize ∧ (sources id).allocate k v (some a) ≠ .refused) :
    Answered k sources (es ++ [x]) := by
  intro pre id l a v hpre hrun
  rcases List.prefix_concat_iff.1 hpre with heq | hpre
  · obtain ⟨rfl, hlast⟩ := List.append_inj' heq rfl
    exact hx id l a v (List.head_eq_of_cons_eq hlast).symm hrun
  · exact h pre id l a v hpre hrun

lemma Answered.releases {as : List ℕ} (h : Answered k sources es) :
    Answered k sources (es ++ as.map fun a => .release o l a) := by
  induction as generalizing es with
  | nil =>
      rw [List.map_nil, List.append_nil]
      exact h
  | cons a as ih =>
      rw [List.map_cons, List.append_cons]
      exact ih (h.concat fun id l a v hx => absurd hx (by simp))

end Backs

/-! ## Moves -/

section Moves

variable {k : Kernel} {sources : ℕ → Source} {c c' : Config} {w w' : World} {ops : List Op}
  {a id : ℕ} {l : Layout} {o : Origin} {x : Access} {v : AddressSpace}

/-- One more access. -/
lemma run_access {v' : AddressSpace}
    (hrun : run (Access.exec k sources) .empty w.accesses.reverse = some v)
    (hexec : x.exec k sources v = some v') (haccesses : w'.accesses = x :: w.accesses) :
    run (Access.exec k sources) .empty w'.accesses.reverse = some v' := by
  rw [haccesses, List.reverse_cons]
  exact run_concat_eq_some.2 ⟨v, hrun, hexec⟩

lemma carried_store {b : Block} {data : List UInt8} (hk : k.Documented)
    (hnew : ∀ id, (sources id).IsNew k) (h : ∃ v, Carried k sources w v) (hmem : b ∈ w.blocks)
    (hlow : b.base ≤ a) (hhigh : a + data.length ≤ b.base + b.layout.size) :
    ∃ v, Carried k sources (w.store a data) v := by
  obtain ⟨v, hrun, hb, hr⟩ := h
  obtain ⟨v', hstore, hb', hkept⟩ := hb.store hk hnew hmem hlow hhigh
  exact ⟨v', run_access (x := .store a data) hrun hstore rfl, hb', hr.store hkept⟩

/-- A link stored in a buffer in hand. -/
lemma carried_link {B : Multiset (ℕ × ℕ)} {S P : Multiset ℕ} {p : Pool} {n : ℕ}
    (hk : k.Documented) (hnew : ∀ id, (sources id).IsNew k)
    (h : ∃ v, Carried k sources w v) (ho : Owned ⟨w, (id, a) ::ₘ B, S, P⟩)
    (hget : w.pools.get id = some p) : ∃ v, Carried k sources (w.storePtr a n) v := by
  have hmem : (⟨a, p.layout, .pool id⟩ : Block) ∈ w.blocks :=
    ho.places.mem_of_held hget holders_cons_ne_zero
  have hsize := (ho.blocks.pageSize id p hget).1
  refine carried_store hk hnew h hmem le_rfl ?_
  rw [length_encode]
  exact Nat.add_le_add_left hsize _

/-- A page from a source. -/
lemma carried_supply (hk : k.Documented) (hnew : ∀ id, (sources id).IsNew k)
    (h : ∃ v, Carried k sources w v) (hsupplies : w.Supplies l a)
    (hanswered : Answered k sources (w.provide (.pool id) l a).accesses.reverse) :
    ∃ v, Carried k sources (w.provide (.pool id) l a) v := by
  obtain ⟨v, hrun, hb, hr⟩ := h
  have hreverse : (w.provide (.pool id) l a).accesses.reverse =
      w.accesses.reverse ++ [.allocate (.pool id) l a] := List.reverse_cons
  obtain ⟨hsize, hnot⟩ := hanswered _ id l a v (hreverse ▸ List.prefix_refl _) hrun
  obtain ⟨hoffers, hdone⟩ := (allocate_cases hk (hnew id)).resolve_left hnot
  have hsource : FromSource k sources ⟨a, l, .pool id⟩ := by
    rintro j hj
    obtain rfl : id = j := Origin.pool.inj hj
    exact ⟨hsize, hoffers.2.1⟩
  have hexec : Access.exec k sources v (.allocate (.pool id) l a) =
      some (v.map a l.size ((sources id).unit k)) := by
    rw [Access.exec, hdone, hsize]
    rfl
  exact ⟨_, run_access hrun hexec rfl, hb.allocate hsource hsupplies.2.2.2,
    hr.allocate hsupplies.2.2.2⟩

/-- Memory from the global allocator. -/
lemma carried_heap (h : ∃ v, Carried k sources w v) (hsupplies : w.Supplies l a) :
    ∃ v, Carried k sources (w.provide .heap l a) v := by
  obtain ⟨v, hrun, hb, hr⟩ := h
  obtain ⟨hne, halign, hend, hapart⟩ := hsupplies
  have hsource : FromSource k sources ⟨a, l, .heap⟩ := fun id hid => absurd hid (by simp)
  have hexec : Access.exec k sources v (.allocate .heap l a) = some (v.map a l.size 1) := by
    rw [Access.exec, allocZeroed, if_pos ⟨hne, halign, hend, hb.free_of_apart hapart⟩]
    rfl
  exact ⟨_, run_access hrun hexec rfl, hb.allocate hsource hapart, hr.allocate hapart⟩

/-- A new page is prefaulted. -/
lemma carried_prefault {B : Multiset (ℕ × ℕ)} {S P : Multiset ℕ} {p : Pool} (hk : k.Documented)
    (hnew : ∀ id, (sources id).IsNew k) (h : ∃ v, Carried k sources w v)
    (ho : Owned ⟨w, (id, a) ::ₘ B, S, P⟩) (hget : w.pools.get id = some p)
    (hzeroed : ∀ x, a ≤ x → x < a + p.pageSize → w.mem x = 0) :
    ∃ v, Carried k sources (w.prefault id a) v := by
  obtain ⟨v, hrun, hb, hr⟩ := h
  have hmem : (⟨a, p.layout, .pool id⟩ : Block) ∈ w.blocks :=
    ho.places.mem_of_held hget holders_cons_ne_zero
  obtain ⟨v', hprefault, hb', hkept, hcommitted⟩ := hb.prefault hk hnew hmem hzeroed
  exact ⟨v', run_access (x := .prefault id a) hrun hprefault rfl, hb',
    hr.prefault ho.blocks hmem hkept hcommitted⟩

lemma reverse_accesses_releaseAll {as : List ℕ} : (w.releaseAll o l as).accesses.reverse =
    w.accesses.reverse ++ as.map fun a => .release o l a := by
  unfold World.releaseAll
  dsimp only
  rw [List.reverse_append, List.reverse_reverse]

lemma carried_releaseAll {as : List ℕ} (hk : k.Documented) (hnew : ∀ id, (sources id).IsNew k)
    {pools : Arena Pool} (h : ∃ v, Carried k sources w v) (hblocks : Blocks w.blocks pools)
    (hle : ((as.map fun a => ⟨a, l, o⟩ : List Block) : Multiset Block) ≤ w.blocks) :
    ∃ v, Carried k sources (w.releaseAll o l as) v := by
  obtain ⟨v, hrun, hb, hr⟩ := h
  obtain ⟨v', hreleases, hb', hr'⟩ := run_releaseAll hk hnew hblocks hb hr hle
  refine ⟨v', ?_, hb', hr'⟩
  rw [reverse_accesses_releaseAll]
  exact run_append_eq_some.2 ⟨v, hrun, hreleases⟩

/-- **One move.** -/
lemma carried_move (hk : k.Documented) (hnew : ∀ id, (sources id).IsNew k) (ho : Owned c)
    (h : ∃ v, Carried k sources c.world v) (hmove : Move c c')
    (hanswered : Answered k sources c'.world.accesses.reverse) :
    ∃ v, Carried k sources c'.world v := by
  cases hmove with
  | supply hget hsupplies => exact carried_supply hk hnew h hsupplies hanswered
  | prefault hget hzeroed => exact carried_prefault hk hnew h ho hget hzeroed
  | newHeap hpos hsupplies => exact carried_heap h hsupplies
  | releaseLocal hget hlive hchain =>
      exact carried_releaseAll hk hnew h ho.blocks (ho.walk hget (Or.inl rfl) hchain).1
  | freeShared hget hlast hnone hchain =>
      exact carried_releaseAll hk hnew h ho.blocks (ho.walk hget (Or.inr rfl) hchain).1
  | @freeHeap w B S P i l a hget =>
      have hmem : (⟨a, l, .heap⟩ : Block) ∈ w.blocks := (ho.mem_of_packed (pageOf_of_get hget)).1
      exact carried_releaseAll hk hnew h ho.blocks (Multiset.singleton_le.2 hmem)
  | linkLocal hget hlive => exact carried_link hk hnew h ho hget
  | pushReturn hget st => exact carried_link hk hnew h ho hget
  | @writePage w B S P i pos data h' hget hle =>
      refine carried_store hk hnew h (ho.mem_of_page hget).1 (Nat.le_add_right ..) ?_
      rw [Nat.add_assoc]
      exact Nat.add_le_add_left hle _
  | @writeChunk w B S P i a pos data h' hget hbuilder hbase hle =>
      obtain ⟨b, hmem, hlow, hhigh, -⟩ := ho.mem_of_chunk hget hbase
      exact carried_store hk hnew h hmem (by omega) (by omega)
  | _ => exact h

/-- What has been done is not forgotten. -/
lemma accesses_move (hmove : Move c c') : c.world.accesses <:+ c'.world.accesses := by
  cases hmove with
  | supply | prefault | newHeap | linkLocal | pushReturn | writePage | writeChunk =>
      exact List.suffix_cons _ _
  | releaseLocal | freeShared | freeHeap => exact List.suffix_append _ _
  | _ => exact List.suffix_refl _

lemma accesses_moves (hmoves : Moves c c') : c.world.accesses <:+ c'.world.accesses := by
  induction hmoves with
  | refl => exact List.suffix_refl _
  | tail hbefore hmove ih => exact ih.trans (accesses_move hmove)

lemma carried_moves (hk : k.Documented) (hnew : ∀ id, (sources id).IsNew k) (ho : Owned c)
    (h : ∃ v, Carried k sources c.world v) (hmoves : Moves c c')
    (hanswered : Answered k sources c'.world.accesses.reverse) :
    ∃ v, Carried k sources c'.world v := by
  induction hmoves with
  | refl => exact h
  | tail hbefore hmove ih =>
      have hearlier := ih (hanswered.mono (List.reverse_prefix.2 (accesses_move hmove)))
      exact carried_move hk hnew (ho.moves hbefore) hearlier hmove hanswered

/-- All pages are such as their sources make. -/
def Sized (k : Kernel) (sources : ℕ → Source) (w : World) : Prop :=
  ∀ id l a, .allocate (.pool id) l a ∈ w.accesses → FromSource k sources ⟨a, l, .pool id⟩

/-- An access that does not call a source for a page. -/
lemma Answered.record (h : Answered k sources w.accesses.reverse)
    (haccesses : w'.accesses = x :: w.accesses) (hx : ∀ id l a, x ≠ .allocate (.pool id) l a) :
    Answered k sources w'.accesses.reverse := by
  rw [haccesses, List.reverse_cons]
  exact h.concat fun id l a v heq => absurd heq (hx id l a)

lemma Answered.releaseAll {as : List ℕ} (h : Answered k sources w.accesses.reverse) :
    Answered k sources (w.releaseAll o l as).accesses.reverse := by
  rw [reverse_accesses_releaseAll]
  exact h.releases

/-- A kernel that is willing to answers with a page that the world takes. -/
lemma answered_move (hk : k.Documented) (hw : k.Willing) (hnew : ∀ id, (sources id).IsNew k)
    (h : ∃ v, Carried k sources c.world v) (hanswered : Answered k sources c.world.accesses.reverse)
    (hmove : Move c c') (hsized : Sized k sources c'.world) :
    Answered k sources c'.world.accesses.reverse := by
  cases hmove with
  | @supply w B S P id p a hget hsupplies =>
      have hreverse : (w.provide (.pool id) p.layout a).accesses.reverse =
          w.accesses.reverse ++ [.allocate (.pool id) p.layout a] := List.reverse_cons
      rw [hreverse]
      refine hanswered.concat fun j l b v heq hrun => ?_
      obtain ⟨hj, rfl, rfl⟩ := Access.allocate.inj heq
      obtain rfl : id = j := Origin.pool.inj hj
      obtain ⟨hsize, hdvd⟩ := hsized id p.layout a List.mem_cons_self id rfl
      dsimp only at hsize hdvd
      obtain ⟨v', hrun', hb, -⟩ := h
      obtain rfl := Option.some.inj (hrun'.symm.trans hrun)
      refine ⟨hsize, allocate_of_offers hk hw (hnew id) ⟨hsupplies.1, hdvd, ?_, ?_⟩⟩
      · rw [← hsize]
        exact hsupplies.2.2.1
      · rw [← hsize]
        exact hb.free_of_apart hsupplies.2.2.2
  | prefault | newHeap | linkLocal | pushReturn | writePage | writeChunk =>
      exact hanswered.record rfl (by simp)
  | releaseLocal | freeShared | freeHeap => exact hanswered.releaseAll
  | _ => exact hanswered

lemma Sized.of_suffix (h : Sized k sources w') (hsuffix : w.accesses <:+ w'.accesses) :
    Sized k sources w :=
  fun id l a hmem => h id l a (hsuffix.subset hmem)

lemma answered_moves (hk : k.Documented) (hw : k.Willing) (hnew : ∀ id, (sources id).IsNew k)
    (ho : Owned c) (h : ∃ v, Carried k sources c.world v)
    (hanswered : Answered k sources c.world.accesses.reverse) (hmoves : Moves c c')
    (hsized : Sized k sources c'.world) : Answered k sources c'.world.accesses.reverse := by
  induction hmoves with
  | refl => exact hanswered
  | tail hbefore hmove ih =>
      have hearlier := ih (hsized.of_suffix (accesses_move hmove))
      exact answered_move hk hw hnew (carried_moves hk hnew ho h hbefore hearlier) hearlier hmove
        hsized

/-- What a source can answer with is what the world takes as an answer. -/
lemma Backs.offers_iff {p : Pool} (hk : k.Documented) (hnew : ∀ id, (sources id).IsNew k)
    (hb : Backs k sources w.mem w.blocks v) (ho : Owned w.idle) (hget : w.pools.get id = some p)
    (hsize : p.pageSize = (sources id).pageSize) :
    (sources id).Offers k v a ↔ w.Supplies p.layout a ∧ (sources id).align k ∣ a := by
  have hpos : 0 < p.pageSize := Nat.lt_of_lt_of_le (by decide) (ho.blocks.pageSize id p hget).1
  have halign : ∀ a, (sources id).align k ∣ a → a % defaultAlign = 0 := fun a ha =>
    Nat.mod_eq_zero_of_dvd ((((hnew id).fits hk).align).trans ha)
  unfold Source.Offers World.Supplies Pool.layout
  dsimp only
  rw [← hsize]
  constructor
  · rintro ⟨hne, hdvd, hend, hfree⟩
    exact ⟨⟨hne, halign a hdvd, hend, hb.apart_of_free hk hnew hpos
      (fun b hmem => (ho.blocks.bounds b hmem).2.1) hfree⟩, hdvd⟩
  · rintro ⟨⟨hne, -, hend, hapart⟩, hdvd⟩
    exact ⟨hne, hdvd, hend, hb.free_of_apart hapart⟩

lemma logged_releaseAll {as : List ℕ}
    (h : w.accesses.filter Access.isLogged = w.log.map SourceEvent.access) :
    (w.releaseAll o l as).accesses.filter Access.isLogged =
      (w.releaseAll o l as).log.map SourceEvent.access := by
  unfold World.releaseAll
  dsimp only
  rw [List.filter_append, h, List.map_append, List.map_reverse, List.map_map,
    List.filter_eq_self.2]
  · rfl
  · intro x hx
    obtain ⟨a, -, rfl⟩ := List.mem_map.1 (List.mem_reverse.1 hx)
    rfl

/-- The calls among the accesses are those that are logged. -/
lemma logged_move (hmove : Move c c')
    (h : c.world.accesses.filter Access.isLogged = c.world.log.map SourceEvent.access) :
    c'.world.accesses.filter Access.isLogged = c'.world.log.map SourceEvent.access := by
  cases hmove with
  | supply hget hsupplies => exact congrArg (_ :: ·) h
  | newHeap hpos hsupplies => exact congrArg (_ :: ·) h
  | releaseLocal | freeShared | freeHeap => exact logged_releaseAll h
  | _ => exact h

lemma logged_moves (hmoves : Moves c c')
    (h : c.world.accesses.filter Access.isLogged = c.world.log.map SourceEvent.access) :
    c'.world.accesses.filter Access.isLogged = c'.world.log.map SourceEvent.access := by
  induction hmoves with
  | refl => exact h
  | tail hbefore hmove ih => exact logged_move hmove ih

end Moves

/-! ## A cache on top of the crate -/

/-- What a cache does: operations, and `madvise_dontneed` on `len` bytes of the page `i` from `pos`
on. -/
inductive CacheOp
  | op (op : Op)
  | dontneed (i pos len : ℕ)

/-- `madvise_dontneed`: the bytes read as zeros from now on. -/
def World.dontneed (w : World) (ptr len : ℕ) : World :=
  { w with
    mem := zero w.mem ptr len
    accesses := .dontneed ptr len :: w.accesses }

def World.cacheStep (w : World) : CacheOp → Option World
  | .op op => w.step op
  | .dontneed i pos len => (w.pages.get i).bind fun h =>
      if pos + len ≤ h.capacity then some (w.dontneed (h.buf + pos) len) else none

/-- The page is backed by `mmap`, and the range consists of whole units of it. -/
def CacheOp.Allowed (k : Kernel) (sources : ℕ → Source) (w : World) : CacheOp → Prop
  | .op _ => True
  | .dontneed i pos len => ∀ h, w.pages.get i = some h →
      (sources h.pool).Lazy ∧ (sources h.pool).unit k ∣ pos ∧ (sources h.pool).unit k ∣ len

section Cache

variable {k : Kernel} {sources : ℕ → Source} {w w' : World} {op : CacheOp} {ops : List CacheOp}
  {i pos len : ℕ}

lemma zero_eq_write {mem : Memory} {a n : ℕ} : zero mem a n = write mem a (List.replicate n 0) := by
  funext x
  unfold zero write
  by_cases hlow : a ≤ x
  · by_cases hhigh : x < a + n
    · rw [if_pos ⟨hlow, hhigh⟩, if_pos hlow, List.getElem?_replicate, if_pos (by omega)]
      rfl
    · rw [if_neg (by omega), if_pos hlow, List.getElem?_replicate, if_neg (by omega)]
      rfl
  · rw [if_neg (by omega), if_neg hlow]

lemma cacheStep_dontneed (h : w.cacheStep (.dontneed i pos len) = some w') : ∃ hd,
    w.pages.get i = some hd ∧ pos + len ≤ hd.capacity ∧ w' = w.dontneed (hd.buf + pos) len := by
  obtain ⟨hd, hget, h⟩ := Option.bind_eq_some_iff.1 h
  obtain ⟨hle, h⟩ := Option.ite_none_right_eq_some.1 h
  exact ⟨hd, hget, hle, (Option.some.inj h).symm⟩

/-- For the pools `madvise_dontneed` is a store of zeros by the one who has the page. -/
lemma owned_cacheStep (ho : Owned w.idle) (h : w.cacheStep op = some w') : Owned w'.idle := by
  cases op with
  | op op => exact ho.moves (custody_step ho h)
  | dontneed i pos len =>
      obtain ⟨hd, hget, hle, rfl⟩ := cacheStep_dontneed h
      have hstored : Owned (w.store (hd.buf + pos) (List.replicate len 0)).idle :=
        ho.moves (.single (.writePage hget (by rw [List.length_replicate]; exact hle)))
      have hmem : (w.dontneed (hd.buf + pos) len).mem =
          (w.store (hd.buf + pos) (List.replicate len 0)).mem := zero_eq_write
      constructor
      case references => exact hstored.references
      case blocks => exact hstored.blocks
      case places =>
        have hplaces := hstored.places
        dsimp only at hplaces ⊢
        rw [hmem]
        exact hplaces
      case fits => exact hstored.fits

lemma owned_cacheRun (h : run World.cacheStep .init ops = some w) : Owned w.idle :=
  run_invariant (P := fun w : World => Owned w.idle)
    (fun _ _ _ ho hstep => owned_cacheStep ho hstep) owned_init h

lemma accesses_cacheStep (ho : Owned w.idle) (h : w.cacheStep op = some w') :
    w.accesses <:+ w'.accesses := by
  cases op with
  | op op => exact accesses_moves (custody_step ho h)
  | dontneed i pos len =>
      obtain ⟨hd, -, -, rfl⟩ := cacheStep_dontneed h
      exact List.suffix_cons _ _

/-- The sources and the global allocator get the calls of the log, in its order. -/
lemma logged_cacheRun (h : run World.cacheStep .init ops = some w) :
    w.accesses.filter Access.isLogged = w.log.map SourceEvent.access := by
  refine run_induction (P := fun _ w => w.accesses.filter Access.isLogged =
    w.log.map SourceEvent.access) rfl ?_ h
  intro ops w op w' hrun hlogged hstep
  cases op with
  | op op => exact logged_moves (custody_step (owned_cacheRun hrun) hstep) hlogged
  | dontneed i pos len =>
      obtain ⟨hd, -, -, rfl⟩ := cacheStep_dontneed hstep
      exact hlogged

lemma carried_dontneed (hk : k.Documented) (hnew : ∀ id, (sources id).IsNew k)
    (ho : Owned w.idle) (hcarried : ∃ v, Carried k sources w v)
    (h : w.cacheStep (.dontneed i pos len) = some w')
    (hallowed : (CacheOp.dontneed i pos len).Allowed k sources w) :
    ∃ v, Carried k sources w' v := by
  obtain ⟨hd, hget, hle, rfl⟩ := cacheStep_dontneed h
  obtain ⟨v, hrun, hb, hr⟩ := hcarried
  obtain ⟨hlazy, hpos, hlen⟩ := hallowed hd hget
  have hfits := (hnew hd.pool).fits hk
  have hmem := (ho.mem_of_page hget).1
  have halign := (hb.source _ hmem hd.pool rfl).2
  have hpages : Pages v ((sources hd.pool).unit k) (hd.buf + pos) len := by
    refine ⟨hfits.pos, Nat.dvd_add (hfits.unit_align.trans halign) hpos, hlen, fun j hj => ?_⟩
    rw [Nat.add_assoc]
    exact hb.unit _ hmem (pos + j) (by dsimp only; omega)
  have hexec : Access.exec k sources v (.dontneed (hd.buf + pos) len) =
      some (v.discard (hd.buf + pos) len) := hk.madvise _ _ _ _ (hfits.kernel hlazy) hpages
  refine ⟨_, run_access hrun hexec rfl, ⟨hb.source, hb.unit, hb.free, fun b hmem' j hj => ?_⟩,
    hr.dontneed⟩
  rw [contents_discard]
  unfold World.dontneed zero
  dsimp only
  rw [hb.contents b hmem' j hj]

/-- **One step.** -/
lemma carried_cacheStep (hk : k.Documented) (hnew : ∀ id, (sources id).IsNew k)
    (ho : Owned w.idle) (hcarried : ∃ v, Carried k sources w v) (h : w.cacheStep op = some w')
    (hallowed : op.Allowed k sources w) (hanswered : Answered k sources w'.accesses.reverse) :
    ∃ v, Carried k sources w' v := by
  cases op with
  | op op => exact carried_moves hk hnew ho hcarried (custody_step ho h) hanswered
  | dontneed i pos len => exact carried_dontneed hk hnew ho hcarried h hallowed

lemma carried_cacheRun (hk : k.Documented) (hnew : ∀ id, (sources id).IsNew k)
    (h : run World.cacheStep .init ops = some w)
    (hallowed : Always World.cacheStep (fun w op => op.Allowed k sources w) .init ops)
    (hanswered : Answered k sources w.accesses.reverse) : ∃ v, Carried k sources w v := by
  revert hallowed hanswered
  refine run_induction (P := fun ops w =>
    Always World.cacheStep (fun w op => op.Allowed k sources w) .init ops →
      Answered k sources w.accesses.reverse → ∃ v, Carried k sources w v) ?_ ?_ h
  · exact fun _ _ =>
      ⟨.empty, rfl, backs_empty, fun b hmem => absurd hmem (Multiset.notMem_zero b)⟩
  · intro ops w op w' hrun ih hstep hallowed hanswered
    have ho := owned_cacheRun hrun
    obtain ⟨hbefore, hlast⟩ := (always_append hrun).1 hallowed
    have hearlier := ih hbefore
      (hanswered.mono (List.reverse_prefix.2 (accesses_cacheStep ho hstep)))
    exact carried_cacheStep hk hnew ho hearlier hstep ((always_cons hstep).1 hlast).1 hanswered

/-- On a willing kernel any run is answered. -/
lemma answered_cacheRun (hk : k.Documented) (hw : k.Willing) (hnew : ∀ id, (sources id).IsNew k)
    (h : run World.cacheStep .init ops = some w)
    (hallowed : Always World.cacheStep (fun w op => op.Allowed k sources w) .init ops)
    (hsized : Sized k sources w) : Answered k sources w.accesses.reverse := by
  revert hallowed hsized
  refine run_induction (P := fun ops w =>
    Always World.cacheStep (fun w op => op.Allowed k sources w) .init ops → Sized k sources w →
      Answered k sources w.accesses.reverse) ?_ ?_ h
  · intro _ _ pre id l a v hpre
    exact absurd (List.prefix_nil.1 hpre) (by simp)
  · intro ops w op w' hrun ih hstep hallowed hsized
    have ho := owned_cacheRun hrun
    obtain ⟨hbefore, -⟩ := (always_append hrun).1 hallowed
    have hearlier := ih hbefore (hsized.of_suffix (accesses_cacheStep ho hstep))
    have hcarried := carried_cacheRun hk hnew hrun hbefore hearlier
    cases op with
    | op op => exact answered_moves hk hw hnew ho hcarried hearlier (custody_step ho hstep) hsized
    | dontneed i pos len =>
        obtain ⟨hd, -, -, rfl⟩ := cacheStep_dontneed hstep
        exact hearlier.record (x := .dontneed (hd.buf + pos) len) rfl (by simp)

/-- **Every run can be carried out on demand-zero memory.**  All that it does with memory can be
done there, in its order; the calls of the sources and of the global allocator among it are those of
the log.  The live allocations are what is mapped in the end, with the same contents, and with all
their frames if they are still prefaulted; and what a source can answer next is what the pool takes
and the source aligns to. -/
theorem world_on_sources (hk : k.Documented) (hnew : ∀ id, (sources id).IsNew k)
    (h : run World.cacheStep .init ops = some w)
    (hallowed : Always World.cacheStep (fun w op => op.Allowed k sources w) .init ops)
    (hanswered : Answered k sources w.accesses.reverse) :
    w.accesses.filter Access.isLogged = w.log.map SourceEvent.access ∧
      ∃ v, run (Access.exec k sources) .empty w.accesses.reverse = some v ∧
        Backs k sources w.mem w.blocks v ∧ Resident sources w.accesses w.blocks v ∧
        ∀ id p a, w.pools.get id = some p → p.pageSize = (sources id).pageSize →
          ((sources id).Offers k v a ↔ w.Supplies p.layout a ∧ (sources id).align k ∣ a) ∧
          ∀ b v', (sources id).allocate k v (some a) = .done b v' →
            b = a ∧ w.Supplies p.layout a := by
  obtain ⟨v, hrun, hb, hr⟩ := carried_cacheRun hk hnew h hallowed hanswered
  refine ⟨logged_cacheRun h, v, hrun, hb, hr, fun id p a hget hsize => ?_⟩
  have hiff := hb.offers_iff (a := a) hk hnew (owned_cacheRun h) hget hsize
  refine ⟨hiff, fun b v' hdone => ?_⟩
  rcases allocate_cases (v := v) (a := a) hk (hnew id) with hrefused | ⟨hoffers, hdone'⟩
  · exact absurd (hrefused.symm.trans hdone) (by simp)
  · obtain ⟨rfl, -⟩ := Outcome.done.inj (hdone'.symm.trans hdone)
    exact ⟨rfl, (hiff.1 hoffers).1⟩

/-- A pool with `MmapSource`, prewarmed with two pages; the memory of one is advised away while it
is written, and then the pool is dropped. -/
def adviseRun : List CacheOp :=
  [.op (.newPagePool 4096), .op (.prewarm 0 [some 8192, some 16384]),
    .op (.allocatePage 0 0 none), .op (.appendPage 0 [1, 2]), .dontneed 0 0 4096,
    .op (.appendPage 0 [3]), .op (.dropPool 0)]

def adviseAccesses : List Access :=
  [.allocate (.pool 0) ⟨4096, 8⟩ 8192, .prefault 0 8192, .store 8192 (encode 8 0),
    .allocate (.pool 0) ⟨4096, 8⟩ 16384, .prefault 0 16384, .store 16384 (encode 8 8192),
    .store 16384 [1, 2], .dontneed 16384 4096, .store 16386 [3],
    .release (.pool 0) ⟨4096, 8⟩ 8192]

theorem world_on_sources_adviseRun : ∃ w v, run World.cacheStep .init adviseRun = some w ∧
    run (Access.exec .eager fun _ => .mmap ⟨4096⟩) .empty adviseAccesses = some v ∧
    Backs .eager (fun _ => .mmap ⟨4096⟩) w.mem w.blocks v ∧ w.blocks.card = 1 := by
  have hk : Kernel.eager.Documented := documented_eager
  have hnew : (Source.mmap ⟨4096⟩).IsNew .eager :=
    MmapSource.new_eq_ok.2 ⟨by decide, by decide, rfl⟩
  have hunit : (Source.mmap ⟨4096⟩).unit .eager = 4096 := unit_mmap hk
  have hallowed : ∀ op ∈ adviseRun, ∀ w : World,
      op.Allowed .eager (fun _ => .mmap ⟨4096⟩) w := by
    intro op hop w
    cases op with
    | op op => trivial
    | dontneed i pos len =>
        have hranges : pos = 0 ∧ len = 4096 := by
          simp [adviseRun] at hop
          exact hop.2
        obtain ⟨rfl, rfl⟩ := hranges
        exact fun h _ => ⟨trivial, dvd_zero _, hunit ▸ dvd_rfl⟩
  have halways : Always World.cacheStep
      (fun w op => op.Allowed .eager (fun _ => .mmap ⟨4096⟩) w) .init adviseRun :=
    Transition.always_of_forall hallowed
  have heval : (run World.cacheStep .init adviseRun).map (fun w =>
      (w.accesses.reverse, w.blocks.card)) = some (adviseAccesses, 1) := by
    decide +kernel
  obtain ⟨w, hw, heq⟩ := Option.map_eq_some_iff.1 heval
  obtain ⟨haccesses, hcard⟩ := Prod.mk.inj heq
  have hsized : Sized .eager (fun _ => .mmap ⟨4096⟩) w := by
    intro id l a hmem j hj
    rw [← List.mem_reverse, haccesses] at hmem
    simp only [adviseAccesses, List.mem_cons, reduceCtorEq, Access.allocate.injEq,
      List.not_mem_nil, or_false, false_or] at hmem
    have halign : 4096 ∣ a := by
      rcases hmem with ⟨-, -, rfl⟩ | ⟨-, -, rfl⟩ <;> decide
    have hlayout : l.size = 4096 := by
      rcases hmem with ⟨-, rfl, -⟩ | ⟨-, rfl, -⟩ <;> rfl
    exact ⟨hlayout, hunit ▸ halign⟩
  have hanswered := answered_cacheRun hk willing_eager (fun _ => hnew) hw halways hsized
  obtain ⟨-, v, hrun, hb, -⟩ := world_on_sources hk (fun _ => hnew) hw halways hanswered
  rw [haccesses] at hrun
  exact ⟨w, v, hw, hrun, hb, hcard⟩

/-! ## Free pages -/

/-- **A free page cannot be advised away.**  Its link goes with its contents, and the pages behind
it on its list are lost; nothing happens to the list if there are none. -/
theorem dontneed_free_page {id head a : ℕ} {p : Pool} {front back : List ℕ}
    (h : run World.cacheStep .init ops = some w) (hget : w.pools.get id = some p)
    (hhead : head = p.owner.localHead ∨ head = p.returnHead)
    (hchain : Chain 0 (readPtr w.mem) head (front ++ a :: back)) :
    Chain 0 (readPtr (zero w.mem a p.pageSize)) head (front ++ [a]) ∧
      (Chain 0 (readPtr (zero w.mem a p.pageSize)) head (front ++ a :: back) ↔ back = []) := by
  have ho := owned_cacheRun h
  have hsize : 8 ≤ p.pageSize := (ho.blocks.pageSize id p hget).1
  have hle := (ho.walk hget hhead hchain).1
  have hblock : ∀ b ∈ front ++ a :: back, (⟨b, p.layout, .pool id⟩ : Block) ∈ w.blocks :=
    fun b hb => Multiset.mem_of_le hle (Multiset.mem_coe.2 (List.mem_map_of_mem hb))
  have hfront : ∀ b ∈ front, readPtr (zero w.mem a p.pageSize) b = readPtr w.mem b := by
    intro b hb
    have hne : b ≠ a := fun heq =>
      (List.nodup_append.1 hchain.nodup).2.2 b hb a List.mem_cons_self heq
    have hapart := ho.blocks.apart _ (hblock b (List.mem_append_left _ hb)) _
      (hblock a (List.mem_append_right _ List.mem_cons_self)) fun heq =>
        hne (congrArg Block.base heq)
    unfold Apart Pool.layout at hapart
    dsimp only at hapart
    exact readPtr_congr fun x hlow hhigh => zero_of_outside (by omega)
  have hcut := hchain.cut hfront (readPtr_zero hsize)
  refine ⟨hcut, fun hwhole => ?_, ?_⟩
  · have hsame := List.append_cancel_left (hcut.unique hwhole)
    exact (List.cons.inj hsame).2.symm
  · rintro rfl
    exact hcut

/-- Three free pages, and what is left of them after the first one has been advised away. -/
theorem dontneed_free_page_prewarmed : ∃ w p, run World.cacheStep .init
      [.op (.newPagePool 4096), .op (.prewarm 0 [some 4096, some 8192, some 12288])] = some w ∧
    w.pools.get 0 = some p ∧ Chain 0 (readPtr w.mem) p.owner.localHead [12288, 8192, 4096] ∧
    Chain 0 (readPtr (zero w.mem 12288 p.pageSize)) p.owner.localHead [12288] := by
  have heval : (run World.cacheStep .init [.op (.newPagePool 4096),
      .op (.prewarm 0 [some 4096, some 8192, some 12288])]).bind (fun w =>
        (w.pools.get 0).map fun p => (p.owner.localHead, readPtr w.mem 12288, readPtr w.mem 8192,
          readPtr w.mem 4096)) = some (12288, 8192, 4096, 0) := by
    decide +kernel
  obtain ⟨w, hw, heval⟩ := Option.bind_eq_some_iff.1 heval
  obtain ⟨p, hget, heq⟩ := Option.map_eq_some_iff.1 heval
  simp only [Prod.mk.injEq] at heq
  obtain ⟨hhead, hfirst, hsecond, hthird⟩ := heq
  have hchain : Chain 0 (readPtr w.mem) p.owner.localHead [12288, 8192, 4096] := by
    rw [hhead]
    refine .cons (by decide) ?_
    rw [hfirst]
    refine .cons (by decide) ?_
    rw [hsecond]
    refine .cons (by decide) ?_
    rw [hthird]
    exact .nil
  have hsplit : Chain 0 (readPtr w.mem) p.owner.localHead ([] ++ 12288 :: [8192, 4096]) := hchain
  have hcut := (dontneed_free_page hw hget (Or.inl rfl) hsplit).1
  exact ⟨w, p, hw, hget, hchain, hcut⟩

end Cache

end PagedAlloc.Sequential
