import PagedAlloc.Framework.BoundedBuffer
import PagedAlloc.Properties.Readers

/-!
# The two builders are one bounded buffer

`PageBuilder` keeps its length as a `usize` and copies to a raw pointer; `ChunkBuilder` keeps
offset, capacity and length as `u32` and copies through its slice.  Seen through their getters,
each is the bounded buffer of `Framework.BoundedBuffer`: from any buffer content, every sequence
of `append`, `set_len` and writes through `as_mut_slice` gives the answers of the reference
machine and shows what it shows.
-/

namespace PagedAlloc.Sequential

open Words Bytes Transition BoundedBuffer

/-! ## Commands to a builder -/

/-- What the getters of a builder return. -/
structure Observation where
  capacity : ℕ
  len : ℕ
  remaining : ℕ
  asSlice : List UInt8
  asMutSlice : List UInt8
  deriving DecidableEq, Repr

/-- What the reference buffer shows. -/
def Observation.ofBuffer {c : ℕ} (b : Buffer UInt8 c) : Observation :=
  ⟨c, b.len, c - b.len, b.content, b.cells⟩

/-- The answer of a call that returns nothing. -/
def replyOf : Outcome World Unit → Option (Reply × World)
  | .done _ w => some (.ok, w)
  | .panicked w => some (.panicked, w)
  | .refused => none

/-- The answer of `append`; on an error the state is the one before. -/
def replyOfAppend (w : World) : Except Full World → Reply × World
  | .ok w' => (.ok, w')
  | .error e => (.full e.capacity e.len e.attempted, w)

namespace World

variable (i : ℕ) (w : World)

def observePage : Option Observation :=
  (w.pageBuilder i).map fun h =>
    ⟨h.capacity, h.len, h.remaining, w.pageSlice h, w.pageMutSlice h⟩

def observeChunk : Option Observation :=
  (w.chunkBuilder i).map fun h =>
    ⟨h.capacity, h.len, h.remaining, w.chunkSlice h, w.chunkMutSlice h⟩

/-- A command to the page builder `i`. -/
def respondPage (r : Command UInt8) : Option (Reply × World) :=
  (w.pageBuilder i).bind fun h => match r with
    | .append data => some (replyOfAppend w (w.appendPage i h data))
    | .setLen len => replyOf (w.setLenPage i h len)
    | .write pos data => replyOf (w.writePage h pos data)

/-- A command to the chunk builder `i`. -/
def respondChunk (r : Command UInt8) : Option (Reply × World) :=
  (w.chunkBuilder i).bind fun h => match r with
    | .append data => some (replyOfAppend w (w.appendChunk i h data))
    | .setLen len => replyOf (w.setLenChunk i h len)
    | .write pos data => replyOf (w.writeChunk h pos data)

/-- The bytes of `Page::as_slice`. -/
def sealedPage : Option (List UInt8) :=
  ((w.pages.get i).filter fun h => h.refs ≠ .builder).map w.pageSlice

/-- The bytes of `Chunk::as_slice`. -/
def sealedChunk : Option (List UInt8) :=
  ((w.chunks.get i).filter fun h => h.refs ≠ .builder).map w.chunkSlice

end World

/-- The operation behind a command to the page builder `i`. -/
def onPageBuilder (i : ℕ) : Command UInt8 → Op
  | .append data => .appendPage i data
  | .setLen len => .setLenPage i len
  | .write pos data => .writePage i pos data

/-- The operation behind a command to the chunk builder `i`. -/
def onChunkBuilder (i : ℕ) : Command UInt8 → Op
  | .append data => .appendChunk i data
  | .setLen len => .setLenChunk i len
  | .write pos data => .writeChunk i pos data

variable {w w' : World} {i : ℕ} {r : Command UInt8} {a : Reply}

lemma final_of_replyOf {o : Outcome World Unit} (h : replyOf o = some (a, w')) :
    o.final = some w' := by
  cases o with
  | done _ s => exact congrArg some (Prod.mk.inj (Option.some.inj h)).2
  | panicked s => exact congrArg some (Prod.mk.inj (Option.some.inj h)).2
  | refused => cases h

lemma eq_of_replyOfAppend {o : Except Full World} : replyOfAppend w o = (a, w') →
    (match o with
      | .ok w₁ => some w₁
      | .error _ => some w) = some w' := by
  intro h
  cases o with
  | ok w₁ => exact congrArg some (Prod.mk.inj h).2
  | error e => exact congrArg some (Prod.mk.inj h).2

lemma step_of_respondPage (h : w.respondPage i r = some (a, w')) :
    w.step (onPageBuilder i r) = some w' := by
  obtain ⟨g, hg, h⟩ := Option.bind_eq_some_iff.1 h
  cases r with
  | append data =>
      exact Option.bind_eq_some_iff.2 ⟨g, hg, eq_of_replyOfAppend (Option.some.inj h)⟩
  | setLen len => exact Option.bind_eq_some_iff.2 ⟨g, hg, final_of_replyOf h⟩
  | write pos data => exact Option.bind_eq_some_iff.2 ⟨g, hg, final_of_replyOf h⟩

lemma step_of_respondChunk (h : w.respondChunk i r = some (a, w')) :
    w.step (onChunkBuilder i r) = some w' := by
  obtain ⟨g, hg, h⟩ := Option.bind_eq_some_iff.1 h
  cases r with
  | append data =>
      exact Option.bind_eq_some_iff.2 ⟨g, hg, eq_of_replyOfAppend (Option.some.inj h)⟩
  | setLen len => exact Option.bind_eq_some_iff.2 ⟨g, hg, final_of_replyOf h⟩
  | write pos data => exact Option.bind_eq_some_iff.2 ⟨g, hg, final_of_replyOf h⟩

/-! ## Each builder refines the buffer -/

section Refinement

variable {c : ℕ} {b : Buffer UInt8 c} {m : Memory}

/-- A write into the memory of a builder is a store into the buffer it shows. -/
lemma read_store {x pos : ℕ} {data : List UInt8} (hread : read m x c = b.cells)
    (hfit : pos + data.length ≤ c) :
    read (write m (x + pos) data) x c = (b.store pos data hfit).cells := by
  rw [read_write hfit, hread]
  rfl

lemma content_of_read {x : ℕ} (hread : read m x c = b.cells) : read m x b.len = b.content := by
  rw [Buffer.content, ← hread, take_read b.len_le]

lemma observePage_iff : w.observePage i = some (.ofBuffer b) ↔
    ∃ h, w.pageBuilder i = some h ∧ h.capacity = c ∧ h.len = b.len ∧
      read w.mem h.buf c = b.cells := by
  unfold World.observePage
  rw [Option.map_eq_some_iff]
  constructor
  · rintro ⟨h, hi, heq⟩
    obtain ⟨hcap, hlen, -, -, hcells⟩ := Observation.mk.inj heq
    refine ⟨h, hi, hcap, hlen, ?_⟩
    rw [← hcells, World.pageMutSlice, hcap]
  · rintro ⟨h, hi, rfl, hlen, hread⟩
    refine ⟨h, hi, ?_⟩
    rw [Observation.ofBuffer, World.pageMutSlice, World.pageSlice, PageHandle.remaining, hlen,
      hread, content_of_read hread]

lemma pageBuilder_set {h h' : PageHandle} (hi : w.pageBuilder i = some h)
    (hrefs : h'.refs = .builder) :
    ({ w with mem := m, pages := w.pages.set i h' } : World).pageBuilder i = some h' := by
  unfold World.pageBuilder
  dsimp only
  rw [Arena.get_set_self (World.pageBuilder_eq_some hi).1, Option.filter_some, if_pos]
  simpa using hrefs

/-- One command to a page builder. -/
lemma refines_respondPage (hshow : w.observePage i = some (.ofBuffer b)) (r : Command UInt8) :
    ∃ w', w.respondPage i r = some ((b.respond r).1, w') ∧
      w'.observePage i = some (.ofBuffer (b.respond r).2) := by
  obtain ⟨h, hi, rfl, hlen, hread⟩ := observePage_iff.1 hshow
  have hrefs := (World.pageBuilder_eq_some hi).2
  unfold World.respondPage
  rw [hi, Option.bind_some]
  cases r with
  | append data =>
      by_cases hfit : b.len + data.length ≤ h.capacity
      · simp only [World.appendPage, Buffer.respond, hlen, dif_pos hfit, if_neg (not_lt.2 hfit),
          replyOfAppend]
        refine ⟨_, rfl, observePage_iff.2 ⟨_, pageBuilder_set hi ?_, rfl, rfl, ?_⟩⟩
        · exact hrefs
        · exact read_store hread hfit
      · simp only [World.appendPage, Buffer.respond, hlen, dif_neg hfit, if_pos (not_le.1 hfit),
          replyOfAppend]
        exact ⟨w, rfl, hshow⟩
  | setLen len =>
      by_cases hfit : len ≤ h.capacity
      · simp only [World.setLenPage, Buffer.respond, dif_pos hfit, if_pos hfit, replyOf]
        exact ⟨_, rfl, observePage_iff.2 ⟨_, pageBuilder_set hi hrefs, rfl, rfl, hread⟩⟩
      · simp only [World.setLenPage, Buffer.respond, dif_neg hfit, if_neg hfit, replyOf]
        exact ⟨w, rfl, hshow⟩
  | write pos data =>
      by_cases hfit : pos + data.length ≤ h.capacity
      · simp only [World.writePage, Buffer.respond, dif_pos hfit, if_pos hfit, replyOf]
        exact ⟨_, rfl, observePage_iff.2 ⟨h, hi, rfl, hlen, read_store hread hfit⟩⟩
      · simp only [World.writePage, Buffer.respond, dif_neg hfit, if_neg hfit, replyOf]
        exact ⟨w, rfl, hshow⟩

lemma observeChunk_iff (hpos : 0 < c) : w.observeChunk i = some (.ofBuffer b) ↔
    ∃ h x, w.chunkBuilder i = some h ∧ h.base = some x ∧ h.capacity = c ∧ h.len = b.len ∧
      read w.mem x c = b.cells := by
  unfold World.observeChunk
  rw [Option.map_eq_some_iff]
  constructor
  · rintro ⟨h, hi, heq⟩
    obtain ⟨hcap, hlen, -, -, hcells⟩ := Observation.mk.inj heq
    rw [World.chunkMutSlice, World.chunkBytes] at hcells
    cases hbase : h.base with
    | none =>
        -- only a chunk of no bytes has no page
        rw [hbase] at hcells
        have hzero : b.cells.length = 0 := by rw [← hcells]; rfl
        rw [b.length_cells] at hzero
        omega
    | some x =>
        rw [hbase, hcap] at hcells
        exact ⟨h, x, hi, hbase, hcap, hlen, hcells⟩
  · rintro ⟨h, x, hi, hbase, rfl, hlen, hread⟩
    refine ⟨h, hi, ?_⟩
    rw [Observation.ofBuffer, World.chunkMutSlice, World.chunkSlice, World.chunkBytes,
      World.chunkBytes, hbase]
    dsimp only
    rw [ChunkHandle.remaining, hlen, hread, content_of_read hread]

lemma chunkBuilder_set {h h' : ChunkHandle} (hi : w.chunkBuilder i = some h)
    (hrefs : h'.refs = .builder) :
    ({ w with mem := m, chunks := w.chunks.set i h' } : World).chunkBuilder i = some h' := by
  unfold World.chunkBuilder
  dsimp only
  rw [Arena.get_set_self (World.chunkBuilder_eq_some hi).1, Option.filter_some, if_pos]
  simpa using hrefs

/-- One command to a chunk builder; the casts to `u32` keep every length. -/
lemma refines_respondChunk (hpos : 0 < c) (hsmall : c < 2 ^ 32)
    (hshow : w.observeChunk i = some (.ofBuffer b)) (r : Command UInt8) :
    ∃ w', w.respondChunk i r = some ((b.respond r).1, w') ∧
      w'.observeChunk i = some (.ofBuffer (b.respond r).2) := by
  obtain ⟨h, x, hi, hbase, rfl, hlen, hread⟩ := (observeChunk_iff hpos).1 hshow
  have hrefs := (World.chunkBuilder_eq_some hi).2
  have hexact : ∀ n ≤ h.capacity, truncate32 n = n := by
    intro n hn
    exact (truncate32_eq_iff n).2 (lt_of_le_of_lt hn hsmall)
  unfold World.respondChunk
  rw [hi, Option.bind_some]
  cases r with
  | append data =>
      by_cases hfit : b.len + data.length ≤ h.capacity
      · simp only [World.appendChunk, World.storeChunk, hbase, Buffer.respond, hlen, dif_pos hfit,
          if_neg (not_lt.2 hfit), replyOfAppend, hexact _ hfit]
        refine ⟨_, rfl, (observeChunk_iff hpos).2
          ⟨_, x, chunkBuilder_set hi ?_, hbase, rfl, rfl, ?_⟩⟩
        · exact hrefs
        · exact read_store hread hfit
      · simp only [World.appendChunk, Buffer.respond, hlen, dif_neg hfit, if_pos (not_le.1 hfit),
          replyOfAppend]
        exact ⟨w, rfl, hshow⟩
  | setLen len =>
      by_cases hfit : len ≤ h.capacity
      · simp only [World.setLenChunk, Buffer.respond, dif_pos hfit, if_pos hfit, replyOf,
          hexact _ hfit]
        exact ⟨_, rfl, (observeChunk_iff hpos).2
          ⟨_, x, chunkBuilder_set hi hrefs, hbase, rfl, rfl, hread⟩⟩
      · simp only [World.setLenChunk, Buffer.respond, dif_neg hfit, if_neg hfit, replyOf]
        exact ⟨w, rfl, hshow⟩
  | write pos data =>
      by_cases hfit : pos + data.length ≤ h.capacity
      · simp only [World.writeChunk, World.storeChunk, hbase, Buffer.respond, dif_pos hfit,
          if_pos hfit, replyOf]
        exact ⟨_, rfl, (observeChunk_iff hpos).2
          ⟨h, x, hi, hbase, rfl, hlen, read_store hread hfit⟩⟩
      · simp only [World.writeChunk, Buffer.respond, dif_neg hfit, if_neg hfit, replyOf]
        exact ⟨w, rfl, hshow⟩

end Refinement

/-! ## Sealing -/

section Sealing

variable {c : ℕ} {b : Buffer UInt8 c}

lemma mem_dropShared {id : ℕ} : (w.dropShared id).mem = w.mem := by
  obtain ⟨ps, bs, es, as, f, h⟩ := World.dropShared_frame (w := w) id
  rw [h]

lemma sealPage_frame {h : PageHandle} (hget : w.pages.get i = some h) :
    (w.sealPage i h).mem = w.mem ∧
      (w.sealPage i h).pages.get i = some { h with refs := .sealed 1 } := by
  have hpages : (w.sealPage i h).pages = w.pages.set i { h with refs := .sealed 1 } :=
    congrArg Ledger.pages ledger_sealPage
  refine ⟨?_, ?_⟩
  · unfold World.sealPage
    exact mem_dropShared.trans mem_cloneShared
  · rw [hpages, Arena.get_set_self hget]

/-- The sealed page shows the content of the builder. -/
lemma sealedPage_of_observe (hshow : w.observePage i = some (.ofBuffer b)) :
    (w.step (.sealPage i)).bind (World.sealedPage i) = some b.content := by
  obtain ⟨h, hi, -, hlen, hread⟩ := observePage_iff.1 hshow
  obtain ⟨hmem, hget⟩ := sealPage_frame (World.pageBuilder_eq_some hi).1
  rw [World.step, hi, Option.map_some, Option.bind_some, World.sealedPage, hget,
    Option.filter_some, if_pos (by simp), Option.map_some, World.pageSlice, hmem]
  exact congrArg some (hlen ▸ content_of_read hread)

/-- The sealed chunk shows the content of the builder. -/
lemma sealedChunk_of_observe (ho : Owned w.idle) (hpos : 0 < c)
    (hshow : w.observeChunk i = some (.ofBuffer b)) :
    (w.step (.sealChunk i)).bind (World.sealedChunk i) = some b.content := by
  obtain ⟨h, x, hi, hbase, -, hlen, hread⟩ := (observeChunk_iff hpos).1 hshow
  obtain ⟨hmem, -, hget⟩ := sealChunk_frame ho (World.chunkBuilder_eq_some hi).1
  have hbase' : ({ h with refs := .sealed 1 } : ChunkHandle).base = some x := hbase
  rw [World.step, hi, Option.map_some, Option.bind_some, World.sealedChunk, hget,
    Option.filter_some, if_pos (by simp), Option.map_some, World.chunkSlice, World.chunkBytes,
    hbase', hmem]
  exact congrArg some (hlen ▸ content_of_read hread)

end Sealing

/-! ## Agreement -/

/-- What the commands `cs` do to a page builder and a chunk builder that both show the buffer `b`:
the worlds `w₁` and `w₂` become `v₁` and `v₂`. -/
structure BuildersAgree {c : ℕ} (b : Buffer UInt8 c) (cs : List (Command UInt8)) (i j : ℕ)
    (w₁ w₂ v₁ v₂ : World) : Prop where
  /-- Both give the answers of the reference buffer. -/
  answersPage : answers (World.respondPage i) w₁ cs = some ((serve Buffer.respond b cs).1, v₁)
  answersChunk : answers (World.respondChunk j) w₂ cs = some ((serve Buffer.respond b cs).1, v₂)
  runPage : run World.step w₁ (cs.map (onPageBuilder i)) = some v₁
  runChunk : run World.step w₂ (cs.map (onChunkBuilder j)) = some v₂
  /-- Both show what the reference buffer shows. -/
  showsPage : v₁.observePage i = some (.ofBuffer (serve Buffer.respond b cs).2)
  showsChunk : v₂.observeChunk j = some (.ofBuffer (serve Buffer.respond b cs).2)
  /-- The sum in the next `append` stays in a `usize`, and in a `u32` if the append succeeds. -/
  noOverflow : ∀ data : List UInt8, data.length < 2 ^ 63 →
    (serve Buffer.respond b cs).2.len + data.length < size64 ∧
      ((serve Buffer.respond b cs).2.len + data.length ≤ c →
        truncate32 data.length = data.length ∧
          (serve Buffer.respond b cs).2.len + data.length < size32)
  sealedPage : (v₁.step (.sealPage i)).bind (World.sealedPage i) =
    some (serve Buffer.respond b cs).2.content
  sealedChunk : (v₂.step (.sealChunk j)).bind (World.sealedChunk j) =
    some (serve Buffer.respond b cs).2.content
  /-- With appends only, the content is what was accepted, whatever the buffer held. -/
  appended : b.len = 0 → (∀ r ∈ cs, r.IsAppend) → ∀ stale : Buffer UInt8 c, stale.len = 0 →
    (serve Buffer.respond b cs).2.content = accepted cs (serve Buffer.respond stale cs).1

/-- **The two builders are the same bounded buffer**, over every sequence of commands and from
every content.  Only the seal of the chunk depends on the run before: it drops a reference. -/
theorem builders_agree {ops : List Op} {w₁ w₂ : World} {i j c : ℕ} {b : Buffer UInt8 c}
    (h : runOps ops = some w₂) (hmin : 8 ≤ c) (hmax : c < 2 ^ 32)
    (hpage : w₁.observePage i = some (.ofBuffer b))
    (hchunk : w₂.observeChunk j = some (.ofBuffer b)) (cs : List (Command UInt8)) :
    ∃ v₁ v₂, BuildersAgree b cs i j w₁ w₂ v₁ v₂ := by
  have hpos : 0 < c := by omega
  obtain ⟨v₁, hans₁, hshow₁⟩ := answers_of_refines
    (R := fun (w : World) (b : Buffer UInt8 c) => w.observePage i = some (.ofBuffer b))
    (fun _ _ r hshow => refines_respondPage hshow r) cs hpage
  obtain ⟨v₂, hans₂, hshow₂⟩ := answers_of_refines
    (R := fun (w : World) (b : Buffer UInt8 c) => w.observeChunk j = some (.ofBuffer b))
    (fun _ _ r hshow => refines_respondChunk hpos hmax hshow r) cs hchunk
  have hrun₁ : run World.step w₁ (cs.map (onPageBuilder i)) = some v₁ := by
    refine run_of_answers ?_ hans₁
    intro s r a s' hrespond
    exact step_of_respondPage hrespond
  have hrun₂ : run World.step w₂ (cs.map (onChunkBuilder j)) = some v₂ := by
    refine run_of_answers ?_ hans₂
    intro s r a s' hrespond
    exact step_of_respondChunk hrespond
  have ho₂ : Owned v₂.idle := owned_run (run_append_eq_some.2 ⟨w₂, h, hrun₂⟩)
  refine ⟨v₁, v₂, ⟨hans₁, hans₂, hrun₁, hrun₂, hshow₁, hshow₂, ?_,
    sealedPage_of_observe hshow₁, sealedChunk_of_observe ho₂ hpos hshow₂, ?_⟩⟩
  · intro data hdata
    have hlen := (serve Buffer.respond b cs).2.len_le
    rw [truncate32_eq_iff, size64_eq, show size32 = 2 ^ 32 from rfl]
    omega
  · intro hempty happend stale hstale
    rw [content_serve happend, serve_congr (hempty.trans hstale.symm), Buffer.content, hempty,
      List.take_zero, List.nil_append]

/-- Eight bytes left by an earlier use. -/
def staleBuffer : Buffer UInt8 8 where
  cells := [9, 9, 9, 9, 9, 9, 9, 9]
  len := 0
  length_cells := by decide
  len_le := by decide

theorem builders_agree_stale : ∃ w₁ w₂ v₁ v₂,
    runOps [.newPagePool 8, .allocatePage 0 0 (some 8), .writePage 0 0 staleBuffer.cells] =
      some w₁ ∧
    runOps [.newChunkPool 64, .allocateChunk 0 0 8 8 (some 8), .writeChunk 0 0 staleBuffer.cells] =
      some w₂ ∧
    BuildersAgree staleBuffer [.append [1, 2], .append [0, 0, 0, 0, 0, 0, 0], .append [3]] 0 0
      w₁ w₂ v₁ v₂ ∧
    (v₁.step (.sealPage 0)).bind (World.sealedPage 0) = some [1, 2, 3] := by
  have hpage : (runOps [.newPagePool 8, .allocatePage 0 0 (some 8),
      .writePage 0 0 staleBuffer.cells]).bind (World.observePage 0) =
        some (.ofBuffer staleBuffer) := by
    decide +kernel
  have hchunk : (runOps [.newChunkPool 64, .allocateChunk 0 0 8 8 (some 8),
      .writeChunk 0 0 staleBuffer.cells]).bind (World.observeChunk 0) =
        some (.ofBuffer staleBuffer) := by
    decide +kernel
  obtain ⟨w₁, h₁, hpage⟩ := Option.bind_eq_some_iff.1 hpage
  obtain ⟨w₂, h₂, hchunk⟩ := Option.bind_eq_some_iff.1 hchunk
  obtain ⟨v₁, v₂, hagree⟩ := builders_agree h₂ (by decide) (by decide) hpage hchunk
    [.append [1, 2], .append [0, 0, 0, 0, 0, 0, 0], .append [3]]
  exact ⟨w₁, w₂, v₁, v₂, h₁, h₂, hagree, hagree.sealedPage⟩

end PagedAlloc.Sequential
