import PagedAlloc.Framework.Projection
import PagedAlloc.Properties.Journal

/-!
# No interference between tenants

Tenants share pages, free lists and recycled buffers, but the counters of a tenant depend on
nothing but what is done on its own behalf.  `TenantView` is a machine that knows one tenant only:
its counters and its handles, numbered in the order in which it got them.  In every run the counters
of a tenant are those of the machine after the history of the tenant (`mirrors_run`), so two runs
with the same history leave the same counters (`no_interference`).
-/

namespace PagedAlloc.Sequential

open Words Transition

/-! ## One tenant alone -/

/-- What a tenant knows of a handle of its own. -/
structure HandleView where
  capacity : ℕ
  refs : Refs
  deriving DecidableEq, Repr

/-- The counters of one tenant, with its handles. -/
structure TenantView where
  stats : TenantStats
  pages : Arena HandleView
  chunks : Arena HandleView

def TenantView.init : TenantView := ⟨TenantStats.default, .empty, .empty⟩

def HandleView.sealOne (h : HandleView) : HandleView := { h with refs := .sealed 1 }

/-- One clone more. -/
def HandleView.cloneOne (h : HandleView) : HandleView :=
  match h.refs with
  | .builder => h
  | .sealed c => { h with refs := .sealed (c + 1) }

/-- One clone less; `none` if it was the last, or a builder. -/
def HandleView.dropOne (h : HandleView) : Option HandleView :=
  match h.refs with
  | .builder | .sealed 1 => none
  | .sealed c => some { h with refs := .sealed (c - 1) }

section HandleView

variable {h : HandleView} {c : ℕ}

lemma cloneOne_of_sealed (hrefs : h.refs = .sealed c) :
    h.cloneOne = { h with refs := .sealed (c + 1) } := by
  unfold HandleView.cloneOne
  rw [hrefs]

lemma dropOne_of_last (hlast : h.refs = .builder ∨ h.refs = .sealed 1) : h.dropOne = none := by
  unfold HandleView.dropOne
  rcases hlast with hrefs | hrefs
  · rw [hrefs]
  · rw [hrefs]
    rfl

lemma dropOne_of_shared (hrefs : h.refs = .sealed c) (hne : c ≠ 1) :
    h.dropOne = some { h with refs := .sealed (c - 1) } := by
  unfold HandleView.dropOne
  rw [hrefs]
  split
  · rename_i heq
    exact absurd heq (by simp)
  · rename_i heq
    exact absurd (Refs.sealed.inj heq) hne
  · rename_i heq
    rw [Refs.sealed.inj heq]

end HandleView

namespace TenantView

variable (s : TenantView)

def dropPage (k : ℕ) : TenantView :=
  match s.pages.get k with
  | none => s
  | some h => match h.dropOne with
      | none => { s with stats := s.stats.recordRelease h.capacity, pages := s.pages.erase k }
      | some h' => { s with pages := s.pages.set k h' }

def dropChunk (k : ℕ) : TenantView :=
  match s.chunks.get k with
  | none => s
  | some h => match h.dropOne with
      | none =>
          { s with stats := s.stats.recordChunkRelease h.capacity, chunks := s.chunks.erase k }
      | some h' => { s with chunks := s.chunks.set k h' }

/-- One act of the tenant; its handles are numbered in the order in which it got them. -/
def exec : Act → TenantView
  | .allocatePage pageSize =>
      { s with
        stats := s.stats.recordAllocate pageSize
        pages := s.pages.push ⟨pageSize, .builder⟩ }
  | .allocateChunk pageSize size align =>
      if Granted pageSize size align then
        { s with
          stats := s.stats.recordChunkAllocate size
          chunks := s.chunks.push ⟨truncate32 size, .builder⟩ }
      else s
  | .sealPage k => { s with pages := s.pages.modify k .sealOne }
  | .clonePage k => { s with pages := s.pages.modify k .cloneOne }
  | .dropPage k => s.dropPage k
  | .sealChunk k => { s with chunks := s.chunks.modify k .sealOne }
  | .cloneChunk k => { s with chunks := s.chunks.modify k .cloneOne }
  | .dropChunk k => s.dropChunk k

def execAll (acts : List Act) : TenantView := acts.foldl exec s

end TenantView

/-! ## The history of a tenant -/

/-- The tenant of a page that was allocated. -/
def Made.pageTenant : Made → Option ℕ
  | .page tenant _ => some tenant
  | .chunk _ _ _ => none

/-- The tenant of a chunk that was allocated. -/
def Made.chunkTenant : Made → Option ℕ
  | .page _ _ => none
  | .chunk tenant _ _ => some tenant

/-- The same act with other names for the handles. -/
def Act.rename (page chunk : ℕ → ℕ) : Act → Act
  | .allocatePage pageSize => .allocatePage pageSize
  | .allocateChunk pageSize size align => .allocateChunk pageSize size align
  | .sealPage i => .sealPage (page i)
  | .clonePage i => .clonePage (page i)
  | .dropPage i => .dropPage (page i)
  | .sealChunk i => .sealChunk (chunk i)
  | .cloneChunk i => .cloneChunk (chunk i)
  | .dropChunk i => .dropChunk (chunk i)

namespace Ledger

variable (l : Ledger)

/-- The tenants of all pages so far, in the order of their identities. -/
def pageTenants : List ℕ := (l.made.filterMap Made.pageTenant).reverse

/-- The tenants of all chunks so far, in the order of their identities. -/
def chunkTenants : List ℕ := (l.made.filterMap Made.chunkTenant).reverse

/-- What the tenant sees of an entry: its own acts, with its handles numbered in the order in which
it got them. -/
def view (tenant : ℕ) (e : Entry) : Option Act :=
  if e.tenant = tenant then
    some (e.act.rename (Arena.rank l.pageTenants tenant) (Arena.rank l.chunkTenants tenant))
  else none

end Ledger

/-- What is done on behalf of the tenant in a run from `w`. -/
def history (tenant : ℕ) : World → List Op → List Act
  | _, [] => []
  | w, op :: ops => match w.step op with
      | none => []
      | some w' =>
          (w.entries op).filterMap (w'.ledger.view tenant) ++ history tenant w' ops

/-! ## The machine follows the ledger -/

/-- The view of a page handle. -/
def PageHandle.view (h : PageHandle) : HandleView := ⟨h.capacity, h.refs⟩

/-- The view of a chunk handle. -/
def ChunkHandle.view (h : ChunkHandle) : HandleView := ⟨h.capacity, h.refs⟩

/-- The machine of the tenant is in the state that the ledger is in, as far as the tenant is
concerned. -/
structure Mirrors (tenant : ℕ) (l : Ledger) (s : TenantView) : Prop where
  stats : s.stats = l.tenants tenant
  pages : Arena.Projects l.pageTenants tenant PageHandle.tenant PageHandle.view l.pages s.pages
  chunks : Arena.Projects l.chunkTenants tenant ChunkHandle.tenant ChunkHandle.view l.chunks
    s.chunks

section Mirrors

variable {tenant i : ℕ} {l l' : Ledger} {s : TenantView} {es : List Entry}

lemma mirrors_init (tenant : ℕ) : Mirrors tenant World.init.ledger .init := ⟨rfl, .empty, .empty⟩

lemma view_of_tenant {e : Entry} (h : e.tenant = tenant) : l.view tenant e =
    some (e.act.rename (Arena.rank l.pageTenants tenant) (Arena.rank l.chunkTenants tenant)) :=
  if_pos h

lemma view_of_ne {e : Entry} (h : e.tenant ≠ tenant) : l.view tenant e = none := if_neg h

/-- What the tenant does after an entry. -/
lemma execAll_view (e : Entry) (s : TenantView) : s.execAll ([e].filterMap (l.view tenant)) =
    if e.tenant = tenant then s.exec (e.act.rename (Arena.rank l.pageTenants tenant)
      (Arena.rank l.chunkTenants tenant)) else s := by
  split
  · rename_i h
    rw [List.filterMap_cons_some (view_of_tenant h)]
    rfl
  · rename_i h
    rw [List.filterMap_cons_none (view_of_ne h)]
    rfl

/-! ### Pages -/

lemma pageTenants_addPage {h : PageHandle} :
    (l.addPage h).pageTenants = l.pageTenants ++ [h.tenant] := by
  simp [Ledger.pageTenants, Ledger.addPage, Made.pageTenant]

lemma Mirrors.addPage {h : PageHandle} (hm : Mirrors tenant l s) (hrefs : h.refs = .builder) :
    Mirrors tenant (l.addPage h)
      (if h.tenant = tenant then s.exec (.allocatePage h.capacity) else s) := by
  have hview : h.view = ⟨h.capacity, .builder⟩ := by
    unfold PageHandle.view
    rw [hrefs]
  have hpages := hm.pages.push (a := h)
  rw [← pageTenants_addPage, hview] at hpages
  split
  · rename_i ht
    rw [if_pos ht] at hpages
    refine ⟨?_, hpages, hm.chunks⟩
    show s.stats.recordAllocate h.capacity = Function.update l.tenants h.tenant _ tenant
    rw [← ht, Function.update_self, ht, hm.stats]
  · rename_i ht
    rw [if_neg ht] at hpages
    refine ⟨?_, hpages, hm.chunks⟩
    show s.stats = Function.update l.tenants h.tenant _ tenant
    rw [Function.update_of_ne (Ne.symm ht), hm.stats]

lemma Mirrors.modifyPage {h h' : PageHandle} {f : HandleView → HandleView}
    (hm : Mirrors tenant l s) (hget : l.pages.get i = some h) (htenant : h'.tenant = h.tenant)
    (hf : f h.view = h'.view) :
    Mirrors tenant { l with pages := l.pages.set i h' }
      (if h.tenant = tenant then
        { s with pages := s.pages.modify (Arena.rank l.pageTenants tenant i) f } else s) := by
  have hpages := hm.pages.modify hget htenant hf
  split
  · rename_i ht
    rw [if_pos ht] at hpages
    exact ⟨hm.stats, hpages, hm.chunks⟩
  · rename_i ht
    rw [if_neg ht] at hpages
    exact ⟨hm.stats, hpages, hm.chunks⟩

lemma Mirrors.unsharePage {h h' : PageHandle} (hm : Mirrors tenant l s)
    (hget : l.pages.get i = some h) (htenant : h'.tenant = h.tenant)
    (hdrop : h.view.dropOne = some h'.view) :
    Mirrors tenant { l with pages := l.pages.set i h' }
      (if h.tenant = tenant then s.dropPage (Arena.rank l.pageTenants tenant i) else s) := by
  have hpages := hm.pages.set hget htenant
  split
  · rename_i ht
    unfold TenantView.dropPage
    rw [hm.pages.get i h hget ht]
    dsimp only
    rw [hdrop]
    rw [if_pos ht] at hpages
    exact ⟨hm.stats, hpages, hm.chunks⟩
  · rename_i ht
    rw [if_neg ht] at hpages
    exact ⟨hm.stats, hpages, hm.chunks⟩

lemma Mirrors.removePage {h : PageHandle} (hm : Mirrors tenant l s)
    (hget : l.pages.get i = some h) (hlast : h.view.dropOne = none) :
    Mirrors tenant (l.removePage i h)
      (if h.tenant = tenant then s.dropPage (Arena.rank l.pageTenants tenant i) else s) := by
  have hpages := hm.pages.erase hget
  split
  · rename_i ht
    unfold TenantView.dropPage
    rw [hm.pages.get i h hget ht]
    dsimp only
    rw [hlast]
    rw [if_pos ht] at hpages
    refine ⟨?_, hpages, hm.chunks⟩
    show s.stats.recordRelease h.capacity = Function.update l.tenants h.tenant _ tenant
    rw [← ht, Function.update_self, ht, hm.stats]
  · rename_i ht
    rw [if_neg ht] at hpages
    refine ⟨?_, hpages, hm.chunks⟩
    show s.stats = Function.update l.tenants h.tenant _ tenant
    rw [Function.update_of_ne (Ne.symm ht), hm.stats]

/-! ### Chunks -/

lemma chunkTenants_addChunk {h : ChunkHandle} :
    (l.addChunk h).chunkTenants = l.chunkTenants ++ [h.tenant] := by
  simp [Ledger.chunkTenants, Ledger.addChunk, Made.chunkTenant]

lemma Mirrors.addChunk {h : ChunkHandle} {pageSize align : ℕ} (hm : Mirrors tenant l s)
    (hgranted : Granted pageSize h.request.size align)
    (hcapacity : h.capacity = truncate32 h.request.size) (hrefs : h.refs = .builder) :
    Mirrors tenant (l.addChunk h)
      (if h.tenant = tenant then s.exec (.allocateChunk pageSize h.request.size align) else s) := by
  have hview : h.view = ⟨truncate32 h.request.size, .builder⟩ := by
    unfold ChunkHandle.view
    rw [hrefs, hcapacity]
  have hchunks := hm.chunks.push (a := h)
  rw [← chunkTenants_addChunk, hview] at hchunks
  split
  · rename_i ht
    rw [if_pos ht] at hchunks
    unfold TenantView.exec
    dsimp only
    rw [if_pos hgranted]
    refine ⟨?_, hm.pages, hchunks⟩
    show s.stats.recordChunkAllocate h.request.size = Function.update l.tenants h.tenant _ tenant
    rw [← ht, Function.update_self, ht, hm.stats]
  · rename_i ht
    rw [if_neg ht] at hchunks
    refine ⟨?_, hm.pages, hchunks⟩
    show s.stats = Function.update l.tenants h.tenant _ tenant
    rw [Function.update_of_ne (Ne.symm ht), hm.stats]

lemma Mirrors.modifyChunk {h h' : ChunkHandle} {f : HandleView → HandleView}
    (hm : Mirrors tenant l s) (hget : l.chunks.get i = some h) (htenant : h'.tenant = h.tenant)
    (hf : f h.view = h'.view) :
    Mirrors tenant { l with chunks := l.chunks.set i h' }
      (if h.tenant = tenant then
        { s with chunks := s.chunks.modify (Arena.rank l.chunkTenants tenant i) f } else s) := by
  have hchunks := hm.chunks.modify hget htenant hf
  split
  · rename_i ht
    rw [if_pos ht] at hchunks
    exact ⟨hm.stats, hm.pages, hchunks⟩
  · rename_i ht
    rw [if_neg ht] at hchunks
    exact ⟨hm.stats, hm.pages, hchunks⟩

lemma Mirrors.unshareChunk {h h' : ChunkHandle} (hm : Mirrors tenant l s)
    (hget : l.chunks.get i = some h) (htenant : h'.tenant = h.tenant)
    (hdrop : h.view.dropOne = some h'.view) :
    Mirrors tenant { l with chunks := l.chunks.set i h' }
      (if h.tenant = tenant then s.dropChunk (Arena.rank l.chunkTenants tenant i) else s) := by
  have hchunks := hm.chunks.set hget htenant
  split
  · rename_i ht
    unfold TenantView.dropChunk
    rw [hm.chunks.get i h hget ht]
    dsimp only
    rw [hdrop]
    rw [if_pos ht] at hchunks
    exact ⟨hm.stats, hm.pages, hchunks⟩
  · rename_i ht
    rw [if_neg ht] at hchunks
    exact ⟨hm.stats, hm.pages, hchunks⟩

lemma Mirrors.removeChunk {h : ChunkHandle} (hm : Mirrors tenant l s)
    (hget : l.chunks.get i = some h) (hlast : h.view.dropOne = none) :
    Mirrors tenant (l.removeChunk i h)
      (if h.tenant = tenant then s.dropChunk (Arena.rank l.chunkTenants tenant i) else s) := by
  have hchunks := hm.chunks.erase hget
  split
  · rename_i ht
    unfold TenantView.dropChunk
    rw [hm.chunks.get i h hget ht]
    dsimp only
    rw [hlast]
    rw [if_pos ht] at hchunks
    refine ⟨?_, hm.pages, hchunks⟩
    show s.stats.recordChunkRelease h.capacity = Function.update l.tenants h.tenant _ tenant
    rw [← ht, Function.update_self, ht, hm.stats]
  · rename_i ht
    rw [if_neg ht] at hchunks
    refine ⟨?_, hm.pages, hchunks⟩
    show s.stats = Function.update l.tenants h.tenant _ tenant
    rw [Function.update_of_ne (Ne.symm ht), hm.stats]

/-! ### Steps -/

/-- **One step.** -/
lemma Mirrors.step (hm : Mirrors tenant l s) (hstep : Ledger.Step es l l') :
    Mirrors tenant l' (s.execAll (es.filterMap (l'.view tenant))) := by
  cases hstep with
  | allocatePage _ a id t pageSize =>
      rw [execAll_view]
      exact hm.addPage rfl
  | fillPage _ hget hle =>
      exact ⟨hm.stats, hm.pages.set_of_view_eq hget rfl fun _ => rfl, hm.chunks⟩
  | sealPage _ hget =>
      rw [execAll_view]
      exact hm.modifyPage hget rfl rfl
  | @clonePage _ i c h hget hrefs =>
      rw [execAll_view]
      exact hm.modifyPage hget rfl (cloneOne_of_sealed hrefs)
  | @unsharePage _ i c h hget hrefs hne =>
      rw [execAll_view]
      exact hm.unsharePage hget rfl (dropOne_of_shared hrefs hne)
  | @releasePage _ i h hget hlast =>
      rw [execAll_view]
      exact hm.removePage hget (dropOne_of_last hlast)
  | allocateChunk _ hgranted hcapacity hrefs =>
      rw [execAll_view]
      exact hm.addChunk hgranted hcapacity hrefs
  | @refuseChunk _ t pageSize size align hrefused =>
      rw [execAll_view]
      have hsame : s.exec (.allocateChunk pageSize size align) = s := if_neg hrefused
      show Mirrors tenant l (if t = tenant then s.exec (.allocateChunk pageSize size align) else s)
      rwa [hsame, ite_self]
  | fillChunk _ hget =>
      exact ⟨hm.stats, hm.pages, hm.chunks.set_of_view_eq hget rfl fun _ => rfl⟩
  | sealChunk _ hget =>
      rw [execAll_view]
      exact hm.modifyChunk hget rfl rfl
  | @cloneChunk _ i c h hget hrefs =>
      rw [execAll_view]
      exact hm.modifyChunk hget rfl (cloneOne_of_sealed hrefs)
  | @unshareChunk _ i c h hget hrefs hne =>
      rw [execAll_view]
      exact hm.unshareChunk hget rfl (dropOne_of_shared hrefs hne)
  | @releaseChunk _ i h hget hlast =>
      rw [execAll_view]
      exact hm.removeChunk hget (dropOne_of_last hlast)

/-- The handle the act is about is one of the first `pages` pages or `chunks` chunks. -/
def Act.Below (pages chunks : ℕ) : Act → Prop
  | .allocatePage _ | .allocateChunk _ _ _ => True
  | .sealPage i | .clonePage i | .dropPage i => i < pages
  | .sealChunk i | .cloneChunk i | .dropChunk i => i < chunks

/-- Handles are made, and none is forgotten. -/
structure Ledger.Grows (l l' : Ledger) : Prop where
  pages : l.pages.next ≤ l'.pages.next
  chunks : l.chunks.next ≤ l'.chunks.next
  pageTenants : l.pageTenants <+: l'.pageTenants
  chunkTenants : l.chunkTenants <+: l'.chunkTenants

lemma grows_step (h : Ledger.Step es l l') : l.Grows l' := by
  have hrefl (x : List ℕ) : x <+: x := List.prefix_rfl
  cases h with
  | allocatePage _ a id t pageSize =>
      refine ⟨Nat.le_succ _, Nat.le_refl _, ?_, hrefl _⟩
      rw [pageTenants_addPage]
      exact List.prefix_append _ _
  | allocateChunk _ hgranted hcapacity hrefs =>
      refine ⟨Nat.le_refl _, Nat.le_succ _, hrefl _, ?_⟩
      rw [chunkTenants_addChunk]
      exact List.prefix_append _ _
  | _ => exact ⟨Nat.le_refl _, Nat.le_refl _, hrefl _, hrefl _⟩

lemma below_step (h : Ledger.Step es l l') :
    ∀ e ∈ es, e.act.Below l'.pages.next l'.chunks.next := by
  cases h with
  | fillPage _ hget hle => exact fun e he => absurd he List.not_mem_nil
  | fillChunk _ hget => exact fun e he => absurd he List.not_mem_nil
  | allocatePage _ a id t pageSize =>
      intro e he
      rw [List.mem_singleton.1 he]
      trivial
  | allocateChunk _ hgranted hcapacity hrefs =>
      intro e he
      rw [List.mem_singleton.1 he]
      trivial
  | refuseChunk _ hrefused =>
      intro e he
      rw [List.mem_singleton.1 he]
      trivial
  | sealPage _ hget | clonePage _ hget _ | unsharePage _ hget _ _ | releasePage _ hget _ =>
      intro e he
      have hlt := Arena.lt_next hget
      rw [List.mem_singleton.1 he]
      exact hlt
  | sealChunk _ hget | cloneChunk _ hget _ | unshareChunk _ hget _ _ | releaseChunk _ hget _ =>
      intro e he
      have hlt := Arena.lt_next hget
      rw [List.mem_singleton.1 he]
      exact hlt

lemma Act.Below.mono {pages pages' chunks chunks' : ℕ} {act : Act} (h : act.Below pages chunks)
    (hpages : pages ≤ pages') (hchunks : chunks ≤ chunks') : act.Below pages' chunks' := by
  cases act with
  | allocatePage | allocateChunk => trivial
  | sealPage | clonePage | dropPage => exact Nat.lt_of_lt_of_le h hpages
  | sealChunk | cloneChunk | dropChunk => exact Nat.lt_of_lt_of_le h hchunks

/-- The names of handles do not change when further ones are made. -/
lemma Mirrors.view_eq {e : Entry} (hm : Mirrors tenant l s) (hgrows : l.Grows l')
    (hbelow : e.act.Below l.pages.next l.chunks.next) : l'.view tenant e = l.view tenant e := by
  obtain ⟨more, hmore⟩ := hgrows.pageTenants
  obtain ⟨more', hmore'⟩ := hgrows.chunkTenants
  have hpage (i : ℕ) (hi : i < l.pages.next) :
      Arena.rank l'.pageTenants tenant i = Arena.rank l.pageTenants tenant i := by
    rw [← hmore]
    exact Arena.rank_append (by rw [hm.pages.length]; omega)
  have hchunk (i : ℕ) (hi : i < l.chunks.next) :
      Arena.rank l'.chunkTenants tenant i = Arena.rank l.chunkTenants tenant i := by
    rw [← hmore']
    exact Arena.rank_append (by rw [hm.chunks.length]; omega)
  unfold Ledger.view
  obtain ⟨t, act⟩ := e
  cases act with
  | allocatePage | allocateChunk => rfl
  | sealPage i | clonePage i | dropPage i =>
      dsimp only [Act.rename]
      rw [hpage i hbelow]
  | sealChunk i | cloneChunk i | dropChunk i =>
      dsimp only [Act.rename]
      rw [hchunk i hbelow]

/-- Any number of steps. -/
lemma Mirrors.steps (hm : Mirrors tenant l s) (hsteps : Ledger.Steps es l l') :
    Mirrors tenant l' (s.execAll (es.filterMap (l'.view tenant))) ∧
      ∀ e ∈ es, e.act.Below l'.pages.next l'.chunks.next := by
  induction hsteps with
  | refl => exact ⟨hm, fun e he => absurd he List.not_mem_nil⟩
  | @tail es es' l l₁ l₂ _ hstep ih =>
      obtain ⟨hm₁, hbelow⟩ := ih hm
      have hgrows := grows_step hstep
      have hviews : es.filterMap (l₂.view tenant) = es.filterMap (l₁.view tenant) :=
        List.filterMap_congr fun e he => hm₁.view_eq hgrows (hbelow e he)
      constructor
      · have hm₂ := hm₁.step hstep
        unfold TenantView.execAll at hm₂ ⊢
        rwa [List.filterMap_append, List.foldl_append, hviews]
      · intro e he
        rcases List.mem_append.1 he with he | he
        · exact (hbelow e he).mono hgrows.pages hgrows.chunks
        · exact below_step hstep e he

end Mirrors

/-! ## Runs -/

section Runs

variable {tenant : ℕ} {w w' w₁ w₂ : World} {s : TenantView} {ops ops₁ ops₂ : List Op}

/-- **The machine of a tenant follows every run**, from the history of the tenant alone. -/
lemma mirrors_run (ho : Owned w.idle) (hm : Mirrors tenant w.ledger s)
    (hops : ∀ op ∈ ops, op.Succeeds) (hrun : run World.step w ops = some w') :
    Mirrors tenant w'.ledger (s.execAll (history tenant w ops)) := by
  induction ops generalizing w s with
  | nil =>
      obtain rfl : w = w' := by simpa using hrun
      exact hm
  | cons op ops ih =>
      obtain ⟨w₁, hstep, hrest⟩ := run_cons_eq_some.1 hrun
      obtain ⟨es, hsteps, heq⟩ := journal_step ho hstep
      obtain rfl := heq (hops op List.mem_cons_self)
      have hm₁ := (hm.steps hsteps).1
      have hrec := ih (ho.moves (custody_step ho hstep)) hm₁
        (fun op hop => hops op (List.mem_cons_of_mem _ hop)) hrest
      unfold history
      rw [hstep]
      dsimp only
      unfold TenantView.execAll at hrec ⊢
      rwa [List.foldl_append]

/-- **No interference.** The source grants every request in two runs, and the tenant does the same
in both: it allocates with the same sizes and alignments, on pools with the same page sizes, and
seals, clones and drops the same handles of its own.  Then all its counters are the same,
whatever other tenants do. -/
theorem no_interference (h₁ : runOps ops₁ = some w₁) (h₂ : runOps ops₂ = some w₂)
    (hops₁ : ∀ op ∈ ops₁, op.Succeeds) (hops₂ : ∀ op ∈ ops₂, op.Succeeds)
    (hsame : history tenant World.init ops₁ = history tenant World.init ops₂) :
    w₁.tenants tenant = w₂.tenants tenant := by
  have hm₁ := mirrors_run owned_init (mirrors_init tenant) hops₁ h₁
  have hm₂ := mirrors_run owned_init (mirrors_init tenant) hops₂ h₂
  rw [hsame] at hm₁
  exact hm₁.stats.symm.trans hm₂.stats

/-- A tenant alone. -/
def aloneRun : List Op :=
  [.newChunkPool 64, .allocateChunk 0 7 24 8 (some 128), .sealChunk 0, .cloneChunk 0, .dropChunk 0]

/-- The same tenant, on a page that another one has opened and shares. -/
def sharedRun : List Op :=
  [.newChunkPool 64, .allocateChunk 0 3 24 8 (some 128), .allocateChunk 0 7 24 8 (some 256),
    .sealChunk 1, .dropChunk 0, .cloneChunk 1, .dropChunk 1]

theorem no_interference_sharedRun : ∃ w₁ w₂, runOps aloneRun = some w₁ ∧
    runOps sharedRun = some w₂ ∧ w₁.tenants 7 = w₂.tenants 7 ∧ w₁.tenants 3 ≠ w₂.tenants 3 := by
  obtain ⟨w₁, h₁⟩ := Option.isSome_iff_exists.1
    (show (runOps aloneRun).isSome = true by decide +kernel)
  have heval : (runOps sharedRun).any (fun w => decide (
      (w.tenants 3).totalChunksAllocated = 1)) = true := by decide +kernel
  have heval₁ : (runOps aloneRun).any (fun w => decide (
      (w.tenants 3).totalChunksAllocated = 0)) = true := by decide +kernel
  obtain ⟨w₂, h₂, htotal⟩ := (Option.any_eq_true _ _).1 heval
  have hsame : history 7 World.init aloneRun = history 7 World.init sharedRun := by decide +kernel
  refine ⟨w₁, w₂, h₁, h₂, no_interference h₁ h₂ (by simp [aloneRun, Op.Succeeds, Op.reply])
    (by simp [sharedRun, Op.Succeeds, Op.reply]) hsame, fun heq => ?_⟩
  rw [h₁] at heval₁
  have htotal₁ : (w₁.tenants 3).totalChunksAllocated = 0 := of_decide_eq_true heval₁
  rw [heq, of_decide_eq_true htotal] at htotal₁
  exact absurd htotal₁ (by decide)

end Runs

end PagedAlloc.Sequential
