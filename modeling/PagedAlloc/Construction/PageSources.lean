import PagedAlloc.Construction.PageOperations
import PagedAlloc.Framework.DemandZero

/-!
# Page sources

`HeapSource`, `MmapSource` and `HugePageSource`, on top of what they call: `sysconf`, `mmap`,
`munmap` and `madvise` of the kernel, and the global allocator.  All of these work on one address
space.  The environment chooses the addresses: a call takes the address it is answered with, or
`none` if it fails.

The kernel is a parameter, and `Kernel.Documented` is what its manual says about the calls that the
crate makes.  The memory of the global allocator is not the kernel's to fault in as far as the crate
can tell; it is memory in units of one byte.
-/

namespace PagedAlloc.Sources

open Words Bytes DemandZero PagedAlloc.Sequential

/-! ## The kernel -/

def mapPrivate : BitVec 32 := 0x02

def mapAnonymous : BitVec 32 := 0x20

def mapHugetlb : BitVec 32 := 0x40000

def mapHugeShift : ℕ := 26

structure Kernel where
  pageSize : ℕ
  /-- What `sysconf(_SC_PAGESIZE)` returns. -/
  sysconf : ℤ
  /-- The size of the pages that are mapped for these flags. -/
  unit : BitVec 32 → ℕ
  /-- `mmap` of `len` bytes at no address in particular, readable and writable; `none` if the kernel
  does not answer with `a`. -/
  mmap : (v : AddressSpace) → (len : ℕ) → (flags : BitVec 32) → (a : ℕ) → Option AddressSpace
  /-- `munmap`, `none` if it returns an error. -/
  munmap : (v : AddressSpace) → (a len : ℕ) → Option AddressSpace
  /-- `madvise` with `MADV_DONTNEED`, `none` if it returns an error. -/
  madvise : (v : AddressSpace) → (a len : ℕ) → Option AddressSpace

/-- The range consists of pages of `u` bytes that are mapped as such. -/
structure Pages (v : AddressSpace) (u a len : ℕ) : Prop where
  pos : 0 < u
  base : u ∣ a
  length : u ∣ len
  unit : ∀ i < len, v.unit (a + i) = u

/-- The system calls do what their manual pages say. -/
structure Kernel.Documented (k : Kernel) : Prop where
  /-- A page is a power of two, and at most the smallest huge one. -/
  pageSize : ∃ n, 3 ≤ n ∧ n ≤ 21 ∧ k.pageSize = 2 ^ n
  sysconf : k.sysconf = k.pageSize
  unit : ∀ flags, flags &&& mapHugetlb = 0 → k.unit flags = k.pageSize
  /-- The six bits from `MAP_HUGE_SHIFT` on have the logarithm of the size of a huge page. -/
  unitHuge : ∀ flags log2, flags &&& mapHugetlb ≠ 0 →
    ((flags >>> mapHugeShift) &&& 0x3f).toNat = log2 → log2 ≠ 0 → k.unit flags = 2 ^ log2
  /-- Anonymous private memory is zero, and it is where nothing was mapped. -/
  mmap : ∀ v len flags a v', k.mmap v len flags a = some v' → flags &&& mapPrivate ≠ 0 →
    flags &&& mapAnonymous ≠ 0 → k.unit flags ∣ len →
      a ≠ 0 ∧ k.unit flags ∣ a ∧ a + len ≤ size64 ∧ v.Free a len ∧
        v' = v.map a len (k.unit flags)
  /-- Whole pages of one mapping are unmapped, below the limit of mappings of a process. -/
  munmap : ∀ v u a len, 0 < len → k.pageSize ∣ u → Pages v u a len →
    k.munmap v a len = some (v.unmap a len)
  /-- Whole pages of one mapping lose their frames, huge ones since Linux 5.18. -/
  madvise : ∀ v u a len, k.pageSize ∣ u → Pages v u a len →
    k.madvise v a len = some (v.discard a len)

/-- `os_page_size`. -/
def osPageSize (sysconf : ℤ) : ℕ := if sysconf ≤ 0 then 4096 else sysconf.toNat

/-- `madvise_dontneed`. -/
def madviseDontneed (k : Kernel) (v : AddressSpace) (ptr len : ℕ) : Option AddressSpace :=
  k.madvise v ptr len

/-! ## The global allocator -/

/-- `alloc_zeroed`; a null reply ends in `handle_alloc_error`, which aborts. -/
def allocZeroed (v : AddressSpace) (l : Layout) : Option ℕ → Outcome AddressSpace ℕ
  | none => .refused
  | some a =>
      if a ≠ 0 ∧ a % l.align = 0 ∧ a + l.size ≤ size64 ∧ v.Free a l.size then
        .done a (v.map a l.size 1)
      else .refused

/-- `dealloc`. -/
def dealloc (v : AddressSpace) (l : Layout) (a : ℕ) : AddressSpace := v.unmap a l.size

/-! ## The sources -/

structure HeapSource where
  pageSize : ℕ
  layout : Layout
  deriving DecidableEq, Repr

structure MmapSource where
  pageSize : ℕ
  deriving DecidableEq, Repr

structure HugePageSource where
  pageSize : ℕ
  log2HugeSize : BitVec 32
  deriving DecidableEq, Repr

/-- The first check of the constructors. -/
def checkPointerFits (pageSize : ℕ) : Except String Unit :=
  if 8 ≤ pageSize then .ok () else .error "page_size must be at least 8 bytes"

namespace HeapSource

variable (s : HeapSource) (v : AddressSpace)

/-- `HeapSource::new`. -/
def new (pageSize : ℕ) : Except String HeapSource := do
  checkPointerFits pageSize
  if Layout.Valid ⟨pageSize, defaultAlign⟩ then .ok ⟨pageSize, ⟨pageSize, defaultAlign⟩⟩
  else .error "valid layout: LayoutError"

def allocate (reply : Option ℕ) : Outcome AddressSpace ℕ := allocZeroed v s.layout reply

def release (ptr : ℕ) : Outcome AddressSpace Unit := .done () (dealloc v s.layout ptr)

end HeapSource

namespace MmapSource

variable (k : Kernel) (s : MmapSource) (v : AddressSpace)

/-- `MmapSource::new`. -/
def new (pageSize : ℕ) : Except String MmapSource := do
  checkPointerFits pageSize
  let osPage := osPageSize k.sysconf
  if pageSize % osPage = 0 then .ok ⟨pageSize⟩
  else .error s!"page_size ({pageSize}) must be a multiple of the OS page size ({osPage})"

def flags : BitVec 32 := mapAnonymous ||| mapPrivate

/-- `MmapSource::allocate`; it panics on `MAP_FAILED`. -/
def allocate : Option ℕ → Outcome AddressSpace ℕ
  | none => .panicked v
  | some a => match k.mmap v s.pageSize flags a with
      | none => .refused
      | some v' => .done a v'

/-- `MmapSource::release`; the `debug_assert_eq` panics if `munmap` fails. -/
def release (ptr : ℕ) : Outcome AddressSpace Unit :=
  match k.munmap v ptr s.pageSize with
  | none => .panicked v
  | some v' => .done () v'

/-- The loop of `prefault`. -/
def prefaultLoop (osPage base pageSize : ℕ) : ℕ → ℕ → AddressSpace → Option AddressSpace
  | 0, offset, v => if offset < pageSize then none else some v
  | fuel + 1, offset, v =>
      if offset < pageSize then
        (v.storeByte (base + offset) 0).bind fun v =>
          prefaultLoop osPage base pageSize fuel (offset + osPage) v
      else some v

/-- `MmapSource::prefault`; an OS page has at least one byte. -/
def prefault (ptr : ℕ) : Option AddressSpace :=
  prefaultLoop (osPageSize k.sysconf) ptr s.pageSize s.pageSize 0 v

end MmapSource

namespace HugePageSource

variable (k : Kernel) (s : HugePageSource) (v : AddressSpace)

def size2Mib : ℕ := 2 * 1024 * 1024

def size1Gib : ℕ := 1024 * 1024 * 1024

/-- `HugePageSource::new`. -/
def new (pageSize : ℕ) : Except String HugePageSource :=
  if pageSize = size2Mib then .ok ⟨pageSize, 21⟩
  else if pageSize = size1Gib then .ok ⟨pageSize, 30⟩
  else .error
    s!"page_size {pageSize} is not a supported huge-page size; use SIZE_2MIB or SIZE_1GIB"

def flags : BitVec 32 :=
  mapAnonymous ||| mapPrivate ||| mapHugetlb ||| (s.log2HugeSize <<< mapHugeShift)

/-- `HugePageSource::allocate`. -/
def allocate : Option ℕ → Outcome AddressSpace ℕ
  | none => .panicked v
  | some a => match k.mmap v s.pageSize s.flags a with
      | none => .refused
      | some v' => .done a v'

/-- `HugePageSource::release`. -/
def release (ptr : ℕ) : Outcome AddressSpace Unit :=
  match k.munmap v ptr s.pageSize with
  | none => .panicked v
  | some v' => .done () v'

/-- `HugePageSource::prefault`: one write for the one huge page. -/
def prefault (ptr : ℕ) : Option AddressSpace := v.storeByte ptr 0

end HugePageSource

/-! ## `Box<dyn PageSource>` -/

inductive Source
  | heap (s : HeapSource)
  | mmap (s : MmapSource)
  | huge (s : HugePageSource)
  deriving DecidableEq, Repr

namespace Source

variable (k : Kernel)

def pageSize : Source → ℕ
  | heap s => s.pageSize
  | mmap s => s.pageSize
  | huge s => s.pageSize

/-- The source is one that a constructor returns. -/
def IsNew : Source → Prop
  | heap s => HeapSource.new s.pageSize = .ok s
  | mmap s => MmapSource.new k s.pageSize = .ok s
  | huge s => HugePageSource.new s.pageSize = .ok s

def allocate (v : AddressSpace) (reply : Option ℕ) : Source → Outcome AddressSpace ℕ
  | heap s => s.allocate v reply
  | mmap s => s.allocate k v reply
  | huge s => s.allocate k v reply

def release (v : AddressSpace) (ptr : ℕ) : Source → Outcome AddressSpace Unit
  | heap s => s.release v ptr
  | mmap s => s.release k v ptr
  | huge s => s.release k v ptr

/-- `PageSource::prefault`, which does nothing unless the source has its own. -/
def prefault (v : AddressSpace) (ptr : ℕ) : Source → Option AddressSpace
  | heap _ => some v
  | mmap s => s.prefault k v ptr
  | huge _ => HugePageSource.prefault v ptr

end Source

end PagedAlloc.Sources

namespace PagedAlloc.Sequential

open DemandZero Sources

/-! ## Accesses -/

namespace Access

variable (k : Kernel) (sources : ℕ → Source)

/-- The access is made, `none` if it cannot be.  An allocation returns the address. -/
def exec (v : AddressSpace) : Access → Option AddressSpace
  | allocate (.pool id) _ a => ((sources id).allocate k v (some a)).returned.map Prod.snd
  | allocate .heap l a => (allocZeroed v l (some a)).returned.map Prod.snd
  | prefault id a => (sources id).prefault k v a
  | release (.pool id) _ a => ((sources id).release k v a).returned.map Prod.snd
  | release .heap l a => some (dealloc v l a)
  | store a data => v.store a data
  | dontneed ptr len => madviseDontneed k v ptr len

/-- A call that is logged. -/
def isLogged : Access → Bool
  | allocate _ _ _ | release _ _ _ => true
  | _ => false

end Access

/-- The call that is logged. -/
def SourceEvent.access : SourceEvent → Access
  | allocate o l a => .allocate o l a
  | release o l a _ => .release o l a

end PagedAlloc.Sequential
