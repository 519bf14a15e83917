import Gravel.Lib.FreeList
import Gravel.Model.Slab

namespace Gravel.Slab
open FreeList

structure Page where
  base : Nat
  nonnull : base ≠ 0

/-- `SlabPool` with its address and its pages, the newest first. `free_head` is zero for NULL; the
rest of the free list is in memory. The counters that only `slab_allocator_stats` reads are left
out. -/
structure Pool where
  addr : Nat
  objSize : Nat
  alignment : Nat
  pageSize : Nat
  freeHead : Nat
  freeCount : Nat
  pages : List Page
  pageCount : Nat

/-- `slab_pool_grow` with the page that the system delivers, if it does. `none` where
`page_size / obj_size` divides by zero. -/
def poolGrow (m : Memory) (pool : Pool) : Option Page → Option (Memory × Pool)
  | none => some (m,pool)
  | some page =>
    if pool.objSize = 0 then none
    else
      let n := pool.pageSize / pool.objSize % 2 ^ 32
      let (m,head) := pushAll m pool.freeHead (carve pool.objSize n page.base)
      some (m,{ pool with
        freeHead := head, freeCount := (pool.freeCount + n) % 2 ^ 64
        pages := page :: pool.pages, pageCount := (pool.pageCount + 1) % 2 ^ 32 })

def poolPop (m : Memory) (pool : Pool) : Pool :=
  { pool with
    freeHead := load m pool.freeHead, freeCount := (pool.freeCount + 2 ^ 64 - 1) % 2 ^ 64 }

def poolAlloc (m : Memory) (pool : Pool) (page : Option Page) : Option (Memory × Pool × Nat) :=
  if pool.freeHead ≠ 0 then some (m,poolPop m pool,pool.freeHead)
  else do
    let (m,pool) ← poolGrow m pool page
    if pool.freeHead = 0 then return (m,pool,0)
    else return (m,poolPop m pool,pool.freeHead)

def poolFree (m : Memory) (pool : Pool) (ptr : Nat) : Memory × Pool :=
  if ptr = 0 then (m,pool)
  else (store m ptr pool.freeHead,
    { pool with freeHead := ptr, freeCount := (pool.freeCount + 1) % 2 ^ 64 })

/-- The loop of `slab_pool_alloc_bulk`, which grows the pool as `slab_pool_alloc` does. The system
delivers the pages one after the other. -/
def allocLoop : Nat → Memory → Pool → List Page → List Nat → Option (Memory × Pool × List Nat)
  | 0, m, pool, _, got => some (m,pool,got)
  | count + 1, m, pool, pages, got => do
    let (m',pool',node) ← poolAlloc m pool pages.head?
    if node = 0 then return (m',pool',got)
    else allocLoop count m' pool' (if pool.freeHead = 0 then pages.tail else pages) (got ++ [node])

def poolAllocBulk (m : Memory) (pool : Pool) (count : Int32) (pages : List Page) :
    Option (Memory × Pool × List Nat) :=
  if count ≤ 0 then some (m,pool,[]) else allocLoop count.toInt.toNat m pool pages []

/-- `free_count += count` adds an `int` to a `uint64_t`. -/
def poolFreeBulk (m : Memory) (pool : Pool) (ptrs : List Nat) (count : Int32) : Memory × Pool :=
  let (m,head) := pushAll m pool.freeHead
    ((ptrs.take count.toInt.toNat).filter (fun ptr => ptr ≠ 0))
  (m,{ pool with
    freeHead := head, freeCount := ((pool.freeCount + count.toInt) % 2 ^ 64).toNat })

def roundSize (size alignment : Nat) : Nat := (size + alignment - 1) % 2 ^ 64 / alignment * alignment

/-- The pool that `slab_pool_create` makes, with one page if the system delivers it. -/
def poolNew (m : Memory) (addr objSize alignment : Nat) (page : Option Page) :
    Option (Memory × Pool) :=
  let objSize := if objSize < slabMinObjSize then slabMinObjSize else objSize
  let alignment := if alignment = 0 then slabDefaultAlignment else alignment
  poolGrow m ⟨addr,roundSize objSize alignment,alignment,slabPageSize,0,0,[],0⟩ page

/-- A pool with the memory around it, and the objects that its callers hold. -/
structure PoolUse where
  mem : Memory
  pool : Pool
  out : List Nat

/-- A call on the pool with the pages that the system has for it, or a write of the program. -/
inductive PoolOp where
  | alloc (page : Option Page)
  | free (ptr : Nat)
  | allocBulk (count : Int32) (pages : List Page)
  | freeBulk (ptrs : List Nat) (count : Int32)
  | write (addr : Nat) (byte : UInt8)

def PagesFit (pages : List Page) : Prop :=
  (∀ p ∈ pages, p.base + slabPageSize ≤ 2 ^ 64) ∧
    (pages.map Page.base).Pairwise (Apart slabPageSize)

instance (pages : List Page) : Decidable (PagesFit pages) := inferInstanceAs (Decidable (_ ∧ _))

/-- What callers and system keep to: objects are freed that are allocated, each once, and a bulk
free counts them; new pages do not meet those of the pool; and the program writes to objects it
holds or outside of the pages. -/
def PoolUse.Legal (s : PoolUse) : PoolOp → Prop
  | .alloc page => PagesFit (page.toList ++ s.pool.pages)
  | .free ptr => ptr ∈ s.out
  | .allocBulk _ pages => PagesFit (pages ++ s.pool.pages)
  | .freeBulk ptrs count => 0 ≤ count.toInt ∧
    count.toInt.toNat ≤ ptrs.length ∧ (ptrs.take count.toInt.toNat).Nodup ∧
      ∀ ptr ∈ ptrs.take count.toInt.toNat, ptr ∈ s.out
  | .write addr _ => (∃ a ∈ s.out, a ≤ addr ∧ addr < a + s.pool.objSize) ∨
      ∀ p ∈ s.pool.pages, ¬ (p.base ≤ addr ∧ addr < p.base + slabPageSize)

instance (s : PoolUse) : ∀ op, Decidable (s.Legal op)
  | .alloc _ | .allocBulk _ _ => inferInstanceAs (Decidable (PagesFit _))
  | .free _ => inferInstanceAs (Decidable (_ ∈ _))
  | .freeBulk _ _ => inferInstanceAs (Decidable (_ ∧ _))
  | .write _ _ => inferInstanceAs (Decidable (_ ∨ _))

def PoolUse.apply (s : PoolUse) : PoolOp → Option PoolUse
  | .alloc page => do
    let (m,pool,node) ← poolAlloc s.mem s.pool page
    return ⟨m,pool,if node = 0 then s.out else node :: s.out⟩
  | .free ptr =>
    let (m,pool) := poolFree s.mem s.pool ptr
    some ⟨m,pool,s.out.erase ptr⟩
  | .allocBulk count pages => do
    let (m,pool,got) ← poolAllocBulk s.mem s.pool count pages
    return ⟨m,pool,got ++ s.out⟩
  | .freeBulk ptrs count =>
    let (m,pool) := poolFreeBulk s.mem s.pool ptrs count
    some ⟨m,pool,s.out.diff (ptrs.take count.toInt.toNat)⟩
  | .write addr byte => some { s with mem := Function.update s.mem addr byte }

def stepPool (s : PoolUse) (op : PoolOp) : Option PoolUse := if s.Legal op then s.apply op else none

/-- `SlabAllocator`: `num_pools` entries of the registry, NULL being `none`, and the totals. The next
pool is created at `nextAddr`. -/
structure Allocator where
  pools : List (Option Pool)
  nextAddr : Nat
  totalPages : Nat
  totalBytes : Nat
  largeAllocs : Nat
  largeBytes : Nat

def allocatorInit : Allocator := ⟨[],0,0,0,0,0⟩

def poolCreate (m : Memory) (alloc : Allocator) (objSize alignment : Nat) (memory : Bool)
    (page : Option Page) : Option (Memory × Allocator × Option Pool) :=
  if slabMaxPools ≤ alloc.pools.length ∨ memory = false then some (m,alloc,none)
  else do
    let (m,pool) ← poolNew m alloc.nextAddr objSize alignment page
    return (m,{ alloc with
      pools := alloc.pools ++ [some pool], nextAddr := alloc.nextAddr + 1
      totalPages := (alloc.totalPages + pool.pageCount) % 2 ^ 64
      totalBytes := (alloc.totalBytes + pool.pageCount * slabPageSize) % 2 ^ 64 },some pool)

def PointsTo (addr : Nat) (entry : Option Pool) : Prop := entry.map Pool.addr = some addr

instance (addr : Nat) (entry : Option Pool) : Decidable (PointsTo addr entry) :=
  inferInstanceAs (Decidable (_ = _))

/-- `slab_pool_destroy`: the totals go down page by page, and the last entry of the registry takes the
place of the pool's. -/
def poolDestroy (alloc : Allocator) (pool : Pool) : Allocator :=
  { alloc with
    totalPages := pool.pages.foldl (fun n _ => (n + 2 ^ 64 - 1) % 2 ^ 64) alloc.totalPages
    totalBytes := pool.pages.foldl (fun n _ => (n + 2 ^ 64 - slabPageSize) % 2 ^ 64) alloc.totalBytes
    pools := match alloc.pools.findIdx? (fun entry => PointsTo pool.addr entry) with
      | some i => swapRemove alloc.pools i
      | none => alloc.pools }

/-- `slab_pool_alloc` on a pool of the registry; the allocator itself is not passed to it. -/
def allocIn (m : Memory) (alloc : Allocator) (pool : Pool) (page : Option Page) :
    Option (Memory × Allocator) := do
  let (m,pool',_) ← poolAlloc m pool page
  return (m,{ alloc with pools := alloc.pools.map (fun entry =>
      if PointsTo pool.addr entry then some pool' else entry) })

def alignedSize (size alignment : Nat) : Nat :=
  let alignedSize := roundSize size alignment
  if alignedSize < slabMinObjSize then slabMinObjSize else alignedSize

def matching (alloc : Allocator) (size alignment : Nat) : Option Pool :=
  (alloc.pools.filterMap id).find? (fun pool =>
    pool.objSize = alignedSize size alignment ∧ alignment ≤ pool.alignment)

def allocLarge (alloc : Allocator) (size : Nat) (large : Bool) : Allocator :=
  if large then { alloc with
    largeAllocs := (alloc.largeAllocs + 1) % 2 ^ 64
    largeBytes := (alloc.largeBytes + size) % 2 ^ 64 }
  else alloc

/-- `slab_alloc_aligned`: an object of a pool that matches or is created, or memory of its own. The
system has `page` for a new pool and `next` for
`slab_pool_alloc`. `none` where `alignment` divides by zero. -/
def allocAligned (m : Memory) (alloc : Allocator) (size alignment : Nat) (memory : Bool)
    (page next : Option Page) (large : Bool) : Option (Memory × Allocator) :=
  if alignment = 0 then none
  else
    match matching alloc size alignment with
    | some pool => allocIn m alloc pool next
    | none =>
      if alignedSize size alignment ≤ slabPageSize / 4 then do
        let (m,alloc,created) ← poolCreate m alloc size alignment memory page
        match created with
        | some pool => allocIn m alloc pool next
        | none => return (m,allocLarge alloc size large)
      else some (m,allocLarge alloc size large)

/-- The loop of `slab_allocator_destroy` from entry `i` on, with the pools destroyed so far. An entry
is set to NULL after `slab_pool_destroy` has filled its place. -/
def destroyLoop : Nat → Allocator → Nat → List Nat → Allocator × List Nat
  | 0, alloc, _, freed => (alloc,freed)
  | fuel + 1, alloc, i, freed =>
    if i < alloc.pools.length then
      match alloc.pools[i]?.join with
      | some pool =>
        let alloc := poolDestroy alloc pool
        destroyLoop fuel { alloc with pools := alloc.pools.set i none } (i + 1) (freed ++ [pool.addr])
      | none => destroyLoop fuel alloc (i + 1) freed
    else (alloc,freed)

/-- `slab_allocator_destroy` and the pools it destroys. The loop takes as many rounds as there are
pools, or fewer. -/
def allocatorDestroy (alloc : Allocator) : Allocator × List Nat :=
  let (alloc,freed) := destroyLoop alloc.pools.length alloc 0 []
  ({ alloc with pools := [] },freed)

structure AllocatorUse where
  mem : Memory
  alloc : Allocator

inductive AllocatorOp where
  | create (objSize alignment : UInt64) (memory : Bool) (page : Option Page)
  | alloc (addr : Nat) (page : Option Page)
  | allocAligned (size alignment : UInt64) (memory : Bool) (page next : Option Page) (large : Bool)
  | destroy (addr : Nat)
  | write (addr : Nat) (byte : UInt8)

def Allocator.poolAt (alloc : Allocator) (addr : Nat) : Option Pool :=
  (alloc.pools.filterMap id).find? (fun pool => pool.addr = addr)

/-- `none` also where a pool is used that is not registered. -/
def stepAllocator (s : AllocatorUse) : AllocatorOp → Option AllocatorUse
  | .create objSize alignment memory page => do
    let (m,alloc,_) ← poolCreate s.mem s.alloc objSize.toNat alignment.toNat memory page
    return ⟨m,alloc⟩
  | .alloc addr page => do
    let pool ← s.alloc.poolAt addr
    let (m,alloc) ← allocIn s.mem s.alloc pool page
    return ⟨m,alloc⟩
  | .allocAligned size alignment memory page next large => do
    let (m,alloc) ←
      allocAligned s.mem s.alloc size.toNat alignment.toNat memory page next large
    return ⟨m,alloc⟩
  | .destroy addr => do
    let pool ← s.alloc.poolAt addr
    return ⟨s.mem,poolDestroy s.alloc pool⟩
  | .write addr byte => some { s with mem := Function.update s.mem addr byte }

end Gravel.Slab
