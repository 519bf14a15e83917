import Gravel.Model.Overlay
import Gravel.Model.WriteBuffer

namespace Gravel

/-- `SLAB_PAGE_SIZE`, `SLAB_MIN_OBJ_SIZE`, `SLAB_MAX_POOLS` and `SLAB_DEFAULT_ALIGNMENT`. -/
def slabPageSize : Nat := 64 * 1024
def slabMinObjSize : Nat := 32
def slabMaxPools : Nat := 32
def slabDefaultAlignment : Nat := 16

/-- `SlabPool` with its address; the free list is given by its length. -/
structure SlabPool where
  addr : Nat
  objSize : Nat
  alignment : Nat
  freeCount : Nat

/-- The registered pools, `num_pools` of them. The next pool is created at `nextAddr`. -/
structure SlabAllocator where
  pools : List SlabPool
  nextAddr : Nat

def slabRound (size alignment : Nat) : Nat := (size + alignment - 1) / alignment * alignment

/-- One page more; all objects it is carved into go to the free list. -/
def slabPoolGrow (pool : SlabPool) : SlabPool :=
  { pool with freeCount := pool.freeCount + slabPageSize / pool.objSize }

def newPool (addr objSize alignment : Nat) : SlabPool :=
  let objSize := if objSize < slabMinObjSize then slabMinObjSize else objSize
  let alignment := if alignment = 0 then slabDefaultAlignment else alignment
  slabPoolGrow ⟨addr,slabRound objSize alignment,alignment,0⟩

def slabPoolCreate (alloc : SlabAllocator) (objSize alignment : Nat) : SlabAllocator × Option Nat :=
  if slabMaxPools ≤ alloc.pools.length then (alloc,none)
  else (⟨alloc.pools ++ [newPool alloc.nextAddr objSize alignment],alloc.nextAddr + 1⟩,
    some alloc.nextAddr)

def swapRemove {α : Type} (pools : List α) (i : Nat) : List α :=
  match pools.getLast? with
  | some last => (pools.set i last).dropLast
  | none => []

def slabPoolDestroy (alloc : SlabAllocator) (addr : Nat) : SlabAllocator :=
  match alloc.pools.findIdx? (fun p => p.addr = addr) with
  | some i => { alloc with pools := swapRemove alloc.pools i }
  | none => alloc

def slabPoolAlloc (pool : SlabPool) : SlabPool × Bool :=
  let pool := if 0 < pool.freeCount then pool else slabPoolGrow pool
  if 0 < pool.freeCount then ({ pool with freeCount := pool.freeCount - 1 },true)
  else (pool,false)

def allocFrom (alloc : SlabAllocator) (addr : Nat) : SlabAllocator :=
  { alloc with pools := alloc.pools.map (fun p =>
      if p.addr = addr then (slabPoolAlloc p).1 else p) }

/-- A matching pool is used or created; large pages come from `posix_memalign`. -/
def slabAllocAligned (alloc : SlabAllocator) (size alignment : Nat) : SlabAllocator :=
  let alignedSize := max (slabRound size alignment) slabMinObjSize
  match alloc.pools.find? (fun p => p.objSize = alignedSize ∧ alignment ≤ p.alignment) with
  | some p => allocFrom alloc p.addr
  | none =>
    if alignedSize ≤ slabPageSize / 4 then
      match slabPoolCreate alloc size alignment with
      | (alloc,some addr) => allocFrom alloc addr
      | (alloc,none) => alloc
    else alloc

/-- The memory of an `OverlayBuffer`: `slots` tells whether the table is allocated, `dataPool` is
the address of the pool. -/
structure OverlayMemory where
  slots : Bool
  capacity : Nat
  mask : Nat
  dataPool : Option Nat

def overlayZeroed : OverlayMemory := ⟨false,0,0,none⟩

def overlayAllocate (alloc : SlabAllocator) (dim : Nat) : SlabAllocator × OverlayMemory :=
  match slabPoolCreate alloc (dim * 4) slabDefaultAlignment with
  | (alloc,some pool) => (alloc,⟨true,overlayInitialCap,overlayInitialCap - 1,some pool⟩)
  | (alloc,none) => (alloc,overlayZeroed)

def overlayRelease (alloc : SlabAllocator) (ob : OverlayMemory) : SlabAllocator :=
  match ob.dataPool with
  | some pool => slabPoolDestroy alloc pool
  | none => alloc

def overlayBeginGrow (ob : OverlayMemory) : OverlayMemory :=
  let newCap := ob.capacity * 2 % 2 ^ 32
  { ob with capacity := newCap, mask := sub32 newCap 1 }

structure OverlayBin where
  dim : Nat
  pageSize : Nat
  inCheckpoint : Bool
  overlay : OverlayMemory
  dim_pos : 0 < dim

structure OverlayHost where
  allocator : SlabAllocator
  bins : List OverlayBin

def hostOpened : OverlayHost := ⟨⟨[],0⟩,[]⟩

/-- Everything that reaches the allocator while a store is open. A page is acquired by a put, by
the replay at the end of a checkpoint and by an import. -/
inductive HostOp where
  | addBin (dim pageSize : Nat) (pos : 0 < dim)
  | acquirePage (binIdx : Nat)
  | checkpointBegin (binIdx : Nat)
  | checkpointEnd (binIdx : Nat)
  | overlayAlloc (binIdx : Nat)
  | overlayGrow (binIdx : Nat)

/-- `dimbin_checkpoint_begin`; the status of `overlay_init` is not looked at. -/
def hostBegin (h : OverlayHost) (binIdx : Nat) (bin : OverlayBin) : OverlayHost :=
  match overlayAllocate h.allocator bin.dim with
  | (alloc,overlay) =>
    ⟨alloc,h.bins.set binIdx { bin with inCheckpoint := true, overlay := overlay }⟩

def hostEnd (h : OverlayHost) (binIdx : Nat) (bin : OverlayBin) : OverlayHost :=
  ⟨overlayRelease h.allocator bin.overlay,
    h.bins.set binIdx { bin with inCheckpoint := false, overlay := overlayZeroed }⟩

def applyHost (h : OverlayHost) : HostOp → OverlayHost
  | .addBin dim pageSize pos =>
    { h with bins := h.bins ++ [⟨dim,pageSize,false,overlayZeroed,pos⟩] }
  | .acquirePage i =>
    match h.bins[i]? with
    | some bin => { h with allocator := slabAllocAligned h.allocator bin.pageSize 4096 }
    | none => h
  | .checkpointBegin i =>
    match h.bins[i]? with
    | some bin => hostBegin h i bin
    | none => h
  | .checkpointEnd i =>
    match h.bins[i]? with
    | some bin => hostEnd h i bin
    | none => h
  | .overlayAlloc i =>
    match h.bins[i]?.bind (fun bin => bin.overlay.dataPool) with
    | some pool => { h with allocator := allocFrom h.allocator pool }
    | none => h
  | .overlayGrow i =>
    match h.bins[i]? with
    | some bin =>
      if bin.inCheckpoint
      then { h with bins := h.bins.set i { bin with overlay := overlayBeginGrow bin.overlay } }
      else h
    | none => h

def runHost (h : OverlayHost) (ops : List HostOp) : OverlayHost := ops.foldl applyHost h

end Gravel
