import Gravel.Lib.Runs
import Gravel.Model.DimBin
import Gravel.Model.Slab

namespace Gravel

def pagemapLookup (slots : Nat → PageSlot) (capacity pageId : Nat) : Option (Option PageBuf) := do
  let idx ← pagemapFind slots capacity pageId
  return if (slots idx).pageId = pageId then some (slots idx).data else none

def flushIovMax : Nat := 1024

/-- Consecutive pages of a sorted list in chunks of `FLUSH_IOV_MAX`; `chunk` is being built, last
page first. A sub-run never crosses a peephole run, so these are left out. -/
def writeChunks (chunk : List Nat) : List Nat → List (List Nat)
  | [] => if chunk = [] then [] else [chunk.reverse]
  | pg :: rest =>
    match chunk with
    | [] => writeChunks [pg] rest
    | prev :: _ =>
      if pg = prev + 1 ∧ chunk.length < flushIovMax then writeChunks (pg :: chunk) rest
      else chunk.reverse :: writeChunks [pg] rest

def gatherIov (wb : WriteBuffer) : List Nat → Option (List PageBuf)
  | [] => some []
  | pg :: rest => do
    let buf ← pagemapLookup wb.slots wb.capacity pg
    let iov ← gatherIov wb rest
    return buf.toList ++ iov

def writev (pageSize : Nat) (data : File UInt8) (off : Nat) : List PageBuf → File UInt8
  | [] => data
  | buf :: rest => writev pageSize (data.write off pageSize buf.bytes) (off + pageSize) rest

def writePlan (pageSize : Nat) (wb : WriteBuffer) (data : File UInt8) :
    List (List Nat) → Option (File UInt8)
  | [] => some data
  | chunk :: rest => do
    let iov ← gatherIov wb chunk
    writePlan pageSize wb (writev pageSize data (chunk.headD 0 * pageSize) iov) rest

/-- Keys first, then the value pages, then the clean-up of the write buffer. -/
def dimbinFlush (s : DimBin) : Option DimBin := do
  let s := { dimbinFlushKeys s with flushNeeded := false }
  if s.writeBuf.count = 0 then return s
  else
    let dirtyPages := dimbinFlushPages maxFlushBatch s.writeBuf
    if dirtyPages = [] then return s
    else
      let data ← writePlan s.geom.pageSize s.writeBuf s.data (writeChunks [] dirtyPages)
      let wb := { s.writeBuf with
        flushBytes := s.writeBuf.flushBytes + dirtyPages.length * s.geom.pageSize }
      let wb ← flushCleanup true wb dirtyPages
      return { s with data := data, writeBuf := wb }

def flushKeyPhase (s : DimBin) : DimBin :=
  if s.keyBuf.count = 0 then s else { dimbinFlushKeys s with flushNeeded := false }

def writePages (pageSize : Nat) (wb : WriteBuffer) (data : File UInt8) :
    List Nat → Option (File UInt8)
  | [] => some data
  | pg :: rest => do
    let buf ← pagemapLookup wb.slots wb.capacity pg
    match buf with
    | none => writePages pageSize wb data rest
    | some buf => writePages pageSize wb (data.write (pg * pageSize) pageSize buf.bytes) rest

def flushWritePhase (s : DimBin) : Option DimBin := do
  if s.writeBuf.count = 0 then return s
  else
    let dirtyPages := dimbinFlushPages maxFlushBatch s.writeBuf
    let data ← writePages s.geom.pageSize s.writeBuf s.data dirtyPages
    return { s with
      data := data
      writeBuf := { s.writeBuf with
        flushBytes := s.writeBuf.flushBytes + dirtyPages.length * s.geom.pageSize } }

/-- The bin's share of the third phase, which collects the pages again and does not sort. -/
def flushCleanPhase (s : DimBin) : Option DimBin := do
  if s.writeBuf.count = 0 then return s
  else
    let wb ← flushCleanup true s.writeBuf (collectPages maxFlushBatch s.writeBuf)
    return { s with writeBuf := wb }

def pagemapGrow (slots : Nat → PageSlot) (oldCap newCap : Nat) : Option (Nat → PageSlot) :=
  reinsertSlots newCap (fun _ => emptySlot)
    (((List.range oldCap).map slots).filter (fun s => s.pageId ≠ pageSlotEmpty))

/-- A recycled buffer if there is one, else a fresh one from the slab allocator. -/
def writeBufAcquirePage (s : DimBin) : DimBin × Nat :=
  match s.writeBuf.pagePool with
  | buf :: rest => ({ s with writeBuf := { s.writeBuf with pagePool := rest } },buf.addr)
  | [] => ({ s with nextAddr := s.nextAddr + 1 },s.nextAddr)

def loadsPage (s : DimBin) (pageId : Nat) : Bool :=
  pageId < s.bumpPtr / s.geom.entriesPerPage % 2 ^ 32 &&
    pageId * s.geom.pageSize < s.dataFileSize

def pageFill (s : DimBin) (pageId : Nat) : Nat → UInt8 :=
  if loadsPage s pageId
  then s.data.read (pageId * s.geom.pageSize) s.geom.pageSize (fun _ => 0)
  else fun _ => 0

/-- The growth step of `write_buf_ensure_page`, with the load test in `uint32_t`. -/
def growIfLoaded (wb : WriteBuffer) : Option WriteBuffer :=
  if wb.capacity * 7 % 2 ^ 32 ≤ wb.count * 10 % 2 ^ 32 then do
    let newCap := wb.capacity * 2 % 2 ^ 32
    let slots ← pagemapGrow wb.slots wb.capacity newCap
    return { wb with slots := slots, capacity := newCap }
  else some wb

/-- At the hard limit the buffer is flushed before a page is inserted. -/
def makeRoom (s : DimBin) : Option DimBin :=
  if s.writeBuf.maxPages ≤ s.writeBuf.count then dimbinFlush s else some s

def insertPage (s : DimBin) (idx pageId : Nat) : DimBin :=
  match writeBufAcquirePage s with
  | (s,addr) => { s with writeBuf := { s.writeBuf with
      slots := Function.update s.writeBuf.slots idx ⟨pageId,addr,pageFill s pageId⟩
      count := s.writeBuf.count + 1 } }

/-- Slot of the page after it has been brought into the write buffer. The page id that equals
the empty marker stops at an empty slot, whose pointer is not a buffer: `none`. -/
def writeBufEnsurePage (s : DimBin) (pageId : Nat) : Option (DimBin × Nat) := do
  if pageId = pageSlotEmpty then none
  else
    let idx ← pagemapFind s.writeBuf.slots s.writeBuf.capacity pageId
    if (s.writeBuf.slots idx).pageId = pageId then return (s,idx)
    else
      let s ← makeRoom s
      let wb ← growIfLoaded s.writeBuf
      let idx ← pagemapFind wb.slots wb.capacity pageId
      return (insertPage { s with writeBuf := wb } idx pageId,idx)

/-- One vector of a batch; `data` is read for a whole entry. -/
structure EmbWriteEntry where
  entryId : Nat
  data : Nat → UInt8

def copyEntry (g : Geometry) (page : Nat → UInt8) (e : EmbWriteEntry) : Nat → UInt8 :=
  fun i => if g.offsetInPage e.entryId ≤ i ∧ i < g.offsetInPage e.entryId + g.entrySize
    then e.data (i - g.offsetInPage e.entryId) else page i

def trackerCapacity (pageId : Nat) : Nat :=
  if pageId < 1024 then 1024 else (pageId + 1) % 2 ^ 32 * 2 % 2 ^ 32

def ensureTracker (dt : DirtyTracker) (pageId : Nat) : DirtyTracker :=
  if dt.capacity ≤ pageId then dirtyTrackerResize dt (trackerCapacity pageId) else dt

def copyEntries (s : DimBin) (idx : Nat) (entries : List EmbWriteEntry) : DimBin :=
  let slot := s.writeBuf.slots idx
  let slot : PageSlot :=
    ⟨slot.pageId,slot.data.addr,entries.foldl (copyEntry s.geom) slot.data.bytes⟩
  { s with writeBuf := { s.writeBuf with slots := Function.update s.writeBuf.slots idx slot } }

/-- The entries of one page. An entry larger than its page overruns the buffer: `none`. -/
def putPage (s : DimBin) (pageId : Nat) (entries : List EmbWriteEntry) : Option DimBin := do
  let (s,idx) ← writeBufEnsurePage { s with dirty := ensureTracker s.dirty pageId } pageId
  if s.geom.pageSize < s.geom.entrySize then none
  else
    let dirty ← dirtyTrackerMark s.dirty pageId
    return { copyEntries s idx entries with dirty := dirty }

def putPages (s : DimBin) : List (Nat × List EmbWriteEntry) → Option DimBin
  | [] => some s
  | (pageId,entries) :: rest => do
    let s ← putPage s pageId entries
    putPages s rest

def groupPages (g : Geometry) : List EmbWriteEntry → List (Nat × List EmbWriteEntry) :=
  Runs.runs (fun e => g.pageOf e.entryId)

/-- The stable insertion sort by page followed by the search for page extents. -/
def pageGroups (g : Geometry) (entries : List EmbWriteEntry) : List (Nat × List EmbWriteEntry) :=
  groupPages g (entries.insertionSort (fun a b => g.pageOf a.entryId ≤ g.pageOf b.entryId))

def dimbinShouldFlush (s : DimBin) : Bool :=
  s.writeBuf.maxPages * 3 / 4 % 2 ^ 32 ≤ s.writeBuf.count

/-- The pages of the data pool of an overlay are carved into objects. -/
def poolServes (dim : Nat) : Bool := dim * 4 ≤ slabPageSize

/-- Writes during a checkpoint go to the overlay until its budget is used up or one of them
fails. -/
def putOverlay (s : DimBin) : List EmbWriteEntry → Option (DimBin × Status)
  | [] => some (s,.ok)
  | e :: rest =>
    if overlayFull s.overlay then some (s,.errBusy)
    else do
      let (overlay,rc) ←
        overlayPut (poolServes s.geom.dim) s.overlay e.entryId e.data s.geom.dim
      if rc = .ok then putOverlay { s with overlay := overlay } rest
      else return ({ s with overlay := overlay },rc)

def dimbinPutBatch (s : DimBin) (entries : List EmbWriteEntry) : Option (DimBin × Status) :=
  if entries = [] then some (s,.ok)
  else if s.inCheckpoint then putOverlay s entries
  else do
    let s ← putPages s (pageGroups s.geom entries)
    return (if dimbinShouldFlush s then { s with flushNeeded := true } else s,.ok)

/-- `overlay_init` with `pools` places of the slab allocator taken. Without one for its own pool it
zeroes the overlay. -/
def overlayCreate (pools : Nat) : OverlayBuffer :=
  if pools < slabMaxPools then overlayInit else overlayDestroyed

/-- The status of `overlay_init` is not looked at. -/
def dimbinCheckpointBegin (pools : Nat) (s : DimBin) : Option DimBin := do
  let s ← dimbinFlush s
  return { s with
    dirty := dirtyTrackerSwap s.dirty
    overlay := { overlayCreate pools with budgetBytes := s.overlayBudget }
    inCheckpoint := true }

def overlayEntries (slots : Nat → OverlaySlot) (capacity : Nat) : List EmbWriteEntry :=
  (((List.range capacity).map slots).filter (fun o => o.entryId ≠ overlayEmpty)).map
    (fun o => ⟨o.entryId,o.data⟩)

/-- The replay buffer: the new table, then the old one, up to the entry count. -/
def replayEntries (ob : OverlayBuffer) : List EmbWriteEntry :=
  (overlayEntries ob.table.slots ob.table.capacity ++
    match ob.table.old with
    | none => []
    | some o => overlayEntries o.slots o.capacity).take ob.table.count

def overlayReplayChunk : Nat := 1024

def replayChunks (s : DimBin) : Nat → List EmbWriteEntry → Option DimBin
  | 0, _ => some s
  | fuel + 1, entries =>
    if entries = [] then some s
    else do
      let (s,_) ← dimbinPutBatch s (entries.take overlayReplayChunk)
      replayChunks s fuel (entries.drop overlayReplayChunk)

def freeEntries (s : DimBin) : List Nat → Option DimBin
  | [] => some s
  | e :: rest => do
    let s ← dimbinFreeEntry s e
    freeEntries s rest

def dimbinCheckpointEnd (s : DimBin) : Option DimBin := do
  let replay := replayEntries s.overlay
  let s ← replayChunks { s with inCheckpoint := false } replay.length replay
  let s ← freeEntries s s.overlay.tombstones
  return { s with overlay := overlayDestroyed }

end Gravel
