import Gravel.Model.Batch

namespace Gravel

/-- A page write in the ring. The kernel reads the buffer at `addr` when it performs the write. -/
structure QueuedWrite where
  binIdx : Nat
  pageId : Nat
  addr : Nat
deriving DecidableEq

structure AsyncFlush where
  pending : List QueuedWrite

def submitKeyPhase (s : DimBin) : DimBin :=
  if !s.flushNeeded && s.keyBuf.count = 0 then s
  else { dimbinFlushKeys s with flushNeeded := false }

def queuePages (wb : WriteBuffer) (binIdx : Nat) : List Nat → Option (List QueuedWrite)
  | [] => some []
  | pg :: rest => do
    let buf ← pagemapLookup wb.slots wb.capacity pg
    let queue ← queuePages wb binIdx rest
    return (buf.map (fun b => (⟨binIdx,pg,b.addr⟩ : QueuedWrite))).toList ++ queue

def submitWritePhase (s : DimBin) (binIdx : Nat) : Option (DimBin × List QueuedWrite) := do
  if s.writeBuf.count = 0 then return (s,[])
  else
    let dirtyPages := dimbinFlushPages maxFlushBatch s.writeBuf
    let queue ← queuePages s.writeBuf binIdx dirtyPages
    return ({ s with writeBuf := { s.writeBuf with
      flushBytes := s.writeBuf.flushBytes + dirtyPages.length * s.geom.pageSize } },queue)

def submitWrites (binIdx : Nat) : List DimBin → Option (List DimBin × List QueuedWrite)
  | [] => some ([],[])
  | bin :: rest => do
    let (bin,queue) ← submitWritePhase bin binIdx
    let (rest,queues) ← submitWrites (binIdx + 1) rest
    return (bin :: rest,queue ++ queues)

/-- Without a ring the pages are written at once. A store without bins has no state to poll. -/
def graveldbFlushSubmit (useUring : Bool) (db : GravelDB) :
    Option (GravelDB × Option AsyncFlush) := do
  if db.bins = [] then return (db,none)
  else
    let bins := db.bins.map submitKeyPhase
    if useUring then
      let (bins,queue) ← submitWrites 0 bins
      return ({ db with bins := bins },some ⟨queue⟩)
    else
      let bins ← forBins flushWritePhase bins
      return ({ db with bins := bins },some ⟨[]⟩)

/-- Bytes that are at an address now, in the table or in the page pool. -/
def bufferAt (wb : WriteBuffer) (addr : Nat) : Option (Nat → UInt8) :=
  let held := (((List.range wb.capacity).map wb.slots).filter
    (fun s => s.pageId ≠ pageSlotEmpty)).map PageSlot.data
  ((held ++ wb.pagePool).find? (fun b => b.addr = addr)).map PageBuf.bytes

/-- The kernel performs a queued write, at some time before the poll that finds it done. -/
def landWrite (db : GravelDB) (w : QueuedWrite) : Option GravelDB := do
  let bin ← db.bins[w.binIdx]?
  let bytes ← bufferAt bin.writeBuf w.addr
  return modifyBin db w.binIdx { bin with
    data := bin.data.write (w.pageId * bin.geom.pageSize) bin.geom.pageSize bytes }

/-- When every write is done, the pages that are buffered now are collected again and freed. -/
def graveldbFlushPoll (db : GravelDB) (flush : Option AsyncFlush) :
    Option (GravelDB × Option AsyncFlush × Status) := do
  match flush with
  | none => return (db,none,.ok)
  | some f =>
    if f.pending = [] then
      let bins ← forBins flushCleanPhase db.bins
      return ({ db with bins := bins },none,.ok)
    else return (db,some f,.again)

end Gravel
