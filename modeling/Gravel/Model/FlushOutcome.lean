import Gravel.Model.AsyncFlush
import Gravel.Model.Durability

namespace Gravel

inductive WriteOutcome where
  | full
  | failed
  | short (n : Nat)
deriving DecidableEq

/-- Bytes of a request of `len` bytes that reach the file; a short write leaves at least one out. -/
def WriteOutcome.transferred (len : Nat) : WriteOutcome → Nat
  | .full => len
  | .failed => 0
  | .short n => min n (len - 1)

/-- A completion in the ring is an error when its result is negative; without a ring the byte
count is compared. -/
def IoBackend.notices : IoBackend → WriteOutcome → Bool
  | .ring,.failed => true
  | .ring,_ => false
  | .inline,.full => false
  | .inline,_ => true
  | .direct,.full => false
  | .direct,_ => true

def noteOutcome (backend : IoBackend) (o : WriteOutcome) (rc : Status) : Status :=
  if backend.notices o then .errIo else rc

def iovBytes (pageSize : Nat) (iov : List PageBuf) (i : Nat) : UInt8 :=
  ((iov[i / pageSize]?).map (fun buf => buf.bytes (i % pageSize))).getD 0

/-- The requests of `dimbin_flush`, one for each chunk; `out` gives the outcome of the request
that starts at a page. -/
def writePlanOutcome (backend : IoBackend) (out : Nat → WriteOutcome) (pageSize : Nat)
    (wb : WriteBuffer) (data : File UInt8) (rc : Status) :
    List (List Nat) → Option (File UInt8 × Status)
  | [] => some (data,rc)
  | chunk :: rest => do
    let iov ← gatherIov wb chunk
    if iov = [] then writePlanOutcome backend out pageSize wb data rc rest
    else
      let o := out (chunk.headD 0)
      writePlanOutcome backend out pageSize wb
        (data.write (chunk.headD 0 * pageSize) (o.transferred (iov.length * pageSize))
          (iovBytes pageSize iov)) (noteOutcome backend o rc) rest

def dimbinFlushOutcome (backend : IoBackend) (out : Nat → WriteOutcome) (s : DimBin) :
    Option (DimBin × Status) := do
  let s := { dimbinFlushKeys s with flushNeeded := false }
  if s.writeBuf.count = 0 then return (s,.ok)
  else
    let dirtyPages := dimbinFlushPages maxFlushBatch s.writeBuf
    if dirtyPages = [] then return (s,.ok)
    else
      let (data,rc) ← writePlanOutcome backend out s.geom.pageSize s.writeBuf s.data .ok
        (writeChunks [] dirtyPages)
      let wb := { s.writeBuf with
        flushBytes := s.writeBuf.flushBytes + dirtyPages.length * s.geom.pageSize }
      let wb ← flushCleanup true wb dirtyPages
      return ({ s with data := data, writeBuf := wb },rc)

def writePagesOutcome (backend : IoBackend) (out : Nat → WriteOutcome) (pageSize : Nat)
    (wb : WriteBuffer) (data : File UInt8) (rc : Status) : List Nat → Option (File UInt8 × Status)
  | [] => some (data,rc)
  | pg :: rest => do
    let buf ← pagemapLookup wb.slots wb.capacity pg
    match buf with
    | none => writePagesOutcome backend out pageSize wb data rc rest
    | some buf =>
      let data := data.write (pg * pageSize) ((out pg).transferred pageSize) buf.bytes
      writePagesOutcome backend out pageSize wb data (noteOutcome backend (out pg) rc) rest

def writePhaseOutcome (backend : IoBackend) (out : Nat → WriteOutcome) (s : DimBin) (rc : Status) :
    Option (DimBin × Status) := do
  if s.writeBuf.count = 0 then return (s,rc)
  else
    let dirtyPages := dimbinFlushPages maxFlushBatch s.writeBuf
    let (data,rc) ← writePagesOutcome backend out s.geom.pageSize s.writeBuf s.data rc dirtyPages
    return ({ s with
      data := data
      writeBuf := { s.writeBuf with
        flushBytes := s.writeBuf.flushBytes + dirtyPages.length * s.geom.pageSize } },rc)

/-- The second phase over all bins; `out` gives the outcome by bin and page. -/
def writeBinsOutcome (backend : IoBackend) (out : Nat → Nat → WriteOutcome) (binIdx : Nat)
    (rc : Status) : List DimBin → Option (List DimBin × Status)
  | [] => some ([],rc)
  | bin :: rest => do
    let (bin,rc) ← writePhaseOutcome backend (out binIdx) bin rc
    let (rest,rc) ← writeBinsOutcome backend out (binIdx + 1) rc rest
    return (bin :: rest,rc)

/-- `graveldb_flush` when the page writes have the given outcomes: the third phase does not depend
on them. -/
def graveldbFlushOutcome (backend : IoBackend) (out : Nat → Nat → WriteOutcome) (db : GravelDB) :
    Option (GravelDB × Status) := do
  let (bins,rc) ← writeBinsOutcome backend out 0 .ok (db.bins.map flushKeyPhase)
  let bins ← forBins flushCleanPhase bins
  return ({ db with bins := bins },rc)

def landWriteOutcome (out : Nat → Nat → WriteOutcome) (db : GravelDB) (w : QueuedWrite) :
    Option GravelDB := do
  let bin ← db.bins[w.binIdx]?
  let bytes ← bufferAt bin.writeBuf w.addr
  return modifyBin db w.binIdx { bin with
    data := bin.data.write (w.pageId * bin.geom.pageSize)
      ((out w.binIdx w.pageId).transferred bin.geom.pageSize) bytes }

def landQueueOutcome (out : Nat → Nat → WriteOutcome) (db : GravelDB) :
    List QueuedWrite → Option GravelDB
  | [] => some db
  | w :: rest => do
    let db ← landWriteOutcome out db w
    landQueueOutcome out db rest

/-- `graveldb_flush_submit` and the `graveldb_flush_poll` that finds its requests done, when the
page writes have the given outcomes. -/
def flushPollOutcome (backend : IoBackend) (out : Nat → Nat → WriteOutcome) (db : GravelDB) :
    Option (GravelDB × Status) := do
  if db.bins = [] then return (db,.ok)
  else
    let bins := db.bins.map submitKeyPhase
    if backend = .ring then
      let (bins,queue) ← submitWrites 0 bins
      let db ← landQueueOutcome out { db with bins := bins } queue
      let bins ← forBins flushCleanPhase db.bins
      return ({ db with bins := bins },
        queue.foldl (fun rc w => noteOutcome backend (out w.binIdx w.pageId) rc) .ok)
    else
      let (bins,rc) ← writeBinsOutcome backend out 0 .ok bins
      let bins ← forBins flushCleanPhase bins
      return ({ db with bins := bins },rc)

end Gravel
