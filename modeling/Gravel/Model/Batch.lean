import Gravel.Model.Store
import Mathlib.Data.Prod.Lex

namespace Gravel

/-- One key of `graveldb_batch_put`; `emb` is `none` for a NULL pointer. The vector is read for a
whole entry. -/
structure PutItem where
  featId : UInt64
  dim : Nat
  emb : Option (Nat → UInt8)

/-- A later error replaces an earlier one. -/
def Status.then : Status → Status → Status
  | rc,.ok => rc
  | _,rc => rc

/-- The entry of a key that is to be written: its old one, or a new one. `none` as the entry is
`GRAVELDB_ERR_DIM_MISMATCH`. -/
def resolveEntry (db : GravelDB) (dimIdx : Nat) (featId : UInt64) :
    Option (GravelDB × Option Nat) := do
  let (index,found) ← hashIndexGet db.index featId
  match found with
  | some (existingIdx,existing) =>
    return ({ db with index := index },if existingIdx = dimIdx then some existing else none)
  | none =>
    let bin ← db.bins[dimIdx]?
    let (bin,entry) := dimbinAllocEntry bin
    let (index,_) ← hashIndexPut index featId dimIdx entry
    return (modifyBin { db with index := index } dimIdx bin,some entry)

def bufKeyIn (db : GravelDB) (dimIdx entry : Nat) (featId : UInt64) : Option GravelDB := do
  let bin ← db.bins[dimIdx]?
  let bin ← dimbinBufKey bin entry featId
  return modifyBin db dimIdx bin

def putItem (db : GravelDB) (dimIdx : Nat) (deferred : List EmbWriteEntry) (rc : Status)
    (item : PutItem) : Option (GravelDB × List EmbWriteEntry × Status) :=
  match item.emb with
  | none => some (db,deferred,rc)
  | some emb =>
    if item.featId = 0 then some (db,deferred,rc)
    else do
      let (db,entry) ← resolveEntry db dimIdx item.featId
      match entry with
      | none => return (db,deferred,.errDimMismatch)
      | some entry =>
        let db ← bufKeyIn db dimIdx entry item.featId
        return (db,deferred ++ [⟨entry,emb⟩],rc)

def putItems (db : GravelDB) (dimIdx : Nat) (deferred : List EmbWriteEntry) (rc : Status) :
    List PutItem → Option (GravelDB × List EmbWriteEntry × Status)
  | [] => some (db,deferred,rc)
  | item :: rest => do
    let (db,deferred,rc) ← putItem db dimIdx deferred rc item
    putItems db dimIdx deferred rc rest

def reserveIn (db : GravelDB) (dimIdx count : Nat) : Option GravelDB := do
  let bin ← db.bins[dimIdx]?
  return modifyBin db dimIdx (dimbinReserve bin count)

def putBatchIn (db : GravelDB) (dimIdx : Nat) (deferred : List EmbWriteEntry) :
    Option (GravelDB × Status) := do
  let bin ← db.bins[dimIdx]?
  let (bin,rc) ← dimbinPutBatch bin deferred
  return (modifyBin db dimIdx bin,rc)

/-- Bin of a dim, created if that is allowed and works; else `none` as the index. -/
def resolveBin (db : GravelDB) (dim : Nat) : Option (GravelDB × Option Nat) :=
  match dimRegistryFind db.registry dim with
  | some dimIdx => some (db,some dimIdx)
  | none =>
    if db.config.autoCreateBins && db.dir.opens dim then do
      let (db,dimIdx) ← createAndRegisterBin db dim
      return (db,some dimIdx)
    else some (db,none)

def putGroup (db : GravelDB) (dimIdx : Nat) (rc : Status) (items : List PutItem) :
    Option (GravelDB × Status) := do
  let db ← reserveIn db dimIdx items.length
  let (db,deferred,rc) ← putItems db dimIdx [] rc items
  let (db,wrc) ← putBatchIn db dimIdx deferred
  return (db,rc.then wrc)

/-- The dim groups in turn; a dim without a bin ends the batch. -/
def putGroups (db : GravelDB) (rc : Status) :
    List (Nat × List PutItem) → Option (GravelDB × Status)
  | [] => some (db,rc)
  | (dim,items) :: rest => do
    let (db,dimIdx) ← resolveBin db dim
    match dimIdx with
    | none => return (db,if db.config.autoCreateBins then .errOom else .errInvalid)
    | some dimIdx =>
      let (db,rc) ← putGroup db dimIdx rc items
      putGroups db rc rest

def sortByDim (items : List PutItem) : List PutItem :=
  items.insertionSort (fun a b => a.dim ≤ b.dim)

def graveldbBatchPut (db : GravelDB) (items : List PutItem) : Option (GravelDB × Status) :=
  putGroups db .ok (Runs.runs PutItem.dim (sortByDim items))

/-- A deleted entry is recycled at once, or at the end of the checkpoint. -/
def dropEntry (bin : DimBin) (entry : Nat) : Option DimBin :=
  if bin.inCheckpoint then some { bin with overlay := overlayTombstone bin.overlay entry }
  else dimbinFreeEntry bin entry

def deleteKey (db : GravelDB) (featId : UInt64) : Option GravelDB := do
  if featId = 0 then return db
  else
    let (index,found) ← hashIndexGet db.index featId
    match found with
    | none => return { db with index := index }
    | some (dimIdx,entry) =>
      let bin ← db.bins[dimIdx]?
      let bin ← dropEntry bin entry
      let (index,_) ← hashIndexRemove index featId
      return modifyBin { db with index := index } dimIdx bin

def graveldbBatchDelete (db : GravelDB) : List UInt64 → Option GravelDB
  | [] => some db
  | featId :: rest => do
    let db ← deleteKey db featId
    graveldbBatchDelete db rest

/-- One output slot of `graveldb_batch_get`: the buffer of the caller with what it holds, or
`none` for a NULL pointer. -/
structure GetRequest where
  featId : UInt64
  out : Option (Nat → UInt8)

structure GetResult where
  dim : Nat
  out : Nat → UInt8

structure DiskRead where
  reqIdx : Nat
  binIdx : Nat
  entryId : Nat
deriving DecidableEq

def copyBytes (len : Nat) (src dst : Nat → UInt8) : Nat → UInt8 :=
  fun i => if i < len then src i else dst i

structure Resolved where
  result : GetResult
  read : Option Nat

def readBuffered (bin : DimBin) (entry : Nat) (out : Nat → UInt8) : Option Resolved := do
  let page ← pagemapLookup bin.writeBuf.slots bin.writeBuf.capacity (bin.geom.pageOf entry)
  match page with
  | some buf =>
    return ⟨⟨bin.geom.dim,copyBytes bin.geom.entrySize
      (fun i => buf.bytes (bin.geom.offsetInPage entry + i)) out⟩,none⟩
  | none => return ⟨⟨bin.geom.dim,out⟩,some entry⟩

def readEntry (bin : DimBin) (entry : Nat) (out : Nat → UInt8) : Option (DimBin × Resolved) := do
  if bin.inCheckpoint then
    let (overlay,held) ← overlayContains bin.overlay entry
    let bin := { bin with overlay := overlay }
    if held then
      let (overlay,data) ← overlayGet bin.overlay entry
      let out := match data with
        | some data => copyBytes (bin.geom.dim * 4) data out
        | none => out
      return ({ bin with overlay := overlay },⟨⟨bin.geom.dim,out⟩,none⟩)
    else
      let r ← readBuffered bin entry out
      return (bin,r)
  else
    let r ← readBuffered bin entry out
    return (bin,r)

def resolveGet (db : GravelDB) (req : GetRequest) :
    Option (GravelDB × GetResult × Option (Nat × Nat)) := do
  let (index,found) ← hashIndexGet db.index req.featId
  let db := { db with index := index }
  match found with
  | none => return (db,⟨0,req.out.getD (fun _ => 0)⟩,none)
  | some (binIdx,entry) =>
    let bin ← db.bins[binIdx]?
    match req.out with
    | none => return (db,⟨bin.geom.dim,fun _ => 0⟩,none)
    | some out =>
      let (bin,r) ← readEntry bin entry out
      return (modifyBin db binIdx bin,r.result,r.read.map (fun e => (binIdx,e)))

def resolveGets (db : GravelDB) (reqIdx : Nat) :
    List GetRequest → Option (GravelDB × List GetResult × List DiskRead)
  | [] => some (db,[],[])
  | req :: rest => do
    let (db,result,read) ← resolveGet db req
    let (db,results,reads) ← resolveGets db (reqIdx + 1) rest
    return (db,result :: results,
      (read.map (fun r => (⟨reqIdx,r.1,r.2⟩ : DiskRead))).toList ++ reads)

/-- Bin and page of a disk read. Bins are ordered by index where the code compares pointers. -/
def readKey (db : GravelDB) (r : DiskRead) : Nat ×ₗ Nat :=
  toLex (r.binIdx,match db.bins[r.binIdx]? with
    | some bin => bin.geom.pageOf r.entryId
    | none => 0)

def directRead (bin : DimBin) (entry : Nat) (out : Nat → UInt8) : Nat → UInt8 :=
  bin.data.read (entry * bin.geom.entrySize) bin.geom.entrySize out

/-- `pread` of the page into a fresh buffer `junk`, and the copy of one entry out of it. -/
def pageRead (bin : DimBin) (junk : Nat → UInt8) (entry : Nat) (out : Nat → UInt8) : Nat → UInt8 :=
  let page := bin.data.read (bin.geom.pageOf entry * bin.geom.pageSize) bin.geom.pageSize junk
  copyBytes bin.geom.entrySize (fun i => page (bin.geom.offsetInPage entry + i)) out

def serveGroup (db : GravelDB) (junk : Nat → UInt8) (results : List GetResult)
    (group : List DiskRead) : List GetResult :=
  group.foldl (fun results r =>
    match db.bins[r.binIdx]?,results[r.reqIdx]? with
    | some bin,some result =>
      let out := if group.length = 1 ∧ bin.geom.entriesPerPage = 1
        then directRead bin r.entryId result.out
        else pageRead bin junk r.entryId result.out
      results.set r.reqIdx { result with out := out }
    | _,_ => results) results

def graveldbBatchGet (db : GravelDB) (junk : Nat → UInt8) (reqs : List GetRequest) :
    Option (GravelDB × List GetResult) := do
  let (db,results,reads) ← resolveGets db 0 reqs
  let sorted := reads.insertionSort (fun a b => readKey db a ≤ readKey db b)
  let groups := Runs.runs (readKey db) sorted
  return (db,groups.foldl (fun results group => serveGroup db junk results group.2) results)

def graveldbFlush (db : GravelDB) : Option GravelDB := do
  let bins := db.bins.map flushKeyPhase
  let bins ← forBins flushWritePhase bins
  let bins ← forBins flushCleanPhase bins
  return { db with bins := bins }

end Gravel
