import Gravel.Model.Dump
import Gravel.Model.Store

namespace Gravel

def ckptImportBatch : Nat := 256

/-- `GravelDBCkptImport`. The bin is named by its index in the registry, `unread` is what the file
descriptor has not delivered yet. -/
structure CkptImport where
  db : GravelDB
  binIdx : Nat
  entrySize : UInt32
  unread : List UInt8
  headerRead : Bool
  done : Bool

def graveldbCkptImportBegin (db : GravelDB) (dim : Int) (file : List UInt8) :
    Option (Except Status CkptImport) :=
  match dimRegistryFind db.registry dim with
  | none => some (.error .errNotFound)
  | some dimIdx => do
    let bin ← db.bins[dimIdx]?
    return .ok {
      db, binIdx := dimIdx, entrySize := UInt32.ofNat bin.geom.entrySize, unread := file
      headerRead := false, done := false }

/-- One entry of a dump gets a slot, its vector and its key are written to the files and the index
is told; `false` is `GRAVELDB_ERR_FULL`. The vector is taken as written when the step returns. -/
def importEntry (db : GravelDB) (binIdx : Nat) (entrySize : UInt32) (featId : UInt64)
    (embedding : List UInt8) : Option (GravelDB × Bool) := do
  let bin ← db.bins[binIdx]?
  let (bin,entryIdx) := dimbinAllocEntry bin
  if entryIdx = 2 ^ 32 - 1 then return (modifyBin db binIdx bin,false)
  else
    let db := modifyBin db binIdx { bin with
      data := bin.data.write (entryIdx * entrySize.toNat) entrySize.toNat
        (fun i => embedding.getD i 0)
      keys := putKey bin.keys entryIdx featId }
    match dimRegistryFind db.registry bin.geom.dim with
    | none => return (db,true)
    | some dimIdx =>
      let (index,_) ← hashIndexPut db.index featId dimIdx entryIdx
      return ({ db with index := index },true)

/-- The loop of `graveldb_ckpt_import_step` with room for `n` more entries in the batch. A short
read of a key or of a vector ends the import like the trailer does. -/
def importLoop : Nat → CkptImport → Option (CkptImport × Status)
  | 0, imp => some (imp,.again)
  | n + 1, imp =>
    let featWire := imp.unread.take 8
    let unread := imp.unread.drop 8
    if featWire.length < 8 then some ({ imp with unread := unread, done := true },.ok)
    else if wireGetU32 featWire = ckptExportMagic then
      some ({ imp with unread := unread.drop 4, done := true },.ok)
    else
      let embedding := unread.take imp.entrySize.toNat
      let unread := unread.drop imp.entrySize.toNat
      if embedding.length ≠ imp.entrySize.toNat then
        some ({ imp with unread := unread, done := true },.ok)
      else do
        let featId := wireGetU64 featWire
        let (db,stored) ← importEntry imp.db imp.binIdx imp.entrySize featId embedding
        if stored then importLoop n { imp with db, unread }
        else return ({ imp with db, unread },.errFull)

def importHeader (imp : CkptImport) (bin : DimBin) : CkptImport × Status :=
  let hdrBuf := imp.unread.take wireCkptExportHdrSize
  let imp := { imp with unread := imp.unread.drop wireCkptExportHdrSize }
  if hdrBuf.length ≠ wireCkptExportHdrSize then (imp,.errCorrupt)
  else
    let h := wireDecodeCkptExportHdr hdrBuf
    if h.magic ≠ ckptExportMagic ∨ h.version ≠ 1 then (imp,.errCorrupt)
    else if intOfWire h.dim ≠ bin.geom.dim ∨ h.entrySize ≠ UInt32.ofNat bin.geom.entrySize then
      (imp,.errInvalid)
    else ({ imp with headerRead := true },.ok)

def graveldbCkptImportStep (imp : CkptImport) : Option (CkptImport × Status) := do
  if imp.done then return (imp,.ok)
  else
    let bin ← imp.db.bins[imp.binIdx]?
    let (imp,rc) := if imp.headerRead then (imp,.ok) else importHeader imp bin
    if rc = .ok then importLoop ckptImportBatch imp else return (imp,rc)

/-- `graveldb_ckpt_import_step` until it returns something else than `GRAVELDB_AGAIN`. -/
def importUntilDone : Nat → CkptImport → Option (CkptImport × Status)
  | 0, _ => none
  | fuel + 1, imp => do
    let (imp,rc) ← graveldbCkptImportStep imp
    if rc = .again then importUntilDone fuel imp else return (imp,rc)

/-- An import run to completion: the store behind it and the last status. A step that asks for
another one has read at least eight bytes, so the length of the file bounds the steps. -/
def graveldbCkptImport (db : GravelDB) (dim : Int) (file : List UInt8) :
    Option (GravelDB × Status) := do
  match ← graveldbCkptImportBegin db dim file with
  | .error rc => return (db,rc)
  | .ok imp =>
    let (imp,rc) ← importUntilDone (file.length + 1) imp
    return (imp.db,rc)

end Gravel
