import Gravel.Model.Delta
import Gravel.Model.DimRegistry

namespace Gravel

/-- `GravelDBConfig` as `graveldb_open` reads it. Dims are positive; the layout of a bin divides
by an entry size of zero for dim 0. -/
structure GravelDBConfig where
  dims : List Nat
  bufferSize : Nat
  indexCapacity : Nat
  entryAlign : UInt32
  pageSize : UInt32
  autoCreateBins : Bool
  overlayBudget : Nat

structure BinFiles where
  data : File UInt8
  keys : File UInt64

/-- The data directory: bin files by dim, the dims for which `create_and_register_bin` can open them,
the generation in each `.meta` file, delta files by dim and generation, and the page size that
`detect_page_size` finds. -/
structure DataDir where
  bins : Nat → BinFiles
  opens : Nat → Bool
  metaGen : Nat → Option Nat
  deltas : Nat → Nat → Option DeltaFile
  detectedPageSize : UInt32

def emptyDir (detectedPageSize : UInt32) : DataDir :=
  ⟨fun _ => ⟨File.empty,File.empty⟩,fun _ => true,fun _ => none,fun _ _ => none,detectedPageSize⟩

/-- An open store. `config.pageSize` is the resolved one; `dir` has the files of the bins that
are not open, the files of open bins are part of `bins`, which is indexed as `dim_reg.bins`. -/
structure GravelDB where
  config : GravelDBConfig
  registry : DimRegistry
  bins : List DimBin
  index : HashIndex
  currentEpoch : Nat
  ckptProgress : CkptProgress
  dir : DataDir

def bufferBytes (config : GravelDBConfig) : Nat :=
  if 0 < config.bufferSize then config.bufferSize else 256 * 1024 * 1024

def indexSlots (config : GravelDBConfig) : Nat :=
  if 0 < config.indexCapacity then config.indexCapacity else 2 ^ 24

def openBin (dir : DataDir) (dim bufferSize : Nat) (entryAlign pageSize : UInt32)
    (overlayBudget : Nat) : Option DimBin := do
  let g ← dimbinGeometry dim entryAlign pageSize
  let bin ← dimbinInit g bufferSize (dir.bins dim).data (dir.bins dim).keys
  return { bin with overlayBudget := overlayBudget }

/-- A bin under its registry index; the bin of a dim that is known already is not used. -/
def registerBin (db : GravelDB) (dim : Nat) (bin : DimBin) : Option (GravelDB × Nat) := do
  let (registry,binIdx) ← dimRegistryPut db.registry dim
  if binIdx < db.bins.length then return (db,binIdx)
  else return ({ db with registry := registry, bins := db.bins ++ [bin] },binIdx)

def sharedBuffer (db : GravelDB) : Nat :=
  max (bufferBytes db.config / (db.registry.count + 1)) (4 * 1024 * 1024)

def createAndRegisterBin (db : GravelDB) (dim : Nat) : Option (GravelDB × Nat) := do
  let bin ← openBin db.dir dim (sharedBuffer db) db.config.entryAlign db.config.pageSize
    db.config.overlayBudget
  registerBin db dim bin

/-- The loop over the dims of the configuration, which hands the unresolved page size on. -/
def openBins (config : GravelDBConfig) (db : GravelDB) : List Nat → Option GravelDB
  | [] => some db
  | dim :: rest => do
    let bin ← openBin db.dir dim (bufferBytes config / config.dims.length) config.entryAlign
      config.pageSize config.overlayBudget
    let (db,_) ← registerBin db dim bin
    openBins config db rest

def modifyBin (db : GravelDB) (binIdx : Nat) (bin : DimBin) : GravelDB :=
  { db with bins := db.bins.set binIdx bin }

def freeIn (db : GravelDB) (binIdx entryIdx : Nat) : Option GravelDB := do
  let bin ← db.bins[binIdx]?
  let bin ← dimbinFreeEntry bin entryIdx
  return modifyBin db binIdx bin

/-- Both copies of a key that two bins hold are dropped, on disk first. -/
def discardKey (db : GravelDB) (binIdx entryIdx : Nat) : Option GravelDB := do
  let bin ← db.bins[binIdx]?
  freeIn (modifyBin db binIdx { bin with keys := putKey bin.keys entryIdx 0 }) binIdx entryIdx

def rebuildEntry (db : GravelDB) (binIdx entryIdx : Nat) (featId : UInt64) : Option GravelDB := do
  if featId = 0 then freeIn db binIdx entryIdx
  else
    let (index,found) ← hashIndexGet db.index featId
    match found with
    | some (prevIdx,prevEntry) =>
      if prevIdx ≠ binIdx then
        let db ← discardKey { db with index := index } prevIdx prevEntry
        let (index,_) ← hashIndexRemove db.index featId
        discardKey { db with index := index } binIdx entryIdx
      else
        let (index,_) ← hashIndexPut index featId binIdx entryIdx
        return { db with index := index }
    | none =>
      let (index,_) ← hashIndexPut index featId binIdx entryIdx
      return { db with index := index }

def rebuildEntries (db : GravelDB) (binIdx : Nat) : List (Nat × UInt64) → Option GravelDB
  | [] => some db
  | (entryIdx,featId) :: rest => do
    let db ← rebuildEntry db binIdx entryIdx featId
    rebuildEntries db binIdx rest

def readKeys (bin : DimBin) : List (Nat × UInt64) :=
  (List.range (min bin.bumpPtr bin.keys.size)).map (fun e => (e,bin.keys.cell e))

def rebuildBins (db : GravelDB) : List Nat → Option GravelDB
  | [] => some db
  | binIdx :: rest => do
    let bin ← db.bins[binIdx]?
    let db ← rebuildEntries db binIdx (readKeys bin)
    rebuildBins db rest

def rebuildIndexFromKeys (db : GravelDB) : Option GravelDB :=
  rebuildBins db (List.range db.bins.length)

/-- The keys that one `pread` of the key file delivers: it fails (`none`) or returns a number of
bytes, and the slots behind the last whole key are not looked at. -/
def keysRead (bin : DimBin) : Option Nat → List (Nat × UInt64)
  | none => []
  | some rd => (readKeys bin).take (rd / 8)

/-- `rebuild_index_from_keys` with the result `rd i` of the `pread` on bin `i`. -/
def rebuildBinsFrom (rd : Nat → Option Nat) (db : GravelDB) : List Nat → Option GravelDB
  | [] => some db
  | binIdx :: rest => do
    let bin ← db.bins[binIdx]?
    let db ← if bin.bumpPtr = 0 then some db
      else rebuildEntries db binIdx (keysRead bin (rd binIdx))
    rebuildBinsFrom rd db rest

def rebuildIndexFrom (rd : Nat → Option Nat) (db : GravelDB) : Option GravelDB :=
  rebuildBinsFrom rd db (List.range db.bins.length)

def restoreGeneration (dir : DataDir) (bin : DimBin) : DimBin :=
  match dir.metaGen bin.geom.dim with
  | some generation => { bin with dirty := { bin.dirty with generation := generation } }
  | none => bin

def graveldbOpen (config : GravelDBConfig) (dir : DataDir) : Option GravelDB := do
  let index ← hashIndexInit (indexSlots config)
  let pageSize := if config.pageSize = 0 then dir.detectedPageSize else config.pageSize
  let db ← openBins config
    { config := { config with pageSize := pageSize }
      registry := dimRegistryInit, bins := [], index := index
      currentEpoch := 0, ckptProgress := ckptIdle, dir := dir } config.dims
  let db ← rebuildIndexFromKeys db
  return { db with bins := db.bins.map (restoreGeneration dir) }

def forBins (f : DimBin → Option DimBin) : List DimBin → Option (List DimBin)
  | [] => some []
  | bin :: rest => do
    let bin ← f bin
    let rest ← forBins f rest
    return bin :: rest

end Gravel
