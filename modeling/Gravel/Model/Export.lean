import Gravel.Model.Delta
import Gravel.Model.Dump

namespace Gravel

def ckptExportIoBatch : Nat := 256

inductive CkptExportPhase where
  | idle
  | keyRead
  | embRead
  | output
deriving DecidableEq

structure ReadOp where
  featId : UInt64
  entryIdx : Nat
deriving DecidableEq

/-- Reads that were submitted and have not been performed: keys from an entry on, or merged
ranges of entries, each with its place in the buffer pool. -/
inductive PendingRead where
  | keys (start len : Nat)
  | ranges (l : List (Nat × Nat × Nat))

structure ExportedEntry where
  entryIdx : Nat
  entry : DumpEntry

/-- `GravelDBCkptExport` without the paired full export. `uring` tells whether reads are performed
by the kernel some time after they were submitted; `dump` is the dump file behind its header. -/
structure CkptExport where
  type : CkptType
  generation : UInt64
  baseGen : UInt64
  uring : Bool
  cursor : Nat
  snapshotBump : Nat
  batchEntries : Nat
  headerWritten : Bool
  scanDone : Bool
  dirtyPages : List Nat
  phase : CkptExportPhase
  keyBatchBuf : Nat → UInt64
  keyBatchStart : Nat
  keyBatchCount : Nat
  readOps : List ReadOp
  readBufPool : Nat → UInt8
  pending : Option PendingRead
  dump : List ExportedEntry

/-- `graveldb_ckpt_export_begin`; fresh buffers hold `keyJunk` and `poolJunk`. `dirtyPages` are
the pages from `dirty_page_cursor` on. -/
def graveldbCkptExportBegin (bin : DimBin) (type : CkptType) (baseGen : UInt64)
    (batchEntries : UInt32) (uring : Bool) (keyJunk : Nat → UInt64) (poolJunk : Nat → UInt8) :
    CkptExport where
  type := type
  generation := UInt64.ofNat bin.dirty.generation
  baseGen := baseGen
  uring := uring
  cursor := 0
  snapshotBump := bin.bumpPtr % 2 ^ 32
  batchEntries := if batchEntries = 0 then ckptExportIoBatch else batchEntries.toNat
  headerWritten := false
  scanDone := false
  dirtyPages := match type with
    | .full => []
    | .delta => frozenPages bin
  phase := .idle
  keyBatchBuf := keyJunk
  keyBatchStart := 0
  keyBatchCount := 0
  readOps := []
  readBufPool := poolJunk
  pending := none
  dump := []

def performReads (bin : DimBin) (exp : CkptExport) : CkptExport :=
  match exp.pending with
  | none => exp
  | some (.keys start len) =>
    { exp with pending := none, keyBatchBuf := bin.keys.read start len exp.keyBatchBuf }
  | some (.ranges l) =>
    { exp with
      pending := none
      readBufPool := l.foldl (fun pool r =>
        -- The buffer of a range starts at the place of its first entry in the pool. The length
        -- of a read handed to the ring is an `unsigned`.
        let len := r.2.1 * bin.geom.entrySize
        let bytes := bin.data.read (r.1 * bin.geom.entrySize)
          (if exp.uring then len % 2 ^ 32 else len)
          (fun i => pool (r.2.2 * bin.geom.entrySize + i))
        fun i => if r.2.2 * bin.geom.entrySize ≤ i then bytes (i - r.2.2 * bin.geom.entrySize)
          else pool i) exp.readBufPool }

def submitReads (bin : DimBin) (exp : CkptExport) (reads : PendingRead) : CkptExport :=
  let exp := { exp with pending := some reads }
  if exp.uring then exp else performReads bin exp

/-- The read of a batch of keys: what lies past `key_file_size` is zeroed instead. The length
of a read handed to the ring is an `unsigned`, eight bytes to a key. -/
def readKeyBatch (bin : DimBin) (exp : CkptExport) (start count : Nat) : CkptExport :=
  let len := if bin.keyFileSize < start + count then bin.keyFileSize - start else count
  let exp := { exp with
    keyBatchStart := start
    keyBatchCount := count
    keyBatchBuf := fun i => if len ≤ i ∧ i < count then 0 else exp.keyBatchBuf i
    phase := .keyRead }
  if 0 < len then submitReads bin exp (.keys start (if exp.uring then len % 2 ^ 29 else len))
  else exp

def idleFull (bin : DimBin) (exp : CkptExport) : CkptExport :=
  let stop := (exp.cursor + exp.batchEntries) % 2 ^ 32
  let stop := if exp.snapshotBump < stop then exp.snapshotBump else stop
  let exp' := readKeyBatch bin exp exp.cursor (sub32 stop exp.cursor)
  { exp' with cursor := stop, scanDone := exp.snapshotBump ≤ stop }

def pageExtent (epp snapshotBump pg : Nat) : Nat × Nat :=
  let base := pg * epp % 2 ^ 32
  let stop := (base + epp) % 2 ^ 32
  (base,if snapshotBump < stop then snapshotBump else stop)

/-- The pages that one step of a delta export gathers, and those it leaves for later. -/
def gatherPages (epp snapshotBump batch : Nat) : Nat → List Nat → List Nat × List Nat
  | _, [] => ([],[])
  | collected, pg :: rest =>
    if collected < batch then
      let (base,stop) := pageExtent epp snapshotBump pg
      let (taken,left) := gatherPages epp snapshotBump batch
        ((collected + sub32 stop base) % 2 ^ 32) rest
      (pg :: taken,left)
    else ([],pg :: rest)

def widenRange (epp snapshotBump : Nat) (r : Nat × Nat) (pg : Nat) : Nat × Nat :=
  let (base,stop) := pageExtent epp snapshotBump pg
  (if base < r.1 then base else r.1,if r.2 < stop then stop else r.2)

def gatheredRange (epp snapshotBump : Nat) (pages : List Nat) : Nat × Nat :=
  pages.foldl (widenRange epp snapshotBump) (2 ^ 32 - 1,0)

def gatheredKeys (epp snapshotBump batch : Nat) (pages : List Nat) : Nat × Nat :=
  let (start,stop) := gatheredRange epp snapshotBump pages
  (start,min (sub32 stop start) batch)

/-- The key range of the next batch of a delta export; without one the export is done. -/
def idleDelta (bin : DimBin) (exp : CkptExport) : CkptExport × Status :=
  let epp := bin.geom.entriesPerPage % 2 ^ 32
  let (taken,left) := gatherPages epp exp.snapshotBump exp.batchEntries 0 exp.dirtyPages
  let (start,count) := gatheredKeys epp exp.snapshotBump exp.batchEntries taken
  if start = 2 ^ 32 - 1 then ({ exp with dirtyPages := left, scanDone := true },.ok)
  else
    let exp' := readKeyBatch bin exp start count
    ({ exp' with dirtyPages := left, scanDone := left = [] },.again)

/-- The valid entries of a key batch; the count of read ops is compared as an `int`. -/
def validEntries (exp : CkptExport) : List ReadOp :=
  (((List.range exp.keyBatchCount).filter (fun i => exp.keyBatchBuf i ≠ 0)).map (fun i =>
    (⟨exp.keyBatchBuf i,(exp.keyBatchStart + i) % 2 ^ 32⟩ : ReadOp))).take
      (if exp.batchEntries < 2 ^ 31 then exp.batchEntries else 0)

/-- Neighbouring entries are merged into one range; `place` counts the entries so far. -/
def coalesce (place : Nat) : List ReadOp → List (Nat × Nat × Nat)
  | [] => []
  | op :: rest =>
    match coalesce (place + 1) rest with
    | (start,count,next) :: more =>
      if start = (op.entryIdx + 1) % 2 ^ 32 then (op.entryIdx,count + 1,place) :: more
      else (op.entryIdx,1,place) :: (start,count,next) :: more
    | [] => [(op.entryIdx,1,place)]

def outputEntries (bin : DimBin) (exp : CkptExport) : List ExportedEntry :=
  exp.readOps.zipIdx.map (fun (op,i) =>
    ⟨op.entryIdx,⟨op.featId,(List.range bin.geom.entrySize).map (fun j =>
      exp.readBufPool (i * bin.geom.entrySize + j))⟩⟩)

def batchStatus (exp : CkptExport) : Status := if exp.scanDone then .ok else .again

def idleStep (bin : DimBin) (exp : CkptExport) : CkptExport × Status :=
  let exp := { exp with pending := none, readOps := [] }
  match exp.type with
  | .full => (idleFull bin exp,.again)
  | .delta => idleDelta bin exp

/-- `CKPT_EXPORT_PHASE_KEY_READ`: once the keys are there, the reads of the valid entries are
submitted. -/
def keyReadStep (bin : DimBin) (exp : CkptExport) : CkptExport × Status :=
  if exp.pending.isSome then (exp,.again)
  else
    let exp := { exp with readOps := validEntries exp }
    if exp.readOps = [] then ({ exp with phase := .idle },batchStatus exp)
    else (submitReads bin { exp with phase := .embRead } (.ranges (coalesce 0 exp.readOps)),.again)

def embReadStep (exp : CkptExport) : CkptExport × Status :=
  if exp.pending.isSome then (exp,.again) else ({ exp with phase := .output },.again)

def outputStep (bin : DimBin) (exp : CkptExport) : CkptExport × Status :=
  ({ exp with dump := exp.dump ++ outputEntries bin exp, readOps := [], phase := .idle },
    batchStatus exp)

def exportStep (bin : DimBin) (exp : CkptExport) : CkptExport × Status :=
  if exp.scanDone ∧ exp.phase = .idle then (exp,.ok)
  else
    let exp := { exp with headerWritten := true }
    match exp.phase with
    | .idle => idleStep bin exp
    | .keyRead => keyReadStep bin exp
    | .embRead => embReadStep exp
    | .output => outputStep bin exp

/-- `graveldb_ckpt_export_step` until it returns `GRAVELDB_OK`, with every read performed before
the step that polls for it. -/
def exportUntilDone (bin : DimBin) : Nat → CkptExport → Option CkptExport
  | 0, _ => none
  | fuel + 1, exp =>
    match exportStep bin (performReads bin exp) with
    | (exp,.ok) => some exp
    | (exp,_) => exportUntilDone bin fuel exp

def exportInfo (bin : DimBin) (exp : CkptExport) : DumpInfo where
  type := exp.type
  generation := exp.generation
  dim := UInt32.ofNat bin.geom.dim
  entrySize := UInt32.ofNat bin.geom.entrySize
  baseGen := exp.baseGen

def exportFile (bin : DimBin) (exp : CkptExport) : List UInt8 :=
  exportDump (exportInfo bin exp) (exp.dump.map ExportedEntry.entry)

end Gravel
