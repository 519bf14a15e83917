import Gravel.Model.Store

namespace Gravel

/-- A step without a budget dumps 64 pages. -/
def stepBudget (maxPagesPerStep : UInt32) : Nat :=
  if maxPagesPerStep = 0 then 64 else maxPagesPerStep.toNat

/-- The write loop of a step: run after run, the last one cut to the `left` pages of the budget. -/
def dumpPages (s : DimBin) : Nat → Nat → DeltaFile → List Nat → DeltaFile × List Nat
  | 0, _, file, pending => (file,pending)
  | _ + 1, _, file, [] => (file,[])
  | fuel + 1, left, file, pg :: rest =>
    if left = 0 then (file,pg :: rest)
    else
      let n := runLength pg rest + 1
      let n := if left < n then left else n
      dumpPages s fuel (left - n) (dumpRun s file pg n) ((pg :: rest).drop n)

def openDump (s : DimBin) : DeltaDump := ⟨frozenPages s,deltaHeader s⟩

def dumpStep (s : DimBin) (maxPagesPerStep : UInt32) (d : DeltaDump) : DeltaDump :=
  match dumpPages s d.pending.length (stepBudget maxPagesPerStep) d.file d.pending with
  | (file,pending) => ⟨pending,file⟩

def writeDelta (dir : DataDir) (file : DeltaFile) : DataDir :=
  let deltas := Function.update (dir.deltas file.dim) file.generation (some file)
  { dir with deltas := Function.update dir.deltas file.dim deltas }

/-- The file on disk: `num_entries` stays 0 until the last page is written. -/
def DeltaDump.written (d : DeltaDump) : DeltaFile :=
  if d.pending = [] then d.file else { d.file with numEntries := 0 }

/-- `CKPT_DUMPING` for the current bin. -/
def stepDumping (db : GravelDB) (maxPagesPerStep : UInt32) (s : DimBin) : GravelDB :=
  let p := db.ckptProgress
  let d := dumpStep s maxPagesPerStep (p.dump.getD (openDump s))
  if d.pending = [] then
    { db with
      dir := writeDelta db.dir d.written
      ckptProgress := { p with currentBin := p.currentBin + 1, dump := none } }
  else
    { db with
      dir := writeDelta db.dir d.written
      ckptProgress := { p with dump := some d } }

/-- Pools for page buffers: one for each size, rounded to the alignment, that has been asked for.
Buffers of more than a quarter slab page have none. -/
def pagePools (bins : List DimBin) : Nat :=
  (((bins.filter (fun s => 1 < s.nextAddr)).map (fun s => slabRound s.geom.pageSize 4096)).filter
    (fun size => size ≤ slabPageSize / 4)).dedup.length

/-- The places of the slab allocator that are taken, as long as they have never run out: each overlay
has a pool. -/
def registeredPools (db : GravelDB) : Nat :=
  pagePools db.bins + (db.bins.filter DimBin.inCheckpoint).length

def stepFlushing (db : GravelDB) (p : CkptProgress) : Option GravelDB :=
  match db.bins[p.currentBin]? with
  | none => some { db with ckptProgress := { p with phase := .dumping, currentBin := 0 } }
  | some s => do
    let s ← dimbinCheckpointBegin (registeredPools db) s
    return modifyBin { db with ckptProgress := { p with currentBin := p.currentBin + 1 } }
      p.currentBin s

def stepFinishing (db : GravelDB) : Option GravelDB := do
  let bins ← forBins dimbinCheckpointEnd db.bins
  return { db with
    bins := bins
    currentEpoch := db.currentEpoch + 1
    ckptProgress := { db.ckptProgress with phase := .idle } }

def graveldbCheckpointStep (db : GravelDB) (maxPagesPerStep : UInt32) : Option GravelDB :=
  match db.ckptProgress.phase with
  | .idle => stepFlushing db ⟨.flushing,0,none⟩
  | .flushing => stepFlushing db db.ckptProgress
  | .dumping =>
    match db.bins[db.ckptProgress.currentBin]? with
    | none => some { db with
        ckptProgress := { db.ckptProgress with phase := .finishing, currentBin := 0 } }
    | some s => some (stepDumping db maxPagesPerStep s)
  | .finishing => stepFinishing db

/-- What the caller is told. Neither `dimbin_checkpoint_begin` nor `dimbin_checkpoint_end` returns
anything else. -/
def checkpointStepStatus (db : GravelDB) (maxPagesPerStep : UInt32) : Option (GravelDB × Status) := do
  let db ← graveldbCheckpointStep db maxPagesPerStep
  return (db,.ok)

def graveldbCheckpointInProgress (db : GravelDB) : Bool := db.ckptProgress.phase ≠ .idle

/-- `dimbin_checkpoint_begin` on bin after bin; every one of them takes a pool. -/
def beginBins (pools : Nat) : List DimBin → Option (List DimBin)
  | [] => some []
  | bin :: rest => do
    let bin ← dimbinCheckpointBegin pools bin
    let rest ← beginBins (pools + 1) rest
    return bin :: rest

def graveldbCheckpoint (db : GravelDB) : Option GravelDB := do
  let bins ← beginBins (registeredPools db) db.bins
  let dir := bins.foldl (fun dir s => writeDelta dir (dumpDelta s)) db.dir
  let bins ← forBins dimbinCheckpointEnd bins
  return { db with bins := bins, dir := dir, currentEpoch := db.currentEpoch + 1 }

end Gravel
