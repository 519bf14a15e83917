import Gravel.Lib.Chain
import Gravel.Model.HashIndex

namespace Gravel

structure BinGen where
  dim : Nat
  generation : Nat
deriving DecidableEq

structure DeltaName where
  dim : Nat
  generation : Nat
deriving DecidableEq

/-- The `.meta` files by dim, and the delta files in the `ckpt` directory. -/
structure CkptDir where
  metaGen : Nat → Option Nat
  deltas : List DeltaName

structure CkptStore where
  bins : List BinGen
  currentEpoch : Nat
  dir : CkptDir

/-- One round of the copy loop of `ckpt_dump_full`: what `pread` and `write` return, `none` for
an error. -/
structure CopyRound where
  rd : Option Nat
  wr : Option Nat

/-- The outcomes of the calls of `ckpt_dump_full`: the `open` of the copy, the size that `fstat`
finds and the rounds of the loop. -/
structure DumpIo where
  dstOpens : Bool
  stSize : Option Nat
  round : Nat → CopyRound

/-- The outcomes of the system calls of `ckpt_scheduler_force_checkpoint`, by dim. -/
structure SafepointIo where
  deltaOpens : Nat → Bool
  metaWrites : Nat → Bool
  dump : Nat → DumpIo
  ckptDirOpens : Nat → Bool
  unlinks : DeltaName → Bool

def dumpBufSize : Nat := 4 * 1024 * 1024

/-- The bytes that the copy loop leaves. A round that goes on copies at least one byte. -/
def copyRemaining (round : Nat → CopyRound) : Nat → Nat → Nat → Nat
  | 0, _, remaining => remaining
  | fuel + 1, k, remaining =>
    if remaining = 0 then 0
    else
      match (round k).rd with
      | none => remaining
      | some rd =>
        let rd := min rd (min remaining dumpBufSize)
        if rd = 0 then remaining
        else if (round k).wr ≠ some rd then remaining
        else copyRemaining round fuel (k + 1) (remaining - rd)

def ckptDumpFull (io : DumpIo) : Status :=
  if io.dstOpens = false then .errIo
  else
    match io.stSize with
    | none => .errIo
    | some size => if copyRemaining io.round size 0 size = 0 then .ok else .errIo

def registerDim (bins : List BinGen) (b : BinGen) : List BinGen :=
  if b.dim ∈ bins.map BinGen.dim then bins else bins ++ [b]

/-- `graveldb_open`: the epoch starts at 0, a generation is restored from its `.meta` file if
that can be read. -/
def storeOpen (dims : List Nat) (metaReads : Nat → Bool) (dir : CkptDir) : CkptStore where
  bins := (dims.foldl (fun bins d => registerDim bins ⟨d,0⟩) []).map (fun b =>
    if metaReads b.dim then ⟨b.dim,(dir.metaGen b.dim).getD b.generation⟩ else b)
  currentEpoch := 0
  dir := dir

/-- `create_and_register_bin`, which reads no `.meta` file. -/
def storeCreateBin (db : CkptStore) (dim : Nat) : CkptStore :=
  { db with bins := registerDim db.bins ⟨dim,0⟩ }

def swapGeneration (b : BinGen) : BinGen := { b with generation := b.generation + 1 }

def createDelta (dir : CkptDir) (b : BinGen) : CkptDir :=
  if ⟨b.dim,b.generation⟩ ∈ dir.deltas then dir
  else { dir with deltas := dir.deltas ++ [⟨b.dim,b.generation⟩] }

/-- `graveldb_checkpoint`: all bins begin, a delta file is opened for each, all bins end. Each
`return` is `GRAVELDB_OK`, as those of the functions it calls are. -/
def storeCheckpoint (deltaOpens : Nat → Bool) (db : CkptStore) : CkptStore :=
  let bins := db.bins.map swapGeneration
  { bins := bins
    currentEpoch := db.currentEpoch + 1
    dir := bins.foldl (fun dir b => if deltaOpens b.dim then createDelta dir b else dir) db.dir }

/-- `ckpt_persist_meta`: the new file takes the place of the old one, or the old one stays. -/
def ckptPersistMeta (io : SafepointIo) (dir : CkptDir) (b : BinGen) : CkptDir :=
  if io.metaWrites b.dim then
    { dir with metaGen := Function.update dir.metaGen b.dim (some b.generation) }
  else dir

def oldDeltas (io : SafepointIo) (lastFullGeneration dim : Nat) (dir : CkptDir) : List DeltaName :=
  if io.ckptDirOpens dim then
    dir.deltas.filter (fun n => n.dim = dim ∧ n.generation ≤ lastFullGeneration ∧ io.unlinks n)
  else []

def ckptPurgeOldDeltas (io : SafepointIo) (lastFullGeneration dim : Nat) (dir : CkptDir) : CkptDir :=
  let gone := oldDeltas io lastFullGeneration dim dir
  { dir with deltas := dir.deltas.filter (fun n => n ∉ gone) }

def purgeBins (io : SafepointIo) (lastFullGeneration : Nat) :
    CkptDir → List BinGen → CkptDir × List DeltaName
  | dir, [] => (dir,[])
  | dir, b :: rest =>
    let (dir',gone) := purgeBins io lastFullGeneration
      (ckptPurgeOldDeltas io lastFullGeneration b.dim dir) rest
    (dir',oldDeltas io lastFullGeneration b.dim dir ++ gone)

/-- `CkptFullResponse`; `next` is the index of another response. -/
structure CkptFullResponse where
  completed : Bool
  checkpointId : Nat
  deltaBase : Nat
  timestampMs : UInt64
  next : Option Nat
deriving DecidableEq

structure CkptConfig where
  flushIntervalMs : UInt32
  checkpointIntervalS : UInt32
  fullCooldownMs : UInt32

structure CkptScheduler where
  config : CkptConfig
  lastFlushMs : UInt64
  lastCheckpointMs : UInt64
  fullPending : Bool
  fullWaiters : Option Nat
  lastFullGeneration : Nat
  lastFullTimeMs : UInt64
  fullCooldownMs : UInt32
  deltaChainLength : Nat
  totalFlushes : Nat
  totalCheckpoints : Nat
  totalFullCheckpoints : Nat

def ckptConfigDefault : CkptConfig := ⟨1000,60,60000⟩

def ckptSchedulerInit (db : CkptStore) (config : Option CkptConfig) : CkptScheduler where
  config := config.getD ckptConfigDefault
  lastFlushMs := 0
  lastCheckpointMs := 0
  fullPending := false
  fullWaiters := none
  lastFullGeneration := db.currentEpoch
  lastFullTimeMs := 0
  fullCooldownMs := (config.getD ckptConfigDefault).fullCooldownMs
  deltaChainLength := 0
  totalFlushes := 0
  totalCheckpoints := 0
  totalFullCheckpoints := 0

structure SchedHost where
  sched : CkptScheduler
  db : CkptStore
  responses : List CkptFullResponse

structure FullDump where
  dim : Nat
  generation : Nat
  rc : Status
deriving DecidableEq

structure Safepoint where
  rc : Status
  dumps : List FullDump
  purged : List DeltaName

def completeResponse (checkpointId : Nat) (timestampMs : UInt64) (r : CkptFullResponse) :
    CkptFullResponse :=
  { r with
    checkpointId := checkpointId, deltaBase := checkpointId, timestampMs := timestampMs
    completed := true }

/-- The loop over the waiters; on a list that runs in a circle it does not end. -/
def completeWaiters (checkpointId : Nat) (timestampMs : UInt64) (responses : List CkptFullResponse)
    (waiter : Option Nat) : Option (List CkptFullResponse) :=
  Chain.walk CkptFullResponse.next (completeResponse checkpointId timestampMs) responses.length
    responses waiter

/-- The full checkpoint of `ckpt_scheduler_force_checkpoint`. The results of the dumps are not
looked at. -/
def fullCheckpoint (io : SafepointIo) (h : SchedHost) : Option (SchedHost × Safepoint) := do
  let dumps := h.db.bins.map (fun b => (⟨b.dim,b.generation,ckptDumpFull (io.dump b.dim)⟩ : FullDump))
  let sched := { h.sched with
    lastFullGeneration := h.db.currentEpoch
    lastFullTimeMs := h.sched.lastCheckpointMs
    deltaChainLength := 0
    totalFullCheckpoints := h.sched.totalFullCheckpoints + 1
    fullPending := false
    fullWaiters := none }
  let responses ← completeWaiters h.db.currentEpoch sched.lastFullTimeMs h.responses
    h.sched.fullWaiters
  let (dir,purged) := purgeBins io sched.lastFullGeneration h.db.dir h.db.bins
  return (⟨sched,{ h.db with dir := dir },responses⟩,⟨.ok,dumps,purged⟩)

def deltaCheckpoint (io : SafepointIo) (h : SchedHost) : SchedHost :=
  let db := storeCheckpoint io.deltaOpens h.db
  { h with
    db := { db with dir := db.bins.foldl (ckptPersistMeta io) db.dir }
    sched := { h.sched with
      deltaChainLength := h.sched.deltaChainLength + 1
      totalCheckpoints := h.sched.totalCheckpoints + 1 } }

def ckptSchedulerForceCheckpoint (io : SafepointIo) (h : SchedHost) :
    Option (SchedHost × Safepoint) :=
  let h := deltaCheckpoint io h
  if h.sched.fullPending then fullCheckpoint io h else some (h,⟨.ok,[],[]⟩)

def withinCooldown (sched : CkptScheduler) : Bool :=
  0 < sched.lastFullTimeMs && 0 < sched.fullCooldownMs &&
    sched.lastCheckpointMs - sched.lastFullTimeMs < sched.fullCooldownMs.toUInt64

def ckptSchedulerRequestFull (h : SchedHost) (response : Nat) : Option SchedHost :=
  if response < h.responses.length then
    if withinCooldown h.sched then
      some { h with
        responses := h.responses.set response
          ⟨true,h.sched.lastFullGeneration,h.sched.lastFullGeneration,h.sched.lastFullTimeMs,none⟩ }
    else
      some { h with
        responses := h.responses.set response ⟨false,0,0,0,h.sched.fullWaiters⟩
        sched := { h.sched with fullWaiters := some response, fullPending := true } }
  else none

def flushDue (sched : CkptScheduler) (nowMs : UInt64) : Bool :=
  0 < sched.config.flushIntervalMs &&
    sched.config.flushIntervalMs.toUInt64 ≤ nowMs - sched.lastFlushMs

/-- `ckpt_scheduler_force_flush` in a tick, with the status of `graveldb_flush`. -/
def tickFlush (flushRc : Status) (sched : CkptScheduler) (nowMs : UInt64) : CkptScheduler :=
  { sched with
    totalFlushes := if flushRc = .ok then sched.totalFlushes + 1 else sched.totalFlushes
    lastFlushMs := nowMs }

def checkpointDue (sched : CkptScheduler) (nowMs : UInt64) : Bool :=
  0 < sched.config.checkpointIntervalS &&
    sched.config.checkpointIntervalS.toUInt64 * 1000 ≤ nowMs - sched.lastCheckpointMs

/-- The second half of `ckpt_scheduler_tick`: the time is noted when the checkpoint is over. -/
def tickCheckpoint (io : SafepointIo) (h : SchedHost) (nowMs : UInt64) :
    Option (SchedHost × Safepoint) :=
  if checkpointDue h.sched nowMs then do
    let (h,safepoint) ← ckptSchedulerForceCheckpoint io h
    return ({ h with sched := { h.sched with lastCheckpointMs := nowMs } },safepoint)
  else some (h,⟨.ok,[],[]⟩)

def ckptSchedulerTick (flushRc : Status) (io : SafepointIo) (h : SchedHost) (nowMs : UInt64) :
    Option (SchedHost × Safepoint) :=
  if flushDue h.sched nowMs then
    let h := { h with sched := tickFlush flushRc h.sched nowMs }
    if flushRc ≠ .ok then some (h,⟨flushRc,[],[]⟩) else tickCheckpoint io h nowMs
  else tickCheckpoint io h nowMs

def openHost (dims : List Nat) (config : Option CkptConfig) (metaReads : Nat → Bool) (dir : CkptDir)
    (responses : List CkptFullResponse) : SchedHost :=
  let db := storeOpen dims metaReads dir
  ⟨ckptSchedulerInit db config,db,responses⟩

/-- Calls on a store and its scheduler. `reopen` comes after a close or a crash. -/
inductive HostCall where
  | reopen (dims : List Nat) (config : Option CkptConfig) (metaReads : Nat → Bool)
  | createBin (dim : Nat)
  | checkpoint (deltaOpens : Nat → Bool)
  | requestFull (response : Nat)
  | forceCheckpoint (io : SafepointIo)
  | tick (flushRc : Status) (io : SafepointIo) (nowMs : UInt64)

def hostStep (h : SchedHost) : HostCall → Option SchedHost
  | .reopen dims config metaReads => some (openHost dims config metaReads h.db.dir h.responses)
  | .createBin dim => some { h with db := storeCreateBin h.db dim }
  | .checkpoint deltaOpens => some { h with db := storeCheckpoint deltaOpens h.db }
  | .requestFull response => ckptSchedulerRequestFull h response
  | .forceCheckpoint io => (ckptSchedulerForceCheckpoint io h).map Prod.fst
  | .tick flushRc io nowMs => (ckptSchedulerTick flushRc io h nowMs).map Prod.fst

end Gravel
