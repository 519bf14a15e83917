import Gravel.Model.WriteBuffer
import Gravel.Model.HashIndex

namespace Gravel

/-- How page writes reach the disk: through a ring, through the functions of the same names in a
build without io_uring, or, where the ring could not be set up, by the caller itself. -/
inductive IoBackend where
  | ring
  | inline
  | direct
deriving DecidableEq

/-- What matters about a bin for durability: the key writes and pages it has buffered, and for
each of its files whether a write has not been followed by a successful `fdatasync`. -/
structure SyncBin where
  keyCount : Nat
  pages : Nat
  keysUnsynced : Bool
  dataUnsynced : Bool

def SyncBin.opened : SyncBin := ⟨0,0,false,false⟩

/-- Outcome of the I/O of one flush. `pagesWritten` says that no page write fails or is short,
`someWritten` that one of the bin does not and `reached` that bytes of the bin get to its file.
`queued` of the requests of `uring_io_submit_fsyncs` find a place in the ring. -/
structure IoOutcome where
  pagesWritten : Bool
  someWritten : Nat → Bool
  reached : Nat → Bool
  queued : Nat
  keySync : Nat → Bool
  dataSync : Nat → Bool

def uringMaxFds : Nat := 64

/-- Only a write that goes through makes `uring_io_track_fd` remember the file. -/
def IoOutcome.tracks (io : IoOutcome) (binIdx : Nat) : Bool :=
  io.pagesWritten || io.someWritten binIdx

def IoOutcome.issues (io : IoOutcome) (binIdx : Nat) : Bool :=
  io.tracks binIdx || io.reached binIdx

def SyncBin.flushKeys (bin : SyncBin) : SyncBin :=
  if bin.keyCount = 0 then bin else { bin with keyCount := 0, keysUnsynced := true }

def SyncBin.clean (bin : SyncBin) : SyncBin :=
  { bin with pages := bin.pages - min bin.pages maxFlushBatch }

/-- `dimbin_flush` on the bin with index `binIdx`. Only the fallback syncs the key file, and only
it reports a failed `fdatasync` without a ring. -/
def SyncBin.flush (backend : IoBackend) (sync : Bool) (io : IoOutcome) (binIdx : Nat)
    (bin : SyncBin) : SyncBin × Status :=
  let bin := bin.flushKeys
  if bin.pages = 0 then (bin,.ok)
  else
    let bin := { bin with dataUnsynced := bin.dataUnsynced || io.issues binIdx }
    let rc := if io.pagesWritten then Status.ok else .errIo
    if sync = false then (bin.clean,rc)
    else
      match backend with
      | .ring =>
        if io.tracks binIdx && 0 < io.queued then
          ({ bin with dataUnsynced := bin.dataUnsynced && !io.dataSync binIdx }.clean,
            if io.dataSync binIdx then rc else .errIo)
        else (bin.clean,rc)
      | .inline =>
        if io.tracks binIdx then
          ({ bin with dataUnsynced := bin.dataUnsynced && !io.dataSync binIdx }.clean,rc)
        else (bin.clean,rc)
      | .direct =>
        ({ bin with
            keysUnsynced := bin.keysUnsynced && !io.keySync binIdx
            dataUnsynced := bin.dataUnsynced && !io.dataSync binIdx }.clean,
          if io.keySync binIdx && io.dataSync binIdx then rc else .errIo)

/-- An open store. `outstanding` are the bins whose `fdatasync` is queued in the ring of an
asynchronous flush, `async` is the `submit_rc` of the flush that was not polled to its end. -/
structure SyncStore where
  backend : IoBackend
  bins : List SyncBin
  async : Option Status
  outstanding : List Nat
  ringErrors : Bool

def syncOpened (backend : IoBackend) (numBins : Nat) : SyncStore :=
  ⟨backend,List.replicate numBins .opened,none,[],false⟩

def dirtyBins (bins : List SyncBin) : List Nat :=
  (List.range bins.length).filter (fun i => bins[i]?.any (fun bin => bin.pages ≠ 0))

def trackedBins (io : IoOutcome) (bins : List SyncBin) : List Nat :=
  ((dirtyBins bins).filter io.tracks).take uringMaxFds

/-- Phase 1 of a flush of the store: the keys of all bins are written and synced. -/
def keyPhase (io : IoOutcome) (bins : List SyncBin) : List SyncBin :=
  bins.mapIdx (fun i bin =>
    let bin := bin.flushKeys
    { bin with keysUnsynced := bin.keysUnsynced && !io.keySync i })

def keyStatus (io : IoOutcome) (bins : List SyncBin) : Status :=
  if (List.range bins.length).all io.keySync then .ok else .errIo

def writePhase (io : IoOutcome) (bins : List SyncBin) : List SyncBin :=
  bins.mapIdx (fun i bin => if bin.pages = 0 then bin
    else { bin with dataUnsynced := bin.dataUnsynced || io.issues i })

def syncedBins (backend : IoBackend) (io : IoOutcome) (bins : List SyncBin) : List Nat :=
  match backend with
  | .ring => (trackedBins io bins).take io.queued
  | .inline => trackedBins io bins
  | .direct => dirtyBins bins

def syncBins (io : IoOutcome) (listed : List Nat) (bins : List SyncBin) : List SyncBin :=
  bins.mapIdx (fun i bin =>
    if i ∈ listed then { bin with dataUnsynced := bin.dataUnsynced && !io.dataSync i } else bin)

/-- Without a ring `uring_io_submit_fsyncs` does not look at the result of `fdatasync`. -/
def syncStatus (backend : IoBackend) (io : IoOutcome) (listed : List Nat) : Status :=
  if backend = .inline ∨ listed.all io.dataSync then .ok else .errIo

def Status.both (a b : Status) : Status := if a = .ok then b else a

/-- `graveldb_flush`. The ring must not have requests of another flush: their completions would
be counted as its own. -/
def SyncStore.flush (st : SyncStore) (io : IoOutcome) : Option (SyncStore × Status) :=
  if st.bins = [] then some (st,.ok)
  else if st.backend = .ring ∧ st.outstanding ≠ [] then none
  else
    let bins := writePhase io (keyPhase io st.bins)
    let written := if dirtyBins bins = [] ∨ io.pagesWritten then Status.ok else .errIo
    let listed := syncedBins st.backend io bins
    some ({ st with
        bins := (syncBins io listed bins).map SyncBin.clean
        ringErrors := false },
      ((keyStatus io st.bins).both written).both (syncStatus st.backend io listed))

def SyncStore.submit (st : SyncStore) (io : IoOutcome) : Option SyncStore :=
  if st.bins = [] then some { st with async := none }
  else if st.backend = .ring ∧ st.outstanding ≠ [] then none
  else
    let bins := writePhase io (keyPhase io st.bins)
    let written := if dirtyBins bins = [] ∨ io.pagesWritten then Status.ok else .errIo
    let rc := (keyStatus io st.bins).both written
    let listed := syncedBins st.backend io bins
    if st.backend = .ring then
      some { st with bins := bins, async := some rc, outstanding := listed, ringErrors := false }
    else some { st with
      bins := syncBins io listed bins
      async := some (rc.both (syncStatus st.backend io listed)) }

def SyncStore.complete (st : SyncStore) (ok : Bool) : SyncStore :=
  match st.outstanding with
  | [] => st
  | i :: rest =>
    { st with
      bins := if ok then st.bins.modify i (fun bin => { bin with dataUnsynced := false }) else st.bins
      outstanding := rest
      ringErrors := st.ringErrors || !ok }

def SyncStore.poll (st : SyncStore) : SyncStore × Status :=
  match st.async with
  | none => (st,.ok)
  | some rc =>
    if st.backend = .ring ∧ st.outstanding ≠ [] then (st,.again)
    else
      ({ st with bins := st.bins.map SyncBin.clean, async := none },
        if st.backend = .ring ∧ st.ringErrors then .errIo else rc)

/-- Everything that reaches the files of a store. The deletion of duplicates, an import and a
buffered key that finds the arena full write outside of a flush. -/
inductive SyncOp where
  | bufferKey (binIdx : Nat)
  | bufferPage (binIdx : Nat)
  | writeKeys (binIdx : Nat)
  | writeData (binIdx : Nat)
  | evict (binIdx : Nat) (backend : IoBackend) (io : IoOutcome)
  | dimbinFlush (binIdx : Nat) (backend : IoBackend) (io : IoOutcome)
  | flush (io : IoOutcome)
  | submit (io : IoOutcome)
  | complete (ok : Bool)
  | poll

def SyncStore.modify (st : SyncStore) (binIdx : Nat) (f : SyncBin → SyncBin) : SyncStore :=
  { st with bins := st.bins.modify binIdx f }

/-- The new state, and the status if the operation is one that promises durability. -/
def applySync (st : SyncStore) : SyncOp → Option (SyncStore × Option Status)
  | .bufferKey i => some (st.modify i (fun bin => { bin with keyCount := bin.keyCount + 1 }),none)
  | .bufferPage i => some (st.modify i (fun bin => { bin with pages := bin.pages + 1 }),none)
  | .writeKeys i =>
    some (st.modify i (fun bin => { bin.flushKeys with keysUnsynced := true }),none)
  | .writeData i => some (st.modify i (fun bin => { bin with dataUnsynced := true }),none)
  | .evict i backend io => some (st.modify i (fun bin => (bin.flush backend false io i).1),none)
  | .dimbinFlush i backend io =>
    some (st.modify i (fun bin => (bin.flush backend true io i).1),
      st.bins[i]?.map (fun bin => (bin.flush backend true io i).2))
  | .flush io => (st.flush io).map (fun r => (r.1,some r.2))
  | .submit io => (st.submit io).map (fun st => (st,none))
  | .complete ok => some (st.complete ok,none)
  | .poll => some (st.poll.1,some st.poll.2)

end Gravel
