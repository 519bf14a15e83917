import Gravel.Model.Codec
import Mathlib.Data.List.Sort

namespace Gravel

/-- A file of the `ckpt` directory whose name `parse_delta_filename` accepts. -/
structure CkptDeltaInfo where
  generation : Nat
  dim : Nat
  bytes : List UInt8

def runBytes (pageSize : Nat) (r : DeltaRun) : List UInt8 :=
  wireEncodeDeltaEntry (UInt32.ofNat r.start) (UInt32.ofNat r.count) ++
    (List.range (r.count * pageSize)).map r.bytes

def deltaHeaderOf (file : DeltaFile) : DeltaHeader :=
  ⟨deltaMagic,1,UInt64.ofNat file.generation,UInt32.ofNat file.dim,UInt32.ofNat file.entrySize,
    UInt64.ofNat file.bumpPtr,UInt32.ofNat file.numEntries,0⟩

/-- The file that a checkpoint leaves of a delta, with `num_entries` patched in. -/
def deltaFileBytes (pageSize : Nat) (file : DeltaFile) : List UInt8 :=
  wireEncodeDeltaHdr (deltaHeaderOf file) ++ file.runs.flatMap (runBytes pageSize)

/-- The delta of a frozen bin under the name that a checkpoint gives it. -/
def dumpInfo (s : DimBin) : CkptDeltaInfo :=
  ⟨s.dirty.generation,s.geom.dim,deltaFileBytes s.geom.pageSize (dumpDelta s)⟩

def cmpDeltaInfo (a b : CkptDeltaInfo) : Prop := a.generation ≤ b.generation

instance : DecidableRel cmpDeltaInfo := fun a b => Nat.decLe a.generation b.generation

/-- `ckpt_list_deltas` on the entries that `readdir` returns. -/
def ckptListDeltas (dir : List CkptDeltaInfo) (dim : Nat) : List CkptDeltaInfo :=
  (dir.filter (·.dim = dim)).insertionSort cmpDeltaInfo

def baseGeneration (metaFile : Option (List UInt8)) : Nat :=
  match ckptReadMetaFile metaFile with
  | .ok m => m.generation.toNat
  | .error _ => 0

/-- One bin in `ckpt_recover`; `pw` has the outcomes of the `pwrite`s for each file. The status of
a replay is not looked at. -/
def recoverBin (pw : CkptDeltaInfo → Nat → PwriteRc) (metaFile : Nat → Option (List UInt8))
    (dir : List CkptDeltaInfo) (s : ReplayBin) : ReplayBin :=
  let base := baseGeneration (metaFile s.bin.geom.dim)
  (ckptListDeltas dir s.bin.geom.dim).foldl
    (fun s d => if base < d.generation then (replayDeltaBytes (pw d) s d.bytes).1 else s) s

def ckptRecover (pw : CkptDeltaInfo → Nat → PwriteRc) (metaFile : Nat → Option (List UInt8))
    (dir : List CkptDeltaInfo) (bins : List ReplayBin) : List ReplayBin :=
  bins.map (recoverBin pw metaFile dir)

end Gravel
