import Gravel.Model.PageIO

namespace Gravel

def maxDirty : Nat := 2 ^ 20

structure DeltaRun where
  start : Nat
  count : Nat
  bytes : Nat → UInt8

/-- A delta file after decoding: the header and the runs that follow it. -/
structure DeltaFile where
  generation : Nat
  dim : Nat
  entrySize : Nat
  bumpPtr : Nat
  numEntries : Nat
  runs : List DeltaRun

def deltaHeader (s : DimBin) : DeltaFile where
  generation := s.dirty.generation
  dim := s.geom.dim
  entrySize := s.geom.entrySize % 2 ^ 32
  bumpPtr := s.bumpPtr
  numEntries := 0
  runs := []

def runLength (prev : Nat) : List Nat → Nat
  | [] => 0
  | pg :: rest => if pg = prev + 1 then runLength pg rest + 1 else 0

/-- The run of `count` pages at `start`; it is skipped when one `pread` does not return all of it. -/
def dumpRun (s : DimBin) (file : DeltaFile) (start count : Nat) : DeltaFile :=
  let byteLen := count * s.geom.pageSize
  if start * s.geom.pageSize + byteLen ≤ s.data.size ∧ byteLen ≤ maxRwCount then
    { file with
      numEntries := file.numEntries + 1
      runs := file.runs ++ [⟨start,count,s.data.read (start * s.geom.pageSize) byteLen (fun _ => 0)⟩] }
  else file

def dumpRuns (s : DimBin) : Nat → DeltaFile → List Nat → DeltaFile
  | 0, file, _ => file
  | _ + 1, file, [] => file
  | fuel + 1, file, pg :: rest =>
    let n := runLength pg rest + 1
    dumpRuns s fuel (dumpRun s file pg n) (rest.drop (n - 1))

def frozenPages (s : DimBin) : List Nat := ckptPages s.dirty maxDirty

def dumpDelta (s : DimBin) : DeltaFile :=
  dumpRuns s (frozenPages s).length (deltaHeader s) (frozenPages s)

inductive CkptPhase where
  | idle
  | flushing
  | dumping
  | finishing
deriving DecidableEq

/-- The delta file being written by `graveldb_checkpoint_step`, and the dirty pages from
`dirty_cursor` on. -/
structure DeltaDump where
  pending : List Nat
  file : DeltaFile

/-- `dump` is present while `ckpt_fd` is open. -/
structure CkptProgress where
  phase : CkptPhase
  currentBin : Nat
  dump : Option DeltaDump

def ckptIdle : CkptProgress := ⟨.idle,0,none⟩

end Gravel
