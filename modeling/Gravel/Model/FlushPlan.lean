import Gravel.Lib.PageWrites
import Gravel.Model.Durability
import Gravel.Model.PageIO
import Mathlib.Data.List.SplitBy

namespace Gravel
open Chunks

def peepholeGapMax : Nat := 4

def continuesRun (prev pg : Nat) : Bool := pg ≤ (prev + peepholeGapMax + 1) % 2 ^ 32

def followsPage (prev pg : Nat) : Bool := pg = (prev + 1) % 2 ^ 32

/-- One request for the data file: a single buffer, or an array of buffers for consecutive
places. -/
inductive FlushOp where
  | write (buf : PageBuf) (offset : Nat)
  | writev (iov : List PageBuf) (offset : Nat)

def flushOps (offset : Nat) : List PageBuf → List FlushOp
  | [] => []
  | [buf] => [.write buf offset]
  | iov => [.writev iov offset]

def gatherOps (plan : List Nat → Option (List FlushOp)) : List (List Nat) → Option (List FlushOp)
  | [] => some []
  | part :: rest => do
    let ops ← plan part
    let more ← gatherOps plan rest
    return ops ++ more

/-- A chunk of at most `FLUSH_IOV_MAX` pages: its buffers go to the place of its first page. -/
def planChunk (pageSize : Nat) (wb : WriteBuffer) (chunk : List Nat) : Option (List FlushOp) := do
  let iov ← gatherIov wb chunk
  return flushOps (chunk.headD 0 * pageSize) iov

def planSubRun (pageSize : Nat) (wb : WriteBuffer) (subRun : List Nat) : Option (List FlushOp) :=
  gatherOps (planChunk pageSize wb) (chunks flushIovMax subRun)

/-- A peephole run. Its pages are all looked up once before the sub-runs are formed. -/
def planRun (pageSize : Nat) (wb : WriteBuffer) (run : List Nat) : Option (List FlushOp) := do
  let _ ← gatherIov wb run
  gatherOps (planSubRun pageSize wb) (run.splitBy followsPage)

def dimbinFlushPlan (pageSize : Nat) (wb : WriteBuffer) : Option (List FlushOp) :=
  gatherOps (planRun pageSize wb) ((dimbinFlushPages maxFlushBatch wb).splitBy continuesRun)

def FlushOp.iov : FlushOp → List PageBuf
  | .write buf _ => [buf]
  | .writev iov _ => iov

/-- A request that writes all its buffers one behind the other. -/
def FlushOp.perform (pageSize : Nat) (data : File UInt8) : FlushOp → File UInt8
  | .write buf offset => data.write offset pageSize buf.bytes
  | .writev iov offset => Gravel.writev pageSize data offset iov

def performAll (pageSize : Nat) (data : File UInt8) (ops : List FlushOp) : File UInt8 :=
  ops.foldl (FlushOp.perform pageSize) data

/-- The data files that the requests can leave. The kernel may take those in a ring in any order;
without a ring each is performed when it is made. -/
def Executes (backend : IoBackend) (pageSize : Nat) (data : File UInt8) (ops : List FlushOp)
    (data' : File UInt8) : Prop :=
  match backend with
  | .ring => ∃ order, order.Perm ops ∧ data' = performAll pageSize data order
  | .inline | .direct => data' = performAll pageSize data ops

end Gravel
