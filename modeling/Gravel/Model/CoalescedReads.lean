import Gravel.Model.Export

namespace Gravel

/-- `CkptCoalescedRange`; `buf` is an offset into the buffer pool. -/
structure CkptCoalescedRange where
  startIdx : Nat
  count : Nat
  buf : Nat
deriving DecidableEq

/-- The loop of `export_build_coalesced_ranges` at operation `i`, with `cur` the last range so
far. -/
def extendRanges (entrySize : Nat) : Nat → CkptCoalescedRange → List ReadOp →
    List CkptCoalescedRange
  | _, cur, [] => [cur]
  | i, cur, op :: rest =>
    let expectedNext := (cur.startIdx + cur.count) % 2 ^ 32
    if op.entryIdx = expectedNext then
      extendRanges entrySize (i + 1) { cur with count := cur.count + 1 } rest
    else cur :: extendRanges entrySize (i + 1) ⟨op.entryIdx,1,i * entrySize⟩ rest

def exportBuildCoalescedRanges (entrySize : Nat) : List ReadOp → List CkptCoalescedRange
  | [] => []
  | op :: rest => extendRanges entrySize 1 ⟨op.entryIdx,1,0⟩ rest

/-- The `buf` that `export_build_coalesced_ranges` gives to operation `i`. -/
def opBuf (entrySize i : Nat) : Nat := i * entrySize

def readInto (data : File UInt8) (pool : Nat → UInt8) (buf len off : Nat) : Nat → UInt8 :=
  let bytes := data.read off len (fun i => pool (buf + i))
  fun i => if buf ≤ i then bytes (i - buf) else pool i

def readRange (entrySize : Nat) (data : File UInt8) (pool : Nat → UInt8)
    (r : CkptCoalescedRange) : Nat → UInt8 :=
  readInto data pool r.buf (r.count * entrySize) (r.startIdx * entrySize)

end Gravel
