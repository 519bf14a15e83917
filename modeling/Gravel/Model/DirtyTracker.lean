import Gravel.Lib.BinarySearch
import Mathlib.Data.Nat.Bitwise
import Mathlib.Logic.Function.Basic

namespace Gravel
open BinarySearch

/-- A tree node. At depth 0 `bits` is the bitmap of 64 pages, above it marks the children
that exist. -/
inductive DirtyNode where
  | null
  | node (bits : Nat) (children : Nat → DirtyNode)

namespace DirtyNode

def bits : DirtyNode → Nat
  | null => 0
  | node b _ => b

def children : DirtyNode → Nat → DirtyNode
  | null => fun _ => null
  | node _ c => c

def isNull : DirtyNode → Bool
  | null => true
  | node _ _ => false

@[simp] theorem bits_node (b : Nat) (c : Nat → DirtyNode) : (node b c).bits = b := rfl

@[simp] theorem children_node (b : Nat) (c : Nat → DirtyNode) : (node b c).children = c := rfl

end DirtyNode

def nodeCreate : DirtyNode := .node 0 (fun _ => .null)

def nodeMark (offset : Nat) : Nat → DirtyNode → DirtyNode
  | 0, n => .node (n.bits ||| 2 ^ (offset % 64)) n.children
  | depth + 1, n =>
    let childIdx := offset / 2 ^ ((depth + 1) * 6) % 64
    let child := n.children childIdx
    let bits := if child.isNull then n.bits ||| 2 ^ childIdx else n.bits
    let child := if child.isNull then nodeCreate else child
    .node bits (Function.update n.children childIdx (nodeMark offset depth child))

/-- Pages marked below a node in ascending order: what the loops of `nodeScan` come to. -/
def nodePages (maxPages : Nat) : Nat → Nat → DirtyNode → List Nat
  | 0, base, n =>
    (((List.range 64).filter n.bits.testBit).map (base + ·)).filter (· < maxPages)
  | depth + 1, base, n =>
    ((List.range 64).filter n.bits.testBit).flatMap (fun childIdx =>
      if (n.children childIdx).isNull then []
      else nodePages maxPages depth (base + childIdx * 2 ^ ((depth + 1) * 6))
        (n.children childIdx))

/-- `node_scan`: `out` holds the pages found so far, and the loops over
the set bits end once there are `max_out` of them. -/
def nodeScan (maxPages : Nat) (maxOut : Int) : Nat → Nat → DirtyNode → List Nat → List Nat
  | 0, base, n, out =>
    ((List.range 64).filter n.bits.testBit).foldl (fun out bitPos =>
      if out.length < maxOut then
        let pageIdx := (base + bitPos) % 2 ^ 32
        if pageIdx < maxPages then out ++ [pageIdx] else out
      else out) out
  | depth + 1, base, n, out =>
    ((List.range 64).filter n.bits.testBit).foldl (fun out childIdx =>
      if out.length < maxOut then
        if (n.children childIdx).isNull then out
        else nodeScan maxPages maxOut depth
          ((base + childIdx * 2 ^ ((depth + 1) * 6)) % 2 ^ 32) (n.children childIdx) out
      else out) out

def computeDepth : Nat → Nat → Nat
  | 0, _ => 0
  | fuel + 1, span => if 64 < span then computeDepth fuel (span / 64) + 1 else 0

structure DirtySegment where
  segmentId : Nat
  root : DirtyNode

/-- `segment_count` is the length of the list, `segmentCap` is a `uint16_t`. -/
structure DirtyTree where
  segments : List DirtySegment
  segmentCap : Nat
  segmentSpan : Nat
  depth : Nat

def treeInit (segmentSpan : Nat) : DirtyTree :=
  let span := if segmentSpan = 0 then 262144 else segmentSpan
  { segments := [], segmentCap := 0, segmentSpan := span, depth := computeDepth 32 span }

def segmentIdAt (tree : DirtyTree) (i : Nat) : Nat :=
  (tree.segments.map DirtySegment.segmentId).getD i 0

def segmentFind (tree : DirtyTree) (segmentId : Nat) : Nat ⊕ Nat :=
  bsearch (segmentIdAt tree) segmentId tree.segments.length 0 tree.segments.length

/-- Capacity of the segment array after one more segment; the 16-bit doubling of 32768 is
zero, and `realloc` to zero bytes frees the array that is used afterwards. -/
def segmentGrow (tree : DirtyTree) : Option Nat :=
  if tree.segmentCap ≤ tree.segments.length then
    let newCap := if tree.segmentCap = 0 then 4 else tree.segmentCap * 2 % 2 ^ 16
    if newCap = 0 then none else some newCap
  else some tree.segmentCap

def markSegment (tree : DirtyTree) (offset i : Nat) : DirtyTree :=
  { tree with segments := tree.segments.modify i (fun s =>
      { s with root := nodeMark offset tree.depth s.root }) }

def treeMark (tree : DirtyTree) (pageIdx : Nat) : Option DirtyTree :=
  let segmentId := pageIdx / tree.segmentSpan
  let offset := pageIdx % tree.segmentSpan
  match segmentFind tree segmentId with
  | .inl i => some (markSegment tree offset i)
  | .inr i => do
    let cap ← segmentGrow tree
    return markSegment { tree with
      segments := tree.segments.insertIdx i ⟨segmentId,nodeCreate⟩
      segmentCap := cap } offset i

/-- What `tree_scan` finds, in closed form, see `treeScan_eq`. -/
def treePages (tree : DirtyTree) (maxPages maxOut : Nat) : List Nat :=
  (tree.segments.flatMap (fun s =>
    nodePages maxPages tree.depth (s.segmentId * tree.segmentSpan) s.root)).take maxOut

def treeScan (tree : DirtyTree) (maxPages : Nat) (maxOut : Int) : List Nat :=
  tree.segments.foldl (fun out s =>
    if out.length < maxOut then
      nodeScan maxPages maxOut tree.depth (s.segmentId * tree.segmentSpan % 2 ^ 32) s.root out
    else out) []

def spanFromEstimate (estimatedPages : Nat) : Nat :=
  if estimatedPages = 0 then 262144
  else if estimatedPages ≤ 4096 then 4096
  else if estimatedPages ≤ 262144 then 262144
  else 16777216

/-- Double-buffered tracker: `active` collects, `ckpt` is the set frozen by the last swap. -/
structure DirtyTracker where
  active : DirtyTree
  ckpt : DirtyTree
  capacity : Nat
  generation : Nat

def dirtyTrackerInit (estimatedPages : Nat) : DirtyTracker :=
  let span := spanFromEstimate estimatedPages
  { active := treeInit span, ckpt := treeInit span
    capacity := if 0 < estimatedPages then estimatedPages else 262144, generation := 0 }

def dirtyTrackerMark (dt : DirtyTracker) (pageIdx : Nat) : Option DirtyTracker := do
  let active ← treeMark dt.active pageIdx
  return { dt with active := active }

def dirtyTrackerScan (dt : DirtyTracker) (maxOut : Int) : List Nat :=
  treeScan dt.active dt.capacity maxOut

def dirtyTrackerScanCkpt (dt : DirtyTracker) (maxOut : Int) : List Nat :=
  treeScan dt.ckpt dt.capacity maxOut

/-- The frozen pages as the delta checkpoint and the export get them. -/
def ckptPages (dt : DirtyTracker) (maxOut : Nat) : List Nat :=
  treePages dt.ckpt dt.capacity maxOut

def dirtyTrackerSwap (dt : DirtyTracker) : DirtyTracker :=
  { dt with
    ckpt := dt.active
    active := treeInit dt.active.segmentSpan
    generation := dt.generation + 1 }

def dirtyTrackerResize (dt : DirtyTracker) (newCapacity : Nat) : DirtyTracker :=
  if newCapacity ≤ dt.capacity then dt else { dt with capacity := newCapacity }

end Gravel
