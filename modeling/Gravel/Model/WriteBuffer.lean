import Gravel.Lib.Probe
import Mathlib.Data.List.Sort

namespace Gravel
open LinearProbe

def sub32 (a b : Nat) : Nat := if b ≤ a then a - b else 2 ^ 32 - (b - a)

/-- Page buffers handed out by the slab allocator, with the bytes they hold.
Address 0 is the NULL pointer. -/
structure PageBuf where
  addr : Nat
  bytes : Nat → UInt8

def nullBuf : PageBuf := ⟨0,fun _ => 0⟩

def pageSlotEmpty : Nat := 2 ^ 32 - 1

structure PageSlot where
  pageId : Nat
  data : PageBuf

def emptySlot : PageSlot := ⟨pageSlotEmpty,nullBuf⟩

/-- Open-addressing hashmap of dirty pages together with the pool of recycled
page buffers, whose last entry is the head of the list. -/
structure WriteBuffer where
  slots : Nat → PageSlot
  capacity : Nat
  count : Nat
  maxPages : Nat
  flushBytes : Nat
  pagePool : List PageBuf

def pagemapHome (capacity pageId : Nat) : Nat :=
  (pageId * 2654435761 % 2 ^ 32) &&& (capacity - 1)

/-- Slot holding `pageId`, or the first empty slot of its probe path; `none` when
the source loops forever. -/
def pagemapFind (slots : Nat → PageSlot) (capacity pageId : Nat) : Option Nat :=
  probe (fun i => (slots i).pageId = pageSlotEmpty || (slots i).pageId = pageId)
    (capacity - 1) capacity (pagemapHome capacity pageId)

def writeBufRecyclePage (wb : WriteBuffer) (buf : PageBuf) : WriteBuffer :=
  { wb with pagePool := buf :: wb.pagePool }

def collectPages (limit : Nat) (wb : WriteBuffer) : List Nat :=
  (((List.range wb.capacity).map (fun j => (wb.slots j).pageId)).filter
    (fun p => p ≠ pageSlotEmpty)).take limit

def recyclePages (wb : WriteBuffer) : List Nat → Option WriteBuffer
  | [] => some wb
  | pg :: rest => do
    let idx ← pagemapFind wb.slots wb.capacity pg
    if (wb.slots idx).pageId ≠ pg then recyclePages wb rest
    else recyclePages (writeBufRecyclePage wb (wb.slots idx).data) rest

/-- Partial flush: every collected page that is found gives its buffer back and
its slot is emptied at once, while later pages are still looked up. -/
def dropPages (wb : WriteBuffer) : List Nat → Option WriteBuffer
  | [] => some wb
  | pg :: rest => do
    let idx ← pagemapFind wb.slots wb.capacity pg
    if (wb.slots idx).pageId ≠ pg then dropPages wb rest
    else
      let wb := writeBufRecyclePage wb (wb.slots idx).data
      dropPages { wb with slots := Function.update wb.slots idx emptySlot } rest

/-- The sweep into the temporary array: the first `remaining` occupied slots. -/
def sweepSlots (remaining : Nat) (wb : WriteBuffer) : List PageSlot :=
  (((List.range wb.capacity).map wb.slots).filter
    (fun s => s.pageId ≠ pageSlotEmpty)).take remaining

def reinsertSlots (capacity : Nat) (slots : Nat → PageSlot) :
    List PageSlot → Option (Nat → PageSlot)
  | [] => some slots
  | s :: rest => do
    let idx ← pagemapFind slots capacity s.pageId
    reinsertSlots capacity (Function.update slots idx s) rest

/-- The in-place rehash taken when the temporary array cannot be allocated. -/
def rehashInPlace (capacity : Nat) (slots : Nat → PageSlot) (cnt : Nat) :
    List Nat → Option ((Nat → PageSlot) × Nat)
  | [] => some (slots,cnt)
  | ci :: rest =>
    if (slots ci).pageId = pageSlotEmpty then rehashInPlace capacity slots cnt rest
    else do
      let t := slots ci
      let slots := Function.update slots ci emptySlot
      let idx ← pagemapFind slots capacity t.pageId
      rehashInPlace capacity (Function.update slots idx t) (cnt + 1) rest

/-- The clean-up after the page writes completed, shared by `dimbin_flush`,
`graveldb_flush` and `graveldb_flush_poll`; `mallocOk` is the outcome of the
allocation of the temporary array. -/
def flushCleanup (mallocOk : Bool) (wb : WriteBuffer) (dirtyPages : List Nat) :
    Option WriteBuffer := do
  let n := dirtyPages.length
  if n = wb.count then
    let wb ← recyclePages wb dirtyPages
    return { wb with slots := fun _ => emptySlot, count := 0 }
  else
    let wb ← dropPages wb dirtyPages
    let remaining := sub32 wb.count n
    if 0 < remaining ∧ mallocOk then
      let tmpSlots := sweepSlots remaining wb
      let slots ← reinsertSlots wb.capacity (fun _ => emptySlot) tmpSlots
      return { wb with slots := slots, count := tmpSlots.length }
    else
      let (slots,cnt) ← rehashInPlace wb.capacity wb.slots 0 (List.range wb.capacity)
      return { wb with slots := slots, count := cnt }

/-- `dimbin_flush` sorts the collected pages for its write plan and walks the
sorted list again when it cleans up. -/
def dimbinFlushPages (limit : Nat) (wb : WriteBuffer) : List Nat :=
  (collectPages limit wb).insertionSort (· ≤ ·)

def maxFlushBatch : Nat := 65536

end Gravel
