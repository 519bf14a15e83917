import Gravel.Lib.File
import Gravel.Model.Geometry
import Gravel.Model.DirtyTracker
import Gravel.Model.KeyBTree
import Gravel.Model.Overlay
import Gravel.Model.WriteBuffer

namespace Gravel

/-- Linux hands out no more than `MAX_RW_COUNT` bytes in one call. -/
def maxRwCount : Nat := 0x7ffff000

/-- Storage of all entries of one dimension. The key file is counted in 64-bit words.
`nextAddr` numbers the page buffers taken from the slab allocator. -/
structure DimBin where
  geom : Geometry
  data : File UInt8
  keys : File UInt64
  dataFileSize : Nat
  keyFileSize : Nat
  bumpPtr : Nat
  freeList : List Nat
  dirty : DirtyTracker
  writeBuf : WriteBuffer
  keyBuf : KeyBTree
  overlay : OverlayBuffer
  overlayBudget : Nat
  inCheckpoint : Bool
  flushNeeded : Bool
  nextAddr : Nat

def writeMax (g : Geometry) (bufferSize : Nat) : Nat :=
  if bufferSize / g.pageSize = 0 then 1024 else bufferSize / g.pageSize

/-- `while (wb_cap < write_max * 2) wb_cap *= 2`, cut off after some rounds. The bound is a `size_t`,
the capacity a `uint32_t`; the page size may be left open. -/
def writeBufRounding (bufferSize pageSize : UInt64) (rounds : Nat) : Option Nat :=
  let pageSize := if pageSize = 0 then 4096 else pageSize.toNat
  let maxPages := bufferSize.toNat / pageSize
  let writeMax := if maxPages = 0 then 1024 else maxPages
  roundCapacity (writeMax * 2 % 2 ^ 64) rounds 64

def keyBudget (g : Geometry) (bufferSize : Nat) : Nat :=
  min (max (writeMax g bufferSize * g.entriesPerPage * 40) (2 ^ 18)) (2 ^ 24)

def totalPages (g : Geometry) (entries : Nat) : Nat :=
  (entries + g.entriesPerPage - 1) / g.entriesPerPage

def initialPages (g : Geometry) (entries : Nat) : Nat :=
  (if 0 < totalPages g entries then totalPages g entries else 1024) % 2 ^ 32

/-- The part of `dimbin_init` that follows the layout, on the files found at the path. -/
def dimbinInit (g : Geometry) (bufferSize : Nat) (data : File UInt8) (keys : File UInt64) :
    Option DimBin := do
  let bump := min keys.size (data.size / g.entrySize)
  let cap ← roundCapacity (writeMax g bufferSize * 2) 34 64
  return {
    geom := g, data, keys
    dataFileSize := data.size
    keyFileSize := keys.size
    bumpPtr := bump
    freeList := []
    dirty := dirtyTrackerInit (initialPages g bump)
    writeBuf := {
      slots := fun _ => emptySlot, capacity := cap, count := 0
      maxPages := writeMax g bufferSize, flushBytes := 0, pagePool := [] }
    keyBuf := kbtInit (keyBudget g bufferSize)
    overlay := overlayDestroyed
    overlayBudget := 0
    inCheckpoint := false
    flushNeeded := false
    nextAddr := 1 }

/-- `while (new_size < required) new_size *= 2`, which ends within `required` rounds. -/
def doubleUntil (required : Nat) : Nat → Nat → Nat
  | 0, size => size
  | fuel + 1, size => if size < required then doubleUntil required fuel (size * 2) else size

def nextDataSize (s : DimBin) : Nat :=
  if 0 < s.dataFileSize then s.dataFileSize * 2 else s.geom.pageSize * 256

/-- First size tried when the key file has to grow, 8192 bytes for an empty file. -/
def nextKeySize (s : DimBin) : Nat :=
  if 0 < s.keyFileSize then s.keyFileSize * 2 else 1024

def preallocData (s : DimBin) (size : Nat) : DimBin :=
  { s with data := s.data.extend size, dataFileSize := size }

def reserveData (s : DimBin) (required : Nat) : DimBin :=
  if s.dataFileSize < required then
    preallocData s (doubleUntil required required (nextDataSize s))
  else s

def reserveKeys (s : DimBin) (required : Nat) : DimBin :=
  let size := doubleUntil required required (nextKeySize s)
  if s.keyFileSize < required then { s with keys := s.keys.extend size, keyFileSize := size }
  else s

def dimbinReserve (s : DimBin) (count : Nat) : DimBin :=
  let futureBump := s.bumpPtr + count
  reserveKeys (reserveData s (futureBump * s.geom.entrySize)) futureBump

def growData (s : DimBin) (required : Nat) : DimBin :=
  if s.dataFileSize < required then
    preallocData s (if nextDataSize s < required then required * 2 else nextDataSize s)
  else s

/-- Growth of the key file by `dimbin_alloc_entry`, which truncates it to the new size. -/
def growKeys (s : DimBin) (required : Nat) : DimBin :=
  let size := if nextKeySize s < required then required * 2 else nextKeySize s
  if s.keyFileSize < required then { s with keys := s.keys.truncate size, keyFileSize := size }
  else s

def dimbinAllocEntry (s : DimBin) : DimBin × Nat :=
  match s.freeList with
  | e :: rest => ({ s with freeList := rest },e)
  | [] =>
    let slot := s.bumpPtr % 2 ^ 32
    let required := (slot + 1) % 2 ^ 32
    let s := growData { s with bumpPtr := s.bumpPtr + 1 } (required * s.geom.entrySize)
    (growKeys s required,slot)

def keysPerPage : Nat := 512
def keyCoalesceThresh : Nat := 4

def putKey (keys : File UInt64) (entryIdx : Nat) (featId : UInt64) : File UInt64 :=
  keys.write entryIdx 1 (fun _ => featId)

def patchKeys (page : Nat → UInt64) (items : List KeyWriteEntry) : Nat → UInt64 :=
  items.foldl (fun page kv => Function.update page kv.1 kv.2) page

/-- Dense pages are read, patched and written back, sparse ones written key by key. -/
def flushKeyPage (keyFileSize : Nat) (keys : File UInt64) (pageId : Nat)
    (items : List KeyWriteEntry) : File UInt64 :=
  if keyCoalesceThresh ≤ items.length then
    let page := if pageId * keysPerPage < keyFileSize
      then keys.read (pageId * keysPerPage) keysPerPage (fun _ => 0) else fun _ => 0
    keys.write (pageId * keysPerPage) keysPerPage (patchKeys page items)
  else
    items.foldl (fun keys kv => putKey keys (pageId * keysPerPage + kv.1) kv.2) keys

/-- The one-pass loop of `dimbin_put_keys_batch`: `items` collects the keys of `curPage`. -/
def putKeysLoop (keyFileSize : Nat) (keys : File UInt64) (curPage : Nat)
    (items : List KeyWriteEntry) : List KeyWriteEntry → File UInt64
  | [] => if items = [] then keys else flushKeyPage keyFileSize keys curPage items
  | e :: rest =>
    let pg := e.1 / keysPerPage
    let slot := e.1 % keysPerPage
    if pg ≠ curPage then
      putKeysLoop keyFileSize (flushKeyPage keyFileSize keys curPage items) pg [(slot,e.2)] rest
    else putKeysLoop keyFileSize keys curPage (items ++ [(slot,e.2)]) rest

def dimbinPutKeysBatch (keyFileSize : Nat) (keys : File UInt64) (entries : List KeyWriteEntry) :
    File UInt64 :=
  match entries with
  | [] => keys
  | e :: _ =>
    if entries.length < keyCoalesceThresh then
      entries.foldl (fun keys kv => putKey keys kv.1 kv.2) keys
    else putKeysLoop keyFileSize keys (e.1 / keysPerPage) [] entries

def dimbinFlushKeys (s : DimBin) : DimBin :=
  if s.keyBuf.count = 0 then s
  else { s with
    keys := dimbinPutKeysBatch s.keyFileSize s.keys (kbtCollect s.keyBuf)
    keyBuf := kbtClear s.keyBuf }

def dimbinBufKey (s : DimBin) (entryIdx : Nat) (featId : UInt64) : Option DimBin := do
  let s := if kbtFull s.keyBuf then dimbinFlushKeys s else s
  let keyBuf ← kbtInsert s.keyBuf entryIdx featId
  return { s with keyBuf := keyBuf }

def dimbinFreeEntry (s : DimBin) (entryIdx : Nat) : Option DimBin :=
  dimbinBufKey { s with freeList := entryIdx :: s.freeList } entryIdx 0

end Gravel
