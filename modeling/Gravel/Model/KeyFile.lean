import Gravel.Lib.WordFile
import Gravel.Model.DimBin

namespace Gravel.KeyFile
open WordFile

def keyPageSize : Nat := 4096

def dimbinPutKey (o : ByteOrder) (f : File UInt8) (entryIdx : Nat) (featId : UInt64) : File UInt8 :=
  f.write (entryIdx * 8) 8 (o.bytes featId)

def patchPage (o : ByteOrder) (pageBuf : Nat → UInt8) (items : List KeyWriteEntry) : Nat → UInt8 :=
  items.foldl (fun pageBuf kv => store o pageBuf kv.1 kv.2) pageBuf

def flushKeyPage (o : ByteOrder) (keyFileSize : Nat) (f : File UInt8) (pageId : Nat)
    (items : List KeyWriteEntry) : File UInt8 :=
  if keyCoalesceThresh ≤ items.length then
    let pgOff := pageId * keyPageSize
    -- What a short read leaves of the page buffer is zeroed.
    let pageBuf := if pgOff < keyFileSize then f.read pgOff keyPageSize (fun _ => 0)
      else fun _ => 0
    f.write pgOff keyPageSize (patchPage o pageBuf items)
  else
    items.foldl (fun f kv => dimbinPutKey o f (pageId * keysPerPage + kv.1) kv.2) f

/-- The loop of `dimbin_put_keys_batch`; `items` are the keys in `page_keys` and `page_vals`, and
the result is `none` if there are more than these arrays hold. -/
def putKeysLoop (o : ByteOrder) (keyFileSize : Nat) (f : File UInt8) (curPage : Nat)
    (items : List KeyWriteEntry) : List KeyWriteEntry → Option (File UInt8)
  | [] => some (if items = [] then f else flushKeyPage o keyFileSize f curPage items)
  | e :: rest =>
    let pg := e.1 / keysPerPage
    let slot := e.1 % keysPerPage
    if pg ≠ curPage then
      putKeysLoop o keyFileSize (flushKeyPage o keyFileSize f curPage items) pg [(slot,e.2)] rest
    else if items.length < keysPerPage then
      putKeysLoop o keyFileSize f curPage (items ++ [(slot,e.2)]) rest
    else none

def dimbinPutKeysBatch (o : ByteOrder) (keyFileSize : Nat) (f : File UInt8)
    (entries : List KeyWriteEntry) : Option (File UInt8) :=
  match entries with
  | [] => some f
  | e :: _ =>
    if entries.length < keyCoalesceThresh then
      some (entries.foldl (fun f kv => dimbinPutKey o f kv.1 kv.2) f)
    else putKeysLoop o keyFileSize f (e.1 / keysPerPage) [] entries

end Gravel.KeyFile
