import Gravel.Model.DeltaWire

namespace Gravel
open Wire

def wirePutU32Shift (v : UInt32) : List UInt8 :=
  [v.toUInt8,(v >>> 8).toUInt8,(v >>> 16).toUInt8,(v >>> 24).toUInt8]

def wirePutU64Shift (v : UInt64) : List UInt8 :=
  [v.toUInt8,(v >>> 8).toUInt8,(v >>> 16).toUInt8,(v >>> 24).toUInt8,(v >>> 32).toUInt8,
    (v >>> 40).toUInt8,(v >>> 48).toUInt8,(v >>> 56).toUInt8]

def wireGetU32Shift (buf : List UInt8) : UInt32 :=
  (buf.getD 0 0).toUInt32 ||| (buf.getD 1 0).toUInt32 <<< 8 ||| (buf.getD 2 0).toUInt32 <<< 16 |||
    (buf.getD 3 0).toUInt32 <<< 24

def wireGetU64Shift (buf : List UInt8) : UInt64 :=
  (buf.getD 0 0).toUInt64 ||| (buf.getD 1 0).toUInt64 <<< 8 ||| (buf.getD 2 0).toUInt64 <<< 16 |||
    (buf.getD 3 0).toUInt64 <<< 24 ||| (buf.getD 4 0).toUInt64 <<< 32 |||
    (buf.getD 5 0).toUInt64 <<< 40 ||| (buf.getD 6 0).toUInt64 <<< 48 |||
    (buf.getD 7 0).toUInt64 <<< 56

structure BinMeta where
  magic : UInt32
  generation : UInt64
  checksum : UInt32
deriving DecidableEq

def wireMetaSize : Nat := 16

def wireEncodeMeta (buf : List UInt8) (m : BinMeta) : List UInt8 :=
  storeAll buf [(0,wirePutU32 m.magic),(4,wirePutU64 m.generation),(12,wirePutU32 m.checksum)]

def wireDecodeMeta (buf : List UInt8) : BinMeta where
  magic := wireGetU32 buf
  generation := wireGetU64 (buf.drop 4)
  checksum := wireGetU32 (buf.drop 12)

/-- `wire_encode_delta_hdr` into a buffer of the caller, field by field at its offset. -/
def wireEncodeDeltaHdrInto (buf : List UInt8) (h : DeltaHeader) : List UInt8 :=
  storeAll buf [(0,wirePutU32 h.magic),(4,wirePutU32 h.version),(8,wirePutU64 h.generation),
    (16,wirePutU32 h.dim),(20,wirePutU32 h.entrySize),(24,wirePutU64 h.bumpPtr),
    (32,wirePutU32 h.numEntries),(36,wirePutU32 h.checksum)]

structure DeltaEntry where
  pgStart : UInt32
  pgCount : UInt32
deriving DecidableEq

def wireEncodeDeltaEntryInto (buf : List UInt8) (e : DeltaEntry) : List UInt8 :=
  storeAll buf [(0,wirePutU32 e.pgStart),(4,wirePutU32 e.pgCount)]

def wireDecodeDeltaEntry (buf : List UInt8) : DeltaEntry where
  pgStart := wireGetU32 buf
  pgCount := wireGetU32 (buf.drop 4)

def wireEncodeCkptExportHdrInto (buf : List UInt8) (h : CkptExportHdr) : List UInt8 :=
  storeAll buf [(0,wirePutU32 h.magic),(4,wirePutU32 h.version),(8,wirePutU32 h.type),
    (12,wirePutU64 h.generation),(20,wirePutU32 h.dim),(24,wirePutU32 h.entrySize),
    (28,wirePutU64 h.numEntries),(36,wirePutU64 h.baseGen),(44,wirePutU32 h.checksum)]

def metaMagic : UInt32 := 0x4D455441

/-- The buffer that `ckpt_persist_meta` fills; it held `junk` before. -/
def metaBytes (junk : List UInt8) (generation : UInt64) : List UInt8 :=
  let buf := store junk 0 (wirePutU32 metaMagic)
  let buf := store buf 4 (wirePutU64 generation)
  let checksum := crc32Simple (buf.take 12)
  store buf 12 (wirePutU32 checksum)

/-- `emb_d<dim>.meta` and `emb_d<dim>.meta.tmp`; `none` is a file that is not there. -/
structure MetaFiles where
  final : Option (List UInt8)
  tmp : Option (List UInt8)

/-- Outcomes of the system calls of `ckpt_persist_meta`; `written` is what `write` returns, with
`none` for an error. -/
structure PersistCalls where
  opened : Bool
  written : Option Nat
  synced : Bool
  renamed : Bool

/-- `ckpt_persist_meta`. The synchronisation of the directory is not looked at. -/
def ckptPersistMetaFile (calls : PersistCalls) (files : MetaFiles) (junk : List UInt8)
    (generation : UInt64) : MetaFiles × Status :=
  let buf := metaBytes junk generation
  if ¬ calls.opened then (files,.errIo)
  else if calls.written ≠ some wireMetaSize then ({ files with tmp := none },.errIo)
  else if ¬ calls.synced then ({ files with tmp := none },.errIo)
  else if ¬ calls.renamed then ({ files with tmp := none },.errIo)
  else (⟨some (buf.take wireMetaSize),none⟩,.ok)

def ckptReadMetaFile (file : Option (List UInt8)) : Except Status BinMeta :=
  match file with
  | none => .error .errCorrupt
  | some bytes =>
    let buf := bytes.take wireMetaSize
    if buf.length ≠ wireMetaSize then .error .errCorrupt
    else
      let m := wireDecodeMeta buf
      if m.magic ≠ metaMagic then .error .errCorrupt
      else if m.checksum ≠ crc32Simple (buf.take 12) then .error .errCorrupt
      else .ok m

end Gravel
