import Gravel.Model.ExportRead

namespace Gravel

def deltaMagic : UInt32 := 0x44454C54

structure DeltaHeader where
  magic : UInt32
  version : UInt32
  generation : UInt64
  dim : UInt32
  entrySize : UInt32
  bumpPtr : UInt64
  numEntries : UInt32
  checksum : UInt32
deriving DecidableEq

def wireDeltaHdrSize : Nat := 40
def wireDeltaEntrySize : Nat := 8

def wireEncodeDeltaHdr (h : DeltaHeader) : List UInt8 :=
  wirePutU32 h.magic ++ wirePutU32 h.version ++ wirePutU64 h.generation ++ wirePutU32 h.dim ++
    wirePutU32 h.entrySize ++ wirePutU64 h.bumpPtr ++ wirePutU32 h.numEntries ++
    wirePutU32 h.checksum

def wireDecodeDeltaHdr (buf : List UInt8) : DeltaHeader where
  magic := wireGetU32 buf
  version := wireGetU32 (buf.drop 4)
  generation := wireGetU64 (buf.drop 8)
  dim := wireGetU32 (buf.drop 16)
  entrySize := wireGetU32 (buf.drop 20)
  bumpPtr := wireGetU64 (buf.drop 24)
  numEntries := wireGetU32 (buf.drop 32)
  checksum := wireGetU32 (buf.drop 36)

def wireEncodeDeltaEntry (pgStart pgCount : UInt32) : List UInt8 :=
  wirePutU32 pgStart ++ wirePutU32 pgCount

def crc32Bit (crc : UInt32) : UInt32 := (crc >>> 1) ^^^ (0xEDB88320 &&& (0 - (crc &&& 1)))

def crc32Byte (crc : UInt32) (b : UInt8) : UInt32 := Nat.iterate crc32Bit 8 (crc ^^^ b.toUInt32)

def crc32Update (crc : UInt32) (data : List UInt8) : UInt32 := data.foldl crc32Byte crc

def crc32Simple (data : List UInt8) : UInt32 := ~~~ crc32Update 0xFFFFFFFF data

/-- The checksum of `ckpt_dump_delta`: of the header without its last field, and of the body. -/
def combinedCrc (hdr body : List UInt8) : UInt32 :=
  crc32Simple (hdr.take (wireDeltaHdrSize - 4)) ^^^ crc32Simple body

/-- A bin with the counters that `ckpt_replay_delta` sets. -/
structure ReplayBin where
  bin : DimBin
  totalEntries : Nat
  totalPages : Nat

/-- What comes of a `pwrite`: all its bytes are written, or it returns another number, an error
included, with the bytes that are in the file by then. -/
inductive PwriteRc where
  | full
  | short (written : Nat)
deriving DecidableEq

/-- The loop of `ckpt_replay_delta` on the unread bytes, from entry `e` on. The flag tells that a
`pwrite` ended it. -/
def replayLoop (pageSize : Nat) (pw : Nat → PwriteRc) :
    Nat → Nat → List UInt8 → File UInt8 → File UInt8 × Bool
  | 0, _, _, data => (data,false)
  | left + 1, e, stream, data =>
    let entryBuf := stream.take wireDeltaEntrySize
    let stream := stream.drop wireDeltaEntrySize
    if entryBuf.length ≠ wireDeltaEntrySize then (data,false)
    else
      let pgStart := (wireGetU32 entryBuf).toNat
      let byteLen := (wireGetU32 (entryBuf.drop 4)).toNat * pageSize
      let buf := stream.take (min byteLen maxRwCount)
      if buf.length ≠ byteLen then (data,false)
      else
        match pw e with
        | .short written =>
          (data.write (pgStart * pageSize) (min written byteLen) (fun i => buf.getD i 0),true)
        | .full =>
          replayLoop pageSize pw left (e + 1) (stream.drop byteLen)
            (data.write (pgStart * pageSize) byteLen (fun i => buf.getD i 0))

/-- The end of `ckpt_replay_delta`: `bump_ptr` and the totals only grow. -/
def replayBump (s : ReplayBin) (bumpPtr : Nat) : ReplayBin :=
  if s.bin.bumpPtr < bumpPtr then
    { bin := { s.bin with bumpPtr := bumpPtr }
      totalEntries := bumpPtr
      totalPages := (bumpPtr + s.bin.geom.entriesPerPage - 1) / s.bin.geom.entriesPerPage }
  else s

/-- `ckpt_replay_delta` on the bytes of a delta file, with the outcome of each `pwrite`. The
checksum is decoded and not looked at. -/
def replayDeltaBytes (pw : Nat → PwriteRc) (s : ReplayBin) (file : List UInt8) :
    ReplayBin × Status :=
  let hdrBuf := file.take wireDeltaHdrSize
  if hdrBuf.length ≠ wireDeltaHdrSize then (s,.errCorrupt)
  else
    let hdr := wireDecodeDeltaHdr hdrBuf
    if hdr.magic ≠ deltaMagic ∨ hdr.version ≠ 1 then (s,.errCorrupt)
    else if intOfWire hdr.dim ≠ s.bin.geom.dim then (s,.errInvalid)
    else
      let (data,failed) := replayLoop s.bin.geom.pageSize pw hdr.numEntries.toNat 0
        (file.drop wireDeltaHdrSize) s.bin.data
      let s := { s with bin := { s.bin with data := data } }
      if failed then (s,.errIo) else (replayBump s hdr.bumpPtr.toNat,.ok)

end Gravel
