import Gravel.Lib.Wire
import Gravel.Model.HashIndex

namespace Gravel
open Wire

def ckptExportMagic : UInt32 := 0x434B4558

inductive CkptType where
  | full
  | delta
deriving DecidableEq

def CkptType.api : CkptType → UInt32
  | .full => 0
  | .delta => 1

def wirePutU32 (v : UInt32) : List UInt8 := putLE 4 v.toNat
def wirePutU64 (v : UInt64) : List UInt8 := putLE 8 v.toNat
def wireGetU32 (buf : List UInt8) : UInt32 := UInt32.ofNat (getLE (buf.take 4))
def wireGetU64 (buf : List UInt8) : UInt64 := UInt64.ofNat (getLE (buf.take 8))

structure CkptExportHdr where
  magic : UInt32
  version : UInt32
  type : UInt32
  generation : UInt64
  dim : UInt32
  entrySize : UInt32
  numEntries : UInt64
  baseGen : UInt64
  checksum : UInt32
deriving DecidableEq

def wireCkptExportHdrSize : Nat := 48

def wireEncodeCkptExportHdr (h : CkptExportHdr) : List UInt8 :=
  wirePutU32 h.magic ++ wirePutU32 h.version ++ wirePutU32 h.type ++ wirePutU64 h.generation ++
    wirePutU32 h.dim ++ wirePutU32 h.entrySize ++ wirePutU64 h.numEntries ++
    wirePutU64 h.baseGen ++ wirePutU32 h.checksum

def wireDecodeCkptExportHdr (buf : List UInt8) : CkptExportHdr where
  magic := wireGetU32 buf
  version := wireGetU32 (buf.drop 4)
  type := wireGetU32 (buf.drop 8)
  generation := wireGetU64 (buf.drop 12)
  dim := wireGetU32 (buf.drop 20)
  entrySize := wireGetU32 (buf.drop 24)
  numEntries := wireGetU64 (buf.drop 28)
  baseGen := wireGetU64 (buf.drop 36)
  checksum := wireGetU32 (buf.drop 44)

structure DumpInfo where
  type : CkptType
  generation : UInt64
  dim : UInt32
  entrySize : UInt32
  baseGen : UInt64
deriving DecidableEq

structure DumpEntry where
  featId : UInt64
  embedding : List UInt8
deriving DecidableEq

/-- `export_write_header`: the entry count is a placeholder and the checksum is not computed. -/
def exportHeader (info : DumpInfo) : List UInt8 :=
  wireEncodeCkptExportHdr {
    magic := ckptExportMagic, version := 1, type := info.type.api + 1
    generation := info.generation, dim := info.dim, entrySize := info.entrySize
    numEntries := 0, baseGen := info.baseGen, checksum := 0 }

def exportEntry (e : DumpEntry) : List UInt8 := wirePutU64 e.featId ++ e.embedding

def exportTrailer (numEntries : Nat) : List UInt8 :=
  wirePutU32 ckptExportMagic ++ wirePutU64 (UInt64.ofNat numEntries)

def exportDump (info : DumpInfo) (entries : List DumpEntry) : List UInt8 :=
  exportHeader info ++ entries.flatMap exportEntry ++ exportTrailer entries.length

structure CkptEntry where
  featId : UInt64
  embedding : List UInt8
  dim : UInt32
deriving DecidableEq

structure CkptDumpHeader where
  generation : UInt64
  baseGen : UInt64
  numEntries : UInt64
  dim : UInt32
  entrySize : UInt32
  type : Int
deriving DecidableEq

/-- A status of the parser itself, or the value with which the callback stopped it. -/
inductive ParseRc where
  | status (rc : Status)
  | stopped (code : Int)
deriving DecidableEq

/-- The entry loop of `graveldb_ckpt_parse` on the unread bytes. Every round that goes on reads
at least the eight bytes of a key, so the length of the stream bounds the rounds. -/
def parseEntries {σ : Type} (dim entrySize : UInt32) (emit : σ → CkptEntry → σ × Int) :
    Nat → List UInt8 → σ → σ × ParseRc
  | 0, _, ctx => (ctx,.status .ok)
  | fuel + 1, stream, ctx =>
    let featWire := stream.take 8
    let stream := stream.drop 8
    if featWire.length < 8 then
      (ctx,.status (if featWire.length = 0 then .ok else .errCorrupt))
    else if wireGetU32 featWire = ckptExportMagic then (ctx,.status .ok)
    else
      let embedding := stream.take entrySize.toNat
      if embedding.length ≠ entrySize.toNat then (ctx,.status .errCorrupt)
      else
        let (ctx,code) := emit ctx ⟨wireGetU64 featWire,embedding,dim⟩
        if code ≠ 0 then (ctx,.stopped code)
        else parseEntries dim entrySize emit fuel (stream.drop entrySize.toNat) ctx

def intOfWire (v : UInt32) : Int := if v.toNat < 2 ^ 31 then v.toNat else v.toNat - 2 ^ 32

/-- `graveldb_ckpt_parse` on the bytes of a dump file, with the header it hands out. -/
def graveldbCkptParse {σ : Type} (stream : List UInt8) (emit : σ → CkptEntry → σ × Int) (ctx : σ) :
    Option CkptDumpHeader × σ × ParseRc :=
  let hdrBuf := stream.take wireCkptExportHdrSize
  if hdrBuf.length ≠ wireCkptExportHdrSize then (none,ctx,.status .errCorrupt)
  else
    let h := wireDecodeCkptExportHdr hdrBuf
    if h.magic ≠ ckptExportMagic ∨ h.version ≠ 1 then (none,ctx,.status .errCorrupt)
    else
      (some ⟨h.generation,h.baseGen,h.numEntries,h.dim,h.entrySize,intOfWire h.type - 1⟩,
        parseEntries h.dim h.entrySize emit stream.length
          (stream.drop wireCkptExportHdrSize) ctx)

end Gravel
