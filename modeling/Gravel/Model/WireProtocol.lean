import Gravel.Lib.Records
import Gravel.Model.Dump

namespace Gravel

/-- `GRAVELDB_WIRE_MAGIC`. Client and server copy integers as the machine holds them, which on a
little-endian machine is what `wire_put_u32` and `wire_put_u64` write. -/
def graveldbWireMagic : UInt32 := 0x47565242

def graveldbWireMaxBatch : Nat := 65536

def graveldbWireHeaderSize : Nat := 12

def graveldbWireStreamSentinel : UInt32 := 0xFFFFFFFF

inductive MsgType where
  | pull
  | push
  | delete
  | flush
  | checkpoint
  | stats
  | pullStream
  | ping
deriving DecidableEq, Repr

def MsgType.code : MsgType → UInt32
  | .pull => 1
  | .push => 2
  | .delete => 3
  | .flush => 4
  | .checkpoint => 5
  | .stats => 6
  | .pullStream => 7
  | .ping => 255

def msgTypeOf (code : UInt32) : Option MsgType :=
  [.pull,.pullStream,.push,.delete,.flush,.checkpoint,.stats,.ping].find?
    (fun t => t.code = code)

inductive WireStatus where
  | ok
  | err
  | notFound
  | invalid
deriving DecidableEq, Repr

def WireStatus.code : WireStatus → UInt32
  | .ok => 0
  | .err => 1
  | .notFound => 2
  | .invalid => 3

/-- The three words before a body: the magic, a message type or a status, and the length. -/
def wireHeader (code bodyLen : UInt32) : List UInt8 :=
  wirePutU32 graveldbWireMagic ++ wirePutU32 code ++ wirePutU32 bodyLen

def asInt (v : UInt32) : Int := v.toBitVec.toInt

/-- One record of a push: an id with the bytes of its `dim` floats. -/
structure PushRecord where
  featId : UInt64
  dim : Nat
  emb : List UInt8
  sized : emb.length = dim * 4
deriving DecidableEq

/-- One record of a pull response; a dim of 0 stands for an id that was not found. -/
structure PullRecord where
  dim : UInt32
  emb : List UInt8
  sized : emb.length = dim.toNat * 4
deriving DecidableEq

def pullRecordBytes (r : PullRecord) : List UInt8 := wirePutU32 r.dim ++ r.emb

end Gravel
