import Gravel.Model.Batch
import Gravel.Model.WireProtocol

namespace Gravel

/-- A connected client: the bytes of the server that it has not read yet, and `pending`. The
buffers are grown as needed. -/
structure GravelDBClient where
  incoming : List UInt8
  pending : Int

/-- The caller's arrays; `none` is a NULL pointer, for an array or for a slot of it. A buffer is
large enough for what is copied into it. -/
structure PullOut where
  dims : Option (List Int)
  embs : Option (List (Option (Nat → UInt8)))

inductive ClientRc where
  | ok
  | fail
deriving DecidableEq, Repr

def pushBodyLen (records : List PushRecord) : Nat :=
  records.foldl (fun bodyLen r => bodyLen + (8 + 4 + r.dim * 4)) 4

def pushRecordBytes (r : PushRecord) : List UInt8 :=
  wirePutU64 r.featId ++ (wirePutU32 (UInt32.ofNat r.dim) ++ r.emb)

def pushSerialize (records : List PushRecord) : List UInt8 :=
  wirePutU32 (UInt32.ofNat records.length) ++ records.flatMap pushRecordBytes

def pullBody (featIds : List UInt64) : List UInt8 :=
  wirePutU32 (UInt32.ofNat featIds.length) ++ featIds.flatMap wirePutU64

def sendRequest (msgType : MsgType) (body : List UInt8) : List UInt8 :=
  wireHeader msgType.code (UInt32.ofNat body.length) ++ body

def recvAll (c : GravelDBClient) (len : Nat) : Option (List UInt8 × GravelDBClient) :=
  if c.incoming.length < len then none
  else some (c.incoming.take len,{ c with incoming := c.incoming.drop len })

def recvResponse (c : GravelDBClient) : Option (UInt32 × List UInt8 × GravelDBClient) := do
  let (header,c) ← recvAll c graveldbWireHeaderSize
  if wireGetU32 header ≠ graveldbWireMagic then none
  else
    let (body,c) ← recvAll c (wireGetU32 (header.drop 8)).toNat
    return (wireGetU32 (header.drop 4),body,c)

def PullOut.slot (out : PullOut) (i : Nat) : Option (Nat → UInt8) := do
  let embs ← out.embs
  (embs[i]?).join

/-- `if (out_dims) out_dims[i] = (int)dim`; `none` is a write behind the array. -/
def PullOut.setDim (out : PullOut) (i : Nat) (dim : UInt32) : Option PullOut :=
  match out.dims with
  | none => some out
  | some dims =>
    if i < dims.length then some { out with dims := some (dims.set i (asInt dim)) } else none

def PullOut.setEmb (out : PullOut) (i : Nat) (bytes : List UInt8) : PullOut :=
  { out with embs := out.embs.map (fun embs => embs.modify i
      (Option.map (copyBytes bytes.length (fun p => bytes.getD p 0)))) }

/-- One record of the decoding loops. `steps` tells the loop of the framed stream, which steps over
a vector that it does not copy; `none` is a read behind the end or a write behind an array. -/
def pullRecord (steps : Bool) (out : PullOut) (i : Nat) (ptr : List UInt8) :
    Option (PullOut × List UInt8) := do
  if ptr.length < 4 then none
  else
    let dim := wireGetU32 ptr
    let ptr := ptr.drop 4
    let bytes := dim.toNat * 4
    let out ← out.setDim i dim
    if 0 < dim.toNat ∧ (out.slot i).isSome then
      if bytes ≤ ptr.length then return (out.setEmb i (ptr.take bytes),ptr.drop bytes)
      else return (out,ptr.drop bytes)
    else if steps then return (out,ptr.drop bytes)
    else return (out,ptr)

/-- Records from index `i` on, `n` at most, while there are bytes. The index is returned too. -/
def pullRecords (steps : Bool) : Nat → PullOut → Nat → List UInt8 → Option (PullOut × Nat)
  | 0, out, i, _ => some (out,i)
  | n + 1, out, i, ptr =>
    if ptr.length = 0 then some (out,i)
    else do
      let (out,ptr) ← pullRecord steps out i ptr
      pullRecords steps n out (i + 1) ptr

/-- The body of a response that is not framed; `limit` is the bound of the loop for a given
`resp_count`. -/
def pullPlain (limit : Nat → Nat) (out : PullOut) (body : List UInt8) : Option (ClientRc × PullOut) := do
  if body.length < 4 then return (.fail,out)
  else
    let respCount := (wireGetU32 body).toNat
    let (out,_) ← pullRecords false (limit respCount) out 0 (body.drop 4)
    return (.ok,out)

/-- `graveldb_client_pull` once the request is sent. It relies on the count of the response. -/
def graveldbClientPull (c : GravelDBClient) (out : PullOut) : Option (ClientRc × PullOut) :=
  match recvResponse c with
  | none => some (.fail,out)
  | some (status,body,_) =>
    if status ≠ WireStatus.ok.code then some (.fail,out)
    else pullPlain (fun respCount => respCount) out body

def graveldbClientPullRecv (c : GravelDBClient) (out : PullOut) (n : Nat) :
    Option (ClientRc × PullOut × GravelDBClient) :=
  match recvResponse c with
  | none => some (.fail,out,c)
  | some (status,body,c) =>
    let c := { c with pending := c.pending - 1 }
    if status ≠ WireStatus.ok.code then some (.fail,out,c)
    else do
      let (rc,out) ← pullPlain (min n) out body
      return (rc,out,c)

/-- The frames up to the terminator. Each turn reads at least the four bytes of a length, which
bounds the number of turns; `none` as the fuel runs out does not occur. -/
def pullFrames (n : Nat) : Nat → Bool → GravelDBClient → PullOut → Nat → Option (ClientRc × PullOut)
  | 0, _, _, _, _ => none
  | fuel + 1, firstFrame, c, out, entryIdx =>
    match recvAll c 4 with
    | none => some (.fail,out)
    | some (word,c) =>
      let frameLen := (wireGetU32 word).toNat
      if frameLen = 0 then some (.ok,out)
      else
        match recvAll c frameLen with
        | none => some (.fail,out)
        | some (frame,c) =>
          if firstFrame ∧ frameLen < 4 then some (.fail,out)
          else do
            let ptr := if firstFrame then frame.drop 4 else frame
            let (out,entryIdx) ← pullRecords true (n - entryIdx) out entryIdx ptr
            pullFrames n fuel false c out entryIdx

/-- `graveldb_client_pull_stream` once the request is sent. A response without the sentinel is
decoded as a plain one. -/
def graveldbClientPullStream (c : GravelDBClient) (out : PullOut) (n : Nat) :
    Option (ClientRc × PullOut) :=
  match recvAll c graveldbWireHeaderSize with
  | none => some (.fail,out)
  | some (header,c) =>
    if wireGetU32 header ≠ graveldbWireMagic then some (.fail,out)
    else if wireGetU32 (header.drop 4) ≠ WireStatus.ok.code then some (.fail,out)
    else if wireGetU32 (header.drop 8) ≠ graveldbWireStreamSentinel then
      match recvAll c (wireGetU32 (header.drop 8)).toNat with
      | none => some (.fail,out)
      | some (body,_) => pullPlain (min n) out body
    else pullFrames n (c.incoming.length + 1) true c out 0

end Gravel
