import Gravel.Model.WireProtocol

namespace Gravel.Spec

/-- The body of a pull response in the format of `graveldb_wire.h`. -/
def plainBody (records : List PullRecord) : List UInt8 :=
  wirePutU32 (UInt32.ofNat records.length) ++ records.flatMap pullRecordBytes

def plainResponse (records : List PullRecord) : List UInt8 :=
  wireHeader WireStatus.ok.code (UInt32.ofNat (plainBody records).length) ++ plainBody records

/-- What a frame of a stream holds; the first one begins with the number of all records. -/
def framePayload (total : Nat) (first : Bool) (records : List PullRecord) : List UInt8 :=
  (if first then wirePutU32 (UInt32.ofNat total) else []) ++ records.flatMap pullRecordBytes

def streamFrames (total : Nat) : Bool → List (List PullRecord) → List UInt8
  | _, [] => wirePutU32 0
  | first, records :: rest =>
    wirePutU32 (UInt32.ofNat (framePayload total first records).length) ++
      (framePayload total first records ++ streamFrames total false rest)

def streamResponse (frames : List (List PullRecord)) : List UInt8 :=
  wireHeader WireStatus.ok.code graveldbWireStreamSentinel ++
    streamFrames frames.flatten.length true frames

/-- Frames whose length is a `uint32_t` and, as 0 ends the stream, not 0. -/
def FramesFit (total : Nat) : Bool → List (List PullRecord) → Prop
  | _, [] => True
  | first, records :: rest =>
    0 < (framePayload total first records).length ∧
      (framePayload total first records).length < 2 ^ 32 ∧ FramesFit total false rest

structure Framing (records : List PullRecord) (frames : List (List PullRecord)) : Prop where
  flatten : frames.flatten = records
  fit : FramesFit records.length true frames

def chunksOf {α : Type} (n : Nat) (records : List α) : List (List α) :=
  (List.range ((records.length + n - 1) / n)).map (fun k => (records.drop (n * k)).take n)

end Gravel.Spec
