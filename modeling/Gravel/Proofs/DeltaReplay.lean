import Gravel.Model.DeltaWire
import Gravel.Proofs.ExportRead

namespace Gravel.Proofs.DeltaReplay
open DumpFormat ExportRead List

def runsLength (pageSize : Nat) : Nat → List UInt8 → Option Nat
  | 0, _ => some 0
  | n + 1, stream =>
    let len := wireDeltaEntrySize + (wireGetU32 ((stream.take wireDeltaEntrySize).drop 4)).toNat * pageSize
    if stream.length < len then none
    else (runsLength pageSize n (stream.drop len)).map (len + ·)

def ValidHeader (dim : Nat) (file : List UInt8) : Prop :=
  wireDeltaHdrSize ≤ file.length ∧
    (wireDecodeDeltaHdr (file.take wireDeltaHdrSize)).magic = deltaMagic ∧
    (wireDecodeDeltaHdr (file.take wireDeltaHdrSize)).version = 1 ∧
    intOfWire (wireDecodeDeltaHdr (file.take wireDeltaHdrSize)).dim = dim

/-- The page runs that the header announces are complete, and a checksum in the header is that of
the header and these runs. -/
def WholeBody (pageSize : Nat) (file : List UInt8) : Prop :=
  let hdr := wireDecodeDeltaHdr (file.take wireDeltaHdrSize)
  let body := file.drop wireDeltaHdrSize
  ∃ len, runsLength pageSize hdr.numEntries.toNat body = some len ∧
    (hdr.checksum ≠ 0 → hdr.checksum = combinedCrc (file.take wireDeltaHdrSize) (body.take len))

/-- Replay returns `GRAVELDB_OK` for a whole file, or an error with the bin as it was. -/
def AllOrNothing (pw : Nat → PwriteRc) (s : ReplayBin) (file : List UInt8) : Prop :=
  ((replayDeltaBytes pw s file).2 = .ok ∧ ValidHeader s.bin.geom.dim file ∧
      WholeBody s.bin.geom.pageSize file) ∨
    ((replayDeltaBytes pw s file).2 ≠ .ok ∧
      (replayDeltaBytes pw s file).1.bin.data = s.bin.data ∧
      (replayDeltaBytes pw s file).1.bin.bumpPtr = s.bin.bumpPtr ∧
      (replayDeltaBytes pw s file).1.totalPages = s.totalPages)

section Loop

variable {pageSize : Nat} {pw : Nat → PwriteRc}

structure ReadRun where
  start : Nat
  bytes : List UInt8

/-- The runs that can be read one after the other, up to the first that is cut or too long for one
`read`. -/
def readRuns (pageSize : Nat) : Nat → List UInt8 → List ReadRun
  | 0, _ => []
  | n + 1, stream =>
    let entryBuf := stream.take wireDeltaEntrySize
    let byteLen := (wireGetU32 (entryBuf.drop 4)).toNat * pageSize
    let buf := (stream.drop wireDeltaEntrySize).take (min byteLen maxRwCount)
    if entryBuf.length = wireDeltaEntrySize ∧ buf.length = byteLen then
      ⟨(wireGetU32 entryBuf).toNat,buf⟩ ::
        readRuns pageSize n ((stream.drop wireDeltaEntrySize).drop byteLen)
    else []

def landRuns (pageSize : Nat) (pw : Nat → PwriteRc) :
    Nat → List ReadRun → File UInt8 → File UInt8
  | _, [], data => data
  | e, r :: rest, data =>
    match pw e with
    | .short written =>
      data.write (r.start * pageSize) (min written r.bytes.length) (fun i => r.bytes.getD i 0)
    | .full =>
      landRuns pageSize pw (e + 1) rest
        (data.write (r.start * pageSize) r.bytes.length (fun i => r.bytes.getD i 0))

def SomeShort (pw : Nat → PwriteRc) (e n : Nat) : Prop := ∃ k < n, pw (e + k) ≠ .full

theorem someShort_succ {e n : Nat} (h : pw e = .full) :
    SomeShort pw e (n + 1) ↔ SomeShort pw (e + 1) n := by
  constructor
  · rintro ⟨k,hk,hshort⟩
    cases k with
    | zero => exact absurd h hshort
    | succ k => exact ⟨k,by omega,by rwa [Nat.add_assoc,Nat.add_comm 1]⟩
  · rintro ⟨k,hk,hshort⟩
    exact ⟨k + 1,by omega,by rwa [← Nat.add_assoc,Nat.add_right_comm]⟩

/-- The loop reads and writes run after run; it fails exactly on a short `pwrite`. -/
theorem replayLoop_eq (n e : Nat) (stream : List UInt8) (data : File UInt8) :
    (replayLoop pageSize pw n e stream data).1 =
        landRuns pageSize pw e (readRuns pageSize n stream) data ∧
      ((replayLoop pageSize pw n e stream data).2 = true ↔
        SomeShort pw e (readRuns pageSize n stream).length) := by
  induction n generalizing e stream data with
  | zero => exact ⟨rfl,by simp [replayLoop,readRuns,SomeShort]⟩
  | succ n ih =>
    rw [replayLoop,readRuns]
    dsimp only
    by_cases hentry : (stream.take wireDeltaEntrySize).length = wireDeltaEntrySize
    · rw [if_neg (not_not.mpr hentry)]
      by_cases hbuf : ((stream.drop wireDeltaEntrySize).take (min ((wireGetU32 ((stream.take
          wireDeltaEntrySize).drop 4)).toNat * pageSize) maxRwCount)).length =
          (wireGetU32 ((stream.take wireDeltaEntrySize).drop 4)).toNat * pageSize
      · rw [if_neg (not_not.mpr hbuf),if_pos ⟨hentry,hbuf⟩]
        cases hpw : pw e with
        | short written =>
          refine ⟨?_,?_⟩
          · simp only [landRuns,hpw,hbuf]
          · simp only [length_cons,true_iff]
            exact ⟨0,by omega,by rw [Nat.add_zero,hpw]; exact PwriteRc.noConfusion⟩
        | full =>
          obtain ⟨hdata,hflag⟩ := ih (e + 1) _ _
          refine ⟨?_,?_⟩
          · simp only [landRuns,hpw,hbuf]
            exact hdata
          · rw [length_cons,someShort_succ hpw]
            exact hflag
      · rw [if_pos hbuf,if_neg (fun h => hbuf h.2)]
        exact ⟨rfl,by simp [SomeShort]⟩
    · rw [if_pos hentry,if_neg (fun h => hentry h.1)]
      exact ⟨rfl,by simp [SomeShort]⟩

end Loop

section Replay

variable {pw : Nat → PwriteRc} {s : ReplayBin} {file : List UInt8}

def fileRuns (pageSize : Nat) (file : List UInt8) : List ReadRun :=
  readRuns pageSize (wireDecodeDeltaHdr (file.take wireDeltaHdrSize)).numEntries.toNat
    (file.drop wireDeltaHdrSize)

def landed (pw : Nat → PwriteRc) (s : ReplayBin) (file : List UInt8) : ReplayBin :=
  { s with
    bin := { s.bin with
      data := landRuns s.bin.geom.pageSize pw 0 (fileRuns s.bin.geom.pageSize file) s.bin.data } }

theorem replay_invalid (h : ¬ ValidHeader s.bin.geom.dim file) :
    ∃ rc, replayDeltaBytes pw s file = (s,rc) ∧ rc ≠ .ok := by
  unfold replayDeltaBytes
  dsimp only
  by_cases hlen : (file.take wireDeltaHdrSize).length = wireDeltaHdrSize
  · rw [if_neg (not_not.mpr hlen)]
    by_cases hmagic : (wireDecodeDeltaHdr (file.take wireDeltaHdrSize)).magic ≠ deltaMagic ∨
        (wireDecodeDeltaHdr (file.take wireDeltaHdrSize)).version ≠ 1
    · rw [if_pos hmagic]
      exact ⟨_,rfl,by decide⟩
    · rw [if_neg hmagic]
      push Not at hmagic
      rw [length_take] at hlen
      have hdim : intOfWire (wireDecodeDeltaHdr (file.take wireDeltaHdrSize)).dim ≠ s.bin.geom.dim :=
        fun hdim => h ⟨by omega,hmagic.1,hmagic.2,hdim⟩
      rw [if_pos hdim]
      exact ⟨_,rfl,by decide⟩
  · rw [if_pos hlen]
    exact ⟨_,rfl,by decide⟩

theorem replay_valid (h : ValidHeader s.bin.geom.dim file) :
    (SomeShort pw 0 (fileRuns s.bin.geom.pageSize file).length ∧
        replayDeltaBytes pw s file = (landed pw s file,.errIo)) ∨
      (¬ SomeShort pw 0 (fileRuns s.bin.geom.pageSize file).length ∧
        replayDeltaBytes pw s file = (replayBump (landed pw s file)
          (wireDecodeDeltaHdr (file.take wireDeltaHdrSize)).bumpPtr.toNat,.ok)) := by
  obtain ⟨hlen,hmagic,hversion,hdim⟩ := h
  have htake : (file.take wireDeltaHdrSize).length = wireDeltaHdrSize := by
    rw [length_take]
    omega
  obtain ⟨hdata,hflag⟩ := @replayLoop_eq s.bin.geom.pageSize pw
    (wireDecodeDeltaHdr (file.take wireDeltaHdrSize)).numEntries.toNat 0
    (file.drop wireDeltaHdrSize) s.bin.data
  have hrun : replayDeltaBytes pw s file =
      if (replayLoop s.bin.geom.pageSize pw (wireDecodeDeltaHdr (file.take
          wireDeltaHdrSize)).numEntries.toNat 0 (file.drop wireDeltaHdrSize) s.bin.data).2 = true
      then (landed pw s file,.errIo)
      else (replayBump (landed pw s file)
        (wireDecodeDeltaHdr (file.take wireDeltaHdrSize)).bumpPtr.toNat,.ok) := by
    unfold replayDeltaBytes
    simp only [htake,ne_eq,not_true_eq_false,if_false,hmagic,hversion,or_self,hdim,hdata]
    rfl
  by_cases hshort : SomeShort pw 0 (fileRuns s.bin.geom.pageSize file).length
  · exact .inl ⟨hshort,by rw [hrun,if_pos (hflag.mpr hshort)]⟩
  · exact .inr ⟨hshort,by rw [hrun,if_neg (fun hf => hshort (hflag.mp hf))]⟩

end Replay

/-- Replay is all or nothing in three cases: the header is not valid; the file is whole and every
`pwrite` succeeds; or a `pwrite` is short and what was written until then was in the data file
before. -/
theorem replay_all_or_nothing_iff (pw : Nat → PwriteRc) (s : ReplayBin) (file : List UInt8) :
    AllOrNothing pw s file ↔
      ¬ ValidHeader s.bin.geom.dim file ∨
      (WholeBody s.bin.geom.pageSize file ∧
        ∀ e < (fileRuns s.bin.geom.pageSize file).length, pw e = .full) ∨
      ((∃ e < (fileRuns s.bin.geom.pageSize file).length, pw e ≠ .full) ∧
        landRuns s.bin.geom.pageSize pw 0 (fileRuns s.bin.geom.pageSize file) s.bin.data =
          s.bin.data) := by
  have hshort : SomeShort pw 0 (fileRuns s.bin.geom.pageSize file).length ↔
      ∃ e < (fileRuns s.bin.geom.pageSize file).length, pw e ≠ .full := by
    simp only [SomeShort,Nat.zero_add]
  by_cases hvalid : ValidHeader s.bin.geom.dim file
  · rw [← hshort]
    rcases @replay_valid pw s file hvalid with ⟨hs,hrun⟩ | ⟨hs,hrun⟩
    · have hiff : AllOrNothing pw s file ↔ landRuns s.bin.geom.pageSize pw 0
          (fileRuns s.bin.geom.pageSize file) s.bin.data = s.bin.data := by
        simp [AllOrNothing,hrun,landed]
      rw [hiff]
      constructor
      · intro hdata
        exact .inr (.inr ⟨hs,hdata⟩)
      · rintro (hbad | ⟨_,hall⟩ | ⟨_,hdata⟩)
        · exact absurd hvalid hbad
        · obtain ⟨e,he,hne⟩ := hshort.mp hs
          exact absurd (hall e he) hne
        · exact hdata
    · have hiff : AllOrNothing pw s file ↔ WholeBody s.bin.geom.pageSize file := by
        simp [AllOrNothing,hrun,hvalid]
      rw [hiff]
      constructor
      · intro hwhole
        refine .inr (.inl ⟨hwhole,fun e he => ?_⟩)
        by_contra hne
        exact hs (hshort.mpr ⟨e,he,hne⟩)
      · rintro (hbad | ⟨hwhole,_⟩ | ⟨hs',_⟩)
        · exact absurd hvalid hbad
        · exact hwhole
        · exact absurd hs' hs
  · obtain ⟨rc,hrun,hrc⟩ := @replay_invalid pw s file hvalid
    constructor
    · exact fun _ => .inl hvalid
    · intro _
      refine .inr ?_
      rw [hrun]
      exact ⟨hrc,rfl,rfl,rfl⟩

def cutDelta : List UInt8 := wireEncodeDeltaHdr ⟨deltaMagic,1,1,1,4,7,1,0⟩

def flippedDelta : List UInt8 := wireEncodeDeltaHdr ⟨deltaMagic,1,1,1,4,7,0,1⟩

def emptyReplayBin : ReplayBin := ⟨emptyBin,0,0⟩

/-- Both files are accepted, and entries 0 to 6 count as allocated. -/
theorem broken_delta_accepted :
    ((replayDeltaBytes (fun _ => .full) emptyReplayBin cutDelta).2 = .ok ∧
        (replayDeltaBytes (fun _ => .full) emptyReplayBin cutDelta).1.bin.bumpPtr = 7 ∧
        ¬ AllOrNothing (fun _ => .full) emptyReplayBin cutDelta) ∧
      (replayDeltaBytes (fun _ => .full) emptyReplayBin flippedDelta).2 = .ok ∧
        (replayDeltaBytes (fun _ => .full) emptyReplayBin flippedDelta).1.bin.bumpPtr = 7 ∧
        ¬ AllOrNothing (fun _ => .full) emptyReplayBin flippedDelta := by
  have hcut : (replayDeltaBytes (fun _ => .full) emptyReplayBin cutDelta).2 = .ok := by
    decide +kernel
  have hflip : (replayDeltaBytes (fun _ => .full) emptyReplayBin flippedDelta).2 = .ok := by
    decide +kernel
  refine ⟨⟨hcut,by decide +kernel,?_⟩,hflip,by decide +kernel,?_⟩
  · rintro (⟨_,_,len,hlen,_⟩ | ⟨hrc,_⟩)
    · have hnone : runsLength 16 1 [] = none := by decide
      cases hnone.symm.trans hlen
    · exact hrc hcut
  · rintro (⟨_,_,len,_,hsum⟩ | ⟨hrc,_⟩)
    · have hbody : (flippedDelta.drop wireDeltaHdrSize).take len = [] := by
        rw [show flippedDelta.drop wireDeltaHdrSize = [] by decide +kernel,take_nil]
      rw [hbody] at hsum
      revert hsum
      decide +kernel
    · exact hrc hflip

theorem decode_encodeDeltaHdr (h : DeltaHeader) : wireDecodeDeltaHdr (wireEncodeDeltaHdr h) = h := by
  unfold wireDecodeDeltaHdr wireEncodeDeltaHdr
  simp [drop_u32,drop_u64]

end Gravel.Proofs.DeltaReplay
