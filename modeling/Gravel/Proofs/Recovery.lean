import Gravel.Model.Recovery
import Gravel.Proofs.DeltaReplay
import Gravel.Proofs.IncrementalDump
import Mathlib.Data.List.MinMax

namespace Gravel.Proofs.Recovery
open DumpFormat DeltaReplay IncrementalDump List

instance : Std.Total cmpDeltaInfo := ⟨fun a b => Nat.le_total a.generation b.generation⟩

instance : IsTrans CkptDeltaInfo cmpDeltaInfo := ⟨fun _ _ _ => Nat.le_trans⟩

instance (dim : Nat) (file : List UInt8) : Decidable (ValidHeader dim file) :=
  inferInstanceAs (Decidable (_ ∧ _))

section Runs

variable {pageSize e : Nat} {pw : Nat → PwriteRc} {runs : List ReadRun} {f data : File UInt8}
  {ws : List (Nat × List UInt8)}

def patches (pageSize : Nat) (runs : List ReadRun) : List (Nat × List UInt8) :=
  runs.map fun r => (r.start * pageSize,r.bytes)

theorem landRuns_full :
    landRuns pageSize (fun _ => .full) e runs data = data.patch (patches pageSize runs) := by
  induction runs generalizing e data with
  | nil => rfl
  | cons r rest ih => exact ih

theorem landRuns_sameOutside (hsub : patches pageSize runs ⊆ ws) (h : f.SameOutside ws data) :
    f.SameOutside ws (landRuns pageSize pw e runs data) := by
  induction runs generalizing e data with
  | nil => exact h
  | cons r rest ih =>
    obtain ⟨hr,hrest⟩ := cons_subset.mp hsub
    rw [landRuns]
    cases pw e with
    | full => exact ih hrest (h.write hr (Nat.le_refl _))
    | short n => exact h.write hr (Nat.min_le_right _ _)

end Runs

section Bump

variable {s : ReplayBin} {data : File UInt8} {b b' : Nat}

def withData (s : ReplayBin) (data : File UInt8) : ReplayBin :=
  { s with bin := { s.bin with data := data } }

@[simp]
theorem replayBump_geom : (replayBump s b).bin.geom = s.bin.geom := by
  unfold replayBump
  split_ifs <;> rfl

theorem replayBump_withData : replayBump (withData s data) b = withData (replayBump s b) data := by
  unfold replayBump
  rw [apply_ite (withData · data)]
  rfl

theorem replayBump_replayBump : replayBump (replayBump s b) b' = replayBump s (max b b') := by
  by_cases hb : s.bin.bumpPtr < b
  · have hs : (replayBump s b).bin.bumpPtr = b := by simp [replayBump,hb]
    rcases Nat.lt_or_ge b b' with hb' | hb'
    · rw [Nat.max_eq_right (by omega),replayBump,if_pos (by omega)]
      simp [replayBump,hb,show s.bin.bumpPtr < b' by omega]
    · rw [Nat.max_eq_left hb',replayBump,if_neg (by omega)]
  · have hs : replayBump s b = s := if_neg hb
    rw [hs]
    rcases Nat.lt_or_ge b' b with hb' | hb'
    · rw [Nat.max_eq_left (by omega),hs]
      exact if_neg (by omega)
    · rw [Nat.max_eq_right hb']

theorem replayBump_bumpPtr :
    (replayBump s b).bin.bumpPtr = max s.bin.bumpPtr b := by
  unfold replayBump
  split_ifs with h
  · exact (Nat.max_eq_right (Nat.le_of_lt h)).symm
  · exact (Nat.max_eq_left (Nat.not_lt.mp h)).symm

end Bump

section Deltas

variable {pw : CkptDeltaInfo → Nat → PwriteRc} {s s' : ReplayBin} {d : CkptDeltaInfo}
  {ds ds₁ : List CkptDeltaInfo}

def replayAll (pw : CkptDeltaInfo → Nat → PwriteRc) (ds : List CkptDeltaInfo) (s : ReplayBin) :
    ReplayBin :=
  ds.foldl (fun s d => (replayDeltaBytes (pw d) s d.bytes).1) s

def deltaPatches (g : Geometry) (d : CkptDeltaInfo) : List (Nat × List UInt8) :=
  if ValidHeader g.dim d.bytes then patches g.pageSize (fileRuns g.pageSize d.bytes) else []

def deltaBump (g : Geometry) (d : CkptDeltaInfo) : Nat :=
  if ValidHeader g.dim d.bytes then
    (wireDecodeDeltaHdr (d.bytes.take wireDeltaHdrSize)).bumpPtr.toNat
  else 0

def topBump (g : Geometry) (ds : List CkptDeltaInfo) : Nat := (ds.map (deltaBump g)).foldr max 0

theorem deltaBump_le {g : Geometry} (hd : d ∈ ds) : deltaBump g d ≤ topBump g ds :=
  le_max_of_le' 0 (mem_map_of_mem hd) (Nat.le_refl _)

/-- `s'` is `s` after some of the writes of `ds`, in any order and cut short anywhere. -/
def Midway (ds : List CkptDeltaInfo) (s s' : ReplayBin) : Prop :=
  ∃ data b, s' = withData (replayBump s b) data ∧ b ≤ topBump s.bin.geom ds ∧
    s.bin.data.SameOutside (ds.flatMap (deltaPatches s.bin.geom)) data

theorem Midway.replay (h : Midway ds s s') (hd : d ∈ ds) :
    Midway ds s (replayDeltaBytes (pw d) s' d.bytes).1 := by
  obtain ⟨data,b,rfl,hb,hdata⟩ := h
  by_cases hv : ValidHeader (withData (replayBump s b) data).bin.geom.dim d.bytes
  · have hv' : ValidHeader s.bin.geom.dim d.bytes := by simpa [withData] using hv
    have hland := @landRuns_sameOutside s.bin.geom.pageSize 0 (pw d)
      (fileRuns s.bin.geom.pageSize d.bytes) _ _ _
      (fun w hw => mem_flatMap.mpr ⟨d,hd,by rwa [deltaPatches,if_pos hv']⟩) hdata
    have hlanded : landed (pw d) (withData (replayBump s b) data) d.bytes =
        withData (replayBump s b) (landRuns s.bin.geom.pageSize (pw d) 0
          (fileRuns s.bin.geom.pageSize d.bytes) data) := by
      simp [landed,withData]
    rcases @replay_valid (pw d) _ d.bytes hv with ⟨_,hrun⟩ | ⟨_,hrun⟩
    · rw [hrun,hlanded]
      exact ⟨_,b,rfl,hb,hland⟩
    · rw [hrun,hlanded,replayBump_withData,replayBump_replayBump]
      refine ⟨_,_,rfl,Nat.max_le.mpr ⟨hb,?_⟩,hland⟩
      have := @deltaBump_le d ds s.bin.geom hd
      rwa [deltaBump,if_pos hv'] at this
  · obtain ⟨rc,hrun,_⟩ := @replay_invalid (pw d) _ d.bytes hv
    rw [hrun]
    exact ⟨data,b,rfl,hb,hdata⟩

theorem Midway.replayAll (h : Midway ds s s') (hsub : ds₁ ⊆ ds) :
    Midway ds s (replayAll pw ds₁ s') := by
  induction ds₁ generalizing s' with
  | nil => exact h
  | cons d ds₁ ih =>
    obtain ⟨hd,hrest⟩ := cons_subset.mp hsub
    exact ih (h.replay hd) hrest

theorem replay_full : (replayDeltaBytes (fun _ => .full) s d.bytes).1 =
    withData (replayBump s (deltaBump s.bin.geom d))
      (s.bin.data.patch (deltaPatches s.bin.geom d)) := by
  unfold deltaPatches deltaBump
  by_cases hv : ValidHeader s.bin.geom.dim d.bytes
  · rw [if_pos hv,if_pos hv,← replayBump_withData]
    rcases @replay_valid (fun _ => .full) s d.bytes hv with ⟨⟨_,_,hne⟩,_⟩ | ⟨_,hrun⟩
    · exact absurd rfl hne
    · rw [hrun,landed,landRuns_full]
      rfl
  · rw [if_neg hv,if_neg hv]
    obtain ⟨rc,hrun,_⟩ := @replay_invalid (fun _ => .full) s d.bytes hv
    rw [hrun]
    rfl

theorem replayAll_full : replayAll (fun _ _ => .full) ds s =
    withData (replayBump s (topBump s.bin.geom ds))
      (s.bin.data.patch (ds.flatMap (deltaPatches s.bin.geom))) := by
  induction ds generalizing s with
  | nil => rfl
  | cons d ds ih =>
    rw [replayAll,foldl_cons,replay_full]
    refine ih.trans ?_
    rw [replayBump_withData,replayBump_replayBump]
    simp [withData,topBump,File.patch]

theorem midway_replayAll (hsub : ds₁ ⊆ ds) : Midway ds s (replayAll pw ds₁ s) := by
  refine Midway.replayAll ?_ hsub
  exact ⟨s.bin.data,0,rfl,Nat.zero_le _,fun _ => .inl rfl,fun _ => .inl Iff.rfl⟩

theorem replayAll_geom : (replayAll pw ds s).bin.geom = s.bin.geom := by
  obtain ⟨data,b,hs',_⟩ := @midway_replayAll pw s ds ds (Subset.refl ds)
  rw [hs']
  exact replayBump_geom

/-- A replay of all of `ds` after failed ones ends where it would have ended without them. -/
theorem replayAll_again (hsub : ds₁ ⊆ ds) :
    replayAll (fun _ _ => .full) ds (replayAll pw ds₁ s) = replayAll (fun _ _ => .full) ds s := by
  rw [replayAll_full,replayAll_full,replayAll_geom]
  obtain ⟨data,b,hs',hb,hdata⟩ := @midway_replayAll pw s ds ds₁ hsub
  rw [hs',replayBump_withData,replayBump_replayBump,Nat.max_eq_right hb,hdata.patch_eq]
  rfl

end Deltas

section Recover

variable {pw : CkptDeltaInfo → Nat → PwriteRc} {metaFile : Nat → Option (List UInt8)}
  {dir dir₁ dir₂ : List CkptDeltaInfo} {s : ReplayBin} {dim : Nat}

def pending (metaFile : Nat → Option (List UInt8)) (dir : List CkptDeltaInfo) (dim : Nat) :
    List CkptDeltaInfo :=
  (ckptListDeltas dir dim).filter (baseGeneration (metaFile dim) < ·.generation)

theorem recoverBin_eq :
    recoverBin pw metaFile dir s = replayAll pw (pending metaFile dir s.bin.geom.dim) s := by
  simp [recoverBin,replayAll,pending,foldl_filter]

/-- No two delta files of one dim have one generation. -/
def GenerationsDiffer (dir : List CkptDeltaInfo) : Prop :=
  ∀ a ∈ dir, ∀ b ∈ dir, a.dim = b.dim → a.generation = b.generation → a = b

theorem pending_perm (hgen : GenerationsDiffer dir) (h : dir₂ ~ dir) :
    pending metaFile dir₂ dim = pending metaFile dir dim := by
  have hperm : ckptListDeltas dir₂ dim ~ ckptListDeltas dir dim :=
    (perm_insertionSort _ _).trans ((h.filter _).trans (perm_insertionSort _ _).symm)
  refine congrArg (filter _) (hperm.eq_of_pairwise (fun a b ha hb hab hba => ?_)
    (pairwise_insertionSort _ _) (pairwise_insertionSort _ _))
  simp only [ckptListDeltas,mem_insertionSort,mem_filter,decide_eq_true_eq] at ha hb
  exact hgen a (h.subset ha.1) b hb.1 (ha.2.trans hb.2.symm) (Nat.le_antisymm hab hba)

theorem pending_subset (h : dir₁ ⊆ dir) : pending metaFile dir₁ dim ⊆ pending metaFile dir dim := by
  intro d hd
  simp only [pending,ckptListDeltas,mem_filter,mem_insertionSort] at hd ⊢
  exact ⟨⟨h hd.1.1,hd.1.2⟩,hd.2⟩

end Recover

/-- What a complete recovery leaves depends neither on the order in which `readdir` lists the delta
files, nor on earlier attempts that missed files or had `pwrite`s fail. -/
theorem recover_again (pw : CkptDeltaInfo → Nat → PwriteRc) (metaFile : Nat → Option (List UInt8))
    {dir dir₁ dir₂ : List CkptDeltaInfo} (hgen : GenerationsDiffer dir) (h₁ : dir₁ ⊆ dir)
    (h₂ : dir₂ ~ dir) (bins : List ReplayBin) :
    ckptRecover (fun _ _ => .full) metaFile dir₂ (ckptRecover pw metaFile dir₁ bins) =
      ckptRecover (fun _ _ => .full) metaFile dir bins := by
  simp only [ckptRecover,map_map]
  refine map_congr_left fun s _ => ?_
  rw [Function.comp_apply,recoverBin_eq,recoverBin_eq,recoverBin_eq,replayAll_geom,
    pending_perm hgen h₂]
  exact replayAll_again (pending_subset h₁)

def pageDelta (b : UInt8) : List UInt8 :=
  wireEncodeDeltaHdr ⟨deltaMagic,1,1,1,4,7,1,0⟩ ++ wireEncodeDeltaEntry 0 1 ++ replicate 16 b

def twoDeltas : List CkptDeltaInfo := [⟨2,1,pageDelta 8⟩,⟨1,1,pageDelta 9⟩]

/-- The first attempt lists the files in the other order and writes three bytes of each page. -/
theorem twoDeltas_recover_again :
    (ckptRecover (fun _ _ => .full) (fun _ => none) twoDeltas [emptyReplayBin]).map
        (·.bin.data.cell 3) = [8] ∧
      ckptRecover (fun _ _ => .full) (fun _ => none) twoDeltas
          (ckptRecover (fun _ _ => .short 3) (fun _ => none) twoDeltas.reverse [emptyReplayBin]) =
        ckptRecover (fun _ _ => .full) (fun _ => none) twoDeltas [emptyReplayBin] :=
  ⟨by decide +kernel,recover_again _ _ (by simp [GenerationsDiffer,twoDeltas])
    (reverse_perm _).subset (Perm.refl _) _⟩

section Written

variable {s : DimBin} {t : ReplayBin}

def RunFits (pageSize : Nat) (r : DeltaRun) : Prop :=
  r.start < 2 ^ 32 ∧ r.count < 2 ^ 32 ∧ r.count * pageSize ≤ maxRwCount

/-- The frozen pages can be read, and the delta fits its fields and the `read`s of a replay. -/
def DumpFits (s : DimBin) : Prop :=
  s.geom.dim < 2 ^ 31 ∧ s.bumpPtr < 2 ^ 64 ∧
    Readable s (frozenPages s) ∧
    (dumpDelta s).runs.length < 2 ^ 32 ∧ ∀ r ∈ (dumpDelta s).runs, RunFits s.geom.pageSize r

instance (pageSize : Nat) (r : DeltaRun) : Decidable (RunFits pageSize r) :=
  inferInstanceAs (Decidable (_ ∧ _))

instance (s : DimBin) : Decidable (DumpFits s) := inferInstanceAs (Decidable (_ ∧ _))

theorem readRuns_bytes {pageSize : Nat} {runs : List DeltaRun}
    (h : ∀ r ∈ runs, RunFits pageSize r) :
    readRuns pageSize runs.length (runs.flatMap (runBytes pageSize)) =
      runs.map (fun r => ⟨r.start,(range (r.count * pageSize)).map r.bytes⟩) := by
  induction runs with
  | nil => rfl
  | cons r runs ih =>
    obtain ⟨hr,hruns⟩ := forall_mem_cons.mp h
    have hentry : (wireEncodeDeltaEntry (UInt32.ofNat r.start) (UInt32.ofNat r.count)).length =
        wireDeltaEntrySize := by
      simp [wireEncodeDeltaEntry,wireDeltaEntrySize]
    have hstart : (wireGetU32 (wireEncodeDeltaEntry (UInt32.ofNat r.start)
        (UInt32.ofNat r.count))).toNat = r.start := by
      simpa [wireEncodeDeltaEntry] using hr.1
    have hcount : (wireGetU32 ((wireEncodeDeltaEntry (UInt32.ofNat r.start)
        (UInt32.ofNat r.count)).drop 4)).toNat = r.count := by
      simpa [wireEncodeDeltaEntry] using hr.2.1
    have hdata : ((range (r.count * pageSize)).map r.bytes).length = r.count * pageSize := by simp
    rw [flatMap_cons,runBytes,append_assoc,length_cons,readRuns,take_left' hentry,
      drop_left' hentry]
    simp only [hstart,hcount,Nat.min_eq_left hr.2.2]
    rw [take_left' hdata,drop_left' hdata,if_pos ⟨hentry,hdata⟩,ih hruns]
    rfl

theorem dumpRuns_header (fuel : Nat) (file : DeltaFile) (pending : List Nat) :
    (dumpRuns s fuel file pending).dim = file.dim ∧
      (dumpRuns s fuel file pending).bumpPtr = file.bumpPtr := by
  induction fuel generalizing file pending with
  | zero => exact ⟨rfl,rfl⟩
  | succ fuel ih =>
    cases pending with
    | nil => exact ⟨rfl,rfl⟩
    | cons pg rest =>
      rw [dumpRuns]
      refine (ih _ _).imp (fun h => h.trans ?_) (fun h => h.trans ?_)
      all_goals
        unfold dumpRun
        dsimp only
        split_ifs <;> rfl

theorem length_encodeDeltaHdr (h : DeltaHeader) :
    (wireEncodeDeltaHdr h).length = wireDeltaHdrSize := by
  simp [wireEncodeDeltaHdr,wireDeltaHdrSize]

theorem decode_deltaFile {pageSize : Nat} {file : DeltaFile} :
    wireDecodeDeltaHdr ((deltaFileBytes pageSize file).take wireDeltaHdrSize) =
      deltaHeaderOf file := by
  rw [deltaFileBytes,take_left' (length_encodeDeltaHdr _),decode_encodeDeltaHdr]

theorem DumpFits.valid (h : DumpFits s) : ValidHeader s.geom.dim (dumpInfo s).bytes := by
  have hdim : (UInt32.ofNat (dumpDelta s).dim).toNat = s.geom.dim := by
    rw [show (dumpDelta s).dim = s.geom.dim from (dumpRuns_header _ _ _).1]
    exact Nat.mod_eq_of_lt (Nat.lt_trans h.1 (by decide))
  rw [ValidHeader,dumpInfo,decode_deltaFile,deltaFileBytes,length_append,length_encodeDeltaHdr]
  refine ⟨Nat.le_add_right _ _,rfl,rfl,?_⟩
  rw [deltaHeaderOf,intOfWire,hdim,if_pos h.1]

theorem DumpFits.fileRuns (h : DumpFits s) : fileRuns s.geom.pageSize (dumpInfo s).bytes =
    (dumpDelta s).runs.map
      (fun r => ⟨r.start,(range (r.count * s.geom.pageSize)).map r.bytes⟩) := by
  have hn : (deltaHeaderOf (dumpDelta s)).numEntries.toNat = (dumpDelta s).runs.length := by
    rw [deltaHeaderOf,(dumpDelta_covers h.2.2.1).entries]
    exact Nat.mod_eq_of_lt h.2.2.2.1
  rw [DeltaReplay.fileRuns,dumpInfo,decode_deltaFile,hn,deltaFileBytes,
    drop_left' (length_encodeDeltaHdr _)]
  exact readRuns_bytes h.2.2.2.2

/-- Where a page was frozen its bytes are those of the dump. -/
def laidOver (f : Nat → UInt8) (s : DimBin) (j : Nat) : UInt8 :=
  if j / s.geom.pageSize ∈ frozenPages s then s.data.cell j else f j

theorem DumpFits.replay (h : DumpFits s) (hdim : s.geom.dim = t.bin.geom.dim)
    (hps : s.geom.pageSize = t.bin.geom.pageSize) :
    (replayDeltaBytes (fun _ => .full) t (dumpInfo s).bytes).1.bin.data.cell =
        laidOver t.bin.data.cell s ∧
      (replayDeltaBytes (fun _ => .full) t (dumpInfo s).bytes).1.bin.bumpPtr =
        max t.bin.bumpPtr s.bumpPtr := by
  have hcov := dumpDelta_covers h.2.2.1
  rw [replay_full]
  refine ⟨funext fun j => ?_,?_⟩
  · rw [deltaPatches,← hdim,if_pos h.valid,← hps,h.fileRuns]
    refine (@File.patch_cell _ _ _ s.data _ j ?_).trans (if_congr ?_ rfl rfl)
    · simp only [patches,map_map,forall_mem_map]
      intro r hr i hi
      have hi : i < r.count * s.geom.pageSize := by simpa using hi
      simpa [hi] using hcov.bytes r hr i hi
    · simp [← hcov.pages,runPages,patches,Nat.le_div_iff_mul_le s.geom.page_pos,
        Nat.div_lt_iff_lt_mul s.geom.page_pos,Nat.add_mul]
  · have hbump : (deltaHeaderOf (dumpDelta s)).bumpPtr.toNat = s.bumpPtr := by
      rw [deltaHeaderOf,show (dumpDelta s).bumpPtr = s.bumpPtr from (dumpRuns_header _ _ _).2,
        UInt64.toNat_ofNat',Nat.mod_eq_of_lt h.2.1]
    rw [deltaBump,← hdim,if_pos h.valid,dumpInfo,decode_deltaFile,hbump]
    simp only [withData,replayBump_bumpPtr]

theorem replayAll_dumps (chain : List DimBin) : ∀ t : ReplayBin, (∀ s ∈ chain, DumpFits s ∧
      s.geom.dim = t.bin.geom.dim ∧ s.geom.pageSize = t.bin.geom.pageSize) →
    (replayAll (fun _ _ => .full) (chain.map dumpInfo) t).bin.data.cell =
        chain.foldl laidOver t.bin.data.cell ∧
      (replayAll (fun _ _ => .full) (chain.map dumpInfo) t).bin.bumpPtr =
        chain.foldl (fun b s => max b s.bumpPtr) t.bin.bumpPtr := by
  induction chain with
  | nil => exact fun t _ => ⟨rfl,rfl⟩
  | cons s chain ih =>
    intro t h
    obtain ⟨⟨hfits,hdim,hps⟩,hrest⟩ := forall_mem_cons.mp h
    obtain ⟨hcell,hbump⟩ := hfits.replay hdim hps
    have hgeom := @replayAll_geom (fun _ _ => .full) t [dumpInfo s]
    rw [replayAll,foldl_cons,foldl_nil] at hgeom
    rw [map_cons,replayAll,foldl_cons,foldl_cons,foldl_cons,← hcell,← hbump]
    exact ih _ (by rw [hgeom]; exact hrest)

end Written

/-- Recovery from the delta files of successive checkpoints gives each page the contents it had at
the last of them that found it dirty. -/
theorem recovered_chain (metaFile : Nat → Option (List UInt8)) (t : ReplayBin)
    (chain : List DimBin) (hfits : ∀ s ∈ chain, DumpFits s ∧ s.geom.dim = t.bin.geom.dim ∧
      s.geom.pageSize = t.bin.geom.pageSize)
    (hgen : chain.Pairwise (fun s s' => s.dirty.generation < s'.dirty.generation))
    (hbase : ∀ s ∈ chain, baseGeneration (metaFile t.bin.geom.dim) < s.dirty.generation) :
    (recoverBin (fun _ _ => .full) metaFile (chain.map dumpInfo) t).bin.data.cell =
        chain.foldl laidOver t.bin.data.cell ∧
      (recoverBin (fun _ _ => .full) metaFile (chain.map dumpInfo) t).bin.bumpPtr =
        chain.foldl (fun b s => max b s.bumpPtr) t.bin.bumpPtr := by
  have hsorted : (chain.map dumpInfo).Pairwise cmpDeltaInfo :=
    pairwise_map.mpr (hgen.imp Nat.le_of_lt)
  have hlist : ckptListDeltas (chain.map dumpInfo) t.bin.geom.dim = chain.map dumpInfo := by
    rw [ckptListDeltas,filter_eq_self.mpr,hsorted.insertionSort_eq]
    simpa [dumpInfo] using fun s hs => (hfits s hs).2.1
  have hpending : pending metaFile (chain.map dumpInfo) t.bin.geom.dim = chain.map dumpInfo := by
    rw [pending,hlist,filter_eq_self.mpr]
    simpa [dumpInfo] using hbase
  rw [recoverBin_eq,hpending]
  exact replayAll_dumps chain t hfits

def twoDumps : Option (List DimBin) := do
  let ops : List BinRun.BinOp := [.alloc,.putBatch [⟨0,fun _ => 1⟩],.checkpointBegin 0]
  let s ← FrameLaw.smallBin ops
  let s' ← FrameLaw.smallBin (ops ++ [.checkpointEnd,.putBatch [⟨0,fun _ => 2⟩],.checkpointBegin 0])
  return [s,s']

theorem twoDumps_recovered : ∃ chain t, twoDumps = some chain ∧
    t = recoverBin (fun _ _ => .full) (fun _ => none) (chain.map dumpInfo) emptyReplayBin ∧
    t.bin.data.cell 0 = 2 ∧
    t.bin.data.cell = chain.foldl laidOver emptyReplayBin.bin.data.cell :=
  ⟨_,_,(Option.some_get (by decide +kernel)).symm,rfl,by decide +kernel,
    (recovered_chain _ _ _ (by decide +kernel) (by decide +kernel) (by decide +kernel)).1⟩

end Gravel.Proofs.Recovery
