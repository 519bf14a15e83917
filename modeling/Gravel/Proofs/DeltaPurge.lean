import Gravel.Proofs.Scheduler

namespace Gravel.Proofs.DeltaPurge
open Scheduler List

section Directory

variable {io : SafepointIo} {dir : CkptDir} {n : DeltaName} {gen dim : Nat} {bins : List BinGen}

theorem mem_oldDeltas : n ∈ oldDeltas io gen dim dir ↔
    n ∈ dir.deltas ∧ n.dim = dim ∧ n.generation ≤ gen ∧ io.ckptDirOpens dim = true ∧
      io.unlinks n = true := by
  unfold oldDeltas
  split_ifs with hopen
  · simp [hopen]
  · simp [hopen]

theorem mem_purged_dir : n ∈ (ckptPurgeOldDeltas io gen dim dir).deltas ↔
    n ∈ dir.deltas ∧ n ∉ oldDeltas io gen dim dir := by
  simp [ckptPurgeOldDeltas]

theorem mem_purgeBins (dir : CkptDir) :
    n ∈ (purgeBins io gen dir bins).2 ↔ ∃ b ∈ bins, n ∈ oldDeltas io gen b.dim dir := by
  induction bins generalizing dir with
  | nil => simp [purgeBins]
  | cons b rest ih =>
    have hlater : ∀ d, n ∈ oldDeltas io gen d (ckptPurgeOldDeltas io gen b.dim dir) ↔
        n ∈ oldDeltas io gen d dir ∧ n ∉ oldDeltas io gen b.dim dir := by
      intro d
      simp only [mem_oldDeltas,mem_purged_dir]
      tauto
    show n ∈ oldDeltas io gen b.dim dir ++ _ ↔ _
    rw [mem_append,ih]
    constructor
    · rintro (hfirst | ⟨b',hb',hold⟩)
      · exact ⟨b,mem_cons_self,hfirst⟩
      · exact ⟨b',mem_cons_of_mem _ hb',((hlater b'.dim).mp hold).1⟩
    · rintro ⟨b',hb',hold⟩
      by_cases hfirst : n ∈ oldDeltas io gen b.dim dir
      · exact .inl hfirst
      · rcases mem_cons.mp hb' with rfl | hb'
        · exact absurd hold hfirst
        · exact .inr ⟨b',hb',(hlater b'.dim).mpr ⟨hold,hfirst⟩⟩

theorem mem_createDelta (b : BinGen) :
    n ∈ (createDelta dir b).deltas ↔ n ∈ dir.deltas ∨ n = ⟨b.dim,b.generation⟩ := by
  unfold createDelta
  split_ifs with hold
  · constructor
    · exact .inl
    · rintro (h | rfl)
      · exact h
      · exact hold
  · simp

theorem mem_createDeltas (deltaOpens : Nat → Bool) (dir : CkptDir) :
    n ∈ (bins.foldl (fun dir b => if deltaOpens b.dim then createDelta dir b else dir) dir).deltas ↔
      n ∈ dir.deltas ∨ ∃ b ∈ bins, deltaOpens b.dim = true ∧ n = ⟨b.dim,b.generation⟩ := by
  induction bins generalizing dir with
  | nil => simp
  | cons b rest ih =>
    rw [foldl_cons,ih]
    by_cases hopen : deltaOpens b.dim
    · rw [if_pos hopen,mem_createDelta,or_assoc]
      simp [hopen]
    · rw [if_neg hopen]
      simp [hopen]

theorem persist_deltas (dir : CkptDir) : (bins.foldl (ckptPersistMeta io) dir).deltas = dir.deltas := by
  induction bins generalizing dir with
  | nil => rfl
  | cons b rest ih =>
    rw [foldl_cons,ih]
    unfold ckptPersistMeta
    split <;> rfl

theorem mem_safepoint_deltas (h : SchedHost) :
    n ∈ (deltaCheckpoint io h).db.dir.deltas ↔ n ∈ h.db.dir.deltas ∨
      ∃ b ∈ h.db.bins, io.deltaOpens b.dim = true ∧ n = ⟨b.dim,b.generation + 1⟩ := by
  show n ∈ CkptDir.deltas (List.foldl _ _ _) ↔ _
  rw [persist_deltas]
  refine (mem_createDeltas io.deltaOpens h.db.dir).trans ?_
  simp [swapGeneration]

end Directory

section Distinct

variable {bins : List BinGen}

def DistinctDims (bins : List BinGen) : Prop := (bins.map BinGen.dim).Nodup

theorem registerDim_distinct (h : DistinctDims bins) (b : BinGen) : DistinctDims (registerDim bins b) := by
  unfold registerDim
  split_ifs with hold
  · exact h
  · unfold DistinctDims at h ⊢
    rw [map_append,nodup_append]
    refine ⟨h,by simp,?_⟩
    intro d hd d' hd' heq
    rw [map_singleton,mem_singleton] at hd'
    exact hold (hd' ▸ heq ▸ hd)

theorem DistinctDims.map (h : DistinctDims bins) {f : BinGen → BinGen} (hf : ∀ b, (f b).dim = b.dim) :
    DistinctDims (bins.map f) := by
  unfold DistinctDims
  rw [List.map_map]
  exact (map_congr_left (fun b _ => hf b) : bins.map (BinGen.dim ∘ f) = bins.map BinGen.dim) ▸ h

theorem storeOpen_distinct (dims : List Nat) (metaReads : Nat → Bool) (dir : CkptDir) :
    DistinctDims (storeOpen dims metaReads dir).bins := by
  refine DistinctDims.map ?_ ?_
  · have hfold : ∀ l, DistinctDims l →
        DistinctDims (dims.foldl (fun bins d => registerDim bins ⟨d,0⟩) l) := by
      induction dims with
      | nil => exact fun l hl => hl
      | cons d rest ih => exact fun l hl => ih _ (registerDim_distinct hl _)
    exact hfold [] nodup_nil
  · intro b
    split_ifs <;> rfl

theorem deltaCheckpoint_distinct {io : SafepointIo} {h : SchedHost} (hd : DistinctDims h.db.bins) :
    DistinctDims (deltaCheckpoint io h).db.bins := DistinctDims.map hd (fun _ => rfl)

theorem force_distinct {io : SafepointIo} {h h' : SchedHost} {sp : Safepoint}
    (hforce : ckptSchedulerForceCheckpoint io h = some (h',sp)) (hd : DistinctDims h.db.bins) :
    DistinctDims h'.db.bins := by
  rcases force_cases hforce with ⟨_,rfl,_⟩ | ⟨_,hdone⟩
  · exact deltaCheckpoint_distinct hd
  · rw [hdone.bins]
    exact deltaCheckpoint_distinct hd

theorem hostStep_distinct (h : SchedHost) (call : HostCall) (h' : SchedHost)
    (hd : DistinctDims h.db.bins) (hstep : hostStep h call = some h') : DistinctDims h'.db.bins := by
  cases call with
  | reopen dims config metaReads =>
    cases hstep
    exact storeOpen_distinct dims metaReads _
  | createBin dim =>
    cases hstep
    exact registerDim_distinct hd _
  | checkpoint deltaOpens =>
    cases hstep
    exact DistinctDims.map hd (fun _ => rfl)
  | requestFull r =>
    rcases (request_cases hstep).2 with ⟨_,rfl⟩ | ⟨_,rfl⟩
    · exact hd
    · exact hd
  | forceCheckpoint io =>
    obtain ⟨⟨h1,sp⟩,hforce,rfl⟩ := Option.map_eq_some_iff.mp hstep
    exact force_distinct hforce hd
  | tick flushRc io now =>
    obtain ⟨⟨h1,sp⟩,htick,rfl⟩ := Option.map_eq_some_iff.mp hstep
    obtain ⟨sched,_,hcases⟩ := tick_cases htick
    rcases hcases with rfl | ⟨h2,hforce,rfl⟩
    · exact hd
    · have hd2 : DistinctDims h2.db.bins := force_distinct hforce hd
      exact hd2

end Distinct

/-- Every delta file that was removed is covered by a full dump of its dim that is complete and not
older. -/
def PurgesCovered (sp : Safepoint) : Prop :=
  ∀ n ∈ sp.purged, ∃ d ∈ sp.dumps, d.dim = n.dim ∧ d.rc = .ok ∧ n.generation ≤ d.generation

instance (sp : Safepoint) : Decidable (PurgesCovered sp) :=
  inferInstanceAs (Decidable (∀ n ∈ sp.purged, ∃ d ∈ sp.dumps,
    d.dim = n.dim ∧ d.rc = .ok ∧ n.generation ≤ d.generation))

/-- What has to hold before a safepoint with a pending full: every delta file of a bin, old or just
written, that the purge can reach under the epoch is no younger than the bin, and the copy of that
bin succeeds. -/
def SafeToPurge (h : SchedHost) (io : SafepointIo) : Prop :=
  h.sched.fullPending = true → ∀ b ∈ h.db.bins, ∀ n : DeltaName, n.dim = b.dim →
    (n ∈ h.db.dir.deltas ∨ io.deltaOpens b.dim = true ∧ n.generation = b.generation + 1) →
    n.generation ≤ h.db.currentEpoch + 1 → io.ckptDirOpens b.dim = true → io.unlinks n = true →
    ckptDumpFull (io.dump b.dim) = .ok ∧ n.generation ≤ b.generation + 1

section Purge

variable {h h' : SchedHost} {io : SafepointIo} {sp : Safepoint}

theorem mem_purged (hd : DistinctDims h.db.bins) (hdone : FullDone io (deltaCheckpoint io h) h' sp)
    (n : DeltaName) : n ∈ sp.purged ↔ ∃ b ∈ h.db.bins, n.dim = b.dim ∧
      (n ∈ h.db.dir.deltas ∨ io.deltaOpens b.dim = true ∧ n.generation = b.generation + 1) ∧
      n.generation ≤ h.db.currentEpoch + 1 ∧ io.ckptDirOpens b.dim = true ∧ io.unlinks n = true := by
  rw [hdone.purged,mem_purgeBins]
  constructor
  · rintro ⟨b',hb',hold⟩
    obtain ⟨b,hb,rfl⟩ := List.mem_map.mp hb'
    obtain ⟨hmem,hdim,hgen,hopen,hunlink⟩ := mem_oldDeltas.mp hold
    refine ⟨b,hb,hdim,?_,hgen,hopen,hunlink⟩
    rcases (mem_safepoint_deltas h).mp hmem with hmem | ⟨b1,hb1,hopens,rfl⟩
    · exact .inl hmem
    · have hsame : b1 = b := inj_on_of_nodup_map hd hb1 hb hdim
      subst hsame
      exact .inr ⟨hopens,rfl⟩
  · rintro ⟨b,hb,hdim,hmem,hgen,hopen,hunlink⟩
    refine ⟨swapGeneration b,List.mem_map.mpr ⟨b,hb,rfl⟩,
      mem_oldDeltas.mpr ⟨(mem_safepoint_deltas h).mpr ?_,hdim,hgen,hopen,hunlink⟩⟩
    rcases hmem with hmem | ⟨hopens,hnew⟩
    · exact .inl hmem
    · obtain ⟨dim,gen⟩ := n
      cases hdim
      cases hnew
      exact .inr ⟨b,hb,hopens,rfl⟩

theorem purges_covered (hd : DistinctDims h.db.bins)
    (hforce : ckptSchedulerForceCheckpoint io h = some (h',sp)) :
    PurgesCovered sp ↔ SafeToPurge h io := by
  rcases force_cases hforce with ⟨hflag,_,rfl⟩ | ⟨hflag,hdone⟩
  · constructor
    · intro _ hpending
      rw [hflag] at hpending
      cases hpending
    · intro _ n hn
      cases hn
  · constructor
    · intro hcovered _ b hb n hdim hmem hgen hopen hunlink
      obtain ⟨d,hdump,hdd,hrc,hle⟩ := hcovered n
        ((mem_purged hd hdone n).mpr ⟨b,hb,hdim,hmem,hgen,hopen,hunlink⟩)
      rw [hdone.dumps] at hdump
      obtain ⟨b',hb',rfl⟩ := List.mem_map.mp hdump
      obtain ⟨b1,hb1,rfl⟩ := List.mem_map.mp hb'
      have hsame : b1 = b := inj_on_of_nodup_map hd hb1 hb (hdd.trans hdim)
      subst hsame
      exact ⟨hrc,hle⟩
    · intro hsafe n hn
      obtain ⟨b,hb,hdim,hmem,hgen,hopen,hunlink⟩ := (mem_purged hd hdone n).mp hn
      obtain ⟨hrc,hle⟩ := hsafe hflag b hb n hdim hmem hgen hopen hunlink
      refine ⟨⟨b.dim,b.generation + 1,ckptDumpFull (io.dump b.dim)⟩,?_,hdim.symm,hrc,hle⟩
      rw [hdone.dumps]
      exact List.mem_map.mpr ⟨swapGeneration b,List.mem_map.mpr ⟨b,hb,rfl⟩,rfl⟩

end Purge

/-- In every run, the deltas that a forced checkpoint removes are covered exactly when it was safe
to purge before it. -/
theorem purges_covered_iff (dims : List Nat) (config : Option CkptConfig) (metaReads : Nat → Bool)
    (dir : CkptDir) (responses : List CkptFullResponse) (calls : List HostCall) (h : SchedHost)
    (hrun : Run.run hostStep (openHost dims config metaReads dir responses) calls = some h)
    (io : SafepointIo) (h' : SchedHost) (sp : Safepoint)
    (hforce : ckptSchedulerForceCheckpoint io h = some (h',sp)) :
    PurgesCovered sp ↔ SafeToPurge h io := by
  have hd : DistinctDims h.db.bins := Run.run_keeps hostStep_distinct calls _ h
    (storeOpen_distinct dims metaReads dir) hrun
  exact purges_covered hd hforce

def requestedHost : SchedHost :=
  (Run.run hostStep (openHost [4] none (fun _ => true) ⟨fun _ => none,[]⟩ blankResponses)
    [.requestFull 0]).get (by decide +kernel)

def safepointOf (io : SafepointIo) (h : SchedHost) : Option Safepoint :=
  (ckptSchedulerForceCheckpoint io h).map Prod.snd

theorem first_delta_covered : ∃ sp, safepointOf goodIo requestedHost = some sp ∧
    sp.purged = [⟨4,1⟩] ∧ PurgesCovered sp := by
  obtain ⟨answer,hanswer⟩ : ∃ a, ckptSchedulerForceCheckpoint goodIo requestedHost = some a :=
    Option.isSome_iff_exists.mp (by decide +kernel)
  have hpurged : (safepointOf goodIo requestedHost).map Safepoint.purged = some [⟨4,1⟩] := by
    decide +kernel
  have hsp : safepointOf goodIo requestedHost = some answer.2 := by
    rw [safepointOf,hanswer,Option.map_some]
  rw [hsp] at hpurged
  refine ⟨answer.2,hsp,Option.some.inj hpurged,(purges_covered_iff [4] none (fun _ => true)
    ⟨fun _ => none,[]⟩ blankResponses [.requestFull 0] requestedHost (Option.some_get _).symm
    goodIo answer.1 answer.2 hanswer).mpr ?_⟩
  intro _ b hb n _ hmem _ _ _
  have hbins : requestedHost.db.bins = [⟨4,0⟩] := by decide +kernel
  have hdeltas : requestedHost.db.dir.deltas = [] := by decide +kernel
  rw [hbins,mem_singleton] at hb
  rw [hdeltas] at hmem
  subst hb
  refine ⟨by decide +kernel,?_⟩
  rcases hmem with hmem | ⟨_,hgen⟩
  · cases hmem
  · exact hgen.le

def fullDiskIo : SafepointIo :=
  { goodIo with dump := fun _ => ⟨true,some 4096,fun _ => ⟨some 4096,none⟩⟩ }

/-- A dim comes back whose delta files of an earlier life are still there: its new bin starts at
generation 0 while the epoch is 2. -/
def returnedHost : SchedHost :=
  (Run.run hostStep (openHost [4,8] none (fun _ => true) ⟨fun _ => none,[]⟩ blankResponses)
    [.checkpoint (fun _ => true),.checkpoint (fun _ => true),.reopen [4] none (fun _ => true),
      .checkpoint (fun _ => true),.createBin 8,.requestFull 0]).get (by decide +kernel)

theorem uncovered_delta_purged :
    ((safepointOf fullDiskIo requestedHost).map (fun sp =>
        (sp.purged,sp.dumps,decide (PurgesCovered sp))) =
        some ([⟨4,1⟩],[⟨4,1,.errIo⟩],false)) ∧
      (safepointOf goodIo returnedHost).map (fun sp =>
        (sp.purged,sp.dumps,decide (PurgesCovered sp))) =
        some ([⟨4,1⟩,⟨4,2⟩,⟨8,1⟩,⟨8,2⟩],[⟨4,2,.ok⟩,⟨8,1,.ok⟩],false) := by
  decide +kernel

end Gravel.Proofs.DeltaPurge
