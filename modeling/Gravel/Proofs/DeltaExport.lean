import Gravel.Model.Export
import Gravel.Proofs.DirtySet

namespace Gravel.Proofs.DeltaExport
open File List

def exportKey (bin : DimBin) (e : Nat) : UInt64 :=
  if e < bin.keyFileSize then bin.keys.cell e else 0

def rangeOps (bin : DimBin) (batch start count : Nat) : List ReadOp :=
  (((List.range count).filter (fun i => exportKey bin (start + i) ≠ 0)).map (fun i =>
    (⟨exportKey bin (start + i),(start + i) % 2 ^ 32⟩ : ReadOp))).take
      (if batch < 2 ^ 31 then batch else 0)

section Batch

variable {bin : DimBin} {exp : CkptExport} {start count fuel : Nat}

structure SameExport (exp exp' : CkptExport) : Prop where
  type : exp'.type = exp.type
  uring : exp'.uring = exp.uring
  snapshotBump : exp'.snapshotBump = exp.snapshotBump
  batchEntries : exp'.batchEntries = exp.batchEntries

structure Resting (exp : CkptExport) : Prop where
  phase : exp.phase = .idle
  pending : exp.pending = none

theorem performReads_none (h : exp.pending = none) : performReads bin exp = exp := by
  simp only [performReads,h]

def dumped (exp : CkptExport) : List ReadOp :=
  exp.dump.map (fun x => ⟨x.entry.featId,x.entryIdx⟩)

theorem dumped_output (bin : DimBin) (exp : CkptExport) :
    (outputEntries bin exp).map (fun x => (⟨x.entry.featId,x.entryIdx⟩ : ReadOp)) = exp.readOps := by
  rw [outputEntries,List.map_map]
  apply ext_getElem
  · simp
  · intro i h1 h2
    simp

def keyReadLen (bin : DimBin) (start count : Nat) : Nat :=
  if bin.keyFileSize < start + count then bin.keyFileSize - start else count

theorem lt_keyReadLen {i : Nat} (hi : i < count) :
    i < keyReadLen bin start count ↔ start + i < bin.keyFileSize := by
  unfold keyReadLen
  split_ifs <;> omega

theorem pending_performReads (bin : DimBin) (exp : CkptExport) :
    (performReads bin exp).pending = none := by
  unfold performReads
  split
  · assumption
  · rfl
  · rfl

theorem performReads_submit (bin : DimBin) (exp : CkptExport) (reads : PendingRead) :
    performReads bin (submitReads bin exp reads) =
      performReads bin { exp with pending := some reads } := by
  unfold submitReads
  simp only
  split_ifs
  · rfl
  · rw [performReads_none (pending_performReads _ _)]

theorem performed_keys (exp : CkptExport) (start len : Nat) :
    performReads bin { exp with pending := some (.keys start len) } =
      { exp with pending := none, keyBatchBuf := bin.keys.read start len exp.keyBatchBuf } := rfl

theorem performed_readKeyBatch (exp : CkptExport) (start count : Nat) (hfile : bin.keyFileSize ≤ bin.keys.size)
    (hring : exp.uring = true → count < 2 ^ 29) (hp : exp.pending = none) :
    ∃ buf, performReads bin (readKeyBatch bin exp start count) = { exp with
        keyBatchStart := start, keyBatchCount := count, keyBatchBuf := buf, phase := .keyRead } ∧
      ∀ i < count, buf i = exportKey bin (start + i) := by
  have hlen : ∀ i < count, i < keyReadLen bin start count ↔ start + i < bin.keyFileSize :=
    fun i hi => lt_keyReadLen hi
  have hle : keyReadLen bin start count ≤ count := by
    unfold keyReadLen
    split_ifs <;> omega
  obtain ⟨exp0,hexp0⟩ : ∃ exp0 : CkptExport, exp0 = { exp with
    keyBatchStart := start, keyBatchCount := count, phase := .keyRead
    keyBatchBuf := fun i => if keyReadLen bin start count ≤ i ∧ i < count then 0
      else exp.keyBatchBuf i } := ⟨_,rfl⟩
  have hread : readKeyBatch bin exp start count =
      if 0 < keyReadLen bin start count then
        submitReads bin exp0 (.keys start (if exp.uring then keyReadLen bin start count % 2 ^ 29
          else keyReadLen bin start count))
      else exp0 := by
    rw [hexp0]
    rfl
  by_cases hpos : 0 < keyReadLen bin start count
  · -- Submitted to the ring or performed at once, the same cells are read.
    have hperf : performReads bin (readKeyBatch bin exp start count) = { exp0 with
        pending := none
        keyBatchBuf := bin.keys.read start (keyReadLen bin start count) exp0.keyBatchBuf } := by
      rw [hread,if_pos hpos,performReads_submit,performed_keys]
      by_cases hu : exp.uring = true
      · have := hring hu
        rw [if_pos hu,Nat.mod_eq_of_lt (by omega)]
      · rw [if_neg hu]
    refine ⟨_,by rw [hperf,hexp0,← hp],?_⟩
    intro i hi
    unfold File.read exportKey
    by_cases hk : start + i < bin.keyFileSize
    · rw [if_pos ⟨(hlen i hi).mpr hk,by omega⟩,if_pos hk]
    · have hn : ¬ i < keyReadLen bin start count := fun h => hk ((hlen i hi).mp h)
      rw [if_neg (fun h => hn h.1),if_neg hk]
      exact if_pos ⟨by omega,hi⟩
  · have hexp : performReads bin (readKeyBatch bin exp start count) = exp0 := by
      rw [hread,if_neg hpos,performReads_none (by rw [hexp0]; exact hp)]
    refine ⟨_,by rw [hexp,hexp0],?_⟩
    intro i hi
    have hk : ¬ start + i < bin.keyFileSize := fun h => hpos (Nat.lt_of_le_of_lt
      (Nat.zero_le i) ((hlen i hi).mpr h))
    rw [exportKey,if_neg hk]
    exact if_pos ⟨by omega,hi⟩

theorem validEntries_eq (bin : DimBin) (hbuf : ∀ i < exp.keyBatchCount,
      exp.keyBatchBuf i = exportKey bin (exp.keyBatchStart + i)) :
    validEntries exp = rangeOps bin exp.batchEntries exp.keyBatchStart exp.keyBatchCount := by
  unfold validEntries rangeOps
  congr 1
  have hf : (List.range exp.keyBatchCount).filter (fun i => exp.keyBatchBuf i ≠ 0) =
      (List.range exp.keyBatchCount).filter
        (fun i => exportKey bin (exp.keyBatchStart + i) ≠ 0) :=
    filter_congr (fun i hi => by rw [hbuf i (mem_range.mp hi)])
  rw [hf]
  apply map_congr_left
  intro i hi
  rw [hbuf i (mem_range.mp (mem_filter.mp hi).1)]

theorem performed_ranges (bin : DimBin) (exp : CkptExport) (l : List (Nat × Nat × Nat)) :
    ∃ pool, performReads bin { exp with pending := some (.ranges l) } =
      { exp with pending := none, readBufPool := pool } := ⟨_,rfl⟩

theorem exportStep_keyRead (h : exp.phase = .keyRead) :
    exportStep bin exp = keyReadStep bin { exp with headerWritten := true } := by
  cases exp
  cases h
  rw [exportStep,if_neg (by simp)]

theorem exportStep_embRead (h : exp.phase = .embRead) :
    exportStep bin exp = embReadStep { exp with headerWritten := true } := by
  cases exp
  cases h
  rw [exportStep,if_neg (by simp)]

theorem exportStep_output (h : exp.phase = .output) :
    exportStep bin exp = outputStep bin { exp with headerWritten := true } := by
  cases exp
  cases h
  rw [exportStep,if_neg (by simp)]

theorem exportStep_idle (h : exp.phase = .idle) (hs : exp.scanDone = false) :
    exportStep bin exp = idleStep bin { exp with headerWritten := true } := by
  cases exp
  cases h
  cases hs
  rw [exportStep,if_neg (by simp)]

theorem finish_batch {exp0 : CkptExport} (hperf : performReads bin exp0 = exp)
    (hphase : exp.phase = .keyRead) :
    ∃ k exp', (∀ fuel, exportUntilDone bin (fuel + k) exp0 =
        if exp.scanDone then some exp' else exportUntilDone bin fuel exp') ∧
      Resting exp' ∧ SameExport exp exp' ∧ exp'.dirtyPages = exp.dirtyPages ∧
      exp'.scanDone = exp.scanDone ∧ dumped exp' = dumped exp ++ validEntries exp := by
  have hpend : exp.pending = none := by
    rw [← hperf]
    exact pending_performReads _ _
  have hstep : exportStep bin exp = _ := exportStep_keyRead hphase
  have hread : keyReadStep bin { exp with headerWritten := true } =
      if validEntries exp = [] then
        ({ exp with headerWritten := true, readOps := validEntries exp, phase := .idle },
          batchStatus exp)
      else (submitReads bin { exp with
        headerWritten := true, readOps := validEntries exp, phase := .embRead }
        (.ranges (coalesce 0 (validEntries exp))),.again) := by
    rw [keyReadStep,if_neg (by simp [hpend])]
    rfl
  rw [hread] at hstep
  by_cases hops : validEntries exp = []
  · rw [if_pos hops] at hstep
    refine ⟨1,{ exp with headerWritten := true, readOps := validEntries exp, phase := .idle },?_,
      ⟨rfl,hpend⟩,⟨rfl,rfl,rfl,rfl⟩,rfl,rfl,?_⟩
    · intro fuel
      rw [exportUntilDone,hperf,hstep,batchStatus]
      cases exp.scanDone <;> rfl
    · rw [hops,append_nil]
      rfl
  · rw [if_neg hops] at hstep
    obtain ⟨pool,hpool⟩ := performed_ranges bin { exp with
      headerWritten := true, readOps := validEntries exp, phase := .embRead }
      (coalesce 0 (validEntries exp))
    obtain ⟨exp2,hexp2⟩ : ∃ exp2 : CkptExport, exp2 = { exp with
      headerWritten := true, readOps := validEntries exp, phase := .output, pending := none,
      readBufPool := pool } := ⟨_,rfl⟩
    have hread2 : exportStep bin (performReads bin (exportStep bin exp).1) = (exp2,.again) := by
      rw [hstep,performReads_submit,hpool,exportStep_embRead rfl,hexp2]
      rfl
    have hout : exportStep bin (performReads bin exp2) = outputStep bin exp2 := by
      rw [performReads_none (by rw [hexp2]),exportStep_output (by rw [hexp2]),hexp2]
    refine ⟨3,(outputStep bin exp2).1,?_,?_,?_,?_,?_,?_⟩
    · intro fuel
      rw [exportUntilDone,hperf,hstep]
      simp only
      rw [hstep] at hread2
      rw [exportUntilDone,hread2]
      simp only
      rw [exportUntilDone,hout,outputStep,batchStatus,hexp2]
      cases exp.scanDone <;> rfl
    all_goals rw [hexp2]
    · exact ⟨rfl,rfl⟩
    · exact ⟨rfl,rfl,rfl,rfl⟩
    · rfl
    · rfl
    · rw [dumped,outputStep,map_append,dumped_output]
      rfl

end Batch

/-- The dirty pages as the steps of a delta export gather them. The scan ends early at a range
that starts at the last 32-bit number. -/
def deltaGroups (epp bump batch : Nat) : Nat → List Nat → List (List Nat)
  | 0, _ => []
  | fuel + 1, pages =>
    let (taken,left) := gatherPages epp bump batch 0 pages
    if (gatheredKeys epp bump batch taken).1 = 2 ^ 32 - 1 then []
    else taken :: deltaGroups epp bump batch fuel left

def groupOps (bin : DimBin) (bump batch : Nat) (pages : List Nat) : List ReadOp :=
  rangeOps bin batch (gatheredKeys bin.geom.entriesPerPage bump batch pages).1
    (gatheredKeys bin.geom.entriesPerPage bump batch pages).2

section Scan

variable {bin : DimBin} {exp : CkptExport} {epp bump batch collected : Nat} {pages : List Nat}

theorem entriesPerPage_lt (g : Geometry) : g.entriesPerPage < 2 ^ 32 := by
  by_cases h : g.entrySize ≤ g.pageSize
  · have hpos : 1 ≤ g.entrySize := Nat.le_trans (Nat.mul_pos g.dim_pos (by decide)) g.vector_le
    have := Nat.le_mul_of_pos_right g.entriesPerPage hpos
    have := g.entries_le h
    have := g.page_lt
    omega
  · rw [g.large_entry (by omega)]
    decide

theorem gatherPages_append (epp bump batch : Nat) : ∀ (pages : List Nat) (collected : Nat),
    (gatherPages epp bump batch collected pages).1 ++
      (gatherPages epp bump batch collected pages).2 = pages := by
  intro pages
  induction pages with
  | nil => exact fun _ => rfl
  | cons pg rest ih =>
    intro collected
    rw [gatherPages]
    split_ifs
    · simp only
      rw [cons_append,ih]
    · rfl

theorem gatherPages_cons (epp bump : Nat) (hb : 0 < batch) (pg : Nat) (rest : List Nat) :
    ∃ taken, (gatherPages epp bump batch 0 (pg :: rest)).1 = pg :: taken := by
  rw [gatherPages,if_pos hb]
  exact ⟨_,rfl⟩

theorem idle_delta (bin : DimBin) (hr : Resting exp) (ht : exp.type = .delta) (hs : exp.scanDone = false) :
    ∃ exp1, exportStep bin (performReads bin exp) = idleDelta bin exp1 ∧ Resting exp1 ∧
      SameExport exp exp1 ∧ exp1.dirtyPages = exp.dirtyPages ∧ exp1.dump = exp.dump := by
  refine ⟨{ exp with headerWritten := true, pending := none, readOps := [] },?_,⟨hr.phase,rfl⟩,
    ⟨rfl,rfl,rfl,rfl⟩,rfl,rfl⟩
  rw [performReads_none hr.pending,exportStep_idle hr.phase hs]
  cases exp
  cases ht
  rfl

theorem performReads_scan (bin : DimBin) (exp : CkptExport) (pages : List Nat) (done : Bool) :
    performReads bin { exp with dirtyPages := pages, scanDone := done } =
      { performReads bin exp with dirtyPages := pages, scanDone := done } := by
  unfold performReads
  split <;> simp_all

theorem deltaGroups_nil (n : Nat) : deltaGroups epp bump batch n [] = [] := by
  cases n with
  | zero => rfl
  | succ n => rfl

/-- A delta export that is stepped to its end dumps the valid entries of its groups. -/
theorem export_groups (hfile : bin.keyFileSize ≤ bin.keys.size) (n : Nat) :
    ∀ exp : CkptExport, exp.dirtyPages.length < n → 0 < exp.batchEntries →
      (exp.uring = true → exp.batchEntries < 2 ^ 29) → Resting exp → exp.type = .delta →
      exp.scanDone = false →
      ∃ fuel exp', exportUntilDone bin fuel exp = some exp' ∧
        dumped exp' = dumped exp ++ (deltaGroups bin.geom.entriesPerPage exp.snapshotBump
          exp.batchEntries n exp.dirtyPages).flatMap
            (groupOps bin exp.snapshotBump exp.batchEntries) := by
  induction n with
  | zero => exact fun exp h => absurd h (Nat.not_lt_zero _)
  | succ n ih =>
    intro exp hlen hbatch hring hr ht hs
    obtain ⟨exp1,hidle,hr1,hsame1,hpages1,hdump1⟩ := idle_delta bin hr ht hs
    obtain ⟨taken,left,htl⟩ : ∃ taken left, gatherPages bin.geom.entriesPerPage exp.snapshotBump
      exp.batchEntries 0 exp.dirtyPages = (taken,left) := ⟨_,_,rfl⟩
    obtain ⟨start,count,hsc⟩ : ∃ start count, gatheredKeys bin.geom.entriesPerPage
      exp.snapshotBump exp.batchEntries taken = (start,count) := ⟨_,_,rfl⟩
    have hcount : count ≤ exp.batchEntries := by
      rw [show count = (gatheredKeys bin.geom.entriesPerPage exp.snapshotBump
        exp.batchEntries taken).2 by rw [hsc]]
      exact Nat.min_le_right _ _
    have hstep : idleDelta bin exp1 = if start = 2 ^ 32 - 1
        then ({ exp1 with dirtyPages := left, scanDone := true },.ok)
        else ({ readKeyBatch bin exp1 start count with
          dirtyPages := left, scanDone := left = [] },.again) := by
      rw [idleDelta,hsame1.snapshotBump,hsame1.batchEntries,hpages1,
        Nat.mod_eq_of_lt (entriesPerPage_lt _),htl]
      simp only [hsc]
    have hgroups : deltaGroups bin.geom.entriesPerPage exp.snapshotBump exp.batchEntries (n + 1)
        exp.dirtyPages = if start = 2 ^ 32 - 1 then [] else taken ::
          deltaGroups bin.geom.entriesPerPage exp.snapshotBump exp.batchEntries n left := by
      rw [deltaGroups,htl]
      simp only [hsc]
    have hops : groupOps bin exp.snapshotBump exp.batchEntries taken =
        rangeOps bin exp.batchEntries start count := by
      rw [groupOps,hsc]
    rw [hstep] at hidle
    rw [hgroups]
    by_cases hend : start = 2 ^ 32 - 1
    · rw [if_pos hend] at hidle ⊢
      refine ⟨1,_,by rw [exportUntilDone,hidle],?_⟩
      rw [flatMap_nil,append_nil,dumped,dumped,← hdump1]
    · rw [if_neg hend] at hidle ⊢
      obtain ⟨buf,hbatchRead,hbuf⟩ := performed_readKeyBatch exp1 start count hfile
        (fun hu => Nat.lt_of_le_of_lt hcount
          (hring (hsame1.uring.symm.trans hu))) hr1.pending
      obtain ⟨exp2,hexp2⟩ : ∃ exp2 : CkptExport, exp2 = { exp1 with
        keyBatchStart := start, keyBatchCount := count, keyBatchBuf := buf, phase := .keyRead
        dirtyPages := left, scanDone := left = [] } := ⟨_,rfl⟩
      have hperf : performReads bin { readKeyBatch bin exp1 start count with
          dirtyPages := left, scanDone := left = [] } = exp2 := by
        rw [performReads_scan,hbatchRead,hexp2]
      obtain ⟨k,exp3,hfin,hr3,hsame3,hpages3,hscan3,hdump3⟩ := finish_batch hperf
        (by rw [hexp2])
      have hvalid : validEntries exp2 = rangeOps bin exp.batchEntries start count := by
        rw [validEntries_eq bin (by rw [hexp2]; exact hbuf),hexp2,hsame1.batchEntries]
      have hdumped : dumped exp3 = dumped exp ++
          groupOps bin exp.snapshotBump exp.batchEntries taken := by
        rw [hdump3,hvalid,hops,hexp2,dumped,dumped,← hdump1]
      have hleft : exp3.dirtyPages = left := by rw [hpages3,hexp2]
      have hrun : ∀ fuel, exportUntilDone bin (fuel + k + 1) exp =
          if left = [] then some exp3 else exportUntilDone bin fuel exp3 := by
        intro fuel
        rw [exportUntilDone,hidle]
        simp only
        rw [hfin fuel,hexp2]
        simp only [decide_eq_true_eq]
      by_cases hnil : left = []
      · refine ⟨0 + k + 1,exp3,by rw [hrun,if_pos hnil],?_⟩
        rw [hdumped,hnil,deltaGroups_nil,flatMap_cons,flatMap_nil,append_nil]
      · have hsplit := gatherPages_append bin.geom.entriesPerPage exp.snapshotBump
          exp.batchEntries exp.dirtyPages 0
        have hne : exp.dirtyPages ≠ [] := by
          intro h0
          rw [h0] at htl
          cases htl
          exact hnil rfl
        have hshort : left.length < n := by
          obtain ⟨pg,rest,hcons⟩ := exists_cons_of_ne_nil hne
          obtain ⟨more,hmore⟩ := gatherPages_cons bin.geom.entriesPerPage
            exp.snapshotBump hbatch pg rest
          rw [← hcons,htl] at hmore
          rw [htl,hmore] at hsplit
          have := congrArg List.length hsplit
          simp only [length_append,length_cons] at this
          omega
        have hbatch3 : exp3.batchEntries = exp.batchEntries := by
          rw [hsame3.batchEntries,hexp2,hsame1.batchEntries]
        have hbump3 : exp3.snapshotBump = exp.snapshotBump := by
          rw [hsame3.snapshotBump,hexp2,hsame1.snapshotBump]
        obtain ⟨fuel,exp',hdone,hdump⟩ := ih exp3 (by rw [hleft]; exact hshort)
          (by rw [hbatch3]; exact hbatch)
          (by rw [hbatch3,hsame3.uring,hexp2,hsame1.uring]; exact hring) hr3
          (by rw [hsame3.type,hexp2,hsame1.type]; exact ht)
          (by rw [hscan3,hexp2]; simp [hnil])
        refine ⟨fuel + k + 1,exp',by rw [hrun,if_neg hnil]; exact hdone,?_⟩
        rw [hdump,hdumped,hbatch3,hbump3,hleft,flatMap_cons,append_assoc]

end Scan

end Gravel.Proofs.DeltaExport
