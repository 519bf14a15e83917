import Gravel.Proofs.BinRun

namespace Gravel.Proofs.BinFrames
open File FlushPages BinRun Option

structure FrozenKept (s s' : DimBin) : Prop where
  ckpt : s'.dirty.ckpt = s.dirty.ckpt
  capacity : s.dirty.capacity ≤ s'.dirty.capacity

theorem FrozenKept.of_eq {s s' : DimBin} (h : s'.dirty = s.dirty) : FrozenKept s s' :=
  ⟨by rw [h],by rw [h]⟩

theorem FrozenKept.trans {s s' s'' : DimBin} (h : FrozenKept s s') (h' : FrozenKept s' s'') :
    FrozenKept s s'' := ⟨h'.ckpt.trans h.ckpt,Nat.le_trans h.capacity h'.capacity⟩

structure Churn (s s' : DimBin) : Prop where
  frame : s' = { s with
    keys := s'.keys, keyBuf := s'.keyBuf, flushNeeded := s'.flushNeeded
    data := s'.data, writeBuf := s'.writeBuf, nextAddr := s'.nextAddr, dirty := s'.dirty }
  keys : KeysFlushed s s'
  size : s.data.size ≤ s'.data.size
  frozen : FrozenKept s s'

section Churns

variable {s s' s'' : DimBin} {pageSize : Nat} {data data' : File UInt8} {wb : WriteBuffer}

theorem Churn.refl (s : DimBin) : Churn s s := ⟨rfl,.refl s,Nat.le_refl _,.of_eq rfl⟩

theorem Churn.trans (h : Churn s s') (h' : Churn s' s'') : Churn s s'' := by
  refine ⟨?_,h.keys.trans (by rw [h.frame]) h'.keys,Nat.le_trans h.size h'.size,
    h.frozen.trans h'.frozen⟩
  rw [h'.frame,h.frame]

theorem size_writev {off : Nat} {iov : List PageBuf} :
    data.size ≤ (writev pageSize data off iov).size := by
  induction iov generalizing data off with
  | nil => exact Nat.le_refl _
  | cons buf rest ih => exact Nat.le_trans size_le_write ih

theorem size_writePlan {chunks : List (List Nat)}
    (h : writePlan pageSize wb data chunks = some data') : data.size ≤ data'.size := by
  induction chunks generalizing data with
  | nil =>
    cases h
    exact Nat.le_refl _
  | cons chunk rest ih =>
    obtain ⟨iov,_,hrest⟩ := bind_eq_some_iff.mp h
    exact Nat.le_trans size_writev (ih hrest)

theorem size_writePages {pages : List Nat} (h : writePages pageSize wb data pages = some data') :
    data.size ≤ data'.size := by
  induction pages generalizing data with
  | nil =>
    cases h
    exact Nat.le_refl _
  | cons pg rest ih =>
    obtain ⟨buf,_,hrest⟩ := bind_eq_some_iff.mp h
    cases buf with
    | none => exact ih hrest
    | some buf => exact Nat.le_trans size_le_write (ih hrest)

theorem flushKeys_churn (s : DimBin) {b : Bool} :
    Churn s { dimbinFlushKeys s with flushNeeded := b } := by
  have heq := dimbinFlushKeys_eq s
  refine ⟨?_,.inr ⟨rfl,rfl⟩,?_,.of_eq ?_⟩
  · rw [heq]
  · rw [heq]
  · rw [heq]

theorem dimbinFlush_churn (h : dimbinFlush s = some s') : Churn s s' := by
  have hkeys : Churn s { dimbinFlushKeys s with flushNeeded := false } := flushKeys_churn s
  unfold dimbinFlush at h
  simp only at h
  split_ifs at h
  · cases h
    exact hkeys
  · cases h
    exact hkeys
  · obtain ⟨data,hplan,h⟩ := bind_eq_some_iff.mp h
    obtain ⟨wb,hclean,h⟩ := bind_eq_some_iff.mp h
    cases h
    exact hkeys.trans ⟨rfl,.inl ⟨rfl,rfl⟩,size_writePlan hplan,.of_eq rfl⟩

theorem flushKeyPhase_churn (s : DimBin) : Churn s (flushKeyPhase s) := by
  unfold flushKeyPhase
  split_ifs
  · exact .refl s
  · exact flushKeys_churn s

theorem flushWritePhase_churn (h : flushWritePhase s = some s') : Churn s s' := by
  rw [flushWritePhase] at h
  split_ifs at h
  · cases h
    exact .refl s
  · obtain ⟨data,hdata,h⟩ := bind_eq_some_iff.mp h
    cases h
    exact ⟨rfl,.inl ⟨rfl,rfl⟩,size_writePages hdata,.of_eq rfl⟩

theorem flushCleanPhase_churn (h : flushCleanPhase s = some s') : Churn s s' := by
  rw [flushCleanPhase] at h
  split_ifs at h
  · cases h
    exact .refl s
  · obtain ⟨wb,_,h⟩ := bind_eq_some_iff.mp h
    cases h
    exact ⟨rfl,.inl ⟨rfl,rfl⟩,Nat.le_refl _,.of_eq rfl⟩

end Churns

section Pages

variable {s s' : DimBin} {pageId idx : Nat} {entries : List EmbWriteEntry} {rc : Status}

theorem makeRoom_churn (h : makeRoom s = some s') : Churn s s' := by
  unfold makeRoom at h
  split_ifs at h
  · exact dimbinFlush_churn h
  · cases h
    exact .refl s

theorem insertPage_churn (s : DimBin) (idx pageId : Nat) : Churn s (insertPage s idx pageId) := by
  unfold insertPage writeBufAcquirePage
  cases s.writeBuf.pagePool with
  | nil => exact ⟨rfl,.inl ⟨rfl,rfl⟩,Nat.le_refl _,.of_eq rfl⟩
  | cons buf rest => exact ⟨rfl,.inl ⟨rfl,rfl⟩,Nat.le_refl _,.of_eq rfl⟩

theorem writeBufEnsurePage_churn (h : writeBufEnsurePage s pageId = some (s',idx)) :
    Churn s s' := by
  unfold writeBufEnsurePage at h
  split_ifs at h
  obtain ⟨i,_,h⟩ := bind_eq_some_iff.mp h
  split_ifs at h
  · cases h
    exact .refl s
  · obtain ⟨s1,hroom,h⟩ := bind_eq_some_iff.mp h
    obtain ⟨wb,_,h⟩ := bind_eq_some_iff.mp h
    obtain ⟨j,_,h⟩ := bind_eq_some_iff.mp h
    cases h
    have hgrow : Churn s1 { s1 with writeBuf := wb } := ⟨rfl,.inl ⟨rfl,rfl⟩,Nat.le_refl _,.of_eq rfl⟩
    exact (makeRoom_churn hroom).trans (hgrow.trans (insertPage_churn _ _ _))

theorem ensureTracker_frozen (s : DimBin) (pageId : Nat) :
    FrozenKept s { s with dirty := ensureTracker s.dirty pageId } := by
  unfold ensureTracker dirtyTrackerResize
  split_ifs with h h'
  · exact .of_eq rfl
  · exact ⟨rfl,by simp only; omega⟩
  · exact .of_eq rfl

theorem putPage_churn (h : putPage s pageId entries = some s') : Churn s s' := by
  obtain ⟨⟨s1,i⟩,hensure,h⟩ := bind_eq_some_iff.mp h
  have htrack : Churn s { s with dirty := ensureTracker s.dirty pageId } :=
    ⟨rfl,.inl ⟨rfl,rfl⟩,Nat.le_refl _,ensureTracker_frozen s pageId⟩
  have h1 := htrack.trans (writeBufEnsurePage_churn hensure)
  simp only at h
  split_ifs at h
  obtain ⟨dirty,hmark,h⟩ := bind_eq_some_iff.mp h
  cases h
  obtain ⟨active,_,hmark⟩ := bind_eq_some_iff.mp hmark
  cases hmark
  exact h1.trans ⟨rfl,.inl ⟨rfl,rfl⟩,Nat.le_refl _,rfl,Nat.le_refl _⟩

theorem putPages_churn {groups : List (Nat × List EmbWriteEntry)}
    (h : putPages s groups = some s') : Churn s s' := by
  induction groups generalizing s with
  | nil =>
    cases h
    exact .refl _
  | cons group rest ih =>
    obtain ⟨s1,hput,h⟩ := bind_eq_some_iff.mp h
    exact (putPage_churn hput).trans (ih h)

theorem putBatch_churn (hck : s.inCheckpoint = false)
    (h : dimbinPutBatch s entries = some (s',rc)) : Churn s s' := by
  unfold dimbinPutBatch at h
  rw [hck] at h
  split_ifs at h
  · cases h
    exact .refl s
  · contradiction
  · obtain ⟨s1,hput,h⟩ := bind_eq_some_iff.mp h
    cases h
    refine (putPages_churn hput).trans ?_
    split_ifs
    · exact ⟨rfl,.inl ⟨rfl,rfl⟩,Nat.le_refl _,.of_eq rfl⟩
    · exact .refl _

theorem replayChunks_churn {fuel : Nat} (hck : s.inCheckpoint = false)
    (h : replayChunks s fuel entries = some s') : Churn s s' := by
  induction fuel generalizing s entries with
  | zero =>
    cases h
    exact .refl _
  | succ fuel ih =>
    rw [replayChunks] at h
    split_ifs at h
    · cases h
      exact .refl _
    · obtain ⟨⟨s1,rc⟩,hput,h⟩ := bind_eq_some_iff.mp h
      have h1 := putBatch_churn hck hput
      exact h1.trans (ih (by rw [h1.frame]; exact hck) h)

end Pages

structure SameSlots (s s' : DimBin) : Prop where
  bump : s'.bumpPtr = s.bumpPtr
  free : s'.freeList = s.freeList
  tombstones : s'.overlay.tombstones = s.overlay.tombstones
  inCheckpoint : s'.inCheckpoint = s.inCheckpoint

section Slots

variable {s s' s'' : DimBin} {entries : List EmbWriteEntry} {rc : Status} {e : Nat} {f : UInt64}

theorem SameSlots.refl (s : DimBin) : SameSlots s s := ⟨rfl,rfl,rfl,rfl⟩

theorem Churn.sameSlots (h : Churn s s') : SameSlots s s' := by
  rw [h.frame]
  exact ⟨rfl,rfl,rfl,rfl⟩

theorem overlayPut_tombstones {served : Bool} {ob ob' : OverlayBuffer} {data : Nat → UInt8}
    {dim : Nat} (h : overlayPut served ob e data dim = some (ob',rc)) :
    ob'.tombstones = ob.tombstones := by
  obtain ⟨table,_,h⟩ := bind_eq_some_iff.mp h
  split_ifs at h
  · cases h
    rfl
  · cases h
    rfl
  · obtain ⟨table',_,h⟩ := bind_eq_some_iff.mp h
    cases h
    rfl

theorem putOverlay_tombstones (h : putOverlay s entries = some (s',rc)) :
    s'.overlay.tombstones = s.overlay.tombstones := by
  induction entries generalizing s with
  | nil =>
    cases h
    rfl
  | cons w rest ih =>
    rw [putOverlay] at h
    split_ifs at h
    · cases h
      rfl
    · obtain ⟨⟨overlay,rc'⟩,hput,h⟩ := bind_eq_some_iff.mp h
      have htomb := overlayPut_tombstones hput
      simp only at h
      split_ifs at h
      · exact (ih h).trans htomb
      · cases h
        exact htomb

theorem putBatch_sameSlots (h : dimbinPutBatch s entries = some (s',rc)) : SameSlots s s' := by
  rcases Bool.eq_false_or_eq_true s.inCheckpoint with hck | hck
  · unfold dimbinPutBatch at h
    rw [hck] at h
    split_ifs at h
    · cases h
      exact .refl s
    · have htomb := putOverlay_tombstones h
      have heq := putOverlay_eq h
      exact ⟨by rw [heq],by rw [heq],htomb,by rw [heq]⟩
    · contradiction
  · exact (putBatch_churn hck h).sameSlots

theorem bufKey_sameSlots (h : dimbinBufKey s e f = some s') : SameSlots s s' := by
  rw [dimbinBufKey_eq h]
  exact ⟨rfl,rfl,rfl,rfl⟩

theorem reserve_sameSlots (s : DimBin) (n : Nat) : SameSlots s (dimbinReserve s n) := by
  obtain ⟨a,b,heq⟩ := dimbinReserve_eq s n
  rw [heq]
  exact ⟨rfl,rfl,rfl,rfl⟩

theorem alloc_slots (h : dimbinAllocEntry s = (s',e)) :
    (∃ rest, s.freeList = e :: rest ∧ s' = { s with freeList := rest }) ∨
      (s.freeList = [] ∧ e = s.bumpPtr % 2 ^ 32 ∧
        SameSlots { s with bumpPtr := s.bumpPtr + 1 } s') := by
  unfold dimbinAllocEntry at h
  cases hfree : s.freeList with
  | cons x rest =>
    simp only [hfree] at h
    cases h
    exact .inl ⟨rest,rfl,rfl⟩
  | nil =>
    simp only [hfree] at h
    obtain ⟨hs',rfl⟩ := Prod.mk.inj h
    obtain ⟨a,ha⟩ := growData_eq { s with bumpPtr := s.bumpPtr + 1 }
      ((s.bumpPtr % 2 ^ 32 + 1) % 2 ^ 32 * s.geom.entrySize)
    rw [growKeys_eq,← hfree,ha] at hs'
    rw [← hs']
    exact .inr ⟨rfl,rfl,rfl,hfree,rfl,rfl⟩

/-- Tombstones lie on the free list after the end of a checkpoint, the last one on top. -/
theorem checkpointEnd_slots (h : dimbinCheckpointEnd s = some s') :
    s'.bumpPtr = s.bumpPtr ∧ s'.freeList = s.overlay.tombstones.reverse ++ s.freeList ∧
      s'.overlay.tombstones = [] ∧ s'.inCheckpoint = false := by
  obtain ⟨s1,hreplay,h⟩ := bind_eq_some_iff.mp h
  obtain ⟨s2,hfree,h⟩ := bind_eq_some_iff.mp h
  cases h
  have hsame := (replayChunks_churn rfl hreplay).sameSlots
  rw [freeEntries_eq hfree]
  refine ⟨hsame.bump,?_,rfl,hsame.inCheckpoint⟩
  simp only [hsame.tombstones,hsame.free]

theorem checkpointBegin_slots {pools : Nat} (h : dimbinCheckpointBegin pools s = some s') :
    s'.bumpPtr = s.bumpPtr ∧ s'.freeList = s.freeList ∧ s'.overlay.tombstones = [] ∧
      s'.inCheckpoint = true := by
  obtain ⟨s1,hflush,h⟩ := bind_eq_some_iff.mp h
  cases h
  have hsame := (dimbinFlush_churn hflush).sameSlots
  refine ⟨hsame.bump,hsame.free,?_,rfl⟩
  simp only [overlayCreate]
  split_ifs
  · rfl
  · rfl

end Slots

end Gravel.Proofs.BinFrames
