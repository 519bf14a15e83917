import Gravel.Proofs.HashIndex
import Gravel.Proofs.PutBatch

namespace Gravel.Proofs.BinRun
open File PageMap FlushCleanup PageBytes FlushPages DirtySet PutPage PutBatch List Option

section Frames

variable {s s' : DimBin} {n e : Nat} {f : UInt64} {rc : Status} {entries : List EmbWriteEntry}

theorem extend_zero {α : Type} [Zero α] (f : File α) : f.extend 0 = f :=
  File.ext (by simp [extend]) rfl

theorem reserveData_eq (s : DimBin) (required : Nat) :
    ∃ n, reserveData s required = { s with
      data := s.data.extend n, dataFileSize := (reserveData s required).dataFileSize } := by
  unfold reserveData
  split_ifs
  · exact ⟨_,rfl⟩
  · exact ⟨0,by rw [extend_zero]⟩

theorem reserveKeys_eq (s : DimBin) (required : Nat) :
    ∃ n, reserveKeys s required = { s with
      keys := s.keys.extend n, keyFileSize := (reserveKeys s required).keyFileSize } := by
  simp only [reserveKeys]
  split_ifs
  · exact ⟨_,rfl⟩
  · exact ⟨0,by rw [extend_zero]⟩

theorem growData_eq (s : DimBin) (required : Nat) :
    ∃ n, growData s required = { s with
      data := s.data.extend n, dataFileSize := (growData s required).dataFileSize } := by
  simp only [growData]
  by_cases h : s.dataFileSize < required
  · simp only [if_pos h]
    exact ⟨_,rfl⟩
  · simp only [if_neg h]
    exact ⟨0,by rw [extend_zero]⟩

theorem growKeys_eq (s : DimBin) (required : Nat) :
    growKeys s required = { s with
      keys := (growKeys s required).keys
      keyFileSize := (growKeys s required).keyFileSize } := by
  simp only [growKeys]
  by_cases h : s.keyFileSize < required
  · simp only [if_pos h]
  · simp only [if_neg h]

theorem dimbinReserve_eq (s : DimBin) (n : Nat) :
    ∃ a b, dimbinReserve s n = { s with
      data := s.data.extend a, dataFileSize := (dimbinReserve s n).dataFileSize
      keys := s.keys.extend b, keyFileSize := (dimbinReserve s n).keyFileSize } := by
  obtain ⟨a,ha⟩ := reserveData_eq s ((s.bumpPtr + n) * s.geom.entrySize)
  obtain ⟨b,hb⟩ := reserveKeys_eq (reserveData s ((s.bumpPtr + n) * s.geom.entrySize))
    (s.bumpPtr + n)
  refine ⟨a,b,?_⟩
  simp only [dimbinReserve]
  rw [hb,ha]

theorem dimbinAllocEntry_eq (s : DimBin) :
    ∃ a, (dimbinAllocEntry s).1 = { s with
      data := s.data.extend a, dataFileSize := (dimbinAllocEntry s).1.dataFileSize
      keys := (dimbinAllocEntry s).1.keys, keyFileSize := (dimbinAllocEntry s).1.keyFileSize
      bumpPtr := (dimbinAllocEntry s).1.bumpPtr, freeList := (dimbinAllocEntry s).1.freeList } := by
  unfold dimbinAllocEntry
  cases hf : s.freeList with
  | cons e rest => exact ⟨0,by simp [extend_zero]⟩
  | nil =>
    simp only
    obtain ⟨a,ha⟩ := growData_eq { s with bumpPtr := s.bumpPtr + 1, freeList := [] }
      ((s.bumpPtr % 2 ^ 32 + 1) % 2 ^ 32 * s.geom.entrySize)
    refine ⟨a,?_⟩
    rw [growKeys_eq,ha]

theorem dimbinBufKey_eq (h : dimbinBufKey s e f = some s') :
    s' = { s with keys := s'.keys, keyBuf := s'.keyBuf } := by
  obtain ⟨keyBuf,_,hs⟩ := bind_eq_some_iff.mp h
  cases hs
  split_ifs
  · rw [dimbinFlushKeys_eq s]
  · rfl

theorem dimbinFreeEntry_eq (h : dimbinFreeEntry s e = some s') :
    s' = { s with keys := s'.keys, keyBuf := s'.keyBuf, freeList := e :: s.freeList } :=
  dimbinBufKey_eq h

theorem freeEntries_eq {l : List Nat} (h : freeEntries s l = some s') :
    s' = { s with keys := s'.keys, keyBuf := s'.keyBuf, freeList := l.reverse ++ s.freeList } := by
  induction l generalizing s with
  | nil =>
    cases h
    rfl
  | cons e rest ih =>
    obtain ⟨s1,hfree,hrest⟩ := bind_eq_some_iff.mp h
    rw [ih hrest,dimbinFreeEntry_eq hfree]
    simp

theorem putOverlay_eq (h : putOverlay s entries = some (s',rc)) :
    s' = { s with overlay := s'.overlay } := by
  induction entries generalizing s with
  | nil =>
    cases h
    rfl
  | cons w rest ih =>
    rw [putOverlay] at h
    split_ifs at h
    · cases h
      rfl
    · obtain ⟨⟨overlay,rc'⟩,_,h⟩ := bind_eq_some_iff.mp h
      simp only at h
      split_ifs at h
      · rw [ih h]
      · cases h
        rfl

end Frames

/-- A bin between two operations, whose write buffer holds up to `m` pages. -/
structure BinInv (m : Nat) (s : DimBin) : Prop where
  buf : BufInv s.writeBuf s.nextAddr
  tracker : TrackerInv s.dirty
  limit : s.writeBuf.maxPages = m
  bound : m < 2 ^ 28

section Steps

variable {s s' : DimBin} {m : Nat} {rc : Status} {entries : List EmbWriteEntry} {g : Geometry}
  {bufferSize : Nat}

theorem BinInv.small (h : BinInv m s) : s.writeBuf.maxPages < 2 ^ 28 := by
  rw [h.limit]
  exact h.bound

theorem BinInv.congr (h : BinInv m s) (hw : s'.writeBuf = s.writeBuf)
    (hn : s'.nextAddr = s.nextAddr) (hd : s'.dirty = s.dirty) : BinInv m s' :=
  ⟨by rw [hw,hn]; exact h.buf,by rw [hd]; exact h.tracker,by rw [hw]; exact h.limit,h.bound⟩

theorem dimbinInit_total (hmax : writeMax g bufferSize < 2 ^ 28) (data : File UInt8)
    (keys : File UInt64) : ∃ s, dimbinInit g bufferSize data keys = some s ∧ s.geom = g := by
  have hle : writeMax g bufferSize * 2 ≤ 2 ^ 31 := by omega
  obtain ⟨cap,hcap⟩ := HashIndex.roundCapacity_total hle 34 6 (by omega) (by omega)
  have hround : roundCapacity (writeMax g bufferSize * 2) 34 64 = some cap := hcap
  simp [dimbinInit,hround]

theorem dimbinInit_inv {data : File UInt8} {keys : File UInt64}
    (h : dimbinInit g bufferSize data keys = some s) (hmax : writeMax g bufferSize < 2 ^ 28) :
    BinInv (writeMax g bufferSize) s := by
  obtain ⟨cap,hround,hs⟩ := bind_eq_some_iff.mp h
  cases hs
  obtain ⟨hpow,hle,hub,_⟩ := HashIndex.roundCapacity_spec 34 6 (by omega) hround
  have hpos : 0 < writeMax g bufferSize := by
    unfold writeMax
    split_ifs with h0
    · decide
    · exact Nat.pos_of_ne_zero h0
  refine ⟨⟨?_,?_,hpos,?_,?_,?_⟩,TrackerInv.init _,rfl,hmax⟩
  · refine sound_of_probed hpow (LinearProbe.pow_two_pos hpow) (by simp [liveSlots_empty]) ?_ ?_
    · have : pageAt (fun _ => emptySlot) = fun _ => none := by
        funext i
        simp [emptySlot]
      simp only [this]
      exact LinearProbe.probed_empty
    · simp [heldBufs,liveSlots_empty]
  · exact Nat.zero_le _
  · simp only
    omega
  · simp only
    omega
  · simp [heldBufs,liveSlots_empty]

theorem BinInv.flush (h : BinInv m s) (hf : dimbinFlush s = some s') : BinInv m s' := by
  obtain ⟨data,wb,heq,hflush⟩ := dimbinFlush_spec h.buf.sound
  rw [hf] at heq
  have hs := Option.some.inj heq
  rw [dimbinFlushKeys_eq s] at hs
  refine ⟨?_,?_,?_,h.bound⟩
  · rw [hs]
    exact hflush.bufInv h.buf
  · rw [hs]
    exact h.tracker
  · rw [hs]
    have hmax : wb.maxPages = s.writeBuf.maxPages := hflush.cleaned.maxPages
    simp only [hmax]
    exact h.limit

theorem BinInv.pagesRun {groups : List (Nat × List EmbWriteEntry)} (h : BinInv m s)
    (hr : PagesRun s groups s') : BinInv m s' := by
  obtain ⟨hb,ht⟩ := hr.inv h.buf h.tracker
  exact ⟨hb,ht,by rw [hr.batchFrame.maxPages]; exact h.limit,h.bound⟩

theorem BinInv.putBatch (h : BinInv m s) (hp : dimbinPutBatch s entries = some (s',rc)) :
    BinInv m s' := by
  rw [dimbinPutBatch] at hp
  split_ifs at hp
  · cases hp
    exact h
  · have := putOverlay_eq hp
    exact h.congr (by rw [this]) (by rw [this]) (by rw [this])
  · obtain ⟨s1,hput,hs⟩ := bind_eq_some_iff.mp hp
    have hinv := h.pagesRun (putPages_run h.buf h.tracker h.small hput)
    cases hs
    split_ifs
    · exact hinv.congr rfl rfl rfl
    · exact hinv

theorem dimbinPutBatch_safe (h : BinInv m s) (hck : s.inCheckpoint = false)
    (hs : PutSafe s (pageGroups s.geom entries)) :
    ∃ s', dimbinPutBatch s entries = some (s',.ok) ∧ BatchFrame s s' ∧ BinInv m s' ∧
      (∀ p, Covered s p ∨ (∃ w ∈ entries, s.geom.pageOf w.entryId = p) → Covered s' p) ∧
      ∀ e, Allocated s e → ∀ i < s.geom.entrySize,
        entryByte s' e i = (lastWrite e entries).getD (entryByte s e) i := by
  by_cases hnil : entries = []
  · subst hnil
    exact ⟨s,rfl,.refl s,h,by simp,fun _ _ _ _ => rfl⟩
  · obtain ⟨s1,hput,hrun,hcovered,hbytes⟩ := hs.run h.buf h.tracker h.small
      (groupPages_page s.geom _)
    have h1 := h.pagesRun hrun
    have hfr := hrun.batchFrame
    refine ⟨if dimbinShouldFlush s1 then { s1 with flushNeeded := true } else s1,?_,?_,?_,?_,?_⟩
    · simp [dimbinPutBatch,hnil,hck,hput]
    · split_ifs
      · exact hfr.trans ⟨rfl,.inl ⟨rfl,rfl⟩,rfl⟩
      · exact hfr
    · split_ifs
      · exact h1.congr rfl rfl rfl
      · exact h1
    · intro p hp
      have hcov : Covered s1 p := by
        apply hcovered
        rcases hp with hp | ⟨w,hw,rfl⟩
        · exact .inr hp
        · exact .inl (mem_pageGroups hw)
      split_ifs
      · exact hcov
      · exact hcov
    · intro e he i hi
      have := hbytes e he i hi
      rw [lastWrite_pageGroups] at this
      rw [← this]
      split_ifs <;> rfl

theorem BinInv.replayChunks {fuel : Nat} (h : BinInv m s)
    (hr : replayChunks s fuel entries = some s') : BinInv m s' := by
  induction fuel generalizing s entries with
  | zero =>
    cases hr
    exact h
  | succ fuel ih =>
    rw [Gravel.replayChunks] at hr
    split_ifs at hr
    · cases hr
      exact h
    · obtain ⟨⟨s1,rc⟩,hput,hrest⟩ := bind_eq_some_iff.mp hr
      exact ih (h.putBatch hput) hrest

theorem BinInv.checkpointBegin {pools : Nat} (h : BinInv m s)
    (hb : dimbinCheckpointBegin pools s = some s') : BinInv m s' := by
  obtain ⟨s1,hflush,hs⟩ := bind_eq_some_iff.mp hb
  have h1 := h.flush hflush
  cases hs
  exact ⟨h1.buf,h1.tracker.swap,h1.limit,h.bound⟩

theorem BinInv.checkpointEnd (h : BinInv m s) (he : dimbinCheckpointEnd s = some s') :
    BinInv m s' := by
  obtain ⟨s1,hreplay,hrest⟩ := bind_eq_some_iff.mp he
  obtain ⟨s2,hfree,hs⟩ := bind_eq_some_iff.mp hrest
  have h₀ : BinInv m { s with inCheckpoint := false } := h.congr rfl rfl rfl
  have h1 := h₀.replayChunks hreplay
  have hf := freeEntries_eq hfree
  cases hs
  exact h1.congr (by rw [hf]) (by rw [hf]) (by rw [hf])

theorem flushKeyPhase_eq (s : DimBin) :
    flushKeyPhase s = { s with
      keys := (flushKeyPhase s).keys, keyBuf := (flushKeyPhase s).keyBuf
      flushNeeded := (flushKeyPhase s).flushNeeded } := by
  unfold flushKeyPhase
  split_ifs
  · rfl
  · rw [dimbinFlushKeys_eq s]

theorem flushWritePhase_eq (h : flushWritePhase s = some s') :
    s' = { s with
      data := s'.data
      writeBuf := { s.writeBuf with flushBytes := s'.writeBuf.flushBytes } } := by
  rw [flushWritePhase] at h
  split_ifs at h
  · cases h
    rfl
  · obtain ⟨data,_,hs⟩ := bind_eq_some_iff.mp h
    cases hs
    rfl

theorem BinInv.writePhase (h : BinInv m s) (hw : flushWritePhase s = some s') : BinInv m s' := by
  rw [flushWritePhase_eq hw]
  exact ⟨⟨sound_flushBytes h.buf.sound,h.buf.limit,h.buf.positive,h.buf.roomy,h.buf.snug,
    h.buf.fresh⟩,h.tracker,h.limit,h.bound⟩

theorem flushCleanPhase_spec (hs : Sound s.writeBuf) :
    ∃ wb, flushCleanPhase s = some { s with writeBuf := wb } ∧
      Cleaned s.writeBuf (collectPages maxFlushBatch s.writeBuf) wb ∧
      (s.writeBuf.count ≤ maxFlushBatch ∨
          ChainsClear s.writeBuf (collectPages maxFlushBatch s.writeBuf) →
        Lossless s.writeBuf (collectPages maxFlushBatch s.writeBuf) wb) := by
  have hperm : (collectPages maxFlushBatch s.writeBuf).Perm
      (collectPages maxFlushBatch s.writeBuf) := List.Perm.refl _
  have hlen := batch_length hs hperm
  by_cases hc : s.writeBuf.count = 0
  · have hnil : collectPages maxFlushBatch s.writeBuf = [] := by
      rw [hc,Nat.min_zero] at hlen
      exact eq_nil_of_length_eq_zero hlen
    refine ⟨s.writeBuf,by simp [flushCleanPhase,hc],?_,fun _ => ?_⟩
    · rw [hnil]
      exact ⟨hs,rfl,rfl,rfl,fun _ h => h,by simp,List.Subperm.refl _⟩
    · rw [hnil]
      exact ⟨by simp,List.Perm.refl _⟩
  · obtain ⟨wb,hclean,hcl,hloss⟩ := cleanup_cleaned hs (batch_collect hs hperm)
    refine ⟨wb,by simp [flushCleanPhase,hc,hclean],hcl,?_⟩
    rintro (hle | hch)
    · exact hloss (.inl (by omega))
    · exact hloss (.inr hch)

theorem Cleaned.bufInv {wb wb' : WriteBuffer} {pages : List Nat} {next : Nat}
    (hc : Cleaned wb pages wb') (h : BufInv wb next) : BufInv wb' next := by
  have hcount := hc.shrunk
  have hlimit := h.limit
  refine ⟨hc.sound,by rw [hc.maxPages]; omega,by rw [hc.maxPages]; exact h.positive,?_,?_,?_⟩
  · rw [hc.maxPages,hc.capacity]
    exact h.roomy
  · rw [hc.maxPages,hc.capacity]
    exact h.snug
  · intro a ha
    exact h.fresh a (hc.addrs.subset ha)

theorem BinInv.cleanPhase (h : BinInv m s) (hw : flushCleanPhase s = some s') : BinInv m s' := by
  obtain ⟨wb,heq,hcl,_⟩ := flushCleanPhase_spec h.buf.sound
  rw [hw] at heq
  rw [Option.some.inj heq]
  exact ⟨Cleaned.bufInv hcl h.buf,h.tracker,by simp only [hcl.maxPages]; exact h.limit,h.bound⟩

end Steps

inductive BinOp where
  | reserve (count : Nat)
  | alloc
  | bufKey (entryIdx : Nat) (featId : UInt64)
  | free (entryIdx : Nat)
  | putBatch (entries : List EmbWriteEntry)
  | flush
  | flushKeyPhase
  | flushWritePhase
  | flushCleanPhase
  | checkpointBegin (pools : Nat)
  | checkpointEnd
  | overlayGet (entryIdx : Nat)
  | tombstone (entryIdx : Nat)

def applyBin (s : DimBin) : BinOp → Option DimBin
  | .reserve count => some (dimbinReserve s count)
  | .alloc => some (dimbinAllocEntry s).1
  | .bufKey e f => dimbinBufKey s e f
  | .free e => dimbinFreeEntry s e
  | .putBatch entries => (dimbinPutBatch s entries).map Prod.fst
  | .flush => dimbinFlush s
  | .flushKeyPhase => some (flushKeyPhase s)
  | .flushWritePhase => flushWritePhase s
  | .flushCleanPhase => flushCleanPhase s
  | .checkpointBegin pools => dimbinCheckpointBegin pools s
  | .checkpointEnd => dimbinCheckpointEnd s
  | .overlayGet e => (overlayGet s.overlay e).map (fun r => { s with overlay := r.1 })
  | .tombstone e => some { s with overlay := overlayTombstone s.overlay e }

def runBin (s : DimBin) : List BinOp → Option DimBin
  | [] => some s
  | op :: rest => do
    let s ← applyBin s op
    runBin s rest

section Run

variable {s s' : DimBin} {m : Nat} {op : BinOp} {ops : List BinOp}

theorem BinInv.step (h : BinInv m s) (ha : applyBin s op = some s') : BinInv m s' := by
  cases op with
  | reserve count =>
    cases ha
    obtain ⟨_,_,heq⟩ := dimbinReserve_eq s count
    rw [heq]
    exact h.congr rfl rfl rfl
  | alloc =>
    cases ha
    obtain ⟨_,heq⟩ := dimbinAllocEntry_eq s
    rw [heq]
    exact h.congr rfl rfl rfl
  | bufKey e f =>
    rw [dimbinBufKey_eq ha]
    exact h.congr rfl rfl rfl
  | free e =>
    rw [dimbinFreeEntry_eq ha]
    exact h.congr rfl rfl rfl
  | putBatch entries =>
    obtain ⟨⟨s1,rc⟩,hput,rfl⟩ := map_eq_some_iff.mp ha
    exact h.putBatch hput
  | flush => exact h.flush ha
  | flushKeyPhase =>
    cases ha
    rw [flushKeyPhase_eq s]
    exact h.congr rfl rfl rfl
  | flushWritePhase => exact h.writePhase ha
  | flushCleanPhase => exact h.cleanPhase ha
  | checkpointBegin pools => exact h.checkpointBegin ha
  | checkpointEnd => exact h.checkpointEnd ha
  | overlayGet e =>
    obtain ⟨r,_,rfl⟩ := map_eq_some_iff.mp ha
    exact h.congr rfl rfl rfl
  | tombstone e =>
    cases ha
    exact h.congr rfl rfl rfl

theorem BinInv.run (h : BinInv m s) (hr : runBin s ops = some s') : BinInv m s' := by
  induction ops generalizing s with
  | nil =>
    cases hr
    exact h
  | cons op rest ih =>
    obtain ⟨s1,ha,hrest⟩ := bind_eq_some_iff.mp hr
    exact ih (h.step ha) hrest

end Run

end Gravel.Proofs.BinRun
