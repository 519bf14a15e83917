import Gravel.Model.Batch
import Gravel.Proofs.PutRoom

namespace Gravel.Proofs.BinEntries
open FlushCleanup FlushPages PageBytes PutPage PutBatch BinRun KeyBuffer OverlayMap PutRoom
  List Option Function

section Deletes

variable {s s' : DimBin} {m : OverlayVectors} {L : Entries} {e : Nat}

theorem BinRep.retire (h : BinRep s m L) (he : Owned s e) {tombs free : List Nat}
    (hperm : (tombs ++ free).Perm (e :: (s.overlay.tombstones ++ s.freeList)))
    (hck : s.inCheckpoint = false → tombs = s.overlay.tombstones) :
    BinRep { s with overlay := { s.overlay with tombstones := tombs }, freeList := free } m
      (update L e none) := by
  have hlive : ∀ x v, update L e none x = some v → x ≠ e ∧ L x = some v := by
    intro x v hv
    by_cases hx : x = e
    · simp [hx] at hv
    · exact ⟨hx,by simpa [hx] using hv⟩
  have hsome : ∀ x, (update L e none x).isSome → x ≠ e ∧ (L x).isSome := by
    intro x hx
    obtain ⟨v,hv⟩ := isSome_iff_exists.mp hx
    simp [hlive x v hv]
  refine ⟨h.inv.congr rfl rfl rfl,h.keys.congr rfl rfl rfl,h.fits,h.bump,h.small,
    hperm.nodup_iff.mpr (nodup_cons.mpr ⟨he.2,h.free⟩),?_,?_,h.budget,?_,
    fun x v hv => h.bytes x v (hlive x v hv).2,fun x hx => h.disk x (hsome x hx).2⟩
  · intro x hx
    rcases mem_cons.mp (hperm.mem_iff.mp hx) with rfl | hx
    · exact he.1
    · exact h.freed x hx
  · have hov := h.overlay
    unfold OverlayState at hov ⊢
    split_ifs at hov ⊢ with hin
    · exact ⟨hov.valid,hov.represents⟩
    · obtain rfl := hck (by simpa using hin)
      exact hov
  · intro x hx
    obtain ⟨hne,hL⟩ := hsome x hx
    refine ⟨(h.owned x hL).1,fun hm => ?_⟩
    exact (mem_cons.mp (hperm.mem_iff.mp hm)).elim hne (h.owned x hL).2

theorem BinRep.drop (h : BinRep s m L) (he : Owned s e) :
    ∃ s', dropEntry s e = some s' ∧ BinRep s' m (update L e none) ∧
      s' = { s with
        keys := s'.keys, keyBuf := s'.keyBuf, freeList := s'.freeList
        overlay := { s.overlay with tombstones := s'.overlay.tombstones } } ∧
      ∀ x ∉ s'.overlay.tombstones, x ∉ s.overlay.tombstones ∧
        keyAt s' x = if x = e then 0 else keyAt s x := by
  unfold dropEntry
  split_ifs with hck
  · have hperm : ((s.overlay.tombstones ++ [e]) ++ s.freeList).Perm
        (e :: (s.overlay.tombstones ++ s.freeList)) := by
      simp
    refine ⟨_,rfl,h.retire he hperm (by simp [hck]),rfl,fun x hx => ?_⟩
    obtain ⟨hx,hne⟩ : x ∉ s.overlay.tombstones ∧ x ≠ e := by simpa [overlayTombstone] using hx
    exact ⟨hx,(if_neg hne).symm⟩
  · obtain ⟨s',hbuf,heq,hrep,hkey⟩ := (h.retire he perm_middle (fun _ => rfl)).bufKey he.1 0
    refine ⟨s',hbuf,hrep,by rw [heq],fun x hx => ⟨?_,hkey x⟩⟩
    rw [heq] at hx
    exact hx

end Deletes

section Ends

variable {s s' : DimBin} {m : OverlayVectors} {L : Entries} {e : Nat}

theorem freeEntries_keys (l : List Nat) : ∀ s : DimBin, KeysInv s →
    (∀ e ∈ l, e < s.keyFileSize) → ∃ s', freeEntries s l = some s' ∧ KeysInv s' ∧
      ∀ x, keyAt s' x = if x ∈ l then 0 else keyAt s x := by
  induction l with
  | nil => exact fun s h _ => ⟨s,rfl,h,by simp⟩
  | cons e rest ih =>
    intro s h hl
    obtain ⟨s1,hbuf,h1,hkey1⟩ := dimbinBufKey_spec
      (s := { s with freeList := e :: s.freeList }) (h.congr rfl rfl rfl) (hl e mem_cons_self) 0
    have hsize : s1.keyFileSize = s.keyFileSize := by rw [dimbinBufKey_eq hbuf]
    obtain ⟨s',hfree,h',hkey⟩ := ih s1 h1
      (fun x hx => by rw [hsize]; exact hl x (mem_cons_of_mem _ hx))
    refine ⟨s',by simp only [freeEntries,dimbinFreeEntry,hbuf,bind_eq_bind,bind_some]; exact hfree,
      h',fun x => ?_⟩
    rw [hkey,hkey1]
    by_cases hx : x = e <;> simp [hx,keyAt]

theorem BinRep.replays (h : BinRep s m L) (e : Nat) :
    lastWrite e (replayEntries s.overlay) = m e := by
  cases hck : s.inCheckpoint with
  | true => exact lastWrite_replay (h.overlayRep hck) e
  | false =>
    obtain ⟨hover,rfl⟩ := h.no_overlay hck
    rw [hover]
    rfl

/-- The overlay holds nothing, or one chunk of vectors for which the pages have room. -/
def EndRoom (s : DimBin) : Prop :=
  (replayEntries s.overlay).length = 0 ∨
    (replayEntries s.overlay).length ≤ overlayReplayChunk ∧
      (∀ w ∈ replayEntries s.overlay, w.entryId < s.bumpPtr) ∧
      BufferRoom s ((replayEntries s.overlay).map EmbWriteEntry.entryId)
        (replayEntries s.overlay).length

theorem EndRoom.written (h : EndRoom s) (hrep : BinRep s m L) :
    ∃ s', replayChunks { s with inCheckpoint := false } (replayEntries s.overlay).length
        (replayEntries s.overlay) = some s' ∧
      Written { s with inCheckpoint := false } (replayEntries s.overlay) s' := by
  have hinv : BinInv s.writeBuf.maxPages { s with inCheckpoint := false } :=
    hrep.inv.congr rfl rfl rfl
  unfold EndRoom at h
  generalize replayEntries s.overlay = entries at h ⊢
  rcases h with hnil | ⟨hchunk,hbelow,hroom⟩
  · obtain rfl := eq_nil_of_length_eq_zero hnil
    exact ⟨_,rfl,⟨rfl,.refl _,rfl⟩,hinv,by simp,fun _ _ _ _ => rfl⟩
  · have hroom' : BufferRoom { s with inCheckpoint := false }
        (entries.map EmbWriteEntry.entryId) entries.length := hroom
    have hsafe := hroom'.putSafe (Allotted.refl _ []) hinv hrep.fits hrep.small
      (Nat.le_add_right _ _) (Nat.le_refl _) hbelow
      (fun e he => List.mem_map.mp (he.resolve_right not_mem_nil))
    obtain ⟨s',hput,hw⟩ := putBatch_written hinv rfl hsafe
    refine ⟨s',?_,hw⟩
    cases entries with
    | nil =>
      cases hput
      rfl
    | cons w rest =>
      rw [length_cons,replayChunks,if_neg (cons_ne_nil _ _),take_of_length_le hchunk,
        drop_eq_nil_of_le hchunk,hput]
      cases rest <;> rfl

theorem BinRep.released (h : BinRep s m L)
    (hw : Written { s with inCheckpoint := false } (replayEntries s.overlay) s') :
    BinRep { s' with
      overlay := overlayDestroyed
      freeList := s.overlay.tombstones.reverse ++ s.freeList } (fun _ => none) L ∧
      ∀ x, keyAt s' x = keyAt s x := by
  have hfr := hw.frame.frame
  have hbase : KeysInv { s with inCheckpoint := false } := h.keys.congr rfl rfl rfl
  obtain ⟨hkeys,hkey⟩ := keysFlushed_spec hbase hw.frame.keys (by rw [hfr])
  have hperm : (s.overlay.tombstones.reverse ++ s.freeList).Perm
      (s.overlay.tombstones ++ s.freeList) := (reverse_perm _).append_right _
  have hinv : BinInv s'.writeBuf.maxPages s' := by
    rw [hw.frame.maxPages]
    exact hw.inv
  refine ⟨⟨hinv.congr rfl rfl rfl,hkeys.congr rfl rfl rfl,by rw [hfr]; exact h.fits,
    by rw [hfr]; exact h.bump,by rw [hfr]; exact h.small,hperm.nodup_iff.mpr h.free,?_,?_,
    fun _ => rfl,?_,?_,?_⟩,hkey⟩
  · intro x hx
    rw [hfr]
    exact h.freed x (hperm.mem_iff.mp hx)
  · rw [OverlayState,if_neg (by rw [hfr]; simp)]
    exact ⟨rfl,rfl⟩
  · intro x hx
    rw [hfr]
    exact ⟨(h.owned x hx).1,fun hm => (h.owned x hx).2 (hperm.mem_iff.mp hm)⟩
  · intro x v hv i hi
    rw [hfr] at hi
    have hbytes := hw.bytes x (h.owned x (by simp [hv])).allocated i
      (Nat.lt_of_lt_of_le hi s.geom.vector_le)
    rw [h.replays] at hbytes
    exact hbytes.trans (h.bytes x v hv i hi)
  · intro x hx _
    have hcovered : Covered s' (s.geom.pageOf x) := by
      apply hw.covered
      cases hm : m x with
      | none => exact .inl (h.disk x hx hm)
      | some d =>
        obtain ⟨w,hwm,rfl⟩ := mem_of_lastWrite ((h.replays x).trans hm)
        exact .inr ⟨w,hwm,rfl⟩
    rw [← hw.frame.geom] at hcovered
    exact hcovered

theorem BinRep.checkpointEnd (h : BinRep s m L) (hroom : EndRoom s) :
    ∃ s', dimbinCheckpointEnd s = some s' ∧ BinRep s' (fun _ => none) L ∧
      s'.inCheckpoint = false ∧ s'.geom = s.geom ∧
      ∀ x, keyAt s' x = if x ∈ s.overlay.tombstones then 0 else keyAt s x := by
  obtain ⟨s1,hreplay,hw⟩ := hroom.written h
  obtain ⟨hrep,hkey1⟩ := h.released hw
  have hfr := hw.frame.frame
  have htomb : s1.overlay.tombstones = s.overlay.tombstones := by rw [hfr]
  have hbelow : ∀ e ∈ s.overlay.tombstones, e < s1.keyFileSize := by
    intro e he
    rw [hfr]
    exact Nat.lt_of_lt_of_le (h.freed e (mem_append_left _ he)) h.bump
  obtain ⟨s2,hfree,hkeys,hkey⟩ := freeEntries_keys _ s1 (hrep.keys.congr rfl rfl rfl) hbelow
  have heq := freeEntries_eq hfree
  have hs2 : { s2 with overlay := overlayDestroyed } = { s1 with
      overlay := overlayDestroyed, freeList := s.overlay.tombstones.reverse ++ s.freeList
      keys := s2.keys, keyBuf := s2.keyBuf } := by
    rw [heq,hfr]
  have hkeys2 : KeysInv { s2 with overlay := overlayDestroyed } := hkeys.congr rfl rfl rfl
  rw [hs2] at hkeys2
  refine ⟨{ s2 with overlay := overlayDestroyed },?_,by rw [hs2]; exact hrep.keyed hkeys2,
    by rw [hs2,hfr],by rw [hs2,hfr],fun x => (hkey x).trans (by rw [hkey1])⟩
  simp only [dimbinCheckpointEnd,hreplay,bind_eq_bind,bind_some,htomb,hfree]
  rfl

end Ends

section Flushes

variable {s : DimBin} {m : OverlayVectors} {L : Entries}

theorem flushPhases_written (h : BinInv s.writeBuf.maxPages s)
    (hfits : s.geom.entrySize ≤ s.geom.pageSize) (hone : s.writeBuf.count ≤ maxFlushBatch) :
    ∃ s1 s', flushWritePhase (flushKeyPhase s) = some s1 ∧ flushCleanPhase s1 = some s' ∧
      Written s [] s' := by
  have hfr := flushKeyPhase_eq s
  have hkeys : KeysFlushed s (flushKeyPhase s) := by
    unfold flushKeyPhase
    split_ifs
    · exact .refl s
    · exact .inr ⟨rfl,rfl⟩
  generalize flushKeyPhase s = s0 at hfr hkeys ⊢
  obtain ⟨hwb,hgeom,hdata⟩ : s0.writeBuf = s.writeBuf ∧ s0.geom = s.geom ∧ s0.data = s.data := by
    rw [hfr]
    exact ⟨rfl,rfl,rfl⟩
  by_cases hc : s.writeBuf.count = 0
  · refine ⟨s0,s0,by simp [flushWritePhase,hwb,hc],by simp [flushCleanPhase,hwb,hc],?_⟩
    have hfl : Flush s.geom.pageSize [] s.writeBuf s.data s0.writeBuf s0.data := by
      rw [hwb,hdata]
      exact Flush.refl h.buf.sound
    exact Flush.written h hfits hfl (.inl (by simp [hc])) (by rw [hfr]) hkeys
  · have hperm : (dimbinFlushPages maxFlushBatch s.writeBuf).Perm
        (collectPages maxFlushBatch s.writeBuf) := dimbinFlushPages_perm
    obtain ⟨data,hwrite,hpages⟩ := writePages_spec s.geom.pageSize h.buf.sound
      (dimbinFlushPages maxFlushBatch s.writeBuf)
      (fun p hp => collectPages_held (hperm.mem_iff.mp hp)) s.data
    obtain ⟨wb,hclean,hfl⟩ := flush_of_written h.buf.sound (Perm.refl _)
      (hpages.of_mem_iff (fun q => hperm.mem_iff)) (s.writeBuf.flushBytes +
        (dimbinFlushPages maxFlushBatch s.writeBuf).length * s.geom.pageSize)
    have hlen := batch_length h.buf.sound (Perm.refl (collectPages maxFlushBatch s.writeBuf))
    refine ⟨_,{ s0 with data := data, writeBuf := wb },by
      simp only [flushWritePhase,hwb,hgeom,hdata,hc,if_false,hwrite,bind_eq_bind,bind_some]; rfl,?_,
      Flush.written h hfits hfl (.inl (by omega)) (by rw [hfr]) hkeys⟩
    simp only [flushCleanPhase,hc,if_false]
    exact bind_eq_some_iff.mpr ⟨wb,hclean,by rw [hgeom]; rfl⟩

end Flushes

end Gravel.Proofs.BinEntries
