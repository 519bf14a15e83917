import Gravel.Lib.Budget
import Gravel.Proofs.BinCheckpoint

namespace Gravel.Proofs.PutRoom
open PageMap PageBytes FlushPages EnsurePage DirtySet PutPage PutBatch BinRun KeyBuffer OverlayMap
  Rehash BinEntries List Option Function

section Pages

variable {s s' : DimBin} {p q idx : Nat} {entries : List EmbWriteEntry}

theorem count_le_succ {wb wb' : WriteBuffer} (h : Sound wb) (h' : Sound wb')
    (hsub : ∀ q, (bufferedPage wb' q).isSome → q = p ∨ (bufferedPage wb q).isSome) :
    wb'.count ≤ wb.count + 1 := by
  have hincl : (liveSlots wb'.capacity wb'.slots).map PageSlot.pageId ⊆
      p :: (liveSlots wb.capacity wb.slots).map PageSlot.pageId := by
    intro q hq
    obtain ⟨slot,hslot,rfl⟩ := List.mem_map.mp hq
    rcases hsub _ ((isSome_bufferedPage h').mpr ⟨slot,hslot,rfl⟩) with hp | hb
    · rw [hp]
      exact mem_cons_self
    · obtain ⟨slot',hslot',hid⟩ := (isSome_bufferedPage h).mp hb
      exact mem_cons_of_mem _ (List.mem_map.mpr ⟨slot',hslot',hid⟩)
  have hlen := ((liveSlots_nodup h'.probed.unique).subperm hincl).length_le
  simpa [h.live_length,h'.live_length] using hlen

theorem writeBufEnsurePage_retains (h : BufInv s.writeBuf s.nextAddr)
    (hmax : s.writeBuf.maxPages < 2 ^ 28) (hlt : s.writeBuf.count < s.writeBuf.maxPages)
    (hens : writeBufEnsurePage s p = some (s',idx)) (h' : Sound s'.writeBuf)
    (hq : (bufferedPage s.writeBuf q).isSome) : (bufferedPage s'.writeBuf q).isSome := by
  have hp : p ≠ pageSlotEmpty := by
    rintro rfl
    simp [writeBufEnsurePage] at hens
  cases hb : bufferedPage s.writeBuf p with
  | some b =>
    obtain ⟨idx',heq,_⟩ := writeBufEnsurePage_held h hb
    rw [heq] at hens
    cases hens
    exact hq
  | none =>
    obtain ⟨idx',_,hfind,hempty,_⟩ := find_absent h.sound hp ((bufferedPage_eq_none h.sound).mp hb)
    have hne : ¬ (s.writeBuf.slots idx').pageId = p := by
      rw [hempty]
      exact hp.symm
    have hroom : makeRoom s = some s := by
      rw [makeRoom,if_neg (by omega)]
    simp only [writeBufEnsurePage,if_neg hp,hfind,bind_eq_bind,bind_some,if_neg hne,
      hroom,growIfLoaded_idle h hlt hmax] at hens
    cases hens
    obtain ⟨slot,hslot,rfl⟩ := (isSome_bufferedPage h.sound).mp hq
    obtain ⟨hlive,k,hk,rfl⟩ := mem_liveSlots.mp hslot
    have hkidx : k ≠ idx := by
      rintro rfl
      exact hlive hempty
    refine (isSome_bufferedPage h').mpr ⟨s.writeBuf.slots k,?_,rfl⟩
    refine mem_liveSlots.mpr ⟨hlive,k,?_,?_⟩
    · unfold insertPage writeBufAcquirePage
      cases s.writeBuf.pagePool <;> exact hk
    · unfold insertPage writeBufAcquirePage
      cases s.writeBuf.pagePool <;> exact update_of_ne hkidx ..

theorem markSegment_ids {t : DirtyTree} {offset i : Nat} {seg : DirtySegment}
    (h : seg ∈ (markSegment t offset i).segments) :
    ∃ seg' ∈ t.segments, seg'.segmentId = seg.segmentId := by
  obtain ⟨j,hj⟩ := mem_iff_getElem?.mp h
  rw [markSegment,getElem?_modify] at hj
  obtain ⟨x,hx,rfl⟩ := map_eq_some_iff.mp hj
  refine ⟨x,mem_of_getElem? hx,?_⟩
  split_ifs <;> rfl

theorem treeMark_segments {t t' : DirtyTree} (h : treeMark t p = some t') :
    t'.segmentSpan = t.segmentSpan ∧ ∀ seg ∈ t'.segments,
      seg.segmentId = p / t.segmentSpan ∨ ∃ seg' ∈ t.segments, seg'.segmentId = seg.segmentId := by
  unfold treeMark at h
  cases hfind : segmentFind t (p / t.segmentSpan) with
  | inl i =>
    simp only [hfind] at h
    cases h
    exact ⟨rfl,fun seg hseg => .inr (markSegment_ids hseg)⟩
  | inr i =>
    simp only [hfind] at h
    obtain ⟨cap,_,h⟩ := bind_eq_some_iff.mp h
    cases h
    refine ⟨rfl,fun seg hseg => ?_⟩
    obtain ⟨seg',hseg',hid⟩ := markSegment_ids hseg
    rcases eq_or_mem_of_mem_insertIdx hseg' with rfl | hmem
    · exact .inl hid.symm
    · exact .inr ⟨seg',hmem,hid⟩

theorem hasRoom_of_ids {t : DirtyTree} (h : TreeInv t)
    (hids : ∀ seg ∈ t.segments, seg.segmentId < 32768) (hp : p / t.segmentSpan < 32768) :
    HasRoom t p := by
  by_cases hseg : ∃ seg ∈ t.segments, seg.segmentId = p / t.segmentSpan
  · exact .inl hseg
  · refine .inr ?_
    have hnd : (p / t.segmentSpan :: t.segments.map DirtySegment.segmentId).Nodup := by
      refine nodup_cons.mpr ⟨?_,h.sorted.imp (fun hlt => Nat.ne_of_lt hlt)⟩
      intro hm
      obtain ⟨seg,hmem,hid⟩ := List.mem_map.mp hm
      exact hseg ⟨seg,hmem,hid⟩
    have hsub : p / t.segmentSpan :: t.segments.map DirtySegment.segmentId ⊆ List.range 32768 := by
      intro x hx
      rcases mem_cons.mp hx with rfl | hx
      · exact mem_range.mpr hp
      · obtain ⟨seg,hmem,rfl⟩ := List.mem_map.mp hx
        exact mem_range.mpr (hids seg hmem)
    have hlen := (hnd.subperm hsub).length_le
    rw [length_cons,length_map,length_range] at hlen
    exact hlen

structure PageAdded (s : DimBin) (p : Nat) (s' : DimBin) : Prop where
  count : s'.writeBuf.count ≤ s.writeBuf.count + 1
  span : s'.dirty.active.segmentSpan = s.dirty.active.segmentSpan
  segments : ∀ seg ∈ s'.dirty.active.segments,
    seg.segmentId = p / s.dirty.active.segmentSpan ∨
      ∃ seg' ∈ s.dirty.active.segments, seg'.segmentId = seg.segmentId
  retains : s.writeBuf.count < s.writeBuf.maxPages →
    ∀ q, (bufferedPage s.writeBuf q).isSome → (bufferedPage s'.writeBuf q).isSome

theorem putPage_added (hb : BufInv s.writeBuf s.nextAddr) (hmax : s.writeBuf.maxPages < 2 ^ 28)
    (hput : putPage s p entries = some s') (hpp : PagePut s p entries s') : PageAdded s p s' := by
  obtain ⟨s0,hs0⟩ : ∃ s0 : DimBin, s0 = { s with dirty := ensureTracker s.dirty p } := ⟨_,rfl⟩
  obtain ⟨⟨s1,idx⟩,hens,hput⟩ := bind_eq_some_iff.mp hput
  rw [← hs0] at hens
  have hp : p ≠ pageSlotEmpty := by
    rintro rfl
    simp [writeBufEnsurePage] at hens
  obtain ⟨s2,idx2,hens2,he⟩ := writeBufEnsurePage_spec (s := s0) (p := p) (by rw [hs0]; exact hb)
    (by rw [hs0]; exact hmax) hp
  cases hens.symm.trans hens2
  simp only at hput
  split_ifs at hput
  obtain ⟨dirty,hmark,hput⟩ := bind_eq_some_iff.mp hput
  obtain ⟨active,hactive,hmark⟩ := bind_eq_some_iff.mp hmark
  obtain ⟨wb,hcopy,hinv,_,hbuf,hother⟩ := copyEntries_spec entries he.inv he.bound he.slot hp
  rw [hcopy] at hput
  cases hmark
  cases hput
  have hsegments := treeMark_segments hactive
  rw [he.frame,hs0,ensureTracker_active] at hsegments
  refine ⟨count_le_succ hb.sound hpp.inv.sound hpp.pages,hsegments.1,hsegments.2,?_⟩
  · intro hlt q hq
    have hq1 := writeBufEnsurePage_retains (s := s0) (by rw [hs0]; exact hb)
      (by rw [hs0]; exact hmax) (by rw [hs0]; exact hlt) hens he.inv.sound
      (q := q) (by rw [hs0]; exact hq)
    by_cases hqp : q = p
    · rw [hqp,hbuf]
      rfl
    · rw [hother q hqp]
      exact hq1

end Pages

/-- The pages of a batch keep the entries that the batch does not name: no page has to leave the
buffer and each of them is buffered or loaded, or all are loaded and a flush takes every page. -/
def PagesRoom (s : DimBin) (groups : List (Nat × List EmbWriteEntry)) : Prop :=
  (s.writeBuf.count + groups.length ≤ s.writeBuf.maxPages ∧
    ∀ e, Allocated s e → s.geom.pageOf e ∈ groups.map Prod.fst →
      (∃ w ∈ groups.flatMap Prod.snd, w.entryId = e) ∨ keepsPage s (s.geom.pageOf e) = true) ∨
  (s.writeBuf.maxPages ≤ maxFlushBatch ∧
    ∀ e, Allocated s e → s.geom.pageOf e ∈ groups.map Prod.fst →
      (∃ w ∈ groups.flatMap Prod.snd, w.entryId = e) ∨ loadsPage s (s.geom.pageOf e) = true)

section Groups

variable {s s' : DimBin} {p : Nat} {entries : List EmbWriteEntry}
  {groups : List (Nat × List EmbWriteEntry)}

theorem loadsPage_frame (h : BatchFrame s s') (p : Nat) : loadsPage s' p = loadsPage s p := by
  rw [h.frame]
  rfl

theorem PagesRoom.step (h : PagesRoom s ((p,entries) :: groups)) (hb : BufInv s.writeBuf s.nextAddr)
    (hp : p ≠ pageSlotEmpty) (hf : s.geom.entrySize ≤ s.geom.pageSize)
    (hroom : HasRoom s.dirty.active p)
    (hpage : ∀ group ∈ (p,entries) :: groups, ∀ w ∈ group.2, s.geom.pageOf w.entryId = group.1)
    (hasc : (p :: groups.map Prod.fst).Pairwise (· < ·)) : StepSafe s p entries := by
  have hnamed : ∀ e, s.geom.pageOf e = p →
      (∃ w ∈ entries ++ groups.flatMap Prod.snd, w.entryId = e) → ∃ w ∈ entries, w.entryId = e := by
    intro e he ⟨w,hw,hwe⟩
    rcases mem_append.mp hw with hw | hw
    · exact ⟨w,hw,hwe⟩
    · obtain ⟨group,hg,hwg⟩ := mem_flatMap.mp hw
      have hgp := hpage group (mem_cons_of_mem _ hg) w hwg
      rw [hwe,he] at hgp
      have hlt := (pairwise_cons.mp hasc).1 _ (List.mem_map_of_mem hg)
      omega
  have hcontent : (∀ e, Allocated s e → s.geom.pageOf e ∈ ((p,entries) :: groups).map Prod.fst →
      (∃ w ∈ ((p,entries) :: groups).flatMap Prod.snd, w.entryId = e) ∨
        keepsPage s (s.geom.pageOf e) = true) →
      keepsPage s p = true ∨ ∀ e, Allocated s e → s.geom.pageOf e = p →
        (∀ w ∈ entries, w.entryId ≠ e) → ∀ i < s.geom.entrySize, entryByte s e i = 0 := by
    intro hkeep
    by_cases hk : keepsPage s p = true
    · exact .inl hk
    · refine .inr fun e he hep hnot i _ => ?_
      rcases hkeep e he (by rw [hep]; exact mem_cons_self) with hw | hk'
      · obtain ⟨w,hw,hwe⟩ := hnamed e hep hw
        exact absurd hwe (hnot w hw)
      · rw [hep] at hk'
        exact absurd hk' hk
  rcases h with ⟨hcount,hkeep⟩ | ⟨hlimit,hload⟩
  · refine ⟨hp,hf,hroom,?_,hcontent hkeep⟩
    intro _ hfull
    simp only [length_cons] at hcount
    omega
  · refine ⟨hp,hf,hroom,?_,hcontent fun e he hm => (hload e he hm).imp id ?_⟩
    · intro _ _
      exact .inl (Nat.le_trans hb.limit hlimit)
    · intro hl
      rw [keepsPage,hl,Bool.or_true]

theorem PagesRoom.rest (h : PagesRoom s ((p,entries) :: groups)) (hpp : PagePut s p entries s')
    (hadd : PageAdded s p s') (hpage : ∀ w ∈ entries, s.geom.pageOf w.entryId = p)
    (hasc : (p :: groups.map Prod.fst).Pairwise (· < ·)) : PagesRoom s' groups := by
  have hfr := PagePut.batchFrame hpp
  have hmem : ∀ {P : Nat → Prop}, (∀ e, Allocated s e →
      s.geom.pageOf e ∈ ((p,entries) :: groups).map Prod.fst →
      (∃ w ∈ ((p,entries) :: groups).flatMap Prod.snd, w.entryId = e) ∨ P e) →
      ∀ e, Allocated s' e → s'.geom.pageOf e ∈ groups.map Prod.fst →
        (∃ w ∈ groups.flatMap Prod.snd, w.entryId = e) ∨ P e := by
    intro P hP e he hm
    rw [hfr.geom] at hm
    rcases hP e (hfr.allocated.mp he) (mem_cons_of_mem _ hm) with ⟨w,hw,hwe⟩ | hPe
    · rcases mem_append.mp hw with hw | hw
      · have hlt := (pairwise_cons.mp hasc).1 _ hm
        rw [← hwe,hpage w hw] at hlt
        exact absurd hlt (Nat.lt_irrefl _)
      · exact .inl ⟨w,hw,hwe⟩
    · exact .inr hPe
  rcases h with ⟨hcount,hkeep⟩ | ⟨hlimit,hload⟩
  · simp only [length_cons] at hcount
    have hadded := hadd.count
    refine .inl ⟨by rw [hpp.maxPages]; omega,?_⟩
    intro e he hm
    refine (hmem hkeep e he hm).imp id fun hk => ?_
    rw [hfr.geom]
    simp only [keepsPage,Bool.or_eq_true] at hk ⊢
    refine hk.imp (hadd.retains (by omega) _) fun hl => ?_
    rw [loadsPage_frame hfr]
    exact hl
  · refine .inr ⟨by rw [hpp.maxPages]; exact hlimit,?_⟩
    intro e he hm
    refine (hmem hload e he hm).imp id fun hl => ?_
    rw [hfr.geom,loadsPage_frame hfr]
    exact hl

theorem PagesRoom.putSafe (h : PagesRoom s groups) (hb : BufInv s.writeBuf s.nextAddr)
    (ht : TrackerInv s.dirty) (hmax : s.writeBuf.maxPages < 2 ^ 28)
    (hf : s.geom.entrySize ≤ s.geom.pageSize) (hp : ∀ p ∈ groups.map Prod.fst, p ≠ pageSlotEmpty)
    (hids : ∀ seg ∈ s.dirty.active.segments, seg.segmentId < 32768)
    (hseg : ∀ p ∈ groups.map Prod.fst, p / s.dirty.active.segmentSpan < 32768)
    (hpage : ∀ group ∈ groups, ∀ w ∈ group.2, s.geom.pageOf w.entryId = group.1)
    (hasc : (groups.map Prod.fst).Pairwise (· < ·)) : PutSafe s groups := by
  induction groups generalizing s with
  | nil => exact trivial
  | cons group rest ih =>
    obtain ⟨p,entries⟩ := group
    have hne := hp p mem_cons_self
    have hpseg := hseg p mem_cons_self
    have hroom := hasRoom_of_ids ht.active hids hpseg
    refine ⟨h.step hb hne hf hroom hpage hasc,?_⟩
    intro s1 hput
    obtain ⟨s2,hput2,hpp⟩ := putPage_spec entries hb ht hmax hne hf hroom
    cases hput.symm.trans hput2
    have hgeom := (PagePut.batchFrame hpp).geom
    have hadd := putPage_added hb hmax hput hpp
    refine ih (h.rest hpp hadd (hpage _ mem_cons_self) hasc) hpp.inv hpp.trackerInv
      (by rw [hpp.maxPages]; exact hmax) (by rw [hgeom]; exact hf)
      (fun q hq => hp q (mem_cons_of_mem _ hq)) ?_ ?_ ?_ (pairwise_cons.mp hasc).2
    · intro seg hm
      rcases hadd.segments seg hm with hid | ⟨seg',hm',hid⟩
      · rw [hid]
        exact hpseg
      · rw [← hid]
        exact hids seg' hm'
    · intro q hq
      rw [hadd.span]
      exact hseg q (mem_cons_of_mem _ hq)
    · intro group hg w hw
      rw [hgeom]
      exact hpage group (mem_cons_of_mem _ hg) w hw

end Groups

structure Allotted (s s' : DimBin) (new : List Nat) : Prop where
  kept : PagesKept s s'
  fileSize : s.dataFileSize ≤ s'.dataFileSize
  bump : s.bumpPtr ≤ s'.bumpPtr
  allocated : ∀ e, Allocated s' e → Allocated s e ∨ e ∈ new

section Allotted

variable {s s' s'' : DimBin} {new new' : List Nat} {e : Nat} {f : UInt64}

theorem Allotted.refl (s : DimBin) (new : List Nat) : Allotted s s new :=
  ⟨⟨rfl,rfl,rfl,rfl,rfl,rfl,rfl,rfl,Nat.le_refl _⟩,Nat.le_refl _,Nat.le_refl _,fun _ he => .inl he⟩

theorem PagesKept.trans (h : PagesKept s s') (h' : PagesKept s' s'') : PagesKept s s'' :=
  ⟨h'.writeBuf.trans h.writeBuf,h'.nextAddr.trans h.nextAddr,h'.dirty.trans h.dirty,
    h'.geom.trans h.geom,h'.overlay.trans h.overlay,h'.overlayBudget.trans h.overlayBudget,
    h'.inCheckpoint.trans h.inCheckpoint,h'.cell.trans h.cell,Nat.le_trans h.size h'.size⟩

theorem Allotted.trans (h : Allotted s s' new) (h' : Allotted s' s'' new')
    (hsub : ∀ e ∈ new, e ∈ new') : Allotted s s'' new' := by
  refine ⟨PagesKept.trans h.kept h'.kept,Nat.le_trans h.fileSize h'.fileSize,
    Nat.le_trans h.bump h'.bump,?_⟩
  intro e he
  rcases h'.allocated e he with he | he
  · exact (h.allocated e he).imp id (hsub e)
  · exact .inr he

theorem reserve_allotted (s : DimBin) (n : Nat) (new : List Nat) :
    Allotted s (dimbinReserve s n) new := by
  obtain ⟨a,b,heq⟩ := dimbinReserve_eq s n
  have hsize : s.dataFileSize ≤ (dimbinReserve s n).dataFileSize := by
    obtain ⟨hpos,hge⟩ := nextDataSize_ge s
    simp only [dimbinReserve,reserveKeys]
    split_ifs
    all_goals
      simp only [reserveData]
      split_ifs
      · exact Nat.le_trans hge (doubleUntil_ge _ _ _ hpos).1
      · exact Nat.le_refl _
  refine ⟨?_,hsize,?_,?_⟩
  · rw [heq]
    exact ⟨rfl,rfl,rfl,rfl,rfl,rfl,rfl,rfl,Nat.le_max_left _ _⟩
  · rw [heq]
  · intro e he
    rw [heq] at he
    exact .inl he

theorem bufKey_allotted (h : dimbinBufKey s e f = some s') (new : List Nat) :
    Allotted s s' new := by
  rw [dimbinBufKey_eq h]
  exact ⟨⟨rfl,rfl,rfl,rfl,rfl,rfl,rfl,rfl,Nat.le_refl _⟩,Nat.le_refl _,Nat.le_refl _,
    fun _ he => .inl he⟩

theorem growData_allotted (s : DimBin) (n : Nat) (new : List Nat) :
    Allotted s (growData s n) new := by
  obtain ⟨a,ha⟩ := growData_eq s n
  have hsize : s.dataFileSize ≤ (growData s n).dataFileSize := by
    obtain ⟨_,hge⟩ := nextDataSize_ge s
    simp only [growData]
    by_cases hlt : s.dataFileSize < n
    · simp only [if_pos hlt,preallocData]
      split_ifs <;> omega
    · simp only [if_neg hlt]
      exact Nat.le_refl _
  refine ⟨?_,hsize,?_,?_⟩
  · rw [ha]
    exact ⟨rfl,rfl,rfl,rfl,rfl,rfl,rfl,rfl,Nat.le_max_left _ _⟩
  · rw [ha]
  · intro e he
    rw [ha] at he
    exact .inl he

theorem alloc_allotted (h : dimbinAllocEntry s = (s',e)) (hsmall : s.bumpPtr < 2 ^ 32) :
    Allotted s s' [e] := by
  unfold dimbinAllocEntry at h
  split at h
  · rename_i x rest hfree
    cases h
    refine ⟨⟨rfl,rfl,rfl,rfl,rfl,rfl,rfl,rfl,Nat.le_refl _⟩,Nat.le_refl _,Nat.le_refl _,?_⟩
    intro x hx
    by_cases hxe : x = e
    · exact .inr (by rw [hxe]; exact mem_cons_self)
    · refine .inl ⟨hx.1,?_⟩
      rw [hfree]
      intro hm
      exact (mem_cons.mp hm).elim hxe hx.2
  · cases h
    rw [Nat.mod_eq_of_lt hsmall]
    have hgrown := growData_allotted { s with bumpPtr := s.bumpPtr + 1 }
      ((s.bumpPtr + 1) % 2 ^ 32 * s.geom.entrySize) [s.bumpPtr]
    have hkeys := growKeys_eq (growData { s with bumpPtr := s.bumpPtr + 1 }
      ((s.bumpPtr + 1) % 2 ^ 32 * s.geom.entrySize)) ((s.bumpPtr + 1) % 2 ^ 32)
    refine ⟨?_,?_,?_,?_⟩
    · rw [hkeys]
      have hk := hgrown.kept
      exact ⟨hk.writeBuf,hk.nextAddr,hk.dirty,hk.geom,hk.overlay,hk.overlayBudget,hk.inCheckpoint,
        hk.cell,hk.size⟩
    · rw [hkeys]
      exact hgrown.fileSize
    · rw [hkeys]
      exact Nat.le_trans (Nat.le_succ _) hgrown.bump
    · intro x hx
      rw [hkeys] at hx
      rcases hgrown.allocated x hx with hx | hx
      · rcases Nat.lt_or_ge x s.bumpPtr with hlt | hge
        · exact .inl ⟨hlt,hx.2⟩
        · have hlt : x < s.bumpPtr + 1 := hx.1
          exact .inr (mem_singleton.mpr (by omega))
      · exact .inr hx

theorem Allotted.loadsPage (h : Allotted s s' new) (hsmall : s'.bumpPtr < 2 ^ 32) {p : Nat}
    (hl : loadsPage s p = true) : loadsPage s' p = true := by
  simp only [Gravel.loadsPage,Bool.and_eq_true,decide_eq_true_eq,h.kept.geom] at hl ⊢
  have hle : s.bumpPtr / s.geom.entriesPerPage ≤ s'.bumpPtr / s.geom.entriesPerPage :=
    Nat.div_le_div_right h.bump
  have hlt : s'.bumpPtr / s.geom.entriesPerPage < 2 ^ 32 :=
    Nat.lt_of_le_of_lt (Nat.div_le_self _ _) hsmall
  rw [Nat.mod_eq_of_lt hlt]
  rw [Nat.mod_eq_of_lt (Nat.lt_of_le_of_lt hle hlt)] at hl
  have := h.fileSize
  omega

end Allotted

def overlayCost (s : DimBin) : Nat := s.geom.dim * 4 + overlaySlotSize

/-- `n` more vectors fit the overlay without a rehash, and a slab page holds a vector. -/
def OverlaySpace (s : DimBin) (n : Nat) : Prop :=
  s.overlay.table.old = none ∧ s.overlay.table.capacity < 2 ^ 28 ∧
    (s.overlay.table.count + n) * 10 ≤ s.overlay.table.capacity * 7 ∧ poolServes s.geom.dim = true

/-- How many vectors the budget lets a batch of `n` add. -/
def newVectors (s : DimBin) (n : Nat) : Nat :=
  Budget.newKeys s.overlay.budgetBytes (overlayCost s) s.overlay.memoryUsed n

def OverlayRoom (s : DimBin) (n : Nat) : Prop := OverlaySpace s (newVectors s n)

/-- The pages of the slots, `n` more included, fit the segments of the dirty tracker. -/
def TrackerRoom (s : DimBin) (n : Nat) : Prop :=
  (∀ seg ∈ s.dirty.active.segments, seg.segmentId < 32768) ∧
    s.geom.pageOf (s.bumpPtr + n) / s.dirty.active.segmentSpan < 32768

/-- A batch of `n` vectors fits the pages. The slots in use, those in `written` apart, are on pages
that are buffered or loaded and no page has to leave the buffer; or they are all on pages that are
loaded and a flush takes every page. -/
def BufferRoom (s : DimBin) (written : List Nat) (n : Nat) : Prop :=
  TrackerRoom s n ∧
    ((s.writeBuf.count + n ≤ s.writeBuf.maxPages ∧
        ∀ e < s.bumpPtr, e ∉ s.freeList → e ∉ written → keepsPage s (s.geom.pageOf e) = true) ∨
      (s.writeBuf.maxPages ≤ maxFlushBatch ∧
        ∀ e < s.bumpPtr, e ∉ s.freeList → e ∉ written → loadsPage s (s.geom.pageOf e) = true))

def WriteRoom (s : DimBin) (n : Nat) : Prop :=
  s.bumpPtr + n < 2 ^ 32 ∧ s.inCheckpoint = false ∧ BufferRoom s [] n

instance (s : DimBin) (n : Nat) : Decidable (OverlaySpace s n) :=
  have : Decidable (s.overlay.table.old = none) := decidable_of_iff _ isNone_iff_eq_none
  inferInstanceAs (Decidable (_ ∧ _))

instance (s : DimBin) (n : Nat) : Decidable (OverlayRoom s n) :=
  inferInstanceAs (Decidable (OverlaySpace s _))

section Room

variable {s s' : DimBin} {m : OverlayVectors} {L : Entries} {n : Nat} {new written : List Nat}
  {entries : List EmbWriteEntry}

theorem newVectors_covers (s : DimBin) {k : Nat} (h : k ≤ n) :
    k ≤ newVectors s n ∨ 0 < s.overlay.budgetBytes ∧
      s.overlay.budgetBytes ≤ s.overlay.memoryUsed + newVectors s n * overlayCost s :=
  (Budget.newKeys_covers (Nat.succ_pos _) _ n).imp_left (Nat.le_trans h)

theorem OverlaySpace.visible (h : OverlaySpace s n) (e : Nat) :
    ¬ Hidden overlayLayout s.overlay.table e := by
  intro ⟨o,ho,_⟩
  rw [h.1] at ho
  cases ho

/-- A new vector takes a place of the table and its bytes, one that is there takes neither. -/
theorem OverlaySpace.put (h : OverlaySpace s n) (hn : 0 < n) {e : Nat} {data : Nat → UInt8}
    {overlay : OverlayBuffer} {rc : Status}
    (hput : overlayPut true s.overlay e data s.geom.dim = some (overlay,rc)) :
    ∃ j, OverlaySpace { s with overlay := overlay } j ∧ n ≤ j + 1 ∧
      overlay.memoryUsed + j * overlayCost s = s.overlay.memoryUsed + n * overlayCost s := by
  obtain ⟨hold,hcap,hload,hserves⟩ := h
  obtain ⟨table,htable,hput⟩ := bind_eq_some_iff.mp hput
  obtain ⟨hcount,hkeep⟩ := put_keeps htable
  have hcalm : overlayLayout.crowded s.overlay.table.count s.overlay.table.capacity = false := by
    simp only [overlayLayout,decide_eq_false_iff_not]
    rw [Nat.mod_eq_of_lt (by omega),Nat.mod_eq_of_lt (by omega)]
    omega
  have hkeep := hkeep hold
  rw [hcalm] at hkeep
  obtain ⟨hcap',hold'⟩ := hkeep
  split_ifs at hput with hle hserved
  · cases hput
    exact ⟨n,⟨hold',by rw [hcap']; exact hcap,by simp only [hcap']; omega,hserves⟩,Nat.le_succ n,rfl⟩
  · cases hput
    obtain ⟨j,rfl⟩ : ∃ j, n = j + 1 := ⟨n - 1,by omega⟩
    refine ⟨j,⟨hold',by rw [hcap']; exact hcap,by simp only [hcap']; omega,hserves⟩,Nat.le_refl _,?_⟩
    simp only [Nat.add_mul,overlayCost]
    omega
  · exact absurd rfl hserved

theorem BinRep.putTaken (h : BinRep s m L) (hck : s.inCheckpoint = true) (hspace : OverlaySpace s n)
    (hlen : entries.length ≤ n ∨ 0 < s.overlay.budgetBytes ∧
      s.overlay.budgetBytes ≤ s.overlay.memoryUsed + n * overlayCost s)
    (howned : ∀ w ∈ entries, Owned s w.entryId) {k : Nat}
    (hk : k = Budget.taken s.overlay.budgetBytes (s.geom.dim * 4 + overlaySlotSize)
      (fun e => (m e).isSome) s.overlay.memoryUsed (entries.map EmbWriteEntry.entryId)) :
    ∃ s' m', Gravel.putOverlay s entries =
        some (s',if k < entries.length then .errBusy else .ok) ∧
      s' = { s with overlay := { s.overlay with
        table := s'.overlay.table, memoryUsed := s'.overlay.memoryUsed } } ∧
      BinRep s' m' (fun e => (lastWrite e (entries.take k)).or (L e)) ∧
      s'.overlay.table.old = none ∧ ∀ e, (m' e).isSome → (m e).isSome ∨ e ∈ (entries.take k).map EmbWriteEntry.entryId := by
  induction entries generalizing s m L n k with
  | nil =>
    exact ⟨s,m,by simp [Gravel.putOverlay],rfl,by simpa [lastWrite] using h,hspace.1,
      fun e he => .inl he⟩
  | cons w rest ih =>
    rw [length_cons] at hlen
    have hcap := hspace.2.1
    by_cases hfull : 0 < s.overlay.budgetBytes ∧ s.overlay.budgetBytes ≤ s.overlay.memoryUsed
    · rw [map_cons,Budget.taken_full _ hfull] at hk
      subst hk
      have hfull' : overlayFull s.overlay = true := by simpa [overlayFull] using hfull
      exact ⟨s,m,by simp [Gravel.putOverlay,hfull'],rfl,by simpa [lastWrite] using h,
        hspace.1,fun e he => .inl he⟩
    · have hfull' : overlayFull s.overlay = false := by
        rw [Bool.eq_false_iff]
        simpa [overlayFull] using hfull
      obtain ⟨t,used,d,hput,hrep,hused⟩ := h.overlayWrite hck (howned w mem_cons_self)
        (by omega) (hspace.visible _)
      obtain ⟨s1,hs1⟩ : ∃ s1 : DimBin,
        s1 = { s with overlay := { s.overlay with table := t, memoryUsed := used } } := ⟨_,rfl⟩
      have hn : 0 < n := by
        rcases Nat.eq_zero_or_pos n with rfl | hn
        · omega
        · exact hn
      obtain ⟨j,hspace1,hj,hcost⟩ := hspace.put hn hput
      rw [← hs1] at hrep hspace1
      have hheld : update (fun e => (m e).isSome) w.entryId true =
          fun e => (update m w.entryId (some d) e).isSome := by
        funext e
        by_cases he : e = w.entryId
        · rw [he,update_self,update_self]
          rfl
        · rw [update_of_ne he,update_of_ne he]
      rw [map_cons,Budget.taken_cons _ hfull,hheld,← hused] at hk
      obtain ⟨k1,hk1⟩ : ∃ k1, k1 = Budget.taken s1.overlay.budgetBytes
        (s1.geom.dim * 4 + overlaySlotSize)
        (fun e => (update m w.entryId (some d) e).isSome) s1.overlay.memoryUsed
        (rest.map EmbWriteEntry.entryId) := ⟨_,rfl⟩
      have hkk : k = k1 + 1 := by
        rw [hk,hk1,hs1]
      have hlen1 : rest.length ≤ j ∨ 0 < s1.overlay.budgetBytes ∧
          s1.overlay.budgetBytes ≤ s1.overlay.memoryUsed + j * overlayCost s1 := by
        rw [hs1]
        refine hlen.imp (fun hlen => by omega) (fun hlen => ⟨hlen.1,?_⟩)
        exact Nat.le_trans hlen.2 (Nat.le_of_eq hcost.symm)
      obtain ⟨s',m',hput',hframe,hrep',hold',hm'⟩ := ih hrep (by rw [hs1]; exact hck) hspace1 hlen1
        (fun x hx => by rw [hs1]; exact howned x (mem_cons_of_mem w hx)) hk1
      refine ⟨s',m',?_,?_,?_,hold',?_⟩
      · simp only [Gravel.putOverlay,hfull',Bool.false_eq_true,if_false,hspace.2.2.2,hput,
          bind_eq_bind,bind_some,if_true]
        rw [← hs1,hput',hkk]
        simp
      · rw [hframe,hs1]
      · rw [hkk]
        simpa only [take_succ_cons,lastWrite_cons_or] using hrep'
      · intro e he
        rw [hkk,take_succ_cons,map_cons]
        rcases hm' e he with he | he
        · by_cases hew : e = w.entryId
          · exact .inr (hew ▸ mem_cons_self)
          · rw [update_of_ne hew] at he
            exact .inl he
        · exact .inr (mem_cons_of_mem _ he)

theorem mem_pageGroups_flat {g : Geometry} {w : EmbWriteEntry} :
    w ∈ (pageGroups g entries).flatMap Prod.snd ↔ w ∈ entries := by
  rw [pageGroups,groupPages,Runs.runs_flatMap]
  exact mem_insertionSort _

theorem length_pageGroups_le (g : Geometry) (entries : List EmbWriteEntry) :
    (pageGroups g entries).length ≤ entries.length := by
  have h := Runs.length_runs_le (fun e : EmbWriteEntry => g.pageOf e.entryId)
    (entries.insertionSort (fun a b => g.pageOf a.entryId ≤ g.pageOf b.entryId))
  rwa [length_insertionSort] at h

theorem BufferRoom.pagesRoom (h : BufferRoom s written n) (ha : Allotted s s' new)
    (hsmall : s'.bumpPtr < 2 ^ 32) (hlen : entries.length ≤ n)
    (hnamed : ∀ e, e ∈ written ∨ e ∈ new → ∃ w ∈ entries, w.entryId = e) :
    PagesRoom s' (pageGroups s'.geom entries) := by
  have hgroups := length_pageGroups_le s'.geom entries
  have hwb := ha.kept.writeBuf
  have hgeom := ha.kept.geom
  have hcase : ∀ {P : Nat → Prop},
      (∀ e < s.bumpPtr, e ∉ s.freeList → e ∉ written → P e) →
      ∀ e, Allocated s' e → (∃ w ∈ (pageGroups s'.geom entries).flatMap Prod.snd, w.entryId = e) ∨
        P e := by
    intro P hP e he
    by_cases hw : e ∈ written ∨ e ∈ new
    · obtain ⟨w,hw,hwe⟩ := hnamed e hw
      exact .inl ⟨w,mem_pageGroups_flat.mpr hw,hwe⟩
    · have hold := (ha.allocated e he).resolve_right (fun hn => hw (.inr hn))
      exact .inr (hP e hold.1 hold.2 (fun hn => hw (.inl hn)))
  obtain ⟨_,h⟩ := h
  rcases h with ⟨hcount,hkeep⟩ | ⟨hlimit,hload⟩
  · refine .inl ⟨by rw [hwb]; omega,?_⟩
    intro e he _
    refine (hcase hkeep e he).imp id fun hk => ?_
    simp only [keepsPage,Bool.or_eq_true,hwb,hgeom] at hk ⊢
    exact hk.imp id (ha.loadsPage hsmall)
  · refine .inr ⟨by rw [hwb]; exact hlimit,?_⟩
    intro e he _
    refine (hcase hload e he).imp id fun hl => ?_
    rw [hgeom]
    exact ha.loadsPage hsmall hl

theorem BufferRoom.putSafe (h : BufferRoom s written n) (ha : Allotted s s' new)
    (hinv : BinInv s'.writeBuf.maxPages s') (hfits : s'.geom.entrySize ≤ s'.geom.pageSize)
    (hsmall : s'.bumpPtr < 2 ^ 32) (hbump : s'.bumpPtr ≤ s.bumpPtr + n) (hlen : entries.length ≤ n)
    (hbelow : ∀ w ∈ entries, w.entryId < s'.bumpPtr)
    (hnamed : ∀ e, e ∈ written ∨ e ∈ new → ∃ w ∈ entries, w.entryId = e) :
    PutSafe s' (pageGroups s'.geom entries) := by
  obtain ⟨hids,hseg⟩ := h.1
  have hpages : ∀ p ∈ (pageGroups s'.geom entries).map Prod.fst,
      ∃ e < s'.bumpPtr, s'.geom.pageOf e = p := by
    intro p hp
    obtain ⟨group,hg,rfl⟩ := List.mem_map.mp hp
    obtain ⟨hne,hkey⟩ := Runs.runs_key _ _ group hg
    obtain ⟨w,hw⟩ := exists_mem_of_ne_nil _ hne
    have hmem : w ∈ entries := mem_pageGroups_flat.mp (mem_flatMap.mpr ⟨group,hg,hw⟩)
    exact ⟨w.entryId,hbelow w hmem,hkey w hw⟩
  refine (h.pagesRoom ha hsmall hlen hnamed).putSafe hinv.buf hinv.tracker hinv.bound hfits ?_ ?_ ?_
    (fun group hg => groupPages_page s'.geom _ group hg) (pageGroups_ascending s'.geom entries)
  · intro p hp
    obtain ⟨e,he,rfl⟩ := hpages p hp
    have hle : s'.geom.pageOf e ≤ e := Nat.div_le_self _ _
    unfold pageSlotEmpty
    omega
  · rw [ha.kept.dirty]
    exact hids
  · intro p hp
    obtain ⟨e,he,rfl⟩ := hpages p hp
    rw [ha.kept.dirty,ha.kept.geom]
    refine Nat.lt_of_le_of_lt (Nat.div_le_div_right ?_) hseg
    exact Nat.div_le_div_right (by omega)

theorem BinRep.putBatch (h : BinRep s' m L) (hroom : WriteRoom s n) (ha : Allotted s s' new)
    (hbump : s'.bumpPtr ≤ s.bumpPtr + n) (hlen : entries.length ≤ n) (howned : ∀ w ∈ entries, Owned s' w.entryId)
    (hnew : ∀ e ∈ new, ∃ w ∈ entries, w.entryId = e) :
    ∃ s'' m', dimbinPutBatch s' entries = some (s'',.ok) ∧
      BinRep s'' m' (fun e => (lastWrite e entries).or (L e)) ∧
      (∀ x, keyAt s'' x = keyAt s' x) ∧ s''.geom = s'.geom := by
  obtain ⟨_,hck0,hroom⟩ := hroom
  have hck : s'.inCheckpoint = false := ha.kept.inCheckpoint.trans hck0
  have hsafe := hroom.putSafe ha h.inv h.fits h.small hbump hlen
    (fun w hw => (howned w hw).1) (fun e he => hnew e (he.resolve_left (by simp)))
  obtain ⟨s'',hput,hw⟩ := putBatch_written h.inv hck hsafe
  obtain ⟨_,hm⟩ := h.no_overlay hck
  obtain ⟨hrep,hkey⟩ := h.written hw howned (fun w _ => by rw [hm])
  exact ⟨s'',m,hput,hrep,hkey,hw.frame.geom⟩

end Room

end Gravel.Proofs.PutRoom
