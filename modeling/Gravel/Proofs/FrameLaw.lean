import Gravel.Proofs.BinRun

namespace Gravel.Proofs.FrameLaw
open File PageBytes FlushPages EnsurePage DirtySet PutPage PutBatch BinRun List Option

section Safe

variable {s s' : DimBin} {m e i : Nat} {entries : List EmbWriteEntry}
  {groups : List (Nat × List EmbWriteEntry)}

theorem PagesRun.kept (hr : PagesRun s groups s') (hb : BufInv s.writeBuf s.nextAddr)
    (hmax : s.writeBuf.maxPages ≤ maxFlushBatch) {q : Nat} (hq : q ∉ groups.map Prod.fst)
    (hi : i < s.geom.pageSize) : pageBytes s' q i = pageBytes s q i := by
  induction hr with
  | nil => rfl
  | @cons s s1 s' p entries rest put tail ih =>
    simp only [map_cons,mem_cons,not_or] at hq
    have hgeom := (PagePut.batchFrame put).geom
    have hsafe : EvictSafe s p := fun _ _ => .inl (Nat.le_trans hb.limit hmax)
    rw [ih put.inv (by rw [put.maxPages]; exact hmax) hq.2 (by rw [hgeom]; exact hi),
      put.kept hsafe q hq.1 i hi]

end Safe

/-- The batch returns and changes no allocated entry that it does not name. -/
def Frame (s : DimBin) (entries : List EmbWriteEntry) : Prop :=
  ∃ s' rc, dimbinPutBatch s entries = some (s',rc) ∧
    ∀ e, Allocated s e → (∀ w ∈ entries, w.entryId ≠ e) →
      ∀ i < s.geom.entrySize, entryByte s' e i = entryByte s e i

section Law

variable {s s' : DimBin} {m : Nat} {entries : List EmbWriteEntry}
  {groups : List (Nat × List EmbWriteEntry)}

theorem PutSafe.frame (h : BinInv m s) (hck : s.inCheckpoint = false)
    (hs : PutSafe s (pageGroups s.geom entries)) : Frame s entries := by
  obtain ⟨s',hput,_,_,_,hbytes⟩ := dimbinPutBatch_safe h hck hs
  refine ⟨s',.ok,hput,?_⟩
  intro e he hne i hi
  rw [hbytes e he i hi,lastWrite_eq_none.mpr hne,getD_none]

/-- A batch over ascending pages that harms no entry was safe at every page: a page that was
zero-filled stays as it is until the end, so the zeros would show. -/
theorem putSafe_of_kept (h : BinInv m s) (hm : m ≤ maxFlushBatch)
    (hput : putPages s groups = some s') (hasc : (groups.map Prod.fst).Pairwise (· < ·))
    (hpage : ∀ group ∈ groups, ∀ w ∈ group.2, s.geom.pageOf w.entryId = group.1)
    (hkept : ∀ e, Allocated s e → (∀ w ∈ groups.flatMap Prod.snd, w.entryId ≠ e) →
      ∀ i < s.geom.entrySize, entryByte s' e i = entryByte s e i) : PutSafe s groups := by
  induction groups generalizing s with
  | nil => trivial
  | cons group rest ih =>
    obtain ⟨p,entries⟩ := group
    obtain ⟨s1,hput1,hrest⟩ := bind_eq_some_iff.mp hput
    obtain ⟨hp,hf,hroom⟩ := putPage_some h.tracker h.buf h.small hput1
    obtain ⟨s2,hput2,hpp⟩ := putPage_spec entries h.buf h.tracker h.small hp hf hroom
    cases hput1.symm.trans hput2
    have hfr := PagePut.batchFrame hpp
    have h1 : BinInv m s1 := ⟨hpp.inv,hpp.trackerInv,hpp.maxPages.trans h.limit,h.bound⟩
    have hrun := putPages_run h1.buf h1.tracker h1.small hrest
    simp only [map_cons,pairwise_cons] at hasc
    have hnot : p ∉ rest.map Prod.fst := fun hmem => Nat.lt_irrefl p (hasc.1 p hmem)
    have hsafe : EvictSafe s p := fun _ _ =>
      .inl (Nat.le_trans h.buf.limit (by rw [h.limit]; exact hm))
    -- Entries of this page keep, to the end, what this page write gave them.
    have hown : ∀ e, s.geom.pageOf e = p → ∀ i < s.geom.entrySize,
        entryByte s' e i = entryByte s1 e i := by
      intro e he i hi
      have hoff := offset_lt (e := e) hf hi
      unfold entryByte
      rw [hrun.batchFrame.geom,hfr.geom,he]
      exact PagesRun.kept hrun h1.buf (by rw [h1.limit]; exact hm) hnot
        (by rw [hfr.geom]; exact hoff)
    have hrestpage : ∀ w ∈ rest.flatMap Prod.snd, s.geom.pageOf w.entryId ≠ p := by
      intro w hw hwp
      obtain ⟨group,hg,hwg⟩ := mem_flatMap.mp hw
      rw [hpage group (mem_cons_of_mem _ hg) w hwg] at hwp
      exact hnot (List.mem_map.mpr ⟨group,hg,hwp⟩)
    have hstep : StepSafe s p entries := by
      refine ⟨hp,hf,hroom,hsafe,?_⟩
      by_cases hk : keepsPage s p = true
      · exact .inl hk
      · right
        intro e he hpe hne i hi
        have hall : ∀ w ∈ entries ++ rest.flatMap Prod.snd, w.entryId ≠ e := by
          intro w hw
          rcases mem_append.mp hw with hw | hw
          · exact hne w hw
          · rintro rfl
            exact hrestpage w hw hpe
        rw [← hkept e he (by rw [flatMap_cons]; exact hall) i hi,hown e hpe i hi]
        unfold entryByte
        rw [hfr.geom,hpe,hpp.put _ (offset_lt hf hi),
          foldl_copyEntry (fun w hw => (hpage (p,entries) mem_cons_self w hw).trans hpe.symm)
            hi,lastWrite_eq_none.mpr hne]
        simp [hk]
    refine ⟨hstep,?_⟩
    intro s2 hput2
    cases hput1.symm.trans hput2
    refine ih h1 hrest hasc.2 ?_ ?_
    · intro group hg w hw
      rw [hfr.geom]
      exact hpage group (mem_cons_of_mem _ hg) w hw
    · intro e he hne i hi
      rw [hfr.geom] at hi
      by_cases hpe : s.geom.pageOf e = p
      · exact hown e hpe i hi
      · have hne' : ∀ w ∈ entries, w.entryId ≠ e := by
          rintro w hw rfl
          exact hpe (hpage (p,entries) mem_cons_self w hw)
        rw [hstep.entryByte hpp (hpage (p,entries) mem_cons_self) (hfr.allocated.mp he) hi,
          lastWrite_eq_none.mpr hne']
        refine hkept e (hfr.allocated.mp he) ?_ i hi
        intro w hw
        rw [flatMap_cons] at hw
        rcases mem_append.mp hw with hw | hw
        · exact hne' w hw
        · exact hne w hw

theorem Frame.putSafe (h : BinInv m s) (hm : m ≤ maxFlushBatch) (hck : s.inCheckpoint = false)
    (hf : Frame s entries) : PutSafe s (pageGroups s.geom entries) := by
  obtain ⟨s',rc,hput,hkept⟩ := hf
  by_cases hnil : entries = []
  · subst hnil
    trivial
  · simp only [dimbinPutBatch,hnil,if_false,hck,Bool.false_eq_true] at hput
    obtain ⟨s1,hputs,hs⟩ := bind_eq_some_iff.mp hput
    refine putSafe_of_kept h hm hputs (pageGroups_ascending _ _) (groupPages_page _ _) ?_
    intro e he hne i hi
    have hlast : ∀ w ∈ entries, w.entryId ≠ e := by
      rw [← lastWrite_eq_none,← lastWrite_pageGroups s.geom,lastWrite_eq_none]
      exact hne
    rw [← hkept e he hlast i hi]
    cases hs
    split_ifs <;> rfl

end Law

/-- The frame law of the page buffer holds for the batches that are safe page by page, and up
to the size of one flush batch only for those. -/
theorem dimbinPutBatch_frame_iff {g : Geometry} {bufferSize : Nat} {data : File UInt8}
    {keys : File UInt64} {s0 s : DimBin} {ops : List BinOp}
    (hinit : dimbinInit g bufferSize data keys = some s0) (hrun : runBin s0 ops = some s)
    (hck : s.inCheckpoint = false) (entries : List EmbWriteEntry) :
    (writeMax g bufferSize < 2 ^ 28 → PutSafe s (pageGroups s.geom entries) → Frame s entries) ∧
    (writeMax g bufferSize ≤ maxFlushBatch → Frame s entries →
      PutSafe s (pageGroups s.geom entries)) := by
  refine ⟨?_,?_⟩
  · intro hmax hs
    exact PutSafe.frame ((dimbinInit_inv hinit hmax).run hrun) hck hs
  · intro hmax hf
    have hlt : writeMax g bufferSize < 2 ^ 28 := Nat.lt_of_le_of_lt hmax (by decide)
    exact Frame.putSafe ((dimbinInit_inv hinit hlt).run hrun) hmax hck hf

def smallBin (ops : List BinOp) : Option DimBin := do
  let g ← dimbinGeometry 1 4 16
  let s0 ← dimbinInit g 256 .empty .empty
  runBin s0 ops

theorem smallBin_run {ops : List BinOp} {s : DimBin} (h : smallBin ops = some s) :
    ∃ g s0, dimbinGeometry 1 4 16 = some g ∧ dimbinInit g 256 .empty .empty = some s0 ∧
      runBin s0 ops = some s := by
  unfold smallBin at h
  obtain ⟨g,hg,hrest⟩ := bind_eq_some_iff.mp h
  obtain ⟨s0,hinit,hrun⟩ := bind_eq_some_iff.mp hrest
  exact ⟨g,s0,hg,hinit,hrun⟩

theorem smallBin_max {g : Geometry} (hg : dimbinGeometry 1 4 16 = some g) : writeMax g 256 = 16 := by
  have hmax : (dimbinGeometry 1 4 16).map (fun g => writeMax g 256) = some 16 := by
    decide +kernel
  rw [hg] at hmax
  exact Option.some.inj hmax

theorem smallBin_inv {ops : List BinOp} {s : DimBin} (h : smallBin ops = some s) : BinInv 16 s := by
  obtain ⟨g,s0,hg,hinit,hrun⟩ := smallBin_run h
  have hmax := smallBin_max hg
  have hinv := (dimbinInit_inv hinit (by rw [hmax]; decide)).run hrun
  rwa [hmax] at hinv

/-- Entry 1 joins entry 0 in a page that is still buffered. -/
theorem buffered_tail_frame :
    ∃ s, smallBin [.alloc,.putBatch [⟨0,fun _ => 1⟩],.alloc] = some s ∧
      Frame s [⟨1,fun _ => 2⟩] := by
  obtain ⟨s,hs⟩ := isSome_iff_exists.mp (by decide +kernel :
    (smallBin [.alloc,.putBatch [⟨0,fun _ => 1⟩],.alloc]).isSome)
  obtain ⟨g,s0,hg,hinit,hrun⟩ := smallBin_run hs
  have hfacts : (smallBin [.alloc,.putBatch [⟨0,fun _ => 1⟩],.alloc]).map (fun s =>
      decide (s.inCheckpoint = false ∧ s.geom.pageOf 1 = 0 ∧ s.geom.entrySize ≤ s.geom.pageSize ∧
        HasRoom s.dirty.active 0 ∧ EvictSafe s 0 ∧ keepsPage s 0 = true)) = some true := by
    decide +kernel
  rw [hs] at hfacts
  simp only [map_some,Option.some.injEq,decide_eq_true_eq] at hfacts
  obtain ⟨hck,hpage,hfits,hroom,hevict,hkeeps⟩ := hfacts
  have hmax := smallBin_max hg
  refine ⟨s,hs,(dimbinPutBatch_frame_iff hinit hrun hck [⟨1,fun _ => 2⟩]).1 ?_ ?_⟩
  · rw [hmax]
    decide
  · simp only [pageGroups,insertionSort_cons,insertionSort_nil,
      orderedInsert_nil,groupPages,Runs.runs,hpage]
    exact ⟨⟨by decide,hfits,hroom,hevict,.inl hkeeps⟩,fun _ _ => trivial⟩

/-- After a flush the page of entry 0 is neither buffered nor, as long as it is the last page
and not full, loaded again: the put of entry 1 zeroes entry 0. -/
theorem flushed_tail_breaks_frame :
    ∃ g s0 s, dimbinGeometry 1 4 16 = some g ∧ dimbinInit g 256 .empty .empty = some s0 ∧
      runBin s0 [.alloc,.putBatch [⟨0,fun _ => 1⟩],.flush,.alloc] = some s ∧
      s.inCheckpoint = false ∧ ¬ Frame s [⟨1,fun _ => 2⟩] := by
  obtain ⟨s,hs⟩ := isSome_iff_exists.mp (by decide +kernel :
    (smallBin [.alloc,.putBatch [⟨0,fun _ => 1⟩],.flush,.alloc]).isSome)
  obtain ⟨g,s0,hg,hinit,hrun⟩ := smallBin_run hs
  have hbefore : (smallBin [.alloc,.putBatch [⟨0,fun _ => 1⟩],.flush,.alloc]).map (fun s =>
      decide (s.inCheckpoint = false ∧ Allocated s 0 ∧ 0 < s.geom.entrySize ∧
        entryByte s 0 0 = 1)) = some true := by
    decide +kernel
  have hafter : (smallBin [.alloc,.putBatch [⟨0,fun _ => 1⟩],.flush,.alloc]).bind (fun s =>
      (dimbinPutBatch s [⟨1,fun _ => 2⟩]).map (fun r => entryByte r.1 0 0)) = some 0 := by
    decide +kernel
  rw [hs] at hbefore hafter
  simp only [map_some,Option.some.injEq,decide_eq_true_eq] at hbefore
  obtain ⟨hck,halloc,hpos,hone⟩ := hbefore
  refine ⟨g,s0,s,hg,hinit,hrun,hck,?_⟩
  rintro ⟨s',rc,hput,hkept⟩
  simp only [bind_some,hput,map_some,Option.some.injEq] at hafter
  have := hkept 0 halloc (by simp) 0 hpos
  rw [hafter,hone] at this
  contradiction

/-- In every state that a bin can get to, at most half of the page table is in use, each page is
found where it is, and no buffer belongs to two pages. -/
theorem reachable_page_table {g : Geometry} {bufferSize : Nat} {data : File UInt8}
    {keys : File UInt64} {s0 s : DimBin} {ops : List BinOp}
    (hinit : dimbinInit g bufferSize data keys = some s0) (hmax : writeMax g bufferSize < 2 ^ 28)
    (hrun : runBin s0 ops = some s) :
    s.writeBuf.count ≤ writeMax g bufferSize ∧ 2 * s.writeBuf.count ≤ s.writeBuf.capacity ∧
      (∀ i < s.writeBuf.capacity, (s.writeBuf.slots i).pageId ≠ pageSlotEmpty →
        pagemapFind s.writeBuf.slots s.writeBuf.capacity (s.writeBuf.slots i).pageId = some i) ∧
      ((PageMap.heldBufs s.writeBuf ++ s.writeBuf.pagePool).map PageBuf.addr).Nodup := by
  have h := (dimbinInit_inv hinit hmax).run hrun
  have hlimit := h.buf.limit
  have hroomy := h.buf.roomy
  rw [h.limit] at hlimit hroomy
  exact ⟨hlimit,by omega,h.buf.sound.found,h.buf.sound.owned⟩

theorem smallBin_page_table :
    ∃ s, smallBin [.alloc,.putBatch [⟨0,fun _ => 1⟩],.flush] = some s ∧ s.writeBuf.count ≤ 16 := by
  obtain ⟨s,hs⟩ := isSome_iff_exists.mp (by decide +kernel :
    (smallBin [.alloc,.putBatch [⟨0,fun _ => 1⟩],.flush]).isSome)
  obtain ⟨g,s0,hg,hinit,hrun⟩ := smallBin_run hs
  have hmax := smallBin_max hg
  have htable := reachable_page_table hinit (by rw [hmax]; decide) hrun
  rw [hmax] at htable
  exact ⟨s,hs,htable.1⟩

end Gravel.Proofs.FrameLaw
