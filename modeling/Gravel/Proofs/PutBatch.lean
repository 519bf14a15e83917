import Gravel.Proofs.PutPage

namespace Gravel.Proofs.PutBatch
open Runs PageBytes FlushPages EnsurePage DirtySet PutPage List Option

section Groups

variable {g : Geometry} {e : Nat} {entries : List EmbWriteEntry}

theorem lastWrite_filter (e : Nat) (entries : List EmbWriteEntry) :
    lastWrite e (entries.filter (fun w => w.entryId = e)) = lastWrite e entries := by
  induction entries with
  | nil => rfl
  | cons w rest ih =>
    by_cases hw : w.entryId = e
    · simp [lastWrite,hw,ih]
    · simp only [filter_cons,lastWrite,hw,decide_false,Bool.false_eq_true,if_false,ih]
      cases lastWrite e rest <;> rfl

theorem lastWrite_append (e : Nat) (l1 l2 : List EmbWriteEntry) :
    lastWrite e (l1 ++ l2) = match lastWrite e l2 with
      | some data => some data
      | none => lastWrite e l1 := by
  induction l1 with
  | nil =>
    rw [nil_append]
    cases lastWrite e l2 <;> rfl
  | cons w rest ih =>
    rw [cons_append,lastWrite,ih]
    cases lastWrite e l2 <;> rfl

theorem groupPages_page (g : Geometry) (entries : List EmbWriteEntry) :
    ∀ group ∈ groupPages g entries, ∀ w ∈ group.2, g.pageOf w.entryId = group.1 :=
  fun group hm => (runs_key _ _ group hm).2

theorem lastWrite_pageGroups (g : Geometry) (e : Nat) (entries : List EmbWriteEntry) :
    lastWrite e ((pageGroups g entries).flatMap Prod.snd) = lastWrite e entries := by
  rw [pageGroups,groupPages,runs_flatMap,← lastWrite_filter,filter_insertionSort,lastWrite_filter]
  intro a b ha hb
  simp only [decide_eq_true_eq] at ha hb
  rw [ha,hb]

theorem pageGroups_ascending (g : Geometry) (entries : List EmbWriteEntry) :
    ((pageGroups g entries).map Prod.fst).Pairwise (· < ·) :=
  (runs_ascending (pairwise_sort (fun w : EmbWriteEntry => g.pageOf w.entryId) entries)).1

theorem mem_pageGroups {w : EmbWriteEntry}
    (hw : w ∈ entries) : g.pageOf w.entryId ∈ (pageGroups g entries).map Prod.fst := by
  have hm : w ∈ (pageGroups g entries).flatMap Prod.snd := by
    rw [pageGroups,groupPages,runs_flatMap]
    exact (mem_insertionSort _).mpr hw
  obtain ⟨group,hg,hwg⟩ := mem_flatMap.mp hm
  rw [groupPages_page g _ group hg w hwg]
  exact List.mem_map_of_mem hg

end Groups

/-- Byte `i` of the logical vector of an entry. -/
def entryByte (s : DimBin) (e i : Nat) : UInt8 :=
  pageBytes s (s.geom.pageOf e) (s.geom.offsetInPage e + i)

def Allocated (s : DimBin) (e : Nat) : Prop := e < s.bumpPtr ∧ e ∉ s.freeList

instance (s : DimBin) (e : Nat) : Decidable (Allocated s e) := inferInstanceAs (Decidable (_ ∧ _))

/-- The page of a group can be written without harm to its other entries: it is buffered, or
loaded, or those entries are zero anyway. -/
structure StepSafe (s : DimBin) (p : Nat) (entries : List EmbWriteEntry) : Prop where
  page : p ≠ pageSlotEmpty
  fits : s.geom.entrySize ≤ s.geom.pageSize
  tracker : HasRoom s.dirty.active p
  evict : EvictSafe s p
  content : keepsPage s p = true ∨ ∀ e, Allocated s e → s.geom.pageOf e = p →
    (∀ w ∈ entries, w.entryId ≠ e) → ∀ i < s.geom.entrySize, entryByte s e i = 0

def PutSafe : DimBin → List (Nat × List EmbWriteEntry) → Prop
  | _, [] => True
  | s, (p,entries) :: rest =>
    StepSafe s p entries ∧ ∀ s', putPage s p entries = some s' → PutSafe s' rest

inductive PagesRun : DimBin → List (Nat × List EmbWriteEntry) → DimBin → Prop where
  | nil (s : DimBin) : PagesRun s [] s
  | cons {s s1 s' : DimBin} {p : Nat} {entries : List EmbWriteEntry}
      {rest : List (Nat × List EmbWriteEntry)}
      (put : PagePut s p entries s1) (tail : PagesRun s1 rest s') :
      PagesRun s ((p,entries) :: rest) s'

structure BatchFrame (s s' : DimBin) : Prop where
  frame : s' = { s with
    keys := s'.keys, keyBuf := s'.keyBuf, flushNeeded := s'.flushNeeded
    data := s'.data, writeBuf := s'.writeBuf, nextAddr := s'.nextAddr, dirty := s'.dirty }
  keys : KeysFlushed s s'
  maxPages : s'.writeBuf.maxPages = s.writeBuf.maxPages

section Run

variable {s s' s'' : DimBin} {p e i : Nat} {entries : List EmbWriteEntry}
  {groups : List (Nat × List EmbWriteEntry)}

theorem BatchFrame.refl (s : DimBin) : BatchFrame s s := ⟨rfl,.refl s,rfl⟩

theorem PagePut.batchFrame (h : PagePut s p entries s') : BatchFrame s s' :=
  ⟨h.frame,h.keys,h.maxPages⟩

theorem BatchFrame.geom (h : BatchFrame s s') : s'.geom = s.geom := by rw [h.frame]

theorem BatchFrame.allocated (h : BatchFrame s s') : Allocated s' e ↔ Allocated s e := by
  rw [h.frame]
  rfl

theorem BatchFrame.trans (h : BatchFrame s s') (h' : BatchFrame s' s'') : BatchFrame s s'' := by
  refine ⟨?_,h.keys.trans (by rw [h.frame]) h'.keys,h'.maxPages.trans h.maxPages⟩
  rw [h'.frame,h.frame]

theorem PagesRun.batchFrame (h : PagesRun s groups s') : BatchFrame s s' := by
  induction h with
  | nil s => exact .refl s
  | cons put tail ih => exact (PagePut.batchFrame put).trans ih

theorem PagesRun.inv (h : PagesRun s groups s') (hb : BufInv s.writeBuf s.nextAddr)
    (ht : TrackerInv s.dirty) : BufInv s'.writeBuf s'.nextAddr ∧ TrackerInv s'.dirty := by
  induction h with
  | nil => exact ⟨hb,ht⟩
  | cons put tail ih => exact ih put.inv put.trackerInv

theorem putPages_run (hb : BufInv s.writeBuf s.nextAddr) (ht : TrackerInv s.dirty)
    (hmax : s.writeBuf.maxPages < 2 ^ 28) (h : putPages s groups = some s') :
    PagesRun s groups s' := by
  induction groups generalizing s with
  | nil =>
    cases h
    exact .nil _
  | cons group rest ih =>
    obtain ⟨p,entries⟩ := group
    obtain ⟨s1,hput,hrest⟩ := bind_eq_some_iff.mp h
    obtain ⟨hp,hf,hroom⟩ := putPage_some ht hb hmax hput
    obtain ⟨s2,hput',hpp⟩ := putPage_spec entries hb ht hmax hp hf hroom
    cases hput.symm.trans hput'
    exact .cons hpp (ih hpp.inv hpp.trackerInv (by rw [hpp.maxPages]; exact hmax) hrest)

theorem StepSafe.entryByte (hs : StepSafe s p entries) (h : PagePut s p entries s')
    (hpage : ∀ w ∈ entries, s.geom.pageOf w.entryId = p) (he : Allocated s e)
    (hi : i < s.geom.entrySize) :
    entryByte s' e i = (lastWrite e entries).getD (entryByte s e) i := by
  have hgeom := (PagePut.batchFrame h).geom
  have hoff := offset_lt (e := e) hs.fits hi
  unfold PutBatch.entryByte
  rw [hgeom]
  by_cases hpe : s.geom.pageOf e = p
  · rw [hpe,h.put _ hoff,foldl_copyEntry (fun w hw => (hpage w hw).trans hpe.symm) hi]
    cases hl : lastWrite e entries with
    | some data => rfl
    | none =>
      simp only [getD_none]
      split_ifs with hk
      · rfl
      · have hz := (hs.content.resolve_left hk) e he hpe (lastWrite_eq_none.mp hl) i hi
        rw [← hz]
        unfold PutBatch.entryByte
        rw [hpe]
  · rw [h.kept hs.evict _ hpe _ hoff]
    have hl : lastWrite e entries = none := by
      rw [lastWrite_eq_none]
      rintro w hw rfl
      exact hpe (hpage w hw)
    rw [hl,getD_none]

/-- A safe batch writes the entries it names and leaves every other allocated entry. -/
theorem PutSafe.run (hs : PutSafe s groups) (hb : BufInv s.writeBuf s.nextAddr)
    (ht : TrackerInv s.dirty) (hmax : s.writeBuf.maxPages < 2 ^ 28)
    (hpage : ∀ group ∈ groups, ∀ w ∈ group.2, s.geom.pageOf w.entryId = group.1) :
    ∃ s', putPages s groups = some s' ∧ PagesRun s groups s' ∧
      (∀ p, p ∈ groups.map Prod.fst ∨ Covered s p → Covered s' p) ∧
      ∀ e, Allocated s e → ∀ i < s.geom.entrySize,
        entryByte s' e i = (lastWrite e (groups.flatMap Prod.snd)).getD (entryByte s e) i := by
  induction groups generalizing s with
  | nil => exact ⟨s,rfl,.nil s,by simp,fun _ _ _ _ => rfl⟩
  | cons group rest ih =>
    obtain ⟨p,entries⟩ := group
    obtain ⟨hstep,hrest⟩ := hs
    obtain ⟨s1,hput,hpp⟩ := putPage_spec entries hb ht hmax hstep.page hstep.fits
      hstep.tracker
    have hgeom := (PagePut.batchFrame hpp).geom
    obtain ⟨s',hputs,hrun,hcovered,hbytes⟩ := ih (hrest s1 hput) hpp.inv hpp.trackerInv
      (by rw [hpp.maxPages]; exact hmax)
      (fun group hm w hw => by
        rw [hgeom]
        exact hpage group (mem_cons_of_mem _ hm) w hw)
    refine ⟨s',by simp [putPages,hput,hputs],.cons hpp hrun,?_,?_⟩
    · intro q hq
      apply hcovered
      rcases hq with hq | hq
      · rcases mem_cons.mp hq with rfl | hq
        · exact .inr (hpp.covered hstep.evict _ (.inl rfl))
        · exact .inl hq
      · exact .inr (hpp.covered hstep.evict q (.inr hq))
    intro e he i hi
    rw [hgeom] at hbytes
    rw [hbytes e ((PagePut.batchFrame hpp).allocated.mpr he) i hi,flatMap_cons,
      lastWrite_append]
    cases lastWrite e (rest.flatMap Prod.snd) with
    | some data => rfl
    | none => exact hstep.entryByte hpp (hpage (p,entries) mem_cons_self) he hi

end Run

end Gravel.Proofs.PutBatch
