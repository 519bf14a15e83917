import Gravel.Proofs.DeltaExport
import Gravel.Proofs.FrameLaw

namespace Gravel.Proofs.DeltaExact
open File DirtySet DeltaExport BinRun FrameLaw List Option Function

/-- An entry that belongs into a delta: a key below the snapshot on a dirty page. -/
def Wanted (bin : DimBin) (bump e : Nat) : Prop :=
  e < bump ∧ exportKey bin e ≠ 0 ∧ Marked bin.dirty.ckpt (bin.geom.pageOf e)

def InRange (bin : DimBin) (bump batch : Nat) (pages : List Nat) (e : Nat) : Prop :=
  (gatheredKeys bin.geom.entriesPerPage bump batch pages).1 ≤ e ∧
    e < (gatheredKeys bin.geom.entriesPerPage bump batch pages).1 +
      (gatheredKeys bin.geom.entriesPerPage bump batch pages).2

instance (bin : DimBin) (bump batch : Nat) (pages : List Nat) (e : Nat) :
    Decidable (InRange bin bump batch pages e) := inferInstanceAs (Decidable (_ ∧ _))

/-- The groups of frozen dirty pages that the steps of a delta export take. -/
def scanGroups (bin : DimBin) (bump batch : Nat) : List (List Nat) :=
  deltaGroups bin.geom.entriesPerPage bump batch ((frozenPages bin).length + 1) (frozenPages bin)

/-- For each group, the keys of the range that is read are the keys of the group's pages, and
every page with a wanted entry is in a group. -/
def ScanExact (bin : DimBin) (bump batch : Nat) : Prop :=
  (∀ e, Wanted bin bump e → ∃ g ∈ scanGroups bin bump batch, bin.geom.pageOf e ∈ g) ∧
    ∀ g ∈ scanGroups bin bump batch, ∀ e, exportKey bin e ≠ 0 →
      (InRange bin bump batch g e ↔ e < bump ∧ bin.geom.pageOf e ∈ g)

def groupEntries (bin : DimBin) (bump batch : Nat) (pages : List Nat) : List Nat :=
  (groupOps bin bump batch pages).map ReadOp.entryIdx

section Ranges

variable {bin : DimBin} {bump batch e : Nat} {pages g : List Nat}

theorem mem_frozenPages {p : Nat} (h : TreeInv bin.dirty.ckpt) (hp : p ∈ frozenPages bin) :
    p < bin.dirty.capacity ∧ Marked bin.dirty.ckpt p := mem_treePages h hp

theorem rangeOps_eq {start count : Nat} (hb : batch < 2 ^ 31) (hc : count ≤ batch) :
    rangeOps bin batch start count =
      ((List.range count).filter (fun i => exportKey bin (start + i) ≠ 0)).map
        (fun i => ⟨exportKey bin (start + i),(start + i) % 2 ^ 32⟩) := by
  rw [rangeOps,if_pos hb,take_of_length_le]
  rw [length_map]
  have := length_filter_le (fun i => decide (exportKey bin (start + i) ≠ 0)) (List.range count)
  rw [length_range] at this
  exact Nat.le_trans this hc

theorem mem_groupEntries (hb : batch < 2 ^ 31) :
    e ∈ groupEntries bin bump batch g ↔
      ∃ x, InRange bin bump batch g x ∧ exportKey bin x ≠ 0 ∧ x % 2 ^ 32 = e := by
  have hc : (gatheredKeys bin.geom.entriesPerPage bump batch g).2 ≤ batch := Nat.min_le_right _ _
  rw [groupEntries,groupOps,rangeOps_eq hb hc,List.map_map,List.mem_map]
  constructor
  · rintro ⟨i,hi,rfl⟩
    obtain ⟨hlt,hkey⟩ := mem_filter.mp hi
    have := mem_range.mp hlt
    exact ⟨_,⟨Nat.le_add_right _ i,by omega⟩,of_decide_eq_true hkey,rfl⟩
  · rintro ⟨x,⟨hlo,hhi⟩,hkey,rfl⟩
    refine ⟨x - (gatheredKeys bin.geom.entriesPerPage bump batch g).1,?_,?_⟩
    · refine mem_filter.mpr ⟨mem_range.mpr (by omega),?_⟩
      rw [Nat.add_sub_cancel' hlo]
      exact decide_eq_true hkey
    · simp only [comp_apply]
      rw [Nat.add_sub_cancel' hlo]

theorem nodup_groupEntries (hb : batch < 2 ^ 31)
    (hr : ∀ x, exportKey bin x ≠ 0 → InRange bin bump batch g x → x < 2 ^ 32) :
    (groupEntries bin bump batch g).Nodup := by
  have hc : (gatheredKeys bin.geom.entriesPerPage bump batch g).2 ≤ batch := Nat.min_le_right _ _
  rw [groupEntries,groupOps,rangeOps_eq hb hc,List.map_map]
  refine List.Nodup.map_on ?_ (nodup_range.filter _)
  intro i hi j hj hij
  have hlt : ∀ i ∈ (List.range (gatheredKeys bin.geom.entriesPerPage bump batch g).2).filter
      (fun i => exportKey bin ((gatheredKeys bin.geom.entriesPerPage bump batch g).1 + i) ≠ 0),
      (gatheredKeys bin.geom.entriesPerPage bump batch g).1 + i < 2 ^ 32 := by
    intro i hi
    obtain ⟨hlt,hkey⟩ := mem_filter.mp hi
    have := mem_range.mp hlt
    exact hr _ (of_decide_eq_true hkey) ⟨Nat.le_add_right _ i,by omega⟩
  simp only [comp_apply] at hij
  rw [Nat.mod_eq_of_lt (hlt i hi),Nat.mod_eq_of_lt (hlt j hj)] at hij
  omega

theorem deltaGroups_flatten (epp bump batch n : Nat) : ∀ pages : List Nat,
    ∃ rest, (deltaGroups epp bump batch n pages).flatten ++ rest = pages := by
  induction n with
  | zero => exact fun pages => ⟨pages,rfl⟩
  | succ n ih =>
    intro pages
    have happ := gatherPages_append epp bump batch pages 0
    obtain ⟨taken,left,htl⟩ : ∃ taken left, gatherPages epp bump batch 0 pages = (taken,left) :=
      ⟨_,_,rfl⟩
    rw [htl] at happ
    rw [deltaGroups,htl]
    simp only
    split_ifs
    · exact ⟨pages,rfl⟩
    · obtain ⟨rest,hrest⟩ := ih left
      exact ⟨rest,by rw [flatten_cons,append_assoc,hrest]; exact happ⟩

theorem scanGroups_split (hg : g ∈ scanGroups bin bump batch) :
    ∃ before after, frozenPages bin = before ++ g ++ after := by
  obtain ⟨rest,hrest⟩ := deltaGroups_flatten bin.geom.entriesPerPage bump batch
    ((frozenPages bin).length + 1) (frozenPages bin)
  obtain ⟨l1,l2,hl⟩ := append_of_mem hg
  rw [← scanGroups,hl,flatten_append,flatten_cons] at hrest
  exact ⟨l1.flatten,l2.flatten ++ rest,by rw [← hrest]; simp only [append_assoc]⟩

theorem scanGroups_disjoint (h : TreeInv bin.dirty.ckpt) :
    (scanGroups bin bump batch).Pairwise List.Disjoint := by
  have hasc := treePages_ascending h bin.dirty.capacity maxDirty
  obtain ⟨rest,hrest⟩ := deltaGroups_flatten bin.geom.entriesPerPage bump batch
    ((frozenPages bin).length + 1) (frozenPages bin)
  have hnd : (frozenPages bin).Nodup := hasc.imp Nat.ne_of_lt
  rw [← hrest] at hnd
  exact (nodup_flatten.mp (List.Nodup.of_append_left hnd)).2

end Ranges

def Exact (bin : DimBin) (bump : Nat) (slots : List Nat) : Prop :=
  slots.Nodup ∧ ∀ e, e ∈ slots ↔ Wanted bin bump e

section Sufficient

variable {bin : DimBin} {bump batch : Nat}

theorem exact_of_scan (h : TreeInv bin.dirty.ckpt) (hb : batch < 2 ^ 31) (hbump : bump < 2 ^ 32)
    (hs : ScanExact bin bump batch) :
    Exact bin bump ((scanGroups bin bump batch).flatMap (groupEntries bin bump batch)) := by
  obtain ⟨hlisted,hranges⟩ := hs
  have hmem : ∀ g ∈ scanGroups bin bump batch, ∀ e, e ∈ groupEntries bin bump batch g ↔
      e < bump ∧ exportKey bin e ≠ 0 ∧ bin.geom.pageOf e ∈ g := by
    intro g hg e
    rw [mem_groupEntries hb]
    constructor
    · rintro ⟨x,hx,hkey,rfl⟩
      obtain ⟨hlt,hpage⟩ := (hranges g hg x hkey).mp hx
      rw [Nat.mod_eq_of_lt (by omega)]
      exact ⟨hlt,hkey,hpage⟩
    · rintro ⟨hlt,hkey,hpage⟩
      exact ⟨e,(hranges g hg e hkey).mpr ⟨hlt,hpage⟩,hkey,Nat.mod_eq_of_lt (by omega)⟩
  refine ⟨nodup_flatMap.mpr ⟨?_,?_⟩,?_⟩
  · intro g hg
    refine nodup_groupEntries hb (fun x hkey hx => ?_)
    have := ((hranges g hg x hkey).mp hx).1
    omega
  · refine (scanGroups_disjoint h).imp_of_mem ?_
    intro g g' hg hg' hdisj e he he'
    exact hdisj ((hmem g hg e).mp he).2.2 ((hmem g' hg' e).mp he').2.2
  · intro e
    rw [mem_flatMap]
    constructor
    · rintro ⟨g,hg,he⟩
      obtain ⟨hlt,hkey,hpage⟩ := (hmem g hg e).mp he
      obtain ⟨before,after,hsplit⟩ := scanGroups_split hg
      refine ⟨hlt,hkey,(mem_frozenPages h ?_).2⟩
      rw [hsplit]
      exact mem_append_left _ (mem_append_right _ hpage)
    · intro hw
      obtain ⟨g,hg,hpage⟩ := hlisted e hw
      exact ⟨g,hg,(hmem g hg e).mpr ⟨hw.1,hw.2.1,hpage⟩⟩

end Sufficient

section Necessary

variable {bin : DimBin} {bump batch e : Nat} {g : List Nat}

theorem widenRange_fst (epp bump : Nat) (r : Nat × Nat) (pg : Nat) :
    (widenRange epp bump r pg).1 = min (pageExtent epp bump pg).1 r.1 := by
  simp only [widenRange]
  split_ifs <;> omega

theorem widenRange_snd (epp bump : Nat) (r : Nat × Nat) (pg : Nat) :
    (widenRange epp bump r pg).2 = max (pageExtent epp bump pg).2 r.2 := by
  simp only [widenRange]
  split_ifs <;> omega

theorem widenRange_spec (epp bump : Nat) (pages : List Nat) : ∀ r r' : Nat × Nat,
    pages.foldl (widenRange epp bump) r = r' →
    (r'.1 = r.1 ∨ ∃ p ∈ pages, r'.1 = (pageExtent epp bump p).1) ∧
      (r'.2 = r.2 ∨ ∃ p ∈ pages, r'.2 = (pageExtent epp bump p).2) ∧ r.2 ≤ r'.2 ∧
      ∀ p ∈ pages, (pageExtent epp bump p).2 ≤ r'.2 := by
  induction pages with
  | nil =>
    rintro r _ rfl
    exact ⟨.inl rfl,.inl rfl,Nat.le_refl _,by simp⟩
  | cons pg rest ih =>
    intro r r' hr
    obtain ⟨h1,h2,h3,h4⟩ := ih _ r' hr
    rw [widenRange_fst] at h1
    rw [widenRange_snd] at h2 h3
    refine ⟨?_,?_,by omega,?_⟩
    · rcases h1 with h | ⟨p,hp,h⟩
      · rcases min_choice (pageExtent epp bump pg).1 r.1 with hc | hc
        · exact .inr ⟨pg,mem_cons_self,h.trans hc⟩
        · exact .inl (h.trans hc)
      · exact .inr ⟨p,mem_cons_of_mem pg hp,h⟩
    · rcases h2 with h | ⟨p,hp,h⟩
      · rcases max_choice (pageExtent epp bump pg).2 r.2 with hc | hc
        · exact .inr ⟨pg,mem_cons_self,h.trans hc⟩
        · exact .inl (h.trans hc)
      · exact .inr ⟨p,mem_cons_of_mem pg hp,h⟩
    · intro p hp
      rcases mem_cons.mp hp with rfl | hp
      · omega
      · exact h4 p hp

theorem pageExtent_eq {epp p : Nat} (hp : p * epp + epp < 2 ^ 32) :
    pageExtent epp bump p = (p * epp,min (p * epp + epp) bump) := by
  rw [pageExtent,Nat.mod_eq_of_lt (show p * epp < 2 ^ 32 by omega),Nat.mod_eq_of_lt hp]
  simp only [Prod.mk.injEq,true_and]
  split_ifs <;> omega

theorem inRange_between {epp : Nat} (hepp : epp = bin.geom.entriesPerPage)
    (hpages : ∀ p ∈ g, p * epp + epp < 2 ^ 32)
    (hstart : (gatheredKeys epp bump batch g).1 ≠ 2 ^ 32 - 1) (he : InRange bin bump batch g e)
    (hlt : e < bump) : ∃ p ∈ g, ∃ q ∈ g, p ≤ bin.geom.pageOf e ∧ bin.geom.pageOf e ≤ q := by
  have hpos : 0 < epp := by
    rw [hepp]
    exact bin.geom.entries_pos
  obtain ⟨hlo,hhi⟩ := he
  rw [← hepp] at hlo hhi
  obtain ⟨h1,h2,_,h4⟩ := widenRange_spec epp bump g (2 ^ 32 - 1,0) (gatheredRange epp bump g) rfl
  have hkeys : gatheredKeys epp bump batch g = ((gatheredRange epp bump g).1,
    min (sub32 (gatheredRange epp bump g).2 (gatheredRange epp bump g).1) batch) := rfl
  rw [hkeys] at hlo hhi hstart
  simp only at hlo hhi hstart
  obtain ⟨p,hp,hps⟩ := h1.resolve_left hstart
  have hstop := h4 p hp
  rw [pageExtent_eq (hpages p hp)] at hps hstop
  simp only at hps hstop
  rcases h2 with h2 | ⟨q,hq,hqs⟩
  · rw [h2] at hstop
    omega
  · rw [pageExtent_eq (hpages q hq)] at hqs
    simp only at hqs
    have hsub : sub32 (gatheredRange epp bump g).2 (gatheredRange epp bump g).1 =
        (gatheredRange epp bump g).2 - (gatheredRange epp bump g).1 := if_pos (by omega)
    rw [hsub] at hhi
    clear h1 h4 hkeys
    refine ⟨p,hp,q,hq,?_,?_⟩
    · rw [Geometry.pageOf,← hepp,Nat.le_div_iff_mul_le hpos]
      omega
    · rw [Geometry.pageOf,← hepp,← Nat.lt_succ_iff,Nat.div_lt_iff_lt_mul hpos,Nat.succ_mul]
      omega

theorem deltaGroups_start (epp bump batch n : Nat) : ∀ pages : List Nat,
    ∀ g ∈ deltaGroups epp bump batch n pages, (gatheredKeys epp bump batch g).1 ≠ 2 ^ 32 - 1 := by
  induction n with
  | zero => exact fun pages g hg => absurd hg not_mem_nil
  | succ n ih =>
    intro pages g hg
    rw [deltaGroups] at hg
    simp only at hg
    split_ifs at hg with hend
    · exact absurd hg not_mem_nil
    · rcases mem_cons.mp hg with rfl | hg
      · exact hend
      · exact ih _ g hg

theorem mem_group_of_between (h : TreeInv bin.dirty.ckpt) (hg : g ∈ scanGroups bin bump batch)
    {p q x : Nat} (hp : p ∈ g) (hq : q ∈ g) (hpx : p ≤ x) (hxq : x ≤ q)
    (hx : Marked bin.dirty.ckpt x) : x ∈ g := by
  obtain ⟨before,after,hsplit⟩ := scanGroups_split hg
  have hasc : (frozenPages bin).Pairwise (· < ·) :=
    treePages_ascending h bin.dirty.capacity maxDirty
  have hmem : x ∈ frozenPages bin := by
    refine mem_treePages_of_le h (q := q) ?_ hxq hx
    rw [← ckptPages,← frozenPages,hsplit]
    exact mem_append_left _ (mem_append_right _ hq)
  rw [hsplit] at hasc hmem
  obtain ⟨hleft,_,hafter⟩ := pairwise_append.mp hasc
  have hbefore := (pairwise_append.mp hleft).2.2
  rcases mem_append.mp hmem with hmem | hmem
  · rcases mem_append.mp hmem with hmem | hmem
    · exact absurd (hbefore x hmem p hp) (by omega)
    · exact hmem
  · exact absurd (hafter q (mem_append_right _ hq) x hmem) (by omega)

theorem scan_of_exact (h : TreeInv bin.dirty.ckpt) (hb : batch < 2 ^ 31)
    (hkeys : bin.keyFileSize ≤ 2 ^ 32) (hpages : ∀ p ∈ frozenPages bin,
      p * bin.geom.entriesPerPage + bin.geom.entriesPerPage < 2 ^ 32)
    (hx : Exact bin bump ((scanGroups bin bump batch).flatMap (groupEntries bin bump batch))) :
    ScanExact bin bump batch := by
  have hsmall : ∀ x, exportKey bin x ≠ 0 → x % 2 ^ 32 = x := by
    intro x hkey
    rw [exportKey] at hkey
    split_ifs at hkey with hlt
    · exact Nat.mod_eq_of_lt (by omega)
    · exact absurd rfl hkey
  -- What a group dumps is wanted, so it is on a page of the group.
  have hpage : ∀ g ∈ scanGroups bin bump batch, ∀ x, exportKey bin x ≠ 0 →
      InRange bin bump batch g x → x < bump ∧ bin.geom.pageOf x ∈ g := by
    intro g hg x hkey hin
    have hdumped : x ∈ groupEntries bin bump batch g :=
      (mem_groupEntries hb).mpr ⟨x,hin,hkey,hsmall x hkey⟩
    obtain ⟨hlt,_,hm⟩ := (hx.2 x).mp (mem_flatMap.mpr ⟨g,hg,hdumped⟩)
    obtain ⟨before,after,hsplit⟩ := scanGroups_split hg
    obtain ⟨p,hp,q,hq,hpx,hxq⟩ := inRange_between rfl (fun p hp => hpages p (by
        rw [hsplit]
        exact mem_append_left _ (mem_append_right _ hp)))
      (deltaGroups_start _ _ _ _ _ g hg) hin hlt
    exact ⟨hlt,mem_group_of_between h hg hp hq hpx hxq hm⟩
  have hgroup : ∀ x, Wanted bin bump x → ∃ g ∈ scanGroups bin bump batch,
      InRange bin bump batch g x ∧ bin.geom.pageOf x ∈ g := by
    intro x hw
    obtain ⟨g,hg,hdumped⟩ := mem_flatMap.mp ((hx.2 x).mpr hw)
    obtain ⟨y,hin,hkey,hyx⟩ := (mem_groupEntries hb).mp hdumped
    obtain rfl : y = x := (hsmall y hkey).symm.trans hyx
    exact ⟨g,hg,hin,(hpage g hg y hkey hin).2⟩
  refine ⟨fun x hw => ?_,fun g hg x hkey => ⟨hpage g hg x hkey,?_⟩⟩
  · obtain ⟨g,hg,_,hmem⟩ := hgroup x hw
    exact ⟨g,hg,hmem⟩
  · rintro ⟨hlt,hmem⟩
    obtain ⟨before,after,hsplit⟩ := scanGroups_split hg
    have hm := (mem_frozenPages h (p := bin.geom.pageOf x) (by
      rw [hsplit]
      exact mem_append_left _ (mem_append_right _ hmem))).2
    obtain ⟨g',hg',hin,hmem'⟩ := hgroup x ⟨hlt,hkey,hm⟩
    by_cases hgg : g = g'
    · rw [hgg]
      exact hin
    · have : Std.Symm (List.Disjoint (α := Nat)) := ⟨fun _ _ hd => hd.symm⟩
      exact absurd hmem' ((scanGroups_disjoint h).forall hg hg' hgg hmem)

end Necessary

/-- What a delta export needs to be exact. A limit of `batch_entries` above `INT_MAX` is
compared as a negative number, and then nothing is dumped. -/
def ExportFits (bin : DimBin) (bump batch : Nat) : Prop :=
  if batch < 2 ^ 31 then ScanExact bin bump batch else ∀ e, ¬ Wanted bin bump e

theorem groupEntries_huge {bin : DimBin} {bump batch : Nat} (hb : ¬ batch < 2 ^ 31)
    (g : List Nat) : groupEntries bin bump batch g = [] := by
  rw [groupEntries,groupOps,rangeOps,if_neg hb]
  rfl

theorem exact_groups {bin : DimBin} {bump : Nat} (batch : Nat) (h : TreeInv bin.dirty.ckpt)
    (hbump : bump < 2 ^ 32) :
    (ExportFits bin bump batch →
      Exact bin bump ((scanGroups bin bump batch).flatMap (groupEntries bin bump batch))) ∧
    (bin.keyFileSize ≤ 2 ^ 32 →
      (∀ p ∈ frozenPages bin,
        p * bin.geom.entriesPerPage + bin.geom.entriesPerPage < 2 ^ 32) →
      Exact bin bump ((scanGroups bin bump batch).flatMap (groupEntries bin bump batch)) →
      ExportFits bin bump batch) := by
  by_cases hb : batch < 2 ^ 31
  · rw [ExportFits,if_pos hb]
    exact ⟨exact_of_scan h hb hbump,scan_of_exact h hb⟩
  · have hnil : (scanGroups bin bump batch).flatMap (groupEntries bin bump batch) = [] :=
      flatMap_eq_nil_iff.mpr (fun g _ => groupEntries_huge hb g)
    rw [ExportFits,if_neg hb,hnil]
    exact ⟨fun hw => ⟨nodup_nil,fun e => ⟨fun he => absurd he not_mem_nil,
      fun hwe => absurd hwe (hw e)⟩⟩,fun _ _ hx e hwe => absurd ((hx.2 e).mpr hwe) not_mem_nil⟩

def dumpedSlots (exp : CkptExport) : List Nat := exp.dump.map ExportedEntry.entryIdx

theorem dumpedSlots_eq (exp : CkptExport) : dumpedSlots exp = (dumped exp).map ReadOp.entryIdx := by
  rw [dumpedSlots,dumped,List.map_map]
  rfl

theorem groupOps_key {bin : DimBin} {bump batch : Nat} {g : List Nat} {op : ReadOp}
    (hkeys : bin.keyFileSize ≤ 2 ^ 32) (hop : op ∈ groupOps bin bump batch g) :
    op.featId = exportKey bin op.entryIdx := by
  obtain ⟨i,hi,rfl⟩ := List.mem_map.mp (mem_of_mem_take hop)
  have hkey := of_decide_eq_true (mem_filter.mp hi).2
  simp only
  rw [Nat.mod_eq_of_lt]
  rw [exportKey] at hkey
  split_ifs at hkey with hlt
  · omega
  · exact absurd rfl hkey

/-- A delta export, stepped until it is done, dumps the wanted entries and nothing else, each of
them once, exactly if its batches fit the dirty pages. -/
theorem delta_export_exact (bin : DimBin) (baseGen : UInt64) (batchEntries : UInt32) (uring : Bool)
    (keyJunk : Nat → UInt64) (poolJunk : Nat → UInt8) (h : TreeInv bin.dirty.ckpt)
    (hfile : bin.keyFileSize ≤ bin.keys.size) (hb : batchEntries ≠ 0)
    (hring : uring = true → batchEntries.toNat < 2 ^ 29) :
    ∃ fuel exp, exportUntilDone bin fuel (graveldbCkptExportBegin bin .delta baseGen batchEntries
        uring keyJunk poolJunk) = some exp ∧
      (ExportFits bin (bin.bumpPtr % 2 ^ 32) batchEntries.toNat →
        Exact bin (bin.bumpPtr % 2 ^ 32) (dumpedSlots exp)) ∧
      (bin.keyFileSize ≤ 2 ^ 32 →
        (∀ p ∈ frozenPages bin,
          p * bin.geom.entriesPerPage + bin.geom.entriesPerPage < 2 ^ 32) →
        Exact bin (bin.bumpPtr % 2 ^ 32) (dumpedSlots exp) →
        ExportFits bin (bin.bumpPtr % 2 ^ 32) batchEntries.toNat) ∧
      (bin.keyFileSize ≤ 2 ^ 32 →
        ∀ x ∈ exp.dump, x.entry.featId = exportKey bin x.entryIdx) := by
  obtain ⟨exp0,hexp0⟩ : ∃ exp0, exp0 = graveldbCkptExportBegin bin .delta baseGen batchEntries
    uring keyJunk poolJunk := ⟨_,rfl⟩
  have hbatch : exp0.batchEntries = batchEntries.toNat := by
    rw [hexp0]
    exact if_neg hb
  have hpos : 0 < batchEntries.toNat := by
    refine Nat.pos_of_ne_zero (fun h0 => hb ?_)
    exact UInt32.toNat_inj.mp h0
  obtain ⟨fuel,exp,hrun,hdump⟩ := export_groups hfile ((frozenPages bin).length + 1) exp0
    (by rw [hexp0]; exact Nat.lt_succ_self _) (by rw [hbatch]; exact hpos)
    (by rw [hbatch,hexp0]; exact hring) (by rw [hexp0]; exact ⟨rfl,rfl⟩) (by rw [hexp0]; rfl)
    (by rw [hexp0]; rfl)
  rw [hbatch,show exp0.snapshotBump = bin.bumpPtr % 2 ^ 32 by rw [hexp0]; rfl,
    show exp0.dirtyPages = frozenPages bin by rw [hexp0]; rfl,
    show dumped exp0 = [] by rw [hexp0]; rfl,nil_append,← scanGroups] at hdump
  have hslots : dumpedSlots exp = (scanGroups bin (bin.bumpPtr % 2 ^ 32)
      batchEntries.toNat).flatMap (groupEntries bin (bin.bumpPtr % 2 ^ 32) batchEntries.toNat) := by
    rw [dumpedSlots_eq,hdump,map_flatMap]
    rfl
  obtain ⟨hsuff,hnec⟩ := exact_groups batchEntries.toNat h
    (Nat.mod_lt bin.bumpPtr (by decide))
  rw [← hexp0]
  refine ⟨fuel,exp,hrun,by rw [hslots]; exact hsuff,by rw [hslots]; exact hnec,?_⟩
  intro hkeys x hx
  have hop : (⟨x.entry.featId,x.entryIdx⟩ : ReadOp) ∈ dumped exp := List.mem_map_of_mem hx
  rw [hdump] at hop
  obtain ⟨g,_,hop⟩ := mem_flatMap.mp hop
  exact groupOps_key hkeys hop

def twoKeys : Option DimBin :=
  smallBin [.alloc,.alloc,.bufKey 0 1,.bufKey 1 2,.putBatch [⟨0,fun _ => 1⟩,⟨1,fun _ => 2⟩],
    .flush,.checkpointBegin 0]

/-- Batches of two entries fit the page. -/
theorem two_keys_exported :
    ∃ s fuel exp, twoKeys = some s ∧ exportUntilDone s fuel
        (graveldbCkptExportBegin s .delta 0 2 false (fun _ => 0) (fun _ => 0)) = some exp ∧
      Exact s (s.bumpPtr % 2 ^ 32) (dumpedSlots exp) := by
  obtain ⟨s,hs⟩ := isSome_iff_exists.mp (by decide +kernel : twoKeys.isSome)
  have hfacts : twoKeys.map (fun s => decide (s.keyFileSize ≤ s.keys.size ∧
      (∀ e < s.bumpPtr % 2 ^ 32, ∃ g ∈ scanGroups s (s.bumpPtr % 2 ^ 32) 2,
        s.geom.pageOf e ∈ g) ∧
      ∀ g ∈ scanGroups s (s.bumpPtr % 2 ^ 32) 2, ∀ e < s.keyFileSize, exportKey s e ≠ 0 →
        (InRange s (s.bumpPtr % 2 ^ 32) 2 g e ↔
          e < s.bumpPtr % 2 ^ 32 ∧ s.geom.pageOf e ∈ g))) = some true := by
    decide +kernel
  rw [hs] at hfacts
  simp only [map_some,Option.some.injEq,decide_eq_true_eq] at hfacts
  obtain ⟨hfile,hlisted,hranges⟩ := hfacts
  obtain ⟨fuel,exp,hrun,hexact,_⟩ := delta_export_exact s 0 2 false (fun _ => 0) (fun _ => 0)
    (smallBin_inv hs).tracker.ckpt hfile (by decide) (by decide)
  refine ⟨s,fuel,exp,hs,hrun,hexact ?_⟩
  refine (if_pos (by decide)).mpr ⟨fun e hw => hlisted e hw.1,fun g hg e hkey => ?_⟩
  refine hranges g hg e ?_ hkey
  by_contra hlt
  exact hkey (if_neg hlt)

/-- With batches of one entry the range that is read for the page ends after its first key. -/
theorem clamped_batch_loses_key :
    ∃ s exp, twoKeys = some s ∧ exportUntilDone s 20
        (graveldbCkptExportBegin s .delta 0 1 false (fun _ => 0) (fun _ => 0)) = some exp ∧
      Wanted s (s.bumpPtr % 2 ^ 32) 1 ∧ 1 ∉ dumpedSlots exp := by
  obtain ⟨s,hs⟩ := isSome_iff_exists.mp (by decide +kernel : twoKeys.isSome)
  have hfacts : twoKeys.bind (fun s => (exportUntilDone s 20
      (graveldbCkptExportBegin s .delta 0 1 false (fun _ => 0) (fun _ => 0))).map (fun exp =>
        decide (1 < s.bumpPtr % 2 ^ 32 ∧ exportKey s 1 ≠ 0 ∧ s.geom.pageOf 1 ∈ frozenPages s ∧
          1 ∉ dumpedSlots exp))) = some true := by
    decide +kernel
  rw [hs,bind_some] at hfacts
  obtain ⟨exp,hexp,hfacts⟩ := map_eq_some_iff.mp hfacts
  obtain ⟨hlt,hkey,hpage,hlost⟩ := of_decide_eq_true hfacts
  exact ⟨s,exp,hs,hexp,⟨hlt,hkey,(mem_frozenPages (smallBin_inv hs).tracker.ckpt hpage).2⟩,hlost⟩

end Gravel.Proofs.DeltaExact
