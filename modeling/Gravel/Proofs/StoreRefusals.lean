import Gravel.Proofs.StorePuts

namespace Gravel.Proofs.StoreRefinement
open File PutPage KeyBuffer HashIndex OverlayMap BinEntries PutRoom StoreSteps BinFrames Slots Spec
  List Option Function

def overlayHolds (s : DimBin) (e : Nat) : Bool :=
  ((overlayContains s.overlay e).map Prod.snd).getD false

/-- The overlay has entries for slots that are handed out only. -/
def OverlayOwned (s : DimBin) : Prop :=
  ∀ e, overlayHolds s e = true → e < s.bumpPtr ∧ e ∉ s.freeList

def limitAt (db : GravelDB) (i : Nat) (s : DimBin) : Limit where
  budget := s.overlay.budgetBytes
  cost := s.geom.dim * 4 + overlaySlotSize
  used := s.overlay.memoryUsed
  held f := match indexMap db.index f with
    | some (j,e) => j = i && overlayHolds s e
    | none => false

structure SamePages (s s' : DimBin) : Prop where
  writeBuf : s'.writeBuf = s.writeBuf
  geom : s'.geom = s.geom
  cell : s'.data.cell = s.data.cell
  size : s.data.size ≤ s'.data.size

def Stale (i : Nat) (s : DimBin) (db' : GravelDB) (f : UInt64) : Prop :=
  ∃ s' e, db'.bins[i]? = some s' ∧ indexMap db'.index f = some (i,e) ∧
    s'.inCheckpoint = true ∧ overlayHolds s' e = false ∧ SamePages s s'

section Groups

variable {lost lost' : UInt64 → Prop} {db db' : GravelDB} {l : Ledger} {i n k : Nat}
  {s s' : DimBin} {items : List PutItem} {m : OverlayVectors} {L : Entries}

theorem forall₂_right {α β : Type} {R : α → β → Prop} {l : List α} {l' : List β}
    (h : List.Forall₂ R l l') : ∀ b ∈ l', ∃ a ∈ l, R a b := by
  induction h with
  | nil => simp
  | cons hab _ ih =>
    intro b hb
    rcases mem_cons.mp hb with rfl | hb
    · exact ⟨_,mem_cons_self,hab⟩
    · obtain ⟨a,ha,hab⟩ := ih b hb
      exact ⟨a,mem_cons_of_mem _ ha,hab⟩

theorem forall₂_left {α β : Type} {R : α → β → Prop} {l : List α} {l' : List β}
    (h : List.Forall₂ R l l') : ∀ a ∈ l, ∃ b ∈ l', R a b :=
  forall₂_right (R := fun b a => R a b) h.flip

theorem dimbinPutBatch_overlay (hck : s.inCheckpoint = true) (entries : List EmbWriteEntry) :
    dimbinPutBatch s entries = putOverlay s entries := by
  unfold dimbinPutBatch
  split_ifs with hnil
  · rw [hnil]
    rfl
  · rfl

theorem overlayHolds_eq (h : OverlayRep s.overlay m) (hold : s.overlay.table.old = none) (e : Nat) :
    overlayHolds s e = (m e).isSome := by
  obtain ⟨t,_,hcontains,_⟩ := get_rep (e := e) h (by
    rintro ⟨o,ho,_⟩
    rw [hold] at ho
    cases ho)
  rw [overlayHolds,hcontains]
  rfl

theorem slot_was_free (h : StoreSlots db) (h' : StoreSlots db') (hbin : db.bins[i]? = some s)
    (hbin' : db'.bins[i]? = some s') (htomb : s'.overlay.tombstones = s.overlay.tombstones)
    (hgrows : ∀ f v, indexMap db.index f = some v → indexMap db'.index f = some v) {f : UInt64}
    {e : Nat} (hnone : indexMap db.index f = none) (hf : indexMap db'.index f = some (i,e)) :
    ¬ (e < s.bumpPtr ∧ e ∉ s.freeList) := by
  rintro ⟨hlt,hfree⟩
  have hp := (h.bins i s hbin).parts
  have hp' := (h'.bins i s' hbin').parts
  have hnot : e ∉ s.overlay.tombstones ++ s.freeList := by
    rw [mem_append,not_or]
    refine ⟨fun hm => ?_,hfree⟩
    refine hp'.owned_busy f e hf (mem_append_left _ ?_)
    rw [htomb]
    exact hm
  obtain ⟨g,hg⟩ := hp.cover e hlt hnot
  obtain rfl := hp'.unique g f e (hgrows g _ hg) hf
  cases hnone.symm.trans hg

theorem taken_entries {accepted : List PutItem} {entries : List EmbWriteEntry} (h : StoreSlots db)
    (h' : StoreSlots db') (hbin : db.bins[i]? = some s) (hbin' : db'.bins[i]? = some s')
    (hover : s'.overlay = s.overlay)
    (hgrows : ∀ f v, indexMap db.index f = some v → indexMap db'.index f = some v)
    (hrep : OverlayRep s.overlay m) (hold : s.overlay.table.old = none) (howned : OverlayOwned s)
    (hwrites : List.Forall₂ (WriteOf (indexMap db'.index) i) accepted entries) (budget cost used) :
    Budget.taken budget cost (limitAt db i s).held used (accepted.map PutItem.featId) =
      Budget.taken budget cost (fun e => (m e).isSome) used
        (entries.map EmbWriteEntry.entryId) := by
  refine Budget.taken_rel (R := fun f e => indexMap db'.index f = some (i,e)) ?_ ?_ _ _ _ ?_
  · intro f e f' e' hf hf'
    constructor
    · rintro rfl
      rw [hf] at hf'
      cases hf'
      rfl
    · rintro rfl
      exact (h'.bins i s' hbin').parts.unique f f' e hf hf'
  · rw [forall₂_map_left_iff,forall₂_map_right_iff]
    exact hwrites.imp fun _ _ hw => hw.1
  · intro f e hf
    have hholds := overlayHolds_eq hrep hold e
    simp only [limitAt]
    cases hfound : indexMap db.index f with
    | some v =>
      have hv := hgrows f v hfound
      rw [hf] at hv
      cases hv
      simp [hholds]
    | none =>
      have hfree := slot_was_free h h' hbin hbin' (by rw [hover]) hgrows hfound hf
      simp only
      rw [← hholds]
      exact ((Bool.eq_false_iff.mpr fun hh => hfree (howned e hh))).symm

theorem FirstPass.secondPass {st : VectorStore} {accepted late : List PutItem}
    {writes new : List EmbWriteEntry} (h : FirstPass lost db st i s n accepted late db' s' writes new)
    (hslots : StoreSlots db) (hbin : db.bins[i]? = some s) (hck : s.inCheckpoint = true)
    (hspace : OverlayRoom s n) (howned : OverlayOwned s) (hlen : (accepted ++ late).length ≤ n)
    (hload : db'.index.count * 10 ≤ db'.index.capacity * 7)
    (hk : accepted.length = Budget.taken (limitAt db i s).budget (limitAt db i s).cost
      (limitAt db i s).held (limitAt db i s).used ((accepted ++ late).map PutItem.featId)) :
    ∃ s'', dimbinPutBatch s' (writes ++ new) =
        some (s'',if accepted.length < (accepted ++ late).length then .errBusy else .ok) ∧
      Settles lost (modifyBin db' i s'') st ∧ s''.inCheckpoint = true ∧
      s''.overlay.table.old = none ∧ SamePages s s'' ∧ ∀ f e, indexMap db'.index f = some (i,e) → indexMap db.index f = none →
        f ∉ accepted.map PutItem.featId → overlayHolds s'' e = false := by
  have hholds := h.rep.bins i s' h.bin
  rw [update_self] at hholds
  obtain ⟨m,L,hrep,hL⟩ := hholds.rep
  have hck' : s'.inCheckpoint = true := h.allotted.kept.inCheckpoint.trans hck
  have hspace' : OverlayRoom s' n := by
    simp only [OverlayRoom,OverlaySpace,newVectors,overlayCost,h.allotted.kept.overlay,h.allotted.kept.geom]
    exact hspace
  have hover : OverlayRep s.overlay m := by
    rw [← h.allotted.kept.overlay]
    exact hrep.overlayRep hck'
  have hwrites : List.Forall₂ (WriteOf (indexMap db'.index) i) (accepted ++ late) (writes ++ new) :=
    rel_append h.stored h.left
  have hentries : ∀ w ∈ writes ++ new, Owned s' w.entryId := by
    intro w hw
    obtain ⟨item,_,hone⟩ := forall₂_right hwrites w hw
    exact owned_of_index (h.rep.slots.bins i s' h.bin) hone.1
  have hcharged := taken_entries hslots h.rep.slots hbin h.bin h.allotted.kept.overlay h.touched.grows hover
    hspace.1 howned hwrites (limitAt db i s).budget (limitAt db i s).cost (limitAt db i s).used
  rw [← hk] at hcharged
  have hlength := hwrites.length_eq
  have hfit := newVectors_covers s' (show (writes ++ new).length ≤ n by omega)
  obtain ⟨s'',m'',hput,hframe,hrep'',hold'',hm''⟩ := BinRep.putTaken hrep hck' hspace'
    hfit hentries (k := accepted.length) (by
      rw [hcharged,h.allotted.kept.overlay,h.allotted.kept.geom]
      rfl)
  have htake : (writes ++ new).take accepted.length = writes := by
    rw [h.stored.length_eq,take_left]
  rw [htake] at hrep'' hm''
  have hgeom : s''.geom = s'.geom := by rw [hframe]
  have hput' : dimbinPutBatch s' (writes ++ new) =
      some (s'',if accepted.length < (accepted ++ late).length then .errBusy else .ok) := by
    rw [dimbinPutBatch_overlay hck',hput,hlength]
  have hslots' := putStep_slots h.rep.slots hload h.rep.small (.write h.bin hput') rfl
  have hstored : BinHolds lost (indexMap db'.index) st.vectors i s'' [] := by
    refine ⟨⟨m'',_,hrep'',?_⟩,by simp,?_⟩
    · intro f e hf
      rw [hgeom]
      obtain ⟨v,hfv,hv⟩ := hL f e hf
      exact ⟨v,hfv,fun hl => by simpa [lastWrite] using hv hl⟩
    · intro e he
      rw [hframe] at he
      rw [show keyAt s'' e = keyAt s' e by rw [hframe]; rfl]
      exact hholds.mirror e he
  have hone := h.rep.one h.bin hslots' hgeom hstored
  rw [update_idem,update_eq_self_iff.mpr rfl] at hone
  refine ⟨s'',hput',hone,by rw [hframe]; exact hck',hold'',?_,?_⟩
  · have hk := h.allotted.kept
    rw [hframe]
    exact ⟨hk.writeBuf,hk.geom,hk.cell,hk.size⟩
  · intro f e hf hnone hnot
    rw [overlayHolds_eq (hrep''.overlayRep (by rw [hframe]; exact hck')) hold'' e,Bool.eq_false_iff]
    intro hsome
    have hfree := slot_was_free hslots h.rep.slots hbin h.bin (by rw [h.allotted.kept.overlay])
      h.touched.grows hnone hf
    rcases hm'' e hsome with hsome | hmem
    · rw [← overlayHolds_eq hover hspace.1 e] at hsome
      exact hfree (howned e hsome)
    · obtain ⟨w,hw,hwe⟩ := List.mem_map.mp hmem
      obtain ⟨item,hitem,hof⟩ := forall₂_right h.stored w hw
      have hsame := (h.rep.slots.bins i s' h.bin).parts.unique item.featId f e (hwe ▸ hof.1) hf
      exact hnot (List.mem_map.mpr ⟨item,hitem,hsame⟩)

theorem StoreRep.putLimited (h : Settles (· ∈ l.refused) db l.st) (hbin : db.bins[i]? = some s)
    (hck : s.inCheckpoint = true) (hdims : ∀ item ∈ items, item.dim = s.geom.dim)
    (hspace : OverlayRoom s items.length) (hroom : s.bumpPtr + items.length < 2 ^ 32)
    (hindex : IndexRoom db.index items.length) (howned : OverlayOwned s) {l' : Ledger}
    (hl' : l' = l.putGroup (some (limitAt db i s)) items) :
    ∃ db', Gravel.putGroup db i l.rc items = some (db',l'.rc) ∧
      Settles (· ∈ l'.refused) db' l'.st ∧ Touched i items.length db db' ∧
      (∃ s', db'.bins[i]? = some s' ∧ s'.geom = s.geom ∧ s'.overlay.table.old = none) ∧
      ∀ f ∈ l'.refused, f ∈ l.refused ∨ Stale i s db' f := by
  obtain ⟨k,hk⟩ : ∃ k, k = Budget.taken (limitAt db i s).budget (limitAt db i s).cost
    (limitAt db i s).held (limitAt db i s).used
    ((items.filter l.st.accepts).map PutItem.featId) := ⟨_,rfl⟩
  have hle : k ≤ (items.filter l.st.accepts).length := by
    rw [hk,← length_map PutItem.featId]
    exact Budget.taken_le _ _ _
  have hst : l'.st = ((items.filter l.st.accepts).drop k).foldl VectorStore.claimOne
      (((items.filter l.st.accepts).take k).foldl VectorStore.putOne l.st) := by
    simp only [hl',Ledger.putGroup,← hk]
  have hrefused : l'.refused = l.refused ++
      (((items.filter l.st.accepts).drop k).map PutItem.featId).filter (fun f =>
        ((((items.filter l.st.accepts).take k).foldl VectorStore.putOne l.st).vectors f).isNone) := by
    simp only [hl',Ledger.putGroup,← hk]
  have hrc : l'.rc = if k < (items.filter l.st.accepts).length then .errBusy else
      if items.any l.st.rejects then .errDimMismatch else l.rc := by
    simp only [hl',Ledger.putGroup,← hk]
  have hmore : ∀ f, f ∈ l.refused → f ∈ l'.refused := by
    intro f hf
    rw [hrefused]
    exact mem_append_left _ hf
  have hlate : ∀ item ∈ (items.filter l.st.accepts).drop k, l.st.vectors item.featId = none →
      item.featId ∉ ((items.filter l.st.accepts).take k).map PutItem.featId →
      item.featId ∈ l'.refused := by
    intro item hm hnone hnot
    rw [hrefused]
    refine mem_append_right _ (mem_filter.mpr ⟨mem_map_of_mem hm,?_⟩)
    rw [VectorStore.foldl_other hnot,hnone]
    rfl
  obtain ⟨db1,s1,writes,new,hputs,hpass⟩ := h.firstPass hbin hdims hroom hindex k hmore hlate l.rc
  have hlength : ((items.filter l.st.accepts).take k).length = k := by
    rw [length_take]
    exact Nat.min_eq_left hle
  have hcount := hpass.touched.count
  have hcap := hpass.touched.capacity
  have hload := hindex.2
  obtain ⟨s2,hbatch,hrep,hck2,hold2,hpages,hmissing⟩ := hpass.secondPass h.slots hbin hck hspace howned
    (by rw [take_append_drop]; exact length_filter_le _ _) (by rw [hcap]; omega)
    (by rw [take_append_drop,← hk]; exact hlength)
  rw [← hst] at hrep
  refine ⟨modifyBin db1 i s2,?_,hrep,?_,⟨s2,modifyBin_self hpass.bin s2,hpages.geom,hold2⟩,?_⟩
  · rw [take_append_drop,hlength] at hbatch
    simp only [Gravel.putGroup,reserveIn,hbin,hputs,putBatchIn,hpass.bin,hbatch,bind_eq_bind,
      bind_some,Option.pure_def,hrc]
    by_cases hbusy : k < (items.filter l.st.accepts).length
    · rw [if_pos hbusy,if_pos hbusy]
      rfl
    · rw [if_neg hbusy,if_neg hbusy]
      rfl
  · have hall := hpass.touched.trans (touched_bin db1 i 0 s2)
    rwa [Nat.add_zero] at hall
  · intro f hf
    rw [hrefused] at hf
    rcases mem_append.mp hf with hf | hf
    · exact .inl hf
    · obtain ⟨hlate,hnone⟩ := mem_filter.mp hf
      obtain ⟨habsent,hnot⟩ := VectorStore.foldl_absent
        (fun x hx => hdims x (mem_filter.mp (mem_of_mem_take hx)).1) (isNone_iff_eq_none.mp hnone)
      obtain ⟨item,hitem,rfl⟩ := List.mem_map.mp hlate
      obtain ⟨w,_,hw⟩ := forall₂_left hpass.left item hitem
      refine .inr ⟨s2,w.entryId,modifyBin_self hpass.bin s2,hw.1,hck2,?_,hpages⟩
      refine hmissing _ _ hw.1 (h.unindexed habsent) ?_
      intro hm
      obtain ⟨x,hx,hxf⟩ := List.mem_map.mp hm
      exact hnot x hx (mem_filter.mp (mem_of_mem_take hx)).2 hxf

end Groups

end Gravel.Proofs.StoreRefinement
