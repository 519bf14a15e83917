import Gravel.Proofs.DirtySet
import Mathlib.Data.Finset.Sort

namespace Gravel.Proofs.DirtyScan
open DirtySet List Option

section Loops

variable {n : DirtyNode} {maxPages depth base : Nat} {maxOut : Int} {β α : Type}

theorem take_append_take (m : Nat) (l l' : List β) :
    (l.take m ++ l').take m = (l ++ l').take m := by
  rw [take_append,take_append,take_take,Nat.min_self,length_take]
  congr 2
  omega

theorem foldl_take {m : Int} {step : List β → α → List β} {found : α → List β}
    (l : List α) : ∀ (out : List β), out.length ≤ m.toNat →
    (∀ x ∈ l, ∀ out, (out.length : Int) < m → step out x = (out ++ found x).take m.toNat) →
    l.foldl (fun out x => if (out.length : Int) < m then step out x else out) out =
      (out ++ l.flatMap found).take m.toNat := by
  induction l with
  | nil =>
    intro out hout _
    rw [foldl_nil,flatMap_nil,append_nil,take_of_length_le hout]
  | cons x l ih =>
    intro out hout hstep
    have hrest : ∀ y ∈ l, ∀ out, (out.length : Int) < m → step out y = (out ++ found y).take m.toNat :=
      fun y hy => hstep y (mem_cons_of_mem x hy)
    rw [foldl_cons,flatMap_cons,← append_assoc]
    by_cases hlt : (out.length : Int) < m
    · rw [if_pos hlt,hstep x (mem_cons_self ..) out hlt,ih _ (length_take_le _ _) hrest,
        take_append_take]
    · have hfull : m.toNat ≤ out.length := by omega
      rw [if_neg hlt,ih out hout hrest,append_assoc,take_append_of_le_length hfull,
        take_append_of_le_length hfull]

theorem filter_map_eq (f : α → Nat) (bound : Nat) (l : List α) :
    (l.map f).filter (· < bound) = l.flatMap (fun x => if f x < bound then [f x] else []) := by
  induction l with
  | nil => rfl
  | cons x l ih =>
    rw [map_cons,filter_cons,flatMap_cons,ih]
    by_cases hx : f x < bound <;> simp [hx]

theorem nodeScan_eq : ∀ {depth base : Nat} {n : DirtyNode} (out : List Nat),
    base + 64 ^ (depth + 1) ≤ 2 ^ 32 → out.length ≤ maxOut.toNat →
    nodeScan maxPages maxOut depth base n out =
      (out ++ nodePages maxPages depth base n).take maxOut.toNat := by
  intro depth
  induction depth with
  | zero =>
    intro base n out hbase hout
    rw [nodePages,filter_map_eq]
    refine foldl_take _ out hout ?_
    intro bit hbit out hlt
    have h64 := mem_range.mp (mem_filter.mp hbit).1
    have hmod : (base + bit) % 2 ^ 32 = base + bit := Nat.mod_eq_of_lt (by omega)
    simp only [hmod]
    split_ifs
    · refine (take_of_length_le ?_).symm
      rw [length_append,length_singleton]
      omega
    · rw [append_nil,take_of_length_le (by omega)]
  | succ depth ih =>
    intro base n out hbase hout
    refine foldl_take _ out hout ?_
    intro c hc out hlt
    have h64 := mem_range.mp (mem_filter.mp hc).1
    split_ifs with hnull
    · rw [append_nil,take_of_length_le (by omega)]
    · have hin : base + c * 64 ^ (depth + 1) + 64 ^ (depth + 1) ≤ 2 ^ 32 := by
        have := Nat.mul_le_mul_right (64 ^ (depth + 1)) (Nat.succ_le_of_lt h64)
        rw [Nat.succ_mul] at this
        omega
      have hpos : 0 < 64 ^ (depth + 1) := Nat.pow_pos (by decide)
      rw [shift_eq,Nat.mod_eq_of_lt (by omega)]
      exact ih out hin (by omega)

end Loops

section Trees

variable {t t' : DirtyTree} {p i offset : Nat}

theorem treeScan_eq {maxPages : Nat} {maxOut : Int} (h : TreeInv t)
    (hbound : ∀ s ∈ t.segments, (s.segmentId + 1) * t.segmentSpan ≤ 2 ^ 32) :
    treeScan t maxPages maxOut = treePages t maxPages maxOut.toNat := by
  rw [treePages,← nil_append (t.segments.flatMap _)]
  refine foldl_take _ [] (Nat.zero_le _) ?_
  intro s hs out hlt
  have hpos := h.span_pos
  have hin := hbound s hs
  rw [Nat.succ_mul] at hin
  rw [Nat.mod_eq_of_lt (by omega)]
  exact nodeScan_eq out (by rw [← h.span]; exact hin) (by omega)

theorem markSegment_ids : (markSegment t offset i).segments.map DirtySegment.segmentId =
    t.segments.map DirtySegment.segmentId := by
  apply ext_getElem?
  intro j
  simp only [markSegment,getElem?_map,getElem?_modify]
  split_ifs
  · cases t.segments[j]? <;> rfl
  · cases t.segments[j]? <;> rfl

theorem segmentGrow_ge (h : TreeInv t) {cap : Nat} (hgrow : segmentGrow t = some cap) :
    t.segmentCap ≤ cap := by
  by_cases hroom : t.segments.length < 32768
  · obtain ⟨cap',hgrow',hlt,_⟩ := segmentGrow_spec h hroom
    cases hgrow.symm.trans hgrow'
    by_cases hfull : t.segmentCap ≤ t.segments.length
    · omega
    · rw [segmentGrow,if_neg hfull,some_inj] at hgrow
      exact Nat.le_of_eq hgrow
  · rw [segmentGrow_none h hroom] at hgrow
    cases hgrow

theorem treeMark_ids (h : TreeInv t) (hmark : treeMark t p = some t') :
    t.segmentCap ≤ t'.segmentCap ∧ ∀ id, id ∈ t'.segments.map DirtySegment.segmentId ↔
      id = p / t.segmentSpan ∨ id ∈ t.segments.map DirtySegment.segmentId := by
  unfold treeMark at hmark
  rcases segmentFind_cases h (p / t.segmentSpan) with
    ⟨i,s,hsplit,_,hid,hfind⟩ | ⟨i,hi,_,_,hfind⟩
  · simp only [hfind] at hmark
    cases hmark
    refine ⟨Nat.le_refl _,fun id => ?_⟩
    rw [markSegment_ids]
    constructor
    · exact Or.inr
    · rintro (rfl | hin)
      · refine List.mem_map.mpr ⟨s,?_,hid⟩
        rw [hsplit]
        exact mem_append_right _ (mem_cons_self ..)
      · exact hin
  · simp only [hfind] at hmark
    obtain ⟨cap,hgrow,hmark⟩ := bind_eq_some_iff.mp hmark
    cases hmark
    refine ⟨segmentGrow_ge h hgrow,fun id => ?_⟩
    rw [markSegment_ids,List.mem_map,List.mem_map]
    constructor
    · rintro ⟨s,hs,rfl⟩
      rcases (mem_insertIdx hi).mp hs with rfl | hs
      · exact .inl rfl
      · exact .inr ⟨s,hs,rfl⟩
    · rintro (rfl | ⟨s,hs,rfl⟩)
      · exact ⟨_,(mem_insertIdx hi).mpr (.inl rfl),rfl⟩
      · exact ⟨s,(mem_insertIdx hi).mpr (.inr hs),rfl⟩

end Trees

structure Tracks (t : DirtyTree) (span : Nat) (S : Finset Nat) : Prop where
  inv : TreeInv t
  spans : t.segmentSpan = span
  marked : ∀ p, Marked t p ↔ p ∈ S
  ids : ∀ id, id ∈ t.segments.map DirtySegment.segmentId ↔ id ∈ S.image (· / span)

def touched (span : Nat) (S : Finset Nat) : Nat := (S.image (· / span)).card

section Sets

variable {t t' : DirtyTree} {S : Finset Nat} {span p : Nat}

theorem Tracks.empty (h : TreeInv (treeInit span)) (hspan : span ≠ 0) :
    Tracks (treeInit span) span ∅ := by
  refine ⟨h,if_neg hspan,fun p => ?_,fun id => ?_⟩
  · simp [not_marked_treeInit]
  · simp [treeInit]

theorem Tracks.init (estimate : Nat) :
    Tracks (treeInit (spanFromEstimate estimate)) (spanFromEstimate estimate) ∅ := by
  refine Tracks.empty (treeInit_span estimate) ?_
  unfold spanFromEstimate
  split_ifs <;> decide

theorem Tracks.reinit (h : Tracks t span S) : Tracks (treeInit t.segmentSpan) span ∅ := by
  rw [← h.spans]
  exact Tracks.empty (treeInit_inv h.inv.span h.inv.levels) (Nat.ne_of_gt h.inv.span_pos)

theorem Tracks.length (h : Tracks t span S) : t.segments.length = touched span S := by
  have hnodup : (t.segments.map DirtySegment.segmentId).Nodup := h.inv.sorted.imp Nat.ne_of_lt
  have hids : (t.segments.map DirtySegment.segmentId).toFinset = S.image (· / span) := by
    ext id
    rw [List.mem_toFinset,h.ids]
  rw [touched,← hids,toFinset_card_of_nodup hnodup,length_map]

theorem Tracks.touched_le (h : Tracks t span S) : touched span S ≤ 32768 := by
  rw [← h.length]
  have hroom := h.inv.room
  rcases h.inv.cap with hz | ⟨k,hk,hcap⟩
  · omega
  · have hpow : 2 ^ k ≤ 2 ^ 13 := Nat.pow_le_pow_right (by decide) hk
    omega

theorem Tracks.hasRoom_iff (h : Tracks t span S) :
    HasRoom t p ↔ touched span (insert p S) ≤ 32768 := by
  have hle := h.touched_le
  unfold HasRoom
  rw [h.length,h.spans]
  have hseg : (∃ s ∈ t.segments, s.segmentId = p / span) ↔ p / span ∈ S.image (· / span) := by
    rw [← h.ids,List.mem_map]
  rw [hseg]
  unfold touched at hle ⊢
  rw [Finset.image_insert,Finset.card_insert_eq_ite]
  split_ifs with hin
  · exact ⟨fun _ => hle,fun _ => .inl hin⟩
  · simp only [hin,false_or]
    omega

theorem Tracks.mark (h : Tracks t span S) (hroom : touched span (insert p S) ≤ 32768) :
    ∃ t', treeMark t p = some t' ∧ Tracks t' span (insert p S) ∧ t.segmentCap ≤ t'.segmentCap := by
  obtain ⟨t',hmark,hinv,hspan,hmarked⟩ := treeMark_spec h.inv (h.hasRoom_iff.mpr hroom)
  obtain ⟨hcap,hids⟩ := treeMark_ids h.inv hmark
  refine ⟨t',hmark,⟨hinv,by rw [hspan,h.spans],fun q => ?_,fun id => ?_⟩,hcap⟩
  · rw [hmarked,h.marked,Finset.mem_insert,or_comm]
  · rw [hids,h.ids,h.spans,Finset.image_insert,Finset.mem_insert]

theorem Tracks.mark_none (h : Tracks t span S) (hroom : ¬ touched span (insert p S) ≤ 32768) :
    treeMark t p = none := treeMark_none h.inv (fun hr => hroom (h.hasRoom_iff.mp hr))

def listed (S : Finset Nat) (maxPages : Nat) : List Nat := (S.filter (· < maxPages)).sort

theorem eq_sort {l : List Nat} (hasc : l.Pairwise (· < ·))
    (hmem : ∀ p, p ∈ l ↔ p ∈ S) : l = S.sort := by
  have hset : l.toFinset = S := by
    ext p
    rw [List.mem_toFinset,hmem]
  rw [← hset]
  exact ((toFinset_sort (· ≤ ·) (hasc.imp Nat.ne_of_lt)).mpr (hasc.imp Nat.le_of_lt)).symm

theorem Tracks.treePages (h : Tracks t span S) (maxPages maxOut : Nat) :
    treePages t maxPages maxOut = (listed S maxPages).take maxOut := by
  obtain ⟨l,hl⟩ : ∃ l, l = t.segments.flatMap (fun s =>
    nodePages maxPages t.depth (s.segmentId * t.segmentSpan) s.root) := ⟨_,rfl⟩
  have hasc := treePages_ascending h.inv maxPages l.length
  rw [Gravel.treePages,← hl,take_length] at hasc
  have hsort : l = listed S maxPages := by
    refine eq_sort hasc (fun p => ?_)
    rw [hl,mem_scan h.inv,h.marked,Finset.mem_filter,and_comm]
  rw [Gravel.treePages,← hl,hsort]

theorem Tracks.scan (h : Tracks t span S) (hdiv : span ∣ 2 ^ 32) (h32 : ∀ p ∈ S, p < 2 ^ 32)
    (maxPages : Nat) (maxOut : Int) :
    treeScan t maxPages maxOut = (listed S maxPages).take maxOut.toNat := by
  rw [treeScan_eq h.inv ?_,h.treePages]
  intro s hs
  obtain ⟨p,hp,hid⟩ := Finset.mem_image.mp ((h.ids s.segmentId).mp (List.mem_map_of_mem hs))
  obtain ⟨k,hk⟩ := hdiv
  have hlt : p / span < k := Nat.div_lt_of_lt_mul (by rw [← hk]; exact h32 p hp)
  rw [h.spans,hk,← hid,Nat.mul_comm]
  exact Nat.mul_le_mul_left span hlt

theorem span_dvd (estimate : Nat) : spanFromEstimate estimate ∣ 2 ^ 32 := by
  unfold spanFromEstimate
  split_ifs <;> decide

end Sets

/-- What a caller does with a tracker; page numbers are `uint32_t`. -/
inductive TrackerOp where
  | mark (pageIdx : UInt32)
  | resize (newCapacity : UInt32)
  | swap

def trackerStep (dt : DirtyTracker) : TrackerOp → Option DirtyTracker
  | .mark pageIdx => dirtyTrackerMark dt pageIdx.toNat
  | .resize newCapacity => some (dirtyTrackerResize dt newCapacity.toNat)
  | .swap => some (dirtyTrackerSwap dt)

def trackerRun (dt : DirtyTracker) : List TrackerOp → Option DirtyTracker
  | [] => some dt
  | op :: ops => (trackerStep dt op).bind (fun dt => trackerRun dt ops)

/-- What a tracker stands for: the pages marked since the last swap, those marked between the
last two swaps, and the number of pages. -/
structure Epochs where
  active : Finset Nat
  frozen : Finset Nat
  capacity : Nat

namespace Epochs

def init (estimatedPages : Nat) : Epochs :=
  { active := ∅, frozen := ∅
    capacity := if 0 < estimatedPages then estimatedPages else 262144 }

def step (e : Epochs) : TrackerOp → Epochs
  | .mark pageIdx => { e with active := insert pageIdx.toNat e.active }
  | .resize newCapacity => { e with capacity := max e.capacity newCapacity.toNat }
  | .swap => { e with active := ∅, frozen := e.active }

def run (e : Epochs) (ops : List TrackerOp) : Epochs := ops.foldl step e

end Epochs

structure Represents (span : Nat) (dt : DirtyTracker) (e : Epochs) : Prop where
  active : Tracks dt.active span e.active
  ckpt : Tracks dt.ckpt span e.frozen
  capacity : dt.capacity = e.capacity
  active32 : ∀ p ∈ e.active, p < 2 ^ 32
  frozen32 : ∀ p ∈ e.frozen, p < 2 ^ 32

section Runs

variable {span : Nat} {dt dt' : DirtyTracker} {e : Epochs}

theorem Represents.init (estimate : Nat) :
    Represents (spanFromEstimate estimate) (dirtyTrackerInit estimate) (Epochs.init estimate) :=
  ⟨Tracks.init estimate,Tracks.init estimate,rfl,by simp [Epochs.init],by simp [Epochs.init]⟩

theorem Represents.step (h : Represents span dt e) (op : TrackerOp)
    (hroom : touched span (e.step op).active ≤ 32768) :
    ∃ dt', trackerStep dt op = some dt' ∧ Represents span dt' (e.step op) := by
  cases op with
  | mark pageIdx =>
    obtain ⟨active,hmark,htracks,_⟩ := h.active.mark hroom
    refine ⟨{ dt with active := active },by simp [trackerStep,dirtyTrackerMark,hmark],
      htracks,h.ckpt,h.capacity,?_,h.frozen32⟩
    intro p hp
    rcases Finset.mem_insert.mp hp with rfl | hp
    · exact pageIdx.toNat_lt
    · exact h.active32 p hp
  | resize newCapacity =>
    refine ⟨_,rfl,?_⟩
    have hcap := h.capacity
    unfold dirtyTrackerResize
    split_ifs with hle
    · exact ⟨h.active,h.ckpt,by simp only [Epochs.step]; omega,h.active32,h.frozen32⟩
    · exact ⟨h.active,h.ckpt,by simp only [Epochs.step]; omega,h.active32,h.frozen32⟩
  | swap =>
    exact ⟨_,rfl,h.active.reinit,h.active,h.capacity,by simp [Epochs.step],h.active32⟩

theorem Represents.run (ops : List TrackerOp) : ∀ {dt : DirtyTracker} {e : Epochs},
    Represents span dt e →
    (∀ before after, ops = before ++ after → touched span (e.run before).active ≤ 32768) →
    ∃ dt', trackerRun dt ops = some dt' ∧ Represents span dt' (e.run ops) := by
  induction ops with
  | nil =>
    intro dt e h _
    exact ⟨dt,rfl,h⟩
  | cons op ops ih =>
    intro dt e h hroom
    obtain ⟨dt1,hstep,h1⟩ := h.step op (hroom [op] ops rfl)
    obtain ⟨dt',hrun,h'⟩ := ih h1 (fun before after hsplit =>
      hroom (op :: before) after (by rw [hsplit,cons_append]))
    exact ⟨dt',by rw [trackerRun,hstep]; exact hrun,h'⟩

theorem card_active_run (ops : List TrackerOp) : ∀ (e : Epochs),
    (e.run ops).active.card ≤ e.active.card + ops.length := by
  induction ops with
  | nil => exact fun e => Nat.le_refl _
  | cons op ops ih =>
    intro e
    refine Nat.le_trans (ih (e.step op)) ?_
    have hstep : (e.step op).active.card ≤ e.active.card + 1 := by
      cases op with
      | mark pageIdx => exact Finset.card_insert_le _ _
      | resize newCapacity => exact Nat.le_succ _
      | swap => exact Nat.zero_le _
    rw [length_cons]
    omega

/-- The scans list exactly what was marked: the pages marked since the last swap, and those
marked between the last two swaps. -/
theorem scans_list_marked_pages (estimatedPages : UInt32) (ops : List TrackerOp)
    (hroom : ∀ before after, ops = before ++ after →
      touched (spanFromEstimate estimatedPages.toNat)
        ((Epochs.init estimatedPages.toNat).run before).active ≤ 32768) :
    ∃ dt, trackerRun (dirtyTrackerInit estimatedPages.toNat) ops = some dt ∧
      ∀ maxOut : Int,
        dirtyTrackerScan dt maxOut =
          (listed ((Epochs.init estimatedPages.toNat).run ops).active
            ((Epochs.init estimatedPages.toNat).run ops).capacity).take maxOut.toNat ∧
        dirtyTrackerScanCkpt dt maxOut =
          (listed ((Epochs.init estimatedPages.toNat).run ops).frozen
            ((Epochs.init estimatedPages.toNat).run ops).capacity).take maxOut.toNat := by
  obtain ⟨dt,hrun,h⟩ := (Represents.init estimatedPages.toNat).run ops hroom
  have hdiv := span_dvd estimatedPages.toNat
  refine ⟨dt,hrun,fun maxOut => ⟨?_,?_⟩⟩
  · rw [dirtyTrackerScan,h.capacity]
    exact h.active.scan hdiv h.active32 _ maxOut
  · rw [dirtyTrackerScanCkpt,h.capacity]
    exact h.ckpt.scan hdiv h.frozen32 _ maxOut

/-- Two pages before a swap and one after it. -/
theorem short_run_scans :
    ∃ dt, trackerRun (dirtyTrackerInit 100) [.mark 70,.mark 3,.swap,.mark 5] = some dt ∧
      dirtyTrackerScan dt 10 = [5] ∧ dirtyTrackerScanCkpt dt 10 = [3,70] := by
  obtain ⟨dt,hrun,hscan⟩ := scans_list_marked_pages 100 [.mark 70,.mark 3,.swap,.mark 5] (by
    intro before after hsplit
    have hlen := congrArg List.length hsplit
    rw [length_append] at hlen
    have hcard := card_active_run before (Epochs.init 100)
    refine Nat.le_trans Finset.card_image_le (Nat.le_trans hcard ?_)
    simp only [Epochs.init,Finset.card_empty,length_cons,length_nil] at hlen ⊢
    omega)
  have hactive : listed ((Epochs.init 100).run [.mark 70,.mark 3,.swap,.mark 5]).active
      ((Epochs.init 100).run [.mark 70,.mark 3,.swap,.mark 5]).capacity = [5] := by
    refine (eq_sort (by decide) (fun p => ?_)).symm
    simp [Epochs.run,Epochs.step,Epochs.init]
    omega
  have hfrozen : listed ((Epochs.init 100).run [.mark 70,.mark 3,.swap,.mark 5]).frozen
      ((Epochs.init 100).run [.mark 70,.mark 3,.swap,.mark 5]).capacity = [3,70] := by
    refine (eq_sort (by decide) (fun p => ?_)).symm
    simp [Epochs.run,Epochs.step,Epochs.init]
    omega
  obtain ⟨hscan,hckpt⟩ := hscan 10
  exact ⟨dt,hrun,hscan.trans (congrArg (List.take 10) hactive),
    hckpt.trans (congrArg (List.take 10) hfrozen)⟩

end Runs

section Growth

variable {span : Nat} {dt dt' : DirtyTracker} {S : Finset Nat} {pages : List UInt32}
  {estimate : Nat}

def pageSet (pages : List UInt32) : Finset Nat := (pages.map UInt32.toNat).toFinset

/-- Throughout the marks of `pages` the segment array is sorted, within its capacity and never
made smaller, and every page is marked. -/
def ArrayGrows (dt : DirtyTracker) (pages : List UInt32) : Prop :=
  ∀ before after, pages = before ++ after →
    ∃ dt1 dt2, trackerRun dt (before.map .mark) = some dt1 ∧
      trackerRun dt1 (after.map .mark) = some dt2 ∧
      dt1.active.segments.length ≤ dt1.active.segmentCap ∧
      (dt1.active.segments.map DirtySegment.segmentId).Pairwise (· < ·) ∧
      dt1.active.segmentCap ≤ dt2.active.segmentCap ∧
      ∀ p ∈ before, Marked dt1.active p.toNat

theorem trackerRun_append (ops ops' : List TrackerOp) : ∀ (dt : DirtyTracker),
    trackerRun dt (ops ++ ops') = (trackerRun dt ops).bind (fun dt => trackerRun dt ops') := by
  induction ops with
  | nil => exact fun dt => rfl
  | cons op ops ih =>
    intro dt
    rw [cons_append,trackerRun,trackerRun,bind_assoc]
    congr 1
    funext dt
    exact ih dt

theorem active_run_marks (pages : List UInt32) : ∀ (e : Epochs),
    (e.run (pages.map .mark)).active = pageSet pages ∪ e.active := by
  induction pages with
  | nil =>
    intro e
    exact (Finset.empty_union _).symm
  | cons p pages ih =>
    intro e
    refine (ih (e.step (.mark p))).trans ?_
    simp [pageSet,Epochs.step]

theorem Tracks.marks (pages : List UInt32) : ∀ {dt : DirtyTracker} {S : Finset Nat},
    Tracks dt.active span S → trackerRun dt (pages.map .mark) = some dt' →
    Tracks dt'.active span (pageSet pages ∪ S) ∧
      dt.active.segmentCap ≤ dt'.active.segmentCap := by
  induction pages with
  | nil =>
    intro dt S h hrun
    cases hrun
    rw [pageSet,map_nil,toFinset_nil,Finset.empty_union]
    exact ⟨h,Nat.le_refl _⟩
  | cons p pages ih =>
    intro dt S h hrun
    by_cases hroom : touched span (insert p.toNat S) ≤ 32768
    · obtain ⟨active,hmark,hadd,hcap⟩ := h.mark hroom
      have hstep : trackerStep dt (.mark p) = some { dt with active := active } := by
        simp [trackerStep,dirtyTrackerMark,hmark]
      rw [map_cons,trackerRun,hstep] at hrun
      have hadd : Tracks ({ dt with active := active } : DirtyTracker).active span
        (insert p.toNat S) := hadd
      obtain ⟨htracks,hle⟩ := ih hadd hrun
      refine ⟨?_,Nat.le_trans hcap hle⟩
      have hset : pageSet (p :: pages) ∪ S = pageSet pages ∪ insert p.toNat S := by
        simp [pageSet]
      rw [hset]
      exact htracks
    · have hstep : trackerStep dt (.mark p) = none := by
        simp [trackerStep,dirtyTrackerMark,h.mark_none hroom]
      rw [map_cons,trackerRun,hstep] at hrun
      cases hrun

theorem ArrayGrows.touched_le (h : ArrayGrows (dirtyTrackerInit estimate) pages) :
    touched (spanFromEstimate estimate) (pageSet pages) ≤ 32768 := by
  obtain ⟨dt,_,hrun,_⟩ := h pages [] (append_nil pages).symm
  have htracks := (Tracks.marks pages (Tracks.init estimate) hrun).1
  rw [Finset.union_empty] at htracks
  exact htracks.touched_le

theorem touched_mono {S' : Finset Nat} (h : S ⊆ S') : touched span S ≤ touched span S' :=
  Finset.card_le_card (Finset.image_subset_image h)

theorem marks_run (h : touched (spanFromEstimate estimate) (pageSet pages) ≤ 32768) :
    ∃ dt, trackerRun (dirtyTrackerInit estimate) (pages.map .mark) = some dt := by
  obtain ⟨dt,hrun,_⟩ := (Represents.init estimate).run (pages.map .mark) (by
    intro before after hsplit
    obtain ⟨before',after',hpages,hbefore,_⟩ := map_eq_append_iff.mp hsplit
    rw [← hbefore,active_run_marks]
    refine Nat.le_trans (touched_mono ?_) h
    intro p hp
    rw [hpages]
    simpa [pageSet,Epochs.init,map_append] using Or.inl hp)
  exact ⟨dt,hrun⟩

/-- With segments of 4096 pages the segment array grows as it should exactly as long as no more
than 32768 segments are touched. -/
theorem segment_array_grows_iff {estimatedPages : Nat} (hpos : 0 < estimatedPages)
    (hle : estimatedPages ≤ 4096) (pages : List UInt32) :
    ArrayGrows (dirtyTrackerInit estimatedPages) pages ↔
      ((pages.map (fun p => p.toNat / 4096)).toFinset).card ≤ 32768 := by
  have hspan : spanFromEstimate estimatedPages = 4096 := by
    rw [spanFromEstimate,if_neg (by omega),if_pos hle]
  have hcount : ((pages.map (fun p => p.toNat / 4096)).toFinset).card =
      touched (spanFromEstimate estimatedPages) (pageSet pages) := by
    rw [hspan]
    unfold touched pageSet
    congr 1
    ext id
    simp
  rw [hcount]
  constructor
  · exact ArrayGrows.touched_le
  · intro h before after hsplit
    obtain ⟨dt2,hrun⟩ := marks_run h
    rw [hsplit,map_append,trackerRun_append] at hrun
    obtain ⟨dt1,hrun1,hrun2⟩ := bind_eq_some_iff.mp hrun
    have h1 := (Tracks.marks before (Tracks.init estimatedPages) hrun1).1
    have hcap := (Tracks.marks after h1 hrun2).2
    refine ⟨dt1,dt2,hrun1,hrun2,h1.inv.room,h1.inv.sorted,hcap,?_⟩
    intro p hp
    rw [h1.marked,Finset.union_empty]
    exact List.mem_toFinset.mpr (List.mem_map_of_mem hp)

theorem two_segments_grow : ArrayGrows (dirtyTrackerInit 1024) [5000,7] :=
  (segment_array_grows_iff (by decide) (by decide) _).mpr (by decide)

def farPages : List UInt32 := (List.range 32769).map (fun i => UInt32.ofNat (i * 4096))

/-- The array of 32768 segments is not enlarged: 65536 is zero as a `uint16_t`. -/
theorem farPages_do_not_fit : ¬ ArrayGrows (dirtyTrackerInit 1024) farPages := by
  intro h
  have hle := h.touched_le
  have hset : (pageSet farPages).image (· / spanFromEstimate 1024) = Finset.range 32769 := by
    ext id
    have hseg : ∀ i < 32769, (UInt32.ofNat (i * 4096)).toNat / 4096 = i := by
      intro i hi
      rw [UInt32.toNat_ofNat',Nat.mod_eq_of_lt (by omega)]
      omega
    simp only [pageSet,farPages,Finset.mem_image,List.mem_toFinset,List.mem_map,mem_range,
      Finset.mem_range]
    constructor
    · rintro ⟨_,⟨_,⟨i,hi,rfl⟩,rfl⟩,rfl⟩
      exact lt_of_eq_of_lt (hseg i hi) hi
    · intro hid
      exact ⟨_,⟨_,⟨id,hid,rfl⟩,rfl⟩,hseg id hid⟩
  rw [touched,hset,Finset.card_range] at hle
  omega

end Growth

end Gravel.Proofs.DirtyScan
