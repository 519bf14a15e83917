import Gravel.Proofs.HashIndex
import Gravel.Proofs.PutBatch

namespace Gravel.Proofs.OverlayMap
open Rehash LinearProbe PutPage List Option Function

abbrev OverlayVectors := Nat → Option (Nat → UInt8)

def slotsOf (m : OverlayVectors) (e : Nat) : Option OverlaySlot := (m e).map (fun data => ⟨e,data⟩)

/-- The overlay is a valid table and holds the vectors `m`. -/
structure OverlayRep (ob : OverlayBuffer) (m : OverlayVectors) : Prop where
  valid : Valid overlayLayout ob.table
  represents : Represents overlayLayout ob.table (slotsOf m)

section Operations

variable {ob : OverlayBuffer} {m : OverlayVectors} {e dim : Nat} {data : Nat → UInt8}

theorem key_slot (he : e ≠ overlayEmpty) (data : Nat → UInt8) :
    overlayLayout.key ⟨e,data⟩ = some e := by simp [overlayLayout,he]

theorem slotsOf_update (m : OverlayVectors) (e : Nat) (v : Option (Nat → UInt8)) :
    slotsOf (update m e v) = update (slotsOf m) e (v.map (fun d => ⟨e,d⟩)) := by
  funext x
  by_cases hx : x = e
  · subst hx
    simp [slotsOf]
  · simp [slotsOf,update_of_ne hx]

theorem init_rep : OverlayRep overlayInit (fun _ => none) :=
  ⟨(blank_represents ⟨8,rfl⟩).1,(blank_represents ⟨8,rfl⟩).2⟩

theorem overlayFind_eq (hv : Valid overlayLayout ob.table) (e : Nat) : overlayFind ob e =
    (get overlayLayout ob.table e).map (fun r => ({ ob with table := r.1 },r.2)) := by
  have hpos := pow_two_pos hv.pow
  rw [overlayFind,if_neg (by omega)]
  cases get overlayLayout ob.table e <;> rfl

theorem get_rep (hr : OverlayRep ob m) (hvis : ¬ Hidden overlayLayout ob.table e) :
    ∃ t, overlayGet ob e = some ({ ob with table := t },m e) ∧
      overlayContains ob e = some ({ ob with table := t },(m e).isSome) ∧
      OverlayRep { ob with table := t } m := by
  obtain ⟨t,r,hget,hst,hr',_⟩ := get_spec hr.valid hr.represents e
  have hre := hr' hvis
  refine ⟨t,?_,?_,⟨hst.valid,hr.represents.stored hst.stored⟩⟩
  · rw [overlayGet,overlayFind_eq hr.valid,hget,hre]
    cases h : m e <;> simp [slotsOf,h]
  · rw [overlayContains,overlayFind_eq hr.valid,hget,hre]
    cases h : m e <;> simp [slotsOf,h]

/-- A write to an entry that the growing table does not hide. -/
theorem put_rep (hr : OverlayRep ob m) (he : e ≠ overlayEmpty) (hcap : ob.table.capacity < 2 ^ 29)
    (hvis : ¬ Hidden overlayLayout ob.table e) (data : Nat → UInt8) (dim : Nat) :
    ∃ t n, overlayPut true ob e data dim = some ({ ob with table := t, memoryUsed := n },.ok) ∧
      OverlayRep { ob with table := t, memoryUsed := n }
        (update m e (some (overlayCopy dim data ((m e).getD (fun _ => 0))))) ∧
      n = if (m e).isSome then ob.memoryUsed else ob.memoryUsed + (dim * 4 + overlaySlotSize) := by
  have hchange : ∀ s : OverlaySlot, overlayLayout.key s = some e →
      overlayLayout.key { s with data := overlayCopy dim data s.data } = some e := fun s hs => hs
  obtain ⟨t,hput,hv,hrep,hcount,_⟩ := put_spec hr.valid hr.represents hvis
    (fun _ => HashIndex.double_exact (by omega)) (HashIndex.not_crowded hr.valid hcap) hchange
    (key_slot he (overlayCopy dim data (fun _ => 0)))
  have hgrown : t.count ≤ ob.table.count ↔ (m e).isSome = true := by
    rw [hcount]
    cases h : m e <;> simp [slotsOf,h]
  refine ⟨t,_,?_,⟨hv,?_⟩,rfl⟩
  · simp only [overlayPut,hput,bind_eq_bind,bind_some,hgrown,if_true]
    split_ifs <;> rfl
  · rw [slotsOf_update]
    cases h : m e with
    | none => simpa [slotsOf,h] using hrep
    | some v => simpa [slotsOf,h] using hrep

end Operations

section Replay

variable {ob : OverlayBuffer} {m : OverlayVectors} {e : Nat} {l : List EmbWriteEntry}
  {t : Table OverlaySlot} {o : OverlaySlot}

theorem lastWrite_of_mem (hnd : (l.map EmbWriteEntry.entryId).Nodup) {w : EmbWriteEntry}
    (hw : w ∈ l) : lastWrite w.entryId l = some w.data := by
  induction l with
  | nil => cases hw
  | cons x l ih =>
    simp only [map_cons,nodup_cons] at hnd
    rcases mem_cons.mp hw with rfl | hw
    · have hnone : lastWrite w.entryId l = none := by
        rw [lastWrite_eq_none]
        rintro y hy rfl_
        exact hnd.1 (rfl_ ▸ List.mem_map_of_mem hy)
      simp [lastWrite,hnone]
    · simp [lastWrite,ih hnd.2 hw]

theorem overlayEntries_eq (slots : Nat → OverlaySlot) (cap : Nat) :
    overlayEntries slots cap =
      (live overlayLayout.key cap slots).map (fun o => ⟨o.entryId,o.data⟩) := by
  unfold overlayEntries live
  congr 2
  funext o
  by_cases ho : o.entryId = overlayEmpty <;> simp [overlayLayout,ho]

/-- The slots in the order of `replay_buf`: those of the table, then those of the old one. -/
def replaySlots (t : Table OverlaySlot) : List OverlaySlot :=
  live overlayLayout.key t.capacity t.slots ++
    match t.old with
    | none => []
    | some o => live overlayLayout.key o.capacity o.slots

theorem length_replaySlots (hv : Valid overlayLayout t) : (replaySlots t).length = t.count := by
  rw [hv.count,replaySlots,length_append,length_live]
  cases ho : t.old with
  | none => rw [oldCount_none ho]; rfl
  | some o => rw [oldCount_some ho,length_live]

theorem replayEntries_eq (hr : OverlayRep ob m) :
    replayEntries ob = (replaySlots ob.table).map (fun o => ⟨o.entryId,o.data⟩) := by
  have hlen := length_replaySlots hr.valid
  unfold replayEntries
  cases ho : ob.table.old with
  | none =>
    simp only [replaySlots,ho] at hlen ⊢
    rw [overlayEntries_eq,append_nil,append_nil] at *
    rw [take_of_length_le (by rw [length_map]; omega)]
  | some o =>
    simp only [replaySlots,ho] at hlen ⊢
    rw [overlayEntries_eq,overlayEntries_eq,← map_append,
      take_of_length_le (by rw [length_map]; omega)]

theorem mem_replaySlots_stored : o ∈ replaySlots t ↔ Stored overlayLayout t o := by
  rw [replaySlots,mem_append,mem_live]
  unfold Stored
  rw [← isSome_iff_ne_none]
  cases ho : t.old with
  | none => simp [Within]
  | some old =>
    simp only [mem_live,Option.some.injEq,exists_eq_left',Within]
    exact and_or_left.symm

theorem key_eq_entryId (h : overlayLayout.key o = some e) : o.entryId = e := by
  simp only [overlayLayout] at h
  split_ifs at h
  exact Option.some.inj h

theorem mem_replaySlots (hr : OverlayRep ob m) :
    o ∈ replaySlots ob.table ↔ m o.entryId = some o.data := by
  rw [mem_replaySlots_stored]
  constructor
  · intro hs
    obtain ⟨e,he⟩ := ne_none_iff_exists'.mp hs.1
    have hslot := (hr.represents e o).mpr ⟨he,hs⟩
    obtain ⟨d,hd,ho⟩ := map_eq_some_iff.mp hslot
    rw [← ho]
    exact hd
  · intro hm
    exact ((hr.represents o.entryId o).mp (by simp [slotsOf,hm])).2

theorem nodup_replaySlots (hr : OverlayRep ob m) :
    ((replaySlots ob.table).map OverlaySlot.entryId).Nodup := by
  have hnew := nodup_live overlayLayout.key hr.valid.probed.unique
  have hkeys : ((replaySlots ob.table).map overlayLayout.key).Nodup := by
    rw [replaySlots,map_append]
    cases ho : ob.table.old with
    | none => simpa using hnew
    | some o =>
      have hsplit := (hr.valid.old o ho).split
      refine nodup_append.mpr ⟨hnew,nodup_live _ hsplit.unique,?_⟩
      rintro a ha b hb rfl
      obtain ⟨x,hx,hxa⟩ := List.mem_map.mp ha
      obtain ⟨y,hy,hya⟩ := List.mem_map.mp hb
      obtain ⟨hxs,i,hi,rfl⟩ := mem_live.mp hx
      obtain ⟨_,j,hj,rfl⟩ := mem_live.mp hy
      obtain ⟨k,hk⟩ := isSome_iff_exists.mp hxs
      exact hsplit.apart i hi j hj k hk (hya.trans (hxa.symm.trans hk))
  have hmap : (replaySlots ob.table).map overlayLayout.key =
      ((replaySlots ob.table).map OverlaySlot.entryId).map some := by
    rw [List.map_map]
    apply map_congr_left
    intro o hmem
    obtain ⟨e,he⟩ := ne_none_iff_exists'.mp (mem_replaySlots_stored.mp hmem).1
    rw [he,comp_apply,key_eq_entryId he]
  rw [hmap] at hkeys
  exact List.Nodup.of_map _ hkeys

/-- Replaying the overlay writes just what it holds. -/
theorem lastWrite_replay (hr : OverlayRep ob m) (e : Nat) :
    lastWrite e (replayEntries ob) = m e := by
  rw [replayEntries_eq hr]
  cases hm : m e with
  | some d =>
    have hmem : (⟨e,d⟩ : EmbWriteEntry) ∈
        (replaySlots ob.table).map (fun o => ⟨o.entryId,o.data⟩) :=
      List.mem_map.mpr ⟨⟨e,d⟩,(mem_replaySlots hr).mpr hm,rfl⟩
    refine lastWrite_of_mem ?_ hmem
    rw [List.map_map]
    exact nodup_replaySlots hr
  | none =>
    rw [lastWrite_eq_none]
    rintro w hw rfl
    obtain ⟨o,ho,rfl⟩ := List.mem_map.mp hw
    rw [(mem_replaySlots hr).mp ho] at hm
    cases hm

end Replay

end Gravel.Proofs.OverlayMap
