import Gravel.Proofs.HashIndex

namespace Gravel.Proofs.ShiftDeletion
open Rehash LinearProbe

/-- An index with one table, in which every id is stored once and can be walked to from its
home slot. -/
structure SingleTable (idx : HashIndex) : Prop where
  old : idx.old = none
  pow : idx.capacity.isPowerOfTwo
  probed : Probed idx.capacity (hashLayout.home idx.capacity) (hashLayout.keys idx.slots)

def Holds (idx : HashIndex) (s : HashSlot) : Prop :=
  s.featId ≠ 0 ∧ Within idx.capacity idx.slots s

def Contains (idx : HashIndex) (f : UInt64) : Prop := ∃ s, Holds idx s ∧ s.featId = f

def ShiftEnds (idx : HashIndex) : Prop :=
  ∀ h < idx.capacity, ∀ more,
    shiftLoop hashLayout.key (hashLayout.home idx.capacity) (idx.capacity - 1) h
        (idx.capacity + more) idx.slots h ((h + 1) &&& (idx.capacity - 1)) =
      shiftLoop hashLayout.key (hashLayout.home idx.capacity) (idx.capacity - 1) h
        idx.capacity idx.slots h ((h + 1) &&& (idx.capacity - 1))

/-- `hash_index_remove` takes out `f` and nothing else, and leaves an index that can be searched. -/
def ExactRemoval (idx : HashIndex) (f : UInt64) : Prop :=
  ShiftEnds idx ∧ ∃ idx' rc, hashIndexRemove idx f = some (idx',rc) ∧
    (¬ Contains idx f → rc = .errNotFound ∧ idx' = idx) ∧
    (Contains idx f → rc = .ok ∧ (0 < idx.count → idx'.count + 1 = idx.count) ∧
      idx'.capacity = idx.capacity ∧ (∀ s, Holds idx' s ↔ Holds idx s ∧ s.featId ≠ f) ∧
      SingleTable idx')

/-- There is a slot that the walk to no other id passes over. An empty slot is one. -/
def ClearSlot (idx : HashIndex) (f : UInt64) : Prop :=
  ∃ e < idx.capacity, ∀ i < idx.capacity, (idx.slots i).featId ≠ 0 → (idx.slots i).featId ≠ f →
    gap idx.capacity (hashLayout.home idx.capacity (idx.slots i).featId) i ≤
      gap idx.capacity (hashLayout.home idx.capacity (idx.slots i).featId) e

instance (idx : HashIndex) (f : UInt64) : Decidable (ClearSlot idx f) :=
  inferInstanceAs (Decidable (∃ e < idx.capacity, ∀ i < idx.capacity, _ → _ → _ ≤ _))

variable {idx : HashIndex} {f : UInt64} {i : Nat}

theorem key_some {s : HashSlot} {k : UInt64} :
    hashLayout.key s = some k ↔ s.featId ≠ 0 ∧ s.featId = k := by
  simp only [hashLayout]
  split_ifs with hz
  · simp [hz]
  · simp [hz]

theorem key_ne_none {s : HashSlot} : hashLayout.key s ≠ none ↔ s.featId ≠ 0 := by
  simp [hashLayout]

theorem contains_iff : Contains idx f ↔ ∃ i < idx.capacity, hashLayout.key (idx.slots i) = some f := by
  constructor
  · rintro ⟨s,⟨hs,i,hi,rfl⟩,hf⟩
    exact ⟨i,hi,key_some.mpr ⟨hs,hf⟩⟩
  · rintro ⟨i,hi,hk⟩
    obtain ⟨hs,hf⟩ := key_some.mp hk
    exact ⟨idx.slots i,⟨hs,i,hi,rfl⟩,hf⟩

theorem SingleTable.ends (h : SingleTable idx) : ShiftEnds idx :=
  fun _ hh more => shiftLoop_ends h.pow hh more idx.slots _

theorem SingleTable.avoided_iff (h : SingleTable idx) (hi : i < idx.capacity)
    (hk : hashLayout.key (idx.slots i) = some f) :
    (∃ e < idx.capacity, Avoided hashLayout.key (hashLayout.home idx.capacity) idx.capacity i
      idx.slots e) ↔ ClearSlot idx f := by
  have hother : ∀ j < idx.capacity, ∀ k, hashLayout.key (idx.slots j) = some k → (j ≠ i ↔ k ≠ f) := by
    intro j hj k hjk
    refine ⟨fun hji hkf => hji ?_,fun hkf hji => hkf ?_⟩
    · subst hkf
      exact h.probed.unique j hj i hi k hjk hk
    · subst hji
      exact Option.some.inj (hjk.symm.trans hk)
  refine exists_congr fun e => and_congr_right fun _ => ⟨fun ha j hj hz hjf => ?_,fun ha j hj hji k hjk => ?_⟩
  · have hjk := key_some.mpr ⟨hz,rfl⟩
    exact ha j hj ((hother j hj _ hjk).mpr hjf) _ hjk
  · have hkf := (hother j hj k hjk).mp hji
    obtain ⟨hz,rfl⟩ := key_some.mp hjk
    exact ha j hj hz hkf

/-- A removal of an id that is there: what is left are the other entries, and they can be walked to
exactly if some slot is clear of their walks. -/
theorem SingleTable.remove_present (h : SingleTable idx) (hi : i < idx.capacity)
    (hk : hashLayout.key (idx.slots i) = some f) :
    ∃ slots, hashIndexRemove idx f =
        some ({ idx with slots := slots, count := idx.count - 1 },.ok) ∧
      (∀ s, Holds { idx with slots := slots, count := idx.count - 1 } s ↔
        Holds idx s ∧ s.featId ≠ f) ∧
      (Probed idx.capacity (hashLayout.home idx.capacity) (hashLayout.keys slots) ↔
        ClearSlot idx f) := by
  obtain ⟨hz,hf⟩ := key_some.mp hk
  obtain ⟨hcontent,hprobed⟩ := shiftRemove_spec h.pow (home_lt h.pow) hashLayout.key_vacate h.probed
    hi (by rw [hk]; rfl) rfl
  refine ⟨_,?_,?_,hprobed.trans (h.avoided_iff hi hk)⟩
  · rw [hashIndexRemove,if_neg (hf ▸ hz)]
    simp [remove,rehashStep,h.old,lookup_probed h.pow h.probed hi hk]
  · intro s
    constructor
    · rintro ⟨hs,hin⟩
      obtain ⟨j,hj,hji,rfl⟩ := (hcontent s (key_ne_none.mpr hs)).mp hin
      refine ⟨⟨hs,j,hj,rfl⟩,fun hjf => hji ?_⟩
      exact h.probed.unique j hj i hi f (key_some.mpr ⟨hs,hjf⟩) hk
    · rintro ⟨⟨hs,j,hj,rfl⟩,hjf⟩
      refine ⟨hs,(hcontent _ (key_ne_none.mpr hs)).mpr ⟨j,hj,?_,rfl⟩⟩
      rintro rfl
      exact hjf hf

theorem SingleTable.remove_absent (h : SingleTable idx) (hf : ¬ Contains idx f) :
    hashIndexRemove idx f = some (idx,.errNotFound) := by
  unfold hashIndexRemove
  split_ifs with hz
  · rfl
  · have habs : ∀ j < idx.capacity, hashLayout.key (idx.slots j) ≠ some f :=
      fun j hj hk => hf (contains_iff.mpr ⟨j,hj,hk⟩)
    simp [remove,rehashStep,h.old,lookup_absent h.pow habs]

theorem SingleTable.clear_of_exact (h : SingleTable idx) (hexact : ExactRemoval idx f)
    (hin : Contains idx f) : ClearSlot idx f := by
  obtain ⟨_,idx',rc,hremove,_,hpresent⟩ := hexact
  obtain ⟨_,_,_,_,hsingle⟩ := hpresent hin
  obtain ⟨i,hi,hk⟩ := contains_iff.mp hin
  obtain ⟨slots,hremove',_,hclear⟩ := h.remove_present hi hk
  rw [hremove'] at hremove
  cases hremove
  exact hclear.mp hsingle.probed

/-- Backward-shift deletion is exact unless the walks to the other ids pass over every slot. -/
theorem removal_exact_iff (h : SingleTable idx) (f : UInt64) :
    ExactRemoval idx f ↔ (Contains idx f → ClearSlot idx f) := by
  refine ⟨h.clear_of_exact,fun hclear => ⟨h.ends,?_⟩⟩
  by_cases hin : Contains idx f
  · obtain ⟨i,hi,hk⟩ := contains_iff.mp hin
    obtain ⟨slots,hremove,hholds,hprobed⟩ := h.remove_present hi hk
    exact ⟨_,_,hremove,fun hout => absurd hin hout,fun _ => ⟨rfl,fun hpos => by simp only; omega,rfl,
      hholds,⟨h.old,h.pow,hprobed.mpr (hclear hin)⟩⟩⟩
  · exact ⟨_,_,h.remove_absent hin,fun _ => ⟨rfl,rfl⟩,fun hin' => absurd hin' hin⟩

/-- Four ids that fill four slots. The homes of 3, 2, 1 and 9 are the slots 0, 2, 1 and 3. -/
def fullIndex : HashIndex where
  slots i := ⟨[3,2,1,9].getD i 0,0,i⟩
  capacity := 4
  count := 4
  old := none

theorem fullIndex_single : SingleTable fullIndex := by
  refine ⟨rfl,⟨2,rfl⟩,⟨fun i _ k _ d _ => ?_,fun i hi j hj k hik hjk => ?_⟩⟩
  · have hfull : ∀ i < 4, hashLayout.keys fullIndex.slots i ≠ none := by decide
    exact hfull _ (Nat.mod_lt _ (by decide))
  · have hone : ∀ i < 4, ∀ j < 4,
        hashLayout.keys fullIndex.slots i = hashLayout.keys fullIndex.slots j → i = j := by decide
    exact hone i hi j hj (hik.trans hjk.symm)

/-- The walk to 2 ends in slot 1, and 3 and 9 are at home: no walk passes over slot 1. -/
theorem fullIndex_removes : ExactRemoval fullIndex 1 :=
  (removal_exact_iff fullIndex_single 1).mpr fun _ => by decide +kernel

/-- Removing 3 moves 2 to slot 0 and leaves a hole in its home slot 2: the index loses it. -/
theorem fullIndex_loses :
    SingleTable fullIndex ∧ ¬ ExactRemoval fullIndex 3 ∧
      ∃ idx', hashIndexRemove fullIndex 3 = some (idx',.ok) ∧ Holds idx' ⟨2,0,1⟩ ∧
        (hashIndexGet idx' 2).map Prod.snd = some none := by
  have hkey : hashLayout.key (fullIndex.slots 0) = some 3 := by decide
  have hin : Contains fullIndex 3 := contains_iff.mpr ⟨0,by decide,hkey⟩
  have hclear : ¬ ClearSlot fullIndex 3 := by decide +kernel
  obtain ⟨slots,hremove,hholds,_⟩ := fullIndex_single.remove_present (by decide) hkey
  have hget : (hashIndexRemove fullIndex 3).bind (fun r => (hashIndexGet r.1 2).map Prod.snd) =
      some none := by decide +kernel
  rw [hremove] at hget
  refine ⟨fullIndex_single,fun hexact => hclear (fullIndex_single.clear_of_exact hexact hin),
    _,hremove,(hholds _).mpr ⟨⟨by decide,1,by decide,rfl⟩,by decide⟩,hget⟩

end Gravel.Proofs.ShiftDeletion
