import Gravel.Model.WriteBuffer
import Mathlib.Data.List.Nodup
import Mathlib.Data.List.Perm.Lattice
import Mathlib.Data.List.Range

namespace Gravel.Proofs.PageMap
open LinearProbe List Function

def pageAt (slots : Nat → PageSlot) (i : Nat) : Option Nat :=
  if (slots i).pageId = pageSlotEmpty then none else some (slots i).pageId

def liveSlots (capacity : Nat) (slots : Nat → PageSlot) : List PageSlot :=
  ((List.range capacity).map slots).filter (fun s => s.pageId ≠ pageSlotEmpty)

def heldBufs (wb : WriteBuffer) : List PageBuf :=
  (liveSlots wb.capacity wb.slots).map PageSlot.data

structure Sound (wb : WriteBuffer) : Prop where
  pow : wb.capacity.isPowerOfTwo
  room : wb.count < wb.capacity
  counted : wb.count = occupied wb.capacity (pageAt wb.slots)
  found : ∀ i < wb.capacity, (wb.slots i).pageId ≠ pageSlotEmpty →
    pagemapFind wb.slots wb.capacity (wb.slots i).pageId = some i
  owned : ((heldBufs wb ++ wb.pagePool).map PageBuf.addr).Nodup

theorem sub32_of_le {a b : Nat} (hb : b ≤ a) : sub32 a b = a - b := by
  simp [sub32,hb]

section Slots

variable {capacity : Nat} {slots slots' : Nat → PageSlot} {i p : Nat} {s : PageSlot}

@[simp] theorem pageAt_eq_none : pageAt slots i = none ↔ (slots i).pageId = pageSlotEmpty := by
  simp [pageAt]

@[simp] theorem pageAt_eq_some :
    pageAt slots i = some p ↔ (slots i).pageId = p ∧ p ≠ pageSlotEmpty := by
  unfold pageAt
  split_ifs with h
  · simp only [false_iff,not_and,not_not]
    rintro rfl
    exact h
  · simp only [Option.some.injEq]
    constructor
    · rintro rfl
      exact ⟨rfl,h⟩
    · exact And.left

theorem pageAt_update {j : Nat} (hj : j ≠ i) : pageAt (update slots i s) j = pageAt slots j := by
  simp [pageAt,update_of_ne hj]

theorem home_lt (hc : capacity.isPowerOfTwo) : pagemapHome capacity p < capacity := by
  rw [pagemapHome,and_mask hc]
  exact Nat.mod_lt _ (pow_two_pos hc)

theorem find_eq_probe (slots : Nat → PageSlot) (capacity : Nat) (hp : p ≠ pageSlotEmpty) :
    pagemapFind slots capacity p =
      probe (stopFor (pageAt slots) p) (capacity - 1) capacity (pagemapHome capacity p) := by
  unfold pagemapFind
  congr 1
  funext i
  simp [stopFor,hp]

theorem mem_liveSlots :
    s ∈ liveSlots capacity slots ↔ s.pageId ≠ pageSlotEmpty ∧ ∃ i < capacity, slots i = s := by
  simp [liveSlots,and_comm]

theorem liveSlots_length :
    (liveSlots capacity slots).length = occupied capacity (pageAt slots) := by
  have hf : (fun i => decide ((slots i).pageId ≠ pageSlotEmpty)) =
      fun i => (pageAt slots i).isSome := by
    funext i
    unfold pageAt
    split_ifs with h <;> simp [h]
  have hl : (liveSlots capacity slots).length =
      ((List.range capacity).filter (fun i => (pageAt slots i).isSome)).length := by
    rw [liveSlots,List.filter_map,length_map]
    exact congrArg (fun f => ((List.range capacity).filter f).length) hf
  rw [hl,occupied_eq_length]

theorem liveSlots_split (slots : Nat → PageSlot) (hi : i < capacity) :
    (liveSlots capacity slots).Perm
      ((slots i :: ((List.range capacity).erase i).map slots).filter
        (fun s => s.pageId ≠ pageSlotEmpty)) :=
  ((perm_cons_erase (mem_range.mpr hi)).map slots).filter _

theorem map_erase_congr (ho : ∀ j < capacity, j ≠ i → slots' j = slots j) :
    ((List.range capacity).erase i).map slots' = ((List.range capacity).erase i).map slots := by
  apply map_congr_left
  intro j hj
  rw [(nodup_range).mem_erase_iff] at hj
  exact ho j (mem_range.mp hj.2) hj.1

theorem liveSlots_fill (hi : i < capacity) (hn : (slots i).pageId = pageSlotEmpty)
    (hs : s.pageId ≠ pageSlotEmpty) :
    (liveSlots capacity (update slots i s)).Perm (s :: liveSlots capacity slots) := by
  have hl := liveSlots_split (update slots i s) hi
  rw [map_erase_congr (fun j _ hji => update_of_ne hji s slots)] at hl
  have hr := liveSlots_split slots hi
  simp only [update_self,filter_cons,hs,ne_eq,not_false_eq_true,
    decide_true,if_true] at hl
  simp only [filter_cons,hn,ne_eq,not_true_eq_false,decide_false,
    Bool.false_eq_true,if_false] at hr
  exact hl.trans (hr.symm.cons s)

theorem liveSlots_clear (hi : i < capacity) (ho : (slots i).pageId ≠ pageSlotEmpty) :
    (liveSlots capacity slots).Perm
      (slots i :: liveSlots capacity (update slots i emptySlot)) := by
  have hempty : (update slots i emptySlot i).pageId = pageSlotEmpty := by
    simp [emptySlot]
  simpa using liveSlots_fill hi hempty ho

theorem liveSlots_empty : liveSlots capacity (fun _ => emptySlot) = [] := by
  simp [liveSlots,emptySlot]

theorem liveSlots_nodup (hu : ∀ i < capacity, ∀ j < capacity, ∀ p, pageAt slots i = some p →
      pageAt slots j = some p → i = j) :
    ((liveSlots capacity slots).map PageSlot.pageId).Nodup := by
  have hl : (liveSlots capacity slots).map PageSlot.pageId =
      ((List.range capacity).filter (fun i => (slots i).pageId ≠ pageSlotEmpty)).map
        (fun i => (slots i).pageId) := by
    rw [liveSlots,List.filter_map,List.map_map]
    rfl
  rw [hl]
  apply List.Nodup.map_on _ (nodup_range.filter _)
  intro i hi j hj hij
  simp only [ne_eq,decide_not,mem_filter,mem_range,Bool.not_eq_true',
    decide_eq_false_iff_not] at hi hj
  exact hu i hi.1 j hj.1 (slots i).pageId (by simp [hi.2]) (by simp [hij,hj.2])

end Slots

section Tables

variable {wb : WriteBuffer} {i p : Nat}

/-- What `pagemap_find` sees of a sound table is the invariant of linear probing. -/
theorem Sound.probed (h : Sound wb) :
    Probed wb.capacity (pagemapHome wb.capacity) (pageAt wb.slots) := by
  refine ⟨?_,?_⟩
  · intro i hi p hp
    obtain ⟨rfl,hne⟩ := pageAt_eq_some.mp hp
    have hf := h.found i hi hne
    rw [find_eq_probe _ _ hne] at hf
    exact (search_some h.pow (home_lt h.pow) hf).2.1
  · intro i hi j hj p hip hjp
    obtain ⟨rfl,hne⟩ := pageAt_eq_some.mp hip
    obtain ⟨hjp,_⟩ := pageAt_eq_some.mp hjp
    have hfi := h.found i hi hne
    have hfj := h.found j hj (by rw [hjp]; exact hne)
    rw [hjp] at hfj
    exact Option.some.inj (hfi.symm.trans hfj)

theorem found_of_probed {capacity : Nat} {slots : Nat → PageSlot} (hc : capacity.isPowerOfTwo)
    (h : Probed capacity (pagemapHome capacity) (pageAt slots)) (hi : i < capacity)
    (ho : (slots i).pageId ≠ pageSlotEmpty) :
    pagemapFind slots capacity (slots i).pageId = some i := by
  rw [find_eq_probe _ _ ho]
  exact search_present hc (home_lt hc) h hi (by simp [ho])

theorem Sound.unique (h : Sound wb) {j : Nat} (hi : i < wb.capacity) (hj : j < wb.capacity)
    (ho : (wb.slots i).pageId ≠ pageSlotEmpty)
    (he : (wb.slots j).pageId = (wb.slots i).pageId) : j = i :=
  h.probed.unique j hj i hi (wb.slots i).pageId (by simp [he,ho]) (by simp [ho])

theorem Sound.live_length (h : Sound wb) : (liveSlots wb.capacity wb.slots).length = wb.count := by
  rw [liveSlots_length,h.counted]

theorem collectPages_eq (limit : Nat) :
    collectPages limit wb = ((liveSlots wb.capacity wb.slots).map PageSlot.pageId).take limit := by
  rw [collectPages,liveSlots,List.filter_map,List.filter_map,List.map_map]
  rfl

theorem collectPages_length (h : Sound wb) (limit : Nat) :
    (collectPages limit wb).length = min limit wb.count := by
  rw [collectPages_eq,length_take,length_map,h.live_length]

theorem mem_collectPages {limit : Nat} (hp : p ∈ collectPages limit wb) :
    p ≠ pageSlotEmpty ∧ ∃ i < wb.capacity, (wb.slots i).pageId = p := by
  rw [collectPages_eq] at hp
  obtain ⟨s,hs,rfl⟩ := List.mem_map.mp (mem_of_mem_take hp)
  obtain ⟨hne,i,hi,rfl⟩ := mem_liveSlots.mp hs
  exact ⟨hne,i,hi,rfl⟩

theorem collectPages_nodup (h : Sound wb) (limit : Nat) : (collectPages limit wb).Nodup := by
  rw [collectPages_eq]
  exact (liveSlots_nodup h.probed.unique).sublist (take_sublist _ _)

end Tables

end Gravel.Proofs.PageMap
