import Mathlib.Data.List.Sort

namespace Runs
open List

variable {α κ : Type}

/-- The list cut where the key changes. -/
def runs [DecidableEq κ] (key : α → κ) : List α → List (κ × List α)
  | [] => []
  | a :: rest =>
    match runs key rest with
    | [] => [(key a,[a])]
    | (k,as) :: groups => if key a = k then (k,a :: as) :: groups else (key a,[a]) :: (k,as) :: groups

section Groups

variable [DecidableEq κ] {key : α → κ} {l : List α}

theorem runs_flatMap (key : α → κ) (l : List α) : (runs key l).flatMap Prod.snd = l := by
  induction l with
  | nil => rfl
  | cons a rest ih =>
    rw [runs]
    cases hg : runs key rest with
    | nil =>
      rw [hg] at ih
      simp only [flatMap_nil] at ih
      simp [← ih]
    | cons group groups =>
      obtain ⟨k,as⟩ := group
      rw [hg] at ih
      simp only
      split_ifs
      · simpa using ih
      · simpa using ih

theorem runs_key (key : α → κ) (l : List α) :
    ∀ group ∈ runs key l, group.2 ≠ [] ∧ ∀ a ∈ group.2, key a = group.1 := by
  induction l with
  | nil => simp [runs]
  | cons a rest ih =>
    rw [runs]
    cases hg : runs key rest with
    | nil => simp
    | cons group groups =>
      obtain ⟨k,as⟩ := group
      rw [hg] at ih
      simp only
      split_ifs with hk
      · intro group' hm
        rcases mem_cons.mp hm with rfl | hm
        · refine ⟨cons_ne_nil _ _,?_⟩
          intro b hb
          rcases mem_cons.mp hb with rfl | hb
          · exact hk
          · exact (ih (k,as) mem_cons_self).2 b hb
        · exact ih group' (mem_cons_of_mem _ hm)
      · intro group' hm
        rcases mem_cons.mp hm with rfl | hm
        · simp
        · exact ih group' hm

theorem length_runs_le (key : α → κ) (l : List α) : (runs key l).length ≤ l.length := by
  induction l with
  | nil => exact Nat.le_refl _
  | cons a rest ih =>
    rw [runs]
    cases hg : runs key rest with
    | nil => simp
    | cons group groups =>
      rw [hg] at ih
      simp only [length_cons] at ih ⊢
      split_ifs
      · simp only [length_cons]
        omega
      · simp only [length_cons]
        omega

end Groups

/-- In a sorted list no key has two runs. -/
theorem runs_ascending [LinearOrder κ] {key : α → κ} {l : List α}
    (hs : l.Pairwise (fun a b => key a ≤ key b)) :
    ((runs key l).map Prod.fst).Pairwise (· < ·) ∧
      ∀ k ∈ (runs key l).map Prod.fst, ∃ a ∈ l, key a = k := by
  induction l with
  | nil => simp [runs]
  | cons a rest ih =>
    rw [pairwise_cons] at hs
    obtain ⟨hasc,hmem⟩ := ih hs.2
    rw [runs]
    cases hg : runs key rest with
    | nil => simp
    | cons group groups =>
      obtain ⟨k,as⟩ := group
      rw [hg] at hasc hmem
      simp only [map_cons] at hasc hmem
      simp only
      split_ifs with hk
      · refine ⟨hasc,?_⟩
        intro q hq
        obtain ⟨b,hb,rfl⟩ := hmem q hq
        exact ⟨b,mem_cons_of_mem _ hb,rfl⟩
      · refine ⟨?_,?_⟩
        · simp only [map_cons]
          refine pairwise_cons.mpr ⟨?_,hasc⟩
          have hlt : key a < k := by
            obtain ⟨b,hb,hbk⟩ := hmem k mem_cons_self
            exact lt_of_le_of_ne (hbk ▸ hs.1 b hb) hk
          intro q hq
          rcases mem_cons.mp hq with rfl | hq
          · exact hlt
          · exact lt_trans hlt ((pairwise_cons.mp hasc).1 q hq)
        · intro q hq
          rcases mem_cons.mp hq with rfl | hq
          · exact ⟨a,mem_cons_self,rfl⟩
          · obtain ⟨b,hb,rfl⟩ := hmem q hq
            exact ⟨b,mem_cons_of_mem _ hb,rfl⟩

theorem runs_map [DecidableEq κ] {β : Type} {key : α → κ} {key' : β → κ} (f : α → β)
    (hf : ∀ a, key' (f a) = key a) (l : List α) :
    runs key' (l.map f) = (runs key l).map (fun g => (g.1,g.2.map f)) := by
  induction l with
  | nil => rfl
  | cons a rest ih =>
    rw [map_cons,runs,runs,ih]
    cases runs key rest with
    | nil => simp [hf]
    | cons g groups =>
      obtain ⟨k,as⟩ := g
      simp only [map_cons,hf]
      split_ifs <;> rfl

section Sorting

variable {r : α → α → Prop} [DecidableRel r] {f : α → Bool} {a : α}

theorem filter_orderedInsert (l : List α) (hr : ∀ b, f a = true → f b = true → r a b) :
    (l.orderedInsert r a).filter f = (a :: l).filter f := by
  induction l with
  | nil => rfl
  | cons b l ih =>
    rw [orderedInsert_cons]
    split_ifs with hab
    · rfl
    · rw [filter_cons,ih,filter_cons,filter_cons,filter_cons]
      cases ha : f a with
      | false => simp
      | true =>
        cases hb : f b with
        | false => simp
        | true => exact absurd (hr b ha hb) hab

theorem filter_insertionSort (l : List α) (hr : ∀ a b, f a = true → f b = true → r a b) :
    (l.insertionSort r).filter f = l.filter f := by
  induction l with
  | nil => rfl
  | cons a l ih =>
    rw [insertionSort_cons,filter_orderedInsert _ (hr a),filter_cons,ih,
      filter_cons]

theorem pairwise_sort [LinearOrder κ] (key : α → κ) (l : List α) :
    (l.insertionSort (fun a b => key a ≤ key b)).Pairwise (fun a b => key a ≤ key b) := by
  have : IsTrans α (fun a b => key a ≤ key b) := ⟨fun _ _ _ => le_trans⟩
  have : Std.Total (fun a b : α => key a ≤ key b) := ⟨fun _ _ => le_total _ _⟩
  exact pairwise_insertionSort _ _

theorem filter_flatMap {groups : List (κ × List α)} {key : α → κ} [DecidableEq κ]
    (hd : (groups.map Prod.fst).Nodup) (hk : ∀ g ∈ groups, ∀ a ∈ g.2, key a = g.1)
    {group : κ × List α} (hg : group ∈ groups) :
    (groups.flatMap Prod.snd).filter (fun a => key a = group.1) = group.2 := by
  induction groups with
  | nil => cases hg
  | cons g rest ih =>
    obtain ⟨hnot,hd⟩ := nodup_cons.mp hd
    have hrest := fun g' hg' => hk g' (mem_cons_of_mem _ hg')
    rw [flatMap_cons,filter_append]
    rcases mem_cons.mp hg with rfl | hmem
    · have hall : group.2.filter (fun a => key a = group.1) = group.2 :=
        filter_eq_self.mpr fun a ha => by simpa using hk group mem_cons_self a ha
      have hnone : (rest.flatMap Prod.snd).filter (fun a => key a = group.1) = [] := by
        rw [filter_eq_nil_iff]
        intro a ha
        obtain ⟨g',hg',ha⟩ := mem_flatMap.mp ha
        rw [decide_eq_true_eq,hrest g' hg' a ha]
        exact fun he => hnot (he ▸ List.mem_map_of_mem hg')
      rw [hall,hnone,append_nil]
    · have hnone : g.2.filter (fun a => key a = group.1) = [] := by
        rw [filter_eq_nil_iff]
        intro a ha
        rw [decide_eq_true_eq,hk g mem_cons_self a ha]
        exact fun he => hnot (he ▸ List.mem_map_of_mem hmem)
      rw [hnone,nil_append,ih hd hrest hmem]

/-- After a stable sort each run is what the list has under its key, in the old order. -/
theorem runs_sort [LinearOrder κ] (key : α → κ) (l : List α) :
    ∀ group ∈ runs key (l.insertionSort (fun a b => key a ≤ key b)),
      group.2 = l.filter (fun a => key a = group.1) := by
  intro group hg
  have hasc := (runs_ascending (pairwise_sort key l)).1
  have hgroup := filter_flatMap (hasc.imp (fun h => ne_of_lt h))
    (fun g hg => (runs_key key _ g hg).2) hg
  rw [runs_flatMap] at hgroup
  rw [← hgroup]
  refine filter_insertionSort l (fun a b ha hb => ?_)
  rw [decide_eq_true_eq] at ha hb
  exact le_of_eq (ha.trans hb.symm)

end Sorting

end Runs
