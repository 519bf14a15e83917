import Mathlib.Data.List.Basic
import Mathlib.Data.List.Nodup
import Mathlib.Data.Finset.Card

/-!
Intrusive singly linked lists in a heap of nodes. A node is named by its index, and `next` reads
the link that is stored in it.
-/

namespace Chain
open List Option

variable {α : Type} {next : α → Option Nat} {heap : List α} {head : Option Nat} {ids : List Nat}

inductive Path (next : α → Option Nat) (heap : List α) : Option Nat → List Nat → Prop where
  | nil : Path next heap none []
  | cons {i : Nat} {x : α} {ids : List Nat} (found : heap[i]? = some x)
      (tail : Path next heap (next x) ids) : Path next heap (some i) (i :: ids)

/-- Visits node after node; `none` when the list leaves the heap or does not end in time. -/
def walk (next : α → Option Nat) (visit : α → α) : Nat → List α → Option Nat → Option (List α)
  | _, heap, none => some heap
  | 0, _, some _ => none
  | fuel + 1, heap, some i =>
    match heap[i]? with
    | none => none
    | some x => walk next visit fuel (heap.set i (visit x)) (next (visit x))

theorem Path.unique {js : List Nat} (h : Path next heap head ids) (h' : Path next heap head js) :
    ids = js := by
  induction h generalizing js with
  | nil =>
    cases h'
    rfl
  | cons found tail ih =>
    cases h' with
    | cons found' tail' =>
      cases found.symm.trans found'
      rw [ih tail']

theorem Path.suffix (h : Path next heap head ids) {i : Nat} (hi : i ∈ ids) :
    ∃ js, Path next heap (some i) js ∧ js.length ≤ ids.length := by
  induction h with
  | nil => cases hi
  | cons found tail ih =>
    rcases mem_cons.mp hi with rfl | hi
    · exact ⟨_,.cons found tail,Nat.le_refl _⟩
    · obtain ⟨js,hpath,hlen⟩ := ih hi
      exact ⟨js,hpath,Nat.le_succ_of_le hlen⟩

theorem Path.nodup (h : Path next heap head ids) : ids.Nodup := by
  induction h with
  | nil => exact nodup_nil
  | cons found tail ih =>
    refine nodup_cons.mpr ⟨?_,ih⟩
    intro hi
    obtain ⟨js,hpath,hlen⟩ := tail.suffix hi
    have heq := (Path.cons found tail).unique hpath
    rw [← heq,length_cons] at hlen
    omega

theorem Path.lt_length (h : Path next heap head ids) : ∀ i ∈ ids, i < heap.length := by
  induction h with
  | nil =>
    intro i hi
    cases hi
  | cons found tail ih =>
    intro j hj
    rcases mem_cons.mp hj with rfl | hj
    · exact (List.getElem?_eq_some_iff.mp found).1
    · exact ih j hj

theorem Path.length_le (h : Path next heap head ids) : ids.length ≤ heap.length := by
  have hsub : ids ⊆ List.range heap.length := fun i hi => mem_range.mpr (h.lt_length i hi)
  have hle := (h.nodup.subperm hsub).length_le
  rwa [length_range] at hle

theorem Path.set (h : Path next heap head ids) {i : Nat} (hi : i ∉ ids) (x : α) :
    Path next (heap.set i x) head ids := by
  induction h with
  | nil => exact .nil
  | cons found tail ih =>
    rw [mem_cons,not_or] at hi
    obtain ⟨hne,hrest⟩ := hi
    exact .cons (by rw [getElem?_set_ne hne]; exact found) (ih hrest)

theorem Path.push (h : Path next heap head ids) {i : Nat} (hi : i ∉ ids) {x : α}
    (hlt : i < heap.length) (hx : next x = head) : Path next (heap.set i x) (some i) (i :: ids) := by
  refine .cons (getElem?_set_self hlt) ?_
  rw [hx]
  exact h.set hi x

theorem Path.walk (visit : α → α) (hnext : ∀ x, next (visit x) = next x) {fuel : Nat}
    (h : Path next heap head ids) (hfuel : ids.length ≤ fuel) :
    ∃ heap', walk next visit fuel heap head = some heap' ∧ heap'.length = heap.length ∧
      ∀ j, heap'[j]? = if j ∈ ids then heap[j]?.map visit else heap[j]? := by
  induction ids generalizing heap head fuel with
  | nil =>
    cases h
    exact ⟨heap,by cases fuel <;> rfl,rfl,fun j => by simp⟩
  | cons i ids ih =>
    cases h with
    | cons found tail =>
      rename_i x
      obtain ⟨fuel,rfl⟩ : ∃ n, fuel = n + 1 := ⟨fuel - 1,by rw [length_cons] at hfuel; omega⟩
      have hnodup : i ∉ ids := (nodup_cons.mp (Path.cons found tail).nodup).1
      have htail : Path next (heap.set i (visit x)) (next (visit x)) ids := by
        rw [hnext]
        exact tail.set hnodup (visit x)
      obtain ⟨heap',hwalk,hlen,hcells⟩ := ih htail (Nat.le_of_succ_le_succ hfuel)
      refine ⟨heap',?_,by rw [hlen,length_set],?_⟩
      · rw [Chain.walk,found]
        exact hwalk
      · intro j
        rw [hcells j]
        by_cases hj : j = i
        · subst hj
          have hlt := (List.getElem?_eq_some_iff.mp found).1
          rw [if_neg hnodup,if_pos mem_cons_self,getElem?_set_self hlt,found,
            map_some]
        · rw [getElem?_set_ne (Ne.symm hj)]
          simp only [mem_cons,hj,false_or]

end Chain
