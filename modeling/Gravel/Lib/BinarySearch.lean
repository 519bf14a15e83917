import Mathlib.Order.Lattice
import Mathlib.Data.List.InsertIdx
import Mathlib.Data.Nat.Basic
import Mathlib.Tactic.SplitIfs

namespace BinarySearch
open List

variable {κ : Type} [LinearOrder κ]

/-- Binary search between `lo` and `hi` (exclusive): `inl` is the index of the key, `inr`
the position at which it would be inserted. -/
def bsearch (key : Nat → κ) (k : κ) : Nat → Nat → Nat → Nat ⊕ Nat
  | 0, lo, _ => .inr lo
  | fuel + 1, lo, hi =>
    if lo < hi then
      let mid := (lo + (hi - 1)) / 2
      if key mid = k then .inl mid
      else if key mid < k then bsearch key k fuel (mid + 1) hi
      else bsearch key k fuel lo mid
    else .inr lo

def Ascending (key : Nat → κ) (n : Nat) : Prop := ∀ i j, i < j → j < n → key i < key j

structure SplitsAt (key : Nat → κ) (n : Nat) (k : κ) (p : Nat) : Prop where
  le : p ≤ n
  below : ∀ i < p, key i < k
  above : ∀ i, p ≤ i → i < n → k < key i

theorem bsearch_spec {key : Nat → κ} {n : Nat} {k : κ} (ha : Ascending key n) (fuel : Nat) :
    ∀ lo hi, lo ≤ hi → hi ≤ n → hi - lo ≤ fuel →
      (∀ i < lo, key i < k) → (∀ i, hi ≤ i → i < n → k < key i) →
      (∃ i < n, key i = k ∧ bsearch key k fuel lo hi = .inl i) ∨
      (∃ p, SplitsAt key n k p ∧ bsearch key k fuel lo hi = .inr p) := by
  induction fuel with
  | zero =>
    intro lo hi hle hn hf hlow hhigh
    obtain rfl : lo = hi := by omega
    exact .inr ⟨lo,⟨hn,hlow,hhigh⟩,rfl⟩
  | succ fuel ih =>
    intro lo hi hle hn hf hlow hhigh
    by_cases hlt : lo < hi
    · have hmid : (lo + (hi - 1)) / 2 < hi ∧ lo ≤ (lo + (hi - 1)) / 2 := by omega
      generalize hm : (lo + (hi - 1)) / 2 = mid at hmid
      simp only [bsearch,hlt,if_true,hm]
      split_ifs with heq hless
      · exact .inl ⟨mid,by omega,heq,rfl⟩
      · refine ih (mid + 1) hi (by omega) hn (by omega) ?_ hhigh
        intro i hi'
        rcases Nat.lt_or_eq_of_le (Nat.le_of_lt_succ hi') with h | rfl
        · exact lt_trans (ha i mid h (by omega)) hless
        · exact hless
      · refine ih lo mid (by omega) (by omega) (by omega) hlow ?_
        intro i hmi hin
        have hkm : k < key mid := lt_of_le_of_ne (not_lt.mp hless) (Ne.symm heq)
        rcases Nat.lt_or_eq_of_le hmi with h | rfl
        · exact lt_trans hkm (ha mid i h hin)
        · exact hkm
    · obtain rfl : lo = hi := by omega
      refine .inr ⟨lo,⟨hn,hlow,hhigh⟩,?_⟩
      simp [bsearch]

section Lists

variable {α : Type} {f : α → κ} {l : List α}

theorem insertIdx_eq (l : List α) (x : α) {i : Nat} (hi : i ≤ l.length) :
    l.insertIdx i x = l.take i ++ x :: l.drop i := by
  induction l generalizing i with
  | nil =>
    obtain rfl : i = 0 := by simpa using hi
    rfl
  | cons a l ih =>
    cases i with
    | zero => rfl
    | succ i => simp [ih (Nat.le_of_succ_le_succ hi)]

theorem search_sorted (key : Nat → κ) (hs : (l.map f).Pairwise (· < ·))
    (hkey : ∀ i, (h : i < l.length) → key i = f l[i]) (k : κ) :
    (∃ i a, l = l.take i ++ a :: l.drop (i + 1) ∧ i < l.length ∧ f a = k ∧
      bsearch key k l.length 0 l.length = .inl i) ∨
    (∃ i, i ≤ l.length ∧ (∀ a ∈ l.take i, f a < k) ∧ (∀ a ∈ l.drop i, k < f a) ∧
      bsearch key k l.length 0 l.length = .inr i) := by
  have ha : Ascending key l.length := by
    intro i j hij hj
    rw [hkey i (by omega),hkey j hj]
    have := pairwise_iff_getElem.mp hs i j (by simp; omega) (by simpa using hj) hij
    simpa using this
  rcases bsearch_spec ha (k := k) l.length 0 l.length (Nat.zero_le _) (Nat.le_refl _) (by omega)
    (by simp) (fun i h h' => by omega) with ⟨i,hi,hk,hb⟩ | ⟨i,hsplit,hb⟩
  · refine .inl ⟨i,l[i],by simp,hi,?_,hb⟩
    rw [← hkey i hi,hk]
  · refine .inr ⟨i,hsplit.le,?_,?_,hb⟩
    · intro a hm
      obtain ⟨j,hj,rfl⟩ := mem_take_iff_getElem.mp hm
      rw [← hkey j (by omega)]
      exact hsplit.below j (by omega)
    · intro a hm
      obtain ⟨j,hj,rfl⟩ := mem_drop_iff_getElem.mp hm
      rw [← hkey (i + j) (by omega)]
      exact hsplit.above (i + j) (by omega) (by omega)

theorem sorted_split {l1 l2 : List α} {a : α} (hs : ((l1 ++ a :: l2).map f).Pairwise (· < ·)) :
    (∀ b ∈ l1, f b < f a) ∧ (∀ b ∈ l2, f a < f b) := by
  rw [map_append,map_cons,pairwise_append,pairwise_cons] at hs
  refine ⟨?_,?_⟩
  · intro b hb
    exact hs.2.2 _ (List.mem_map_of_mem hb) _ mem_cons_self
  · intro b hb
    exact hs.2.1.1 _ (List.mem_map_of_mem hb)

theorem sorted_insert {l1 l2 : List α} {a : α} (hs : ((l1 ++ l2).map f).Pairwise (· < ·))
    (hb : ∀ b ∈ l1, f b < f a) (ha : ∀ b ∈ l2, f a < f b) :
    ((l1 ++ a :: l2).map f).Pairwise (· < ·) := by
  rw [map_append,pairwise_append] at hs
  rw [map_append,map_cons,pairwise_append,pairwise_cons]
  refine ⟨hs.1,⟨?_,hs.2.1⟩,?_⟩
  · intro x hx
    obtain ⟨b,hb',rfl⟩ := List.mem_map.mp hx
    exact ha b hb'
  · intro x hx y hy
    rcases mem_cons.mp hy with rfl | hy
    · obtain ⟨b,hb',rfl⟩ := List.mem_map.mp hx
      exact hb b hb'
    · exact hs.2.2 x hx y hy

end Lists

end BinarySearch
