import Gravel.Lib.BTree

namespace BTree
open BinarySearch List Option

section Interleave

variable {α : Type}

def interleave : List (List α) → List α → List α
  | [], xs => xs
  | c :: _, [] => c
  | c :: cs, x :: xs => c ++ x :: interleave cs xs

theorem sublist_interleave (cs : List (List α)) (xs : List α) : xs.Sublist (interleave cs xs) := by
  induction cs generalizing xs with
  | nil => exact List.Sublist.refl xs
  | cons c cs ih =>
    cases xs with
    | nil => exact nil_sublist _
    | cons x xs => exact ((ih xs).cons_cons x).trans (sublist_append_right _ _)

theorem interleave_child (cs : List (List α)) (xs : List α) (i : Nat)
    (hlen : cs.length = xs.length + 1) (hi : i ≤ xs.length) :
    ∃ pre post, (∀ c, interleave (cs.set i c) xs = pre ++ (c ++ post)) ∧
      (∀ y m z, interleave ((cs.set i y).insertIdx (i + 1) z) (xs.insertIdx i m) =
        pre ++ (y ++ m :: (z ++ post))) ∧
      (pre = [] ∨ ∃ pre' x, pre = pre' ++ [x] ∧ x ∈ xs.take i) ∧
      (post = [] ∨ ∃ x post', post = x :: post' ∧ x ∈ xs.drop i) := by
  induction i generalizing cs xs with
  | zero =>
    cases cs with
    | nil => simp at hlen
    | cons c cs =>
      cases xs with
      | nil =>
        obtain rfl : cs = [] := eq_nil_of_length_eq_zero (by simpa using hlen)
        exact ⟨[],[],by simp [interleave],by simp [interleave],.inl rfl,.inl rfl⟩
      | cons x xs =>
        exact ⟨[],x :: interleave cs xs,by simp [interleave],by simp [interleave],.inl rfl,
          .inr ⟨x,_,rfl,mem_cons_self⟩⟩
  | succ i ih =>
    cases cs with
    | nil => simp at hlen
    | cons c cs =>
      cases xs with
      | nil => simp at hi
      | cons x xs =>
        obtain ⟨pre,post,hset,hins,hpre,hpost⟩ := ih cs xs (by simpa using hlen) (by simpa using hi)
        refine ⟨c ++ x :: pre,post,?_,?_,.inr ?_,by simpa using hpost⟩
        · intro c'
          simp [interleave,hset c']
        · intro y m z
          have := hins y m z
          simp [interleave,this]
        · rcases hpre with rfl | ⟨pre',x',rfl,hx'⟩
          · exact ⟨c,x,rfl,by simp⟩
          · exact ⟨c ++ x :: pre',x',by simp,by simp [hx']⟩

theorem interleave_item (cs : List (List α)) (xs : List α) (i : Nat) (a : α)
    (hlen : cs.length = xs.length + 1) (ha : xs[i]? = some a) :
    ∃ pre post, interleave cs xs = pre ++ a :: post ∧
      ∀ b, interleave cs (xs.set i b) = pre ++ b :: post := by
  induction i generalizing cs xs with
  | zero =>
    cases xs with
    | nil => simp at ha
    | cons x xs =>
      cases cs with
      | nil => simp at hlen
      | cons c cs =>
        obtain rfl : x = a := by simpa using ha
        exact ⟨c,interleave cs xs,rfl,fun b => rfl⟩
  | succ i ih =>
    cases xs with
    | nil => simp at ha
    | cons x xs =>
      cases cs with
      | nil => simp at hlen
      | cons c cs =>
        obtain ⟨pre,post,heq,hset⟩ := ih cs xs (by simpa using hlen) (by simpa using ha)
        exact ⟨c ++ x :: pre,post,by simp [interleave,heq],fun b => by simp [interleave,hset b]⟩

theorem interleave_append (cs1 cs2 : List (List α)) (xs1 xs2 : List α) (x : α)
    (hlen : cs1.length = xs1.length + 1) :
    interleave (cs1 ++ cs2) (xs1 ++ x :: xs2) =
      interleave cs1 xs1 ++ x :: interleave cs2 xs2 := by
  induction xs1 generalizing cs1 with
  | nil =>
    cases cs1 with
    | nil => simp at hlen
    | cons c cs =>
      obtain rfl : cs = [] := eq_nil_of_length_eq_zero (by simpa using hlen)
      rfl
  | cons a xs1 ih =>
    cases cs1 with
    | nil => simp at hlen
    | cons c cs => simp [interleave,ih cs (by simpa using hlen)]

end Interleave

variable {κ ν : Type}

theorem collectChildren_eq (items : List (κ × ν)) (children : List (Node κ ν)) :
    collectChildren items children = interleave (children.map collect) items := by
  induction children generalizing items with
  | nil =>
    cases items <;> rfl
  | cons c cs ih =>
    cases items with
    | nil => rfl
    | cons x xs => simp [collectChildren,interleave,ih]

theorem collect_node (items : List (κ × ν)) (children : List (Node κ ν)) :
    collect (.node items children) = interleave (children.map collect) items := by
  rw [collect,collectChildren_eq]

@[simp] theorem collect_leaf (items : List (κ × ν)) : collect (.leaf items) = items := by
  rw [collect]

/-- A subtree of depth `d`; every node below its root is at least half full. -/
def Shape (t : Nat) : Nat → Node κ ν → Prop
  | 0, .leaf items => items.length ≤ 2 * t - 1
  | d + 1, .node items children => items.length ≤ 2 * t - 1 ∧
      children.length = items.length + 1 ∧
      ∀ c ∈ children, t - 1 ≤ c.items.length ∧ Shape t d c
  | _, _ => False

theorem Shape.leaf {t : Nat} {n : Node κ ν} (h : Shape t 0 n) : ∃ items, n = .leaf items := by
  cases n with
  | leaf items => exact ⟨items,rfl⟩
  | node => cases h

theorem Shape.node {t d : Nat} {n : Node κ ν} (h : Shape t (d + 1) n) :
    ∃ items children, n = .node items children := by
  cases n with
  | leaf => cases h
  | node items children => exact ⟨items,children,rfl⟩

def size : Nat → Node κ ν → Nat
  | 0, _ => 1
  | d + 1, n => 1 + (n.children.map (size d)).sum

section Sizes

variable {t d : Nat} {n : Node κ ν}

theorem sum_ge {l : List (Node κ ν)} {f : Node κ ν → Nat} {b : Nat} (h : ∀ c ∈ l, b ≤ f c) :
    l.length * b ≤ (l.map f).sum := by
  induction l with
  | nil => simp
  | cons c l ih =>
    have h₁ := h c mem_cons_self
    have h₂ := ih (fun x hx => h x (mem_cons_of_mem c hx))
    simp only [length_cons,map_cons,sum_cons,Nat.succ_mul]
    omega

/-- Nodes other than the root are at least half full, so that subtrees are large. -/
theorem pow_le_size (ht : 1 ≤ t) : ∀ (d : Nat) (n : Node κ ν), Shape t d n →
    t - 1 ≤ n.items.length → t ^ d ≤ size d n := by
  intro d
  induction d with
  | zero => intro n _ _; simp [size]
  | succ d ih =>
    intro n hs hlen
    obtain ⟨items,children,rfl⟩ := hs.node
    have hsum := sum_ge (fun c hc => ih c (hs.2.2 c hc).2 (hs.2.2 c hc).1)
    have hmul : t * t ^ d ≤ children.length * t ^ d :=
      Nat.mul_le_mul_right _ (by have := hs.2.1; simp only [Node.items_node] at hlen; omega)
    rw [Nat.pow_succ,Nat.mul_comm]
    simp only [size,Node.children_node]
    omega

theorem root_size (ht : 1 ≤ t) (hs : Shape t (d + 1) n) :
    1 + (n.items.length + 1) * t ^ d ≤ size (d + 1) n := by
  obtain ⟨items,children,rfl⟩ := hs.node
  have hsum := sum_ge (fun c hc => pow_le_size ht d c (hs.2.2 c hc).2 (hs.2.2 c hc).1)
  rw [hs.2.1] at hsum
  simp only [size,Node.children_node,Node.items_node]
  omega

end Sizes

section Halves

variable {t d : Nat} {n y z : Node κ ν} {m : κ × ν}

theorem Shape.items_le (h : Shape t d n) : n.items.length ≤ 2 * t - 1 := by
  cases d with
  | zero =>
    obtain ⟨items,rfl⟩ := h.leaf
    exact h
  | succ d =>
    obtain ⟨items,children,rfl⟩ := h.node
    exact h.1

theorem getElem?_split {α : Type} {l : List α} {i : Nat} {a : α} (h : l[i]? = some a) :
    l = l.take i ++ a :: l.drop (i + 1) := by
  obtain ⟨hi,rfl⟩ := List.getElem?_eq_some_iff.mp h
  simp

structure Halved (t d : Nat) (n y : Node κ ν) (m : κ × ν) (z : Node κ ν) : Prop where
  contents : collect n = collect y ++ m :: collect z
  left : Shape t d y
  right : Shape t d z
  leftLen : y.items.length = t - 1
  rightLen : z.items.length = t - 1
  size : size d y + size d z = size d n + 1

theorem halves_spec (ht : 2 ≤ t) (hs : Shape t d n) (hfull : n.items.length = 2 * t - 1) :
    ∃ y m z, halves t n = some (y,m,z) ∧ Halved t d n y m z := by
  obtain ⟨m,hm⟩ : ∃ m, n.items[t - 1]? = some m := ⟨_,getElem?_eq_getElem (by omega)⟩
  have hsplit := getElem?_split hm
  rw [Nat.sub_add_cancel (by omega : 1 ≤ t)] at hsplit
  have hly : (n.items.take (t - 1)).length = t - 1 := by
    rw [length_take]
    omega
  have hlz : (n.items.drop t).length = t - 1 := by
    rw [length_drop]
    omega
  cases d with
  | zero =>
    obtain ⟨items,rfl⟩ := hs.leaf
    simp only [Node.items_leaf] at hm hsplit hly hlz hfull
    refine ⟨.leaf (items.take (t - 1)),m,.leaf (items.drop t),by simp [halves,hm],
      by simpa using hsplit,?_,?_,hly,hlz,rfl⟩
    · simp only [Shape]
      omega
    · simp only [Shape]
      omega
  | succ d =>
    obtain ⟨items,children,rfl⟩ := hs.node
    simp only [Node.items_node] at hm hsplit hly hlz hfull
    obtain ⟨_,hlen,hcs⟩ := hs
    have hcy : (children.take t).length = t := by
      rw [length_take]
      omega
    have hcz : (children.drop t).length = t := by
      rw [length_drop]
      omega
    refine ⟨.node (items.take (t - 1)) (children.take t),m,
      .node (items.drop t) (children.drop t),by simp [halves,hm],?_,?_,?_,hly,hlz,?_⟩
    · rw [collect_node,collect_node,collect_node]
      have hc : children.map collect = (children.take t).map collect ++
          (children.drop t).map collect := by
        rw [← map_append,take_append_drop]
      rw [hc]
      conv_lhs => rw [hsplit]
      exact interleave_append _ _ _ _ m (by rw [length_map,hcy,hly]; omega)
    · exact ⟨by omega,by omega,fun c hc => hcs c (mem_of_mem_take hc)⟩
    · exact ⟨by omega,by omega,fun c hc => hcs c (mem_of_mem_drop hc)⟩
    · have hsum : (children.map (BTree.size d)).sum = ((children.take t).map (BTree.size d)).sum +
          ((children.drop t).map (BTree.size d)).sum := by
        rw [← sum_append,← map_append,take_append_drop]
      simp only [BTree.size,Node.children_node,hsum]
      omega

end Halves

variable [LinearOrder κ]

def Sorted (l : List (κ × ν)) : Prop := (l.map Prod.fst).Pairwise (· < ·)

def upsert (k : κ) (v : ν) : List (κ × ν) → List (κ × ν)
  | [] => [(k,v)]
  | x :: l => if x.1 = k then (k,v) :: l else if k < x.1 then (k,v) :: x :: l else x :: upsert k v l

section Upsert

variable {k k' : κ} {v v' : ν} {l l1 l2 l3 : List (κ × ν)} {x : κ × ν}

theorem upsert_after (h : ∀ x ∈ l1, x.1 < k) : upsert k v (l1 ++ l2) = l1 ++ upsert k v l2 := by
  induction l1 with
  | nil => rfl
  | cons x l1 ih =>
    have hx := h x mem_cons_self
    rw [cons_append,upsert,if_neg (ne_of_lt hx),if_neg (not_lt_of_gt hx),
      ih (fun y hy => h y (mem_cons_of_mem _ hy)),cons_append]

theorem upsert_before (h : ∀ x ∈ l2, k < x.1) : upsert k v (l1 ++ l2) = upsert k v l1 ++ l2 := by
  induction l1 with
  | nil =>
    cases l2 with
    | nil => rfl
    | cons x l2 =>
      have hx := h x mem_cons_self
      simp [upsert,ne_of_gt hx,hx]
  | cons x l1 ih =>
    rw [cons_append,upsert,upsert]
    split_ifs
    · rfl
    · rfl
    · rw [ih,cons_append]

theorem upsert_replace (h : ∀ x ∈ l1, x.1 < k) :
    upsert k v (l1 ++ (k,v') :: l2) = l1 ++ (k,v) :: l2 := by
  rw [upsert_after h,upsert,if_pos rfl]

theorem upsert_insert (h : ∀ x ∈ l1, x.1 < k) (h' : ∀ x ∈ l2, k < x.1) :
    upsert k v (l1 ++ l2) = l1 ++ (k,v) :: l2 := by
  rw [upsert_after h,← nil_append l2,upsert_before h']
  rfl

theorem mem_keys_upsert : k' ∈ (upsert k v l).map Prod.fst ↔ k' = k ∨ k' ∈ l.map Prod.fst := by
  induction l with
  | nil => simp [upsert]
  | cons x l ih =>
    rw [upsert]
    split_ifs with h1 h2
    · simp only [map_cons,mem_cons,h1]
      tauto
    · simp only [map_cons,mem_cons]
    · simp only [map_cons,mem_cons,ih]
      tauto

theorem Sorted.upsert (h : Sorted l) : Sorted (upsert k v l) := by
  induction l with
  | nil => simp [Sorted,BTree.upsert]
  | cons x l ih =>
    simp only [Sorted,map_cons,pairwise_cons] at h
    rw [BTree.upsert]
    split_ifs with h1 h2
    · rw [← h1]
      simp only [Sorted,map_cons,pairwise_cons]
      exact h
    · simp only [Sorted,map_cons,pairwise_cons]
      refine ⟨?_,h⟩
      intro y hy
      rcases mem_cons.mp hy with rfl | hy
      · exact h2
      · exact lt_trans h2 (h.1 y hy)
    · simp only [Sorted,map_cons,pairwise_cons]
      refine ⟨?_,ih h.2⟩
      intro y hy
      rcases mem_keys_upsert.mp hy with rfl | hy
      · exact lt_of_le_of_ne (not_lt.mp h2) h1
      · exact h.1 y hy

theorem length_upsert (h : Sorted l) :
    (upsert k v l).length = if k ∈ l.map Prod.fst then l.length else l.length + 1 := by
  induction l with
  | nil => simp [upsert]
  | cons x l ih =>
    simp only [Sorted,map_cons,pairwise_cons] at h
    rw [upsert]
    by_cases h1 : x.1 = k
    · simp [h1]
    · by_cases h2 : k < x.1
      · -- A smaller key is nowhere in the list.
        have hm : k ∉ (x :: l).map Prod.fst := by
          intro hm
          rcases mem_cons.mp hm with rfl | hm
          · exact h1 rfl
          · exact absurd (h.1 k hm) (not_lt_of_gt h2)
        rw [if_neg h1,if_pos h2,if_neg hm]
        rfl
      · have hm : k ∈ (x :: l).map Prod.fst ↔ k ∈ l.map Prod.fst := by
          rw [map_cons,mem_cons]
          exact or_iff_right (Ne.symm h1)
        rw [if_neg h1,if_neg h2,length_cons,ih h.2,length_cons]
        by_cases hkm : k ∈ l.map Prod.fst
        · rw [if_pos hkm,if_pos (hm.mpr hkm)]
        · rw [if_neg hkm,if_neg (mt hm.mp hkm)]

theorem lookup_cons_ite (x : κ × ν) (l : List (κ × ν)) :
    (x :: l).lookup k' = if k' = x.1 then some x.2 else l.lookup k' := by
  obtain ⟨a,b⟩ := x
  by_cases hk : k' = a
  · simp [hk]
  · have hb : (k' == a) = false := by simpa using hk
    simp [lookup_cons,hb,hk]

theorem lookup_upsert (h : Sorted l) :
    (upsert k v l).lookup k' = if k' = k then some v else l.lookup k' := by
  induction l with
  | nil => rw [upsert,lookup_cons_ite]
  | cons x l ih =>
    simp only [Sorted,map_cons,pairwise_cons] at h
    rw [upsert]
    by_cases h1 : x.1 = k
    · rw [if_pos h1,lookup_cons_ite,lookup_cons_ite,h1]
      by_cases hk : k' = k
      · rw [if_pos hk,if_pos hk]
      · rw [if_neg hk,if_neg hk,if_neg hk]
    · rw [if_neg h1]
      by_cases h2 : k < x.1
      · rw [if_pos h2,lookup_cons_ite]
      · rw [if_neg h2,lookup_cons_ite,ih h.2,lookup_cons_ite]
        by_cases hx : k' = x.1
        · rw [if_pos hx,if_pos hx,if_neg (by rw [hx]; exact h1)]
        · rw [if_neg hx,if_neg hx]

end Upsert

section Insert

variable {t d cap used : Nat} {k : κ} {v : ν} {n : Node κ ν} {items : List (κ × ν)}
  {children : List (Node κ ν)} {i : Nat} {c c' : Node κ ν}

structure Gap (items : List (κ × ν)) (k : κ) (i : Nat) : Prop where
  le : i ≤ items.length
  below : ∀ x ∈ items.take i, x.1 < k
  above : ∀ x ∈ items.drop i, k < x.1

theorem search_cases (h : Sorted items) (k : κ) :
    (∃ i a, items[i]? = some a ∧ a.1 = k ∧ search items k = .inl i) ∨
    (∃ i, Gap items k i ∧ search items k = .inr i) := by
  rcases search_sorted (fun i => (items.map Prod.fst).getD i k) h (by
    intro i hi
    simp [hi]) k with ⟨i,a,hsplit,hi,hk,hs⟩ | ⟨i,hi,hlo,hhi,hs⟩
  · refine .inl ⟨i,a,?_,hk,hs⟩
    have hlen : (items.take i).length = i := by
      rw [length_take]
      exact Nat.min_eq_left (Nat.le_of_lt hi)
    rw [hsplit,getElem?_append_right (Nat.le_of_eq hlen),hlen,Nat.sub_self]
    rfl
  · exact .inr ⟨i,⟨hi,hlo,hhi⟩,hs⟩

theorem Sorted.items_sorted (h : Sorted (collect (.node items children))) : Sorted items := by
  rw [collect_node] at h
  exact h.sublist ((sublist_interleave _ _).map Prod.fst)

theorem child_context (hlen : children.length = items.length + 1)
    (hs : Sorted (collect (.node items children))) (hi : Gap items k i)
    (hc : children[i]? = some c) :
    ∃ pre post, collect (.node items children) = pre ++ (collect c ++ post) ∧
      (∀ c', collect (.node items (children.set i c')) = pre ++ (collect c' ++ post)) ∧
      (∀ y m z, collect (.node (items.insertIdx i m) ((children.set i y).insertIdx (i + 1) z)) =
        pre ++ (collect y ++ m :: (collect z ++ post))) ∧
      (∀ x ∈ pre, x.1 < k) ∧ (∀ x ∈ post, k < x.1) := by
  obtain ⟨pre,post,hset,hins,hpre,hpost⟩ := interleave_child (children.map collect) items i
    (by rw [length_map]; exact hlen) hi.le
  have heq : collect (.node items children) = pre ++ (collect c ++ post) := by
    rw [collect_node,← hset (collect c)]
    congr 1
    rw [← map_set]
    congr 1
    obtain ⟨hi',rfl⟩ := List.getElem?_eq_some_iff.mp hc
    exact (set_getElem_self hi').symm
  rw [heq] at hs
  refine ⟨pre,post,heq,?_,?_,?_,?_⟩
  · intro c'
    rw [collect_node,map_set,hset]
  · intro y m z
    rw [collect_node,map_insertIdx,map_set,hins]
  · rcases hpre with rfl | ⟨pre',x,rfl,hx⟩
    · simp
    · intro y hy
      rw [append_assoc] at hs
      rcases mem_append.mp hy with hy | hy
      · exact lt_trans ((sorted_split hs).1 y hy) (hi.below x hx)
      · rw [mem_singleton.mp hy]
        exact hi.below x hx
  · rcases hpost with rfl | ⟨x,post',rfl,hx⟩
    · simp
    · intro y hy
      rw [← append_assoc] at hs
      rcases mem_cons.mp hy with rfl | hy
      · exact hi.above _ hx
      · exact lt_trans (hi.above x hx) ((sorted_split hs).2 y hy)

theorem Sorted.child (h : Sorted (collect (.node items children)))
    (hlen : children.length = items.length + 1) (hi : Gap items k i)
    (hc : children[i]? = some c) : Sorted (collect c) := by
  obtain ⟨pre,post,heq,_⟩ := child_context hlen h hi hc
  rw [heq] at h
  exact h.sublist (((sublist_append_left _ _).trans
    (sublist_append_right _ _)).map Prod.fst)

structure Inserted (t d used : Nat) (k : κ) (v : ν) (n : Node κ ν) (n' : Node κ ν)
    (used' : Nat) (inserted : Bool) : Prop where
  shape : Shape t d n'
  contents : collect n' = upsert k v (collect n)
  grows : n.items.length ≤ n'.items.length
  arena : size d n' + used = size d n + used'
  cost : used' ≤ used + d
  fresh : inserted = true ↔ k ∉ (collect n).map Prod.fst

def Inserts (t cap d fuel used : Nat) (k : κ) (v : ν) (n : Node κ ν) : Prop :=
  ∃ n' used' inserted, insertNonfull t cap k v fuel used n = some (n',used',inserted) ∧
    Inserted t d used k v n n' used' inserted

theorem not_mem_keys {l1 l2 : List (κ × ν)} (h₁ : ∀ x ∈ l1, x.1 < k) (h₂ : ∀ x ∈ l2, k < x.1)
    (l : List (κ × ν)) : k ∉ (l1 ++ (l ++ l2)).map Prod.fst ↔ k ∉ l.map Prod.fst := by
  have hno1 : k ∉ l1.map Prod.fst := by
    intro hm
    obtain ⟨x,hx,rfl⟩ := List.mem_map.mp hm
    exact lt_irrefl _ (h₁ x hx)
  have hno2 : k ∉ l2.map Prod.fst := by
    intro hm
    obtain ⟨x,hx,rfl⟩ := List.mem_map.mp hm
    exact lt_irrefl _ (h₂ x hx)
  simp only [map_append,mem_append,hno1,hno2,false_or,or_false]

theorem replace_inserted {a : κ × ν} (hs : Shape t (d + 1) (.node items children))
    (hsorted : Sorted (collect (.node items children))) (ha : items[i]? = some a) (hk : a.1 = k) :
    Inserted t (d + 1) used k v (.node items children) (.node (items.set i (k,v)) children)
      used false := by
  obtain ⟨pre,post,heq,hset⟩ := interleave_item (children.map collect) items i a
    (by rw [length_map]; exact hs.2.1) ha
  rw [← collect_node] at heq
  obtain ⟨a1,a2⟩ := a
  simp only at hk
  subst hk
  rw [heq] at hsorted
  refine ⟨⟨by rw [length_set]; exact hs.1,by rw [length_set]; exact hs.2.1,hs.2.2⟩,
    ?_,by simp,rfl,by omega,?_⟩
  · rw [collect_node,hset,heq,upsert_replace (sorted_split hsorted).1]
  · rw [heq]
    simp

theorem replaceLeaf_inserted {a : κ × ν} (hs : Shape t 0 (.leaf items)) (hsorted : Sorted items)
    (ha : items[i]? = some a) (hk : a.1 = k) :
    Inserted t 0 used k v (.leaf items) (.leaf (items.set i (k,v))) used false := by
  have hsplit := getElem?_split ha
  obtain ⟨hi,_⟩ := List.getElem?_eq_some_iff.mp ha
  obtain ⟨a1,a2⟩ := a
  simp only at hk
  subst hk
  refine ⟨by simpa [Shape] using hs,?_,by simp,rfl,by omega,?_⟩
  · rw [collect_leaf,collect_leaf,set_eq_take_append_cons_drop,if_pos hi]
    conv_rhs => rw [hsplit]
    rw [Sorted,hsplit] at hsorted
    rw [upsert_replace (sorted_split hsorted).1]
  · rw [collect_leaf,hsplit]
    simp

theorem insertLeaf_inserted (hlen : items.length < 2 * t - 1) (hi : Gap items k i) :
    Inserted t 0 used k v (.leaf items) (.leaf (items.insertIdx i (k,v))) used true := by
  refine ⟨?_,?_,?_,rfl,by omega,?_⟩
  · simp only [Shape]
    rw [length_insertIdx_of_le_length hi.le]
    omega
  · rw [collect_leaf,collect_leaf,insertIdx_eq items _ hi.le]
    conv_rhs => rw [← take_append_drop i items]
    rw [upsert_insert hi.below hi.above]
  · simp only [Node.items_leaf]
    rw [length_insertIdx_of_le_length hi.le]
    omega
  · have := not_mem_keys hi.below hi.above []
    rw [nil_append,take_append_drop] at this
    rw [collect_leaf,this]
    simp

omit [LinearOrder κ] in
theorem sum_set (f : Node κ ν → Nat) (c' : Node κ ν) (hc : children[i]? = some c) :
    ((children.set i c').map f).sum + f c = (children.map f).sum + f c' := by
  obtain ⟨hi,_⟩ := List.getElem?_eq_some_iff.mp hc
  rw [set_eq_take_append_cons_drop,if_pos hi]
  conv_rhs => rw [getElem?_split hc]
  simp only [map_append,map_cons,sum_append,sum_cons]
  omega

theorem descend_inserted {used' : Nat} {inserted : Bool}
    (hs : Shape t (d + 1) (.node items children))
    (hsorted : Sorted (collect (.node items children))) (hi : Gap items k i)
    (hc : children[i]? = some c) (h : Inserted t d used k v c c' used' inserted) :
    Inserted t (d + 1) used k v (.node items children) (.node items (children.set i c'))
      used' inserted := by
  obtain ⟨pre,post,heq,hset,_,hpre,hpost⟩ := child_context hs.2.1 hsorted hi hc
  refine ⟨⟨hs.1,by rw [length_set]; exact hs.2.1,?_⟩,?_,Nat.le_refl _,?_,?_,?_⟩
  · intro x hx
    rcases mem_or_eq_of_mem_set hx with hx | rfl
    · exact hs.2.2 x hx
    · have := (hs.2.2 c (mem_of_getElem? hc)).1
      exact ⟨Nat.le_trans this h.grows,h.shape⟩
  · rw [hset,h.contents,heq,upsert_after hpre,upsert_before hpost]
  · have := sum_set (size d) c' hc
    have harena := h.arena
    simp only [size,Node.children_node]
    omega
  · have := h.cost
    omega
  · rw [h.fresh,heq,not_mem_keys hpre hpost]

theorem split_child {y z : Node κ ν} {m : κ × ν} (hs : Shape t (d + 1) (.node items children))
    (hsorted : Sorted (collect (.node items children))) (hi : Gap items k i)
    (hroom : items.length < 2 * t - 1) (hc : children[i]? = some c) (h : Halved t d c y m z) :
    Shape t (d + 1) (.node (items.insertIdx i m) ((children.set i y).insertIdx (i + 1) z)) ∧
    collect (.node (items.insertIdx i m) ((children.set i y).insertIdx (i + 1) z)) =
      collect (.node items children) ∧
    size (d + 1) (.node (items.insertIdx i m) ((children.set i y).insertIdx (i + 1) z)) =
      size (d + 1) (.node items children) + 1 := by
  obtain ⟨pre,post,heq,_,hins,_,_⟩ := child_context hs.2.1 hsorted hi hc
  have hlen := hs.2.1
  have hle := hi.le
  have hi' : i + 1 ≤ (children.set i y).length := by
    rw [length_set]
    omega
  refine ⟨⟨?_,?_,?_⟩,?_,?_⟩
  · rw [length_insertIdx_of_le_length hle]
    omega
  · rw [length_insertIdx_of_le_length hi',length_insertIdx_of_le_length hle,
      length_set,hlen]
  · intro x hx
    rcases (mem_insertIdx hi').mp hx with rfl | hx
    · exact ⟨Nat.le_of_eq h.rightLen.symm,h.right⟩
    · rcases mem_or_eq_of_mem_set hx with hx | rfl
      · exact hs.2.2 x hx
      · exact ⟨Nat.le_of_eq h.leftLen.symm,h.left⟩
  · rw [hins,heq,h.contents]
    simp
  · have hsum := sum_set (size d) y hc
    have hsize := h.size
    simp only [size,Node.children_node]
    rw [insertIdx_eq _ _ hi',map_append,map_cons,sum_append,sum_cons]
    have htd : ((children.set i y).take (i + 1)).map (size d) ++
        ((children.set i y).drop (i + 1)).map (size d) = (children.set i y).map (size d) := by
      rw [← map_append,take_append_drop]
    have := congrArg List.sum htd
    rw [sum_append] at this
    omega

theorem Inserted.of_split {n n1 : Node κ ν} {used' : Nat} {inserted : Bool}
    (h : Inserted t d (used + 1) k v n1 n' used' inserted) (hcost : used' ≤ used + d)
    (hcol : collect n1 = collect n) (hlen : n.items.length ≤ n1.items.length)
    (hsize : size d n1 = size d n + 1) : Inserted t d used k v n n' used' inserted := by
  have harena := h.arena
  refine ⟨h.shape,by rw [h.contents,hcol],Nat.le_trans hlen h.grows,by omega,hcost,?_⟩
  rw [h.fresh,hcol]

theorem route_split {m : κ × ν} {y z : Node κ ν} (hi : Gap items k i) (hic : i < children.length)
    (hm : m.1 ≠ k) :
    ∃ j c, j = (if m.1 < k then i + 1 else i) ∧ Gap (items.insertIdx i m) k j ∧
      ((children.set i y).insertIdx (i + 1) z)[j]? = some c ∧ (c = y ∨ c = z) := by
  obtain ⟨hi,hlo,hhi⟩ := hi
  have hlen : (items.take i).length = i := by
    rw [length_take]
    omega
  have hlen' := length_insertIdx_of_le_length hi m
  by_cases hlt : m.1 < k
  · refine ⟨i + 1,z,by rw [if_pos hlt],⟨by omega,?_,?_⟩,?_,.inr rfl⟩
    · intro x hx
      rw [insertIdx_eq items m hi,take_append,hlen,take_of_length_le (by omega),
        show i + 1 - i = 1 by omega] at hx
      rcases mem_append.mp hx with hx | hx
      · exact hlo x hx
      · obtain rfl : x = m := by simpa using hx
        exact hlt
    · intro x hx
      rw [insertIdx_eq items m hi,drop_append,hlen,drop_of_length_le (by omega),
        show i + 1 - i = 1 by omega] at hx
      exact hhi x (by simpa using hx)
    · rw [getElem?_insertIdx_self,if_pos (by rw [length_set]; omega)]
  · have hgt : k < m.1 := lt_of_le_of_ne (not_lt.mp hlt) (Ne.symm hm)
    refine ⟨i,y,by rw [if_neg hlt],⟨by omega,?_,?_⟩,?_,.inl rfl⟩
    · intro x hx
      rw [insertIdx_eq items m hi,take_append,hlen,Nat.sub_self,take_zero,
        append_nil,take_take,Nat.min_self] at hx
      exact hlo x hx
    · intro x hx
      rw [insertIdx_eq items m hi,drop_append,hlen,Nat.sub_self,drop_zero,
        drop_of_length_le (by omega),nil_append] at hx
      rcases mem_cons.mp hx with rfl | hx
      · exact hgt
      · exact hhi x hx
    · rw [getElem?_insertIdx_of_lt (by omega),getElem?_set_self hic]

theorem insertNonfull_node {fuel : Nat} (hs : Shape t (d + 1) (.node items children))
    (hsorted : Sorted (collect (.node items children)))
    (hdown : ∀ i c, Gap items k i → search items k = .inr i → children[i]? = some c →
      Shape t d c → Sorted (collect c) →
      (c.items.length < 2 * t - 1 ∧ Inserts t cap d fuel used k v c) ∨
      Inserts t cap (d + 1) (fuel + 1) used k v (.node items children)) :
    Inserts t cap (d + 1) (fuel + 1) used k v (.node items children) := by
  rcases search_cases hsorted.items_sorted k with ⟨i,a,ha,hk,hsearch⟩ | ⟨i,hi,hsearch⟩
  · exact ⟨_,_,_,by simp [insertNonfull,hsearch],replace_inserted hs hsorted ha hk⟩
  · obtain ⟨c,hc⟩ : ∃ c, children[i]? = some c :=
      ⟨_,getElem?_eq_getElem (by have := hs.2.1; have := hi.le; omega)⟩
    rcases hdown i c hi hsearch hc (hs.2.2 c (mem_of_getElem? hc)).2
      (hsorted.child hs.2.1 hi hc) with ⟨hlen,c',used',ins,hins,hinserted⟩ | h
    · refine ⟨_,_,_,?_,descend_inserted hs hsorted hi hc hinserted⟩
      simp [insertNonfull,hsearch,hc,hlen.ne,hins]
    · exact h

theorem insertNonfull_spec (ht : 2 ≤ t) : ∀ (d fuel used : Nat) (n : Node κ ν), d < fuel →
    Shape t d n → n.items.length < 2 * t - 1 → Sorted (collect n) → used + d ≤ cap →
    Inserts t cap d fuel used k v n := by
  intro d
  induction d with
  | zero =>
    intro fuel used n hf hs hlen hsorted hcap
    obtain ⟨fuel,rfl⟩ : ∃ f, fuel = f + 1 := ⟨fuel - 1,by omega⟩
    obtain ⟨items,rfl⟩ := hs.leaf
    rw [collect_leaf] at hsorted
    rcases search_cases hsorted k with ⟨i,a,ha,hk,hsearch⟩ | ⟨i,hi,hsearch⟩
    · exact ⟨_,_,_,by simp [insertNonfull,hsearch],replaceLeaf_inserted hs hsorted ha hk⟩
    · simp only [Node.items_leaf] at hlen
      exact ⟨_,_,_,by simp [insertNonfull,hsearch,hlen],insertLeaf_inserted hlen hi⟩
  | succ d ih =>
    intro fuel used n hf hs hlen hsorted hcap
    obtain ⟨fuel,rfl⟩ : ∃ f, fuel = f + 1 := ⟨fuel - 1,by omega⟩
    obtain ⟨items,children,rfl⟩ := hs.node
    simp only [Node.items_node] at hlen
    refine insertNonfull_node hs hsorted ?_
    intro i c hi hsearch hc hcs hcsorted
    by_cases hfull : c.items.length = 2 * t - 1
    · obtain ⟨y,m,z,hhalves,h⟩ := halves_spec ht hcs hfull
      obtain ⟨hs',hcol,hsize⟩ := split_child hs hsorted hi hlen hc h
      have hroom : ¬ cap ≤ used := by omega
      rw [← hcol] at hsorted
      have hgrow : items.length ≤ (items.insertIdx i m).length := by
        rw [length_insertIdx_of_le_length hi.le]
        omega
      by_cases hm : m.1 = k
      · have hat : (items.insertIdx i m)[i]? = some m := by
          rw [getElem?_insertIdx_self,if_pos hi.le]
        refine .inr ⟨_,_,_,?_,(replace_inserted hs' hsorted hat hm).of_split (by omega) hcol hgrow
          hsize⟩
        simp [insertNonfull,hsearch,hc,hfull,hroom,hhalves,hm]
      · have hic : i < children.length := (List.getElem?_eq_some_iff.mp hc).1
        obtain ⟨j,c1,hj,hgap,hc1,hyz⟩ := route_split (y := y) (z := z) hi hic hm
        obtain ⟨hcs1,hlen1⟩ : Shape t d c1 ∧ c1.items.length = t - 1 := by
          rcases hyz with rfl | rfl
          · exact ⟨h.left,h.leftLen⟩
          · exact ⟨h.right,h.rightLen⟩
        obtain ⟨c',used',ins,hins,hinserted⟩ := ih fuel (used + 1) c1 (by omega) hcs1 (by omega)
          (hsorted.child hs'.2.1 hgap hc1) (by omega)
        have hcost := hinserted.cost
        refine .inr ⟨_,_,_,?_,(descend_inserted hs' hsorted hgap hc1 hinserted).of_split
          (by omega) hcol hgrow hsize⟩
        simp only [insertNonfull,hsearch,hc,hfull,hroom,hhalves,hm,← hj,hc1,hins,if_true,
          if_false,bind_eq_bind,bind_some,Option.pure_def]
    · have hle := hcs.items_le
      exact .inl ⟨by omega,ih fuel used c (by omega) hcs (by omega) hcsorted (by omega)⟩

end Insert

section Trees

variable {t d : Nat} {n : Node κ ν} {k : κ} {v : ν}

/-- A tree in its arena: the root has an item, and the arena nodes in use are those of the tree. -/
structure Tree.Wf (t : Nat) (tree : Tree κ ν) : Prop where
  sorted : Sorted tree.collect
  count : tree.count = tree.collect.length
  empty : tree.root = none → tree.arenaUsed = 0
  root : ∀ n, tree.root = some n →
    ∃ d, Shape t d n ∧ 1 ≤ n.items.length ∧ size d n = tree.arenaUsed

def Tree.Roomy (t : Nat) (tree : Tree κ ν) : Prop :=
  tree.arenaUsed < tree.arenaCap ∧ ∀ d n, tree.root = some n → Shape t d n → 
    1 ≤ n.items.length → size d n = tree.arenaUsed → d + 1 < maxDepth ∧
      tree.arenaUsed + (if n.items.length = 2 * t - 1 then d + 2 else d) ≤ tree.arenaCap

theorem Tree.Wf.root_none {tree : Tree κ ν} (h : tree.Wf t) (hc : tree.count = 0) :
    tree.root = none := by
  cases hroot : tree.root with
  | none => rfl
  | some n =>
    obtain ⟨d,_,hlen,_⟩ := h.root n hroot
    have hsub : n.items.Sublist tree.collect := by
      simp only [Tree.collect,hroot]
      cases n with
      | leaf items => exact List.Sublist.refl _
      | node items children =>
        rw [collect_node]
        exact sublist_interleave _ _
    have := hsub.length_le
    have := h.count
    omega

theorem insertNonfull_fresh_root {y z : Node κ ν} {m : κ × ν} {cap fuel used : Nat} (ht : 2 ≤ t)
    (hf : d + 1 < fuel) (hs : Shape t (d + 1) (.node [m] [y,z])) (h : Halved t d n y m z)
    (hsorted : Sorted (collect (.node [m] [y,z]))) (hcap : used + d ≤ cap) :
    Inserts t cap (d + 1) fuel used k v (.node [m] [y,z]) := by
  obtain ⟨fuel,rfl⟩ : ∃ f, fuel = f + 1 := ⟨fuel - 1,by omega⟩
  refine insertNonfull_node hs hsorted ?_
  intro i c _ _ hc hcs hcsorted
  have hlen : c.items.length = t - 1 := by
    rcases mem_cons.mp (mem_of_getElem? hc) with rfl | hmem
    · exact h.leftLen
    · rw [mem_singleton.mp hmem]
      exact h.rightLen
  exact .inl ⟨by omega,insertNonfull_spec ht d fuel used c (by omega) hcs (by omega) hcsorted hcap⟩

theorem Inserted.tree {tree : Tree κ ν} {used used' : Nat} {n' : Node κ ν} {inserted : Bool}
    (h : Inserted t d used k v n n' used' inserted) (hwf : tree.Wf t)
    (hcol : collect n = tree.collect) (hlen : 1 ≤ n.items.length) (hsize : size d n = used) :
    Tree.Wf t { tree with
      root := some n', arenaUsed := used'
      count := if inserted then tree.count + 1 else tree.count } ∧
      collect n' = upsert k v tree.collect ∧
      (inserted = true ↔ k ∉ tree.collect.map Prod.fst) := by
  have hcontents := h.contents
  have hgrows := h.grows
  have harena := h.arena
  have hfresh := h.fresh
  rw [hcol] at hcontents hfresh
  refine ⟨⟨?_,?_,?_,?_⟩,hcontents,hfresh⟩
  · simp only [Tree.collect,hcontents]
    exact hwf.sorted.upsert
  · simp only [Tree.collect,hcontents]
    change _ = (upsert k v tree.collect).length
    rw [length_upsert hwf.sorted,hwf.count]
    by_cases hk : k ∈ tree.collect.map Prod.fst
    · rw [if_pos hk,if_neg (fun hins => hfresh.mp hins hk)]
    · rw [if_neg hk,if_pos (hfresh.mpr hk)]
  · intro hroot
    cases hroot
  · intro m hm
    cases hm
    refine ⟨d,h.shape,by omega,?_⟩
    change size d n' = used'
    omega

theorem Tree.insertNew_spec {tree : Tree κ ν} (ht : 2 ≤ t) (hwf : tree.Wf t) (hroom : tree.Roomy t) :
    ∃ tree' inserted, tree.insertNew t k v = some (tree',inserted) ∧ tree'.Wf t ∧
      tree'.arenaCap = tree.arenaCap ∧ tree'.collect = upsert k v tree.collect ∧
      (inserted = true ↔ k ∉ tree.collect.map Prod.fst) := by
  obtain ⟨hcap,hdepth⟩ := hroom
  cases hroot : tree.root with
  | none =>
    have heq : tree.insertNew t k v = some ({ tree with
        root := some (.leaf [(k,v)]), count := 1, arenaUsed := tree.arenaUsed + 1 },true) := by
      simp only [Tree.insertNew,hroot,if_neg (Nat.not_le.mpr hcap)]
    refine ⟨_,_,heq,⟨?_,rfl,?_,?_⟩,rfl,?_,by simp [Tree.collect,hroot]⟩
    · simp [Tree.collect,BTree.collect,Sorted]
    · intro h
      cases h
    · intro n hn
      cases hn
      refine ⟨0,?_,by simp,?_⟩
      · simp only [Shape,length_singleton]
        omega
      · simp [size,hwf.empty hroot]
    · simp [Tree.collect,hroot,BTree.collect,upsert]
  | some n =>
    obtain ⟨d,hs,hlen,hsize⟩ := hwf.root n hroot
    obtain ⟨hd,hroom⟩ := hdepth d n hroot hs hlen hsize
    have hcol : BTree.collect n = tree.collect := by simp only [Tree.collect,hroot]
    have hsorted := hwf.sorted
    rw [← hcol] at hsorted
    by_cases hfull : n.items.length = 2 * t - 1
    · rw [if_pos hfull] at hroom
      obtain ⟨y,m,z,hhalves,h⟩ := halves_spec ht hs hfull
      have hsize' := h.size
      have hroot' : BTree.collect (.node [m] [y,z]) = BTree.collect n := by
        rw [collect_node,h.contents]
        simp [interleave]
      have hs' : Shape t (d + 1) (.node [m] [y,z]) := by
        refine ⟨by simp only [length_singleton]; omega,rfl,?_⟩
        intro c hc
        rcases mem_cons.mp hc with rfl | hc
        · exact ⟨Nat.le_of_eq h.leftLen.symm,h.left⟩
        · rw [mem_singleton.mp hc]
          exact ⟨Nat.le_of_eq h.rightLen.symm,h.right⟩
      rw [← hroot'] at hsorted
      obtain ⟨n',used',ins,hins,hinserted⟩ := insertNonfull_fresh_root (k := k) (v := v) ht hd hs'
        h hsorted (Nat.le_trans (by omega) hroom : tree.arenaUsed + 2 + d ≤ _)
      obtain ⟨hwf',hcontents,hfresh⟩ := hinserted.tree hwf (hroot'.trans hcol) (by simp)
        (by simp only [size,Node.children_node,map_cons,map_nil,sum_cons,
              sum_nil]; omega)
      refine ⟨_,_,?_,hwf',rfl,hcontents,hfresh⟩
      simp only [Tree.insertNew,hroot,hfull,if_true,if_neg (Nat.not_le.mpr hcap),
        if_neg (show ¬ tree.arenaCap ≤ tree.arenaUsed + 1 by omega),hhalves,hins,
        bind_eq_bind,bind_some,Option.pure_def]
    · rw [if_neg hfull] at hroom
      have hle := hs.items_le
      obtain ⟨n',used',ins,hins,hinserted⟩ := insertNonfull_spec (k := k) (v := v) ht d maxDepth
        tree.arenaUsed n (by omega) hs (by omega) hsorted hroom
      obtain ⟨hwf',hcontents,hfresh⟩ := hinserted.tree hwf hcol hlen hsize
      refine ⟨_,_,?_,hwf',rfl,hcontents,hfresh⟩
      simp only [Tree.insertNew,hroot,hfull,if_false,hins,bind_eq_bind,bind_some,
        Option.pure_def]

theorem Tree.insert_spec {tree : Tree κ ν} (ht : 2 ≤ t) (hwf : tree.Wf t) (hroom : tree.Roomy t) :
    ∃ tree', tree.insert t k v = some tree' ∧ tree'.Wf t ∧ tree'.arenaCap = tree.arenaCap ∧
      tree'.collect = upsert k v tree.collect := by
  obtain ⟨tree',inserted,heq,hwf',hcap,hcol,_⟩ := tree.insertNew_spec (k := k) (v := v) ht hwf hroom
  exact ⟨tree',by rw [Tree.insert,heq]; rfl,hwf',hcap,hcol⟩

end Trees

end BTree
