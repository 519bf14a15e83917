import Gravel.Lib.BTreeInsert
import Mathlib.Data.List.Induction

namespace BTree
open List Option

variable {κ ν : Type} [LinearOrder κ] {t cap d : Nat} {k : κ} {v : ν}

/-- An insertion takes nodes and gives none back, and a larger arena makes no difference to it. -/
theorem insertNonfull_arena (cap' fuel : Nat) : ∀ {used used' : Nat} {n n' : Node κ ν} {b : Bool},
    insertNonfull t cap k v fuel used n = some (n',used',b) → used ≤ used' ∧
      (used' ≤ cap' → insertNonfull t cap' k v fuel used n = some (n',used',b)) := by
  induction fuel with
  | zero =>
    intro used used' n n' b h
    cases h
  | succ fuel ih =>
    intro used used' n n' b h
    cases n with
    | leaf items =>
      refine ⟨?_,fun _ => h⟩
      simp only [insertNonfull] at h
      split at h
      · cases h
        exact Nat.le_refl _
      · split_ifs at h
        cases h
        exact Nat.le_refl _
    | node items children =>
      simp only [insertNonfull] at h ⊢
      cases hsearch : search items k with
      | inl i =>
        simp only [hsearch] at h ⊢
        cases h
        exact ⟨Nat.le_refl _,fun _ => rfl⟩
      | inr i =>
        simp only [hsearch] at h ⊢
        obtain ⟨c,hc,h⟩ := bind_eq_some_iff.mp h
        simp only [hc,bind_eq_bind,bind_some]
        split_ifs at h with hfull hused
        · obtain ⟨⟨y,m,z⟩,hhalves,h⟩ := bind_eq_some_iff.mp h
          simp only [hfull,if_true,hhalves,bind_some]
          by_cases hm : m.1 = k
          · simp only [hm,if_true] at h ⊢
            cases h
            exact ⟨Nat.le_succ _,fun hle => if_neg (by omega)⟩
          · simp only [hm,if_false] at h ⊢
            obtain ⟨c1,hc1,h⟩ := bind_eq_some_iff.mp h
            obtain ⟨⟨c2,used2,b2⟩,hrec,h⟩ := bind_eq_some_iff.mp h
            cases h
            obtain ⟨hgrown,hsame⟩ := ih hrec
            refine ⟨Nat.le_of_succ_le hgrown,fun hle => ?_⟩
            simp only at hle
            simp only [hc1,bind_some,hsame hle]
            exact if_neg (by omega)
        · obtain ⟨⟨c2,used2,b2⟩,hrec,h⟩ := bind_eq_some_iff.mp h
          cases h
          refine ⟨(ih hrec).1,fun hle => ?_⟩
          simp only [hfull,if_false,(ih hrec).2 hle,bind_some]
          rfl

variable {tree tree' : Tree κ ν}

def Tree.spacious (tree : Tree κ ν) : Tree κ ν :=
  { tree with arenaCap := tree.arenaUsed + (maxDepth + 2) }

/-- Every node that the insertion asks for is there: it takes no more nodes than the arena has. -/
def Tree.Allocates (t : Nat) (tree : Tree κ ν) (k : κ) (v : ν) : Prop :=
  ∀ tree' b, tree.spacious.insertNew t k v = some (tree',b) → tree'.arenaUsed ≤ tree.arenaCap

instance (tree : Tree κ ν) (k : κ) (v : ν) : Decidable (tree.Allocates t k v) :=
  match h : tree.spacious.insertNew t k v with
  | some (tree',b) => decidable_of_iff (tree'.arenaUsed ≤ tree.arenaCap) (by simp [Tree.Allocates,h])
  | none => isTrue (by simp [Tree.Allocates,h])

omit [LinearOrder κ] in
/-- In an arena that holds fewer than `2 ^ 32` nodes a tree is far from the bound on its depth. -/
theorem shape_depth (ht : 2 ≤ t) {n : Node κ ν} (hs : Shape t d n) (hlen : 1 ≤ n.items.length)
    (hsize : size d n < 2 ^ 32) : d + 1 < maxDepth := by
  cases d with
  | zero => decide
  | succ d =>
    have hroot := root_size (by omega) hs
    have hpow : 2 ^ d ≤ t ^ d := Nat.pow_le_pow_left ht d
    have hmul : 2 * t ^ d ≤ (n.items.length + 1) * t ^ d := Nat.mul_le_mul_right _ (by omega)
    have hd : 2 ^ d < 2 ^ 32 := by omega
    have := (Nat.pow_lt_pow_iff_right (by omega)).mp hd
    unfold maxDepth
    omega

theorem Tree.Wf.spacious (h : tree.Wf t) : tree.spacious.Wf t := ⟨h.sorted,h.count,h.empty,h.root⟩

omit [LinearOrder κ] in
theorem Tree.roomy_spacious (ht : 2 ≤ t) (hsmall : tree.arenaUsed < 2 ^ 32) :
    tree.spacious.Roomy t := by
  refine ⟨by simp only [Tree.spacious]; omega,fun d n _ hs hlen hsize => ?_⟩
  have hd := shape_depth ht hs hlen (by rw [hsize]; exact hsmall)
  refine ⟨hd,?_⟩
  simp only [Tree.spacious]
  split_ifs <;> omega

theorem Tree.insertNew_arena {b : Bool} (h : tree.spacious.insertNew t k v = some (tree',b))
    (hle : tree'.arenaUsed ≤ tree.arenaCap) :
    tree.refuses t = false ∧
      tree.insertNew t k v = some ({ tree' with arenaCap := tree.arenaCap },b) := by
  unfold Tree.insertNew at h ⊢
  simp only [Tree.spacious] at h
  cases hroot : tree.root with
  | none =>
    simp only [hroot] at h ⊢
    rw [if_neg (by omega)] at h
    cases h
    simp only at hle
    exact ⟨by simp [Tree.refuses,hroot]; omega,by rw [if_neg (by omega)]⟩
  | some root =>
    simp only [hroot] at h ⊢
    by_cases hfull : root.items.length = 2 * t - 1
    · simp only [hfull,if_true] at h ⊢
      have hone : ¬ tree.arenaUsed + (maxDepth + 2) ≤ tree.arenaUsed := by omega
      have htwo : ¬ tree.arenaUsed + (maxDepth + 2) ≤ tree.arenaUsed + 1 := by omega
      simp only [hone,htwo,if_false] at h
      obtain ⟨⟨y,m,z⟩,hhalves,h⟩ := bind_eq_some_iff.mp h
      obtain ⟨⟨n',used',ins⟩,hins,h⟩ := bind_eq_some_iff.mp h
      cases h
      simp only at hle
      obtain ⟨hused,hsame⟩ := insertNonfull_arena tree.arenaCap maxDepth hins
      refine ⟨by simp [Tree.refuses,hroot,hfull]; omega,?_⟩
      rw [if_neg (by omega),if_neg (by omega)]
      simp only [hhalves,hsame hle,bind_eq_bind,bind_some,Option.pure_def]
    · simp only [hfull,if_false] at h ⊢
      obtain ⟨⟨n',used',ins⟩,hins,h⟩ := bind_eq_some_iff.mp h
      cases h
      simp only at hle
      have hsame := (insertNonfull_arena _ maxDepth hins).2 hle
      refine ⟨by simp [Tree.refuses,hroot,hfull],?_⟩
      simp only [hsame,bind_eq_bind,bind_some,Option.pure_def]

theorem Tree.Wf.insertNew (ht : 2 ≤ t) (h : tree.Wf t) (hsmall : tree.arenaUsed < 2 ^ 32)
    (halloc : tree.Allocates t k v) :
    ∃ tree' b, tree.insertNew t k v = some (tree',b) ∧ tree.refuses t = false ∧ tree'.Wf t ∧
      tree'.arenaCap = tree.arenaCap ∧ tree'.arenaUsed ≤ tree.arenaCap ∧
      tree'.collect = upsert k v tree.collect ∧ (b = true ↔ k ∉ tree.collect.map Prod.fst) := by
  obtain ⟨tree',b,hins,hwf,_,hcol,hfresh⟩ := Tree.insertNew_spec (k := k) (v := v) ht h.spacious
    (Tree.roomy_spacious ht hsmall)
  have hle := halloc tree' b hins
  obtain ⟨hyes,heq⟩ := Tree.insertNew_arena hins hle
  exact ⟨_,b,heq,hyes,⟨hwf.sorted,hwf.count,hwf.empty,hwf.root⟩,rfl,hle,hcol,hfresh⟩

section Runs

def lastWrite (writes : List (κ × ν)) (k : κ) : Option ν := writes.reverse.lookup k

theorem lastWrite_append (writes later : List (κ × ν)) :
    lastWrite (writes ++ later) k = (lastWrite later k).or (lastWrite writes k) := by
  rw [lastWrite,reverse_append,lookup_append]
  rfl

theorem lastWrite_singleton {k' : κ} : lastWrite [(k,v)] k' = if k' = k then some v else none := by
  rw [lastWrite,reverse_singleton,lookup_cons_ite]
  rfl

def upserts (writes : List (κ × ν)) : List (κ × ν) :=
  writes.foldl (fun l w => upsert w.1 w.2 l) []

theorem upserts_append (writes : List (κ × ν)) (w : κ × ν) :
    upserts (writes ++ [w]) = upsert w.1 w.2 (upserts writes) := by
  simp [upserts]

theorem sorted_upserts (writes : List (κ × ν)) : Sorted (upserts writes) := by
  induction writes using List.reverseRecOn with
  | nil => simp [upserts,Sorted]
  | append_singleton writes w ih =>
    rw [upserts_append]
    exact ih.upsert

theorem mem_keys_upserts (writes : List (κ × ν)) :
    k ∈ (upserts writes).map Prod.fst ↔ k ∈ writes.map Prod.fst := by
  induction writes using List.reverseRecOn with
  | nil => simp [upserts]
  | append_singleton writes w ih =>
    rw [upserts_append,mem_keys_upsert,ih,map_append,mem_append,map_singleton,
      mem_singleton,or_comm]

theorem lookup_upserts (writes : List (κ × ν)) :
    (upserts writes).lookup k = lastWrite writes k := by
  induction writes using List.reverseRecOn with
  | nil => rfl
  | append_singleton writes w ih =>
    rw [upserts_append,lookup_upsert (sorted_upserts writes),ih,lastWrite_append,
      lastWrite_singleton]
    split_ifs <;> rfl

theorem Sorted.mem_iff {l : List (κ × ν)} (h : Sorted l) : (k,v) ∈ l ↔ l.lookup k = some v := by
  induction l with
  | nil => simp
  | cons x l ih =>
    simp only [Sorted,map_cons,pairwise_cons] at h
    obtain ⟨a,b⟩ := x
    rw [mem_cons,lookup_cons_ite]
    by_cases hk : k = a
    · subst hk
      have hno : (k,v) ∉ l := fun hin => lt_irrefl k (h.1 k (List.mem_map.mpr ⟨(k,v),hin,rfl⟩))
      simp [hno,eq_comm]
    · simp [hk,ih h.2]

theorem Sorted.lastWrite {l : List (κ × ν)} (h : Sorted l) : lastWrite l k = l.lookup k := by
  induction l with
  | nil => rfl
  | cons x l ih =>
    have hrest := pairwise_cons.mp h
    rw [← singleton_append,lastWrite_append,ih hrest.2,singleton_append,lookup_cons_ite,
      lastWrite_singleton]
    split_ifs with hk
    · have hnone : l.lookup k = none := by
        rw [lookup_eq_none_iff]
        intro y hy
        have hlt := hrest.1 y.1 (List.mem_map_of_mem hy)
        simp only [bne_iff_ne,ne_eq]
        rw [hk]
        exact ne_of_lt hlt
      rw [hnone]
      rfl
    · exact or_none

end Runs

end BTree
