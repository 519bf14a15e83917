import Gravel.Lib.BTreeArena
import Gravel.Proofs.KeyBuffer

namespace Gravel.Proofs.KeyTree
open BTree KeyBuffer List Option

section Runs

variable {t t' : KeyBTree} {writes : List KeyWriteEntry}

def kbtInserts (t : KeyBTree) : List KeyWriteEntry → Option (KeyBTree × List Bool)
  | [] => some (t,[])
  | (e,f) :: rest => do
    let (t,new) ← kbtInsertNew t e f
    let (t,news) ← kbtInserts t rest
    return (t,new :: news)

def Allocated (t : KeyBTree) : List KeyWriteEntry → Prop
  | [] => True
  | (e,f) :: rest => t.Allocates kbtOrder e f ∧
      ∀ t' new, kbtInsertNew t e f = some (t',new) → Allocated t' rest

instance Allocated.decidable : ∀ (t : KeyBTree) (writes : List KeyWriteEntry),
    Decidable (Allocated t writes)
  | _, [] => isTrue trivial
  | t, (e,f) :: rest =>
    match h : kbtInsertNew t e f with
    | none => decidable_of_iff (t.Allocates kbtOrder e f) (by simp [Allocated,h])
    | some (t',new) =>
      have := Allocated.decidable t' rest
      decidable_of_iff (t.Allocates kbtOrder e f ∧ Allocated t' rest) (by simp [Allocated,h])

def firsts (seen : List Nat) : List KeyWriteEntry → List Bool
  | [] => []
  | (e,_) :: rest => decide (e ∉ seen) :: firsts (seen ++ [e]) rest

theorem getElem?_firsts {i : Nat} {w : KeyWriteEntry} (writes : List KeyWriteEntry) :
    ∀ (seen : List Nat), writes[i]? = some w →
      (firsts seen writes)[i]? = some (decide (w.1 ∉ seen ++ (writes.take i).map Prod.fst)) := by
  induction writes generalizing i with
  | nil => intro seen h; cases h
  | cons x writes ih =>
    intro seen h
    cases i with
    | zero =>
      cases h
      simp [firsts]
    | succ i =>
      rw [firsts,getElem?_cons_succ,ih (seen ++ [x.1]) h]
      simp

theorem length_firsts (seen : List Nat) (writes : List KeyWriteEntry) :
    (firsts seen writes).length = writes.length := by
  induction writes generalizing seen with
  | nil => rfl
  | cons x writes ih => simp [firsts,ih]

theorem kbtInserts_spec (writes : List KeyWriteEntry) : ∀ (t : KeyBTree) (before : List KeyWriteEntry),
    t.Wf kbtOrder → t.arenaUsed ≤ t.arenaCap → t.arenaCap < 2 ^ 32 → Allocated t writes →
    kbtCollect t = upserts before →
    ∃ t', kbtInserts t writes = some (t',firsts (before.map Prod.fst) writes) ∧
      t'.Wf kbtOrder ∧ kbtCollect t' = upserts (before ++ writes) := by
  induction writes with
  | nil =>
    intro t before hwf _ _ _ hcol
    exact ⟨t,rfl,hwf,by rw [append_nil]; exact hcol⟩
  | cons w writes ih =>
    intro t before hwf hused hcap halloc hcol
    obtain ⟨e,f⟩ := w
    obtain ⟨t1,new,hins,_,hwf1,hcap1,hused1,hcol1,hnew⟩ :=
      Tree.Wf.insertNew (k := e) (v := f) (by decide) hwf (by omega) halloc.1
    have hcol2 : kbtCollect t1 = upserts (before ++ [(e,f)]) := by
      rw [upserts_append,← hcol]
      exact hcol1
    obtain ⟨t',hrun,hwf',hcol'⟩ := ih t1 (before ++ [(e,f)]) hwf1 (by omega) (by omega)
      (halloc.2 t1 new hins) hcol2
    have hfirst : new = decide (e ∉ before.map Prod.fst) := by
      rw [Bool.eq_iff_iff,decide_eq_true_iff,hnew]
      change e ∉ (kbtCollect t).map Prod.fst ↔ _
      rw [hcol,mem_keys_upserts]
    have hhead : kbtInsertNew t e f = some (t1,new) := hins
    refine ⟨t',?_,hwf',by rw [hcol',append_assoc,singleton_append]⟩
    rw [kbtInserts,hhead,bind_eq_bind,bind_some]
    simp only [hrun,hfirst,firsts,bind_eq_bind,bind_some,Option.pure_def,
      map_append,map_cons,map_nil]

/-- `KeyBTree` is a sorted map in which the last write of a key wins. -/
theorem keyTree_refines_map (hroot : t.root = none) (hcount : t.count = 0) (hused : t.arenaUsed = 0)
    (hcap : t.arenaCap < 2 ^ 32) (halloc : Allocated t writes) :
    ∃ t' news, kbtInserts t writes = some (t',news) ∧
      ((kbtCollect t').map Prod.fst).Pairwise (· < ·) ∧
      (∀ e f, (e,f) ∈ kbtCollect t' ↔ lastWrite writes e = some f) ∧
      t'.count = (kbtCollect t').length ∧ news.length = writes.length ∧
      (∀ i w, writes[i]? = some w →
        news[i]? = some (decide (w.1 ∉ (writes.take i).map Prod.fst))) ∧
      ∀ root, t'.root = some root → ∃ d, Shape kbtOrder d root := by
  have hnil : kbtCollect t = upserts [] := by simp [kbtCollect,Tree.collect,hroot,upserts]
  obtain ⟨t',hrun,hwf,hcol⟩ := kbtInserts_spec writes t [] (wf_empty t hroot hcount hused)
    (by omega) hcap halloc hnil
  rw [nil_append] at hcol
  refine ⟨t',_,hrun,hwf.sorted,?_,hwf.count,?_,?_,?_⟩
  · intro e f
    rw [hcol,(sorted_upserts writes).mem_iff,lookup_upserts]
  · exact length_firsts _ writes
  · intro i w hw
    have := getElem?_firsts writes [] hw
    rw [nil_append] at this
    exact this
  · intro root hr
    obtain ⟨d,hs,_,_⟩ := hwf.root root hr
    exact ⟨d,hs⟩

def manyWrites : List KeyWriteEntry := (List.range 128).map (fun i => (200 - i,1)) ++ [(195,7)]

/-- The root is split on the way. -/
theorem splitTree_refines_map :
    ∃ t' news, kbtInserts (kbtInit 0) manyWrites = some (t',news) ∧
      (∀ e f, (e,f) ∈ kbtCollect t' ↔ lastWrite manyWrites e = some f) ∧
      news[128]? = some false ∧ t'.root.any (fun root => root.children.length = 2) = true := by
  obtain ⟨t',news,hrun,_,hmem,_,_,hnews,_⟩ := keyTree_refines_map (t := kbtInit 0)
    rfl rfl rfl (by decide) (by decide +kernel : Allocated (kbtInit 0) manyWrites)
  have hsplit : (kbtInserts (kbtInit 0) manyWrites).map (fun r =>
      r.1.root.any (fun root => root.children.length = 2)) = some true := by decide +kernel
  rw [hrun] at hsplit
  have hknown : (decide ((195,(7 : UInt64)).1 ∉ (manyWrites.take 128).map Prod.fst)) = false := by
    decide +kernel
  refine ⟨t',news,hrun,hmem,?_,some_inj.mp hsplit⟩
  rw [hnews 128 (195,7) (by decide +kernel),hknown]

end Runs

section Buffering

variable {s s' : DimBin} {e : Nat} {f : UInt64}

def bufTree (s : DimBin) : KeyBTree :=
  if kbtFull s.keyBuf then (dimbinFlushKeys s).keyBuf else s.keyBuf

def handedOver (s : DimBin) : List KeyWriteEntry :=
  if kbtFull s.keyBuf then kbtCollect s.keyBuf else []

def bufKeys (s : DimBin) : List KeyWriteEntry → Option (DimBin × List KeyWriteEntry)
  | [] => some (s,[])
  | (e,f) :: rest => do
    let s' ← dimbinBufKey s e f
    let (s'',later) ← bufKeys s' rest
    return (s'',handedOver s ++ later)

theorem bufTree_spec (h : KeyBufInv s.keyBuf) :
    KeyBufInv (bufTree s) ∧ kbtFull (bufTree s) = false ∧
      handedOver s ++ kbtCollect (bufTree s) = kbtCollect s.keyBuf := by
  unfold bufTree handedOver
  by_cases hfull : kbtFull s.keyBuf
  · rw [if_pos hfull,if_pos hfull]
    unfold dimbinFlushKeys
    split_ifs with hc
    · rw [kbtFull_empty h hc] at hfull
      cases hfull
    · exact ⟨h.clear,kbtFull_empty h.clear rfl,append_nil _⟩
  · rw [if_neg hfull,if_neg hfull]
    exact ⟨h,by simpa using hfull,rfl⟩

theorem dimbinBufKey_step (h : KeyBufInv s.keyBuf) (e : Nat) (f : UInt64) :
    (bufTree s).refuses kbtOrder = false ∧ (kbtInsert (bufTree s) e f).isSome ∧
      ∃ s', dimbinBufKey s e f = some s' ∧ KeyBufInv s'.keyBuf ∧
        ∀ x, lastWrite (handedOver s ++ kbtCollect s'.keyBuf) x =
          lastWrite (kbtCollect s.keyBuf ++ [(e,f)]) x := by
  obtain ⟨hinv,hroom,hsplit⟩ := bufTree_spec h
  obtain ⟨t,hins,hinv',hcol⟩ := kbtInsert_spec hinv hroom e f
  refine ⟨?_,by rw [hins]; rfl,?_⟩
  · have hspare := (hinv.roomy hroom).1
    unfold Tree.refuses
    simp only [Bool.and_eq_false_iff,decide_eq_false_iff_not]
    exact Or.inl (by omega)
  · refine ⟨{ (if kbtFull s.keyBuf then dimbinFlushKeys s else s) with keyBuf := t },?_,hinv',?_⟩
    · have htree : (if kbtFull s.keyBuf then dimbinFlushKeys s else s).keyBuf = bufTree s := by
        unfold bufTree
        split_ifs <;> rfl
      unfold dimbinBufKey
      simp only [htree,hins,bind_eq_bind,bind_some,Option.pure_def]
    · intro x
      have hsorted : Sorted (kbtCollect (bufTree s)) := hinv.wf.sorted
      have hsorted' : Sorted (upsert e f (kbtCollect (bufTree s))) := hsorted.upsert
      simp only [hcol]
      rw [← hsplit,append_assoc,lastWrite_append,lastWrite_append,lastWrite_append,
        hsorted'.lastWrite,hsorted.lastWrite,lookup_upsert hsorted,lastWrite_singleton]
      split_ifs <;> rfl

theorem bufKeys_spec (calls : List KeyWriteEntry) : ∀ (s : DimBin), KeyBufInv s.keyBuf →
    ∃ s' handed, bufKeys s calls = some (s',handed) ∧ KeyBufInv s'.keyBuf ∧
      ∀ x, lastWrite (handed ++ kbtCollect s'.keyBuf) x =
        lastWrite (kbtCollect s.keyBuf ++ calls) x := by
  induction calls with
  | nil =>
    intro s h
    exact ⟨s,[],rfl,h,fun x => by rw [nil_append,append_nil]⟩
  | cons call calls ih =>
    intro s h
    obtain ⟨e,f⟩ := call
    obtain ⟨_,_,s1,hstep,h1,hlast1⟩ := dimbinBufKey_step h e f
    obtain ⟨s',later,hrun,h',hlast⟩ := ih s1 h1
    refine ⟨s',handedOver s ++ later,?_,h',?_⟩
    · rw [bufKeys,hstep,bind_eq_bind,bind_some]
      simp only [hrun,bind_eq_bind,bind_some,Option.pure_def]
    · intro x
      calc lastWrite (handedOver s ++ later ++ kbtCollect s'.keyBuf) x
          = (lastWrite (later ++ kbtCollect s'.keyBuf) x).or (lastWrite (handedOver s) x) := by
            rw [append_assoc,lastWrite_append]
        _ = (lastWrite calls x).or (lastWrite (handedOver s ++ kbtCollect s1.keyBuf) x) := by
            rw [hlast x,lastWrite_append,lastWrite_append,Option.or_assoc]
        _ = lastWrite (kbtCollect s.keyBuf ++ (e,f) :: calls) x := by
            rw [hlast1 x,← lastWrite_append,append_assoc,singleton_append]

/-- In every run of `dimbin_buf_key` each insertion gets the nodes it asks for, and the writes
handed over and those still buffered amount to the calls. No budget of `dimbin_init` is larger. -/
theorem spare_nodes_suffice {budget : Nat} (hbudget : budget ≤ 2 ^ 24)
    (hbuf : s.keyBuf = kbtInit budget) (calls : List KeyWriteEntry) :
    (∀ before e f after, calls = before ++ (e,f) :: after →
      ∃ s1 handed, bufKeys s before = some (s1,handed) ∧
        (bufTree s1).refuses kbtOrder = false ∧ (kbtInsert (bufTree s1) e f).isSome) ∧
      ∃ s' handed, bufKeys s calls = some (s',handed) ∧
        ∀ x, lastWrite (handed ++ kbtCollect s'.keyBuf) x = lastWrite calls x := by
  have hinv : KeyBufInv s.keyBuf := by
    rw [hbuf]
    exact kbtInit_inv hbudget
  constructor
  · intro before e f after _
    obtain ⟨s1,handed,hrun,hinv1,_⟩ := bufKeys_spec before s hinv
    obtain ⟨hrefuses,hins,_⟩ := dimbinBufKey_step hinv1 e f
    exact ⟨s1,handed,hrun,hrefuses,hins⟩
  · obtain ⟨s',handed,hrun,_,hlast⟩ := bufKeys_spec calls s hinv
    have hnil : kbtCollect s.keyBuf = [] := by
      rw [hbuf]
      rfl
    exact ⟨s',handed,hrun,fun x => by rw [hlast x,hnil,nil_append]⟩

/-- A bin with the smallest key tree: its keys are handed over when the root has been split, and the
one that is written again keeps its last value. -/
theorem flushed_keys_kept :
    ∃ g s, dimbinGeometry 1 4 16 = some g ∧ dimbinInit g 256 .empty .empty = some s ∧
      ∃ s' handed, bufKeys { s with keyBuf := kbtInit 0 } manyWrites = some (s',handed) ∧
        handed.length = 128 ∧ lastWrite (handed ++ kbtCollect s'.keyBuf) 195 = some 7 := by
  have hlength : ((dimbinGeometry 1 4 16).bind (fun g =>
      (dimbinInit g 256 .empty .empty).bind (fun s =>
        bufKeys { s with keyBuf := kbtInit 0 } manyWrites))).map (fun r => r.2.length) = some 128 := by
    decide +kernel
  obtain ⟨r,hr,hlength⟩ := map_eq_some_iff.mp hlength
  obtain ⟨g,hg,hr⟩ := bind_eq_some_iff.mp hr
  obtain ⟨s,hs,hr⟩ := bind_eq_some_iff.mp hr
  have hsmall : 0 ≤ 2 ^ 24 := Nat.zero_le _
  obtain ⟨_,s',handed,hrun,hlast⟩ := spare_nodes_suffice (s := { s with keyBuf := kbtInit 0 }) hsmall
    rfl manyWrites
  cases hr.symm.trans hrun
  exact ⟨g,s,hg,hs,s',handed,hrun,hlength,(hlast 195).trans (by decide +kernel)⟩

end Buffering

end Gravel.Proofs.KeyTree
