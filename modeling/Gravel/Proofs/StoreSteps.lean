import Gravel.Model.Batch
import Mathlib.Logic.Relation

namespace Gravel.Proofs.StoreSteps
open Relation List Option

/-- What `graveldb_batch_put` does to a store is a sequence of these steps. -/
inductive PutStep : GravelDB → GravelDB → Prop
  | look {db : GravelDB} {index : HashIndex} {f : UInt64} {found : Option (Nat × Nat)}
      (hf : f ≠ 0) (hget : hashIndexGet db.index f = some (index,found)) :
      PutStep db { db with index := index }
  | create {db db' : GravelDB} {dim i : Nat} (h : createAndRegisterBin db dim = some (db',i)) :
      PutStep db db'
  | reserve {db : GravelDB} {i : Nat} {bin : DimBin} (hbin : db.bins[i]? = some bin) (n : Nat) :
      PutStep db (modifyBin db i (dimbinReserve bin n))
  | rewrite {db : GravelDB} {index : HashIndex} {f : UInt64} {i e : Nat} {bin bin' : DimBin}
      (hf : f ≠ 0) (hget : hashIndexGet db.index f = some (index,some (i,e)))
      (hbin : db.bins[i]? = some bin) (hbuf : dimbinBufKey bin e f = some bin') :
      PutStep db (modifyBin { db with index := index } i bin')
  | place {db : GravelDB} {index index' : HashIndex} {f : UInt64} {i e : Nat}
      {bin bin1 bin' : DimBin} {rc : Status}
      (hf : f ≠ 0) (hget : hashIndexGet db.index f = some (index,none))
      (hbin : db.bins[i]? = some bin) (halloc : dimbinAllocEntry bin = (bin1,e))
      (hput : hashIndexPut index f i e = some (index',rc))
      (hbuf : dimbinBufKey bin1 e f = some bin') :
      PutStep db (modifyBin { db with index := index' } i bin')
  | write {db : GravelDB} {i : Nat} {bin bin' : DimBin} {entries : List EmbWriteEntry}
      {rc : Status} (hbin : db.bins[i]? = some bin)
      (hput : dimbinPutBatch bin entries = some (bin',rc)) : PutStep db (modifyBin db i bin')

/-- The steps of `graveldb_batch_delete`. -/
inductive DeleteStep : GravelDB → GravelDB → Prop
  | look {db : GravelDB} {index : HashIndex} {f : UInt64} (hf : f ≠ 0)
      (hget : hashIndexGet db.index f = some (index,none)) :
      DeleteStep db { db with index := index }
  | drop {db : GravelDB} {index index' : HashIndex} {f : UInt64} {i e : Nat}
      {bin bin' : DimBin} {rc : Status} (hf : f ≠ 0)
      (hget : hashIndexGet db.index f = some (index,some (i,e)))
      (hbin : db.bins[i]? = some bin) (hdrop : dropEntry bin e = some bin')
      (hremove : hashIndexRemove index f = some (index',rc)) :
      DeleteStep db (modifyBin { db with index := index' } i bin')

section Puts

variable {db db' : GravelDB} {dim dimIdx : Nat} {rc rc' : Status} {deferred : List EmbWriteEntry}
  {featId : UInt64} {deferred' : List EmbWriteEntry} {items : List PutItem}

theorem modifyBin_twice (db : GravelDB) (i : Nat) (bin bin' : DimBin) :
    modifyBin (modifyBin db i bin) i bin' = modifyBin db i bin' := by
  simp only [modifyBin,set_set]

theorem modifyBin_self {i : Nat} {bin : DimBin} (hbin : db.bins[i]? = some bin) (bin' : DimBin) :
    (modifyBin db i bin').bins[i]? = some bin' := by
  have hlt := (List.getElem?_eq_some_iff.mp hbin).1
  simp only [modifyBin,getElem?_set_self hlt]

/-- What holds of the changed bin and of the others holds of all. -/
theorem forall_modifyBin {P : Nat → DimBin → Prop} {i : Nat} {bin' : DimBin} (hself : P i bin')
    (hother : ∀ (j : Nat) bin, j ≠ i → db.bins[j]? = some bin → P j bin) :
    ∀ (j : Nat) bin, (modifyBin db i bin').bins[j]? = some bin → P j bin := by
  intro j bin hj
  simp only [modifyBin,getElem?_set] at hj
  split_ifs at hj with hij
  · cases hj
    subst hij
    exact hself
  · exact hother j bin (Ne.symm hij) hj

theorem resolved_step {db1 : GravelDB} {entry : Nat} (hf : featId ≠ 0)
    (hres : resolveEntry db dimIdx featId = some (db1,some entry))
    (hbuf : bufKeyIn db1 dimIdx entry featId = some db') : PutStep db db' := by
  obtain ⟨⟨index,found⟩,hget,hfound⟩ := bind_eq_some_iff.mp hres
  obtain ⟨bin2,hbin2,hrest⟩ := bind_eq_some_iff.mp hbuf
  obtain ⟨bin',hkey,hdb⟩ := bind_eq_some_iff.mp hrest
  clear hres hbuf hrest
  cases found with
  | some p =>
    obtain ⟨i,e⟩ := p
    simp only [pure,Option.some.injEq,Prod.mk.injEq,ite_none_right_eq_some] at hfound
    obtain ⟨rfl,rfl,rfl⟩ := hfound
    cases hdb
    exact .rewrite hf hget hbin2 hkey
  | none =>
    obtain ⟨bin,hbin,hfresh⟩ := bind_eq_some_iff.mp hfound
    obtain ⟨⟨index',rc⟩,hput,hplaced⟩ := bind_eq_some_iff.mp hfresh
    clear hfound hfresh
    cases hplaced
    rw [modifyBin_self (by exact hbin)] at hbin2
    cases hbin2
    cases hdb
    rw [modifyBin_twice]
    exact .place hf hget hbin rfl hput hkey

theorem rejected_step (hf : featId ≠ 0)
    (hres : resolveEntry db dimIdx featId = some (db',none)) : PutStep db db' := by
  obtain ⟨⟨index,found⟩,hget,hres⟩ := bind_eq_some_iff.mp hres
  cases found with
  | some p =>
    simp only [pure,Option.some.injEq,Prod.mk.injEq] at hres
    obtain ⟨rfl,_⟩ := hres
    exact .look hf hget
  | none =>
    obtain ⟨bin,_,hres⟩ := bind_eq_some_iff.mp hres
    obtain ⟨⟨index',rc⟩,_,hres⟩ := bind_eq_some_iff.mp hres
    cases hres

theorem putItem_steps {item : PutItem}
    (h : putItem db dimIdx deferred rc item = some (db',deferred',rc')) :
    ReflTransGen PutStep db db' := by
  rw [putItem] at h
  split at h
  · cases h
    exact .refl
  · split_ifs at h with hf
    · cases h
      exact .refl
    · obtain ⟨⟨db1,entry⟩,hres,h⟩ := bind_eq_some_iff.mp h
      cases entry with
      | none =>
        cases h
        exact .single (rejected_step hf hres)
      | some entry =>
        obtain ⟨db2,hbuf,h⟩ := bind_eq_some_iff.mp h
        cases h
        exact .single (resolved_step hf hres hbuf)

theorem putItems_steps (h : putItems db dimIdx deferred rc items = some (db',deferred',rc')) :
    ReflTransGen PutStep db db' := by
  induction items generalizing db deferred rc with
  | nil =>
    cases h
    exact .refl
  | cons item rest ih =>
    obtain ⟨⟨db1,deferred1,rc1⟩,hitem,h⟩ := bind_eq_some_iff.mp h
    exact (putItem_steps hitem).trans (ih h)

theorem putGroup_steps
    (h : putGroup db dimIdx rc items = some (db',rc')) : ReflTransGen PutStep db db' := by
  obtain ⟨db1,hreserve,h⟩ := bind_eq_some_iff.mp h
  obtain ⟨⟨db2,deferred,rc2⟩,hitems,h⟩ := bind_eq_some_iff.mp h
  obtain ⟨⟨db3,wrc⟩,hput,h⟩ := bind_eq_some_iff.mp h
  cases h
  obtain ⟨bin,hbin,hreserve⟩ := bind_eq_some_iff.mp hreserve
  cases hreserve
  obtain ⟨bin2,hbin2,hput⟩ := bind_eq_some_iff.mp hput
  obtain ⟨⟨bin3,wrc'⟩,hbatch,hput⟩ := bind_eq_some_iff.mp hput
  cases hput
  exact ((ReflTransGen.single (.reserve hbin items.length)).trans (putItems_steps hitems)).tail
    (.write hbin2 hbatch)

theorem resolveBin_steps {found : Option Nat} (h : resolveBin db dim = some (db',found)) :
    ReflTransGen PutStep db db' := by
  rw [resolveBin] at h
  split at h
  · cases h
    exact .refl
  · split_ifs at h
    · obtain ⟨⟨db1,idx⟩,hcreate,h⟩ := bind_eq_some_iff.mp h
      cases h
      exact .single (.create hcreate)
    · cases h
      exact .refl

theorem putGroups_steps {groups : List (Nat × List PutItem)}
    (h : putGroups db rc groups = some (db',rc')) : ReflTransGen PutStep db db' := by
  induction groups generalizing db rc with
  | nil =>
    cases h
    exact .refl
  | cons group rest ih =>
    obtain ⟨⟨db1,found⟩,hres,h⟩ := bind_eq_some_iff.mp h
    have h1 := resolveBin_steps hres
    cases found with
    | none =>
      cases h
      exact h1
    | some idx =>
      obtain ⟨⟨db2,rc2⟩,hgroup,h⟩ := bind_eq_some_iff.mp h
      exact (h1.trans (putGroup_steps hgroup)).trans (ih h)

/-- Every invariant of the put steps is one of the batch. -/
theorem graveldbBatchPut_steps
    (h : graveldbBatchPut db items = some (db',rc)) : ReflTransGen PutStep db db' :=
  putGroups_steps h

end Puts

section Deletes

variable {db db' : GravelDB}

theorem deleteKey_steps {featId : UInt64} (h : deleteKey db featId = some db') :
    ReflTransGen DeleteStep db db' := by
  rw [deleteKey] at h
  split_ifs at h with hf
  · cases h
    exact .refl
  · obtain ⟨⟨index,found⟩,hget,h⟩ := bind_eq_some_iff.mp h
    cases found with
    | none =>
      cases h
      exact .single (.look hf hget)
    | some p =>
      obtain ⟨bin,hbin,h⟩ := bind_eq_some_iff.mp h
      obtain ⟨bin',hdrop,h⟩ := bind_eq_some_iff.mp h
      obtain ⟨⟨index',rc⟩,hremove,h⟩ := bind_eq_some_iff.mp h
      cases h
      exact .single (.drop hf hget hbin hdrop hremove)

theorem graveldbBatchDelete_steps {keys : List UInt64}
    (h : graveldbBatchDelete db keys = some db') : ReflTransGen DeleteStep db db' := by
  induction keys generalizing db with
  | nil =>
    cases h
    exact .refl
  | cons featId rest ih =>
    obtain ⟨db1,hdel,h⟩ := bind_eq_some_iff.mp h
    exact (deleteKey_steps hdel).trans (ih h)

end Deletes

section Bins

variable {f : DimBin → Option DimBin} {bins bins' : List DimBin} {i : Nat}

theorem forBins_length (h : forBins f bins = some bins') : bins'.length = bins.length := by
  induction bins generalizing bins' with
  | nil =>
    cases h
    rfl
  | cons bin rest ih =>
    obtain ⟨bin',_,h⟩ := bind_eq_some_iff.mp h
    obtain ⟨rest',hrest,h⟩ := bind_eq_some_iff.mp h
    cases h
    rw [length_cons,length_cons,ih hrest]

theorem forBins_get (h : forBins f bins = some bins') {bin' : DimBin}
    (hi : bins'[i]? = some bin') : ∃ bin, bins[i]? = some bin ∧ f bin = some bin' := by
  induction bins generalizing bins' i with
  | nil =>
    cases h
    cases hi
  | cons bin rest ih =>
    obtain ⟨bin1,hbin,h⟩ := bind_eq_some_iff.mp h
    obtain ⟨rest',hrest,h⟩ := bind_eq_some_iff.mp h
    cases h
    cases i with
    | zero =>
      cases hi
      exact ⟨bin,rfl,hbin⟩
    | succ i => exact ih hrest hi

theorem forBins_total (h : ∀ bin ∈ bins, ∃ bin', f bin = some bin') :
    ∃ bins', forBins f bins = some bins' := by
  induction bins with
  | nil => exact ⟨[],rfl⟩
  | cons bin rest ih =>
    obtain ⟨bin',hbin⟩ := h bin mem_cons_self
    obtain ⟨rest',hrest⟩ := ih (fun b hb => h b (mem_cons_of_mem _ hb))
    exact ⟨bin' :: rest',by simp [forBins,hbin,hrest]⟩

theorem forBins_at (h : forBins f bins = some bins') {bin : DimBin}
    (hi : bins[i]? = some bin) : ∃ bin', bins'[i]? = some bin' ∧ f bin = some bin' := by
  have hlt := (List.getElem?_eq_some_iff.mp hi).1
  rw [← forBins_length h] at hlt
  obtain ⟨bin1,hbin1,hstep⟩ := forBins_get h (getElem?_eq_getElem hlt)
  rw [hi] at hbin1
  cases hbin1
  exact ⟨_,getElem?_eq_getElem hlt,hstep⟩

end Bins

end Gravel.Proofs.StoreSteps
