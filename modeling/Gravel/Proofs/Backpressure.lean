import Gravel.Proofs.StoreReads
import Mathlib.Data.Fintype.BigOperators

namespace Gravel.Proofs.Backpressure
open Runs PutPage PutBatch FlushPages OverlayMap BinEntries PutRoom Slots StoreRefinement Spec
  Spec.Ledger List Option Function

/-- Every id of the batch answers as before the call, or with a vector that the batch has for it. -/
def AtomicPerKey (db db' : GravelDB) (items : List PutItem) : Prop :=
  ∀ item ∈ items,
    (∀ junk out, lookup db' junk out item.featId = lookup db junk out item.featId) ∨
    ∃ x ∈ items, ∃ emb, x.featId = item.featId ∧ x.emb = some emb ∧ ∀ junk out,
      lookup db' junk out item.featId = some (x.dim,(List.range (x.dim * 4)).map emb)

section Vectors

theorem exists_unlisted {n : Nat} (hn : n < 2 ^ 32) (rows : Nat → Nat → UInt8) :
    ∃ v : Nat → UInt8, ∀ e < n, ∃ j < 4, v j ≠ rows e j := by
  by_contra hall
  push Not at hall
  have hsurj : Function.Surjective (fun (e : Fin n) (j : Fin 4) => (rows e j).toBitVec.toFin) := by
    intro w
    obtain ⟨e,he,hrow⟩ := hall (fun j => if h : j < 4 then ⟨⟨w ⟨j,h⟩⟩⟩ else 0)
    refine ⟨⟨e,he⟩,funext fun j => ?_⟩
    have hj := hrow j j.isLt
    rw [dif_pos j.isLt] at hj
    change (rows e j).toBitVec.toFin = w j
    rw [← hj]
  have hcard := Fintype.card_le_of_surjective _ hsurj
  simp only [Fintype.card_fin,Fintype.card_fun] at hcard
  omega

end Vectors

section Batches

variable {db db' : GravelDB} {st : VectorStore} {items : List PutItem} {g : PutItem → Nat → UInt8}

theorem sortByDim_revalue (items : List PutItem) :
    sortByDim (items.map (revalue g)) = (sortByDim items).map (revalue g) :=
  (map_insertionSort _ _ (revalue g) items (fun _ _ _ _ => Iff.rfl)).symm

theorem ledger_revalue (db : GravelDB) (st : VectorStore) (items : List PutItem) :
    Twins (ledger db st items) (ledger db st (items.map (revalue g))) := by
  unfold ledger
  rw [sortByDim_revalue,runs_map (revalue g) (fun _ => rfl)]
  exact Twins.putGroups _ ⟨rfl,fun _ => rfl,rfl,rfl⟩

theorem BatchRoom.revalue (h : BatchRoom db items) : BatchRoom db (items.map (revalue g)) := by
  refine ⟨?_,by rw [length_map]; exact h.index,by rw [length_map]; exact h.dims⟩
  intro x hx
  obtain ⟨item,hitem,rfl⟩ := List.mem_map.mp hx
  rw [List.filter_map,length_map]
  exact h.bins item hitem

theorem BatchDone.lookup {dims : List Nat} {l l' : Ledger} (h : BatchDone dims db l db' l')
    (hplain : ∀ dim ∈ dims, PlainDim db.config dim) (hall : ∀ s ∈ db.bins, Legible s) {f : UInt64}
    (hf : f ∉ l'.refused) (junk out : Nat → UInt8) : lookup db' junk out f = some (reply l'.st f) :=
  StoreRep.lookup h.settles (h.legible hplain hall) hf junk out

theorem mem_runDims {dim : Nat} (hd : dim ∈ (runs PutItem.dim (sortByDim items)).map Prod.fst) :
    ∃ item ∈ items, item.dim = dim := by
  obtain ⟨_,hmem⟩ := runs_ascending (pairwise_sort PutItem.dim items)
  obtain ⟨item,hitem,hdim⟩ := hmem dim hd
  exact ⟨item,(perm_insertionSort _ _).mem_iff.mp hitem,hdim⟩

theorem mem_runItems {item : PutItem}
    (hi : item ∈ (runs PutItem.dim (sortByDim items)).flatMap Prod.snd) : item ∈ items := by
  rw [runs_flatMap] at hi
  exact (perm_insertionSort _ _).mem_iff.mp hi

theorem atomic_of_granted (h : Holds db st) (hall : ∀ s ∈ db.bins, Legible s)
    (hroom : BatchRoom db items) (hplain : ∀ item ∈ items, PlainDim db.config item.dim)
    (hnone : (ledger db st items).refused = []) {rc : Status}
    (hput : graveldbBatchPut db items = some (db',rc)) : AtomicPerKey db db' items := by
  obtain ⟨db1,hput1,hdone⟩ := graveldbBatchPut_ledger h hroom
  rw [hput,some_inj,Prod.mk.injEq] at hput1
  obtain ⟨rfl,-⟩ := hput1
  have hdims : ∀ dim ∈ (runs PutItem.dim (sortByDim items)).map Prod.fst,
      PlainDim db.config dim := by
    intro dim hd
    obtain ⟨item,hitem,rfl⟩ := mem_runDims hd
    exact hplain item hitem
  intro item hitem
  have hafter := BatchDone.lookup (f := item.featId) hdone hdims hall (by rw [hnone]; exact not_mem_nil)
  have hbefore : ∀ junk out, StoreRefinement.lookup db junk out item.featId =
      some (reply st item.featId) := StoreRep.lookup h hall (fun hl => hl)
  rcases (putGroups_effect _ _).1 item.featId with hsame | ⟨x,hx,emb,hid,hemb,hv⟩
  · left
    intro junk out
    rw [hafter,hbefore,reply,reply]
    exact congrArg _ (by rw [show (ledger db st items).st.vectors item.featId = _ from hsame])
  · right
    refine ⟨x,mem_runItems hx,emb,hid,hemb,fun junk out => ?_⟩
    rw [hafter,reply,show (ledger db st items).st.vectors item.featId = _ from hv]

theorem exists_fresh_vectors (h : Holds db st) : ∃ g : PutItem → Nat → UInt8,
    ∀ item, ∀ s ∈ db.bins, s.geom.dim = item.dim → ∀ e < 2 ^ 32 - 1,
      ∃ j < 4, g item j ≠ entryByte s e j := by
  have hdistinct : (db.bins.map (fun s => s.geom.dim)).Nodup := by
    rw [h.dims]
    exact h.registry.distinct
  have hdim : ∀ dim, ∃ v : Nat → UInt8, ∀ s ∈ db.bins, s.geom.dim = dim → ∀ e < 2 ^ 32 - 1,
      ∃ j < 4, v j ≠ entryByte s e j := by
    intro dim
    by_cases hbin : ∃ s ∈ db.bins, s.geom.dim = dim
    · obtain ⟨s,hs,hd⟩ := hbin
      obtain ⟨v,hv⟩ := exists_unlisted (show 2 ^ 32 - 1 < 2 ^ 32 by decide) (entryByte s)
      refine ⟨v,fun s' hs' hd' => ?_⟩
      rw [inj_on_of_nodup_map hdistinct hs' hs (hd'.trans hd.symm)]
      exact hv
    · exact ⟨fun _ => 0,fun s hs hd => absurd ⟨s,hs,hd⟩ hbin⟩
  choose v hv using hdim
  exact ⟨fun item => v item.dim,fun item => hv item.dim⟩

/-- A refused id without a vector answers with what happens to be in its slot. -/
theorem granted_of_atomic (h : Holds db st) (hall : ∀ s ∈ db.bins, Legible s)
    (hroom : BatchRoom db items) (hplain : ∀ item ∈ items, PlainDim db.config item.dim)
    (hbusy : (ledger db st items).rc = .errBusy)
    (hatomic : ∀ g db', graveldbBatchPut db (items.map (revalue g)) = some (db',.errBusy) →
      AtomicPerKey db db' (items.map (revalue g))) : (ledger db st items).refused = [] := by
  by_contra hsome
  obtain ⟨f,hf⟩ := exists_mem_of_ne_nil _ hsome
  obtain ⟨g,hg⟩ := exists_fresh_vectors h
  have htwins : Twins (ledger db st items) (ledger db st (items.map (revalue g))) :=
    ledger_revalue db st items
  rw [← htwins.refused] at hf
  obtain ⟨db',hput,hdone⟩ := graveldbBatchPut_ledger h (BatchRoom.revalue (g := g) hroom)
  rw [htwins.rc,hbusy] at hput
  have hdims : ∀ dim ∈ (runs PutItem.dim (sortByDim (items.map (revalue g)))).map Prod.fst,
      0 < dim ∧ PlainDim db.config dim := by
    intro dim hd
    obtain ⟨x,hx,rfl⟩ := mem_runDims hd
    obtain ⟨item,hitem,rfl⟩ := List.mem_map.mp hx
    exact ⟨(hroom.bins item hitem).1,hplain item hitem⟩
  have hlegible := hdone.legible (fun dim hd => (hdims dim hd).2) hall
  obtain ⟨i,s,hbin,hsdim,hstale⟩ := (hdone.stale f hf).resolve_left not_mem_nil
  have hpos := (hdims _ hsdim).1
  obtain ⟨e,he,hread⟩ := Stale.lookup hstale hdone.settles hlegible
  obtain ⟨habsent,item,hitem,hid⟩ := ((putGroups_effect _ _).2 f hf).resolve_left not_mem_nil
  have hbefore : StoreRefinement.lookup db (fun _ => 0) (fun _ => 0) f = some (reply st f) :=
    StoreRep.lookup h hall (fun hl => hl) _ _
  rw [reply,show st.vectors f = none from habsent] at hbefore
  rcases hatomic g db' hput item (mem_runItems hitem) with hsame | ⟨x,hx,emb,_,hemb,hnew⟩
  · -- the id is not absent any more
    rw [hid] at hsame
    rw [hsame,hbefore,some_inj,Prod.mk.injEq] at hread
    omega
  · -- nor does it have a vector of the batch
    rw [hid] at hnew
    rw [hnew,some_inj,Prod.mk.injEq] at hread
    obtain ⟨x0,_,rfl⟩ := List.mem_map.mp hx
    have hdim : s.geom.dim = x0.dim := hread.1.symm
    obtain ⟨j,hj,hne⟩ := hg x0 s (mem_of_getElem? hbin) hdim e he
    have hgx : emb = g x0 := by
      obtain ⟨_,_,hval⟩ := map_eq_some_iff.mp hemb
      exact hval.symm
    have hlt : j < s.geom.dim * 4 := by omega
    have hbyte := congrArg (fun l => l[j]?) hread.2
    simp only [getElem?_map,show (revalue g x0).dim = s.geom.dim from hread.1,
      getElem?_range hlt,map_some,some_inj,hgx] at hbyte
    exact hne hbyte

end Batches

section Start

variable {db : GravelDB} {st : VectorStore} {s : DimBin} {config : GravelDBConfig} {ps : UInt32}

theorem checkpoint_begins (h : Holds db st) (hidle : db.ckptProgress.phase = .idle)
    (hbin : db.bins[0]? = some s) (hf : FlushSafe s.writeBuf) (hi : OverlayIdle s)
    (hpools : registeredPools db < slabMaxPools) (budget : UInt32) :
    ∃ s' db', graveldbCheckpointStep db budget = some db' ∧ db'.bins = db.bins.set 0 s' ∧
      db'.index = db.index ∧ db'.registry = db.registry ∧ Holds db' st ∧ OverlayOwned s' := by
  obtain ⟨m,L,hrep,hL⟩ := (h.bins 0 s hbin).rep
  obtain ⟨s',hbegin,hrep',hck,hgeom,hkey⟩ := hrep.checkpointBegin hf hi hpools
  have hoverlay : s'.overlay.table.old = none := by
    obtain ⟨s1,_,hs'⟩ := bind_eq_some_iff.mp hbegin
    cases hs'
    simp only [overlayCreate,if_pos hpools]
    rfl
  have hstep : graveldbCheckpointStep db budget =
      some (modifyBin { db with ckptProgress := ⟨.flushing,1,none⟩ } 0 s') := by
    simp only [graveldbCheckpointStep,hidle,stepFlushing,hbin,hbegin,bind_eq_bind,
      bind_some,Option.pure_def]
  have hholds : BinHolds (fun _ => False) (HashIndex.indexMap db.index) st.vectors 0 s' [] := by
    refine ⟨⟨_,L,hrep',by rw [hgeom]; exact hL⟩,by simp,fun e _ f hf => ?_⟩
    rw [hkey e]
    exact (h.bins 0 s hbin).mirror e (by rw [hi.2]; exact not_mem_nil) f hf
  have hall := h.oneAt ⟨.flushing,1,none⟩ hbin (checkpointStep_slots h.slots hstep) hgeom hholds
  rw [update_eq_self_iff.mpr rfl] at hall
  refine ⟨s',_,hstep,rfl,rfl,rfl,hall,fun e he => ?_⟩
  have hvis : ¬ Rehash.Hidden overlayLayout s'.overlay.table e := by
    rintro ⟨o,ho,_⟩
    rw [hoverlay] at ho
    cases ho
  obtain ⟨t,_,hcontains,_⟩ := get_rep (hrep'.overlayRep hck) hvis
  rw [overlayHolds,hcontains] at he
  cases he

theorem holds_unopened {index : HashIndex}
    (hindex : hashIndexInit (indexSlots config) = some index) :
    Holds (unopenedStore config ps index) ⟨[],fun _ => none⟩ :=
  ⟨unopened_slots hindex,Registry.regRep_init,rfl,fun _ _ => rfl,by simp [unopenedStore]⟩

end Start

def tightConfig : GravelDBConfig :=
  { smallConfig with dims := [], pageSize := 1048576, autoCreateBins := true, overlayBudget := 1 }

def tightIndex : HashIndex := (hashIndexInit (indexSlots tightConfig)).get (by decide +kernel)

def emptyStore : GravelDB := unopenedStore tightConfig 4096 tightIndex

def tightStore : GravelDB :=
  ((graveldbBatchPut emptyStore [vectorOf 1]).get (by decide +kernel)).1

def tightMap : VectorStore := (ledger emptyStore ⟨[],fun _ => none⟩ [vectorOf 1]).st

def frozenStore : GravelDB := (graveldbCheckpointStep tightStore 0).get (by decide +kernel)

theorem emptyStore_holds : Holds emptyStore ⟨[],fun _ => none⟩ :=
  holds_unopened (some_get _).symm

theorem emptyStore_room {item : PutItem} (hdim : item.dim = 1) : BatchRoom emptyStore [item] := by
  refine ⟨fun x hx => ?_,by rw [length_singleton]; decide +kernel,
    by rw [length_singleton]; decide +kernel⟩
  cases mem_singleton.mp hx
  have hone : ([item].filter (fun x => x.dim = item.dim)).length = 1 := by simp
  have hnone : dimRegistryFind emptyStore.registry 1 = none := by decide +kernel
  rw [hone,hdim]
  refine ⟨by decide,?_⟩
  simp only [Nat.cast_one,hnone]
  intro _
  decide +kernel

theorem tightStore_holds : Holds tightStore tightMap := by
  obtain ⟨db',hput,hdone⟩ := graveldbBatchPut_ledger emptyStore_holds
    (@emptyStore_room (vectorOf 1) rfl)
  have hdb : db' = tightStore := by
    unfold tightStore
    simp only [hput,get_some]
  have hnone : (ledger emptyStore ⟨[],fun _ => none⟩ [vectorOf 1]).refused = [] := by decide +kernel
  rw [← hdb]
  have hset := hdone.settles
  rw [hnone] at hset
  exact hset.mono (fun _ hf => by cases hf)

theorem frozenStore_holds : Holds frozenStore tightMap ∧ ∀ s ∈ frozenStore.bins, OverlayOwned s := by
  obtain ⟨s,hs⟩ : ∃ s, tightStore.bins = [s] :=
    length_eq_one_iff.mp (by decide +kernel : tightStore.bins.length = 1)
  have hsafe : ∀ s ∈ tightStore.bins, FlushSafe s.writeBuf := by decide +kernel
  have hidle : ∀ s ∈ tightStore.bins,
      s.overlay.table.count = 0 ∧ s.overlay.tombstones.length = 0 := by decide +kernel
  obtain ⟨hcount,htombs⟩ := hidle s (by rw [hs]; exact mem_singleton_self s)
  obtain ⟨s',db',hstep,hbins,_,_,hholds,howned⟩ := checkpoint_begins tightStore_holds
    (by decide +kernel) (by rw [hs]; rfl) (hsafe s (by rw [hs]; exact mem_singleton_self s))
    ⟨hcount,length_eq_zero_iff.mp htombs⟩ (by decide +kernel) 0
  have hdb : frozenStore = db' := by
    unfold frozenStore
    simp only [hstep,get_some]
  rw [hdb]
  refine ⟨hholds,fun b hb => ?_⟩
  rw [hbins,hs] at hb
  cases mem_singleton.mp hb
  exact howned

end Gravel.Proofs.Backpressure
