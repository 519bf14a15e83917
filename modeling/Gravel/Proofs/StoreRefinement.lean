import Gravel.Proofs.BinReads
import Gravel.Proofs.PutRoom
import Gravel.Proofs.Registry
import Gravel.Proofs.Slots
import Gravel.Spec.VectorStore

namespace Gravel.Proofs.StoreRefinement
open PutPage PutBatch KeyBuffer HashIndex Registry OverlayMap BinEntries PutRoom StoreSteps BinFrames
  Slots SlotPool Spec List Option Function

/-- A bin between two steps of the store: the pages, with the writes that are still deferred, hold
the vectors of the keys that the index places in it, those in `lost` apart, and its key array
mirrors the index. -/
structure BinHolds (lost : UInt64 → Prop) (im : IndexMap)
    (vectors : UInt64 → Option (Nat × (Nat → UInt8))) (i : Nat) (s : DimBin)
    (deferred : List EmbWriteEntry) : Prop where
  rep : ∃ m L, BinRep s m L ∧ ∀ f e, im f = some (i,e) →
    ∃ v, vectors f = some (s.geom.dim,v) ∧
      (¬ lost f → (lastWrite e deferred).or (L e) = some v)
  named : ∀ w ∈ deferred, ∃ f, im f = some (i,w.entryId)
  mirror : ∀ e ∉ s.overlay.tombstones, ∀ f ≠ 0, keyAt s e = f ↔ im f = some (i,e)

/-- The store holds `st`, with deferred writes of its bins, up to the vectors of the ids in
`lost`. -/
structure StoreRep (lost : UInt64 → Prop) (db : GravelDB) (st : VectorStore)
    (deferred : Nat → List EmbWriteEntry) : Prop where
  slots : StoreSlots db
  registry : RegRep db.registry st.dims
  dims : db.bins.map (fun s => s.geom.dim) = st.dims
  absent : ∀ f, indexMap db.index f = none → st.vectors f = none
  bins : ∀ (i : Nat) s, db.bins[i]? = some s →
    BinHolds lost (indexMap db.index) st.vectors i s (deferred i)

section Bins

variable {lost lost' : UInt64 → Prop} {im im' : IndexMap} {vectors vectors' : UInt64 → Option (Nat × (Nat → UInt8))} {i e : Nat}
  {s s' : DimBin} {deferred : List EmbWriteEntry} {p : CkptProgress} {f : UInt64}

theorem owned_of_index (h : BinSlots im p i s) (hf : im f = some (i,e)) : Owned s e :=
  ⟨h.parts.owned_lt f e hf,h.parts.owned_busy f e hf⟩

theorem BinHolds.congr (h : BinHolds lost im vectors i s deferred)
    (him : ∀ g e, im' g = some (i,e) ↔ im g = some (i,e))
    (hv : ∀ g e, im g = some (i,e) → vectors' g = vectors g)
    (hlost : ∀ g e, im g = some (i,e) → lost g → lost' g) :
    BinHolds lost' im' vectors' i s deferred := by
  obtain ⟨m,L,hrep,hL⟩ := h.rep
  refine ⟨⟨m,L,hrep,?_⟩,?_,?_⟩
  · intro g e hg
    rw [him] at hg
    rw [hv g e hg]
    obtain ⟨v,hvec,hkeep⟩ := hL g e hg
    exact ⟨v,hvec,fun hg' => hkeep (fun hl => hg' (hlost g e hg hl))⟩
  · intro w hw
    obtain ⟨g,hg⟩ := h.named w hw
    exact ⟨g,(him g _).mpr hg⟩
  · intro e he g hg
    rw [h.mirror e he g hg,him]

theorem BinHolds.key (h : BinHolds lost im vectors i s deferred) (hs : BinSlots im p i s) (hf : f ≠ 0)
    (hlive : im f = some (i,e)) : keyAt s e = f := by
  refine (h.mirror e ?_ f hf).mpr hlive
  intro hm
  exact (owned_of_index hs hlive).2 (mem_append_left _ hm)

theorem lastWrite_snoc (e : Nat) (w : EmbWriteEntry) (l : List EmbWriteEntry) :
    lastWrite e (l ++ [w]) = if w.entryId = e then some w.data else lastWrite e l := by
  rw [lastWrite_append]
  by_cases hw : w.entryId = e <;> simp [lastWrite,hw]

theorem BinHolds.defer (h : BinHolds lost im vectors i s deferred) (emb : Nat → UInt8)
    (huniq : ∀ g, im g = some (i,e) → g = f) (hlive : im f = some (i,e)) :
    BinHolds (fun g => lost g ∧ g ≠ f) im (update vectors f (some (s.geom.dim,emb))) i s
      (deferred ++ [⟨e,emb⟩]) := by
  obtain ⟨m,L,hrep,hL⟩ := h.rep
  refine ⟨⟨m,L,hrep,?_⟩,?_,h.mirror⟩
  · intro g x hg
    rw [lastWrite_snoc]
    by_cases hgf : g = f
    · subst hgf
      rw [hlive] at hg
      cases hg
      exact ⟨emb,by rw [update_self],fun _ => by simp⟩
    · have hne : e ≠ x := by
        rintro rfl
        exact hgf (huniq g hg)
      rw [if_neg hne,update_of_ne hgf]
      obtain ⟨v,hv,hkeep⟩ := hL g x hg
      exact ⟨v,hv,fun hl => hkeep (fun hlost => hl ⟨hlost,hgf⟩)⟩
  · intro w hw
    rcases mem_append.mp hw with hw | hw
    · exact h.named w hw
    · rw [mem_singleton.mp hw]
      exact ⟨f,hlive⟩

theorem BinHolds.rewriteKey (h : BinHolds lost im vectors i s deferred) (hs : BinSlots im p i s)
    (hf : f ≠ 0) (hlive : im f = some (i,e)) :
    ∃ s', dimbinBufKey s e f = some s' ∧ BinHolds lost im vectors i s' deferred := by
  obtain ⟨m,L,hrep,hL⟩ := h.rep
  obtain ⟨s',hbuf,heq,hrep',hkey⟩ := hrep.bufKey (owned_of_index hs hlive).1 f
  have hsame : ∀ x, keyAt s' x = keyAt s x := by
    intro x
    rw [hkey x]
    split_ifs with hx
    · rw [hx]
      exact (h.key hs hf hlive).symm
    · rfl
  have hgeom : s'.geom = s.geom := by rw [heq]
  have htomb : s'.overlay = s.overlay := by rw [heq]
  refine ⟨s',hbuf,⟨m,L,hrep',?_⟩,h.named,?_⟩
  · rw [hgeom]
    exact hL
  · intro x hx
    rw [hsame x]
    rw [htomb] at hx
    exact h.mirror x hx

theorem BinHolds.placeKey (h : BinHolds lost im vectors i s deferred) (hs : BinSlots im p i s)
    (hf : f ≠ 0) (hnone : im f = none) (hroom : s.bumpPtr + 1 < 2 ^ 32) (emb : Nat → UInt8) :
    ∃ s1 s' e, dimbinAllocEntry s = (s1,e) ∧ dimbinBufKey s1 e f = some s' ∧
      BinHolds (fun g => lost g ∨ g = f) (update im f (some (i,e)))
        (update vectors f (some (s.geom.dim,emb))) i s' deferred ∧
      s'.geom = s.geom ∧ ∀ g, im g ≠ some (i,e) := by
  obtain ⟨m,L,hrep,hL⟩ := h.rep
  obtain ⟨s1,e,halloc,hrep1,hnew,hown,hmono,hkey1⟩ := hrep.alloc (fun _ => hroom)
  obtain ⟨s',hbuf,heq,hrep',hkey⟩ := hrep1.bufKey hown.1 f
  have hkept := (alloc_allotted halloc hrep.small).kept
  have hgeom : s'.geom = s.geom := by
    rw [heq]
    exact hkept.geom
  have htomb : s'.overlay = s.overlay := by
    rw [heq]
    exact hkept.overlay
  have hfree : ∀ g, im g ≠ some (i,e) := fun g hg => hnew (owned_of_index hs hg)
  refine ⟨s1,s',e,halloc,hbuf,⟨⟨m,L,hrep',?_⟩,?_,?_⟩,hgeom,hfree⟩
  · intro g x hg
    rw [hgeom]
    by_cases hgf : g = f
    · subst hgf
      exact ⟨emb,by rw [update_self],fun hl => absurd (.inr rfl) hl⟩
    · rw [update_of_ne hgf] at hg ⊢
      obtain ⟨v,hv,hkeep⟩ := hL g x hg
      exact ⟨v,hv,fun hl => hkeep (fun hlost => hl (.inl hlost))⟩
  · intro w hw
    obtain ⟨g,hg⟩ := h.named w hw
    have hgf : g ≠ f := by
      rintro rfl
      rw [hnone] at hg
      cases hg
    exact ⟨g,by rw [update_of_ne hgf]; exact hg⟩
  · intro x hx g hg
    rw [htomb] at hx
    rw [hkey x]
    by_cases hxe : x = e
    · subst hxe
      rw [if_pos rfl]
      by_cases hgf : g = f
      · subst hgf
        simp
      · rw [update_of_ne hgf]
        exact ⟨fun he => absurd he.symm hgf,fun he => absurd he (hfree g)⟩
    · rw [if_neg hxe,hkey1 x,h.mirror x hx g hg]
      by_cases hgf : g = f
      · subst hgf
        rw [hnone,update_self]
        constructor
        · intro he
          cases he
        · intro he
          cases he
          exact absurd rfl hxe
      · rw [update_of_ne hgf]

end Bins

structure Touched (i n : Nat) (db db' : GravelDB) : Prop where
  frame : db' = { db with bins := db'.bins, index := db'.index }
  others : ∀ j ≠ i, db'.bins[j]? = db.bins[j]?
  capacity : db'.index.capacity = db.index.capacity
  count : db'.index.count ≤ db.index.count + n
  grows : ∀ f v, indexMap db.index f = some v → indexMap db'.index f = some v
  mine : ∀ f j e, indexMap db'.index f = some (j,e) → indexMap db.index f = some (j,e) ∨ j = i

section Store

variable {lost lost' : UInt64 → Prop} {db db' : GravelDB} {st : VectorStore}
  {deferred : Nat → List EmbWriteEntry} {i e n k : Nat} {s s' : DimBin} {f : UInt64}
  {writes : List EmbWriteEntry}

theorem Touched.refl (i n : Nat) (db : GravelDB) : Touched i n db db :=
  ⟨rfl,fun _ _ => rfl,rfl,Nat.le_add_right _ _,fun _ _ hf => hf,fun _ _ _ hf => .inl hf⟩

theorem Touched.trans {db'' : GravelDB} (h : Touched i n db db') (h' : Touched i k db' db'') :
    Touched i (n + k) db db'' := by
  refine ⟨?_,?_,h'.capacity.trans h.capacity,?_,fun f v hf => h'.grows f v (h.grows f v hf),?_⟩
  · rw [h'.frame,h.frame]
  · intro j hj
    rw [h'.others j hj,h.others j hj]
  · have := h.count
    have := h'.count
    omega
  · intro f j e hf
    rcases h'.mine f j e hf with hf | hj
    · exact h.mine f j e hf
    · exact .inr hj

theorem touched_bin (db : GravelDB) (i n : Nat) (s : DimBin) : Touched i n db (modifyBin db i s) :=
  ⟨rfl,fun _ hj => getElem?_set_ne hj.symm,rfl,Nat.le_add_right _ _,fun _ _ hf => hf,
    fun _ _ _ hf => .inl hf⟩

theorem touched_place {index : HashIndex} (hcap : index.capacity = db.index.capacity)
    (hcount : index.count ≤ db.index.count + 1) (hnone : indexMap db.index f = none)
    (hmap : indexMap index = update (indexMap db.index) f (some (i,e))) (s : DimBin) :
    Touched i 1 db (modifyBin { db with index := index } i s) := by
  refine ⟨rfl,fun _ hj => getElem?_set_ne hj.symm,hcap,hcount,?_,?_⟩
  · intro g v hg
    have hgf : g ≠ f := by
      rintro rfl
      rw [hnone] at hg
      cases hg
    show indexMap index g = some v
    rw [hmap,update_of_ne hgf]
    exact hg
  · intro g j x hg
    have hg' : indexMap index g = some (j,x) := hg
    rw [hmap] at hg'
    by_cases hgf : g = f
    · rw [hgf,update_self] at hg'
      cases hg'
      exact .inr rfl
    · rw [update_of_ne hgf] at hg'
      exact .inl hg'

theorem map_set_same {β : Type} {g : DimBin → β} {l : List DimBin} (hs : l[i]? = some s)
    (hg : g s' = g s) : (l.set i s').map g = l.map g := by
  rw [map_set,hg]
  refine ext_getElem? fun j => ?_
  rw [getElem?_set]
  split_ifs with hij hlt
  · subst hij
    rw [getElem?_map,hs]
    rfl
  · subst hij
    rw [getElem?_eq_none (by omega)]
  · rfl

theorem StoreRep.dim_eq (h : StoreRep lost db st deferred) (hbin : db.bins[i]? = some s) :
    st.dims[i]? = some s.geom.dim := by
  rw [← h.dims,getElem?_map,hbin]
  rfl

theorem StoreRep.dim_inj (h : StoreRep lost db st deferred) {j : Nat} (hbin : db.bins[i]? = some s)
    (hbin' : db.bins[j]? = some s') (hdim : s.geom.dim = s'.geom.dim) : i = j := by
  have hi := h.dim_eq hbin
  have hj := h.dim_eq hbin'
  rw [hdim] at hi
  obtain ⟨hlt,hget⟩ := List.getElem?_eq_some_iff.mp hi
  obtain ⟨hlt',hget'⟩ := List.getElem?_eq_some_iff.mp hj
  exact (List.Nodup.getElem_inj_iff h.registry.distinct).mp (hget.trans hget'.symm)

theorem StoreRep.set (h : StoreRep lost db st deferred) (hbin : db.bins[i]? = some s)
    (index : HashIndex) {v : Option (Nat × Nat)} {x : Option (Nat × (Nat → UInt8))}
    (hslots : StoreSlots (modifyBin { db with index := index } i s'))
    (hindex : indexMap index = update (indexMap db.index) f v) (hgeom : s'.geom = s.geom)
    (hold : ∀ j e, indexMap db.index f = some (j,e) → j = i) (hnew : ∀ j e, v = some (j,e) → j = i)
    (hgone : v = none → x = none) (hlost : ∀ g, g ≠ f → lost g → lost' g)
    (hholds : BinHolds lost' (update (indexMap db.index) f v)
      (update st.vectors f x) i s' writes) :
    StoreRep lost' (modifyBin { db with index := index } i s')
      { st with vectors := update st.vectors f x }
      (update deferred i writes) := by
  refine ⟨hslots,h.registry,?_,?_,?_⟩
  · simp only [modifyBin]
    rw [map_set_same hbin (by rw [hgeom]),h.dims]
  · simp only [modifyBin,hindex]
    intro g hg
    by_cases hgf : g = f
    · rw [hgf,update_self] at hg ⊢
      exact hgone hg
    · rw [update_of_ne hgf] at hg ⊢
      exact h.absent g hg
  · refine forall_modifyBin ?_ fun j b hij hb => ?_ <;> simp only [modifyBin,hindex]
    · rw [update_self]
      exact hholds
    · rw [update_of_ne hij]
      have hother : ∀ g e, indexMap db.index g = some (j,e) → g ≠ f := by
        rintro g e hg rfl
        exact hij (hold j e hg)
      refine (h.bins j b hb).congr ?_ ?_ (fun g e hg => hlost g (hother g e hg))
      · intro g e
        exact owners_other (fun e he => hij (hold j e he)) (fun e he => hij (hnew j e he)) g e
      · intro g e hg
        rw [update_of_ne (hother g e hg)]

theorem StoreRep.oneAt (h : StoreRep lost db st deferred) (p : CkptProgress)
    (hbin : db.bins[i]? = some s)
    (hslots : StoreSlots (modifyBin { db with ckptProgress := p } i s')) (hgeom : s'.geom = s.geom)
    (hholds : BinHolds lost (indexMap db.index) st.vectors i s' writes) :
    StoreRep lost (modifyBin { db with ckptProgress := p } i s') st
      (update deferred i writes) := by
  refine ⟨hslots,h.registry,?_,h.absent,?_⟩
  · simp only [modifyBin]
    rw [map_set_same hbin (by rw [hgeom]),h.dims]
  · refine forall_modifyBin ?_ fun j b hij hb => ?_
    · rw [update_self]
      exact hholds
    · rw [update_of_ne hij]
      exact h.bins j b hb

theorem StoreRep.one (h : StoreRep lost db st deferred) (hbin : db.bins[i]? = some s)
    (hslots : StoreSlots (modifyBin db i s')) (hgeom : s'.geom = s.geom)
    (hholds : BinHolds lost (indexMap db.index) st.vectors i s' writes) :
    StoreRep lost (modifyBin db i s') st (update deferred i writes) :=
  h.oneAt db.ckptProgress hbin hslots hgeom hholds

theorem StoreRep.mono (h : StoreRep lost db st deferred) (hlost : ∀ f, lost f → lost' f) :
    StoreRep lost' db st deferred :=
  ⟨h.slots,h.registry,h.dims,h.absent,fun i s hbin => (h.bins i s hbin).congr (fun _ _ => Iff.rfl)
    (fun _ _ _ => rfl) (fun g _ _ hg => hlost g hg)⟩

theorem StoreRep.defer (h : StoreRep lost db st deferred) (hbin : db.bins[i]? = some s)
    (hlive : indexMap db.index f = some (i,e)) (emb : Nat → UInt8) :
    StoreRep (fun g => lost g ∧ g ≠ f) db
      { st with vectors := update st.vectors f (some (s.geom.dim,emb)) }
      (update deferred i (deferred i ++ [⟨e,emb⟩])) := by
  refine ⟨h.slots,h.registry,h.dims,?_,?_⟩
  · intro g hg
    have hgf : g ≠ f := by
      rintro rfl
      rw [hlive] at hg
      cases hg
    exact (update_of_ne hgf _ _).trans (h.absent g hg)
  · intro j b hb
    by_cases hji : j = i
    · subst hji
      rw [hbin] at hb
      cases hb
      rw [update_self]
      exact (h.bins j s hbin).defer emb
        (fun g hg => (h.slots.bins j s hbin).parts.unique g f e hg hlive) hlive
    · have hother : ∀ g x, indexMap db.index g = some (j,x) → g ≠ f := by
        rintro g x hg rfl
        rw [hlive] at hg
        cases hg
        exact hji rfl
      rw [update_of_ne hji]
      exact (h.bins j b hb).congr (fun _ _ => Iff.rfl)
        (fun g x hg => update_of_ne (hother g x hg) _ _) (fun g x hg hl => ⟨hl,hother g x hg⟩)

theorem StoreRep.small (h : StoreRep lost db st deferred) : ∀ s ∈ db.bins, s.bumpPtr < 2 ^ 32 := by
  intro s hs
  obtain ⟨i,hi⟩ := mem_iff_getElem?.mp hs
  obtain ⟨m,L,hrep,_⟩ := (h.bins i s hi).rep
  exact hrep.small

/-- The index has room for one more key and does not begin to grow. -/
def IndexRoom (idx : HashIndex) (n : Nat) : Prop :=
  idx.capacity ≤ 2 ^ 29 ∧ (idx.count + n) * 10 ≤ idx.capacity * 7

instance (idx : HashIndex) (n : Nat) : Decidable (IndexRoom idx n) :=
  inferInstanceAs (Decidable (_ ∧ _))

theorem IndexRoom.calm {idx : HashIndex} (h : IndexRoom idx n) :
    hashLayout.crowded idx.count idx.capacity = false := by
  obtain ⟨hcap,hload⟩ := h
  have hcount : idx.count * 10 % 2 ^ 32 = idx.count * 10 := Nat.mod_eq_of_lt (by omega)
  have hcapacity : idx.capacity * 7 % 2 ^ 32 = idx.capacity * 7 := Nat.mod_eq_of_lt (by omega)
  simp only [hashLayout,hcount,hcapacity,decide_eq_false_iff_not]
  omega

end Store

def WriteOf (im : IndexMap) (i : Nat) (item : PutItem) (w : EmbWriteEntry) : Prop :=
  im item.featId = some (i,w.entryId) ∧ item.emb = some w.data

section Items

variable {lost : UInt64 → Prop} {db db' : GravelDB} {st : VectorStore}
  {deferred : Nat → List EmbWriteEntry} {i e n : Nat} {s s' : DimBin} {f : UInt64} {item : PutItem}
  {emb : Nat → UInt8} {rc : Status}

structure Placed (db : GravelDB) (i : Nat) (s : DimBin) (f : UInt64) (s1 s' : DimBin) (e : Nat)
    (index : HashIndex) : Prop where
  alloc : dimbinAllocEntry s = (s1,e)
  put : hashIndexPut db.index f i e = some (index,.ok)
  buf : dimbinBufKey s1 e f = some s'
  map : indexMap index = update (indexMap db.index) f (some (i,e))
  slots : StoreSlots (modifyBin { db with index := index } i s')
  touched : Touched i 1 db (modifyBin { db with index := index } i s')
  bin : (modifyBin { db with index := index } i s').bins[i]? = some s'
  geom : s'.geom = s.geom
  bump : s'.bumpPtr ≤ s.bumpPtr + 1
  allotted : Allotted s s' [e]
  free : ∀ g, indexMap db.index g ≠ some (i,e)

theorem StoreRep.place (h : StoreRep lost db st deferred) (hbin : db.bins[i]? = some s) (hf : f ≠ 0)
    (hnone : indexMap db.index f = none) (emb : Nat → UInt8) (hindex : IndexRoom db.index 1)
    (hroom : s.bumpPtr + 1 < 2 ^ 32) :
    ∃ s1 s' e index, Placed db i s f s1 s' e index ∧
      BinHolds (fun g => lost g ∨ g = f) (update (indexMap db.index) f (some (i,e)))
        (update st.vectors f (some (s.geom.dim,emb))) i s' (deferred i) := by
  have hload : db.index.count * 10 ≤ db.index.capacity * 7 := by
    have := hindex.2
    omega
  obtain ⟨s1,s',e,halloc,hbuf,hholds,hgeom,hfree⟩ := (h.bins i s hbin).placeKey
    (h.slots.bins i s hbin) hf hnone hroom emb
  obtain ⟨index,hput,hstill,hcap⟩ := h.slots.index.put hf hload hindex.calm i e
  have hcount := (hashIndexPut_keeps hf hput).1
  have hstep : PutStep db (modifyBin { db with index := index } i s') :=
    .place hf (by rw [h.slots.index.get hf,hnone]) hbin halloc hput hbuf
  have hslots' := putStep_slots h.slots hload h.small hstep hcap
  have hsmall := h.small s (mem_of_getElem? hbin)
  have hbin' : { db with index := index }.bins[i]? = some s := hbin
  refine ⟨s1,s',e,index,⟨halloc,hput,hbuf,hstill.map_eq,hslots',
    touched_place hcap hcount.2 hnone hstill.map_eq s',modifyBin_self hbin' s',hgeom,?_,
    (alloc_allotted halloc hsmall).trans (bufKey_allotted hbuf [e]) (fun _ hx => hx),hfree⟩,hholds⟩
  rw [(bufKey_sameSlots hbuf).bump]
  rcases alloc_slots halloc with ⟨rest,_,rfl⟩ | ⟨_,_,hsame⟩
  · exact Nat.le_succ _
  · rw [hsame.bump]

inductive ItemCase (lost : UInt64 → Prop) (db : GravelDB) (st : VectorStore)
    (deferred : Nat → List EmbWriteEntry) (i : Nat) (s : DimBin) (item : PutItem) :
    GravelDB → List EmbWriteEntry → Prop
  | skip (hno : st.accepts item = false) : ItemCase lost db st deferred i s item db []
  | rewrite {e : Nat} {emb : Nat → UInt8} {s' : DimBin} (hyes : st.accepts item = true)
      (hf : item.featId ≠ 0) (hemb : item.emb = some emb)
      (hlive : indexMap db.index item.featId = some (i,e))
      (hbuf : dimbinBufKey s e item.featId = some s') :
      ItemCase lost db st deferred i s item (modifyBin db i s') [⟨e,emb⟩]
  | place {e : Nat} {emb : Nat → UInt8} {s1 s' : DimBin} {index : HashIndex}
      (hyes : st.accepts item = true) (hf : item.featId ≠ 0) (hemb : item.emb = some emb)
      (hnone : indexMap db.index item.featId = none)
      (hp : Placed db i s item.featId s1 s' e index)
      (hholds : BinHolds (fun g => lost g ∨ g = item.featId)
        (update (indexMap db.index) item.featId (some (i,e)))
        (update st.vectors item.featId (some (s.geom.dim,emb))) i s' (deferred i)) :
      ItemCase lost db st deferred i s item (modifyBin { db with index := index } i s') [⟨e,emb⟩]

theorem StoreRep.itemCase (h : StoreRep lost db st deferred) (hbin : db.bins[i]? = some s)
    (hdim : item.dim = s.geom.dim) (hindex : IndexRoom db.index 1) (hroom : s.bumpPtr + 1 < 2 ^ 32)
    (writes : List EmbWriteEntry) (rc : Status) :
    ∃ db' new, putItem db i writes rc item =
        some (db',writes ++ new,if st.rejects item then .errDimMismatch else rc) ∧
      ItemCase lost db st deferred i s item db' new := by
  cases hemb : item.emb with
  | none =>
    refine ⟨db,[],?_,.skip (by simp [VectorStore.accepts,hemb])⟩
    simp [Gravel.putItem,hemb,VectorStore.rejects]
  | some emb =>
    by_cases hf : item.featId = 0
    · refine ⟨db,[],?_,.skip (by simp [VectorStore.accepts,hf])⟩
      simp [Gravel.putItem,hemb,hf,VectorStore.rejects]
    · have hget := h.slots.index.get hf
      cases hfound : indexMap db.index item.featId with
      | some v =>
        obtain ⟨j,e⟩ := v
        rw [hfound] at hget
        obtain ⟨s2,hbin2⟩ : ∃ s2, db.bins[j]? = some s2 :=
          ⟨_,getElem?_eq_getElem (h.slots.placed _ j e hfound)⟩
        obtain ⟨m,L,_,hL⟩ := (h.bins j s2 hbin2).rep
        obtain ⟨v,hv,_⟩ := hL _ e hfound
        by_cases hji : j = i
        · subst hji
          rw [hbin] at hbin2
          cases hbin2
          have hyes : st.accepts item = true := by
            simp [VectorStore.accepts,hemb,hf,hv,hdim]
          obtain ⟨s',hbuf,_⟩ := (h.bins j s hbin).rewriteKey (h.slots.bins j s hbin) hf hfound
          refine ⟨_,_,?_,.rewrite hyes hf hemb hfound hbuf⟩
          simp only [Gravel.putItem,hemb,hf,if_false,resolveEntry,hget,bufKeyIn,hbin,hbuf,
            bind_eq_bind,bind_some,Option.pure_def,if_true,VectorStore.rejects,hyes,
            Bool.not_true,Bool.and_false,Bool.false_eq_true]
        · have hother : s2.geom.dim ≠ item.dim := by
            rw [hdim]
            exact fun hsame => hji (h.dim_inj hbin2 hbin hsame)
          have hno : st.accepts item = false := by
            simp [VectorStore.accepts,hv,hother]
          refine ⟨db,[],?_,.skip hno⟩
          simp [Gravel.putItem,hemb,hf,resolveEntry,hget,if_neg hji,VectorStore.rejects,hno]
      | none =>
        rw [hfound] at hget
        have hyes : st.accepts item = true := by
          simp [VectorStore.accepts,hemb,hf,h.absent _ hfound]
        obtain ⟨s1,s',e,index,hp,hholds⟩ := h.place hbin hf hfound emb hindex hroom
        refine ⟨_,_,?_,.place hyes hf hemb hfound hp hholds⟩
        have hbin' : { db with index := index }.bins[i]? = some s := hbin
        have hself := modifyBin_self hbin' s1
        simp only [Gravel.putItem,hemb,hf,if_false,resolveEntry,hget,hbin,hp.alloc,hp.put,
          bufKeyIn,hself,hp.buf,bind_eq_bind,bind_some,Option.pure_def,
          modifyBin_twice,VectorStore.rejects,hyes,Bool.not_true,Bool.and_false,
          Bool.false_eq_true]

end Items

end Gravel.Proofs.StoreRefinement
