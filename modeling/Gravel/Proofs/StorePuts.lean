import Gravel.Proofs.Addresses
import Gravel.Proofs.KeyMirror
import Gravel.Proofs.StoreRefinement
import Gravel.Spec.Backpressure

namespace Gravel.Proofs.StoreRefinement
open File PageBytes PutPage PutBatch BinRun KeyBuffer HashIndex OverlayMap BinEntries PutRoom
  StoreSteps BinFrames Slots KeyMirror Spec List Option Function

structure ClaimsDone (lost : UInt64 → Prop) (db : GravelDB) (st : VectorStore)
    (deferred : Nat → List EmbWriteEntry) (i : Nat) (s : DimBin) (n : Nat)
    (accepted : List PutItem) (db' : GravelDB) (new : List EmbWriteEntry) : Prop where
  rep : StoreRep lost db' st deferred
  touched : Touched i n db db'
  bin : ∃ s', db'.bins[i]? = some s' ∧ Allotted s s' (new.map EmbWriteEntry.entryId) ∧
    s'.bumpPtr ≤ s.bumpPtr + n
  writes : List.Forall₂ (WriteOf (indexMap db'.index) i) accepted new

section Claims

variable {lost lost' : UInt64 → Prop} {db db' : GravelDB} {st : VectorStore}
  {deferred : Nat → List EmbWriteEntry} {i n : Nat} {s : DimBin} {item : PutItem}
  {items : List PutItem} {rc : Status} {accepted : List PutItem} {new : List EmbWriteEntry}
  {f : UInt64}

theorem WriteOf.mono {im im' : IndexMap} (h : ∀ f v, im f = some v → im' f = some v)
    (hw : List.Forall₂ (WriteOf im i) accepted new) : List.Forall₂ (WriteOf im' i) accepted new :=
  hw.imp fun _ _ hone => ⟨h _ _ hone.1,hone.2⟩

theorem StoreRep.stored (h : StoreRep lost db st deferred) {e : Nat} (hbin : db.bins[i]? = some s)
    (hf : indexMap db.index f = some (i,e)) : st.vectors f ≠ none := by
  obtain ⟨m,L,_,hL⟩ := (h.bins i s hbin).rep
  obtain ⟨v,hv,_⟩ := hL f e hf
  rw [hv]
  exact some_ne_none _

theorem StoreRep.unindexed (h : StoreRep lost db st deferred)
    (hnone : st.vectors f = none) : indexMap db.index f = none := by
  cases hf : indexMap db.index f with
  | none => rfl
  | some v =>
    have hlt := h.slots.placed f v.1 v.2 hf
    exact absurd hnone (h.stored (getElem?_eq_getElem hlt) hf)

theorem StoreRep.claimItem (h : StoreRep lost db st deferred) (hbin : db.bins[i]? = some s)
    (hdim : item.dim = s.geom.dim) (hindex : IndexRoom db.index 1) (hroom : s.bumpPtr + 1 < 2 ^ 32)
    (hlost : st.accepts item = true → st.vectors item.featId = none → lost item.featId)
    (writes : List EmbWriteEntry) (rc : Status) :
    ∃ db' new, Gravel.putItem db i writes rc item =
        some (db',writes ++ new,if st.rejects item then .errDimMismatch else rc) ∧
      ClaimsDone lost db (st.claimOne item) deferred i s 1 ([item].filter st.accepts) db' new := by
  have hload : db.index.count * 10 ≤ db.index.capacity * 7 := by
    have := hindex.2
    omega
  obtain ⟨db',new,hput,hcase⟩ := h.itemCase hbin hdim hindex hroom writes rc
  refine ⟨db',new,hput,?_⟩
  rw [filter_singleton]
  cases hcase with
  | skip hno =>
    rw [VectorStore.claimOne_refused hno,hno]
    exact ⟨h,.refl i 1 db,⟨s,hbin,.refl s _,Nat.le_succ _⟩,.nil⟩
  | @rewrite e emb s' hyes hf hemb hlive hbuf =>
    have hslots := h.slots.bins i s hbin
    obtain ⟨s1,hbuf1,hholds⟩ := (h.bins i s hbin).rewriteKey hslots hf hlive
    rw [hbuf] at hbuf1
    cases hbuf1
    have hstep : PutStep db (modifyBin db i s') :=
      .rewrite hf (by rw [h.slots.index.get hf,hlive]) hbin hbuf
    have hallot := bufKey_allotted hbuf [e]
    have hone := h.one hbin (putStep_slots h.slots hload h.small hstep rfl) hallot.kept.geom hholds
    rw [update_eq_self] at hone
    have hsame : st.claimOne item = st :=
      if_neg (by simpa [isNone_iff_eq_none] using h.stored hbin hlive)
    rw [hsame,hyes]
    refine ⟨hone,touched_bin db i 1 s',⟨s',modifyBin_self hbin s',hallot,?_⟩,.cons ⟨hlive,hemb⟩ .nil⟩
    rw [(bufKey_sameSlots hbuf).bump]
    exact Nat.le_succ _
  | @place e emb s1 s' index hyes hf hemb hnone hp hholds =>
    have habsent := h.absent _ hnone
    have hset := h.set hbin index hp.slots hp.map hp.geom
      (fun j x hx => by rw [hnone] at hx; cases hx) (fun j x hx => by cases hx; rfl) (by simp)
      (fun _ _ hl => .inl hl) hholds
    rw [update_eq_self] at hset
    have hclaim : st.claimOne item = { st with
        vectors := update st.vectors item.featId (some (s.geom.dim,emb)) } := by
      rw [VectorStore.claimOne,if_pos (by simp [habsent]),
        VectorStore.putOne_accepted hyes hemb,hdim]
    have hlive : indexMap index item.featId = some (i,e) := by
      rw [hp.map,update_self]
    rw [hclaim,hyes]
    refine ⟨hset.mono ?_,hp.touched,⟨s',hp.bin,hp.allotted,hp.bump⟩,.cons ⟨hlive,hemb⟩ .nil⟩
    rintro f (hl | rfl)
    · exact hl
    · exact hlost hyes habsent

theorem StoreRep.claimItems (h : StoreRep lost db st deferred) (hbin : db.bins[i]? = some s)
    (hdims : ∀ item ∈ items, item.dim = s.geom.dim) (hindex : IndexRoom db.index items.length)
    (hroom : s.bumpPtr + items.length < 2 ^ 32)
    (hlost : ∀ item ∈ items, st.accepts item = true → st.vectors item.featId = none →
      lost item.featId) (writes : List EmbWriteEntry) (rc : Status) :
    ∃ db' new, Gravel.putItems db i writes rc items =
        some (db',writes ++ new,if items.any st.rejects then .errDimMismatch else rc) ∧
      ClaimsDone lost db (items.foldl VectorStore.claimOne st) deferred i s items.length
        (items.filter st.accepts) db' new := by
  induction items generalizing db st s writes rc with
  | nil =>
    exact ⟨db,[],by simp [Gravel.putItems],h,.refl i 0 db,⟨s,hbin,.refl s _,Nat.le_refl _⟩,.nil⟩
  | cons item rest ih =>
    simp only [length_cons] at hindex hroom
    obtain ⟨hcap,hload⟩ := hindex
    have hdim := hdims item mem_cons_self
    obtain ⟨db1,new1,hput,hdone⟩ := h.claimItem hbin hdim ⟨hcap,by omega⟩ (by omega)
      (hlost item mem_cons_self) writes rc
    obtain ⟨s1,hbin1,hallot,hbump⟩ := hdone.bin
    have hcap1 := hdone.touched.capacity
    have hcount1 := hdone.touched.count
    have hrest : ∀ x ∈ rest, x.dim = item.dim := fun x hx =>
      (hdims x (mem_cons_of_mem _ hx)).trans hdim.symm
    have hsame : ∀ x ∈ rest, (st.claimOne item).accepts x = st.accepts x :=
      fun x hx => VectorStore.accepts_claimOne (hrest x hx)
    obtain ⟨db',new,hputs,hmore⟩ := ih hdone.rep hbin1
      (fun x hx => by
        rw [hallot.kept.geom]
        exact hdims x (mem_cons_of_mem _ hx))
      ⟨by omega,by rw [hcap1]; omega⟩ (by omega)
      (fun x hx hyes hnone => hlost x (mem_cons_of_mem _ hx) (by rw [← hsame x hx]; exact hyes)
        (VectorStore.claimOne_absent hnone)) (writes ++ new1)
      (if st.rejects item then .errDimMismatch else rc)
    have hreject : rest.any (st.claimOne item).rejects = rest.any st.rejects := by
      rw [Bool.eq_iff_iff,List.any_eq_true,List.any_eq_true]
      exact exists_congr fun x => and_congr_right fun hx => by
        rw [VectorStore.rejects,VectorStore.rejects,hsame x hx]
    obtain ⟨s2,hbin2,hallot2,hbump2⟩ := hmore.bin
    have hboth : Allotted s s2 ((new1 ++ new).map EmbWriteEntry.entryId) := by
      rw [map_append]
      refine (hallot.trans (.refl s1 _) fun _ he => mem_append_left _ he).trans
        (hallot2.trans (.refl s2 _) fun _ he => mem_append_right _ he) fun _ he => he
    refine ⟨db',new1 ++ new,?_,hmore.rep,?_,⟨s2,hbin2,hboth,?_⟩,?_⟩
    · simp only [Gravel.putItems,hput,bind_eq_bind,bind_some,hputs,hreject,
        any_cons,append_assoc]
      by_cases hone : st.rejects item = true
      · simp [hone]
      · simp [hone]
    · rw [length_cons,Nat.add_comm]
      exact hdone.touched.trans hmore.touched
    · rw [length_cons]
      omega
    · rw [← singleton_append,filter_append,← filter_congr hsame]
      exact rel_append (WriteOf.mono hmore.touched.grows hdone.writes) hmore.writes

theorem StoreRep.deferAll (hbin : db.bins[i]? = some s)
    (hw : List.Forall₂ (WriteOf (indexMap db.index) i) accepted new) :
    ∀ {lost st deferred}, StoreRep lost db st deferred →
      (∀ x ∈ accepted, x.dim = s.geom.dim ∧ st.accepts x = true) →
      StoreRep (fun f => lost f ∧ f ∉ accepted.map PutItem.featId) db
        (accepted.foldl VectorStore.putOne st) (update deferred i (deferred i ++ new)) := by
  induction hw with
  | nil =>
    intro lost st deferred h _
    rw [append_nil,update_eq_self]
    exact h.mono fun f hf => ⟨hf,not_mem_nil⟩
  | @cons item w accepted new hone _ ih =>
    intro lost st deferred h hall
    obtain ⟨hdim,hyes⟩ := hall item mem_cons_self
    have hput := VectorStore.putOne_accepted hyes hone.2
    have hfirst := h.defer hbin hone.1 w.data
    rw [← hdim,← hput] at hfirst
    have hrest := ih hfirst fun x hx => by
      obtain ⟨hdim',hyes'⟩ := hall x (mem_cons_of_mem _ hx)
      exact ⟨hdim',(VectorStore.accepts_putOne (hdim'.trans hdim.symm)).trans hyes'⟩
    rw [update_self,update_idem,append_assoc] at hrest
    refine hrest.mono ?_
    rintro f ⟨⟨hl,hne⟩,hnot⟩
    refine ⟨hl,?_⟩
    rw [map_cons,mem_cons,not_or]
    exact ⟨hne,hnot⟩

end Claims

section Groups

variable {lost lost' : UInt64 → Prop} {db db' : GravelDB} {st : VectorStore}
  {i n k : Nat} {s : DimBin} {items : List PutItem} {rc : Status}

abbrev Settles (lost : UInt64 → Prop) (db : GravelDB) (st : VectorStore) : Prop :=
  StoreRep lost db st (fun _ => [])

abbrev Holds (db : GravelDB) (st : VectorStore) : Prop := Settles (fun _ => False) db st

theorem StoreRep.reserve (h : Settles lost db st) (hbin : db.bins[i]? = some s) (n : Nat)
    (hload : db.index.count * 10 ≤ db.index.capacity * 7) :
    Settles lost (modifyBin db i (dimbinReserve s n)) st := by
  obtain ⟨m,L,hrep,hL⟩ := (h.bins i s hbin).rep
  obtain ⟨hrep',hkey⟩ := hrep.reserve n
  have hkept := (reserve_allotted s n []).kept
  have hslots := putStep_slots h.slots hload h.small (.reserve hbin n) rfl
  have hholds : BinHolds lost (indexMap db.index) st.vectors i (dimbinReserve s n) [] := by
    refine ⟨⟨m,L,hrep',?_⟩,by simp,?_⟩
    · rw [hkept.geom]
      exact hL
    · intro e he
      rw [hkept.overlay] at he
      rw [hkey e]
      exact (h.bins i s hbin).mirror e he
  have hone := h.one hbin hslots hkept.geom hholds
  rwa [update_eq_self_iff.mpr rfl] at hone

/-- The state between the two passes over a group: every id has its entry, the vectors of
`accepted` will be stored and those of `late` will not. -/
structure FirstPass (lost : UInt64 → Prop) (db : GravelDB) (st : VectorStore) (i : Nat) (s : DimBin)
    (n : Nat) (accepted late : List PutItem) (db' : GravelDB) (s' : DimBin)
    (writes new : List EmbWriteEntry) : Prop where
  rep : StoreRep lost db' st (update (fun _ => []) i writes)
  touched : Touched i n db db'
  bin : db'.bins[i]? = some s'
  allotted : Allotted s s' ((writes ++ new).map EmbWriteEntry.entryId)
  bump : s'.bumpPtr ≤ s.bumpPtr + n
  stored : List.Forall₂ (WriteOf (indexMap db'.index) i) accepted writes
  left : List.Forall₂ (WriteOf (indexMap db'.index) i) late new

theorem StoreRep.firstPass (h : Settles lost db st) (hbin : db.bins[i]? = some s)
    (hdims : ∀ item ∈ items, item.dim = s.geom.dim) (hroom : s.bumpPtr + items.length < 2 ^ 32)
    (hindex : IndexRoom db.index items.length) (k : Nat) (hlost : ∀ f, lost f → lost' f)
    (hlate : ∀ item ∈ (items.filter st.accepts).drop k, st.vectors item.featId = none →
      item.featId ∉ ((items.filter st.accepts).take k).map PutItem.featId → lost' item.featId)
    (rc : Status) :
    ∃ db' s' writes new, putItems (modifyBin db i (dimbinReserve s items.length)) i [] rc items =
        some (db',writes ++ new,if items.any st.rejects then .errDimMismatch else rc) ∧
      FirstPass lost' db (((items.filter st.accepts).drop k).foldl VectorStore.claimOne
          (((items.filter st.accepts).take k).foldl VectorStore.putOne st)) i s items.length
        ((items.filter st.accepts).take k) ((items.filter st.accepts).drop k) db' s' writes new := by
  obtain ⟨hcap,hload⟩ := hindex
  have hres := h.reserve hbin items.length (by omega)
  have hbin1 := modifyBin_self hbin (dimbinReserve s items.length)
  have hallot1 := reserve_allotted s items.length []
  have hbump1 : (dimbinReserve s items.length).bumpPtr = s.bumpPtr :=
    (reserve_sameSlots s items.length).bump
  -- until the writes are deferred, the ids of the first half have no vector
  have hstart : StoreRep (fun f => lost' f ∨ f ∈ ((items.filter st.accepts).take k).map
      PutItem.featId) (modifyBin db i (dimbinReserve s items.length)) st (fun _ => []) :=
    hres.mono fun f hf => .inl (hlost f hf)
  obtain ⟨db',all,hputs,hdone⟩ := hstart.claimItems hbin1
    (fun item hm => by rw [hallot1.kept.geom]; exact hdims item hm) ⟨hcap,hload⟩ (by omega)
    (fun item hm hyes hnone => by
      by_cases hfirst : item.featId ∈ ((items.filter st.accepts).take k).map PutItem.featId
      · exact .inr hfirst
      · refine .inl (hlate item ?_ hnone hfirst)
        have hmem := mem_filter.mpr ⟨hm,hyes⟩
        rw [← take_append_drop k (items.filter st.accepts)] at hmem
        exact (mem_append.mp hmem).resolve_left fun hm => hfirst (mem_map_of_mem hm)) [] rc
  obtain ⟨s',hbin',hallot',hbump'⟩ := hdone.bin
  have hall : ∀ item ∈ (items.filter st.accepts).take k, item.dim = s'.geom.dim ∧
      (items.foldl VectorStore.claimOne st).accepts item = true := by
    intro item hm
    obtain ⟨hm,hyes⟩ := mem_filter.mp (mem_of_mem_take hm)
    rw [hallot'.kept.geom,hallot1.kept.geom,VectorStore.accepts_claims (fun x hx =>
      (hdims item hm).trans (hdims x hx).symm)]
    exact ⟨hdims item hm,hyes⟩
  have hrep := StoreRep.deferAll hbin' (forall₂_take k hdone.writes) hdone.rep hall
  have hclaims := VectorStore.foldl_accepted (fun _ _ => VectorStore.claimOne_refused)
    (fun _ _ _ => VectorStore.accepts_claimOne) hdims st
  have hswap := VectorStore.puts_after_claims ((items.filter st.accepts).drop k)
    ((items.filter st.accepts).take k) st (fun item hm => by
      rw [take_append_drop] at hm
      exact hdims item (mem_filter.mp hm).1)
  rw [take_append_drop,hclaims] at hswap
  rw [hswap] at hrep
  refine ⟨db',s',all.take k,all.drop k,?_,hrep.mono ?_,?_,hbin',?_,by omega,
    forall₂_take k hdone.writes,forall₂_drop k hdone.writes⟩
  · rw [take_append_drop,hputs]
    rfl
  · rintro f ⟨hl | hm,hnot⟩
    · exact hl
    · exact absurd hm hnot
  · have hboth := (touched_bin db i 0 _).trans hdone.touched
    rwa [Nat.zero_add] at hboth
  · rw [take_append_drop]
    exact hallot1.trans hallot' fun _ he => absurd he not_mem_nil

theorem StoreRep.putBatch {writes : List EmbWriteEntry} {s0 : DimBin}
    (h : StoreRep lost db st (update (fun _ => []) i writes)) (hbin : db.bins[i]? = some s)
    (hroom : WriteRoom s0 n) (hallot : Allotted s0 s (writes.map EmbWriteEntry.entryId))
    (hbump : s.bumpPtr ≤ s0.bumpPtr + n) (hlen : writes.length ≤ n) (hload : db.index.count * 10 ≤ db.index.capacity * 7) :
    ∃ s', dimbinPutBatch s writes = some (s',.ok) ∧ Settles lost (modifyBin db i s') st ∧
      s'.geom = s.geom ∧ s'.inCheckpoint = s.inCheckpoint := by
  have hholds := h.bins i s hbin
  rw [update_self] at hholds
  obtain ⟨m,L,hrep,hL⟩ := hholds.rep
  have howned : ∀ w ∈ writes, Owned s w.entryId := by
    intro w hw
    obtain ⟨f,hf⟩ := hholds.named w hw
    exact owned_of_index (h.slots.bins i s hbin) hf
  obtain ⟨s',m',hput,hrep',hkey,hgeom⟩ := BinRep.putBatch hrep hroom hallot hbump hlen howned (fun e he => by
    obtain ⟨w,hw,hwe⟩ := List.mem_map.mp he
    exact ⟨w,hw,hwe⟩)
  have hslots := putStep_slots h.slots hload h.small (.write hbin hput) rfl
  have hwritten : BinHolds lost (indexMap db.index) st.vectors i s' [] := by
    refine ⟨⟨m',_,hrep',?_⟩,by simp,?_⟩
    · intro f e hf
      rw [hgeom]
      obtain ⟨v,hfv,hv⟩ := hL f e hf
      exact ⟨v,hfv,fun hl => by simpa [lastWrite] using hv hl⟩
    · intro e he
      rw [(putBatch_sameSlots hput).tombstones] at he
      rw [hkey e]
      exact hholds.mirror e he
  have hone := h.one hbin hslots hgeom hwritten
  rw [update_idem,update_eq_self_iff.mpr rfl] at hone
  exact ⟨s',hput,hone,hgeom,(putBatch_sameSlots hput).inCheckpoint⟩

theorem StoreRep.putGroup (h : Settles lost db st) (hbin : db.bins[i]? = some s)
    (hdims : ∀ item ∈ items, item.dim = s.geom.dim) (hroom : WriteRoom s n)
    (hlen : items.length ≤ n) (hindex : IndexRoom db.index items.length) (rc : Status) :
    ∃ db', putGroup db i rc items =
        some (db',if items.any st.rejects then .errDimMismatch else rc) ∧
      Settles lost db' (items.foldl VectorStore.putOne st) ∧ Touched i items.length db db' ∧
      ∃ s', db'.bins[i]? = some s' ∧ s'.geom = s.geom ∧ s'.inCheckpoint = s.inCheckpoint := by
  have hslots := hroom.1
  have hlength := length_filter_le st.accepts items
  obtain ⟨db2,s2,writes,new,hputs,hpass⟩ := h.firstPass hbin hdims (by omega) hindex items.length
    (fun _ hf => hf) (fun item hm => by rw [drop_of_length_le hlength] at hm; cases hm) rc
  have hdone := hpass.rep
  have hstored := hpass.stored.length_eq
  have hleft := hpass.left
  rw [drop_of_length_le hlength] at hdone hleft
  cases hleft
  rw [take_of_length_le hlength] at hdone hstored
  rw [foldl_nil,VectorStore.foldl_accepted (fun _ _ => VectorStore.putOne_refused)
    (fun _ _ _ => VectorStore.accepts_putOne) hdims] at hdone
  have hallot := hpass.allotted
  rw [append_nil] at hallot hputs
  have hcount := hpass.touched.count
  have hcap := hpass.touched.capacity
  have hload := hindex.2
  obtain ⟨s3,hput,hrep,hgeom3,hck3⟩ := hdone.putBatch hpass.bin hroom hallot
    (Nat.le_trans hpass.bump (Nat.add_le_add_left hlen _)) (by omega) (by rw [hcap]; omega)
  refine ⟨modifyBin db2 i s3,?_,hrep,?_,s3,modifyBin_self hpass.bin s3,?_,?_⟩
  · simp only [Gravel.putGroup,reserveIn,hbin,hputs,putBatchIn,hpass.bin,hput,bind_eq_bind,
      bind_some,Option.pure_def]
    rfl
  · have hall := hpass.touched.trans (touched_bin db2 i 0 s3)
    rwa [Nat.add_zero] at hall
  · rw [hgeom3,hallot.kept.geom]
  · rw [hck3,hallot.kept.inCheckpoint]

end Groups

/-- A bin of the dim can be made, and takes a batch of `n` vectors. -/
def CreateRoom (config : GravelDBConfig) (n dim : Nat) : Prop :=
  n ≤ maxFlushBatch ∧
    match dimbinGeometry dim config.entryAlign config.pageSize with
    | some g => g.entrySize ≤ g.pageSize ∧
        max (bufferBytes config) (4 * 1024 * 1024) / g.pageSize < 2 ^ 28
    | none => False

instance (config : GravelDBConfig) (n dim : Nat) : Decidable (CreateRoom config n dim) := by
  unfold CreateRoom
  cases dimbinGeometry dim config.entryAlign config.pageSize with
  | none => exact inferInstanceAs (Decidable (_ ∧ False))
  | some g => exact inferInstanceAs (Decidable (_ ∧ _ ∧ _))

section Create

variable {db db' : GravelDB} {st : VectorStore} {i n dim size budget : Nat} {g : Geometry}
  {data : File UInt8} {keys : File UInt64} {align ps : UInt32} {s : DimBin}

theorem BinRep.init {L : Entries} (h : dimbinInit g size data keys = some s)
    (hmax : writeMax g size < 2 ^ 28) (hfits : g.entrySize ≤ g.pageSize)
    (hsmall : keys.size < 2 ^ 32) (hL : ∀ e v, L e = some v → e < s.bumpPtr ∧
      g.pageOf e * g.pageSize + g.pageSize ≤ data.size ∧
      ∀ i < g.dim * 4, data.cell (g.pageOf e * g.pageSize + (g.offsetInPage e + i)) = v i) :
    BinRep s (fun _ => none) L := by
  have hinv := dimbinInit_inv h hmax
  obtain ⟨hkeys,_,hksize,_,hdata,hgeom,hbump,_⟩ := init_keys h
  have hrest : s.freeList = [] ∧ s.overlay = overlayDestroyed ∧ s.inCheckpoint = false ∧
      s.writeBuf.slots = fun _ => emptySlot := by
    obtain ⟨cap,_,h⟩ := bind_eq_some_iff.mp h
    cases h
    exact ⟨rfl,rfl,rfl,rfl⟩
  obtain ⟨hfree,hoverlay,hck,hslots⟩ := hrest
  have hlists : s.overlay.tombstones ++ s.freeList = [] := by
    rw [hfree,hoverlay]
    rfl
  have hbuffered : ∀ p, bufferedPage s.writeBuf p = none := by
    intro p
    rw [bufferedPage_eq_none hinv.buf.sound,hslots]
    intro slot hslot
    obtain ⟨hne,i,_,rfl⟩ := PageMap.mem_liveSlots.mp hslot
    exact absurd rfl hne
  refine ⟨by rw [hinv.limit]; exact hinv,hkeys,by rw [hgeom]; exact hfits,
    by rw [hbump,hksize]; exact Nat.min_le_left _ _,
    by rw [hbump]; exact Nat.lt_of_le_of_lt (Nat.min_le_left _ _) hsmall,by rw [hlists]; simp,
    by rw [hlists]; simp,?_,?_,?_,?_,?_⟩
  · rw [OverlayState,if_neg (by simp [hck])]
    exact ⟨hoverlay,rfl⟩
  · intro _
    rw [hoverlay]
    rfl
  · intro e he
    obtain ⟨v,hv⟩ := isSome_iff_exists.mp he
    exact ⟨(hL e v hv).1,by rw [hlists]; simp⟩
  · intro e v hv i hi
    rw [hgeom] at hi
    rw [getD_none,entryByte,pageBytes,pageView,hbuffered,hdata,hgeom]
    exact (hL e v hv).2.2 i hi
  · intro e he _
    obtain ⟨v,hv⟩ := isSome_iff_exists.mp he
    refine .inr ?_
    rw [hdata,hgeom]
    exact (hL e v hv).2.1

theorem openBin_empty {dir : DataDir} (budget : Nat) (hfile : dir.bins dim = ⟨File.empty,File.empty⟩)
    (hg : dimbinGeometry dim align ps = some g) (hmax : writeMax g size < 2 ^ 28)
    (hfits : g.entrySize ≤ g.pageSize) (hn : n ≤ maxFlushBatch) :
    ∃ s, openBin dir dim size align ps budget = some s ∧ BinRep s (fun _ => none) (fun _ => none) ∧
      s.geom.dim = dim ∧ WriteRoom s n ∧ ∀ e, keyAt s e = 0 := by
  obtain ⟨bin,hinit,_⟩ := dimbinInit_total hmax File.empty File.empty
  have hrep : BinRep bin (fun _ => none) (fun _ => none) :=
    BinRep.init hinit hmax hfits (by decide) (fun e v hv => by cases hv)
  obtain ⟨_,_,_,_,_,hgeom,hbump,hkey⟩ := init_keys hinit
  have hinv := dimbinInit_inv hinit hmax
  have hzero : bin.bumpPtr = 0 := by
    rw [hbump]
    exact Nat.min_eq_left (Nat.zero_le _) |>.trans rfl
  have hrest : bin.inCheckpoint = false ∧ bin.writeBuf.count = 0 ∧
      bin.dirty = dirtyTrackerInit (initialPages g 0) := by
    obtain ⟨cap,_,hinit⟩ := bind_eq_some_iff.mp hinit
    cases hinit
    exact ⟨rfl,rfl,rfl⟩
  obtain ⟨hck,hcount,hdirty⟩ := hrest
  have hpages : initialPages g 0 = 1024 := by
    have hnone : totalPages g 0 = 0 := by
      have := g.entries_pos
      exact Nat.div_eq_of_lt (by omega)
    simp [initialPages,hnone]
  have hbatch : maxFlushBatch = 65536 := rfl
  have hroom : WriteRoom bin n := by
    refine ⟨by omega,hck,⟨?_,?_⟩,?_⟩
    · rw [hdirty]
      intro seg hseg
      cases hseg
    · rw [hdirty,hpages]
      have hspan : (dirtyTrackerInit 1024).active.segmentSpan = 4096 := rfl
      rw [hspan,hzero,Nat.zero_add]
      have : bin.geom.pageOf n ≤ n := Nat.div_le_self _ _
      omega
    · rw [hzero,hcount]
      rcases Nat.le_total bin.writeBuf.maxPages maxFlushBatch with hle | hge
      · exact .inr ⟨hle,fun e he => absurd he (Nat.not_lt_zero _)⟩
      · exact .inl ⟨by omega,fun e he => absurd he (Nat.not_lt_zero _)⟩
  refine ⟨{ bin with overlayBudget := budget },?_,?_,?_,hroom,?_⟩
  · simp only [openBin,hg,hfile,hinit,bind_eq_bind,bind_some,Option.pure_def]
  · exact ⟨hrep.inv.congr rfl rfl rfl,hrep.keys.congr rfl rfl rfl,hrep.fits,hrep.bump,hrep.small,
      hrep.free,hrep.freed,hrep.overlay,fun _ => by
        rw [(hrep.no_overlay hck).1]
        rfl,hrep.owned,hrep.bytes,hrep.disk⟩
  · rw [hgeom]
    exact (Addresses.dimbinGeometry_fields hg).2.1
  · intro e
    rw [show keyAt { bin with overlayBudget := budget } e = keyAt bin e from rfl,hkey e]
    rfl

end Create

end Gravel.Proofs.StoreRefinement
