import Gravel.Proofs.StoreRefusals

namespace Gravel.Proofs.StoreRefinement
open Runs File PutPage KeyBuffer HashIndex Registry OverlayMap BinEntries PutRoom Slots KeyMirror
  Spec List Option

/-- The limit for puts of a dim: there is one while its bin is in a checkpoint. -/
def limitOf (db : GravelDB) (dim : Nat) : Option Limit := do
  let i ← dimRegistryFind db.registry dim
  let s ← db.bins[i]?
  if s.inCheckpoint then some (limitAt db i s) else none

/-- Every get of an entry of the bin reads the entry: no rehash of the overlay is in progress, and
a page with one entry holds nothing else. -/
structure Legible (s : DimBin) : Prop where
  plain : s.geom.entriesPerPage = 1 → s.geom.entrySize = s.geom.pageSize
  calm : s.inCheckpoint = true → s.overlay.table.old = none

def PlainDim (config : GravelDBConfig) (dim : Nat) : Prop :=
  ∀ g ∈ dimbinGeometry dim config.entryAlign config.pageSize,
    g.entriesPerPage = 1 → g.entrySize = g.pageSize

def GroupRoom (s : DimBin) (n : Nat) : Prop :=
  s.bumpPtr + n < 2 ^ 32 ∧
    if s.inCheckpoint = true then OverlayRoom s n ∧ OverlayOwned s else BufferRoom s [] n

/-- Room for the vectors of one dim, in the bin that it has or in the one that is made for it. -/
def DimRoom (db : GravelDB) (dim n : Nat) : Prop :=
  0 < dim ∧
    match dimRegistryFind db.registry dim with
    | some i => ∀ s ∈ db.bins[i]?, GroupRoom s n
    | none => db.config.autoCreateBins = true → db.dir.opens dim = true ∧ CreateRoom db.config n dim

section Create

variable {lost : UInt64 → Prop} {db db' : GravelDB} {st : VectorStore} {i n dim : Nat} {s : DimBin}

theorem writeMax_lt {config : GravelDBConfig} {g : Geometry} {size : Nat}
    (hsize : size ≤ max (bufferBytes config) (4 * 1024 * 1024))
    (h : max (bufferBytes config) (4 * 1024 * 1024) / g.pageSize < 2 ^ 28) :
    writeMax g size < 2 ^ 28 := by
  unfold writeMax
  split_ifs
  · decide
  · exact Nat.lt_of_le_of_lt (Nat.div_le_div_right hsize) h

theorem sharedBuffer_le (db : GravelDB) :
    sharedBuffer db ≤ max (bufferBytes db.config) (4 * 1024 * 1024) :=
  max_le_max (Nat.div_le_self _ _) (Nat.le_refl _)

theorem StoreRep.create (h : Settles lost db st) (hd : 0 < dim) (hnew : dim ∉ st.dims)
    (hcount : st.dims.length < 24576) (hroom : CreateRoom db.config n dim) :
    ∃ db' s, createAndRegisterBin db dim = some (db',st.dims.length) ∧
      Settles lost db' { st with dims := st.dims ++ [dim] } ∧
      db' = { db with registry := db'.registry, bins := db.bins ++ [s] } ∧
      dimbinGeometry dim db.config.entryAlign db.config.pageSize = some s.geom ∧ s.geom.dim = dim ∧
      WriteRoom s n ∧ s.inCheckpoint = false := by
  obtain ⟨hn,hgeom⟩ := hroom
  cases hg : dimbinGeometry dim db.config.entryAlign db.config.pageSize with
  | none =>
    rw [hg] at hgeom
    exact hgeom.elim
  | some g =>
    rw [hg] at hgeom
    obtain ⟨s,hopen,hrep,hdim,hwrite,hkeys⟩ := openBin_empty db.config.overlayBudget
      (h.slots.files dim) hg (writeMax_lt (sharedBuffer_le db) hgeom.2) hgeom.1 hn
    obtain ⟨registry,hput,hreg⟩ := h.registry.put hd hnew hcount
    have hlen : st.dims.length = db.bins.length := by rw [← h.dims,length_map]
    have hregister : registerBin db dim s =
        some ({ db with registry := registry, bins := db.bins ++ [s] },st.dims.length) := by
      simp [registerBin,hput,hlen]
    have hcreate : createAndRegisterBin db dim =
        some ({ db with registry := registry, bins := db.bins ++ [s] },st.dims.length) := by
      simp only [createAndRegisterBin,hopen,bind_eq_bind,bind_some,hregister]
    have hfresh : some g = some s.geom ∧ s.inCheckpoint = false := by
      obtain ⟨g',hg',hopen⟩ := bind_eq_some_iff.mp hopen
      obtain ⟨bin,hinit,hopen⟩ := bind_eq_some_iff.mp hopen
      obtain ⟨cap,_,hinit⟩ := bind_eq_some_iff.mp hinit
      cases hinit
      cases hopen
      exact ⟨hg.symm.trans hg',rfl⟩
    refine ⟨_,s,hcreate,⟨h.slots.create hcreate,hreg,?_,h.absent,?_⟩,rfl,hfresh.1,hdim,hwrite,
      hfresh.2⟩
    · simp [h.dims,hdim]
    · intro j b hb
      simp only at hb ⊢
      rcases Nat.lt_or_ge j db.bins.length with hlt | hge
      · rw [getElem?_append_left hlt] at hb
        exact h.bins j b hb
      · rw [getElem?_append_right hge,getElem?_singleton] at hb
        split_ifs at hb with hj
        cases hb
        obtain rfl : j = db.bins.length := by omega
        refine ⟨⟨_,_,hrep,fun f e hf => absurd hf (StoreSlots.unowned h.slots f e)⟩,by simp,?_⟩
        intro e _ f hf
        rw [hkeys e]
        exact ⟨fun h0 => absurd h0.symm hf,fun hf => absurd hf (StoreSlots.unowned h.slots f e)⟩

end Create

section Groups

variable {lost : UInt64 → Prop} {db db' : GravelDB} {st : VectorStore} {l : Ledger}
  {i n k dim : Nat} {s : DimBin} {items : List PutItem} {groups : List (Nat × List PutItem)}
  {l' : Ledger} {db'' : GravelDB} {dims : List Nat} {reg : DimRegistry}
  {limits : Nat → Option Limit}

theorem StoreRep.putKnown (h : Settles (· ∈ l.refused) db l.st) (hbin : db.bins[i]? = some s)
    (hdims : ∀ item ∈ items, item.dim = s.geom.dim) (hroom : GroupRoom s items.length)
    (hindex : IndexRoom db.index items.length)
    (hl' : l' = l.putGroup (if s.inCheckpoint then some (limitAt db i s) else none) items) :
    ∃ db', Gravel.putGroup db i l.rc items = some (db',l'.rc) ∧
      Settles (· ∈ l'.refused) db' l'.st ∧ Touched i items.length db db' ∧
      (∃ s', db'.bins[i]? = some s' ∧ (Legible s → Legible s')) ∧
      ∀ f ∈ l'.refused, f ∈ l.refused ∨ Stale i s db' f := by
  obtain ⟨hslots,hroom⟩ := hroom
  by_cases hck : s.inCheckpoint = true
  · rw [if_pos hck] at hroom hl'
    obtain ⟨db',hput,hrep,htouch,⟨s',hbin',hgeom,hold⟩,hstale⟩ :=
      h.putLimited hbin hck hdims hroom.1 hslots hindex hroom.2 hl'
    exact ⟨db',hput,hrep,htouch,⟨s',hbin',fun hs => ⟨by rw [hgeom]; exact hs.plain,fun _ => hold⟩⟩,
      hstale⟩
  · rw [if_neg hck] at hroom hl'
    obtain ⟨db',hput,hrep,htouch,s',hbin',hgeom,hck'⟩ := h.putGroup (n := items.length) hbin hdims
      ⟨hslots,Bool.eq_false_iff.mpr hck,hroom⟩ (Nat.le_refl _) hindex l.rc
    subst hl'
    refine ⟨db',hput,hrep,htouch,⟨s',hbin',fun hs => ⟨by rw [hgeom]; exact hs.plain,?_⟩⟩,
      fun f hf => .inl hf⟩
    intro hin
    exact absurd (hck'.symm.trans hin) hck

structure Outside (dims : List Nat) (db db' : GravelDB) : Prop where
  bins : ∀ (i : Nat) s, db.bins[i]? = some s → s.geom.dim ∉ dims → db'.bins[i]? = some s
  grows : ∀ f v, indexMap db.index f = some v → indexMap db'.index f = some v
  config : db'.config = db.config

theorem Outside.refl (db : GravelDB) : Outside [] db db :=
  ⟨fun _ _ hb _ => hb,fun _ _ hf => hf,rfl⟩

theorem Outside.cons (h : Outside [dim] db db')
    (h' : Outside dims db' db'') : Outside (dim :: dims) db db'' := by
  refine ⟨?_,fun f v hf => h'.grows f v (h.grows f v hf),h'.config.trans h.config⟩
  intro j b hb hd
  rw [mem_cons,not_or] at hd
  exact h'.bins j b (h.bins j b hb (by simpa using hd.1)) hd.2

theorem Touched.outside (h : Touched i n db db') (hbin : db.bins[i]? = some s) :
    Outside [s.geom.dim] db db' := by
  refine ⟨?_,h.grows,by rw [h.frame]⟩
  intro j b hb hd
  rw [h.others j (fun hji => ?_)]
  · exact hb
  · subst hji
    rw [hbin] at hb
    cases hb
    exact hd (mem_singleton.mpr rfl)

theorem Stale.outside {f : UInt64} (h : Stale i s db f) (ho : Outside dims db db')
    (hd : s.geom.dim ∉ dims) : Stale i s db' f := by
  obtain ⟨s',e,hbin,hf,hck,hmiss,hpages⟩ := h
  exact ⟨s',e,ho.bins i s' hbin (by rw [hpages.geom]; exact hd),ho.grows f _ hf,hck,hmiss,hpages⟩

structure SameDim (dim : Nat) (db db' : GravelDB) : Prop where
  found : dimRegistryFind db'.registry dim = dimRegistryFind db.registry dim
  bin : ∀ i, dimRegistryFind db.registry dim = some i → db'.bins[i]? = db.bins[i]?
  keys : ∀ i, dimRegistryFind db.registry dim = some i → ∀ f e,
    indexMap db'.index f = some (i,e) ↔ indexMap db.index f = some (i,e)
  config : db'.config = db.config
  dir : db'.dir = db.dir

theorem limitAt_congr (h : ∀ f e, indexMap db'.index f = some (i,e) ↔ indexMap db.index f = some (i,e))
    (s : DimBin) : limitAt db' i s = limitAt db i s := by
  have hheld : (limitAt db' i s).held = (limitAt db i s).held := by
    funext f
    rw [Bool.eq_iff_iff]
    have hiff : ∀ db, (limitAt db i s).held f = true ↔
        ∃ e, indexMap db.index f = some (i,e) ∧ overlayHolds s e = true := by
      intro db
      simp only [limitAt]
      cases indexMap db.index f with
      | none => simp
      | some v =>
        obtain ⟨j,e⟩ := v
        simp only [Bool.and_eq_true,decide_eq_true_eq,Option.some.injEq,Prod.mk.injEq]
        constructor
        · rintro ⟨rfl,he⟩
          exact ⟨e,⟨rfl,rfl⟩,he⟩
        · rintro ⟨x,⟨rfl,rfl⟩,he⟩
          exact ⟨rfl,he⟩
    rw [hiff,hiff]
    exact exists_congr fun e => and_congr_left fun _ => h f e
  unfold limitAt at hheld ⊢
  simp only [Limit.mk.injEq,true_and]
  exact hheld

theorem SameDim.limitOf (h : SameDim dim db db') : limitOf db' dim = limitOf db dim := by
  simp only [StoreRefinement.limitOf,h.found]
  cases hi : dimRegistryFind db.registry dim with
  | none => rfl
  | some i =>
    simp only [bind_eq_bind,bind_some,h.bin i hi]
    cases db.bins[i]? with
    | none => rfl
    | some s => simp only [bind_some,limitAt_congr (h.keys i hi)]

theorem SameDim.dimRoom (h : SameDim dim db db') (hroom : DimRoom db dim n) : DimRoom db' dim n := by
  unfold DimRoom at hroom ⊢
  rw [h.found,h.config,h.dir]
  refine ⟨hroom.1,?_⟩
  cases hi : dimRegistryFind db.registry dim with
  | none =>
    rw [hi] at hroom
    exact hroom.2
  | some i =>
    rw [hi] at hroom
    simp only [h.bin i hi]
    exact hroom.2

theorem sameDim_touched (hreg : RegRep reg dims) (hdb : db.registry = reg) (hi : dims[i]? = some n)
    (h : Touched i k db db') (hpos : 0 < dim) (hne : dim ≠ n) : SameDim dim db db' := by
  have hother : ∀ j, dimRegistryFind db.registry dim = some j → j ≠ i := by
    rintro j hj rfl
    rw [hdb] at hj
    rw [(hreg.find hpos).mp hj] at hi
    exact hne (Option.some.inj hi)
  refine ⟨by rw [h.frame],fun j hj => h.others j (hother j hj),?_,by rw [h.frame],
    by rw [h.frame]⟩
  intro j hj f e
  exact ⟨fun hf => (h.mine f j e hf).resolve_right (hother j hj),fun hf => h.grows f _ hf⟩

theorem sameDim_created {new : Nat} (hreg : RegRep db.registry dims)
    (hreg' : RegRep reg (dims ++ [new])) (hlen : dims.length = db.bins.length)
    (hdb' : db' = { db with registry := reg, bins := db.bins ++ [s] }) (hpos : 0 < dim)
    (hne : dim ≠ new) : SameDim dim db db' := by
  have hsome : ∀ j, dimRegistryFind reg dim = some j ↔ dimRegistryFind db.registry dim = some j := by
    intro j
    rw [hreg.find hpos,hreg'.find hpos,getElem?_append]
    split_ifs with hj
    · exact Iff.rfl
    · rw [getElem?_singleton,getElem?_eq_none (Nat.le_of_not_lt hj)]
      split_ifs
      · simp [Ne.symm hne]
      · simp
  subst hdb'
  refine ⟨Option.ext hsome,?_,fun _ _ _ _ => Iff.rfl,rfl,rfl⟩
  intro j hj
  have hlt := (List.getElem?_eq_some_iff.mp ((hreg.find hpos).mp hj)).1
  exact getElem?_append_left (by omega)

def LeftStale (dims : List Nat) (db db' : GravelDB) (before after : List UInt64) : Prop :=
  ∀ f ∈ after, f ∈ before ∨
    ∃ i s, db.bins[i]? = some s ∧ s.geom.dim ∈ dims ∧ Stale i s db' f

structure GroupsReady (limits : Nat → Option Limit) (db : GravelDB) (st : VectorStore)
    (groups : List (Nat × List PutItem)) : Prop where
  distinct : (groups.map Prod.fst).Nodup
  dims : ∀ g ∈ groups, ∀ item ∈ g.2, item.dim = g.1
  room : ∀ g ∈ groups, DimRoom db g.1 g.2.length
  index : IndexRoom db.index (groups.map (fun g => g.2.length)).sum
  count : st.dims.length + groups.length ≤ 24576
  limits : ∀ g ∈ groups, limits g.1 = limitOf db g.1

theorem GroupsReady.tail {st' : VectorStore} {g : Nat × List PutItem}
    (h : GroupsReady limits db st (g :: groups))
    (hsame : ∀ dim, 0 < dim → dim ≠ g.1 → SameDim dim db db')
    (hcap : db'.index.capacity = db.index.capacity)
    (hcount : db'.index.count ≤ db.index.count + g.2.length)
    (hdims : st'.dims.length ≤ st.dims.length + 1) : GroupsReady limits db' st' groups := by
  have hnot := (nodup_cons.mp h.distinct).1
  have hother : ∀ x ∈ groups, SameDim x.1 db db' := fun x hx =>
    hsame x.1 (h.room x (mem_cons_of_mem _ hx)).1
      (fun he => hnot (he ▸ List.mem_map_of_mem hx))
  obtain ⟨hroom,hload⟩ := h.index
  have hlen := h.count
  rw [map_cons,sum_cons] at hload
  rw [length_cons] at hlen
  refine ⟨(nodup_cons.mp h.distinct).2,fun x hx => h.dims x (mem_cons_of_mem _ hx),
    fun x hx => (hother x hx).dimRoom (h.room x (mem_cons_of_mem _ hx)),?_,by omega,?_⟩
  · exact ⟨by omega,by rw [hcap]; omega⟩
  · intro x hx
    rw [(hother x hx).limitOf]
    exact h.limits x (mem_cons_of_mem _ hx)

structure GroupDone (dim n : Nat) (db : GravelDB) (l : Ledger) (db' : GravelDB) (l' : Ledger) :
    Prop where
  settles : Settles (· ∈ l'.refused) db' l'.st
  outside : Outside [dim] db db'
  back : ∀ (j : Nat) b, db'.bins[j]? = some b → b.geom.dim ≠ dim → db.bins[j]? = some b
  same : ∀ d, 0 < d → d ≠ dim → SameDim d db db'
  capacity : db'.index.capacity = db.index.capacity
  count : db'.index.count ≤ db.index.count + n
  dims : l'.st.dims.length ≤ l.st.dims.length + 1
  stale : LeftStale [dim] db db' l.refused l'.refused
  legible : PlainDim db.config dim → (∀ s ∈ db.bins, Legible s) → ∀ s ∈ db'.bins, Legible s

theorem LeftStale.cons {after : List UInt64} (hdone : GroupDone dim n db l db' l')
    (hrest : LeftStale dims db' db'' l'.refused after) (hout : Outside dims db' db'')
    (hnot : dim ∉ dims) : LeftStale (dim :: dims) db db'' l.refused after := by
  intro f hf
  rcases hrest f hf with hf | ⟨i,s,hbin,hd,hstale⟩
  · rcases hdone.stale f hf with hf | ⟨i,s,hbin,hd,hstale⟩
    · exact .inl hf
    · rw [mem_singleton] at hd
      exact .inr ⟨i,s,hbin,by simp [hd],hstale.outside hout (by rw [hd]; exact hnot)⟩
  · refine .inr ⟨i,s,hdone.back i s hbin ?_,mem_cons_of_mem _ hd,hstale⟩
    rintro rfl
    exact hnot hd

theorem StoreRep.bin_of_dim (h : Settles lost db st) (hi : st.dims[i]? = some dim) :
    ∃ s, db.bins[i]? = some s ∧ s.geom.dim = dim := by
  rw [← h.dims,getElem?_map] at hi
  cases hbin : db.bins[i]? with
  | none => simp [hbin] at hi
  | some s =>
    rw [hbin] at hi
    exact ⟨s,rfl,Option.some.inj hi⟩

theorem StoreRep.knownGroup (h : Settles (· ∈ l.refused) db l.st) (hpos : 0 < dim)
    (hi : l.st.dims[i]? = some dim) (hbin : db.bins[i]? = some s)
    (hdims : ∀ item ∈ items, item.dim = dim) (hroom : GroupRoom s items.length)
    (hindex : IndexRoom db.index items.length) :
    ∃ db', Gravel.putGroup db i l.rc items = some (db',(l.putGroup (limitOf db dim) items).rc) ∧
      GroupDone dim items.length db l db' (l.putGroup (limitOf db dim) items) := by
  have hfind := (h.registry.find hpos).mpr hi
  have hdim : s.geom.dim = dim := by
    have hd := h.dim_eq hbin
    rw [hi] at hd
    exact (Option.some.inj hd).symm
  have hlimit : limitOf db dim = if s.inCheckpoint then some (limitAt db i s) else none := by
    simp [limitOf,hfind,hbin]
  obtain ⟨db',hput,hrep,htouch,⟨s',hbin',hlegible⟩,hstale⟩ :=
    h.putKnown hbin (fun x hx => (hdims x hx).trans hdim.symm) hroom hindex rfl
  rw [← hlimit] at hput hrep hstale
  have hsame := Ledger.putGroup_dims (limitOf db dim) l items
  have hout := htouch.outside hbin
  rw [hdim] at hout
  refine ⟨db',hput,hrep,hout,?_,fun d hd hne => sameDim_touched h.registry rfl hi htouch hd hne,
    htouch.capacity,htouch.count,by rw [hsame]; exact Nat.le_succ _,?_,?_⟩
  · intro j b hb hne
    rw [← htouch.others j ?_]
    · exact hb
    · rintro rfl
      have hd := hrep.dim_eq hb
      rw [hsame,hi] at hd
      exact hne (Option.some.inj hd).symm
  · intro f hf
    exact (hstale f hf).imp_right fun hf => ⟨i,s,hbin,by simp [hdim],hf⟩
  · intro _ hall b hb
    obtain ⟨j,hb⟩ := mem_iff_getElem?.mp hb
    by_cases hj : j = i
    · subst hj
      rw [hbin'] at hb
      cases hb
      exact hlegible (hall s (mem_of_getElem? hbin))
    · rw [htouch.others j hj] at hb
      exact hall b (mem_of_getElem? hb)

theorem SameDim.trans (h : SameDim dim db db') (h' : SameDim dim db' db'') :
    SameDim dim db db'' := by
  refine ⟨h'.found.trans h.found,?_,?_,h'.config.trans h.config,h'.dir.trans h.dir⟩
  · intro j hj
    exact (h'.bin j (h.found.trans hj)).trans (h.bin j hj)
  · intro j hj f e
    exact (h'.keys j (h.found.trans hj) f e).trans (h.keys j hj f e)

theorem StoreRep.newGroup (h : Settles (· ∈ l.refused) db l.st) (hpos : 0 < dim)
    (hnew : dim ∉ l.st.dims) (hcount : l.st.dims.length < 24576)
    (hdims : ∀ item ∈ items, item.dim = dim) (hroom : CreateRoom db.config items.length dim)
    (hindex : IndexRoom db.index items.length) {l1 : Ledger}
    (hl1 : l1 = { l with st := { l.st with dims := l.st.dims ++ [dim] } })
    (hl' : l' = l1.putGroup none items) :
    ∃ db1 db', createAndRegisterBin db dim = some (db1,l.st.dims.length) ∧
      Gravel.putGroup db1 l.st.dims.length l.rc items = some (db',l'.rc) ∧
      GroupDone dim items.length db l db' l' := by
  obtain ⟨db1,s,hcreate,hset,hdb1,hgeom,hdim,hwrite,hck⟩ := StoreRep.create h hpos hnew hcount hroom
  have hlen : l.st.dims.length = db.bins.length := by rw [← h.dims,length_map]
  have hi : l1.st.dims[l.st.dims.length]? = some dim := by rw [hl1]; simp
  have hbin : db1.bins[l.st.dims.length]? = some s := by rw [hdb1,hlen]; simp
  have hindex1 : db1.index = db.index := by rw [hdb1]
  have hset1 : Settles (· ∈ l1.refused) db1 l1.st := by rw [hl1]; exact hset
  have hgroup : GroupRoom s items.length := by
    refine ⟨hwrite.1,?_⟩
    rw [if_neg (by simp [hck])]
    exact hwrite.2.2
  obtain ⟨db',hput,hdone⟩ := StoreRep.knownGroup hset1 hpos hi hbin hdims hgroup (hindex1 ▸ hindex)
  have hlimit : limitOf db1 dim = none := by
    simp [limitOf,(hset1.registry.find hpos).mpr hi,hbin,hck]
  rw [hlimit,← hl'] at hput hdone
  have hsame : ∀ d, 0 < d → d ≠ dim → SameDim d db db1 := fun d hd hne =>
    sameDim_created h.registry hset.registry hlen hdb1 hd hne
  refine ⟨db1,db',hcreate,by rw [← hput,hl1],hdone.settles,?_,?_,?_,?_,?_,?_,?_,?_⟩
  · refine ⟨fun j b hb hd => hdone.outside.bins j b ?_ hd,fun f v hf => ?_,?_⟩
    · rw [hdb1]
      exact (getElem?_append_left (List.getElem?_eq_some_iff.mp hb).1).trans hb
    · exact hdone.outside.grows f v (hindex1 ▸ hf)
    · rw [hdone.outside.config,hdb1]
  · intro j b hb hne
    have hb1 := hdone.back j b hb hne
    rw [hdb1] at hb1
    simp only at hb1
    rcases Nat.lt_or_ge j db.bins.length with hlt | hge
    · rwa [getElem?_append_left hlt] at hb1
    · rw [getElem?_append_right hge,getElem?_singleton] at hb1
      split_ifs at hb1
      cases hb1
      exact absurd hdim hne
  · exact fun d hd hne => (hsame d hd hne).trans (hdone.same d hd hne)
  · rw [hdone.capacity,hindex1]
  · rw [← hindex1]
    exact hdone.count
  · rw [hl',Ledger.putGroup_dims,hl1]
    simp
  · intro f hf
    rw [hl',hl1] at hf
    exact .inl hf
  · intro hplain hall
    refine hdone.legible (by rw [hdb1]; exact hplain) ?_
    rw [hdb1]
    intro b hb
    rcases mem_append.mp hb with hb | hb
    · exact hall b hb
    · rw [mem_singleton.mp hb]
      exact ⟨hplain s.geom hgeom,by simp [hck]⟩

structure BatchDone (dims : List Nat) (db : GravelDB) (l : Ledger) (db' : GravelDB) (l' : Ledger) :
    Prop where
  settles : Settles (· ∈ l'.refused) db' l'.st
  outside : Outside dims db db'
  stale : LeftStale dims db db' l.refused l'.refused
  legible : (∀ dim ∈ dims, PlainDim db.config dim) → (∀ s ∈ db.bins, Legible s) →
    ∀ s ∈ db'.bins, Legible s

theorem GroupDone.cons {l'' : Ledger} (hdone : GroupDone dim n db l db' l')
    (h : BatchDone dims db' l' db'' l'') (hnot : dim ∉ dims) :
    BatchDone (dim :: dims) db l db'' l'' := by
  refine ⟨h.settles,hdone.outside.cons h.outside,.cons hdone h.stale h.outside hnot,?_⟩
  intro hplain hall
  refine h.legible (fun d hd => ?_) (hdone.legible (hplain dim mem_cons_self) hall)
  rw [hdone.outside.config]
  exact hplain d (mem_cons_of_mem _ hd)

theorem StoreRep.putGroups (groups : List (Nat × List PutItem)) :
    ∀ (db : GravelDB) (l : Ledger), Settles (· ∈ l.refused) db l.st →
      GroupsReady limits db l.st groups → ∃ db', Gravel.putGroups db l.rc groups =
        some (db',(l.putGroups db.config.autoCreateBins limits groups).rc) ∧
      BatchDone (groups.map Prod.fst) db l db'
        (l.putGroups db.config.autoCreateBins limits groups) := by
  induction groups with
  | nil => exact fun db l h _ => ⟨db,rfl,h,.refl db,fun f hf => .inl hf,fun _ hall => hall⟩
  | cons g rest ih =>
    intro db l h hready
    obtain ⟨dim,items⟩ := g
    obtain ⟨hpos,hroom⟩ := hready.room _ mem_cons_self
    have hitems := hready.dims _ mem_cons_self
    have hlimit := hready.limits _ mem_cons_self
    have hnot := (nodup_cons.mp hready.distinct).1
    have hcount := hready.count
    simp only [length_cons] at hpos hroom hitems hlimit hnot hcount
    have hindex : IndexRoom db.index items.length := by
      obtain ⟨hcap,hload⟩ := hready.index
      rw [map_cons,sum_cons] at hload
      exact ⟨hcap,by simp only at hload; omega⟩
    -- once the first dim is done, the rest of the batch is as it was
    have hstep : ∀ db1 l1, GroupDone dim items.length db l db1 l1 →
        ∃ db', Gravel.putGroups db1 l1.rc rest =
          some (db',(l1.putGroups db.config.autoCreateBins limits rest).rc) ∧
        BatchDone (dim :: rest.map Prod.fst) db l db'
          (l1.putGroups db.config.autoCreateBins limits rest) := by
      intro db1 l1 hdone
      obtain ⟨db',hputs,hrest⟩ := ih db1 l1 hdone.settles
        (hready.tail hdone.same hdone.capacity hdone.count hdone.dims)
      rw [hdone.outside.config] at hputs hrest
      exact ⟨db',hputs,hdone.cons hrest hnot⟩
    by_cases hknown : dim ∈ l.st.dims
    · obtain ⟨i,hi⟩ := mem_iff_getElem?.mp hknown
      have hfind := (h.registry.find hpos).mpr hi
      obtain ⟨s,hbin,-⟩ := StoreRep.bin_of_dim h hi
      rw [hfind] at hroom
      obtain ⟨db1,hput,hdone⟩ := StoreRep.knownGroup h hpos hi hbin hitems (hroom s hbin) hindex
      rw [← hlimit] at hput hdone
      obtain ⟨db',hputs,hrest⟩ := hstep db1 _ hdone
      rw [Ledger.putGroups,if_pos hknown]
      refine ⟨db',?_,hrest⟩
      simp only [Gravel.putGroups,resolveBin,hfind,bind_eq_bind,bind_some,hput]
      exact hputs
    · have hfind := (h.registry.find_none hpos).mpr hknown
      rw [hfind] at hroom
      rw [Ledger.putGroups,if_neg hknown]
      by_cases hauto : db.config.autoCreateBins = true
      · rw [if_pos hauto]
        obtain ⟨hopens,hmake⟩ := hroom hauto
        obtain ⟨db1,db2,hcreate,hput,hdone⟩ := StoreRep.newGroup h hpos hknown (by omega) hitems
          hmake hindex rfl rfl
        obtain ⟨db',hputs,hrest⟩ := hstep db2 _ hdone
        refine ⟨db',?_,hrest⟩
        simp only [Gravel.putGroups,resolveBin,hfind,hauto,hopens,Bool.and_true,if_true,hcreate,
          bind_eq_bind,bind_some,Option.pure_def,hput]
        rw [hauto] at hputs
        exact hputs
      · rw [if_neg hauto]
        refine ⟨db,?_,h,⟨fun _ _ hb _ => hb,fun _ _ hf => hf,rfl⟩,fun f hf => .inl hf,
          fun _ hall => hall⟩
        simp [Gravel.putGroups,resolveBin,hfind,hauto]

end Groups

def ledger (db : GravelDB) (st : VectorStore) (items : List PutItem) : Ledger :=
  Ledger.putGroups db.config.autoCreateBins (limitOf db) ⟨st,[],.ok⟩
    (Runs.runs PutItem.dim (sortByDim items))

/-- Room for a batch: for the vectors in the bins, for the ids in the index, and for the dims in the
registry. -/
structure BatchRoom (db : GravelDB) (items : List PutItem) : Prop where
  bins : ∀ item ∈ items, DimRoom db item.dim (items.filter (fun x => x.dim = item.dim)).length
  index : IndexRoom db.index items.length
  dims : db.bins.length + items.length ≤ 24576

section Batch

variable {db : GravelDB} {st : VectorStore} {items : List PutItem}

theorem BatchRoom.ready (h : BatchRoom db items) (hst : Holds db st) :
    GroupsReady (limitOf db) db st (Runs.runs PutItem.dim (sortByDim items)) := by
  obtain ⟨hasc,hmem⟩ := Runs.runs_ascending (Runs.pairwise_sort PutItem.dim items)
  have hperm : (sortByDim items).Perm items := perm_insertionSort _ _
  have hsum : ((Runs.runs PutItem.dim (sortByDim items)).map (fun g => g.2.length)).sum =
      items.length := by
    rw [← hperm.length_eq,← length_flatMap,Runs.runs_flatMap]
  refine ⟨hasc.imp (fun hlt => Nat.ne_of_lt hlt),
    fun g hg => (Runs.runs_key PutItem.dim _ g hg).2,?_,by rw [hsum]; exact h.index,?_,
    fun _ _ => rfl⟩
  · intro g hg
    obtain ⟨item,hitem,hdim⟩ := hmem g.1 (List.mem_map_of_mem hg)
    rw [Runs.runs_sort PutItem.dim items g hg,← hdim]
    exact h.bins item (hperm.mem_iff.mp hitem)
  · have hlen : st.dims.length = db.bins.length := by rw [← hst.dims,length_map]
    have hruns := Runs.length_runs_le PutItem.dim (sortByDim items)
    have hdims := h.dims
    rw [hperm.length_eq] at hruns
    omega

theorem graveldbBatchPut_ledger (h : Holds db st) (hroom : BatchRoom db items) :
    ∃ db', graveldbBatchPut db items = some (db',(ledger db st items).rc) ∧
      BatchDone ((Runs.runs PutItem.dim (sortByDim items)).map Prod.fst) db ⟨st,[],.ok⟩ db'
        (ledger db st items) :=
  StoreRep.putGroups _ db ⟨st,[],.ok⟩ (h.mono (fun _ hf => hf.elim)) (hroom.ready h)

end Batch

end Gravel.Proofs.StoreRefinement
