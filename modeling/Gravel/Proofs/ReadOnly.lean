import Gravel.Lib.RehashSlots
import Gravel.Proofs.ShortReads

namespace Gravel.Proofs.ReadOnly
open Rehash HashIndex BinRun Slots List Option

/-- Every batch of lookups returns with the store as it was, and the steps of two batches can be
taken in either order. -/
structure ReadsKeep (db : GravelDB) : Prop where
  unchanged : ∀ junk reqs, ∃ results, graveldbBatchGet db junk reqs = some (db,results)
  commute : ∀ req req',
    (do let (db,a) ← resolveGet db req
        let (db,b) ← resolveGet db req'
        return (db,a,b)) =
    (do let (db,b) ← resolveGet db req'
        let (db,a) ← resolveGet db req
        return (db,a,b))

structure FreshBin (s : DimBin) : Prop where
  idle : s.inCheckpoint = false
  capacity : 0 < s.writeBuf.capacity
  empty : ∀ j, (s.writeBuf.slots j).pageId = pageSlotEmpty

def Placed (n : Nat) (s : HashSlot) : Prop := s.featId = 0 ∨ s.dimIdx < n

structure FreshStore (db : GravelDB) : Prop where
  bins : ∀ s ∈ db.bins, FreshBin s
  index : AllSlots (Placed db.bins.length) db.index

section Open

variable {db db' : GravelDB} {s s' : DimBin} {i e : Nat} {f : UInt64} {idx idx' : HashIndex}
  {n size : Nat} {rc : Status} {dir : DataDir}

theorem placed_vacate (n : Nat) (s : HashSlot) : Placed n (hashLayout.vacate s) := .inl rfl

theorem placed_init (h : hashIndexInit n = some idx) (m : Nat) : AllSlots (Placed m) idx := by
  obtain ⟨cap,_,h⟩ := bind_eq_some_iff.mp h
  cases h
  exact ⟨fun _ => .inl rfl,fun o ho => by cases ho⟩

theorem placed_put (h : AllSlots (Placed n) idx) (hi : i < n)
    (hput : hashIndexPut idx f i e = some (idx',rc)) : AllSlots (Placed n) idx' := by
  unfold hashIndexPut at hput
  split_ifs at hput
  · cases hput
    exact h
  · obtain ⟨t,hstore,ht⟩ := bind_eq_some_iff.mp hput
    cases ht
    exact h.put (.inl rfl) (placed_vacate n) (fun _ _ => .inr hi) (.inr hi) hstore

theorem placed_get {found : Option (Nat × Nat)} (h : AllSlots (Placed n) idx)
    (hget : hashIndexGet idx f = some (idx',found)) :
    AllSlots (Placed n) idx' ∧ ∀ v ∈ found, v.1 < n := by
  unfold hashIndexGet at hget
  split_ifs at hget with hf
  · cases hget
    exact ⟨h,fun v hv => by cases hv⟩
  · obtain ⟨⟨t,r⟩,hfind,ht⟩ := bind_eq_some_iff.mp hget
    cases ht
    obtain ⟨hall,hr⟩ := h.get (placed_vacate n) hfind
    refine ⟨hall,fun v hv => ?_⟩
    obtain ⟨slot,hslot,rfl⟩ := map_eq_some_iff.mp hv
    rcases hr slot hslot with hzero | hlt
    · rw [mem_def.mp hslot] at hfind
      have hkey := get_key hfind
      simp only [hashLayout,hzero,↓reduceIte] at hkey
      cases hkey
    · exact hlt

theorem placed_remove (h : AllSlots (Placed n) idx)
    (hremove : hashIndexRemove idx f = some (idx',rc)) : AllSlots (Placed n) idx' := by
  unfold hashIndexRemove at hremove
  split_ifs at hremove
  · cases hremove
    exact h
  · obtain ⟨⟨t,found⟩,hdrop,ht⟩ := bind_eq_some_iff.mp hremove
    cases ht
    exact h.remove (placed_vacate n) hdrop

theorem FreshBin.init {g : Geometry} {data : File UInt8} {keys : File UInt64}
    (h : dimbinInit g size data keys = some s) : FreshBin s := by
  obtain ⟨cap,hcap,h⟩ := bind_eq_some_iff.mp h
  cases h
  refine ⟨rfl,?_,fun _ => rfl⟩
  have hmax : 0 < writeMax g size := by
    unfold writeMax
    split_ifs with hzero
    · decide
    · exact Nat.pos_of_ne_zero hzero
  have hle := (roundCapacity_spec 34 6 (by decide) hcap).2
  simp only
  omega

theorem FreshBin.free (h : FreshBin s) (hfree : dimbinFreeEntry s e = some s') : FreshBin s' := by
  rw [dimbinFreeEntry_eq hfree]
  exact ⟨h.idle,h.capacity,h.empty⟩

theorem FreshStore.set (h : FreshStore db) (hs : FreshBin s) (i : Nat) :
    FreshStore (modifyBin db i s) := by
  refine ⟨fun b hb => ?_,?_⟩
  · rcases mem_or_eq_of_mem_set hb with hb | rfl
    · exact h.bins b hb
    · exact hs
  · rw [modifyBin,length_set]
    exact h.index

theorem FreshStore.freeIn (h : FreshStore db) (hfree : Gravel.freeIn db i e = some db') :
    FreshStore db' ∧ db'.bins.length = db.bins.length := by
  obtain ⟨s,hs,hfree⟩ := bind_eq_some_iff.mp hfree
  obtain ⟨s',hs',hfree⟩ := bind_eq_some_iff.mp hfree
  cases hfree
  exact ⟨h.set ((h.bins s (mem_of_getElem? hs)).free hs') i,length_set⟩

theorem FreshStore.discardKey (h : FreshStore db) (hdiscard : Gravel.discardKey db i e = some db') :
    FreshStore db' ∧ db'.bins.length = db.bins.length := by
  obtain ⟨s,hs,hdiscard⟩ := bind_eq_some_iff.mp hdiscard
  have hb := h.bins s (mem_of_getElem? hs)
  have hput : FreshBin { s with keys := putKey s.keys e 0 } := ⟨hb.idle,hb.capacity,hb.empty⟩
  have hset : FreshStore (modifyBin db i { s with keys := putKey s.keys e 0 }) := h.set hput i
  obtain ⟨hfresh,hlen⟩ := hset.freeIn hdiscard
  exact ⟨hfresh,by rw [hlen,modifyBin,length_set]⟩

theorem FreshStore.withIndex (h : FreshStore db) (hidx : AllSlots (Placed db.bins.length) idx) :
    FreshStore { db with index := idx } := ⟨h.bins,hidx⟩

theorem FreshStore.rebuildEntry (h : FreshStore db) (hi : i < db.bins.length)
    (hentry : Gravel.rebuildEntry db i e f = some db') :
    FreshStore db' ∧ db'.bins.length = db.bins.length := by
  unfold Gravel.rebuildEntry at hentry
  split_ifs at hentry
  · exact h.freeIn hentry
  · obtain ⟨⟨index,found⟩,hget,hentry⟩ := bind_eq_some_iff.mp hentry
    obtain ⟨hindex,_⟩ := placed_get h.index hget
    cases found with
    | none =>
      obtain ⟨⟨index',rc⟩,hput,hentry⟩ := bind_eq_some_iff.mp hentry
      cases hentry
      exact ⟨h.withIndex (placed_put hindex hi hput),rfl⟩
    | some v =>
      simp only at hentry
      split_ifs at hentry
      · -- A key that another bin holds too is dropped from both.
        obtain ⟨db1,hdiscard,hentry⟩ := bind_eq_some_iff.mp hentry
        obtain ⟨⟨index',rc⟩,hremove,hentry⟩ := bind_eq_some_iff.mp hentry
        obtain ⟨h1,hlen1⟩ := (h.withIndex hindex).discardKey hdiscard
        obtain ⟨h2,hlen2⟩ := (h1.withIndex (placed_remove h1.index hremove)).discardKey hentry
        exact ⟨h2,hlen2.trans hlen1⟩
      · obtain ⟨⟨index',rc⟩,hput,hentry⟩ := bind_eq_some_iff.mp hentry
        cases hentry
        exact ⟨h.withIndex (placed_put hindex hi hput),rfl⟩

theorem FreshStore.rebuildEntries (l : List (Nat × UInt64)) : ∀ {db : GravelDB}, FreshStore db →
    i < db.bins.length → Gravel.rebuildEntries db i l = some db' →
    FreshStore db' ∧ db'.bins.length = db.bins.length := by
  induction l with
  | nil =>
    intro db h _ hrebuild
    cases hrebuild
    exact ⟨h,rfl⟩
  | cons a rest ih =>
    intro db h hi hrebuild
    obtain ⟨db1,hentry,hrebuild⟩ := bind_eq_some_iff.mp hrebuild
    obtain ⟨h1,hlen1⟩ := h.rebuildEntry hi hentry
    obtain ⟨h2,hlen2⟩ := ih h1 (by rw [hlen1]; exact hi) hrebuild
    exact ⟨h2,hlen2.trans hlen1⟩

theorem FreshStore.rebuildBins (l : List Nat) : ∀ {db : GravelDB}, FreshStore db →
    Gravel.rebuildBins db l = some db' → FreshStore db' := by
  induction l with
  | nil =>
    intro db h hrebuild
    cases hrebuild
    exact h
  | cons i rest ih =>
    intro db h hrebuild
    obtain ⟨s,hs,hrebuild⟩ := bind_eq_some_iff.mp hrebuild
    obtain ⟨db1,hentries,hrebuild⟩ := bind_eq_some_iff.mp hrebuild
    obtain ⟨hi,_⟩ := List.getElem?_eq_some_iff.mp hs
    exact ih (h.rebuildEntries _ hi hentries).1 hrebuild

theorem FreshStore.register {dim : Nat} {align ps : UInt32} {budget : Nat} (h : FreshStore db)
    (hbin : openBin dir dim size align ps budget = some s)
    (hreg : registerBin db dim s = some (db',i)) : FreshStore db' := by
  obtain ⟨g,_,hbin⟩ := bind_eq_some_iff.mp hbin
  obtain ⟨b,hinit,hbin⟩ := bind_eq_some_iff.mp hbin
  cases hbin
  have hb := FreshBin.init hinit
  obtain ⟨heq,hcases⟩ := registerBin_eq hreg
  rcases hcases with hcases | hcases
  · rw [heq,hcases]
    exact ⟨h.bins,h.index⟩
  · rw [heq,hcases]
    refine ⟨fun x hx => ?_,?_⟩
    · rcases mem_append.mp hx with hx | hx
      · exact h.bins x hx
      · rw [mem_singleton.mp hx]
        exact ⟨hb.idle,hb.capacity,hb.empty⟩
    · refine h.index.imp fun slot hslot => hslot.imp_right fun hlt => ?_
      rw [length_append]
      exact Nat.lt_add_right _ hlt

theorem open_fresh {config : GravelDBConfig}
    (h : graveldbOpen config dir = some db) : FreshStore db := by
  obtain ⟨index,hindex,h⟩ := bind_eq_some_iff.mp h
  obtain ⟨db1,hbins,h⟩ := bind_eq_some_iff.mp h
  obtain ⟨db2,hrebuild,h⟩ := bind_eq_some_iff.mp h
  cases h
  have h1 : FreshStore db1 :=
    openBins_invariant (fun h hbin hreg => FreshStore.register h hbin hreg)
      ⟨by simp,placed_init hindex _⟩ hbins
  have h2 := h1.rebuildBins _ hrebuild
  refine ⟨fun b hb => ?_,?_⟩
  · obtain ⟨s,hs,rfl⟩ := List.mem_map.mp hb
    have hs := h2.bins s hs
    unfold restoreGeneration
    split
    · exact ⟨hs.idle,hs.capacity,hs.empty⟩
    · exact hs
  · rw [length_map]
    exact h2.index

end Open

section Reads

variable {db : GravelDB} {s : DimBin}

theorem FreshBin.readEntry (h : FreshBin s) (e : Nat) (out : Nat → UInt8) :
    ∃ r, Gravel.readEntry s e out = some (s,r) := by
  obtain ⟨n,hn⟩ := Nat.exists_eq_succ_of_ne_zero (Nat.ne_of_gt h.capacity)
  have hfind : ∃ j, pagemapFind s.writeBuf.slots s.writeBuf.capacity (s.geom.pageOf e) = some j := by
    unfold pagemapFind
    rw [hn,LinearProbe.probe,if_pos (by simp [h.empty])]
    exact ⟨_,rfl⟩
  obtain ⟨j,hj⟩ := hfind
  have hread : ∃ r, readBuffered s e out = some r := by
    unfold readBuffered pagemapLookup
    rw [hj]
    simp only [bind_eq_bind,bind_some,Option.pure_def]
    split
    · exact ⟨_,rfl⟩
    · exact ⟨_,rfl⟩
  obtain ⟨r,hr⟩ := hread
  refine ⟨r,?_⟩
  simp [Gravel.readEntry,h.idle,hr]

theorem modifyBin_self {i : Nat} (h : db.bins[i]? = some s) : modifyBin db i s = db := by
  obtain ⟨hi,rfl⟩ := List.getElem?_eq_some_iff.mp h
  rw [modifyBin,set_getElem_self]

theorem hashIndexGet_still {idx : HashIndex} (ho : idx.old = none) (f : UInt64) :
    ∃ found, hashIndexGet idx f = some (idx,found) := by
  unfold hashIndexGet
  split_ifs
  · exact ⟨none,rfl⟩
  · obtain ⟨r,hr⟩ := get_still (L := hashLayout) ho f
    rw [hr]
    exact ⟨_,rfl⟩

theorem FreshStore.resolveGet (h : FreshStore db) (ho : db.index.old = none) (req : GetRequest) :
    ∃ a, Gravel.resolveGet db req = some (db,a) := by
  obtain ⟨found,hget⟩ := hashIndexGet_still ho req.featId
  cases found with
  | none =>
    refine ⟨(⟨0,req.out.getD (fun _ => 0)⟩,none),?_⟩
    simp only [Gravel.resolveGet,hget,bind_eq_bind,bind_some]
    rfl
  | some v =>
    obtain ⟨i,e⟩ := v
    have hi : i < db.bins.length := (placed_get h.index hget).2 _ rfl
    obtain ⟨s,hbin⟩ : ∃ s, db.bins[i]? = some s := ⟨_,getElem?_eq_getElem hi⟩
    cases hout : req.out with
    | none =>
      refine ⟨(⟨s.geom.dim,fun _ => 0⟩,none),?_⟩
      simp only [Gravel.resolveGet,hget,bind_eq_bind,bind_some,hbin,hout]
      rfl
    | some out =>
      obtain ⟨r,hr⟩ := (h.bins s (mem_of_getElem? hbin)).readEntry e out
      refine ⟨(r.result,r.read.map (fun e => (i,e))),?_⟩
      simp only [Gravel.resolveGet,hget,bind_eq_bind,bind_some,hbin,hout,hr]
      change some (modifyBin db i s,r.result,r.read.map (fun e => (i,e))) = _
      rw [modifyBin_self hbin]

theorem FreshStore.resolveGets (h : FreshStore db) (ho : db.index.old = none)
    (reqs : List GetRequest) : ∀ k, ∃ a, Gravel.resolveGets db k reqs = some (db,a) := by
  induction reqs with
  | nil => exact fun k => ⟨_,rfl⟩
  | cons req rest ih =>
    intro k
    obtain ⟨⟨result,read⟩,ha⟩ := h.resolveGet ho req
    obtain ⟨⟨results,reads⟩,hb⟩ := ih (k + 1)
    refine ⟨(result :: results,
      (read.map (fun r => (⟨k,r.1,r.2⟩ : DiskRead))).toList ++ reads),?_⟩
    simp only [Gravel.resolveGets,ha,hb,bind_eq_bind,bind_some]
    rfl

theorem not_rehashing {a : GetResult × Option (Nat × Nat)}
    (h : Gravel.resolveGet db ⟨1,none⟩ = some (db,a)) : db.index.old = none := by
  obtain ⟨⟨idx,found⟩,hget,hrest⟩ := bind_eq_some_iff.mp h
  have hidx : idx = db.index := by
    cases found with
    | none => exact congrArg (fun r => r.1.index) (Option.some.inj hrest)
    | some v =>
      obtain ⟨s,_,hrest⟩ := bind_eq_some_iff.mp hrest
      exact congrArg (fun r => r.1.index) (Option.some.inj hrest)
  subst hidx
  obtain ⟨⟨t,r⟩,hfind,ht⟩ := bind_eq_some_iff.mp hget
  cases ht
  exact rehashStep_moves (get_steps hfind)

/-- After `graveldb_open` lookups leave the store alone exactly if the index is not being
rehashed. -/
theorem reads_change_nothing_iff (config : GravelDBConfig) (dir : DataDir) (db : GravelDB)
    (hopen : graveldbOpen config dir = some db) : ReadsKeep db ↔ db.index.old = none := by
  have hfresh := open_fresh hopen
  constructor
  · intro h
    obtain ⟨results,hbatch⟩ := h.unchanged (fun _ => 0) [⟨1,none⟩]
    obtain ⟨⟨db1,_⟩,hgets,hbatch⟩ := bind_eq_some_iff.mp hbatch
    rw [show db1 = db from congrArg Prod.fst (Option.some.inj hbatch)] at hgets
    obtain ⟨⟨db2,_⟩,hget,hgets⟩ := bind_eq_some_iff.mp hgets
    rw [show db2 = db from congrArg Prod.fst (Option.some.inj hgets)] at hget
    exact not_rehashing hget
  · intro ho
    refine ⟨fun junk reqs => ?_,fun req req' => ?_⟩
    · obtain ⟨⟨results,reads⟩,ha⟩ := hfresh.resolveGets ho reqs 0
      exact ⟨_,by rw [graveldbBatchGet,ha]; rfl⟩
    · obtain ⟨a,ha⟩ := hfresh.resolveGet ho req
      obtain ⟨b,hb⟩ := hfresh.resolveGet ho req'
      simp only [ha,hb,bind_eq_bind,bind_some]

end Reads

def keysDir (n : Nat) : DataDir :=
  { emptyDir 4096 with bins := fun _ =>
      ⟨File.empty.extend 4096,File.empty.write 0 n (fun i => UInt64.ofNat (i + 1))⟩ }

/-- Three keys do not crowd an index of 16 slots. -/
theorem few_keys_read_only : ∃ db, graveldbOpen smallConfig (keysDir 3) = some db ∧ ReadsKeep db := by
  have hsome : (graveldbOpen smallConfig (keysDir 3)).isSome := by decide +kernel
  obtain ⟨db,hopen⟩ := isSome_iff_exists.mp hsome
  have hstill : (graveldbOpen smallConfig (keysDir 3)).all (fun db => db.index.old.isNone) = true := by
    decide +kernel
  rw [hopen] at hstill
  refine ⟨db,hopen,(reads_change_nothing_iff smallConfig (keysDir 3) db hopen).mpr ?_⟩
  exact isNone_iff_eq_none.mp hstill

/-- The thirteenth key makes the index grow; the first lookup after the open moves its entries. -/
theorem lookup_moves_index : ∃ db db' results, graveldbOpen smallConfig (keysDir 13) = some db ∧
    graveldbBatchGet db (fun _ => 0) [⟨1,none⟩] = some (db',results) ∧
    db.index.old.isSome = true ∧ db'.index.old = none ∧ ¬ ReadsKeep db := by
  have hsome : ((graveldbOpen smallConfig (keysDir 13)).bind (fun db =>
      (graveldbBatchGet db (fun _ => 0) [⟨1,none⟩]).map (fun r =>
        (db.index.old.isSome,r.1.index.old.isNone)))) = some (true,true) := by decide +kernel
  obtain ⟨db,hopen,hsome⟩ := bind_eq_some_iff.mp hsome
  obtain ⟨⟨db',results⟩,hget,hold⟩ := map_eq_some_iff.mp hsome
  obtain ⟨hbefore,hafter⟩ := Prod.mk.inj hold
  have hnone : db'.index.old = none := isNone_iff_eq_none.mp hafter
  refine ⟨db,db',results,hopen,hget,hbefore,hnone,fun hkeep => ?_⟩
  obtain ⟨results',hsame⟩ := hkeep.unchanged (fun _ => 0) [⟨1,none⟩]
  rw [hget] at hsame
  cases hsame
  rw [hnone] at hbefore
  cases hbefore

end Gravel.Proofs.ReadOnly
