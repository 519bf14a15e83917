import Gravel.Proofs.KeyMirror

namespace Gravel.Proofs.Rebuild
open HashIndex FlushPages BinRun KeyBuffer StoreSteps FlushFrames Slots KeyMirror
  List Option Function

section Within

variable {m : IndexMap} {T : Set (Nat × Nat)} {f : UInt64} {v : Nat × Nat}

open Classical in
noncomputable def within (m : IndexMap) (T : Set (Nat × Nat)) : IndexMap :=
  fun f => (m f).filter (fun v => v ∈ T)

theorem within_eq_some : within m T f = some v ↔ m f = some v ∧ v ∈ T := by
  simp [within,filter_eq_some_iff]

theorem within_eq_none (hf : m f = some v) (hv : v ∉ T) : within m T f = none := by
  cases h : within m T f with
  | none => rfl
  | some w =>
    obtain ⟨hw,hT⟩ := within_eq_some.mp h
    rw [hf] at hw
    cases hw
    exact absurd hT hv

theorem within_all (h : ∀ f v, m f = some v → v ∈ T) : within m T = m := by
  funext f
  cases hf : m f with
  | some v => exact within_eq_some.mpr ⟨hf,h f v hf⟩
  | none => simp [within,hf]

theorem within_insert_free (h : ∀ g, m g ≠ some v) : within m (insert v T) = within m T := by
  funext g
  refine Option.ext fun w => ?_
  rw [within_eq_some,within_eq_some,Set.mem_insert_iff]
  constructor
  · rintro ⟨hw,rfl | hT⟩
    · exact absurd hw (h g)
    · exact ⟨hw,hT⟩
  · rintro ⟨hw,hT⟩
    exact ⟨hw,.inr hT⟩

theorem within_insert_owner (hf : m f = some v) (huniq : ∀ g, m g = some v → g = f) :
    within m (insert v T) = update (within m T) f (some v) := by
  funext g
  by_cases hg : g = f
  · subst hg
    rw [update_self]
    exact within_eq_some.mpr ⟨hf,Set.mem_insert _ _⟩
  · rw [update_of_ne hg]
    refine Option.ext fun w => ?_
    rw [within_eq_some,within_eq_some,Set.mem_insert_iff]
    constructor
    · rintro ⟨hw,rfl | hT⟩
      · exact absurd (huniq g hw) hg
      · exact ⟨hw,hT⟩
    · rintro ⟨hw,hT⟩
      exact ⟨hw,.inr hT⟩

theorem liveCount_within_lt (hfin : {f | (m f).isSome}.Finite) (hf : m f = some v) (hv : v ∉ T) :
    liveCount (within m T) < liveCount m := by
  refine Set.ncard_lt_ncard ⟨?_,?_⟩ hfin
  · intro g hg
    obtain ⟨w,hw⟩ := isSome_iff_exists.mp hg
    have := (within_eq_some.mp hw).1
    simp [this]
  · intro hsub
    have hlive : f ∈ {f | (within m T f).isSome} := hsub (by simp [hf])
    simp [within_eq_none hf hv] at hlive

end Within

structure Target (m : IndexMap) (cap : Nat) : Prop where
  finite : {f | (m f).isSome}.Finite
  zero : m 0 = none
  unique : ∀ f g v, m f = some v → m g = some v → f = g
  load : liveCount m * 10 ≤ cap * 7
  calm : ∀ c < liveCount m, hashLayout.crowded c cap = false

structure Rebuilding (m : IndexMap) (cap : Nat) (T : Set (Nat × Nat)) (db : GravelDB) : Prop where
  index : Still db.index (within m T)
  capacity : db.index.capacity = cap

structure OthersKept (i size : Nat) (db db' : GravelDB) : Prop where
  others : ∀ j, j ≠ i → db'.bins[j]? = db.bins[j]?
  here : ∃ s, db'.bins[i]? = some s ∧ KeysInv s ∧ s.keyFileSize = size

section Loops

variable {m : IndexMap} {cap i e : Nat} {T : Set (Nat × Nat)} {f : UInt64} {db : GravelDB}
  {s : DimBin}

theorem rebuildEntry_spec (ht : Target m cap) (hr : Rebuilding m cap T db)
    (hs : db.bins[i]? = some s) (hkeys : KeysInv s) (he : e < s.keyFileSize) (hnew : (i,e) ∉ T)
    (hkey : ∀ g, g ≠ 0 → (f = g ↔ m g = some (i,e))) :
    ∃ db', rebuildEntry db i e f = some db' ∧ Rebuilding m cap (insert (i,e) T) db' ∧
      OthersKept i s.keyFileSize db db' := by
  by_cases hf : f = 0
  · subst hf
    obtain ⟨s',hbuf,hinv,_⟩ := dimbinBufKey_spec
      (s := { s with freeList := e :: s.freeList }) (hkeys.congr rfl rfl rfl) he 0
    have hfree : ∀ g, m g ≠ some (i,e) := by
      intro g hg
      have hg0 : g ≠ 0 := by
        rintro rfl
        rw [ht.zero] at hg
        cases hg
      exact hg0 ((hkey g hg0).mpr hg).symm
    refine ⟨modifyBin db i s',?_,⟨?_,hr.capacity⟩,?_,s',StoreSteps.modifyBin_self hs s',hinv,
      by rw [dimbinBufKey_eq hbuf]⟩
    · simp only [rebuildEntry,freeIn,dimbinFreeEntry,if_true,hs,hbuf,bind_eq_bind,
        bind_some]
      rfl
    · rw [within_insert_free hfree]
      exact hr.index
    · intro j hj
      exact getElem?_set_ne (Ne.symm hj)
  · have hlive := (hkey f hf).mp rfl
    have hlt := liveCount_within_lt ht.finite hlive hnew
    rw [← hr.index.tracks.count] at hlt
    have hload := ht.load
    obtain ⟨idx,hput,hstill,hcap⟩ := hr.index.put hf (by rw [hr.capacity]; omega)
      (by rw [hr.capacity]; exact ht.calm _ hlt) i e
    refine ⟨{ db with index := idx },?_,⟨?_,hcap.trans hr.capacity⟩,fun _ _ => rfl,
      s,hs,hkeys,rfl⟩
    · simp only [rebuildEntry,if_neg hf,hr.index.get hf,within_eq_none hlive hnew,hput,
        bind_eq_bind,bind_some]
      rfl
    · rw [within_insert_owner hlive (fun g hg => ht.unique g f _ hg hlive)]
      exact hstill

theorem rebuildEntries_spec (ht : Target m cap) (l : List (Nat × UInt64)) :
    ∀ (T : Set (Nat × Nat)) (db : GravelDB) (s : DimBin), Rebuilding m cap T db →
    db.bins[i]? = some s → KeysInv s → (∀ kv ∈ l, kv.1 < s.keyFileSize) →
    (l.map Prod.fst).Nodup → (∀ kv ∈ l, (i,kv.1) ∉ T) →
    (∀ kv ∈ l, ∀ g, g ≠ 0 → (kv.2 = g ↔ m g = some (i,kv.1))) →
    ∃ db', rebuildEntries db i l = some db' ∧
      Rebuilding m cap (T ∪ {v | v.1 = i ∧ v.2 ∈ l.map Prod.fst}) db' ∧
      OthersKept i s.keyFileSize db db' := by
  induction l with
  | nil =>
    intro T db s hr hs hkeys _ _ _ _
    refine ⟨db,rfl,?_,fun _ _ => rfl,s,hs,hkeys,rfl⟩
    simpa using hr
  | cons kv rest ih =>
    intro T db s hr hs hkeys hlt hnd hnew hkey
    obtain ⟨e,f⟩ := kv
    obtain ⟨hnot,hnd⟩ := nodup_cons.mp hnd
    obtain ⟨db1,hentry,hr1,hkept,s1,hs1,hkeys1,hsize1⟩ := rebuildEntry_spec ht hr hs hkeys
      (hlt _ mem_cons_self) (hnew _ mem_cons_self) (hkey _ mem_cons_self)
    have hlt1 : ∀ kv ∈ rest, kv.1 < s1.keyFileSize := by
      intro kv hkv
      rw [hsize1]
      exact hlt kv (mem_cons_of_mem _ hkv)
    have hnew1 : ∀ kv ∈ rest, (i,kv.1) ∉ insert (i,e) T := by
      intro kv hkv hmem
      rcases hmem with heq | hmem
      · obtain rfl : kv.1 = e := (Prod.mk.inj heq).2
        exact hnot (List.mem_map.mpr ⟨kv,hkv,rfl⟩)
      · exact hnew kv (mem_cons_of_mem _ hkv) hmem
    obtain ⟨db2,hrest,hr2,hkept2,hhere2⟩ := ih (insert (i,e) T) db1 s1 hr1 hs1 hkeys1 hlt1 hnd
      hnew1 (fun kv hkv => hkey kv (mem_cons_of_mem _ hkv))
    refine ⟨db2,?_,?_,fun j hj => (hkept2 j hj).trans (hkept j hj),?_⟩
    · simp only [rebuildEntries,hentry,bind_eq_bind,bind_some]
      exact hrest
    · have hset : insert (i,e) T ∪ {v | v.1 = i ∧ v.2 ∈ rest.map Prod.fst} =
          T ∪ {v | v.1 = i ∧ v.2 ∈ ((e,f) :: rest).map Prod.fst} := by
        ext ⟨a,b⟩
        simp only [Set.mem_union,Set.mem_insert_iff,Set.mem_ofPred_eq,Prod.mk.injEq,
          map_cons,mem_cons]
        tauto
      rw [← hset]
      exact hr2
    · rw [← hsize1]
      exact hhere2

structure KeysOnDisk (m : IndexMap) (i : Nat) (s : DimBin) : Prop where
  inv : KeysInv s
  file : s.keys.size ≤ s.keyFileSize
  cells : ∀ e < min s.bumpPtr s.keys.size, ∀ g, g ≠ 0 → (s.keys.cell e = g ↔ m g = some (i,e))

def readSlots (bins : List DimBin) (l : List Nat) : Set (Nat × Nat) :=
  {v | v.1 ∈ l ∧ ∃ s, bins[v.1]? = some s ∧ v.2 < min s.bumpPtr s.keys.size}

theorem rebuildBins_spec {bins : List DimBin} (ht : Target m cap)
    (hdisk : ∀ (i : Nat) s, bins[i]? = some s → KeysOnDisk m i s) (l : List Nat) :
    ∀ (T : Set (Nat × Nat)) (db : GravelDB), Rebuilding m cap T db → l.Nodup →
    (∀ i ∈ l, i < bins.length ∧ db.bins[i]? = bins[i]?) → (∀ i ∈ l, ∀ e, (i,e) ∉ T) →
    ∃ db', rebuildBins db l = some db' ∧ Rebuilding m cap (T ∪ readSlots bins l) db' := by
  induction l with
  | nil =>
    intro T db hr _ _ _
    exact ⟨db,rfl,by simpa [readSlots] using hr⟩
  | cons i rest ih =>
    intro T db hr hnd hbins hnew
    obtain ⟨hnot,hnd⟩ := nodup_cons.mp hnd
    obtain ⟨hlen,hsame⟩ := hbins i mem_cons_self
    obtain ⟨s,hs⟩ : ∃ s, bins[i]? = some s := ⟨_,getElem?_eq_getElem hlen⟩
    have hd := hdisk i s hs
    have hfst : (readKeys s).map Prod.fst = List.range (min s.bumpPtr s.keys.size) := by
      simp [readKeys,comp_def]
    have hmem : ∀ kv ∈ readKeys s, kv.1 < min s.bumpPtr s.keys.size ∧ kv.2 = s.keys.cell kv.1 := by
      intro kv hkv
      obtain ⟨e,he,rfl⟩ := List.mem_map.mp hkv
      exact ⟨mem_range.mp he,rfl⟩
    obtain ⟨db1,hentries,hr1,hkept,_⟩ := rebuildEntries_spec ht (readKeys s) T db s hr
      (hsame.trans hs) hd.inv
      (fun kv hkv => by have := (hmem kv hkv).1; have := hd.file; omega)
      (by rw [hfst]; exact nodup_range)
      (fun kv _ => hnew i mem_cons_self kv.1)
      (fun kv hkv g hg => by rw [(hmem kv hkv).2]; exact hd.cells kv.1 (hmem kv hkv).1 g hg)
    rw [hfst] at hr1
    have hbins1 : ∀ j ∈ rest, j < bins.length ∧ db1.bins[j]? = bins[j]? := by
      intro j hj
      have hji : j ≠ i := fun h => hnot (h ▸ hj)
      obtain ⟨hlen',hsame'⟩ := hbins j (mem_cons_of_mem i hj)
      exact ⟨hlen',(hkept j hji).trans hsame'⟩
    have hnew1 : ∀ j ∈ rest, ∀ e, (j,e) ∉
        T ∪ {v | v.1 = i ∧ v.2 ∈ List.range (min s.bumpPtr s.keys.size)} := by
      intro j hj e hmem
      rcases hmem with hT | ⟨heq,_⟩
      · exact hnew j (mem_cons_of_mem i hj) e hT
      · exact hnot (heq ▸ hj)
    obtain ⟨db2,hrest,hr2⟩ := ih _ db1 hr1 hnd hbins1 hnew1
    refine ⟨db2,?_,?_⟩
    · simp only [rebuildBins,hsame.trans hs,hentries,bind_eq_bind,bind_some]
      exact hrest
    · have hset : T ∪ {v | v.1 = i ∧ v.2 ∈ List.range (min s.bumpPtr s.keys.size)} ∪
          readSlots bins rest = T ∪ readSlots bins (i :: rest) := by
        ext ⟨a,b⟩
        simp only [readSlots,Set.mem_union,Set.mem_ofPred_eq,mem_range,mem_cons]
        constructor
        · rintro ((hT | ⟨rfl,hb⟩) | ⟨ha,hb⟩)
          · exact .inl hT
          · exact .inr ⟨.inl rfl,s,hs,hb⟩
          · exact .inr ⟨.inr ha,hb⟩
        · rintro (hT | ⟨rfl | ha,hb⟩)
          · exact .inl (.inl hT)
          · obtain ⟨s',hs',hb⟩ := hb
            rw [hs] at hs'
            cases hs'
            exact .inl (.inr ⟨rfl,hb⟩)
          · exact .inr ⟨ha,hb⟩
      rw [← hset]
      exact hr2

end Loops

/-- A bin that is opened again on its files after its key buffer was written. -/
def Reopened (s s' : DimBin) : Prop :=
  ∃ size, dimbinInit s.geom size s.data (dimbinFlushKeys s).keys = some s'

section Reopen

variable {m : IndexMap} {cap i : Nat} {db : GravelDB} {s s' : DimBin} {bins : List DimBin}

theorem reopened_keys (h : BinKeys m i s) (hr : Reopened s s') :
    KeysOnDisk m i s' ∧ s.bumpPtr ≤ min s'.bumpPtr s'.keys.size := by
  obtain ⟨size,hinit⟩ := hr
  obtain ⟨hinv,hkeys,hsize,_,_,_,hbump,_⟩ := init_keys hinit
  obtain ⟨hflushed,hnil,hkey⟩ := dimbinFlushKeys_spec h.inv
  have hfile : s.bumpPtr ≤ (dimbinFlushKeys s).keys.size := by
    have hf := hflushed.file
    rw [dimbinFlushKeys_eq s] at hf
    exact Nat.le_trans h.room hf
  have hdata : s.bumpPtr ≤ s.data.size / s.geom.entrySize := by
    have hpos : 0 < s.geom.entrySize := by
      have := s.geom.dim_pos
      have := s.geom.vector_le
      omega
    rw [Nat.le_div_iff_mul_le hpos]
    exact Nat.le_trans h.space h.file
  refine ⟨⟨hinv,by rw [hkeys,hsize],?_⟩,?_⟩
  · intro e _ g hg
    have hcell : s'.keys.cell e = keyAt s e := by
      rw [hkeys,← hkey e]
      simp only [keyAt,hnil,lookup_nil,getD_none]
    rw [hcell]
    exact h.mirror e g hg
  · rw [hbump,hkeys]
    omega

theorem rebuild_keys (h : KeyState cap db) {idx : HashIndex} {n : Nat}
    (hidx : hashIndexInit n = some idx) (hcap : idx.capacity = cap)
    (hbins : List.Forall₂ Reopened db.bins bins) :
    ∃ db', rebuildIndexFromKeys { db with index := idx, bins := bins } = some db' ∧
      indexMap db'.index = indexMap db.index := by
  have hindex := h.slots.index
  have ht : Target (indexMap db.index) cap := by
    refine ⟨hindex.tracks.finite,hindex.tracks.rep.zero,?_,?_,?_⟩
    · rintro f g ⟨i,e⟩ hf hg
      obtain ⟨s,hs⟩ : ∃ s, db.bins[i]? = some s :=
        ⟨_,getElem?_eq_getElem (h.slots.placed f i e hf)⟩
      exact (h.slots.bins i s hs).parts.unique f g e hf hg
    · rw [← hindex.tracks.count]
      exact h.calm.2
    · rw [← hindex.tracks.count,← h.calm.1]
      exact hindex.calm
  have hlen : db.bins.length = bins.length := hbins.length_eq
  have hpair : ∀ (i : Nat) s', bins[i]? = some s' → ∃ s, db.bins[i]? = some s ∧ Reopened s s' := by
    intro i s' hs'
    have hi := (List.getElem?_eq_some_iff.mp hs').1
    refine ⟨_,getElem?_eq_getElem (hlen ▸ hi),?_⟩
    have hget := hbins.get (hlen ▸ hi) hi
    rw [getElem?_eq_getElem hi] at hs'
    cases hs'
    exact hget
  have hdisk : ∀ (i : Nat) s', bins[i]? = some s' → KeysOnDisk (indexMap db.index) i s' := by
    intro i s' hs'
    obtain ⟨s,hs,hr⟩ := hpair i s' hs'
    exact (reopened_keys (h.keys i s hs) hr).1
  have hstill := Still.init hidx
  have hnone : within (indexMap db.index) ∅ = fun _ => none := by
    funext f
    simp [within]
  obtain ⟨db',hrebuild,hr⟩ := rebuildBins_spec ht hdisk (List.range bins.length) ∅
    { db with index := idx, bins := bins } ⟨by rw [hnone]; exact hstill,hcap⟩ nodup_range
    (fun i hi => ⟨mem_range.mp hi,rfl⟩) (by simp)
  refine ⟨db',hrebuild,?_⟩
  rw [hr.index.map_eq]
  refine within_all ?_
  rintro f ⟨i,e⟩ hf
  have hi := h.slots.placed f i e hf
  obtain ⟨s,hs⟩ : ∃ s, db.bins[i]? = some s := ⟨_,getElem?_eq_getElem hi⟩
  obtain ⟨s',hs'⟩ : ∃ s', bins[i]? = some s' := ⟨_,getElem?_eq_getElem (hlen ▸ hi)⟩
  obtain ⟨s1,hs1,hre⟩ := hpair i s' hs'
  rw [hs] at hs1
  cases hs1
  have hlow := (reopened_keys (h.keys i s hs) hre).2
  have he := (h.slots.bins i s hs).parts.owned_lt f e hf
  exact .inr ⟨mem_range.mpr (hlen ▸ hi),s',hs',Nat.lt_of_lt_of_le he hlow⟩

end Reopen

section Runs

variable {db : GravelDB} {cap : Nat}

theorem open_keys {config : GravelDBConfig} {ps : UInt32}
    (hopen : graveldbOpen config (emptyDir ps) = some db) : KeyState db.index.capacity db := by
  obtain ⟨index,hindex,hbins,hblank,heq⟩ := open_empty hopen
  have hkeys : StoreSlots db ∧ StoreKeys db := by
    have hempty : StoreKeys (unopenedStore config ps index) := by
      intro i s hs
      simp [unopenedStore] at hs
    have hstep : ∀ {db db' : GravelDB} {dim size i : Nat} {align ps : UInt32} {budget : Nat}
        {s : DimBin}, StoreSlots db ∧ StoreKeys db →
        openBin db.dir dim size align ps budget = some s →
        registerBin db dim s = some (db',i) → StoreSlots db' ∧ StoreKeys db' := by
      rintro db db' dim size i align ps budget s ⟨hslots,hkeys⟩ hbin hreg
      exact ⟨hslots.register (fun _ _ _ hm => .fresh (hslots.files dim) hbin hm) hreg,
        hkeys.register (.fresh (hslots.files dim) hbin (StoreSlots.unowned hslots)) hreg⟩
    exact openBins_invariant hstep ⟨unopened_slots hindex,hempty⟩ hbins
  refine ⟨hkeys.1,hkeys.2,?_,open_calm hopen,?_,?_⟩
  · rw [heq]
    rfl
  · rw [heq]
    exact init_capacity hindex
  · intro s hs
    rw [hblank s hs]
    exact Nat.zero_le _

def Writes : StoreOp → Prop
  | .get _ _ => False
  | .checkpoint => False
  | .checkpointStep _ => False
  | _ => True

def KeyCall (cap : Nat) (_ : Session) (op : StoreOp) (s' : Session) : Prop :=
  Writes op ∧ Uncrowded cap s'.db

theorem step_keys (s : Session) (op : StoreOp) (s' : Session) (h : KeyState cap s.db)
    (hcall : KeyCall cap s op s') (hstep : stepSession s op = some s') : KeyState cap s'.db := by
  obtain ⟨hop,hload⟩ := hcall
  have hflush : IsFlush op → KeyState cap s'.db :=
    fun hflush => h.flushed (isFlush_flushed hflush hstep)
  obtain ⟨⟨s1,answer⟩,happly,rfl⟩ := map_eq_some_iff.mp hstep
  cases op with
  | put items =>
    obtain ⟨⟨db,rc⟩,hput,happly⟩ := bind_eq_some_iff.mp happly
    cases happly
    exact h.putSteps (graveldbBatchPut_steps hput) hload
  | delete featIds =>
    obtain ⟨db,hdel,happly⟩ := bind_eq_some_iff.mp happly
    cases happly
    exact h.deleteSteps (graveldbBatchDelete_steps hdel)
  | flush => exact hflush trivial
  | flushSubmit useUring => exact hflush trivial
  | land flush write => exact hflush trivial
  | flushPoll flush => exact hflush trivial
  | get junk reqs => exact hop.elim
  | checkpoint => exact hop.elim
  | checkpointStep budget => exact hop.elim

structure KeysMirror (db : GravelDB) : Prop where
  nonzero : ∀ (i : Nat) s, db.bins[i]? = some s → ∀ e f, f ≠ 0 →
    (keyAt s e = f ↔ indexMap db.index f = some (i,e))
  zero : ∀ (i : Nat) s, db.bins[i]? = some s → ∀ e,
    (∀ f, indexMap db.index f ≠ some (i,e)) → keyAt s e = 0
  placed : ∀ f i e, indexMap db.index f = some (i,e) → f ≠ 0 ∧ i < db.bins.length

theorem keysMirror (h : KeyState cap db) : KeysMirror db := by
  refine ⟨fun i s hs => (h.keys i s hs).mirror,?_,?_⟩
  · intro i s hs e hfree
    by_contra hkey
    exact hfree _ (((h.keys i s hs).mirror e _ hkey).mp rfl)
  · intro f i e hf
    refine ⟨?_,h.slots.placed f i e hf⟩
    rintro rfl
    rw [h.slots.index.tracks.rep.zero] at hf
    cases hf

/-- After every call the key arrays mirror the index, and the index is found again from the key
files of the bins once they are flushed and the bins opened anew. -/
theorem keys_mirror_index (config : GravelDBConfig) (ps : UInt32) (db0 : GravelDB)
    (ops : List StoreOp) (s : Session) (hopen : graveldbOpen config (emptyDir ps) = some db0)
    (hcalls : Run.Along stepSession (KeyCall db0.index.capacity) ⟨db0,[]⟩ ops)
    (hrun : Run.run stepSession ⟨db0,[]⟩ ops = some s) :
    KeysMirror s.db ∧ ∀ idx bins, hashIndexInit (indexSlots config) = some idx →
      List.Forall₂ Reopened s.db.bins bins →
      ∃ db', rebuildIndexFromKeys { s.db with index := idx, bins := bins } = some db' ∧
        ∀ f, indexMap db'.index f = indexMap s.db.index f := by
  have h := Run.run_invariant step_keys ops ⟨db0,[]⟩ s (open_keys hopen) hcalls hrun
  refine ⟨keysMirror h,?_⟩
  intro idx bins hidx hbins
  obtain ⟨index,hindex,_,_,heq⟩ := open_empty hopen
  cases hidx.symm.trans hindex
  have hcap : idx.capacity = db0.index.capacity := by
    rw [heq]
    rfl
  obtain ⟨db',hrebuild,hmap⟩ := rebuild_keys h hidx hcap hbins
  exact ⟨db',hrebuild,fun f => congrFun hmap f⟩

instance : ∀ op, Decidable (Writes op)
  | .put _ => isTrue trivial
  | .delete _ => isTrue trivial
  | .flush => isTrue trivial
  | .flushSubmit _ => isTrue trivial
  | .land _ _ => isTrue trivial
  | .flushPoll _ => isTrue trivial
  | .get _ _ => isFalse id
  | .checkpoint => isFalse id
  | .checkpointStep _ => isFalse id

instance (cap : Nat) (s : Session) (op : StoreOp) (s' : Session) :
    Decidable (KeyCall cap s op s') :=
  inferInstanceAs (Decidable (_ ∧ _ ∧ (_ → _)))

def flushingRun : List StoreOp :=
  [.put [vectorOf 1,vectorOf 2,vectorOf 3],.flush,.delete [2],.flushSubmit true,.put [vectorOf 4],
    .land 0 0,.flushPoll 0,.delete [1],.flush,.put [vectorOf 2,vectorOf 5]]

def flushedSession : Session :=
  (Run.run stepSession ⟨smallStore,[]⟩ flushingRun).get (by decide +kernel)

def reopenBin (s : DimBin) : Option DimBin :=
  dimbinInit s.geom 64 s.data (dimbinFlushKeys s).keys

theorem forBins_reopened {bins bins' : List DimBin} (h : forBins reopenBin bins = some bins') :
    List.Forall₂ Reopened bins bins' := by
  refine forall₂_iff_get.mpr ⟨(forBins_length h).symm,?_⟩
  intro i hi hi'
  obtain ⟨s,hs,hre⟩ := forBins_get h (getElem?_eq_getElem hi')
  rw [getElem?_eq_getElem hi] at hs
  cases hs
  exact ⟨64,hre⟩

def reopenedBins : List DimBin := (forBins reopenBin flushedSession.db.bins).get (by decide +kernel)

theorem flushingRun_mirrored : Run.run stepSession ⟨smallStore,[]⟩ flushingRun = some flushedSession ∧
    KeysMirror flushedSession.db ∧
    ∃ db', rebuildIndexFromKeys
        { flushedSession.db with index := smallStore.index, bins := reopenedBins } = some db' ∧
      ∀ f, indexMap db'.index f = indexMap flushedSession.db.index f := by
  have hrun : Run.run stepSession ⟨smallStore,[]⟩ flushingRun = some flushedSession :=
    (some_get _).symm
  have hopen : graveldbOpen smallConfig (emptyDir 4096) = some smallStore :=
    (some_get _).symm
  obtain ⟨index,hindex,_,_,heq⟩ := open_empty hopen
  obtain ⟨hmirror,hrebuild⟩ := keys_mirror_index smallConfig 4096 smallStore flushingRun _ hopen
    (by decide +kernel) hrun
  refine ⟨hrun,hmirror,hrebuild _ _ ?_ (forBins_reopened (some_get _).symm)⟩
  rw [heq]
  exact hindex

end Runs

end Gravel.Proofs.Rebuild
