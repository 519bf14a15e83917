import Gravel.Proofs.BinEntries
import Gravel.Proofs.Slots

namespace Gravel.Proofs.KeyMirror
open Relation SlotPool File HashIndex BinRun KeyBuffer BinEntries BinFrames FlushFrames StoreSteps
  Slots List Option Function

section DataFile

variable {s : DimBin}

theorem preallocData_file {n : Nat} (hn : s.dataFileSize ≤ n) :
    s.dataFileSize ≤ (preallocData s n).dataFileSize ∧
      (preallocData s n).dataFileSize ≤ (preallocData s n).data.size :=
  ⟨hn,Nat.le_max_right _ _⟩

theorem reserveData_file (hfile : s.dataFileSize ≤ s.data.size) (required : Nat) :
    s.dataFileSize ≤ (reserveData s required).dataFileSize ∧
      (reserveData s required).dataFileSize ≤ (reserveData s required).data.size := by
  obtain ⟨hpos,hge⟩ := nextDataSize_ge s
  unfold reserveData
  split_ifs
  · exact preallocData_file (Nat.le_trans hge (doubleUntil_ge required required _ hpos).1)
  · exact ⟨Nat.le_refl _,hfile⟩

theorem growData_file (hfile : s.dataFileSize ≤ s.data.size) (required : Nat) :
    required ≤ (growData s required).dataFileSize ∧
      (growData s required).dataFileSize ≤ (growData s required).data.size := by
  obtain ⟨hpos,hge⟩ := nextDataSize_ge s
  simp only [growData]
  by_cases h : s.dataFileSize < required
  · simp only [if_pos h]
    refine ⟨?_,Nat.le_max_right _ _⟩
    simp only [preallocData]
    split_ifs <;> omega
  · simp only [if_neg h]
    exact ⟨Nat.le_of_not_lt h,hfile⟩

end DataFile

structure BinKeys (m : IndexMap) (i : Nat) (s : DimBin) : Prop where
  inv : KeysInv s
  room : s.bumpPtr ≤ s.keyFileSize
  space : s.bumpPtr * s.geom.entrySize ≤ s.dataFileSize
  file : s.dataFileSize ≤ s.data.size
  mirror : ∀ e f, f ≠ 0 → (keyAt s e = f ↔ m f = some (i,e))

section Bins

variable {m m' : IndexMap} {p : CkptProgress} {i e : Nat} {f : UInt64} {s s' : DimBin}

theorem BinKeys.congr (h : BinKeys m i s) (hm : ∀ f e, owners m' i f e ↔ owners m i f e) :
    BinKeys m' i s :=
  ⟨h.inv,h.room,h.space,h.file,fun e f hf => (h.mirror e f hf).trans (hm f e).symm⟩

theorem BinKeys.churn (h : BinKeys m i s) (hc : Churn s s') : BinKeys m i s' := by
  have heq := hc.frame
  obtain ⟨hinv,hkey⟩ := keysFlushed_spec h.inv hc.keys (by rw [heq])
  refine ⟨hinv,?_,?_,?_,?_⟩
  · rw [heq]
    exact h.room
  · rw [heq]
    exact h.space
  · refine Nat.le_trans ?_ hc.size
    rw [heq]
    exact h.file
  · intro e f hf
    rw [hkey e]
    exact h.mirror e f hf

theorem BinKeys.reserve (h : BinKeys m i s) (n : Nat) : BinKeys m i (dimbinReserve s n) := by
  obtain ⟨a,b,heq⟩ := dimbinReserve_eq s n
  obtain ⟨hinv,hge,hkey⟩ := keysInv_reserve h.inv n
  obtain ⟨hdata,hfile⟩ := reserveData_file h.file ((s.bumpPtr + n) * s.geom.entrySize)
  obtain ⟨c,hkeys⟩ := reserveKeys_eq (reserveData s ((s.bumpPtr + n) * s.geom.entrySize))
    (s.bumpPtr + n)
  have hsize : (dimbinReserve s n).dataFileSize =
      (reserveData s ((s.bumpPtr + n) * s.geom.entrySize)).dataFileSize := by
    rw [dimbinReserve,hkeys]
  have hcells : (dimbinReserve s n).data =
      (reserveData s ((s.bumpPtr + n) * s.geom.entrySize)).data := by
    rw [dimbinReserve,hkeys]
  have hbump : (dimbinReserve s n).bumpPtr = s.bumpPtr := by rw [heq]
  refine ⟨hinv,?_,?_,by rw [hsize,hcells]; exact hfile,?_⟩
  · rw [hbump]
    exact Nat.le_trans h.room hge
  · rw [hbump,hsize]
    refine Nat.le_trans ?_ hdata
    rw [heq]
    exact h.space
  · intro e f hf
    rw [hkey e]
    exact h.mirror e f hf

theorem BinKeys.alloc (h : BinKeys m i s) (hp : BinSlots m p i s) (hsmall : s.bumpPtr + 1 < 2 ^ 32)
    (halloc : dimbinAllocEntry s = (s',e)) : BinKeys m i s' ∧ e < s'.bumpPtr := by
  unfold dimbinAllocEntry at halloc
  cases hfree : s.freeList with
  | cons x rest =>
    simp only [hfree] at halloc
    cases halloc
    refine ⟨⟨h.inv.congr rfl rfl rfl,h.room,h.space,h.file,h.mirror⟩,?_⟩
    exact hp.parts.idle_lt e (by simp [hfree])
  | nil =>
    simp only [hfree] at halloc
    obtain ⟨hs',rfl⟩ := Prod.mk.inj halloc
    rw [← hfree,Nat.mod_eq_of_lt (Nat.lt_of_succ_lt hsmall),Nat.mod_eq_of_lt hsmall] at hs'
    rw [Nat.mod_eq_of_lt (Nat.lt_of_succ_lt hsmall)]
    obtain ⟨s1,hs1⟩ : ∃ s1, s1 = growData { s with bumpPtr := s.bumpPtr + 1 }
        ((s.bumpPtr + 1) * s.geom.entrySize) := ⟨_,rfl⟩
    obtain ⟨a,ha⟩ := growData_eq { s with bumpPtr := s.bumpPtr + 1 }
      ((s.bumpPtr + 1) * s.geom.entrySize)
    obtain ⟨hspace,hfile⟩ := growData_file (s := { s with bumpPtr := s.bumpPtr + 1 }) h.file
      ((s.bumpPtr + 1) * s.geom.entrySize)
    rw [← hs1] at hs' ha hspace hfile
    have hinv1 : KeysInv s1 := by
      rw [ha]
      exact h.inv.congr rfl rfl rfl
    obtain ⟨hinv,hroom,_,hkey⟩ := growKeys_spec hinv1 (s.bumpPtr + 1)
    have hgrow := growKeys_eq s1 (s.bumpPtr + 1)
    rw [hs'] at hinv hroom hkey hgrow
    have hbump : s'.bumpPtr = s.bumpPtr + 1 := by rw [hgrow,ha]
    refine ⟨⟨hinv,by rw [hbump]; exact hroom,?_,?_,?_⟩,by rw [hbump]; exact Nat.lt_succ_self _⟩
    · rw [hgrow]
      simp only
      rw [ha]
      rw [ha] at hspace
      exact hspace
    · rw [hgrow]
      exact hfile
    · intro x g hg
      rw [hkey x,ha]
      exact h.mirror x g hg

theorem BinKeys.bufKey (h : BinKeys m i s) (he : e < s.bumpPtr)
    (hbuf : dimbinBufKey s e f = some s')
    (hmirror : ∀ x g, g ≠ 0 → ((if x = e then f else keyAt s x) = g ↔ m' g = some (i,x))) :
    BinKeys m' i s' := by
  obtain ⟨s1,hbuf1,hinv,hkey⟩ := dimbinBufKey_spec h.inv (Nat.lt_of_lt_of_le he h.room) f
  cases hbuf.symm.trans hbuf1
  have heq := dimbinBufKey_eq hbuf
  refine ⟨hinv,by rw [heq]; exact h.room,by rw [heq]; exact h.space,by rw [heq]; exact h.file,?_⟩
  intro x g hg
  rw [hkey x]
  exact hmirror x g hg

theorem BinKeys.rewrite (h : BinKeys m i s) (hp : BinSlots m p i s) (hf : f ≠ 0)
    (hlive : m f = some (i,e)) (hbuf : dimbinBufKey s e f = some s') : BinKeys m i s' := by
  refine h.bufKey (hp.parts.owned_lt f e hlive) hbuf ?_
  intro x g hg
  rw [← h.mirror x g hg]
  split_ifs with hx
  · rw [hx,(h.mirror e f hf).mpr hlive]
  · exact Iff.rfl

theorem BinKeys.place (h : BinKeys m i s)
    (hp : BinSlots (update m f (some (i,e))) p i s) (hf : f ≠ 0) (hnone : m f = none)
    (he : e < s.bumpPtr) (hbuf : dimbinBufKey s e f = some s') :
    BinKeys (update m f (some (i,e))) i s' := by
  refine h.bufKey he hbuf ?_
  intro x g hg
  by_cases hgf : g = f
  · subst hgf
    have habsent : keyAt s x ≠ g := by
      intro hkey
      rw [h.mirror x g hg,hnone] at hkey
      cases hkey
    rw [update_self]
    split_ifs with hx
    · simp [hx]
    · simp [habsent,Ne.symm hx]
  · rw [update_of_ne hgf]
    split_ifs with hx
    · subst hx
      constructor
      · intro hfg
        exact absurd hfg.symm hgf
      · intro hlive
        exact hp.parts.unique f g x (by simp [owners]) (by simp [owners,hgf,hlive])
    · exact h.mirror x g hg

theorem BinKeys.free (h : BinKeys m i s) (hp : BinSlots m p i s) (hlive : m f = some (i,e))
    (hfree : dimbinFreeEntry s e = some s') : BinKeys (update m f none) i s' := by
  have h0 : BinKeys m i { s with freeList := e :: s.freeList } :=
    ⟨h.inv.congr rfl rfl rfl,h.room,h.space,h.file,h.mirror⟩
  refine h0.bufKey (hp.parts.owned_lt f e hlive) hfree ?_
  intro x g hg
  have hsame : keyAt { s with freeList := e :: s.freeList } x = keyAt s x := rfl
  rw [hsame]
  by_cases hgf : g = f
  · subst hgf
    rw [update_self]
    split_ifs with hx
    · simp [Ne.symm hg]
    · rw [h.mirror x g hg,hlive]
      simp [Ne.symm hx]
  · rw [update_of_ne hgf]
    split_ifs with hx
    · subst hx
      constructor
      · intro hzero
        exact absurd hzero.symm hg
      · intro hlive'
        exact absurd (hp.parts.unique g f x hlive' hlive) hgf
    · exact h.mirror x g hg

theorem init_keys {g : Geometry} {size : Nat} {data : File UInt8} {keys : File UInt64}
    (h : dimbinInit g size data keys = some s) :
    KeysInv s ∧ s.keys = keys ∧ s.keyFileSize = keys.size ∧ s.dataFileSize = data.size ∧
      s.data = data ∧ s.geom = g ∧ s.bumpPtr = min keys.size (data.size / g.entrySize) ∧
      ∀ e, keyAt s e = keys.cell e := by
  obtain ⟨cap,_,h⟩ := bind_eq_some_iff.mp h
  cases h
  have hbudget : keyBudget g size ≤ 2 ^ 24 := Nat.min_le_right _ _
  have hnil : kbtCollect (kbtInit (keyBudget g size)) = [] := rfl
  refine ⟨⟨kbtInit_inv hbudget,?_,keys.zero_past,Nat.le_refl _⟩,rfl,rfl,rfl,rfl,rfl,rfl,?_⟩
  · intro kv hkv
    rw [hnil] at hkv
    cases hkv
  · intro e
    simp only [keyAt,hnil,lookup_nil,getD_none]

theorem BinKeys.fresh {dir : DataDir} {dim size : Nat} {align ps : UInt32} {budget : Nat}
    (hfile : dir.bins dim = ⟨File.empty,File.empty⟩)
    (hopen : openBin dir dim size align ps budget = some s) (hm : ∀ f e, m f ≠ some (i,e)) :
    BinKeys m i s := by
  obtain ⟨g,_,hopen⟩ := bind_eq_some_iff.mp hopen
  obtain ⟨bin,hinit,hopen⟩ := bind_eq_some_iff.mp hopen
  cases hopen
  rw [hfile] at hinit
  obtain ⟨hinv,_,hsize,hdata,hcells,_,hbump,hkey⟩ := init_keys hinit
  have hzero : bin.bumpPtr = 0 := hbump.trans (Nat.zero_min _)
  refine ⟨hinv.congr rfl rfl rfl,?_,?_,?_,?_⟩
  · simp only [hzero]
    exact Nat.zero_le _
  · simp only [hzero]
    omega
  · simp only [hdata,hcells]
    exact Nat.le_refl _
  · intro e f hf
    have hblank : keyAt { bin with overlayBudget := budget } e = 0 := hkey e
    rw [hblank]
    exact ⟨fun h => absurd h.symm hf,fun h => absurd h (hm f e)⟩

end Bins

def StoreKeys (db : GravelDB) : Prop :=
  ∀ (i : Nat) s, db.bins[i]? = some s → BinKeys (indexMap db.index) i s

structure KeyState (cap : Nat) (db : GravelDB) : Prop where
  slots : StoreSlots db
  keys : StoreKeys db
  idle : db.ckptProgress.phase = .idle
  calm : Calm cap db
  small : cap ≤ 2 ^ 31
  low : ∀ s ∈ db.bins, s.bumpPtr ≤ 2 ^ 31

section Store

variable {db db' : GravelDB} {cap i : Nat} {s s' : DimBin}

theorem KeyState.bump_le (h : KeyState cap db) (hi : db.bins[i]? = some s)
    (hfree : s.freeList = []) : s.bumpPtr ≤ db.index.count := by
  have hbin := h.slots.bins i s hi
  have hparts := hbin.parts
  rw [hbin.quiet (hbin.unopened (.inl h.idle)),hfree] at hparts
  rw [h.slots.index.tracks.count]
  refine hparts.bump_le_ncard h.slots.index.tracks.finite ?_ ?_
  · intro f e hf
    simp only [Set.mem_ofPred_eq,owners] at hf ⊢
    rw [hf]
    rfl
  · intro f e e' hf hf'
    rw [owners,hf] at hf'
    cases hf'
    rfl

theorem KeyState.room (h : KeyState cap db) : db.index.count + 1 ≤ 2 ^ 31 := by
  have := h.calm.2
  have := h.small
  omega

theorem StoreKeys.set (h : StoreKeys db) {index : HashIndex} {f : UInt64} {v : Option (Nat × Nat)}
    (hm : indexMap index = update (indexMap db.index) f v)
    (hbin : BinKeys (update (indexMap db.index) f v) i s')
    (hold : ∀ j e, indexMap db.index f = some (j,e) → j = i)
    (hnew : ∀ j e, v = some (j,e) → j = i) :
    StoreKeys (modifyBin { db with index := index } i s') := by
  rw [← hm] at hbin
  refine forall_modifyBin hbin fun j b hij hb => (h j b hb).congr ?_
  simp only [modifyBin,hm]
  exact owners_other (fun e he => hij (hold j e he)) (fun e he => hij (hnew j e he))

theorem StoreKeys.one (h : StoreKeys db) (hbin : BinKeys (indexMap db.index) i s') :
    StoreKeys (modifyBin db i s') := by
  exact forall_modifyBin hbin fun j b _ => h j b

theorem StoreKeys.register {dim : Nat} (h : StoreKeys db)
    (hfresh : BinKeys (indexMap db.index) db.bins.length s)
    (hreg : registerBin db dim s = some (db',i)) : StoreKeys db' := by
  obtain ⟨heq,hbins⟩ := registerBin_eq hreg
  have hindex : db'.index = db.index := by rw [heq]
  intro j b hb
  rw [hindex]
  rcases hbins with hbins | hbins
  · rw [hbins] at hb
    exact h j b hb
  · rw [hbins] at hb
    rcases Nat.lt_or_ge j db.bins.length with hlt | hge
    · rw [getElem?_append_left hlt] at hb
      exact h j b hb
    · rw [getElem?_append_right hge,getElem?_singleton] at hb
      split_ifs at hb with hj
      cases hb
      obtain rfl : j = db.bins.length := by omega
      exact hfresh

theorem StoreSlots.unowned (h : StoreSlots db) (f : UInt64) (e : Nat) :
    indexMap db.index f ≠ some (db.bins.length,e) :=
  fun hf => Nat.lt_irrefl _ (h.placed f _ e hf)

theorem putStep_keys (h : KeyState cap db) (hstep : PutStep db db') (hcap : Calm cap db') :
    StoreKeys db' := by
  have hcapacity : db'.index.capacity = db.index.capacity := hcap.1.trans h.calm.1.symm
  have hload : db.index.count * 10 ≤ db.index.capacity * 7 := by
    rw [h.calm.1]
    exact h.calm.2
  have hsmall : ∀ s ∈ db.bins, s.bumpPtr + 1 < 2 ^ 32 := by
    intro s hs
    have := h.low s hs
    omega
  cases hstep with
  | look hf hget =>
    rw [h.slots.index.get hf] at hget
    cases hget
    exact h.keys
  | create hcreate =>
    obtain ⟨bin,hopen,hreg⟩ := bind_eq_some_iff.mp hcreate
    exact h.keys.register (.fresh (h.slots.files _) hopen (StoreSlots.unowned h.slots)) hreg
  | reserve hbin n => exact h.keys.one ((h.keys _ _ hbin).reserve n)
  | rewrite hf hget hbin hbuf =>
    rw [h.slots.index.get hf] at hget
    obtain ⟨rfl,hlive⟩ := Prod.mk.inj (Option.some.inj hget)
    exact h.keys.one ((h.keys _ _ hbin).rewrite (h.slots.bins _ _ hbin) hf hlive hbuf)
  | place hf hget hbin halloc hput hbuf =>
    rw [h.slots.index.get hf] at hget
    obtain ⟨rfl,hnone⟩ := Prod.mk.inj (Option.some.inj hget)
    have hroom := hsmall _ (mem_of_getElem? hbin)
    have hindex := h.slots.index.put_same hf hload hput hcapacity
    have hslots := (h.slots.bins _ _ hbin).alloc (Nat.lt_of_succ_lt hroom) halloc hnone
    obtain ⟨hkeys,he⟩ := (h.keys _ _ hbin).alloc (h.slots.bins _ _ hbin) hroom halloc
    refine h.keys.set hindex.map_eq (hkeys.place hslots hf hnone he hbuf) ?_ ?_
    · intro j x hold
      rw [hnone] at hold
      cases hold
    · rintro j x ⟨⟩
      rfl
  | write hbin hput =>
    have hck := (h.slots.bins _ _ hbin).unopened (.inl h.idle)
    exact h.keys.one ((h.keys _ _ hbin).churn (putBatch_churn hck hput))

theorem putStep_low (h : KeyState cap db) (hstep : PutStep db db') :
    db'.ckptProgress = db.ckptProgress ∧ ∀ s ∈ db'.bins, s.bumpPtr ≤ 2 ^ 31 := by
  have hset : ∀ {i : Nat} {s' : DimBin}, s'.bumpPtr ≤ 2 ^ 31 →
      ∀ b ∈ db.bins.set i s', b.bumpPtr ≤ 2 ^ 31 := by
    intro i s' hs' b hb
    rcases mem_or_eq_of_mem_set hb with hb | rfl
    · exact h.low b hb
    · exact hs'
  cases hstep with
  | look hf hget => exact ⟨rfl,h.low⟩
  | create hcreate =>
    obtain ⟨bin,hopen,hreg⟩ := bind_eq_some_iff.mp hcreate
    obtain ⟨heq,hbins⟩ := registerBin_eq hreg
    refine ⟨by rw [heq],?_⟩
    intro b hb
    rcases hbins with hbins | hbins
    · rw [hbins] at hb
      exact h.low b hb
    · rw [hbins] at hb
      rcases mem_append.mp hb with hb | hb
      · exact h.low b hb
      · rw [mem_singleton.mp hb,openBin_blank (h.slots.files _) hopen]
        exact Nat.zero_le _
  | reserve hbin n =>
    refine ⟨rfl,hset ?_⟩
    rw [(reserve_sameSlots _ n).bump]
    exact h.low _ (mem_of_getElem? hbin)
  | rewrite hf hget hbin hbuf =>
    refine ⟨rfl,hset ?_⟩
    rw [(bufKey_sameSlots hbuf).bump]
    exact h.low _ (mem_of_getElem? hbin)
  | place hf hget hbin halloc hput hbuf =>
    refine ⟨rfl,hset ?_⟩
    rw [(bufKey_sameSlots hbuf).bump]
    have hlow := h.low _ (mem_of_getElem? hbin)
    rcases alloc_slots halloc with ⟨rest,_,rfl⟩ | ⟨hfree,_,hsame⟩
    · exact hlow
    · -- No slot is recycled: the index has a key for each of them, and room for one more.
      rw [hsame.bump]
      exact Nat.le_trans (Nat.succ_le_succ (h.bump_le hbin hfree)) h.room
  | write hbin hput =>
    refine ⟨rfl,hset ?_⟩
    rw [(putBatch_sameSlots hput).bump]
    exact h.low _ (mem_of_getElem? hbin)

theorem KeyState.putStep (h : KeyState cap db) (hstep : PutStep db db') (hcalm : Calm cap db') :
    KeyState cap db' := by
  obtain ⟨hprogress,hlow⟩ := putStep_low h hstep
  have hslots : StoreSlots db' := by
    refine putStep_slots h.slots ?_ ?_ hstep (hcalm.1.trans h.calm.1.symm)
    · rw [h.calm.1]
      exact h.calm.2
    · intro s hs
      have := h.low s hs
      omega
  exact ⟨hslots,putStep_keys h hstep hcalm,by rw [hprogress]; exact h.idle,hcalm,h.small,hlow⟩

/-- At most seven tenths of the capacity are taken, which rules out a rehash up to `2 ^ 29` slots.
Beyond, the load test wraps, and that there was none is said as well. -/
def Uncrowded (cap : Nat) (db : GravelDB) : Prop :=
  db.index.count * 10 ≤ cap * 7 ∧ (2 ^ 29 < cap → db.index.capacity = cap)

theorem KeyState.putStep_capacity (h : KeyState cap db) (hstep : PutStep db db')
    (hcap : cap ≤ 2 ^ 29) : db'.index.capacity = cap := by
  obtain ⟨hc,hl⟩ := h.calm
  have hcalm : hashLayout.crowded db.index.count db.index.capacity = false := by
    have hcount : db.index.count * 10 % 2 ^ 32 = db.index.count * 10 :=
      Nat.mod_eq_of_lt (by omega)
    have hcapacity : db.index.capacity * 7 % 2 ^ 32 = db.index.capacity * 7 :=
      Nat.mod_eq_of_lt (by omega)
    simp only [hashLayout,hcount,hcapacity,decide_eq_false_iff_not]
    omega
  cases hstep with
  | look hf hget => exact (hashIndexGet_keeps hget).2.1.trans hc
  | create hcreate =>
    obtain ⟨bin,_,hreg⟩ := bind_eq_some_iff.mp hcreate
    rw [(registerBin_eq hreg).1]
    exact hc
  | reserve hbin n => exact hc
  | rewrite hf hget hbin hbuf => exact (hashIndexGet_keeps hget).2.1.trans hc
  | place hf hget hbin halloc hput hbuf =>
    rw [h.slots.index.get hf] at hget
    obtain ⟨rfl,_⟩ := Prod.mk.inj (Option.some.inj hget)
    have hkeep := (hashIndexPut_keeps hf hput).2 h.slots.index.old
    rw [hcalm] at hkeep
    exact hkeep.1.trans hc
  | write hbin hput => exact hc

theorem KeyState.putSteps (hsteps : ReflTransGen PutStep db db') (h : KeyState cap db)
    (hload : Uncrowded cap db') : KeyState cap db' := by
  induction hsteps using ReflTransGen.head_induction_on with
  | refl => exact h
  | head hstep hrest ih =>
    obtain ⟨hcount,hcap,hpow⟩ := putStep_index h.slots.pow hstep
    obtain ⟨hcount',hcap',_⟩ := putSteps_index hpow hrest
    obtain ⟨hl,hwide⟩ := hload
    have hc := h.calm.1
    refine ih (h.putStep hstep ⟨?_,by omega⟩)
    rcases Nat.lt_or_ge (2 ^ 29) cap with hbig | hsmall
    · have := hwide hbig
      omega
    · exact h.putStep_capacity hstep hsmall

theorem KeyState.deleteStep (h : KeyState cap db) (hstep : DeleteStep db db') :
    KeyState cap db' := by
  have hslots := deleteStep_slots h.slots hstep
  cases hstep with
  | look hf hget =>
    rw [h.slots.index.get hf] at hget
    obtain ⟨rfl,_⟩ := Prod.mk.inj (Option.some.inj hget)
    exact h
  | drop hf hget hbin hdrop hremove =>
    rw [h.slots.index.get hf] at hget
    obtain ⟨rfl,hlive⟩ := Prod.mk.inj (Option.some.inj hget)
    obtain ⟨index1,hremove1,hindex,hcap⟩ := h.slots.index.remove hf
    have hcount := (hashIndexRemove_keeps hremove).1
    rw [hremove1] at hremove
    cases hremove
    have hck := (h.slots.bins _ _ hbin).unopened (.inl h.idle)
    rw [dropEntry,if_neg (by rw [hck]; decide)] at hdrop
    refine ⟨hslots,?_,h.idle,⟨hcap.trans h.calm.1,?_⟩,h.small,?_⟩
    · refine h.keys.set hindex.map_eq ((h.keys _ _ hbin).free (h.slots.bins _ _ hbin) hlive hdrop)
        ?_ (by simp)
      intro j x hold
      rw [hlive] at hold
      cases hold
      rfl
    · have := h.calm.2
      simp only [modifyBin]
      omega
    · have hlow := h.low _ (mem_of_getElem? hbin)
      intro b hb
      rcases mem_or_eq_of_mem_set hb with hb | rfl
      · exact h.low b hb
      · rw [dimbinFreeEntry_eq hdrop]
        exact hlow

theorem KeyState.deleteSteps (hsteps : ReflTransGen DeleteStep db db') (h : KeyState cap db) :
    KeyState cap db' := by
  induction hsteps with
  | refl => exact h
  | tail _ hlast ih => exact ih.deleteStep hlast

theorem KeyState.flushed (h : KeyState cap db) (hf : Flushed db db') : KeyState cap db' := by
  have heq := hf.frame
  refine ⟨h.slots.flushed hf,?_,by rw [heq]; exact h.idle,by rw [heq]; exact h.calm,h.small,?_⟩
  · intro i s' hs'
    obtain ⟨s,hs,hchurn⟩ := hf.bins i s' hs'
    rw [heq]
    exact (h.keys i s hs).churn hchurn
  · intro s' hs'
    obtain ⟨i,hi⟩ := mem_iff_getElem?.mp hs'
    obtain ⟨s,hs,hchurn⟩ := hf.bins i s' hi
    rw [hchurn.sameSlots.bump]
    exact h.low s (mem_of_getElem? hs)

end Store

end Gravel.Proofs.KeyMirror
