import Gravel.Lib.Run
import Gravel.Lib.SlotPool
import Gravel.Proofs.ClientSteps
import Gravel.Proofs.FlushFrames

namespace Gravel.Proofs.Slots
open Relation SlotPool HashIndex BinRun BinFrames FlushFrames StoreSteps ClientSteps
  List Option Function

def owners (m : IndexMap) (i : Nat) : UInt64 → Nat → Prop := fun f e => m f = some (i,e)

def Unopened (p : CkptProgress) (i : Nat) : Prop :=
  p.phase = .idle ∨ (p.phase = .flushing ∧ p.currentBin ≤ i)

structure BinSlots (m : IndexMap) (p : CkptProgress) (i : Nat) (s : DimBin) : Prop where
  parts : Partition s.bumpPtr (s.overlay.tombstones ++ s.freeList) (owners m i)
  quiet : s.inCheckpoint = false → s.overlay.tombstones = []
  unopened : Unopened p i → s.inCheckpoint = false

/-- A store whose index has never grown, with the slots of each bin divided up. -/
structure StoreSlots (db : GravelDB) : Prop where
  index : Still db.index (indexMap db.index)
  files : ∀ dim, db.dir.bins dim = ⟨File.empty,File.empty⟩
  placed : ∀ f i e, indexMap db.index f = some (i,e) → i < db.bins.length
  bins : ∀ (i : Nat) s, db.bins[i]? = some s → BinSlots (indexMap db.index) db.ckptProgress i s

section Bins

variable {m m' : IndexMap} {p p' : CkptProgress} {i e : Nat} {s s' : DimBin} {f : UInt64}

theorem BinSlots.same (h : BinSlots m p i s) (hs : SameSlots s s') : BinSlots m p i s' := by
  refine ⟨?_,?_,?_⟩
  · rw [hs.bump,hs.tombstones,hs.free]
    exact h.parts
  · rw [hs.inCheckpoint,hs.tombstones]
    exact h.quiet
  · rw [hs.inCheckpoint]
    exact h.unopened

theorem BinSlots.congr (h : BinSlots m p i s) (hm : ∀ f e, owners m' i f e ↔ owners m i f e)
    (hp : Unopened p' i → Unopened p i) : BinSlots m' p' i s :=
  ⟨h.parts.congr hm,h.quiet,fun hu => h.unopened (hp hu)⟩

theorem owners_place (hf : m f = none) (g : UInt64) (x : Nat) :
    owners (update m f (some (i,e))) i g x ↔ grant (owners m i) f e g x := by
  unfold owners grant
  by_cases hg : g = f
  · subst hg
    simp [hf,eq_comm]
  · simp [hg]

theorem owners_drop (g : UInt64) (x : Nat) :
    owners (update m f none) i g x ↔ revoke (owners m i) f g x := by
  unfold owners revoke
  by_cases hg : g = f
  · simp [hg]
  · simp [hg]

theorem owners_other {v : Option (Nat × Nat)} {j : Nat}
    (hold : ∀ e, m f ≠ some (j,e)) (hnew : ∀ e, v ≠ some (j,e)) (g : UInt64) (x : Nat) :
    owners (update m f v) j g x ↔ owners m j g x := by
  unfold owners
  by_cases hg : g = f
  · subst hg
    simp [hold,hnew]
  · simp [hg]

theorem BinSlots.alloc (h : BinSlots m p i s) (hsmall : s.bumpPtr < 2 ^ 32)
    (halloc : dimbinAllocEntry s = (s',e)) (hf : m f = none) :
    BinSlots (update m f (some (i,e))) p i s' := by
  have hparts := h.parts
  rcases alloc_slots halloc with ⟨rest,hfree,rfl⟩ | ⟨hfree,rfl,hsame⟩
  · rw [hfree] at hparts
    have htake := (hparts.perm perm_middle.symm).take f
    exact ⟨htake.congr (owners_place hf),h.quiet,h.unopened⟩
  · rw [Nat.mod_eq_of_lt hsmall]
    have hbin : BinSlots (update m f (some (i,s.bumpPtr))) p i
        { s with bumpPtr := s.bumpPtr + 1 } :=
      ⟨(hparts.extend f).congr (owners_place hf),h.quiet,h.unopened⟩
    exact hbin.same hsame

theorem BinSlots.drop (h : BinSlots m p i s) (hf : m f = some (i,e))
    (hdrop : dropEntry s e = some s') : BinSlots (update m f none) p i s' := by
  have hfun : ∀ x, owners m i f x → x = e := by
    intro x hx
    rw [owners,hf] at hx
    cases hx
    rfl
  have hrel := (h.parts.release hf hfun).congr owners_drop
  unfold dropEntry at hdrop
  split_ifs at hdrop with hck
  · cases hdrop
    refine ⟨hrel.perm ?_,?_,?_⟩
    · simp only [overlayTombstone,append_assoc]
      exact perm_middle
    · simp [hck]
    · intro hu
      exact h.unopened hu
  · rw [dimbinFreeEntry_eq hdrop]
    exact ⟨hrel.perm perm_middle,h.quiet,h.unopened⟩

theorem BinSlots.fresh {dir : DataDir} {dim size : Nat} {align ps : UInt32} {budget : Nat}
    (hfile : dir.bins dim = ⟨File.empty,File.empty⟩)
    (hopen : openBin dir dim size align ps budget = some s) (hm : ∀ f e, m f ≠ some (i,e)) :
    BinSlots m p i s := by
  obtain ⟨g,_,hopen⟩ := bind_eq_some_iff.mp hopen
  obtain ⟨bin,hinit,hopen⟩ := bind_eq_some_iff.mp hopen
  obtain ⟨cap,_,hinit⟩ := bind_eq_some_iff.mp hinit
  cases hinit
  cases hopen
  rw [hfile]
  refine ⟨?_,fun _ => rfl,fun _ => rfl⟩
  exact Partition.empty.congr (fun f e => ⟨fun h => (hm f e h).elim,fun h => h.elim⟩)

theorem BinSlots.checkpointBegin (h : BinSlots m p i s) (hu : Unopened p i) (hp : ¬ Unopened p' i)
    {pools : Nat} (hb : dimbinCheckpointBegin pools s = some s') : BinSlots m p' i s' := by
  obtain ⟨hbump,hfree,htomb,_⟩ := checkpointBegin_slots hb
  have hparts := h.parts
  rw [h.quiet (h.unopened hu)] at hparts
  refine ⟨?_,fun _ => htomb,fun hu' => absurd hu' hp⟩
  rw [hbump,hfree,htomb]
  exact hparts

theorem BinSlots.checkpointEnd (h : BinSlots m p i s) (he : dimbinCheckpointEnd s = some s') :
    BinSlots m p' i s' := by
  obtain ⟨hbump,hfree,htomb,hck⟩ := checkpointEnd_slots he
  refine ⟨?_,fun _ => htomb,fun _ => hck⟩
  rw [hbump,hfree,htomb,nil_append]
  exact h.parts.perm ((reverse_perm _).append_right _)

end Bins

section Store

variable {db db' : GravelDB} {i dim : Nat} {s s' : DimBin}

theorem StoreSlots.of_bins (h : StoreSlots db) (hi : db'.index = db.index)
    (hd : db'.dir.bins = db.dir.bins) (hlen : db'.bins.length = db.bins.length)
    (hb : ∀ (i : Nat) s', db'.bins[i]? = some s' →
      BinSlots (indexMap db.index) db'.ckptProgress i s') : StoreSlots db' := by
  refine ⟨?_,?_,?_,?_⟩
  · rw [hi]
    exact h.index
  · rw [hd]
    exact h.files
  · rw [hi,hlen]
    exact h.placed
  · rw [hi]
    exact hb

theorem StoreSlots.set (h : StoreSlots db) (hi : db.bins[i]? = some s) {index : HashIndex}
    {f : UInt64} {v : Option (Nat × Nat)} (hindex : Still index (update (indexMap db.index) f v))
    (hbin : BinSlots (update (indexMap db.index) f v) db.ckptProgress i s')
    (hold : ∀ j e, indexMap db.index f = some (j,e) → j = i)
    (hnew : ∀ j e, v = some (j,e) → j = i) :
    StoreSlots (modifyBin { db with index := index } i s') := by
  have hm : indexMap index = update (indexMap db.index) f v := hindex.map_eq
  have hlen : i < db.bins.length := (List.getElem?_eq_some_iff.mp hi).1
  refine ⟨by rw [← hm] at hindex; exact hindex,h.files,?_,?_⟩
  · simp only [modifyBin,length_set,hm]
    intro g j e hg
    by_cases hgf : g = f
    · rw [hgf,update_self] at hg
      rw [hnew j e hg]
      exact hlen
    · rw [update_of_ne hgf] at hg
      exact h.placed g j e hg
  · rw [← hm] at hbin
    refine forall_modifyBin hbin fun j b hij hb => (h.bins j b hb).congr ?_ (fun hu => hu)
    simp only [modifyBin,hm]
    exact owners_other (fun e he => hij (hold j e he)) (fun e he => hij (hnew j e he))

theorem StoreSlots.same (h : StoreSlots db) (hi : db.bins[i]? = some s) (hs : SameSlots s s') :
    StoreSlots (modifyBin db i s') := by
  exact h.of_bins rfl rfl (by simp only [modifyBin,length_set])
    (forall_modifyBin ((h.bins i s hi).same hs) fun j b _ => h.bins j b)

theorem StoreSlots.register (h : StoreSlots db)
    (hfresh : ∀ m p i, (∀ f e, m f ≠ some (i,e)) → BinSlots m p i s)
    (hreg : registerBin db dim s = some (db',i)) : StoreSlots db' := by
  obtain ⟨⟨registry,idx⟩,_,hreg⟩ := bind_eq_some_iff.mp hreg
  simp only at hreg
  split_ifs at hreg
  · cases hreg
    exact h
  · cases hreg
    refine ⟨h.index,h.files,?_,?_⟩
    · intro f j e hf
      rw [length_append]
      exact Nat.lt_add_right _ (h.placed f j e hf)
    · intro j b hb
      rcases Nat.lt_or_ge j db.bins.length with hlt | hge
      · rw [getElem?_append_left hlt] at hb
        exact h.bins j b hb
      · rw [getElem?_append_right hge,getElem?_singleton] at hb
        split_ifs at hb with hj
        cases hb
        refine hfresh _ _ _ (fun f e hf => ?_)
        have := h.placed f j e hf
        omega

theorem StoreSlots.create (h : StoreSlots db)
    (hcreate : createAndRegisterBin db dim = some (db',i)) : StoreSlots db' := by
  obtain ⟨bin,hopen,hreg⟩ := bind_eq_some_iff.mp hcreate
  exact h.register (fun _ _ _ hm => .fresh (h.files dim) hopen hm) hreg

theorem putStep_slots (h : StoreSlots db) (hload : db.index.count * 10 ≤ db.index.capacity * 7)
    (hsmall : ∀ s ∈ db.bins, s.bumpPtr < 2 ^ 32) (hstep : PutStep db db')
    (hcap : db'.index.capacity = db.index.capacity) : StoreSlots db' := by
  cases hstep with
  | look hf hget =>
    rw [h.index.get hf] at hget
    cases hget
    exact h
  | create hcreate => exact h.create hcreate
  | reserve hbin n => exact h.same hbin (reserve_sameSlots _ n)
  | rewrite hf hget hbin hbuf =>
    rw [h.index.get hf] at hget
    obtain ⟨rfl,_⟩ := Prod.mk.inj (Option.some.inj hget)
    exact h.same hbin (bufKey_sameSlots hbuf)
  | place hf hget hbin halloc hput hbuf =>
    rw [h.index.get hf] at hget
    obtain ⟨rfl,hnone⟩ := Prod.mk.inj (Option.some.inj hget)
    have hindex := h.index.put_same hf hload hput hcap
    have hbin1 := (h.bins _ _ hbin).alloc (hsmall _ (mem_of_getElem? hbin)) halloc hnone
    refine h.set hbin hindex (hbin1.same (bufKey_sameSlots hbuf)) ?_ ?_
    · intro j x hold
      rw [hnone] at hold
      cases hold
    · rintro j x ⟨⟩
      rfl
  | write hbin hput => exact h.same hbin (putBatch_sameSlots hput)

theorem deleteStep_slots (h : StoreSlots db) (hstep : DeleteStep db db') : StoreSlots db' := by
  cases hstep with
  | look hf hget =>
    rw [h.index.get hf] at hget
    obtain ⟨rfl,_⟩ := Prod.mk.inj (Option.some.inj hget)
    exact h
  | drop hf hget hbin hdrop hremove =>
    rw [h.index.get hf] at hget
    obtain ⟨rfl,hsome⟩ := Prod.mk.inj (Option.some.inj hget)
    obtain ⟨index1,hremove1,hindex,_⟩ := h.index.remove hf
    rw [hremove1] at hremove
    cases hremove
    refine h.set hbin hindex ((h.bins _ _ hbin).drop hsome hdrop) ?_ (by simp)
    intro j x hold
    rw [hsome] at hold
    cases hold
    rfl

end Store

def Calm (cap : Nat) (db : GravelDB) : Prop :=
  db.index.capacity = cap ∧ db.index.count * 10 ≤ cap * 7

def Roomy (db : GravelDB) : Prop := ∀ s ∈ db.bins, s.bumpPtr < 2 ^ 32

section Batches

variable {db db' : GravelDB} {s s' : DimBin} {cap : Nat} {rc : Status}

theorem Roomy.of_evolve (hr : Roomy db') (he : Evolve db db') : Roomy db := by
  intro s hs
  obtain ⟨i,hi⟩ := mem_iff_getElem?.mp hs
  obtain ⟨s',hs',hsteps⟩ := he.bins i s hi
  exact Nat.lt_of_le_of_lt (clientSteps_frame hsteps).bump (hr s' (mem_of_getElem? hs'))

structure IndexGrows (idx idx' : HashIndex) : Prop where
  count : idx.count ≤ idx'.count
  capacity : idx.capacity ≤ idx'.capacity
  pow : idx'.capacity.isPowerOfTwo

theorem IndexGrows.of_eq {idx idx' : HashIndex} (hpow : idx.capacity.isPowerOfTwo)
    (hcount : idx'.count = idx.count) (hcap : idx'.capacity = idx.capacity) : IndexGrows idx idx' :=
  ⟨Nat.le_of_eq hcount.symm,Nat.le_of_eq hcap.symm,by rwa [hcap]⟩

theorem putStep_index (hpow : db.index.capacity.isPowerOfTwo) (h : PutStep db db') :
    IndexGrows db.index db'.index := by
  cases h with
  | look hf hget =>
    obtain ⟨hcount,hcap,_⟩ := hashIndexGet_keeps hget
    exact .of_eq hpow hcount hcap
  | create hcreate =>
    obtain ⟨bin,_,hreg⟩ := bind_eq_some_iff.mp hcreate
    obtain ⟨⟨registry,idx⟩,_,hreg⟩ := bind_eq_some_iff.mp hreg
    simp only at hreg
    split_ifs at hreg
    · cases hreg
      exact .of_eq hpow rfl rfl
    · cases hreg
      exact .of_eq hpow rfl rfl
  | reserve hbin n => exact .of_eq hpow rfl rfl
  | rewrite hf hget hbin hbuf =>
    obtain ⟨hcount,hcap,_⟩ := hashIndexGet_keeps hget
    exact .of_eq hpow hcount hcap
  | place hf hget hbin halloc hput hbuf =>
    obtain ⟨hcount,hcap,_⟩ := hashIndexGet_keeps hget
    have hcount' := (hashIndexPut_keeps hf hput).1.1
    rw [← hcap] at hpow
    have hcap' := hashIndexPut_capacity hpow hput
    exact ⟨by simp only [modifyBin]; omega,by simp only [modifyBin]; omega,hashIndexPut_pow hpow hput⟩
  | write hbin hput => exact .of_eq hpow rfl rfl

theorem putSteps_index (hpow : db.index.capacity.isPowerOfTwo) (h : ReflTransGen PutStep db db') :
    IndexGrows db.index db'.index := by
  induction h with
  | refl => exact .of_eq hpow rfl rfl
  | tail _ hlast ih =>
    obtain ⟨hcount,hcap,hpow'⟩ := putStep_index ih.pow hlast
    exact ⟨Nat.le_trans ih.count hcount,Nat.le_trans ih.capacity hcap,hpow'⟩

theorem StoreSlots.pow (h : StoreSlots db) : db.index.capacity.isPowerOfTwo :=
  h.index.tracks.rep.valid.pow

theorem putSteps_slots (h : ReflTransGen PutStep db db') (hs : StoreSlots db) (hcalm : Calm cap db)
    (hcalm' : Calm cap db') (hroomy : Roomy db') : StoreSlots db' := by
  induction h using ReflTransGen.head_induction_on with
  | refl => exact hs
  | head hstep hrest ih =>
    obtain ⟨hcount,hcap,hpow⟩ := putStep_index hs.pow hstep
    obtain ⟨hcount',hcap',_⟩ := putSteps_index hpow hrest
    obtain ⟨hc,hl⟩ := hcalm
    obtain ⟨hc',hl'⟩ := hcalm'
    have hnext := putStep_slots hs (by omega)
      (hroomy.of_evolve ((putStep_evolve hstep).trans (steps_evolve putStep_evolve hrest)))
      hstep (by omega)
    exact ih hnext ⟨by omega,by omega⟩

theorem deleteSteps_slots (h : ReflTransGen DeleteStep db db') (hs : StoreSlots db) :
    StoreSlots db' := by
  induction h with
  | refl => exact hs
  | tail _ hlast ih => exact deleteStep_slots ih hlast

end Batches

section Checkpoints

variable {db db' : GravelDB} {p : CkptProgress} {bins : List DimBin}
  {f : DimBin → Option DimBin}

theorem StoreSlots.each (h : StoreSlots db) (hf : forBins f db.bins = some bins)
    (hstep : ∀ (i : Nat) s s', f s = some s' → BinSlots (indexMap db.index) db.ckptProgress i s →
      BinSlots (indexMap db.index) p i s') :
    StoreSlots { db with bins := bins, ckptProgress := p } := by
  refine h.of_bins rfl rfl (forBins_length hf) ?_
  intro i s' hs'
  obtain ⟨s,hs,hfs⟩ := forBins_get hf hs'
  exact hstep i s s' hfs (h.bins i s hs)

theorem StoreSlots.flushed (h : StoreSlots db) (hf : Flushed db db') : StoreSlots db' := by
  have heq := hf.frame
  refine h.of_bins (by rw [heq]) (by rw [heq]) hf.length ?_
  intro i s' hs'
  obtain ⟨s,hs,hchurn⟩ := hf.bins i s' hs'
  rw [heq]
  exact (h.bins i s hs).same hchurn.sameSlots

theorem dumped_bins (dir : DataDir) (bins : List DimBin) :
    (bins.foldl (fun dir s => writeDelta dir (dumpDelta s)) dir).bins = dir.bins := by
  induction bins generalizing dir with
  | nil => rfl
  | cons s rest ih =>
    rw [foldl_cons,ih]
    rfl

theorem not_unopened (hp : p.phase = .dumping ∨ p.phase = .finishing) (i : Nat) :
    ¬ Unopened p i := by
  rintro (h | ⟨h,_⟩)
  · rw [h] at hp
    simp at hp
  · rw [h] at hp
    simp at hp

theorem beginBins_get {bins bins' : List DimBin} {pools : Nat}
    (h : beginBins pools bins = some bins') :
    bins'.length = bins.length ∧ ∀ (i : Nat) s', bins'[i]? = some s' →
      ∃ s k, bins[i]? = some s ∧ dimbinCheckpointBegin k s = some s' := by
  induction bins generalizing pools bins' with
  | nil =>
    cases h
    exact ⟨rfl,fun i s' hs' => by simp at hs'⟩
  | cons bin rest ih =>
    obtain ⟨bin',hbin,h⟩ := bind_eq_some_iff.mp h
    obtain ⟨rest',hrest,h⟩ := bind_eq_some_iff.mp h
    cases h
    obtain ⟨hlen,hget⟩ := ih hrest
    refine ⟨by rw [length_cons,length_cons,hlen],fun i s' hs' => ?_⟩
    cases i with
    | zero =>
      cases hs'
      exact ⟨bin,pools,rfl,hbin⟩
    | succ i => exact hget i s' hs'

theorem checkpoint_slots (h : StoreSlots db) (hidle : db.ckptProgress.phase = .idle)
    (hc : graveldbCheckpoint db = some db') : StoreSlots db' := by
  obtain ⟨bins1,hbegin,hc⟩ := bind_eq_some_iff.mp hc
  obtain ⟨bins2,hend,hc⟩ := bind_eq_some_iff.mp hc
  cases hc
  obtain ⟨hlen,hget⟩ := beginBins_get hbegin
  have hbegun : StoreSlots { db with bins := bins1, ckptProgress := ⟨.dumping,0,none⟩ } := by
    refine h.of_bins rfl rfl hlen (fun i s' hs' => ?_)
    obtain ⟨s,k,hs,hstep⟩ := hget i s' hs'
    exact (h.bins i s hs).checkpointBegin (.inl hidle) (not_unopened (.inl rfl) i) hstep
  have hended := hbegun.each hend (p := db.ckptProgress)
    (fun i s s' hs hb => hb.checkpointEnd hs)
  exact hended.of_bins rfl (dumped_bins _ _) rfl hended.bins

theorem stepFlushing_slots (h : StoreSlots db) (hflush : p.phase = .flushing)
    (hp : ∀ i, Unopened p i → Unopened db.ckptProgress i)
    (hstep : stepFlushing db p = some db') : StoreSlots db' := by
  unfold stepFlushing at hstep
  split at hstep
  · cases hstep
    refine h.of_bins rfl rfl rfl (fun i s hs => ?_)
    exact (h.bins i s hs).congr (fun _ _ => Iff.rfl)
      (fun hu => absurd hu (not_unopened (.inl rfl) i))
  · rename_i s hs
    obtain ⟨s',hbegin,hstep⟩ := bind_eq_some_iff.mp hstep
    cases hstep
    refine h.of_bins rfl rfl (by simp only [modifyBin,length_set]) ?_
    refine forall_modifyBin ?_ fun j b _ hb => ?_
    · refine (h.bins _ s hs).checkpointBegin (hp _ (.inr ⟨hflush,Nat.le_refl _⟩)) ?_ hbegin
      rintro (hi | ⟨_,hle⟩)
      · rw [modifyBin] at hi
        exact absurd (hflush.symm.trans hi) (by decide)
      · exact Nat.not_succ_le_self _ hle
    · refine (h.bins j b hb).congr (fun _ _ => Iff.rfl) (fun hu => hp j ?_)
      rcases hu with hu | ⟨hu,hle⟩
      · exact .inl hu
      · exact .inr ⟨hu,Nat.le_of_succ_le hle⟩

theorem checkpointStep_slots {budget : UInt32} (h : StoreSlots db)
    (hstep : graveldbCheckpointStep db budget = some db') : StoreSlots db' := by
  unfold graveldbCheckpointStep at hstep
  split at hstep
  · rename_i hphase
    exact stepFlushing_slots h rfl (fun i _ => .inl hphase) hstep
  · rename_i hphase
    exact stepFlushing_slots h hphase (fun i hu => hu) hstep
  · rename_i hphase
    have hkeep : ∀ p' : CkptProgress, p'.phase = .dumping ∨ p'.phase = .finishing →
        ∀ (i : Nat) s, db.bins[i]? = some s → BinSlots (indexMap db.index) p' i s := by
      intro p' hp' i s hs
      exact (h.bins i s hs).congr (fun _ _ => Iff.rfl) (fun hu => absurd hu (not_unopened hp' i))
    split at hstep
    · cases hstep
      exact h.of_bins rfl rfl rfl (hkeep _ (.inr rfl))
    · rename_i s hs
      cases hstep
      unfold stepDumping
      simp only
      split_ifs
      · exact h.of_bins rfl rfl rfl (hkeep _ (.inl hphase))
      · exact h.of_bins rfl rfl rfl (hkeep _ (.inl hphase))
  · obtain ⟨bins,hend,hstep⟩ := bind_eq_some_iff.mp hstep
    cases hstep
    have hended := h.each hend (p := { db.ckptProgress with phase := .idle })
      (fun i s s' hs hb => hb.checkpointEnd hs)
    exact hended.of_bins rfl rfl rfl hended.bins

end Checkpoints

section Open

variable {config : GravelDBConfig} {db db' : GravelDB} {ps : UInt32} {dim : Nat} {s : DimBin}

def Blank (db : GravelDB) : Prop := ∀ s ∈ db.bins, s.bumpPtr = 0

theorem openBin_blank {dir : DataDir} {size : Nat} {align : UInt32} {budget : Nat}
    (hfile : dir.bins dim = ⟨File.empty,File.empty⟩)
    (hopen : openBin dir dim size align ps budget = some s) : s.bumpPtr = 0 := by
  obtain ⟨g,_,hopen⟩ := bind_eq_some_iff.mp hopen
  obtain ⟨bin,hinit,hopen⟩ := bind_eq_some_iff.mp hopen
  obtain ⟨cap,_,hinit⟩ := bind_eq_some_iff.mp hinit
  cases hinit
  cases hopen
  rw [hfile]
  exact Nat.zero_min _

theorem registerBin_eq {i : Nat} (h : registerBin db dim s = some (db',i)) :
    db' = { db with registry := db'.registry, bins := db'.bins } ∧
      (db'.bins = db.bins ∨ db'.bins = db.bins ++ [s]) := by
  obtain ⟨⟨registry,idx⟩,_,h⟩ := bind_eq_some_iff.mp h
  simp only at h
  split_ifs at h
  · cases h
    exact ⟨rfl,.inl rfl⟩
  · cases h
    exact ⟨rfl,.inr rfl⟩

theorem openBins_invariant {P : GravelDB → Prop} {dims : List Nat}
    (hstep : ∀ {db db' : GravelDB} {dim size i : Nat} {align ps : UInt32} {budget : Nat}
      {s : DimBin}, P db → openBin db.dir dim size align ps budget = some s →
      registerBin db dim s = some (db',i) → P db') (h : P db)
    (hopen : openBins config db dims = some db') : P db' := by
  induction dims generalizing db with
  | nil =>
    cases hopen
    exact h
  | cons dim rest ih =>
    obtain ⟨bin,hbin,hopen⟩ := bind_eq_some_iff.mp hopen
    obtain ⟨⟨db1,i⟩,hreg,hopen⟩ := bind_eq_some_iff.mp hopen
    exact ih (hstep h hbin hreg) hopen

theorem rebuildBins_blank (hblank : Blank db) (l : List Nat) (hl : ∀ i ∈ l, i < db.bins.length) :
    rebuildBins db l = some db := by
  induction l with
  | nil => rfl
  | cons i rest ih =>
    have hi := hl i mem_cons_self
    have hkeys : readKeys db.bins[i] = [] := by
      simp [readKeys,hblank _ (getElem_mem hi)]
    rw [rebuildBins,getElem?_eq_getElem hi,bind_eq_bind,bind_some,hkeys]
    exact ih (fun j hj => hl j (mem_cons_of_mem i hj))

def unopenedStore (config : GravelDBConfig) (ps : UInt32) (index : HashIndex) : GravelDB :=
  { config := { config with pageSize := if config.pageSize = 0 then ps else config.pageSize }
    registry := dimRegistryInit, bins := [], index := index
    currentEpoch := 0, ckptProgress := ckptIdle, dir := emptyDir ps }

theorem open_empty (hopen : graveldbOpen config (emptyDir ps) = some db) :
    ∃ index, hashIndexInit (indexSlots config) = some index ∧
      openBins config (unopenedStore config ps index) config.dims = some db ∧ Blank db ∧
      db = { unopenedStore config ps index with registry := db.registry, bins := db.bins } := by
  obtain ⟨index,hindex,hopen⟩ := bind_eq_some_iff.mp hopen
  obtain ⟨db1,hbins,hopen⟩ := bind_eq_some_iff.mp hopen
  have hbins' : openBins config (unopenedStore config ps index) config.dims = some db1 := hbins
  obtain ⟨hblank,heq⟩ : Blank db1 ∧
      db1 = { unopenedStore config ps index with registry := db1.registry, bins := db1.bins } := by
    refine openBins_invariant (P := fun db => Blank db ∧
      db = { unopenedStore config ps index with registry := db.registry, bins := db.bins })
      ?_ ⟨by simp [Blank,unopenedStore],rfl⟩ hbins'
    rintro db db' dim size i align ps budget s ⟨hblank,heq⟩ hbin hreg
    obtain ⟨heq',hcases⟩ := registerBin_eq hreg
    refine ⟨?_,by rw [heq',heq]⟩
    intro b hb
    rcases hcases with hcases | hcases
    · rw [hcases] at hb
      exact hblank b hb
    · rw [hcases] at hb
      rcases mem_append.mp hb with hb | hb
      · exact hblank b hb
      · rw [mem_singleton.mp hb]
        exact openBin_blank (by rw [heq]; rfl) hbin
  obtain ⟨db2,hrebuild,hopen⟩ := bind_eq_some_iff.mp hopen
  rw [rebuildIndexFromKeys,rebuildBins_blank hblank _ (fun i hi => mem_range.mp hi)] at hrebuild
  cases hrebuild
  cases hopen
  have hmap : db1.bins.map (restoreGeneration (emptyDir ps)) = db1.bins :=
    (map_congr_left fun _ _ => rfl).trans (List.map_id _)
  rw [hmap]
  exact ⟨index,hindex,hbins',hblank,heq⟩

theorem open_calm (hopen : graveldbOpen config (emptyDir ps) = some db) :
    Calm db.index.capacity db := by
  obtain ⟨index,hindex,_,_,heq⟩ := open_empty hopen
  have hzero : db.index.count = 0 := by
    rw [heq]
    exact (init_rep hindex).2
  exact ⟨rfl,by omega⟩

theorem unopened_slots {index : HashIndex} (hindex : hashIndexInit (indexSlots config) = some index) :
    StoreSlots (unopenedStore config ps index) := by
  have hstill := Still.init hindex
  refine ⟨?_,fun _ => rfl,?_,?_⟩
  · simp only [unopenedStore,hstill.map_eq]
    exact hstill
  · simp [unopenedStore,hstill.map_eq]
  · simp [unopenedStore]

theorem open_slots (hopen : graveldbOpen config (emptyDir ps) = some db) : StoreSlots db := by
  obtain ⟨index,hindex,hbins,_⟩ := open_empty hopen
  refine openBins_invariant ?_ (unopened_slots hindex) hbins
  intro db db' dim size i align ps budget s h hbin hreg
  exact h.register (fun _ _ _ hm => .fresh (h.files dim) hbin hm) hreg

end Open

/-- Calls that are not made in the middle of another checkpoint. -/
def Unnested (s : Session) : StoreOp → Prop
  | .put _ => True
  | .delete _ => True
  | .flush => True
  | .checkpointStep _ => True
  | .checkpoint => s.db.ckptProgress.phase = .idle
  | _ => False

/-- A call of the run, with what it leaves: no rehash, and fewer than `2 ^ 32` slots. -/
def SlotCall (cap : Nat) (s : Session) (op : StoreOp) (s' : Session) : Prop :=
  Unnested s op ∧ Calm cap s'.db ∧ Roomy s'.db

structure SlotPartition (db : GravelDB) (i : Nat) (s : DimBin) : Prop where
  free_nodup : s.freeList.Nodup
  tombstones_nodup : s.overlay.tombstones.Nodup
  live_unique : ∀ f g e, indexMap db.index f = some (i,e) → indexMap db.index g = some (i,e) → f = g
  free_dead : ∀ e ∈ s.freeList, e ∉ s.overlay.tombstones
  live_idle : ∀ f e, indexMap db.index f = some (i,e) →
    e ∉ s.freeList ∧ e ∉ s.overlay.tombstones
  exact : ∀ e, e < s.bumpPtr ↔ e ∈ s.freeList ∨ e ∈ s.overlay.tombstones ∨
    ∃ f, indexMap db.index f = some (i,e)

theorem BinSlots.partition {db : GravelDB} {p : CkptProgress} {i : Nat} {s : DimBin}
    (h : BinSlots (indexMap db.index) p i s) : SlotPartition db i s := by
  have hp := h.parts
  obtain ⟨htomb,hfree,hdis⟩ := nodup_append.mp hp.nodup
  refine ⟨hfree,htomb,hp.unique,?_,?_,?_⟩
  · intro e he ht
    exact hdis e ht e he rfl
  · intro f e hf
    have hbusy := hp.owned_busy f e hf
    rw [mem_append,not_or] at hbusy
    exact ⟨hbusy.2,hbusy.1⟩
  · intro e
    constructor
    · intro hlt
      by_cases hidle : e ∈ s.overlay.tombstones ++ s.freeList
      · rcases mem_append.mp hidle with ht | hf
        · exact .inr (.inl ht)
        · exact .inl hf
      · exact .inr (.inr (hp.cover e hlt hidle))
    · rintro (hf | ht | ⟨f,hf⟩)
      · exact hp.idle_lt e (mem_append_right _ hf)
      · exact hp.idle_lt e (mem_append_left _ ht)
      · exact hp.owned_lt f e hf

theorem step_slots {cap : Nat} (s : Session) (op : StoreOp) (s' : Session)
    (h : StoreSlots s.db ∧ Calm cap s.db) (hcall : SlotCall cap s op s')
    (hstep : stepSession s op = some s') : StoreSlots s'.db ∧ Calm cap s'.db := by
  obtain ⟨hunnested,hcalm',hroomy⟩ := hcall
  refine ⟨?_,hcalm'⟩
  obtain ⟨⟨s1,answer⟩,happly,rfl⟩ := map_eq_some_iff.mp hstep
  cases op with
  | put items =>
    obtain ⟨⟨db,rc⟩,hput,happly⟩ := bind_eq_some_iff.mp happly
    cases happly
    exact putSteps_slots (graveldbBatchPut_steps hput) h.1 h.2 hcalm' hroomy
  | delete featIds =>
    obtain ⟨db,hdel,happly⟩ := bind_eq_some_iff.mp happly
    cases happly
    exact deleteSteps_slots (graveldbBatchDelete_steps hdel) h.1
  | flush =>
    have hflush : IsFlush .flush := trivial
    exact h.1.flushed (isFlush_flushed hflush hstep)
  | checkpoint =>
    obtain ⟨db,hck,happly⟩ := bind_eq_some_iff.mp happly
    cases happly
    exact checkpoint_slots h.1 hunnested hck
  | checkpointStep budget =>
    obtain ⟨db,hck,happly⟩ := bind_eq_some_iff.mp happly
    cases happly
    exact checkpointStep_slots h.1 hck
  | get junk reqs => exact hunnested.elim
  | flushSubmit useUring => exact hunnested.elim
  | land flush write => exact hunnested.elim
  | flushPoll flush => exact hunnested.elim

instance (s : Session) : ∀ op, Decidable (Unnested s op)
  | .put _ => isTrue trivial
  | .delete _ => isTrue trivial
  | .flush => isTrue trivial
  | .checkpointStep _ => isTrue trivial
  | .checkpoint => inferInstanceAs (Decidable (s.db.ckptProgress.phase = .idle))
  | .get _ _ => isFalse id
  | .flushSubmit _ => isFalse id
  | .land _ _ => isFalse id
  | .flushPoll _ => isFalse id

instance (cap : Nat) (s : Session) (op : StoreOp) (s' : Session) :
    Decidable (SlotCall cap s op s') :=
  inferInstanceAs (Decidable (_ ∧ (_ ∧ _) ∧ ∀ b ∈ s'.db.bins, b.bumpPtr < 2 ^ 32))

/-- In every state of a run without a rehash, the slots of each bin are divided up between live
keys, free list and tombstones. -/
theorem slots_partitioned (config : GravelDBConfig) (ps : UInt32) (db0 : GravelDB)
    (ops : List StoreOp) (s : Session) (hopen : graveldbOpen config (emptyDir ps) = some db0)
    (hcalls : Run.Along stepSession (SlotCall db0.index.capacity) ⟨db0,[]⟩ ops)
    (hrun : Run.run stepSession ⟨db0,[]⟩ ops = some s) :
    ∀ (i : Nat) bin, s.db.bins[i]? = some bin → SlotPartition s.db i bin := by
  have hcalm : Calm db0.index.capacity db0 := open_calm hopen
  obtain ⟨hs,_⟩ := Run.run_invariant step_slots ops ⟨db0,[]⟩ s ⟨open_slots hopen,hcalm⟩ hcalls hrun
  intro i bin hbin
  exact (hs.bins i bin hbin).partition

def smallConfig : GravelDBConfig :=
  { dims := [1], bufferSize := 64, indexCapacity := 16, entryAlign := 4, pageSize := 16
    autoCreateBins := false, overlayBudget := 0 }

def smallStore : GravelDB := (graveldbOpen smallConfig (emptyDir 4096)).get (by decide +kernel)

def vectorOf (f : UInt64) : PutItem := ⟨f,1,some (fun _ => f.toUInt8)⟩

def onePageStore : GravelDB :=
  ((graveldbBatchPut smallStore [vectorOf 1]).get (by decide +kernel)).1

/-- Keys are put twice in a batch, deleted and put again in the middle of a checkpoint. -/
def churningRun : List StoreOp :=
  [.put [vectorOf 1,vectorOf 2,vectorOf 1],.delete [2],.checkpointStep 0,
    .put [vectorOf 3],.delete [1],.put [vectorOf 1,vectorOf 4],.checkpointStep 0,
    .checkpointStep 0,.checkpointStep 0,.checkpointStep 0,.flush,.checkpoint,.put [vectorOf 5]]

theorem churningRun_partitioned : ∃ s, Run.run stepSession ⟨smallStore,[]⟩ churningRun = some s ∧
    ∀ (i : Nat) bin, s.db.bins[i]? = some bin → SlotPartition s.db i bin :=
  ⟨(Run.run stepSession ⟨smallStore,[]⟩ churningRun).get (by decide +kernel),
    (some_get _).symm,
    slots_partitioned smallConfig 4096 smallStore churningRun _ (some_get _).symm
      (by decide +kernel) (some_get _).symm⟩

end Gravel.Proofs.Slots
