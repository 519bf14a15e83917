import Gravel.Proofs.BinFrames
import Gravel.Proofs.StoreSteps

namespace Gravel.Proofs.ClientSteps
open Relation BinRun BinFrames StoreSteps List Option

/-- What clients do to a bin: reserve and allocate entries, buffer keys, write, drop and read. -/
inductive ClientStep : DimBin → DimBin → Prop
  | reserve (s : DimBin) (count : Nat) : ClientStep s (dimbinReserve s count)
  | alloc (s : DimBin) : ClientStep s (dimbinAllocEntry s).1
  | bufKey {s s' : DimBin} {e : Nat} {f : UInt64} (h : dimbinBufKey s e f = some s') :
      ClientStep s s'
  | putBatch {s s' : DimBin} {entries : List EmbWriteEntry} {rc : Status}
      (h : dimbinPutBatch s entries = some (s',rc)) : ClientStep s s'
  | drop {s s' : DimBin} {e : Nat} (h : dropEntry s e = some s') : ClientStep s s'
  | read {s s' : DimBin} {e : Nat} {out : Nat → UInt8} {r : Resolved}
      (h : readEntry s e out = some (s',r)) : ClientStep s s'

/-- Clients were at work; no bin is gone and the checkpoint has not moved. -/
structure Evolve (db db' : GravelDB) : Prop where
  progress : db'.ckptProgress = db.ckptProgress
  bins : ∀ (j : Nat) bin, db.bins[j]? = some bin →
    ∃ bin', db'.bins[j]? = some bin' ∧ ReflTransGen ClientStep bin bin'

/-- What no client changes. In a checkpoint that is also the dirty pages and the bytes of the
file. -/
structure ClientFrame (s s' : DimBin) : Prop where
  geom : s'.geom = s.geom
  ckpt : s'.inCheckpoint = s.inCheckpoint
  bump : s.bumpPtr ≤ s'.bumpPtr
  frozen : FrozenKept s s'
  size : s.data.size ≤ s'.data.size
  still : s.inCheckpoint = true → s'.dirty = s.dirty ∧ s'.data.cell = s.data.cell

section Bins

variable {s s' : DimBin}

theorem ClientFrame.of_eq (hg : s'.geom = s.geom) (hk : s'.inCheckpoint = s.inCheckpoint)
    (hb : s'.bumpPtr = s.bumpPtr) (hd : s'.dirty = s.dirty) (hf : s'.data = s.data) :
    ClientFrame s s' :=
  ⟨hg,hk,Nat.le_of_eq hb.symm,.of_eq hd,by rw [hf],fun _ => ⟨hd,by rw [hf]⟩⟩

theorem readEntry_eq {e : Nat} {out : Nat → UInt8} {r : Resolved}
    (h : readEntry s e out = some (s',r)) : s' = { s with overlay := s'.overlay } := by
  rw [readEntry] at h
  split_ifs at h
  · obtain ⟨⟨overlay,held⟩,_,h⟩ := bind_eq_some_iff.mp h
    simp only at h
    split_ifs at h
    · obtain ⟨⟨overlay',data⟩,_,h⟩ := bind_eq_some_iff.mp h
      cases h
      rfl
    · obtain ⟨r,_,h⟩ := bind_eq_some_iff.mp h
      cases h
      rfl
  · obtain ⟨r,_,h⟩ := bind_eq_some_iff.mp h
    cases h
    rfl

theorem putBatch_frame {ws : List EmbWriteEntry} {rc : Status}
    (h : dimbinPutBatch s ws = some (s',rc)) : ClientFrame s s' := by
  cases hck : s.inCheckpoint with
  | false =>
    have hchurn := putBatch_churn hck h
    have hframe := hchurn.frame
    exact ⟨by rw [hframe],by rw [hframe],by rw [hframe],hchurn.frozen,hchurn.size,by simp [hck]⟩
  | true =>
    rw [dimbinPutBatch] at h
    split_ifs at h
    · cases h
      exact .of_eq rfl rfl rfl rfl rfl
    · rw [putOverlay_eq h]
      exact .of_eq rfl rfl rfl rfl rfl

theorem clientStep_frame (h : ClientStep s s') : ClientFrame s s' := by
  cases h with
  | reserve count =>
    obtain ⟨a,b,heq⟩ := dimbinReserve_eq s count
    rw [heq]
    exact ⟨rfl,rfl,Nat.le_refl _,.of_eq rfl,Nat.le_max_left _ _,fun _ => ⟨rfl,rfl⟩⟩
  | alloc =>
    have hbump : s.bumpPtr ≤ (dimbinAllocEntry s).1.bumpPtr := by
      unfold dimbinAllocEntry
      cases s.freeList with
      | nil =>
        obtain ⟨a,ha⟩ := growData_eq { s with bumpPtr := s.bumpPtr + 1, freeList := [] }
          ((s.bumpPtr % 2 ^ 32 + 1) % 2 ^ 32 * s.geom.entrySize)
        simp only
        rw [growKeys_eq,ha]
        exact Nat.le_succ _
      | cons e rest => exact Nat.le_refl _
    obtain ⟨a,heq⟩ := dimbinAllocEntry_eq s
    rw [heq]
    exact ⟨rfl,rfl,hbump,.of_eq rfl,Nat.le_max_left _ _,fun _ => ⟨rfl,rfl⟩⟩
  | bufKey h =>
    rw [dimbinBufKey_eq h]
    exact .of_eq rfl rfl rfl rfl rfl
  | putBatch h => exact putBatch_frame h
  | drop h =>
    rw [dropEntry] at h
    split_ifs at h
    · cases h
      exact .of_eq rfl rfl rfl rfl rfl
    · rw [dimbinBufKey_eq h]
      exact .of_eq rfl rfl rfl rfl rfl
  | read h =>
    rw [readEntry_eq h]
    exact .of_eq rfl rfl rfl rfl rfl

theorem clientSteps_frame (h : ReflTransGen ClientStep s s') : ClientFrame s s' := by
  induction h with
  | refl => exact .of_eq rfl rfl rfl rfl rfl
  | @tail s1 s2 _ hstep ih =>
    have hlast := clientStep_frame hstep
    refine ⟨hlast.geom.trans ih.geom,hlast.ckpt.trans ih.ckpt,Nat.le_trans ih.bump hlast.bump,ih.frozen.trans hlast.frozen,
      Nat.le_trans ih.size hlast.size,fun hck => ?_⟩
    obtain ⟨hdirty,hcell⟩ := hlast.still (ih.ckpt.trans hck)
    exact ⟨hdirty.trans (ih.still hck).1,hcell.trans (ih.still hck).2⟩

end Bins

section Store

variable {db db' db1 : GravelDB} {i : Nat} {bin bin' : DimBin}

theorem Evolve.of_bins (h : db'.bins = db.bins) (hp : db'.ckptProgress = db.ckptProgress) :
    Evolve db db' :=
  ⟨hp,fun _ bin hbin => ⟨bin,by rw [h]; exact hbin,.refl⟩⟩

theorem Evolve.trans (h : Evolve db db1) (h' : Evolve db1 db') : Evolve db db' := by
  refine ⟨h'.progress.trans h.progress,fun j bin hbin => ?_⟩
  obtain ⟨bin1,hbin1,hsteps⟩ := h.bins j bin hbin
  obtain ⟨bin2,hbin2,hsteps'⟩ := h'.bins j bin1 hbin1
  exact ⟨bin2,hbin2,hsteps.trans hsteps'⟩

theorem Evolve.set (hbin : db.bins[i]? = some bin) (hsteps : ReflTransGen ClientStep bin bin')
    (hbins : db'.bins = db.bins.set i bin') (hp : db'.ckptProgress = db.ckptProgress) :
    Evolve db db' := by
  have hlen : i < db.bins.length := (List.getElem?_eq_some_iff.mp hbin).1
  refine ⟨hp,fun j b hb => ?_⟩
  rw [hbins,getElem?_set]
  split_ifs with hij
  · subst hij
    cases hbin.symm.trans hb
    exact ⟨bin',rfl,hsteps⟩
  · exact ⟨b,hb,.refl⟩

theorem Evolve.append {new : List DimBin} (hbins : db'.bins = db.bins ++ new)
    (hp : db'.ckptProgress = db.ckptProgress) : Evolve db db' := by
  refine ⟨hp,fun j b hb => ?_⟩
  rw [hbins]
  exact ⟨b,getElem?_append_left (List.getElem?_eq_some_iff.mp hb).1 ▸ hb,.refl⟩

end Store

section Batches

variable {db db' : GravelDB} {dim dimIdx : Nat} {rc : Status}

theorem registerBin_evolve {bin : DimBin} (h : registerBin db dim bin = some (db',dimIdx)) :
    Evolve db db' := by
  obtain ⟨⟨registry,idx⟩,hput,h⟩ := bind_eq_some_iff.mp h
  simp only at h
  split_ifs at h
  · cases h
    exact .of_bins rfl rfl
  · cases h
    exact .append rfl rfl

theorem putStep_evolve (h : PutStep db db') : Evolve db db' := by
  cases h with
  | look hf hget => exact .of_bins rfl rfl
  | create hcreate =>
    obtain ⟨bin,_,hreg⟩ := bind_eq_some_iff.mp hcreate
    exact registerBin_evolve hreg
  | reserve hbin n => exact .set hbin (.single (.reserve _ n)) rfl rfl
  | rewrite hf hget hbin hbuf => exact .set hbin (.single (.bufKey hbuf)) rfl rfl
  | @place _ _ _ _ _ bin bin1 _ _ hf hget hbin halloc hput hbuf =>
    refine .set hbin ?_ rfl rfl
    have hstep : ClientStep bin bin1 := by
      have := ClientStep.alloc bin
      rwa [halloc] at this
    exact (ReflTransGen.single hstep).tail (.bufKey hbuf)
  | write hbin hput => exact .set hbin (.single (.putBatch hput)) rfl rfl

theorem deleteStep_evolve (h : DeleteStep db db') : Evolve db db' := by
  cases h with
  | look hf hget => exact .of_bins rfl rfl
  | drop hf hget hbin hdrop hremove => exact .set hbin (.single (.drop hdrop)) rfl rfl

theorem steps_evolve {step : GravelDB → GravelDB → Prop}
    (hstep : ∀ {db db'}, step db db' → Evolve db db') (h : ReflTransGen step db db') :
    Evolve db db' := by
  induction h with
  | refl => exact .of_bins rfl rfl
  | tail _ hlast ih => exact ih.trans (hstep hlast)

theorem graveldbBatchPut_evolve {items : List PutItem}
    (h : graveldbBatchPut db items = some (db',rc)) : Evolve db db' :=
  steps_evolve putStep_evolve (graveldbBatchPut_steps h)

theorem graveldbBatchDelete_evolve {keys : List UInt64}
    (h : graveldbBatchDelete db keys = some db') : Evolve db db' :=
  steps_evolve deleteStep_evolve (graveldbBatchDelete_steps h)

end Batches

section Reads

variable {db db' : GravelDB} {reqs : List GetRequest} {results : List GetResult}

theorem resolveGet_evolve {req : GetRequest} {result : GetResult} {read : Option (Nat × Nat)}
    (h : resolveGet db req = some (db',result,read)) : Evolve db db' := by
  obtain ⟨⟨index,found⟩,hget,h⟩ := bind_eq_some_iff.mp h
  cases found with
  | none =>
    cases h
    exact .of_bins rfl rfl
  | some p =>
    obtain ⟨bin,hbin,h⟩ := bind_eq_some_iff.mp h
    simp only at h
    split at h
    · cases h
      exact .of_bins rfl rfl
    · obtain ⟨⟨bin',r⟩,hread,h⟩ := bind_eq_some_iff.mp h
      cases h
      exact .set hbin (.single (.read hread)) rfl rfl

theorem resolveGets_evolve {n : Nat} {reads : List DiskRead}
    (h : resolveGets db n reqs = some (db',results,reads)) : Evolve db db' := by
  induction reqs generalizing db n results reads with
  | nil =>
    cases h
    exact .of_bins rfl rfl
  | cons req rest ih =>
    obtain ⟨⟨db1,result,read⟩,hget,h⟩ := bind_eq_some_iff.mp h
    obtain ⟨⟨db2,results2,reads2⟩,hgets,h⟩ := bind_eq_some_iff.mp h
    cases h
    exact (resolveGet_evolve hget).trans (ih hgets)

theorem graveldbBatchGet_evolve {junk : Nat → UInt8}
    (h : graveldbBatchGet db junk reqs = some (db',results)) : Evolve db db' := by
  obtain ⟨⟨db1,results1,reads⟩,hgets,h⟩ := bind_eq_some_iff.mp h
  cases h
  exact resolveGets_evolve hgets

end Reads

end Gravel.Proofs.ClientSteps
