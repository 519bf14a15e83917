import Gravel.Proofs.Backpressure
import Gravel.Proofs.BinRelease
import Gravel.Spec.StoreRun

namespace Gravel.Proofs.StoreRuns
open HashIndex KeyBuffer OverlayMap PutBatch FlushPages BinEntries PutRoom StoreSteps Slots
  StoreRefinement Spec List Option Function

/-- The store holds `st`, and every get of it reads what is there. -/
structure Serves (auto : Bool) (db : GravelDB) (st : VectorStore) : Prop where
  holds : Holds db st
  legible : ∀ s ∈ db.bins, Legible s
  auto : db.config.autoCreateBins = auto

/-- A bin has the same live entries as before. Deleted entries may have been recycled. -/
structure Refreshed (L : Entries) (s s' : DimBin) : Prop where
  rep : ∃ m, BinRep s' m L
  geom : s'.geom = s.geom
  keys : ∀ x ∉ s'.overlay.tombstones,
    keyAt s' x = if x ∈ s.overlay.tombstones then 0 else keyAt s x
  calm : Legible s → s'.inCheckpoint = true → s'.overlay.table.old = none

/-- The bins move on without a change of what they hold. -/
structure Refresh (db db' : GravelDB) : Prop where
  index : db'.index = db.index
  registry : db'.registry = db.registry
  config : db'.config = db.config
  length : db'.bins.length = db.bins.length
  bins : ∀ (i : Nat) s', db'.bins[i]? = some s' → ∃ s, db.bins[i]? = some s ∧
    ∀ m L, BinRep s m L → Refreshed L s s'

section Refresh

variable {auto : Bool} {db db' : GravelDB} {st : VectorStore} {s s' : DimBin} {m : OverlayVectors}
  {L : Entries}

theorem Refreshed.refl (h : BinRep s m L) : Refreshed L s s :=
  ⟨⟨m,h⟩,rfl,fun _ hx => (if_neg hx).symm,fun hs => hs.calm⟩

theorem Refresh.same (hi : db'.index = db.index) (hr : db'.registry = db.registry)
    (hc : db'.config = db.config) (hb : db'.bins = db.bins) : Refresh db db' :=
  ⟨hi,hr,hc,by rw [hb],fun _ s hs => ⟨s,hb ▸ hs,fun _ _ h => .refl h⟩⟩

theorem Serves.refresh (h : Serves auto db st) (hr : Refresh db db') (hslots : StoreSlots db') :
    Serves auto db' st := by
  have hbin : ∀ (i : Nat) s', db'.bins[i]? = some s' → ∃ s, db.bins[i]? = some s ∧
      s'.geom = s.geom ∧ (Legible s → Legible s') ∧
      BinHolds (fun _ => False) (indexMap db.index) st.vectors i s' [] := by
    intro i s' hs'
    obtain ⟨s,hs,hall⟩ := hr.bins i s' hs'
    have hold := h.holds.bins i s hs
    obtain ⟨m,L,hrep,hL⟩ := hold.rep
    have hf := hall m L hrep
    obtain ⟨m',hrep'⟩ := hf.rep
    refine ⟨s,hs,hf.geom,fun hl => ⟨by rw [hf.geom]; exact hl.plain,hf.calm hl⟩,
      ⟨m',L,hrep',by rw [hf.geom]; exact hL⟩,by simp,fun e he f hne => ?_⟩
    rw [hf.keys e he]
    split_ifs with ht
    · refine ⟨fun h0 => absurd h0.symm hne,fun hlive => ?_⟩
      exact absurd (mem_append_left _ ht) (owned_of_index (h.holds.slots.bins i s hs) hlive).2
    · exact hold.mirror e ht f hne
  refine ⟨⟨hslots,by rw [hr.registry]; exact h.holds.registry,?_,by rw [hr.index]; exact h.holds.absent,?_⟩,
    ?_,by rw [hr.config]; exact h.auto⟩
  · rw [← h.holds.dims]
    refine ext_getElem (by simp [hr.length]) fun i hi _ => ?_
    rw [length_map] at hi
    obtain ⟨s,hs,hgeom,_⟩ := hbin i _ (getElem?_eq_getElem hi)
    obtain ⟨_,rfl⟩ := List.getElem?_eq_some_iff.mp hs
    simp [hgeom]
  · intro i s' hs'
    rw [hr.index]
    exact (hbin i s' hs').choose_spec.2.2.2
  · intro s' hs'
    obtain ⟨i,hi⟩ := mem_iff_getElem?.mp hs'
    obtain ⟨s,hs,_,hlegible,_⟩ := hbin i s' hi
    exact hlegible (h.legible s (mem_of_getElem? hs))

end Refresh

section Deletes

variable {auto : Bool} {db : GravelDB} {st : VectorStore} {im : IndexMap} {p : CkptProgress}
  {vectors : UInt64 → Option (Nat × (Nat → UInt8))} {i e : Nat} {s : DimBin} {f : UInt64}

theorem deleteOne_absent (h : st.vectors f = none) : st.deleteOne f = st := by
  rw [VectorStore.deleteOne,update_eq_self_iff.mpr h.symm]

theorem BinHolds.drop (h : BinHolds (fun _ => False) im vectors i s []) (hs : BinSlots im p i s)
    (hlive : im f = some (i,e)) :
    ∃ s', dropEntry s e = some s' ∧ s'.geom = s.geom ∧ (Legible s → Legible s') ∧
      BinHolds (fun _ => False) (update im f none) (update vectors f none) i s' [] := by
  obtain ⟨m,L,hrep,hL⟩ := h.rep
  obtain ⟨s',hdrop,hrep',heq,hkeys⟩ := hrep.drop (owned_of_index hs hlive)
  have hgeom : s'.geom = s.geom := by rw [heq]
  have hkept : ∀ g x, update im f none g = some (i,x) → g ≠ f ∧ x ≠ e ∧ im g = some (i,x) := by
    intro g x hg
    by_cases hgf : g = f
    · simp [hgf] at hg
    · rw [update_of_ne hgf] at hg
      refine ⟨hgf,?_,hg⟩
      rintro rfl
      exact hgf (hs.parts.unique g f x hg hlive)
  refine ⟨s',hdrop,hgeom,fun hl => ⟨by rw [hgeom]; exact hl.plain,?_⟩,⟨m,_,hrep',?_⟩,by simp,?_⟩
  · rw [heq]
    exact hl.calm
  · intro g x hg
    obtain ⟨hgf,hxe,hold⟩ := hkept g x hg
    simpa [hgf,hxe,hgeom] using hL g x hold
  · intro x hx g hg
    obtain ⟨hx,hkey⟩ := hkeys x hx
    rw [hkey]
    by_cases hxe : x = e
    · rw [if_pos hxe]
      exact ⟨fun h0 => absurd h0.symm hg,fun hlate => absurd hxe (hkept g x hlate).2.1⟩
    · rw [if_neg hxe,h.mirror x hx g hg]
      refine ⟨fun hold => ?_,fun hlate => (hkept g x hlate).2.2⟩
      have hgf : g ≠ f := by
        rintro rfl
        rw [hlive] at hold
        cases hold
        exact hxe rfl
      rw [update_of_ne hgf]
      exact hold

theorem Serves.deleteKey (h : Serves auto db st) (f : UInt64) :
    ∃ db', deleteKey db f = some db' ∧ Serves auto db' (st.deleteOne f) := by
  have hslots := h.holds.slots
  cases hidx : indexMap db.index f with
  | none =>
    refine ⟨db,?_,by rw [deleteOne_absent (h.holds.absent f hidx)]; exact h⟩
    by_cases hf : f = 0
    · simp [Gravel.deleteKey,hf]
    · simp [Gravel.deleteKey,hf,hslots.index.get hf,hidx]
  | some v =>
    obtain ⟨i,e⟩ := v
    have hf : f ≠ 0 := by
      rintro rfl
      rw [hslots.index.tracks.rep.zero] at hidx
      cases hidx
    have hget := StoreRep.indexed h.holds hidx
    obtain ⟨s,hbin⟩ : ∃ s, db.bins[i]? = some s :=
      ⟨_,getElem?_eq_getElem (hslots.placed f i e hidx)⟩
    obtain ⟨s',hdrop,hgeom,hlegible,hholds⟩ := BinHolds.drop (h.holds.bins i s hbin)
      (hslots.bins i s hbin) hidx
    obtain ⟨index,hremove,hstill,_⟩ := hslots.index.remove hf
    have hset := h.holds.set hbin index
      (deleteStep_slots hslots (.drop hf hget hbin hdrop hremove)) hstill.map_eq hgeom
      (fun j x hj => by rw [hidx] at hj; cases hj; rfl) (by simp) (fun _ => rfl)
      (fun _ _ hl => hl) hholds
    rw [update_eq_self_iff.mpr rfl] at hset
    refine ⟨_,by simp only [Gravel.deleteKey,hf,if_false,hget,hbin,hdrop,hremove,bind_eq_bind,
      bind_some]; rfl,hset,fun b hb => ?_,h.auto⟩
    rcases mem_or_eq_of_mem_set hb with hb | rfl
    · exact h.legible b hb
    · exact hlegible (h.legible s (mem_of_getElem? hbin))

theorem Serves.delete (featIds : List UInt64) : ∀ (db : GravelDB) (st : VectorStore),
    Serves auto db st → ∃ db', graveldbBatchDelete db featIds = some db' ∧
      Serves auto db' (featIds.foldl VectorStore.deleteOne st) := by
  induction featIds with
  | nil => exact fun db st h => ⟨db,rfl,h⟩
  | cons f rest ih =>
    intro db st h
    obtain ⟨db1,hdel,h1⟩ := h.deleteKey f
    obtain ⟨db',hrest,h'⟩ := ih db1 _ h1
    exact ⟨db',by simp [graveldbBatchDelete,hdel,hrest],h'⟩

end Deletes

section Quiet

variable {auto : Bool} {db : GravelDB} {st : VectorStore} {s s' : DimBin} {m : OverlayVectors}
  {L : Entries} {f : DimBin → Option DimBin}

theorem Serves.refreshed {i : Nat} (h : Serves auto db st) (hs : db.bins[i]? = some s)
    (hf : ∀ m L, BinRep s m L → ∃ s', f s = some s' ∧ Refreshed L s s') :
    ∃ s', f s = some s' ∧ ∀ m L, BinRep s m L → Refreshed L s s' := by
  obtain ⟨m,L,hrep,_⟩ := (h.holds.bins i s hs).rep
  obtain ⟨s',hs',_⟩ := hf m L hrep
  refine ⟨s',hs',fun m L hrep => ?_⟩
  obtain ⟨s1,hs1,hr⟩ := hf m L hrep
  cases hs'.symm.trans hs1
  exact hr

theorem Serves.each (h : Serves auto db st)
    (hf : ∀ s ∈ db.bins, ∀ m L, BinRep s m L → ∃ s', f s = some s' ∧ Refreshed L s s') :
    ∃ bins, forBins f db.bins = some bins ∧ ∀ db', db'.index = db.index →
      db'.registry = db.registry → db'.config = db.config → db'.bins = bins → Refresh db db' := by
  obtain ⟨bins,hbins⟩ : ∃ bins, forBins f db.bins = some bins := by
    refine forBins_total fun s hs => ?_
    obtain ⟨i,hi⟩ := mem_iff_getElem?.mp hs
    exact (h.refreshed hi (hf s hs)).imp fun _ hs' => hs'.1
  refine ⟨bins,hbins,fun db' hi hr hc hb => ⟨hi,hr,hc,by rw [hb,forBins_length hbins],?_⟩⟩
  intro i s' hs'
  obtain ⟨s,hs,hstep⟩ := forBins_get hbins (hb ▸ hs')
  obtain ⟨s1,hs1,hall⟩ := h.refreshed hs (hf s (mem_of_getElem? hs))
  cases hstep.symm.trans hs1
  exact ⟨s,hs,hall⟩

/-- A flush takes every buffered page of every bin. -/
def FlushFits (db : GravelDB) : Prop := ∀ s ∈ db.bins, s.writeBuf.count ≤ maxFlushBatch

def flushPhases (s : DimBin) : Option DimBin :=
  (flushWritePhase (flushKeyPhase s)).bind flushCleanPhase

theorem forBins_phases {bins : List DimBin} : ∀ {bins'}, forBins flushPhases bins = some bins' →
    ∃ bins1, forBins flushWritePhase (bins.map flushKeyPhase) = some bins1 ∧
      forBins flushCleanPhase bins1 = some bins' := by
  induction bins with
  | nil => exact fun h => ⟨[],rfl,h⟩
  | cons s rest ih =>
    intro bins' h
    obtain ⟨s',hs,h⟩ := bind_eq_some_iff.mp h
    obtain ⟨s1,hwrite,hclean⟩ := bind_eq_some_iff.mp hs
    obtain ⟨rest',hrest,h⟩ := bind_eq_some_iff.mp h
    cases h
    obtain ⟨rest1,hwrites,hcleans⟩ := ih hrest
    exact ⟨s1 :: rest1,by simp [forBins,hwrite,hwrites],by simp [forBins,hclean,hcleans]⟩

theorem Refreshed.flushed (h : BinRep s m L) (hone : s.writeBuf.count ≤ maxFlushBatch) :
    ∃ s', flushPhases s = some s' ∧ Refreshed L s s' := by
  obtain ⟨s1,s',hwrite,hclean,hw⟩ := flushPhases_written h.inv h.fits hone
  obtain ⟨hrep,hkey⟩ := h.moved hw
  have hfr := hw.frame.frame
  refine ⟨s',bind_eq_some_iff.mpr ⟨s1,hwrite,hclean⟩,⟨m,hrep⟩,hw.frame.geom,?_,?_⟩
  · rw [hfr]
    exact fun x hx => (hkey x).trans (if_neg hx).symm
  · rw [hfr]
    exact fun hl => hl.calm

theorem flush_refresh (h : Serves auto db st) (hfits : FlushFits db) :
    ∃ db', graveldbFlush db = some db' ∧ Refresh db db' := by
  obtain ⟨bins,hbins,hall⟩ := h.each fun s hs m L hrep => Refreshed.flushed hrep (hfits s hs)
  obtain ⟨bins1,hwrites,hcleans⟩ := forBins_phases hbins
  exact ⟨{ db with bins := bins },by simp [graveldbFlush,hwrites,hcleans],hall _ rfl rfl rfl rfl⟩

theorem Refreshed.begun (h : BinRep s m L) (hone : s.writeBuf.count ≤ maxFlushBatch)
    (hck : s.inCheckpoint = false) {pools : Nat} (hpools : pools < slabMaxPools) :
    ∃ s', dimbinCheckpointBegin pools s = some s' ∧ Refreshed L s s' := by
  obtain ⟨hover,_⟩ := h.no_overlay hck
  have hidle : OverlayIdle s := by
    rw [OverlayIdle,hover]
    exact ⟨rfl,rfl⟩
  obtain ⟨s',hbegin,hrep,_,hgeom,hkey⟩ := h.checkpointBegin (.inl hone) hidle hpools
  refine ⟨s',hbegin,⟨_,hrep⟩,hgeom,fun x _ => by simp [hkey,hidle.2],fun _ _ => ?_⟩
  obtain ⟨s1,_,hs'⟩ := bind_eq_some_iff.mp hbegin
  cases hs'
  simp only [overlayCreate,if_pos hpools]
  rfl

theorem stepFlushing_refresh (h : Serves auto db st) (hfits : FlushFits db)
    (hpools : ∀ s ∈ db.bins, s.inCheckpoint = false → registeredPools db < slabMaxPools)
    {p : CkptProgress}
    (hp : Unopened db.ckptProgress p.currentBin) :
    ∃ db', stepFlushing db p = some db' ∧ Refresh db db' := by
  unfold stepFlushing
  split
  · exact ⟨_,rfl,.same rfl rfl rfl rfl⟩
  · rename_i s hs
    have hck := (h.holds.slots.bins _ s hs).unopened hp
    obtain ⟨s',hbegin,hall⟩ := h.refreshed hs fun m L hrep => Refreshed.begun hrep
      (hfits s (mem_of_getElem? hs)) hck (hpools s (mem_of_getElem? hs) hck)
    rw [hbegin]
    exact ⟨_,rfl,rfl,rfl,rfl,length_set,forall_modifyBin ⟨s,hs,hall⟩
      fun i b _ hb => ⟨b,hb,fun _ _ hrep => .refl hrep⟩⟩

theorem Refreshed.ended (h : BinRep s m L) (hroom : EndRoom s) :
    ∃ s', dimbinCheckpointEnd s = some s' ∧ Refreshed L s s' := by
  obtain ⟨s',hend,hrep,hck,hgeom,hkey⟩ := h.checkpointEnd hroom
  exact ⟨s',hend,⟨_,hrep⟩,hgeom,fun x _ => hkey x,fun _ hin => by simp [hck] at hin⟩

/-- The first half of a checkpoint flushes and takes a slab pool for each bin, its last step writes
to the pages. -/
def StepFits (db : GravelDB) : Prop :=
  FlushFits db ∧ (∀ s ∈ db.bins, s.inCheckpoint = false → registeredPools db < slabMaxPools) ∧
    (db.ckptProgress.phase = .finishing → ∀ s ∈ db.bins, EndRoom s)

theorem checkpointStep_refresh (h : Serves auto db st) (hfits : StepFits db) (budget : UInt32) :
    ∃ db', graveldbCheckpointStep db budget = some db' ∧ Refresh db db' := by
  unfold graveldbCheckpointStep
  split
  · rename_i hphase
    exact stepFlushing_refresh h hfits.1 hfits.2.1 (.inl hphase)
  · rename_i hphase
    exact stepFlushing_refresh h hfits.1 hfits.2.1 (.inr ⟨hphase,Nat.le_refl _⟩)
  · split
    · exact ⟨_,rfl,.same rfl rfl rfl rfl⟩
    · refine ⟨_,rfl,?_⟩
      unfold stepDumping
      simp only
      split_ifs
      · exact .same rfl rfl rfl rfl
      · exact .same rfl rfl rfl rfl
  · rename_i hphase
    obtain ⟨bins,hends,hall⟩ := h.each fun s hs m L hrep =>
      Refreshed.ended hrep (hfits.2.2 hphase s hs)
    rw [stepFinishing,hends]
    exact ⟨_,rfl,hall _ rfl rfl rfl rfl⟩

end Quiet

section Puts

variable {auto : Bool} {db : GravelDB} {st : VectorStore} {s : DimBin} {m : OverlayVectors}
  {L : Entries} {items : List PutItem} {dim n : Nat}

/-- Room in one bin. In a checkpoint the vectors go to the overlay, which has a budget of 0. -/
def BinFits (s : DimBin) (n : Nat) : Prop :=
  s.bumpPtr + n < 2 ^ 32 ∧ if s.inCheckpoint = true then OverlayRoom s n ∧
      s.overlay.budgetBytes = 0 ∧
      ∀ w ∈ replayEntries s.overlay, w.entryId < s.bumpPtr ∧ w.entryId ∉ s.freeList
    else BufferRoom s [] n

def DimFits (db : GravelDB) (dim n : Nat) : Prop :=
  0 < dim ∧ PlainDim db.config dim ∧
    (∀ i ∈ dimRegistryFind db.registry dim, ∀ s ∈ db.bins[i]?, BinFits s n) ∧
    ((dimRegistryFind db.registry dim).isNone → db.config.autoCreateBins = true →
      db.dir.opens dim = true ∧ CreateRoom db.config n dim)

def PutFits (db : GravelDB) (items : List PutItem) : Prop :=
  (∀ item ∈ items, DimFits db item.dim (items.filter (fun x => x.dim = item.dim)).length) ∧
    IndexRoom db.index items.length ∧ db.bins.length + items.length ≤ 24576

theorem overlay_owned (h : BinRep s m L) (hck : s.inCheckpoint = true)
    (hspace : OverlaySpace s n)
    (hheld : ∀ w ∈ replayEntries s.overlay, w.entryId < s.bumpPtr ∧ w.entryId ∉ s.freeList) :
    OverlayOwned s := by
  intro e he
  obtain ⟨t,_,hget,_⟩ := get_rep (h.overlayRep hck) (hspace.visible e)
  rw [overlayHolds,hget] at he
  obtain ⟨d,hd⟩ := isSome_iff_exists.mp he
  obtain ⟨w,hw,rfl⟩ := mem_of_lastWrite ((h.replays e).trans hd)
  exact hheld w hw

theorem PutFits.room (h : PutFits db items) (hs : Serves auto db st) : BatchRoom db items := by
  refine ⟨fun item hitem => ?_,h.2.1,h.2.2⟩
  obtain ⟨hpos,_,hbin,hnew⟩ := h.1 item hitem
  refine ⟨hpos,?_⟩
  split
  · rename_i i hfind
    intro s hbin'
    obtain ⟨hbump,hfits⟩ := hbin i hfind s hbin'
    refine ⟨hbump,?_⟩
    split_ifs at hfits ⊢ with hck
    · obtain ⟨m,L,hrep,_⟩ := (hs.holds.bins i s hbin').rep
      exact ⟨hfits.1,overlay_owned hrep hck hfits.1 hfits.2.2⟩
    · exact hfits
  · rename_i hfind
    exact hnew (by simp [hfind])

theorem Serves.put (h : Serves auto db st) (hfits : PutFits db items) :
    ∃ db' rc, graveldbBatchPut db items = some (db',rc) ∧ Serves auto db' (st.putBatch auto items) := by
  obtain ⟨db',hput,hdone⟩ := graveldbBatchPut_ledger h.holds (hfits.room h)
  have hunlimited : ∀ g ∈ Runs.runs PutItem.dim (sortByDim items),
      (∀ limit ∈ limitOf db g.1, limit.budget = 0) ∧ ∀ item ∈ g.2, item.dim = g.1 := by
    intro g hg
    refine ⟨fun limit hlimit => ?_,(Runs.runs_key PutItem.dim _ g hg).2⟩
    obtain ⟨item,hitem,hdim⟩ := Backpressure.mem_runDims (List.mem_map_of_mem hg)
    obtain ⟨i,hfind,hlimit⟩ := bind_eq_some_iff.mp hlimit
    obtain ⟨s,hbin,hlimit⟩ := bind_eq_some_iff.mp hlimit
    obtain ⟨_,hroom⟩ := (hfits.1 item hitem).2.2.1 i (by rw [hdim]; exact hfind) s hbin
    split_ifs at hlimit hroom
    cases hlimit
    exact hroom.2.1
  obtain ⟨hledger,hrefused⟩ := @Ledger.putGroups_unlimited db.config.autoCreateBins _ _
    ⟨st,[],.ok⟩ hunlimited
  have hset := hdone.settles
  rw [ledger,hledger,hrefused] at hset
  refine ⟨db',_,hput,⟨?_,hdone.legible (fun dim hd => ?_) h.legible,?_⟩⟩
  · rw [VectorStore.putBatch,← h.auto]
    exact hset.mono (fun _ hf => by cases hf)
  · obtain ⟨item,hitem,rfl⟩ := Backpressure.mem_runDims hd
    exact (hfits.1 item hitem).2.1
  · rw [hdone.outside.config]
    exact h.auto

end Puts

section Runs

variable {auto : Bool} {db : GravelDB} {st : VectorStore}

/-- Room for a call. Gets and asynchronous flushes are not looked at. -/
def Fits (db : GravelDB) : StoreOp → Prop
  | .put items => PutFits db items
  | .delete _ => True
  | .flush => FlushFits db
  | .checkpointStep _ => StepFits db
  | _ => False

theorem step_serves (s : Session) (st : VectorStore) (op : StoreOp) (h : Serves auto s.db st)
    (hfits : Fits s.db op) :
    ∃ s', stepSession s op = some s' ∧ Serves auto s'.db (st.next auto op) := by
  cases op with
  | put items =>
    obtain ⟨db',rc,hput,h'⟩ := h.put hfits
    exact ⟨{ s with db := db' },by simp [stepSession,applyOp,hput],h'⟩
  | delete featIds =>
    obtain ⟨db',hdel,h'⟩ := Serves.delete featIds s.db st h
    exact ⟨{ s with db := db' },by simp [stepSession,applyOp,hdel],h'⟩
  | flush =>
    obtain ⟨db',hflush,hr⟩ := flush_refresh h hfits
    exact ⟨{ s with db := db' },by simp [stepSession,applyOp,hflush],
      h.refresh hr (h.holds.slots.flushed (FlushFrames.flush_flushed hflush))⟩
  | checkpointStep budget =>
    obtain ⟨db',hstep,hr⟩ := checkpointStep_refresh h hfits budget
    exact ⟨{ s with db := db' },by simp [stepSession,applyOp,hstep],
      h.refresh hr (checkpointStep_slots h.holds.slots hstep)⟩
  | _ => exact hfits.elim

theorem open_serves {config : GravelDBConfig} {ps : UInt32} (hdims : config.dims = [])
    (hopen : graveldbOpen config (emptyDir ps) = some db) :
    Serves config.autoCreateBins db ⟨[],fun _ => none⟩ := by
  obtain ⟨index,hindex,hbins,_⟩ := open_empty hopen
  rw [hdims] at hbins
  cases hbins
  exact ⟨Backpressure.holds_unopened hindex,by simp [unopenedStore],rfl⟩

end Runs

section Room

instance (s : DimBin) (n : Nat) : Decidable (TrackerRoom s n) := inferInstanceAs (Decidable (_ ∧ _))

instance (s : DimBin) (written : List Nat) (n : Nat) : Decidable (BufferRoom s written n) :=
  inferInstanceAs (Decidable (_ ∧ _))

instance (s : DimBin) : Decidable (EndRoom s) := inferInstanceAs (Decidable (_ ∨ _))

instance (s : DimBin) (n : Nat) : Decidable (BinFits s n) := inferInstanceAs (Decidable (_ ∧ _))

instance (config : GravelDBConfig) (dim : Nat) : Decidable (PlainDim config dim) :=
  inferInstanceAs (Decidable (∀ g ∈ dimbinGeometry dim config.entryAlign config.pageSize,
    g.entriesPerPage = 1 → g.entrySize = g.pageSize))

instance (db : GravelDB) (dim n : Nat) : Decidable (DimFits db dim n) :=
  inferInstanceAs (Decidable (_ ∧ _))

instance : ∀ (db : GravelDB) (op : StoreOp), Decidable (Fits db op)
  | _, .put _ => inferInstanceAs (Decidable (_ ∧ _))
  | _, .delete _ => isTrue trivial
  | db, .flush => inferInstanceAs (Decidable (∀ s ∈ db.bins, _))
  | db, .checkpointStep _ => inferInstanceAs (Decidable ((∀ s ∈ db.bins, _) ∧ _))
  | _, .get _ _ => isFalse id
  | _, .flushSubmit _ => isFalse id
  | _, .land _ _ => isFalse id
  | _, .flushPoll _ => isFalse id
  | _, .checkpoint => isFalse id

end Room

def roomyConfig : GravelDBConfig := { Backpressure.tightConfig with overlayBudget := 0 }

/-- Both vectors are replaced in the middle of a checkpoint, and one of them is deleted. -/
def checkpointedRun : List StoreOp :=
  [.put [vectorOf 1,vectorOf 2],.checkpointStep 0,.put [vectorOf 2,⟨1,1,some (fun _ => 7)⟩],
    .checkpointStep 0,.delete [2],.checkpointStep 0,.checkpointStep 0,.checkpointStep 0,.flush]

end Gravel.Proofs.StoreRuns
