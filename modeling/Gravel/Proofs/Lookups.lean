import Gravel.Model.Batch
import Gravel.Proofs.HashIndex

namespace Gravel.Proofs.Lookups
open Rehash List Option

/-- Lookups do not change what later lookups find. This is so in any state in which no rehash is
in progress. -/
structure Settled (db : GravelDB) : Prop where
  index : Steady hashLayout db.index
  overlays : ∀ s ∈ db.bins, s.inCheckpoint = true → Steady overlayLayout s.overlay.table

theorem settled_still {db : GravelDB} (hindex : db.index.old = none)
    (hover : ∀ s ∈ db.bins, s.inCheckpoint = true → s.overlay.table.old = none) : Settled db where
  index := steady_still hindex
  overlays := fun s hs hc => steady_still (hover s hs hc)

section Drift

def DriftsBin (bin bin' : DimBin) : Prop :=
  ∃ table, Migrates overlayLayout bin.overlay.table table ∧
    bin' = { bin with overlay := { bin.overlay with table := table } }

structure Drifts (db db' : GravelDB) : Prop where
  index : Migrates hashLayout db.index db'.index
  bins : ∀ i : Nat, Option.Rel DriftsBin db.bins[i]? db'.bins[i]?

variable {db db' db'' : GravelDB} {bin bin' : DimBin} {e : Nat} {out : Nat → UInt8}

theorem DriftsBin.refl (bin : DimBin) : DriftsBin bin bin := ⟨_,.refl,rfl⟩

theorem Drifts.refl (db : GravelDB) : Drifts db db where
  index := .refl
  bins := fun i => by
    cases db.bins[i]? with
    | none => exact .none
    | some bin => exact .some (.refl bin)

theorem answers_cases {α β : Type} {x y : Option (α × β)} (h : x.map Prod.snd = y.map Prod.snd) :
    (x = none ∧ y = none) ∨ ∃ a b r, x = some (a,r) ∧ y = some (b,r) := by
  cases x with
  | none => cases y with
    | none => exact .inl ⟨rfl,rfl⟩
    | some _ => cases h
  | some v => cases y with
    | none => cases h
    | some w =>
      obtain ⟨a,r⟩ := v
      obtain ⟨b,r'⟩ := w
      cases h
      exact .inr ⟨a,b,r,rfl,rfl⟩

theorem hashIndexGet_migrates {idx idx' : HashIndex} {f : UInt64} {found : Option (Nat × Nat)}
    (h : hashIndexGet idx f = some (idx',found)) : Migrates hashLayout idx idx' := by
  unfold hashIndexGet at h
  split_ifs at h
  · cases h
    exact .refl
  · obtain ⟨⟨t,s⟩,hget,h⟩ := bind_eq_some_iff.mp h
    cases h
    exact .single (get_steps hget)

theorem hashIndexGet_drift {idx idx' : HashIndex} (hs : Steady hashLayout idx)
    (hm : Migrates hashLayout idx idx') (f : UInt64) :
    (hashIndexGet idx' f).map Prod.snd = (hashIndexGet idx f).map Prod.snd := by
  unfold hashIndexGet
  split_ifs
  · rfl
  · rcases answers_cases (hs idx' hm f) with ⟨hx,hy⟩ | ⟨a,b,r,hx,hy⟩
    · simp [hx,hy]
    · simp [hx,hy]

theorem overlay_drift (hc : bin.inCheckpoint = true → Steady overlayLayout bin.overlay.table)
    (hd : DriftsBin bin bin') (hin : bin.inCheckpoint = true) (e : Nat) :
    (overlayContains bin'.overlay e).map Prod.snd = (overlayContains bin.overlay e).map Prod.snd ∧
    (overlayGet bin'.overlay e).map Prod.snd = (overlayGet bin.overlay e).map Prod.snd := by
  obtain ⟨table,hm,rfl⟩ := hd
  simp only [overlayContains,overlayGet,overlayFind,migrates_capacity hm]
  split_ifs
  · exact ⟨rfl,rfl⟩
  · rcases answers_cases (hc hin table hm e) with ⟨hx,hy⟩ | ⟨a,b,r,hx,hy⟩
    · simp [hx,hy]
    · simp [hx,hy]

theorem overlayFind_migrates {ob ob' : OverlayBuffer} {slot : Option OverlaySlot}
    (h : overlayFind ob e = some (ob',slot)) :
    ∃ table, Migrates overlayLayout ob.table table ∧ ob' = { ob with table := table } := by
  unfold overlayFind at h
  split_ifs at h
  obtain ⟨⟨table,slot⟩,hget,h⟩ := bind_eq_some_iff.mp h
  cases h
  exact ⟨table,.single (get_steps hget),rfl⟩

theorem overlayContains_migrates {ob ob' : OverlayBuffer} {held : Bool}
    (h : overlayContains ob e = some (ob',held)) :
    ∃ table, Migrates overlayLayout ob.table table ∧ ob' = { ob with table := table } := by
  obtain ⟨⟨ob1,slot⟩,hfind,h⟩ := map_eq_some_iff.mp h
  cases h
  exact overlayFind_migrates hfind

theorem overlayGet_migrates {ob ob' : OverlayBuffer} {data : Option (Nat → UInt8)}
    (h : overlayGet ob e = some (ob',data)) :
    ∃ table, Migrates overlayLayout ob.table table ∧ ob' = { ob with table := table } := by
  obtain ⟨⟨ob1,slot⟩,hfind,h⟩ := map_eq_some_iff.mp h
  cases h
  exact overlayFind_migrates hfind

theorem DriftsBin.overlay {ob : OverlayBuffer} (hd : DriftsBin bin bin')
    (h : ∃ table, Migrates overlayLayout bin'.overlay.table table ∧
      ob = { bin'.overlay with table := table }) : DriftsBin bin { bin' with overlay := ob } := by
  obtain ⟨table,hm,rfl⟩ := hd
  obtain ⟨table',hm',rfl⟩ := h
  exact ⟨table',hm.trans hm',rfl⟩

theorem readBuffered_drift (hd : DriftsBin bin bin') (e : Nat) (out : Nat → UInt8) :
    readBuffered bin' e out = readBuffered bin e out := by
  obtain ⟨table,_,rfl⟩ := hd
  rfl

theorem readEntry_drifts {r : Resolved} (hd : DriftsBin bin bin') {bin'' : DimBin}
    (h : readEntry bin' e out = some (bin'',r)) : DriftsBin bin bin'' := by
  unfold readEntry at h
  split_ifs at h with hc
  · obtain ⟨⟨ob,held⟩,hcontains,h1⟩ := bind_eq_some_iff.mp h
    have hd1 := hd.overlay (overlayContains_migrates hcontains)
    simp only at h1
    split_ifs at h1
    · obtain ⟨⟨ob',data⟩,hget,h2⟩ := bind_eq_some_iff.mp h1
      cases h2
      exact hd1.overlay (overlayGet_migrates hget)
    · obtain ⟨r',_,h2⟩ := bind_eq_some_iff.mp h1
      cases h2
      exact hd1
  · obtain ⟨r',_,h1⟩ := bind_eq_some_iff.mp h
    cases h1
    exact hd

theorem readEntry_drift (hc : bin.inCheckpoint = true → Steady overlayLayout bin.overlay.table)
    (hd : DriftsBin bin bin') (e : Nat) (out : Nat → UInt8) :
    (readEntry bin' e out).map Prod.snd = (readEntry bin e out).map Prod.snd := by
  have hin : bin'.inCheckpoint = bin.inCheckpoint := by
    obtain ⟨table,_,rfl⟩ := hd
    rfl
  have hdim : bin'.geom.dim = bin.geom.dim := by
    obtain ⟨table,_,rfl⟩ := hd
    rfl
  by_cases hck : bin.inCheckpoint = true
  · rw [readEntry,readEntry,if_pos (hin.trans hck),if_pos hck]
    rcases answers_cases (overlay_drift hc hd hck e).1 with ⟨hx,hy⟩ | ⟨ob',ob,held,hx,hy⟩
    · rw [hx,hy]
      rfl
    · have hd' := hd.overlay (overlayContains_migrates hx)
      have hd0 := (DriftsBin.refl bin).overlay (overlayContains_migrates hy)
      simp only [hx,hy,bind_eq_bind,bind_some]
      cases held with
      | true =>
        have hget := (overlay_drift hc hd' hck e).2.trans (overlay_drift hc hd0 hck e).2.symm
        rcases answers_cases hget with ⟨hx',hy'⟩ | ⟨ob1',ob1,data,hx',hy'⟩
        · simp [hx',hy']
        · simp [hx',hy',hdim]
      | false =>
        have hbuf := (readBuffered_drift hd' e out).trans (readBuffered_drift hd0 e out).symm
        simp only [Bool.false_eq_true,if_false,hbuf]
        cases readBuffered { bin with overlay := ob } e out with
        | none => rfl
        | some r => rfl
  · rw [readEntry,readEntry,if_neg (fun h => hck (hin.symm.trans h)),if_neg hck,
      readBuffered_drift hd]
    cases readBuffered bin e out with
    | none => rfl
    | some r => rfl

theorem modifyBin_drifts {i : Nat} (hd : Drifts db db') (hbin : db.bins[i]? = some bin)
    (hb : DriftsBin bin bin') : Drifts db (modifyBin db' i bin') where
  index := hd.index
  bins := fun j => by
    by_cases hj : j = i
    · subst hj
      have hlt : j < db'.bins.length := by
        have hrel := hd.bins j
        rw [hbin] at hrel
        cases hrel' : db'.bins[j]? with
        | none =>
          rw [hrel'] at hrel
          cases hrel
        | some b => exact (List.getElem?_eq_some_iff.mp hrel').1
      simp only [modifyBin,getElem?_set_self hlt,hbin]
      exact .some hb
    · simp only [modifyBin,getElem?_set_ne (Ne.symm hj)]
      exact hd.bins j

def answer (db : GravelDB) (req : GetRequest) : Option (GetResult × Option (Nat × Nat)) :=
  (resolveGet db req).map Prod.snd

theorem resolveGet_drifts (hd : Drifts db db') {req : GetRequest}
    {a : GetResult × Option (Nat × Nat)} (h : resolveGet db' req = some (db'',a)) :
    Drifts db db'' := by
  obtain ⟨⟨index,found⟩,hget,h1⟩ := bind_eq_some_iff.mp h
  have hd1 : Drifts db { db' with index := index } :=
    ⟨hd.index.trans (hashIndexGet_migrates hget),hd.bins⟩
  cases found with
  | none =>
    cases h1
    exact hd1
  | some v =>
    obtain ⟨bin',hbin',h2⟩ := bind_eq_some_iff.mp h1
    cases hreq : req.out with
    | none =>
      rw [hreq] at h2
      cases h2
      exact hd1
    | some out =>
      rw [hreq] at h2
      obtain ⟨⟨bin'',r⟩,hread,h3⟩ := bind_eq_some_iff.mp h2
      cases h3
      have hrel := hd.bins v.1
      rw [show db'.bins[v.1]? = some bin' from hbin'] at hrel
      cases hbin : db.bins[v.1]? with
      | none =>
        rw [hbin] at hrel
        cases hrel
      | some bin =>
        rw [hbin] at hrel
        cases hrel with
        | some hb => exact modifyBin_drifts hd1 hbin (readEntry_drifts hb hread)

theorem answer_drift (hs : Settled db) (hd : Drifts db db') (req : GetRequest) :
    answer db' req = answer db req := by
  unfold answer resolveGet
  rcases answers_cases (hashIndexGet_drift hs.index hd.index req.featId) with
    ⟨hx,hy⟩ | ⟨idx',idx,found,hx,hy⟩
  · rw [hx,hy]
    rfl
  · rw [hx,hy]
    simp only [bind_eq_bind,bind_some]
    cases found with
    | none => rfl
    | some v =>
      have hrel := hd.bins v.1
      cases hbin : db.bins[v.1]? with
      | none =>
        rw [hbin] at hrel
        cases hbin' : db'.bins[v.1]? with
        | none => simp only [hbin,hbin',bind_none]
        | some b =>
          rw [hbin'] at hrel
          cases hrel
      | some bin =>
        rw [hbin] at hrel
        cases hbin' : db'.bins[v.1]? with
        | none =>
          rw [hbin'] at hrel
          cases hrel
        | some bin' =>
          rw [hbin'] at hrel
          cases hrel with
          | some hb =>
            have hdim : bin'.geom.dim = bin.geom.dim := by
              obtain ⟨table,_,rfl⟩ := hb
              rfl
            simp only [hbin,hbin',bind_some]
            cases req.out with
            | none => simp only [hdim,Option.pure_def,map_some]
            | some out =>
              have hread := readEntry_drift
                (hs.overlays bin (mem_of_getElem? hbin)) hb v.2 out
              rcases answers_cases hread with ⟨hx',hy'⟩ | ⟨b',b,r,hx',hy'⟩
              · simp [hx',hy']
              · simp [hx',hy']

end Drift

def DiskMiss (db : GravelDB) (f : UInt64) (i : Nat) (bin : DimBin) (e : Nat) : Prop :=
  (hashIndexGet db.index f).map Prod.snd = some (some (i,e)) ∧ db.bins[i]? = some bin ∧
    (bin.inCheckpoint = true → (overlayContains bin.overlay e).map Prod.snd = some false) ∧
    pagemapLookup bin.writeBuf.slots bin.writeBuf.capacity (bin.geom.pageOf e) = some none

section Misses

variable {db : GravelDB} {bin : DimBin} {e e' : Nat} {out : Nat → UInt8} {r : Resolved}

theorem readEntry_left (out : Nat → UInt8)
    (hover : bin.inCheckpoint = true → (overlayContains bin.overlay e).map Prod.snd = some false)
    (hpage : pagemapLookup bin.writeBuf.slots bin.writeBuf.capacity (bin.geom.pageOf e) =
      some none) : (readEntry bin e out).map Prod.snd = some ⟨⟨bin.geom.dim,out⟩,some e⟩ := by
  have hbuf : ∀ ob, readBuffered { bin with overlay := ob } e out =
      some ⟨⟨bin.geom.dim,out⟩,some e⟩ := by
    intro ob
    simp [readBuffered,hpage]
  unfold readEntry
  split_ifs with hc
  · obtain ⟨⟨ob,held⟩,hcontains,hheld⟩ := map_eq_some_iff.mp (hover hc)
    cases hheld
    simp [hcontains,hbuf]
  · simp [show readBuffered bin e out = some ⟨⟨bin.geom.dim,out⟩,some e⟩ from hbuf bin.overlay]

theorem readBuffered_left (h : readBuffered bin e out = some r) (hr : r.read = some e') : e' = e ∧
      pagemapLookup bin.writeBuf.slots bin.writeBuf.capacity (bin.geom.pageOf e) = some none := by
  obtain ⟨page,hpage,h1⟩ := bind_eq_some_iff.mp h
  cases page with
  | some buf =>
    cases h1
    cases hr
  | none =>
    cases h1
    cases hr
    exact ⟨rfl,hpage⟩

theorem left_readEntry {bin' : DimBin}
    (h : readEntry bin e out = some (bin',r)) (hr : r.read = some e') : e' = e ∧
      (bin.inCheckpoint = true → (overlayContains bin.overlay e).map Prod.snd = some false) ∧
      pagemapLookup bin.writeBuf.slots bin.writeBuf.capacity (bin.geom.pageOf e) = some none := by
  unfold readEntry at h
  split_ifs at h with hc
  · obtain ⟨⟨ob,held⟩,hcontains,h1⟩ := bind_eq_some_iff.mp h
    cases held with
    | true =>
      obtain ⟨⟨ob',data⟩,_,h2⟩ := bind_eq_some_iff.mp h1
      cases h2
      cases hr
    | false =>
      obtain ⟨r',hbuf,h2⟩ := bind_eq_some_iff.mp h1
      cases h2
      obtain ⟨he,hpage⟩ := readBuffered_left hbuf hr
      exact ⟨he,fun _ => by simp [hcontains],hpage⟩
  · obtain ⟨r',hbuf,h1⟩ := bind_eq_some_iff.mp h
    cases h1
    obtain ⟨he,hpage⟩ := readBuffered_left hbuf hr
    exact ⟨he,fun hin => absurd hin hc,hpage⟩

theorem answer_read {req : GetRequest} {result : GetResult} {v : Nat × Nat}
    (h : answer db req = some (result,some v)) : ∃ bin, DiskMiss db req.featId v.1 bin v.2 := by
  obtain ⟨⟨db',a⟩,hget,ha⟩ := map_eq_some_iff.mp h
  cases ha
  obtain ⟨⟨index,found⟩,hidx,h1⟩ := bind_eq_some_iff.mp hget
  cases found with
  | none => cases h1
  | some w =>
    obtain ⟨bin,hbin,h2⟩ := bind_eq_some_iff.mp h1
    cases hreq : req.out with
    | none =>
      rw [hreq] at h2
      cases h2
    | some out =>
      rw [hreq] at h2
      obtain ⟨⟨bin',r⟩,hread,h3⟩ := bind_eq_some_iff.mp h2
      obtain ⟨e',he',hv⟩ : ∃ e', r.read = some e' ∧ (w.1,e') = v := by
        have heq := (Prod.mk.inj (Prod.mk.inj (Option.some.inj h3)).2).2
        exact map_eq_some_iff.mp heq
      obtain ⟨rfl,hover,hpage⟩ := left_readEntry hread he'
      subst hv
      exact ⟨bin,by simp [hidx],hbin,hover,hpage⟩

theorem DiskMiss.answer {f : UInt64} {i : Nat} (h : DiskMiss db f i bin e) (out : Nat → UInt8) :
    answer db ⟨f,some out⟩ = some (⟨bin.geom.dim,out⟩,some (i,e)) := by
  obtain ⟨hidx,hbin,hover,hpage⟩ := h
  obtain ⟨⟨index,found⟩,hget,hfound⟩ := map_eq_some_iff.mp hidx
  cases hfound
  obtain ⟨⟨bin',r⟩,hread,hr⟩ := map_eq_some_iff.mp (readEntry_left out hover hpage)
  cases hr
  simp [Lookups.answer,resolveGet,hget,hbin,hread]

end Misses

end Gravel.Proofs.Lookups
