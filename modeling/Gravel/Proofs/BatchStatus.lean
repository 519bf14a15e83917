import Gravel.Proofs.StoreBatches

namespace Gravel.Proofs.BatchStatus
open Runs StoreRefinement Spec List Option Function

section Accumulated

variable {db db' : GravelDB} {dimIdx : Nat}

@[simp] theorem then_ok (rc : Status) : rc.then .ok = rc := rfl

theorem then_eq_ok {rc rc' : Status} : rc.then rc' = .ok ↔ rc = .ok ∧ rc' = .ok := by
  cases rc' <;> simp [Status.then]

theorem then_assoc (rc rc' rc'' : Status) : (rc.then rc').then rc'' = rc.then (rc'.then rc'') := by
  cases rc'' <;> rfl

theorem putItem_from (db : GravelDB) (dimIdx : Nat) (deferred : List EmbWriteEntry) (rc : Status)
    (item : PutItem) : putItem db dimIdx deferred rc item =
      (putItem db dimIdx [] .ok item).map (fun r => (r.1,deferred ++ r.2.1,rc.then r.2.2)) := by
  unfold putItem
  cases item.emb with
  | none => simp
  | some emb =>
    by_cases hid : item.featId = 0
    · simp [hid]
    · simp only [if_neg hid]
      cases resolveEntry db dimIdx item.featId with
      | none => rfl
      | some r =>
        obtain ⟨db,entry⟩ := r
        cases entry with
        | none => simp [Status.then]
        | some entry =>
          cases h : bufKeyIn db dimIdx entry item.featId <;> simp [h]

theorem putItems_from (items : List PutItem) : ∀ (db : GravelDB) (deferred : List EmbWriteEntry)
    (rc : Status), putItems db dimIdx deferred rc items =
      (putItems db dimIdx [] .ok items).map (fun r => (r.1,deferred ++ r.2.1,rc.then r.2.2)) := by
  induction items with
  | nil => intro db deferred rc; simp [putItems]
  | cons item rest ih =>
    intro db deferred rc
    rw [putItems,putItems,putItem_from db dimIdx deferred rc]
    cases putItem db dimIdx [] .ok item with
    | none => rfl
    | some r =>
      obtain ⟨db1,ws,rc1⟩ := r
      simp only [map_some,bind_eq_bind,bind_some]
      rw [ih db1 (deferred ++ ws),ih db1 ws,Option.map_map]
      simp [comp_def,then_assoc]

theorem putGroup_from (db : GravelDB) (rc : Status) (items : List PutItem) :
    putGroup db dimIdx rc items =
      (putGroup db dimIdx .ok items).map (fun r => (r.1,rc.then r.2)) := by
  unfold putGroup
  cases reserveIn db dimIdx items.length with
  | none => rfl
  | some db1 =>
    simp only [bind_eq_bind,bind_some]
    rw [putItems_from items db1 [] rc]
    cases putItems db1 dimIdx [] .ok items with
    | none => rfl
    | some r =>
      obtain ⟨db2,ws,rc1⟩ := r
      simp only [map_some,bind_some,nil_append]
      cases putBatchIn db2 dimIdx ws with
      | none => rfl
      | some r => simp [then_assoc]

end Accumulated

section Turns

def Taken (db : GravelDB) (dimIdx : Nat) (item : PutItem) : Prop :=
  item.emb.isSome = true ∧ item.featId ≠ 0 ∧
    ∃ index j entry, hashIndexGet db.index item.featId = some (index,some (j,entry)) ∧ j ≠ dimIdx

/-- No key of a dim is under another dim when its turn comes. -/
def KeysOwn (dimIdx : Nat) (db : GravelDB) : List PutItem → Prop
  | [] => True
  | item :: rest => ¬ Taken db dimIdx item ∧
    ∀ db' ws rc, putItem db dimIdx [] .ok item = some (db',ws,rc) → KeysOwn dimIdx db' rest

/-- The overlay is below its budget whenever the turn of a vector comes, and has an object for it if
it is new. -/
def OverlayTakes (s : DimBin) : List EmbWriteEntry → Prop
  | [] => True
  | e :: rest => overlayFull s.overlay = false ∧
    ∀ overlay rc, overlayPut (poolServes s.geom.dim) s.overlay e.entryId e.data s.geom.dim =
      some (overlay,rc) → rc = .ok ∧ OverlayTakes { s with overlay := overlay } rest

/-- What the keys of one dim need. The overlay is asked once all the keys are in the index. -/
def GroupGoes (db : GravelDB) (dimIdx : Nat) (items : List PutItem) : Prop :=
  ∀ db1, reserveIn db dimIdx items.length = some db1 → KeysOwn dimIdx db1 items ∧
    ∀ db2 ws rc, putItems db1 dimIdx [] .ok items = some (db2,ws,rc) →
      ∀ s ∈ db2.bins[dimIdx]?, s.inCheckpoint = true → OverlayTakes s ws

/-- What a batch needs: the dim of each group is known or may be made, and the group goes, each in
the state that the groups before it leave. -/
def GroupsGo (db : GravelDB) : List (Nat × List PutItem) → Prop
  | [] => True
  | (dim,items) :: rest =>
    ((dimRegistryFind db.registry dim).isSome = true ∨
      db.config.autoCreateBins = true ∧ db.dir.opens dim = true) ∧
    ∀ db1 dimIdx, resolveBin db dim = some (db1,some dimIdx) → GroupGoes db1 dimIdx items ∧
      ∀ db2 rc, putGroup db1 dimIdx .ok items = some (db2,rc) → GroupsGo db2 rest

def BatchGoes (db : GravelDB) (items : List PutItem) : Prop :=
  GroupsGo db (runs PutItem.dim (sortByDim items))

variable {db db' : GravelDB} {dimIdx : Nat} {item : PutItem} {items : List PutItem}
  {ws : List EmbWriteEntry} {rc rc' : Status}

theorem putItem_ok (h : putItem db dimIdx [] .ok item = some (db',ws,rc)) :
    rc = .ok ↔ ¬ Taken db dimIdx item := by
  unfold putItem at h
  cases hemb : item.emb with
  | none =>
    simp only [hemb,some_inj,Prod.mk.injEq] at h
    simp [Taken,hemb,← h.2.2]
  | some emb =>
    by_cases hid : item.featId = 0
    · simp only [hemb,if_pos hid,some_inj,Prod.mk.injEq] at h
      simp [Taken,hid,← h.2.2]
    simp only [hemb,if_neg hid] at h
    obtain ⟨⟨db1,entry⟩,hentry,h⟩ := bind_eq_some_iff.mp h
    obtain ⟨⟨index,found⟩,hget,hentry⟩ := bind_eq_some_iff.mp hentry
    have htaken : Taken db dimIdx item ↔ ∃ j e, found = some (j,e) ∧ j ≠ dimIdx := by
      simp [Taken,hemb,hid,hget]
    rw [htaken]
    cases found with
    | none =>
      obtain ⟨bin,_,hentry⟩ := bind_eq_some_iff.mp hentry
      obtain ⟨_,_,hentry⟩ := bind_eq_some_iff.mp hentry
      cases hentry
      obtain ⟨db2,_,h⟩ := bind_eq_some_iff.mp h
      simp only [Option.pure_def,some_inj,Prod.mk.injEq] at h
      simp [← h.2.2]
    | some place =>
      obtain ⟨j,e⟩ := place
      cases hentry
      by_cases hj : j = dimIdx
      · rw [if_pos hj] at h
        obtain ⟨db2,_,h⟩ := bind_eq_some_iff.mp h
        simp only [Option.pure_def,some_inj,Prod.mk.injEq] at h
        simp [← h.2.2,hj]
      · rw [if_neg hj] at h
        simp only [Option.pure_def,some_inj,Prod.mk.injEq] at h
        simp [← h.2.2,hj]

theorem putItems_ok : ∀ {db : GravelDB} {ws : List EmbWriteEntry} {rc : Status},
    putItems db dimIdx [] .ok items = some (db',ws,rc) → (rc = .ok ↔ KeysOwn dimIdx db items) := by
  induction items with
  | nil =>
    intro db ws rc h
    simp only [putItems,some_inj,Prod.mk.injEq] at h
    simp [KeysOwn,← h.2.2]
  | cons item rest ih =>
    intro db ws rc h
    obtain ⟨⟨db1,ws1,rc1⟩,hone,h⟩ := bind_eq_some_iff.mp h
    change putItems db1 dimIdx ws1 rc1 rest = _ at h
    rw [putItems_from] at h
    obtain ⟨⟨db2,ws2,rc2⟩,hrest,h⟩ := map_eq_some_iff.mp h
    cases h
    rw [then_eq_ok,putItem_ok hone,ih hrest,KeysOwn]
    refine and_congr_right fun _ => ⟨fun hown db' ws rc hput => ?_,fun hall => hall _ _ _ hone⟩
    rw [hone,some_inj,Prod.mk.injEq] at hput
    rw [← hput.1]
    exact hown

theorem putOverlay_ok : ∀ {s s' : DimBin} {rc : Status},
    putOverlay s ws = some (s',rc) → (rc = .ok ↔ OverlayTakes s ws) := by
  induction ws with
  | nil =>
    intro s s' rc h
    simp only [putOverlay,some_inj,Prod.mk.injEq] at h
    simp [OverlayTakes,← h.2]
  | cons e rest ih =>
    intro s s' rc h
    rw [putOverlay] at h
    cases hfull : overlayFull s.overlay with
    | true =>
      simp only [hfull,if_true,some_inj,Prod.mk.injEq] at h
      simp [OverlayTakes,hfull,← h.2]
    | false =>
      simp only [hfull,Bool.false_eq_true,if_false] at h
      obtain ⟨⟨overlay,rc1⟩,hput,h⟩ := bind_eq_some_iff.mp h
      by_cases hok : rc1 = .ok
      · simp only [hok,if_true] at h
        rw [ih h,OverlayTakes]
        simp [hfull,hput,hok]
      · simp only [hok,if_false,Option.pure_def,some_inj,Prod.mk.injEq] at h
        simp [OverlayTakes,hfull,hput,hok,← h.2]

theorem putBatchIn_ok (h : putBatchIn db dimIdx ws = some (db',rc)) :
    rc = .ok ↔ ∀ s ∈ db.bins[dimIdx]?, s.inCheckpoint = true → OverlayTakes s ws := by
  obtain ⟨s,hs,h⟩ := bind_eq_some_iff.mp h
  obtain ⟨⟨s',rc'⟩,hput,h⟩ := bind_eq_some_iff.mp h
  cases h
  simp only [hs,mem_def,some_inj,forall_eq']
  unfold dimbinPutBatch at hput
  split_ifs at hput with hnone hck
  · simp only [some_inj,Prod.mk.injEq] at hput
    simp [hnone,OverlayTakes,← hput.2]
  · rw [putOverlay_ok hput]
    simp [hck]
  · obtain ⟨s1,_,hput⟩ := bind_eq_some_iff.mp hput
    simp only [Option.pure_def,some_inj,Prod.mk.injEq] at hput
    simp [hck,← hput.2]

theorem putGroup_ok (h : putGroup db dimIdx .ok items = some (db',rc)) :
    rc = .ok ↔ GroupGoes db dimIdx items := by
  obtain ⟨db1,hreserve,h⟩ := bind_eq_some_iff.mp h
  obtain ⟨⟨db2,ws,rc1⟩,hputs,h⟩ := bind_eq_some_iff.mp h
  obtain ⟨⟨db3,rc2⟩,hbatch,h⟩ := bind_eq_some_iff.mp h
  cases h
  rw [then_eq_ok,putItems_ok hputs,putBatchIn_ok hbatch]
  simp only [GroupGoes,hreserve,some_inj,forall_eq']
  refine and_congr_right fun _ => ⟨fun hall db' ws' rc' hput => ?_,fun hall => hall _ _ _ hputs⟩
  rw [hputs,some_inj,Prod.mk.injEq,Prod.mk.injEq] at hput
  obtain ⟨rfl,rfl,_⟩ := hput
  exact hall

theorem resolveBin_eq_none {found : Option Nat} {dim : Nat}
    (h : resolveBin db dim = some (db',found)) :
    found = none ↔ ¬ ((dimRegistryFind db.registry dim).isSome = true ∨
      db.config.autoCreateBins = true ∧ db.dir.opens dim = true) := by
  unfold resolveBin at h
  cases hfind : dimRegistryFind db.registry dim with
  | some dimIdx =>
    simp only [hfind,some_inj,Prod.mk.injEq] at h
    simp [← h.2]
  | none =>
    simp only [hfind] at h
    split_ifs at h with hauto
    · obtain ⟨⟨db1,dimIdx⟩,_,h⟩ := bind_eq_some_iff.mp h
      simp only [Option.pure_def,some_inj,Prod.mk.injEq] at h
      simpa [← h.2] using hauto
    · simp only [some_inj,Prod.mk.injEq] at h
      simpa [← h.2] using hauto

theorem putGroups_ok {groups : List (Nat × List PutItem)} : ∀ {db : GravelDB} {rc : Status},
    putGroups db rc groups = some (db',rc') → (rc' = .ok ↔ rc = .ok ∧ GroupsGo db groups) := by
  induction groups with
  | nil =>
    intro db rc h
    simp only [putGroups,some_inj,Prod.mk.injEq] at h
    simp [GroupsGo,← h.2]
  | cons g rest ih =>
    intro db rc h
    obtain ⟨dim,items⟩ := g
    obtain ⟨⟨db1,found⟩,hbin,h⟩ := bind_eq_some_iff.mp h
    have hfound := resolveBin_eq_none hbin
    cases found with
    | none =>
      simp only [Option.pure_def,some_inj,Prod.mk.injEq] at h
      have hrc : rc' ≠ .ok := by
        rw [← h.2]
        split_ifs <;> simp
      simp [GroupsGo,hfound.mp rfl,hrc]
    | some dimIdx =>
      have hdim := not_not.mp (fun hno => some_ne_none dimIdx (hfound.mpr hno))
      obtain ⟨⟨db2,rc2⟩,hgroup,h⟩ := bind_eq_some_iff.mp h
      change putGroup db1 dimIdx rc items = _ at hgroup
      rw [putGroup_from] at hgroup
      obtain ⟨⟨db3,rc3⟩,hown,hgroup⟩ := map_eq_some_iff.mp hgroup
      cases hgroup
      rw [ih h,then_eq_ok,putGroup_ok hown,and_assoc,GroupsGo]
      simp [hdim,hbin,hown]

theorem graveldbBatchPut_ok (h : graveldbBatchPut db items = some (db',rc)) :
    rc = .ok ↔ BatchGoes db items := by
  rw [putGroups_ok h]
  exact and_iff_right rfl

/-- For a store that holds a map and has room the turns can be told from the map before the batch. -/
theorem batchGoes_iff_ledger {st : VectorStore} (h : Holds db st) (hroom : BatchRoom db items) :
    BatchGoes db items ↔ (ledger db st items).rc = .ok := by
  obtain ⟨db',hput,_⟩ := graveldbBatchPut_ledger h hroom
  exact (graveldbBatchPut_ok hput).symm

end Turns

end Gravel.Proofs.BatchStatus
