import Gravel.Proofs.Lookups
import Gravel.Proofs.Slots

namespace Gravel.Proofs.BatchGet
open HashIndex Lookups Rehash Slots List Option

section Resolve

variable {db db' : GravelDB} {k : Nat} {reqs : List GetRequest} {results : List GetResult}
  {reads : List DiskRead}

inductive Resolves (db : GravelDB) : Nat → List GetRequest → List GetResult → List DiskRead → Prop
  | nil {k : Nat} : Resolves db k [] [] []
  | cons {k : Nat} {req : GetRequest} {result : GetResult} {read : Option (Nat × Nat)}
      {reqs : List GetRequest} {results : List GetResult} {reads : List DiskRead}
      (head : answer db req = some (result,read))
      (tail : Resolves db (k + 1) reqs results reads) :
      Resolves db k (req :: reqs) (result :: results)
        ((read.map (fun r => (⟨k,r.1,r.2⟩ : DiskRead))).toList ++ reads)

theorem resolveGets_resolves (hs : Settled db) (reqs : List GetRequest) :
    ∀ (k : Nat) (db' db'' : GravelDB) results reads, Drifts db db' →
    resolveGets db' k reqs = some (db'',results,reads) →
    Drifts db db'' ∧ Resolves db k reqs results reads := by
  induction reqs with
  | nil =>
    intro k db' db'' results reads hd h
    cases h
    exact ⟨hd,.nil⟩
  | cons req rest ih =>
    intro k db' db'' results reads hd h
    obtain ⟨⟨db1,result,read⟩,hget,h1⟩ := bind_eq_some_iff.mp h
    obtain ⟨⟨db2,results',reads'⟩,hrest,h2⟩ := bind_eq_some_iff.mp h1
    obtain ⟨hd2,htail⟩ := ih (k + 1) db1 db2 results' reads' (resolveGet_drifts hd hget) hrest
    have hhead : answer db req = some (result,read) := by
      rw [← answer_drift hs hd req,answer,hget]
      rfl
    cases h2
    exact ⟨hd2,.cons hhead htail⟩

theorem Resolves.resolveGets (hs : Settled db) (h : Resolves db k reqs results reads) :
    ∀ db', Drifts db db' → ∃ db'', resolveGets db' k reqs = some (db'',results,reads) ∧
      Drifts db db'' := by
  induction h with
  | nil => exact fun db' hd => ⟨db',rfl,hd⟩
  | cons head _ ih =>
    intro db' hd
    rw [← answer_drift hs hd] at head
    obtain ⟨⟨db1,a⟩,hget,ha⟩ := map_eq_some_iff.mp head
    cases ha
    obtain ⟨db2,hrest,hd2⟩ := ih db1 (resolveGet_drifts hd hget)
    refine ⟨db2,?_,hd2⟩
    simp only [Gravel.resolveGets,hget,hrest,bind_eq_bind,bind_some,Option.pure_def]

theorem resolves_total (reqs : List GetRequest) (h : ∀ req ∈ reqs, (answer db req).isSome) :
    ∀ k, ∃ results reads, Resolves db k reqs results reads := by
  induction reqs with
  | nil => exact fun k => ⟨[],[],.nil⟩
  | cons req rest ih =>
    intro k
    obtain ⟨⟨result,read⟩,hhead⟩ := isSome_iff_exists.mp (h req (mem_cons_self ..))
    obtain ⟨results,reads,htail⟩ := ih (fun r hr => h r (mem_cons_of_mem _ hr)) (k + 1)
    exact ⟨_,_,.cons hhead htail⟩

theorem Resolves.length (h : Resolves db k reqs results reads) : results.length = reqs.length := by
  induction h with
  | nil => rfl
  | cons _ _ ih => simp [ih]

theorem Resolves.read_ge (h : Resolves db k reqs results reads) : ∀ r ∈ reads, k ≤ r.reqIdx := by
  induction h with
  | nil => simp
  | cons _ _ ih =>
    intro r hr
    rcases mem_append.mp hr with hr | hr
    · obtain ⟨v,_,rfl⟩ := map_eq_some_iff.mp (mem_toList.mp hr)
      exact Nat.le_refl _
    · exact Nat.le_of_succ_le (ih r hr)

theorem Resolves.nodup (h : Resolves db k reqs results reads) :
    (reads.map DiskRead.reqIdx).Nodup := by
  induction h with
  | nil => exact nodup_nil
  | @cons k req result read reqs results reads head tail ih =>
    cases read with
    | none => exact ih
    | some v =>
      refine nodup_cons.mpr ⟨fun hmem => ?_,ih⟩
      obtain ⟨r,hr,heq⟩ := List.mem_map.mp hmem
      have := tail.read_ge r hr
      simp only at heq
      omega

theorem Resolves.at (h : Resolves db k reqs results reads) :
    ∀ (i : Nat) req, reqs[i]? = some req → ∃ result read,
      answer db req = some (result,read) ∧ results[i]? = some result ∧
      (∀ r ∈ reads, r.reqIdx = k + i → ∃ v, read = some v ∧ r = ⟨k + i,v.1,v.2⟩) ∧
      (∀ v, read = some v → (⟨k + i,v.1,v.2⟩ : DiskRead) ∈ reads) := by
  induction h with
  | nil => simp
  | @cons k req result read reqs results reads head tail ih =>
    intro i req' hi
    cases i with
    | zero =>
      cases hi
      refine ⟨result,read,head,rfl,?_,?_⟩
      · intro r hr hidx
        rcases mem_append.mp hr with hr | hr
        · obtain ⟨v,hv,rfl⟩ := map_eq_some_iff.mp (mem_toList.mp hr)
          exact ⟨v,hv,rfl⟩
        · have := tail.read_ge r hr
          omega
      · rintro v rfl
        simp
    | succ i =>
      obtain ⟨result',read',hget,hres,honly,hmem⟩ := ih i req' hi
      have hk : k + (i + 1) = k + 1 + i := by omega
      rw [hk]
      refine ⟨result',read',hget,hres,?_,fun v hv => mem_append_right _ (hmem v hv)⟩
      intro r hr hidx
      rcases mem_append.mp hr with hr | hr
      · obtain ⟨v,_,rfl⟩ := map_eq_some_iff.mp (mem_toList.mp hr)
        simp only at hidx
        omega
      · exact honly r hr hidx

end Resolve

section Serve

variable {db : GravelDB} {junk : Nat → UInt8} {n i : Nat} {r : DiskRead}

def served (db : GravelDB) (junk : Nat → UInt8) (n : Nat) (r : DiskRead) (result : GetResult) :
    GetResult :=
  match db.bins[r.binIdx]? with
  | some bin =>
    let out := if n = 1 ∧ bin.geom.entriesPerPage = 1 then directRead bin r.entryId result.out
      else pageRead bin junk r.entryId result.out
    { result with out := out }
  | none => result

def serveOne (db : GravelDB) (junk : Nat → UInt8) (n : Nat) (results : List GetResult)
    (r : DiskRead) : List GetResult :=
  match results[r.reqIdx]? with
  | some result => results.set r.reqIdx (served db junk n r result)
  | none => results

theorem serveGroup_eq (results : List GetResult) (group : List DiskRead) :
    serveGroup db junk results group = group.foldl (serveOne db junk group.length) results := by
  unfold serveGroup
  congr 1
  funext results r
  unfold serveOne served
  cases db.bins[r.binIdx]? with
  | none =>
    cases hres : results[r.reqIdx]? with
    | none => rfl
    | some result =>
      obtain ⟨hlt,rfl⟩ := List.getElem?_eq_some_iff.mp hres
      simp only [set_getElem_self]
  | some bin => cases results[r.reqIdx]? <;> rfl

theorem serveOne_get (results : List GetResult) (r : DiskRead) (i : Nat) :
    (serveOne db junk n results r)[i]? =
      if i = r.reqIdx then (results[i]?).map (served db junk n r) else results[i]? := by
  unfold serveOne
  by_cases hi : i = r.reqIdx
  · subst hi
    rw [if_pos rfl]
    cases hres : results[r.reqIdx]? with
    | none => exact hres
    | some result =>
      have hlt := (List.getElem?_eq_some_iff.mp hres).1
      simp only [getElem?_set_self hlt,map_some]
  · rw [if_neg hi]
    cases hres : results[r.reqIdx]? with
    | none => rfl
    | some result => exact getElem?_set_ne (Ne.symm hi)

theorem serve_outside (l : List DiskRead) (hi : i ∉ l.map DiskRead.reqIdx) :
    ∀ results, (l.foldl (serveOne db junk n) results)[i]? = results[i]? := by
  induction l with
  | nil => exact fun _ => rfl
  | cons r rest ih =>
    intro results
    rw [map_cons,mem_cons,not_or] at hi
    rw [foldl_cons,ih hi.2,serveOne_get,if_neg hi.1]

theorem serve_inside (l : List DiskRead) (hnd : (l.map DiskRead.reqIdx).Nodup)
    (hr : r ∈ l) : ∀ results, (l.foldl (serveOne db junk n) results)[r.reqIdx]? =
      (results[r.reqIdx]?).map (served db junk n r) := by
  induction l with
  | nil => cases hr
  | cons r' rest ih =>
    intro results
    obtain ⟨hnot,hnd⟩ := nodup_cons.mp hnd
    rw [foldl_cons]
    rcases mem_cons.mp hr with rfl | hr
    · rw [serve_outside rest hnot,serveOne_get,if_pos rfl]
    · have hne : r.reqIdx ≠ r'.reqIdx := fun he => hnot (he ▸ List.mem_map.mpr ⟨r,hr,rfl⟩)
      rw [ih hnd hr,serveOne_get,if_neg hne]

def serveAll (db : GravelDB) (junk : Nat → UInt8) (groups : List ((Nat ×ₗ Nat) × List DiskRead))
    (results : List GetResult) : List GetResult :=
  groups.foldl (fun results group => serveGroup db junk results group.2) results

theorem serveAll_outside (groups : List ((Nat ×ₗ Nat) × List DiskRead))
    (hi : i ∉ (groups.flatMap Prod.snd).map DiskRead.reqIdx) :
    ∀ results, (serveAll db junk groups results)[i]? = results[i]? := by
  induction groups with
  | nil => exact fun _ => rfl
  | cons group rest ih =>
    intro results
    rw [flatMap_cons,map_append,mem_append,not_or] at hi
    rw [serveAll,foldl_cons,serveGroup_eq]
    exact (ih hi.2 _).trans (serve_outside group.2 hi.1 results)

theorem serveAll_inside (junk : Nat → UInt8) (groups : List ((Nat ×ₗ Nat) × List DiskRead))
    (hnd : ((groups.flatMap Prod.snd).map DiskRead.reqIdx).Nodup)
    (hr : r ∈ groups.flatMap Prod.snd) : ∃ n, ∀ results,
      (serveAll db junk groups results)[r.reqIdx]? =
        (results[r.reqIdx]?).map (served db junk n r) := by
  induction groups with
  | nil => cases hr
  | cons group rest ih =>
    rw [flatMap_cons,map_append] at hnd
    rw [flatMap_cons,mem_append] at hr
    have hdis := disjoint_of_nodup_append hnd
    by_cases hg : r ∈ group.2
    · refine ⟨group.2.length,fun results => ?_⟩
      have hout : r.reqIdx ∉ (rest.flatMap Prod.snd).map DiskRead.reqIdx :=
        fun hm => hdis (List.mem_map.mpr ⟨r,hg,rfl⟩) hm
      rw [serveAll,foldl_cons,serveGroup_eq]
      exact (serveAll_outside rest hout _).trans
        (serve_inside group.2 (List.Nodup.of_append_left hnd) hg results)
    · have hrest := hr.resolve_left hg
      obtain ⟨n,hn⟩ := ih (List.Nodup.of_append_right hnd) hrest
      refine ⟨n,fun results => ?_⟩
      have hout : r.reqIdx ∉ group.2.map DiskRead.reqIdx :=
        fun hm => hdis hm (List.mem_map.mpr ⟨r,hrest,rfl⟩)
      rw [serveAll,foldl_cons,serveGroup_eq]
      refine (hn _).trans ?_
      rw [serve_outside group.2 hout]

end Serve

/-- The page of the entry is in the file as far as the entry goes, and where a page holds one
entry, the bytes at the entry's own offset are the same. -/
def ReadsAgree (bin : DimBin) (e : Nat) : Prop :=
  ∀ i < bin.geom.entrySize, bin.geom.offsetInPage e + i < bin.geom.pageSize ∧
    bin.geom.pageOf e * bin.geom.pageSize + (bin.geom.offsetInPage e + i) < bin.data.size ∧
    (bin.geom.entriesPerPage = 1 → e * bin.geom.entrySize + i < bin.data.size ∧
      bin.data.cell (e * bin.geom.entrySize + i) =
        bin.data.cell (bin.geom.pageOf e * bin.geom.pageSize + (bin.geom.offsetInPage e + i)))

instance (bin : DimBin) (e : Nat) : Decidable (ReadsAgree bin e) :=
  inferInstanceAs (Decidable (∀ i < bin.geom.entrySize, _))

/-- A batch returns if each of its requests returns alone, and each position is filled as by a
batch of that request alone, whatever the page buffers of the two calls held before. -/
def PointwiseEqual (db : GravelDB) : Prop :=
  ∀ junk junk' reqs,
    ((∃ r, graveldbBatchGet db junk reqs = some r) ↔
      ∀ req ∈ reqs, ∃ r, graveldbBatchGet db junk' [req] = some r) ∧
    ∀ db' results, graveldbBatchGet db junk reqs = some (db',results) →
      results.length = reqs.length ∧ ∀ (i : Nat) req, reqs[i]? = some req →
        ∃ db'' result, graveldbBatchGet db junk' [req] = some (db'',[result]) ∧
          results[i]? = some result

section Batches

variable {db db' : GravelDB} {junk junk' : Nat → UInt8} {reqs : List GetRequest}
  {results : List GetResult} {reads : List DiskRead} {req : GetRequest} {result : GetResult}
  {bin : DimBin} {f : UInt64} {i e : Nat}

def readGroups (db : GravelDB) (reads : List DiskRead) : List ((Nat ×ₗ Nat) × List DiskRead) :=
  Runs.runs (readKey db) (reads.insertionSort (fun a b => readKey db a ≤ readKey db b))

theorem readGroups_perm (db : GravelDB) (reads : List DiskRead) :
    ((readGroups db reads).flatMap Prod.snd).Perm reads := by
  rw [readGroups,Runs.runs_flatMap]
  exact perm_insertionSort _ _

theorem readGroups_single (db : GravelDB) (r : DiskRead) : readGroups db [r] = [(readKey db r,[r])] := rfl

theorem readGroups_pair (db : GravelDB) (r r' : DiskRead) (h : readKey db r = readKey db r') :
    readGroups db [r,r'] = [(readKey db r',[r,r'])] := by
  have hsort : [r,r'].insertionSort (fun a b => readKey db a ≤ readKey db b) = [r,r'] := by
    simp only [List.insertionSort,foldr_cons,foldr_nil,List.orderedInsert,
      if_pos (le_of_eq h)]
  rw [readGroups,hsort]
  simp only [Runs.runs,h,if_true]

theorem readKey_drift (hd : Drifts db db') (r : DiskRead) : readKey db' r = readKey db r := by
  have hrel := hd.bins r.binIdx
  unfold readKey
  generalize db.bins[r.binIdx]? = before at hrel ⊢
  generalize db'.bins[r.binIdx]? = after at hrel ⊢
  cases hrel with
  | none => rfl
  | some hb =>
    obtain ⟨table,_,rfl⟩ := hb
    rfl

theorem served_drift (hd : Drifts db db') (junk : Nat → UInt8) (n : Nat) (r : DiskRead)
    (result : GetResult) : served db' junk n r result = served db junk n r result := by
  have hrel := hd.bins r.binIdx
  unfold served
  generalize db.bins[r.binIdx]? = before at hrel ⊢
  generalize db'.bins[r.binIdx]? = after at hrel ⊢
  cases hrel with
  | none => rfl
  | some hb =>
    obtain ⟨table,_,rfl⟩ := hb
    rfl

theorem serveAll_drift (hd : Drifts db db') (groups : List ((Nat ×ₗ Nat) × List DiskRead))
    (results : List GetResult) : serveAll db' junk groups results =
      serveAll db junk groups results := by
  unfold serveAll
  congr 1
  funext results group
  rw [serveGroup_eq,serveGroup_eq]
  congr 1
  funext results r
  unfold serveOne
  cases results[r.reqIdx]? with
  | none => rfl
  | some result => exact congrArg _ (served_drift hd junk _ r result)

theorem batchGet_eq (hs : Settled db) (h : Resolves db 0 reqs results reads) (junk : Nat → UInt8) :
    ∃ db', graveldbBatchGet db junk reqs =
      some (db',serveAll db junk (readGroups db reads) results) := by
  obtain ⟨db',hget,hd⟩ := h.resolveGets hs db (.refl db)
  refine ⟨db',?_⟩
  have hkey : readKey db' = readKey db := funext (readKey_drift hd)
  simp only [graveldbBatchGet,hget,bind_eq_bind,bind_some,Option.pure_def,hkey]
  rw [← serveAll_drift hd]
  rfl

theorem batchGet_resolves (hs : Settled db)
    (h : graveldbBatchGet db junk reqs = some (db',results)) :
    ∃ results' reads, Resolves db 0 reqs results' reads ∧
      results = serveAll db junk (readGroups db reads) results' := by
  obtain ⟨⟨db1,results',reads⟩,hgets,_⟩ := bind_eq_some_iff.mp h
  obtain ⟨_,hres⟩ := resolveGets_resolves hs reqs 0 db db1 results' reads (.refl db) hgets
  refine ⟨results',reads,hres,?_⟩
  obtain ⟨db2,heq⟩ := batchGet_eq hs hres junk
  rw [heq] at h
  exact (Prod.mk.inj (Option.some.inj h)).2.symm

theorem serveAll_length (groups : List ((Nat ×ₗ Nat) × List DiskRead)) :
    ∀ results, (serveAll db junk groups results).length = results.length := by
  have hone : ∀ n results r, (serveOne db junk n results r).length = results.length := by
    intro n results r
    unfold serveOne
    cases results[r.reqIdx]? with
    | none => rfl
    | some result => exact length_set
  have hgroup : ∀ n (l : List DiskRead) results,
      (l.foldl (serveOne db junk n) results).length = results.length := by
    intro n l
    induction l with
    | nil => exact fun _ => rfl
    | cons r rest ih => exact fun results => (ih _).trans (hone n results r)
  induction groups with
  | nil => exact fun _ => rfl
  | cons group rest ih =>
    intro results
    rw [serveAll,foldl_cons,serveGroup_eq]
    exact (ih _).trans (hgroup _ _ results)

def finished (db : GravelDB) (junk : Nat → UInt8) (result : GetResult) :
    Option (Nat × Nat) → GetResult
  | none => result
  | some v => served db junk 1 ⟨0,v.1,v.2⟩ result

theorem batchGet_single (hs : Settled db) {read : Option (Nat × Nat)}
    (h : answer db req = some (result,read)) (junk : Nat → UInt8) :
    ∃ db', graveldbBatchGet db junk [req] = some (db',[finished db junk result read]) := by
  obtain ⟨db',heq⟩ := batchGet_eq hs (.cons h .nil) junk
  refine ⟨db',heq.trans ?_⟩
  cases read with
  | none => rfl
  | some v =>
    have hgroups := readGroups_single db ⟨0,v.1,v.2⟩
    simp only [map_some,toList_some,append_nil,hgroups,serveAll,serveGroup_eq,
      foldl_cons,foldl_nil]
    rfl

theorem answer_isSome_iff (hs : Settled db) (req : GetRequest) :
    (answer db req).isSome ↔ ∃ r, graveldbBatchGet db junk [req] = some r := by
  constructor
  · intro h
    obtain ⟨⟨result,read⟩,ha⟩ := isSome_iff_exists.mp h
    obtain ⟨db',heq⟩ := batchGet_single hs ha junk
    exact ⟨_,heq⟩
  · rintro ⟨⟨db',results⟩,h⟩
    obtain ⟨results',reads,hres,_⟩ := batchGet_resolves hs h
    obtain ⟨result,read,ha,_⟩ := hres.at 0 req rfl
    rw [ha]
    rfl

theorem served_agree {r : DiskRead} (hbin : db.bins[r.binIdx]? = some bin)
    (hagree : ReadsAgree bin r.entryId) (n : Nat) :
    served db junk n r result = served db junk' 1 r result := by
  have hpage : ∀ junk, pageRead bin junk r.entryId result.out =
      copyBytes bin.geom.entrySize (fun i => bin.data.cell
        (bin.geom.pageOf r.entryId * bin.geom.pageSize +
          (bin.geom.offsetInPage r.entryId + i))) result.out := by
    intro junk
    funext i
    unfold pageRead copyBytes
    split_ifs with hi
    · obtain ⟨hin,hfile,_⟩ := hagree i hi
      exact if_pos ⟨hin,hfile⟩
    · rfl
  have hdirect : bin.geom.entriesPerPage = 1 → directRead bin r.entryId result.out =
      copyBytes bin.geom.entrySize (fun i => bin.data.cell
        (bin.geom.pageOf r.entryId * bin.geom.pageSize +
          (bin.geom.offsetInPage r.entryId + i))) result.out := by
    intro hepp
    funext i
    unfold directRead File.read copyBytes
    by_cases hi : i < bin.geom.entrySize
    · obtain ⟨_,_,hsame⟩ := hagree i hi
      rw [if_pos ⟨hi,(hsame hepp).1⟩,if_pos hi,(hsame hepp).2]
    · rw [if_neg (fun hc => hi hc.1),if_neg hi]
  simp only [served,hbin,hpage]
  by_cases hepp : bin.geom.entriesPerPage = 1
  · rw [hdirect hepp]
    simp
  · simp [hepp]

theorem miss_single (hs : Settled db) (h : DiskMiss db f i bin e) (junk out : Nat → UInt8) :
    ∃ db', graveldbBatchGet db junk [⟨f,some out⟩] = some (db',[⟨bin.geom.dim,
      if bin.geom.entriesPerPage = 1 then directRead bin e out else pageRead bin junk e out⟩]) := by
  obtain ⟨db',heq⟩ := batchGet_single hs (h.answer out) junk
  refine ⟨db',heq.trans ?_⟩
  simp only [finished,served,h.2.1,true_and]

theorem miss_double (hs : Settled db) (h : DiskMiss db f i bin e) (junk out : Nat → UInt8) :
    ∃ db' result, graveldbBatchGet db junk [⟨f,some out⟩,⟨f,some out⟩] =
      some (db',[⟨bin.geom.dim,pageRead bin junk e out⟩,result]) := by
  obtain ⟨db',heq⟩ := batchGet_eq hs (.cons (h.answer out) (.cons (h.answer out) .nil)) junk
  have hgroups := readGroups_pair db ⟨0,i,e⟩ ⟨1,i,e⟩ rfl
  refine ⟨db',⟨bin.geom.dim,pageRead bin junk e out⟩,heq.trans ?_⟩
  simp only [map_some,toList_some,singleton_append,append_nil,hgroups,
    serveAll,serveGroup_eq,foldl_cons,foldl_nil]
  simp [serveOne,served,h.2.1]

theorem page_inside (hi : i < bin.geom.entrySize)
    (h : ∀ junk junk' : Nat → UInt8, ∀ out, pageRead bin junk e out = pageRead bin junk' e out) :
    bin.geom.offsetInPage e + i < bin.geom.pageSize ∧
      bin.geom.pageOf e * bin.geom.pageSize + (bin.geom.offsetInPage e + i) < bin.data.size := by
  by_contra hno
  have hjunk : ∀ junk out, pageRead bin junk e out i = junk (bin.geom.offsetInPage e + i) := by
    intro junk out
    unfold pageRead copyBytes File.read
    rw [if_pos hi]
    exact if_neg hno
  have hbad := congrFun (h (fun _ => 0) (fun _ => 1) (fun _ => 0)) i
  rw [hjunk,hjunk] at hbad
  exact absurd hbad (by decide)

theorem direct_inside (hi : i < bin.geom.entrySize)
    (hin : bin.geom.offsetInPage e + i < bin.geom.pageSize ∧
      bin.geom.pageOf e * bin.geom.pageSize + (bin.geom.offsetInPage e + i) < bin.data.size)
    (h : ∀ junk out, pageRead bin junk e out = directRead bin e out) :
    e * bin.geom.entrySize + i < bin.data.size ∧
      bin.data.cell (e * bin.geom.entrySize + i) =
        bin.data.cell (bin.geom.pageOf e * bin.geom.pageSize + (bin.geom.offsetInPage e + i)) := by
  have hpage : ∀ out, pageRead bin (fun _ => 0) e out i =
      bin.data.cell (bin.geom.pageOf e * bin.geom.pageSize + (bin.geom.offsetInPage e + i)) := by
    intro out
    unfold pageRead copyBytes File.read
    rw [if_pos hi]
    exact if_pos hin
  have hlt : e * bin.geom.entrySize + i < bin.data.size := by
    by_contra hno
    have hout : ∀ out, directRead bin e out i = out i :=
      fun out => if_neg (fun hc => hno hc.2)
    have h0 := (hpage fun _ => 0).symm.trans ((congrFun (h _ _) i).trans (hout _))
    have h1 := (hpage fun _ => 1).symm.trans ((congrFun (h _ _) i).trans (hout _))
    exact absurd (h0.symm.trans h1) (by decide)
  have hcell : directRead bin e (fun _ => 0) i = bin.data.cell (e * bin.geom.entrySize + i) :=
    if_pos ⟨hi,hlt⟩
  exact ⟨hlt,hcell.symm.trans ((congrFun (h _ _) i).symm.trans (hpage _))⟩

theorem PointwiseEqual.readsAgree (hs : Settled db) (heq : PointwiseEqual db)
    (h : DiskMiss db f i bin e) : ReadsAgree bin e := by
  have hdouble : ∀ junk junk' out, pageRead bin junk e out =
      if bin.geom.entriesPerPage = 1 then directRead bin e out
      else pageRead bin junk' e out := by
    intro junk junk' out
    obtain ⟨db1,r,h1⟩ := miss_double hs h junk out
    obtain ⟨db2,h2⟩ := miss_single hs h junk' out
    obtain ⟨_,hpos⟩ := (heq junk junk' [⟨f,some out⟩,⟨f,some out⟩]).2 _ _ h1
    obtain ⟨db3,result,h3,hres⟩ := hpos 0 _ rfl
    rw [h2] at h3
    cases h3
    exact congrArg GetResult.out (Option.some.inj hres)
  have hjunk : ∀ junk junk' out, pageRead bin junk e out = pageRead bin junk' e out :=
    fun junk junk' out => (hdouble junk junk out).trans (hdouble junk' junk out).symm
  intro j hj
  have hin := page_inside hj hjunk
  refine ⟨hin.1,hin.2,fun hepp => ?_⟩
  refine direct_inside hj hin (fun junk out => ?_)
  rw [hdouble junk junk out,if_pos hepp]

theorem batch_position (junk junk' : Nat → UInt8)
    (hagree : ∀ f i bin e, DiskMiss db f i bin e → ReadsAgree bin e)
    (hres : Resolves db 0 reqs results reads) (hi : reqs[i]? = some req) :
    ∃ result read, answer db req = some (result,read) ∧
      (serveAll db junk (readGroups db reads) results)[i]? =
        some (finished db junk' result read) := by
  obtain ⟨result,read,ha,hget,honly,hmem⟩ := hres.at i req hi
  rw [Nat.zero_add] at honly hmem
  refine ⟨result,read,ha,?_⟩
  have hperm := readGroups_perm db reads
  cases read with
  | none =>
    have hout : i ∉ ((readGroups db reads).flatMap Prod.snd).map DiskRead.reqIdx := by
      intro hm
      obtain ⟨r,hr,hidx⟩ := List.mem_map.mp hm
      obtain ⟨v,hv,_⟩ := honly r (hperm.mem_iff.mp hr) hidx
      cases hv
    rw [serveAll_outside _ hout,hget,finished]
  | some v =>
    obtain ⟨bin,hmiss⟩ := answer_read ha
    have hnd : (((readGroups db reads).flatMap Prod.snd).map DiskRead.reqIdx).Nodup :=
      (hperm.map _).nodup_iff.mpr hres.nodup
    obtain ⟨n,hn⟩ := serveAll_inside junk _ hnd (hperm.mem_iff.mpr (hmem v rfl))
    have hat := hn results
    simp only [hget,map_some] at hat
    rw [hat,finished]
    exact congrArg some (served_agree (r := ⟨i,v.1,v.2⟩) hmiss.2.1 (hagree _ _ _ _ hmiss) n)

/-- In a state whose lookups are settled, a batch get equals the gets of its requests one by one
exactly if, for each id that has to be read from the file, the read of its page and the read of
its entry give the same bytes, all of them from the file. -/
theorem batch_get_pointwise (db : GravelDB) (hs : Settled db) :
    PointwiseEqual db ↔ ∀ f i bin e, DiskMiss db f i bin e → ReadsAgree bin e := by
  constructor
  · exact fun heq f i bin e hmiss => heq.readsAgree hs hmiss
  · intro hagree junk junk' reqs
    refine ⟨⟨?_,?_⟩,?_⟩
    · rintro ⟨⟨db',results⟩,h⟩ req hreq
      obtain ⟨results',reads,hres,_⟩ := batchGet_resolves hs h
      obtain ⟨i,hi⟩ := mem_iff_getElem?.mp hreq
      obtain ⟨result,read,ha,_⟩ := hres.at i req hi
      exact (answer_isSome_iff hs req).mp (by rw [ha]; rfl)
    · intro hsingle
      obtain ⟨results,reads,hres⟩ := resolves_total reqs
        (fun req hreq => (answer_isSome_iff hs req).mpr (hsingle req hreq)) 0
      obtain ⟨db',heq⟩ := batchGet_eq hs hres junk
      exact ⟨_,heq⟩
    · intro db' results h
      obtain ⟨results',reads,hres,rfl⟩ := batchGet_resolves hs h
      refine ⟨(serveAll_length _ _).trans hres.length,fun i req hi => ?_⟩
      obtain ⟨result,read,ha,hat⟩ := batch_position junk junk' hagree hres hi
      obtain ⟨db'',hone⟩ := batchGet_single hs ha junk'
      exact ⟨db'',_,hone,hat⟩

end Batches

def pairedRun : List StoreOp := [.put [vectorOf 1,vectorOf 2],.flush]

def pairedStore : GravelDB :=
  ((Run.run stepSession ⟨smallStore,[]⟩ pairedRun).get (by decide +kernel)).db

def pairedBin : DimBin := pairedStore.bins.get ⟨0,by decide +kernel⟩

theorem pairedStore_bins : pairedStore.bins = [pairedBin] :=
  ext_get (by decide +kernel) (fun i h1 h2 => by
    obtain rfl : i = 0 := Nat.lt_one_iff.mp h2
    rfl)

theorem pairedStore_miss {f : UInt64} {i e : Nat} {bin : DimBin}
    (h : DiskMiss pairedStore f i bin e) : bin = pairedBin ∧ e < 2 := by
  have hopen : graveldbOpen smallConfig (emptyDir 4096) = some smallStore :=
    (some_get _).symm
  have hs : StoreSlots pairedStore := (Run.run_invariant step_slots pairedRun ⟨smallStore,[]⟩ _
    ⟨open_slots hopen,open_calm hopen⟩ (by decide +kernel)
    (some_get (by decide +kernel)).symm).1
  obtain ⟨hfound,hbin,_⟩ := h
  have hf : f ≠ 0 := by
    rintro rfl
    simp [hashIndexGet] at hfound
  rw [hs.index.get hf] at hfound
  have hmap : indexMap pairedStore.index f = some (i,e) := Option.some.inj hfound
  have hlt : i < pairedStore.bins.length := (List.getElem?_eq_some_iff.mp hbin).1
  rw [pairedStore_bins] at hlt hbin
  obtain rfl : i = 0 := Nat.lt_one_iff.mp hlt
  cases hbin
  have hpaired : pairedStore.bins[0]? = some pairedBin := by
    rw [pairedStore_bins]
    rfl
  have he := (hs.bins 0 pairedBin hpaired).parts.owned_lt f e hmap
  exact ⟨rfl,Nat.lt_of_lt_of_le he (by decide +kernel)⟩

theorem pairedStore_settled : Settled pairedStore := by
  refine settled_still (by decide +kernel) ?_
  rw [pairedStore_bins]
  intro s hs
  obtain rfl := mem_singleton.mp hs
  decide +kernel

theorem pairedStore_pointwise : PointwiseEqual pairedStore := by
  refine (batch_get_pointwise pairedStore pairedStore_settled).mpr ?_
  intro f i bin e h
  obtain ⟨rfl,he⟩ := pairedStore_miss h
  have hall : ∀ e < 2, ReadsAgree pairedBin e := by decide +kernel
  exact hall e he

def raggedStore : GravelDB :=
  ((Run.run stepSession ⟨(graveldbOpen { smallConfig with pageSize := 6 } (emptyDir 4096)).get
    (by decide +kernel),[]⟩ pairedRun).get (by decide +kernel)).db

def firstBytes (r : GravelDB × List GetResult) : List (List UInt8) :=
  r.2.map (fun result => (List.range 4).map result.out)

/-- The second vector is read whole when it is asked for twice, and from the wrong offset when it
is asked for once. -/
theorem repeated_request_reads_differently :
    (graveldbBatchGet raggedStore (fun _ => 0) [⟨2,some (fun _ => 0)⟩]).map firstBytes =
      some [[0,0,2,2]] ∧
    (graveldbBatchGet raggedStore (fun _ => 0) [⟨2,some (fun _ => 0)⟩,⟨2,some (fun _ => 0)⟩]).map
      firstBytes = some [[2,2,2,2],[2,2,2,2]] := by
  decide +kernel

end Gravel.Proofs.BatchGet
