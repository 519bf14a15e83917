import Gravel.Model.Export
import Gravel.Model.Import
import Gravel.Proofs.DumpFormat
import Gravel.Proofs.IndexGrowth
import Gravel.Proofs.StoreRefinement

namespace Gravel.Proofs.Import
open DumpFormat HashIndex StoreRefinement List Function

/-- Where a reader of a dump comes to its end: between two entries, inside a key, at a trailer or
inside a vector. -/
inductive Ending where
  | clean
  | cutKey
  | trailer
  | cutVector
deriving DecidableEq

def Ending.parsed : Ending → Status
  | .clean | .trailer => .ok
  | .cutKey | .cutVector => .errCorrupt

/-- The bytes behind a header are these entries, with vectors of `width` bytes, and then end this
way. -/
inductive Scans (width : Nat) : List UInt8 → List DumpEntry → Ending → Prop
  | clean : Scans width [] [] .clean
  | cutKey {s : List UInt8} (hsome : s ≠ []) (hcut : s.length < 8) : Scans width s [] .cutKey
  | trailer {s : List UInt8} (hlen : 8 ≤ s.length) (hmagic : wireGetU32 s = ckptExportMagic) :
      Scans width s [] .trailer
  | cutVector {s : List UInt8} (hlen : 8 ≤ s.length) (hkey : wireGetU32 s ≠ ckptExportMagic)
      (hcut : s.length < 8 + width) : Scans width s [] .cutVector
  | entry {s : List UInt8} {entries : List DumpEntry} {ending : Ending}
      (hlen : 8 + width ≤ s.length) (hkey : wireGetU32 s ≠ ckptExportMagic)
      (hrest : Scans width (s.drop (8 + width)) entries ending) :
      Scans width s (⟨wireGetU64 s,(s.drop 8).take width⟩ :: entries) ending

section Streams

variable {width : Nat} {s : List UInt8} {entries : List DumpEntry} {ending : Ending}

theorem wireGetU32_take (s : List UInt8) : wireGetU32 (s.take 8) = wireGetU32 s := by
  rw [wireGetU32,wireGetU32,take_take]
  rfl

theorem wireGetU64_take (s : List UInt8) : wireGetU64 (s.take 8) = wireGetU64 s := by
  rw [wireGetU64,wireGetU64,take_take]
  rfl

theorem scans_total (width : Nat) (s : List UInt8) :
    ∃ entries ending, Scans width s entries ending := by
  by_cases hnil : s = []
  · subst hnil
    exact ⟨[],.clean,.clean⟩
  by_cases hlen : s.length < 8
  · exact ⟨[],.cutKey,.cutKey hnil hlen⟩
  by_cases hmagic : wireGetU32 s = ckptExportMagic
  · exact ⟨[],.trailer,.trailer (by omega) hmagic⟩
  by_cases hcut : s.length < 8 + width
  · exact ⟨[],.cutVector,.cutVector (by omega) hmagic hcut⟩
  obtain ⟨entries,ending,hrest⟩ := scans_total width (s.drop (8 + width))
  exact ⟨_,ending,.entry (by omega) hmagic hrest⟩
termination_by s.length

end Streams

section Parsing

variable {entrySize : UInt32} {s : List UInt8} {entries : List DumpEntry} {ending : Ending}

def gather (got : List DumpEntry) (e : CkptEntry) : List DumpEntry × Int :=
  (got ++ [⟨e.featId,e.embedding⟩],0)

theorem parse_scans (dim : UInt32) (h : Scans entrySize.toNat s entries ending) :
    ∀ fuel got, s.length < fuel →
      parseEntries dim entrySize gather fuel s got = (got ++ entries,.status ending.parsed) := by
  induction h with
  | clean =>
    intro fuel got hfuel
    obtain ⟨fuel,rfl⟩ := Nat.exists_eq_add_of_lt hfuel
    rw [append_nil]
    rfl
  | @cutKey s hsome hcut =>
    intro fuel got hfuel
    obtain ⟨fuel,rfl⟩ := Nat.exists_eq_add_of_lt hfuel
    have hpos := length_pos_iff.mpr hsome
    have htake : (s.take 8).length = s.length := by
      rw [length_take]
      omega
    rw [parseEntries]
    simp only [htake,hcut,if_true,Nat.ne_of_gt hpos,if_false,append_nil,Ending.parsed]
  | @trailer s hlen hmagic =>
    intro fuel got hfuel
    obtain ⟨fuel,rfl⟩ := Nat.exists_eq_add_of_lt hfuel
    have htake : (s.take 8).length = 8 := length_take_of_le hlen
    rw [parseEntries]
    simp only [htake,Nat.lt_irrefl,if_false,wireGetU32_take,hmagic,if_true,append_nil,
      Ending.parsed]
  | @cutVector s hlen hkey hcut =>
    intro fuel got hfuel
    obtain ⟨fuel,rfl⟩ := Nat.exists_eq_add_of_lt hfuel
    have htake : (s.take 8).length = 8 := length_take_of_le hlen
    have hshort : ((s.drop 8).take entrySize.toNat).length ≠ entrySize.toNat := by
      rw [length_take,length_drop]
      omega
    rw [parseEntries]
    simp only [htake,Nat.lt_irrefl,if_false,wireGetU32_take,hkey,hshort,ne_eq,not_false_eq_true,
      if_true,append_nil,Ending.parsed]
  | @entry s entries ending hlen hkey _ ih =>
    intro fuel got hfuel
    obtain ⟨fuel,rfl⟩ := Nat.exists_eq_add_of_lt hfuel
    have htake : (s.take 8).length = 8 := length_take_of_le (by omega)
    have hwhole : ((s.drop 8).take entrySize.toNat).length = entrySize.toNat := by
      rw [length_take,length_drop]
      omega
    have hrest := ih (s.length + fuel)
      (gather got ⟨wireGetU64 s,(s.drop 8).take entrySize.toNat,dim⟩).1
      (by rw [length_drop]; omega)
    rw [parseEntries]
    simp only [htake,Nat.lt_irrefl,if_false,wireGetU32_take,wireGetU64_take,hkey,hwhole,ne_eq,
      not_true_eq_false,drop_drop,gather] at hrest ⊢
    rw [hrest,append_assoc]
    rfl

end Parsing

section Applying

variable {db db' : GravelDB} {binIdx : Nat} {entrySize : UInt32} {entries : List DumpEntry}

/-- `db'` is `db` with the entry: a slot of the bin has its vector and its key, and the index has
taken its id. -/
def Stored (binIdx : Nat) (entrySize : UInt32) (db : GravelDB) (e : DumpEntry) (db' : GravelDB) :
    Prop :=
  ∃ bin bin1 slot index, db.bins[binIdx]? = some bin ∧ dimbinAllocEntry bin = (bin1,slot) ∧
    slot ≠ 2 ^ 32 - 1 ∧ hashIndexPut db.index e.featId binIdx slot = some (index,.ok) ∧
    db' = { modifyBin db binIdx { bin1 with
      data := bin1.data.write (slot * entrySize.toNat) entrySize.toNat (fun i => e.embedding.getD i 0)
      keys := putKey bin1.keys slot e.featId } with index := index }

/-- `db'` is `db` with these entries, one after the other. -/
def Applies (binIdx : Nat) (entrySize : UInt32) (db : GravelDB) : List DumpEntry → GravelDB → Prop
  | [],db' => db' = db
  | e :: rest,db' => ∃ db1, Stored binIdx entrySize db e db1 ∧ Applies binIdx entrySize db1 rest db'

/-- The entries of a dump one after the other, up to the first that finds no slot: the store, and
whether that were all. -/
def importEntries (binIdx : Nat) (entrySize : UInt32) (db : GravelDB) :
    List DumpEntry → Option (GravelDB × Bool)
  | [] => some (db,true)
  | e :: rest => do
    let (db,stored) ← importEntry db binIdx entrySize e.featId e.embedding
    if stored then importEntries binIdx entrySize db rest else return (db,false)

def importOutcome (r : CkptImport × Status) : GravelDB × Status := (r.1.db,r.2)

def appliedOutcome (r : GravelDB × Bool) : GravelDB × Status :=
  (r.1,if r.2 then .ok else .errFull)

def importOn (n fuel : Nat) (imp : CkptImport) : Option (CkptImport × Status) := do
  let (imp,rc) ← importLoop n imp
  if rc = .again then importUntilDone fuel imp else return (imp,rc)

/-- What one entry does to the store. It is stored if there is a slot for it, except with the id 0,
which the index refuses. -/
structure Imported (binIdx : Nat) (entrySize : UInt32) (db : GravelDB) (e : DumpEntry)
    (bin1 : DimBin) (slot : Nat) (db' : GravelDB) (stored : Bool) : Prop where
  slot : stored = true ↔ slot ≠ 2 ^ 32 - 1
  bin : ∃ bin', db'.bins[binIdx]? = some bin' ∧ bin'.freeList = bin1.freeList ∧
    bin'.bumpPtr = bin1.bumpPtr ∧ bin'.geom = bin1.geom
  registry : db'.registry = db.registry
  stored : ∀ db1, Stored binIdx entrySize db e db1 ↔
    db1 = db' ∧ stored = true ∧ e.featId ≠ 0

theorem alloc_geom {bin bin1 : DimBin} {slot : Nat} (h : dimbinAllocEntry bin = (bin1,slot)) :
    bin1.geom = bin.geom := by
  obtain ⟨a,heq⟩ := BinRun.dimbinAllocEntry_eq bin
  have hgeom := congrArg DimBin.geom heq
  rwa [h] at hgeom

theorem stored_iff {e : DumpEntry} {bin bin1 : DimBin} {slot : Nat}
    (hbin : db.bins[binIdx]? = some bin) (halloc : dimbinAllocEntry bin = (bin1,slot)) :
    Stored binIdx entrySize db e db' ↔ slot ≠ 2 ^ 32 - 1 ∧ ∃ index,
      hashIndexPut db.index e.featId binIdx slot = some (index,.ok) ∧
      db' = { modifyBin db binIdx { bin1 with
        data := bin1.data.write (slot * entrySize.toNat) entrySize.toNat
          (fun i => e.embedding.getD i 0)
        keys := putKey bin1.keys slot e.featId } with index := index } := by
  unfold Stored
  constructor
  · rintro ⟨b,b1,x,index,hb,ha,hx,hput,rfl⟩
    cases hbin.symm.trans hb
    cases halloc.symm.trans ha
    exact ⟨hx,index,hput,rfl⟩
  · rintro ⟨hx,index,hput,rfl⟩
    exact ⟨bin,bin1,slot,index,hbin,halloc,hx,hput,rfl⟩

theorem importEntry_spec {e : DumpEntry} {stored : Bool} {bin bin1 : DimBin} {slot : Nat}
    (h : importEntry db binIdx entrySize e.featId e.embedding = some (db',stored))
    (hbin : db.bins[binIdx]? = some bin) (halloc : dimbinAllocEntry bin = (bin1,slot))
    (hreg : dimRegistryFind db.registry bin.geom.dim = some binIdx) :
    Imported binIdx entrySize db e bin1 slot db' stored := by
  have hlt : binIdx < db.bins.length := (List.getElem?_eq_some_iff.mp hbin).1
  have hset : ∀ bin', (modifyBin db binIdx bin').bins[binIdx]? = some bin' :=
    fun bin' => getElem?_set_self hlt
  have hreg1 : ∀ bin', dimRegistryFind (modifyBin db binIdx bin').registry bin1.geom.dim =
      some binIdx := by
    rw [alloc_geom halloc]
    exact fun _ => hreg
  unfold importEntry at h
  simp only [hbin,halloc,Option.bind_eq_bind,Option.bind_some,Option.pure_def] at h
  split at h
  · rename_i hfull
    cases h
    refine ⟨⟨nofun,fun hne => absurd hfull hne⟩,⟨bin1,hset bin1,rfl,rfl,rfl⟩,rfl,fun db1 => ?_⟩
    rw [stored_iff hbin halloc]
    exact ⟨fun hst => absurd hfull hst.1,fun hst => by cases hst.2.1⟩
  · rename_i hslot
    simp only [hreg1] at h
    obtain ⟨⟨index,rc⟩,hput,h⟩ := Option.bind_eq_some_iff.mp h
    cases h
    have hput : hashIndexPut db.index e.featId binIdx slot = some (index,rc) := hput
    refine ⟨⟨fun _ => hslot,fun _ => rfl⟩,⟨_,hset _,rfl,rfl,rfl⟩,rfl,fun db1 => ?_⟩
    rw [stored_iff hbin halloc]
    by_cases hid : e.featId = 0
    · simp [hid,hashIndexPut]
    · have hok : rc = .ok := by
        unfold hashIndexPut at hput
        rw [if_neg hid] at hput
        obtain ⟨_,_,hput⟩ := Option.bind_eq_some_iff.mp hput
        cases hput
        rfl
      subst hok
      simp only [hput,hslot,hid,ne_eq,not_false_eq_true,true_and,and_true,Option.some.injEq,
        Prod.mk.injEq]
      refine ⟨?_,fun h1 => ⟨_,rfl,h1⟩⟩
      rintro ⟨_,rfl,h1⟩
      exact h1

theorem importEntry_bin {featId : UInt64} {embedding : List UInt8} {stored : Bool}
    (h : importEntry db binIdx entrySize featId embedding = some (db',stored)) :
    (db'.bins[binIdx]?).isSome := by
  obtain ⟨bin,hbin,h⟩ := Option.bind_eq_some_iff.mp h
  have hset : ∀ bin', ((modifyBin db binIdx bin').bins[binIdx]?).isSome := fun bin' => by
    simp [modifyBin,(List.getElem?_eq_some_iff.mp hbin).1]
  simp only at h
  split at h
  · cases h
    exact hset _
  · split at h
    · cases h
      exact hset _
    · obtain ⟨_,_,h⟩ := Option.bind_eq_some_iff.mp h
      cases h
      exact hset _

structure Reading (imp : CkptImport) (entrySize : UInt32) (s : List UInt8) : Prop where
  unread : imp.unread = s
  size : imp.entrySize = entrySize
  header : imp.headerRead = true
  going : imp.done = false
  bin : (imp.db.bins[imp.binIdx]?).isSome

variable {imp : CkptImport} {s : List UInt8} {n fuel : Nat} {ending : Ending}

theorem Reading.untilDone (h : Reading imp entrySize s) :
    importUntilDone (fuel + 1) imp = importOn ckptImportBatch fuel imp := by
  obtain ⟨bin,hbin⟩ := Option.isSome_iff_exists.mp h.bin
  simp only [importUntilDone,graveldbCkptImportStep,h.going,h.header,hbin,importOn]
  rfl

theorem Reading.entry (h : Reading imp entrySize s) (hlen : 8 + entrySize.toNat ≤ s.length)
    (hkey : wireGetU32 s ≠ ckptExportMagic) :
    importOn (n + 1) fuel imp = (do
      let e : DumpEntry := ⟨wireGetU64 s,(s.drop 8).take entrySize.toNat⟩
      let (db,stored) ← importEntry imp.db imp.binIdx entrySize e.featId e.embedding
      let imp' := { imp with db := db, unread := s.drop (8 + entrySize.toNat) }
      if stored then importOn n fuel imp' else return (imp',.errFull)) := by
  have htake : (s.take 8).length = 8 := length_take_of_le (by omega)
  have hwhole : ((s.drop 8).take entrySize.toNat).length = entrySize.toNat := by
    rw [length_take,length_drop]
    omega
  rw [importOn,importLoop]
  simp only [h.unread,h.size,htake,Nat.lt_irrefl,if_false,wireGetU32_take,wireGetU64_take,hkey,
    hwhole,ne_eq,not_true_eq_false,drop_drop]
  cases importEntry imp.db imp.binIdx entrySize (wireGetU64 s) ((s.drop 8).take entrySize.toNat) with
  | none => rfl
  | some r =>
    obtain ⟨db,stored⟩ := r
    cases stored <;> rfl

theorem Reading.ends (h : Reading imp entrySize s)
    (hend : s.length < 8 + entrySize.toNat ∨ 8 ≤ s.length ∧ wireGetU32 s = ckptExportMagic) :
    (importOn (n + 1) fuel imp).map importOutcome = some (imp.db,.ok) := by
  rw [importOn,importLoop]
  simp only [h.unread,h.size,wireGetU32_take]
  by_cases hlen : (s.take 8).length < 8
  · simp only [hlen,if_true]
    rfl
  by_cases hmagic : wireGetU32 s = ckptExportMagic
  · simp only [hlen,if_false,hmagic,if_true]
    rfl
  have hcut : s.length < 8 + entrySize.toNat := hend.resolve_right (fun hend => hmagic hend.2)
  have hshort : ((s.drop 8).take entrySize.toNat).length ≠ entrySize.toNat := by
    rw [length_take] at hlen
    rw [length_take,length_drop]
    omega
  simp only [hlen,if_false,hmagic,hshort,ne_eq,not_false_eq_true,if_true]
  rfl

def Completes (entrySize : UInt32) (s : List UInt8) (entries : List DumpEntry) (n fuel : Nat) :
    Prop :=
  ∀ imp, Reading imp entrySize s → (importOn n fuel imp).map importOutcome =
    (importEntries imp.binIdx entrySize imp.db entries).map appliedOutcome

theorem Completes.next_batch
    (h : ∀ n fuel, s.length < fuel → Completes entrySize s entries (n + 1) fuel) (n fuel : Nat)
    (hfuel : s.length + 1 < fuel) : Completes entrySize s entries n fuel := by
  intro imp hread
  cases n with
  | succ n => exact h n fuel (by omega) imp hread
  | zero =>
    obtain ⟨fuel,rfl⟩ : ∃ k, fuel = k + 1 := ⟨fuel - 1,by omega⟩
    have hnext : importOn 0 (fuel + 1) imp = importOn ckptImportBatch fuel imp := hread.untilDone
    rw [hnext]
    exact h 255 fuel (by omega) imp hread

/-- The import of a stream applies its entries in order, up to the first that finds no slot, and
reports success for every ending. -/
theorem completes_of_scans (h : Scans entrySize.toNat s entries ending) :
    ∀ n fuel, s.length < fuel → Completes entrySize s entries (n + 1) fuel := by
  have hnone : ∀ {s : List UInt8}, s.length < 8 + entrySize.toNat ∨
      8 ≤ s.length ∧ wireGetU32 s = ckptExportMagic →
      ∀ n fuel, s.length < fuel → Completes entrySize s [] (n + 1) fuel := by
    intro s hend n fuel _ imp hread
    rw [hread.ends hend]
    rfl
  induction h with
  | clean => exact hnone (.inl (by rw [length_nil]; omega))
  | cutKey _ hcut => exact hnone (.inl (by omega))
  | trailer hlen hmagic => exact hnone (.inr ⟨hlen,hmagic⟩)
  | cutVector _ _ hcut => exact hnone (.inl hcut)
  | @entry s entries ending hlen hkey _ ih =>
    intro n fuel hfuel imp hread
    rw [hread.entry hlen hkey,importEntries]
    cases hone : importEntry imp.db imp.binIdx entrySize (wireGetU64 s)
        ((s.drop 8).take entrySize.toNat) with
    | none =>
      simp only [hone]
      rfl
    | some r =>
      obtain ⟨db,stored⟩ := r
      simp only [hone,Option.bind_eq_bind,Option.bind_some]
      cases stored with
      | false => rfl
      | true =>
        exact Completes.next_batch ih n fuel (by rw [length_drop]; omega)
          { imp with db := db, unread := s.drop (8 + entrySize.toNat) }
          ⟨rfl,hread.size,hread.header,hread.going,importEntry_bin hone⟩

end Applying

section Slots

variable {bin bin1 : DimBin} {slot : Nat}

def nextSlots (freeList : List Nat) (bumpPtr k : Nat) : List Nat :=
  freeList.take k ++ (List.range (k - freeList.length)).map (fun i => (bumpPtr + i) % 2 ^ 32)

theorem nextSlots_alloc (halloc : dimbinAllocEntry bin = (bin1,slot)) (k : Nat) :
    nextSlots bin.freeList bin.bumpPtr (k + 1) = slot :: nextSlots bin1.freeList bin1.bumpPtr k := by
  rcases BinFrames.alloc_slots halloc with ⟨rest,hfree,rfl⟩ | ⟨hfree,rfl,hsame⟩
  · simp only [nextSlots,hfree,take_succ_cons,length_cons,Nat.add_sub_add_right,
      cons_append]
  · have hfree1 : bin1.freeList = [] := hsame.free.trans hfree
    have hbump1 : bin1.bumpPtr = bin.bumpPtr + 1 := hsame.bump
    simp only [nextSlots,hfree,hfree1,hbump1,take_nil,nil_append,length_nil,
      Nat.sub_zero,range_succ_eq_map,map_cons,List.map_map,Nat.add_zero]
    congr 1
    apply map_congr_left
    intro i _
    simp only [comp_apply]
    congr 1
    omega

variable {binIdx : Nat} {entrySize : UInt32} {entries : List DumpEntry}

theorem importEntries_all : ∀ {db db' : GravelDB} {bin : DimBin} {all : Bool},
    importEntries binIdx entrySize db entries = some (db',all) → db.bins[binIdx]? = some bin →
    dimRegistryFind db.registry bin.geom.dim = some binIdx →
    (all = true ↔ 2 ^ 32 - 1 ∉ nextSlots bin.freeList bin.bumpPtr entries.length) ∧
      (Applies binIdx entrySize db entries db' ↔ all = true ∧ ∀ e ∈ entries, e.featId ≠ 0) := by
  induction entries with
  | nil =>
    intro db db' bin all h _ _
    cases h
    simp [nextSlots,Applies]
  | cons e entries ih =>
    intro db db' bin all h hbin hreg
    obtain ⟨⟨db1,stored⟩,hone,h⟩ := Option.bind_eq_some_iff.mp h
    obtain ⟨bin1,slot,halloc⟩ : ∃ bin1 slot, dimbinAllocEntry bin = (bin1,slot) := ⟨_,_,rfl⟩
    have himp := importEntry_spec hone hbin halloc hreg
    obtain ⟨bin',hbin',hfree,hbump,hgeom⟩ := himp.bin
    have happlies : Applies binIdx entrySize db (e :: entries) db' ↔
        (stored = true ∧ e.featId ≠ 0) ∧ Applies binIdx entrySize db1 entries db' := by
      simp only [Applies,himp.stored]
      exact ⟨fun ⟨_,⟨hdb,hst⟩,hrest⟩ => ⟨hst,hdb ▸ hrest⟩,fun ⟨hst,hrest⟩ => ⟨_,⟨rfl,hst⟩,hrest⟩⟩
    rw [length_cons,nextSlots_alloc halloc,mem_cons,not_or,happlies,forall_mem_cons]
    cases stored with
    | false =>
      cases h
      have hslot : ¬ 2 ^ 32 - 1 ≠ slot := fun hne =>
        absurd (himp.slot.mpr hne.symm) Bool.false_ne_true
      exact ⟨iff_of_false Bool.false_ne_true (fun hnext => hslot hnext.1),by simp⟩
    | true =>
      obtain ⟨hall,hrest⟩ := ih h hbin' (by rw [himp.registry,hgeom,alloc_geom halloc]; exact hreg)
      rw [hfree,hbump] at hall
      rw [hrest,hall]
      refine ⟨⟨fun hnext => ⟨(himp.slot.mp rfl).symm,hnext⟩,fun hnext => hnext.2⟩,?_⟩
      tauto

/-- With room in the index, every id that is applied is found afterwards. -/
theorem Applies.found {db' : GravelDB} : ∀ {db : GravelDB} {m : IndexMap}, Still db.index m →
    IndexRoom db.index entries.length → Applies binIdx entrySize db entries db' →
    ∃ m', Still db'.index m' ∧ ∀ f, (∃ slot, m f = some (binIdx,slot)) ∨
      (∃ e ∈ entries, e.featId = f) → ∃ slot, m' f = some (binIdx,slot) := by
  induction entries with
  | nil =>
    rintro db m hs _ rfl
    exact ⟨m,hs,fun f hf => by simpa using hf⟩
  | cons e entries ih =>
    rintro db m hs hroom ⟨db1,⟨_,_,slot,index,_,_,_,hput,rfl⟩,hrest⟩
    have hid : e.featId ≠ 0 := by
      intro h0
      simp [hashIndexPut,h0] at hput
    have hroom' := hroom
    rw [IndexRoom,length_cons] at hroom'
    obtain ⟨index',hput',hs',hcap⟩ := hs.put hid (by omega) hroom.calm binIdx slot
    cases hput.symm.trans hput'
    have hcount := (hashIndexPut_keeps hid hput).1.2
    have hroom1 : IndexRoom index entries.length := ⟨by omega,by omega⟩
    obtain ⟨m',hm',hfound⟩ := ih hs' hroom1 hrest
    refine ⟨m',hm',fun f hf => hfound f ?_⟩
    by_cases hef : f = e.featId
    · exact .inl ⟨slot,by rw [hef,update_self]⟩
    · rw [update_of_ne hef]
      refine hf.imp_right ?_
      rintro ⟨x,hx,hxf⟩
      refine ⟨x,(mem_cons.mp hx).resolve_left ?_,hxf⟩
      rintro rfl
      exact hef hxf.symm

end Slots

section Files

variable {db : GravelDB} {dim : Int} {binIdx : Nat} {bin : DimBin} {file : List UInt8}
  {entries : List DumpEntry} {ending : Ending}

def fileHeader (file : List UInt8) : CkptExportHdr :=
  wireDecodeCkptExportHdr (file.take wireCkptExportHdrSize)

/-- The file starts with a header that names the dim and the entry size of the bin. -/
structure HeaderMatches (bin : DimBin) (file : List UInt8) : Prop where
  long : wireCkptExportHdrSize ≤ file.length
  dim : intOfWire (fileHeader file).dim = bin.geom.dim
  size : (fileHeader file).entrySize = UInt32.ofNat bin.geom.entrySize

def Recognised (file : List UInt8) : Prop :=
  (fileHeader file).magic = ckptExportMagic ∧ (fileHeader file).version = 1

instance (file : List UInt8) : Decidable (Recognised file) := inferInstanceAs (Decidable (_ ∧ _))

def ExportedDump (dump : List UInt8) : Prop :=
  ∃ bin type baseGen batchEntries uring keyJunk poolJunk fuel exp,
    exportUntilDone bin fuel
      (graveldbCkptExportBegin bin type baseGen batchEntries uring keyJunk poolJunk) = some exp ∧
    dump = exportFile bin exp

def TruncatedExport (file : List UInt8) : Prop :=
  ∃ dump, ExportedDump dump ∧ file <+: dump ∧ file ≠ dump

def parsedFile (file : List UInt8) : List DumpEntry × ParseRc := (graveldbCkptParse file gather []).2

/-- An import into the bin that left `db'` and ended with this status agrees with the parser. -/
structure DecodersAgree (db : GravelDB) (binIdx : Nat) (file : List UInt8) (db' : GravelDB)
    (rc : Status) : Prop where
  entries : Applies binIdx (fileHeader file).entrySize db (parsedFile file).1 db'
  statuses : rc = .ok ↔ (parsedFile file).2 = .status .ok
  truncated : TruncatedExport file → rc ≠ .ok ∧ (parsedFile file).2 ≠ .status .ok

theorem parsedFile_unrecognised (hrec : ¬ Recognised file) :
    parsedFile file = ([],.status .errCorrupt) := by
  have hbad : (fileHeader file).magic ≠ ckptExportMagic ∨ (fileHeader file).version ≠ 1 := by
    rw [Recognised,not_and_or] at hrec
    exact hrec
  unfold fileHeader at hbad
  unfold parsedFile graveldbCkptParse
  simp only [hbad,if_true]
  split <;> rfl

theorem parsedFile_scans (hlong : wireCkptExportHdrSize ≤ file.length) (hrec : Recognised file)
    (h : Scans (fileHeader file).entrySize.toNat (file.drop wireCkptExportHdrSize) entries ending) :
    parsedFile file = (entries,.status ending.parsed) := by
  obtain ⟨hmagic,hversion⟩ := hrec
  have htake : (file.take wireCkptExportHdrSize).length = wireCkptExportHdrSize :=
    length_take_of_le hlong
  have hparse := parse_scans (fileHeader file).dim h file.length [] (by
    rw [length_drop]
    rw [wireCkptExportHdrSize] at hlong ⊢
    omega)
  unfold fileHeader at hmagic hversion hparse
  unfold parsedFile graveldbCkptParse
  simp only [htake,ne_eq,not_true_eq_false,if_false,hmagic,hversion,or_self,hparse,nil_append]

def begunImport (db : GravelDB) (binIdx : Nat) (bin : DimBin) (file : List UInt8) : CkptImport where
  db := db
  binIdx := binIdx
  entrySize := UInt32.ofNat bin.geom.entrySize
  unread := file
  headerRead := false
  done := false

theorem graveldbCkptImport_begun (hfind : dimRegistryFind db.registry dim = some binIdx)
    (hbin : db.bins[binIdx]? = some bin) :
    graveldbCkptImport db dim file =
      (importUntilDone (file.length + 1) (begunImport db binIdx bin file)).map importOutcome := by
  have hbegin : graveldbCkptImportBegin db dim file = some (.ok (begunImport db binIdx bin file)) := by
    simp only [graveldbCkptImportBegin,hfind,hbin]
    rfl
  simp only [graveldbCkptImport,hbegin,Option.bind_eq_bind,Option.bind_some]
  cases importUntilDone (file.length + 1) (begunImport db binIdx bin file) <;> rfl

theorem firstStep (hbin : db.bins[binIdx]? = some bin) :
    graveldbCkptImportStep (begunImport db binIdx bin file) =
      if (importHeader (begunImport db binIdx bin file) bin).2 = .ok then
        importLoop ckptImportBatch (importHeader (begunImport db binIdx bin file) bin).1
      else some (importHeader (begunImport db binIdx bin file) bin) := by
  have hopen : (begunImport db binIdx bin file).done = false := rfl
  have hheader : (begunImport db binIdx bin file).headerRead = false := rfl
  have hbin' : (begunImport db binIdx bin file).db.bins[(begunImport db binIdx bin file).binIdx]? =
    some bin := hbin
  simp only [graveldbCkptImportStep,hopen,hheader,hbin',Bool.false_eq_true,if_false,
    Option.bind_eq_bind,Option.bind_some,Option.pure_def]

theorem import_unrecognised (hfind : dimRegistryFind db.registry dim = some binIdx)
    (hbin : db.bins[binIdx]? = some bin) (hmatch : HeaderMatches bin file)
    (hrec : ¬ Recognised file) : graveldbCkptImport db dim file = some (db,.errCorrupt) := by
  have hbad : (fileHeader file).magic ≠ ckptExportMagic ∨ (fileHeader file).version ≠ 1 := by
    rw [Recognised,not_and_or] at hrec
    exact hrec
  have htake : (file.take wireCkptExportHdrSize).length = wireCkptExportHdrSize :=
    length_take_of_le hmatch.long
  unfold fileHeader at hbad
  have hheader : importHeader (begunImport db binIdx bin file) bin =
      ({ begunImport db binIdx bin file with unread := file.drop wireCkptExportHdrSize },
        .errCorrupt) := by
    simp only [importHeader,begunImport,htake,ne_eq,not_true_eq_false,if_false]
    simp only [ne_eq] at hbad
    simp only [hbad,if_true]
  rw [graveldbCkptImport_begun hfind hbin,importUntilDone,firstStep hbin,hheader]
  rfl

theorem import_scans (hfind : dimRegistryFind db.registry dim = some binIdx)
    (hbin : db.bins[binIdx]? = some bin) (hmatch : HeaderMatches bin file) (hrec : Recognised file)
    (h : Scans (fileHeader file).entrySize.toNat (file.drop wireCkptExportHdrSize) entries ending) :
    graveldbCkptImport db dim file =
      (importEntries binIdx (UInt32.ofNat bin.geom.entrySize) db entries).map appliedOutcome := by
  obtain ⟨hmagic,hversion⟩ := hrec
  have htake : (file.take wireCkptExportHdrSize).length = wireCkptExportHdrSize :=
    length_take_of_le hmatch.long
  have hdim := hmatch.dim
  have hsize := hmatch.size
  rw [hsize] at h
  unfold fileHeader at hmagic hversion hdim hsize
  obtain ⟨imp,himp⟩ : ∃ imp : CkptImport, imp = { begunImport db binIdx bin file with
    unread := file.drop wireCkptExportHdrSize, headerRead := true } := ⟨_,rfl⟩
  have hheader : importHeader (begunImport db binIdx bin file) bin = (imp,.ok) := by
    rw [himp]
    simp only [importHeader,begunImport,htake,ne_eq,not_true_eq_false,if_false,hmagic,hversion,
      or_self,hdim,hsize]
  have hread : Reading imp (UInt32.ofNat bin.geom.entrySize) (file.drop wireCkptExportHdrSize) := by
    rw [himp]
    exact ⟨rfl,rfl,rfl,rfl,by simp only [begunImport,hbin,Option.isSome_some]⟩
  have hfirst : importUntilDone (file.length + 1) (begunImport db binIdx bin file) =
      importOn ckptImportBatch file.length imp := by
    rw [importUntilDone,firstStep hbin,hheader]
    rfl
  have hdone := completes_of_scans h 255 file.length (by
    have hlong := hmatch.long
    rw [length_drop]
    rw [wireCkptExportHdrSize] at hlong ⊢
    omega) imp hread
  rw [graveldbCkptImport_begun hfind hbin,hfirst,ckptImportBatch,hdone,himp]
  rfl

theorem fileHeader_export (info : DumpInfo) (rest : List UInt8) :
    fileHeader (exportHeader info ++ rest) =
      { magic := ckptExportMagic, version := 1, type := info.type.api + 1
        generation := info.generation, dim := info.dim, entrySize := info.entrySize
        numEntries := 0, baseGen := info.baseGen, checksum := 0 } := by
  rw [fileHeader,exportHeader,take_left' (length_encodeHdr _),decode_encodeHdr]

/-- The two decoders agree on a file that a bin can take, and do not report success for a truncated
dump, exactly when the entries are whole, every one of them finds a slot and has an id, and the file
is not the front of a longer dump. If they agree and the index has room, every id is found. -/
theorem decoders_agree_iff {db' : GravelDB} {rc : Status}
    (hfind : dimRegistryFind db.registry dim = some binIdx) (hbin : db.bins[binIdx]? = some bin)
    (hdim : bin.geom.dim = dim) (hmatch : HeaderMatches bin file)
    (himport : graveldbCkptImport db dim file = some (db',rc)) :
    (DecodersAgree db binIdx file db' rc ↔
      ¬ Recognised file ∨ ∃ entries ending,
        Scans (fileHeader file).entrySize.toNat (file.drop wireCkptExportHdrSize) entries ending ∧
        (ending = .clean ∨ ending = .trailer) ∧
        2 ^ 32 - 1 ∉ nextSlots bin.freeList bin.bumpPtr entries.length ∧
        (∀ e ∈ entries, e.featId ≠ 0) ∧ ¬ TruncatedExport file) ∧
    ∀ m, Still db.index m → IndexRoom db.index (parsedFile file).1.length →
      DecodersAgree db binIdx file db' rc →
      ∀ e ∈ (parsedFile file).1, ∃ slot, indexMap db'.index e.featId = some (binIdx,slot) := by
  refine ⟨?_,fun m hs hroom hagree e he => ?_⟩
  swap
  · obtain ⟨m',hs',hfound⟩ := hagree.entries.found hs hroom
    rw [hs'.map_eq]
    exact hfound _ (.inr ⟨e,he,rfl⟩)
  by_cases hrec : Recognised file
  · -- Whatever the file holds, the run is known; only the ending and the slots are left to look at.
    have hruns : ∀ {entries ending}, Scans (fileHeader file).entrySize.toNat
        (file.drop wireCkptExportHdrSize) entries ending →
        (Applies binIdx (fileHeader file).entrySize db entries db' ↔
          rc = .ok ∧ ∀ e ∈ entries, e.featId ≠ 0) ∧
          (rc = .ok ↔ 2 ^ 32 - 1 ∉ nextSlots bin.freeList bin.bumpPtr entries.length) ∧
          parsedFile file = (entries,.status ending.parsed) := by
      intro entries ending hscan
      have hsteps := import_scans hfind hbin hmatch hrec hscan
      rw [himport,← hmatch.size] at hsteps
      obtain ⟨⟨db1,all⟩,hentries,hout⟩ := Option.map_eq_some_iff.mp hsteps.symm
      obtain ⟨hall,happlied⟩ := importEntries_all hentries hbin (by rw [hdim]; exact hfind)
      cases hout
      have hok : (if all then Status.ok else .errFull) = .ok ↔ all = true := by
        cases all <;> simp
      simp only [hok]
      exact ⟨happlied,hall,parsedFile_scans hmatch.long hrec hscan⟩
    constructor
    · intro hagree
      obtain ⟨entries,ending,hscan⟩ := scans_total (fileHeader file).entrySize.toNat
        (file.drop wireCkptExportHdrSize)
      obtain ⟨happlied,hok,hparse⟩ := hruns hscan
      have hentries := hagree.entries
      rw [hparse] at hentries
      obtain ⟨hrc,hids⟩ := happlied.mp hentries
      have hparsed : ending.parsed = .ok := by
        have hstatus := hagree.statuses.mp hrc
        rw [hparse] at hstatus
        exact ParseRc.status.inj hstatus
      refine .inr ⟨entries,ending,hscan,?_,hok.mp hrc,hids,?_⟩
      · cases ending with
        | clean => exact .inl rfl
        | trailer => exact .inr rfl
        | cutKey => cases hparsed
        | cutVector => cases hparsed
      · intro htrunc
        exact (hagree.truncated htrunc).1 hrc
    · rintro (hbad | ⟨entries,ending,hscan,hwhole,hall,hids,hintact⟩)
      · exact absurd hrec hbad
      obtain ⟨happlied,hok,hparse⟩ := hruns hscan
      have hparsed : ending.parsed = .ok := by
        rcases hwhole with rfl | rfl <;> rfl
      refine ⟨?_,?_,fun htrunc => absurd htrunc hintact⟩
      · rw [hparse]
        exact happlied.mpr ⟨hok.mpr hall,hids⟩
      · rw [hparse,hparsed]
        exact iff_of_true (hok.mpr hall) rfl
  · rw [import_unrecognised hfind hbin hmatch hrec] at himport
    cases himport
    refine iff_of_true ?_ (.inl hrec)
    have hparse := parsedFile_unrecognised hrec
    refine ⟨by rw [hparse]; rfl,?_,fun _ => ?_⟩
    · rw [hparse]
      decide
    · rw [hparse]
      decide

/-- An export leaves the entry count of its header zero. -/
theorem not_truncated_of_count (hlong : wireCkptExportHdrSize ≤ file.length)
    (hcount : (fileHeader file).numEntries ≠ 0) : ¬ TruncatedExport file := by
  rintro ⟨dump,⟨bin,type,baseGen,batch,uring,keyJunk,poolJunk,fuel,exp,_,rfl⟩,⟨tail,htail⟩,_⟩
  have hsame : fileHeader file = fileHeader (exportFile bin exp) := by
    rw [fileHeader,fileHeader,← htail,take_append_of_le_length hlong]
  rw [hsame,exportFile,exportDump,append_assoc,fileHeader_export] at hcount
  exact hcount rfl

def numberedDump : List UInt8 :=
  wireEncodeCkptExportHdr ⟨ckptExportMagic,1,1,1,1,4,1,0,0⟩ ++ exportEntry ⟨7,[1,2,3,4]⟩ ++
    exportTrailer 1

def freshBin : DimBin := (Slots.smallStore.bins[0]?).get (by decide +kernel)

theorem numbered_dump_agrees : ∃ db',
    graveldbCkptImport Slots.smallStore 1 numberedDump = some (db',.ok) ∧
      DecodersAgree Slots.smallStore 0 numberedDump db' .ok ∧
      ∃ slot, indexMap db'.index 7 = some (0,slot) := by
  have hrun : (graveldbCkptImport Slots.smallStore 1 numberedDump).map Prod.snd = some .ok := by
    decide +kernel
  obtain ⟨⟨db',rc⟩,himport,hout⟩ := Option.map_eq_some_iff.mp hrun
  cases hout
  refine ⟨db',himport,?_⟩
  have hfind : dimRegistryFind Slots.smallStore.registry 1 = some 0 := by decide +kernel
  have hbin : Slots.smallStore.bins[0]? = some freshBin := (Option.some_get _).symm
  have hmatch : HeaderMatches freshBin numberedDump :=
    ⟨by decide +kernel,by decide +kernel,by decide +kernel⟩
  obtain ⟨hiff,hfound⟩ := decoders_agree_iff hfind hbin (by decide +kernel) hmatch himport
  have hscan : Scans (fileHeader numberedDump).entrySize.toNat
      (numberedDump.drop wireCkptExportHdrSize) [⟨7,[1,2,3,4]⟩] .trailer :=
    .entry (by decide +kernel) (by decide +kernel)
      (.trailer (by decide +kernel) (by decide +kernel))
  have hagree := hiff.mpr (.inr ⟨_,_,hscan,.inr rfl,by decide +kernel,by decide,
    not_truncated_of_count (by decide +kernel) (by decide +kernel)⟩)
  have hopen : graveldbOpen Slots.smallConfig (emptyDir 4096) = some Slots.smallStore :=
    (Option.some_get _).symm
  exact ⟨hagree,hfound _ (Slots.open_slots hopen).index (by decide +kernel) hagree ⟨7,[1,2,3,4]⟩ (by decide +kernel)⟩

def oneKeyDir : DataDir :=
  { emptyDir 4096 with
    bins := fun _ => ⟨File.empty.write 0 4 (fun i => UInt8.ofNat (i + 1)),
      File.empty.write 0 1 (fun _ => 7)⟩ }

def oneKeyStore : GravelDB := (graveldbOpen Slots.smallConfig oneKeyDir).get (by decide +kernel)

def oneKeyBin : DimBin := (oneKeyStore.bins[0]?).get (by decide +kernel)

def oneKeyExport : CkptExport :=
  (exportUntilDone oneKeyBin 8 (graveldbCkptExportBegin oneKeyBin .full 0 0 true (fun _ => 0)
    (fun _ => 0))).get (by decide +kernel)

def oneKeyDump : List UInt8 := exportFile oneKeyBin oneKeyExport

theorem oneKeyDump_exported : ExportedDump oneKeyDump :=
  ⟨oneKeyBin,.full,0,0,true,fun _ => 0,fun _ => 0,8,oneKeyExport,(Option.some_get _).symm,rfl⟩

/-- The import reports success and the index stays empty. -/
def ImportsNothing (file : List UInt8) : Prop :=
  (graveldbCkptImport Slots.smallStore 1 file).map (fun r => (r.1.index.count,r.2)) = some (0,.ok)

instance (file : List UInt8) : Decidable (ImportsNothing file) := inferInstanceAs (Decidable (_ = _))

/-- A dump of one entry that is cut behind its header is taken by both decoders for a whole one.
Cut within the entry it is refused by the parser, while the import reports success. -/
theorem cut_dumps_accepted :
    HeaderMatches freshBin (oneKeyDump.take 48) ∧ HeaderMatches freshBin (oneKeyDump.take 57) ∧
    (ImportsNothing (oneKeyDump.take 48) ∧ parsedFile (oneKeyDump.take 48) = ([],.status .ok) ∧
      ∀ db', ¬ DecodersAgree Slots.smallStore 0 (oneKeyDump.take 48) db' .ok) ∧
    (ImportsNothing (oneKeyDump.take 57) ∧
      parsedFile (oneKeyDump.take 57) = ([],.status .errCorrupt) ∧
      ∀ db', ¬ DecodersAgree Slots.smallStore 0 (oneKeyDump.take 57) db' .ok) := by
  have hfront : parsedFile (oneKeyDump.take 48) = ([],.status .ok) := by decide +kernel
  have hcut : parsedFile (oneKeyDump.take 57) = ([],.status .errCorrupt) := by decide +kernel
  refine ⟨⟨by decide +kernel,by decide +kernel,by decide +kernel⟩,
    ⟨by decide +kernel,by decide +kernel,by decide +kernel⟩,
    ⟨by decide +kernel,hfront,?_⟩,⟨by decide +kernel,hcut,?_⟩⟩
  · intro db' hagree
    exact (hagree.truncated ⟨oneKeyDump,oneKeyDump_exported, take_prefix _ _,
      by decide +kernel⟩).1 rfl
  · intro db' hagree
    have hstatus := hagree.statuses.mp rfl
    rw [hcut] at hstatus
    cases hstatus

end Files

end Gravel.Proofs.Import
