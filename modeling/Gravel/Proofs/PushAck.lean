import Gravel.Model.StoreEngine
import Gravel.Proofs.Backpressure
import Gravel.Proofs.BatchStatus
import Gravel.Proofs.Codecs
import Gravel.Proofs.PushCodec

namespace Gravel.Proofs.PushAck
open Records Codecs PushCodec StoreRefinement BatchStatus Backpressure Spec List Option

def pushCount (body : List UInt8) : Nat := (wireGetU32 body).toNat

/-- The body holds as many whole records as its first word says. -/
structure HoldsRecords (body : List UInt8) (records : List PushRecord) : Prop where
  long : 4 ≤ body.length
  count : records.length = pushCount body
  bytes : ∃ rest, body.drop 4 = records.flatMap pushRecordBytes ++ rest
  dims : ∀ r ∈ records, r.dim < 2 ^ 32

def Applied (db : GravelDB) (body : List UInt8) : Prop :=
  ∃ records, HoldsRecords body records ∧
    ∃ db', graveldbBatchPut db (records.map putItemOf) = some (db',.ok)

def Refused (body : List UInt8) : Prop := body.length < 4 ∨ graveldbWireMaxBatch < pushCount body

section Bodies

variable {ptr rest body : List UInt8} {r : PushRecord} {records : List PushRecord}

theorem readPushRecord_some (h : readPushRecord ptr = some (r,rest)) :
    ptr = pushRecordBytes r ++ rest ∧ r.dim < 2 ^ 32 := by
  unfold readPushRecord at h
  simp only at h
  split_ifs at h with hshort hlong
  cases h
  refine ⟨?_,UInt32.toNat_lt _⟩
  have hdim : 4 ≤ (ptr.drop 8).length := by
    rw [length_drop]
    omega
  have hrest : (ptr.drop 8).drop 4 = ptr.drop 12 := drop_drop
  simp only [pushRecordBytes,UInt32.ofNat_toNat,append_assoc,take_append_drop]
  rw [wirePutU64_get (by omega),wirePutU32_get hdim,← hrest,take_append_drop,
    take_append_drop]

theorem pushRecords_eq_none : pushRecords body = none ↔ Refused body := by
  unfold pushRecords Refused pushCount
  by_cases hshort : body.length < 4
  · simp [hshort]
  · by_cases hmax : graveldbWireMaxBatch < (wireGetU32 body).toNat <;> simp [hshort,hmax]

/-- What the loop of `handle_push` finds is what the body holds, unless the loop breaks. -/
theorem holdsRecords_iff (h : pushRecords body = some records) {records' : List PushRecord} :
    HoldsRecords body records' ↔ records' = records ∧ records.length = pushCount body := by
  have hnot : ¬ Refused body := by
    rw [← pushRecords_eq_none,h]
    exact some_ne_none _
  obtain ⟨hlong,hmax⟩ := not_or.mp hnot
  have hread : records = (readMany readPushRecord (pushCount body) (body.drop 4)).1 := by
    have hmax : ¬ graveldbWireMaxBatch < (wireGetU32 body).toNat := hmax
    simp only [pushRecords,if_neg hlong,if_neg hmax,some_inj] at h
    exact h.symm
  constructor
  · intro hholds
    obtain ⟨rest,hbytes⟩ := hholds.bytes
    have hmany := readMany_written rest records'
      (fun r hr s => readPushRecord_bytes (hholds.dims r hr) s)
    rw [hread,hbytes,← hholds.count,hmany]
    exact ⟨rfl,rfl⟩
  · rintro ⟨rfl,hcount⟩
    refine ⟨Nat.not_lt.mp hlong,hcount,?_,?_⟩
    · rw [hread]
      exact ⟨_,readMany_bytes (fun _ _ _ hsome => (readPushRecord_some hsome).1) _ _⟩
    · rw [hread]
      exact forall_readMany (fun _ _ _ hsome => (readPushRecord_some hsome).2) _ _

theorem applied_iff (h : pushRecords body = some records) (db : GravelDB) :
    Applied db body ↔ records.length = pushCount body ∧
      ∃ db', graveldbBatchPut db (records.map putItemOf) = some (db',.ok) := by
  unfold Applied
  simp only [holdsRecords_iff h]
  constructor
  · rintro ⟨_,⟨rfl,hcount⟩,hput⟩
    exact ⟨hcount,hput⟩
  · rintro ⟨hcount,hput⟩
    exact ⟨records,⟨rfl,hcount⟩,hput⟩

end Bodies

section Pushes

variable {useUring : Bool} {stats : GravelDB → List UInt8} {srv srv' : GravelServer GravelDB}
  {body : List UInt8} {records : List PushRecord} {status : WireStatus}

theorem applyPush_put (h : applyPush (storeEngine useUring stats) srv records = some srv') :
    srv'.conn = srv.conn ∧
      ∃ db' rc, graveldbBatchPut srv.db (records.map putItemOf) = some (db',rc) := by
  unfold applyPush at h
  cases records with
  | nil =>
    simp only [isEmpty_nil,if_true,Option.pure_def,some_inj] at h
    exact ⟨by rw [h],srv.db,.ok,rfl⟩
  | cons r records =>
    simp only [isEmpty_cons,Bool.false_eq_true,if_false] at h
    obtain ⟨⟨db',rc⟩,hput,h⟩ := bind_eq_some_iff.mp h
    refine ⟨?_,db',rc,hput⟩
    split_ifs at h
    · obtain ⟨db'',_,h⟩ := bind_eq_some_iff.mp h
      simp only [Option.pure_def,some_inj] at h
      rw [← h]
    · simp only [Option.pure_def,some_inj] at h
      rw [← h]

end Pushes

/-- A push is acknowledged only if it was applied, exactly for the bodies that are refused and for
those with all their records on which the store takes every turn. For a store that holds a map and
has room, the turns can be told from the map before the batch. -/
theorem push_acknowledged_iff {useUring : Bool} {stats : GravelDB → List UInt8}
    {srv srv' : GravelServer GravelDB} {body : List UInt8} {status : WireStatus}
    (hrun : handlePush (storeEngine useUring stats) srv body = some (srv',status)) :
    srv'.conn = respond srv.conn status [] ∧
    ((status = .ok → Applied srv.db body) ↔
      Refused body ∨ ∃ records, HoldsRecords body records ∧
        BatchGoes srv.db (records.map putItemOf)) ∧
    ∀ (st : VectorStore) (records : List PushRecord), Holds srv.db st → BatchRoom srv.db (records.map putItemOf) →
      (BatchGoes srv.db (records.map putItemOf) ↔
        (ledger srv.db st (records.map putItemOf)).rc = .ok) := by
  unfold handlePush at hrun
  cases hrecords : pushRecords body with
  | none =>
    simp only [hrecords,some_inj,Prod.mk.injEq] at hrun
    obtain ⟨rfl,rfl⟩ := hrun
    refine ⟨rfl,?_,fun st records h hroom => batchGoes_iff_ledger h hroom⟩
    exact iff_of_true (fun h => WireStatus.noConfusion h) (.inl (pushRecords_eq_none.mp hrecords))
  | some records =>
    simp only [hrecords] at hrun
    obtain ⟨srv1,happly,hrun⟩ := bind_eq_some_iff.mp hrun
    cases hrun
    obtain ⟨hconn,db',rc,hput⟩ := applyPush_put happly
    have hnot : ¬ Refused body := by
      rw [← pushRecords_eq_none,hrecords]
      exact some_ne_none _
    have hgoes : (∃ db', graveldbBatchPut srv.db (records.map putItemOf) = some (db',.ok)) ↔
        BatchGoes srv.db (records.map putItemOf) := by
      rw [← graveldbBatchPut_ok hput,hput]
      simp
    refine ⟨by rw [hconn],?_,fun st records h hroom => batchGoes_iff_ledger h hroom⟩
    rw [applied_iff hrecords,hgoes]
    simp only [holdsRecords_iff hrecords,hnot,false_or,forall_true_left]
    constructor
    · exact fun ⟨hcount,hgo⟩ => ⟨records,⟨rfl,hcount⟩,hgo⟩
    · rintro ⟨_,⟨rfl,hcount⟩,hgo⟩
      exact ⟨hcount,hgo⟩

def pushTo (db : GravelDB) (body : List UInt8) : Option (GravelServer GravelDB × WireStatus) :=
  handlePush (storeEngine false (fun _ => [])) ⟨db,false,clientInit []⟩ body

def firstPush : PushRecord := ⟨2,1,[3,3,3,3],rfl⟩

theorem firstPush_acknowledged : ∃ srv',
    pushTo emptyStore (pushSerialize [firstPush]) = some (srv',.ok) ∧
    Applied emptyStore (pushSerialize [firstPush]) ∧
    (∃ records, HoldsRecords (pushSerialize [firstPush]) records ∧
      BatchGoes emptyStore (records.map putItemOf)) ∧
    (ledger emptyStore ⟨[],fun _ => none⟩ [putItemOf firstPush]).rc = .ok := by
  have hok : (pushTo emptyStore (pushSerialize [firstPush])).map Prod.snd = some .ok := by
    decide +kernel
  obtain ⟨⟨srv',status⟩,hrun,hstatus⟩ := map_eq_some_iff.mp hok
  cases hstatus
  have hrecords : pushRecords (pushSerialize [firstPush]) = some [firstPush] := by decide +kernel
  have hput : (graveldbBatchPut emptyStore [putItemOf firstPush]).map Prod.snd = some .ok := by
    decide +kernel
  obtain ⟨⟨db',rc⟩,hput,hrc⟩ := map_eq_some_iff.mp hput
  cases hrc
  have happlied : Applied emptyStore (pushSerialize [firstPush]) :=
    (applied_iff hrecords emptyStore).mpr ⟨by decide +kernel,db',hput⟩
  obtain ⟨_,hiff,hledger⟩ := push_acknowledged_iff hrun
  have hnot : ¬ Refused (pushSerialize [firstPush]) := by
    rw [← pushRecords_eq_none,hrecords]
    exact some_ne_none _
  refine ⟨srv',hrun,happlied,(hiff.mp fun _ => happlied).resolve_left hnot,?_⟩
  exact (hledger ⟨[],fun _ => none⟩ [firstPush] emptyStore_holds (emptyStore_room rfl)).mp
    ((graveldbBatchPut_ok hput).mp rfl)

theorem not_applied {db : GravelDB} {body : List UInt8} {records : List PushRecord} {rc : Status}
    (h : pushRecords body = some records)
    (hput : (graveldbBatchPut db (records.map putItemOf)).map Prod.snd = some rc) (hrc : rc ≠ .ok) :
    ¬ Applied db body := by
  rw [applied_iff h]
  rintro ⟨_,db',hok⟩
  rw [hok,map_some,some_inj] at hput
  exact hrc hput.symm

def closedStore : GravelDB :=
  { emptyStore with config := { tightConfig with autoCreateBins := false } }

def widened : PushRecord := ⟨1,2,[1,1,1,1,1,1,1,1],rfl⟩

def twoNew : List PushRecord := [⟨3,1,[3,3,3,3],rfl⟩,⟨4,1,[4,4,4,4],rfl⟩]

/-- A record that is missing, another dim, an unknown dim and a full overlay are all acknowledged. -/
theorem failures_acknowledged :
    ((pushTo emptyStore [1,0,0,0]).map Prod.snd = some .ok ∧ ¬ Applied emptyStore [1,0,0,0]) ∧
    ((pushTo tightStore (pushSerialize [widened])).map Prod.snd = some .ok ∧
      ¬ Applied tightStore (pushSerialize [widened])) ∧
    ((pushTo closedStore (pushSerialize [widened])).map Prod.snd = some .ok ∧
      ¬ Applied closedStore (pushSerialize [widened])) ∧
    (pushTo frozenStore (pushSerialize twoNew)).map Prod.snd = some .ok ∧
      ¬ Applied frozenStore (pushSerialize twoNew) := by
  have hone : pushRecords (pushSerialize [widened]) = some [widened] := by decide +kernel
  have htwo : pushRecords (pushSerialize twoNew) = some twoNew := by decide +kernel
  have hnone : pushRecords [1,0,0,0] = some [] := by decide +kernel
  refine ⟨⟨by decide +kernel,?_⟩,⟨by decide +kernel,?_⟩,⟨by decide +kernel,?_⟩,by decide +kernel,?_⟩
  · rw [applied_iff hnone]
    exact fun h => absurd h.1 (by decide +kernel)
  · exact @not_applied _ _ _ .errDimMismatch hone (by decide +kernel) Status.noConfusion
  · exact @not_applied _ _ _ .errInvalid hone (by decide +kernel) Status.noConfusion
  · exact @not_applied _ _ _ .errBusy htwo (by decide +kernel) Status.noConfusion

end Gravel.Proofs.PushAck
