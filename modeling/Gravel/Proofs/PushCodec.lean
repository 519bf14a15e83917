import Gravel.Model.Client
import Gravel.Model.Server
import Gravel.Proofs.DumpFormat

namespace Gravel.Proofs.PushCodec
open Records DumpFormat List

section Bodies

variable {r : PushRecord} {records : List PushRecord}

theorem length_pushRecordBytes (r : PushRecord) :
    (pushRecordBytes r).length = 8 + 4 + r.dim * 4 := by
  simp only [pushRecordBytes,length_append,length_wirePutU64,length_wirePutU32,r.sized]
  omega

/-- The length that is computed before the loop is that of the bytes that the loop writes. -/
theorem pushBodyLen_eq (records : List PushRecord) :
    pushBodyLen records = (pushSerialize records).length := by
  have hfold : ∀ (rs : List PushRecord) (n : Nat),
      rs.foldl (fun bodyLen r => bodyLen + (8 + 4 + r.dim * 4)) n =
        n + (rs.flatMap pushRecordBytes).length := by
    intro rs
    induction rs with
    | nil => exact fun n => rfl
    | cons r rs ih =>
      intro n
      rw [foldl_cons,ih,flatMap_cons,length_append,length_pushRecordBytes]
      omega
  rw [pushBodyLen,hfold,pushSerialize,length_append,length_wirePutU32]

theorem readPushRecord_bytes (hdim : r.dim < 2 ^ 32) (rest : List UInt8) :
    readPushRecord (pushRecordBytes r ++ rest) = some (r,rest) := by
  have hdrop8 : (pushRecordBytes r ++ rest).drop 8 =
      wirePutU32 (UInt32.ofNat r.dim) ++ (r.emb ++ rest) := by
    rw [pushRecordBytes,append_assoc,drop_left' (length_wirePutU64 _),append_assoc]
  have hdrop12 : (pushRecordBytes r ++ rest).drop 12 = r.emb ++ rest := by
    rw [show 12 = 8 + 4 from rfl,← drop_drop,hdrop8,drop_left' (length_wirePutU32 _)]
  have hid : wireGetU64 (pushRecordBytes r ++ rest) = r.featId := by
    rw [pushRecordBytes,append_assoc,wireGetU64_put]
  have hword : (wireGetU32 ((pushRecordBytes r ++ rest).drop 8)).toNat = r.dim := by
    rw [hdrop8,wireGetU32_put]
    exact UInt32.toNat_ofNat_of_lt' hdim
  have hlong : ¬ (pushRecordBytes r ++ rest).length < 12 := by
    rw [length_append,length_pushRecordBytes]
    omega
  have hwhole : ¬ (r.emb ++ rest).length < r.emb.length := by
    rw [length_append]
    omega
  rw [readPushRecord,if_neg hlong]
  simp only [hword,hdrop12,hid,← r.sized,take_left,drop_left,dif_neg hwhole]

theorem dim_lt_of_mem (hr : r ∈ records) (hsize : (pushSerialize records).length < 2 ^ 32 - 12) :
    r.dim < 2 ^ 32 := by
  obtain ⟨before,after,rfl⟩ := append_of_mem hr
  have hle : (pushRecordBytes r).length ≤
      ((before ++ r :: after).flatMap pushRecordBytes).length := by
    simp only [flatMap_append,flatMap_cons,length_append]
    omega
  rw [length_pushRecordBytes] at hle
  rw [pushSerialize,length_append] at hsize
  omega

end Bodies

/-- The server finds the records of a body as the client put them there. -/
theorem push_round_trip (records : List PushRecord) (hcount : records.length ≤ 65536)
    (hsize : pushBodyLen records < 2 ^ 32 - 12) :
    (pushSerialize records).length = pushBodyLen records ∧
      pushRecords (pushSerialize records) = some records := by
  rw [pushBodyLen_eq] at hsize ⊢
  refine ⟨rfl,?_⟩
  have hword : (wireGetU32 (pushSerialize records)).toNat = records.length := by
    rw [pushSerialize,wireGetU32_put]
    exact UInt32.toNat_ofNat_of_lt' (Nat.lt_of_le_of_lt hcount (by decide))
  have hlong : ¬ (pushSerialize records).length < 4 := by
    rw [pushSerialize,length_append,length_wirePutU32]
    omega
  have hmax : ¬ graveldbWireMaxBatch < records.length := Nat.not_lt.mpr hcount
  have hread := readMany_written [] records
    (fun r hr rest => readPushRecord_bytes (dim_lt_of_mem hr hsize) rest)
  rw [append_nil] at hread
  rw [pushRecords,if_neg hlong]
  simp only [hword,if_neg hmax]
  rw [pushSerialize,drop_left' (length_wirePutU32 _),hread]

def mixedDims : List PushRecord :=
  [⟨7,1,[1,2,3,4],rfl⟩,⟨8,0,[],length_nil⟩,⟨9,2,[5,6,7,8,9,10,11,12],rfl⟩]

theorem mixedDims_recovered : pushRecords (pushSerialize mixedDims) = some mixedDims :=
  (push_round_trip mixedDims (by decide) (by decide)).2

end Gravel.Proofs.PushCodec
