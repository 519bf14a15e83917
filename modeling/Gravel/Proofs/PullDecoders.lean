import Gravel.Model.Client
import Gravel.Spec.PullWire
import Gravel.Proofs.DumpFormat

namespace Gravel.Proofs.PullDecoders
open DumpFormat Spec List Option Function

def fill (emb : List UInt8) : (Nat → UInt8) → Nat → UInt8 :=
  copyBytes emb.length (fun p => emb.getD p 0)

def store (out : PullOut) (i : Nat) (r : PullRecord) : PullOut where
  dims := out.dims.map (fun dims => dims.set i (asInt r.dim))
  embs := out.embs.map (fun embs => embs.modify i (Option.map (fill r.emb)))

def storeAll (out : PullOut) : Nat → List PullRecord → PullOut
  | _, [] => out
  | i, r :: rest => storeAll (store out i r) (i + 1) rest

/-- What the decoders promise: every dim, and the vector of every record whose slot is not NULL. -/
structure Filled (out : PullOut) (records : List PullRecord) (out' : PullOut) : Prop where
  dims : out'.dims = some (records.map (fun r => asInt r.dim))
  slots : ∀ i r, records[i]? = some r → out'.slot i = (out.slot i).map (fill r.emb)

section Store

variable {out : PullOut} {i j : Nat} {r : PullRecord} {records : List PullRecord} {ds : List Int}

theorem fill_nil : fill [] = id := by
  funext buf p
  rw [fill,copyBytes,length_nil,if_neg (Nat.not_lt_zero p)]
  rfl

theorem slot_store : (store out i r).slot j =
    if i = j then (out.slot j).map (fill r.emb) else out.slot j := by
  unfold PullOut.slot store
  cases out.embs with
  | none => split_ifs <;> rfl
  | some embs =>
    simp only [map_some,bind_eq_bind,bind_some,getElem?_modify]
    cases embs[j]? with
    | none => split_ifs <;> rfl
    | some slot => split_ifs <;> rfl

theorem emb_nil (h : r.dim.toNat = 0) : r.emb = [] := by
  have hlen := r.sized
  rw [h,Nat.zero_mul] at hlen
  exact length_eq_zero_iff.mp hlen

theorem embs_kept (h : r.emb = [] ∨ out.slot i = none) : (store out i r).embs = out.embs := by
  change out.embs.map (fun embs => embs.modify i (Option.map (fill r.emb))) = out.embs
  cases hembs : out.embs with
  | none => rfl
  | some embs =>
    rw [map_some,some_inj]
    apply ext_getElem?
    intro j
    rw [getElem?_modify]
    cases hj : embs[j]? with
    | none => rfl
    | some slot =>
      by_cases hij : i = j
      · subst hij
        rcases h with h | h
        · rw [h,fill_nil]
          simp
        · have hslot : slot = none := by
            simpa [PullOut.slot,hembs,hj] using h
          simp [hslot]
      · simp [hij]

theorem dims_storeAll (records : List PullRecord) : ∀ (out : PullOut) (ds : List Int) (i : Nat),
    out.dims = some ds → ds.length = i + records.length →
    (storeAll out i records).dims = some (ds.take i ++ records.map (fun r => asInt r.dim)) := by
  induction records with
  | nil =>
    intro out ds i hdims hlen
    rw [storeAll,hdims,map_nil,append_nil,take_of_length_le (by rw [hlen]; rfl)]
  | cons r rest ih =>
    intro out ds i hdims hlen
    rw [length_cons] at hlen
    rw [storeAll,ih (store out i r) (ds.set i (asInt r.dim)) (i + 1) (by rw [store,hdims]; rfl)
      (by rw [length_set]; omega)]
    rw [take_add_one,take_set_of_le (Nat.le_refl i),getElem?_set_self (by omega)]
    simp

theorem slot_storeAll (records : List PullRecord) : ∀ (out : PullOut) (i j : Nat),
    (storeAll out i records).slot j =
      if h : i ≤ j ∧ j < i + records.length then
        (out.slot j).map (fill (records.get ⟨j - i,by omega⟩).emb)
      else out.slot j := by
  induction records with
  | nil =>
    intro out i j
    rw [dif_neg (by simp only [length_nil]; omega)]
    rfl
  | cons r rest ih =>
    intro out i j
    rw [storeAll,ih]
    by_cases hij : i = j
    · subst hij
      rw [dif_neg (by omega),dif_pos (by simp),slot_store,if_pos rfl]
      simp
    · rw [slot_store,if_neg hij]
      by_cases hin : i + 1 ≤ j ∧ j < i + 1 + rest.length
      · have hstep : j - i = (j - (i + 1)) + 1 := by omega
        rw [dif_pos hin,dif_pos (by simp only [length_cons]; omega)]
        simp only [get_eq_getElem,hstep,getElem_cons_succ]
      · rw [dif_neg hin,dif_neg (by simp only [length_cons]; omega)]

theorem filled_storeAll (hdims : out.dims = some ds) (hlen : ds.length = records.length) :
    Filled out records (storeAll out 0 records) := by
  refine ⟨?_,?_⟩
  · rw [dims_storeAll records out ds 0 hdims (by rw [hlen,Nat.zero_add]),take_zero,
      nil_append]
  · intro i r hr
    obtain ⟨hlt,hget⟩ := List.getElem?_eq_some_iff.mp hr
    rw [slot_storeAll,dif_pos (by omega)]
    simp only [get_eq_getElem,Nat.sub_zero,hget]

end Store

section Loop

variable {steps : Bool} {out : PullOut} {i : Nat} {r : PullRecord} {ds : List Int}
  {records : List PullRecord}

def SteppedOver (steps : Bool) (out : PullOut) (i : Nat) (r : PullRecord) : Prop :=
  steps = true ∨ r.dim.toNat = 0 ∨ (out.slot i).isSome

instance : Decidable (SteppedOver steps out i r) := inferInstanceAs (Decidable (_ ∨ _ ∨ _))

theorem pullRecord_bytes (hdims : out.dims = some ds) (hi : i < ds.length) (rest : List UInt8) :
    pullRecord steps out i (pullRecordBytes r ++ rest) =
      some (store out i r,if SteppedOver steps out i r then rest else r.emb ++ rest) := by
  have hlong : ¬ (pullRecordBytes r ++ rest).length < 4 := by
    simp only [pullRecordBytes,length_append,length_wirePutU32]
    omega
  have hword : wireGetU32 (pullRecordBytes r ++ rest) = r.dim := by
    rw [pullRecordBytes,append_assoc,wireGetU32_put]
  have hdrop : (pullRecordBytes r ++ rest).drop 4 = r.emb ++ rest := by
    rw [pullRecordBytes,append_assoc,drop_left' (length_wirePutU32 _)]
  have hset : out.setDim i r.dim = some { out with dims := some (ds.set i (asInt r.dim)) } := by
    simp only [PullOut.setDim,hdims,if_pos hi]
  have hslot : (PullOut.mk (some (ds.set i (asInt r.dim))) out.embs).slot i = out.slot i := rfl
  have hfit : r.emb.length ≤ (r.emb ++ rest).length := by
    rw [length_append]
    omega
  have hstored : store out i r =
      ⟨some (ds.set i (asInt r.dim)),(store out i r).embs⟩ := by
    rw [store,hdims]
    rfl
  rw [pullRecord,if_neg hlong]
  simp only [hword,hdrop,hset,hslot,← r.sized,bind_eq_bind,bind_some,Option.pure_def]
  by_cases hcopy : 0 < r.dim.toNat ∧ (out.slot i).isSome
  · have hover : SteppedOver steps out i r := Or.inr (Or.inr hcopy.2)
    rw [if_pos hcopy,if_pos hfit,if_pos hover,take_left,drop_left,hstored]
    rfl
  · have hskip : r.emb = [] ∨ out.slot i = none := by
      by_cases hzero : r.dim.toNat = 0
      · exact Or.inl (emb_nil hzero)
      · right
        rw [← not_isSome_iff_eq_none]
        exact fun hs => hcopy ⟨Nat.pos_of_ne_zero hzero,hs⟩
    rw [if_neg hcopy,hstored,embs_kept hskip]
    by_cases hsteps : steps = true
    · have hover : SteppedOver steps out i r := Or.inl hsteps
      rw [if_pos hsteps,if_pos hover,drop_left]
    · rw [if_neg hsteps]
      by_cases hover : SteppedOver steps out i r
      · rcases hover with h | h | h
        · exact absurd h hsteps
        · rw [emb_nil h,nil_append,ite_self]
        · have hzero : r.dim.toNat = 0 := by
            by_contra hne
            exact hcopy ⟨Nat.pos_of_ne_zero hne,h⟩
          rw [emb_nil hzero,nil_append,ite_self]
      · rw [if_neg hover]

theorem dims_store (hdims : out.dims = some ds) :
    (store out i r).dims = some (ds.set i (asInt r.dim)) := by
  rw [store,hdims]
  rfl

theorem pullRecord_dims {ptr ptr' : List UInt8} {out' : PullOut}
    (h : pullRecord steps out i ptr = some (out',ptr')) :
    out'.dims = out.dims.map (fun ds => ds.set i (asInt (wireGetU32 ptr))) := by
  rw [pullRecord] at h
  by_cases hshort : ptr.length < 4
  · rw [if_pos hshort] at h
    cases h
  rw [if_neg hshort] at h
  obtain ⟨out1,hset,h⟩ := bind_eq_some_iff.mp h
  have hdims : out1.dims = out.dims.map (fun ds => ds.set i (asInt (wireGetU32 ptr))) := by
    cases hds : out.dims with
    | none =>
      rw [PullOut.setDim,hds] at hset
      cases hset
      exact hds
    | some ds =>
      rw [PullOut.setDim,hds] at hset
      simp only at hset
      split_ifs at hset
      cases hset
      rfl
  split_ifs at h
  all_goals
    cases h
    exact hdims

theorem SteppedOver.store {j : Nat} {r' : PullRecord} (h : SteppedOver steps out j r') :
    SteppedOver steps (store out i r) j r' := by
  rcases h with h | h | h
  · exact Or.inl h
  · exact Or.inr (Or.inl h)
  · right
    right
    rw [slot_store]
    split_ifs
    · rw [isSome_map]
      exact h
    · exact h

theorem pullRecords_stepped (records : List PullRecord) (n : Nat) (rest : List UInt8) :
    ∀ (out : PullOut) (ds : List Int) (i : Nat), out.dims = some ds →
    i + records.length ≤ ds.length →
    (∀ j r, records[j]? = some r → SteppedOver steps out (i + j) r) →
    pullRecords steps (records.length + n) out i (records.flatMap pullRecordBytes ++ rest) =
      pullRecords steps n (storeAll out i records) (i + records.length) rest := by
  induction records with
  | nil =>
    intro out ds i _ _ _
    rw [length_nil,Nat.zero_add]
    rfl
  | cons r records ih =>
    intro out ds i hdims hfit hover
    rw [length_cons] at hfit
    have hbytes : ((r :: records).flatMap pullRecordBytes ++ rest).length ≠ 0 := by
      rw [flatMap_cons,append_assoc,length_append,pullRecordBytes,length_append,
        length_wirePutU32]
      omega
    have hr : SteppedOver steps out i r := hover 0 r rfl
    rw [length_cons,show records.length + 1 + n = records.length + n + 1 by omega,pullRecords,
      if_neg hbytes,flatMap_cons,append_assoc,pullRecord_bytes hdims (by omega),if_pos hr]
    simp only [bind_eq_bind,bind_some,storeAll]
    rw [ih (store out i r) (ds.set i (asInt r.dim)) (i + 1) (dims_store hdims)
      (by rw [length_set]; omega)]
    · rw [show i + 1 + records.length = i + (records.length + 1) by omega]
    · intro j r' hj
      have hnext := hover (j + 1) r' hj
      rw [show i + 1 + j = i + (j + 1) by omega]
      exact hnext.store

theorem pullRecords_all {n : Nat} (hdims : out.dims = some ds)
    (hfit : i + records.length ≤ ds.length) (hn : records.length ≤ n)
    (hover : ∀ j r, records[j]? = some r → SteppedOver steps out (i + j) r) :
    pullRecords steps n out i (records.flatMap pullRecordBytes) =
      some (storeAll out i records,i + records.length) := by
  have hrun := pullRecords_stepped records (n - records.length) [] out ds i hdims hfit hover
  rw [append_nil,Nat.add_sub_cancel' hn] at hrun
  rw [hrun]
  cases n - records.length with
  | zero => rfl
  | succ m => rfl

theorem storeAll_append (a b : List PullRecord) : ∀ (out : PullOut) (i : Nat),
    storeAll out i (a ++ b) = storeAll (storeAll out i a) (i + a.length) b := by
  induction a with
  | nil => exact fun _ _ => rfl
  | cons r a ih =>
    intro out i
    rw [cons_append,storeAll,storeAll,ih,length_cons]
    congr 1
    omega

theorem storeAll_dims (records : List PullRecord) : ∀ (out : PullOut) (ds : List Int) (i : Nat),
    out.dims = some ds → ∃ ds', (storeAll out i records).dims = some ds' ∧ ds'.length = ds.length := by
  induction records with
  | nil => exact fun out ds _ hdims => ⟨ds,hdims,rfl⟩
  | cons r rest ih =>
    intro out ds i hdims
    obtain ⟨ds',hds',hlen⟩ := ih (store out i r) _ (i + 1) (dims_store hdims)
    exact ⟨ds',hds',by rw [hlen,length_set]⟩

theorem pullRecords_exact (hdims : out.dims = some ds) (hfit : i + records.length ≤ ds.length)
    (hover : ∀ j r, records[j]? = some r → j + 1 < records.length →
      SteppedOver steps out (i + j) r) :
    pullRecords steps records.length out i (records.flatMap pullRecordBytes) =
      some (storeAll out i records,i + records.length) := by
  rcases eq_nil_or_concat' records with rfl | ⟨before,r,rfl⟩
  · rfl
  · rw [length_append,length_singleton] at hfit
    have hfirst : ∀ j r', before[j]? = some r' → SteppedOver steps out (i + j) r' := by
      intro j r' hj
      obtain ⟨hlt,_⟩ := List.getElem?_eq_some_iff.mp hj
      refine hover j r' ?_ ?_
      · rw [getElem?_append_left hlt,hj]
      · rw [length_append,length_singleton]
        omega
    obtain ⟨ds',hds',hlen'⟩ := storeAll_dims before out ds i hdims
    have hturn := @pullRecord_bytes steps _ _ r _ hds' (show i + before.length < ds'.length by omega) []
    rw [append_nil] at hturn
    have hbytes : (pullRecordBytes r).length ≠ 0 := by
      rw [pullRecordBytes,length_append,length_wirePutU32]
      omega
    rw [length_append,length_singleton,flatMap_append,flatMap_singleton,
      pullRecords_stepped before 1 _ out ds i hdims (by omega) hfirst,pullRecords,if_neg hbytes,hturn,
      storeAll_append]
    rfl

theorem pullRecords_dims (n : Nat) : ∀ (out : PullOut) (i : Nat) (ptr : List UInt8) {out' : PullOut}
    {i' : Nat}, pullRecords steps n out i ptr = some (out',i') → ∀ j < i,
    out'.dims.bind (fun ds => ds[j]?) = out.dims.bind (fun ds => ds[j]?) := by
  induction n with
  | zero =>
    intro out i ptr out' i' h j _
    cases h
    rfl
  | succ n ih =>
    intro out i ptr out' i' h j hj
    rw [pullRecords] at h
    split_ifs at h
    · cases h
      rfl
    · obtain ⟨⟨out1,ptr1⟩,hturn,hrest⟩ := bind_eq_some_iff.mp h
      rw [ih out1 (i + 1) ptr1 hrest j (by omega),pullRecord_dims hturn,bind_map]
      cases out.dims with
      | none => rfl
      | some ds =>
        simp only [bind_some,comp_apply]
        exact getElem?_set_ne (by omega)

end Loop

section Responses

variable {out : PullOut} {records : List PullRecord} {ds : List Int} {pending : Int}

theorem recvAll_append (bytes rest : List UInt8) (pending : Int) {n : Nat} (hn : bytes.length = n) :
    recvAll ⟨bytes ++ rest,pending⟩ n = some (bytes,⟨rest,pending⟩) := by
  have hlong : ¬ (bytes ++ rest).length < n := by
    rw [length_append]
    omega
  rw [recvAll,if_neg hlong,take_left' hn,drop_left' hn]

theorem length_wireHeader (code len : UInt32) :
    (wireHeader code len).length = graveldbWireHeaderSize := by
  simp [wireHeader,graveldbWireHeaderSize]

theorem wireHeader_words (code len : UInt32) :
    wireGetU32 (wireHeader code len) = graveldbWireMagic ∧
      wireGetU32 ((wireHeader code len).drop 4) = code ∧
      wireGetU32 ((wireHeader code len).drop 8) = len := by
  refine ⟨?_,?_,?_⟩
  · rw [wireHeader,append_assoc,wireGetU32_put]
  · rw [wireHeader,append_assoc,drop_left' (length_wirePutU32 _),wireGetU32_put]
  · rw [wireHeader,drop_left' (by simp),wireGetU32_bare]

theorem recvResponse_bytes {code : UInt32} {body : List UInt8} (hsize : body.length < 2 ^ 32)
    (rest : List UInt8) (pending : Int) :
    recvResponse ⟨wireHeader code (UInt32.ofNat body.length) ++ body ++ rest,pending⟩ =
      some (code,body,⟨rest,pending⟩) := by
  obtain ⟨hmagic,hcode,hlen⟩ := wireHeader_words code (UInt32.ofNat body.length)
  have hword : (UInt32.ofNat body.length).toNat = body.length := UInt32.toNat_ofNat_of_lt' hsize
  rw [recvResponse,append_assoc,recvAll_append _ _ _ (length_wireHeader _ _)]
  simp only [bind_eq_bind,bind_some,hmagic,ne_eq,not_true_eq_false,if_false,hlen,hword,
    recvAll_append body rest pending rfl,hcode,Option.pure_def]

def plainSize (dims : List UInt32) : Nat := 4 + (dims.map (fun d => 4 + d.toNat * 4)).sum

theorem length_pullRecordBytes (r : PullRecord) :
    (pullRecordBytes r).length = 4 + r.dim.toNat * 4 := by
  rw [pullRecordBytes,length_append,length_wirePutU32,r.sized]

theorem length_plainBody (records : List PullRecord) :
    (plainBody records).length = plainSize (records.map PullRecord.dim) := by
  rw [plainBody,plainSize,length_append,length_wirePutU32,length_flatMap,List.map_map]
  simp only [length_pullRecordBytes,comp_def]

theorem plainBody_words (records : List PullRecord) : (plainBody records).length % 4 = 0 := by
  have hbytes : (records.flatMap pullRecordBytes).length % 4 = 0 := by
    induction records with
    | nil => rfl
    | cons r rest ih =>
      rw [flatMap_cons,length_append,length_pullRecordBytes]
      omega
  rw [plainBody,length_append,length_wirePutU32]
  omega

theorem length_le_size (records : List PullRecord) :
    records.length ≤ (plainBody records).length := by
  have hbytes : records.length ≤ (records.flatMap pullRecordBytes).length := by
    induction records with
    | nil => exact Nat.le_refl 0
    | cons r rest ih =>
      rw [flatMap_cons,length_append,length_pullRecordBytes,length_cons]
      omega
  rw [plainBody,length_append]
  omega

/-- Every record but the last one is stepped over by the loops of the plain decoders. -/
def NoVectorSkipped (out : PullOut) (dims : List UInt32) : Prop :=
  ∀ i d, dims[i]? = some d → i + 1 < dims.length → 0 < d.toNat → (out.slot i).isSome

theorem pullPlain_bytes (hdims : out.dims = some ds) (hlen : ds.length = records.length)
    (hsize : (plainBody records).length < 2 ^ 32)
    (hskip : NoVectorSkipped out (records.map PullRecord.dim)) {limit : Nat → Nat}
    (hlimit : limit records.length = records.length) :
    pullPlain limit out (plainBody records) = some (.ok,storeAll out 0 records) := by
  have hcount : (wireGetU32 (plainBody records)).toNat = records.length := by
    rw [plainBody,wireGetU32_put]
    exact UInt32.toNat_ofNat_of_lt' (Nat.lt_of_le_of_lt (length_le_size records) hsize)
  have hlong : ¬ (plainBody records).length < 4 := by
    rw [plainBody,length_append,length_wirePutU32]
    omega
  have hover : ∀ j r, records[j]? = some r → j + 1 < records.length →
      SteppedOver false out (0 + j) r := by
    intro j r hj hmore
    by_cases hzero : r.dim.toNat = 0
    · exact Or.inr (Or.inl hzero)
    · right
      right
      rw [Nat.zero_add]
      refine hskip j r.dim (by rw [getElem?_map,hj]; rfl) ?_ (Nat.pos_of_ne_zero hzero)
      rwa [length_map]
  have hloop := pullRecords_exact hdims (by omega) hover
  have hdrop : (plainBody records).drop 4 = records.flatMap pullRecordBytes := by
    rw [plainBody,drop_left' (length_wirePutU32 _)]
  rw [pullPlain,if_neg hlong]
  simp only [hcount,hlimit,hdrop,hloop,bind_eq_bind,bind_some,Option.pure_def]

theorem pullFrames_bytes (total n : Nat) (rest : List UInt8) (pending : Int)
    (frames : List (List PullRecord)) : ∀ (fuel : Nat) (first : Bool) (out : PullOut)
    (ds : List Int) (i : Nat), frames.length < fuel → FramesFit total first frames →
    out.dims = some ds → i + frames.flatten.length ≤ ds.length → i + frames.flatten.length ≤ n →
    pullFrames n fuel first ⟨streamFrames total first frames ++ rest,pending⟩ out i =
      some (.ok,storeAll out i frames.flatten) := by
  induction frames with
  | nil =>
    intro fuel first out ds i hfuel _ _ _ _
    obtain ⟨fuel,rfl⟩ : ∃ m, fuel = m + 1 := ⟨fuel - 1,by omega⟩
    rw [pullFrames,streamFrames,recvAll_append _ _ _ (length_wirePutU32 _)]
    simp only [wireGetU32_bare]
    rfl
  | cons records frames ih =>
    intro fuel first out ds i hfuel hfit hdims hds hn
    obtain ⟨fuel,rfl⟩ : ∃ m, fuel = m + 1 := ⟨fuel - 1,by omega⟩
    obtain ⟨hpos,hsmall,hrest⟩ := hfit
    rw [flatten_cons,length_append] at hds hn
    have hword : (UInt32.ofNat (framePayload total first records).length).toNat =
        (framePayload total first records).length := UInt32.toNat_ofNat_of_lt' hsmall
    have hshort : ¬ (first = true ∧ (framePayload total first records).length < 4) := by
      rintro ⟨rfl,hlt⟩
      rw [framePayload,if_pos rfl,length_append,length_wirePutU32] at hlt
      omega
    have hptr : (if first = true then (framePayload total first records).drop 4
        else framePayload total first records) = records.flatMap pullRecordBytes := by
      cases first with
      | false => rfl
      | true =>
        rw [if_pos rfl,framePayload,if_pos rfl,drop_left' (length_wirePutU32 _)]
    have hover : ∀ j r, records[j]? = some r → SteppedOver true out (i + j) r :=
      fun _ _ _ => Or.inl rfl
    have hloop := pullRecords_all hdims (by omega) (by omega : records.length ≤ n - i) hover
    obtain ⟨ds',hds',hlen'⟩ := storeAll_dims records out ds i hdims
    rw [pullFrames,streamFrames,append_assoc,recvAll_append _ _ _ (length_wirePutU32 _)]
    simp only [wireGetU32_bare,hword,if_neg (Nat.ne_of_gt hpos),append_assoc,
      recvAll_append _ _ _ rfl,if_neg hshort,hptr,hloop,bind_eq_bind,bind_some]
    rw [flatten_cons,storeAll_append]
    exact ih fuel false _ ds' _ (by rw [length_cons] at hfuel; omega) hrest hds' (by omega)
      (by omega)

theorem frames_le_bytes (total : Nat) (frames : List (List PullRecord)) : ∀ first,
    frames.length < (streamFrames total first frames).length := by
  induction frames with
  | nil =>
    intro first
    rw [streamFrames,length_wirePutU32]
    exact Nat.zero_lt_succ 3
  | cons records frames ih =>
    intro first
    have := ih false
    rw [streamFrames,length_append,length_append,length_wirePutU32,length_cons]
    omega

theorem asInt_injective : Function.Injective asInt := by
  intro a b h
  exact UInt32.toBitVec_inj.mp (BitVec.eq_of_toInt_eq h)

end Responses

def Decoded (out : PullOut) (records : List PullRecord) (result : Option (ClientRc × PullOut)) :
    Prop :=
  ∃ out', result = some (.ok,out') ∧ Filled out records out'

/-- The decoders on the responses with the records: a plain one, if its length is a `uint32_t`, and
the stream in any framing. -/
structure DecodersAgree (out : PullOut) (records : List PullRecord) : Prop where
  pull : (plainBody records).length < 2 ^ 32 → ∀ rest pending,
    Decoded out records (graveldbClientPull ⟨plainResponse records ++ rest,pending⟩ out)
  recv : (plainBody records).length < 2 ^ 32 → ∀ rest pending,
    Decoded out records ((graveldbClientPullRecv ⟨plainResponse records ++ rest,pending⟩ out
      records.length).map (fun r => (r.1,r.2.1)))
  fallback : (plainBody records).length < 2 ^ 32 → ∀ rest pending,
    Decoded out records (graveldbClientPullStream ⟨plainResponse records ++ rest,pending⟩ out
      records.length)
  stream : ∀ frames, Framing records frames → ∀ rest pending,
    Decoded out records (graveldbClientPullStream ⟨streamResponse frames ++ rest,pending⟩ out
      records.length)

section Agreement

variable {out : PullOut} {records : List PullRecord} {ds : List Int} {dims : List UInt32}
  {w : UInt32} {out' : PullOut}

theorem stream_decoded (hdims : out.dims = some ds) (hlen : ds.length = records.length)
    {frames : List (List PullRecord)} (hframes : Framing records frames) (rest : List UInt8)
    (pending : Int) :
    Decoded out records (graveldbClientPullStream ⟨streamResponse frames ++ rest,pending⟩ out
      records.length) := by
  obtain ⟨hflat,hfit⟩ := hframes
  obtain ⟨hmagic,hcode,hword⟩ := wireHeader_words WireStatus.ok.code graveldbWireStreamSentinel
  have hfuel : frames.length < (streamFrames frames.flatten.length true frames ++ rest).length + 1 := by
    have hbytes := frames_le_bytes frames.flatten.length frames true
    rw [length_append]
    omega
  refine ⟨storeAll out 0 records,?_,filled_storeAll hdims hlen⟩
  rw [graveldbClientPullStream,streamResponse,append_assoc,
    recvAll_append _ _ _ (length_wireHeader _ _)]
  simp only [hmagic,hcode,hword,ne_eq,not_true_eq_false,if_false]
  have hrun := pullFrames_bytes frames.flatten.length records.length rest pending frames _ true out ds 0
    hfuel (by rw [hflat]; exact hfit) hdims (by rw [hflat]; omega) (by rw [hflat]; omega)
  rw [hflat] at hrun ⊢
  exact hrun

theorem agree_of_stepped (hdims : out.dims = some ds) (hlen : ds.length = records.length)
    (hskip : (plainBody records).length < 2 ^ 32 →
      NoVectorSkipped out (records.map PullRecord.dim)) : DecodersAgree out records := by
  have hfilled := filled_storeAll hdims hlen
  refine ⟨?_,?_,?_,fun frames hframes => stream_decoded hdims hlen hframes⟩
  · intro hsize rest pending
    refine ⟨_,?_,hfilled⟩
    rw [graveldbClientPull,plainResponse,recvResponse_bytes hsize]
    simp only [ne_eq,not_true_eq_false,if_false]
    exact pullPlain_bytes hdims hlen hsize (hskip hsize) rfl
  · intro hsize rest pending
    refine ⟨_,?_,hfilled⟩
    rw [graveldbClientPullRecv,plainResponse,recvResponse_bytes hsize]
    simp only [ne_eq,not_true_eq_false,if_false,
      pullPlain_bytes hdims hlen hsize (hskip hsize) (Nat.min_self _)]
    rfl
  · intro hsize rest pending
    obtain ⟨hmagic,hcode,hword⟩ :=
      wireHeader_words WireStatus.ok.code (UInt32.ofNat (plainBody records).length)
    have hvalue : (UInt32.ofNat (plainBody records).length).toNat = (plainBody records).length :=
      UInt32.toNat_ofNat_of_lt' hsize
    -- a plain body is a number of words, so its length is not the sentinel
    have hplain : UInt32.ofNat (plainBody records).length ≠ graveldbWireStreamSentinel := by
      intro heq
      have hmod : (plainBody records).length % 4 = 0 := plainBody_words records
      rw [← hvalue,heq] at hmod
      exact absurd hmod (by decide)
    refine ⟨_,?_,hfilled⟩
    rw [graveldbClientPullStream,plainResponse,append_assoc,
      recvAll_append _ _ _ (length_wireHeader _ _)]
    simp only [hmagic,hcode,hword,ne_eq,not_true_eq_false,if_false,hplain,not_false_eq_true,if_true,
      hvalue,recvAll_append _ _ _ rfl]
    exact pullPlain_bytes hdims hlen hsize (hskip hsize) (Nat.min_self _)

theorem first_skipped (h : ¬ NoVectorSkipped out dims) :
    ∃ before d d' after, dims = before ++ d :: d' :: after ∧ 0 < d.toNat ∧
      out.slot before.length = none ∧
      ∀ j e, before[j]? = some e → 0 < e.toNat → (out.slot j).isSome := by
  classical
  have hex : ∃ i d, dims[i]? = some d ∧ i + 1 < dims.length ∧ 0 < d.toNat ∧ out.slot i = none := by
    unfold NoVectorSkipped at h
    push Not at h
    obtain ⟨i,d,hd,hlt,hpos,hnull⟩ := h
    exact ⟨i,d,hd,hlt,hpos,not_isSome_iff_eq_none.mp (by simpa using hnull)⟩
  obtain ⟨d,hd,hlt,hpos,hnull⟩ := Nat.find_spec hex
  have hmin : ∀ j < Nat.find hex, _ := fun j hj => Nat.find_min hex hj
  generalize Nat.find hex = i at hd hlt hpos hnull hmin
  obtain ⟨hi,hget⟩ := List.getElem?_eq_some_iff.mp hd
  have hbefore : (dims.take i).length = i := by rw [length_take,Nat.min_eq_left (by omega)]
  refine ⟨dims.take i,d,dims.get ⟨i + 1,hlt⟩,dims.drop (i + 2),?_,hpos,by rw [hbefore]; exact hnull,?_⟩
  · rw [get_eq_getElem,← drop_eq_getElem_cons hlt,← hget,← drop_eq_getElem_cons hi,
      take_append_drop]
  · intro j e hj hepos
    obtain ⟨hlt',_⟩ := List.getElem?_eq_some_iff.mp hj
    rw [hbefore] at hlt'
    rw [getElem?_take_of_lt hlt'] at hj
    by_contra hno
    exact hmin j hlt' ⟨e,hj,by omega,hepos,not_isSome_iff_eq_none.mp hno⟩

def wordRecord (w d : UInt32) : PullRecord where
  dim := d
  emb := (List.replicate d.toNat (wirePutU32 w)).flatten
  sized := by
    rw [length_flatten,map_replicate,sum_replicate_nat,length_wirePutU32]

theorem wordRecord_front {d : UInt32} (hd : 0 < d.toNat) :
    ∃ more, (wordRecord w d).emb = wirePutU32 w ++ more := by
  obtain ⟨n,hn⟩ : ∃ n, d.toNat = n + 1 := ⟨d.toNat - 1,by omega⟩
  refine ⟨(List.replicate n (wirePutU32 w)).flatten,?_⟩
  change (List.replicate d.toNat (wirePutU32 w)).flatten = _
  rw [hn,replicate_succ,flatten_cons]

theorem plain_run {rest : List UInt8} {pending : Int} (hsize : (plainBody records).length < 2 ^ 32)
    (h : graveldbClientPull ⟨plainResponse records ++ rest,pending⟩ out = some (.ok,out')) :
    ∃ k, pullRecords false records.length out 0 (records.flatMap pullRecordBytes) =
      some (out',k) := by
  have hcount : (wireGetU32 (plainBody records)).toNat = records.length := by
    rw [plainBody,wireGetU32_put]
    exact UInt32.toNat_ofNat_of_lt' (Nat.lt_of_le_of_lt (length_le_size records) hsize)
  rw [graveldbClientPull,plainResponse,recvResponse_bytes hsize] at h
  simp only [ne_eq,not_true_eq_false,if_false,pullPlain,hcount] at h
  split_ifs at h
  · cases h
  · obtain ⟨⟨out1,k⟩,hloop,hout⟩ := bind_eq_some_iff.mp h
    cases hout
    refine ⟨k,?_⟩
    rwa [plainBody,drop_left' (length_wirePutU32 _)] at hloop

/-- The first word of a vector that is not stepped over is taken for the next dim. -/
theorem skipped_misread {before after : List PullRecord} {r r' : PullRecord} {k : Nat}
    (hdims : out.dims = some ds) (hfit : before.length + 1 < ds.length)
    (hover : ∀ j r, before[j]? = some r → SteppedOver false out (0 + j) r) (hd : 0 < r.dim.toNat)
    (hnull : out.slot before.length = none) (hword : ∃ more, r.emb = wirePutU32 w ++ more)
    (h : pullRecords false (before ++ r :: r' :: after).length out 0
      ((before ++ r :: r' :: after).flatMap pullRecordBytes) = some (out',k)) :
    out'.dims.bind (fun ds => ds[before.length + 1]?) = some (asInt w) := by
  obtain ⟨more,hemb⟩ := hword
  obtain ⟨ds1,hds1,hlen1⟩ := storeAll_dims before out ds 0 hdims
  have hslot : (storeAll out 0 before).slot (0 + before.length) = none := by
    rw [slot_storeAll,dif_neg (by omega),Nat.zero_add]
    exact hnull
  have hnot : ¬ SteppedOver false (storeAll out 0 before) (0 + before.length) r := by
    rintro (hs | hs | hs)
    · cases hs
    · omega
    · rw [hslot] at hs
      cases hs
  rw [length_append,length_cons,length_cons,flatMap_append,
    pullRecords_stepped before _ _ out ds 0 hdims (by omega) hover,flatMap_cons,pullRecords] at h
  have hbytes : (pullRecordBytes r ++ (r' :: after).flatMap pullRecordBytes).length ≠ 0 := by
    rw [length_append,length_pullRecordBytes]
    omega
  rw [if_neg hbytes,pullRecord_bytes hds1 (by omega),if_neg hnot] at h
  simp only [bind_eq_bind,bind_some] at h
  rw [pullRecords,hemb,append_assoc] at h
  have hmore : (wirePutU32 w ++ (more ++ (r' :: after).flatMap pullRecordBytes)).length ≠ 0 := by
    rw [length_append,length_wirePutU32]
    omega
  rw [if_neg hmore] at h
  obtain ⟨⟨out2,ptr⟩,hturn,hloop⟩ := bind_eq_some_iff.mp h
  rw [pullRecords_dims _ _ _ _ hloop (before.length + 1) (by omega),pullRecord_dims hturn,
    dims_store hds1,wireGetU32_put,Nat.zero_add]
  simp only [map_some,bind_some]
  rw [getElem?_set_self (by rw [length_set]; omega)]

theorem stepped_of_agree (hdims : out.dims = some ds) (hlen : ds.length = dims.length)
    (hsize : plainSize dims < 2 ^ 32)
    (hagree : ∀ records, records.map PullRecord.dim = dims → DecodersAgree out records) :
    NoVectorSkipped out dims := by
  by_contra hskip
  obtain ⟨before,d,d',after,rfl,hd,hnull,hbefore⟩ := first_skipped hskip
  obtain ⟨w,hw⟩ : ∃ w : UInt32, w ≠ d' := ⟨d' + 1,by simp⟩
  have hnames : ∀ l : List UInt32, (l.map (wordRecord w)).map PullRecord.dim = l := by
    intro l
    rw [List.map_map]
    exact List.map_id l
  obtain ⟨out',hrun,hfilled⟩ := (hagree _ (hnames _)).pull
    (by rw [length_plainBody,hnames]; exact hsize) [] 0
  have hover : ∀ j r, (before.map (wordRecord w))[j]? = some r → SteppedOver false out (0 + j) r := by
    intro j r hj
    rw [getElem?_map] at hj
    obtain ⟨e,he,rfl⟩ := map_eq_some_iff.mp hj
    by_cases hzero : e.toNat = 0
    · exact Or.inr (Or.inl hzero)
    · right
      right
      rw [Nat.zero_add]
      exact hbefore j e he (Nat.pos_of_ne_zero hzero)
  obtain ⟨k,hloop⟩ := plain_run (by rw [length_plainBody,hnames]; exact hsize) hrun
  rw [map_append,map_cons,map_cons] at hloop
  have hread := skipped_misread hdims (by rw [hlen]; simp) hover hd
    (by rw [length_map]; exact hnull) (wordRecord_front hd) hloop
  rw [hfilled.dims,bind_some,length_map,List.map_map] at hread
  simp only [map_append,map_cons,comp_apply] at hread
  rw [getElem?_append_right (by simp)] at hread
  simp only [length_map,Nat.add_sub_cancel_left,getElem?_cons_succ,getElem?_cons_zero,
    some_inj] at hread
  exact hw (asInt_injective hread).symm

end Agreement

/-- The decoders agree on all records of the given dims exactly if the plain decoders skip no vector
but the last one, or the records are too many for a plain response. -/
theorem pull_decoders_agree_iff {dims : List UInt32} {out : PullOut} {ds : List Int}
    (hdims : out.dims = some ds) (hlen : ds.length = dims.length) :
    (∀ records, records.map PullRecord.dim = dims → DecodersAgree out records) ↔
      (plainSize dims < 2 ^ 32 → NoVectorSkipped out dims) := by
  constructor
  · intro hagree hsize
    exact stepped_of_agree hdims hlen hsize hagree
  · rintro hskip records rfl
    rw [length_map] at hlen
    refine agree_of_stepped hdims hlen ?_
    rw [length_plainBody]
    exact hskip

def lastSkipped : PullOut := ⟨some [0,0],some [some (fun _ => 0),none]⟩

theorem lastSkipped_decoded : lastSkipped.slot 1 = none ∧
    ∀ records, records.map PullRecord.dim = [2,1] → DecodersAgree lastSkipped records := by
  refine ⟨rfl,(@pull_decoders_agree_iff [2,1] lastSkipped [0,0] rfl rfl).mpr ?_⟩
  intro _ i d hd hi _
  obtain rfl : i = 0 := by
    simp only [length_cons,length_nil] at hi
    omega
  rfl

def firstSkipped : PullOut := ⟨some [0,0],some [none,some (fun _ => 0)]⟩

def twoVectors : List PullRecord := [⟨1,[0,0,0xA0,0x40],rfl⟩,⟨1,[0,0,0xC0,0x40],rfl⟩]

/-- The bits of 5.0, which are in the place of the second dim, are stored as one; the framed stream
has the dims right. -/
theorem skipped_vector_misread :
    ((graveldbClientPull ⟨plainResponse twoVectors,0⟩ firstSkipped).map
        (fun r => (r.1,r.2.dims)) = some (.ok,some [1,0x40A00000])) ∧
      ((graveldbClientPullStream ⟨streamResponse [twoVectors],0⟩ firstSkipped 2).map
        (fun r => (r.1,r.2.dims)) = some (.ok,some [1,1])) ∧
      ¬ DecodersAgree firstSkipped twoVectors := by
  have hpull : (graveldbClientPull ⟨plainResponse twoVectors,0⟩ firstSkipped).map
      (fun r => (r.1,r.2.dims)) = some (.ok,some [1,0x40A00000]) := by decide +kernel
  refine ⟨hpull,by decide +kernel,?_⟩
  intro hagree
  obtain ⟨out',hrun,hfilled⟩ := hagree.pull (by decide) [] 0
  rw [append_nil] at hrun
  rw [hrun,map_some,hfilled.dims,some_inj,Prod.mk.injEq] at hpull
  exact absurd hpull.2 (by decide)

end Gravel.Proofs.PullDecoders
