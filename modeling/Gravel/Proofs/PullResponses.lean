import Gravel.Proofs.PullCourse
import Gravel.Proofs.PullDecoders

namespace Gravel.Proofs.PullResponses
open DumpFormat SendQueue ServerFrames PullSlots PullCourse PullDecoders Spec List Option Function

section Output

variable {c : ClientConn} {data : List UInt8}

theorem output_enqueue (c : ClientConn) (data : List UInt8) :
    output (enqueue c data) = output c ++ data := by
  change c.sent ++ unsent (c.sendQueue ++ [⟨data,0⟩]) = _
  rw [unsent_append,output,append_assoc]
  congr 2
  exact append_nil _

theorem output_finish {code : UInt32} {body : List UInt8}
    (h : c.sendCur = some (wireHeader code 0 ++ body)) :
    output (responseFinish c) =
      output c ++ (wireHeader code (UInt32.ofNat body.length) ++ body) := by
  have hlen : (wireHeader code 0 ++ body).length - graveldbWireHeaderSize = body.length := by
    rw [length_append,length_wireHeader,Nat.add_sub_cancel_left]
  have htake : (wireHeader code 0 ++ body).take 8 =
      wirePutU32 graveldbWireMagic ++ wirePutU32 code := by
    rw [wireHeader,append_assoc,take_left']
    rw [length_append,length_wirePutU32,length_wirePutU32]
  have hdrop : (wireHeader code 0 ++ body).drop 12 = body :=
    drop_left' (length_wireHeader code 0)
  simp only [responseFinish,h,output_enqueue,hlen,htake,hdrop]
  rw [wireHeader,append_assoc,append_assoc]
  rfl

end Output

def plainAnswer (total : Nat) (as : List (List PullRecord)) : List UInt8 :=
  let body := wirePutU32 (UInt32.ofNat total) ++ as.flatten.flatMap pullRecordBytes
  wireHeader WireStatus.ok.code (UInt32.ofNat body.length) ++ body

def plainBuilt (total : Nat) (before : List UInt8) (as : List (List PullRecord)) (c : ClientConn) :
    Prop :=
  c.sendCur = some (wireHeader WireStatus.ok.code 0 ++
      (wirePutU32 (UInt32.ofNat total) ++ as.flatten.flatMap pullRecordBytes)) ∧
    output c = before

theorem plain_course (ids : List UInt64) (before : List UInt8) :
    Course ids pullEmit responseFinish (plainBuilt ids.length before) (plainAnswer ids.length)
      before where
  emits := pullEmit_emits
  finalizes := responseFinish_finalizes
  congr h hsame := ⟨hsame.sendCur.trans h.1,hsame.output.trans h.2⟩
  add := by
    intro as c _ h
    refine ⟨?_,h.2⟩
    change c.sendCur.map (· ++ chunkBytes c.async.chunk c.async.scratch) = _
    rw [h.1,map_some,chunkBytes_eq,flatten_append,flatten_singleton,
      flatMap_append]
    simp only [append_assoc]
  finish := by
    intro as c h
    rw [output_finish h.1,h.2]
    rfl

def frame (total : Nat) (first : Bool) (a : List PullRecord) : List UInt8 :=
  wirePutU32 (UInt32.ofNat (framePayload total first a).length) ++ framePayload total first a

def openFrames (total : Nat) : Bool → List (List PullRecord) → List UInt8
  | _, [] => []
  | first, a :: rest => frame total first a ++ openFrames total false rest

theorem openFrames_snoc (total : Nat) (a : List PullRecord) (as : List (List PullRecord)) :
    ∀ first, openFrames total first (as ++ [a]) =
      openFrames total first as ++ frame total (first && as.isEmpty) a := by
  induction as with
  | nil =>
    intro first
    change frame total first a ++ [] = frame total (first && true) a
    rw [append_nil,Bool.and_true]
  | cons b as ih =>
    intro first
    rw [cons_append,openFrames,ih,openFrames,append_assoc,Bool.false_and,
      isEmpty_cons,Bool.and_false]

theorem streamFrames_eq (total : Nat) (as : List (List PullRecord)) : ∀ first,
    streamFrames total first as = openFrames total first as ++ wirePutU32 0 := by
  induction as with
  | nil => exact fun _ => rfl
  | cons a as ih =>
    intro first
    rw [streamFrames,ih,openFrames,frame,append_assoc,append_assoc]

def streamAnswer (total : Nat) (as : List (List PullRecord)) : List UInt8 :=
  wireHeader WireStatus.ok.code graveldbWireStreamSentinel ++ streamFrames total true as

def streamBuilt (total : Nat) (before : List UInt8) (as : List (List PullRecord)) (c : ClientConn) :
    Prop :=
  output c = before ++ (wireHeader WireStatus.ok.code graveldbWireStreamSentinel ++
      openFrames total true as) ∧
    c.async.firstFrame = as.isEmpty

theorem stream_course (ids : List UInt64) (before : List UInt8) :
    Course ids streamBuildFrame streamSendTerminator (streamBuilt ids.length before)
      (streamAnswer ids.length) before where
  emits := streamBuildFrame_emits
  finalizes := streamSendTerminator_finalizes
  congr h hsame := ⟨hsame.output.trans h.1,hsame.firstFrame.trans h.2⟩
  add := by
    intro as c hids h
    refine ⟨?_,?_⟩
    · rw [streamBuildFrame,output_enqueue,openFrames_snoc,Bool.true_and,← h.2,frame,framePayload,
        chunkBytes_eq,hids]
      change output c ++ _ = _
      rw [h.1]
      simp only [append_assoc]
    · cases as with
      | nil => rfl
      | cons _ _ => rfl
  finish := by
    intro as c h
    rw [streamSendTerminator,output_enqueue,h.1,streamAnswer,streamFrames_eq]
    simp only [append_assoc]

inductive PullKind where
  | plain
  | stream
deriving DecidableEq

namespace PullKind

def handle : PullKind → (UInt64 → PullRecord) → List Poll → ClientConn → List UInt8 →
    Option (ClientConn × List Poll)
  | plain => handlePull
  | stream => handlePullStream

def state : PullKind → ConnAsyncState
  | plain => .asyncPull
  | stream => .asyncStream

def emit : PullKind → ClientConn → ClientConn
  | plain => pullEmit
  | stream => streamBuildFrame

def finalize : PullKind → ClientConn → ClientConn
  | plain => responseFinish
  | stream => streamSendTerminator

def built : PullKind → Nat → List UInt8 → List (List PullRecord) → ClientConn → Prop
  | plain => plainBuilt
  | stream => streamBuilt

def answer : PullKind → Nat → List (List PullRecord) → List UInt8
  | plain => plainAnswer
  | stream => streamAnswer

/-- The response in the format of `graveldb_wire.h`; a stream has a frame for every chunk. -/
def response : PullKind → List PullRecord → List UInt8
  | plain, records => plainResponse records
  | stream, records => streamResponse (chunksOf pullChunkSize records)

def decode : PullKind → GravelDBClient → PullOut → Nat → Option (ClientRc × PullOut)
  | plain, client, out, _ => graveldbClientPull client out
  | stream, client, out, n => graveldbClientPullStream client out n

theorem state_ne_idle (kind : PullKind) : kind.state ≠ .idle := by
  cases kind with
  | plain => exact ConnAsyncState.noConfusion
  | stream => exact ConnAsyncState.noConfusion

theorem course (kind : PullKind) (ids : List UInt64) (before : List UInt8) :
    Course ids kind.emit kind.finalize (kind.built ids.length before) (kind.answer ids.length)
      before := by
  cases kind with
  | plain => exact plain_course ids before
  | stream => exact stream_course ids before

theorem resume_eq (kind : PullKind) {lookup : UInt64 → PullRecord} {polls : List Poll}
    {c : ClientConn} (h : c.async.state = kind.state) :
    clientAsyncResume lookup polls c = resumeGet lookup kind.emit kind.finalize polls c := by
  rw [clientAsyncResume,h]
  cases kind with
  | plain => rfl
  | stream => rfl

end PullKind

structure Started (kind : PullKind) (ids : List UInt64) (c0 c : ClientConn) : Prop where
  frame : OutputOnly c0 c
  position : Position ids 0 c
  built : kind.built ids.length (output c0) [] c
  state : c.async.state = kind.state
  arena : c.async.arena = c.resets.length

theorem handle_eq (kind : PullKind) {body : List UInt8} {ids : List UInt64}
    (hbody : pullIds body = some ids) (lookup : UInt64 → PullRecord) (polls : List Poll)
    (c0 : ClientConn) : ∃ c, Started kind ids c0 c ∧ kind.handle lookup polls c0 body =
      (submitNextChunk lookup kind.emit kind.finalize polls c).map (fun r => (r.2.1,r.2.2)) := by
  have hposition : ∀ c, Position ids 0 (beginPull kind.state ids c) :=
    fun c => ⟨rfl,(Nat.zero_min _).symm⟩
  cases kind with
  | plain =>
    refine ⟨_,⟨(((outputOnly_begin c0 .ok).trans (outputOnly_append _
      (wirePutU32 (UInt32.ofNat ids.length)))).trans (outputOnly_beginPull _ _ _)),hposition _,
      ⟨?_,rfl⟩,rfl,rfl⟩,?_⟩
    · change some _ = some _
      rw [flatten_nil,flatMap_nil,append_nil]
    · change handlePull lookup polls c0 body = _
      rw [handlePull,hbody]
      simp only [pullSubmitNextChunk,PullKind.emit,PullKind.finalize,PullKind.state]
      cases submitNextChunk lookup pullEmit responseFinish polls _ with
      | none => rfl
      | some r => rfl
  | stream =>
    have hheader : wireHeader WireStatus.ok.code graveldbWireStreamSentinel ≠ [] := put_ne_nil _ _
    refine ⟨_,⟨(outputOnly_enqueue c0 hheader).trans (outputOnly_beginPull _ _ _),hposition _,
      ⟨?_,rfl⟩,rfl,rfl⟩,?_⟩
    · change output (enqueue c0 (wireHeader WireStatus.ok.code graveldbWireStreamSentinel)) = _
      rw [output_enqueue,openFrames,append_nil]
    · change handlePullStream lookup polls c0 body = _
      rw [handlePullStream,hbody]
      simp only [streamSubmitNextChunk,PullKind.emit,PullKind.finalize,PullKind.state]
      cases submitNextChunk lookup streamBuildFrame streamSendTerminator polls _ with
      | none => rfl
      | some r => rfl

section Chunks

variable {α β : Type} {n k : Nat} {l : List α}

theorem getElem?_chunksOf (hk : k < (l.length + n - 1) / n) :
    (chunksOf n l)[k]? = some ((l.drop (n * k)).take n) := by
  rw [chunksOf,getElem?_map,getElem?_range hk]
  rfl

theorem length_chunksOf (n : Nat) (l : List α) : (chunksOf n l).length = (l.length + n - 1) / n := by
  rw [chunksOf,length_map,length_range]

theorem map_chunksOf (f : α → β) (n : Nat) (l : List α) :
    (chunksOf n l).map (List.map f) = chunksOf n (l.map f) := by
  rw [chunksOf,chunksOf,List.map_map,length_map]
  apply map_congr_left
  intro k _
  rw [comp_apply,map_take,map_drop]

theorem chunksOf_flatten (hn : 0 < n) (l : List α) : (chunksOf n l).flatten = l := by
  have hfront : ∀ q, ((List.range q).map (fun k => (l.drop (n * k)).take n)).flatten =
      l.take (n * q) := by
    intro q
    induction q with
    | zero => rw [Nat.mul_zero]; rfl
    | succ q ih =>
      rw [range_succ,map_append,flatten_append,ih,Nat.mul_succ,take_add]
      exact congrArg _ (append_nil _)
  rw [chunksOf,hfront]
  apply take_of_length_le
  have hround := Nat.div_add_mod (l.length + n - 1) n
  have hmod := Nat.mod_lt (l.length + n - 1) hn
  omega

theorem chunksOf_bounds (hn : 0 < n) {a : List α} (h : a ∈ chunksOf n l) :
    a ≠ [] ∧ a.length ≤ n := by
  obtain ⟨k,hk,rfl⟩ := List.mem_map.mp h
  have hlt := mem_range.mp hk
  have hround := Nat.div_add_mod (l.length + n - 1) n
  have hmore : n * (k + 1) ≤ n * ((l.length + n - 1) / n) := Nat.mul_le_mul_left n hlt
  rw [Nat.mul_succ] at hmore
  refine ⟨?_,length_take_le _ _⟩
  rw [← length_pos_iff,length_take,length_drop]
  omega

variable {lookup : UInt64 → PullRecord} {ids : List UInt64} {as : List (List PullRecord)}
  {good : Nat → List PullRecord → Prop}

theorem Aligned.length_eq (h : Aligned good ids as) (hend : ids.length ≤ pullChunkSize * as.length) :
    as.length = (chunksOf pullChunkSize (ids.map lookup)).length := by
  rw [length_chunksOf,length_map]
  rw [pullChunkSize] at hend ⊢
  rcases Nat.eq_zero_or_pos as.length with h0 | hpos
  · omega
  · have hlt : as.length - 1 < as.length := by omega
    obtain ⟨hlast,_⟩ := h (as.length - 1) _ (getElem?_eq_getElem hlt)
    rw [pullChunkSize] at hlast
    omega

theorem chunksOf_ids (hk : k < (chunksOf pullChunkSize (ids.map lookup)).length) :
    (chunksOf pullChunkSize (ids.map lookup))[k]? = some (chunkAt lookup ids k) := by
  rw [length_chunksOf] at hk
  rw [getElem?_chunksOf hk,chunkAt,map_take,map_drop]

theorem aligned_eq (h : Aligned (fun k a => a = chunkAt lookup ids k) ids as)
    (hend : ids.length ≤ pullChunkSize * as.length) :
    as = chunksOf pullChunkSize (ids.map lookup) := by
  have hlen := @Aligned.length_eq lookup _ _ _ h hend
  apply ext_getElem?
  intro k
  by_cases hk : k < as.length
  · obtain ⟨_,hpart⟩ := h k _ (getElem?_eq_getElem hk)
    rw [chunksOf_ids (by omega),getElem?_eq_getElem hk,hpart]
  · rw [getElem?_eq_none (by omega),getElem?_eq_none (by omega)]

theorem answer_chunks (kind : PullKind) (lookup : UInt64 → PullRecord) (ids : List UInt64) :
    kind.answer ids.length (chunksOf pullChunkSize (ids.map lookup)) =
      kind.response (ids.map lookup) := by
  have hflat := chunksOf_flatten (by decide : 0 < pullChunkSize) (ids.map lookup)
  cases kind with
  | plain =>
    change plainAnswer _ _ = plainResponse _
    rw [plainAnswer,plainResponse,plainBody,hflat,length_map]
  | stream =>
    change streamAnswer _ _ = streamResponse _
    rw [streamAnswer,streamResponse,hflat,length_map]

end Chunks

section Sizes

theorem sum_le_buffer (dims : List UInt32) : ∀ i b, b ≤ 64 * 1024 →
    (∀ k d, dims[k]? = some d → (i + k) * 1024 + d.toNat ≤ 64 * 1024) →
    (∀ k l d d', k < l → dims[k]? = some d → dims[l]? = some d' → d' ≠ 0 →
      (i + k) * 1024 + d.toNat ≤ (i + l) * 1024) →
    (∀ k d, dims[k]? = some d → d ≠ 0 → b ≤ (i + k) * 1024) →
    b + (dims.map UInt32.toNat).sum ≤ 64 * 1024 := by
  induction dims with
  | nil =>
    intro i b hb _ _ _
    exact hb
  | cons d dims ih =>
    intro i b hb hinside hapart hfrom
    have hshift : ∀ k, i + 1 + k = i + (k + 1) := fun k => by omega
    have hinside' : ∀ k e, dims[k]? = some e → (i + 1 + k) * 1024 + e.toNat ≤ 64 * 1024 := by
      intro k e he
      rw [hshift]
      exact hinside (k + 1) e he
    have hapart' : ∀ k l e e', k < l → dims[k]? = some e → dims[l]? = some e' → e' ≠ 0 →
        (i + 1 + k) * 1024 + e.toNat ≤ (i + 1 + l) * 1024 := by
      intro k l e e' hkl he he' hpos
      rw [hshift,hshift]
      exact hapart (k + 1) (l + 1) e e' (Nat.succ_lt_succ hkl) he he' hpos
    rw [map_cons,sum_cons]
    by_cases hd : d = 0
    · have hrest := ih (i + 1) b hb hinside' hapart' (fun k e he hpos => by
        rw [hshift]
        exact hfrom (k + 1) e he hpos)
      rw [hd,UInt32.toNat_zero,Nat.zero_add]
      exact hrest
    · have hstart := hfrom 0 d rfl hd
      have hend := hinside 0 d rfl
      rw [Nat.add_zero] at hstart hend
      have hrest := ih (i + 1) (i * 1024 + d.toNat) hend hinside' hapart' (fun k e he hpos => by
        rw [hshift]
        exact hapart 0 (k + 1) d e (Nat.succ_pos k) rfl he hpos)
      omega

variable {dims : List UInt32} {records : List PullRecord}

theorem slotsFit_sum_le (h : SlotsFit dims) : (dims.map UInt32.toNat).sum ≤ 64 * 1024 := by
  have hsum := sum_le_buffer dims 0 0 (by decide)
    (fun k d hd => by rw [Nat.zero_add]; exact h.inside k d hd)
    (fun k l d d' hkl hd hd' hpos => by
      rw [Nat.zero_add,Nat.zero_add]
      exact h.apart k l d d' hkl hd hd' hpos)
    (fun _ _ _ _ => Nat.zero_le _)
  rwa [Nat.zero_add] at hsum

theorem sum_records (dims : List UInt32) :
    (dims.map (fun d => 4 + d.toNat * 4)).sum = 4 * (dims.map UInt32.toNat).sum + 4 * dims.length := by
  induction dims with
  | nil => rfl
  | cons d dims ih =>
    rw [map_cons,sum_cons,ih,map_cons,sum_cons,length_cons]
    omega

theorem length_records (records : List PullRecord) : (records.flatMap pullRecordBytes).length =
    4 * ((records.map PullRecord.dim).map UInt32.toNat).sum + 4 * records.length := by
  have hsum := sum_records (records.map PullRecord.dim)
  rw [length_map,List.map_map] at hsum
  rw [length_flatMap,← hsum]
  simp only [length_pullRecordBytes,comp_def]

theorem chunk_bytes_le (h : SlotsFit (records.map PullRecord.dim)) (hlen : records.length ≤ 64) :
    (records.flatMap pullRecordBytes).length ≤ 262400 := by
  have hsum := slotsFit_sum_le h
  rw [length_records]
  omega

theorem frames_fit (total : Nat) (as : List (List PullRecord)) : ∀ first,
    (∀ a ∈ as, a ≠ [] ∧ (a.flatMap pullRecordBytes).length ≤ 262400) →
    FramesFit total first as := by
  induction as with
  | nil => exact fun _ _ => trivial
  | cons a as ih =>
    intro first h
    obtain ⟨hne,hsize⟩ := h a mem_cons_self
    have hpos : 0 < (a.flatMap pullRecordBytes).length := by
      have := length_pos_iff.mpr hne
      rw [length_records]
      omega
    have hlen : (framePayload total first a).length ≤ 4 + (a.flatMap pullRecordBytes).length := by
      rw [framePayload,length_append]
      split_ifs
      · rw [length_wirePutU32]
      · rw [length_nil]
        omega
    have hlen' : (a.flatMap pullRecordBytes).length ≤ (framePayload total first a).length := by
      rw [framePayload,length_append]
      omega
    exact ⟨by omega,by omega,ih false (fun b hb => h b (mem_cons_of_mem a hb))⟩

theorem plain_length_le (as : List (List PullRecord)) :
    (∀ a ∈ as, (a.flatMap pullRecordBytes).length ≤ 262400) →
    (as.flatten.flatMap pullRecordBytes).length ≤ as.length * 262400 := by
  induction as with
  | nil => exact fun _ => Nat.le_refl 0
  | cons a as ih =>
    intro h
    have hrest := ih (fun b hb => h b (mem_cons_of_mem a hb))
    have hfirst := h a mem_cons_self
    rw [flatten_cons,flatMap_append,length_append,length_cons]
    omega

end Sizes

def DimsFit (dims : List UInt32) : Prop := ∀ chunk ∈ chunksOf pullChunkSize dims, SlotsFit chunk

/-- The client gets all dims, and every vector in a buffer of its own. -/
def Decodes (kind : PullKind) (records : List PullRecord) (bytes : List UInt8) : Prop :=
  ∀ out ds, out.dims = some ds → ds.length = records.length →
    (∀ i < records.length, (out.slot i).isSome) → ∀ rest pending,
    Decoded out records (kind.decode ⟨bytes ++ rest,pending⟩ out records.length)

theorem chunks_size {records : List PullRecord} (hfit : DimsFit (records.map PullRecord.dim)) :
    ∀ a ∈ chunksOf pullChunkSize records,
      a ≠ [] ∧ (a.flatMap pullRecordBytes).length ≤ 262400 := by
  intro a ha
  obtain ⟨hne,hlen⟩ := chunksOf_bounds (by decide) ha
  refine ⟨hne,chunk_bytes_le (hfit _ ?_) hlen⟩
  rw [← map_chunksOf]
  exact List.mem_map_of_mem ha

theorem response_decodes (kind : PullKind) {records : List PullRecord}
    (hcount : records.length ≤ graveldbWireMaxBatch) (hfit : DimsFit (records.map PullRecord.dim)) :
    Decodes kind records (kind.response records) := by
  intro out ds hdims hlen hslots rest pending
  have hsize := chunks_size hfit
  have hflat := chunksOf_flatten (by decide : 0 < pullChunkSize) records
  cases kind with
  | plain =>
    have hskip : NoVectorSkipped out (records.map PullRecord.dim) := by
      intro i d _ hi _
      rw [length_map] at hi
      exact hslots i (by omega)
    refine (agree_of_stepped hdims hlen (fun _ => hskip)).pull ?_ rest pending
    have hbytes := plain_length_le _ (fun a ha => (hsize a ha).2)
    rw [hflat,length_chunksOf,pullChunkSize] at hbytes
    rw [graveldbWireMaxBatch] at hcount
    rw [plainBody,length_append,length_wirePutU32]
    omega
  | stream =>
    refine stream_decoded hdims hlen ⟨hflat,?_⟩ rest pending
    exact frames_fit _ _ true hsize

theorem records_injective (xs : List PullRecord) : ∀ {ys},
    xs.map PullRecord.dim = ys.map PullRecord.dim →
    xs.flatMap pullRecordBytes = ys.flatMap pullRecordBytes → xs = ys := by
  induction xs with
  | nil =>
    intro ys hdims _
    exact (map_eq_nil_iff.mp hdims.symm).symm
  | cons x xs ih =>
    intro ys hdims hbytes
    cases ys with
    | nil => cases hdims
    | cons y ys =>
      rw [map_cons,map_cons,List.cons.injEq] at hdims
      rw [flatMap_cons,flatMap_cons] at hbytes
      obtain ⟨hx,hxs⟩ := append_inj hbytes (by
        rw [length_pullRecordBytes,length_pullRecordBytes,hdims.1])
      obtain ⟨_,hemb⟩ := append_inj hx (by rw [length_wirePutU32,length_wirePutU32])
      have hxy : x = y := by
        cases x
        cases y
        simp only [PullRecord.mk.injEq]
        exact ⟨hdims.1,hemb⟩
      rw [hxy,ih hdims.2 hxs]

def markedRecord (d : UInt32) : PullRecord where
  dim := d
  emb := (List.range (d.toNat * 4)).map (fun p => if p < pullSlotBytes then 0 else 1)
  sized := by rw [length_map,length_range]

theorem marked_markedRecord (d : UInt32) : Tagged (markedRecord d) := by
  intro p v h
  change ((List.range (d.toNat * 4)).map (fun p => if p < pullSlotBytes then 0 else 1))[p]? = _ at h
  rw [getElem?_map] at h
  obtain ⟨q,hq,rfl⟩ := map_eq_some_iff.mp h
  obtain ⟨_,rfl⟩ := List.getElem?_eq_some_iff.mp hq
  rw [getElem_range]

/-- A chunk has room for its vectors exactly if any of them are read back from the slots. -/
theorem slotsFit_iff_read_back (dims : List UInt32) : SlotsFit dims ↔
    ∀ chunk : List PullRecord, chunk.map PullRecord.dim = dims → ∀ order scratch, ∃ scratch',
      completeGet order chunk scratch = some scratch' ∧
      chunkBytes chunk scratch' = chunk.flatMap pullRecordBytes := by
  constructor
  · rintro hfit chunk rfl order scratch
    have hcomplete := @completeGet_eq chunk order scratch hfit.all_inside
    refine ⟨_,hcomplete,?_⟩
    rw [chunkBytes_eq,readSlots_complete hfit hcomplete]
  · intro h
    have hdims : (dims.map markedRecord).map PullRecord.dim = dims := by
      rw [List.map_map]
      exact map_id' dims
    obtain ⟨scratch',hcomplete,hbytes⟩ := h _ hdims [] (fun _ => 0)
    rw [chunkBytes_eq] at hbytes
    rw [← hdims]
    refine slotsFit_of_read ?_ hcomplete (records_injective _ (dims_readSlots _ _) hbytes)
    intro r hr
    obtain ⟨d,_,rfl⟩ := List.mem_map.mp hr
    exact marked_markedRecord d

end Gravel.Proofs.PullResponses
