import Gravel.Model.Server

namespace Gravel.Proofs.PullSlots
open List Option

def slotByte (chunk : List PullRecord) (i p : Nat) : Option UInt8 :=
  if i * pullSlotBytes ≤ p then chunk[i]?.bind (fun r => r.emb[p - i * pullSlotBytes]?) else none

def Inside (chunk : List PullRecord) (i : Nat) : Prop :=
  ∀ r, chunk[i]? = some r → i * pullSlotBytes + r.emb.length ≤ pullChunkSize * pullSlotBytes

def overlay (chunk : List PullRecord) (order : List Nat) (scratch : Nat → UInt8) : Nat → UInt8 :=
  order.foldl (fun scratch i p => (slotByte chunk i p).getD (scratch p)) scratch

/-- The dims of a chunk with room for every vector: it ends in the buffer, and before the slot of
the next record that is found. Slots are 1024 floats apart. -/
structure SlotsFit (dims : List UInt32) : Prop where
  inside : ∀ (i : Nat) d, dims[i]? = some d → i * 1024 + d.toNat ≤ 64 * 1024
  apart : ∀ (i j : Nat) d d', i < j → dims[i]? = some d → dims[j]? = some d' → d' ≠ 0 →
    i * 1024 + d.toNat ≤ j * 1024

def readSlots (chunk : List PullRecord) (scratch : Nat → UInt8) : List PullRecord :=
  chunk.zipIdx.map (fun (r,i) =>
    ⟨r.dim,(List.range (r.dim.toNat * 4)).map (fun p => scratch (i * pullSlotBytes + p)),by simp⟩)

section Copies

variable {chunk : List PullRecord} {order : List Nat} {scratch scratch' : Nat → UInt8}
  {i j p : Nat} {v w : UInt8} {r : PullRecord}

theorem slotByte_eq_some (h : slotByte chunk i p = some v) :
    ∃ r, chunk[i]? = some r ∧ i * pullSlotBytes ≤ p ∧ r.emb[p - i * pullSlotBytes]? = some v := by
  unfold slotByte at h
  split_ifs at h with hle
  obtain ⟨r,hr,hv⟩ := bind_eq_some_iff.mp h
  exact ⟨r,hr,hle,hv⟩

theorem slotByte_own (hr : chunk[i]? = some r) (hv : r.emb[p]? = some v) :
    slotByte chunk i (i * pullSlotBytes + p) = some v := by
  rw [slotByte,if_pos (Nat.le_add_right _ _),hr,bind_some,Nat.add_sub_cancel_left,hv]

theorem copyToSlot_eq {emb : List UInt8}
    (h : i * pullSlotBytes + emb.length ≤ pullChunkSize * pullSlotBytes) :
    copyToSlot scratch i emb = some (fun p => if i * pullSlotBytes ≤ p then
      emb[p - i * pullSlotBytes]?.getD (scratch p) else scratch p) := by
  rw [copyToSlot,if_pos h,some_inj]
  funext p
  by_cases hle : i * pullSlotBytes ≤ p
  · rw [if_pos hle]
    by_cases hlt : p - i * pullSlotBytes < emb.length
    · rw [if_pos ⟨hle,by omega⟩,getElem?_eq_getElem hlt,getD_some,
        getD_eq_getElem _ _ hlt]
    · rw [if_neg (by omega),getElem?_eq_none (Nat.not_lt.mp hlt),getD_none]
  · rw [if_neg hle,if_neg (fun hboth => hle hboth.1)]

theorem copyAll_cons (h : Inside chunk i) :
    copyAll chunk (i :: order) scratch =
      copyAll chunk order (fun p => (slotByte chunk i p).getD (scratch p)) := by
  rw [copyAll]
  cases hr : chunk[i]? with
  | none =>
    have hnone : ∀ p, slotByte chunk i p = none := by
      intro p
      rw [slotByte,hr,bind_none,ite_self]
    simp only [hnone,getD_none]
    rfl
  | some r =>
    have hbyte : (fun p => if i * pullSlotBytes ≤ p then
        r.emb[p - i * pullSlotBytes]?.getD (scratch p) else scratch p) =
          (fun p => (slotByte chunk i p).getD (scratch p)) := by
      funext p
      rw [slotByte,hr,bind_some]
      split_ifs <;> rfl
    simp only [copyToSlot_eq (h r hr),hbyte]
    rfl

theorem copyAll_eq (order : List Nat) : ∀ scratch, (∀ i ∈ order, Inside chunk i) →
    copyAll chunk order scratch = some (overlay chunk order scratch) := by
  induction order with
  | nil => exact fun _ _ => rfl
  | cons i order ih =>
    intro scratch h
    rw [copyAll_cons (h i mem_cons_self)]
    exact ih _ (fun j hj => h j (mem_cons_of_mem i hj))

theorem inside_of_copyAll (order : List Nat) : ∀ {scratch scratch'},
    copyAll chunk order scratch = some scratch' → ∀ i ∈ order, Inside chunk i := by
  induction order with
  | nil =>
    intro _ _ _ i hi
    cases hi
  | cons j order ih =>
    intro scratch scratch' h
    have hj : Inside chunk j := by
      intro r hr
      by_contra hout
      rw [copyAll,hr] at h
      simp only [copyToSlot,if_neg hout] at h
      cases h
    rw [copyAll_cons hj] at h
    intro i hi
    rcases mem_cons.mp hi with rfl | hi
    · exact hj
    · exact ih h i hi

theorem overlay_agrees (order : List Nat) : ∀ {scratch},
    (∀ i ∈ order, ∀ v, slotByte chunk i p = some v → v = w) →
    (scratch p = w ∨ ∃ i ∈ order, (slotByte chunk i p).isSome) →
    overlay chunk order scratch p = w := by
  induction order with
  | nil =>
    intro scratch _ hset
    rcases hset with hset | ⟨i,hi,_⟩
    · exact hset
    · cases hi
  | cons i order ih =>
    intro scratch hsame hset
    refine ih (fun j hj => hsame j (mem_cons_of_mem i hj)) ?_
    change (slotByte chunk i p).getD (scratch p) = w ∨ _
    cases hbyte : slotByte chunk i p with
    | some v => exact Or.inl (hsame i mem_cons_self v hbyte)
    | none =>
      rcases hset with hset | ⟨j,hj,hsome⟩
      · exact Or.inl hset
      rcases mem_cons.mp hj with rfl | hj
      · rw [hbyte] at hsome
        cases hsome
      · exact Or.inr ⟨j,hj,hsome⟩

theorem mem_copies (order : List Nat) (hi : i < chunk.length) :
    i ∈ order ++ (List.range chunk.length).filter (fun i => i ∉ order) := by
  by_cases h : i ∈ order
  · exact mem_append_left _ h
  · exact mem_append_right _ (mem_filter.mpr ⟨mem_range.mpr hi,decide_eq_true h⟩)

theorem inside_of_completeGet (h : completeGet order chunk scratch = some scratch') (i : Nat) :
    Inside chunk i := by
  intro r hr
  obtain ⟨hi,_⟩ := List.getElem?_eq_some_iff.mp hr
  exact inside_of_copyAll _ h i (mem_copies order hi) r hr

theorem completeGet_eq (h : ∀ i, Inside chunk i) : completeGet order chunk scratch =
    some (overlay chunk (order ++ (List.range chunk.length).filter (fun i => i ∉ order)) scratch) :=
  copyAll_eq _ scratch (fun i _ => h i)

theorem length_readSlots (chunk : List PullRecord) (scratch : Nat → UInt8) :
    (readSlots chunk scratch).length = chunk.length := by
  rw [readSlots,length_map,length_zipIdx]

theorem getElem?_readSlots (hr : chunk[i]? = some r) : (readSlots chunk scratch)[i]? =
    some ⟨r.dim,(List.range (r.dim.toNat * 4)).map (fun p => scratch (i * pullSlotBytes + p)),
      by simp⟩ := by
  rw [readSlots,getElem?_map,getElem?_zipIdx,hr]
  simp

theorem chunkBytes_eq (chunk : List PullRecord) (scratch : Nat → UInt8) :
    chunkBytes chunk scratch = (readSlots chunk scratch).flatMap pullRecordBytes := by
  rw [chunkBytes,readSlots,flatMap_map]
  rfl

theorem dims_readSlots (chunk : List PullRecord) (scratch : Nat → UInt8) :
    (readSlots chunk scratch).map PullRecord.dim = chunk.map PullRecord.dim := by
  rw [readSlots,List.map_map]
  change chunk.zipIdx.map (PullRecord.dim ∘ Prod.fst) = _
  rw [← List.map_map,zipIdx_map_fst]

end Copies

section Fit

variable {chunk : List PullRecord} {order : List Nat} {scratch scratch' : Nat → UInt8}

theorem floats_le_iff (i m n : Nat) :
    i * pullSlotBytes + n * 4 ≤ m * pullSlotBytes ↔ i * 1024 + n ≤ m * 1024 := by
  have hleft : i * pullSlotBytes + n * 4 = (i * 1024 + n) * 4 := by
    rw [pullSlotBytes,← Nat.mul_assoc,← Nat.add_mul]
  have hright : m * pullSlotBytes = m * 1024 * 4 := by
    rw [pullSlotBytes,← Nat.mul_assoc]
  rw [hleft,hright,Nat.mul_le_mul_right_iff (by decide)]

theorem SlotsFit.all_inside (h : SlotsFit (chunk.map PullRecord.dim)) (i : Nat) :
    Inside chunk i := by
  intro r hr
  have hend := h.inside i r.dim (by rw [getElem?_map,hr]; rfl)
  rw [r.sized]
  exact (floats_le_iff i pullChunkSize r.dim.toNat).mpr hend

theorem SlotsFit.disjoint (h : SlotsFit (chunk.map PullRecord.dim)) {i j p : Nat} {v w : UInt8}
    (hi : slotByte chunk i p = some v) (hj : slotByte chunk j p = some w) : i = j := by
  obtain ⟨r,hr,hle,hv⟩ := slotByte_eq_some hi
  obtain ⟨r',hr',hle',hw⟩ := slotByte_eq_some hj
  have hlt := (List.getElem?_eq_some_iff.mp hv).1
  have hlt' := (List.getElem?_eq_some_iff.mp hw).1
  rw [r.sized] at hlt
  rw [r'.sized] at hlt'
  have hdim : (chunk.map PullRecord.dim)[i]? = some r.dim := by rw [getElem?_map,hr]; rfl
  have hdim' : (chunk.map PullRecord.dim)[j]? = some r'.dim := by rw [getElem?_map,hr']; rfl
  have hpos : r.dim ≠ 0 := by
    rintro h0
    rw [h0] at hlt
    simp at hlt
  have hpos' : r'.dim ≠ 0 := by
    rintro h0
    rw [h0] at hlt'
    simp at hlt'
  rw [pullSlotBytes] at hle hle' hlt hlt'
  rcases Nat.lt_trichotomy i j with hij | hij | hij
  · have hend := h.apart i j _ _ hij hdim hdim' hpos'
    omega
  · exact hij
  · have hend := h.apart j i _ _ hij hdim' hdim hpos
    omega

theorem readSlots_complete (hfit : SlotsFit (chunk.map PullRecord.dim))
    (h : completeGet order chunk scratch = some scratch') : readSlots chunk scratch' = chunk := by
  rw [completeGet_eq hfit.all_inside,some_inj] at h
  apply ext_getElem?
  intro i
  cases hr : chunk[i]? with
  | none =>
    rw [List.getElem?_eq_none_iff] at hr ⊢
    rw [length_readSlots]
    exact hr
  | some r =>
    rw [getElem?_readSlots hr,some_inj]
    have hemb : (List.range (r.dim.toNat * 4)).map (fun p => scratch' (i * pullSlotBytes + p)) =
        r.emb := by
      apply ext_getElem (by rw [length_map,length_range,r.sized])
      intro p hp hp'
      have hown := slotByte_own hr (getElem?_eq_getElem hp')
      rw [getElem_map,getElem_range,← h]
      refine overlay_agrees _ ?_ (Or.inr ⟨i,mem_copies order ?_,by rw [hown]; rfl⟩)
      · intro j _ v hv
        obtain rfl := hfit.disjoint hv hown
        rw [hown,some_inj] at hv
        exact hv.symm
      · exact (List.getElem?_eq_some_iff.mp hr).1
    cases r
    simp only [PullRecord.mk.injEq,true_and]
    exact hemb

def Tagged (r : PullRecord) : Prop :=
  ∀ p v, r.emb[p]? = some v → v = if p < pullSlotBytes then 0 else 1

theorem overlay_start {j : Nat} {r : PullRecord} (hr : chunk[j]? = some r) (hmark : Tagged r)
    (hpos : r.emb ≠ []) : overlay chunk (List.range chunk.length) scratch (j * pullSlotBytes) = 0 := by
  obtain ⟨hj,_⟩ := List.getElem?_eq_some_iff.mp hr
  have hfirst : slotByte chunk j (j * pullSlotBytes + 0) = some 0 := by
    have hlt : 0 < r.emb.length := length_pos_iff.mpr hpos
    refine slotByte_own hr ?_
    rw [getElem?_eq_getElem hlt,hmark 0 _ (getElem?_eq_getElem hlt)]
    rfl
  have hsplit : List.range chunk.length =
      List.range j ++ (List.range (chunk.length - j)).map (j + ·) := by
    rw [← range_add,Nat.add_sub_cancel' (Nat.le_of_lt hj)]
  rw [hsplit,overlay,foldl_append]
  refine overlay_agrees _ ?_ (Or.inr ⟨j,?_,by rw [← Nat.add_zero (j * _),hfirst]; rfl⟩)
  · intro i hi v hv
    obtain ⟨k,_,rfl⟩ := List.mem_map.mp hi
    obtain ⟨_,_,hle,_⟩ := slotByte_eq_some hv
    have hk : k = 0 := by
      rw [pullSlotBytes] at hle
      omega
    subst hk
    rw [Nat.add_zero] at hv hfirst
    rw [hfirst,some_inj] at hv
    exact hv.symm
  · exact List.mem_map.mpr ⟨0,mem_range.mpr (by omega),rfl⟩

theorem slotsFit_of_read (hmark : ∀ r ∈ chunk, Tagged r)
    (h : completeGet [] chunk scratch = some scratch') (hread : readSlots chunk scratch' = chunk) :
    SlotsFit (chunk.map PullRecord.dim) := by
  have hinside := inside_of_completeGet h
  have hall : (List.range chunk.length).filter (fun i => i ∉ ([] : List Nat)) =
      List.range chunk.length := by simp
  rw [completeGet_eq hinside,some_inj,nil_append,hall] at h
  refine ⟨?_,?_⟩
  · intro i d hd
    obtain ⟨r,hr,rfl⟩ := map_eq_some_iff.mp (by rw [← getElem?_map]; exact hd)
    have hend := hinside i r hr
    rw [r.sized] at hend
    exact (floats_le_iff i pullChunkSize r.dim.toNat).mp hend
  · intro i j d d' hij hd hd' hpos
    obtain ⟨r,hr,rfl⟩ := map_eq_some_iff.mp (by rw [← getElem?_map]; exact hd)
    obtain ⟨r',hr',rfl⟩ := map_eq_some_iff.mp (by rw [← getElem?_map]; exact hd')
    by_contra hover
    have hlt : (j - i) * pullSlotBytes < r.emb.length := by
      rw [r.sized,pullSlotBytes]
      omega
    have hemb' : r'.emb ≠ [] := by
      intro hnil
      have hlen := r'.sized
      rw [hnil,length_nil] at hlen
      exact hpos (UInt32.toNat_inj.mp (by simp only [UInt32.toNat_zero]; omega))
    have hstart := @overlay_start chunk scratch j r' hr'
      (hmark r' (mem_of_getElem? hr')) hemb'
    -- record `i` is read where record `j` was copied to
    have hslot := @getElem?_readSlots chunk scratch' i r hr
    rw [hread,hr,some_inj] at hslot
    have hbyte : r.emb[(j - i) * pullSlotBytes]? = some (scratch' (j * pullSlotBytes)) := by
      have hplace : i * pullSlotBytes + (j - i) * pullSlotBytes = j * pullSlotBytes := by
        rw [← Nat.add_mul,Nat.add_sub_cancel' (Nat.le_of_lt hij)]
      rw [congrArg PullRecord.emb hslot,getElem?_map,
        getElem?_range (by rw [← r.sized]; exact hlt),map_some,hplace]
    have hone := hmark r (mem_of_getElem? hr) _ _ hbyte
    rw [if_neg (by rw [pullSlotBytes]; omega),← h,hstart] at hone
    exact absurd hone (by decide)

end Fit

end Gravel.Proofs.PullSlots
