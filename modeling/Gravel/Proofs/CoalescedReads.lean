import Gravel.Model.CoalescedReads

namespace Gravel.Proofs.CoalescedReads
open List

def rangeEntries (r : CkptCoalescedRange) : List Nat :=
  (List.range r.count).map (r.startIdx + ·)

/-- The ranges hold the operations from the `i`-th on, each with the buffer of its first one. -/
def Laid (entrySize : Nat) : Nat → List CkptCoalescedRange → Prop
  | _, [] => True
  | i, r :: rest => r.buf = opBuf entrySize i ∧ 0 < r.count ∧ Laid entrySize (i + r.count) rest

def Apart (r r' : CkptCoalescedRange) : Prop := r.startIdx + r.count < r'.startIdx

section Ranges

variable {entrySize i : Nat} {cur r : CkptCoalescedRange} {ops : List ReadOp}
  {ranges : List CkptCoalescedRange}

theorem entries_extend (cur : CkptCoalescedRange) :
    rangeEntries { cur with count := cur.count + 1 } =
      rangeEntries cur ++ [cur.startIdx + cur.count] := by
  simp [rangeEntries,range_succ]

structure Extends (entrySize place : Nat) (cur : CkptCoalescedRange) (ops : List ReadOp)
    (ranges : List CkptCoalescedRange) : Prop where
  entries : ranges.flatMap rangeEntries =
    rangeEntries cur ++ ops.map ReadOp.entryIdx
  laid : Laid entrySize place ranges
  apart : ranges.IsChain Apart
  first : ∃ r rest, ranges = r :: rest ∧ r.startIdx = cur.startIdx

theorem extendRanges_spec (entrySize : Nat) (ops : List ReadOp) : ∀ (place i : Nat) (cur : CkptCoalescedRange),
    cur.buf = opBuf entrySize place → 0 < cur.count → place + cur.count = i →
    (∀ op ∈ ops, cur.startIdx + cur.count ≤ op.entryIdx ∧ op.entryIdx < 2 ^ 32) →
    (ops.map ReadOp.entryIdx).Pairwise (· < ·) →
    Extends entrySize place cur ops (extendRanges entrySize i cur ops) := by
  induction ops with
  | nil =>
    intro place i cur hbuf hpos _ _ _
    exact ⟨by simp [extendRanges],⟨hbuf,hpos,trivial⟩,by simp [extendRanges],⟨cur,[],rfl,rfl⟩⟩
  | cons op rest ih =>
    intro place i cur hbuf hpos hplace hbehind hasc
    rw [map_cons,pairwise_cons] at hasc
    obtain ⟨hfirst,hasc⟩ := hasc
    obtain ⟨hle,hlt⟩ := hbehind op mem_cons_self
    have hnext : (cur.startIdx + cur.count) % 2 ^ 32 = cur.startIdx + cur.count :=
      Nat.mod_eq_of_lt (by omega)
    have hrest (x : ReadOp) (hx : x ∈ rest) : op.entryIdx < x.entryIdx ∧ x.entryIdx < 2 ^ 32 :=
      ⟨hfirst x.entryIdx (List.mem_map_of_mem hx),(hbehind x (mem_cons_of_mem op hx)).2⟩
    rw [extendRanges]
    simp only [hnext]
    by_cases hjoin : op.entryIdx = cur.startIdx + cur.count
    · rw [if_pos hjoin]
      have hext := ih place (i + 1) { cur with count := cur.count + 1 } hbuf (by simp)
        (by simp only; omega) (fun x hx => ⟨by have := hrest x hx; simp only; omega,(hrest x hx).2⟩) hasc
      refine ⟨?_,hext.laid,hext.apart,hext.first⟩
      rw [hext.entries,entries_extend,append_assoc,map_cons,hjoin]
      rfl
    · rw [if_neg hjoin]
      have hext := ih i (i + 1) ⟨op.entryIdx,1,i * entrySize⟩ rfl (by simp) rfl
        (fun x hx => hrest x hx) hasc
      obtain ⟨r,more,hranges,hstart⟩ := hext.first
      refine ⟨?_,⟨hbuf,hpos,?_⟩,?_,⟨cur,_,rfl,rfl⟩⟩
      · rw [flatMap_cons,hext.entries]
        simp [rangeEntries]
      · rw [hplace]
        exact hext.laid
      · rw [hranges]
        refine List.IsChain.cons_cons ?_ (hranges ▸ hext.apart)
        simp only [Apart,hstart]
        omega

theorem coalescedRanges_spec (entrySize : Nat) (ops : List ReadOp)
    (hasc : (ops.map ReadOp.entryIdx).Pairwise (· < ·)) (hword : ∀ op ∈ ops, op.entryIdx < 2 ^ 32) :
    (exportBuildCoalescedRanges entrySize ops).flatMap rangeEntries = ops.map ReadOp.entryIdx ∧
      Laid entrySize 0 (exportBuildCoalescedRanges entrySize ops) ∧
      (exportBuildCoalescedRanges entrySize ops).IsChain Apart := by
  cases ops with
  | nil => exact ⟨rfl,trivial,.nil⟩
  | cons op rest =>
    rw [map_cons,pairwise_cons] at hasc
    have hext := extendRanges_spec entrySize rest 0 1 ⟨op.entryIdx,1,0⟩
      (Nat.zero_mul entrySize).symm Nat.one_pos rfl (fun x hx =>
        ⟨hasc.1 x.entryIdx (List.mem_map_of_mem hx),hword x (mem_cons_of_mem op hx)⟩) hasc.2
    exact ⟨hext.entries.trans (by simp [rangeEntries]),hext.laid,hext.apart⟩

theorem Laid.count_pos (ranges : List CkptCoalescedRange) : ∀ place : Nat,
    Laid entrySize place ranges → ∀ r ∈ ranges, 0 < r.count := by
  induction ranges with
  | nil =>
    intro place _ r hr
    cases hr
  | cons r' rest ih =>
    intro place hlaid r hr
    obtain ⟨_,hpos,hlaid⟩ := hlaid
    rcases mem_cons.mp hr with rfl | hr
    · exact hpos
    · exact ih _ hlaid r hr

theorem Laid.range_of (ranges : List CkptCoalescedRange) : ∀ (place k e : Nat),
    Laid entrySize place ranges → (ranges.flatMap rangeEntries)[k]? = some e →
    ∃ r ∈ ranges, ∃ d < r.count, ∃ p, r.buf = opBuf entrySize p ∧ p + d = place + k ∧
      e = r.startIdx + d := by
  induction ranges with
  | nil =>
    intro place k e _ he
    simp at he
  | cons r rest ih =>
    intro place k e hlaid he
    obtain ⟨hbuf,hpos,hlaid⟩ := hlaid
    have hlen : (rangeEntries r).length = r.count := by simp [rangeEntries]
    rw [flatMap_cons] at he
    by_cases hk : k < r.count
    · rw [getElem?_append_left (by omega)] at he
      refine ⟨r,mem_cons_self,k,hk,place,hbuf,rfl,?_⟩
      simpa [rangeEntries,hk] using he.symm
    · rw [getElem?_append_right (by omega),hlen] at he
      obtain ⟨r',hr',d,hd,p,hbuf',hp,he'⟩ := ih (place + r.count) (k - r.count) e hlaid he
      exact ⟨r',mem_cons_of_mem r hr',d,hd,p,hbuf',by omega,he'⟩

def Clear (entrySize : Nat) (r r' : CkptCoalescedRange) : Prop :=
  r.buf + r.count * entrySize ≤ r'.buf ∨ r'.buf + r'.count * entrySize ≤ r.buf

theorem Clear.symm {r' : CkptCoalescedRange} (h : Clear entrySize r r') : Clear entrySize r' r :=
  Or.symm h

theorem Laid.clear (ranges : List CkptCoalescedRange) : ∀ place : Nat,
    Laid entrySize place ranges →
    ranges.Pairwise (Clear entrySize) ∧
      ∀ r ∈ ranges, opBuf entrySize place ≤ r.buf ∧ r.buf + r.count * entrySize ≤
        opBuf entrySize (place + (ranges.flatMap rangeEntries).length) := by
  induction ranges with
  | nil => exact fun _ _ => ⟨.nil,by simp⟩
  | cons r rest ih =>
    intro place hlaid
    obtain ⟨hbuf,hpos,hlaid⟩ := hlaid
    obtain ⟨hclear,hin⟩ := ih (place + r.count) hlaid
    have hlen : (rangeEntries r).length = r.count := by simp [rangeEntries]
    have hend : r.buf + r.count * entrySize = opBuf entrySize (place + r.count) := by
      rw [hbuf,opBuf,opBuf,Nat.add_mul]
    have hmono {a b : Nat} (hab : a ≤ b) : opBuf entrySize a ≤ opBuf entrySize b :=
      Nat.mul_le_mul_right entrySize hab
    refine ⟨pairwise_cons.mpr ⟨?_,hclear⟩,?_⟩
    · intro r' hr'
      exact .inl (hend ▸ (hin r' hr').1)
    · intro r' hr'
      rw [flatMap_cons,length_append,hlen]
      rcases mem_cons.mp hr' with rfl | hr'
      · exact ⟨Nat.le_of_eq hbuf.symm,hend ▸ hmono (by omega)⟩
      · obtain ⟨hlow,hhigh⟩ := hin r' hr'
        refine ⟨Nat.le_trans (hmono (by omega)) hlow,?_⟩
        rwa [Nat.add_assoc] at hhigh

end Ranges

section Merged

def rangeOf (entrySize : Nat) (x : Nat × Nat × Nat) : CkptCoalescedRange :=
  ⟨x.1,x.2.1,opBuf entrySize x.2.2⟩

/-- The ranges behind `cur`, which takes the first of them in if it goes on where `cur` ends. -/
def joinFirst (cur : Nat × Nat × Nat) : List (Nat × Nat × Nat) → List (Nat × Nat × Nat)
  | [] => [cur]
  | (start,count,next) :: more =>
    if start = (cur.1 + cur.2.1) % 2 ^ 32 then (cur.1,cur.2.1 + count,cur.2.2) :: more
    else cur :: (start,count,next) :: more

theorem coalesce_cons (place : Nat) (op : ReadOp) (rest : List ReadOp) :
    coalesce place (op :: rest) = joinFirst (op.entryIdx,1,place) (coalesce (place + 1) rest) := by
  rw [coalesce]
  cases coalesce (place + 1) rest with
  | nil => rfl
  | cons x more => simp only [joinFirst,Nat.add_comm]

/-- An entry that goes on where `cur` ends may join it before or after its successors. -/
theorem joinFirst_joinFirst (start count place e i : Nat) (l : List (Nat × Nat × Nat)) :
    joinFirst (start,count,place) (joinFirst (e,1,i) l) =
      if e = (start + count) % 2 ^ 32 then joinFirst (start,count + 1,place) l
      else (start,count,place) :: joinFirst (e,1,i) l := by
  cases l with
  | nil => simp only [joinFirst]
  | cons x more =>
    by_cases he : e = (start + count) % 2 ^ 32
    · have hnext : (e + 1) % 2 ^ 32 = (start + (count + 1)) % 2 ^ 32 := by omega
      simp only [joinFirst,hnext,if_pos he]
      split_ifs
      · simp only [if_pos he,Nat.add_assoc]
      · simp only [if_pos he]
    · simp only [joinFirst,if_neg he]
      split_ifs <;> simp only [if_neg he]

/-- The loop over the operations and the merge from their end give the same ranges. -/
theorem extendRanges_eq (entrySize : Nat) (ops : List ReadOp) :
    ∀ (i : Nat) (cur : Nat × Nat × Nat), extendRanges entrySize i (rangeOf entrySize cur) ops =
      (joinFirst cur (coalesce i ops)).map (rangeOf entrySize) := by
  induction ops with
  | nil => exact fun _ _ => rfl
  | cons op rest ih =>
    rintro i ⟨start,count,place⟩
    rw [coalesce_cons,joinFirst_joinFirst,extendRanges]
    by_cases hjoin : op.entryIdx = (start + count) % 2 ^ 32
    · rw [if_pos hjoin,← ih (i + 1) (start,count + 1,place)]
      exact if_pos hjoin
    · rw [if_neg hjoin,map_cons,← ih (i + 1) (op.entryIdx,1,i)]
      exact if_neg hjoin

/-- The ranges of the source are those that the export model submits. -/
theorem coalescedRanges_eq (entrySize : Nat) (ops : List ReadOp) :
    exportBuildCoalescedRanges entrySize ops = (coalesce 0 ops).map (rangeOf entrySize) := by
  cases ops with
  | nil => rfl
  | cons op rest =>
    have hzero : (⟨op.entryIdx,1,0⟩ : CkptCoalescedRange) = rangeOf entrySize (op.entryIdx,1,0) := by
      rw [rangeOf,opBuf,Nat.zero_mul]
    rw [exportBuildCoalescedRanges,hzero,extendRanges_eq,coalesce_cons]

end Merged

section Reads

variable {entrySize i : Nat} {data : File UInt8} {pool pool' : Nat → UInt8}
  {r : CkptCoalescedRange} {order : List CkptCoalescedRange}

theorem readInto_at (data : File UInt8) (pool : Nat → UInt8) (buf len off k : Nat) :
    readInto data pool buf len off (buf + k) =
      if k < len ∧ off + k < data.size then data.cell (off + k) else pool (buf + k) := by
  simp only [readInto,File.read,if_pos (Nat.le_add_right buf k),Nat.add_sub_cancel_left]

theorem readInto_before {buf len off : Nat} (h : i < buf) :
    readInto data pool buf len off i = pool i := if_neg (Nat.not_le.mpr h)

theorem readRange_outside (h : i < r.buf ∨ r.buf + r.count * entrySize ≤ i) :
    readRange entrySize data pool r i = pool i := by
  rcases h with hi | hi
  · exact readInto_before hi
  · obtain ⟨k,rfl⟩ := Nat.exists_eq_add_of_le (Nat.le_trans (Nat.le_add_right _ _) hi)
    rw [readRange,readInto_at,if_neg (by omega)]

theorem readRange_congr (h : pool i = pool' i) :
    readRange entrySize data pool r i = readRange entrySize data pool' r i := by
  by_cases hi : r.buf ≤ i
  · obtain ⟨k,rfl⟩ := Nat.exists_eq_add_of_le hi
    rw [readRange,readRange,readInto_at,readInto_at,h]
  · rw [readRange,readRange,readInto_before (Nat.not_le.mp hi),readInto_before (Nat.not_le.mp hi),h]

theorem reads_outside (order : List CkptCoalescedRange) : ∀ pool : Nat → UInt8,
    (∀ r ∈ order, i < r.buf ∨ r.buf + r.count * entrySize ≤ i) →
    order.foldl (readRange entrySize data) pool i = pool i := by
  induction order with
  | nil => exact fun _ _ => rfl
  | cons r rest ih =>
    intro pool hout
    rw [foldl_cons,ih _ (fun r' hr' => hout r' (mem_cons_of_mem r hr')),
      readRange_outside (hout r mem_cons_self)]

theorem reads_inside (order : List CkptCoalescedRange) : ∀ pool : Nat → UInt8,
    order.Pairwise (Clear entrySize) → r ∈ order → r.buf ≤ i → i < r.buf + r.count * entrySize →
    order.foldl (readRange entrySize data) pool i = readRange entrySize data pool r i := by
  induction order with
  | nil =>
    intro pool _ hr
    cases hr
  | cons r' rest ih =>
    intro pool hclear hr hlow hhigh
    obtain ⟨hhead,hclear⟩ := pairwise_cons.mp hclear
    rw [foldl_cons]
    rcases mem_cons.mp hr with rfl | hr
    · apply reads_outside
      intro r' hr'
      have hc : Clear entrySize r r' := hhead r' hr'
      unfold Clear at hc
      omega
    · have hc : Clear entrySize r' r := hhead r hr
      rw [ih _ hclear hr hlow hhigh]
      apply readRange_congr
      apply readRange_outside
      unfold Clear at hc
      omega

theorem readRange_entry {d p j : Nat} (hd : d < r.count) (hbuf : r.buf = opBuf entrySize p)
    (hj : j < entrySize) :
    readRange entrySize data pool r (opBuf entrySize (p + d) + j) =
      readInto data pool (opBuf entrySize (p + d)) entrySize ((r.startIdx + d) * entrySize)
        (opBuf entrySize (p + d) + j) := by
  have hplace : opBuf entrySize (p + d) + j = r.buf + (d * entrySize + j) := by
    rw [hbuf,opBuf,opBuf,Nat.add_mul,Nat.add_assoc]
  have hfile : r.startIdx * entrySize + (d * entrySize + j) = (r.startIdx + d) * entrySize + j := by
    rw [Nat.add_mul,Nat.add_assoc]
  have hinside : d * entrySize + j < r.count * entrySize := by
    calc d * entrySize + j < d * entrySize + entrySize := by omega
      _ = (d + 1) * entrySize := by rw [Nat.add_mul,Nat.one_mul]
      _ ≤ r.count * entrySize := Nat.mul_le_mul_right entrySize hd
  rw [readInto_at,hplace,readRange,readInto_at,hfile]
  simp only [hinside,hj,true_and]

end Reads

/-- The ranges partition the operations into maximal runs of consecutive entries, they keep to
disjoint parts of the pool, and reading them in any order leaves in the buffer of each operation
what a read of its entry alone would. -/
theorem coalesced_reads_exact (entrySize : Nat) (ops : List ReadOp) (data : File UInt8)
    (pool : Nat → UInt8) (order : List CkptCoalescedRange)
    (hasc : (ops.map ReadOp.entryIdx).Pairwise (· < ·)) (hword : ∀ op ∈ ops, op.entryIdx < 2 ^ 32)
    (horder : order.Perm (exportBuildCoalescedRanges entrySize ops)) :
    (exportBuildCoalescedRanges entrySize ops).flatMap rangeEntries = ops.map ReadOp.entryIdx ∧
    (∀ r ∈ exportBuildCoalescedRanges entrySize ops, 0 < r.count) ∧
    (exportBuildCoalescedRanges entrySize ops).IsChain Apart ∧
    (exportBuildCoalescedRanges entrySize ops).Pairwise (Clear entrySize) ∧
    (∀ r ∈ exportBuildCoalescedRanges entrySize ops,
      r.buf + r.count * entrySize ≤ opBuf entrySize ops.length) ∧
    ∀ k op, ops[k]? = some op → ∀ j < entrySize,
      order.foldl (readRange entrySize data) pool (opBuf entrySize k + j) =
        readInto data pool (opBuf entrySize k) entrySize (op.entryIdx * entrySize)
          (opBuf entrySize k + j) := by
  obtain ⟨hentries,hlaid,hapart⟩ := coalescedRanges_spec entrySize ops hasc hword
  obtain ⟨hclear,hin⟩ := Laid.clear _ 0 hlaid
  rw [hentries,length_map,Nat.zero_add] at hin
  refine ⟨hentries,Laid.count_pos _ 0 hlaid,hapart,hclear,fun r hr => (hin r hr).2,?_⟩
  intro k op hop j hj
  have hentry : ((exportBuildCoalescedRanges entrySize ops).flatMap rangeEntries)[k]? =
      some op.entryIdx := by
    rw [hentries,getElem?_map,hop]
    rfl
  obtain ⟨r,hr,d,hd,p,hbuf,hplace,hidx⟩ := Laid.range_of _ 0 k op.entryIdx hlaid hentry
  rw [Nat.zero_add] at hplace
  subst hplace
  have hstart : opBuf entrySize (p + d) = r.buf + d * entrySize := by
    rw [hbuf,opBuf,opBuf,Nat.add_mul]
  have hend : d * entrySize + entrySize ≤ r.count * entrySize := by
    calc d * entrySize + entrySize = (d + 1) * entrySize := by rw [Nat.add_mul,Nat.one_mul]
      _ ≤ r.count * entrySize := Nat.mul_le_mul_right entrySize hd
  rw [reads_inside order pool (hclear.perm horder.symm Clear.symm) (horder.mem_iff.mpr hr)
    (by omega) (by omega),readRange_entry hd hbuf hj,hidx]

def numbered : File UInt8 := File.empty.write 0 20 UInt8.ofNat
def threeOps : List ReadOp := [⟨7,3⟩,⟨8,4⟩,⟨9,9⟩]

/-- Entries 3 and 4 are read together, entry 9 on its own. -/
theorem two_ranges_read :
    exportBuildCoalescedRanges 2 threeOps = [⟨3,2,0⟩,⟨9,1,4⟩] ∧
      ([⟨9,1,4⟩,⟨3,2,0⟩] : List CkptCoalescedRange).foldl (readRange 2 numbered) (fun _ => 0) 3 = 9 := by
  refine ⟨by decide,?_⟩
  have hread := (coalesced_reads_exact 2 threeOps numbered (fun _ => 0) [⟨9,1,4⟩,⟨3,2,0⟩]
    (by decide) (by decide) (by decide)).2.2.2.2.2 1 ⟨8,4⟩ rfl 1 (by decide)
  exact hread.trans (by decide)

end Gravel.Proofs.CoalescedReads
