import Gravel.Model.Checkpoint
import Gravel.Proofs.ClientSteps
import Gravel.Proofs.FrameLaw

namespace Gravel.Proofs.IncrementalDump
open Relation File DirtySet BinRun FrameLaw ClientSteps List Option Function

structure Frozen (s s' : DimBin) : Prop where
  ckpt : s'.inCheckpoint = true
  geom : s'.geom = s.geom
  dirty : s'.dirty = s.dirty
  size : s.data.size ≤ s'.data.size
  bytes : s'.data.cell = s.data.cell

section Clients

variable {s s' s'' : DimBin}

theorem Frozen.refl (hck : s.inCheckpoint = true) : Frozen s s :=
  ⟨hck,rfl,rfl,Nat.le_refl _,rfl⟩

theorem Frozen.trans (h : Frozen s s') (h' : Frozen s' s'') : Frozen s s'' :=
  ⟨h'.ckpt,h'.geom.trans h.geom,h'.dirty.trans h.dirty,Nat.le_trans h.size h'.size,
    h'.bytes.trans h.bytes⟩

theorem steps_frozen (hck : s.inCheckpoint = true) (h : ReflTransGen ClientStep s s') :
    Frozen s s' := by
  have hframe := clientSteps_frame h
  obtain ⟨hdirty,hcell⟩ := hframe.still hck
  exact ⟨hframe.ckpt.trans hck,hframe.geom,hdirty,hframe.size,hcell⟩

end Clients

def runPages (runs : List DeltaRun) : List Nat :=
  runs.flatMap (fun r => List.range' r.start r.count)

/-- The runs that a reader of the file gets to: as many as its header says. -/
def decodedRuns (file : DeltaFile) : List DeltaRun := file.runs.take file.numEntries

def pageContent (pageSize : Nat) (file : DeltaFile) (p : Nat) : Option (List UInt8) :=
  ((decodedRuns file).find? (fun r => r.start ≤ p ∧ p < r.start + r.count)).map (fun r =>
    (List.range pageSize).map (fun i => r.bytes ((p - r.start) * pageSize + i)))

/-- The number of pages in the longest run of consecutive ones. -/
def longestRun : List Nat → Nat
  | [] => 0
  | pg :: rest => max (runLength pg rest + 1) (longestRun rest)

/-- Each run of the pages is what one `pread` returns: it is inside the file and not too long. -/
def Readable (s : DimBin) (pages : List Nat) : Prop :=
  (∀ p ∈ pages, p * s.geom.pageSize + s.geom.pageSize ≤ s.data.size) ∧
    longestRun pages * s.geom.pageSize ≤ maxRwCount

instance (s : DimBin) (pages : List Nat) : Decidable (Readable s pages) :=
  inferInstanceAs (Decidable (_ ∧ _))

structure Covers (s : DimBin) (file : DeltaFile) (pages : List Nat) : Prop where
  pages : runPages file.runs = pages
  entries : file.numEntries = file.runs.length
  bytes : ∀ r ∈ file.runs, ∀ i < r.count * s.geom.pageSize,
    r.bytes i = s.data.cell (r.start * s.geom.pageSize + i)

section Dumps

variable {s s' : DimBin} {file : DeltaFile} {pages pending : List Nat} {pg n left : Nat}

theorem take_runLength (pg : Nat) (rest : List Nat) (hn : n ≤ runLength pg rest + 1) :
    (pg :: rest).take n = List.range' pg n := by
  induction rest generalizing pg n with
  | nil =>
    have : n = 0 ∨ n = 1 := by
      rw [runLength] at hn
      omega
    rcases this with rfl | rfl
    · rfl
    · rfl
  | cons q rest ih =>
    cases n with
    | zero => rfl
    | succ n =>
      rw [take_succ_cons,range'_succ]
      rw [runLength] at hn
      split_ifs at hn with hq
      · rw [← hq,ih q (by omega)]
      · obtain rfl : n = 0 := by omega
        rfl

theorem Covers.of_frozen (h : Frozen s s') (hc : Covers s' file pages) : Covers s file pages :=
  ⟨hc.pages,hc.entries,fun r hr i hi => by
    have := hc.bytes r hr i (by rw [h.geom]; exact hi)
    rwa [h.geom,h.bytes] at this⟩

theorem Covers.frozen (h : Frozen s s') (hc : Covers s file pages) : Covers s' file pages :=
  ⟨hc.pages,hc.entries,fun r hr i hi => by
    have := hc.bytes r hr i (by rw [← h.geom]; exact hi)
    rwa [← h.geom,← h.bytes] at this⟩

theorem longestRun_drop (n : Nat) (pages : List Nat) :
    longestRun (pages.drop n) ≤ longestRun pages := by
  induction pages generalizing n with
  | nil => simp
  | cons pg rest ih =>
    cases n with
    | zero => exact Nat.le_refl _
    | succ n => exact Nat.le_trans (ih n) (Nat.le_max_right _ _)

theorem runLength_le (pg : Nat) (rest : List Nat) : runLength pg rest ≤ rest.length := by
  induction rest generalizing pg with
  | nil => exact Nat.le_refl _
  | cons q rest ih =>
    rw [runLength]
    split_ifs
    · exact Nat.succ_le_succ (ih q)
    · exact Nat.zero_le _

theorem longestRun_le (pages : List Nat) : longestRun pages ≤ pages.length := by
  induction pages with
  | nil => exact Nat.le_refl _
  | cons pg rest ih => exact max_le (Nat.succ_le_succ (runLength_le pg rest)) (Nat.le_succ_of_le ih)

theorem Readable.drop (h : Readable s pending) (n : Nat) : Readable s (pending.drop n) :=
  ⟨fun p hp => h.1 p (mem_of_mem_drop hp),
    Nat.le_trans (Nat.mul_le_mul_right _ (longestRun_drop n pending)) h.2⟩

theorem Covers.run (hc : Covers s file pages)
    (hfile : pg * s.geom.pageSize + n * s.geom.pageSize ≤ s.data.size ∧
      n * s.geom.pageSize ≤ maxRwCount) :
    Covers s (dumpRun s file pg n) (pages ++ List.range' pg n) := by
  rw [dumpRun,if_pos hfile]
  refine ⟨?_,by simp [hc.entries],?_⟩
  · rw [runPages,flatMap_append,flatMap_cons,flatMap_nil,append_nil,
      ← runPages,hc.pages]
  · intro r hr i hi
    rcases mem_append.mp hr with hr | hr
    · exact hc.bytes r hr i hi
    · rw [mem_singleton.mp hr] at hi ⊢
      exact read_zeroed hi

theorem Readable.run {rest : List Nat} (hread : Readable s (pg :: rest)) (hn : 0 < n)
    (hle : n ≤ runLength pg rest + 1) :
    pg * s.geom.pageSize + n * s.geom.pageSize ≤ s.data.size ∧
      n * s.geom.pageSize ≤ maxRwCount := by
  have hlast : pg + (n - 1) ∈ pg :: rest := by
    refine mem_of_mem_take (i := n) ?_
    rw [take_runLength pg rest hle,mem_range'_1]
    omega
  have hinside := hread.1 _ hlast
  rw [← Nat.succ_mul] at hinside
  refine ⟨?_,Nat.le_trans (Nat.mul_le_mul_right _ (Nat.le_trans hle (Nat.le_max_left _ _))) hread.2⟩
  rw [← Nat.add_mul,show pg + n = (pg + (n - 1)).succ by omega]
  exact hinside

theorem dumpPages_spec (fuel : Nat) : ∀ left file pending pages, Covers s file pages →
    Readable s pending → pending.length ≤ fuel →
    Covers s (dumpPages s fuel left file pending).1 (pages ++ pending.take left) ∧
      (dumpPages s fuel left file pending).2 = pending.drop left := by
  induction fuel with
  | zero =>
    intro left file pending pages hc _ hlen
    obtain rfl := length_eq_zero_iff.mp (Nat.le_zero.mp hlen)
    simp only [dumpPages,take_nil,drop_nil,append_nil,and_true]
    exact hc
  | succ fuel ih =>
    intro left file pending pages hc hread hlen
    cases pending with
    | nil =>
      simp only [dumpPages,take_nil,drop_nil,append_nil,and_true]
      exact hc
    | cons pg rest =>
      rw [dumpPages]
      by_cases hleft : left = 0
      · rw [if_pos hleft,hleft]
        simp only [take_zero,append_nil,drop_zero,and_true]
        exact hc
      · rw [if_neg hleft]
        obtain ⟨n,hn⟩ : ∃ n, n = if left < runLength pg rest + 1 then left
          else runLength pg rest + 1 := ⟨_,rfl⟩
        have hpos : 0 < n ∧ n ≤ left ∧ n ≤ runLength pg rest + 1 := by
          rw [hn]
          split_ifs <;> omega
        simp only [← hn]
        have hrun := take_runLength pg rest hpos.2.2
        have hc' := hc.run (hread.run hpos.1 hpos.2.2)
        obtain ⟨hcov,hdrop⟩ := ih (left - n) (dumpRun s file pg n) ((pg :: rest).drop n)
          (pages ++ List.range' pg n) hc' (hread.drop n)
          (by rw [length_drop]; omega)
        rw [← hrun,append_assoc] at hcov
        refine ⟨?_,?_⟩
        · have htake : (pg :: rest).take n ++ ((pg :: rest).drop n).take (left - n) =
              (pg :: rest).take left := by
            rw [← take_add,Nat.add_sub_cancel' hpos.2.1]
          rw [← htake]
          exact hcov
        · rw [hdrop,drop_drop,Nat.add_sub_cancel' hpos.2.1]

theorem dumpRuns_spec (fuel : Nat) : ∀ file pending pages, Covers s file pages →
    Readable s pending → pending.length ≤ fuel → Covers s (dumpRuns s fuel file pending) (pages ++ pending) := by
  induction fuel with
  | zero =>
    intro file pending pages hc _ hlen
    obtain rfl := length_eq_zero_iff.mp (Nat.le_zero.mp hlen)
    rw [dumpRuns,append_nil]
    exact hc
  | succ fuel ih =>
    intro file pending pages hc hread hlen
    cases pending with
    | nil =>
      rw [dumpRuns,append_nil]
      exact hc
    | cons pg rest =>
      have hrun := take_runLength pg rest (Nat.le_refl _)
      have hc' := hc.run (hread.run (Nat.succ_pos _) (Nat.le_refl _))
      have hdrop : rest.drop (runLength pg rest + 1 - 1) =
          (pg :: rest).drop (runLength pg rest + 1) := rfl
      rw [dumpRuns,hdrop]
      have hcov := ih _ _ _ hc' (hread.drop _)
        (show ((pg :: rest).drop (runLength pg rest + 1)).length ≤ fuel by
          rw [length_drop]
          omega)
      rw [← hrun,append_assoc,take_append_drop] at hcov
      exact hcov

theorem covers_header (s s' : DimBin) : Covers s (deltaHeader s') [] :=
  ⟨rfl,rfl,fun _ hr => absurd hr not_mem_nil⟩

theorem Covers.decoded (hc : Covers s file pages) : decodedRuns file = file.runs := by
  rw [decodedRuns,hc.entries,take_length]

theorem Covers.pageContent (hc : Covers s file pages) (p : Nat) :
    pageContent s.geom.pageSize file p = if p ∈ pages
      then some ((List.range s.geom.pageSize).map (fun i =>
        s.data.cell (p * s.geom.pageSize + i)))
      else none := by
  rw [IncrementalDump.pageContent,hc.decoded]
  cases hfind : file.runs.find? (fun r => r.start ≤ p ∧ p < r.start + r.count) with
  | none =>
    rw [if_neg]
    · rfl
    · rw [← hc.pages,runPages,mem_flatMap]
      rintro ⟨r,hr,hp⟩
      have := find?_eq_none.mp hfind r hr
      rw [mem_range'_1] at hp
      simp [hp] at this
  | some r =>
    have hr := mem_of_find?_eq_some hfind
    have hp : r.start ≤ p ∧ p < r.start + r.count := by simpa using find?_some hfind
    rw [if_pos]
    · rw [map_some]
      refine congrArg some (map_congr_left (fun i hi => ?_))
      have hi := mem_range.mp hi
      obtain ⟨k,rfl⟩ := Nat.exists_eq_add_of_le hp.1
      have hk : k + 1 ≤ r.count := by omega
      have hlt : k * s.geom.pageSize + i < r.count * s.geom.pageSize := by
        have := Nat.mul_le_mul_right s.geom.pageSize hk
        rw [Nat.succ_mul] at this
        omega
      rw [Nat.add_sub_cancel_left,hc.bytes r hr _ hlt,Nat.add_mul,Nat.add_assoc]
    · rw [← hc.pages,runPages,mem_flatMap]
      exact ⟨r,hr,mem_range'_1.mpr hp⟩

end Dumps

/-- The bin at each step of an incremental dump, with the budget of the step: in between there are
puts, gets and deletes. -/
def Interleaved (s : DimBin) : List (DimBin × UInt32) → Prop
  | [] => True
  | (s',_) :: rest => ReflTransGen ClientStep s s' ∧ Interleaved s' rest

def incrementalDump : List (DimBin × UInt32) → Option DeltaDump
  | [] => none
  | (s,budget) :: rest =>
    some (rest.foldl (fun d step => dumpStep step.1 step.2 d) (dumpStep s budget (openDump s)))

/-- At most `GRAVELDB_MAX_DIRTY` pages are dirty, all of them below the capacity of the tracker. -/
def Listable (s : DimBin) : Prop :=
  (∀ p, Marked s.dirty.ckpt p → p < s.dirty.capacity) ∧
    ∃ l : List Nat, l.length ≤ maxDirty ∧ ∀ p, Marked s.dirty.ckpt p → p ∈ l

section Runs

variable {s s' : DimBin}

theorem Readable.frozen {pages : List Nat} (h : Readable s pages) (hf : Frozen s s') :
    Readable s' pages := by
  rw [Readable,hf.geom]
  exact ⟨fun p hp => Nat.le_trans (h.1 p hp) hf.size,h.2⟩

theorem frozenPages_congr (h : Frozen s s') : frozenPages s' = frozenPages s := by
  rw [frozenPages,frozenPages,h.dirty]

theorem nodup_frozenPages (h : TreeInv s.dirty.ckpt) : (frozenPages s).Nodup :=
  (treePages_ascending h s.dirty.capacity maxDirty).imp Nat.ne_of_lt

theorem listable_iff (h : TreeInv s.dirty.ckpt) :
    (∀ p, Marked s.dirty.ckpt p → p ∈ frozenPages s) ↔ Listable s := by
  constructor
  · intro hall
    exact ⟨fun p hp => (mem_treePages h (hall p hp)).1,frozenPages s,length_take_le _ _,hall⟩
  · rintro ⟨hbelow,l,hlen,hl⟩ p hp
    obtain ⟨full,hfull⟩ : ∃ full, full = s.dirty.ckpt.segments.flatMap (fun seg =>
      nodePages s.dirty.capacity s.dirty.ckpt.depth (seg.segmentId * s.dirty.ckpt.segmentSpan)
        seg.root) := ⟨_,rfl⟩
    have hmem : ∀ q, q ∈ full ↔ q < s.dirty.capacity ∧ Marked s.dirty.ckpt q := by
      intro q
      rw [hfull]
      exact mem_scan h s.dirty.capacity
    have hnodup : full.Nodup := by
      have hasc := treePages_ascending h s.dirty.capacity full.length
      rw [treePages,← hfull,take_length] at hasc
      exact hasc.imp Nat.ne_of_lt
    have hshort : full.length ≤ maxDirty := by
      have hsub : full ⊆ l := fun q hq => hl q ((hmem q).mp hq).2
      exact Nat.le_trans (subperm_of_subset hnodup hsub).length_le hlen
    rw [frozenPages,ckptPages,treePages,← hfull,take_of_length_le hshort]
    exact (hmem p).mpr ⟨hbelow p hp,hp⟩

structure Progress (s : DimBin) (d : DeltaDump) : Prop where
  covers : ∃ pages, Covers s d.file pages ∧ pages ++ d.pending = frozenPages s

theorem Progress.step {d : DeltaDump} (hread : Readable s (frozenPages s)) (hf : Frozen s s') (hd : Progress s d) (budget : UInt32) :
    Progress s (dumpStep s' budget d) ∧
      (dumpStep s' budget d).pending = d.pending.drop (stepBudget budget) := by
  obtain ⟨pages,hc,hall⟩ := hd.covers
  have hrest : Readable s d.pending := by
    rw [← hall] at hread
    simpa using hread.drop pages.length
  obtain ⟨hcov,hpend⟩ := dumpPages_spec d.pending.length (stepBudget budget) d.file d.pending pages
    (hc.frozen hf) (hrest.frozen hf) (Nat.le_refl _)
  refine ⟨⟨pages ++ d.pending.take (stepBudget budget),hcov.of_frozen hf,?_⟩,hpend⟩
  rw [← hall,append_assoc,dumpStep]
  simp only
  rw [hpend,take_append_drop]

theorem Progress.steps {d : DeltaDump} {steps : List (DimBin × UInt32)}
    (hread : Readable s (frozenPages s)) (hf : Frozen s s') (hi : Interleaved s' steps) (hd : Progress s d) :
    Progress s (steps.foldl (fun d step => dumpStep step.1 step.2 d) d) := by
  induction steps generalizing s' d with
  | nil => exact hd
  | cons step rest ih =>
    have hf' := hf.trans (steps_frozen hf.ckpt hi.1)
    exact ih hf' hi.2 (hd.step hread hf' step.2).1

theorem incrementalDump_progress {d : DeltaDump} {steps : List (DimBin × UInt32)}
    (hck : s.inCheckpoint = true) (hread : Readable s (frozenPages s))
    (hi : Interleaved s steps) (hd : incrementalDump steps = some d) : Progress s d := by
  cases steps with
  | nil => cases hd
  | cons step rest =>
    cases hd
    have hf := steps_frozen hck hi.1
    have hopen : Progress s (openDump step.1) :=
      ⟨[],covers_header s step.1,frozenPages_congr hf⟩
    exact (hopen.step hread hf step.2).1.steps hread hf hi.2

theorem Progress.done {d : DeltaDump} (hd : Progress s d) (hdone : d.pending = []) :
    Covers s d.file (frozenPages s) := by
  obtain ⟨pages,hc,hall⟩ := hd.covers
  rw [hdone,append_nil] at hall
  rw [← hall]
  exact hc

theorem dumpDelta_covers (hread : Readable s (frozenPages s)) :
    Covers s (dumpDelta s) (frozenPages s) :=
  dumpRuns_spec _ _ _ _ (covers_header s s) hread (Nat.le_refl _)

end Runs

section Segments

variable {t t' : DirtyTree} {dt : DirtyTracker} {p : Nat}

theorem markSegment_ids (t : DirtyTree) (offset i : Nat) :
    (markSegment t offset i).segments.map DirtySegment.segmentId =
      t.segments.map DirtySegment.segmentId := by
  refine ext_getElem? (fun j => ?_)
  rw [markSegment,getElem?_map,getElem?_map,getElem?_modify,Option.map_eq_map,
    Option.map_map]
  refine congrArg (fun f => t.segments[j]?.map f) (funext fun seg => ?_)
  rw [comp_apply]
  split_ifs <;> rfl

theorem treeMark_ids (h : treeMark t p = some t') {id : Nat}
    (hid : id ∈ t'.segments.map DirtySegment.segmentId) :
    id = p / t.segmentSpan ∨ id ∈ t.segments.map DirtySegment.segmentId := by
  rw [treeMark] at h
  split at h
  · cases h
    rw [markSegment_ids] at hid
    exact .inr hid
  · obtain ⟨cap,_,h⟩ := bind_eq_some_iff.mp h
    cases h
    rw [markSegment_ids] at hid
    obtain ⟨seg,hseg,rfl⟩ := List.mem_map.mp hid
    rcases eq_or_mem_of_mem_insertIdx hseg with rfl | hseg
    · exact .inl rfl
    · exact .inr (List.mem_map_of_mem hseg)

theorem mark_range (n : Nat) (hspan : n ≤ 16777216) :
    ∃ dt, (List.range n).foldlM dirtyTrackerMark (dirtyTrackerInit 16777216) = some dt ∧
      TrackerInv dt ∧ dt.active.segmentSpan = 16777216 ∧ dt.capacity = 16777216 ∧
      (∀ id ∈ dt.active.segments.map DirtySegment.segmentId, id = 0) ∧
      ∀ q, Marked dt.active q ↔ q < n := by
  induction n with
  | zero =>
    refine ⟨_,rfl,.init _,rfl,rfl,fun id hid => absurd hid not_mem_nil,fun q => ?_⟩
    exact iff_of_false (not_marked_treeInit _) (Nat.not_lt_zero q)
  | succ n ih =>
    obtain ⟨dt,hrun,hinv,hs,hcap,hids,hmarked⟩ := ih (by omega)
    have hroom : HasRoom dt.active n := by
      right
      have hsub : dt.active.segments.map DirtySegment.segmentId ⊆ [0] :=
        fun id hid => mem_singleton.mpr (hids id hid)
      have hnd := hinv.active.sorted.imp Nat.ne_of_lt
      have := (subperm_of_subset hnd hsub).length_le
      rw [length_map,length_singleton] at this
      omega
    obtain ⟨active,hmark,hinv',hspan',hmarked'⟩ := treeMark_spec hinv.active hroom
    refine ⟨{ dt with active := active },?_,⟨hinv',hinv.ckpt⟩,hspan'.trans hs,hcap,?_,?_⟩
    · rw [range_succ,foldlM_append,hrun]
      simp [dirtyTrackerMark,hmark]
    · intro id hid
      rcases treeMark_ids hmark hid with rfl | hid
      · rw [hs]
        exact Nat.div_eq_of_lt (by omega)
      · exact hids id hid
    · intro q
      rw [hmarked' q,hmarked q]
      omega

end Segments

def crowdedBin (s : DimBin) : Option DimBin := do
  let dirty ← (List.range (maxDirty + 1)).foldlM dirtyTrackerMark (dirtyTrackerInit 16777216)
  return { s with
    dirty := dirtyTrackerSwap dirty
    data := s.data.extend ((maxDirty + 1) * s.geom.pageSize)
    inCheckpoint := true }

end Gravel.Proofs.IncrementalDump
