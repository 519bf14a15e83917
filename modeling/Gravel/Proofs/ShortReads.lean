import Gravel.Lib.ConflictScan
import Gravel.Proofs.Rebuild

namespace Gravel.Proofs.ShortReads
open HashIndex BinRun KeyBuffer KeyMirror ConflictScan Rehash Slots List Option Function

/-- A slot of the key files with the id that its word holds, if the word is not zero. -/
abbrev SlotWord := Word UInt64 Nat

def slotWord (i : Nat) (kv : Nat × UInt64) : SlotWord :=
  ((i,kv.1),if kv.2 = 0 then none else some kv.2)

section Index

variable {idx : HashIndex} {m : IndexMap} {f : UInt64} {v u : Nat × Nat} {n : Nat}
  {words : List SlotWord} {grows : Prop}

structure WithRoom (idx : HashIndex) (m : IndexMap) (n : Nat) : Prop where
  still : Still idx m
  load : (idx.count + n) * 10 ≤ idx.capacity * 7
  calm : ∀ c < idx.count + n, hashLayout.crowded c idx.capacity = false

structure Growing (idx : HashIndex) (m : IndexMap) (words : List SlotWord) : Prop where
  rep : IndexRep idx m
  capacity : idx.capacity ≤ 2 ^ 28
  load : (idx.count + words.length) * 10 ≤ 2 ^ 28 * 7
  absent : ∀ f ∈ words.filterMap Prod.snd, m f = none
  nodup : (words.filterMap Prod.snd).Nodup

def Copes (grows : Prop) (idx : HashIndex) (m : IndexMap) (words : List SlotWord) : Prop :=
  WithRoom idx m words.length ∨ grows ∧ Growing idx m words

theorem Copes.rep (h : Copes grows idx m words) : IndexRep idx m := by
  rcases h with h | ⟨_,h⟩
  · exact h.still.tracks.rep
  · exact h.rep

theorem WithRoom.le {n' : Nat} (h : WithRoom idx m n) (hle : n' ≤ n) : WithRoom idx m n' := by
  have := h.load
  exact ⟨h.still,by omega,fun c hc => h.calm c (by omega)⟩

theorem Copes.skip (h : Copes grows idx m ((v,none) :: words)) : Copes grows idx m words := by
  rcases h with h | ⟨hg,h⟩
  · exact .inl (h.le (by simp))
  · have hload := h.load
    rw [length_cons] at hload
    exact .inr ⟨hg,h.rep,h.capacity,by omega,h.absent,h.nodup⟩

theorem WithRoom.put (h : WithRoom idx m (n + 1)) (hf : f ≠ 0) (d e : Nat) :
    ∃ idx', hashIndexPut idx f d e = some (idx',.ok) ∧
      WithRoom idx' (update m f (some (d,e))) n := by
  have hload := h.load
  obtain ⟨idx',hput,hstill,hcap⟩ := h.still.put hf (by omega) (h.calm _ (by omega)) d e
  have hcount := (hashIndexPut_keeps hf hput).1.2
  refine ⟨idx',hput,hstill,by omega,fun c hc => ?_⟩
  rw [hcap]
  exact h.calm c (by omega)

theorem WithRoom.remove (h : WithRoom idx m (n + 1)) (hf : f ≠ 0) :
    ∃ idx' rc, hashIndexRemove idx f = some (idx',rc) ∧
      WithRoom idx' (update m f none) n := by
  have hload := h.load
  obtain ⟨idx',hremove,hstill,hcap⟩ := h.still.remove hf
  have hcount := (hashIndexRemove_keeps hremove).1
  refine ⟨idx',_,hremove,hstill,by omega,fun c hc => ?_⟩
  rw [hcap]
  exact h.calm c (by omega)

theorem not_hidden_of_absent (hr : IndexRep idx m) (hm : m f = none) :
    ¬ Hidden hashLayout idx f := by
  intro hh
  obtain ⟨idx',r,hget,_,_,hhid⟩ := get_spec hr.valid hr.represents f
  exact (hhid hh).2 (slotsOf_eq_none.mpr hm)

/-- A lookup sees what is stored, except the ids that a growing table hides. -/
theorem indexMap_eq (hr : IndexRep idx m) (f : UInt64) :
    indexMap idx f = if Hidden hashLayout idx f then none else m f := by
  obtain ⟨idx',r,hget,_,hvis,hhid⟩ := get_spec hr.valid hr.represents f
  by_cases hf : f = 0
  · subst hf
    simp [indexMap,hashIndexGet,hr.zero]
  · simp only [indexMap,hashIndexGet,if_neg hf,hget]
    split_ifs with hh
    · simp [(hhid hh).1]
    · rw [hvis hh]
      cases h : m f <;> simp [slotsOf,h]

/-- Below `2 ^ 28` slots and at most seven tenths of them in use the index never leaves the range
in which its load test is exact. -/
theorem capacity_bounded {idx' : HashIndex} {rc : Status} {d e : Nat} (hr : IndexRep idx m)
    (hcap : idx.capacity ≤ 2 ^ 28) (hload : idx.count * 10 ≤ 2 ^ 28 * 7)
    (hput : hashIndexPut idx f d e = some (idx',rc)) : idx'.capacity ≤ 2 ^ 28 := by
  rcases hashIndexPut_capacity hr.valid.pow hput with hc | ⟨hcr,hc⟩
  · omega
  · have hlt : idx.capacity < 2 ^ 28 := by
      refine Nat.lt_of_le_of_ne hcap fun he => ?_
      simp only [hashLayout,decide_eq_true_eq,he] at hcr
      rw [Nat.mod_eq_of_lt (by omega : idx.count * 10 < 2 ^ 32)] at hcr
      omega
    obtain ⟨a,ha⟩ := hr.valid.pow
    rw [hc,ha,← Nat.pow_succ]
    rw [ha] at hlt
    exact Nat.pow_le_pow_right (by omega) ((Nat.pow_lt_pow_iff_right (by omega)).mp hlt)

theorem Copes.take (h : Copes grows idx m ((v,some f) :: words)) (hf : f ≠ 0) (hm : m f = none) :
    ∃ idx1 idx2, hashIndexGet idx f = some (idx1,none) ∧
      hashIndexPut idx1 f v.1 v.2 = some (idx2,.ok) ∧
      Copes grows idx2 (update m f (some v)) words := by
  rcases h with h | ⟨hg,h⟩
  · obtain ⟨idx2,hput,hs⟩ := h.put hf v.1 v.2
    exact ⟨idx,idx2,by rw [h.still.get hf,hm],hput,.inl hs⟩
  · have hload := h.load
    rw [length_cons] at hload
    have hnd : (f :: words.filterMap Prod.snd).Nodup := h.nodup
    obtain ⟨hnot,hnd⟩ := nodup_cons.mp hnd
    obtain ⟨idx1,r,hget,hrep1,hcount1,hcap1,hiff⟩ := get_rep h.rep hf
    have hr : r = none := (hiff.mpr (not_hidden_of_absent h.rep hm)).trans hm
    subst hr
    have hcap := h.capacity
    obtain ⟨idx2,hput,hrep2,hcount2,_⟩ := put_rep hrep1 hf (by omega)
      (not_hidden_of_absent hrep1 hm) v.1 v.2
    rw [if_pos hm] at hcount2
    refine ⟨idx1,idx2,hget,hput,.inr ⟨hg,hrep2,?_,by omega,?_,hnd⟩⟩
    · exact capacity_bounded hrep1 (by omega) (by omega) hput
    · intro g hg
      have hgf : g ≠ f := fun he => hnot (he ▸ hg)
      rw [update_of_ne hgf]
      have hmem : g ∈ f :: words.filterMap Prod.snd := mem_cons_of_mem _ hg
      exact h.absent g hmem

theorem Copes.again (h : Copes grows idx m ((v,some f) :: words)) (hf : f ≠ 0) (hm : m f = some u) :
    hashIndexGet idx f = some (idx,some u) ∧ WithRoom idx m (words.length + 1) := by
  rcases h with h | ⟨_,h⟩
  · exact ⟨by rw [h.still.get hf,hm],h⟩
  · have := h.absent f mem_cons_self
    rw [hm] at this
    cases this

end Index

def freedIn (i : Nat) (freed : List (Nat × Nat)) : List Nat :=
  (freed.filter (fun v => v.1 = i)).map Prod.snd

theorem freedIn_cons_self (i e : Nat) (freed : List (Nat × Nat)) :
    freedIn i ((i,e) :: freed) = e :: freedIn i freed := by
  simp [freedIn]

theorem freedIn_cons_of_ne {i j : Nat} (hij : j ≠ i) (e : Nat) (freed : List (Nat × Nat)) :
    freedIn i ((j,e) :: freed) = freedIn i freed := by
  simp [freedIn,hij]

theorem mem_freedIn {i e : Nat} {freed : List (Nat × Nat)} :
    e ∈ freedIn i freed ↔ (i,e) ∈ freed := by
  simp [freedIn]

theorem freedIn_nodup {i : Nat} {freed : List (Nat × Nat)} (h : freed.Nodup) :
    (freedIn i freed).Nodup := by
  refine List.Nodup.map_on ?_ (h.filter _)
  rintro ⟨a,x⟩ ha ⟨b,y⟩ hb hxy
  have ha' := of_decide_eq_true (mem_filter.mp ha).2
  have hb' := of_decide_eq_true (mem_filter.mp hb).2
  simp only at ha' hb' hxy
  rw [ha',hb',hxy]

theorem same_length_bin {bins bins' : List DimBin} {s : DimBin} {i : Nat}
    (hlen : bins'.length = bins.length) (hs : bins[i]? = some s) : ∃ s', bins'[i]? = some s' :=
  ⟨_,getElem?_eq_getElem (hlen ▸ (List.getElem?_eq_some_iff.mp hs).1)⟩

structure FreedSlot (i e : Nat) (db db' : GravelDB) : Prop where
  index : db'.index = db.index
  length : db'.bins.length = db.bins.length
  others : ∀ j, j ≠ i → db'.bins[j]? = db.bins[j]?
  here : ∀ s, db.bins[i]? = some s → ∃ s', db'.bins[i]? = some s' ∧ KeysInv s' ∧
    s'.keyFileSize = s.keyFileSize ∧ s'.freeList = e :: s.freeList

section Bins

variable {db : GravelDB} {s : DimBin} {i e : Nat} {w : SlotWord}

theorem freeIn_frees (hs : db.bins[i]? = some s) (hinv : KeysInv s) (he : e < s.keyFileSize) :
    ∃ db', freeIn db i e = some db' ∧ FreedSlot i e db db' := by
  obtain ⟨s',hbuf,hinv',_⟩ := dimbinBufKey_spec
    (s := { s with freeList := e :: s.freeList }) (hinv.congr rfl rfl rfl) he 0
  refine ⟨modifyBin db i s',?_,rfl,length_set,fun j hj => getElem?_set_ne (Ne.symm hj),
    fun s1 hs1 => ?_⟩
  · simp only [freeIn,dimbinFreeEntry,hs,hbuf,bind_eq_bind,bind_some]
    rfl
  · rw [hs] at hs1
    cases hs1
    exact ⟨s',StoreSteps.modifyBin_self hs s',hinv',by rw [dimbinBufKey_eq hbuf],
      by rw [dimbinBufKey_eq hbuf]⟩

theorem putKey_inv (hinv : KeysInv s) (he : e < s.keyFileSize) :
    KeysInv { s with keys := putKey s.keys e 0 } := by
  refine ⟨hinv.buf,hinv.below,?_,Nat.le_trans hinv.file File.size_le_write⟩
  intro x hx
  have hx' : s.keyFileSize ≤ x := hx
  have hout : (putKey s.keys e 0).cell x = s.keys.cell x := File.write_outside (by omega)
  exact hout.trans (hinv.zero x hx)

theorem discardKey_frees (hs : db.bins[i]? = some s) (hinv : KeysInv s) (he : e < s.keyFileSize) :
    ∃ db', discardKey db i e = some db' ∧ FreedSlot i e db db' := by
  obtain ⟨s1,hs1⟩ : ∃ s1 : DimBin, s1 = { s with keys := putKey s.keys e 0 } := ⟨_,rfl⟩
  have hinv1 : KeysInv s1 := hs1 ▸ putKey_inv hinv he
  have hsize : s1.keyFileSize = s.keyFileSize := by rw [hs1]
  have he1 : e < s1.keyFileSize := by omega
  obtain ⟨db',hfree,hd⟩ := freeIn_frees (StoreSteps.modifyBin_self hs s1) hinv1 he1
  refine ⟨db',?_,hd.index,hd.length.trans length_set,?_,?_⟩
  · simp only [discardKey,hs,bind_eq_bind,bind_some,← hs1]
    exact hfree
  · intro j hj
    exact (hd.others j hj).trans (getElem?_set_ne (Ne.symm hj))
  · intro s2 hs2
    rw [hs] at hs2
    cases hs2
    obtain ⟨s',hs',hinv',hsize',hlist⟩ := hd.here s1 (StoreSteps.modifyBin_self hs s1)
    exact ⟨s',hs',hinv',hsize'.trans hsize,by rw [hlist,hs1]⟩

/-- The bins after the words `done`: the freed slots are on the free lists, and the bins that have
not been reached are as they were opened. -/
structure BinsScanned (bins : List DimBin) (done : List SlotWord) (freed : List (Nat × Nat))
    (db : GravelDB) : Prop where
  length : db.bins.length = bins.length
  here : ∀ (i : Nat) s, db.bins[i]? = some s → ∃ s0, bins[i]? = some s0 ∧ KeysInv s ∧
    s.keyFileSize = s0.keyFileSize ∧ s.freeList = freedIn i freed
  rest : ∀ i, (∀ w ∈ done, w.1.1 ≠ i) → db.bins[i]? = bins[i]?

variable {bins : List DimBin} {done : List SlotWord} {freed : List (Nat × Nat)} {db' : GravelDB}

theorem BinsScanned.cons (h : BinsScanned bins done freed db) (w : SlotWord) :
    BinsScanned bins (w :: done) freed db :=
  ⟨h.length,h.here,fun i hi => h.rest i (fun w hw => hi w (mem_cons_of_mem _ hw))⟩

theorem BinsScanned.index (h : BinsScanned bins done freed db) (idx : HashIndex) :
    BinsScanned bins done freed { db with index := idx } :=
  ⟨h.length,h.here,h.rest⟩

theorem BinsScanned.free (h : BinsScanned bins done freed db) (hd : FreedSlot i e db db')
    (hw : w ∈ done) (hi : w.1.1 = i) : BinsScanned bins done ((i,e) :: freed) db' := by
  refine ⟨hd.length.trans h.length,?_,?_⟩
  · intro j s' hs'
    by_cases hj : j = i
    · subst hj
      obtain ⟨s,hs⟩ := same_length_bin hd.length.symm hs'
      obtain ⟨s0,hs0,_,hsize,hlist⟩ := h.here j s hs
      obtain ⟨s1,hs1,hinv1,hsize1,hlist1⟩ := hd.here s hs
      rw [hs'] at hs1
      cases hs1
      exact ⟨s0,hs0,hinv1,hsize1.trans hsize,by rw [hlist1,hlist,freedIn_cons_self]⟩
    · rw [hd.others j hj] at hs'
      obtain ⟨s0,hs0,hinv,hsize,hlist⟩ := h.here j s' hs'
      exact ⟨s0,hs0,hinv,hsize,by rw [hlist,freedIn_cons_of_ne (Ne.symm hj)]⟩
  · intro j hj
    have hji : j ≠ i := fun he => hj w hw (hi.trans he.symm)
    exact (hd.others j hji).trans (h.rest j hj)

def Inside (bins : List DimBin) (w : SlotWord) : Prop :=
  ∃ s, bins[w.1.1]? = some s ∧ w.1.2 < s.keyFileSize

theorem BinsScanned.bin (h : BinsScanned bins done freed db)
    (hw : Inside bins w) : ∃ s, db.bins[w.1.1]? = some s ∧ KeysInv s ∧ w.1.2 < s.keyFileSize := by
  obtain ⟨s0,hs0,hlt⟩ := hw
  obtain ⟨s,hs⟩ := same_length_bin h.length hs0
  obtain ⟨s1,hs1,hinv,hsize,_⟩ := h.here _ s hs
  rw [hs0] at hs1
  cases hs1
  exact ⟨s,hs,hinv,by omega⟩

end Bins

/-- The loops of `rebuild_index_from_keys` between the words `done` and `words`: index and free
lists are those of the scan. -/
structure Scanning (grows : Prop) (bins : List DimBin) (done words : List SlotWord) (st : State UInt64 Nat)
    (db : GravelDB) : Prop where
  copes : Copes grows db.index st.owner words
  freed : BinsScanned bins done st.freed db
  tidy : Tidy done st
  inside : ∀ w ∈ done ++ words, Inside bins w
  nodup : ((words.reverse ++ done).map Prod.fst).Nodup

section Loops

variable {bins : List DimBin} {done words : List SlotWord} {st : State UInt64 Nat} {db : GravelDB}
  {w : SlotWord} {i e : Nat} {f : UInt64} {grows : Prop}

theorem nodup_split (h : (((w :: words).reverse ++ done).map Prod.fst).Nodup) :
    (done.map Prod.fst).Nodup ∧ w.1 ∉ done.map Prod.fst ∧
      ((words.reverse ++ w :: done).map Prod.fst).Nodup := by
  have heq : (w :: words).reverse ++ done = words.reverse ++ w :: done := by simp
  rw [heq] at h
  have hcons : ((w :: done).map Prod.fst).Nodup := by
    rw [map_append] at h
    exact List.Nodup.of_append_right h
  obtain ⟨hnew,hdone⟩ := nodup_cons.mp hcons
  exact ⟨hdone,hnew,h⟩

theorem Scanning.next {db' : GravelDB} (h : Scanning grows bins done (w :: words) st db)
    (hcopes : Copes grows db'.index (scan st w).owner words)
    (hfreed : BinsScanned bins (w :: done) (scan st w).freed db') :
    Scanning grows bins (w :: done) words (scan st w) db' := by
  obtain ⟨hdone,hnew,hnd⟩ := nodup_split h.nodup
  refine ⟨hcopes,hfreed,h.tidy.scan hdone hnew,fun x hx => h.inside x ?_,hnd⟩
  simp only [mem_append,mem_cons] at hx ⊢
  tauto

theorem rebuildEntry_zero (h : Scanning grows bins done (((i,e),none) :: words) st db) :
    ∃ db', rebuildEntry db i e 0 = some db' ∧
      Scanning grows bins (((i,e),none) :: done) words (scan st ((i,e),none)) db' := by
  obtain ⟨s,hs,hinv,hlt⟩ := h.freed.bin (h.inside ((i,e),none) (by simp))
  obtain ⟨db',hfree,hd⟩ := freeIn_frees hs hinv hlt
  refine ⟨db',by simp only [rebuildEntry,if_true]; exact hfree,h.next ?_ ?_⟩
  · rw [hd.index]
    exact h.copes.skip
  · exact (h.freed.cons _).free hd mem_cons_self rfl

theorem rebuildEntry_put (hf : f ≠ 0) (h : Scanning grows bins done (((i,e),some f) :: words) st db)
    (hown : ∀ u ∈ st.owner f, u.1 = i) :
    ∃ db', rebuildEntry db i e f = some db' ∧
      Scanning grows bins (((i,e),some f) :: done) words (scan st ((i,e),some f)) db' := by
  cases ho : st.owner f with
  | none =>
    obtain ⟨idx1,idx2,hget,hput,hcopes⟩ := h.copes.take hf ho
    refine ⟨{ db with index := idx2 },?_,h.next ?_ ?_⟩
    · simp only [rebuildEntry,if_neg hf,hget,hput,bind_eq_bind,bind_some]
      rfl
    · simpa only [scan,ho,contest] using hcopes
    · simpa only [scan,ho,contest] using (h.freed.cons _).index idx2
  | some u =>
    have hu : u.1 = i := hown u (by rw [ho]; rfl)
    obtain ⟨hget,hsettled⟩ := h.copes.again hf ho
    obtain ⟨idx2,hput,hs⟩ := hsettled.put hf i e
    refine ⟨{ db with index := idx2 },?_,h.next ?_ ?_⟩
    · simp only [rebuildEntry,if_neg hf,hget,hput,hu,bind_eq_bind,bind_some,ne_eq,
        not_true_eq_false,if_false]
      rfl
    · simpa only [scan,ho,contest,if_pos hu] using .inl hs
    · simpa only [scan,ho,contest,if_pos hu] using (h.freed.cons _).index idx2

theorem rebuildEntry_clash {u : Nat × Nat} (hf : f ≠ 0)
    (h : Scanning grows bins done (((i,e),some f) :: words) st db) (ho : st.owner f = some u)
    (hne : u.1 ≠ i) :
    ∃ db', rebuildEntry db i e f = some db' ∧
      Scanning grows bins (((i,e),some f) :: done) words (scan st ((i,e),some f)) db' := by
  obtain ⟨hget,hsettled⟩ := h.copes.again hf ho
  obtain ⟨hmem,_⟩ := h.tidy.owned f u ho
  obtain ⟨s,hs,hinv,hlt⟩ := h.freed.bin (h.inside _ (mem_append_left _ hmem))
  obtain ⟨db1,hfree1,hd1⟩ := discardKey_frees hs hinv hlt
  have hb1 := (h.freed.cons ((i,e),some f)).free hd1 (mem_cons_of_mem _ hmem) rfl
  obtain ⟨idx2,rc,hremove,hs2⟩ := hsettled.remove hf
  obtain ⟨s',hs',hinv',hlt'⟩ := (hb1.index idx2).bin (h.inside ((i,e),some f) (by simp))
  obtain ⟨db2,hfree2,hd2⟩ := discardKey_frees hs' hinv' hlt'
  refine ⟨db2,?_,h.next ?_ ?_⟩
  · simp only [rebuildEntry,if_neg hf,hget,bind_eq_bind,bind_some,ne_eq,hne,
      not_false_eq_true,if_true,hfree1,hd1.index,hremove]
    exact hfree2
  · rw [hd2.index]
    simpa only [scan,ho,contest,if_neg hne] using .inl hs2
  · simpa only [scan,ho,contest,if_neg hne] using (hb1.index idx2).free hd2 mem_cons_self rfl

theorem rebuildEntry_scans (h : Scanning grows bins done (slotWord i (e,f) :: words) st db) :
    ∃ db', rebuildEntry db i e f = some db' ∧
      Scanning grows bins (slotWord i (e,f) :: done) words (scan st (slotWord i (e,f))) db' := by
  by_cases hf : f = 0
  · subst hf
    exact rebuildEntry_zero h
  · have hw : slotWord i (e,f) = ((i,e),some f) := by simp [slotWord,hf]
    rw [hw] at h ⊢
    cases ho : st.owner f with
    | none => exact rebuildEntry_put hf h (by simp [ho])
    | some u =>
      by_cases hu : u.1 = i
      · exact rebuildEntry_put hf h (by simp [ho,hu])
      · exact rebuildEntry_clash hf h ho hu

theorem rebuildEntries_scans (l : List (Nat × UInt64)) :
    ∀ (done : List SlotWord) (st : State UInt64 Nat) (db : GravelDB),
    Scanning grows bins done (l.map (slotWord i) ++ words) st db →
    ∃ db', rebuildEntries db i l = some db' ∧
      Scanning grows bins ((l.map (slotWord i)).reverse ++ done) words
        ((l.map (slotWord i)).foldl scan st) db' := by
  induction l with
  | nil =>
    intro done st db h
    exact ⟨db,rfl,h⟩
  | cons kv rest ih =>
    intro done st db h
    obtain ⟨e,f⟩ := kv
    obtain ⟨db1,hentry,h1⟩ := rebuildEntry_scans h
    obtain ⟨db2,hrest,h2⟩ := ih _ _ db1 h1
    refine ⟨db2,?_,?_⟩
    · simp only [rebuildEntries,hentry,bind_eq_bind,bind_some]
      exact hrest
    · simpa using h2

def binWords (rd : Nat → Option Nat) (bins : List DimBin) (i : Nat) : List SlotWord :=
  ((bins[i]?).elim [] (fun s => keysRead s (rd i))).map (slotWord i)

theorem keysRead_empty {s : DimBin} (h : s.bumpPtr = 0) (rd : Option Nat) : keysRead s rd = [] := by
  cases rd <;> simp [keysRead,readKeys,h]

theorem rebuildBinsFrom_scans (rd : Nat → Option Nat) (l : List Nat) :
    ∀ (done : List SlotWord) (st : State UInt64 Nat) (db : GravelDB), l.Nodup →
    (∀ i ∈ l, i < bins.length) → (∀ i ∈ l, ∀ w ∈ done, w.1.1 ≠ i) →
    Scanning grows bins done (l.flatMap (binWords rd bins)) st db →
    ∃ db', rebuildBinsFrom rd db l = some db' ∧
      Scanning grows bins ((l.flatMap (binWords rd bins)).reverse ++ done) []
        ((l.flatMap (binWords rd bins)).foldl scan st) db' := by
  induction l with
  | nil =>
    intro done st db _ _ _ h
    exact ⟨db,rfl,h⟩
  | cons i rest ih =>
    intro done st db hnd hlen hnew h
    obtain ⟨hnot,hnd⟩ := nodup_cons.mp hnd
    have hi := hlen i mem_cons_self
    obtain ⟨s,hs⟩ : ∃ s, bins[i]? = some s := ⟨_,getElem?_eq_getElem hi⟩
    have hsame : db.bins[i]? = some s := (h.freed.rest i (hnew i mem_cons_self)).trans hs
    have hwords : binWords rd bins i = (keysRead s (rd i)).map (slotWord i) := by
      simp [binWords,hs]
    rw [flatMap_cons,hwords] at h
    obtain ⟨db1,hentries,h1⟩ := rebuildEntries_scans (keysRead s (rd i)) done st db h
    have hnew1 : ∀ j ∈ rest, ∀ w ∈ ((keysRead s (rd i)).map (slotWord i)).reverse ++ done,
        w.1.1 ≠ j := by
      intro j hj w hw
      rcases mem_append.mp hw with hw | hw
      · obtain ⟨kv,_,rfl⟩ := List.mem_map.mp (mem_reverse.mp hw)
        have hij : (slotWord i kv).1.1 = i := rfl
        exact fun he => hnot (hij.symm.trans he ▸ hj)
      · exact hnew j (mem_cons_of_mem _ hj) w hw
    obtain ⟨db2,hrest,h2⟩ := ih _ _ db1 hnd (fun j hj => hlen j (mem_cons_of_mem _ hj)) hnew1 h1
    refine ⟨db2,?_,?_⟩
    · simp only [rebuildBinsFrom,hsame,bind_eq_bind,bind_some]
      split_ifs with hb
      · rw [keysRead_empty hb] at hentries
        cases hentries
        exact hrest
      · rw [hentries]
        exact hrest
    · rw [flatMap_cons,hwords]
      simpa using h2

end Loops

def OpenedBin (s : DimBin) : Prop :=
  ∃ g size data keys budget bin, dimbinInit g size data keys = some bin ∧
    s = { bin with overlayBudget := budget }

/-- What `pread` may return for the key array of a bin: at most the bytes that were asked for, and
never more than Linux transfers in one call. -/
def LegalReads (rd : Nat → Option Nat) (bins : List DimBin) : Prop :=
  ∀ (i : Nat) s n, bins[i]? = some s → rd i = some n → n ≤ 8 * s.bumpPtr ∧ n ≤ 0x7ffff000

def storedWords (bins : List DimBin) : List SlotWord :=
  (List.range bins.length).flatMap
    (fun i => ((bins[i]?).elim [] readKeys).map (slotWord i))

def HeldElsewhere (db : GravelDB) (i : Nat) (f : UInt64) : Prop :=
  ∃ j, j ≠ i ∧ ∃ s, db.bins[j]? = some s ∧ ∃ e < s.bumpPtr, s.keys.cell e = f

/-- Every word below a bump pointer has an effect: an id is looked up at its slot, or was
discarded because another bin has it, and an empty slot is on the free list exactly once. -/
def RebuildComplete (db db' : GravelDB) : Prop :=
  ∀ (i : Nat) s, db.bins[i]? = some s → ∀ e < s.bumpPtr, ∃ s', db'.bins[i]? = some s' ∧
    (s.keys.cell e = 0 → s'.freeList.count e = 1) ∧
    (s.keys.cell e ≠ 0 → indexMap db'.index (s.keys.cell e) = some (i,e) ∨
      (s'.freeList.count e = 1 ∧ HeldElsewhere db i (s.keys.cell e)))

/-- The index does not begin to grow while it takes the words. -/
def IndexCalm (capacity : Nat) (words : List SlotWord) : Prop :=
  words.length * 10 ≤ capacity * 7 ∧ ∀ c < words.length, hashLayout.crowded c capacity = false

/-- The index does not grow while it takes the words, or it grows within the range of its load test
and no id comes twice. -/
def IndexFits (capacity : Nat) (words : List SlotWord) : Prop :=
  IndexCalm capacity words ∨
  (capacity ≤ 2 ^ 28 ∧ words.length * 10 ≤ 2 ^ 28 * 7 ∧ (words.filterMap Prod.snd).Nodup)

section Complete

variable {bins : List DimBin} {rd : Nat → Option Nat} {db db' : GravelDB} {idx : HashIndex}
  {s : DimBin} {n i : Nat} {grows : Prop}

theorem OpenedBin.facts (h : OpenedBin s) : KeysInv s ∧
    s.keyFileSize = s.keys.size ∧ s.bumpPtr ≤ s.keys.size ∧ s.freeList = [] := by
  obtain ⟨g,size,data,keys,budget,bin,hinit,rfl⟩ := h
  obtain ⟨hinv,hkeys,hsize,_,_,_,hbump,_⟩ := init_keys hinit
  refine ⟨hinv.congr rfl rfl rfl,?_,?_,?_⟩
  · show bin.keyFileSize = bin.keys.size
    rw [hkeys,hsize]
  · show bin.bumpPtr ≤ bin.keys.size
    rw [hkeys,hbump]
    exact Nat.min_le_left _ _
  · obtain ⟨cap,_,hbin⟩ := bind_eq_some_iff.mp hinit
    cases hbin
    rfl

theorem OpenedBin.of_open {dir : DataDir} {dim size : Nat} {align ps : UInt32} {budget : Nat}
    (h : openBin dir dim size align ps budget = some s) : OpenedBin s := by
  obtain ⟨g,_,h⟩ := bind_eq_some_iff.mp h
  obtain ⟨bin,hinit,h⟩ := bind_eq_some_iff.mp h
  exact ⟨g,_,_,_,_,bin,hinit,(Option.some.inj h).symm⟩

theorem flatMap_sublist {α β : Type} {f g : α → List β} (l : List α)
    (h : ∀ a ∈ l, (f a).Sublist (g a)) : (l.flatMap f).Sublist (l.flatMap g) := by
  induction l with
  | nil => exact List.Sublist.refl _
  | cons a rest ih =>
    rw [flatMap_cons,flatMap_cons]
    exact (h a mem_cons_self).append (ih fun b hb => h b (mem_cons_of_mem _ hb))

theorem keysRead_sublist (s : DimBin) (rd : Option Nat) : (keysRead s rd).Sublist (readKeys s) := by
  cases rd with
  | none => exact nil_sublist _
  | some n => exact take_sublist _ _

def scannedWords (rd : Nat → Option Nat) (bins : List DimBin) : List SlotWord :=
  (List.range bins.length).flatMap (binWords rd bins)

theorem scanned_sublist (rd : Nat → Option Nat) (bins : List DimBin) :
    (scannedWords rd bins).Sublist (storedWords bins) := by
  refine flatMap_sublist _ fun i _ => List.Sublist.map _ ?_
  cases bins[i]? with
  | none => exact List.Sublist.refl _
  | some s => exact keysRead_sublist s (rd i)

theorem mem_storedWords (hopen : ∀ s ∈ bins, OpenedBin s) {w : SlotWord} :
    w ∈ storedWords bins ↔ ∃ (i : Nat) (s : DimBin), bins[i]? = some s ∧ ∃ e < s.bumpPtr,
      w = slotWord i (e,s.keys.cell e) := by
  simp only [storedWords,mem_flatMap,mem_range,List.mem_map]
  constructor
  · rintro ⟨i,hi,kv,hkv,rfl⟩
    obtain ⟨s,hs⟩ : ∃ s, bins[i]? = some s := ⟨_,getElem?_eq_getElem hi⟩
    rw [hs] at hkv
    obtain ⟨e,he,rfl⟩ := List.mem_map.mp hkv
    exact ⟨i,s,hs,e,Nat.lt_of_lt_of_le (mem_range.mp he) (Nat.min_le_left _ _),rfl⟩
  · rintro ⟨i,s,hs,e,he,rfl⟩
    have hbump := (hopen s (mem_of_getElem? hs)).facts.2.2.1
    refine ⟨i,(List.getElem?_eq_some_iff.mp hs).1,(e,s.keys.cell e),?_,rfl⟩
    rw [hs]
    exact List.mem_map.mpr ⟨e,mem_range.mpr (by omega),rfl⟩

theorem storedWords_nodup (bins : List DimBin) : ((storedWords bins).map Prod.fst).Nodup := by
  have hfst : (storedWords bins).map Prod.fst = (List.range bins.length).flatMap
      (fun i => (((bins[i]?).elim [] readKeys).map Prod.fst).map (fun e => (i,e))) := by
    simp only [storedWords,map_flatMap,List.map_map]
    rfl
  rw [hfst,nodup_flatMap]
  refine ⟨fun i _ => ?_,nodup_range.imp fun hij => ?_⟩
  · refine List.Nodup.map (fun a b hab => (Prod.mk.inj hab).2) ?_
    cases bins[i]? with
    | none => exact nodup_nil
    | some s =>
      have : (readKeys s).map Prod.fst = List.range (min s.bumpPtr s.keys.size) := by
        simp [readKeys,comp_def]
      simp only [elim_some,this]
      exact nodup_range
  · intro v hv hv'
    obtain ⟨e,_,rfl⟩ := List.mem_map.mp hv
    obtain ⟨e',_,he⟩ := List.mem_map.mp hv'
    exact hij (Prod.mk.inj he).1.symm

theorem IndexFits.copes {words words' : List SlotWord} (h : IndexFits idx.capacity words)
    (hidx : hashIndexInit n = some idx)
    (hsub : words'.Sublist words) :
    Copes (¬ IndexCalm idx.capacity words) idx (empty : State UInt64 Nat).owner words' := by
  have hlen := hsub.length_le
  have hzero := (init_rep hidx).2
  by_cases hc : IndexCalm idx.capacity words
  · obtain ⟨hload,hcalm⟩ := hc
    exact .inl ⟨Still.init hidx,by omega,fun c hc => hcalm c (by omega)⟩
  · obtain ⟨hcap,hload,hnd⟩ := h.resolve_left hc
    exact .inr ⟨hc,(init_rep hidx).1,hcap,by omega,fun _ _ => rfl,(hsub.filterMap _).nodup hnd⟩

theorem scanning_start (rd : Nat → Option Nat) (hidx : hashIndexInit n = some db.index)
    (hopen : ∀ s ∈ db.bins, OpenedBin s)
    (hfits : IndexFits db.index.capacity (storedWords db.bins)) :
    Scanning (¬ IndexCalm db.index.capacity (storedWords db.bins)) db.bins []
      (scannedWords rd db.bins) empty db := by
  have hsub := scanned_sublist rd db.bins
  refine ⟨hfits.copes hidx hsub,⟨rfl,?_,fun _ _ => rfl⟩,tidy_empty,?_,?_⟩
  · intro i s hs
    obtain ⟨hinv,_,_,hfree⟩ := (hopen s (mem_of_getElem? hs)).facts
    exact ⟨s,hs,hinv,rfl,hfree⟩
  · intro w hw
    obtain ⟨i,s,hs,e,he,rfl⟩ := (mem_storedWords hopen).mp (hsub.subset hw)
    obtain ⟨_,hsize,hbump,_⟩ := (hopen s (mem_of_getElem? hs)).facts
    exact ⟨s,hs,by rw [hsize]; exact Nat.lt_of_lt_of_le he hbump⟩
  · rw [append_nil,map_reverse,nodup_reverse]
    exact (hsub.map _).nodup (storedWords_nodup db.bins)

theorem contested_iff (hopen : ∀ s ∈ db.bins, OpenedBin s) {e : Nat} {f : UInt64} (hf : f ≠ 0) :
    Contested (storedWords db.bins) (i,e) f ↔ HeldElsewhere db i f := by
  constructor
  · rintro ⟨u,hu,hne⟩
    obtain ⟨j,s,hs,e',he',hw⟩ := (mem_storedWords hopen).mp hu
    obtain ⟨rfl,hword⟩ := Prod.mk.inj hw
    refine ⟨j,hne,s,hs,e',he',?_⟩
    split_ifs at hword
    exact (Option.some.inj hword).symm
  · rintro ⟨j,hne,s,hs,e',he',rfl⟩
    refine ⟨(j,e'),(mem_storedWords hopen).mpr ⟨j,s,hs,e',he',?_⟩,hne⟩
    simp [slotWord,hf]

/-- The lookup differs from the scan's owner in the hidden ids only, and a slot whose id is hidden
is neither found nor free. -/
theorem complete_iff_kept {done : List SlotWord} {st : State UInt64 Nat}
    (hopen : ∀ s ∈ db.bins, OpenedBin s) (h : Scanning grows db.bins done [] st db')
    (hdone : ∀ w ∈ done, w ∈ storedWords db.bins) :
    RebuildComplete db db' ↔ (∀ w ∈ storedWords db.bins, Kept (storedWords db.bins) st w) ∧
      ∀ f, ¬ Hidden hashLayout db'.index f := by
  have hcount : ∀ (i : Nat) s' e, db'.bins[i]? = some s' →
      (s'.freeList.count e = 1 ↔ (i,e) ∈ st.freed) := by
    intro i s' e hs'
    obtain ⟨_,_,_,_,hlist⟩ := h.freed.here i s' hs'
    rw [hlist,← mem_freedIn]
    constructor
    · intro hone
      exact count_pos_iff.mp (by omega)
    · exact count_eq_one_of_mem (freedIn_nodup h.tidy.nodup)
  have hindexed : ∀ f, indexMap db'.index f =
      if Hidden hashLayout db'.index f then none else st.owner f := indexMap_eq h.copes.rep
  have hslot : ∀ (i : Nat) s' e f, db'.bins[i]? = some s' →
      (Kept (storedWords db.bins) st (slotWord i (e,f)) ↔
        (f = 0 → s'.freeList.count e = 1) ∧ (f ≠ 0 → st.owner f = some (i,e) ∨
          (s'.freeList.count e = 1 ∧ HeldElsewhere db i f))) := by
    intro i s' e f hs'
    rw [hcount i s' e hs']
    by_cases hf : f = 0
    · simp [hf,slotWord,Kept]
    · rw [← contested_iff (e := e) hopen hf]
      simp [hf,slotWord,Kept]
  constructor
  · intro hc
    refine ⟨fun w hw => ?_,fun f hh => ?_⟩
    · obtain ⟨i,s,hs,e,he,rfl⟩ := (mem_storedWords hopen).mp hw
      obtain ⟨s',hs',hzero,hid⟩ := hc i s hs e he
      refine (hslot i s' e _ hs').mpr ⟨hzero,fun hf => (hid hf).imp_left fun hfound => ?_⟩
      rw [hindexed] at hfound
      split_ifs at hfound
      exact hfound
    · cases ho : st.owner f with
      | none => exact not_hidden_of_absent h.copes.rep ho hh
      | some u =>
        obtain ⟨hmem,hfree⟩ := h.tidy.owned f u ho
        obtain ⟨i,s,hs,e,he,hw⟩ := (mem_storedWords hopen).mp (hdone _ hmem)
        obtain ⟨rfl,hword⟩ := Prod.mk.inj hw
        have hne : s.keys.cell e ≠ 0 := fun h0 => by simp [h0] at hword
        have hcell : f = s.keys.cell e := by simpa [hne] using hword
        obtain ⟨s',hs',_,hid⟩ := hc i s hs e he
        rcases hid hne with hfound | ⟨hone,_⟩
        · rw [← hcell,hindexed,if_pos hh] at hfound
          cases hfound
        · exact hfree ((hcount i s' e hs').mp hone)
  · rintro ⟨hkept,hseen⟩ i s hs e he
    obtain ⟨s',hs'⟩ := same_length_bin h.freed.length hs
    refine ⟨s',hs',?_⟩
    rw [hindexed,if_neg (hseen _)]
    exact (hslot i s' e _ hs').mp (hkept _ ((mem_storedWords hopen).mpr ⟨i,s,hs,e,he,rfl⟩))

theorem scanned_whole
    (hread : ∀ (i : Nat) s, bins[i]? = some s → 0 < s.bumpPtr → rd i = some (8 * s.bumpPtr)) :
    scannedWords rd bins = storedWords bins := by
  refine flatMap_congr fun i _ => congrArg (List.map (slotWord i)) ?_
  cases hs : bins[i]? with
  | none => rfl
  | some s =>
    simp only [elim_some]
    by_cases hb : s.bumpPtr = 0
    · rw [keysRead_empty hb]
      simp [readKeys,hb]
    · rw [hread i s hs (by omega)]
      refine take_of_length_le ?_
      have hlen : (readKeys s).length = min s.bumpPtr s.keys.size := by simp [readKeys]
      omega

theorem last_unscanned (hlegal : LegalReads rd bins) (hs : bins[i]? = some s) (hb : 0 < s.bumpPtr)
    (hrd : rd i ≠ some (8 * s.bumpPtr)) :
    (i,s.bumpPtr - 1) ∉ (scannedWords rd bins).map Prod.fst := by
  intro hmem
  obtain ⟨w,hw,heq⟩ := List.mem_map.mp hmem
  obtain ⟨j,_,hw⟩ := mem_flatMap.mp hw
  obtain ⟨kv,hkv,rfl⟩ := List.mem_map.mp hw
  obtain ⟨rfl,hlast⟩ := Prod.mk.inj heq
  rw [hs,elim_some] at hkv
  cases hr : rd j with
  | none =>
    rw [hr] at hkv
    cases hkv
  | some n =>
    have hle := (hlegal j s n hs hr).1
    have hlt : n / 8 < s.bumpPtr := by
      have : n ≠ 8 * s.bumpPtr := fun he => hrd (he ▸ hr)
      omega
    simp only [hr,keysRead,readKeys,← map_take,take_range] at hkv
    obtain ⟨e,he,rfl⟩ := List.mem_map.mp hkv
    have := mem_range.mp he
    simp only at hlast
    omega

end Complete

def twoKeysDir : DataDir :=
  { emptyDir 4096 with bins := fun _ =>
      ⟨File.empty.extend 4096,File.empty.write 0 2 (fun i => if i = 0 then 1 else 2)⟩ }

def twoKeysBin : DimBin := (openBin twoKeysDir 1 64 4 16 0).get (by decide +kernel)

def twoKeysStore : GravelDB := { smallStore with bins := [twoKeysBin] }

theorem twoKeys_opened : ∀ s ∈ twoKeysStore.bins, OpenedBin s := by
  intro s hs
  obtain rfl := mem_singleton.mp hs
  exact .of_open (some_get _).symm

theorem twoKeys_index : hashIndexInit 16 = some twoKeysStore.index := by
  obtain ⟨index,hindex,_,_,heq⟩ := open_empty
    (show graveldbOpen smallConfig (emptyDir 4096) = some smallStore from (some_get _).symm)
  rw [show twoKeysStore.index = index by rw [twoKeysStore,heq]; rfl]
  exact hindex

theorem twoKeys_words : storedWords twoKeysStore.bins = [((0,0),some 1),((0,1),some 2)] := by
  decide +kernel

/-- The ids 6 to 29, which make an index of 32 slots grow. -/
def crowdedBin : DimBin := (openBin { emptyDir 4096 with bins := fun _ =>
  ⟨File.empty.extend 4096,File.empty.write 0 24 (fun i => UInt64.ofNat (i + 6))⟩ } 1 64 4 16 0).get
    (by decide +kernel)

def crowdedStore : GravelDB :=
  { smallStore with bins := [crowdedBin], index := (hashIndexInit 32).get (by decide +kernel) }

theorem lost_id_incomplete {db db' : GravelDB} {s : DimBin} {e : Nat} (hbins : db.bins = [s])
    (he : e < s.bumpPtr) (hne : s.keys.cell e ≠ 0)
    (hlost : indexMap db'.index (s.keys.cell e) = none) : ¬ RebuildComplete db db' := by
  intro hc
  obtain ⟨_,_,_,hid⟩ := hc 0 s (by rw [hbins]; rfl) e he
  rcases hid hne with hin | ⟨_,j,hj,s',hs',_⟩
  · cases hlost.symm.trans hin
  · rw [hbins,getElem?_singleton,if_neg hj] at hs'
    cases hs'

end Gravel.Proofs.ShortReads
