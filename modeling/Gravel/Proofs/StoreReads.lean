import Gravel.Proofs.BatchGet
import Gravel.Proofs.StoreBatches

namespace Gravel.Proofs.StoreRefinement
open File PageBytes PutPage PutBatch HashIndex OverlayMap BinEntries Lookups BatchGet Slots Spec Rehash
  List Option

/-- The part of a result that is an answer: the dim, and the vector of that dim. -/
def reading (res : GetResult) : Nat × List UInt8 :=
  (res.dim,(List.range (res.dim * 4)).map res.out)

def lookup (db : GravelDB) (junk out : Nat → UInt8) (f : UInt64) : Option (Nat × List UInt8) := do
  let (_,results) ← graveldbBatchGet db junk [⟨f,some out⟩]
  let res ← results.head?
  return reading res

def reply (st : VectorStore) (f : UInt64) : Nat × List UInt8 :=
  match st.vectors f with
  | none => (0,[])
  | some (dim,v) => (dim,(List.range (dim * 4)).map v)

section Reads

variable {lost : UInt64 → Prop} {db : GravelDB} {st : VectorStore} {i e : Nat} {s : DimBin}
  {f : UInt64} {junk out : Nat → UInt8}

theorem reading_eq {res : GetResult} {dim : Nat} {v : Nat → UInt8} (hdim : res.dim = dim)
    (hout : ∀ i < dim * 4, res.out i = v i) : reading res = (dim,(List.range (dim * 4)).map v) := by
  subst hdim
  unfold reading
  refine congrArg _ (map_congr_left fun i hi => hout i (mem_range.mp hi))

theorem lookup_eq (hs : Settled db) {res : GetResult} {read : Option (Nat × Nat)}
    (h : answer db ⟨f,some out⟩ = some (res,read)) :
    lookup db junk out f = some (reading (finished db junk res read)) := by
  obtain ⟨db',hget⟩ := batchGet_single hs h junk
  simp [lookup,hget]

theorem StoreRep.settled (h : Settles lost db st) (hall : ∀ s ∈ db.bins, Legible s) : Settled db :=
  settled_still h.slots.index.old fun s hs => (hall s hs).calm

theorem Legible.visible (h : Legible s) (e : Nat) : OverlayVisible s e := by
  intro hck
  have hold := h.calm hck
  have hvis : ∀ t : Table OverlaySlot, t.old = none → ¬ Hidden overlayLayout t e := by
    rintro t ht ⟨o,ho,_⟩
    rw [ht] at ho
    cases ho
  refine ⟨hvis _ hold,fun overlay held hget => hvis _ ?_⟩
  obtain ⟨table,hm,rfl⟩ := overlayContains_migrates hget
  rw [migrates_still hold hm]
  exact hold

theorem StoreRep.indexed (h : Settles lost db st) (hf : indexMap db.index f = some (i,e)) :
    hashIndexGet db.index f = some (db.index,some (i,e)) := by
  have hne : f ≠ 0 := by
    rintro rfl
    rw [h.slots.index.tracks.rep.zero] at hf
    cases hf
  rw [h.slots.index.get hne,hf]

theorem served_zeroed (hs : Legible s) (hfits : s.geom.entrySize ≤ s.geom.pageSize)
    (hbin : db.bins[i]? = some s) (hb : bufferedPage s.writeBuf (s.geom.pageOf e) = none) :
    reading (finished db (fun _ => 0) ⟨s.geom.dim,fun _ => 0⟩ (some (i,e))) =
      (s.geom.dim,(List.range (s.geom.dim * 4)).map (entryByte s e)) := by
  refine reading_eq (by simp [finished,served,hbin]) fun j hj => ?_
  have hlt : j < s.geom.entrySize := Nat.lt_of_lt_of_le hj s.geom.vector_le
  have hbyte : entryByte s e j =
      s.data.cell (s.geom.pageOf e * s.geom.pageSize + (s.geom.offsetInPage e + j)) := by
    rw [entryByte,pageBytes,pageView,hb]
    rfl
  simp only [finished,served,hbin,true_and]
  split_ifs with hone
  · have hpage : s.geom.pageOf e = e := by rw [Geometry.pageOf,hone,Nat.div_one]
    have hoff : s.geom.offsetInPage e = 0 := by
      rw [Geometry.offsetInPage,hone,Nat.mod_one,Nat.zero_mul]
    rw [directRead,read_zeroed hlt,hbyte,hpage,hoff,Nat.zero_add,hs.plain hone]
  · rw [pageRead]
    simp only [copyBytes,hlt,if_true]
    rw [read_zeroed (offset_lt hfits hlt),hbyte]

theorem StoreRep.lookup (h : Settles lost db st) (hall : ∀ s ∈ db.bins, Legible s) (hf : ¬ lost f)
    (junk out : Nat → UInt8) : lookup db junk out f = some (reply st f) := by
  have hset := StoreRep.settled h hall
  cases hidx : indexMap db.index f with
  | none =>
    have hget : hashIndexGet db.index f = some (db.index,none) := by
      by_cases hne : f = 0
      · rw [hashIndexGet,if_pos hne]
      · rw [h.slots.index.get hne,hidx]
    have hans : answer db ⟨f,some out⟩ = some (⟨0,out⟩,none) := by
      simp [answer,resolveGet,hget]
    rw [lookup_eq hset hans,reply,h.absent f hidx]
    rfl
  | some v =>
    obtain ⟨i,e⟩ := v
    have hget := StoreRep.indexed h hidx
    obtain ⟨s,hbin⟩ : ∃ s, db.bins[i]? = some s :=
      ⟨_,getElem?_eq_getElem (h.slots.placed f i e hidx)⟩
    have hs := hall s (mem_of_getElem? hbin)
    obtain ⟨m,L,hrep,hL⟩ := (h.bins i s hbin).rep
    obtain ⟨v,hv,hLe⟩ := hL f e hidx
    have hlive : L e = some v := by simpa [lastWrite] using hLe hf
    obtain ⟨t,r,hread,-,hdim,hfound⟩ := hrep.readEntry hlive (hs.visible e) out
    have hans : answer db ⟨f,some out⟩ = some (r.result,r.read.map (fun x => (i,x))) := by
      simp [answer,resolveGet,hget,hbin,hread]
    rw [lookup_eq hset hans,reply,hv]
    refine congrArg some (reading_eq ?_ ?_)
    · cases r.read with
      | none => exact hdim
      | some x => simp [finished,served,hbin,hdim]
    · intro j hj
      cases hr : r.read with
      | none =>
        rw [hr] at hfound
        exact hfound j hj
      | some x =>
        rw [hr] at hfound
        obtain ⟨rfl,hm,hb⟩ := hfound
        simp only [map_some,finished,served,hbin,true_and]
        split_ifs with hone
        · exact hrep.directRead hlive hm hb hone (fun h1 => .inl (hs.plain h1)) _ hj
        · exact hrep.pageRead hlive hm hb junk _ hj

theorem Stale.lookup {db' : GravelDB} (hst : Stale i s db' f) (h : Settles lost db' st)
    (hall : ∀ s ∈ db'.bins, Legible s) : ∃ e < 2 ^ 32 - 1,
      lookup db' (fun _ => 0) (fun _ => 0) f =
        some (s.geom.dim,(List.range (s.geom.dim * 4)).map (entryByte s e)) := by
  obtain ⟨s',e,hbin,hidx,hck,hmiss,hpages⟩ := hst
  have hset := StoreRep.settled h hall
  have hget := StoreRep.indexed h hidx
  have hs' := hall s' (mem_of_getElem? hbin)
  obtain ⟨m,L,hrep,-⟩ := (h.bins i s' hbin).rep
  have hown := owned_of_index (h.slots.bins i s' hbin) hidx
  have hsmall := hrep.small
  have hlt := hown.1
  have hbytes : entryByte s e = entryByte s' e := by
    funext j
    exact (entryByte_congr hpages.writeBuf hpages.geom hpages.cell e j).symm
  refine ⟨e,by omega,?_⟩
  rw [hbytes,← hpages.geom]
  have hcontains : (overlayContains s'.overlay e).map Prod.snd = some false := by
    obtain ⟨t,_,hc,_⟩ := get_rep (hrep.overlayRep hck) (hs'.visible e hck).1
    rw [overlayHolds,hc] at hmiss
    rw [hc]
    exact congrArg some hmiss
  have hlookup := lookup_eq_bufferedPage hrep.inv.buf.sound (hrep.page_ne hown)
  cases hb : bufferedPage s'.writeBuf (s'.geom.pageOf e) with
  | none =>
    rw [hb] at hlookup
    have hdisk : DiskMiss db' f i s' e := ⟨by rw [hget]; rfl,hbin,fun _ => hcontains,hlookup⟩
    rw [lookup_eq hset (hdisk.answer _),served_zeroed hs' hrep.fits hbin hb]
  | some buf =>
    rw [hb] at hlookup
    obtain ⟨⟨ob,held⟩,hc,hheld⟩ := map_eq_some_iff.mp hcontains
    cases hheld
    have hans : answer db' ⟨f,some fun _ => 0⟩ = some (⟨s'.geom.dim,copyBytes s'.geom.entrySize
        (fun j => buf.bytes (s'.geom.offsetInPage e + j)) (fun _ => 0)⟩,none) := by
      simp [answer,resolveGet,hget,hbin,Gravel.readEntry,hck,hc,Gravel.readBuffered,hlookup]
    rw [lookup_eq hset hans]
    refine congrArg some (reading_eq rfl fun j hj => ?_)
    have hlt : j < s'.geom.entrySize := Nat.lt_of_lt_of_le hj s'.geom.vector_le
    simp only [finished,copyBytes,hlt,if_true,entryByte,pageBytes,pageView,hb]

end Reads

end Gravel.Proofs.StoreRefinement
