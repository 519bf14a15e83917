import Gravel.Proofs.PageBytes
import Gravel.Proofs.FlushCleanup

namespace Gravel.Proofs.FlushPages
open File PageMap FlushCleanup PageBytes

/-- A write buffer of a bin between two operations; `next` is the next unused address. -/
structure BufInv (wb : WriteBuffer) (next : Nat) : Prop where
  sound : Sound wb
  limit : wb.count ≤ wb.maxPages
  positive : 0 < wb.maxPages
  roomy : 2 * wb.maxPages ≤ wb.capacity
  snug : wb.capacity ≤ max 64 (4 * wb.maxPages)
  fresh : ∀ a ∈ (heldBufs wb ++ wb.pagePool).map PageBuf.addr, a < next

structure Flush (pageSize : Nat) (pages : List Nat) (wb : WriteBuffer) (data : File UInt8)
    (wb' : WriteBuffer) (data' : File UInt8) : Prop where
  held : ∀ p ∈ pages, ∃ s ∈ liveSlots wb.capacity wb.slots, s.pageId = p
  written : PagesWritten pageSize (flushedBytes wb) pages data data'
  cleaned : Cleaned { wb with flushBytes := wb'.flushBytes } pages wb'
  lossless : wb.count ≤ pages.length ∨ ChainsClear wb pages →
    Lossless { wb with flushBytes := wb'.flushBytes } pages wb'

section Flush

variable {pageSize p i n next : Nat} {pages : List Nat} {wb wb' : WriteBuffer}
  {data data' : File UInt8} {limit : Nat}

theorem sound_flushBytes (h : Sound wb) : Sound { wb with flushBytes := n } :=
  ⟨h.pow,h.room,h.counted,h.found,h.owned⟩

theorem Flush.sound (h : Flush pageSize pages wb data wb' data') : Sound wb' := h.cleaned.sound

theorem Flush.count_le (h : Flush pageSize pages wb data wb' data') :
    wb'.count + pages.length ≤ wb.count := h.cleaned.shrunk

theorem Flush.bufInv (h : Flush pageSize pages wb data wb' data') (hi : BufInv wb next) :
    BufInv wb' next := by
  have hcount := h.count_le
  have hcap : wb'.capacity = wb.capacity := h.cleaned.capacity
  have hmax : wb'.maxPages = wb.maxPages := h.cleaned.maxPages
  refine ⟨h.sound,?_,?_,?_,?_,?_⟩
  · rw [hmax]
    have := hi.limit
    omega
  · rw [hmax]
    exact hi.positive
  · rw [hmax,hcap]
    exact hi.roomy
  · rw [hmax,hcap]
    exact hi.snug
  · intro a ha
    exact hi.fresh a (h.cleaned.addrs.subset ha)

theorem Flush.view (h : Flush pageSize pages wb data wb' data') (hs : Sound wb)
    (hl : wb.count ≤ pages.length ∨ ChainsClear wb pages) (hi : i < pageSize) :
    pageView pageSize wb' data' p i = pageView pageSize wb data p i := by
  have hlive := (h.lossless hl).live
  have hpage := h.written.page p i hi
  unfold pageView
  cases hb : bufferedPage wb p with
  | none =>
    have hnot : p ∉ pages := by
      intro hm
      obtain ⟨s,hsl,rfl⟩ := h.held p hm
      exact (bufferedPage_eq_none hs).mp hb s hsl rfl
    have hb' : bufferedPage wb' p = none := by
      rw [bufferedPage_eq_none h.sound]
      intro s hsl
      exact (bufferedPage_eq_none hs).mp hb s ((hlive s).mp hsl).1
    simp only [hb',hpage,if_neg hnot]
  | some buf =>
    have hmem := (bufferedPage_eq_some hs).mp hb
    by_cases hm : p ∈ pages
    · have hb' : bufferedPage wb' p = none := by
        rw [bufferedPage_eq_none h.sound]
        rintro s hsl rfl
        exact ((hlive s).mp hsl).2 hm
      simp only [hb',hpage,if_pos hm,flushedBytes,hb]
    · have hb' : bufferedPage wb' p = some buf :=
        (bufferedPage_eq_some h.sound).mpr ((hlive _).mpr ⟨hmem,hm⟩)
      simp only [hb']

theorem Flush.covered (h : Flush pageSize pages wb data wb' data') (hs : Sound wb)
    (hl : wb.count ≤ pages.length ∨ ChainsClear wb pages)
    (hp : (bufferedPage wb p).isSome ∨ p * pageSize + pageSize ≤ data.size) :
    (bufferedPage wb' p).isSome ∨ p * pageSize + pageSize ≤ data'.size := by
  rcases hp with hp | hp
  · by_cases hm : p ∈ pages
    · exact .inr (h.written.covers p hm)
    · obtain ⟨buf,hb⟩ := Option.isSome_iff_exists.mp hp
      have hmem := (bufferedPage_eq_some hs).mp hb
      have hb' := (bufferedPage_eq_some h.sound).mpr (((h.lossless hl).live _).mpr ⟨hmem,hm⟩)
      exact .inl (by rw [hb']; rfl)
  · exact .inr (Nat.le_trans hp h.written.size)

theorem collectPages_held (hp : p ∈ collectPages limit wb) :
    ∃ s ∈ liveSlots wb.capacity wb.slots, s.pageId = p := by
  obtain ⟨hne,i,hi,rfl⟩ := mem_collectPages hp
  exact ⟨wb.slots i,mem_liveSlots.mpr ⟨hne,i,hi,rfl⟩,rfl⟩

theorem Flush.refl (hs : Sound wb) : Flush pageSize [] wb data wb data :=
  ⟨by simp,.nil,⟨hs,rfl,rfl,rfl,fun _ h => h,by simp,List.Subperm.refl _⟩,
    fun _ => ⟨by simp,List.Perm.refl _⟩⟩

theorem flush_of_written (hs : Sound wb) (hp : pages.Perm (collectPages limit wb))
    (hw : PagesWritten pageSize (flushedBytes wb) pages data data') (n : Nat) :
    ∃ wb', flushCleanup true { wb with flushBytes := n } pages = some wb' ∧
      Flush pageSize pages wb data wb' data' := by
  have hs' := sound_flushBytes (n := n) hs
  obtain ⟨wb',hf,hc,hl⟩ := cleanup_cleaned hs' (batch_collect hs' hp)
  have hn : wb'.flushBytes = n := hc.flushBytes
  refine ⟨wb',hf,fun p hm => collectPages_held (hp.mem_iff.mp hm),hw,by rw [hn]; exact hc,?_⟩
  intro hor
  rw [hn]
  apply hl
  rcases hor with hle | hcl
  · have := batch_length hs hp
    exact .inl (by simp only; omega)
  · exact .inr hcl

end Flush

section DimbinFlush

variable {s : DimBin} {p i : Nat} {s' : DimBin} {wb : WriteBuffer}

theorem dimbinFlushKeys_eq (s : DimBin) :
    dimbinFlushKeys s = { s with
      keys := (dimbinFlushKeys s).keys, keyBuf := (dimbinFlushKeys s).keyBuf } := by
  unfold dimbinFlushKeys
  split_ifs <;> rfl

theorem dimbinFlushKeys_frame (s : DimBin) : (dimbinFlushKeys s).writeBuf = s.writeBuf ∧
    (dimbinFlushKeys s).data = s.data ∧ (dimbinFlushKeys s).geom = s.geom := by
  rw [dimbinFlushKeys_eq s]
  exact ⟨rfl,rfl,rfl⟩

def KeysFlushed (s s' : DimBin) : Prop :=
  (s'.keys = s.keys ∧ s'.keyBuf = s.keyBuf) ∨
    (s'.keys = (dimbinFlushKeys s).keys ∧ s'.keyBuf = (dimbinFlushKeys s).keyBuf)

theorem dimbinFlushKeys_idem (hb : s'.keyBuf = (dimbinFlushKeys s).keyBuf) :
    dimbinFlushKeys s' = s' := by
  have hc : s'.keyBuf.count = 0 := by
    rw [hb]
    unfold dimbinFlushKeys
    split_ifs with h
    · exact h
    · rfl
  rw [dimbinFlushKeys,if_pos hc]

theorem KeysFlushed.refl (s : DimBin) : KeysFlushed s s := .inl ⟨rfl,rfl⟩

theorem KeysFlushed.congr_flush (hk : s'.keys = s.keys) (hb : s'.keyBuf = s.keyBuf)
    (hf : s'.keyFileSize = s.keyFileSize) :
    (dimbinFlushKeys s').keys = (dimbinFlushKeys s).keys ∧
      (dimbinFlushKeys s').keyBuf = (dimbinFlushKeys s).keyBuf := by
  unfold dimbinFlushKeys
  rw [hb]
  split_ifs <;> simp [hk,hb,hf]

theorem KeysFlushed.trans {s'' : DimBin} (hf : s'.keyFileSize = s.keyFileSize)
    (h : KeysFlushed s s') (h' : KeysFlushed s' s'') : KeysFlushed s s'' := by
  rcases h with ⟨hk,hb⟩ | ⟨hk,hb⟩
  · have hc := KeysFlushed.congr_flush hk hb hf
    rcases h' with ⟨hk',hb'⟩ | ⟨hk',hb'⟩
    · exact .inl ⟨hk'.trans hk,hb'.trans hb⟩
    · exact .inr ⟨hk'.trans hc.1,hb'.trans hc.2⟩
  · rw [KeysFlushed,dimbinFlushKeys_idem hb,or_self] at h'
    exact .inr ⟨h'.1.trans hk,h'.2.trans hb⟩

/-- The batch of a flush holds every buffered page, or its clean-up keeps those it leaves. -/
def FlushSafe (wb : WriteBuffer) : Prop :=
  wb.count ≤ maxFlushBatch ∨ ChainsClear wb (dimbinFlushPages maxFlushBatch wb)

instance (wb : WriteBuffer) : Decidable (FlushSafe wb) :=
  inferInstanceAs (Decidable (_ ∨ _))

theorem flushPages_length (hs : Sound wb) :
    (dimbinFlushPages maxFlushBatch wb).length = min maxFlushBatch wb.count :=
  batch_length hs dimbinFlushPages_perm

theorem FlushSafe.lossless (hs : Sound wb) (hf : FlushSafe wb) :
    wb.count ≤ (dimbinFlushPages maxFlushBatch wb).length ∨
      ChainsClear wb (dimbinFlushPages maxFlushBatch wb) := by
  rcases hf with hle | hc
  · have := flushPages_length hs
    exact .inl (by omega)
  · exact .inr hc

theorem dimbinFlush_spec (hs : Sound s.writeBuf) :
    ∃ data wb, dimbinFlush s = some { dimbinFlushKeys s with
        flushNeeded := false, data := data, writeBuf := wb } ∧
      Flush s.geom.pageSize (dimbinFlushPages maxFlushBatch s.writeBuf) s.writeBuf s.data
        wb data := by
  have hperm : (dimbinFlushPages maxFlushBatch s.writeBuf).Perm
      (collectPages maxFlushBatch s.writeBuf) := dimbinFlushPages_perm
  have hlen := flushPages_length hs
  obtain ⟨hwb,hdata,hgeom⟩ := dimbinFlushKeys_frame s
  by_cases hempty : dimbinFlushPages maxFlushBatch s.writeBuf = []
  · refine ⟨s.data,s.writeBuf,?_,by rw [hempty]; exact .refl hs⟩
    simp only [dimbinFlush,hwb,hempty,if_true,ite_self,← hdata]
    rw [← hwb]
    rfl
  · have hcount : s.writeBuf.count ≠ 0 := by
      intro h0
      rw [h0,Nat.min_zero] at hlen
      exact hempty (List.eq_nil_of_length_eq_zero hlen)
    obtain ⟨hrun,hflat⟩ := writeChunks_spec (dimbinFlushPages maxFlushBatch s.writeBuf) []
      ⟨0,rfl⟩
    rw [List.reverse_nil,List.nil_append] at hflat
    obtain ⟨data,hplan,hw⟩ := writePlan_spec s.geom.pageSize hs _ s.data hrun
      (fun p hp => by
        rw [hflat] at hp
        exact collectPages_held (hperm.mem_iff.mp hp))
    rw [hflat] at hw
    obtain ⟨wb,hclean,hflush⟩ := flush_of_written hs hperm hw (s.writeBuf.flushBytes +
      (dimbinFlushPages maxFlushBatch s.writeBuf).length * s.geom.pageSize)
    refine ⟨data,wb,?_,hflush⟩
    simp only [dimbinFlush,hwb,hdata,hgeom,hcount,hempty,if_false,hplan,hclean,
      Option.bind_eq_bind,Option.bind_some]
    rfl

end DimbinFlush

end Gravel.Proofs.FlushPages
