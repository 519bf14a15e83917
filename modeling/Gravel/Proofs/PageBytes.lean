import Gravel.Model.PageIO
import Gravel.Proofs.PageMap

namespace Gravel.Proofs.PageBytes
open LinearProbe File PageMap List Option

def bufferedPage (wb : WriteBuffer) (p : Nat) : Option PageBuf :=
  if p = pageSlotEmpty then none
  else match pagemapFind wb.slots wb.capacity p with
    | none => none
    | some idx => if (wb.slots idx).pageId = p then some (wb.slots idx).data else none

/-- Content of a page seen through a write buffer over a data file. -/
def pageView (pageSize : Nat) (wb : WriteBuffer) (data : File UInt8) (p i : Nat) : UInt8 :=
  match bufferedPage wb p with
  | some buf => buf.bytes i
  | none => data.page pageSize p i

def pageBytes (s : DimBin) (p i : Nat) : UInt8 :=
  pageView s.geom.pageSize s.writeBuf s.data p i

/-- A page is buffered, or the data file holds all of it. -/
def Covered (s : DimBin) (p : Nat) : Prop :=
  (bufferedPage s.writeBuf p).isSome ∨ p * s.geom.pageSize + s.geom.pageSize ≤ s.data.size

section Lookup

variable {wb : WriteBuffer} {p i : Nat} {b : PageBuf}

theorem find_absent (h : Sound wb) (hp : p ≠ pageSlotEmpty)
    (ha : ∀ s ∈ liveSlots wb.capacity wb.slots, s.pageId ≠ p) :
    ∃ idx < wb.capacity, pagemapFind wb.slots wb.capacity p = some idx ∧
      (wb.slots idx).pageId = pageSlotEmpty ∧
      Reaches wb.capacity (pagemapHome wb.capacity) (pageAt wb.slots) p idx := by
  have hroom := h.room
  rw [h.counted] at hroom
  obtain ⟨j,hj,hn⟩ := exists_empty hroom
  obtain ⟨idx,hfind⟩ := probe_total (stopFor (pageAt wb.slots) p) h.pow
    (home_lt h.pow (p := p)) hj (by simp [stopFor,hn])
  have hmiss : ∀ k < wb.capacity, pageAt wb.slots k ≠ some p := by
    intro k hk hkp
    obtain ⟨hid,hne⟩ := pageAt_eq_some.mp hkp
    exact ha (wb.slots k) (mem_liveSlots.mpr ⟨by rw [hid]; exact hne,k,hk,rfl⟩) hid
  obtain ⟨hidx,hreach,hnone⟩ := search_absent h.pow (home_lt h.pow) hmiss hfind
  exact ⟨idx,hidx,by rw [find_eq_probe _ _ hp]; exact hfind,pageAt_eq_none.mp hnone,hreach⟩

theorem find_held (h : Sound wb) {s : PageSlot} (hs : s ∈ liveSlots wb.capacity wb.slots) :
    ∃ idx < wb.capacity, pagemapFind wb.slots wb.capacity s.pageId = some idx ∧
      wb.slots idx = s := by
  obtain ⟨hne,i,hi,rfl⟩ := mem_liveSlots.mp hs
  exact ⟨i,hi,h.found i hi hne,rfl⟩

theorem bufferedPage_eq_some (h : Sound wb) :
    bufferedPage wb p = some b ↔ ⟨p,b⟩ ∈ liveSlots wb.capacity wb.slots := by
  constructor
  · intro hb
    unfold bufferedPage at hb
    split_ifs at hb with hp
    cases hf : pagemapFind wb.slots wb.capacity p with
    | none => simp [hf] at hb
    | some idx =>
      simp only [hf] at hb
      split_ifs at hb with hid
      rw [find_eq_probe _ _ hp] at hf
      have hlt := (search_some h.pow (home_lt h.pow) hf).1
      have hslot : wb.slots idx = ⟨p,b⟩ := by
        rw [← hid,← Option.some.inj hb]
      exact mem_liveSlots.mpr ⟨hp,idx,hlt,hslot⟩
  · intro hs
    obtain ⟨idx,_,hf,hslot⟩ := find_held h hs
    have hne := (mem_liveSlots.mp hs).1
    simp only [bufferedPage,if_neg hne]
    rw [show (⟨p,b⟩ : PageSlot).pageId = p from rfl] at hf
    simp [hf,hslot]

theorem bufferedPage_eq_none (h : Sound wb) :
    bufferedPage wb p = none ↔ ∀ s ∈ liveSlots wb.capacity wb.slots, s.pageId ≠ p := by
  constructor
  · rintro hn s hs rfl
    rw [(bufferedPage_eq_some h).mpr hs] at hn
    cases hn
  · intro ha
    cases hb : bufferedPage wb p with
    | none => rfl
    | some b => exact absurd rfl (ha _ ((bufferedPage_eq_some h).mp hb))

theorem bufferedPage_congr {wb' : WriteBuffer} (h : Sound wb) (h' : Sound wb')
    (hl : ∀ b, ⟨p,b⟩ ∈ liveSlots wb'.capacity wb'.slots ↔ ⟨p,b⟩ ∈ liveSlots wb.capacity wb.slots) :
    bufferedPage wb' p = bufferedPage wb p := by
  cases hb : bufferedPage wb p with
  | some b => rw [bufferedPage_eq_some h',hl,← bufferedPage_eq_some h,hb]
  | none =>
    rw [bufferedPage_eq_none h']
    rintro ⟨_,b⟩ hs rfl
    rw [(bufferedPage_eq_some h).mpr ((hl b).mp hs)] at hb
    cases hb

end Lookup

section Plan

variable {wb : WriteBuffer} {data : File UInt8}

def flushedBytes (wb : WriteBuffer) (p i : Nat) : UInt8 :=
  match bufferedPage wb p with
  | some buf => buf.bytes i
  | none => 0

theorem lookup_held (h : Sound wb) {s : PageSlot} (hs : s ∈ liveSlots wb.capacity wb.slots) :
    pagemapLookup wb.slots wb.capacity s.pageId = some (some s.data) ∧
      flushedBytes wb s.pageId = s.data.bytes := by
  obtain ⟨idx,_,hf,hslot⟩ := find_held h hs
  refine ⟨by simp [pagemapLookup,hf,hslot],?_⟩
  funext i
  simp [flushedBytes,(bufferedPage_eq_some h).mpr hs]

theorem gatherIov_spec (h : Sound wb) (chunk : List Nat)
    (hc : ∀ p ∈ chunk, ∃ s ∈ liveSlots wb.capacity wb.slots, s.pageId = p) :
    ∃ iov, gatherIov wb chunk = some iov ∧
      iov.map PageBuf.bytes = chunk.map (flushedBytes wb) := by
  induction chunk with
  | nil => exact ⟨[],rfl,rfl⟩
  | cons p rest ih =>
    obtain ⟨iov,hg,hm⟩ := ih (fun q hq => hc q (mem_cons_of_mem p hq))
    obtain ⟨s,hs,rfl⟩ := hc p mem_cons_self
    obtain ⟨hl,hb⟩ := lookup_held h hs
    exact ⟨s.data :: iov,by simp [gatherIov,hl,hg],by simp [hm,hb]⟩

theorem writev_spec (pageSize : Nat) (bytes : Nat → Nat → UInt8) (iov : List PageBuf) :
    ∀ (p : Nat) (data : File UInt8),
      iov.map PageBuf.bytes = (List.range' p iov.length).map bytes →
      PagesWritten pageSize bytes (List.range' p iov.length) data
        (writev pageSize data (p * pageSize) iov) := by
  induction iov with
  | nil =>
    intro p data _
    exact .nil
  | cons buf rest ih =>
    intro p data hm
    simp only [map_cons,length_cons,range'_succ,List.cons.injEq] at hm
    have hrest := ih (p + 1) (data.write (p * pageSize) pageSize (bytes p)) hm.2
    simp only [writev,length_cons,range'_succ,hm.1]
    rw [show p * pageSize + pageSize = (p + 1) * pageSize by rw [Nat.succ_mul]]
    exact PagesWritten.single.trans hrest

theorem writeChunks_spec (pages : List Nat) :
    ∀ chunk : List Nat,
      (∃ p, chunk.reverse = List.range' p chunk.length) →
      (∀ c ∈ writeChunks chunk pages, c = List.range' (c.headD 0) c.length) ∧
        (writeChunks chunk pages).flatten = chunk.reverse ++ pages := by
  have hrun : ∀ {c : List Nat} {p : Nat}, c = List.range' p c.length →
      c = List.range' (c.headD 0) c.length := by
    intro c p hc
    cases c with
    | nil => rfl
    | cons q c =>
      rw [length_cons,range'_succ] at hc
      rw [headD_cons,length_cons,range'_succ,(List.cons.inj hc).1]
      rw [(List.cons.inj hc).1] at hc
      exact hc
  induction pages with
  | nil =>
    rintro chunk ⟨p,hp⟩
    cases chunk with
    | nil => simp [writeChunks]
    | cons q chunk =>
      refine ⟨?_,by simp [writeChunks]⟩
      intro c hc
      simp only [writeChunks,reduceCtorEq,if_false,mem_singleton] at hc
      subst hc
      exact hrun (by rw [length_reverse]; exact hp)
  | cons pg rest ih =>
    rintro chunk ⟨p,hp⟩
    have hsingle := ih [pg] ⟨pg,rfl⟩
    cases chunk with
    | nil => simpa [writeChunks] using hsingle
    | cons prev chunk =>
      by_cases hc : pg = prev + 1 ∧ (prev :: chunk).length < flushIovMax
      · simp only [writeChunks,if_pos hc]
        -- The page continues the run: its id is the length of the run past the start.
        have hprev : prev = p + chunk.length := by
          have := congrArg List.getLast? hp
          simpa [getLast?_range'] using this
        have := ih (pg :: prev :: chunk) ⟨p,by
          rw [reverse_cons,hp,length_cons (a := pg),range'_concat,hc.1,hprev]
          simp [Nat.add_assoc]⟩
        refine ⟨this.1,this.2.trans (by simp)⟩
      · simp only [writeChunks,if_neg hc]
        refine ⟨?_,by simp [hsingle.2]⟩
        intro c hm
        rcases mem_cons.mp hm with rfl | hm
        · exact hrun (by rw [length_reverse]; exact hp)
        · exact hsingle.1 c hm

theorem writePlan_spec (pageSize : Nat) (h : Sound wb) (chunks : List (List Nat)) :
    ∀ data : File UInt8,
      (∀ c ∈ chunks, c = List.range' (c.headD 0) c.length) →
      (∀ p ∈ chunks.flatten, ∃ s ∈ liveSlots wb.capacity wb.slots, s.pageId = p) →
      ∃ data', writePlan pageSize wb data chunks = some data' ∧
        PagesWritten pageSize (flushedBytes wb) chunks.flatten data data' := by
  induction chunks with
  | nil =>
    intro data _ _
    exact ⟨data,rfl,.nil⟩
  | cons c rest ih =>
    intro data hrun hheld
    obtain ⟨iov,hg,hm⟩ := gatherIov_spec h c
      (fun p hp => hheld p (by simp [hp]))
    have hlen : iov.length = c.length := by simpa using congrArg List.length hm
    have hc := hrun c mem_cons_self
    have hw := writev_spec pageSize (flushedBytes wb) iov (c.headD 0) data
      (by rw [hlen,← hc]; exact hm)
    rw [hlen,← hc] at hw
    obtain ⟨data',hp,hw'⟩ := ih (writev pageSize data (c.headD 0 * pageSize) iov)
      (fun c' hc' => hrun c' (mem_cons_of_mem c hc'))
      (fun p hp => hheld p (by
        rw [flatten_cons]
        exact mem_append_right c hp))
    refine ⟨data',?_,hw.trans hw'⟩
    simp only [writePlan,hg,bind_eq_bind,bind_some]
    exact hp

end Plan

end Gravel.Proofs.PageBytes
