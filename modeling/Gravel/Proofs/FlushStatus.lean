import Gravel.Model.FlushOutcome
import Gravel.Proofs.BinWrites
import Gravel.Proofs.Slots

namespace Gravel.Proofs.FlushStatus
open File PageMap PageBytes FlushPages FlushCleanup BinRun BinEntries StoreSteps
  List Option Function

section Outcomes

variable {b : IoBackend} {os : List WriteOutcome} {rc : Status}

def statusAfter (b : IoBackend) (os : List WriteOutcome) (rc : Status) : Status :=
  os.foldl (fun rc o => noteOutcome b o rc) rc

theorem statusAfter_append (os os' : List WriteOutcome) :
    statusAfter b (os ++ os') rc = statusAfter b os' (statusAfter b os rc) := by
  simp [statusAfter]

theorem statusAfter_eq (os : List WriteOutcome) : ∀ rc, statusAfter b os rc =
    if os.any b.notices then .errIo else rc := by
  induction os with
  | nil =>
    intro rc
    rfl
  | cons o rest ih =>
    intro rc
    rw [show statusAfter b (o :: rest) rc = statusAfter b rest (noteOutcome b o rc) from rfl,ih]
    cases hn : b.notices o <;> simp [noteOutcome,hn]

theorem notices_full (b : IoBackend) : b.notices .full = false := by
  cases b <;> rfl

theorem statusAfter_full (h : ∀ o ∈ os, o = .full) : statusAfter b os rc = rc := by
  have hnone : os.any b.notices = false := by
    rw [List.any_eq_false]
    intro o ho
    rw [h o ho,notices_full]
    simp
  rw [statusAfter_eq,hnone]
  rfl

theorem statusAfter_inline (h : statusAfter .inline os .ok = .ok) : ∀ o ∈ os, o = .full := by
  intro o ho
  rw [statusAfter_eq] at h
  by_contra hne
  have hany : os.any IoBackend.inline.notices = true :=
    List.any_eq_true.mpr ⟨o,ho,by cases o <;> simp_all [IoBackend.notices]⟩
  rw [hany] at h
  cases h

theorem transferred_lt {o : WriteOutcome} {len : Nat} (hlen : 0 < len) (ho : o ≠ .full) :
    o.transferred len < len := by
  cases o with
  | full => exact absurd rfl ho
  | failed => exact hlen
  | short n =>
    simp only [WriteOutcome.transferred]
    omega

end Outcomes

section Pages

variable {b : IoBackend} {wb : WriteBuffer} {pageSize : Nat}

theorem writePagesOutcome_spec (out : Nat → WriteOutcome) (pageSize : Nat) (hs : Sound wb)
    (pages : List Nat) (hp : ∀ p ∈ pages, ∃ s ∈ liveSlots wb.capacity wb.slots, s.pageId = p) :
    ∀ data rc, ∃ data', writePagesOutcome b out pageSize wb data rc pages =
        some (data',statusAfter b (pages.map out) rc) ∧
      ((∀ p ∈ pages, out p = .full) → writePages pageSize wb data pages = some data') := by
  induction pages with
  | nil => exact fun data rc => ⟨data,rfl,fun _ => rfl⟩
  | cons p rest ih =>
    intro data rc
    obtain ⟨slot,hslot,rfl⟩ := hp p mem_cons_self
    obtain ⟨hlookup,_⟩ := lookup_held hs hslot
    obtain ⟨data',hwrite,hfull⟩ := ih (fun q hq => hp q (mem_cons_of_mem _ hq))
      (data.write (slot.pageId * pageSize) ((out slot.pageId).transferred pageSize)
        slot.data.bytes) (noteOutcome b (out slot.pageId) rc)
    refine ⟨data',?_,fun hall => ?_⟩
    · simp only [writePagesOutcome,hlookup,bind_eq_bind,bind_some]
      exact hwrite
    · have hone : out slot.pageId = .full := hall _ mem_cons_self
      rw [hone] at hfull
      simp only [writePages,hlookup,bind_eq_bind,bind_some]
      exact hfull (fun q hq => hall q (mem_cons_of_mem _ hq))

theorem iovBytes_cons (pageSize : Nat) (buf : PageBuf) (rest : List PageBuf) {i : Nat}
    (hpos : 0 < pageSize) :
    iovBytes pageSize (buf :: rest) i =
      if i < pageSize then buf.bytes i else iovBytes pageSize rest (i - pageSize) := by
  unfold iovBytes
  split_ifs with hi
  · rw [Nat.div_eq_of_lt hi,Nat.mod_eq_of_lt hi]
    rfl
  · have hge : pageSize ≤ i := by omega
    rw [Nat.div_eq_sub_div hpos hge,Nat.mod_eq_sub_mod hge,getElem?_cons_succ]

theorem writev_eq_write (hpos : 0 < pageSize) (iov : List PageBuf) :
    ∀ (data : File UInt8) (off : Nat), writev pageSize data off iov =
      data.write off (iov.length * pageSize) (iovBytes pageSize iov) := by
  induction iov with
  | nil =>
    intro data off
    refine File.ext (by simp [write,writev]) (funext fun i => ?_)
    simp only [write,writev,length_nil,Nat.zero_mul,Nat.add_zero]
    rw [if_neg (by omega)]
  | cons buf rest ih =>
    intro data off
    rw [writev,ih,write_adjacent,length_cons,Nat.succ_mul,Nat.add_comm (rest.length * pageSize)]
    refine write_congr fun i _ => ?_
    rw [iovBytes_cons pageSize buf rest hpos]

theorem writePlanOutcome_spec (out : Nat → WriteOutcome) (hpos : 0 < pageSize) (hs : Sound wb)
    (chunks : List (List Nat)) :
    ∀ (data : File UInt8) (rc : Status), (∀ c ∈ chunks, c ≠ []) →
      (∀ p ∈ chunks.flatten, ∃ s ∈ liveSlots wb.capacity wb.slots, s.pageId = p) →
      ∃ data', writePlanOutcome b out pageSize wb data rc chunks =
          some (data',statusAfter b (chunks.map (fun c => out (c.headD 0))) rc) ∧
        ((∀ c ∈ chunks, out (c.headD 0) = .full) →
          writePlan pageSize wb data chunks = some data') := by
  induction chunks with
  | nil => exact fun data rc _ _ => ⟨data,rfl,fun _ => rfl⟩
  | cons c rest ih =>
    intro data rc hne hheld
    obtain ⟨iov,hg,hm⟩ := gatherIov_spec hs c (fun p hp => hheld p (by simp [hp]))
    have hlen : iov.length = c.length := by simpa using congrArg List.length hm
    have hiov : iov ≠ [] := by
      rintro rfl
      exact hne c mem_cons_self (eq_nil_of_length_eq_zero hlen.symm)
    obtain ⟨data',hwrite,hfull⟩ := ih
      (data.write (c.headD 0 * pageSize)
        ((out (c.headD 0)).transferred (iov.length * pageSize)) (iovBytes pageSize iov))
      (noteOutcome b (out (c.headD 0)) rc) (fun c' hc' => hne c' (mem_cons_of_mem _ hc'))
      (fun p hp => hheld p (by
        rw [flatten_cons]
        exact mem_append_right c hp))
    refine ⟨data',?_,fun hall => ?_⟩
    · simp only [writePlanOutcome,hg,bind_eq_bind,bind_some,if_neg hiov]
      exact hwrite
    · rw [hall c mem_cons_self] at hfull
      simp only [writePlan,hg,bind_eq_bind,bind_some]
      rw [writev_eq_write hpos]
      exact hfull (fun c' hc' => hall c' (mem_cons_of_mem _ hc'))

end Pages

def submitted (s : DimBin) : List Nat := dimbinFlushPages maxFlushBatch s.writeBuf

def requests (i : Nat) : List DimBin → List (Nat × Nat)
  | [] => []
  | s :: rest => (submitted s).map (fun p => (i,p)) ++ requests (i + 1) rest

structure WroteBin (whole : Prop) (s s' : DimBin) : Prop where
  frame : s' = { s with
    data := s'.data
    writeBuf := { s.writeBuf with flushBytes := s'.writeBuf.flushBytes } }
  written : whole → PagesWritten s.geom.pageSize (flushedBytes s.writeBuf) (submitted s) s.data
    s'.data

structure FlushedBin (whole : Prop) (s s' : DimBin) : Prop where
  written : whole → ∀ p ∈ submitted s, ∀ k < s.geom.pageSize,
    s'.data.page s.geom.pageSize p k = flushedBytes s.writeBuf p k
  dropped : s.writeBuf.count ≤ maxFlushBatch →
    ∀ p ∈ submitted s, bufferedPage s'.writeBuf p = none

structure FlushedStore (out : Nat → Nat → WriteOutcome) (b : IoBackend) (db db' : GravelDB)
    (rc : Status) : Prop where
  status : rc = statusAfter b ((requests 0 db.bins).map (fun r => out r.1 r.2)) .ok
  bins : ∀ (i : Nat) s, db.bins[i]? = some s → ∃ s', db'.bins[i]? = some s' ∧
    FlushedBin (∀ p ∈ submitted s, out i p = .full) s s'

section Bins

variable {b : IoBackend} {s s' : DimBin} {p : Nat} {whole : Prop}

theorem submitted_held (hp : p ∈ submitted s) :
    ∃ slot ∈ liveSlots s.writeBuf.capacity s.writeBuf.slots, slot.pageId = p :=
  collectPages_held (dimbinFlushPages_perm.mem_iff.mp hp)

theorem submitted_nil (hs : Sound s.writeBuf) (hc : s.writeBuf.count = 0) : submitted s = [] := by
  have hlen := flushPages_length hs
  rw [hc,Nat.min_zero] at hlen
  exact eq_nil_of_length_eq_zero hlen

theorem mem_requests (bins : List DimBin) : ∀ (i j q : Nat), (j,q) ∈ requests i bins ↔
    ∃ k s, j = i + k ∧ bins[k]? = some s ∧ q ∈ submitted s := by
  induction bins with
  | nil =>
    intro i j q
    simp [requests]
  | cons s rest ih =>
    intro i j q
    rw [requests,mem_append,List.mem_map,ih]
    constructor
    · rintro (⟨p,hp,heq⟩ | ⟨k,s',rfl,hk,hq⟩)
      · cases heq
        exact ⟨0,s,rfl,rfl,hp⟩
      · exact ⟨k + 1,s',by omega,hk,hq⟩
    · rintro ⟨k,s',rfl,hk,hq⟩
      cases k with
      | zero =>
        cases hk
        exact .inl ⟨q,hq,rfl⟩
      | succ k => exact .inr ⟨k,s',by omega,hk,hq⟩

theorem writePhaseOutcome_spec (out : Nat → WriteOutcome) (hs : Sound s.writeBuf) (rc : Status) :
    ∃ s', writePhaseOutcome b out s rc = some (s',statusAfter b ((submitted s).map out) rc) ∧
      WroteBin (∀ p ∈ submitted s, out p = .full) s s' := by
  by_cases hc : s.writeBuf.count = 0
  · have hnil := submitted_nil hs hc
    refine ⟨s,?_,rfl,fun _ => ?_⟩
    · rw [hnil]
      simp [writePhaseOutcome,hc,statusAfter]
    · rw [hnil]
      exact .nil
  · obtain ⟨data,hwrite,hfull⟩ := writePagesOutcome_spec (b := b) out s.geom.pageSize hs
      (submitted s) (fun p hp => submitted_held hp) s.data rc
    refine ⟨{ s with
      data := data
      writeBuf := { s.writeBuf with
        flushBytes := s.writeBuf.flushBytes + (submitted s).length * s.geom.pageSize } },?_,rfl,?_⟩
    · unfold submitted at hwrite ⊢
      simp only [writePhaseOutcome,hc,if_false,hwrite,bind_eq_bind,bind_some]
      rfl
    · intro hall
      obtain ⟨data',hpages,hw⟩ := writePages_spec s.geom.pageSize hs (submitted s)
        (fun p hp => submitted_held hp) s.data
      cases (hfull hall).symm.trans hpages
      exact hw

theorem writeBinsOutcome_spec (out : Nat → Nat → WriteOutcome) (bins : List DimBin) :
    ∀ (i : Nat) (rc : Status), (∀ s ∈ bins, Sound s.writeBuf) →
    ∃ bins', writeBinsOutcome b out i rc bins =
        some (bins',statusAfter b ((requests i bins).map (fun r => out r.1 r.2)) rc) ∧
      bins'.length = bins.length ∧ ∀ (k : Nat) s, bins[k]? = some s → ∃ s', bins'[k]? = some s' ∧
        WroteBin (∀ p ∈ submitted s, out (i + k) p = .full) s s' := by
  induction bins with
  | nil => exact fun i rc _ => ⟨[],rfl,rfl,fun k s hk => by cases hk⟩
  | cons s rest ih =>
    intro i rc hs
    obtain ⟨s',hphase,hw⟩ := writePhaseOutcome_spec (b := b) (out i) (hs s mem_cons_self) rc
    obtain ⟨rest',hrest,hlen,hall⟩ := ih (i + 1) (statusAfter b ((submitted s).map (out i)) rc)
      (fun s hm => hs s (mem_cons_of_mem _ hm))
    refine ⟨s' :: rest',?_,by simp [hlen],?_⟩
    · simp only [writeBinsOutcome,hphase,hrest,bind_eq_bind,bind_some,
        Option.pure_def,requests,map_append,List.map_map,statusAfter_append]
      rfl
    · intro k s1 hk
      cases k with
      | zero =>
        cases hk
        exact ⟨s',rfl,hw⟩
      | succ k =>
        obtain ⟨s2,hs2,hw2⟩ := hall k s1 hk
        refine ⟨s2,hs2,?_⟩
        rw [show i + (k + 1) = i + 1 + k by omega]
        exact hw2

theorem WroteBin.clean (h : WroteBin whole s s') (hs : Sound s.writeBuf) :
    ∃ s'', flushCleanPhase s' = some s'' ∧ FlushedBin whole s s'' := by
  have hwb : s'.writeBuf = { s.writeBuf with flushBytes := s'.writeBuf.flushBytes } := by
    rw [h.frame]
  have hs' : Sound s'.writeBuf := by
    rw [hwb]
    exact sound_flushBytes hs
  obtain ⟨wb,hclean,hcl,hloss⟩ := flushCleanPhase_spec hs'
  refine ⟨_,hclean,?_,?_⟩
  · intro hwhole p hp k hk
    exact ((h.written hwhole).page p k hk).trans (if_pos hp)
  · intro hcount p hp
    have hlive := (hloss (.inl (by rw [hwb]; exact hcount))).live
    refine (bufferedPage_eq_none hcl.sound).mpr fun slot hslot heq => ?_
    refine ((hlive slot).mp hslot).2 ?_
    rw [heq,hwb]
    exact dimbinFlushPages_perm.mem_iff.mp hp

theorem submitted_congr (h : s'.writeBuf = s.writeBuf) : submitted s' = submitted s := by
  rw [submitted,submitted,h]

theorem requests_map {f : DimBin → DimBin} (hf : ∀ s, (f s).writeBuf = s.writeBuf)
    (bins : List DimBin) : ∀ i, requests i (bins.map f) = requests i bins := by
  induction bins with
  | nil => exact fun i => rfl
  | cons s rest ih =>
    intro i
    simp only [map_cons,requests,ih,submitted_congr (hf s)]

theorem FlushedBin.congr {s0 : DimBin} (h : FlushedBin whole s s') (hw : s.writeBuf = s0.writeBuf)
    (hg : s.geom = s0.geom) : FlushedBin whole s0 s' := by
  have hsub := submitted_congr hw
  refine ⟨fun hwhole p hp k hk => ?_,fun hcount p hp => ?_⟩
  · rw [← hg] at hk ⊢
    rw [← hw]
    exact h.written hwhole p (hsub ▸ hp) k hk
  · exact h.dropped (hw ▸ hcount) p (hsub ▸ hp)

end Bins

section Stores

variable {b : IoBackend} {db : GravelDB} {out : Nat → Nat → WriteOutcome} {key : DimBin → DimBin}

theorem clean_bins {bins : List DimBin} (hs : ∀ s ∈ db.bins, Sound s.writeBuf)
    (hkey : ∀ s, (key s).writeBuf = s.writeBuf ∧ (key s).geom = s.geom)
    (hlen : bins.length = db.bins.length)
    (hwrote : ∀ (k : Nat) s0, db.bins[k]? = some s0 → ∃ s, bins[k]? = some s ∧
      WroteBin (∀ p ∈ submitted s0, out k p = .full) (key s0) s) :
    ∃ bins', forBins flushCleanPhase bins = some bins' ∧
      ∀ (k : Nat) s0, db.bins[k]? = some s0 → ∃ s', bins'[k]? = some s' ∧
        FlushedBin (∀ p ∈ submitted s0, out k p = .full) s0 s' := by
  have hclean : ∀ (k : Nat) s0, db.bins[k]? = some s0 → ∃ s s', bins[k]? = some s ∧
      flushCleanPhase s = some s' ∧ FlushedBin (∀ p ∈ submitted s0, out k p = .full) s0 s' := by
    intro k s0 hk
    obtain ⟨s,hsk,hw⟩ := hwrote k s0 hk
    obtain ⟨s',hc,hf⟩ := hw.clean (by rw [(hkey s0).1]; exact hs s0 (mem_of_getElem? hk))
    exact ⟨s,s',hsk,hc,hf.congr (hkey s0).1 (hkey s0).2⟩
  have htotal : ∀ s ∈ bins, ∃ s', flushCleanPhase s = some s' := by
    intro s hm
    obtain ⟨k,hk⟩ := mem_iff_getElem?.mp hm
    have hlt := (List.getElem?_eq_some_iff.mp hk).1
    rw [hlen] at hlt
    obtain ⟨s1,s',hs1,hc,_⟩ := hclean k _ (getElem?_eq_getElem hlt)
    cases hk.symm.trans hs1
    exact ⟨s',hc⟩
  obtain ⟨bins',hfor⟩ := forBins_total htotal
  refine ⟨bins',hfor,fun k s0 hk => ?_⟩
  obtain ⟨s,s',hsk,hc,hf⟩ := hclean k s0 hk
  obtain ⟨s2,hs2,hc2⟩ := forBins_at hfor hsk
  cases hc.symm.trans hc2
  exact ⟨s',hs2,hf⟩

theorem sound_keyed (hs : ∀ s ∈ db.bins, Sound s.writeBuf)
    (hkey : ∀ s, (key s).writeBuf = s.writeBuf ∧ (key s).geom = s.geom) :
    ∀ s ∈ db.bins.map key, Sound s.writeBuf := by
  intro s hm
  obtain ⟨s0,hm0,rfl⟩ := List.mem_map.mp hm
  rw [(hkey s0).1]
  exact hs s0 hm0

theorem phases_flushed (b : IoBackend) (out : Nat → Nat → WriteOutcome)
    (hs : ∀ s ∈ db.bins, Sound s.writeBuf)
    (hkey : ∀ s, (key s).writeBuf = s.writeBuf ∧ (key s).geom = s.geom) :
    ∃ bins bins' rc, writeBinsOutcome b out 0 .ok (db.bins.map key) = some (bins,rc) ∧
      forBins flushCleanPhase bins = some bins' ∧
      FlushedStore out b db { db with bins := bins' } rc := by
  obtain ⟨bins,hwrite,hlen,hall⟩ := writeBinsOutcome_spec (b := b) out (db.bins.map key) 0 .ok
    (sound_keyed hs hkey)
  obtain ⟨bins',hfor,hbins⟩ := clean_bins hs hkey (hlen.trans (length_map _))
    (fun k s0 hk => by
      obtain ⟨s,hsk,hw⟩ := hall k (key s0) (by rw [getElem?_map,hk]; rfl)
      rw [submitted_congr (hkey s0).1,Nat.zero_add] at hw
      exact ⟨s,hsk,hw⟩)
  refine ⟨bins,bins',_,hwrite,hfor,?_,hbins⟩
  rw [requests_map (fun s => (hkey s).1)]

theorem flushKeyPhase_frame (s : DimBin) :
    (flushKeyPhase s).writeBuf = s.writeBuf ∧ (flushKeyPhase s).geom = s.geom := by
  rw [flushKeyPhase_eq s]
  exact ⟨rfl,rfl⟩

theorem submitKeyPhase_frame (s : DimBin) :
    (submitKeyPhase s).writeBuf = s.writeBuf ∧ (submitKeyPhase s).geom = s.geom := by
  unfold submitKeyPhase
  split_ifs
  · exact ⟨rfl,rfl⟩
  · rw [dimbinFlushKeys_eq s]
    exact ⟨rfl,rfl⟩

theorem graveldbFlushOutcome_spec (out : Nat → Nat → WriteOutcome) (hs : ∀ s ∈ db.bins, Sound s.writeBuf) (b : IoBackend) :
    ∃ db' rc, graveldbFlushOutcome b out db = some (db',rc) ∧ FlushedStore out b db db' rc := by
  obtain ⟨bins,bins',rc,hwrite,hclean,hf⟩ := phases_flushed b out hs flushKeyPhase_frame
  refine ⟨_,rc,?_,hf⟩
  simp only [graveldbFlushOutcome,hwrite,hclean,bind_eq_bind,bind_some,Option.pure_def]

end Stores

section Landing

variable {wb : WriteBuffer} {out : Nat → Nat → WriteOutcome} {db : GravelDB} {s : DimBin}

theorem find_addr {l : List PageBuf} (hnd : (l.map PageBuf.addr).Nodup) {buf : PageBuf}
    (hm : buf ∈ l) : l.find? (fun b => b.addr = buf.addr) = some buf := by
  induction l with
  | nil => cases hm
  | cons b rest ih =>
    obtain ⟨hnot,hnd⟩ := nodup_cons.mp hnd
    rcases mem_cons.mp hm with rfl | hm
    · simp
    · have hne : b.addr ≠ buf.addr := fun he => hnot (he ▸ List.mem_map.mpr ⟨buf,hm,rfl⟩)
      rw [find?_cons_of_neg (by simpa using hne)]
      exact ih hnd hm

theorem bufferAt_held (hs : Sound wb) {slot : PageSlot}
    (hslot : slot ∈ liveSlots wb.capacity wb.slots) :
    bufferAt wb slot.data.addr = some (flushedBytes wb slot.pageId) := by
  have hheld : slot.data ∈ heldBufs wb ++ wb.pagePool :=
    mem_append_left _ (List.mem_map.mpr ⟨slot,hslot,rfl⟩)
  have hfind := find_addr hs.owned hheld
  rw [(lookup_held hs hslot).2]
  exact congrArg (Option.map PageBuf.bytes) hfind

theorem queuePages_spec (hs : Sound wb) (i : Nat) (pages : List Nat)
    (hp : ∀ p ∈ pages, ∃ s ∈ liveSlots wb.capacity wb.slots, s.pageId = p) :
    ∃ queue, queuePages wb i pages = some queue ∧
      queue.map (fun w => (w.binIdx,w.pageId)) = pages.map (fun p => (i,p)) ∧
      ∀ w ∈ queue, w.binIdx = i ∧ bufferAt wb w.addr = some (flushedBytes wb w.pageId) := by
  induction pages with
  | nil => exact ⟨[],rfl,rfl,fun w hw => by cases hw⟩
  | cons p rest ih =>
    obtain ⟨slot,hslot,rfl⟩ := hp p mem_cons_self
    obtain ⟨hlookup,_⟩ := lookup_held hs hslot
    obtain ⟨queue,hq,hmap,hall⟩ := ih (fun q hq => hp q (mem_cons_of_mem _ hq))
    refine ⟨⟨i,slot.pageId,slot.data.addr⟩ :: queue,?_,by simp [hmap],?_⟩
    · simp only [queuePages,hlookup,hq,bind_eq_bind,bind_some,Option.pure_def,
        map_some,toList_some,singleton_append]
    · intro w hw
      rcases mem_cons.mp hw with rfl | hw
      · exact ⟨rfl,bufferAt_held hs hslot⟩
      · exact hall w hw

def Queued (bins : List DimBin) (w : QueuedWrite) : Prop :=
  ∃ s, bins[w.binIdx]? = some s ∧
    bufferAt s.writeBuf w.addr = some (flushedBytes s.writeBuf w.pageId)

def Counted (s s' : DimBin) : Prop :=
  s' = { s with writeBuf := { s.writeBuf with flushBytes := s'.writeBuf.flushBytes } }

theorem submitWritePhase_spec (hs : Sound s.writeBuf) (i : Nat) :
    ∃ s' queue, submitWritePhase s i = some (s',queue) ∧ Counted s s' ∧
      queue.map (fun w => (w.binIdx,w.pageId)) = (submitted s).map (fun p => (i,p)) ∧
      ∀ w ∈ queue, w.binIdx = i ∧
        bufferAt s'.writeBuf w.addr = some (flushedBytes s'.writeBuf w.pageId) := by
  by_cases hc : s.writeBuf.count = 0
  · have hnil := submitted_nil hs hc
    exact ⟨s,[],by simp [submitWritePhase,hc],rfl,by simp [hnil],fun w hw => by cases hw⟩
  · obtain ⟨queue,hq,hmap,hall⟩ := queuePages_spec hs i (submitted s)
      (fun p hp => submitted_held hp)
    refine ⟨{ s with writeBuf := { s.writeBuf with
      flushBytes := s.writeBuf.flushBytes + (submitted s).length * s.geom.pageSize } },queue,
      ?_,rfl,hmap,hall⟩
    unfold submitted at hq ⊢
    simp only [submitWritePhase,hc,if_false,hq,bind_eq_bind,bind_some,Option.pure_def]

theorem submitWrites_spec (bins : List DimBin) : ∀ (i : Nat), (∀ s ∈ bins, Sound s.writeBuf) →
    ∃ bins' queue, submitWrites i bins = some (bins',queue) ∧ bins'.length = bins.length ∧
      (∀ (k : Nat) s, bins[k]? = some s → ∃ s', bins'[k]? = some s' ∧ Counted s s') ∧
      queue.map (fun w => (w.binIdx,w.pageId)) = requests i bins ∧
      ∀ w ∈ queue, ∃ k s', w.binIdx = i + k ∧ bins'[k]? = some s' ∧
        bufferAt s'.writeBuf w.addr = some (flushedBytes s'.writeBuf w.pageId) := by
  induction bins with
  | nil => exact fun i _ => ⟨[],[],rfl,rfl,by simp,rfl,by simp⟩
  | cons s rest ih =>
    intro i hs
    obtain ⟨s',queue,hphase,hcount,hmap,hall⟩ := submitWritePhase_spec (hs s mem_cons_self) i
    obtain ⟨rest',queues,hrest,hlen,hbins,hmaps,halls⟩ := ih (i + 1)
      (fun s hm => hs s (mem_cons_of_mem _ hm))
    refine ⟨s' :: rest',queue ++ queues,?_,by simp [hlen],?_,?_,?_⟩
    · simp only [submitWrites,hphase,hrest,bind_eq_bind,bind_some,Option.pure_def]
    · intro k s1 hk
      cases k with
      | zero =>
        cases hk
        exact ⟨s',rfl,hcount⟩
      | succ k => exact hbins k s1 hk
    · rw [map_append,hmap,hmaps,requests]
    · intro w hw
      rcases mem_append.mp hw with hw | hw
      · exact ⟨0,s',(hall w hw).1,rfl,(hall w hw).2⟩
      · obtain ⟨k,s1,hk,hs1,hbuf⟩ := halls w hw
        exact ⟨k + 1,s1,by omega,hs1,hbuf⟩

def pagesIn (k : Nat) (queue : List QueuedWrite) : List Nat :=
  (queue.filter (fun w => w.binIdx = k)).map QueuedWrite.pageId

theorem landQueueOutcome_spec (out : Nat → Nat → WriteOutcome) (queue : List QueuedWrite) : ∀ db : GravelDB,
    (∀ w ∈ queue, Queued db.bins w) →
    ∃ db', landQueueOutcome out db queue = some db' ∧ db' = { db with bins := db'.bins } ∧
      db'.bins.length = db.bins.length ∧
      ∀ (k : Nat) s, db.bins[k]? = some s → ∃ s', db'.bins[k]? = some s' ∧
        s' = { s with data := s'.data } ∧
        ((∀ p ∈ pagesIn k queue, out k p = .full) →
          PagesWritten s.geom.pageSize (flushedBytes s.writeBuf) (pagesIn k queue) s.data s'.data) := by
  induction queue with
  | nil => exact fun db _ => ⟨db,rfl,rfl,rfl,fun k s hk => ⟨s,hk,rfl,fun _ => .nil⟩⟩
  | cons w rest ih =>
    intro db hq
    obtain ⟨s0,hs0,hbuf⟩ := hq w mem_cons_self
    obtain ⟨s1,hs1⟩ : ∃ s1 : DimBin, s1 = { s0 with
        data := s0.data.write (w.pageId * s0.geom.pageSize)
          ((out w.binIdx w.pageId).transferred s0.geom.pageSize)
          (flushedBytes s0.writeBuf w.pageId) } := ⟨_,rfl⟩
    have hland : landWriteOutcome out db w = some (modifyBin db w.binIdx s1) := by
      simp only [landWriteOutcome,hs0,hbuf,bind_eq_bind,bind_some,Option.pure_def,hs1]
    have hwb : s1.writeBuf = s0.writeBuf := by rw [hs1]
    have hself := modifyBin_self hs0 s1
    have hother : ∀ k, k ≠ w.binIdx → (modifyBin db w.binIdx s1).bins[k]? = db.bins[k]? :=
      fun k hk => getElem?_set_ne (Ne.symm hk)
    have hq1 : ∀ x ∈ rest, Queued (modifyBin db w.binIdx s1).bins x := by
      intro x hx
      obtain ⟨s,hs,hb⟩ := hq x (mem_cons_of_mem _ hx)
      by_cases hk : x.binIdx = w.binIdx
      · rw [hk,hs0] at hs
        cases hs
        exact ⟨s1,by rw [hk]; exact hself,by rw [hwb]; exact hb⟩
      · exact ⟨s,by rw [hother _ hk]; exact hs,hb⟩
    obtain ⟨db',hrest,hframe,hlen,hall⟩ := ih (modifyBin db w.binIdx s1) hq1
    refine ⟨db',?_,?_,hlen.trans length_set,?_⟩
    · simp only [landQueueOutcome,hland,bind_eq_bind,bind_some]
      exact hrest
    · rw [hframe]
      rfl
    · intro k s hk
      by_cases hkw : k = w.binIdx
      · subst hkw
        rw [hs0] at hk
        cases hk
        obtain ⟨s',hs',hframe',hw'⟩ := hall _ s1 hself
        have hpages : pagesIn w.binIdx (w :: rest) = [w.pageId] ++ pagesIn w.binIdx rest := by
          simp [pagesIn]
        refine ⟨s',hs',?_,?_⟩
        · rw [hframe',hs1]
        · intro hfull
          rw [hpages] at hfull ⊢
          have hone : out w.binIdx w.pageId = .full := hfull _ (by simp)
          have htwo := hw' (fun p hp => hfull p (mem_append_right _ hp))
          rw [hs1,hone] at htwo
          exact PagesWritten.single.trans htwo
      · obtain ⟨s',hs',hframe',hw'⟩ := hall k s ((hother k hkw).trans hk)
        have hpages : pagesIn k (w :: rest) = pagesIn k rest := by
          simp [pagesIn,Ne.symm hkw]
        rw [hpages]
        exact ⟨s',hs',hframe',hw'⟩

theorem mem_pagesIn {bins : List DimBin} {queue : List QueuedWrite} {k p : Nat}
    (hmap : queue.map (fun w => (w.binIdx,w.pageId)) = requests 0 bins)
    (hk : bins[k]? = some s) : p ∈ pagesIn k queue ↔ p ∈ submitted s := by
  have hpair : p ∈ pagesIn k queue ↔ (k,p) ∈ queue.map (fun w => (w.binIdx,w.pageId)) := by
    simp only [pagesIn,List.mem_map,mem_filter,decide_eq_true_eq,Prod.mk.injEq]
    constructor
    · rintro ⟨w,⟨hw,hb⟩,hp⟩
      exact ⟨w,hw,hb,hp⟩
    · rintro ⟨w,hw,hb,hp⟩
      exact ⟨w,⟨hw,hb⟩,hp⟩
  rw [hpair,hmap,mem_requests]
  constructor
  · rintro ⟨j,s',hj,hs',hp⟩
    rw [Nat.zero_add] at hj
    subst hj
    rw [hk] at hs'
    cases hs'
    exact hp
  · exact fun hp => ⟨k,s,(Nat.zero_add k).symm,hk,hp⟩

theorem ring_flushed (out : Nat → Nat → WriteOutcome) (hs : ∀ s ∈ db.bins, Sound s.writeBuf) :
    ∃ bins queue db1 bins', submitWrites 0 (db.bins.map submitKeyPhase) = some (bins,queue) ∧
      landQueueOutcome out { db with bins := bins } queue = some db1 ∧
      forBins flushCleanPhase db1.bins = some bins' ∧
      FlushedStore out .ring db { db1 with bins := bins' }
        (queue.foldl (fun rc w => noteOutcome .ring (out w.binIdx w.pageId) rc) .ok) := by
  obtain ⟨bins,queue,hsub,hlen,hbins,hmap,hall⟩ := submitWrites_spec _ 0
    (sound_keyed hs submitKeyPhase_frame)
  obtain ⟨db1,hland,_,hlen1,hbins1⟩ := landQueueOutcome_spec out queue
    { db with bins := bins } (fun w hw => by
      obtain ⟨k,s,hk,hsk,hb⟩ := hall w hw
      rw [Nat.zero_add] at hk
      exact ⟨s,by rw [hk]; exact hsk,hb⟩)
  have hwrote : ∀ (k : Nat) s0, db.bins[k]? = some s0 → ∃ s, db1.bins[k]? = some s ∧
      WroteBin (∀ p ∈ submitted s0, out k p = .full) (submitKeyPhase s0) s := by
    intro k s0 hk0
    have hk : (db.bins.map submitKeyPhase)[k]? = some (submitKeyPhase s0) := by
      rw [getElem?_map,hk0]
      rfl
    obtain ⟨s1,hs1,hcount⟩ := hbins k _ hk
    obtain ⟨s,hsk,hframe,hw⟩ := hbins1 k s1 hs1
    have hmem : ∀ q, q ∈ pagesIn k queue ↔ q ∈ submitted (submitKeyPhase s0) :=
      fun q => mem_pagesIn hmap hk
    have hsame : submitted (submitKeyPhase s0) = submitted s0 :=
      submitted_congr (submitKeyPhase_frame s0).1
    refine ⟨s,hsk,?_,?_⟩
    · rw [hframe,hcount]
    · intro hfull
      have hpages := (hw (fun p hp => hfull p (hsame ▸ (hmem p).mp hp))).of_mem_iff hmem
      rw [hcount] at hpages
      exact hpages
  obtain ⟨bins',hfor,hflushed⟩ := clean_bins hs submitKeyPhase_frame
    (hlen1.trans (hlen.trans (length_map _))) hwrote
  refine ⟨bins,queue,db1,bins',hsub,hland,hfor,?_,hflushed⟩
  rw [← requests_map (fun s => (submitKeyPhase_frame s).1) db.bins 0,← hmap,List.map_map]
  simp only [statusAfter,foldl_map,comp_def]

theorem flushPollOutcome_spec (out : Nat → Nat → WriteOutcome) (hs : ∀ s ∈ db.bins, Sound s.writeBuf) (b : IoBackend) :
    ∃ db' rc, flushPollOutcome b out db = some (db',rc) ∧ FlushedStore out b db db' rc := by
  by_cases hnone : db.bins = []
  · refine ⟨db,.ok,by simp [flushPollOutcome,hnone],?_,?_⟩
    · simp [hnone,requests,statusAfter]
    · intro i s hi
      rw [hnone] at hi
      cases hi
  · by_cases hb : b = .ring
    · subst hb
      obtain ⟨bins,queue,db1,bins',hsub,hland,hclean,hf⟩ := ring_flushed out hs
      refine ⟨_,_,?_,hf⟩
      simp only [flushPollOutcome,hnone,if_false,if_true,hsub,hland,hclean,bind_eq_bind,
        bind_some,Option.pure_def]
    · obtain ⟨bins,bins',rc,hwrite,hclean,hf⟩ := phases_flushed b out hs submitKeyPhase_frame
      refine ⟨_,rc,?_,hf⟩
      simp only [flushPollOutcome,hnone,hb,if_false,hwrite,hclean,bind_eq_bind,
        bind_some,Option.pure_def]

end Landing

/-- Status and buffer tell the truth about a bin: "ok" means that every submitted page is in the
file, and otherwise every page whose write is incomplete is still buffered. -/
structure TruthfulBin (complete : Nat → Prop) (s s' : DimBin) (rc : Status) : Prop where
  reached : rc = .ok → ∀ p ∈ submitted s, complete p ∧
    ∀ k < s.geom.pageSize, s'.data.page s.geom.pageSize p k = flushedBytes s.writeBuf p k
  kept : rc ≠ .ok → ∀ p ∈ submitted s, ¬ complete p →
    bufferedPage s'.writeBuf p = bufferedPage s.writeBuf p

def StoreTruthful (out : Nat → Nat → WriteOutcome) (db : GravelDB)
    (flush : IoBackend → Option (GravelDB × Status)) : Prop :=
  ∃ result : IoBackend → GravelDB × Status, (∀ b, flush b = some (result b)) ∧
    (∀ b (i : Nat) s, db.bins[i]? = some s → ∃ s', (result b).1.bins[i]? = some s' ∧
      TruthfulBin (fun p => out i p = .full) s s' (result b).2) ∧
    ∀ b b', (result b).2 = (result b').2

def StoreWhole (out : Nat → Nat → WriteOutcome) (db : GravelDB) : Prop :=
  ∀ (i : Nat) s, db.bins[i]? = some s → ∀ p ∈ submitted s, out i p = .full

def OneBatch (db : GravelDB) : Prop := ∀ s ∈ db.bins, s.writeBuf.count ≤ maxFlushBatch

section Truth

variable {db : GravelDB} {out : Nat → Nat → WriteOutcome}
  {flush : IoBackend → Option (GravelDB × Status)}

theorem submitted_buffered {s : DimBin} {p : Nat} (hs : Sound s.writeBuf) (hp : p ∈ submitted s) :
    bufferedPage s.writeBuf p ≠ none := by
  obtain ⟨slot,hslot,rfl⟩ := submitted_held hp
  rw [(bufferedPage_eq_some hs).mpr hslot]
  simp

theorem outcomes_whole (hwhole : StoreWhole out db) :
    ∀ o ∈ (requests 0 db.bins).map (fun r => out r.1 r.2), o = .full := by
  intro o ho
  obtain ⟨⟨i,p⟩,hr,rfl⟩ := List.mem_map.mp ho
  obtain ⟨k,s,hk,hs,hp⟩ := (mem_requests db.bins 0 i p).mp hr
  rw [Nat.zero_add] at hk
  subst hk
  exact hwhole _ s hs p hp

theorem storeTruthful_of_whole
    (hflush : ∀ b, ∃ db' rc, flush b = some (db',rc) ∧ FlushedStore out b db db' rc)
    (hwhole : StoreWhole out db) : StoreTruthful out db flush := by
  choose db' rc hcall hspec using hflush
  have hok : ∀ b, rc b = .ok := fun b => by
    rw [(hspec b).status,statusAfter_full (outcomes_whole hwhole)]
  refine ⟨fun b => (db' b,rc b),hcall,?_,fun b b' => (hok b).trans (hok b').symm⟩
  intro b i s hi
  obtain ⟨s',hs',hf⟩ := (hspec b).bins i s hi
  refine ⟨s',hs',fun _ p hp => ⟨hwhole i s hi p hp,?_⟩,fun hne => absurd (hok b) hne⟩
  exact hf.written (hwhole i s hi) p hp

/-- A page whose write is not whole is gone although the flush without a ring reports it. -/
theorem whole_of_storeTruthful (hs : ∀ s ∈ db.bins, Sound s.writeBuf)
    (hflush : ∀ b, ∃ db' rc, flush b = some (db',rc) ∧ FlushedStore out b db db' rc)
    (hbatch : OneBatch db) (htrue : StoreTruthful out db flush) : StoreWhole out db := by
  intro i s hi p hp
  by_contra hne
  obtain ⟨result,hcall,hbins,_⟩ := htrue
  obtain ⟨db',rc,hcall',hspec⟩ := hflush .inline
  have hres : result .inline = (db',rc) := Option.some.inj ((hcall .inline).symm.trans hcall')
  obtain ⟨s',hs',ht⟩ := hbins .inline i s hi
  rw [hres] at hs' ht
  obtain ⟨s1,hs1,hf⟩ := hspec.bins i s hi
  cases hs'.symm.trans hs1
  have hrc : rc ≠ .ok := by
    intro hok
    rw [hspec.status] at hok
    have hall := statusAfter_inline hok
    refine hne (hall _ (List.mem_map.mpr ⟨(i,p),?_,rfl⟩))
    exact (mem_requests db.bins 0 i p).mpr ⟨i,s,(Nat.zero_add i).symm,hi,hp⟩
  have hkept := ht.kept hrc p hp hne
  rw [hf.dropped (hbatch s (mem_of_getElem? hi)) p hp] at hkept
  exact submitted_buffered (hs s (mem_of_getElem? hi)) hp hkept.symm

end Truth

def plan (s : DimBin) : List (List Nat) := writeChunks [] (submitted s)

def PageDone (out : Nat → WriteOutcome) (s : DimBin) (p : Nat) : Prop :=
  ∀ chunk ∈ plan s, ∀ k, chunk[k]? = some p →
    (k + 1) * s.geom.pageSize ≤ (out (chunk.headD 0)).transferred (chunk.length * s.geom.pageSize)

def BinTruthful (out : Nat → WriteOutcome) (s : DimBin) : Prop :=
  ∃ result : IoBackend → DimBin × Status,
    (∀ b, dimbinFlushOutcome b out s = some (result b)) ∧
    (∀ b, TruthfulBin (PageDone out s) s (result b).1 (result b).2) ∧
    ∀ b b', (result b).2 = (result b').2

def BinWhole (out : Nat → WriteOutcome) (s : DimBin) : Prop :=
  ∀ c ∈ plan s, out (c.headD 0) = .full

section DimbinFlush

variable {b : IoBackend} {s : DimBin} {out : Nat → WriteOutcome}

theorem writeChunks_ne_nil (pages : List Nat) : ∀ chunk, ∀ c ∈ writeChunks chunk pages, c ≠ [] := by
  induction pages with
  | nil =>
    intro chunk c hc
    unfold writeChunks at hc
    split_ifs at hc with hnil
    · cases hc
    · rw [mem_singleton.mp hc]
      simpa using hnil
  | cons pg rest ih =>
    intro chunk c hc
    cases chunk with
    | nil => exact ih [pg] c hc
    | cons prev chunk =>
      simp only [writeChunks] at hc
      split_ifs at hc
      · exact ih _ c hc
      · rcases mem_cons.mp hc with rfl | hc
        · simp
        · exact ih _ c hc

theorem plan_spec (s : DimBin) : (∀ c ∈ plan s, c = List.range' (c.headD 0) c.length) ∧
    (plan s).flatten = submitted s := by
  obtain ⟨hrun,hflat⟩ := writeChunks_spec (submitted s) [] ⟨0,rfl⟩
  rw [reverse_nil,nil_append] at hflat
  exact ⟨hrun,hflat⟩

theorem dimbinFlushOutcome_spec (out : Nat → WriteOutcome) (hs : Sound s.writeBuf)
    (b : IoBackend) : ∃ s' rc, dimbinFlushOutcome b out s = some (s',rc) ∧
      rc = statusAfter b ((plan s).map (fun c => out (c.headD 0))) .ok ∧
      FlushedBin (BinWhole out s) s s' := by
  obtain ⟨hwb,hdata,hgeom⟩ := dimbinFlushKeys_frame s
  obtain ⟨hrun,hflat⟩ := plan_spec s
  have hheld : ∀ p ∈ (plan s).flatten,
      ∃ slot ∈ liveSlots s.writeBuf.capacity s.writeBuf.slots, slot.pageId = p := by
    intro p hp
    rw [hflat] at hp
    exact submitted_held hp
  by_cases hempty : submitted s = []
  · have hplan : plan s = [] := by
      rw [plan,hempty]
      rfl
    refine ⟨{ dimbinFlushKeys s with flushNeeded := false },.ok,?_,by rw [hplan]; rfl,?_,?_⟩
    · unfold submitted at hempty
      simp only [dimbinFlushOutcome,hwb,hempty,if_true,Option.pure_def,ite_self]
    · intro _ p hp
      rw [hempty] at hp
      cases hp
    · intro _ p hp
      rw [hempty] at hp
      cases hp
  · have hcount : s.writeBuf.count ≠ 0 := fun h0 => hempty (submitted_nil hs h0)
    obtain ⟨data,hwrite,hfull⟩ := writePlanOutcome_spec (b := b) out s.geom.page_pos hs (plan s)
      s.data .ok (writeChunks_ne_nil _ _) hheld
    have hs' := sound_flushBytes
      (n := s.writeBuf.flushBytes + (submitted s).length * s.geom.pageSize) hs
    obtain ⟨wb,hclean,hcl,hloss⟩ := cleanup_cleaned hs' (batch_collect hs' dimbinFlushPages_perm)
    refine ⟨{ dimbinFlushKeys s with flushNeeded := false, data := data, writeBuf := wb },_,
      ?_,rfl,?_,?_⟩
    · unfold plan submitted at hwrite
      unfold submitted at hempty hclean
      simp only [dimbinFlushOutcome,hwb,hdata,hgeom,hcount,hempty,if_false,hwrite,
        bind_eq_bind,bind_some]
      erw [hclean]
      rfl
    · intro hwhole p hp k hk
      obtain ⟨data',hplan,hw⟩ := writePlan_spec s.geom.pageSize hs (plan s) s.data hrun hheld
      cases (hfull hwhole).symm.trans hplan
      rw [hflat] at hw
      exact (hw.page p k hk).trans (if_pos hp)
    · intro hle p hp
      have hlen := flushPages_length hs
      have hlive := (hloss (.inl (by
        show (submitted s).length = s.writeBuf.count
        unfold submitted
        omega))).live
      refine (bufferedPage_eq_none hcl.sound).mpr fun slot hslot heq => ?_
      refine ((hlive slot).mp hslot).2 ?_
      rw [heq]
      exact hp

theorem binTruthful_of_whole (hs : Sound s.writeBuf) (hwhole : BinWhole out s) :
    BinTruthful out s := by
  have hflush := dimbinFlushOutcome_spec out hs
  choose s' rc hcall hstatus hspec using hflush
  have hok : ∀ b, rc b = .ok := by
    intro b
    rw [hstatus b,statusAfter_full]
    intro o ho
    obtain ⟨c,hc,rfl⟩ := List.mem_map.mp ho
    exact hwhole c hc
  refine ⟨fun b => (s' b,rc b),hcall,?_,fun b b' => (hok b).trans (hok b').symm⟩
  refine fun b => ⟨fun _ p hp => ⟨?_,(hspec b).written hwhole p hp⟩,fun hne => absurd (hok b) hne⟩
  intro c hc k hk
  rw [hwhole c hc]
  exact Nat.mul_le_mul_right _ (List.getElem?_eq_some_iff.mp hk).1

theorem last_not_done {chunk : List Nat} (hchunk : chunk ∈ plan s)
    (hne : out (chunk.headD 0) ≠ .full) : ∃ p ∈ submitted s, ¬ PageDone out s p := by
  have hnil := writeChunks_ne_nil _ _ chunk hchunk
  have hpos : 0 < chunk.length := length_pos_iff.mpr hnil
  have hlast : chunk[chunk.length - 1]? = some (chunk.getLast hnil) := by
    rw [← getLast?_eq_getElem?,getLast?_eq_some_getLast hnil]
  refine ⟨chunk.getLast hnil,?_,fun hdone => ?_⟩
  · rw [← (plan_spec s).2]
    exact mem_flatten.mpr ⟨chunk,hchunk,getLast_mem hnil⟩
  · have hle := hdone chunk hchunk _ hlast
    have hlt := transferred_lt (Nat.mul_pos hpos s.geom.page_pos) hne
    rw [Nat.sub_add_cancel hpos] at hle
    omega

theorem whole_of_binTruthful (hs : Sound s.writeBuf) (hbatch : s.writeBuf.count ≤ maxFlushBatch)
    (htrue : BinTruthful out s) : BinWhole out s := by
  intro c hc
  by_contra hne
  obtain ⟨p,hp,hdone⟩ := last_not_done hc hne
  obtain ⟨result,hcall,hbins,_⟩ := htrue
  obtain ⟨s',rc,hcall',hstatus,hspec⟩ := dimbinFlushOutcome_spec out hs .inline
  have hres : result .inline = (s',rc) := Option.some.inj ((hcall .inline).symm.trans hcall')
  have ht := hbins .inline
  rw [hres] at ht
  have hrc : rc ≠ .ok := by
    intro hok
    rw [hstatus] at hok
    exact hne (statusAfter_inline hok _ (List.mem_map.mpr ⟨c,hc,rfl⟩))
  have hkept := ht.kept hrc p hp hdone
  rw [hspec.dropped hbatch p hp] at hkept
  exact submitted_buffered hs hp hkept.symm

end DimbinFlush

/-- For every store and every outcome of its page writes: the status of `graveldb_flush`,
`graveldb_flush_poll` and `dimbin_flush` is truthful and the same for all back ends, and a failed
flush keeps its pages, if all writes are whole; and only then, as long as one flush takes all
buffered pages. -/
theorem flush_status_truthful (db : GravelDB) (hs : ∀ s ∈ db.bins, Sound s.writeBuf)
    (out : Nat → Nat → WriteOutcome) :
    (StoreWhole out db →
      StoreTruthful out db (fun b => graveldbFlushOutcome b out db) ∧
      StoreTruthful out db (fun b => flushPollOutcome b out db)) ∧
    (OneBatch db →
      (StoreTruthful out db (fun b => graveldbFlushOutcome b out db) → StoreWhole out db) ∧
      (StoreTruthful out db (fun b => flushPollOutcome b out db) → StoreWhole out db)) ∧
    ∀ s ∈ db.bins, ∀ chunkOut : Nat → WriteOutcome,
      (BinWhole chunkOut s → BinTruthful chunkOut s) ∧
      (s.writeBuf.count ≤ maxFlushBatch → BinTruthful chunkOut s → BinWhole chunkOut s) := by
  have hflush := graveldbFlushOutcome_spec out hs
  have hpoll := flushPollOutcome_spec out hs
  refine ⟨fun hw => ⟨?_,?_⟩,fun hbatch => ⟨?_,?_⟩,fun s hm chunkOut => ⟨?_,?_⟩⟩
  · exact storeTruthful_of_whole hflush hw
  · exact storeTruthful_of_whole hpoll hw
  · exact whole_of_storeTruthful hs hflush hbatch
  · exact whole_of_storeTruthful hs hpoll hbatch
  · exact binTruthful_of_whole (hs s hm)
  · exact whole_of_binTruthful (hs s hm)

def bufferedBin : DimBin := Slots.onePageStore.bins.get ⟨0,by decide +kernel⟩

theorem onePageStore_bins : Slots.onePageStore.bins = [bufferedBin] :=
  ext_get (by decide +kernel) (by
    intro n h1 h2
    obtain rfl : n = 0 := by simpa using h2
    rfl)

theorem bufferedBin_sound : Sound bufferedBin.writeBuf :=
  ⟨⟨6,by decide +kernel⟩,by decide +kernel,by decide +kernel,by decide +kernel,by decide +kernel⟩

theorem whole_flush_truthful :
    StoreTruthful (fun _ _ => .full) Slots.onePageStore
      (fun b => graveldbFlushOutcome b (fun _ _ => .full) Slots.onePageStore) ∧
    BinTruthful (fun _ => .full) bufferedBin := by
  have hs : ∀ s ∈ Slots.onePageStore.bins, Sound s.writeBuf := by
    intro s hm
    rw [onePageStore_bins] at hm
    rw [mem_singleton.mp hm]
    exact bufferedBin_sound
  obtain ⟨hstore,_,hbin⟩ := flush_status_truthful Slots.onePageStore hs (fun _ _ => .full)
  refine ⟨(hstore fun _ _ _ _ _ => rfl).1,(hbin bufferedBin ?_ _).1 fun _ _ => rfl⟩
  rw [onePageStore_bins]
  exact mem_singleton_self _

/-- A write of which no byte reaches the file: the ring reports "ok", the other back ends an error,
and all of them drop the page. -/
theorem short_write_is_dropped :
    (∀ b, (graveldbFlushOutcome b (fun _ _ => .short 0) Slots.onePageStore).map
        (fun r => (r.2,r.1.bins.map (fun s => (s.data.cell 0,s.writeBuf.count)))) =
      some (if b = .ring then .ok else .errIo,[(0,0)])) ∧
    (bufferedPage bufferedBin.writeBuf 0).map (fun buf => buf.bytes 0) = some 1 ∧
    ¬ StoreTruthful (fun _ _ => .short 0) Slots.onePageStore
      (fun b => graveldbFlushOutcome b (fun _ _ => .short 0) Slots.onePageStore) := by
  have hring : (graveldbFlushOutcome .ring (fun _ _ => .short 0) Slots.onePageStore).map Prod.snd =
      some .ok := by decide +kernel
  refine ⟨fun b => by cases b <;> decide +kernel,by decide +kernel,?_⟩
  rintro ⟨result,hcall,hbins,_⟩
  have hres : graveldbFlushOutcome .ring (fun _ _ => .short 0) Slots.onePageStore = some (result .ring) :=
    hcall .ring
  rw [hres,map_some,Option.some.injEq] at hring
  obtain ⟨_,_,ht⟩ := hbins .ring 0 bufferedBin (by rw [onePageStore_bins]; rfl)
  obtain ⟨hdone,_⟩ := ht.reached hring 0 (by decide +kernel)
  cases hdone

end Gravel.Proofs.FlushStatus
