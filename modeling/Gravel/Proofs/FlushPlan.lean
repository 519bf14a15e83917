import Gravel.Model.FlushPlan
import Gravel.Proofs.FrameLaw

namespace Gravel.Proofs.FlushPlan
open Chunks File PageMap FlushCleanup PageBytes FlushPages BinRun List Option Function

section Buffers

variable {wb : WriteBuffer} {pages : List Nat}

def pageWrite (wb : WriteBuffer) (p : Nat) : Nat × (Nat → UInt8) := (p,flushedBytes wb p)

def bufferedWrites (wb : WriteBuffer) : List (Nat × (Nat → UInt8)) :=
  (liveSlots wb.capacity wb.slots).map (fun s => (s.pageId,s.data.bytes))

def pageBuf (wb : WriteBuffer) (p : Nat) : PageBuf := (bufferedPage wb p).getD nullBuf

def Held (wb : WriteBuffer) (pages : List Nat) : Prop :=
  ∀ p ∈ pages, ∃ s ∈ liveSlots wb.capacity wb.slots, s.pageId = p

theorem Held.part (h : Held wb pages) {part : List Nat} (hp : part <:+: pages) : Held wb part :=
  fun p hm => h p (hp.subset hm)

theorem pageBuf_bytes {p : Nat} (h : Sound wb)
    (hp : ∃ s ∈ liveSlots wb.capacity wb.slots, s.pageId = p) :
    (pageBuf wb p).bytes = flushedBytes wb p := by
  obtain ⟨⟨_,b⟩,hs,rfl⟩ := hp
  have hb := (bufferedPage_eq_some h).mpr hs
  funext i
  simp only [pageBuf,flushedBytes,hb,getD_some]

theorem gatherIov_held (h : Sound wb) (hp : Held wb pages) :
    gatherIov wb pages = some (pages.map (pageBuf wb)) := by
  induction pages with
  | nil => rfl
  | cons p rest ih =>
    obtain ⟨⟨_,b⟩,hs,rfl⟩ := hp p mem_cons_self
    have hb := (bufferedPage_eq_some h).mpr hs
    have hlook := (lookup_held h hs).1
    simp only at hlook
    simp only [gatherIov,hlook,ih (fun q hq => hp q (mem_cons_of_mem _ hq)),
      bind_eq_bind,bind_some,toList_some,map_cons,pageBuf,hb,
      getD_some,singleton_append,Option.pure_def]

theorem writev_run (pageSize : Nat) (wb : WriteBuffer) (n : Nat) : ∀ (p : Nat) (data : File UInt8),
    (∀ q ∈ List.range' p n, (pageBuf wb q).bytes = flushedBytes wb q) →
    writev pageSize data (p * pageSize) ((List.range' p n).map (pageBuf wb)) =
      writeEach pageSize data ((List.range' p n).map (pageWrite wb)) := by
  induction n with
  | zero => exact fun p data _ => rfl
  | succ n ih =>
    intro p data hbytes
    rw [range'_succ] at hbytes ⊢
    have hrest := ih (p + 1) (data.write (p * pageSize) pageSize (flushedBytes wb p))
      (fun q hq => hbytes q (mem_cons_of_mem p hq))
    rw [map_cons,map_cons,writev,hbytes p mem_cons_self,← Nat.succ_mul,hrest]
    rfl

end Buffers

section Chunks

variable {wb : WriteBuffer} {pageSize : Nat} {chunk : List Nat}

structure PlanChunk (chunk : List Nat) : Prop where
  run : chunk = List.range' (chunk.headD 0) chunk.length
  nonempty : chunk ≠ []
  short : chunk.length ≤ flushIovMax

def chunkOps (pageSize : Nat) (wb : WriteBuffer) (chunk : List Nat) : List FlushOp :=
  flushOps (chunk.headD 0 * pageSize) (chunk.map (pageBuf wb))

theorem planChunk_held (h : Sound wb) (hp : Held wb chunk) :
    planChunk pageSize wb chunk = some (chunkOps pageSize wb chunk) := by
  simp only [planChunk,gatherIov_held h hp,bind_eq_bind,bind_some,Option.pure_def,
    chunkOps]

theorem performAll_flushOps (data : File UInt8) (offset : Nat) (iov : List PageBuf) :
    performAll pageSize data (flushOps offset iov) = writev pageSize data offset iov := by
  unfold flushOps
  split <;> rfl

theorem iov_flushOps (offset : Nat) (iov : List PageBuf) :
    (flushOps offset iov).flatMap FlushOp.iov = iov := by
  unfold flushOps
  split <;> simp [FlushOp.iov]

theorem flushOps_short {offset n : Nat} {iov : List PageBuf} (h : iov.length ≤ n) :
    ∀ op ∈ flushOps offset iov, op.iov.length ≤ n := by
  intro op hop
  have hsub : op.iov.Sublist ((flushOps offset iov).flatMap FlushOp.iov) :=
    sublist_flatten_of_mem (List.mem_map_of_mem hop)
  rw [iov_flushOps] at hsub
  exact Nat.le_trans hsub.length_le h

theorem performAll_chunkOps (h : Sound wb) (hp : Held wb chunk) (hc : PlanChunk chunk)
    (data : File UInt8) :
    performAll pageSize data (chunkOps pageSize wb chunk) =
      writeEach pageSize data (chunk.map (pageWrite wb)) := by
  have hrun := writev_run pageSize wb chunk.length (chunk.headD 0) data
  rw [← hc.run] at hrun
  rw [chunkOps,performAll_flushOps,hrun (fun q hq => pageBuf_bytes h (hp q hq))]

end Chunks

section Plan

variable {wb : WriteBuffer} {pageSize : Nat} {pages : List Nat}

/-- The chunks of a plan: peephole runs, cut into sub-runs of consecutive pages, cut by size. -/
def planChunks (pages : List Nat) : List (List Nat) :=
  (pages.splitBy continuesRun).flatMap (fun run =>
    (run.splitBy followsPage).flatMap (chunks flushIovMax))

theorem gatherOps_eq {plan : List Nat → Option (List FlushOp)} {ops : List Nat → List FlushOp}
    (parts : List (List Nat)) (h : ∀ part ∈ parts, plan part = some (ops part)) :
    gatherOps plan parts = some (parts.flatMap ops) := by
  induction parts with
  | nil => rfl
  | cons part rest ih =>
    simp only [gatherOps,h part mem_cons_self,
      ih (fun q hq => h q (mem_cons_of_mem part hq)),bind_eq_bind,bind_some,
      Option.pure_def,flatMap_cons]

theorem splitBy_part {r : Nat → Nat → Bool} {part : List Nat} (h : part ∈ pages.splitBy r) :
    part <:+: pages := by
  have := infix_of_mem_flatten h
  rwa [flatten_splitBy] at this

theorem flushIovMax_pos : 0 < flushIovMax := by decide

theorem planRun_held (h : Sound wb) (hp : Held wb pages) :
    planRun pageSize wb pages = some (((pages.splitBy followsPage).flatMap
      (chunks flushIovMax)).flatMap (chunkOps pageSize wb)) := by
  have hsub : ∀ sub ∈ pages.splitBy followsPage, planSubRun pageSize wb sub =
      some ((chunks flushIovMax sub).flatMap (chunkOps pageSize wb)) := by
    intro sub hm
    refine gatherOps_eq _ (fun chunk hc => planChunk_held h ?_)
    exact hp.part ((isChunk_of_mem flushIovMax_pos hc).part.trans (splitBy_part hm))
  simp only [planRun,gatherIov_held h hp,gatherOps_eq _ hsub,bind_eq_bind,bind_some,
    flatMap_assoc]

theorem dimbinFlushPlan_eq (h : Sound wb) :
    dimbinFlushPlan pageSize wb = some ((planChunks (dimbinFlushPages maxFlushBatch wb)).flatMap
      (chunkOps pageSize wb)) := by
  have hheld : Held wb (dimbinFlushPages maxFlushBatch wb) :=
    fun p hp => collectPages_held (dimbinFlushPages_perm.mem_iff.mp hp)
  rw [dimbinFlushPlan,gatherOps_eq _ (fun run hm => planRun_held h (hheld.part (splitBy_part hm))),
    planChunks,flatMap_assoc]

theorem flatten_planChunks (pages : List Nat) : (planChunks pages).flatten = pages := by
  have hcut : ∀ run : List Nat, ((run.splitBy followsPage).flatMap (chunks flushIovMax)).flatten =
      run := by
    intro run
    have hflat : ∀ subs : List (List Nat), (subs.flatMap (chunks flushIovMax)).flatten =
        subs.flatten := by
      intro subs
      induction subs with
      | nil => rfl
      | cons sub subs ih =>
        rw [flatMap_cons,flatten_append,flatten_chunks flushIovMax_pos,ih,
          flatten_cons]
    rw [hflat,flatten_splitBy]
  have hflat : ∀ runs : List (List Nat), (runs.flatMap (fun run =>
      (run.splitBy followsPage).flatMap (chunks flushIovMax))).flatten = runs.flatten := by
    intro runs
    induction runs with
    | nil => rfl
    | cons run runs ih => rw [flatMap_cons,flatten_append,hcut,ih,flatten_cons]
  rw [planChunks,hflat,flatten_splitBy]

theorem range_of_follows : ∀ l : List Nat, l.IsChain (fun a b => followsPage a b) →
    l.Pairwise (· < ·) → l = List.range' (l.headD 0) l.length := by
  intro l
  induction l with
  | nil => exact fun _ _ => rfl
  | cons a l ih =>
    intro hchain hsorted
    cases l with
    | nil => rfl
    | cons b l =>
      obtain ⟨hfollow,hchain⟩ := isChain_cons_cons.mp hchain
      obtain ⟨hlt,hsorted⟩ := pairwise_cons.mp hsorted
      have hrest := ih hchain hsorted
      have hb : b = a + 1 := by
        have hab := hlt b mem_cons_self
        rw [followsPage,decide_eq_true_eq] at hfollow
        omega
      subst hb
      rw [headD_cons] at hrest
      rw [headD_cons,length_cons (a := a),range'_succ,← hrest]

theorem planChunk_of_mem (hsorted : pages.Pairwise (· < ·)) {chunk : List Nat}
    (hm : chunk ∈ planChunks pages) : PlanChunk chunk := by
  obtain ⟨run,hrun,hm⟩ := mem_flatMap.mp hm
  obtain ⟨sub,hsub,hm⟩ := mem_flatMap.mp hm
  have hc := isChunk_of_mem flushIovMax_pos hm
  have hpart : chunk <:+: pages := hc.part.trans ((splitBy_part hsub).trans (splitBy_part hrun))
  have hchain := List.IsChain.infix (isChain_of_mem_splitBy hsub) hc.part
  exact ⟨range_of_follows chunk hchain (hsorted.sublist hpart.sublist),hc.nonempty,hc.short⟩

end Plan

section Execution

variable {wb : WriteBuffer} {pageSize : Nat} {cs : List (List Nat)}

structure Planned (wb : WriteBuffer) (cs : List (List Nat)) : Prop where
  chunk : ∀ c ∈ cs, PlanChunk c
  held : Held wb cs.flatten
  nodup : cs.flatten.Nodup

theorem Planned.heldChunk (h : Planned wb cs) {c : List Nat} (hc : c ∈ cs) : Held wb c :=
  h.held.part (infix_of_mem_flatten hc)

theorem fst_pageWrite (pages : List Nat) : (pages.map (pageWrite wb)).map Prod.fst = pages := by
  rw [List.map_map]
  exact List.map_id pages

theorem Planned.perform (hs : Sound wb) (h : Planned wb cs) (data : File UInt8) :
    performAll pageSize data (cs.flatMap (chunkOps pageSize wb)) =
      writeEach pageSize data (cs.flatten.map (pageWrite wb)) := by
  have hone : ∀ c ∈ cs, ∀ data, performAll pageSize data (chunkOps pageSize wb c) =
      writeEach pageSize data (c.map (pageWrite wb)) :=
    fun c hc => performAll_chunkOps hs (h.heldChunk hc) (h.chunk c hc)
  clear h
  induction cs generalizing data with
  | nil => rfl
  | cons c cs ih =>
    rw [flatMap_cons,performAll,foldl_append,flatten_cons,map_append,
      writeEach_append,← hone c mem_cons_self]
    exact ih _ (fun d hd => hone d (mem_cons_of_mem c hd))

theorem chunkOps_single {op : FlushOp} (hop : op ∈ cs.flatMap (chunkOps pageSize wb)) :
    ∃ c ∈ cs, chunkOps pageSize wb c = [op] := by
  obtain ⟨c,hc,hop⟩ := mem_flatMap.mp hop
  refine ⟨c,hc,?_⟩
  unfold chunkOps flushOps at hop ⊢
  split at hop
  · cases hop
  · rw [mem_singleton.mp hop]
  · rw [mem_singleton.mp hop]

theorem Planned.perform_perm (hs : Sound wb) (h : Planned wb cs) {order : List FlushOp}
    (hperm : order.Perm (cs.flatMap (chunkOps pageSize wb))) (data : File UInt8) :
    performAll pageSize data order =
      performAll pageSize data (cs.flatMap (chunkOps pageSize wb)) := by
  refine hperm.foldl_eq' ?_ data
  intro x hx y hy z
  obtain ⟨c,hc,hxc⟩ := chunkOps_single (hperm.mem_iff.mp hx)
  obtain ⟨d,hd,hyd⟩ := chunkOps_single (hperm.mem_iff.mp hy)
  have hperform : ∀ {c op}, c ∈ cs → chunkOps pageSize wb c = [op] → ∀ z,
      op.perform pageSize z = writeEach pageSize z (c.map (pageWrite wb)) := by
    intro c op hc hop z
    rw [← performAll_chunkOps hs (h.heldChunk hc) (h.chunk c hc),hop]
    rfl
  by_cases hcd : c = d
  · subst hcd
    rw [hxc] at hyd
    rw [(List.cons.inj hyd).1]
  · obtain ⟨heach,hapart⟩ := nodup_flatten.mp h.nodup
    have : Std.Symm (List.Disjoint (α := Nat)) := ⟨fun _ _ hdisj => hdisj.symm⟩
    have hnodup : (c ++ d).Nodup := (heach c hc).append (heach d hd) (hapart.forall hc hd hcd)
    rw [hperform hc hxc,hperform hd hyd,hperform hd hyd,hperform hc hxc,← writeEach_append,
      ← writeEach_append,← map_append,← map_append]
    exact writeEach_perm (by rw [fst_pageWrite]; exact hnodup)
      (perm_append_comm.map (pageWrite wb)) z

end Execution

section Result

variable {wb : WriteBuffer}

/-- Through every back end the requests leave the file that writing each buffered page on its own
leaves. Every buffer is handed over once, and at most `UIO_MAXIOV` of them in a request. -/
structure WritesEachOnce (pageSize : Nat) (wb : WriteBuffer) (data : File UInt8)
    (ops : List FlushOp) : Prop where
  file : ∀ backend data', Executes backend pageSize data ops data' →
    data' = writeEach pageSize data (bufferedWrites wb)
  untouched : ∀ backend data' i, Executes backend pageSize data ops data' →
    (∀ s ∈ liveSlots wb.capacity wb.slots,
      ¬ (s.pageId * pageSize ≤ i ∧ i < s.pageId * pageSize + pageSize)) →
    data'.cell i = data.cell i
  once : (ops.flatMap FlushOp.iov).Perm (heldBufs wb)
  bounded : ∀ op ∈ ops, op.iov.length ≤ 1024

theorem flushPages_sorted (hs : Sound wb) :
    (dimbinFlushPages maxFlushBatch wb).Pairwise (· < ·) := by
  have hle : (dimbinFlushPages maxFlushBatch wb).Pairwise (· ≤ ·) := pairwise_insertionSort _ _
  have hne : (dimbinFlushPages maxFlushBatch wb).Nodup :=
    dimbinFlushPages_perm.nodup_iff.mpr (collectPages_nodup hs _)
  exact (hle.and hne).imp (fun h => Nat.lt_of_le_of_ne h.1 h.2)

theorem flushPages_all (hs : Sound wb) (hcount : wb.count ≤ maxFlushBatch) :
    (dimbinFlushPages maxFlushBatch wb).Perm
      ((liveSlots wb.capacity wb.slots).map PageSlot.pageId) := by
  have hperm : (dimbinFlushPages maxFlushBatch wb).Perm (collectPages maxFlushBatch wb) :=
    dimbinFlushPages_perm
  rwa [collectPages_eq,take_of_length_le (by rw [length_map,hs.live_length]; exact hcount)]
    at hperm

theorem planned (hs : Sound wb) : Planned wb (planChunks (dimbinFlushPages maxFlushBatch wb)) := by
  have hsorted := flushPages_sorted hs
  refine ⟨fun c hc => planChunk_of_mem hsorted hc,?_,?_⟩
  · rw [flatten_planChunks]
    exact fun p hp => collectPages_held (dimbinFlushPages_perm.mem_iff.mp hp)
  · rw [flatten_planChunks]
    exact hsorted.imp (fun h => Nat.ne_of_lt h)

theorem writes_perm (hs : Sound wb) (hcount : wb.count ≤ maxFlushBatch) :
    ((dimbinFlushPages maxFlushBatch wb).map (pageWrite wb)).Perm (bufferedWrites wb) := by
  have hmap : ((liveSlots wb.capacity wb.slots).map PageSlot.pageId).map (pageWrite wb) =
      bufferedWrites wb := by
    rw [List.map_map]
    apply map_congr_left
    intro s hslot
    rw [comp_apply,pageWrite,(lookup_held hs hslot).2]
  rw [← hmap]
  exact (flushPages_all hs hcount).map _

theorem bufs_perm (hs : Sound wb) (hcount : wb.count ≤ maxFlushBatch) :
    ((dimbinFlushPages maxFlushBatch wb).map (pageBuf wb)).Perm (heldBufs wb) := by
  have hmap : ((liveSlots wb.capacity wb.slots).map PageSlot.pageId).map (pageBuf wb) =
      heldBufs wb := by
    rw [List.map_map,heldBufs]
    apply map_congr_left
    intro s hslot
    rw [comp_apply,pageBuf,(bufferedPage_eq_some hs).mpr hslot,getD_some]
  rw [← hmap]
  exact (flushPages_all hs hcount).map _

/-- In whichever order the requests are performed, the file is that of the pages written one by
one. -/
theorem executes_each (hs : Sound wb) (hcount : wb.count ≤ maxFlushBatch) {pageSize : Nat}
    {backend : IoBackend} {data data' : File UInt8} (h : Executes backend pageSize data
      ((planChunks (dimbinFlushPages maxFlushBatch wb)).flatMap (chunkOps pageSize wb)) data') :
    data' = writeEach pageSize data (bufferedWrites wb) := by
  have hplan := planned hs
  have hall : performAll pageSize data
      ((planChunks (dimbinFlushPages maxFlushBatch wb)).flatMap (chunkOps pageSize wb)) =
      writeEach pageSize data (bufferedWrites wb) := by
    rw [hplan.perform hs,flatten_planChunks]
    refine writeEach_perm ?_ (writes_perm hs hcount) data
    rw [fst_pageWrite]
    exact (flushPages_sorted hs).imp (fun h => Nat.ne_of_lt h)
  cases backend with
  | ring =>
    obtain ⟨order,hperm,rfl⟩ := h
    rw [hplan.perform_perm hs hperm,hall]
  | inline => exact Eq.trans h hall
  | direct => exact Eq.trans h hall

/-- The plan of `dimbin_flush` writes each buffered page once and at its place. -/
theorem flush_plan_exact (pageSize : Nat) (wb : WriteBuffer) (data : File UInt8) (hs : Sound wb)
    (hcount : wb.count ≤ 65536) :
    ∃ ops, dimbinFlushPlan pageSize wb = some ops ∧ WritesEachOnce pageSize wb data ops := by
  refine ⟨_,dimbinFlushPlan_eq hs,?_,?_,?_,?_⟩
  · exact fun backend data' h => executes_each hs hcount h
  · intro backend data' i h hout
    rw [executes_each hs hcount h]
    refine writeEach_outside _ data ?_
    intro w hw
    obtain ⟨s,hslot,rfl⟩ := List.mem_map.mp hw
    exact hout s hslot
  · have hbufs : ∀ cs : List (List Nat), (cs.flatMap (chunkOps pageSize wb)).flatMap FlushOp.iov =
        cs.flatten.map (pageBuf wb) := by
      intro cs
      induction cs with
      | nil => rfl
      | cons c cs ih =>
        rw [flatMap_cons,flatMap_append,ih,chunkOps,iov_flushOps,flatten_cons,
          map_append]
    rw [hbufs,flatten_planChunks]
    exact bufs_perm hs hcount
  · intro op hop
    obtain ⟨c,hc,hop⟩ := mem_flatMap.mp hop
    refine flushOps_short ?_ op hop
    rw [length_map]
    exact ((planned hs).chunk c hc).short

/-- Pages 1, 5 and 6 are within one peephole run, of which only 5 and 6 are consecutive; the last
page is far behind them. -/
def scatteredBuffer : WriteBuffer where
  slots i := match i with
    | 0 => ⟨4294967288,⟨1,fun _ => 1⟩⟩
    | 1 => ⟨1,⟨2,fun _ => 2⟩⟩
    | 5 => ⟨5,⟨3,fun _ => 3⟩⟩
    | 6 => ⟨6,⟨4,fun _ => 4⟩⟩
    | _ => emptySlot
  capacity := 8
  count := 4
  maxPages := 4
  flushBytes := 0
  pagePool := []

theorem scatteredBuffer_sound : Sound scatteredBuffer where
  pow := ⟨3,rfl⟩
  room := by decide
  counted := by decide
  found := by decide +kernel
  owned := by decide

theorem scattered_pages_written : ∃ ops, dimbinFlushPlan 16 scatteredBuffer = some ops ∧
    ops.map (fun op => op.iov.length) = [1,2,1] ∧
    WritesEachOnce 16 scatteredBuffer File.empty ops := by
  obtain ⟨ops,hplan,hwrites⟩ := flush_plan_exact 16 scatteredBuffer File.empty scatteredBuffer_sound
    (by decide)
  have hcount : (dimbinFlushPlan 16 scatteredBuffer).map
    (fun ops => ops.map (fun op => op.iov.length)) = some [1,2,1] := by decide +kernel
  rw [hplan] at hcount
  exact ⟨ops,hplan,Option.some.inj hcount,hwrites⟩

end Result

section Flush

variable {s s' : DimBin}

theorem writePlan_each {wb : WriteBuffer} (pageSize : Nat) (hs : Sound wb) (cs : List (List Nat)) :
    ∀ data : File UInt8, (∀ c ∈ cs, c = List.range' (c.headD 0) c.length) → Held wb cs.flatten →
      writePlan pageSize wb data cs =
        some (writeEach pageSize data (cs.flatten.map (pageWrite wb))) := by
  induction cs with
  | nil => exact fun data _ _ => rfl
  | cons c cs ih =>
    intro data hrun hheld
    have hc : Held wb c := fun p hp => hheld p (by
      rw [flatten_cons]
      exact mem_append_left _ hp)
    have hrest : Held wb cs.flatten := fun p hp => hheld p (by
      rw [flatten_cons]
      exact mem_append_right c hp)
    have hwrite := writev_run pageSize wb c.length (c.headD 0) data
    rw [← hrun c mem_cons_self] at hwrite
    simp only [writePlan,gatherIov_held hs hc,bind_eq_bind,bind_some]
    rw [hwrite (fun q hq => pageBuf_bytes hs (hc q hq)),
      ih _ (fun d hd => hrun d (mem_cons_of_mem c hd)) hrest,flatten_cons,
      map_append,writeEach_append]

theorem dimbinFlush_data (hs : Sound s.writeBuf) (h : dimbinFlush s = some s') :
    s'.data = writeEach s.geom.pageSize s.data
      ((dimbinFlushPages maxFlushBatch s.writeBuf).map (pageWrite s.writeBuf)) := by
  obtain ⟨hwb,hdata,hgeom⟩ := dimbinFlushKeys_frame s
  have hlen := flushPages_length hs
  unfold dimbinFlush at h
  simp only [hwb,hdata,hgeom] at h
  by_cases hempty : dimbinFlushPages maxFlushBatch s.writeBuf = []
  · rw [hempty] at h ⊢
    simp only [if_true,ite_self] at h
    cases h
    rfl
  · have hcount : s.writeBuf.count ≠ 0 := by
      intro h0
      rw [h0,Nat.min_zero] at hlen
      exact hempty (eq_nil_of_length_eq_zero hlen)
    obtain ⟨hrun,hflat⟩ := writeChunks_spec (dimbinFlushPages maxFlushBatch s.writeBuf) [] ⟨0,rfl⟩
    rw [reverse_nil,nil_append] at hflat
    have hplan := writePlan_each s.geom.pageSize hs _ s.data hrun (by
      rw [hflat]
      exact fun p hp => collectPages_held (dimbinFlushPages_perm.mem_iff.mp hp))
    rw [hflat] at hplan
    simp only [hcount,hempty,if_false,hplan,bind_eq_bind,bind_some] at h
    obtain ⟨wb,_,h⟩ := bind_eq_some_iff.mp h
    cases h
    rfl

theorem dimbinFlush_executes (hs : Sound s.writeBuf) (h : dimbinFlush s = some s') (backend : IoBackend)
    (data : File UInt8) : Executes backend s.geom.pageSize s.data
      ((planChunks (dimbinFlushPages maxFlushBatch s.writeBuf)).flatMap
        (chunkOps s.geom.pageSize s.writeBuf)) data ↔ data = s'.data := by
  have hall := @Planned.perform _ s.geom.pageSize _ hs (planned hs) s.data
  rw [flatten_planChunks,← dimbinFlush_data hs h] at hall
  cases backend with
  | ring =>
    refine ⟨?_,fun heq => ⟨_,.refl _,heq.trans hall.symm⟩⟩
    rintro ⟨order,hperm,rfl⟩
    exact ((planned hs).perform_perm hs hperm s.data).trans hall
  | inline => exact ⟨fun heq => heq.trans hall,fun heq => heq.trans hall.symm⟩
  | direct => exact ⟨fun heq => heq.trans hall,fun heq => heq.trans hall.symm⟩

/-- In every state that a bin can get to, the requests of a flush leave the file of the flush, and
no other one, in whichever order they are performed. -/
theorem reachable_flush_executes {g : Geometry} {bufferSize : Nat} {data : File UInt8}
    {keys : File UInt64} {s0 : DimBin} {ops : List BinOp}
    (hinit : dimbinInit g bufferSize data keys = some s0) (hmax : writeMax g bufferSize < 2 ^ 28)
    (hrun : runBin s0 ops = some s) :
    ∃ s' plan, dimbinFlush s = some s' ∧ dimbinFlushPlan s.geom.pageSize s.writeBuf = some plan ∧
      ∀ backend data', Executes backend s.geom.pageSize s.data plan data' ↔ data' = s'.data := by
  have hs := ((dimbinInit_inv hinit hmax).run hrun).buf.sound
  obtain ⟨data,wb,hflush,_⟩ := dimbinFlush_spec hs
  exact ⟨_,_,hflush,dimbinFlushPlan_eq hs,dimbinFlush_executes hs hflush⟩

theorem smallBin_flush_executes :
    ∃ s s' plan, FrameLaw.smallBin [.alloc,.putBatch [⟨0,fun _ => 1⟩]] = some s ∧
      dimbinFlush s = some s' ∧ dimbinFlushPlan s.geom.pageSize s.writeBuf = some plan ∧
      ∀ backend data', Executes backend s.geom.pageSize s.data plan data' ↔ data' = s'.data := by
  obtain ⟨s,hs⟩ := isSome_iff_exists.mp (by decide +kernel :
    (FrameLaw.smallBin [.alloc,.putBatch [⟨0,fun _ => 1⟩]]).isSome)
  obtain ⟨g,s0,hg,hinit,hrun⟩ := FrameLaw.smallBin_run hs
  obtain ⟨s',plan,h⟩ := reachable_flush_executes hinit
    (by rw [FrameLaw.smallBin_max hg]; decide) hrun
  exact ⟨s,s',plan,hs,h⟩

end Flush

end Gravel.Proofs.FlushPlan
