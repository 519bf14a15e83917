import Gravel.Proofs.FlushPages

namespace Gravel.Proofs.EnsurePage
open LinearProbe File PageMap PageBytes FlushPages List Option Function

section Slots

variable {wb : WriteBuffer} {p q idx : Nat}

theorem insertSlot_sound (slot : PageSlot) (pool : List PageBuf) (h : Sound wb) (hidx : idx < wb.capacity)
    (hempty : (wb.slots idx).pageId = pageSlotEmpty) (hp : slot.pageId ≠ pageSlotEmpty)
    (hreach : Reaches wb.capacity (pagemapHome wb.capacity) (pageAt wb.slots) slot.pageId idx)
    (habs : ∀ s ∈ liveSlots wb.capacity wb.slots, s.pageId ≠ slot.pageId)
    (hroom : wb.count + 1 < wb.capacity)
    (howned : ((slot.data :: heldBufs wb ++ pool).map PageBuf.addr).Nodup) :
    Sound { wb with
      slots := update wb.slots idx slot, count := wb.count + 1, pagePool := pool } ∧
    (liveSlots wb.capacity (update wb.slots idx slot)).Perm
      (slot :: liveSlots wb.capacity wb.slots) := by
  have hlive := liveSlots_fill hidx hempty hp
  have hmiss : ∀ k < wb.capacity, pageAt wb.slots k ≠ some slot.pageId := by
    intro k hk hkp
    obtain ⟨hid,hne⟩ := pageAt_eq_some.mp hkp
    exact habs (wb.slots k) (mem_liveSlots.mpr ⟨by rw [hid]; exact hne,k,hk,rfl⟩) hid
  have hprobed : Probed wb.capacity (pagemapHome wb.capacity)
      (pageAt (update wb.slots idx slot)) :=
    h.probed.insert (by omega) hidx (by simpa using hempty) hmiss hreach (by simp [hp])
      (fun j _ hj => pageAt_update hj)
  refine ⟨FlushCleanup.sound_of_probed h.pow hroom ?_ hprobed ?_,hlive⟩
  · simp only
    rw [hlive.length_eq,length_cons,h.live_length]
  · refine List.Perm.nodup_iff ?_ |>.mpr howned
    exact ((hlive.map PageSlot.data).append_right pool).map PageBuf.addr

theorem rewriteSlot_sound (slot : PageSlot) (h : Sound wb) (hidx : idx < wb.capacity)
    (hid : slot.pageId = (wb.slots idx).pageId) (haddr : slot.data.addr = (wb.slots idx).data.addr)
    (hp : slot.pageId ≠ pageSlotEmpty) :
    Sound { wb with slots := update wb.slots idx slot } ∧
    (heldBufs { wb with slots := update wb.slots idx slot }).map PageBuf.addr =
      (heldBufs wb).map PageBuf.addr ∧
    ∀ s, s ∈ liveSlots wb.capacity (update wb.slots idx slot) ↔
      s = slot ∨ s ∈ liveSlots wb.capacity wb.slots ∧ s.pageId ≠ slot.pageId := by
  have hids : ∀ j, (update wb.slots idx slot j).pageId = (wb.slots j).pageId := by
    intro j
    by_cases hj : j = idx
    · subst hj
      rw [update_self,hid]
    · rw [update_of_ne hj]
  have haddrs : ∀ j, (update wb.slots idx slot j).data.addr =
      (wb.slots j).data.addr := by
    intro j
    by_cases hj : j = idx
    · subst hj
      rw [update_self,haddr]
    · rw [update_of_ne hj]
  have hat : pageAt (update wb.slots idx slot) = pageAt wb.slots := by
    funext j
    simp only [pageAt,hids j]
  have hheld : (heldBufs { wb with slots := update wb.slots idx slot }).map PageBuf.addr =
      (heldBufs wb).map PageBuf.addr := by
    simp only [heldBufs,liveSlots,List.filter_map,List.map_map]
    have hf : ((fun s : PageSlot => decide (s.pageId ≠ pageSlotEmpty)) ∘
        update wb.slots idx slot) =
        (fun s : PageSlot => decide (s.pageId ≠ pageSlotEmpty)) ∘ wb.slots := by
      funext j
      simp only [Function.comp,hids j]
    rw [hf]
    apply map_congr_left
    intro j _
    exact haddrs j
  refine ⟨⟨h.pow,h.room,?_,?_,?_⟩,hheld,?_⟩
  · simp only [hat]
    exact h.counted
  · intro i hi hne
    refine found_of_probed h.pow ?_ hi hne
    rw [hat]
    exact h.probed
  · rw [map_append,hheld,← map_append]
    exact h.owned
  · intro s
    simp only [mem_liveSlots]
    constructor
    · rintro ⟨hne,j,hj,rfl⟩
      by_cases hji : j = idx
      · subst hji
        exact .inl (by rw [update_self])
      · rw [update_of_ne hji] at hne ⊢
        refine .inr ⟨⟨hne,j,hj,rfl⟩,?_⟩
        rw [hid]
        intro he
        exact hji (h.unique hidx hj (by rw [← hid]; exact hp) he)
    · rintro (rfl | ⟨⟨hne,j,hj,rfl⟩,hdiff⟩)
      · exact ⟨hp,idx,hidx,by rw [update_self]⟩
      · refine ⟨hne,j,hj,update_of_ne ?_ _ _⟩
        rintro rfl
        exact hdiff hid.symm

end Slots

section Steps

variable {s : DimBin} {p q i idx : Nat}

theorem growIfLoaded_idle {wb : WriteBuffer} {next : Nat} (h : BufInv wb next)
    (hlt : wb.count < wb.maxPages) (hmax : wb.maxPages < 2 ^ 28) : growIfLoaded wb = some wb := by
  have hroomy := h.roomy
  have hsnug := h.snug
  obtain ⟨k,hk⟩ := h.sound.pow
  have hk30 : k < 30 := by
    apply (Nat.pow_lt_pow_iff_right (a := 2) (by decide)).mp
    rw [← hk]
    omega
  have hcap : wb.capacity ≤ 2 ^ 29 := by
    rw [hk]
    exact Nat.pow_le_pow_right (by decide) (by omega)
  rw [growIfLoaded,if_neg]
  rw [Nat.mod_eq_of_lt (by omega),Nat.mod_eq_of_lt (by omega)]
  omega

theorem acquire_spec (h : BufInv s.writeBuf s.nextAddr) :
    ∃ pool next addr, writeBufAcquirePage s =
        ({ s with writeBuf := { s.writeBuf with pagePool := pool }, nextAddr := next },addr) ∧
      addr < next ∧ (addr :: (heldBufs s.writeBuf ++ pool).map PageBuf.addr).Nodup ∧
      ∀ a ∈ (heldBufs s.writeBuf ++ pool).map PageBuf.addr, a < next := by
  unfold writeBufAcquirePage
  have howned := h.sound.owned
  have hfresh := h.fresh
  cases hpool : s.writeBuf.pagePool with
  | nil =>
    rw [hpool] at howned hfresh
    refine ⟨[],s.nextAddr + 1,s.nextAddr,?_,by omega,?_,?_⟩
    · simp only
      rw [← hpool]
    · refine nodup_cons.mpr ⟨?_,howned⟩
      intro hm
      exact absurd (hfresh _ hm) (Nat.lt_irrefl _)
    · intro a ha
      have := hfresh a ha
      omega
  | cons buf rest =>
    rw [hpool] at howned hfresh
    have hperm : ((heldBufs s.writeBuf ++ buf :: rest).map PageBuf.addr).Perm
        (buf.addr :: (heldBufs s.writeBuf ++ rest).map PageBuf.addr) :=
      perm_middle.map PageBuf.addr
    refine ⟨rest,s.nextAddr,buf.addr,rfl,?_,hperm.nodup_iff.mp howned,?_⟩
    · exact hfresh _ (hperm.mem_iff.mpr mem_cons_self)
    · intro a ha
      exact hfresh a (hperm.mem_iff.mpr (mem_cons_of_mem _ ha))

end Steps

/-- The page comes into the buffer with its contents: it is there already or is loaded. -/
def keepsPage (s : DimBin) (p : Nat) : Bool :=
  (bufferedPage s.writeBuf p).isSome || loadsPage s p

def EvictSafe (s : DimBin) (p : Nat) : Prop :=
  bufferedPage s.writeBuf p = none → s.writeBuf.maxPages ≤ s.writeBuf.count →
    FlushSafe s.writeBuf

instance (s : DimBin) (p : Nat) : Decidable (EvictSafe s p) :=
  inferInstanceAs (Decidable (_ → _ → _))

def DiskFlushed (s s' : DimBin) : Prop :=
  ∃ pages, (∀ p ∈ pages, (bufferedPage s.writeBuf p).isSome) ∧
    PagesWritten s.geom.pageSize (flushedBytes s.writeBuf) pages s.data s'.data

structure Ensured (s : DimBin) (p : Nat) (s' : DimBin) (idx : Nat) : Prop where
  frame : s' = { s with
    keys := s'.keys, keyBuf := s'.keyBuf, flushNeeded := s'.flushNeeded
    data := s'.data, writeBuf := s'.writeBuf, nextAddr := s'.nextAddr }
  keys : KeysFlushed s s'
  inv : BufInv s'.writeBuf s'.nextAddr
  maxPages : s'.writeBuf.maxPages = s.writeBuf.maxPages
  bound : idx < s'.writeBuf.capacity
  slot : (s'.writeBuf.slots idx).pageId = p
  disk : DiskFlushed s s'
  pages : ∀ q, (bufferedPage s'.writeBuf q).isSome → q = p ∨ (bufferedPage s.writeBuf q).isSome
  kept : EvictSafe s p → ∀ q ≠ p, ∀ i < s.geom.pageSize, pageBytes s' q i = pageBytes s q i
  covered : EvictSafe s p → ∀ q, Covered s q → Covered s' q
  fill : ∀ i < s.geom.pageSize, (s'.writeBuf.slots idx).data.bytes i =
    if keepsPage s p then pageBytes s p i else 0

section Ensure

variable {s : DimBin} {p q i : Nat}

theorem DiskFlushed.refl (s : DimBin) : DiskFlushed s s := ⟨[],by simp,.nil⟩

theorem isSome_bufferedPage {wb : WriteBuffer} (h : Sound wb) :
    (bufferedPage wb p).isSome ↔ ∃ slot ∈ liveSlots wb.capacity wb.slots, slot.pageId = p := by
  constructor
  · intro hb
    obtain ⟨b,hb⟩ := isSome_iff_exists.mp hb
    exact ⟨_,(bufferedPage_eq_some h).mp hb,rfl⟩
  · rintro ⟨slot,hs,rfl⟩
    exact isSome_iff_exists.mpr ⟨slot.data,(bufferedPage_eq_some h).mpr hs⟩

theorem evict_spec (h : BufInv s.writeBuf s.nextAddr) (hp : bufferedPage s.writeBuf p = none) :
    ∃ s1, makeRoom s = some s1 ∧
      s1 = { s with
        keys := s1.keys, keyBuf := s1.keyBuf, flushNeeded := s1.flushNeeded
        data := s1.data, writeBuf := s1.writeBuf } ∧
      KeysFlushed s s1 ∧ BufInv s1.writeBuf s1.nextAddr ∧
      s1.writeBuf.maxPages = s.writeBuf.maxPages ∧ s1.writeBuf.count < s1.writeBuf.maxPages ∧
      DiskFlushed s s1 ∧
      (∀ slot ∈ liveSlots s1.writeBuf.capacity s1.writeBuf.slots,
        slot ∈ liveSlots s.writeBuf.capacity s.writeBuf.slots) ∧
      (∀ i < s.geom.pageSize, s1.data.page s.geom.pageSize p i = s.data.page s.geom.pageSize p i) ∧
      (EvictSafe s p → ∀ q, ∀ i < s.geom.pageSize, pageBytes s1 q i = pageBytes s q i) ∧
      (EvictSafe s p → ∀ q, Covered s q → Covered s1 q) := by
  by_cases hfull : s.writeBuf.maxPages ≤ s.writeBuf.count
  · obtain ⟨data,wb,heq,hflush⟩ := dimbinFlush_spec h.sound
    rw [dimbinFlushKeys_eq s] at heq
    have hkeys : KeysFlushed s { dimbinFlushKeys s with
      flushNeeded := false, data := data, writeBuf := wb } := .inr ⟨rfl,rfl⟩
    rw [dimbinFlushKeys_eq s] at hkeys
    have hnot : p ∉ dimbinFlushPages maxFlushBatch s.writeBuf := by
      intro hm
      obtain ⟨slot,hs,rfl⟩ := hflush.held p hm
      exact (bufferedPage_eq_none h.sound).mp hp slot hs rfl
    have hlen := flushPages_length h.sound
    have hcount := hflush.count_le
    have hpos := h.positive
    have hmax : wb.maxPages = s.writeBuf.maxPages := hflush.cleaned.maxPages
    have hbatch : 0 < maxFlushBatch := by decide
    refine ⟨_,by rw [makeRoom,if_pos hfull]; exact heq,rfl,hkeys,hflush.bufInv h,hmax,?_,
      ⟨_,fun q hq => ?_,hflush.written⟩,hflush.cleaned.sub,?_,?_,?_⟩
    · have := h.limit
      simp only [hmax]
      omega
    · exact (isSome_bufferedPage h.sound).mpr (hflush.held q hq)
    · intro i hi
      rw [hflush.written.page p i hi,if_neg hnot]
    · intro hsafe q i hi
      exact hflush.view h.sound ((hsafe hp hfull).lossless h.sound) hi
    · intro hsafe q hq
      exact hflush.covered h.sound ((hsafe hp hfull).lossless h.sound) hq
  · refine ⟨s,by rw [makeRoom,if_neg hfull],rfl,.refl s,h,rfl,by omega,.refl s,fun _ hs => hs,
      fun _ _ => rfl,fun _ _ _ _ => rfl,fun _ _ hq => hq⟩

theorem view_insert {wb wb' : WriteBuffer} (slot : PageSlot) (h : Sound wb) (h' : Sound wb')
    (hp : slot.pageId = p) (hl : ∀ s, s ∈ liveSlots wb'.capacity wb'.slots ↔
      s = slot ∨ s ∈ liveSlots wb.capacity wb.slots ∧ s.pageId ≠ p) :
    bufferedPage wb' p = some slot.data ∧
      ∀ q ≠ p, bufferedPage wb' q = bufferedPage wb q := by
  subst hp
  refine ⟨(bufferedPage_eq_some h').mpr ((hl _).mpr (.inl rfl)),?_⟩
  intro q hq
  apply bufferedPage_congr h h'
  intro b
  rw [hl]
  constructor
  · rintro (he | hs)
    · exact absurd (congrArg PageSlot.pageId he) hq
    · exact hs.1
  · intro hs
    exact .inr ⟨hs,hq⟩

theorem writeBufEnsurePage_held (h : BufInv s.writeBuf s.nextAddr) {b : PageBuf}
    (hb : bufferedPage s.writeBuf p = some b) :
    ∃ idx, writeBufEnsurePage s p = some (s,idx) ∧ Ensured s p s idx := by
  have hmem := (bufferedPage_eq_some h.sound).mp hb
  obtain ⟨idx,hidx,hfind,hslot⟩ := find_held h.sound hmem
  have hp : p ≠ pageSlotEmpty := (mem_liveSlots.mp hmem).1
  refine ⟨idx,?_,rfl,.refl s,h,rfl,hidx,by rw [hslot],.refl s,fun q hq => .inr hq,
    fun _ _ _ _ _ => rfl,fun _ _ hq => hq,?_⟩
  · simp only at hfind
    simp [writeBufEnsurePage,hp,hfind,hslot]
  · intro i _
    simp [keepsPage,hb,hslot,pageBytes,pageView]

theorem writeBufEnsurePage_absent (h : BufInv s.writeBuf s.nextAddr)
    (hmax : s.writeBuf.maxPages < 2 ^ 28) (hp : p ≠ pageSlotEmpty)
    (hb : bufferedPage s.writeBuf p = none) :
    ∃ s' idx, writeBufEnsurePage s p = some (s',idx) ∧ Ensured s p s' idx := by
  obtain ⟨idx0,_,hfind0,hempty0,_⟩ := find_absent h.sound hp ((bufferedPage_eq_none h.sound).mp hb)
  obtain ⟨s1,hevict,hframe,hkeys,h1,hmax1,hlt,hdisk,hsub,hpage,hkept,hcovered⟩ := evict_spec h hb
  have habs1 : ∀ slot ∈ liveSlots s1.writeBuf.capacity s1.writeBuf.slots, slot.pageId ≠ p :=
    fun slot hs => (bufferedPage_eq_none h.sound).mp hb slot (hsub slot hs)
  obtain ⟨idx,hidx,hfind,hempty,hreach⟩ := find_absent h1.sound hp habs1
  have hgrow := growIfLoaded_idle h1 hlt (by rw [hmax1]; exact hmax)
  obtain ⟨pool,next,addr,hacq,haddr,howned,hfresh⟩ := acquire_spec h1
  have hgeom : s1.geom = s.geom := by rw [hframe]
  have hloads : loadsPage s1 p = loadsPage s p := by
    rw [hframe]
    rfl
  obtain ⟨slot,hslot⟩ : ∃ slot : PageSlot, slot = ⟨p,addr,pageFill s1 p⟩ := ⟨_,rfl⟩
  have hroom : s1.writeBuf.count + 1 < s1.writeBuf.capacity := by
    have := h1.roomy
    have := h1.positive
    omega
  obtain ⟨hsound,hlive⟩ := insertSlot_sound slot pool h1.sound hidx hempty
    (by rw [hslot]; exact hp) (by rw [hslot]; exact hreach) (by rw [hslot]; exact habs1) hroom
    (by rw [hslot]; exact howned)
  have hmem : ∀ x, x ∈ liveSlots s1.writeBuf.capacity
      (update s1.writeBuf.slots idx slot) ↔
      x = slot ∨ x ∈ liveSlots s1.writeBuf.capacity s1.writeBuf.slots ∧ x.pageId ≠ p := by
    intro x
    rw [hlive.mem_iff,mem_cons]
    exact or_congr_right ⟨fun hx => ⟨hx,habs1 x hx⟩,And.left⟩
  obtain ⟨hnew,hother⟩ := view_insert slot h1.sound hsound (by rw [hslot]) hmem
  refine ⟨{ s1 with
      writeBuf := { s1.writeBuf with
        slots := update s1.writeBuf.slots idx slot
        count := s1.writeBuf.count + 1, pagePool := pool }
      nextAddr := next },idx,?_,?_⟩
  · have hne : (s.writeBuf.slots idx0).pageId ≠ p := by
      rw [hempty0]
      exact hp.symm
    have hins : insertPage s1 idx p = { s1 with
        writeBuf := { s1.writeBuf with
          slots := update s1.writeBuf.slots idx slot
          count := s1.writeBuf.count + 1, pagePool := pool }
        nextAddr := next } := by
      simp only [insertPage,hacq,hslot]
      rfl
    rw [← hins]
    simp only [writeBufEnsurePage,if_neg hp,hfind0,bind_eq_bind,bind_some,
      if_neg hne,hevict,hgrow,hfind]
    rfl
  · refine ⟨?_,hkeys,⟨hsound,?_,?_,?_,?_,?_⟩,hmax1,hidx,?_,hdisk,?_,?_,?_,?_⟩
    · rw [hframe]
    · simp only
      omega
    · exact h1.positive
    · exact h1.roomy
    · exact h1.snug
    · intro a ha
      have hperm := ((hlive.map PageSlot.data).append_right pool).map PageBuf.addr
      rcases mem_cons.mp (hperm.mem_iff.mp ha) with rfl | ha
      · rw [hslot]
        exact haddr
      · exact hfresh a ha
    · simp [hslot]
    · intro q hq
      by_cases hqp : q = p
      · exact .inl hqp
      · rw [hother q hqp] at hq
        obtain ⟨x,hx,rfl⟩ := (isSome_bufferedPage h1.sound).mp hq
        exact .inr ((isSome_bufferedPage h.sound).mpr ⟨x,hsub x hx,rfl⟩)
    · intro hsafe q hqp i hi
      rw [← hkept hsafe q i hi]
      simp only [pageBytes,pageView,hother q hqp]
    · intro hsafe q hq
      by_cases hqp : q = p
      · exact .inl (by rw [hqp,hnew]; rfl)
      · rcases hcovered hsafe q hq with hq | hq
        · exact .inl (by rw [hother q hqp]; exact hq)
        · exact .inr hq
    · intro i hi
      simp only [update_self,hslot,keepsPage,hb,isSome_none,Bool.false_or,
        pageFill,hloads,hgeom,pageBytes,pageView]
      split_ifs with hl
      · rw [read_zeroed hi,← hpage i hi]
        rfl
      · rfl

theorem writeBufEnsurePage_spec (h : BufInv s.writeBuf s.nextAddr)
    (hmax : s.writeBuf.maxPages < 2 ^ 28) (hp : p ≠ pageSlotEmpty) :
    ∃ s' idx, writeBufEnsurePage s p = some (s',idx) ∧ Ensured s p s' idx := by
  cases hb : bufferedPage s.writeBuf p with
  | none => exact writeBufEnsurePage_absent h hmax hp hb
  | some b =>
    obtain ⟨idx,heq,hens⟩ := writeBufEnsurePage_held h hb
    exact ⟨s,idx,heq,hens⟩

end Ensure

end Gravel.Proofs.EnsurePage
