import Gravel.Proofs.BinEntries

namespace Gravel.Proofs.BinEntries
open File PageMap PageBytes FlushCleanup FlushPages DirtySet PutPage PutBatch BinRun KeyBuffer
  OverlayMap List Option

/-- The bin once `entries` are in its pages: an entry has the bytes of its last write, or its own. -/
structure Written (s : DimBin) (entries : List EmbWriteEntry) (s' : DimBin) : Prop where
  frame : BatchFrame s s'
  inv : BinInv s.writeBuf.maxPages s'
  covered : ∀ p, Covered s p ∨ (∃ w ∈ entries, s.geom.pageOf w.entryId = p) → Covered s' p
  bytes : ∀ e, Allocated s e → ∀ i < s.geom.entrySize,
    entryByte s' e i = (lastWrite e entries).getD (entryByte s e) i

section Written

variable {s s' s'' : DimBin} {m : OverlayVectors} {L : Entries} {e : Nat}
  {entries entries' : List EmbWriteEntry}

theorem Written.owned (h : Written s entries s') : Owned s' e ↔ Owned s e := by
  rw [h.frame.frame]
  rfl

theorem mem_of_lastWrite {v : Nat → UInt8} (h : lastWrite e entries = some v) :
    ∃ w ∈ entries, w.entryId = e := by
  by_contra hn
  push Not at hn
  rw [lastWrite_eq_none.mpr hn] at h
  cases h

/-- Vectors that go past the overlay become the entries of the bin. -/
theorem BinRep.written (h : BinRep s m L) (hw : Written s entries s')
    (howned : ∀ w ∈ entries, Owned s w.entryId) (hm : ∀ w ∈ entries, m w.entryId = none) :
    BinRep s' m (fun e => (lastWrite e entries).or (L e)) ∧ ∀ x, keyAt s' x = keyAt s x := by
  have hfr := hw.frame.frame
  have hgeom := hw.frame.geom
  obtain ⟨hkeys,hkey⟩ := keysFlushed_spec h.keys hw.frame.keys (by rw [hfr])
  have hlive : ∀ e, ((lastWrite e entries).or (L e)).isSome → Owned s e := by
    intro e he
    cases hl : lastWrite e entries with
    | none =>
      rw [hl,none_or] at he
      exact h.owned e he
    | some v =>
      obtain ⟨w,hwm,rfl⟩ := mem_of_lastWrite hl
      exact howned w hwm
  refine ⟨⟨by rw [hw.frame.maxPages]; exact hw.inv,hkeys,by rw [hgeom]; exact h.fits,
    by rw [hfr]; exact h.bump,by rw [hfr]; exact h.small,by rw [hfr]; exact h.free,
    by rw [hfr]; exact h.freed,by rw [hfr]; exact h.overlay,by rw [hfr]; exact h.budget,
    fun e he => hw.owned.mpr (hlive e he),?_,?_⟩,hkey⟩
  · intro e v hv i hi
    rw [hgeom] at hi
    have hi' := Nat.lt_of_lt_of_le hi s.geom.vector_le
    have hbytes := hw.bytes e (hlive e (by rw [hv]; rfl)).allocated i hi'
    cases hl : lastWrite e entries with
    | some data =>
      obtain ⟨w,hwm,rfl⟩ := mem_of_lastWrite hl
      rw [hl,some_or] at hv
      rw [hm w hwm,getD_none,hbytes,hl,getD_some,Option.some.inj hv]
    | none =>
      rw [hl,none_or] at hv
      rw [hl,getD_none] at hbytes
      rw [← h.bytes e v hv i hi]
      cases m e with
      | some d => rfl
      | none => exact hbytes
  · intro e he hme
    rw [hgeom]
    apply hw.covered
    cases hl : lastWrite e entries with
    | none =>
      rw [hl,none_or] at he
      exact .inl (h.disk e he hme)
    | some v =>
      obtain ⟨w,hwm,rfl⟩ := mem_of_lastWrite hl
      exact .inr ⟨w,hwm,rfl⟩

theorem BinRep.moved (h : BinRep s m L) (hw : Written s [] s') :
    BinRep s' m L ∧ ∀ x, keyAt s' x = keyAt s x := by
  have := h.written hw (by simp) (by simp)
  simpa only [lastWrite,none_or] using this

end Written

section Flushes

variable {s s' : DimBin} {entries : List EmbWriteEntry}

theorem putBatch_written (h : BinInv s.writeBuf.maxPages s) (hck : s.inCheckpoint = false)
    (hs : PutSafe s (pageGroups s.geom entries)) :
    ∃ s', dimbinPutBatch s entries = some (s',.ok) ∧ Written s entries s' := by
  obtain ⟨s',hput,hframe,hinv,hcovered,hbytes⟩ := dimbinPutBatch_safe h hck hs
  exact ⟨s',hput,hframe,hinv,hcovered,hbytes⟩

/-- A flush moves pages to the file and changes no entry. -/
theorem Flush.written {pages : List Nat} (h : BinInv s.writeBuf.maxPages s)
    (hfits : s.geom.entrySize ≤ s.geom.pageSize)
    (hfl : Flush s.geom.pageSize pages s.writeBuf s.data s'.writeBuf s'.data)
    (hl : s.writeBuf.count ≤ pages.length ∨ ChainsClear s.writeBuf pages) (hframe : s' = { s with
      keys := s'.keys, keyBuf := s'.keyBuf, flushNeeded := s'.flushNeeded
      data := s'.data, writeBuf := s'.writeBuf })
    (hkeys : KeysFlushed s s') : Written s [] s' := by
  have hgeom : s'.geom = s.geom := by rw [hframe]
  have hmax : s'.writeBuf.maxPages = s.writeBuf.maxPages := hfl.cleaned.maxPages
  refine ⟨⟨?_,hkeys,hmax⟩,⟨?_,?_,hmax,h.bound⟩,?_,?_⟩
  · rw [hframe]
  · rw [hframe]
    exact hfl.bufInv h.buf
  · rw [hframe]
    exact h.tracker
  · rintro p (hp | ⟨w,hw,_⟩)
    · unfold Covered at hp ⊢
      rw [hgeom]
      exact hfl.covered h.buf.sound hl hp
    · cases hw
  · intro e _ i hi
    unfold entryByte pageBytes
    rw [hgeom,hfl.view h.buf.sound hl (offset_lt hfits hi)]
    rfl

theorem flush_written (h : BinInv s.writeBuf.maxPages s)
    (hfits : s.geom.entrySize ≤ s.geom.pageSize) (hf : FlushSafe s.writeBuf) :
    ∃ s', dimbinFlush s = some s' ∧ Written s [] s' := by
  obtain ⟨data,wb,heq,hfl⟩ := dimbinFlush_spec h.buf.sound
  refine ⟨_,heq,Flush.written h hfits hfl (hf.lossless h.buf.sound) ?_ (.inr ⟨rfl,rfl⟩)⟩
  rw [dimbinFlushKeys_eq s]

theorem writePages_spec {wb : WriteBuffer} (pageSize : Nat) (hs : Sound wb) (pages : List Nat)
    (hp : ∀ p ∈ pages, ∃ s ∈ liveSlots wb.capacity wb.slots, s.pageId = p) :
    ∀ data, ∃ data', writePages pageSize wb data pages = some data' ∧
      PagesWritten pageSize (flushedBytes wb) pages data data' := by
  induction pages with
  | nil => exact fun data => ⟨data,rfl,.nil⟩
  | cons p rest ih =>
    intro data
    obtain ⟨slot,hslot,rfl⟩ := hp p mem_cons_self
    obtain ⟨hlookup,hbytes⟩ := lookup_held hs hslot
    obtain ⟨data',hwrite,hw⟩ := ih (fun q hq => hp q (mem_cons_of_mem _ hq))
      (data.write (slot.pageId * pageSize) pageSize (flushedBytes wb slot.pageId))
    refine ⟨data',?_,PagesWritten.single.trans hw⟩
    simp only [writePages,hlookup,bind_eq_bind,bind_some]
    rw [← hbytes]
    exact hwrite

end Flushes

end Gravel.Proofs.BinEntries
