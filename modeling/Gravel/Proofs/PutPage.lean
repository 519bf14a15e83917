import Gravel.Proofs.DirtySet
import Gravel.Proofs.EnsurePage

namespace Gravel.Proofs.PutPage
open File PageMap PageBytes FlushPages EnsurePage DirtySet List Option Function

section Entries

variable {g : Geometry} {e e' i j : Nat} {page page' : Nat → UInt8} {w : EmbWriteEntry}
  {entries : List EmbWriteEntry}

theorem offset_lt (hf : g.entrySize ≤ g.pageSize) (hi : i < g.entrySize) :
    g.offsetInPage e + i < g.pageSize := by
  have hle := g.entries_le hf
  have hm := Nat.mod_lt e g.entries_pos
  have := Nat.mul_le_mul_right g.entrySize (Nat.succ_le_of_lt hm)
  rw [Nat.succ_mul] at this
  unfold Geometry.offsetInPage
  omega

/-- Two entries of a page have no byte in common. -/
theorem slots_disjoint (hp : g.pageOf e = g.pageOf e') (hne : e ≠ e') (hi : i < g.entrySize) :
    ¬ (g.offsetInPage e' ≤ g.offsetInPage e + i ∧
      g.offsetInPage e + i < g.offsetInPage e' + g.entrySize) := by
  rintro ⟨hlo,hhi⟩
  apply hne
  have hmod : e % g.entriesPerPage = e' % g.entriesPerPage := by
    simp only [Geometry.offsetInPage] at hlo hhi
    rcases Nat.lt_trichotomy (e % g.entriesPerPage) (e' % g.entriesPerPage) with h | h | h
    · have := Nat.mul_le_mul_right g.entrySize (Nat.succ_le_of_lt h)
      rw [Nat.succ_mul] at this
      omega
    · exact h
    · have := Nat.mul_le_mul_right g.entrySize (Nat.succ_le_of_lt h)
      rw [Nat.succ_mul] at this
      omega
  have he := Nat.div_add_mod' e g.entriesPerPage
  have he' := Nat.div_add_mod' e' g.entriesPerPage
  unfold Geometry.pageOf at hp
  rw [← he,← he',hp,hmod]

/-- The data that the list leaves in entry `e`. -/
def lastWrite (e : Nat) : List EmbWriteEntry → Option (Nat → UInt8)
  | [] => none
  | w :: rest =>
    match lastWrite e rest with
    | some data => some data
    | none => if w.entryId = e then some w.data else none

theorem lastWrite_eq_none : lastWrite e entries = none ↔ ∀ w ∈ entries, w.entryId ≠ e := by
  induction entries with
  | nil => simp [lastWrite]
  | cons w rest ih =>
    rw [lastWrite,forall_mem_cons,← ih]
    cases lastWrite e rest with
    | some data => simp
    | none => simp

theorem copyEntry_self (hi : i < g.entrySize) :
    copyEntry g page w (g.offsetInPage w.entryId + i) = w.data i := by
  rw [copyEntry,if_pos ⟨by omega,by omega⟩,Nat.add_sub_cancel_left]

theorem copyEntry_other (hp : g.pageOf e = g.pageOf w.entryId) (hne : e ≠ w.entryId)
    (hi : i < g.entrySize) :
    copyEntry g page w (g.offsetInPage e + i) = page (g.offsetInPage e + i) :=
  if_neg (slots_disjoint hp hne hi)

theorem foldl_copyEntry_congr (h : page j = page' j) :
    entries.foldl (copyEntry g) page j = entries.foldl (copyEntry g) page' j := by
  induction entries generalizing page page' with
  | nil => exact h
  | cons w rest ih =>
    apply ih
    simp only [copyEntry,h]

theorem foldl_copyEntry (hp : ∀ w ∈ entries, g.pageOf w.entryId = g.pageOf e)
    (hi : i < g.entrySize) :
    entries.foldl (copyEntry g) page (g.offsetInPage e + i) =
      (lastWrite e entries).getD (fun i => page (g.offsetInPage e + i)) i := by
  induction entries generalizing page with
  | nil => rfl
  | cons w rest ih =>
    rw [foldl_cons,ih (fun w hw => hp w (mem_cons_of_mem _ hw)),lastWrite]
    cases lastWrite e rest with
    | some data => rfl
    | none =>
      by_cases hw : w.entryId = e
      · subst hw
        simp [copyEntry_self hi]
      · simp only [if_neg hw]
        exact copyEntry_other (hp w mem_cons_self).symm (Ne.symm hw) hi

end Entries

/-- The bin after the entries of one page were put, up to what an eviction may have flushed before. -/
structure PagePut (s : DimBin) (p : Nat) (entries : List EmbWriteEntry) (s' : DimBin) : Prop where
  frame : s' = { s with
    keys := s'.keys, keyBuf := s'.keyBuf, flushNeeded := s'.flushNeeded
    data := s'.data, writeBuf := s'.writeBuf, nextAddr := s'.nextAddr, dirty := s'.dirty }
  keys : KeysFlushed s s'
  inv : BufInv s'.writeBuf s'.nextAddr
  maxPages : s'.writeBuf.maxPages = s.writeBuf.maxPages
  disk : DiskFlushed s s'
  pages : ∀ q, (bufferedPage s'.writeBuf q).isSome → q = p ∨ (bufferedPage s.writeBuf q).isSome
  tracker : s'.dirty = { ensureTracker s.dirty p with active := s'.dirty.active }
  trackerInv : TrackerInv s'.dirty
  marked : ∀ q, Marked s'.dirty.active q ↔ Marked s.dirty.active q ∨ q = p
  kept : EvictSafe s p → ∀ q ≠ p, ∀ i < s.geom.pageSize, pageBytes s' q i = pageBytes s q i
  covered : EvictSafe s p → ∀ q, q = p ∨ Covered s q → Covered s' q
  put : ∀ i < s.geom.pageSize, pageBytes s' p i =
    entries.foldl (copyEntry s.geom) (fun j => if keepsPage s p then pageBytes s p j else 0) i

section Put

variable {s s' : DimBin} {p i idx : Nat} {entries : List EmbWriteEntry}

theorem ensureTracker_active (dt : DirtyTracker) (p : Nat) :
    (ensureTracker dt p).active = dt.active := by
  unfold ensureTracker dirtyTrackerResize
  split_ifs <;> rfl

theorem ensureTracker_inv {dt : DirtyTracker} (h : TrackerInv dt) :
    TrackerInv (ensureTracker dt p) := by
  unfold ensureTracker
  split_ifs
  · exact h.resize
  · exact h

theorem copyEntries_spec (entries : List EmbWriteEntry) (h : BufInv s.writeBuf s.nextAddr) (hidx : idx < s.writeBuf.capacity)
    (hslot : (s.writeBuf.slots idx).pageId = p) (hp : p ≠ pageSlotEmpty) :
    ∃ wb, copyEntries s idx entries = { s with writeBuf := wb } ∧ BufInv wb s.nextAddr ∧
      wb.maxPages = s.writeBuf.maxPages ∧
      bufferedPage wb p = some ⟨(s.writeBuf.slots idx).data.addr,
        entries.foldl (copyEntry s.geom) (s.writeBuf.slots idx).data.bytes⟩ ∧
      ∀ q ≠ p, bufferedPage wb q = bufferedPage s.writeBuf q := by
  obtain ⟨slot,hs⟩ : ∃ slot : PageSlot, slot = ⟨(s.writeBuf.slots idx).pageId,
    (s.writeBuf.slots idx).data.addr,
    entries.foldl (copyEntry s.geom) (s.writeBuf.slots idx).data.bytes⟩ := ⟨_,rfl⟩
  obtain ⟨hsound,hheld,hlive⟩ := rewriteSlot_sound slot h.sound hidx (by rw [hs])
    (by rw [hs]) (by rw [hs,hslot]; exact hp)
  have hview := view_insert slot h.sound hsound (p := p) (by rw [hs,hslot]) (by
    intro x
    rw [hlive x,hs,hslot])
  refine ⟨{ s.writeBuf with slots := update s.writeBuf.slots idx slot },?_,
    ⟨hsound,h.limit,h.positive,h.roomy,h.snug,?_⟩,rfl,?_,hview.2⟩
  · rw [hs]
    rfl
  · intro a ha
    rw [map_append,hheld,← map_append] at ha
    exact h.fresh a ha
  · rw [hview.1,hs]

theorem putPage_spec (entries : List EmbWriteEntry) (h : BufInv s.writeBuf s.nextAddr) (ht : TrackerInv s.dirty)
    (hmax : s.writeBuf.maxPages < 2 ^ 28) (hp : p ≠ pageSlotEmpty)
    (hf : s.geom.entrySize ≤ s.geom.pageSize) (hroom : HasRoom s.dirty.active p) :
    ∃ s', putPage s p entries = some s' ∧ PagePut s p entries s' := by
  obtain ⟨s0,hs0⟩ : ∃ s0 : DimBin, s0 = { s with dirty := ensureTracker s.dirty p } := ⟨_,rfl⟩
  have hwb : s0.writeBuf = s.writeBuf := by rw [hs0]
  obtain ⟨s1,idx,hens,he⟩ := writeBufEnsurePage_spec (s := s0) (p := p)
    (by rw [hs0]; exact h) (by rw [hwb]; exact hmax) hp
  have hframe := he.frame
  have hgeom : s1.geom = s.geom := by rw [hframe,hs0]
  have hdirty : s1.dirty = ensureTracker s.dirty p := by rw [hframe,hs0]
  obtain ⟨active,hmark,htinv,hmarked⟩ := (ensureTracker_inv (p := p) ht).mark
    (by rw [ensureTracker_active]; exact hroom)
  obtain ⟨wb,hcopy,hinv,hmaxwb,hbuf,hother⟩ := copyEntries_spec entries he.inv he.bound
    he.slot hp
  have hpb : ∀ q i, pageBytes s0 q i = pageBytes s q i := by
    intro q i
    rw [hs0]
    rfl
  refine ⟨{ s1 with writeBuf := wb, dirty := { ensureTracker s.dirty p with active := active } },
    ?_,?_⟩
  · rw [hs0] at hens
    have hfit : ¬ s.geom.pageSize < s.geom.entrySize := by omega
    simp only [putPage,hens,bind_eq_bind,bind_some,hgeom,if_neg hfit,hdirty,hmark,
      hcopy]
    rfl
  · refine ⟨?_,?_,hinv,?_,?_,?_,rfl,htinv,?_,?_,?_,?_⟩
    · rw [hframe,hs0]
    · have hsame : KeysFlushed s s0 := .inl ⟨by rw [hs0],by rw [hs0]⟩
      exact hsame.trans (by rw [hs0]) he.keys
    · rw [hmaxwb,he.maxPages,hwb]
    · have := he.disk
      rw [hs0] at this
      exact this
    · intro q hq
      by_cases hqp : q = p
      · exact .inl hqp
      · rw [hother q hqp] at hq
        rw [← hwb]
        exact he.pages q hq
    · intro q
      rw [hmarked q,ensureTracker_active]
    · intro hsafe q hqp i hi
      have hk := he.kept (by rw [hs0]; exact hsafe) q hqp i (by rw [hs0]; exact hi)
      rw [hpb] at hk
      rw [← hk]
      simp only [pageBytes,pageView,hother q hqp]
    · intro hsafe q hq
      by_cases hqp : q = p
      · exact .inl (by rw [hqp,hbuf]; rfl)
      · have hcov : Covered s0 q := by
          rw [hs0]
          exact hq.resolve_left hqp
        rcases he.covered (by rw [hs0]; exact hsafe) q hcov with hq | hq
        · exact .inl (by rw [hother q hqp]; exact hq)
        · exact .inr hq
    · intro i hi
      have hfill := he.fill i (by rw [hs0]; exact hi)
      have hkeeps : keepsPage s0 p = keepsPage s p := by
        rw [hs0]
        rfl
      rw [hpb,hkeeps] at hfill
      simp only [pageBytes,pageView,hbuf,hgeom]
      exact foldl_copyEntry_congr hfill

/-- A put of one page that returns had what it needs. -/
theorem putPage_some (ht : TrackerInv s.dirty) (h : BufInv s.writeBuf s.nextAddr)
    (hmax : s.writeBuf.maxPages < 2 ^ 28) (hput : putPage s p entries = some s') :
    p ≠ pageSlotEmpty ∧ s.geom.entrySize ≤ s.geom.pageSize ∧ HasRoom s.dirty.active p := by
  have hp : p ≠ pageSlotEmpty := by
    rintro rfl
    simp [putPage,writeBufEnsurePage] at hput
  obtain ⟨s0,hs0⟩ : ∃ s0 : DimBin, s0 = { s with dirty := ensureTracker s.dirty p } := ⟨_,rfl⟩
  obtain ⟨s1,idx,hens,he⟩ := writeBufEnsurePage_spec (s := s0) (p := p)
    (by rw [hs0]; exact h) (by rw [hs0]; exact hmax) hp
  have hframe := he.frame
  have hgeom : s1.geom = s.geom := by rw [hframe,hs0]
  have hdirty : s1.dirty = ensureTracker s.dirty p := by rw [hframe,hs0]
  rw [hs0] at hens
  simp only [putPage,hens,bind_eq_bind,bind_some,hgeom,hdirty] at hput
  split_ifs at hput with hbig
  refine ⟨hp,by omega,?_⟩
  by_contra hroom
  rw [← ensureTracker_active s.dirty p] at hroom
  simp [(ensureTracker_inv ht).mark_none hroom] at hput

end Put

end Gravel.Proofs.PutPage
