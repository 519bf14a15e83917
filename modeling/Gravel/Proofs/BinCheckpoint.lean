import Gravel.Proofs.BinWrites

namespace Gravel.Proofs.BinEntries
open PageBytes FlushPages DirtySet PutPage PutBatch BinRun KeyBuffer OverlayMap Rehash List Option
  Function

section Overlay

variable {s s' : DimBin} {m : OverlayVectors} {L : Entries} {e : Nat}
  {entries : List EmbWriteEntry}

theorem BinRep.overlayRep (h : BinRep s m L) (hck : s.inCheckpoint = true) :
    OverlayRep s.overlay m := by
  have := h.overlay
  rwa [OverlayState,if_pos hck] at this

theorem BinRep.no_overlay (h : BinRep s m L) (hck : s.inCheckpoint = false) :
    s.overlay = overlayDestroyed ∧ m = fun _ => none := by
  have := h.overlay
  rwa [OverlayState,if_neg (by simp [hck])] at this

theorem BinRep.overlaid (h : BinRep s m L) (hck : s.inCheckpoint = true) {t : Table OverlaySlot}
    {n : Nat} {m' : OverlayVectors} {L' : Entries}
    (hrep : OverlayRep { s.overlay with table := t, memoryUsed := n } m')
    (howned : ∀ e, (L' e).isSome → Owned s e)
    (hL : ∀ e v, L' e = some v → (∃ d, m' e = some d ∧ ∀ i < s.geom.dim * 4, d i = v i) ∨
      (m' e = m e ∧ L e = some v)) :
    BinRep { s with overlay := { s.overlay with table := t, memoryUsed := n } } m' L' := by
  refine ⟨h.inv.congr rfl rfl rfl,h.keys.congr rfl rfl rfl,h.fits,h.bump,h.small,h.free,h.freed,?_,
    h.budget,howned,?_,?_⟩
  · rw [OverlayState,if_pos hck]
    exact hrep
  · intro e v hv i hi
    rcases hL e v hv with ⟨d,hd,hdv⟩ | ⟨hm,hLe⟩
    · rw [hd]
      exact hdv i hi
    · rw [hm]
      exact h.bytes e v hLe i hi
  · intro e he hm
    obtain ⟨v,hv⟩ := isSome_iff_exists.mp he
    rcases hL e v hv with ⟨d,hd,_⟩ | ⟨hme,hLe⟩
    · rw [hd] at hm
      cases hm
    · exact h.disk e (by rw [hLe]; rfl) (hme.symm.trans hm)

theorem lastWrite_cons_or (w : EmbWriteEntry) (rest : List EmbWriteEntry) (L : Entries) (x : Nat) :
    (lastWrite x (w :: rest)).or (L x) =
      (lastWrite x rest).or (update L w.entryId (some w.data) x) := by
  rw [lastWrite]
  cases lastWrite x rest with
  | some d => rfl
  | none =>
    by_cases hx : w.entryId = x
    · subst hx
      simp
    · simp [hx,update_of_ne (Ne.symm hx)]

/-- During a checkpoint a write goes to the overlay and the pages stay as they are. -/
theorem BinRep.overlayWrite (h : BinRep s m L) (hck : s.inCheckpoint = true) {w : EmbWriteEntry}
    (hown : Owned s w.entryId) (hcap : s.overlay.table.capacity < 2 ^ 29)
    (hvis : ¬ Hidden overlayLayout s.overlay.table w.entryId) :
    ∃ t n d, overlayPut true s.overlay w.entryId w.data s.geom.dim =
        some ({ s.overlay with table := t, memoryUsed := n },.ok) ∧
      BinRep { s with overlay := { s.overlay with table := t, memoryUsed := n } }
        (update m w.entryId (some d)) (update L w.entryId (some w.data)) ∧
      n = if (m w.entryId).isSome then s.overlay.memoryUsed
        else s.overlay.memoryUsed + (s.geom.dim * 4 + overlaySlotSize) := by
  have hne : w.entryId ≠ overlayEmpty := by
    have := hown.1
    have := h.small
    unfold overlayEmpty
    omega
  obtain ⟨t,n,hput,hrep,hused⟩ := put_rep (h.overlayRep hck) hne hcap hvis w.data s.geom.dim
  refine ⟨t,n,_,hput,h.overlaid hck hrep ?_ ?_,hused⟩
  · intro x hx
    by_cases hxe : x = w.entryId
    · rw [hxe]
      exact hown
    · rw [update_of_ne hxe] at hx
      exact h.owned x hx
  · intro x v hv
    by_cases hxe : x = w.entryId
    · subst hxe
      rw [update_self] at hv
      refine .inl ⟨_,update_self ..,?_⟩
      intro i hi
      rw [overlayCopy,if_pos hi,Option.some.inj hv]
    · rw [update_of_ne hxe] at hv
      exact .inr ⟨update_of_ne hxe ..,hv⟩

end Overlay

/-- No vector and no tombstone is left in the overlay. -/
def OverlayIdle (s : DimBin) : Prop :=
  s.overlay.table.count = 0 ∧ s.overlay.tombstones = []

section Checkpoint

variable {s s' : DimBin} {m : OverlayVectors} {L : Entries} {e : Nat}
  {entries : List EmbWriteEntry}

theorem BinRep.idle (h : BinRep s m L) (hi : OverlayIdle s) : m = fun _ => none := by
  cases hck : s.inCheckpoint with
  | false => exact (h.no_overlay hck).2
  | true =>
    funext e
    rw [← lastWrite_replay (h.overlayRep hck) e,replayEntries,hi.1,take_zero]
    rfl

/-- The begin of a checkpoint flushes the bin and loses nothing. -/
theorem BinRep.checkpointBegin {pools : Nat} (h : BinRep s m L) (hf : FlushSafe s.writeBuf)
    (hi : OverlayIdle s) (hpools : pools < slabMaxPools) :
    ∃ s', dimbinCheckpointBegin pools s = some s' ∧ BinRep s' (fun _ => none) L ∧
      s'.inCheckpoint = true ∧ s'.geom = s.geom ∧ ∀ x, keyAt s' x = keyAt s x := by
  obtain ⟨s1,hflush,hw⟩ := flush_written h.inv h.fits hf
  obtain ⟨h1,hkey⟩ := h.moved hw
  have hm := h.idle hi
  have htomb : s1.overlay.tombstones = [] := by
    rw [hw.frame.frame]
    exact hi.2
  refine ⟨{ s1 with
    dirty := dirtyTrackerSwap s1.dirty
    overlay := { overlayInit with budgetBytes := s1.overlayBudget }
    inCheckpoint := true },
    by simp only [dimbinCheckpointBegin,overlayCreate,if_pos hpools,hflush,bind_eq_bind,bind_some]; rfl,
    ?_,rfl,hw.frame.geom,hkey⟩
  have hfree := h1.free
  have hfreed := h1.freed
  have howned := h1.owned
  simp only [Owned,htomb,nil_append] at hfree hfreed howned
  subst hm
  exact ⟨⟨h1.inv.buf,h1.inv.tracker.swap,h1.inv.limit,h1.inv.bound⟩,h1.keys.congr rfl rfl rfl,
    h1.fits,h1.bump,h1.small,hfree,hfreed,⟨init_rep.valid,init_rep.represents⟩,fun hb => hb,
    howned,h1.bytes,h1.disk⟩

end Checkpoint

end Gravel.Proofs.BinEntries
