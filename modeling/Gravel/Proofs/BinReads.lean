import Gravel.Model.Batch
import Gravel.Proofs.BinCheckpoint

namespace Gravel.Proofs.BinEntries
open File PageMap PageBytes FlushPages PutPage PutBatch BinRun OverlayMap Rehash Option

/-- The two lookups of a read during a checkpoint see the entry, if the overlay has it. -/
def OverlayVisible (s : DimBin) (e : Nat) : Prop :=
  s.inCheckpoint = true → ¬ Hidden overlayLayout s.overlay.table e ∧
    ∀ overlay held, overlayContains s.overlay e = some (overlay,held) →
      ¬ Hidden overlayLayout overlay.table e

/-- Where a page has one entry only, the direct read finds it at its offset. -/
def DirectSafe (s : DimBin) (e : Nat) : Prop :=
  s.geom.entriesPerPage = 1 → s.geom.entrySize = s.geom.pageSize ∨ e = 0

/-- The vector was copied from memory, or a read of the file is still to come. -/
def Found (s : DimBin) (m : OverlayVectors) (e : Nat) (v : Nat → UInt8) (r : Resolved) : Prop :=
  r.result.dim = s.geom.dim ∧
    match r.read with
    | none => ∀ i < s.geom.dim * 4, r.result.out i = v i
    | some x => x = e ∧ m e = none ∧ bufferedPage s.writeBuf (s.geom.pageOf e) = none

section Reads

variable {s s' : DimBin} {m : OverlayVectors} {L : Entries} {e i : Nat} {v : Nat → UInt8}

theorem lookup_eq_bufferedPage {wb : WriteBuffer} (h : Sound wb) {p : Nat}
    (hp : p ≠ pageSlotEmpty) : pagemapLookup wb.slots wb.capacity p = some (bufferedPage wb p) := by
  cases hb : bufferedPage wb p with
  | some b => exact (lookup_held h ((bufferedPage_eq_some h).mp hb)).1
  | none =>
    obtain ⟨idx,_,hfind,hempty,_⟩ := find_absent h hp ((bufferedPage_eq_none h).mp hb)
    simp only [pagemapLookup,hfind,hempty,if_neg (Ne.symm hp),bind_eq_bind,bind_some]
    rfl

theorem BinRep.page_ne (h : BinRep s m L) (he : Owned s e) : s.geom.pageOf e ≠ pageSlotEmpty := by
  have hle : s.geom.pageOf e ≤ e := Nat.div_le_self _ _
  have := he.1
  have := h.small
  unfold pageSlotEmpty
  omega

theorem BinRep.readBuffered (h : BinRep s m L) (hL : L e = some v) (hm : m e = none)
    (out : Nat → UInt8) : ∃ r, readBuffered s e out = some r ∧ Found s m e v r := by
  have hown := h.owned e (by rw [hL]; rfl)
  have hlookup := lookup_eq_bufferedPage h.inv.buf.sound (h.page_ne hown)
  cases hb : bufferedPage s.writeBuf (s.geom.pageOf e) with
  | none =>
    rw [hb] at hlookup
    exact ⟨⟨⟨s.geom.dim,out⟩,some e⟩,by simp [Gravel.readBuffered,hlookup],rfl,rfl,hm,hb⟩
  | some buf =>
    rw [hb] at hlookup
    refine ⟨⟨⟨s.geom.dim,copyBytes s.geom.entrySize
      (fun i => buf.bytes (s.geom.offsetInPage e + i)) out⟩,none⟩,
      by simp [Gravel.readBuffered,hlookup],rfl,?_⟩
    intro i hi
    have hv := h.bytes e v hL i hi
    rw [hm,getD_none,entryByte,pageBytes,pageView,hb] at hv
    simp only [copyBytes,Nat.lt_of_lt_of_le hi s.geom.vector_le,if_true]
    exact hv

theorem BinRep.readEntry (h : BinRep s m L) (hL : L e = some v) (hvis : OverlayVisible s e)
    (out : Nat → UInt8) :
    ∃ t r, readEntry s e out = some ({ s with overlay := { s.overlay with table := t } },r) ∧
      BinRep { s with overlay := { s.overlay with table := t } } m L ∧ Found s m e v r := by
  rcases Bool.eq_false_or_eq_true s.inCheckpoint with hck | hck
  · obtain ⟨hv1,hv2⟩ := hvis hck
    obtain ⟨t1,_,hcontains,hrep1⟩ := get_rep (h.overlayRep hck) hv1
    obtain ⟨t2,hget,_,hrep2⟩ := get_rep hrep1 (hv2 _ _ hcontains)
    have hstep : ∀ t, OverlayRep { s.overlay with table := t } m →
        BinRep { s with overlay := { s.overlay with table := t } } m L :=
      fun t ht => h.overlaid hck ht h.owned (fun _ _ hv => .inr ⟨rfl,hv⟩)
    cases hm : m e with
    | none =>
      rw [hm] at hcontains
      obtain ⟨r,hread,hfound⟩ := (hstep t1 hrep1).readBuffered hL hm out
      refine ⟨t1,r,?_,hstep t1 hrep1,hfound⟩
      rw [Gravel.readEntry,if_pos hck]
      simp only [hcontains,hread,isSome_none,Bool.false_eq_true,if_false,bind_eq_bind,
        bind_some,Option.pure_def]
    | some d =>
      rw [hm] at hcontains hget
      refine ⟨t2,⟨⟨s.geom.dim,copyBytes (s.geom.dim * 4) d out⟩,none⟩,?_,hstep t2 hrep2,rfl,?_⟩
      · rw [Gravel.readEntry,if_pos hck]
        simp only [hcontains,hget,isSome_some,if_true,bind_eq_bind,bind_some,
          Option.pure_def]
      · intro i hi
        have hv := h.bytes e v hL i hi
        rw [hm,getD_some] at hv
        simp only [copyBytes,hi,if_true]
        exact hv
  · obtain ⟨_,rfl⟩ := h.no_overlay hck
    obtain ⟨r,hread,hfound⟩ := h.readBuffered hL rfl out
    refine ⟨s.overlay.table,r,?_,h,hfound⟩
    rw [Gravel.readEntry,if_neg (by simp [hck]),hread]
    rfl

/-- What neither the overlay nor the write buffer has is in the file. -/
theorem BinRep.on_disk (h : BinRep s m L) (hL : L e = some v) (hm : m e = none)
    (hb : bufferedPage s.writeBuf (s.geom.pageOf e) = none) :
    s.geom.pageOf e * s.geom.pageSize + s.geom.pageSize ≤ s.data.size ∧
      ∀ i < s.geom.dim * 4,
        s.data.cell (s.geom.pageOf e * s.geom.pageSize + (s.geom.offsetInPage e + i)) = v i := by
  refine ⟨(h.disk e (by rw [hL]; rfl) hm).resolve_left (by simp [hb]),?_⟩
  intro i hi
  have hv := h.bytes e v hL i hi
  rw [hm,getD_none,entryByte,pageBytes,pageView,hb] at hv
  exact hv

theorem BinRep.pageRead (h : BinRep s m L) (hL : L e = some v) (hm : m e = none)
    (hb : bufferedPage s.writeBuf (s.geom.pageOf e) = none) (junk out : Nat → UInt8)
    (hi : i < s.geom.dim * 4) : pageRead s junk e out i = v i := by
  obtain ⟨hsize,hcell⟩ := h.on_disk hL hm hb
  have hlt := Nat.lt_of_lt_of_le hi s.geom.vector_le
  rw [Gravel.pageRead]
  simp only [copyBytes,hlt,if_true]
  rw [read_full (offset_lt h.fits hlt) hsize]
  exact hcell i hi

theorem BinRep.directRead (h : BinRep s m L) (hL : L e = some v) (hm : m e = none)
    (hb : bufferedPage s.writeBuf (s.geom.pageOf e) = none) (hone : s.geom.entriesPerPage = 1)
    (hd : DirectSafe s e) (out : Nat → UInt8) (hi : i < s.geom.dim * 4) :
    directRead s e out i = v i := by
  obtain ⟨hsize,hcell⟩ := h.on_disk hL hm hb
  have hlt := Nat.lt_of_lt_of_le hi s.geom.vector_le
  have hpage : s.geom.pageOf e = e := by rw [Geometry.pageOf,hone,Nat.div_one]
  have hoff : s.geom.offsetInPage e = 0 := by rw [Geometry.offsetInPage,hone,Nat.mod_one,Nat.zero_mul]
  rw [← hcell i hi,hoff,Nat.zero_add,hpage]
  rw [hpage] at hsize
  have hfits := h.fits
  rw [Gravel.directRead]
  rcases hd hone with heq | rfl
  · rw [heq] at hlt ⊢
    exact read_full hlt hsize
  · rw [Nat.zero_mul,Nat.zero_mul] at *
    exact read_full hlt (by omega)

end Reads

end Gravel.Proofs.BinEntries
