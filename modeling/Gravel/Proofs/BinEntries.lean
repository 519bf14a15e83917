import Gravel.Proofs.BinRun
import Gravel.Proofs.KeyBuffer
import Gravel.Proofs.OverlayMap

namespace Gravel.Proofs.BinEntries
open File PageBytes PutBatch BinRun KeyBuffer OverlayMap List Option

abbrev Entries := Nat → Option (Nat → UInt8)

/-- Entries that were handed out and are neither recycled nor waiting for it. -/
def Owned (s : DimBin) (e : Nat) : Prop :=
  e < s.bumpPtr ∧ e ∉ s.overlay.tombstones ++ s.freeList

/-- The overlay holds the vectors `m`; outside a checkpoint there is none. -/
def OverlayState (s : DimBin) (m : OverlayVectors) : Prop :=
  if s.inCheckpoint then OverlayRep s.overlay m
  else s.overlay = overlayDestroyed ∧ m = fun _ => none

/-- A bin between two operations, with overlay `m` and live entries `L`. -/
structure BinRep (s : DimBin) (m : OverlayVectors) (L : Entries) : Prop where
  inv : BinInv s.writeBuf.maxPages s
  keys : KeysInv s
  fits : s.geom.entrySize ≤ s.geom.pageSize
  bump : s.bumpPtr ≤ s.keyFileSize
  small : s.bumpPtr < 2 ^ 32
  free : (s.overlay.tombstones ++ s.freeList).Nodup
  freed : ∀ e ∈ s.overlay.tombstones ++ s.freeList, e < s.bumpPtr
  overlay : OverlayState s m
  budget : s.overlayBudget = 0 → s.overlay.budgetBytes = 0
  owned : ∀ e, (L e).isSome → Owned s e
  bytes : ∀ e v, L e = some v → ∀ i < s.geom.dim * 4, (m e).getD (entryByte s e) i = v i
  disk : ∀ e, (L e).isSome → m e = none → Covered s (s.geom.pageOf e)

section Frames

variable {s s' : DimBin} {m : OverlayVectors} {L : Entries} {e : Nat}

theorem Owned.allocated (h : Owned s e) : Allocated s e :=
  ⟨h.1,fun hm => h.2 (mem_append_right _ hm)⟩

theorem entryByte_congr (hw : s'.writeBuf = s.writeBuf) (hg : s'.geom = s.geom)
    (hc : s'.data.cell = s.data.cell) (e i : Nat) : entryByte s' e i = entryByte s e i := by
  unfold entryByte pageBytes pageView File.page
  rw [hw,hg,hc]

theorem covered_congr (hw : s'.writeBuf = s.writeBuf) (hg : s'.geom = s.geom)
    (hsize : s.data.size ≤ s'.data.size) {p : Nat} (h : Covered s p) : Covered s' p := by
  unfold Covered at h ⊢
  rw [hw,hg]
  exact h.imp id (fun h => Nat.le_trans h hsize)

structure PagesKept (s s' : DimBin) : Prop where
  writeBuf : s'.writeBuf = s.writeBuf
  nextAddr : s'.nextAddr = s.nextAddr
  dirty : s'.dirty = s.dirty
  geom : s'.geom = s.geom
  overlay : s'.overlay = s.overlay
  overlayBudget : s'.overlayBudget = s.overlayBudget
  inCheckpoint : s'.inCheckpoint = s.inCheckpoint
  cell : s'.data.cell = s.data.cell
  size : s.data.size ≤ s'.data.size

theorem BinRep.kept (h : BinRep s m L) (s' : DimBin) (hk : PagesKept s s') (hkeys : KeysInv s')
    (hbump : s'.bumpPtr ≤ s'.keyFileSize) (hsmall : s'.bumpPtr < 2 ^ 32)
    (hfree : (s'.overlay.tombstones ++ s'.freeList).Nodup)
    (hfreed : ∀ e ∈ s'.overlay.tombstones ++ s'.freeList, e < s'.bumpPtr) {L' : Entries}
    (hL : ∀ e v, L' e = some v → L e = some v) (howned : ∀ e, (L' e).isSome → Owned s' e) :
    BinRep s' m L' := by
  have hsome : ∀ e, (L' e).isSome → (L e).isSome := by
    intro e he
    obtain ⟨v,hv⟩ := isSome_iff_exists.mp he
    rw [hL e v hv]
    rfl
  refine ⟨?_,hkeys,by rw [hk.geom]; exact h.fits,hbump,hsmall,hfree,hfreed,?_,?_,howned,?_,?_⟩
  · rw [hk.writeBuf]
    exact h.inv.congr hk.writeBuf hk.nextAddr hk.dirty
  · unfold OverlayState
    rw [hk.inCheckpoint,hk.overlay]
    exact h.overlay
  · rw [hk.overlayBudget,hk.overlay]
    exact h.budget
  · intro e v hv i hi
    rw [hk.geom] at hi
    have hcongr : entryByte s' e = entryByte s e :=
      funext (entryByte_congr hk.writeBuf hk.geom hk.cell e)
    rw [hcongr]
    exact h.bytes e v (hL e v hv) i hi
  · intro e he hm
    rw [hk.geom]
    exact covered_congr hk.writeBuf hk.geom hk.size (h.disk e (hsome e he) hm)

end Frames

section Allocation

variable {s s' : DimBin} {m : OverlayVectors} {L : Entries} {e : Nat} {f : UInt64}

theorem keysInv_reserve (h : KeysInv s) (n : Nat) :
    KeysInv (dimbinReserve s n) ∧ s.keyFileSize ≤ (dimbinReserve s n).keyFileSize ∧
      ∀ x, keyAt (dimbinReserve s n) x = keyAt s x := by
  obtain ⟨a,ha⟩ := reserveData_eq s ((s.bumpPtr + n) * s.geom.entrySize)
  obtain ⟨s1,hs1⟩ : ∃ s1, s1 = reserveData s ((s.bumpPtr + n) * s.geom.entrySize) := ⟨_,rfl⟩
  rw [← hs1] at ha
  have h1 : KeysInv s1 := by
    rw [ha]
    exact h.congr rfl rfl rfl
  obtain ⟨hkeys,_,hge,hkey⟩ := reserveKeys_spec h1 (s.bumpPtr + n)
  rw [dimbinReserve,← hs1]
  refine ⟨hkeys,?_,fun x => (hkey x).trans ?_⟩
  · rw [ha] at hge ⊢
    exact hge
  · rw [ha]
    rfl

theorem BinRep.reserve (h : BinRep s m L) (n : Nat) :
    BinRep (dimbinReserve s n) m L ∧ ∀ x, keyAt (dimbinReserve s n) x = keyAt s x := by
  obtain ⟨a,b,heq⟩ := dimbinReserve_eq s n
  obtain ⟨hkeys,hge,hkey⟩ := keysInv_reserve h.keys n
  have hbump : (dimbinReserve s n).bumpPtr = s.bumpPtr := by rw [heq]
  refine ⟨h.kept _ ?_ hkeys (by rw [hbump]; exact Nat.le_trans h.bump hge) ?_ ?_ ?_
    (fun _ _ hv => hv) ?_,hkey⟩
  · rw [heq]
    exact ⟨rfl,rfl,rfl,rfl,rfl,rfl,rfl,rfl,Nat.le_max_left _ _⟩
  · rw [heq]
    exact h.small
  · rw [heq]
    exact h.free
  · rw [heq]
    exact h.freed
  · rw [heq]
    exact h.owned

theorem BinRep.bumpAlloc (h : BinRep s m L) (hroom : s.bumpPtr + 1 < 2 ^ 32) {n k : Nat}
    (hk : s.bumpPtr + 1 ≤ k) :
    BinRep (growKeys (growData { s with bumpPtr := s.bumpPtr + 1 } n) k) m L ∧
      Owned (growKeys (growData { s with bumpPtr := s.bumpPtr + 1 } n) k) s.bumpPtr ∧
      (∀ x, Owned s x → Owned (growKeys (growData { s with bumpPtr := s.bumpPtr + 1 } n) k) x) ∧
      ∀ x, keyAt (growKeys (growData { s with bumpPtr := s.bumpPtr + 1 } n) k) x = keyAt s x := by
  obtain ⟨a,ha⟩ := growData_eq { s with bumpPtr := s.bumpPtr + 1 } n
  obtain ⟨s1,hs1⟩ : ∃ s1, s1 = growData { s with bumpPtr := s.bumpPtr + 1 } n := ⟨_,rfl⟩
  rw [← hs1] at ha ⊢
  have h1 : KeysInv s1 := by
    rw [ha]
    exact h.keys.congr rfl rfl rfl
  obtain ⟨hkeys,hge,_,hkey⟩ := growKeys_spec h1 k
  have heq := growKeys_eq s1 k
  have hbump : (growKeys s1 k).bumpPtr = s.bumpPtr + 1 := by rw [heq,ha]
  have hlists : (growKeys s1 k).overlay.tombstones ++ (growKeys s1 k).freeList =
      s.overlay.tombstones ++ s.freeList := by rw [heq,ha]
  have howned : ∀ x, Owned s x → Owned (growKeys s1 k) x := by
    intro x hx
    unfold Owned
    rw [hbump,hlists]
    exact ⟨Nat.lt_succ_of_lt hx.1,hx.2⟩
  refine ⟨h.kept _ ?_ hkeys (by rw [hbump]; omega) (by rw [hbump]; exact hroom)
    (by rw [hlists]; exact h.free) ?_ (fun _ _ hv => hv) (fun x hx => howned x (h.owned x hx)),
    ?_,howned,?_⟩
  · rw [heq,ha]
    exact ⟨rfl,rfl,rfl,rfl,rfl,rfl,rfl,rfl,Nat.le_max_left _ _⟩
  · intro x hx
    rw [hlists] at hx
    rw [hbump]
    exact Nat.lt_succ_of_lt (h.freed x hx)
  · unfold Owned
    rw [hbump,hlists]
    exact ⟨Nat.lt_succ_self _,fun hm => Nat.lt_irrefl _ (h.freed _ hm)⟩
  · intro x
    rw [hkey x,ha]
    rfl

theorem BinRep.alloc (h : BinRep s m L) (hroom : s.freeList = [] → s.bumpPtr + 1 < 2 ^ 32) :
    ∃ s' e, dimbinAllocEntry s = (s',e) ∧ BinRep s' m L ∧ ¬ Owned s e ∧ Owned s' e ∧
      (∀ x, Owned s x → Owned s' x) ∧ ∀ x, keyAt s' x = keyAt s x := by
  unfold dimbinAllocEntry
  cases hf : s.freeList with
  | cons e rest =>
    have hfree := h.free
    have hfreed := h.freed
    rw [hf] at hfree hfreed
    have hperm : (s.overlay.tombstones ++ e :: rest).Perm (e :: (s.overlay.tombstones ++ rest)) :=
      perm_middle
    have hnd := hperm.nodup_iff.mp hfree
    rw [nodup_cons] at hnd
    have hmono : ∀ x, Owned s x → Owned { s with freeList := rest } x := by
      intro x hx
      refine ⟨hx.1,fun hm => hx.2 ?_⟩
      rw [hf]
      exact hperm.mem_iff.mpr (mem_cons_of_mem e hm)
    have he : e ∈ s.overlay.tombstones ++ e :: rest := hperm.mem_iff.mpr mem_cons_self
    have hrep : BinRep { s with freeList := rest } m L :=
      h.kept { s with freeList := rest } ⟨rfl,rfl,rfl,rfl,rfl,rfl,rfl,rfl,Nat.le_refl _⟩
        (h.keys.congr rfl rfl rfl) h.bump h.small hnd.2 (fun x hx => hfreed x (hperm.mem_iff.mpr (mem_cons_of_mem e hx)))
        (fun _ _ hv => hv) (fun x hx => hmono x (h.owned x hx))
    refine ⟨_,_,rfl,hrep,?_,⟨hfreed e he,hnd.1⟩,hmono,fun _ => rfl⟩
    intro hx
    rw [Owned,hf] at hx
    exact hx.2 he
  | nil =>
    have hbump := hroom hf
    have hslot : s.bumpPtr % 2 ^ 32 = s.bumpPtr := Nat.mod_eq_of_lt h.small
    have hreq : (s.bumpPtr + 1) % 2 ^ 32 = s.bumpPtr + 1 := Nat.mod_eq_of_lt hbump
    obtain ⟨hrep,hown,hmono,hkey⟩ := h.bumpAlloc hbump
      (n := (s.bumpPtr + 1) * s.geom.entrySize) (Nat.le_refl (s.bumpPtr + 1))
    simp only [hslot,hreq]
    refine ⟨_,_,by rw [← hf],hrep,?_,hown,hmono,hkey⟩
    intro hx
    exact Nat.lt_irrefl _ hx.1

end Allocation

section Keys

variable {s s' : DimBin} {m : OverlayVectors} {L : Entries} {e : Nat} {f : UInt64}

theorem BinRep.keyed (h : BinRep s m L) {keys : File UInt64} {keyBuf : KeyBTree}
    (hk : KeysInv { s with keys := keys, keyBuf := keyBuf }) :
    BinRep { s with keys := keys, keyBuf := keyBuf } m L :=
  h.kept { s with keys := keys, keyBuf := keyBuf } ⟨rfl,rfl,rfl,rfl,rfl,rfl,rfl,rfl,Nat.le_refl _⟩
    hk h.bump h.small h.free h.freed (fun _ _ hv => hv) h.owned

theorem BinRep.bufKey (h : BinRep s m L) (he : e < s.bumpPtr) (f : UInt64) :
    ∃ s', dimbinBufKey s e f = some s' ∧ s' = { s with keys := s'.keys, keyBuf := s'.keyBuf } ∧
      BinRep s' m L ∧ ∀ x, keyAt s' x = if x = e then f else keyAt s x := by
  obtain ⟨s',hbuf,hinv,hkey⟩ := dimbinBufKey_spec h.keys (Nat.lt_of_lt_of_le he h.bump) f
  have heq := dimbinBufKey_eq hbuf
  refine ⟨s',hbuf,heq,?_,hkey⟩
  rw [heq] at hinv ⊢
  exact h.keyed hinv

end Keys

end Gravel.Proofs.BinEntries
