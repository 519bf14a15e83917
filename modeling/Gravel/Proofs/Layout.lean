import Gravel.Model.Layout
import Gravel.Proofs.Addresses
import Gravel.Proofs.KeyBuffer

namespace Gravel.Proofs.Layout
open List Option

def SoundLayout (dim : Int) (layout : Option BinLayout) : Prop :=
  ∃ l, layout = some l ∧ dim * 4 ≤ l.entrySize ∧ 0 < l.pageSize ∧ 1 ≤ l.entriesPerPage ∧
    l.entriesPerPage * l.entrySize ≤ l.pageSize

/-- What the mask of `align_up` leaves of the bytes between a negative vector and the alignment. -/
def wrappedBytes (dim : Int) (entryAlign : UInt32) : Nat :=
  (entryAlign.toNat - 1 - dim.natAbs * 4) &&& (2 ^ 64 - 1 - (entryAlign.toNat - 1))

/-- A positive dim whose entry fits 32 bits; or a negative one for which `align_up` wraps around to
an entry that is not empty, with a number of entries that is an `int`. -/
def AdmissibleDim (dim : Int) (entryAlign pageSize : UInt32) : Prop :=
  (0 < dim ∧ alignUp (dim.toNat * 4) entryAlign.toNat < 2 ^ 32) ∨
    (dim < 0 ∧ dim.natAbs * 4 < entryAlign.toNat ∧ wrappedBytes dim entryAlign ≠ 0 ∧
      (wrappedBytes dim entryAlign = 1 → pageSize.toNat < 2 ^ 31))

instance (dim : Int) (entryAlign pageSize : UInt32) :
    Decidable (AdmissibleDim dim entryAlign pageSize) :=
  inferInstanceAs (Decidable (_ ∨ _))

section Bytes

variable {dim : Int} {entryAlign pageSize : UInt32}

theorem entryBytes_of_nonneg (hd : 0 ≤ dim) (hlt : dim < 2 ^ 31) :
    entryBytes dim entryAlign = alignUp (dim.toNat * 4) entryAlign.toNat := by
  unfold entryBytes
  congr 1
  omega

theorem vector_le_entryBytes (hlt : dim < 2 ^ 31) : dim * 4 ≤ entryBytes dim entryAlign := by
  rcases Int.lt_or_le 0 dim with hd | hd
  · have hle : dim.toNat * 4 ≤ alignUp (dim.toNat * 4) entryAlign.toNat :=
      le_alignUp (by omega) entryAlign.toNat_lt
    rw [entryBytes_of_nonneg (Int.le_of_lt hd) hlt]
    omega
  · omega

theorem and_mask_self (m : Nat) (hm : m < 2 ^ 64) : m &&& (2 ^ 64 - 1 - m) = 0 := by
  have hsub : 2 ^ 64 - 1 - m = 2 ^ 64 - (m + 1) := by omega
  apply Nat.eq_of_testBit_eq
  intro i
  rw [hsub,Nat.testBit_and,Nat.testBit_two_pow_sub_succ hm]
  cases m.testBit i <;> simp

theorem entryBytes_zero : entryBytes 0 entryAlign = 0 := by
  rw [entryBytes_of_nonneg (Int.le_refl 0) (by decide)]
  unfold alignUp
  split_ifs
  · rfl
  · have hlt := entryAlign.toNat_lt
    simpa using and_mask_self (entryAlign.toNat - 1) (by omega)

theorem entryBytes_of_neg (hd : dim < 0) (hge : -2 ^ 31 ≤ dim)
    (hal : entryAlign.toNat ≤ dim.natAbs * 4) : 2 ^ 32 ≤ entryBytes dim entryAlign := by
  have hval : (dim * 4 % 2 ^ 64).toNat = 2 ^ 64 - dim.natAbs * 4 := by omega
  have hlt := entryAlign.toNat_lt
  unfold entryBytes alignUp
  rw [hval]
  split_ifs with h
  · omega
  · have hand := and_add_and_not (m := entryAlign.toNat - 1)
      (2 ^ 64 - dim.natAbs * 4 + entryAlign.toNat - 1) (by omega) (by omega)
    omega

theorem and_add_two_pow (x m : Nat) (hm : m < 2 ^ 64) : (2 ^ 64 + x) &&& m = x &&& m := by
  apply Nat.eq_of_testBit_eq
  intro i
  rw [Nat.testBit_and,Nat.testBit_and]
  by_cases hi : i < 64
  · rw [Nat.testBit_two_pow_add_gt hi]
  · have hbit : m.testBit i = false :=
      Nat.testBit_lt_two_pow (Nat.lt_of_lt_of_le hm (Nat.pow_le_pow_right (by omega) (by omega)))
    rw [hbit,Bool.and_false,Bool.and_false]

theorem entryBytes_of_wrap (hd : dim < 0) (hge : -2 ^ 31 ≤ dim)
    (hal : dim.natAbs * 4 < entryAlign.toNat) :
    entryBytes dim entryAlign = wrappedBytes dim entryAlign := by
  have hval : (dim * 4 % 2 ^ 64).toNat = 2 ^ 64 - dim.natAbs * 4 := by omega
  have hsum : 2 ^ 64 - dim.natAbs * 4 + entryAlign.toNat - 1 =
      2 ^ 64 + (entryAlign.toNat - 1 - dim.natAbs * 4) := by omega
  unfold entryBytes alignUp wrappedBytes
  rw [hval,if_neg (by omega),hsum,and_add_two_pow _ _ (by omega)]

theorem wrappedBytes_lt : wrappedBytes dim entryAlign < 2 ^ 32 := by
  have hand : wrappedBytes dim entryAlign ≤ entryAlign.toNat - 1 - dim.natAbs * 4 :=
    Nat.and_le_left
  have hlt := entryAlign.toNat_lt
  omega

end Bytes

section Sound

variable {dim : Int} {entryAlign pageSize : UInt32} {n : Nat}

def startPage (pageSize : UInt32) : Nat :=
  if pageSize = 0 then pageSizeDefault else pageSize.toNat

theorem startPage_lt (pageSize : UInt32) : startPage pageSize < 2 ^ 32 := by
  unfold startPage
  split_ifs
  · decide
  · exact pageSize.toNat_lt

theorem bmod_of_lt (h : n < 2 ^ 31) : Int.bmod n (2 ^ 32) = n := by
  simp only [Int.bmod,Nat.cast_pow,Nat.cast_ofNat]
  split_ifs <;> omega

theorem bmod_of_ge (h : 2 ^ 31 ≤ n) (hlt : n < 2 ^ 32) : Int.bmod n (2 ^ 32) < 0 := by
  simp only [Int.bmod,Nat.cast_pow,Nat.cast_ofNat]
  split_ifs <;> omega

theorem quotient_lt (pageSize : UInt32) (n : Nat) : startPage pageSize / n < 2 ^ 32 :=
  Nat.lt_of_le_of_lt (Nat.div_le_self _ _) (startPage_lt pageSize)

theorem dimbinLayout_small (hfit : startPage pageSize / entryBytes dim entryAlign ≠ 0) :
    dimbinLayout dim entryAlign pageSize = some ⟨startPage pageSize,entryBytes dim entryAlign,
      Int.bmod (startPage pageSize / entryBytes dim entryAlign : Nat) (2 ^ 32)⟩ := by
  have hes : entryBytes dim entryAlign ≠ 0 := by
    intro hzero
    rw [hzero,Nat.div_zero] at hfit
    exact hfit rfl
  have hlt := quotient_lt pageSize (entryBytes dim entryAlign)
  have hmod : Int.bmod (startPage pageSize / entryBytes dim entryAlign : Nat) (2 ^ 32) ≠ 0 := by
    rcases Nat.lt_or_ge (startPage pageSize / entryBytes dim entryAlign) (2 ^ 31) with h | h
    · rw [bmod_of_lt h]
      omega
    · have := bmod_of_ge h hlt
      omega
  unfold dimbinLayout
  simp only [hes,if_false]
  exact if_neg hmod

theorem dimbinLayout_large (hes : entryBytes dim entryAlign ≠ 0)
    (hfit : startPage pageSize / entryBytes dim entryAlign = 0) :
    dimbinLayout dim entryAlign pageSize =
      if entryBytes dim entryAlign % 2 ^ 32 = 0 then none
      else some ⟨entryBytes dim entryAlign % 2 ^ 32,entryBytes dim entryAlign,1⟩ := by
  have hmod : Int.bmod (startPage pageSize / entryBytes dim entryAlign : Nat) (2 ^ 32) = 0 := by
    rw [hfit]
    rfl
  unfold dimbinLayout
  simp only [hes,if_false]
  exact if_pos hmod

theorem dimbinLayout_empty (hes : entryBytes dim entryAlign = 0) :
    dimbinLayout dim entryAlign pageSize = none := by
  unfold dimbinLayout
  simp only [hes,if_true]

/-- The layout is sound exactly if the entry is not empty, fits 32 bits and the number of entries
fits an `int`. -/
theorem sound_iff_bytes (hlt : dim < 2 ^ 31) :
    SoundLayout dim (dimbinLayout dim entryAlign pageSize) ↔
      0 < entryBytes dim entryAlign ∧ entryBytes dim entryAlign < 2 ^ 32 ∧
        startPage pageSize / entryBytes dim entryAlign < 2 ^ 31 := by
  have hvec : dim * 4 ≤ entryBytes dim entryAlign := vector_le_entryBytes hlt
  rcases Nat.eq_zero_or_pos (entryBytes dim entryAlign) with hzero | hpos
  · rw [dimbinLayout_empty hzero,hzero]
    constructor
    · rintro ⟨l,hl,_⟩
      cases hl
    · intro h
      exact absurd h.1 (Nat.lt_irrefl 0)
  rcases Nat.eq_zero_or_pos (startPage pageSize / entryBytes dim entryAlign) with hfit | hfit
  · rw [dimbinLayout_large (Nat.ne_of_gt hpos) hfit,hfit]
    constructor
    · rintro ⟨l,hl,_,_,_,hle⟩
      split_ifs at hl
      cases hl
      have hmod := Nat.mod_lt (entryBytes dim entryAlign) (y := 2 ^ 32) (by decide)
      simp only [Int.one_mul] at hle
      refine ⟨hpos,?_,by decide⟩
      omega
    · rintro ⟨_,hes,_⟩
      rw [Nat.mod_eq_of_lt hes,if_neg (Nat.ne_of_gt hpos)]
      refine ⟨_,rfl,hvec,hpos,Int.le_refl 1,?_⟩
      simp
  · rw [dimbinLayout_small (Nat.ne_of_gt hfit)]
    have hle : entryBytes dim entryAlign ≤ startPage pageSize := by
      by_contra hlt
      rw [Nat.div_eq_of_lt (by omega)] at hfit
      exact absurd hfit (Nat.lt_irrefl 0)
    have hpage := startPage_lt pageSize
    constructor
    · rintro ⟨l,hl,_,_,hone,_⟩
      cases hl
      refine ⟨hpos,by omega,?_⟩
      by_contra hge
      have hneg := bmod_of_ge (Nat.le_of_not_lt hge) (quotient_lt pageSize _)
      simp only at hone
      omega
    · rintro ⟨_,_,hint⟩
      refine ⟨_,rfl,hvec,by simp only; omega,?_,?_⟩
      · simp only [bmod_of_lt hint]
        omega
      · simp only [bmod_of_lt hint]
        exact_mod_cast Nat.div_mul_le_self _ _

/-- For every `int`, alignment and page size that reach `dimbin_init`. -/
theorem layout_sound_iff (dim : Int) (entryAlign pageSize : UInt32) (hge : -2 ^ 31 ≤ dim)
    (hlt : dim < 2 ^ 31) :
    SoundLayout dim (dimbinLayout dim entryAlign pageSize) ↔
      AdmissibleDim dim entryAlign pageSize := by
  rw [sound_iff_bytes hlt]
  have hpage := startPage_lt pageSize
  rcases Int.lt_trichotomy dim 0 with hd | rfl | hd
  · rcases Nat.lt_or_ge (dim.natAbs * 4) entryAlign.toNat with hal | hal
    · -- The alignment wraps the size of the vector.
      rw [entryBytes_of_wrap hd hge hal]
      have hwrap : wrappedBytes dim entryAlign < 2 ^ 32 := wrappedBytes_lt
      have hone : wrappedBytes dim entryAlign ≠ 0 →
          (startPage pageSize / wrappedBytes dim entryAlign < 2 ^ 31 ↔
            (wrappedBytes dim entryAlign = 1 → pageSize.toNat < 2 ^ 31)) := by
        intro hne
        rcases Nat.eq_or_lt_of_le (Nat.one_le_iff_ne_zero.mpr hne) with h | h
        · rw [← h,Nat.div_one]
          unfold startPage
          split_ifs with hz
          · subst hz
            decide
          · exact ⟨fun h _ => h,fun h => h rfl⟩
        · have hdiv : startPage pageSize / wrappedBytes dim entryAlign ≤ startPage pageSize / 2 :=
            Nat.div_le_div_left h (by decide)
          constructor
          · intro _ he
            omega
          · intro _
            omega
      constructor
      · rintro ⟨hpos,_,hint⟩
        exact .inr ⟨hd,hal,Nat.ne_of_gt hpos,(hone (Nat.ne_of_gt hpos)).mp hint⟩
      · rintro (⟨hpos,_⟩ | ⟨_,_,hne,hint⟩)
        · omega
        · exact ⟨Nat.pos_of_ne_zero hne,hwrap,(hone hne).mpr hint⟩
    · have hbig := entryBytes_of_neg hd hge hal
      constructor
      · rintro ⟨_,hsmall,_⟩
        omega
      · rintro (⟨hpos,_⟩ | ⟨_,hal',_⟩)
        · omega
        · omega
  · rw [entryBytes_zero]
    constructor
    · rintro ⟨hpos,_⟩
      exact absurd hpos (Nat.lt_irrefl 0)
    · rintro (⟨hpos,_⟩ | ⟨hneg,_⟩)
      · omega
      · omega
  · have hvec : dim * 4 ≤ entryBytes dim entryAlign := vector_le_entryBytes hlt
    rw [entryBytes_of_nonneg (Int.le_of_lt hd) hlt] at hvec ⊢
    constructor
    · rintro ⟨_,hes,_⟩
      exact .inl ⟨hd,hes⟩
    · rintro (⟨_,hes⟩ | ⟨hneg,_⟩)
      · have hdiv : startPage pageSize / alignUp (dim.toNat * 4) entryAlign.toNat ≤
            startPage pageSize / 4 := Nat.div_le_div_left (by omega) (by decide)
        refine ⟨by omega,hes,by omega⟩
      · omega

/-- Dim 32 with cache-line alignment on 4096-byte pages. -/
theorem layout_sound_dim_32 : SoundLayout 32 (dimbinLayout 32 64 4096) :=
  (layout_sound_iff 32 64 4096 (by decide) (by decide)).mpr (by decide)

/-- Dim 0 divides by zero; a vector of `2 ^ 30 + 1` floats has a page of four bytes. -/
theorem layout_unsound : dimbinLayout 0 4 4096 = none ∧
    dimbinLayout (2 ^ 30 + 1) 4 4096 = some ⟨4,2 ^ 32 + 4,1⟩ ∧
    ¬ SoundLayout 0 (dimbinLayout 0 4 4096) ∧
    ¬ SoundLayout (2 ^ 30 + 1) (dimbinLayout (2 ^ 30 + 1) 4 4096) := by
  have hzero : dimbinLayout 0 4 4096 = none := by decide
  have hlarge : dimbinLayout (2 ^ 30 + 1) 4 4096 = some ⟨4,2 ^ 32 + 4,1⟩ := by decide
  refine ⟨hzero,hlarge,?_,?_⟩
  · rw [hzero]
    rintro ⟨l,hl,_⟩
    cases hl
  · rw [hlarge]
    rintro ⟨l,hl,_,_,_,hle⟩
    cases hl
    revert hle
    decide

end Sound

section Pages

variable {dim : Int} {entryAlign ps ps' : UInt32}

theorem layout_of_le (hpos : 0 < entryBytes dim entryAlign)
    (hle : entryBytes dim entryAlign ≤ startPage ps) :
    ∃ l, dimbinLayout dim entryAlign ps = some l ∧ l.pageSize = startPage ps :=
  ⟨_,dimbinLayout_small (Nat.ne_of_gt (Nat.div_pos hle hpos)),rfl⟩

theorem layout_of_ge (hpos : 0 < entryBytes dim entryAlign)
    (hge : startPage ps ≤ entryBytes dim entryAlign) :
    dimbinLayout dim entryAlign ps = if entryBytes dim entryAlign % 2 ^ 32 = 0 then none
      else some ⟨entryBytes dim entryAlign % 2 ^ 32,entryBytes dim entryAlign,1⟩ := by
  rcases Nat.eq_or_lt_of_le hge with heq | hlt
  · have hone : startPage ps / entryBytes dim entryAlign = 1 := by rw [heq,Nat.div_self hpos]
    have hmod : entryBytes dim entryAlign % 2 ^ 32 = entryBytes dim entryAlign :=
      Nat.mod_eq_of_lt (heq ▸ startPage_lt ps)
    rw [dimbinLayout_small (by rw [hone]; exact Nat.one_ne_zero),hone,hmod,
      if_neg (Nat.ne_of_gt hpos),heq]
    rfl
  · exact dimbinLayout_large (Nat.ne_of_gt hpos) (Nat.div_eq_of_lt hlt)

theorem layout_ne_of_lt (hpos : 0 < entryBytes dim entryAlign) (hlt : startPage ps < startPage ps')
    (hes : entryBytes dim entryAlign < startPage ps') :
    dimbinLayout dim entryAlign ps ≠ dimbinLayout dim entryAlign ps' := by
  obtain ⟨l',hl',hpage'⟩ := layout_of_le hpos (Nat.le_of_lt hes)
  rw [hl']
  intro heq
  rcases Nat.le_total (entryBytes dim entryAlign) (startPage ps) with hle | hge
  · obtain ⟨l,hl,hpage⟩ := layout_of_le hpos hle
    rw [hl] at heq
    cases heq
    omega
  · have hmod := Nat.mod_le (entryBytes dim entryAlign) (2 ^ 32)
    rw [layout_of_ge hpos hge] at heq
    split_ifs at heq
    cases heq
    simp only at hpage'
    omega

/-- Two page sizes give the same layout exactly if they are equal or an entry fills both. -/
theorem layout_eq_iff : dimbinLayout dim entryAlign ps = dimbinLayout dim entryAlign ps' ↔
    startPage ps = startPage ps' ∨ entryBytes dim entryAlign = 0 ∨
      max (startPage ps) (startPage ps') ≤ entryBytes dim entryAlign := by
  constructor
  · intro heq
    by_contra hnot
    push Not at hnot
    obtain ⟨hne,hzero,hlt⟩ := hnot
    have hpos := Nat.pos_of_ne_zero hzero
    rcases Nat.lt_or_gt_of_ne hne with h | h
    · exact layout_ne_of_lt hpos h (by omega) heq
    · exact layout_ne_of_lt hpos h (by omega) heq.symm
  · rintro (hsame | hzero | hge)
    · unfold startPage at hsame
      unfold dimbinLayout
      rw [hsame]
    · rw [dimbinLayout_empty hzero,dimbinLayout_empty hzero]
    · rcases Nat.eq_zero_or_pos (entryBytes dim entryAlign) with hzero | hpos
      · rw [dimbinLayout_empty hzero,dimbinLayout_empty hzero]
      · rw [layout_of_ge hpos (by omega),layout_of_ge hpos (by omega)]

end Pages

section Creation

theorem doubleUntil_le (required : Nat) : ∀ fuel size,
    doubleUntil required fuel size ≤ max size (2 * required) := by
  intro fuel
  induction fuel with
  | zero => exact fun size => Nat.le_max_left _ _
  | succ fuel ih =>
    intro size
    rw [doubleUntil]
    split_ifs with hlt
    · have := ih (size * 2)
      omega
    · exact Nat.le_max_left _ _

theorem detectPageSize_pos (b : BlockSizes) : detectPageSize b ≠ 0 := by
  unfold detectPageSize
  simp only
  split
  · decide
  · generalize hd : (if 65536 < (if reportedSize b < 512 then 512 else reportedSize b) then 65536
      else if reportedSize b < 512 then 512 else reportedSize b) = d
    have hle : d ≤ 65536 := by
      rw [← hd]
      split_ifs <;> omega
    obtain ⟨hpos,_⟩ := KeyBuffer.doubleUntil_ge d 17 1 Nat.one_pos
    have hmax := doubleUntil_le d 17 1
    intro hzero
    have hnat := congrArg UInt32.toNat hzero
    rw [UInt32.toNat_ofNat_of_lt' (show _ < 2 ^ 32 by omega),UInt32.toNat_zero] at hnat
    omega

theorem startPage_detect (b : BlockSizes) :
    startPage (detectPageSize b) = (detectPageSize b).toNat := by
  unfold startPage
  rw [if_neg (detectPageSize_pos b)]

/-- A bin has the same layout however it is made exactly if the page size is configured, or the
file system happens to report the default, or no page holds more than one entry. -/
theorem layout_independent_iff (config : GravelDBConfig) (b : BlockSizes) (dim : Int) :
    layoutAtOpen config dim = layoutOnDemand config b dim ↔
      config.pageSize ≠ 0 ∨ (detectPageSize b).toNat = pageSizeDefault ∨
        entryBytes dim config.entryAlign = 0 ∨
        max pageSizeDefault (detectPageSize b).toNat ≤ entryBytes dim config.entryAlign := by
  unfold layoutAtOpen layoutOnDemand resolvedPageSize
  split_ifs with hzero
  · have hdefault : startPage config.pageSize = pageSizeDefault := by
      unfold startPage
      rw [if_pos hzero]
    rw [layout_eq_iff,hdefault,startPage_detect]
    simp only [hzero,ne_eq,not_true_eq_false,false_or,eq_comm]
  · simp only [ne_eq,hzero,not_false_eq_true,true_or]

/-- A file system with blocks of 16 KB. -/
theorem layout_depends_on_creation :
    ∃ config b, layoutAtOpen config 1 = some ⟨4096,4,1024⟩ ∧
      layoutOnDemand config b 1 = some ⟨16384,4,4096⟩ :=
  ⟨{ dims := [1], bufferSize := 0, indexCapacity := 0, entryAlign := 4, pageSize := 0
     autoCreateBins := true, overlayBudget := 0 },⟨some 16384,none⟩,by decide,by decide⟩

end Creation

end Gravel.Proofs.Layout
