import Gravel.Model.DimBin
import Gravel.Proofs.HashIndex
import Mathlib.Order.Bounds.Defs

namespace Gravel.Proofs.CapacityRounding
open HashIndex

/-- The loop ends, at the least power of two that is at least `floor` and at least `requested`. -/
def RoundsUp (floor requested : Nat) (loop : Nat → Option Nat) : Prop :=
  ∃ rounds cap, loop rounds = some cap ∧
    IsLeast { p | p.isPowerOfTwo ∧ floor ≤ p ∧ requested ≤ p } cap

def bufferPages (bufferSize pageSize : UInt64) : Nat :=
  bufferSize.toNat / (if pageSize = 0 then 4096 else pageSize.toNat)

def requestedSlots (bufferSize pageSize : UInt64) : Nat :=
  (if bufferPages bufferSize pageSize = 0 then 1024 else bufferPages bufferSize pageSize) * 2

section Loops

variable {capacity cap n : Nat}

theorem roundCapacity_isLeast (rounds : Nat) : ∀ n, n ≤ 31 →
    roundCapacity capacity rounds (2 ^ n) = some cap →
    IsLeast { p | p.isPowerOfTwo ∧ 2 ^ n ≤ p ∧ capacity ≤ p } cap := by
  induction rounds with
  | zero =>
    intro n _ h
    cases h
  | succ rounds ih =>
    intro n hn h
    rw [roundCapacity] at h
    split_ifs at h with hlt
    · rcases Nat.lt_or_eq_of_le hn with hn | rfl
      · rw [← Nat.pow_succ,Nat.mod_eq_of_lt (Nat.pow_lt_pow_right (by decide) (by omega))] at h
        obtain ⟨⟨hpow,hfloor,hle⟩,hleast⟩ := ih (n + 1) hn h
        refine ⟨⟨hpow,Nat.le_trans (Nat.pow_le_pow_right (by decide) (Nat.le_succ n)) hfloor,hle⟩,?_⟩
        rintro p ⟨⟨k,rfl⟩,_,hp⟩
        -- a power of two that is large enough comes after this one
        have hk : n < k := (Nat.pow_lt_pow_iff_right (by decide)).mp (Nat.lt_of_lt_of_le hlt hp)
        exact hleast ⟨⟨k,rfl⟩,Nat.pow_le_pow_right (by decide) hk,hp⟩
      · rw [show 2 ^ 31 * 2 % 2 ^ 32 = 0 by decide,roundCapacity_zero (by omega)] at h
        cases h
    · cases h
      exact ⟨⟨⟨n,rfl⟩,Nat.le_refl _,Nat.not_lt.mp hlt⟩,fun p hp => hp.2.1⟩

theorem roundCapacity_endless (hn : n ≤ 31) (hlarge : 2 ^ 31 < capacity) (rounds : Nat) :
    roundCapacity capacity rounds (2 ^ n) = none := by
  cases h : roundCapacity capacity rounds (2 ^ n) with
  | none => rfl
  | some cap =>
    obtain ⟨_,hle,_,htop⟩ := roundCapacity_spec rounds n hn h
    omega

theorem roundsUp_of_le (hn : n ≤ 31) (hle : capacity ≤ 2 ^ 31) :
    RoundsUp (2 ^ n) capacity (fun rounds => roundCapacity capacity rounds (2 ^ n)) := by
  obtain ⟨cap,hcap⟩ := roundCapacity_total hle (31 - n + 1) n hn (Nat.lt_succ_self _)
  exact ⟨_,cap,hcap,roundCapacity_isLeast _ n hn hcap⟩

theorem RoundsUp.le {requested : Nat} (hn : n ≤ 31)
    (h : RoundsUp (2 ^ n) requested (fun rounds => roundCapacity capacity rounds (2 ^ n))) :
    requested ≤ 2 ^ 31 := by
  obtain ⟨rounds,cap,hcap,hleast⟩ := h
  exact Nat.le_trans hleast.1.2.2 (roundCapacity_spec rounds n hn hcap).2.2.2

end Loops

/-- Both loops end at the least power of two that will do, exactly if there is one below `2 ^ 32`:
for an index of at most `2 ^ 31` slots, and for a buffer of at most `2 ^ 30` pages. -/
theorem capacity_rounding_iff (capacity : UInt32) (bufferSize pageSize : UInt64) :
    (RoundsUp 1 capacity.toNat (fun rounds => roundCapacity capacity.toNat rounds 1) ↔
        capacity.toNat ≤ 2 ^ 31) ∧
      (RoundsUp 64 (requestedSlots bufferSize pageSize) (writeBufRounding bufferSize pageSize) ↔
        bufferPages bufferSize pageSize ≤ 2 ^ 30) := by
  have hpages : requestedSlots bufferSize pageSize ≤ 2 ^ 31 ↔
      bufferPages bufferSize pageSize ≤ 2 ^ 30 := by
    rw [requestedSlots]
    split_ifs with hzero
    · rw [hzero]
      decide
    · omega
  refine ⟨⟨fun h => h.le (Nat.zero_le 31),fun h => roundsUp_of_le (Nat.zero_le 31) h⟩,?_⟩
  rw [← hpages]
  refine ⟨fun h => RoundsUp.le (by decide : 6 ≤ 31) h,fun h => ?_⟩
  -- the bound is not cut off by the `size_t`
  have hbound : requestedSlots bufferSize pageSize % 2 ^ 64 = requestedSlots bufferSize pageSize :=
    Nat.mod_eq_of_lt (Nat.lt_of_le_of_lt h (by decide))
  have hloop : writeBufRounding bufferSize pageSize = fun rounds =>
      roundCapacity (requestedSlots bufferSize pageSize) rounds (2 ^ 6) := by
    rw [← hbound]
    rfl
  rw [hloop]
  exact roundsUp_of_le (by decide) h

/-- An index of `2 ^ 31 + 1` slots, and a buffer of 8 TB in pages of 4096 bytes. -/
theorem large_capacity_endless :
    (∀ rounds, roundCapacity (2 ^ 31 + 1) rounds 1 = none) ∧
      ∀ rounds, writeBufRounding (2 ^ 43) 4096 rounds = none :=
  ⟨fun rounds => roundCapacity_endless (Nat.zero_le 31) (by decide) rounds,
    fun rounds => roundCapacity_endless (by decide : 6 ≤ 31) (by decide) rounds⟩

end Gravel.Proofs.CapacityRounding
