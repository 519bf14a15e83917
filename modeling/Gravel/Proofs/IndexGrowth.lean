import Gravel.Proofs.ShiftDeletion
import Mathlib.Algebra.Order.Field.Basic
import Mathlib.Algebra.Order.Field.Rat

namespace Gravel.Proofs.IndexGrowth
open Rehash LinearProbe HashIndex ShiftDeletion Option

section Probing

variable {idx : HashIndex}

/-- No loop of an operation on `idx` runs forever. A table that is searched without a bound,
by a put or by the insertions of a migration step, has an empty slot. -/
structure ProbingEnds (idx : HashIndex) : Prop where
  count : idx.count = occupied idx.capacity (hashLayout.keys idx.slots) + oldCount hashLayout idx
  countLe : idx.count ≤ idx.capacity
  puts : ∃ idx1, rehashStep hashLayout idx = some idx1 ∧
    ∃ i < (growth hashLayout idx1).capacity, ((growth hashLayout idx1).slots i).featId = 0
  inserts : ∀ idx' old, Migrates hashLayout idx idx' → idx'.old = some old → ∀ table k,
    LoopInserts hashLayout idx'.capacity table k idx'.slots old 0 →
      ∃ i < idx'.capacity, (table i).featId = 0
  shifts : ∀ idx', Migrates hashLayout idx idx' → ShiftEnds idx'
  returns : ∀ op, ∃ idx' answer, HashIndex.applyOp idx op = some (idx',answer)

theorem key_none {s : HashSlot} : hashLayout.key s = none ↔ s.featId = 0 := by
  simp [hashLayout]

theorem accommodates (h : Tallied hashLayout idx) (hcap : idx.capacity < 2 ^ 29) :
    Accommodates hashLayout idx := by
  have h28 := pow_two_lt_29 h.pow hcap
  have hpos := pow_two_pos h.pow
  have hle := h.count_le
  refine ⟨fun _ => double_exact (by omega),fun hcalm => ?_⟩
  simp only [hashLayout,decide_eq_false_iff_not,Nat.not_lt] at hcalm
  rw [Nat.mod_eq_of_lt (by omega),Nat.mod_eq_of_lt (by omega)] at hcalm
  omega

theorem put_step (h : Tallied hashLayout idx) (hcap : idx.capacity < 2 ^ 29) (f : UInt64) (d e : Nat) :
    ∃ idx' rc, hashIndexPut idx f d e = some (idx',rc) ∧ Tallied hashLayout idx' := by
  by_cases hf : f = 0
  · exact ⟨idx,.errInvalid,by simp [hashIndexPut,hf],h⟩
  · have hchange : ∀ s : HashSlot, hashLayout.key s = some f →
        hashLayout.key { s with dimIdx := d, entryIdx := e } = some f := fun s hs => hs
    obtain ⟨_,idx',_,_,hput,htally,_⟩ := put_tallies h (accommodates h hcap) hchange (key_slot hf d e)
    exact ⟨idx',.ok,by simp [hashIndexPut,hf,hput],htally⟩

theorem op_step (h : Tallied hashLayout idx) (hcap : idx.capacity < 2 ^ 29) (op : IndexOp) :
    ∃ idx' answer, HashIndex.applyOp idx op = some (idx',answer) ∧ Tallied hashLayout idx' := by
  cases op with
  | put f d e =>
    obtain ⟨idx',rc,hput,htally⟩ := put_step h hcap f d e
    exact ⟨idx',(rc,none),by simp only [HashIndex.applyOp,hput,map_some],htally⟩
  | get f =>
    by_cases hf : f = 0
    · exact ⟨idx,lookupAnswer none,by simp [HashIndex.applyOp,hashIndexGet,hf],h⟩
    · obtain ⟨idx',r,hget,htally,_⟩ := get_tallies h f
      exact ⟨idx',lookupAnswer (r.map (fun s => (s.dimIdx,s.entryIdx))),
        by simp [HashIndex.applyOp,hashIndexGet,hf,hget],htally⟩
  | remove f =>
    by_cases hf : f = 0
    · exact ⟨idx,(.errNotFound,none),by simp [HashIndex.applyOp,hashIndexRemove,hf],h⟩
    · obtain ⟨idx',found,hremove,htally,_⟩ := remove_tallies h f
      exact ⟨idx',(if found then .ok else .errNotFound,none),
        by simp [HashIndex.applyOp,hashIndexRemove,hf,hremove],htally⟩
  | finishRehash =>
    obtain ⟨idx',hrun,hsteps,_⟩ := finishRehash_migrates h (Nat.lt_succ_self idx.capacity)
    exact ⟨idx',(.ok,none),by simp [HashIndex.applyOp,hashIndexFinishRehash,hrun],h.migrates hsteps⟩

theorem probingEnds (h : Tallied hashLayout idx) (hcap : idx.capacity < 2 ^ 29) : ProbingEnds idx := by
  refine ⟨h.count,h.count_le,?_,?_,?_,?_⟩
  · obtain ⟨idx1,hstep,htick⟩ := rehashStep_ticks h
    obtain ⟨hv,_⟩ := htick.growth (accommodates h hcap)
    obtain ⟨i,hi,hn⟩ := hv.tallied.free hv.room
    exact ⟨idx1,hstep,i,hi,key_none.mp hn⟩
  · intro idx' old hsteps ho table k hins
    obtain ⟨i,hi,hn⟩ := hins.free ((h.migrates hsteps).loaded ho)
    exact ⟨i,hi,key_none.mp hn⟩
  · intro idx' hsteps h' hh' more
    exact shiftLoop_ends (h.migrates hsteps).pow hh' more _ _
  · intro op
    obtain ⟨idx',answer,hop,_⟩ := op_step h hcap op
    exact ⟨idx',answer,hop⟩

theorem run_tallies (ops : List IndexOp) : ∀ {idx : HashIndex}, Tallied hashLayout idx →
    CapacityBelow idx ops →
    ∃ idx' answers, Run.replies HashIndex.applyOp idx ops = some (idx',answers) ∧
      Tallied hashLayout idx' ∧ idx'.capacity < 2 ^ 29 := by
  induction ops with
  | nil => exact fun h hcap => ⟨_,[],rfl,h,hcap⟩
  | cons op ops ih =>
    intro idx h hcap
    obtain ⟨hlt,hrest⟩ := hcap
    obtain ⟨idx1,answer,hop,h1⟩ := op_step h hlt op
    obtain ⟨idx',answers,hrun,h',hcap'⟩ := ih h1 (hrest idx1 (Run.mem_quiet hop))
    exact ⟨idx',answer :: answers,by simp [Run.replies,hop,hrun],h',hcap'⟩

/-- In every run that keeps the index below `2 ^ 29` slots, growth under way or not and whether or
not some ids are out of reach, no operation probes forever. -/
theorem probing_ends_on_every_run {capacity : Nat} {idx0 : HashIndex}
    (hinit : hashIndexInit capacity = some idx0) (ops : List IndexOp)
    (hcap : CapacityBelow idx0 ops) :
    ∃ idx answers, runOps idx0 ops = some (idx,answers) ∧ ProbingEnds idx := by
  obtain ⟨cap,hround,hidx⟩ := bind_eq_some_iff.mp hinit
  cases hidx
  have hpow := (roundCapacity_spec 34 0 (by omega) hround).1
  obtain ⟨idx,answers,hrun,h,hlt⟩ := run_tallies ops (tallied_blank hpow) hcap
  exact ⟨idx,answers,hrun,probingEnds h hlt⟩

def crampedOps : List IndexOp :=
  [.put 1 0 0,.put 2 0 1,.put 3 0 2,.remove 2,.put 4 0 3,.get 1,.put 5 0 4,.finishRehash]

theorem cramped_run_ends :
    ∃ idx0, hashIndexInit 1 = some idx0 ∧
      ∃ idx answers, runOps idx0 crampedOps = some (idx,answers) ∧ ProbingEnds idx := by
  have hinit : hashIndexInit 1 = some ⟨fun _ => hashLayout.blank,1,0,none⟩ := rfl
  exact ⟨_,hinit,probing_ends_on_every_run hinit crampedOps (by decide +kernel)⟩

end Probing

section Arithmetic

variable {idx : HashIndex}

/-- `new_cap - 1` on `uint32_t`, as `hash_index_begin_grow` stores it. -/
def maskOf (idx : HashIndex) : Nat := (idx.capacity + 2 ^ 32 - 1) % 2 ^ 32

/-- The growth phase of a put decides by the exact load factor, and growth doubles the table. -/
structure GrowsExactly (idx : HashIndex) : Prop where
  starts : (growth hashLayout idx).old.isSome ↔ (7 / 10 : ℚ) < idx.count / idx.capacity
  puts : ∀ f d e idx' rc, f ≠ 0 → hashIndexPut idx f d e = some (idx',rc) →
    (idx'.old.isSome ↔ (7 / 10 : ℚ) < idx.count / idx.capacity)
  doubles : (beginGrow hashLayout idx).capacity = 2 * idx.capacity
  nonzero : (beginGrow hashLayout idx).capacity ≠ 0
  mask : maskOf (beginGrow hashLayout idx) = (beginGrow hashLayout idx).capacity - 1

/-- Sizes at which none of `count * 10`, `capacity * 7` and `capacity * 2` leaves 32 bits, or the
comparison comes out right although they do. -/
def FitsUInt32 (count capacity : Nat) : Prop :=
  capacity ≤ 2 ^ 28 ∨ capacity = 2 ^ 29 ∧ count ≤ 429496729 ∨
    capacity = 2 ^ 30 ∧ (count ≤ 322122547 ∨ 429496730 ≤ count ∧ count ≤ 858993459)

instance (count capacity : Nat) : Decidable (FitsUInt32 count capacity) :=
  inferInstanceAs (Decidable (_ ∨ _))

theorem load_iff {count capacity : Nat} (hpos : 0 < capacity) :
    (7 / 10 : ℚ) < (count : ℚ) / capacity ↔ capacity * 7 < count * 10 := by
  rw [div_lt_div_iff₀ (by norm_num) (by exact_mod_cast hpos)]
  constructor
  · intro h
    have : 7 * capacity < count * 10 := by exact_mod_cast h
    omega
  · intro h
    exact_mod_cast (show 7 * capacity < count * 10 by omega)

theorem growth_isSome (hold : idx.old = none) :
    (growth hashLayout idx).old.isSome ↔ idx.capacity * 7 % 2 ^ 32 < idx.count * 10 % 2 ^ 32 := by
  have hcr : hashLayout.crowded idx.count idx.capacity =
    decide (idx.capacity * 7 % 2 ^ 32 < idx.count * 10 % 2 ^ 32) := rfl
  rw [growth,hold,hcr,isNone_none,Bool.true_and]
  split_ifs with hload
  · exact iff_of_true rfl (of_decide_eq_true hload)
  · exact iff_of_false (by rw [hold]; decide) (fun hlt => hload (decide_eq_true hlt))

theorem put_isSome (hold : idx.old = none) {f : UInt64} {d e : Nat} {idx' : HashIndex} {rc : Status}
    (hf : f ≠ 0) (hput : hashIndexPut idx f d e = some (idx',rc)) :
    idx'.old.isSome = (growth hashLayout idx).old.isSome := by
  unfold hashIndexPut at hput
  rw [if_neg hf] at hput
  obtain ⟨t,htable,heq⟩ := bind_eq_some_iff.mp hput
  cases heq
  obtain ⟨t1,t2,hstep,ht2,_,_,hsome⟩ := put_phases htable
  rw [hsome,ht2,(rehashStep_keeps hstep).2.2 hold]

theorem growsExactly_iff (hold : idx.old = none) (hpos : 0 < idx.capacity) :
    GrowsExactly idx ↔
      (idx.capacity * 7 % 2 ^ 32 < idx.count * 10 % 2 ^ 32 ↔ idx.capacity * 7 < idx.count * 10) ∧
        idx.capacity * 2 % 2 ^ 32 = idx.capacity * 2 := by
  constructor
  · intro h
    have hstarts := h.starts
    have hdoubles := h.doubles
    rw [growth_isSome hold,load_iff hpos] at hstarts
    simp only [beginGrow,hashLayout] at hdoubles
    exact ⟨hstarts,by omega⟩
  · rintro ⟨hload,hdouble⟩
    have hcap : (beginGrow hashLayout idx).capacity = 2 * idx.capacity := by
      simp only [beginGrow,hashLayout]
      omega
    refine ⟨?_,?_,hcap,by omega,?_⟩
    · rw [growth_isSome hold,load_iff hpos]
      exact hload
    · intro f d e idx' rc hf hput
      rw [put_isSome hold hf hput,growth_isSome hold,load_iff hpos]
      exact hload
    · rw [maskOf,hcap]
      omega

theorem mod_cases {x : Nat} (hx : x < 3 * 2 ^ 32) :
    x < 2 ^ 32 ∧ x % 2 ^ 32 = x ∨ 2 ^ 32 ≤ x ∧ x < 2 * 2 ^ 32 ∧ x % 2 ^ 32 = x - 2 ^ 32 ∨
      2 * 2 ^ 32 ≤ x ∧ x % 2 ^ 32 = x - 2 * 2 ^ 32 := by
  omega

/-- The growth arithmetic is exact for these sizes and for no others: with `2 ^ 29` slots a load
above 0.8 goes unnoticed, with `2 ^ 30` slots a load of 0.3 starts a growth, and doubling `2 ^ 31`
slots leaves none. -/
theorem growth_exact_iff (hold : idx.old = none) (hpow : ∃ n ≤ 31, idx.capacity = 2 ^ n)
    (hcount : idx.count ≤ idx.capacity) : GrowsExactly idx ↔ FitsUInt32 idx.count idx.capacity := by
  obtain ⟨n,hn,hcap⟩ := hpow
  have hpos : 0 < idx.capacity := by rw [hcap]; exact Nat.two_pow_pos n
  rw [growsExactly_iff hold hpos]
  rcases Nat.lt_or_ge n 29 with hsmall | hlarge
  · have h28 : idx.capacity ≤ 2 ^ 28 := by
      rw [hcap]
      exact Nat.pow_le_pow_right (by omega) (by omega)
    refine iff_of_true ?_ (.inl h28)
    rw [Nat.mod_eq_of_lt (by omega : idx.capacity * 7 < 2 ^ 32),
      Nat.mod_eq_of_lt (by omega : idx.count * 10 < 2 ^ 32)]
    exact ⟨.rfl,double_exact (by omega)⟩
  · -- The three largest tables, by how often `count * 10` wraps.
    obtain rfl | rfl | rfl : n = 29 ∨ n = 30 ∨ n = 31 := by omega
    · rw [hcap] at hcount ⊢
      have hwraps := mod_cases (x := idx.count * 10) (by omega)
      generalize idx.count * 10 % 2 ^ 32 = y at hwraps ⊢
      unfold FitsUInt32
      omega
    · rw [hcap] at hcount ⊢
      have hwraps := mod_cases (x := idx.count * 10) (by omega)
      generalize idx.count * 10 % 2 ^ 32 = y at hwraps ⊢
      unfold FitsUInt32
      omega
    · rw [hcap]
      unfold FitsUInt32
      omega

def sizedIndex (count capacity : Nat) : HashIndex where
  slots _ := hashLayout.blank
  capacity := capacity
  count := count
  old := none

theorem sized_index_grows : GrowsExactly (sizedIndex 187904820 (2 ^ 28)) :=
  (growth_exact_iff rfl ⟨28,by decide,rfl⟩ (by decide)).mpr (by decide)

/-- Four hundred million ids. In `2 ^ 30` slots they start a growth at a load of 0.37, and in the
`2 ^ 31` slots that this leads to they start another one, which leaves no slot. -/
theorem many_ids_overflow :
    ((growth hashLayout (sizedIndex 400000000 (2 ^ 30))).old.isSome ∧
      (400000000 : ℚ) / 2 ^ 30 < 4 / 10) ∧
    (growth hashLayout (sizedIndex 400000000 (2 ^ 31))).old.isSome ∧
      (growth hashLayout (sizedIndex 400000000 (2 ^ 31))).capacity = 0 ∧
    ¬ GrowsExactly (sizedIndex 400000000 (2 ^ 30)) ∧
    ¬ GrowsExactly (sizedIndex 400000000 (2 ^ 31)) := by
  refine ⟨⟨by decide,by norm_num⟩,by decide,by decide,?_,?_⟩
  · rw [growsExactly_iff rfl (by decide)]
    decide
  · rw [growsExactly_iff rfl (by decide)]
    decide

end Arithmetic

end Gravel.Proofs.IndexGrowth
