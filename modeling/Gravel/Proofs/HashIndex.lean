import Gravel.Lib.Run
import Gravel.Lib.RehashUpdate
import Gravel.Model.HashIndex
import Mathlib.Data.Set.Card

namespace Gravel.Proofs.HashIndex
open Rehash LinearProbe List Option Function

abbrev IndexMap := UInt64 → Option (Nat × Nat)

def slotsOf (m : IndexMap) (f : UInt64) : Option HashSlot :=
  (m f).map (fun v => ⟨f,v.1,v.2⟩)

structure IndexRep (idx : HashIndex) (m : IndexMap) : Prop where
  valid : Valid hashLayout idx
  represents : Represents hashLayout idx (slotsOf m)

theorem key_slot {f : UInt64} (hf : f ≠ 0) (d e : Nat) :
    hashLayout.key ⟨f,d,e⟩ = some f := by simp [hashLayout,hf]

theorem slotsOf_update (m : IndexMap) (f : UInt64) (v : Option (Nat × Nat)) :
    slotsOf (update m f v) =
      update (slotsOf m) f (v.map (fun v => ⟨f,v.1,v.2⟩)) := by
  funext g
  by_cases hg : g = f
  · subst hg
    simp [slotsOf]
  · simp [slotsOf,update_of_ne hg]

theorem slotsOf_eq_none {m : IndexMap} {f : UInt64} : slotsOf m f = none ↔ m f = none := by
  simp [slotsOf]

theorem pow_two_lt_29 {c : Nat} (hc : c.isPowerOfTwo) (hlt : c < 2 ^ 29) : c ≤ 2 ^ 28 := by
  obtain ⟨n,rfl⟩ := hc
  have hn : n < 29 := (Nat.pow_lt_pow_iff_right (by omega)).mp hlt
  exact Nat.pow_le_pow_right (by omega) (by omega)

theorem pow_two_ne_three {c : Nat} (hc : c.isPowerOfTwo) : c ≠ 3 := by
  obtain ⟨n,rfl⟩ := hc
  rcases n with _ | _ | n
  · simp
  · simp
  · have := Nat.two_pow_pos n
    rw [Nat.pow_succ,Nat.pow_succ]
    omega

/-- Below `2 ^ 29` slots the load test does not wrap, so a table that is not grown has room. -/
theorem not_crowded {κ σ : Type} {L : Layout κ σ} {t : Table σ} (hv : Valid L t)
    (hcap : t.capacity < 2 ^ 29)
    (hcr : decide (t.capacity * 7 % 2 ^ 32 < t.count * 10 % 2 ^ 32) = false) :
    t.count < t.capacity ∧ (t.count + 1 < t.capacity ∨ t.capacity ≤ 2) := by
  have hle := hv.count_le
  have h28 := pow_two_lt_29 hv.pow hcap
  have h3 := pow_two_ne_three hv.pow
  have hpos := pow_two_pos hv.pow
  simp only [decide_eq_false_iff_not,Nat.not_lt] at hcr
  rw [Nat.mod_eq_of_lt (by omega),Nat.mod_eq_of_lt (by omega)] at hcr
  omega

theorem double_exact {c : Nat} (hc : c < 2 ^ 31) : c * 2 % 2 ^ 32 = c * 2 :=
  Nat.mod_eq_of_lt (by omega)

theorem double_or_zero {c : Nat} (hc : c.isPowerOfTwo) :
    c * 2 % 2 ^ 32 = c * 2 ∨ c * 2 % 2 ^ 32 = 0 := by
  obtain ⟨n,rfl⟩ := hc
  rcases Nat.lt_or_ge n 31 with hn | hn
  · exact .inl (double_exact (Nat.pow_lt_pow_right (by omega) hn))
  · refine .inr (Nat.mod_eq_zero_of_dvd ?_)
    rw [← Nat.pow_succ]
    exact Nat.pow_dvd_pow 2 (by omega)

section Operations

variable {idx : HashIndex} {m : IndexMap} {f : UInt64}

theorem get_rep (hr : IndexRep idx m) (hf : f ≠ 0) :
    ∃ idx' r, hashIndexGet idx f = some (idx',r) ∧ IndexRep idx' m ∧ idx'.count = idx.count ∧
      idx'.capacity = idx.capacity ∧ (r = m f ↔ ¬ Hidden hashLayout idx f) := by
  obtain ⟨idx',s,hget,hst,hvis,hhid⟩ := get_spec hr.valid hr.represents f
  refine ⟨idx',s.map (fun s => (s.dimIdx,s.entryIdx)),by simp [hashIndexGet,hf,hget],
    ⟨hst.valid,hr.represents.stored hst.stored⟩,hst.count,hst.capacity,?_⟩
  constructor
  · intro heq hh
    obtain ⟨hs,hne⟩ := hhid hh
    rw [hs,map_none] at heq
    exact hne (slotsOf_eq_none.mpr heq.symm)
  · intro hh
    rw [hvis hh]
    cases h : m f <;> simp [slotsOf,h]

theorem put_room (hr : IndexRep idx m) (hf : f ≠ 0) (hvis : ¬ Hidden hashLayout idx f)
    (hdouble : hashLayout.crowded idx.count idx.capacity = true →
      hashLayout.double idx.capacity = idx.capacity * 2)
    (hroom : hashLayout.crowded idx.count idx.capacity = false →
      idx.count < idx.capacity ∧ (idx.count + 1 < idx.capacity ∨ idx.capacity ≤ 2)) (d e : Nat) :
    ∃ idx', hashIndexPut idx f d e = some (idx',.ok) ∧
      IndexRep idx' (update m f (some (d,e))) ∧
      idx'.count = (if m f = none then idx.count + 1 else idx.count) ∧
      (idx'.capacity = idx.capacity ∨ idx'.capacity = idx.capacity * 2) := by
  have hchange : ∀ s : HashSlot, hashLayout.key s = some f →
      hashLayout.key { s with dimIdx := d, entryIdx := e } = some f := fun s hs => hs
  obtain ⟨idx',hput,hv,hrep,hcount,hc⟩ := put_spec hr.valid hr.represents hvis hdouble hroom
    hchange (key_slot hf d e)
  refine ⟨idx',by simp [hashIndexPut,hf,hput],⟨hv,?_⟩,?_,hc⟩
  · rw [slotsOf_update]
    cases h : m f with
    | none => simpa [slotsOf,h] using hrep
    | some v => simpa [slotsOf,h] using hrep
  · simpa [slotsOf_eq_none] using hcount

theorem put_rep (hr : IndexRep idx m) (hf : f ≠ 0) (hcap : idx.capacity < 2 ^ 29)
    (hvis : ¬ Hidden hashLayout idx f) (d e : Nat) :
    ∃ idx', hashIndexPut idx f d e = some (idx',.ok) ∧
      IndexRep idx' (update m f (some (d,e))) ∧
      idx'.count = (if m f = none then idx.count + 1 else idx.count) ∧
      (idx'.capacity = idx.capacity ∨ idx'.capacity = idx.capacity * 2) :=
  put_room hr hf hvis (fun _ => double_exact (by omega)) (not_crowded hr.valid hcap) d e

theorem remove_rep (hr : IndexRep idx m) (hf : f ≠ 0) (hvis : ¬ Hidden hashLayout idx f) :
    ∃ idx', hashIndexRemove idx f = some (idx',if (m f).isSome then .ok else .errNotFound) ∧
      IndexRep idx' (update m f none) ∧
      idx'.count = (if m f = none then idx.count else idx.count - 1) ∧
      idx'.capacity = idx.capacity := by
  obtain ⟨idx',hrem,hv,hrep,hcount,hc⟩ := remove_spec hr.valid hr.represents hvis
  refine ⟨idx',?_,⟨hv,?_⟩,?_,hc⟩
  · cases h : m f <;> simp [hashIndexRemove,hf,hrem,slotsOf,h]
  · rw [slotsOf_update]
    exact hrep
  · simpa [slotsOf_eq_none] using hcount

theorem finishRehash_rep (hr : IndexRep idx m) :
    ∃ idx', hashIndexFinishRehash idx = some idx' ∧ IndexRep idx' m ∧
      idx'.count = idx.count ∧ idx'.capacity = idx.capacity := by
  obtain ⟨idx',hrun,hsteps,_⟩ := finishRehash_migrates hr.valid.tallied (Nat.lt_succ_self _)
  obtain ⟨hv,hs,hcount,hc⟩ := hr.valid.migrates hsteps
  exact ⟨idx',hrun,⟨hv,hr.represents.stored hs⟩,hcount,hc⟩

end Operations

section Init

variable {capacity cap : Nat}

theorem roundCapacity_zero (hc : 0 < capacity) (fuel : Nat) :
    roundCapacity capacity fuel 0 = none := by
  induction fuel with
  | zero => rfl
  | succ fuel ih => simpa [roundCapacity,hc] using ih

theorem roundCapacity_total (hc : capacity ≤ 2 ^ 31) : ∀ fuel n, n ≤ 31 → 31 - n < fuel →
    ∃ cap, roundCapacity capacity fuel (2 ^ n) = some cap := by
  intro fuel
  induction fuel with
  | zero =>
    intro n _ hlt
    omega
  | succ fuel ih =>
    intro n hn hlt
    rw [roundCapacity]
    split_ifs with hcap
    · have hn' : n < 31 := by
        refine Nat.lt_of_le_of_ne hn ?_
        rintro rfl
        omega
      have hpow : 2 ^ n * 2 % 2 ^ 32 = 2 ^ (n + 1) := by
        rw [← Nat.pow_succ]
        exact Nat.mod_eq_of_lt (Nat.pow_lt_pow_right (by omega) (by omega))
      rw [hpow]
      exact ih (n + 1) (by omega) (by omega)
    · exact ⟨_,rfl⟩

theorem roundCapacity_spec (fuel : Nat) : ∀ n, n ≤ 31 →
    roundCapacity capacity fuel (2 ^ n) = some cap →
    cap.isPowerOfTwo ∧ capacity ≤ cap ∧ cap ≤ max (2 ^ n) (2 * capacity) ∧ cap ≤ 2 ^ 31 := by
  induction fuel with
  | zero =>
    intro n _ h
    simp [roundCapacity] at h
  | succ fuel ih =>
    intro n hn h
    simp only [roundCapacity] at h
    split_ifs at h with hc
    · rcases Nat.lt_or_eq_of_le hn with hlt | rfl
      · have hpow : 2 ^ n * 2 % 2 ^ 32 = 2 ^ (n + 1) := by
          rw [← Nat.pow_succ]
          exact Nat.mod_eq_of_lt (Nat.pow_lt_pow_right (by omega) (by omega))
        rw [hpow] at h
        obtain ⟨hp,hle,hub,htop⟩ := ih (n + 1) hlt h
        refine ⟨hp,hle,?_,htop⟩
        rw [Nat.pow_succ] at hub
        omega
      · -- The 32-bit shift leaves zero, from which the loop never gets away.
        rw [show 2 ^ 31 * 2 % 2 ^ 32 = 0 by decide,roundCapacity_zero (by omega)] at h
        contradiction
    · cases h
      exact ⟨⟨n,rfl⟩,by omega,by omega,Nat.pow_le_pow_right (by omega) hn⟩

theorem init_capacity {idx : HashIndex} (h : hashIndexInit capacity = some idx) :
    idx.capacity ≤ 2 ^ 31 := by
  obtain ⟨cap,hround,hidx⟩ := bind_eq_some_iff.mp h
  cases hidx
  exact (roundCapacity_spec 34 0 (by omega) hround).2.2.2

theorem init_rep {idx : HashIndex} (h : hashIndexInit capacity = some idx) :
    IndexRep idx (fun _ => none) ∧ idx.count = 0 := by
  obtain ⟨cap,hround,hidx⟩ := bind_eq_some_iff.mp h
  cases hidx
  have hpow := (roundCapacity_spec 34 0 (by omega) hround).1
  exact ⟨⟨(blank_represents hpow).1,(blank_represents hpow).2⟩,rfl⟩

end Init

inductive IndexOp where
  | put (featId : UInt64) (dimIdx entryIdx : Nat)
  | get (featId : UInt64)
  | remove (featId : UInt64)
  | finishRehash

def IndexOp.key : IndexOp → Option UInt64
  | .put f _ _ => some f
  | .get f => some f
  | .remove f => some f
  | .finishRehash => none

abbrev IndexAnswer := Status × Option (Nat × Nat)

def lookupAnswer : Option (Nat × Nat) → IndexAnswer
  | some v => (.ok,some v)
  | none => (.errNotFound,none)

def applyOp (idx : HashIndex) : IndexOp → Option (HashIndex × IndexAnswer)
  | .put f d e => (hashIndexPut idx f d e).map (fun r => (r.1,r.2,none))
  | .get f => (hashIndexGet idx f).map (fun r => (r.1,lookupAnswer r.2))
  | .remove f => (hashIndexRemove idx f).map (fun r => (r.1,r.2,none))
  | .finishRehash => (hashIndexFinishRehash idx).map (fun r => (r,.ok,none))

def runOps (idx : HashIndex) : List IndexOp → Option (HashIndex × List IndexAnswer) :=
  Run.replies applyOp idx

def specOp (m : IndexMap) : IndexOp → IndexMap × IndexAnswer
  | .put f d e => (update m f (some (d,e)),.ok,none)
  | .get f => (m,lookupAnswer (m f))
  | .remove f => (update m f none,if (m f).isSome then .ok else .errNotFound,none)
  | .finishRehash => (m,.ok,none)

def specRun (m : IndexMap) : List IndexOp → IndexMap × List IndexAnswer :=
  Run.specReplies specOp m

def CapacityBelow (idx : HashIndex) (ops : List IndexOp) : Prop :=
  Run.Always (Run.quiet applyOp) (fun idx => idx.capacity < 2 ^ 29) idx ops

instance decidableCapacityBelow (idx : HashIndex) (ops : List IndexOp) :
    Decidable (CapacityBelow idx ops) :=
  inferInstanceAs (Decidable (Run.Always ..))

def Visible (idx : HashIndex) (op : IndexOp) : Prop := ∀ f ∈ op.key, ¬ Hidden hashLayout idx f

instance decidableVisible (idx : HashIndex) (op : IndexOp) : Decidable (Visible idx op) :=
  match h : op.key with
  | none => isTrue (by simp [Visible,h])
  | some f => decidable_of_iff (¬ Hidden hashLayout idx f) (by simp [Visible,h])

def KeysVisible (idx : HashIndex) (ops : List IndexOp) : Prop :=
  Run.Ready (Run.quiet applyOp) Visible idx ops

instance decidableKeysVisible (idx : HashIndex) (ops : List IndexOp) :
    Decidable (KeysVisible idx ops) :=
  inferInstanceAs (Decidable (Run.Ready ..))

noncomputable def liveCount (m : IndexMap) : Nat := {f | (m f).isSome}.ncard

structure Tracks (idx : HashIndex) (m : IndexMap) : Prop where
  rep : IndexRep idx m
  finite : {f | (m f).isSome}.Finite
  count : idx.count = liveCount m

theorem live_put {m : IndexMap} (hfin : {f | (m f).isSome}.Finite) (f : UInt64) (v : Nat × Nat) :
    {g | (update m f (some v) g).isSome}.Finite ∧
      liveCount (update m f (some v)) =
        if m f = none then liveCount m + 1 else liveCount m := by
  have hset : {g | (update m f (some v) g).isSome} = insert f {g | (m g).isSome} := by
    ext g
    by_cases hg : g = f
    · simp [hg]
    · simp [hg]
  refine ⟨by rw [hset]; exact hfin.insert f,?_⟩
  rw [liveCount,hset]
  split_ifs with hn
  · exact Set.ncard_insert_of_notMem (by simp [hn]) hfin
  · rw [Set.insert_eq_of_mem (by simpa [isSome_iff_ne_none] using hn)]
    rfl

theorem live_remove {m : IndexMap} (hfin : {f | (m f).isSome}.Finite) (f : UInt64) :
    {g | (update m f none g).isSome}.Finite ∧
      liveCount (update m f none) =
        if m f = none then liveCount m else liveCount m - 1 := by
  have hset : {g | (update m f none g).isSome} = {g | (m g).isSome} \ {f} := by
    ext g
    by_cases hg : g = f
    · simp [hg]
    · simp [hg]
  refine ⟨by rw [hset]; exact hfin.sdiff,?_⟩
  rw [liveCount,hset]
  split_ifs with hn
  · rw [Set.sdiff_singleton_eq_self (by simp [hn])]
    rfl
  · exact Set.ncard_sdiff_singleton_of_mem (by simpa [isSome_iff_ne_none] using hn)

/-- An index that has never begun to grow on the way to the keys it holds. -/
structure Still (idx : HashIndex) (m : IndexMap) : Prop where
  tracks : Tracks idx m
  old : idx.old = none
  calm : ∀ c < idx.count, hashLayout.crowded c idx.capacity = false

section Still

variable {idx idx' : HashIndex} {m : IndexMap} {f : UInt64} {d e : Nat} {rc : Status}

theorem hashIndexGet_keeps {r : Option (Nat × Nat)} (h : hashIndexGet idx f = some (idx',r)) :
    idx'.count = idx.count ∧ idx'.capacity = idx.capacity ∧ (idx.old = none → idx' = idx) := by
  unfold hashIndexGet at h
  split_ifs at h
  · cases h
    exact ⟨rfl,rfl,fun _ => rfl⟩
  · obtain ⟨⟨t,s⟩,hget,h⟩ := bind_eq_some_iff.mp h
    cases h
    exact get_keeps hget

theorem hashIndexPut_keeps (hf : f ≠ 0) (h : hashIndexPut idx f d e = some (idx',rc)) :
    (idx.count ≤ idx'.count ∧ idx'.count ≤ idx.count + 1) ∧
      (idx.old = none → if hashLayout.crowded idx.count idx.capacity
        then idx'.capacity = hashLayout.double idx.capacity
        else idx'.capacity = idx.capacity ∧ idx'.old = none) := by
  unfold hashIndexPut at h
  rw [if_neg hf] at h
  obtain ⟨t,hput,h⟩ := bind_eq_some_iff.mp h
  cases h
  exact put_keeps hput

/-- A put keeps the capacity or doubles it: it does not come back from a doubling that wraps. -/
theorem hashIndexPut_capacity (hpow : idx.capacity.isPowerOfTwo)
    (h : hashIndexPut idx f d e = some (idx',rc)) :
    idx'.capacity = idx.capacity ∨
      hashLayout.crowded idx.count idx.capacity = true ∧ idx'.capacity = idx.capacity * 2 := by
  unfold hashIndexPut at h
  split_ifs at h
  · cases h
    exact .inl rfl
  · obtain ⟨t,hput,h⟩ := bind_eq_some_iff.mp h
    cases h
    rcases put_capacity hput with hsame | ⟨hcr,hcap⟩
    · exact .inl hsame
    · rcases double_or_zero hpow with hdouble | hzero
      · exact .inr ⟨hcr,hcap.trans hdouble⟩
      · have hpos := put_positive hput
        rw [hcap.trans hzero] at hpos
        exact absurd hpos (Nat.lt_irrefl 0)

theorem hashIndexPut_pow (hpow : idx.capacity.isPowerOfTwo)
    (h : hashIndexPut idx f d e = some (idx',rc)) : idx'.capacity.isPowerOfTwo := by
  rcases hashIndexPut_capacity hpow h with hc | ⟨_,hc⟩
  · rwa [hc]
  · rw [hc]
    exact Nat.isPowerOfTwo_mul_two_of_isPowerOfTwo hpow

theorem hashIndexRemove_keeps (h : hashIndexRemove idx f = some (idx',rc)) :
    idx'.count ≤ idx.count ∧ idx'.capacity = idx.capacity ∧ (idx.old = none → idx'.old = none) := by
  unfold hashIndexRemove at h
  split_ifs at h
  · cases h
    exact ⟨Nat.le_refl _,rfl,fun ho => ho⟩
  · obtain ⟨⟨t,found⟩,hremove,h⟩ := bind_eq_some_iff.mp h
    cases h
    exact remove_keeps hremove

theorem not_hidden (ho : idx.old = none) : ¬ Hidden hashLayout idx f := by
  rintro ⟨o,ho',_⟩
  rw [ho] at ho'
  cases ho'

theorem Still.init {capacity : Nat} (h : hashIndexInit capacity = some idx) :
    Still idx (fun _ => none) := by
  obtain ⟨hrep,hzero⟩ := init_rep h
  obtain ⟨cap,_,hidx⟩ := bind_eq_some_iff.mp h
  refine ⟨⟨hrep,by simp,by simp [hzero,liveCount]⟩,?_,?_⟩
  · cases hidx
    rfl
  · intro c hc
    omega

theorem Still.get (hs : Still idx m) (hf : f ≠ 0) : hashIndexGet idx f = some (idx,m f) := by
  obtain ⟨idx',r,hget,_,_,_,hiff⟩ := get_rep hs.tracks.rep hf
  rw [hget,hiff.mpr (not_hidden hs.old),(hashIndexGet_keeps hget).2.2 hs.old]

theorem Still.positive (hs : Still idx m) : 0 < idx.capacity := pow_two_pos hs.tracks.rep.valid.pow

theorem room_of_load (hv : Valid hashLayout idx) (hload : idx.count * 10 ≤ idx.capacity * 7) :
    idx.count < idx.capacity ∧ (idx.count + 1 < idx.capacity ∨ idx.capacity ≤ 2) := by
  have h3 := pow_two_ne_three hv.pow
  have hpos := pow_two_pos hv.pow
  omega

theorem Still.put (hs : Still idx m) (hf : f ≠ 0) (hload : idx.count * 10 ≤ idx.capacity * 7)
    (hcalm : hashLayout.crowded idx.count idx.capacity = false) (d e : Nat) :
    ∃ idx', hashIndexPut idx f d e = some (idx',.ok) ∧
      Still idx' (update m f (some (d,e))) ∧ idx'.capacity = idx.capacity := by
  obtain ⟨idx',hput,hrep,hcount,_⟩ := put_room hs.tracks.rep hf (not_hidden hs.old)
    (fun hcr => by rw [hcalm] at hcr; cases hcr)
    (fun _ => room_of_load hs.tracks.rep.valid hload) d e
  have hkeep := (hashIndexPut_keeps hf hput).2 hs.old
  rw [hcalm] at hkeep
  obtain ⟨hcap,hold⟩ := hkeep
  obtain ⟨hfin,hlive⟩ := live_put hs.tracks.finite f (d,e)
  refine ⟨idx',hput,⟨⟨hrep,hfin,by rw [hcount,hlive,hs.tracks.count]⟩,hold,?_⟩,hcap⟩
  intro c hc
  rw [hcap]
  rcases Nat.lt_or_ge c idx.count with hlt | hge
  · exact hs.calm c hlt
  · have : c = idx.count := by split_ifs at hcount <;> omega
    rw [this]
    exact hcalm

theorem Still.put_same (hs : Still idx m) (hf : f ≠ 0) (hload : idx.count * 10 ≤ idx.capacity * 7)
    (hput : hashIndexPut idx f d e = some (idx',rc))
    (hcap : idx'.capacity = idx.capacity) : Still idx' (update m f (some (d,e))) := by
  have hkeep := (hashIndexPut_keeps hf hput).2 hs.old
  have hpos := hs.positive
  have hcalm : hashLayout.crowded idx.count idx.capacity = false := by
    by_contra hc
    rw [Bool.not_eq_false] at hc
    rw [if_pos hc,hcap] at hkeep
    rcases double_or_zero hs.tracks.rep.valid.pow with hdouble | hzero
    · rw [show hashLayout.double idx.capacity = idx.capacity * 2 from hdouble] at hkeep
      omega
    · rw [show hashLayout.double idx.capacity = 0 from hzero] at hkeep
      omega
  obtain ⟨idx1,hput1,hs1,_⟩ := hs.put hf hload hcalm d e
  cases hput.symm.trans hput1
  exact hs1

theorem Still.remove (hs : Still idx m) (hf : f ≠ 0) :
    ∃ idx', hashIndexRemove idx f = some (idx',if (m f).isSome then .ok else .errNotFound) ∧
      Still idx' (update m f none) ∧ idx'.capacity = idx.capacity := by
  obtain ⟨idx',hremove,hrep,hcount,hcap⟩ := remove_rep hs.tracks.rep hf (not_hidden hs.old)
  obtain ⟨hle,_,hold⟩ := hashIndexRemove_keeps hremove
  obtain ⟨hfin,hlive⟩ := live_remove hs.tracks.finite f
  refine ⟨idx',hremove,⟨⟨hrep,hfin,by rw [hcount,hlive,hs.tracks.count]⟩,hold hs.old,?_⟩,hcap⟩
  intro c hc
  rw [hcap]
  exact hs.calm c (Nat.lt_of_lt_of_le hc hle)

theorem IndexRep.zero (hr : IndexRep idx m) : m 0 = none := by
  cases h : m 0 with
  | none => rfl
  | some v =>
    have hstored := (hr.represents 0 ⟨0,v.1,v.2⟩).mp (by simp [slotsOf,h])
    simp [hashLayout] at hstored

def indexMap (idx : HashIndex) : IndexMap := fun f => (hashIndexGet idx f).bind Prod.snd

theorem Still.map_eq (hs : Still idx m) : indexMap idx = m := by
  funext f
  unfold indexMap
  by_cases hf : f = 0
  · rw [hf,hs.tracks.rep.zero]
    simp [hashIndexGet]
  · rw [hs.get hf]
    rfl

end Still

/-- One operation on a visible key answers as the map and keeps the correspondence. -/
theorem applyOp_tracks {idx : HashIndex} {m : IndexMap} (ht : Tracks idx m) {op : IndexOp}
    (hnz : op.key ≠ some 0) (hcap : idx.capacity < 2 ^ 29)
    (hvis : Visible idx op) :
    ∃ idx', applyOp idx op = some (idx',(specOp m op).2) ∧ Tracks idx' (specOp m op).1 := by
  cases op with
  | put f d e =>
    have hf : f ≠ 0 := fun h => hnz (congrArg some h)
    obtain ⟨idx',hput,hrep,hcount,_⟩ := put_rep ht.rep hf hcap (hvis f rfl) d e
    obtain ⟨hfin,hlive⟩ := live_put ht.finite f (d,e)
    refine ⟨idx',by simp [applyOp,hput,specOp],hrep,hfin,?_⟩
    rw [hcount,specOp,hlive,ht.count]
  | get f =>
    have hf : f ≠ 0 := fun h => hnz (congrArg some h)
    obtain ⟨idx',r,hget,hrep,hcount,_,hiff⟩ := get_rep ht.rep hf
    rw [hiff.mpr (hvis f rfl)] at hget
    exact ⟨idx',by simp [applyOp,hget,specOp],hrep,ht.finite,hcount.trans ht.count⟩
  | remove f =>
    have hf : f ≠ 0 := fun h => hnz (congrArg some h)
    obtain ⟨idx',hrem,hrep,hcount,_⟩ := remove_rep ht.rep hf (hvis f rfl)
    obtain ⟨hfin,hlive⟩ := live_remove ht.finite f
    refine ⟨idx',by simp [applyOp,hrem,specOp],hrep,hfin,?_⟩
    rw [hcount,specOp,hlive,ht.count]
  | finishRehash =>
    obtain ⟨idx',hfinish,hrep,hcount,_⟩ := finishRehash_rep ht.rep
    exact ⟨idx',by simp [applyOp,hfinish,specOp],hrep,ht.finite,hcount.trans ht.count⟩

/-- As long as no operation asks for a key that the migration hides at that moment, the
index is the finite map of its history, whatever the cursor position; and in every
state so reached, a lookup is right exactly for the keys that are not hidden. -/
theorem hashIndex_refines_map (capacity : Nat) (ops : List IndexOp) (idx : HashIndex)
    (hinit : hashIndexInit capacity = some idx) (hnz : ∀ op ∈ ops, op.key ≠ some 0)
    (hcap : CapacityBelow idx ops) (hvis : KeysVisible idx ops) :
    ∃ idx', runOps idx ops = some (idx',(specRun (fun _ => none) ops).2) ∧
      idx'.count = liveCount (specRun (fun _ => none) ops).1 ∧
      ∀ f ≠ 0, ((hashIndexGet idx' f).map Prod.snd = some ((specRun (fun _ => none) ops).1 f) ↔
        ¬ Hidden hashLayout idx' f) := by
  obtain ⟨hrep,hzero⟩ := init_rep hinit
  have ht : Tracks idx (fun _ => none) := ⟨hrep,by simp,by simp [hzero,liveCount]⟩
  obtain ⟨idx',hrun,ht'⟩ := Run.replies_simulate applyOp specOp (R := Tracks) (V := Visible)
    (fun _ _ _ ht hnz hcap hvis => applyOp_tracks ht hnz hcap hvis) ops idx _ ht hnz hcap hvis
  refine ⟨idx',hrun,ht'.count,?_⟩
  intro f hf
  obtain ⟨idx'',r,hget,_,_,_,hiff⟩ := get_rep ht'.rep hf
  rw [hget,map_some,Option.some.injEq]
  exact hiff

def growingRun : List IndexOp :=
  [.put 1 0 10,.put 2 0 20,.put 3 1 30,.put 4 1 40,.put 5 1 50,.get 2,.remove 3,.get 3]

theorem growingRun_refines :
    ∃ idx, hashIndexInit 1 = some idx ∧
      ∃ idx', runOps idx growingRun = some (idx',(specRun (fun _ => none) growingRun).2) ∧
        idx'.count = liveCount (specRun (fun _ => none) growingRun).1 ∧
        ∀ f ≠ 0, ((hashIndexGet idx' f).map Prod.snd =
          some ((specRun (fun _ => none) growingRun).1 f) ↔ ¬ Hidden hashLayout idx' f) :=
  ⟨_,rfl,hashIndex_refines_map 1 growingRun _ rfl (by decide) (by decide +kernel)
    (by decide +kernel)⟩

def hidingRun : List IndexOp :=
  (List.range 24).map (fun i => .put (UInt64.ofNat (i + 6)) 0 i) ++ [.get 24]

theorem hidingRun_misses :
    ∃ idx, hashIndexInit 32 = some idx ∧ CapacityBelow idx hidingRun ∧
      (∀ op ∈ hidingRun, op.key ≠ some 0) ∧
      (runOps idx hidingRun).map Prod.snd ≠ some (specRun (fun _ => none) hidingRun).2 :=
  ⟨_,rfl,by decide +kernel,by decide +kernel,by decide +kernel⟩

end Gravel.Proofs.HashIndex
