import Gravel.Lib.Rehash
import Mathlib.Logic.Relation

namespace Rehash
open LinearProbe Option Function

section Frames

variable {κ σ : Type} {L : Layout κ σ} {t t' : Table σ} {k : κ} {r : Option σ} {change : σ → σ}
  {fresh : σ}

theorem rehashStep_keeps (h : rehashStep L t = some t') :
    t'.count = t.count ∧ t'.capacity = t.capacity ∧ (t.old = none → t' = t) := by
  unfold rehashStep at h
  cases ho : t.old with
  | none =>
    simp only [ho] at h
    cases h
    exact ⟨rfl,rfl,fun _ => rfl⟩
  | some o =>
    simp only [ho] at h
    obtain ⟨⟨slots,o'⟩,_,h⟩ := bind_eq_some_iff.mp h
    simp only at h
    split_ifs at h
    · cases h
      exact ⟨rfl,rfl,fun hn => by cases hn⟩
    · cases h
      exact ⟨rfl,rfl,fun hn => by cases hn⟩

variable [DecidableEq κ]

theorem get_steps (h : get L t k = some (t',r)) : rehashStep L t = some t' := by
  obtain ⟨t1,hstep,h⟩ := bind_eq_some_iff.mp h
  have h1 : t' = t1 := by
    split at h
    · cases h
      rfl
    · split at h
      · cases h
        rfl
      · cases h
        rfl
  rw [h1]
  exact hstep

theorem get_keeps (h : get L t k = some (t',r)) :
    t'.count = t.count ∧ t'.capacity = t.capacity ∧ (t.old = none → t' = t) :=
  rehashStep_keeps (get_steps h)

def Migrates (L : Layout κ σ) : Table σ → Table σ → Prop :=
  Relation.ReflTransGen (fun t t' => rehashStep L t = some t')

/-- Lookups answer the same after any number of migration steps. -/
def Steady (L : Layout κ σ) (t : Table σ) : Prop :=
  ∀ t', Migrates L t t' → ∀ k, (get L t' k).map Prod.snd = (get L t k).map Prod.snd

omit [DecidableEq κ] in
theorem migrates_still (ho : t.old = none) (h : Migrates L t t') : t' = t := by
  induction h with
  | refl => rfl
  | tail _ hstep ih =>
    subst ih
    exact (rehashStep_keeps hstep).2.2 ho

omit [DecidableEq κ] in
theorem migrates_capacity (h : Migrates L t t') : t'.capacity = t.capacity := by
  induction h with
  | refl => rfl
  | tail _ hstep ih => exact (rehashStep_keeps hstep).2.1.trans ih

theorem steady_still (ho : t.old = none) : Steady L t := by
  intro t' h k
  rw [migrates_still ho h]

theorem slot_chosen {α : Type} {found : Option Nat} {w : Bool} {home : Nat} {write : Nat → Option α}
    {r : α} (h : (match found with
      | some i => some i >>= write
      | none => if w then some home >>= write else none >>= write) = some r) :
    ∃ i, write i = some r := by
  cases found with
  | some i => exact ⟨i,h⟩
  | none =>
    cases w with
    | true => exact ⟨home,h⟩
    | false => cases h

theorem put_phases (h : put L t k change fresh = some t') :
    ∃ t1 t2, rehashStep L t = some t1 ∧ t2 = growth L t1 ∧
      (t2.count ≤ t'.count ∧ t'.count ≤ t2.count + 1) ∧ t'.capacity = t2.capacity ∧
      t'.old.isSome = t2.old.isSome := by
  obtain ⟨t1,hstep,h⟩ := bind_eq_some_iff.mp h
  obtain ⟨t2,ht2⟩ : ∃ t2, t2 = growth L t1 := ⟨_,rfl⟩
  simp only [← ht2] at h
  refine ⟨t1,t2,hstep,ht2,?_⟩
  obtain ⟨i,h⟩ := slot_chosen h
  split_ifs at h
  · cases h
    exact ⟨⟨Nat.le_refl _,Nat.le_succ _⟩,rfl,rfl⟩
  · split at h
    · rename_i old j hold
      cases h
      obtain ⟨o,ho,_⟩ := bind_eq_some_iff.mp hold
      exact ⟨⟨Nat.le_refl _,Nat.le_succ _⟩,rfl,by rw [ho]; rfl⟩
    · cases h
      exact ⟨⟨Nat.le_succ _,Nat.le_refl _⟩,rfl,rfl⟩

omit [DecidableEq κ] in
theorem growth_keeps : (growth L t).count = t.count ∧
    (growth L t).capacity = (if t.old.isNone && L.crowded t.count t.capacity
      then L.double t.capacity else t.capacity) ∧
    (L.crowded t.count t.capacity = false → growth L t = t) := by
  unfold growth
  split_ifs with hc
  · refine ⟨rfl,rfl,fun hcalm => ?_⟩
    rw [hcalm,Bool.and_false] at hc
    cases hc
  · exact ⟨rfl,rfl,fun _ => rfl⟩

theorem put_capacity (h : put L t k change fresh = some t') :
    t'.capacity = t.capacity ∨
      (L.crowded t.count t.capacity = true ∧ t'.capacity = L.double t.capacity) := by
  obtain ⟨t1,t2,hstep,ht2,_,hcap',_⟩ := put_phases h
  obtain ⟨hcount,hcap,_⟩ := rehashStep_keeps hstep
  have hgrown := (growth_keeps (L := L) (t := t1)).2.1
  rw [hcap',ht2,hgrown,hcount,hcap]
  split_ifs with hc
  · exact .inr ⟨(Bool.and_eq_true_iff.mp hc).2,rfl⟩
  · exact .inl rfl

theorem put_positive (h : put L t k change fresh = some t') : 0 < t'.capacity := by
  obtain ⟨t1,t2,hstep,ht2,_,hcap',_⟩ := put_phases h
  rw [hcap']
  refine Nat.pos_of_ne_zero fun hzero => ?_
  simp [put,hstep,← ht2,find,hzero,probe] at h

theorem put_keeps (h : put L t k change fresh = some t') :
    (t.count ≤ t'.count ∧ t'.count ≤ t.count + 1) ∧
      (t.old = none → if L.crowded t.count t.capacity then t'.capacity = L.double t.capacity
        else t'.capacity = t.capacity ∧ t'.old = none) := by
  obtain ⟨t1,t2,hstep,ht2,hlast,hcap',hold'⟩ := put_phases h
  obtain ⟨hcount,hcap,hstill⟩ := rehashStep_keeps hstep
  obtain ⟨hcount2,hcap2,hsame⟩ := growth_keeps (L := L) (t := t1)
  rw [← ht2] at hcount2 hcap2 hsame
  refine ⟨by omega,fun ho => ?_⟩
  rw [hstill ho] at hcap2 hsame
  rw [ho] at hcap2
  split_ifs with hc
  · rw [hcap',hcap2]
    simp [hc]
  · have heq := hsame (Bool.not_eq_true _ ▸ hc)
    rw [heq,ho] at hold'
    exact ⟨by rw [hcap',heq],by simpa using hold'⟩

theorem remove_keeps {found : Bool} (h : remove L t k = some (t',found)) :
    t'.count ≤ t.count ∧ t'.capacity = t.capacity ∧ (t.old = none → t'.old = none) := by
  obtain ⟨t1,hstep,h⟩ := bind_eq_some_iff.mp h
  obtain ⟨hcount,hcap,hstill⟩ := rehashStep_keeps hstep
  have hold : t.old = none → t1.old = none := fun ho => by rw [hstill ho]; exact ho
  split at h
  · cases h
    exact ⟨by rw [← hcount]; exact Nat.sub_le _ _,hcap,hold⟩
  · split at h
    · rename_i old j ho
      cases h
      refine ⟨by rw [← hcount]; exact Nat.sub_le _ _,hcap,fun hn => ?_⟩
      rw [hold hn] at ho
      cases ho
    · cases h
      exact ⟨Nat.le_of_eq hcount,hcap,hold⟩

end Frames

end Rehash
