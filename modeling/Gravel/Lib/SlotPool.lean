import Mathlib.Data.List.Nodup
import Mathlib.Data.List.Perm.Basic
import Mathlib.Data.Set.Card

namespace SlotPool
open List

variable {κ : Type}

/-- The slots below `bump` are split between the keys that own one and the idle slots. -/
structure Partition (bump : Nat) (idle : List Nat) (owns : κ → Nat → Prop) : Prop where
  nodup : idle.Nodup
  idle_lt : ∀ e ∈ idle, e < bump
  owned_lt : ∀ k e, owns k e → e < bump
  owned_busy : ∀ k e, owns k e → e ∉ idle
  unique : ∀ k k' e, owns k e → owns k' e → k = k'
  cover : ∀ e, e < bump → e ∉ idle → ∃ k, owns k e

def grant (owns : κ → Nat → Prop) (k : κ) (e : Nat) : κ → Nat → Prop :=
  fun k' e' => owns k' e' ∨ (k' = k ∧ e' = e)

def revoke (owns : κ → Nat → Prop) (k : κ) : κ → Nat → Prop :=
  fun k' e' => owns k' e' ∧ k' ≠ k

section Moves

variable {bump e : Nat} {idle idle' : List Nat} {owns owns' : κ → Nat → Prop} {k : κ}

theorem Partition.empty : Partition 0 [] (fun (_ : κ) _ => False) :=
  ⟨nodup_nil,by simp,fun _ _ h => h.elim,fun _ _ h => h.elim,fun _ _ _ h => h.elim,
    fun _ h => absurd h (Nat.not_lt_zero _)⟩

theorem Partition.congr (h : Partition bump idle owns) (ho : ∀ k e, owns' k e ↔ owns k e) :
    Partition bump idle owns' := by
  have heq : owns' = owns := funext fun k => funext fun e => propext (ho k e)
  rw [heq]
  exact h

theorem Partition.perm (h : Partition bump idle owns) (hp : idle'.Perm idle) :
    Partition bump idle' owns := by
  refine ⟨hp.nodup_iff.mpr h.nodup,?_,h.owned_lt,?_,h.unique,?_⟩
  · intro e he
    exact h.idle_lt e (hp.mem_iff.mp he)
  · intro k e hk he
    exact h.owned_busy k e hk (hp.mem_iff.mp he)
  · intro e hlt he
    exact h.cover e hlt (fun hm => he (hp.mem_iff.mpr hm))

theorem Partition.take (h : Partition bump (e :: idle) owns) (k : κ) :
    Partition bump idle (grant owns k e) := by
  have hnd := nodup_cons.mp h.nodup
  have he : e < bump := h.idle_lt e mem_cons_self
  have hfree : ∀ k', ¬ owns k' e := fun k' hk => h.owned_busy k' e hk mem_cons_self
  refine ⟨hnd.2,fun x hx => h.idle_lt x (mem_cons_of_mem e hx),?_,?_,?_,?_⟩
  · rintro k' x (hx | ⟨_,rfl⟩)
    · exact h.owned_lt k' x hx
    · exact he
  · rintro k' x (hx | ⟨_,rfl⟩)
    · exact fun hm => h.owned_busy k' x hx (mem_cons_of_mem e hm)
    · exact hnd.1
  · rintro k1 k2 x (h1 | ⟨rfl,rfl⟩) (h2 | ⟨rfl,h2⟩)
    · exact h.unique k1 k2 x h1 h2
    · subst h2
      exact absurd h1 (hfree k1)
    · exact absurd h2 (hfree k2)
    · rfl
  · intro x hlt hx
    by_cases hxe : x = e
    · exact ⟨k,.inr ⟨rfl,hxe⟩⟩
    · obtain ⟨k',hk'⟩ := h.cover x hlt (by simp [hxe,hx])
      exact ⟨k',.inl hk'⟩

theorem Partition.fresh (h : Partition bump idle owns) : Partition (bump + 1) (bump :: idle) owns := by
  have hnew : bump ∉ idle := fun hm => Nat.lt_irrefl _ (h.idle_lt bump hm)
  refine ⟨nodup_cons.mpr ⟨hnew,h.nodup⟩,?_,fun k x hx => Nat.lt_succ_of_lt (h.owned_lt k x hx),?_,
    h.unique,?_⟩
  · intro x hx
    rcases mem_cons.mp hx with rfl | hx
    · exact Nat.lt_succ_self _
    · exact Nat.lt_succ_of_lt (h.idle_lt x hx)
  · intro k x hx hm
    rcases mem_cons.mp hm with rfl | hm
    · exact Nat.lt_irrefl _ (h.owned_lt k x hx)
    · exact h.owned_busy k x hx hm
  · intro x hlt hx
    rw [mem_cons,not_or] at hx
    exact h.cover x (by omega) hx.2

theorem Partition.extend (h : Partition bump idle owns) (k : κ) :
    Partition (bump + 1) idle (grant owns k bump) := h.fresh.take k

theorem Partition.release (h : Partition bump idle owns) (hk : owns k e)
    (hfun : ∀ e', owns k e' → e' = e) : Partition bump (e :: idle) (revoke owns k) := by
  refine ⟨nodup_cons.mpr ⟨h.owned_busy k e hk,h.nodup⟩,?_,
    fun k' x hx => h.owned_lt k' x hx.1,?_,fun k1 k2 x h1 h2 => h.unique k1 k2 x h1.1 h2.1,?_⟩
  · intro x hx
    rcases mem_cons.mp hx with rfl | hx
    · exact h.owned_lt k x hk
    · exact h.idle_lt x hx
  · intro k' x hx hm
    rcases mem_cons.mp hm with rfl | hm
    · exact hx.2 (h.unique k' k x hx.1 hk)
    · exact h.owned_busy k' x hx.1 hm
  · intro x hlt hx
    rw [mem_cons,not_or] at hx
    obtain ⟨hxe,hx⟩ := hx
    obtain ⟨k',hk'⟩ := h.cover x hlt hx
    refine ⟨k',hk',?_⟩
    rintro rfl
    exact hxe (hfun x hk')

theorem Partition.bump_le_ncard (h : Partition bump [] owns) {live : Set κ} (hfin : live.Finite)
    (hlive : ∀ k e, owns k e → k ∈ live) (hfun : ∀ k e e', owns k e → owns k e' → e = e') :
    bump ≤ live.ncard := by
  choose owner howner using fun e : Fin bump => h.cover e e.2 (by simp)
  have hinj : Function.Injective owner := by
    intro a b hab
    have hb := howner b
    rw [← hab] at hb
    exact Fin.ext (hfun _ _ _ (howner a) hb)
  have hsub : Set.range owner ⊆ live := by
    rintro _ ⟨e,rfl⟩
    exact hlive _ _ (howner e)
  calc bump = (Set.range owner).ncard := by
        rw [Set.ncard_range_of_injective hinj,Nat.card_eq_fintype_card,Fintype.card_fin]
    _ ≤ live.ncard := Set.ncard_le_ncard hsub hfin

end Moves

end SlotPool
