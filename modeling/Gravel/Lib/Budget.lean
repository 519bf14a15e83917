import Mathlib.Data.List.Forall2
import Mathlib.Logic.Function.Basic

namespace Budget
open Function

variable {κ ι : Type} [DecidableEq κ] [DecidableEq ι]

/-- How many of the keys a buffer takes: each new key costs `cost`, a key that is held already
nothing, and nothing is taken once the budget is used up. A budget of 0 has no limit. -/
def taken (budget cost : Nat) : (κ → Bool) → Nat → List κ → Nat
  | _,_,[] => 0
  | held,used,k :: rest =>
    if 0 < budget ∧ budget ≤ used then 0
    else taken budget cost (update held k true) (if held k then used else used + cost) rest + 1

/-- The most new keys that a list of `n` keys can bring. -/
def newKeys (budget cost used n : Nat) : Nat :=
  if 0 < budget then min n ((budget - used + cost - 1) / cost) else n

section Taken

variable {budget cost : Nat}

theorem taken_full (held : κ → Bool) {used : Nat} (h : 0 < budget ∧ budget ≤ used) (l : List κ) :
    taken budget cost held used l = 0 := by
  cases l with
  | nil => rfl
  | cons k rest => rw [taken,if_pos h]

theorem taken_cons (held : κ → Bool) {used : Nat} (h : ¬ (0 < budget ∧ budget ≤ used)) (k : κ)
    (rest : List κ) : taken budget cost held used (k :: rest) =
      taken budget cost (update held k true) (if held k then used else used + cost) rest +
        1 := by
  rw [taken,if_neg h]

theorem newKeys_covers (hcost : 0 < cost) (used n : Nat) :
    n ≤ newKeys budget cost used n ∨
      0 < budget ∧ budget ≤ used + newKeys budget cost used n * cost := by
  unfold newKeys
  split_ifs with hb
  · rcases Nat.le_total n ((budget - used + cost - 1) / cost) with hle | hge
    · exact .inl (Nat.le_min.mpr ⟨Nat.le_refl n,hle⟩)
    · refine .inr ⟨hb,?_⟩
      rw [Nat.min_eq_right hge,Nat.mul_comm]
      have hmod := Nat.mod_lt (budget - used + cost - 1) hcost
      have hdiv := Nat.div_add_mod (budget - used + cost - 1) cost
      omega
  · exact .inl (Nat.le_refl n)

theorem taken_unlimited (l : List κ) :
    ∀ (held : κ → Bool) used, taken 0 cost held used l = l.length := by
  induction l with
  | nil => exact fun _ _ => rfl
  | cons k rest ih => simp [taken,ih]

theorem taken_le (l : List κ) :
    ∀ (held : κ → Bool) used, taken budget cost held used l ≤ l.length := by
  induction l with
  | nil => exact fun _ _ => Nat.le_refl 0
  | cons k rest ih =>
    intro held used
    by_cases h : 0 < budget ∧ budget ≤ used
    · rw [taken_full held h]
      exact Nat.zero_le _
    · rw [taken_cons held h]
      exact Nat.succ_le_succ (ih _ _)

theorem taken_rel {R : κ → ι → Prop}
    (hinj : ∀ a b a' b', R a b → R a' b' → (a = a' ↔ b = b')) {l : List κ} {l' : List ι}
    (h : List.Forall₂ R l l') : ∀ (held : κ → Bool) (held' : ι → Bool) used,
      (∀ a b, R a b → held a = held' b) →
      taken budget cost held used l = taken budget cost held' used l' := by
  induction h with
  | nil => exact fun _ _ _ _ => rfl
  | @cons k k' rest rest' hk _ ih =>
    intro held held' used hheld
    rw [taken,taken,hheld k k' hk]
    congr 2
    refine ih _ _ _ fun a b hab => ?_
    have hiff := hinj a b k k' hab hk
    by_cases ha : a = k
    · rw [ha,hiff.mp ha,update_self,update_self]
    · rw [update_of_ne ha,update_of_ne (fun hb => ha (hiff.mpr hb)),hheld a b hab]

end Taken

end Budget
