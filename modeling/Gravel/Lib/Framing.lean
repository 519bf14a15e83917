import Mathlib.Data.List.Basic

namespace Framing
open List Option

/-- Tells the first message of a buffer and its length, once all of it is there. -/
structure Scanner (α μ : Type) where
  scan : List α → Option (μ × Nat)
  fits : ∀ {b m n}, scan b = some (m,n) → 0 < n ∧ n ≤ b.length
  extend : ∀ {b m n}, scan b = some (m,n) → ∀ x, scan (b ++ x) = some (m,n)

/-- The messages at the front of `s`, one after the other, and what is left. -/
inductive Cut {α μ : Type} (S : Scanner α μ) : List α → List μ → List α → Prop
  | nil (s : List α) : Cut S s [] s
  | cons {s rest : List α} {m : μ} {n : Nat} {ms : List μ} (front : S.scan s = some (m,n))
      (next : Cut S (s.drop n) ms rest) : Cut S s (m :: ms) rest

variable {α μ : Type} {S : Scanner α μ} {s r t : List α} {ms ms' : List μ} {m : μ} {n : Nat}

theorem Cut.trans (h : Cut S s ms r) (h' : Cut S r ms' t) : Cut S s (ms ++ ms') t := by
  induction h with
  | nil => exact h'
  | cons front _ ih => exact .cons front (ih h')

theorem Cut.append (h : Cut S s ms r) (x : List α) : Cut S (s ++ x) ms (r ++ x) := by
  induction h with
  | nil => exact .nil _
  | cons front _ ih =>
    refine .cons (S.extend front x) ?_
    rw [drop_append_of_le_length (S.fits front).2]
    exact ih

theorem Cut.compare (h : Cut S s ms r) : ∀ {ms' t}, Cut S s ms' t →
    (∃ more, Cut S r more t ∧ ms' = ms ++ more) ∨ (∃ more, Cut S t more r ∧ ms = ms' ++ more) := by
  induction h with
  | nil =>
    intro ms' t h'
    exact .inl ⟨ms',h',rfl⟩
  | cons front next ih =>
    intro ms' t h'
    cases h' with
    | nil => exact .inr ⟨_,.cons front next,rfl⟩
    | cons front' next' =>
      rw [front,some_inj,Prod.mk.injEq] at front'
      obtain ⟨rfl,rfl⟩ := front'
      rcases ih next' with ⟨more,hmore,rfl⟩ | ⟨more,hmore,rfl⟩
      · exact .inl ⟨more,hmore,rfl⟩
      · exact .inr ⟨more,hmore,rfl⟩

theorem Cut.eq_nil (h : Cut S s ms r) (hs : S.scan s = none) : ms = [] ∧ r = s := by
  cases h with
  | nil => exact ⟨rfl,rfl⟩
  | cons front _ =>
    rw [hs] at front
    cases front

theorem Cut.unique (h : Cut S s ms r) (h' : Cut S s ms' t) (hr : S.scan r = none)
    (ht : S.scan t = none) : ms' = ms ∧ t = r := by
  rcases h.compare h' with ⟨more,hmore,rfl⟩ | ⟨more,hmore,rfl⟩
  · obtain ⟨rfl,rfl⟩ := hmore.eq_nil hr
    exact ⟨append_nil _,rfl⟩
  · obtain ⟨rfl,rfl⟩ := hmore.eq_nil ht
    exact ⟨(append_nil _).symm,rfl⟩

end Framing
