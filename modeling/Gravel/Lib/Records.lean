import Mathlib.Data.List.Basic

namespace Records
open List

variable {α β : Type}

/-- Up to `n` records off the front of `s`; the first one that cannot be read ends the loop. -/
def readMany (read : List β → Option (α × List β)) : Nat → List β → List α × List β
  | 0, s => ([],s)
  | n + 1, s =>
    match read s with
    | none => ([],s)
    | some (a,s) =>
      let (as,s) := readMany read n s
      (a :: as,s)

variable {read : List β → Option (α × List β)} {write : α → List β}

theorem readMany_written (rest : List β) (as : List α)
    (h : ∀ a ∈ as, ∀ s, read (write a ++ s) = some (a,s)) :
    readMany read as.length (as.flatMap write ++ rest) = (as,rest) := by
  induction as with
  | nil => rfl
  | cons a as ih =>
    rw [flatMap_cons,append_assoc,length_cons,readMany,h a mem_cons_self]
    simp only [ih (fun b hb => h b (mem_cons_of_mem _ hb))]

theorem readMany_bytes (h : ∀ s a s', read s = some (a,s') → s = write a ++ s') (n : Nat)
    (s : List β) : s = (readMany read n s).1.flatMap write ++ (readMany read n s).2 := by
  induction n generalizing s with
  | zero => rfl
  | succ n ih =>
    rw [readMany]
    split
    · rfl
    · rename_i a s' hread
      rw [flatMap_cons,append_assoc,← ih s']
      exact h s a s' hread

theorem forall_readMany {P : α → Prop} (h : ∀ s a s', read s = some (a,s') → P a) (n : Nat)
    (s : List β) : ∀ a ∈ (readMany read n s).1, P a := by
  induction n generalizing s with
  | zero => exact fun _ ha => (not_mem_nil ha).elim
  | succ n ih =>
    rw [readMany]
    split
    · exact fun _ ha => (not_mem_nil ha).elim
    · rename_i a s' hread
      exact forall_mem_cons.mpr ⟨h s a s' hread,ih s'⟩

end Records
