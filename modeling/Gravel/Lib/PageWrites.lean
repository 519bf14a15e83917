import Gravel.Lib.File
import Mathlib.Data.List.Chain
import Mathlib.Data.List.Infix
import Mathlib.Data.List.Perm.Basic

namespace Chunks
open List

variable {α : Type} {n : Nat} {l : List α}

/-- The list from its front in pieces of `n`, the last of which may be shorter; `fuel` bounds the
number of pieces. -/
def chunksLoop (n : Nat) : Nat → List α → List (List α)
  | 0, _ => []
  | fuel + 1, l => if l.isEmpty then [] else l.take n :: chunksLoop n fuel (l.drop n)

def chunks (n : Nat) (l : List α) : List (List α) := chunksLoop n l.length l

theorem chunksLoop_flatten (hn : 0 < n) (fuel : Nat) :
    ∀ l : List α, l.length ≤ fuel → (chunksLoop n fuel l).flatten = l := by
  induction fuel with
  | zero =>
    intro l hl
    rw [eq_nil_of_length_eq_zero (Nat.le_zero.mp hl)]
    rfl
  | succ fuel ih =>
    intro l hl
    cases l with
    | nil => rfl
    | cons a l =>
      rw [chunksLoop,isEmpty_cons,if_neg Bool.false_ne_true,flatten_cons,ih,
        take_append_drop]
      rw [length_drop]
      rw [length_cons] at hl ⊢
      omega

theorem flatten_chunks (hn : 0 < n) (l : List α) : (chunks n l).flatten = l :=
  chunksLoop_flatten hn l.length l (Nat.le_refl _)

structure IsChunk (n : Nat) (c l : List α) : Prop where
  part : c <:+: l
  nonempty : c ≠ []
  short : c.length ≤ n

theorem chunksLoop_isChunk (hn : 0 < n) (fuel : Nat) :
    ∀ l : List α, ∀ c ∈ chunksLoop n fuel l, IsChunk n c l := by
  induction fuel with
  | zero =>
    intro l c hc
    cases hc
  | succ fuel ih =>
    intro l c hc
    cases l with
    | nil => cases hc
    | cons a l =>
      rw [chunksLoop,isEmpty_cons,if_neg Bool.false_ne_true] at hc
      rcases mem_cons.mp hc with rfl | hc
      · refine ⟨( take_prefix n (a :: l)).isInfix,?_,length_take_le n _⟩
        intro hnil
        rcases take_eq_nil_iff.mp hnil with h0 | h0
        · omega
        · cases h0
      · have hrest := ih ((a :: l).drop n) c hc
        exact ⟨hrest.part.trans (drop_suffix n (a :: l)).isInfix,hrest.nonempty,hrest.short⟩

theorem isChunk_of_mem (hn : 0 < n) {c : List α} (hc : c ∈ chunks n l) : IsChunk n c l :=
  chunksLoop_isChunk hn l.length l c hc

end Chunks

namespace File
open List

variable {α : Type} [Zero α] {f : File α} {pageSize : Nat}

theorem write_comm {off len off' len' : Nat} {src src' : Nat → α}
    (h : off + len ≤ off' ∨ off' + len' ≤ off) :
    (f.write off len src).write off' len' src' = (f.write off' len' src').write off len src := by
  refine File.ext ?_ (funext fun i => ?_)
  · simp only [write]
    split_ifs <;> omega
  · simp only [write]
    by_cases h1 : off ≤ i ∧ i < off + len
    · rw [if_neg (by omega),if_pos h1,if_pos h1]
    · rw [if_neg h1,if_neg h1]

def writeEach (pageSize : Nat) (f : File α) (pages : List (Nat × (Nat → α))) : File α :=
  pages.foldl (fun f w => f.write (w.1 * pageSize) pageSize w.2) f

variable {pages pages' : List (Nat × (Nat → α))}

theorem writeEach_append (f : File α) (pages pages' : List (Nat × (Nat → α))) :
    writeEach pageSize f (pages ++ pages') = writeEach pageSize (writeEach pageSize f pages) pages' :=
  foldl_append

theorem page_apart {p q : Nat} (h : p ≠ q) :
    p * pageSize + pageSize ≤ q * pageSize ∨ q * pageSize + pageSize ≤ p * pageSize := by
  rcases Nat.lt_or_gt_of_ne h with h | h
  · left
    rw [← Nat.succ_mul]
    exact Nat.mul_le_mul_right pageSize h
  · right
    rw [← Nat.succ_mul]
    exact Nat.mul_le_mul_right pageSize h

theorem writeEach_perm (hn : (pages.map Prod.fst).Nodup) (hp : pages.Perm pages') (f : File α) :
    writeEach pageSize f pages = writeEach pageSize f pages' := by
  refine hp.foldl_eq' ?_ f
  intro x hx y hy g
  by_cases hxy : x.1 = y.1
  · rw [inj_on_of_nodup_map hn hx hy hxy]
  · exact write_comm (page_apart hxy)

theorem writeEach_outside {i : Nat} :
    ∀ (pages : List (Nat × (Nat → α))) (f : File α),
      (∀ w ∈ pages, ¬ (w.1 * pageSize ≤ i ∧ i < w.1 * pageSize + pageSize)) →
      (writeEach pageSize f pages).cell i = f.cell i := by
  intro pages
  induction pages with
  | nil => exact fun f _ => rfl
  | cons w pages ih =>
    intro f hout
    rw [writeEach,foldl_cons]
    have hrest := ih (f.write (w.1 * pageSize) pageSize w.2)
      (fun w' hw' => hout w' (mem_cons_of_mem w hw'))
    rw [writeEach] at hrest
    rw [hrest,write_outside (hout w mem_cons_self)]

end File
