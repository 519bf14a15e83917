import Mathlib.Algebra.Notation.Defs
import Mathlib.Data.UInt
import Mathlib.Data.Nat.Basic
import Mathlib.Tactic.SplitIfs

/-- A file of cells that can be extended and overwritten in place. Cells that were never
written, and those past the end, are zero. -/
@[ext]
structure File (α : Type) [Zero α] where
  size : Nat
  cell : Nat → α
  zero_past : ∀ i, size ≤ i → cell i = 0

namespace File

variable {α : Type} [Zero α]

def empty : File α := ⟨0,fun _ => 0,fun _ _ => rfl⟩

def write (f : File α) (off len : Nat) (src : Nat → α) : File α where
  size := if len = 0 then f.size else max f.size (off + len)
  cell i := if off ≤ i ∧ i < off + len then src (i - off) else f.cell i
  zero_past i hi := by
    by_cases hin : off ≤ i ∧ i < off + len
    · split_ifs at hi <;> omega
    · rw [if_neg hin]
      exact f.zero_past i (by split_ifs at hi <;> omega)

/-- `fallocate` up to `n` cells; it never shrinks the file. -/
def extend (f : File α) (n : Nat) : File α where
  size := max f.size n
  cell := f.cell
  zero_past i hi := f.zero_past i (by omega)

def truncate (f : File α) (n : Nat) : File α where
  size := n
  cell i := if i < n then f.cell i else 0
  zero_past i hi := if_neg (by omega)

/-- `pread` into `buf`: cells past the end of the file leave the buffer as it is. -/
def read (f : File α) (off len : Nat) (buf : Nat → α) : Nat → α :=
  fun i => if i < len ∧ off + i < f.size then f.cell (off + i) else buf i

section Lemmas

variable {f : File α} {off len i : Nat} {src buf : Nat → α}

theorem write_inside (h : off ≤ i ∧ i < off + len) : (f.write off len src).cell i = src (i - off) :=
  if_pos h

theorem write_outside (h : ¬ (off ≤ i ∧ i < off + len)) :
    (f.write off len src).cell i = f.cell i := if_neg h

theorem size_le_write : f.size ≤ (f.write off len src).size := by
  unfold write
  simp only
  split_ifs <;> omega

theorem write_size (hl : 0 < len) : (f.write off len src).size = max f.size (off + len) :=
  if_neg (by omega)

theorem write_congr {src' : Nat → α} (h : ∀ i < len, src i = src' i) :
    f.write off len src = f.write off len src' := by
  refine File.ext rfl (funext fun i => ?_)
  simp only [write]
  split_ifs with hin
  · exact h (i - off) (by omega)
  · rfl

theorem write_adjacent {len' : Nat} {src' : Nat → α} :
    (f.write off len src).write (off + len) len' src' =
      f.write off (len + len') (fun i => if i < len then src i else src' (i - len)) := by
  refine File.ext ?_ (funext fun i => ?_)
  · simp only [write]
    split_ifs <;> omega
  · simp only [write]
    by_cases h1 : off ≤ i ∧ i < off + len
    · rw [if_neg (by omega),if_pos h1,if_pos (by omega),if_pos (by omega)]
    · by_cases h2 : off + len ≤ i ∧ i < off + len + len'
      · rw [if_pos h2,if_pos (by omega),if_neg (by omega),Nat.sub_sub]
      · rw [if_neg h2,if_neg h1,if_neg (by omega)]

/-- A buffer that is zeroed after a short read holds the cells of the file. -/
theorem read_zeroed (hi : i < len) : f.read off len (fun _ => 0) i = f.cell (off + i) := by
  unfold read
  split_ifs with h
  · rfl
  · exact (f.zero_past (off + i) (by omega)).symm

theorem read_full (hi : i < len) (hs : off + len ≤ f.size) :
    f.read off len buf i = f.cell (off + i) := if_pos ⟨hi,by omega⟩

end Lemmas

section Pages

variable {f f' f'' : File α} {pageSize p q i : Nat} {src : Nat → α} {bytes : Nat → Nat → α}
  {pages pages' : List Nat}

/-- Cell `i` of page `p` when the file is cut into pages of `pageSize` cells. -/
def page (f : File α) (pageSize p i : Nat) : α := f.cell (p * pageSize + i)

theorem page_write_self (hi : i < pageSize) :
    (f.write (p * pageSize) pageSize src).page pageSize p i = src i := by
  unfold page
  rw [write_inside ⟨by omega,by omega⟩,Nat.add_sub_cancel_left]

theorem page_write_other (hi : i < pageSize) (hq : q ≠ p) :
    (f.write (p * pageSize) pageSize src).page pageSize q i = f.page pageSize q i := by
  apply write_outside
  rintro ⟨hlo,hhi⟩
  rcases Nat.lt_or_gt_of_ne hq with h | h
  · have := Nat.mul_le_mul_right pageSize (Nat.succ_le_of_lt h)
    rw [Nat.succ_mul] at this
    omega
  · have := Nat.mul_le_mul_right pageSize (Nat.succ_le_of_lt h)
    rw [Nat.succ_mul] at this
    omega

/-- `f'` is `f` after the whole pages in `pages` were written with their `bytes`. -/
structure PagesWritten (pageSize : Nat) (bytes : Nat → Nat → α) (pages : List Nat)
    (f f' : File α) : Prop where
  size : f.size ≤ f'.size
  covers : ∀ q ∈ pages, q * pageSize + pageSize ≤ f'.size
  page : ∀ q i, i < pageSize →
    f'.page pageSize q i = if q ∈ pages then bytes q i else f.page pageSize q i

theorem PagesWritten.nil : PagesWritten pageSize bytes [] f f :=
  ⟨Nat.le_refl _,by simp,fun q i _ => by simp⟩

theorem PagesWritten.single : PagesWritten pageSize bytes [p] f
    (f.write (p * pageSize) pageSize (bytes p)) := by
  refine ⟨size_le_write,?_,?_⟩
  · intro q hq
    rw [List.mem_singleton.mp hq]
    rcases Nat.eq_zero_or_pos pageSize with h0 | hpos
    · simp [h0]
    · rw [write_size hpos]
      exact Nat.le_max_right _ _
  intro q i hi
  by_cases hq : q = p
  · subst hq
    simp [page_write_self hi]
  · simp [hq,page_write_other hi hq]

theorem PagesWritten.trans (h : PagesWritten pageSize bytes pages f f')
    (h' : PagesWritten pageSize bytes pages' f' f'') :
    PagesWritten pageSize bytes (pages ++ pages') f f'' := by
  refine ⟨Nat.le_trans h.size h'.size,?_,?_⟩
  · intro q hq
    rcases List.mem_append.mp hq with hq | hq
    · exact Nat.le_trans (h.covers q hq) h'.size
    · exact h'.covers q hq
  intro q i hi
  rw [h'.page q i hi,h.page q i hi]
  by_cases hq' : q ∈ pages' <;> by_cases hq : q ∈ pages <;> simp [hq,hq']

theorem PagesWritten.of_mem_iff (h : PagesWritten pageSize bytes pages f f')
    (hm : ∀ q, q ∈ pages ↔ q ∈ pages') : PagesWritten pageSize bytes pages' f f' := by
  refine ⟨h.size,fun q hq => h.covers q ((hm q).mpr hq),?_⟩
  intro q i hi
  rw [h.page q i hi]
  simp only [hm]

end Pages

section Patches

variable {f g : File α} {ws : List (Nat × List α)} {w : Nat × List α} {n : Nat} {src : Nat → α}

/-- The cells of each patch put at its offset, one patch after the other. -/
def patch (f : File α) (ws : List (Nat × List α)) : File α :=
  ws.foldl (fun f w => f.write w.1 w.2.length (w.2.getD · 0)) f

structure SameOutside (ws : List (Nat × List α)) (f g : File α) : Prop where
  cell : ∀ i, f.cell i = g.cell i ∨ ∃ w ∈ ws, w.1 ≤ i ∧ i < w.1 + w.2.length
  size : ∀ i, (i < f.size ↔ i < g.size) ∨ ∃ w ∈ ws, i < w.1 + w.2.length ∧ 0 < w.2.length

theorem lt_write_size {off len i : Nat} :
    i < (f.write off len src).size ↔ i < f.size ∨ i < off + len ∧ 0 < len := by
  simp only [write]
  split_ifs <;> omega

theorem SameOutside.write (h : SameOutside ws f g) (hw : w ∈ ws) (hn : n ≤ w.2.length) :
    SameOutside ws f (g.write w.1 n src) where
  cell i := by
    by_cases hin : w.1 ≤ i ∧ i < w.1 + n
    · exact .inr ⟨w,hw,by omega⟩
    · rw [write_outside hin]
      exact h.cell i
  size i := by
    by_cases hin : i < w.1 + n ∧ 0 < n
    · exact .inr ⟨w,hw,by omega⟩
    · rw [lt_write_size,or_iff_left hin]
      exact h.size i

/-- What differs inside the patches only is gone once all of them are put in. -/
theorem SameOutside.patch_eq (h : SameOutside ws f g) : f.patch ws = g.patch ws := by
  induction ws generalizing f g with
  | nil =>
    exact File.ext (eq_of_forall_lt_iff fun i => by simpa [patch] using h.size i)
      (funext fun i => by simpa [patch] using h.cell i)
  | cons w ws ih =>
    refine ih ⟨fun i => ?_,fun i => ?_⟩
    · by_cases hin : w.1 ≤ i ∧ i < w.1 + w.2.length
      · rw [write_inside hin,write_inside hin]
        exact .inl rfl
      · rw [write_outside hin,write_outside hin]
        simpa [hin] using h.cell i
    · rw [lt_write_size,lt_write_size]
      by_cases hin : i < w.1 + w.2.length ∧ 0 < w.2.length
      · exact .inl (by simp [hin])
      · simpa [hin] using h.size i

/-- Patches that hold cells of `g`. -/
theorem patch_cell (j : Nat)
    (h : ∀ w ∈ ws, ∀ i < w.2.length, w.2.getD i 0 = g.cell (w.1 + i)) :
    (f.patch ws).cell j =
      if ∃ w ∈ ws, w.1 ≤ j ∧ j < w.1 + w.2.length then g.cell j else f.cell j := by
  induction ws generalizing f with
  | nil => simp [patch]
  | cons w ws ih =>
    obtain ⟨hw,hws⟩ := List.forall_mem_cons.mp h
    refine (ih hws).trans ?_
    simp only [List.exists_mem_cons_iff]
    by_cases hin : w.1 ≤ j ∧ j < w.1 + w.2.length
    · rw [write_inside hin,hw _ (by omega),Nat.add_sub_cancel' hin.1,ite_self,
        if_pos (.inl hin)]
    · rw [write_outside hin]
      exact (if_congr (or_iff_right hin) rfl rfl).symm

end Patches

end File
