import Gravel.Lib.Wire
import Mathlib.Data.List.Perm.Basic
import Mathlib.Data.List.Flatten

/-!
Blocks of equal size that are cut out of pages, and lists of free blocks whose links are kept in the
blocks themselves, eight bytes at the start of each. Address zero ends a list.
-/

namespace FreeList
open Wire List

abbrev Memory := Nat → UInt8

def load (m : Memory) (a : Nat) : Nat := getLE ((List.range 8).map (fun i => m (a + i)))

def store (m : Memory) (a v : Nat) : Memory :=
  fun b => if a ≤ b ∧ b < a + 8 then (putLE 8 v).getD (b - a) 0 else m b

/-- Blocks of `size` bytes at `a` and `b` do not overlap. -/
def Apart (size a b : Nat) : Prop := a + size ≤ b ∨ b + size ≤ a

instance (size a b : Nat) : Decidable (Apart size a b) := inferInstanceAs (Decidable (_ ∨ _))

/-- The links from address `a` on lead through `blocks` to zero. -/
inductive Listed (m : Memory) : Nat → List Nat → Prop where
  | nil : Listed m 0 []
  | cons {a : Nat} {blocks : List Nat} (nonnull : a ≠ 0) (tail : Listed m (load m a) blocks) :
      Listed m a (a :: blocks)

/-- Each block is linked to the one that was the head before it. -/
def pushAll (m : Memory) (head : Nat) (blocks : List Nat) : Memory × Nat :=
  blocks.foldl (fun r a => (store r.1 a r.2,a)) (m,head)

/-- The blocks of a page at `base`. -/
def carve (size count base : Nat) : List Nat := (List.range count).map (fun i => base + i * size)

section Memory

variable {m m' : Memory} {a v head : Nat} {blocks blocks' : List Nat}

theorem load_congr (h : ∀ b, a ≤ b → b < a + 8 → m' b = m b) : load m' a = load m a := by
  unfold load
  congr 1
  apply map_congr_left
  intro i hi
  have hlt := mem_range.mp hi
  exact h (a + i) (Nat.le_add_right a i) (by omega)

theorem load_store (hv : v < 2 ^ 64) : load (store m a v) a = v := by
  have hbytes : (List.range 8).map (fun i => store m a v (a + i)) = putLE 8 v := by
    apply ext_getElem (by simp)
    intro i hi _
    rw [length_map,length_range] at hi
    simp [store,hi]
  rw [load,hbytes]
  exact getLE_putLE_of_lt hv

theorem store_outside {b : Nat} (h : ¬ (a ≤ b ∧ b < a + 8)) : store m a v b = m b := if_neg h

theorem Listed.congr (h : Listed m head blocks)
    (hm : ∀ a ∈ blocks, ∀ b, a ≤ b → b < a + 8 → m' b = m b) : Listed m' head blocks := by
  induction h with
  | nil => exact .nil
  | cons nonnull _ ih =>
    refine .cons nonnull ?_
    rw [load_congr (hm _ mem_cons_self)]
    exact ih (fun a ha => hm a (mem_cons_of_mem _ ha))

theorem Listed.pop (h : Listed m head blocks) (hhead : head ≠ 0) :
    ∃ rest, blocks = head :: rest ∧ Listed m (load m head) rest := by
  cases h with
  | nil => exact absurd rfl hhead
  | cons _ tail => exact ⟨_,rfl,tail⟩

theorem Listed.head_lt (h : Listed m head blocks) (hlt : ∀ a ∈ blocks, a < 2 ^ 64) :
    head < 2 ^ 64 := by
  cases h with
  | nil => decide
  | cons _ _ => exact hlt _ mem_cons_self

theorem Listed.push (h : Listed m head blocks) (hlt : ∀ a ∈ blocks, a < 2 ^ 64) (ha : a ≠ 0)
    (hfar : ∀ b ∈ blocks, Apart 8 a b) : Listed (store m a head) a (a :: blocks) := by
  refine .cons ha ?_
  rw [load_store (h.head_lt hlt)]
  refine h.congr (fun b hb c hle hlt => store_outside ?_)
  have hapart := hfar b hb
  unfold Apart at hapart
  omega

theorem Listed.pushAll {new : List Nat} (h : Listed m head blocks)
    (hblocks : ∀ a ∈ new ++ blocks, a ≠ 0 ∧ a < 2 ^ 64) (hfar : (new ++ blocks).Pairwise (Apart 8)) :
    Listed (pushAll m head new).1 (pushAll m head new).2 (new.reverse ++ blocks) := by
  induction new generalizing m head blocks with
  | nil => exact h
  | cons a new ih =>
    obtain ⟨hhead,hrest⟩ := pairwise_cons.mp hfar
    have hpush := h.push (fun b hb => (hblocks b (by simp [hb])).2) (hblocks a (by simp)).1
      (fun b hb => hhead b (mem_append_right _ hb))
    rw [reverse_cons,append_assoc]
    refine ih hpush (fun b hb => hblocks b ?_) ?_
    · simpa [or_comm,or_left_comm] using hb
    · refine (List.Perm.pairwise_iff (fun h => h.symm) ?_).mp hfar
      exact perm_middle.symm

theorem pushAll_append (m : Memory) (head : Nat) (blocks : List Nat) (a : Nat) :
    (FreeList.pushAll m head (blocks ++ [a])).2 = a := by
  rw [FreeList.pushAll,foldl_append]
  rfl

end Memory

section Pages

variable {size count base a pageSize : Nat} {pages : List Nat}

theorem mem_carve : a ∈ carve size count base ↔ ∃ i < count, a = base + i * size := by
  simp [carve,eq_comm]

theorem carve_inside (hfit : count * size ≤ pageSize) (h : a ∈ carve size count base) :
    base ≤ a ∧ a + size ≤ base + pageSize := by
  obtain ⟨i,hi,rfl⟩ := mem_carve.mp h
  have hle : (i + 1) * size ≤ count * size := Nat.mul_le_mul_right size hi
  rw [Nat.succ_mul] at hle
  omega

theorem carve_apart : (carve size count base).Pairwise (Apart size) := by
  refine pairwise_map.mpr (pairwise_lt_range.imp ?_)
  intro i j hij
  have hle : (i + 1) * size ≤ j * size := Nat.mul_le_mul_right size hij
  rw [Nat.succ_mul] at hle
  exact .inl (by omega)

theorem carved_apart (hfit : count * size ≤ pageSize) (hpages : pages.Pairwise (Apart pageSize)) :
    (pages.flatMap (carve size count)).Pairwise (Apart size) := by
  refine pairwise_flatMap.mpr ⟨fun base _ => carve_apart,hpages.imp ?_⟩
  intro p q hpq a ha b hb
  have hp := carve_inside hfit ha
  have hq := carve_inside hfit hb
  unfold Apart at hpq ⊢
  omega

theorem length_carved (size count : Nat) (pages : List Nat) :
    (pages.flatMap (carve size count)).length = pages.length * count := by
  simp [length_flatMap,carve]

end Pages

end FreeList
