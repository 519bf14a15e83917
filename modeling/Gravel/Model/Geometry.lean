import Mathlib.Data.Nat.Bitwise
import Mathlib.Tactic.SplitIfs

namespace Gravel

/-- `align_up` on `size_t`; `~(align - 1)` is `2 ^ 64 - align`. -/
def alignUp (val align : Nat) : Nat :=
  if align = 0 then val else (val + align - 1) &&& (2 ^ 64 - 1 - (align - 1))

theorem or_le_add (a b : Nat) : a ||| b ≤ a + b := by
  induction a using Nat.strong_induction_on generalizing b with
  | h a ih =>
    rcases Nat.eq_zero_or_pos a with rfl | ha
    · simp
    · have h := ih (a / 2) (by omega) (b / 2)
      have hd : (a ||| b) / 2 = a / 2 ||| b / 2 := Nat.or_div_two
      have hm : (a ||| b) % 2 = 1 ↔ a % 2 = 1 ∨ b % 2 = 1 := Nat.or_mod_two_eq_one
      omega

theorem and_add_and_not {m : Nat} (x : Nat) (hx : x < 2 ^ 64) (hm : m < 2 ^ 64) :
    x ≤ (x &&& (2 ^ 64 - 1 - m)) + m := by
  have hsub : 2 ^ 64 - 1 - m = 2 ^ 64 - (m + 1) := by omega
  have hsplit : x = (x &&& (2 ^ 64 - 1 - m)) ||| (x &&& m) := by
    apply Nat.eq_of_testBit_eq
    intro i
    rw [hsub,Nat.testBit_or,Nat.testBit_and,Nat.testBit_and,Nat.testBit_two_pow_sub_succ hm]
    by_cases hi : i < 64
    · cases x.testBit i <;> cases m.testBit i <;> simp [hi]
    · have : x.testBit i = false :=
        Nat.testBit_lt_two_pow (Nat.lt_of_lt_of_le hx (Nat.pow_le_pow_right (by omega) (by omega)))
      simp [this]
  have hor : (x &&& (2 ^ 64 - 1 - m)) ||| (x &&& m) ≤ (x &&& (2 ^ 64 - 1 - m)) + (x &&& m) :=
    or_le_add _ _
  have hand : x &&& m ≤ m := Nat.and_le_right
  omega

/-- Rounding up never loses bytes, whether or not `align` is a power of two. -/
theorem le_alignUp {val align : Nat} (hv : val < 2 ^ 33) (ha : align < 2 ^ 32) :
    val ≤ alignUp val align := by
  unfold alignUp
  split_ifs with h
  · exact Nat.le_refl val
  · have := and_add_and_not (m := align - 1) (val + align - 1) (by omega) (by omega)
    omega

structure Geometry where
  dim : Nat
  pageSize : Nat
  entrySize : Nat
  entriesPerPage : Nat
  dim_pos : 0 < dim
  vector_le : dim * 4 ≤ entrySize
  page_pos : 0 < pageSize
  page_lt : pageSize < 2 ^ 32
  entries_pos : 0 < entriesPerPage
  entries_le : entrySize ≤ pageSize → entriesPerPage * entrySize ≤ pageSize
  large_entry : pageSize < entrySize → entriesPerPage = 1

/-- The layout part of `dimbin_init`. `none` when `dim` is not a positive `int`, or when
the entry size is a multiple of `2 ^ 32`, where `buffer_size / page_size` divides by zero. -/
def dimbinGeometry (dim : Nat) (entryAlign pageSize : UInt32) : Option Geometry :=
  if hd : 0 < dim ∧ dim < 2 ^ 31 then
    let ps := if pageSize = 0 then 4096 else pageSize.toNat
    let es := alignUp (dim * 4) entryAlign.toNat
    have hle : dim * 4 ≤ es := le_alignUp (by omega) entryAlign.toNat_lt
    if hfit : ps / es = 0 then
      -- An entry larger than a page: the page is bumped to hold one entry.
      if hps : es % 2 ^ 32 = 0 then none
      else some {
        dim, entrySize := es, pageSize := es % 2 ^ 32, entriesPerPage := 1
        dim_pos := hd.1, vector_le := hle
        page_pos := by omega
        page_lt := by omega
        entries_pos := Nat.one_pos
        entries_le := fun h => by omega
        large_entry := fun _ => rfl }
    else some {
      dim, entrySize := es, pageSize := ps, entriesPerPage := ps / es
      dim_pos := hd.1, vector_le := hle
      page_pos := by
        rcases Nat.eq_zero_or_pos ps with h | h
        · rw [h,Nat.zero_div] at hfit
          exact absurd rfl hfit
        · exact h
      page_lt := by
        show (if pageSize = 0 then 4096 else pageSize.toNat) < 2 ^ 32
        split_ifs
        · decide
        · exact pageSize.toNat_lt
      entries_pos := Nat.pos_of_ne_zero hfit
      entries_le := fun _ => Nat.div_mul_le_self ps es
      large_entry := fun h => absurd (Nat.div_eq_of_lt h) hfit }
  else none

/-- Code sites that transfer an entry between memory and the `.bin` file. -/
inductive EntryPath where
  | pageFlush
  | pageRead
  | directRead
  | directWrite
  | exportRead
  | importWrite
deriving DecidableEq

namespace Geometry
variable (g : Geometry)

def pageOf (entry : Nat) : Nat := entry / g.entriesPerPage

/-- `(eid % epp) * (uint32_t)entry_size`; with one entry to a page it is zero, so it never wraps. -/
def offsetInPage (entry : Nat) : Nat := entry % g.entriesPerPage * g.entrySize

def pageRange (entry : Nat) : Nat × Nat :=
  (g.pageOf entry * g.pageSize + g.offsetInPage entry,
    min g.entrySize (g.pageSize - g.offsetInPage entry))

/-- Offset and length of the transfer of one entry on each path; the direct read is
only taken when a page holds a single entry, and the import keeps the entry size
in a `uint32_t`. -/
def range (entry : Nat) : EntryPath → Option (Nat × Nat)
  | .pageFlush => some (g.pageRange entry)
  | .pageRead => some (g.pageRange entry)
  | .directRead =>
    if g.entriesPerPage = 1 then some (entry * g.entrySize,g.entrySize) else none
  | .directWrite => some (entry * g.entrySize,g.entrySize)
  | .exportRead => some (entry * g.entrySize,g.entrySize)
  | .importWrite => some (entry * (g.entrySize % 2 ^ 32),g.entrySize % 2 ^ 32)

end Geometry

end Gravel
