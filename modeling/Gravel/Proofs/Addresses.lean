import Gravel.Model.Geometry

namespace Gravel.Proofs.Addresses
open Gravel.Geometry

variable {g : Geometry} {entry : Nat}

theorem dimbinGeometry_fields {dim : Nat} {align ps : UInt32}
    (h : dimbinGeometry dim align ps = some g) :
    dim < 2 ^ 31 ∧ g.dim = dim ∧ g.entrySize = alignUp (dim * 4) align.toNat := by
  unfold dimbinGeometry at h
  split at h
  · rename_i hd
    dsimp only at h
    repeat' split at h
    all_goals first
      | cases h; done
      | cases h; exact ⟨hd.2,rfl,rfl⟩
  · cases h

/-- Every code site that touches `entry` in the `.bin` file uses one byte range. -/
def OneAddress (g : Geometry) (entry : Nat) : Prop :=
  ∃ r, ∀ path, ∀ r', g.range entry path = some r' → r' = r

theorem offset_fits (hfit : g.entrySize ≤ g.pageSize) :
    g.offsetInPage entry + g.entrySize ≤ g.pageSize := by
  have hlt : entry % g.entriesPerPage + 1 ≤ g.entriesPerPage := Nat.mod_lt _ g.entries_pos
  calc g.offsetInPage entry + g.entrySize
      = (entry % g.entriesPerPage + 1) * g.entrySize := by rw [offsetInPage,Nat.succ_mul]
    _ ≤ g.entriesPerPage * g.entrySize := Nat.mul_le_mul_right _ hlt
    _ ≤ g.pageSize := g.entries_le hfit

/-- Page-wise and entry-wise addressing agree on an entry exactly when it lies on
the first page or the entries fill their pages without a remainder. -/
theorem page_address_iff :
    g.pageOf entry * g.pageSize + g.offsetInPage entry = entry * g.entrySize ↔
      entry < g.entriesPerPage ∨ g.entriesPerPage * g.entrySize = g.pageSize := by
  have hsplit : entry * g.entrySize =
      entry / g.entriesPerPage * (g.entriesPerPage * g.entrySize) +
        entry % g.entriesPerPage * g.entrySize := by
    conv_lhs => rw [← Nat.div_add_mod entry g.entriesPerPage,Nat.add_mul]
    rw [Nat.mul_comm g.entriesPerPage,Nat.mul_assoc]
  rw [hsplit,pageOf,offsetInPage,Nat.add_right_cancel_iff]
  constructor
  · intro heq
    rcases Nat.eq_zero_or_pos (entry / g.entriesPerPage) with hz | hpos
    · exact .inl ((Nat.div_eq_zero_iff_lt g.entries_pos).mp hz)
    · exact .inr (Nat.eq_of_mul_eq_mul_left hpos heq).symm
  · rintro (hlt | heq)
    · rw [Nat.div_eq_of_lt hlt,Nat.zero_mul,Nat.zero_mul]
    · rw [heq]

theorem range_of_agree (hfit : g.entrySize ≤ g.pageSize)
    (hagree : entry < g.entriesPerPage ∨ g.entriesPerPage * g.entrySize = g.pageSize)
    {path : EntryPath} {r : Nat × Nat} (hr : g.range entry path = some r) :
    r = (entry * g.entrySize,g.entrySize) := by
  have hoff : g.offsetInPage entry + g.entrySize ≤ g.pageSize := offset_fits hfit
  have hlen : min g.entrySize (g.pageSize - g.offsetInPage entry) = g.entrySize :=
    Nat.min_eq_left (by omega)
  have hpage : g.pageRange entry = (entry * g.entrySize,g.entrySize) := by
    rw [pageRange,hlen,page_address_iff.mpr hagree]
  have h32 : g.entrySize % 2 ^ 32 = g.entrySize :=
    Nat.mod_eq_of_lt (Nat.lt_of_le_of_lt hfit g.page_lt)
  cases path <;> simp only [range,hpage,h32,Option.some.injEq] at hr
  case directRead =>
    split_ifs at hr
    exact (Option.some.inj hr).symm
  all_goals exact hr.symm

/-- The six address computations agree on an entry exactly when an entry fits a page and
either the entry is on page 0 or a page holds no slack after its last entry. -/
theorem oneAddress_iff (dim : Nat) (entryAlign pageSize : UInt32) :
    ∀ g ∈ dimbinGeometry dim entryAlign pageSize, ∀ entry,
      OneAddress g entry ↔ g.entrySize ≤ g.pageSize ∧
        (entry < g.entriesPerPage ∨ g.entriesPerPage * g.entrySize = g.pageSize) := by
  intro g _ entry
  constructor
  · rintro ⟨r,hr⟩
    have hflush := hr .pageFlush _ rfl
    have hwrite := hr .directWrite _ rfl
    rw [← hwrite,pageRange,Prod.mk.injEq] at hflush
    refine ⟨?_,page_address_iff.mp hflush.1⟩
    have := hflush.2
    omega
  · rintro ⟨hfit,hagree⟩
    exact ⟨_,fun path r' hr' => range_of_agree hfit hagree hr'⟩

/-- 128-byte entries fill a 4096-byte page, so entry 1000 has one address. -/
theorem oneAddress_dim_32 : ∃ g ∈ dimbinGeometry 32 4 4096, OneAddress g 1000 :=
  ⟨(dimbinGeometry 32 4 4096).get (by decide),Option.get_mem _,
    (oneAddress_iff 32 4 4096 _ (Option.get_mem _) 1000).mpr ⟨by decide,.inr (by decide)⟩⟩

/-- 2800-byte entries, one to a page: the flush puts entry 1 at byte 4096 of the file, while the
direct read, the direct write, the export and the import use byte 2800. -/
theorem two_addresses_dim_700 : ∃ g ∈ dimbinGeometry 700 4 4096, ¬ OneAddress g 1 := by
  refine ⟨(dimbinGeometry 700 4 4096).get (by decide),Option.get_mem _,?_⟩
  rintro ⟨r,hr⟩
  have hflush := hr .pageFlush (4096,2800) (by decide)
  have hread := hr .directRead (2800,2800) (by decide)
  rw [← hflush] at hread
  exact absurd hread (by decide)

end Gravel.Proofs.Addresses
