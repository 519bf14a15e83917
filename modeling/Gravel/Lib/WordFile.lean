import Gravel.Lib.File
import Gravel.Lib.Wire

namespace WordFile
open File List Function

/-- How the eight bytes of a word lie in memory. -/
structure ByteOrder where
  bytes : UInt64 → Nat → UInt8
  word : (Nat → UInt8) → UInt64
  bytes_word : ∀ b i, i < 8 → bytes (word b) i = b i
  bytes_zero : ∀ i < 8, bytes 0 i = 0

theorem getD_putLE (n : Nat) (b : Nat → UInt8) {i : Nat} (hi : i < n) :
    (Wire.putLE n (Wire.getLE ((List.range n).map b))).getD i 0 = b i := by
  have h := Wire.putLE_getLE ((List.range n).map b)
  rw [length_map,length_range] at h
  rw [h]
  simp [hi]

def littleEndian : ByteOrder where
  bytes v i := (Wire.putLE 8 v.toNat).getD i 0
  word b := UInt64.ofNat (Wire.getLE ((List.range 8).map b))
  bytes_word b i hi := by
    have hlt := Wire.getLE_lt ((List.range 8).map b)
    have hpow : 256 ^ 8 = 2 ^ 64 := by decide
    rw [length_map,length_range,hpow] at hlt
    rw [UInt64.toNat_ofNat',Nat.mod_eq_of_lt hlt]
    exact getD_putLE 8 b hi
  bytes_zero := by decide

/-- The bytes of `f` are those of the words of `w`; a last word that `f` has in part counts. -/
structure Words (o : ByteOrder) (f : File UInt8) (w : File UInt64) : Prop where
  size : w.size = (f.size + 7) / 8
  bytes : ∀ e i, i < 8 → f.cell (e * 8 + i) = o.bytes (w.cell e) i

def Agree (o : ByteOrder) (n : Nat) (b : Nat → UInt8) (w : Nat → UInt64) : Prop :=
  ∀ e < n, ∀ i < 8, b (e * 8 + i) = o.bytes (w e) i

section

variable {o : ByteOrder} {f f' : File UInt8} {w w' : File UInt64} {b : Nat → UInt8}
  {v : Nat → UInt64} {off n e : Nat} {x : UInt64}

theorem exists_words (o : ByteOrder) (f : File UInt8) : ∃ w, Words o f w := by
  refine ⟨⟨(f.size + 7) / 8,fun e => if e < (f.size + 7) / 8
    then o.word (fun i => f.cell (e * 8 + i)) else 0,fun i hi => if_neg (by omega)⟩,rfl,?_⟩
  intro e i hi
  simp only
  split_ifs with he
  · exact (o.bytes_word (fun i => f.cell (e * 8 + i)) i hi).symm
  · rw [o.bytes_zero i hi]
    exact f.zero_past _ (by omega)

theorem Words.cell_eq (h : Words o f w) (h' : Words o f' w') (hw : ∀ e, w.cell e = w'.cell e)
    (x : Nat) : f.cell x = f'.cell x := by
  rw [← Nat.div_add_mod' x 8,h.bytes _ _ (Nat.mod_lt _ (by decide)),
    h'.bytes _ _ (Nat.mod_lt _ (by decide)),hw]

theorem Words.write (h : Words o f w) (hb : Agree o n b v) :
    Words o (f.write (off * 8) (n * 8) b) (w.write off n v) := by
  have hsize := h.size
  constructor
  · simp only [File.write]
    split_ifs <;> omega
  · intro e i hi
    by_cases hin : off ≤ e ∧ e < off + n
    · have hpos : e * 8 + i - off * 8 = (e - off) * 8 + i := by omega
      rw [write_inside hin,write_inside ⟨by omega,by omega⟩,hpos]
      exact hb (e - off) (by omega) i hi
    · rw [write_outside hin,write_outside (by omega)]
      exact h.bytes e i hi

theorem Words.read (h : Words o f w) :
    Agree o n (f.read (off * 8) (n * 8) (fun _ => 0)) (w.read off n (fun _ => 0)) := by
  intro e he i hi
  have hpos : off * 8 + (e * 8 + i) = (off + e) * 8 + i := by omega
  rw [read_zeroed he,read_zeroed (by omega),hpos]
  exact h.bytes (off + e) i hi

theorem Agree.zero (o : ByteOrder) (n : Nat) : Agree o n (fun _ => 0) (fun _ => 0) :=
  fun _ _ i hi => (o.bytes_zero i hi).symm

theorem Agree.word (o : ByteOrder) (x : UInt64) : Agree o 1 (o.bytes x) (fun _ => x) := by
  intro e he i hi
  obtain rfl : e = 0 := by omega
  rw [Nat.zero_mul,Nat.zero_add]

def store (o : ByteOrder) (b : Nat → UInt8) (e : Nat) (x : UInt64) : Nat → UInt8 :=
  fun j => if e * 8 ≤ j ∧ j < e * 8 + 8 then o.bytes x (j - e * 8) else b j

theorem Agree.store (h : Agree o n b v) (e : Nat) (x : UInt64) :
    Agree o n (store o b e x) (update v e x) := by
  intro e' he' i hi
  unfold WordFile.store
  by_cases heq : e' = e
  · subst heq
    rw [if_pos ⟨by omega,by omega⟩,update_self,Nat.add_sub_cancel_left]
  · rw [if_neg (by omega),update_of_ne heq]
    exact h e' he' i hi

end

end WordFile
