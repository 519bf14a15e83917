import Mathlib.Data.Nat.Bitwise
import Mathlib.Data.List.GetD
import Mathlib.Logic.Function.Iterate

/-! Cyclic redundancy checks over bits, least significant bit first. -/

namespace Crc
open List Function

variable {w : Nat}

def shift (poly r : BitVec w) : BitVec w := r >>> 1 ^^^ if r.getLsbD 0 then poly else 0

def bit (w : Nat) (b : Bool) : BitVec w := if b then 1 else 0

def feed (poly r : BitVec w) (b : Bool) : BitVec w := shift poly (r ^^^ bit w b)

def run (poly r : BitVec w) (bits : List Bool) : BitVec w := bits.foldl (feed poly) r

def word (w : Nat) : List Bool → BitVec w
  | [] => 0
  | b :: rest => word w rest <<< 1 ^^^ bit w b

section Register

variable {poly r s : BitVec w}

theorem getLsbD_shift (poly r : BitVec w) (i : Nat) : (shift poly r).getLsbD i =
    ((r.getLsbD (i + 1)) ^^ (r.getLsbD 0 && poly.getLsbD i)) := by
  rw [shift,BitVec.getLsbD_xor,BitVec.getLsbD_ushiftRight,Nat.add_comm 1 i]
  cases r.getLsbD 0 <;> simp

theorem shift_xor (poly r s : BitVec w) : shift poly (r ^^^ s) = shift poly r ^^^ shift poly s := by
  apply BitVec.eq_of_getLsbD_eq
  intro i _
  simp only [BitVec.getLsbD_xor,getLsbD_shift]
  cases r.getLsbD (i + 1) <;> cases s.getLsbD (i + 1) <;> cases r.getLsbD 0 <;>
    cases s.getLsbD 0 <;> cases poly.getLsbD i <;> rfl

theorem shift_injective (hp : poly.getLsbD (w - 1) = true) : Function.Injective (shift poly) := by
  intro r s hrs
  have hbit (i : Nat) : (r.getLsbD (i + 1) ^^ (r.getLsbD 0 && poly.getLsbD i)) =
      (s.getLsbD (i + 1) ^^ (s.getLsbD 0 && poly.getLsbD i)) := by
    rw [← getLsbD_shift,← getLsbD_shift,hrs]
  -- The highest bit of the shifted register is the lowest one before the shift.
  have hlow : r.getLsbD 0 = s.getLsbD 0 := by
    have htop := hbit (w - 1)
    rw [BitVec.getLsbD_of_ge r _ (by omega),BitVec.getLsbD_of_ge s _ (by omega),hp] at htop
    simpa using htop
  apply BitVec.eq_of_getLsbD_eq
  intro i _
  cases i with
  | zero => exact hlow
  | succ i =>
    have hi := hbit i
    rw [hlow] at hi
    exact Bool.xor_left_inj.mp hi

theorem run_append (poly r : BitVec w) (a b : List Bool) :
    run poly r (a ++ b) = run poly (run poly r a) b := foldl_append

theorem run_injective (hp : poly.getLsbD (w - 1) = true) (bits : List Bool) :
    Function.Injective (fun r => run poly r bits) := by
  induction bits with
  | nil => exact fun _ _ h => h
  | cons b rest ih =>
    intro r s hrs
    have hfeed : feed poly r b = feed poly s b := ih hrs
    have hxor := congrArg (· ^^^ bit w b) (shift_injective hp hfeed)
    simpa [BitVec.xor_assoc] using hxor

end Register

section Words

variable {poly r : BitVec w} {bits bits' : List Bool}

theorem getLsbD_bit (b : Bool) (i : Nat) : (bit w b).getLsbD i = (decide (0 < w) && decide (i = 0) && b) := by
  cases b with
  | false => simp [bit]
  | true => simp [bit,BitVec.getLsbD_one]

theorem getLsbD_word (bits : List Bool) :
    ∀ i, (word w bits).getLsbD i = (decide (i < w) && bits.getD i false) := by
  induction bits with
  | nil => exact fun i => by simp [word]
  | cons b rest ih =>
    intro i
    rw [word,BitVec.getLsbD_xor,BitVec.getLsbD_shiftLeft,getLsbD_bit,ih]
    cases i with
    | zero => simp
    | succ i =>
      by_cases hi : i + 1 < w
      · simp [hi,Nat.lt_of_succ_lt hi]
      · simp [hi]

theorem shift_word (h : bits.length < w) : shift poly (word w bits <<< 1) = word w bits := by
  apply BitVec.eq_of_getLsbD_eq
  intro i hi
  rw [getLsbD_shift,BitVec.getLsbD_shiftLeft,BitVec.getLsbD_shiftLeft]
  by_cases htop : i + 1 < w
  · simp [htop]
  · have hout : (word w bits).getLsbD i = false := by
      rw [getLsbD_word,getD_eq_default _ _ (by omega),Bool.and_false]
    simp [htop,hout]

theorem run_eq_iterate (poly : BitVec w) : ∀ (bits : List Bool) (r : BitVec w),
    bits.length ≤ w → run poly r bits = (shift poly)^[bits.length] (r ^^^ word w bits) := by
  intro bits
  induction bits with
  | nil => exact fun r _ => by simp [run,word]
  | cons b rest ih =>
    intro r hlen
    rw [length_cons] at hlen
    have hsplit : shift poly (r ^^^ word w (b :: rest)) = feed poly r b ^^^ word w rest := by
      rw [word,BitVec.xor_comm (word w rest <<< 1),← BitVec.xor_assoc,shift_xor,
        shift_word (by omega)]
      rfl
    rw [length_cons,iterate_succ_apply,hsplit]
    exact ih (feed poly r b) (by omega)

theorem word_injective (hlen : bits.length = bits'.length) (hw : bits.length ≤ w)
    (h : word w bits = word w bits') : bits = bits' := by
  apply ext_getElem hlen
  intro i hi hi'
  have hbit := congrArg (fun x => x.getLsbD i) h
  simp only [getLsbD_word,getD_eq_getElem _ _ hi,getD_eq_getElem _ _ hi'] at hbit
  simpa [Nat.lt_of_lt_of_le hi hw] using hbit

end Words

section Bursts

variable {poly r : BitVec w} {n : Nat} {l l' : List Bool}

def Confined (n : Nat) (l l' : List Bool) : Prop :=
  l'.length = l.length ∧ ∃ k, ∀ i, i < k ∨ k + n ≤ i → l'[i]? = l[i]?

theorem Confined.split (h : Confined n l l') : ∃ a b b' c, l = a ++ (b ++ c) ∧
    l' = a ++ (b' ++ c) ∧ b'.length = b.length ∧ b.length ≤ n := by
  obtain ⟨hlen,k,hout⟩ := h
  have hfront : l'.take k = l.take k := by
    apply ext_getElem?
    intro i
    by_cases hi : i < k
    · rw [getElem?_take_of_lt hi,getElem?_take_of_lt hi,hout i (.inl hi)]
    · rw [getElem?_take_eq_none (by omega),getElem?_take_eq_none (by omega)]
  have hback : l'.drop (k + n) = l.drop (k + n) := by
    apply ext_getElem?
    intro i
    rw [getElem?_drop,getElem?_drop,hout _ (.inr (by omega))]
  refine ⟨l.take k,(l.drop k).take n,(l'.drop k).take n,l.drop (k + n),?_,?_,?_,?_⟩
  · rw [← drop_drop,take_append_drop,take_append_drop]
  · rw [← hfront,← hback,← drop_drop,take_append_drop,take_append_drop]
  · simp only [length_take,length_drop,hlen]
  · rw [length_take]
    omega

/-- Messages that differ within as many consecutive bits as the register has leave different
registers behind. -/
theorem burst_detected (hp : poly.getLsbD (w - 1) = true) (h : Confined w l l')
    (hrun : run poly r l' = run poly r l) : l' = l := by
  obtain ⟨a,b,b',c,rfl,rfl,hlen,hw⟩ := h.split
  simp only [run_append] at hrun
  have hb : run poly (run poly r a) b' = run poly (run poly r a) b := run_injective hp c hrun
  rw [run_eq_iterate poly b' _ (by omega),run_eq_iterate poly b _ hw,hlen] at hb
  have hword := congrArg (run poly r a ^^^ ·) ((shift_injective hp).iterate _ hb)
  simp only [← BitVec.xor_assoc,BitVec.xor_self,BitVec.zero_xor] at hword
  rw [word_injective hlen (by omega) hword]

end Bursts

end Crc
