import Mathlib.Data.Nat.Bitwise
import Mathlib.Tactic.Ring

namespace Wire
open List

def putLE : Nat → Nat → List UInt8
  | 0, _ => []
  | n + 1, v => UInt8.ofNat v :: putLE n (v / 256)

def getLE : List UInt8 → Nat
  | [] => 0
  | b :: rest => b.toNat + 256 * getLE rest

variable {n m v : Nat}

@[simp] theorem length_putLE (n : Nat) : ∀ v, (putLE n v).length = n := by
  induction n with
  | zero => exact fun _ => rfl
  | succ n ih => exact fun v => by rw [putLE,length_cons,ih]

theorem getLE_putLE (n : Nat) : ∀ v, getLE (putLE n v) = v % 256 ^ n := by
  induction n with
  | zero =>
    intro v
    rw [Nat.pow_zero,Nat.mod_one]
    rfl
  | succ n ih =>
    intro v
    rw [putLE,getLE,ih,Nat.pow_succ,Nat.mul_comm (256 ^ n),Nat.mod_mul,UInt8.toNat_ofNat']

theorem getLE_putLE_of_lt (h : v < 256 ^ n) : getLE (putLE n v) = v := by
  rw [getLE_putLE,Nat.mod_eq_of_lt h]

theorem putLE_getLE : ∀ l : List UInt8, putLE l.length (getLE l) = l := by
  intro l
  induction l with
  | nil => rfl
  | cons b l ih =>
    have hb := b.toNat_lt
    have hdiv : (b.toNat + 256 * getLE l) / 256 = getLE l := by omega
    rw [getLE,length_cons,putLE,hdiv,ih]
    congr 1
    apply UInt8.toNat_inj.mp
    rw [UInt8.toNat_ofNat']
    omega

theorem getLE_lt (l : List UInt8) : getLE l < 256 ^ l.length := by
  induction l with
  | nil => exact Nat.one_pos
  | cons b l ih =>
    have hb := b.toNat_lt
    rw [getLE,length_cons,Nat.pow_succ]
    omega

theorem putLE_getLE_take {l : List UInt8} (h : n ≤ l.length) :
    putLE n (getLE (l.take n)) = l.take n ∧ getLE (l.take n) < 256 ^ n := by
  have hlen : (l.take n).length = n := by rw [length_take,Nat.min_eq_left h]
  have hput := putLE_getLE (l.take n)
  have hlt := getLE_lt (l.take n)
  rw [hlen] at hput hlt
  exact ⟨hput,hlt⟩

theorem or_byte {a k w : Nat} (b : UInt8) (ha : a < 2 ^ k) (hw : k + 8 ≤ w) :
    a ||| b.toNat <<< k % 2 ^ w = a + b.toNat * 2 ^ k ∧ a + b.toNat * 2 ^ k < 2 ^ (k + 8) := by
  have hb := b.toNat_lt
  have hlt : a + b.toNat * 2 ^ k < 2 ^ (k + 8) := by
    calc a + b.toNat * 2 ^ k < 2 ^ k + b.toNat * 2 ^ k := by omega
      _ = (b.toNat + 1) * 2 ^ k := by ring
      _ ≤ 2 ^ 8 * 2 ^ k := Nat.mul_le_mul_right _ hb
      _ = 2 ^ (k + 8) := by rw [Nat.pow_add,Nat.mul_comm]
  have hle : 2 ^ (k + 8) ≤ 2 ^ w := Nat.pow_le_pow_right (by decide) hw
  refine ⟨?_,hlt⟩
  rw [Nat.shiftLeft_eq,Nat.mod_eq_of_lt (by omega),Nat.or_comm,← Nat.shiftLeft_eq,
    ← Nat.shiftLeft_add_eq_or_of_lt ha,Nat.shiftLeft_eq,Nat.add_comm]

theorem take_putLE (m : Nat) : ∀ n v, m ≤ n → (putLE n v).take m = putLE m v := by
  induction m with
  | zero => exact fun n v _ => take_zero
  | succ m ih =>
    intro n v h
    cases n with
    | zero => exact absurd h (Nat.not_succ_le_zero m)
    | succ n => rw [putLE,putLE,take_succ_cons,ih n _ (Nat.le_of_succ_le_succ h)]

section Bits

def bits (l : List UInt8) : List Bool :=
  l.flatMap (fun b => (List.range 8).map b.toNat.testBit)

@[simp] theorem bits_append (l l' : List UInt8) : bits (l ++ l') = bits l ++ bits l' :=
  flatMap_append

@[simp] theorem length_bits (l : List UInt8) : (bits l).length = 8 * l.length := by
  induction l with
  | nil => rfl
  | cons b l ih =>
    have happend : bits (b :: l) = (List.range 8).map b.toNat.testBit ++ bits l := rfl
    rw [happend,length_append,ih,length_map,length_range,length_cons]
    omega

theorem getElem?_bits (l : List UInt8) :
    ∀ i < 8 * l.length, (bits l)[i]? = some ((getLE l).testBit i) := by
  induction l with
  | nil => exact fun i hi => absurd hi (Nat.not_lt_zero i)
  | cons b l ih =>
    intro i hi
    have hb := b.toNat_lt
    have happend : bits (b :: l) = (List.range 8).map b.toNat.testBit ++ bits l := rfl
    have hword : getLE (b :: l) = 2 ^ 8 * getLE l + b.toNat := by
      rw [getLE]
      omega
    rw [happend,hword,Nat.testBit_two_pow_mul_add _ hb]
    by_cases hlow : i < 8
    · rw [getElem?_append_left (by simpa using hlow),if_pos hlow]
      simp [hlow]
    · rw [getElem?_append_right (by simpa using hlow),if_neg hlow]
      rw [length_cons] at hi
      simpa using ih (i - 8) (by omega)

theorem testBit_getLE_of_le {l : List UInt8} {i : Nat} (h : 8 * l.length ≤ i) :
    (getLE l).testBit i = false := by
  apply Nat.testBit_lt_two_pow
  calc getLE l < 256 ^ l.length := getLE_lt l
    _ = 2 ^ (8 * l.length) := by rw [Nat.pow_mul]
    _ ≤ 2 ^ i := Nat.pow_le_pow_right (by decide) h

theorem bits_injective {l l' : List UInt8} (h : bits l = bits l') : l = l' := by
  have hlen : l.length = l'.length := by
    have hbits := congrArg List.length h
    simp only [length_bits] at hbits
    omega
  have hword : getLE l = getLE l' := by
    apply Nat.eq_of_testBit_eq
    intro i
    by_cases hi : i < 8 * l.length
    · apply Option.some.inj
      rw [← getElem?_bits l i hi,h,getElem?_bits l' i (by rwa [← hlen])]
    · rw [testBit_getLE_of_le (by omega),testBit_getLE_of_le (by omega)]
  rw [← putLE_getLE l,← putLE_getLE l',hlen,hword]

end Bits

section Stores

variable {buf bytes rest : List UInt8} {off : Nat} {fields : List (Nat × List UInt8)}

def store (buf : List UInt8) (off : Nat) (bytes : List UInt8) : List UInt8 :=
  buf.take off ++ bytes ++ buf.drop (off + bytes.length)

def storeAll (buf : List UInt8) (fields : List (Nat × List UInt8)) : List UInt8 :=
  fields.foldl (fun buf field => store buf field.1 field.2) buf

/-- Each field begins where the one before it ends, the first at `off`. -/
def Tiles : Nat → List (Nat × List UInt8) → Prop
  | _, [] => True
  | off, (at_,bytes) :: rest => at_ = off ∧ Tiles (off + bytes.length) rest

theorem length_store (h : off + bytes.length ≤ buf.length) :
    (store buf off bytes).length = buf.length := by
  simp only [store,length_append,length_take,length_drop]
  omega

theorem store_middle (front bytes old back : List UInt8) (h : bytes.length = old.length) :
    store (front ++ old ++ back) front.length bytes = front ++ bytes ++ back := by
  have hdrop : (front ++ old ++ back).drop (front.length + bytes.length) = back := by
    rw [h,← length_append]
    exact drop_left
  rw [store,hdrop,append_assoc front old,take_left]

/-- Fields that tile the rest of a buffer leave nothing of what it held. -/
theorem storeAll_tiles : ∀ (fields : List (Nat × List UInt8)) (off : Nat) (buf : List UInt8),
    Tiles off fields → buf.length = off + (fields.flatMap Prod.snd).length →
      storeAll buf fields = buf.take off ++ fields.flatMap Prod.snd := by
  intro fields
  induction fields with
  | nil =>
    intro off buf _ hlen
    rw [storeAll,foldl_nil,flatMap_nil,append_nil,take_of_length_le]
    simpa using Nat.le_of_eq hlen
  | cons field rest ih =>
    intro off buf htiles hlen
    obtain ⟨at_,bytes⟩ := field
    obtain ⟨rfl,htiles⟩ := htiles
    simp only [flatMap_cons,length_append] at hlen
    have hstore : (store buf at_ bytes).length = buf.length := length_store (by omega)
    have htake : (store buf at_ bytes).take (at_ + bytes.length) = buf.take at_ ++ bytes := by
      have hfront : (buf.take at_ ++ bytes).length = at_ + bytes.length := by
        rw [length_append,length_take,Nat.min_eq_left (by omega)]
      rw [store,take_left' hfront]
    have hrest := ih (at_ + bytes.length) (store buf at_ bytes) htiles (by rw [hstore]; omega)
    rw [htake] at hrest
    rw [flatMap_cons,← append_assoc]
    exact hrest

end Stores

end Wire
