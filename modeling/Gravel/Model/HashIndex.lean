import Gravel.Lib.Rehash

namespace Gravel
open Rehash

inductive Status where
  | ok
  | again
  | flushNeeded
  | errIo
  | errOom
  | errNotFound
  | errCorrupt
  | errFull
  | errInvalid
  | errBusy
  | errDimMismatch
deriving DecidableEq, Repr

/-- `feat_id` 0 marks an empty slot. -/
structure HashSlot where
  featId : UInt64
  dimIdx : Nat
  entryIdx : Nat
deriving DecidableEq

def hash64 (key : UInt64) : Nat :=
  let key := key ^^^ (key >>> 30)
  let key := key * 0xbf58476d1ce4e5b9
  let key := key ^^^ (key >>> 27)
  let key := key * 0x94d049bb133111eb
  let key := key ^^^ (key >>> 31)
  key.toNat % 2 ^ 32

def hashRehashBatch : Nat := 16

/-- The slot format of the index. The load factor test multiplies in `uint32_t`. -/
def hashLayout : Layout UInt64 HashSlot where
  key s := if s.featId = 0 then none else some s.featId
  blank := ⟨0,0,0⟩
  vacate s := { s with featId := 0 }
  hash := hash64
  batch := hashRehashBatch
  crowded count capacity := capacity * 7 % 2 ^ 32 < count * 10 % 2 ^ 32
  double capacity := capacity * 2 % 2 ^ 32
  wraps := false
  key_blank := rfl
  key_vacate _ := rfl
  three_le_batch := by decide

/-- The mask fields are `capacity - 1` throughout and are not stored. -/
abbrev HashIndex := Table HashSlot

/-- `while (cap < capacity) cap <<= 1` on `uint32_t`; above `2 ^ 31` the shift drops the
only bit and the loop never ends. -/
def roundCapacity (capacity : Nat) : Nat → Nat → Option Nat
  | 0, _ => none
  | fuel + 1, cap =>
    if cap < capacity then roundCapacity capacity fuel (cap * 2 % 2 ^ 32) else some cap

def hashIndexInit (capacity : Nat) : Option HashIndex := do
  let cap ← roundCapacity capacity 34 1
  return { slots := fun _ => hashLayout.blank, capacity := cap, count := 0, old := none }

def hashIndexPut (idx : HashIndex) (featId : UInt64) (dimIdx entryIdx : Nat) :
    Option (HashIndex × Status) :=
  if featId = 0 then some (idx,.errInvalid)
  else do
    let idx ← put hashLayout idx featId
      (fun s => { s with dimIdx := dimIdx, entryIdx := entryIdx }) ⟨featId,dimIdx,entryIdx⟩
    return (idx,.ok)

/-- `none` as the looked-up pair is `GRAVELDB_ERR_NOT_FOUND`. The index is returned as well,
since a lookup also advances the migration. -/
def hashIndexGet (idx : HashIndex) (featId : UInt64) : Option (HashIndex × Option (Nat × Nat)) :=
  if featId = 0 then some (idx,none)
  else do
    let (idx,slot) ← get hashLayout idx featId
    return (idx,slot.map (fun s => (s.dimIdx,s.entryIdx)))

def hashIndexRemove (idx : HashIndex) (featId : UInt64) : Option (HashIndex × Status) :=
  if featId = 0 then some (idx,.errNotFound)
  else do
    let (idx,found) ← remove hashLayout idx featId
    return (idx,if found then .ok else .errNotFound)

def hashIndexFinishRehash (idx : HashIndex) : Option HashIndex :=
  finishRehash hashLayout (idx.capacity + 1) idx

end Gravel
