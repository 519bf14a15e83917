import Gravel.Model.HashIndex

namespace Gravel
open Rehash

/-- `OVERLAY_EMPTY` is `UINT32_MAX`. -/
def overlayEmpty : Nat := 2 ^ 32 - 1

structure OverlaySlot where
  entryId : Nat
  data : Nat → UInt8

def overlayHash (entryId : Nat) : Nat :=
  let h := entryId
  let h := h ^^^ (h / 2 ^ 16)
  let h := h * 0x45d9f3b % 2 ^ 32
  h ^^^ (h / 2 ^ 16)

def overlayLayout : Layout Nat OverlaySlot where
  key s := if s.entryId = overlayEmpty then none else some s.entryId
  blank := ⟨overlayEmpty,fun _ => 0⟩
  vacate s := { s with entryId := overlayEmpty }
  hash := overlayHash
  batch := 16
  crowded count capacity := capacity * 7 % 2 ^ 32 < count * 10 % 2 ^ 32
  double capacity := capacity * 2 % 2 ^ 32
  wraps := true
  key_blank := rfl
  key_vacate _ := rfl
  three_le_batch := by decide

structure OverlayBuffer where
  table : Table OverlaySlot
  tombstones : List Nat
  memoryUsed : Nat
  budgetBytes : Nat

def overlayInitialCap : Nat := 256

def overlayInit : OverlayBuffer where
  table := { slots := fun _ => overlayLayout.blank, capacity := overlayInitialCap, count := 0,
             old := none }
  tombstones := []
  memoryUsed := 0
  budgetBytes := 0

def overlayDestroyed : OverlayBuffer where
  table := { slots := fun _ => overlayLayout.blank, capacity := 0, count := 0, old := none }
  tombstones := []
  memoryUsed := 0
  budgetBytes := 0

def overlaySlotSize : Nat := 16

def overlayFull (ob : OverlayBuffer) : Bool :=
  0 < ob.budgetBytes && ob.budgetBytes ≤ ob.memoryUsed

/-- `memcpy` of a vector of `dim` floats over a slot of the data pool. -/
def overlayCopy (dim : Nat) (data old : Nat → UInt8) : Nat → UInt8 :=
  fun i => if i < dim * 4 then data i else old i

/-- `served` tells whether `slab_pool_alloc` has an object for a new entry; if not, the slot is given
back. A fresh object is read as zero past the vector. -/
def overlayPut (served : Bool) (ob : OverlayBuffer) (entryId : Nat) (data : Nat → UInt8)
    (dim : Nat) : Option (OverlayBuffer × Status) := do
  let table ← put overlayLayout ob.table entryId
    (fun s => { s with data := overlayCopy dim data s.data })
    ⟨entryId,overlayCopy dim data (fun _ => 0)⟩
  if table.count ≤ ob.table.count then return ({ ob with table := table },.ok)
  else if served then
    return ({ ob with
      table := table, memoryUsed := ob.memoryUsed + (dim * 4 + overlaySlotSize) },.ok)
  else
    let table ← rehashStep overlayLayout ob.table
    return ({ ob with table := growth overlayLayout table },.errOom)

/-- The search of `overlay_get` and `overlay_contains`; a zeroed overlay has no table to search. -/
def overlayFind (ob : OverlayBuffer) (entryId : Nat) :
    Option (OverlayBuffer × Option OverlaySlot) := do
  if ob.table.capacity = 0 then none
  else
    let (table,slot) ← get overlayLayout ob.table entryId
    return ({ ob with table := table },slot)

def overlayGet (ob : OverlayBuffer) (entryId : Nat) :
    Option (OverlayBuffer × Option (Nat → UInt8)) :=
  (overlayFind ob entryId).map (fun r => (r.1,r.2.map OverlaySlot.data))

def overlayContains (ob : OverlayBuffer) (entryId : Nat) : Option (OverlayBuffer × Bool) :=
  (overlayFind ob entryId).map (fun r => (r.1,r.2.isSome))

def overlayTombstone (ob : OverlayBuffer) (entryId : Nat) : OverlayBuffer :=
  { ob with tombstones := ob.tombstones ++ [entryId] }

end Gravel
