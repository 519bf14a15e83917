import Gravel.Lib.BinarySearch
import Gravel.Lib.Probe
import Mathlib.Data.List.Sort

namespace Gravel
open LinearProbe BinarySearch

inductive DimRegMode where
  | linear
  | sorted
  | hash
deriving DecidableEq

def dimRegThresholdLinear : Nat := 8
def dimRegThresholdSorted : Nat := 64

structure DimRegEntry where
  dim : Int
  binIdx : Nat
deriving DecidableEq

/-- `count` is the number of entries. Empty hash slots are all zero; the hash capacity is
a `uint16_t`. -/
structure DimRegistry where
  mode : DimRegMode
  entries : List DimRegEntry
  slots : Nat → DimRegEntry
  hashCap : Nat

def DimRegistry.count (reg : DimRegistry) : Nat := reg.entries.length

def dimRegistryInit : DimRegistry :=
  { mode := .linear, entries := [], slots := fun _ => ⟨0,0⟩, hashCap := 0 }

def dimHash (dim : Int) : Nat :=
  let x := (dim % 2 ^ 32).toNat
  let x := ((x / 2 ^ 16) ^^^ x) * 0x45d9f3b % 2 ^ 32
  let x := ((x / 2 ^ 16) ^^^ x) * 0x45d9f3b % 2 ^ 32
  (x / 2 ^ 16) ^^^ x

def nextPow2U16 (v : Nat) : Nat :=
  let v := v - 1
  let v := v ||| v / 2
  let v := v ||| v / 4
  let v := v ||| v / 16
  let v := v ||| v / 256
  let v := (v + 1) % 2 ^ 16
  if v < 16 then 16 else v

def linearFind (reg : DimRegistry) (dim : Int) : Option Nat :=
  (reg.entries.find? (fun e => e.dim = dim)).map DimRegEntry.binIdx

def sortedFind (reg : DimRegistry) (dim : Int) : Option Nat :=
  match bsearch (fun i => (reg.entries.getD i ⟨0,0⟩).dim) dim reg.entries.length 0
      reg.entries.length with
  | .inl i => some (reg.entries.getD i ⟨0,0⟩).binIdx
  | .inr _ => none

def hashFind (reg : DimRegistry) (dim : Int) : Option Nat :=
  match probe (fun i => reg.slots i = ⟨0,0⟩ || (reg.slots i).dim = dim) (reg.hashCap - 1)
      reg.hashCap (dimHash dim &&& (reg.hashCap - 1)) with
  | some i => if reg.slots i = ⟨0,0⟩ then none else some (reg.slots i).binIdx
  | none => none

def dimRegistryFind (reg : DimRegistry) (dim : Int) : Option Nat :=
  match reg.mode with
  | .linear => linearFind reg dim
  | .sorted => sortedFind reg dim
  | .hash => hashFind reg dim

/-- First empty slot; a table without one is left as it is. -/
def hashInsert (cap : Nat) (slots : Nat → DimRegEntry) (e : DimRegEntry) : Nat → DimRegEntry :=
  match probe (fun i => slots i = ⟨0,0⟩) (cap - 1) cap (dimHash e.dim &&& (cap - 1)) with
  | some i => Function.update slots i e
  | none => slots

def upgradeToSorted (reg : DimRegistry) : DimRegistry :=
  { reg with mode := .sorted, entries := reg.entries.insertionSort (fun a b => a.dim ≤ b.dim) }

def upgradeToHash (reg : DimRegistry) : DimRegistry :=
  let newCap := nextPow2U16 (reg.count * 4 % 2 ^ 16)
  let newCap := if newCap < 128 then 128 else newCap
  { reg with
    mode := .hash
    slots := reg.entries.foldl (hashInsert newCap) (fun _ => ⟨0,0⟩)
    hashCap := newCap }

/-- `none` when the 16-bit capacity wraps to zero and the insertions leave the array. -/
def hashGrow (reg : DimRegistry) : Option DimRegistry :=
  let newCap := reg.hashCap * 2 % 2 ^ 16
  if newCap = 0 then none
  else
    let old := ((List.range reg.hashCap).map reg.slots).filter (fun e => e ≠ ⟨0,0⟩)
    some { reg with slots := old.foldl (hashInsert newCap) (fun _ => ⟨0,0⟩), hashCap := newCap }

def dimRegistryPut (reg : DimRegistry) (dim : Int) : Option (DimRegistry × Nat) :=
  match dimRegistryFind reg dim with
  | some existing => some (reg,existing)
  | none => do
    let binIdx := reg.count
    let e : DimRegEntry := ⟨dim,binIdx⟩
    match reg.mode with
    | .linear =>
      let reg := { reg with entries := reg.entries ++ [e] }
      return (if dimRegThresholdLinear < reg.count then upgradeToSorted reg else reg,binIdx)
    | .sorted =>
      let reg := { reg with entries := reg.entries.orderedInsert (fun a b => a.dim ≤ b.dim) e }
      return (if dimRegThresholdSorted < reg.count then upgradeToHash reg else reg,binIdx)
    | .hash =>
      let reg ← if reg.hashCap * 3 < (reg.count + 1) * 4 then hashGrow reg else some reg
      return ({ reg with
        slots := hashInsert reg.hashCap reg.slots e, entries := reg.entries ++ [e] },binIdx)

/-- The registry with its arrays: the bins, `capacity` of which fit, and room for `entriesCap`
entries. Both sizes are `uint16_t`. -/
structure BinRegistry (β : Type) where
  reg : DimRegistry
  bins : Nat → Option β
  capacity : Nat
  entriesCap : Nat

def binRegistryInit {β : Type} : BinRegistry β :=
  { reg := dimRegistryInit, bins := fun _ => none
    capacity := dimRegThresholdLinear, entriesCap := dimRegThresholdLinear }

def binsGrow (capacity binIdx : Nat) : Nat :=
  if capacity ≤ binIdx then
    let newCap := capacity * 2 % 2 ^ 16
    if newCap < 16 then 16 else newCap
  else capacity

def entriesGrow (entriesCap count : Nat) : Nat :=
  if entriesCap ≤ count then entriesCap * 2 % 2 ^ 16 else entriesCap

/-- `dim_registry_put` with its bins; `none` when it writes past the end of an array. -/
def binRegistryPut {β : Type} (r : BinRegistry β) (dim : Int) (bin : β) :
    Option (BinRegistry β × Nat) :=
  match dimRegistryFind r.reg dim with
  | some existing => some (r,existing)
  | none =>
    let binIdx := r.reg.count
    let capacity := binsGrow r.capacity binIdx
    let entriesCap := entriesGrow r.entriesCap binIdx
    if capacity ≤ binIdx ∨ entriesCap ≤ binIdx then none
    else do
      let (reg,_) ← dimRegistryPut r.reg dim
      -- `upgrade_to_sorted` makes room for all the entries of the sorted mode.
      let entriesCap := if r.reg.mode = .linear ∧ reg.mode = .sorted
        then max entriesCap dimRegThresholdSorted else entriesCap
      return ({ reg, bins := Function.update r.bins binIdx (some bin), capacity, entriesCap },binIdx)

end Gravel
