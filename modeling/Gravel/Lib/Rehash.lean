import Gravel.Lib.Shift
import Mathlib.Order.Interval.Finset.Nat

namespace Rehash
open LinearProbe Function

/-- A slot format for linear-probing tables: which slots are empty, how a slot is
emptied, the hash of a key, and the pace and threshold of incremental growth. -/
structure Layout (κ σ : Type) where
  key : σ → Option κ
  blank : σ
  vacate : σ → σ
  hash : κ → Nat
  batch : Nat
  crowded : Nat → Nat → Bool
  /-- The capacity of the next table, in the arithmetic of the machine. -/
  double : Nat → Nat
  /-- Whether an insertion that finds every slot taken gives up after one round. -/
  wraps : Bool
  key_blank : key blank = none
  key_vacate : ∀ s, key (vacate s) = none
  three_le_batch : 3 ≤ batch

/-- The table that is being emptied; the slots before `cursor` have been visited. -/
structure OldTable (σ : Type) where
  slots : Nat → σ
  capacity : Nat
  cursor : Nat

structure Table (σ : Type) where
  slots : Nat → σ
  capacity : Nat
  count : Nat
  old : Option (OldTable σ)

section Operations

variable {κ σ : Type} (L : Layout κ σ) [DecidableEq κ]

def Layout.home (capacity : Nat) (k : κ) : Nat := L.hash k &&& (capacity - 1)

abbrev Layout.keys (slots : Nat → σ) : Nat → Option κ := fun i => L.key (slots i)

def freeSlot (slots : Nat → σ) (capacity : Nat) (k : κ) : Option Nat :=
  probe (fun i => (L.key (slots i)).isNone) (capacity - 1) capacity (L.home capacity k)

/-- Slot of `k` or the first empty slot on its way; `none` after a round without either. -/
def find (slots : Nat → σ) (capacity : Nat) (k : κ) : Option Nat :=
  probe (stopFor (L.keys slots) k) (capacity - 1) capacity (L.home capacity k)

def lookup (slots : Nat → σ) (capacity : Nat) (k : κ) : Option Nat :=
  (find L slots capacity k).filter (fun i => L.key (slots i) = some k)

/-- Move up to `batch` entries of the old table, visiting its slots from the cursor on. -/
def migrate (capacity : Nat) :
    Nat → (Nat → σ) → OldTable σ → Nat → Option ((Nat → σ) × OldTable σ)
  | 0, slots, old, _ => some (slots,old)
  | fuel + 1, slots, old, migrated =>
    if old.cursor < old.capacity ∧ migrated < L.batch then
      let slot := old.slots old.cursor
      match L.key slot with
      | some k => do
        let h ← freeSlot L slots capacity k
        migrate capacity fuel (update slots h slot)
          { old with
            slots := update old.slots old.cursor (L.vacate slot)
            cursor := old.cursor + 1 } (migrated + 1)
      | none => migrate capacity fuel slots { old with cursor := old.cursor + 1 } migrated
    else some (slots,old)

def rehashStep (t : Table σ) : Option (Table σ) :=
  match t.old with
  | none => some t
  | some old => do
    let (slots,old) ← migrate L t.capacity old.capacity t.slots old 0
    if old.capacity ≤ old.cursor then return { t with slots := slots, old := none }
    else return { t with slots := slots, old := some old }

def beginGrow (t : Table σ) : Table σ :=
  { slots := fun _ => L.blank, capacity := L.double t.capacity, count := t.count,
    old := some ⟨t.slots,t.capacity,0⟩ }

def growth (t : Table σ) : Table σ :=
  if t.old.isNone && L.crowded t.count t.capacity then beginGrow L t else t

def get (t : Table σ) (k : κ) : Option (Table σ × Option σ) := do
  let t ← rehashStep L t
  match lookup L t.slots t.capacity k with
  | some i => return (t,some (t.slots i))
  | none =>
    match t.old with
    | none => return (t,none)
    | some old => return (t,(lookup L old.slots old.capacity k).map old.slots)

/-- Change the entry of `k` in place, in whichever table holds it, or add `fresh`. -/
def put (t : Table σ) (k : κ) (change : σ → σ) (fresh : σ) : Option (Table σ) := do
  let t ← rehashStep L t
  let t := growth L t
  let h ← match find L t.slots t.capacity k with
    | some h => some h
    -- A table without slots is not searched at all: the first access is out of bounds.
    | none => if L.wraps && 0 < t.capacity then some (L.home t.capacity k) else none
  if L.key (t.slots h) = some k then
    return { t with slots := update t.slots h (change (t.slots h)) }
  else
    match t.old.bind (fun old => (lookup L old.slots old.capacity k).map (fun i => (old,i))) with
    | some (old,i) =>
      return { t with
        old := some { old with slots := update old.slots i (change (old.slots i)) } }
    | none =>
      return { t with slots := update t.slots h fresh, count := t.count + 1 }

/-- Remove `k`: backward shift in the new table, a plain hole in the old one. The
Boolean tells whether the key was found. -/
def remove (t : Table σ) (k : κ) : Option (Table σ × Bool) := do
  let t ← rehashStep L t
  match lookup L t.slots t.capacity k with
  | some h =>
    return ({ t with
      slots := shiftRemove L.key L.vacate (L.home t.capacity) t.capacity t.slots h
      count := t.count - 1 },true)
  | none =>
    match t.old.bind (fun old => (lookup L old.slots old.capacity k).map (fun i => (old,i))) with
    | some (old,i) =>
      return ({ t with
        old := some { old with slots := update old.slots i (L.vacate (old.slots i)) }
        count := t.count - 1 },true)
    | none => return (t,false)

def finishRehash : Nat → Table σ → Option (Table σ)
  | 0, _ => none
  | fuel + 1, t =>
    match t.old with
    | none => some t
    | some _ => do
      let t ← rehashStep L t
      finishRehash fuel t

end Operations

end Rehash
