import Gravel.Lib.BTree

namespace Gravel
open BTree

/-- `KBT_ORDER`; a node holds up to `KBT_MAX_KEYS = 2 * KBT_ORDER - 1` keys. -/
def kbtOrder : Nat := 64

def kbtNodeSize : Nat := 2560

abbrev KeyWriteEntry := Nat × UInt64

abbrev KBTNode := Node Nat UInt64

abbrev KeyBTree := Tree Nat UInt64

def kbtInit (budgetBytes : Nat) : KeyBTree :=
  let budget := (budgetBytes + 4095) / 4096 * 4096
  { root := none, count := 0, arenaCap := max (budget / kbtNodeSize) 4, arenaUsed := 0 }

def kbtFull (t : KeyBTree) : Bool := t.arenaCap - t.arenaUsed < 3

def kbtClear (t : KeyBTree) : KeyBTree :=
  { t with root := none, count := 0, arenaUsed := 0 }

def kbtInsertNew (t : KeyBTree) (entryIdx : Nat) (featId : UInt64) : Option (KeyBTree × Bool) :=
  t.insertNew kbtOrder entryIdx featId

def kbtInsert (t : KeyBTree) (entryIdx : Nat) (featId : UInt64) : Option KeyBTree :=
  t.insert kbtOrder entryIdx featId

def kbtCollect (t : KeyBTree) : List KeyWriteEntry := t.collect

end Gravel
