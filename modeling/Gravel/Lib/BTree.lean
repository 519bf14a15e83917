import Gravel.Lib.BinarySearch
import Mathlib.Algebra.BigOperators.Group.List.Basic
import Mathlib.Algebra.GroupWithZero.Nat

namespace BTree
open BinarySearch

variable {κ ν : Type}

/-- B-tree nodes of minimum degree `t`: an inner node has one child more than items. -/
inductive Node (κ ν : Type) where
  | leaf (items : List (κ × ν))
  | node (items : List (κ × ν)) (children : List (Node κ ν))

namespace Node

def items : Node κ ν → List (κ × ν)
  | leaf items => items
  | node items _ => items

def children : Node κ ν → List (Node κ ν)
  | leaf _ => []
  | node _ children => children

@[simp] theorem items_leaf (l : List (κ × ν)) : (leaf l).items = l := rfl

@[simp] theorem items_node (l : List (κ × ν)) (cs : List (Node κ ν)) : (node l cs).items = l := rfl

@[simp] theorem children_node (l : List (κ × ν)) (cs : List (Node κ ν)) :
    (node l cs).children = cs := rfl

end Node

mutual

def collect : Node κ ν → List (κ × ν)
  | .leaf items => items
  | .node items children => collectChildren items children

def collectChildren : List (κ × ν) → List (Node κ ν) → List (κ × ν)
  | items, [] => items
  | [], c :: _ => collect c
  | item :: items, c :: children => collect c ++ item :: collectChildren items children

end

def halves (t : Nat) : Node κ ν → Option (Node κ ν × (κ × ν) × Node κ ν)
  | .leaf items => do
    let median ← items[t - 1]?
    return (.leaf (items.take (t - 1)),median,.leaf (items.drop t))
  | .node items children => do
    let median ← items[t - 1]?
    return (.node (items.take (t - 1)) (children.take t),median,
      .node (items.drop t) (children.drop t))

variable [LinearOrder κ]

def search (items : List (κ × ν)) (k : κ) : Nat ⊕ Nat :=
  bsearch (fun i => (items.map Prod.fst).getD i k) k items.length 0 items.length

/-- Insertion below a node that is not full, in an arena of `cap` nodes of which `used` are
taken. Full nodes are split on the way down. `none` when the arena is exhausted by a split. -/
def insertNonfull (t cap : Nat) (k : κ) (v : ν) :
    Nat → Nat → Node κ ν → Option (Node κ ν × Nat × Bool)
  | 0, _, _ => none
  | _ + 1, used, .leaf items =>
    match search items k with
    | .inl i => some (.leaf (items.set i (k,v)),used,false)
    | .inr i =>
      if items.length < 2 * t - 1 then some (.leaf (items.insertIdx i (k,v)),used,true)
      else none
  | fuel + 1, used, .node items children =>
    match search items k with
    | .inl i => some (.node (items.set i (k,v)) children,used,false)
    | .inr i => do
      let child ← children[i]?
      if child.items.length = 2 * t - 1 then
        if cap ≤ used then none
        else
          let (y,median,z) ← halves t child
          let items := items.insertIdx i median
          let children := (children.set i y).insertIdx (i + 1) z
          if median.1 = k then
            return (.node (items.set i (k,v)) children,used + 1,false)
          else
            let i := if median.1 < k then i + 1 else i
            let child ← children[i]?
            let (child,used,inserted) ← insertNonfull t cap k v fuel (used + 1) child
            return (.node items (children.set i child),used,inserted)
      else
        let (child,used,inserted) ← insertNonfull t cap k v fuel used child
        return (.node items (children.set i child),used,inserted)

/-- A tree whose nodes live in an arena of fixed size that is only reset as a whole. -/
structure Tree (κ ν : Type) where
  root : Option (Node κ ν)
  count : Nat
  arenaCap : Nat
  arenaUsed : Nat

/-- Bound on the descent; no tree that fits an arena of `2 ^ 32` nodes is as deep. -/
def maxDepth : Nat := 64

def Tree.refuses (t : Nat) (tree : Tree κ ν) : Bool :=
  tree.arenaCap ≤ tree.arenaUsed && tree.root.all (fun root => root.items.length = 2 * t - 1)

/-- Insert or update, with the value that the insertion returns: whether the key is new. `none`
when the arena is exhausted by a split. -/
def Tree.insertNew (t : Nat) (tree : Tree κ ν) (k : κ) (v : ν) : Option (Tree κ ν × Bool) :=
  match tree.root with
  | none =>
    if tree.arenaCap ≤ tree.arenaUsed then some (tree,false)
    else some ({ tree with
      root := some (.leaf [(k,v)]), count := 1, arenaUsed := tree.arenaUsed + 1 },true)
  | some root => do
    if root.items.length = 2 * t - 1 then
      if tree.arenaCap ≤ tree.arenaUsed then return (tree,false)
      else if tree.arenaCap ≤ tree.arenaUsed + 1 then none
      else
        let (y,median,z) ← halves t root
        let (root,used,inserted) ← insertNonfull t tree.arenaCap k v maxDepth
          (tree.arenaUsed + 2) (.node [median] [y,z])
        return ({ tree with
          root := some root, arenaUsed := used
          count := if inserted then tree.count + 1 else tree.count },inserted)
    else
      let (root,used,inserted) ←
        insertNonfull t tree.arenaCap k v maxDepth tree.arenaUsed root
      return ({ tree with
        root := some root, arenaUsed := used
        count := if inserted then tree.count + 1 else tree.count },inserted)

def Tree.insert (t : Nat) (tree : Tree κ ν) (k : κ) (v : ν) : Option (Tree κ ν) :=
  (tree.insertNew t k v).map Prod.fst

def Tree.collect (tree : Tree κ ν) : List (κ × ν) :=
  match tree.root with
  | none => []
  | some root => BTree.collect root

end BTree
